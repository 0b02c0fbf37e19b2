/-
No reading goes past a fence.

A fence is a token that stands outside all braces and that no expression
can take in: a semicolon, or a keyword that starts a statement. However
malformed the tokens before it are, a statement that starts before the
fence is read, or fails, without a look at what lies behind it. So
putting more tokens behind the fence leaves every reading as it was, with
those tokens left over in addition.

# The invariant

`Fenced k depth ts`: the tokens end with the fence `k`, and the braces of
`ts`, counted from `depth` open ones, are all closed at the end. `depth`
is the number of blocks that the reading stands in, so the reading of a
block can never come to the end of `ts`: there its own brace would still
be open. At depth zero the last token is out of reach for another
reason. An expression does not take a fence; a statement may take a
semicolon, but then it is over.

`Extends` compares the two readings. Of a success it says also that what
is left is fenced again, which is what the next reading needs.
-/
import Scriptlet.Proofs.Read.Unbounded
import Scriptlet.Program

namespace Scriptlet

-- ============================================================== fences

/-- The tokens no expression can take in. -/
def Token.fences (t : Token) : Bool :=
  t = .symbol .semicolon || t.startsStatement

/-- The tokens end with `k`, outside all braces when `depth` of them are
open before the tokens. -/
structure Fenced (k : Token) (depth : Nat) (ts : List Token) : Prop where
  last : ts.getLast? = some k
  closed : braceDepth depth ts = 0

/-- A fence is no brace. -/
private theorem Token.depthAfter_of_fences {t : Token} (h : t.fences = true)
    (depth : Nat) :
    t.depthAfter depth = depth := by
  unfold Token.depthAfter
  split
  · cases h
  · cases h
  · rfl

section
variable {k t : Token} {depth : Nat} {ts : List Token}

/-- There is at least the fence. -/
theorem Fenced.exists_cons (h : Fenced k depth ts) :
    ∃ t tail, ts = t :: tail := by
  cases ts with
  | nil => exact absurd h.last (by simp)
  | cons t tail => exact ⟨t, tail, rfl⟩

/-- Behind the first token the rest is fenced, unless the first token is
the fence itself. -/
theorem Fenced.behind (h : Fenced k depth (t :: ts)) (more : ts ≠ []) :
    Fenced k (t.depthAfter depth) ts := by
  obtain ⟨second, tail, rfl⟩ := List.exists_cons_of_ne_nil more
  exact ⟨by rw [← h.last, List.getLast?_cons_cons], h.closed⟩

/-- Inside a block the first token is never the fence, which stands outside. -/
private theorem Fenced.behind_inside (hk : k.fences = true)
    (h : Fenced k depth (t :: ts)) (inside : 0 < depth) :
    Fenced k (t.depthAfter depth) ts := by
  refine h.behind ?_
  intro nil
  subst nil
  have closed : t.depthAfter depth = 0 := h.closed
  have same : t = k := Option.some.inj h.last
  rw [same, Token.depthAfter_of_fences hk] at closed
  omega

/-- A token that expressions take is not the fence. -/
private theorem Fenced.behind_taken (hk : k.fences = true)
    (h : Fenced k depth (t :: ts)) (taken : t.fences = false) :
    Fenced k (t.depthAfter depth) ts := by
  refine h.behind ?_
  intro nil
  subst nil
  have same : t = k := Option.some.inj h.last
  rw [same, hk] at taken
  cases taken

end

-- ==================================================== longer readings

/-- The second reading is the first one with the tokens `behind` left
over in addition, and what the first one gives has the property. -/
def Extends {α : Type} (behind : List Token) (more : α → α) (P : α → Prop) :
    Reading α → Reading α → Prop
  | .ok a, r => P a ∧ r = .ok (more a)
  | .error failure, r => r = .error ⟨failure.cause, failure.rest ++ behind⟩

/-- What was read, with more tokens left over. -/
def leaving {α : Type} (behind : List Token) (a : α × List Token) :
    α × List Token :=
  (a.1, a.2 ++ behind)

namespace Extends

variable {α β : Type} {behind : List Token} {more : α → α} {more' : β → β}
    {P : α → Prop} {Q : β → Prop} {r r' : Reading α}

/-- The second reading goes on from fenced tokens, whichever way the first
one has been extended. -/
private theorem bind {f : α → Reading β} (h : Extends behind more P r r')
    (hf : ∀ a, P a → Extends behind more' Q (f a) (f (more a))) :
    Extends behind more' Q (r >>= f) (r' >>= f) := by
  cases r with
  | error failure =>
      have eq : r' = _ := h
      rw [eq]
      rfl
  | ok a =>
      obtain ⟨pa, eq⟩ := h
      rw [eq]
      exact hf a pa

/-- A token that is there is found missing alike. -/
private theorem of_missing (wanted : Wanted) (t : Token) (ts : List Token) :
    Extends behind more P (missing wanted (t :: ts))
      (missing wanted (t :: ts ++ behind)) :=
  rfl

/-- There is a token to take, for the fence is still ahead. -/
private theorem of_missingOperand {k : Token} {depth : Nat} {ts : List Token}
    (h : Fenced k depth ts) :
    Extends behind more P (missingOperand ts)
      (missingOperand (ts ++ behind)) := by
  obtain ⟨t, tail, rfl⟩ := h.exists_cons
  rfl

end Extends

-- ============================================== pieces without depth

section
variable {k : Token} (hk : k.fences = true) (behind : List Token) {depth : Nat}
include hk

/-- A symbol that is no fence may be taken. -/
private theorem expect_extends {s : Symbol}
    (hs : Token.fences (.symbol s) = false) {ts : List Token}
    (h : Fenced k depth ts) :
    Extends behind (· ++ behind) (Fenced k (Token.depthAfter depth (.symbol s)))
      (expect s ts) (expect s (ts ++ behind)) := by
  obtain ⟨t, tail, rfl⟩ := h.exists_cons
  by_cases eq : t = .symbol s
  · subst eq
    have found (rest : List Token) : expect s (.symbol s :: rest) = .ok rest :=
      if_pos rfl
    rw [List.cons_append, found, found]
    exact ⟨h.behind_taken hk hs, rfl⟩
  · have fails (rest : List Token) :
        expect s (t :: rest) = missing (.symbol s) (t :: rest) := by
      unfold expect
      split
      · next found rest' same =>
          cases same
          exact if_neg fun same => eq (congrArg Token.symbol same)
      · rfl
    rw [List.cons_append, fails, fails]
    exact .of_missing _ _ _

/-- A name is no fence. -/
private theorem expectName_extends {ts : List Token} (h : Fenced k depth ts) :
    Extends behind (leaving behind) (fun a => Fenced k depth a.2)
      (expectName ts) (expectName (ts ++ behind)) := by
  obtain ⟨t, tail, rfl⟩ := h.exists_cons
  cases t with
  | ident name => exact ⟨h.behind_taken hk rfl, rfl⟩
  | illegal | int | str | symbol | keyword => exact .of_missing _ _ _

/-- The names, commas and the parenthesis are no fences. -/
private theorem readMoreParams_extends {ts : List Token}
    (h : Fenced k depth ts) :
    Extends behind (leaving behind) (fun a => Fenced k depth a.2)
      (readMoreParams ts) (readMoreParams (ts ++ behind)) := by
  fun_induction readMoreParams ts with
  | case1 name rest ih =>
      have rest_fenced : Fenced k depth rest :=
        (h.behind_taken hk rfl).behind_taken hk rfl
      rw [List.cons_append, List.cons_append, readMoreParams]
      exact (ih rest_fenced).bind fun a ha => ⟨ha, rfl⟩
  | case2 rest not_name =>
      obtain ⟨t, tail, rfl⟩ := Fenced.exists_cons (h.behind_taken hk rfl)
      cases t with
      | ident name => exact absurd rfl (not_name name tail)
      | illegal | int | str | symbol | keyword => exact .of_missing _ _ _
  | case3 ts not_next not_comma =>
      obtain ⟨t, tail, rfl⟩ := h.exists_cons
      have other : t ≠ .symbol .comma := by
        rintro rfl
        exact not_comma tail rfl
      rw [List.cons_append, readMoreParams_of_ne (head?_cons_ne other _)]
      exact (expect_extends hk behind rfl h).bind fun rest hr => ⟨hr, rfl⟩

/-- The whole list, by its first token. -/
private theorem readParams_extends {ts : List Token} (h : Fenced k depth ts) :
    Extends behind (leaving behind) (fun a => Fenced k depth a.2)
      (readParams ts) (readParams (ts ++ behind)) := by
  obtain ⟨t, tail, rfl⟩ := h.exists_cons
  by_cases eq : t = .symbol .closeParen
  · subst eq
    exact ⟨h.behind_taken hk rfl, rfl⟩
  · rw [List.cons_append, readParams_of_ne (head?_cons_ne eq _),
      readParams_of_ne (head?_cons_ne eq _)]
    refine (expectName_extends hk behind h).bind fun a ha => ?_
    exact (readMoreParams_extends hk behind ha).bind fun b hb => ⟨hb, rfl⟩

end

-- ==================================================== all the functions

/-- All reading functions are as they were, whatever their bound, when
more tokens come to stand behind a fence. -/
structure Unmoved (k : Token) (behind : List Token) (n : Nat) : Prop where
  expr {depth : Nat} (level : Nat) {ts : List Token} (h : Fenced k depth ts) :
    Extends behind (leaving behind) (fun a => Fenced k depth a.2)
      (readExpr n level ts) (readExpr n level (ts ++ behind))
  operand {depth : Nat} {ts : List Token} (h : Fenced k depth ts) :
    Extends behind (leaving behind) (fun a => Fenced k depth a.2)
      (readOperand n ts) (readOperand n (ts ++ behind))
  tail {depth : Nat} (level : Nat) (left : Expr) {ts : List Token}
    (h : Fenced k depth ts) :
    Extends behind (leaving behind) (fun a => Fenced k depth a.2)
      (readTail n level left ts) (readTail n level left (ts ++ behind))
  args {depth : Nat} {ts : List Token} (h : Fenced k depth ts) :
    Extends behind (leaving behind) (fun a => Fenced k depth a.2)
      (readArgs n ts) (readArgs n (ts ++ behind))
  moreArgs {depth : Nat} {ts : List Token} (h : Fenced k depth ts) :
    Extends behind (leaving behind) (fun a => Fenced k depth a.2)
      (readMoreArgs n ts) (readMoreArgs n (ts ++ behind))
  elseBranch {depth : Nat} {ts : List Token} (h : Fenced k depth ts) :
    Extends behind (leaving behind) (fun a => Fenced k depth a.2)
      (readElse n ts) (readElse n (ts ++ behind))
  /-- A block is read one brace deeper than what follows it. -/
  block {depth : Nat} {ts : List Token} (h : Fenced k (depth + 1) ts) :
    Extends behind (leaving behind) (fun a => Fenced k depth a.2)
      (readBlock n ts) (readBlock n (ts ++ behind))
  /-- A statement outside all braces may take the fence, if that is its
  semicolon; it may not start with the fence, if that is its keyword. -/
  stmt {depth : Nat} {ts : List Token} (h : Fenced k depth ts)
    (start : 0 < depth ∨ ts ≠ [k] ∨ k = .symbol .semicolon) :
    Extends behind (leaving behind)
      (fun a => Fenced k depth a.2 ∨ depth = 0 ∧ a.2 = [])
      (readStmtWithin n ts) (readStmtWithin n (ts ++ behind))

section
variable {k : Token} {behind : List Token} {n : Nat} (hk : k.fences = true)
include hk

omit hk in
/-- The operator is taken, and its operand is as before. -/
private theorem Unmoved.unary (ih : Unmoved k behind n) (op : UnaryOp)
    {depth : Nat} {ts : List Token} (h : Fenced k depth ts) :
    Extends behind (leaving behind) (fun a => Fenced k depth a.2)
      (do
        let (operand, rest) ← readExpr n unaryLevel ts
        return (.unary op operand, rest) : Reading (Expr × List Token))
      (do
        let (operand, rest) ← readExpr n unaryLevel (ts ++ behind)
        return (.unary op operand, rest)) :=
  (ih.expr _ h).bind fun _ ha => ⟨ha, rfl⟩

private theorem Unmoved.operand_succ (ih : Unmoved k behind n) {depth : Nat}
    {ts : List Token} (h : Fenced k depth ts) :
    Extends behind (leaving behind) (fun a => Fenced k depth a.2)
      (readOperand (n + 1) ts) (readOperand (n + 1) (ts ++ behind)) := by
  obtain ⟨t, tail, rfl⟩ := h.exists_cons
  cases t with
  | illegal c => exact .of_missingOperand h
  | ident name => exact ⟨h.behind_taken hk rfl, rfl⟩
  | str body => exact ⟨h.behind_taken hk rfl, rfl⟩
  | int digits =>
      rw [List.cons_append, readOperand, readOperand]
      cases Word.ofDigits? digits with
      | none => rfl
      | some value => exact ⟨h.behind_taken hk rfl, rfl⟩
  | symbol s =>
      cases s
      case minus => exact ih.unary .neg (h.behind_taken hk rfl)
      case bang => exact ih.unary .not (h.behind_taken hk rfl)
      case openParen =>
        rw [List.cons_append, readOperand, readOperand]
        refine (ih.expr _ (h.behind_taken hk rfl)).bind fun a ha => ?_
        exact (expect_extends hk behind rfl ha).bind fun rest hr => ⟨hr, rfl⟩
      all_goals exact .of_missingOperand h
  | keyword word =>
      cases word with
      | trueWord => exact ⟨h.behind_taken hk rfl, rfl⟩
      | falseWord => exact ⟨h.behind_taken hk rfl, rfl⟩
      | ifWord =>
          rw [List.cons_append, readOperand, readOperand]
          refine (expect_extends hk behind rfl (h.behind_taken hk rfl)).bind
            fun _ h₁ => ?_
          refine (ih.expr _ h₁).bind fun _ h₂ => ?_
          refine (expect_extends hk behind rfl h₂).bind fun _ h₃ => ?_
          refine (expect_extends hk behind rfl h₃).bind fun _ h₄ => ?_
          refine (ih.block h₄).bind fun _ h₅ => ?_
          exact (ih.elseBranch h₅).bind fun _ h₆ => ⟨h₆, rfl⟩
      | fnWord =>
          rw [List.cons_append, readOperand, readOperand]
          refine (expect_extends hk behind rfl (h.behind_taken hk rfl)).bind
            fun _ h₁ => ?_
          refine (readParams_extends hk behind h₁).bind fun _ h₂ => ?_
          refine (expect_extends hk behind rfl h₂).bind fun _ h₃ => ?_
          exact (ih.block h₃).bind fun _ h₄ => ⟨h₄, rfl⟩
      | letWord | elseWord | returnWord => exact .of_missingOperand h

private theorem Unmoved.tail_succ (ih : Unmoved k behind n) {depth : Nat}
    (level : Nat) (left : Expr) {ts : List Token} (h : Fenced k depth ts) :
    Extends behind (leaving behind) (fun a => Fenced k depth a.2)
      (readTail (n + 1) level left ts)
        (readTail (n + 1) level left (ts ++ behind)) := by
  obtain ⟨t, tail, rfl⟩ := h.exists_cons
  cases t with
  | illegal | ident | int | str | keyword => exact ⟨h, rfl⟩
  | symbol s =>
      rw [List.cons_append, readTail, readTail]
      cases eq : BinaryOp.ofSymbol? s with
      | some op =>
          obtain rfl := BinaryOp.ofSymbol?_eq_some_iff.1 eq
          have tail_fenced : Fenced k depth tail := by
            cases op <;> exact h.behind_taken hk rfl
          by_cases above : level < op.level
          · simp only [if_pos above]
            exact (ih.expr _ tail_fenced).bind fun a ha => ih.tail _ _ ha
          · simp only [if_neg above]
            exact ⟨h, rfl⟩
      | none =>
          by_cases paren : s = .openParen
          · subst paren
            exact (ih.args (h.behind_taken hk rfl)).bind
              fun a ha => ih.tail _ _ ha
          · simp only [if_neg paren]
            exact ⟨h, rfl⟩

omit hk in
/-- Whether a `return` is bare is settled by the token behind it. -/
theorem endsReturn_append (t : Token) (ts : List Token) :
    endsReturn (t :: ts ++ behind) = endsReturn (t :: ts) := by
  cases t with
  | symbol s => cases s <;> rfl
  | illegal | ident | int | str | keyword => rfl

/-- Taking the optional semicolon of a statement. Inside a block it is
never the fence. -/
private theorem skipSemicolon_extends {α : Type} (a : α) {depth : Nat}
    {ts : List Token} (h : Fenced k depth ts) :
    Extends behind (leaving behind)
      (fun b => Fenced k depth b.2 ∨ depth = 0 ∧ b.2 = [])
      (.ok (a, skipSemicolon ts)) (.ok (a, skipSemicolon (ts ++ behind))) := by
  obtain ⟨t, tail, rfl⟩ := h.exists_cons
  by_cases eq : t = .symbol .semicolon
  · subst eq
    refine ⟨?_, rfl⟩
    rcases Nat.eq_zero_or_pos depth with outside | inside
    · rcases Classical.em (tail = []) with nil | more
      · exact .inr ⟨outside, nil⟩
      · exact .inl (h.behind more)
    · exact .inl (h.behind_inside hk inside)
  · have kept (rest : List Token) : skipSemicolon (t :: rest) = t :: rest := by
      unfold skipSemicolon
      split
      · next same => cases same; exact absurd rfl eq
      · rfl
    rw [List.cons_append, kept, kept]
    exact ⟨.inl h, rfl⟩

/-- The last value of a statement, with the optional semicolon. -/
private theorem Unmoved.value_then (ih : Unmoved k behind n)
    (make : Expr → Stmt) {depth : Nat} {ts : List Token}
    (h : Fenced k depth ts) :
    Extends behind (leaving behind)
      (fun a => Fenced k depth a.2 ∨ depth = 0 ∧ a.2 = [])
      (do
        let (value, rest) ← readExpr n lowestLevel ts
        return (make value, skipSemicolon rest) : Reading (Stmt × List Token))
      (do
        let (value, rest) ← readExpr n lowestLevel (ts ++ behind)
        return (make value, skipSemicolon rest)) :=
  (ih.expr _ h).bind fun _ ha => skipSemicolon_extends hk _ ha

/-- Outside all braces a statement may take the fence itself, when it is a
semicolon. So the rest is fenced or empty. -/
private theorem Unmoved.stmt_succ (ih : Unmoved k behind n) {depth : Nat}
    {ts : List Token} (h : Fenced k depth ts)
    (start : 0 < depth ∨ ts ≠ [k] ∨ k = .symbol .semicolon) :
    Extends behind (leaving behind)
      (fun a => Fenced k depth a.2 ∨ depth = 0 ∧ a.2 = [])
      (readStmtWithin (n + 1) ts) (readStmtWithin (n + 1) (ts ++ behind)) := by
  obtain ⟨t, tail, rfl⟩ := h.exists_cons
  -- a keyword is not the fence here, so it can be taken
  have behind_keyword (word : t.startsStatement = true) :
      Fenced k depth tail := by
    have same_depth : t.depthAfter depth = depth :=
      Token.depthAfter_of_fences
        (by unfold Token.fences; rw [word, Bool.or_true]) depth
    rw [← same_depth]
    rcases start with inside | not_alone | semicolon
    · exact h.behind_inside hk inside
    · refine h.behind ?_
      intro nil
      subst nil
      exact not_alone (congrArg (fun t => [t]) (Option.some.inj h.last))
    · refine h.behind ?_
      intro nil
      subst nil
      have same : t = k := Option.some.inj h.last
      rw [same, semicolon] at word
      cases word
  by_cases is_let : t = .keyword .letWord
  · subst is_let
    rw [List.cons_append, readStmtWithin, readStmtWithin]
    refine (expectName_extends hk behind (behind_keyword rfl)).bind
      fun _ h₁ => ?_
    refine (expect_extends hk behind rfl h₁).bind fun _ h₂ => ?_
    exact ih.value_then hk _ h₂
  by_cases is_return : t = .keyword .returnWord
  · subst is_return
    have tail_fenced := behind_keyword rfl
    rw [List.cons_append, readStmtWithin, readStmtWithin]
    obtain ⟨second, tail', rfl⟩ := tail_fenced.exists_cons
    rw [endsReturn_append]
    cases endsReturn (second :: tail') with
    | true => exact skipSemicolon_extends hk _ tail_fenced
    | false =>
        exact ih.value_then hk (fun value => .ret (some value)) tail_fenced
  · rw [List.cons_append, readStmtWithin_of_ne _ _ is_let is_return,
      readStmtWithin_of_ne _ _ is_let is_return]
    exact ih.value_then hk _ h

/-- No reading goes past a fence, whatever its bound. -/
theorem unmoved (behind : List Token) (n : Nat) : Unmoved k behind n := by
  induction n with
  | zero =>
      constructor <;> intros <;>
        simp only [readExpr, readOperand, readTail, readArgs, readMoreArgs,
          readElse, readBlock, readStmtWithin] <;>
        exact .of_missingOperand ‹Fenced _ _ _›
  | succ n ih =>
      refine ⟨fun {depth} level {ts} h => ?_, ih.operand_succ hk,
        ih.tail_succ hk, fun {depth ts} h => ?_, fun {depth ts} h => ?_,
        fun {depth ts} h => ?_,
        fun {depth ts} h => ?_, ih.stmt_succ hk⟩
      · rw [readExpr, readExpr]
        exact (ih.operand h).bind fun a ha => ih.tail _ _ ha
      · obtain ⟨t, tail, rfl⟩ := h.exists_cons
        by_cases eq : t = .symbol .closeParen
        · subst eq
          exact ⟨h.behind_taken hk rfl, rfl⟩
        · rw [List.cons_append, readArgs_of_ne _ (head?_cons_ne eq _),
            readArgs_of_ne _ (head?_cons_ne eq _)]
          refine (ih.expr _ h).bind fun a ha => ?_
          exact (ih.moreArgs ha).bind fun b hb => ⟨hb, rfl⟩
      · obtain ⟨t, tail, rfl⟩ := h.exists_cons
        by_cases eq : t = .symbol .comma
        · subst eq
          rw [List.cons_append, readMoreArgs, readMoreArgs]
          refine (ih.expr _ (h.behind_taken hk rfl)).bind fun a ha => ?_
          exact (ih.moreArgs ha).bind fun b hb => ⟨hb, rfl⟩
        · rw [List.cons_append, readMoreArgs_of_ne _ (head?_cons_ne eq _),
            readMoreArgs_of_ne _ (head?_cons_ne eq _)]
          exact (expect_extends hk behind rfl h).bind fun rest hr => ⟨hr, rfl⟩
      · obtain ⟨t, tail, rfl⟩ := h.exists_cons
        by_cases eq : t = .keyword .elseWord
        · subst eq
          rw [List.cons_append, readElse, readElse]
          refine (expect_extends hk behind rfl (h.behind_taken hk rfl)).bind
            fun rest hr => ?_
          exact (ih.block hr).bind fun a ha => ⟨ha, rfl⟩
        · rw [List.cons_append, readElse_of_ne _ (head?_cons_ne eq _),
            readElse_of_ne _ (head?_cons_ne eq _)]
          exact ⟨h, rfl⟩
      · obtain ⟨t, tail, rfl⟩ := h.exists_cons
        by_cases eq : t = .symbol .closeBrace
        · subst eq
          exact ⟨h.behind_taken hk rfl, rfl⟩
        · rw [List.cons_append, readBlock_of_ne _ _ eq, readBlock_of_ne _ _ eq]
          refine (ih.stmt h (.inl (Nat.succ_pos depth))).bind fun a ha => ?_
          rcases ha with fenced | ⟨zero, -⟩
          · exact (ih.block fenced).bind fun b hb => ⟨hb, rfl⟩
          · cases zero

end

end Scriptlet
