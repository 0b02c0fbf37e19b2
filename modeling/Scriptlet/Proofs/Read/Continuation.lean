/-
Reading a text that goes on.

A reading that comes to the end of its tokens says so in its diagnostic.
Here such a reading is compared with the reading of the same tokens with
more behind them, where what comes next is a keyword that starts a
statement. All that was read is read again. Where the end was found in
place of some symbol or name, the keyword is found now, and it stays
ahead. Where it was found in place of an operand the keyword is found
too, but it is taken (`Failure.Resumes`).

# The invariant

`depth` braces are open before the tokens and none is behind them. So the
end of the tokens is never inside a block, and there is only one place
where they can end well before the keyword and badly at it: behind a
`return` outside all braces, which has no value at the end of the input
and wants one before a keyword.
-/
import Scriptlet.Proofs.Read.Fence

namespace Scriptlet

-- =========================================== readings at the end of input

/-- How a failure changes when the tokens go on with `k` and `behind`. -/
inductive Failure.Resumes (k : Token) (behind : List Token) :
    Failure → Failure → Prop where
  /-- The keyword is found missing, and is still ahead. -/
  | expected (wanted : Wanted) :
      Resumes k behind ⟨.expected wanted none, []⟩ ⟨.expected wanted (some k),
        k :: behind⟩
  /-- The keyword is taken for an operand. -/
  | noOperand : Resumes k behind ⟨.noOperand none, []⟩
      ⟨.noOperand (some k), behind⟩
  /-- The failure was about a token. -/
  | blamed {cause : Diagnostic} {rest : List Token} {t : Token}
      (about : cause.blamed = some t) :
        Resumes k behind ⟨cause, rest⟩ ⟨cause, rest ++ k :: behind⟩

/-- The second reading is what becomes of the first one when the tokens
go on with `k` and `behind`, and what the first one gives has the
property. -/
def Resumes {α : Type} (k : Token) (behind : List Token) (more : α → α)
    (P : α → Prop) :
    Reading α → Reading α → Prop
  | .ok a, r => P a ∧ r = .ok (more a)
  | .error failure, r =>
      ∃ failure', failure.Resumes k behind failure' ∧ r = .error failure'

namespace Resumes

variable {α β : Type} {k : Token} {behind : List Token} {more : α → α}
    {more' : β → β} {P : α → Prop} {Q : β → Prop} {r r' : Reading α}

/-- The second reading starts in both where the first has stopped. -/
private theorem bind {f : α → Reading β} (h : Resumes k behind more P r r')
    (hf : ∀ a, P a → Resumes k behind more' Q (f a) (f (more a))) :
    Resumes k behind more' Q (r >>= f) (r' >>= f) := by
  cases r with
  | error failure =>
      obtain ⟨failure', resumes, eq⟩ := h
      rw [eq]
      exact ⟨failure', resumes, rfl⟩
  | ok a =>
      obtain ⟨pa, eq⟩ := h
      rw [eq]
      exact hf a pa

/-- A token is found missing in both, or in one only for want of more
tokens. -/
private theorem of_missing (wanted : Wanted) (ts : List Token) :
    Resumes k behind more P (missing wanted ts)
      (missing wanted (ts ++ k :: behind)) := by
  cases ts with
  | nil => exact ⟨_, .expected wanted, rfl⟩
  | cons t ts => exact ⟨_, .blamed rfl, rfl⟩

/-- An operand likewise, but the keyword is taken. -/
private theorem of_missingOperand (ts : List Token) :
    Resumes k behind more P (missingOperand ts)
      (missingOperand (ts ++ k :: behind)) := by
  cases ts with
  | nil => exact ⟨_, .noOperand, rfl⟩
  | cons t ts => exact ⟨_, .blamed rfl, rfl⟩

end Resumes

/-- There are two keywords that start a statement. -/
theorem Token.eq_let_or_return {k : Token} (hk : k.startsStatement = true) :
    k = .keyword .letWord ∨ k = .keyword .returnWord := by
  unfold Token.startsStatement at hk
  split at hk
  · exact .inl rfl
  · exact .inr rfl
  · cases hk

-- ============================================== pieces without depth

section
variable {k : Token} (hk : k.startsStatement = true) (behind : List Token)
    {depth : Nat}
include hk

/-- The keyword is not a symbol that could be next. -/
private theorem head?_append_ne {ts : List Token} {s : Symbol}
    (h : ts.head? ≠ some (.symbol s)) :
    (ts ++ k :: behind).head? ≠ some (.symbol s) := by
  cases ts with
  | nil => rcases Token.eq_let_or_return hk with rfl | rfl <;> simp
  | cons t ts => exact h

/-- No symbol is a keyword, so the keyword is found where the end was. -/
private theorem expect_resumes (s : Symbol) {ts : List Token}
    (closed : braceDepth depth ts = 0) :
    Resumes k behind (· ++ k :: behind)
      (fun rest => braceDepth (Token.depthAfter depth (.symbol s)) rest = 0)
      (expect s ts) (expect s (ts ++ k :: behind)) := by
  by_cases found : ts.head? = some (.symbol s)
  · obtain ⟨tail, rfl⟩ := List.head?_eq_some_iff.1 found
    have takes (rest : List Token) : expect s (.symbol s :: rest) = .ok rest :=
      if_pos rfl
    rw [List.cons_append, takes, takes]
    exact ⟨closed, rfl⟩
  · have fails {us : List Token} (other : us.head? ≠ some (.symbol s)) :
        expect s us = missing (.symbol s) us := by
      unfold expect
      split
      · exact if_neg fun same => other (congrArg (some <| Token.symbol ·) same)
      · rfl
    rw [fails found, fails (head?_append_ne hk behind found)]
    exact .of_missing _ _

/-- Neither is a name. -/
private theorem expectName_resumes {ts : List Token}
    (closed : braceDepth depth ts = 0) :
    Resumes k behind (leaving (k :: behind)) (fun a => braceDepth depth a.2 = 0)
      (expectName ts) (expectName (ts ++ k :: behind)) := by
  cases ts with
  | nil => rcases Token.eq_let_or_return hk with rfl
        | rfl <;> exact .of_missing .name []
  | cons t tail =>
      cases t with
      | ident name => exact ⟨closed, rfl⟩
      | illegal | int | str | symbol | keyword => exact .of_missing _ _

/-- By the pattern of the reading. Where a comma is last, the name is what
is missing. -/
private theorem readMoreParams_resumes {ts : List Token}
    (closed : braceDepth depth ts = 0) :
    Resumes k behind (leaving (k :: behind)) (fun a => braceDepth depth a.2 = 0)
      (readMoreParams ts) (readMoreParams (ts ++ k :: behind)) := by
  fun_induction readMoreParams ts with
  | case1 name rest ih =>
      rw [List.cons_append, List.cons_append, readMoreParams]
      exact (ih closed).bind fun a ha => ⟨ha, rfl⟩
  | case2 rest not_name =>
      have missing_name (us : List Token)
          (other : ∀ name tail, us ≠ .ident name :: tail) : readMoreParams
          (.symbol .comma :: us) = missing .name us := by
        rw [readMoreParams]
        exact other
      rw [List.cons_append, missing_name (rest ++ k :: behind)]
      · exact .of_missing _ _
      · intro name tail same
        cases rest with
        | nil => rcases Token.eq_let_or_return hk with rfl | rfl <;> cases same
        | cons t rest =>
            cases same
            exact not_name name rest rfl
  | case3 ts not_next not_comma =>
      have other : ts.head? ≠ some (.symbol .comma) := by
        intro same
        obtain ⟨tail, rfl⟩ := List.head?_eq_some_iff.1 same
        exact not_comma tail rfl
      rw [readMoreParams_of_ne (head?_append_ne hk behind other)]
      exact (expect_resumes hk behind .closeParen closed).bind
        fun rest hr => ⟨hr, rfl⟩

/-- The whole list, by its first token. -/
private theorem readParams_resumes {ts : List Token}
    (closed : braceDepth depth ts = 0) :
    Resumes k behind (leaving (k :: behind)) (fun a => braceDepth depth a.2 = 0)
      (readParams ts) (readParams (ts ++ k :: behind)) := by
  by_cases found : ts.head? = some (.symbol .closeParen)
  · obtain ⟨tail, rfl⟩ := List.head?_eq_some_iff.1 found
    exact ⟨closed, rfl⟩
  · rw [readParams_of_ne found,
      readParams_of_ne (head?_append_ne hk behind found)]
    refine (expectName_resumes hk behind closed).bind fun a ha => ?_
    exact (readMoreParams_resumes hk behind ha).bind fun b hb => ⟨hb, rfl⟩

end

-- ==================================================== all the functions

/-- What becomes of all reading functions, whatever their bound, when the
tokens go on with a keyword. -/
structure Resumed (k : Token) (behind : List Token) (n : Nat) : Prop where
  expr {depth : Nat} (level : Nat) {ts : List Token}
    (closed : braceDepth depth ts = 0) :
    Resumes k behind (leaving (k :: behind)) (fun a => braceDepth depth a.2 = 0)
      (readExpr n level ts) (readExpr n level (ts ++ k :: behind))
  operand {depth : Nat} {ts : List Token} (closed : braceDepth depth ts = 0) :
    Resumes k behind (leaving (k :: behind)) (fun a => braceDepth depth a.2 = 0)
      (readOperand n ts) (readOperand n (ts ++ k :: behind))
  tail {depth : Nat} (level : Nat) (left : Expr) {ts : List Token}
    (closed : braceDepth depth ts = 0) :
    Resumes k behind (leaving (k :: behind)) (fun a => braceDepth depth a.2 = 0)
      (readTail n level left ts) (readTail n level left (ts ++ k :: behind))
  args {depth : Nat} {ts : List Token} (closed : braceDepth depth ts = 0) :
    Resumes k behind (leaving (k :: behind)) (fun a => braceDepth depth a.2 = 0)
      (readArgs n ts) (readArgs n (ts ++ k :: behind))
  moreArgs {depth : Nat} {ts : List Token} (closed : braceDepth depth ts = 0) :
    Resumes k behind (leaving (k :: behind)) (fun a => braceDepth depth a.2 = 0)
      (readMoreArgs n ts) (readMoreArgs n (ts ++ k :: behind))
  elseBranch {depth : Nat} {ts : List Token}
    (closed : braceDepth depth ts = 0) :
    Resumes k behind (leaving (k :: behind)) (fun a => braceDepth depth a.2 = 0)
      (readElse n ts) (readElse n (ts ++ k :: behind))
  /-- A block is read one brace deeper than what follows it. -/
  block {depth : Nat} {ts : List Token}
    (closed : braceDepth (depth + 1) ts = 0) :
    Resumes k behind (leaving (k :: behind)) (fun a => braceDepth depth a.2 = 0)
      (readBlock n ts) (readBlock n (ts ++ k :: behind))
  /-- A statement outside all braces starts before the keyword, and not
  with a `return` right before it. -/
  stmt {depth : Nat} {ts : List Token} (closed : braceDepth depth ts = 0)
    (starts : ts ≠ []) (valued : ts ≠ [.keyword .returnWord] ∨ 0 < depth) :
    Resumes k behind (leaving (k :: behind)) (fun a => braceDepth depth a.2 = 0)
      (readStmtWithin n ts) (readStmtWithin n (ts ++ k :: behind))

section
variable {k : Token} {behind : List Token} {n : Nat}
    (hk : k.startsStatement = true)
include hk

omit hk in
/-- The operator is taken, and its operand resumes. -/
private theorem Resumed.unary (ih : Resumed k behind n) (op : UnaryOp)
    {depth : Nat} {ts : List Token} (closed : braceDepth depth ts = 0) :
    Resumes k behind (leaving (k :: behind)) (fun a => braceDepth depth a.2 = 0)
      (do
        let (operand, rest) ← readExpr n unaryLevel ts
        return (.unary op operand, rest) : Reading (Expr × List Token))
      (do
        let (operand, rest) ← readExpr n unaryLevel (ts ++ k :: behind)
        return (.unary op operand, rest)) :=
  (ih.expr _ closed).bind fun _ ha => ⟨ha, rfl⟩

private theorem Resumed.operand_succ (ih : Resumed k behind n) {depth : Nat}
    {ts : List Token} (closed : braceDepth depth ts = 0) :
    Resumes k behind (leaving (k :: behind)) (fun a => braceDepth depth a.2 = 0)
      (readOperand (n + 1) ts) (readOperand (n + 1) (ts ++ k :: behind)) := by
  rcases ts with _ | ⟨t, tail⟩
  · rcases Token.eq_let_or_return hk with rfl
      | rfl <;> exact .of_missingOperand []
  have rest_closed : braceDepth (t.depthAfter depth) tail = 0 := closed
  cases t with
  | illegal c => exact .of_missingOperand _
  | ident name => exact ⟨closed, rfl⟩
  | str body => exact ⟨closed, rfl⟩
  | int digits =>
      rw [List.cons_append, readOperand, readOperand]
      cases Word.ofDigits? digits with
      | none => exact ⟨_, .blamed rfl, rfl⟩
      | some value => exact ⟨closed, rfl⟩
  | symbol s =>
      cases s
      case minus => exact ih.unary .neg closed
      case bang => exact ih.unary .not closed
      case openParen =>
        rw [List.cons_append, readOperand, readOperand]
        refine (ih.expr _ rest_closed).bind fun a ha => ?_
        exact (expect_resumes hk behind _ ha).bind fun rest hr => ⟨hr, rfl⟩
      all_goals exact .of_missingOperand _
  | keyword word =>
      cases word with
      | trueWord => exact ⟨closed, rfl⟩
      | falseWord => exact ⟨closed, rfl⟩
      | ifWord =>
          rw [List.cons_append, readOperand, readOperand]
          refine (expect_resumes hk behind .openParen rest_closed).bind
            fun _ h₁ => ?_
          refine (ih.expr _ h₁).bind fun _ h₂ => ?_
          refine (expect_resumes hk behind .closeParen h₂).bind fun _ h₃ => ?_
          refine (expect_resumes hk behind .openBrace h₃).bind fun _ h₄ => ?_
          refine (ih.block h₄).bind fun _ h₅ => ?_
          exact (ih.elseBranch h₅).bind fun _ h₆ => ⟨h₆, rfl⟩
      | fnWord =>
          rw [List.cons_append, readOperand, readOperand]
          refine (expect_resumes hk behind .openParen rest_closed).bind
            fun _ h₁ => ?_
          refine (readParams_resumes hk behind h₁).bind fun _ h₂ => ?_
          refine (expect_resumes hk behind .openBrace h₂).bind fun _ h₃ => ?_
          exact (ih.block h₃).bind fun _ h₄ => ⟨h₄, rfl⟩
      | letWord | elseWord | returnWord => exact .of_missingOperand _

private theorem Resumed.tail_succ (ih : Resumed k behind n) {depth : Nat}
    (level : Nat) (left : Expr) {ts : List Token}
    (closed : braceDepth depth ts = 0) :
    Resumes k behind (leaving (k :: behind)) (fun a => braceDepth depth a.2 = 0)
      (readTail (n + 1) level left ts)
        (readTail (n + 1) level left (ts ++ k :: behind)) := by
  rcases ts with _ | ⟨t, tail⟩
  · rcases Token.eq_let_or_return hk with rfl | rfl <;> exact ⟨closed, rfl⟩
  have rest_closed : braceDepth (t.depthAfter depth) tail = 0 := closed
  cases t with
  | illegal | ident | int | str | keyword => exact ⟨closed, rfl⟩
  | symbol s =>
      rw [List.cons_append, readTail, readTail]
      cases eq : BinaryOp.ofSymbol? s with
      | some op =>
          obtain rfl := BinaryOp.ofSymbol?_eq_some_iff.1 eq
          have tail_closed : braceDepth depth tail = 0 := by
            cases op <;> exact rest_closed
          by_cases above : level < op.level
          · simp only [if_pos above]
            exact (ih.expr _ tail_closed).bind fun a ha => ih.tail _ _ ha
          · simp only [if_neg above]
            exact ⟨closed, rfl⟩
      | none =>
          by_cases paren : s = .openParen
          · subst paren
            exact (ih.args rest_closed).bind fun a ha => ih.tail _ _ ha
          · simp only [if_neg paren]
            exact ⟨closed, rfl⟩

/-- Taking the optional semicolon of a statement. -/
private theorem skipSemicolon_resumes {α : Type} (a : α) {depth : Nat}
    {ts : List Token} (closed : braceDepth depth ts = 0) :
    Resumes k behind (leaving (k :: behind)) (fun b => braceDepth depth b.2 = 0)
      (.ok (a, skipSemicolon ts))
        (.ok (a, skipSemicolon (ts ++ k :: behind))) := by
  by_cases found : ts.head? = some (.symbol .semicolon)
  · obtain ⟨tail, rfl⟩ := List.head?_eq_some_iff.1 found
    exact ⟨closed, rfl⟩
  · have kept (us : List Token) (other : us.head? ≠ some (.symbol .semicolon)) :
        skipSemicolon us = us := by
      unfold skipSemicolon
      split
      · exact absurd rfl other
      · rfl
    rw [kept _ found, kept _ (head?_append_ne hk behind found)]
    exact ⟨closed, rfl⟩

/-- The last value of a statement, with the optional semicolon. -/
private theorem Resumed.value_then (ih : Resumed k behind n)
    (make : Expr → Stmt) {depth : Nat} {ts : List Token}
    (closed : braceDepth depth ts = 0) :
    Resumes k behind (leaving (k :: behind)) (fun a => braceDepth depth a.2 = 0)
      (do
        let (value, rest) ← readExpr n lowestLevel ts
        return (make value, skipSemicolon rest) : Reading (Stmt × List Token))
      (do
        let (value, rest) ← readExpr n lowestLevel (ts ++ k :: behind)
        return (make value, skipSemicolon rest)) :=
  (ih.expr _ closed).bind fun _ ha => skipSemicolon_resumes hk _ ha

/-- A `return` that is last outside all braces is left out: it is bare at
the end and not before a keyword. -/
private theorem Resumed.stmt_succ (ih : Resumed k behind n) {depth : Nat}
    {ts : List Token} (closed : braceDepth depth ts = 0) (starts : ts ≠ [])
    (valued : ts ≠ [.keyword .returnWord] ∨ 0 < depth) :
    Resumes k behind (leaving (k :: behind)) (fun a => braceDepth depth a.2 = 0)
      (readStmtWithin (n + 1) ts)
        (readStmtWithin (n + 1) (ts ++ k :: behind)) := by
  obtain ⟨t, tail, rfl⟩ := List.exists_cons_of_ne_nil starts
  have rest_closed : braceDepth (t.depthAfter depth) tail = 0 := closed
  by_cases is_let : t = .keyword .letWord
  · subst is_let
    rw [List.cons_append, readStmtWithin, readStmtWithin]
    refine (expectName_resumes hk behind rest_closed).bind fun _ h₁ => ?_
    refine (expect_resumes hk behind .assign h₁).bind fun _ h₂ => ?_
    exact ih.value_then hk _ h₂
  by_cases is_return : t = .keyword .returnWord
  · subst is_return
    rw [List.cons_append, readStmtWithin, readStmtWithin]
    -- the tokens do not end here: outside all braces by assumption, and
    -- inside because they end outside
    have more : tail ≠ [] := by
      rintro rfl
      rcases valued with not_bare | inside
      · exact not_bare rfl
      · exact absurd closed (Nat.ne_of_gt inside)
    obtain ⟨second, tail', rfl⟩ := List.exists_cons_of_ne_nil more
    rw [endsReturn_append]
    cases endsReturn (second :: tail') with
    | true => exact skipSemicolon_resumes hk _ closed
    | false => exact ih.value_then hk (fun value => .ret (some value)) closed
  · rw [List.cons_append, readStmtWithin_of_ne _ _ is_let is_return,
      readStmtWithin_of_ne _ _ is_let is_return]
    exact ih.value_then hk _ closed

/-- Every reading goes on where the end of the tokens was, whatever its
bound. -/
theorem resumed (behind : List Token) (n : Nat) : Resumed k behind n := by
  induction n with
  | zero =>
      constructor <;> intros <;>
        simp only [readExpr, readOperand, readTail, readArgs, readMoreArgs,
          readElse, readBlock, readStmtWithin] <;>
        exact .of_missingOperand _
  | succ n ih =>
      refine ⟨fun {depth} level {ts} closed => ?_, ih.operand_succ hk,
        ih.tail_succ hk, fun {depth ts} closed => ?_,
        fun {depth ts} closed => ?_, fun {depth ts} closed => ?_,
        fun {depth ts} closed => ?_, ih.stmt_succ hk⟩
      · rw [readExpr, readExpr]
        exact (ih.operand closed).bind fun a ha => ih.tail _ _ ha
      · by_cases found : ts.head? = some (.symbol .closeParen)
        · obtain ⟨tail, rfl⟩ := List.head?_eq_some_iff.1 found
          exact ⟨closed, rfl⟩
        · rw [readArgs_of_ne _ found,
            readArgs_of_ne _ (head?_append_ne hk behind found)]
          refine (ih.expr _ closed).bind fun a ha => ?_
          exact (ih.moreArgs ha).bind fun b hb => ⟨hb, rfl⟩
      · by_cases found : ts.head? = some (.symbol .comma)
        · obtain ⟨tail, rfl⟩ := List.head?_eq_some_iff.1 found
          have rest_closed : braceDepth depth tail = 0 := closed
          rw [List.cons_append, readMoreArgs, readMoreArgs]
          refine (ih.expr _ rest_closed).bind fun a ha => ?_
          exact (ih.moreArgs ha).bind fun b hb => ⟨hb, rfl⟩
        · rw [readMoreArgs_of_ne _ found,
            readMoreArgs_of_ne _ (head?_append_ne hk behind found)]
          exact (expect_resumes hk behind .closeParen closed).bind
            fun rest hr => ⟨hr, rfl⟩
      · by_cases found : ts.head? = some (.keyword .elseWord)
        · obtain ⟨tail, rfl⟩ := List.head?_eq_some_iff.1 found
          have rest_closed : braceDepth depth tail = 0 := closed
          rw [List.cons_append, readElse, readElse]
          refine (expect_resumes hk behind .openBrace rest_closed).bind
            fun rest hr => ?_
          exact (ih.block hr).bind fun a ha => ⟨ha, rfl⟩
        · have still :
              (ts ++ k :: behind).head? ≠ some (.keyword .elseWord) := by
            cases ts with
            | nil => rcases Token.eq_let_or_return hk with rfl | rfl <;> simp
            | cons t ts => exact found
          rw [readElse_of_ne _ found, readElse_of_ne _ still]
          exact ⟨closed, rfl⟩
      · rcases ts with _ | ⟨t, tail⟩
        · -- the end is never inside a block
          cases closed
        · by_cases found : t = .symbol .closeBrace
          · subst found
            exact ⟨closed, rfl⟩
          · rw [List.cons_append, readBlock_of_ne _ _ found,
              readBlock_of_ne _ _ found]
            refine (ih.stmt closed (List.cons_ne_nil _ _)
              (.inr (Nat.succ_pos depth))).bind fun a ha => ?_
            exact (ih.block ha).bind fun b hb => ⟨hb, rfl⟩

end

end Scriptlet
