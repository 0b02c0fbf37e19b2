/-
Reading accepts exactly the grammar, and builds its tree.

# The reading side: what an expression read so far can still become

`readTail` holds an expression that is complete so far and looks at one
token. The invariant is `Complete level ts e rest`: the tokens read are
a phrase of some stratum `s` that reading at `level` may produce, and
the next token binds no tighter than `s`. An operator of level `k` can
then be taken whenever `level < k`: the next-token half gives `k ≤ s`,
so the expression loosens to the stratum of the operator, and what is
made of it is again a phrase of that stratum. The next token after it
binds no tighter because the right operand was read at level `k` and
stopped. Call suffixes are the same argument at the tightest stratum.

# The grammar side: left recursion

A derivation of a stratum puts its operators on the left, while reading
goes from left to right. So the statement by induction is not that a
phrase is read as such, but that reading at a looser level arrives at it
with the tail still to go (`Phrase.Read`): the left operand of a rule
hands over to its operator, whatever stands around.
-/
import Mathlib.Logic.ExistsUnique
import Scriptlet.Proofs.Read.Grammar
import Scriptlet.Proofs.Read.Unbounded
import Scriptlet.Program

namespace Scriptlet

-- ============================================================== levels

/-- The level of a stratum: that of its operators, one more than
`unaryLevel` for calls. -/
def Stratum.level : Stratum → Nat
  | equality => 1
  | comparison => 2
  | sum => 3
  | product => 4
  | unary => 5
  | call => 6

/-- The next stratum is the next level. -/
private theorem Stratum.level_tighter (s : Stratum) (h : s ≠ .call) :
    s.tighter.level = s.level + 1 := by
  cases s <;> first | rfl | exact absurd rfl h

/-- The grammar places an operator where the reader does. -/
theorem BinaryOp.level_stratum (op : BinaryOp) :
    op.stratum.level = op.level := by
  cases op <;> rfl

/-- Its right operand is of the next stratum, so it ends before an operator
of the same level. -/
theorem BinaryOp.level_tighter (op : BinaryOp) :
    op.stratum.tighter.level = op.level + 1 := by
  cases op <;> rfl

/-- A phrase of a stratum is one of every looser stratum. -/
theorem Derives.loosen {s s' : Stratum} {e : Expr} {ts rest : List Token}
    (d : Derives (.expr s e) ts rest) (h : s'.level ≤ s.level) :
    Derives (.expr s' e) ts rest := by
  obtain ⟨k, hk⟩ := Nat.exists_eq_add_of_le h
  induction k generalizing s' with
  | zero =>
      have same : s' = s := by
        revert hk
        cases s <;> cases s' <;> decide
      rw [same]
      exact d
  | succ k ih =>
      have not_call : s' ≠ .call := by
        intro is_call
        subst is_call
        revert hk
        cases s <;> simp only [Stratum.level] <;> omega
      have next := s'.level_tighter not_call
      exact .tighter (ih (by omega) (by omega))

/-- How tightly the next token binds what stands before it: an operator
at its level, an argument list like a call, and nothing else at all. -/
def pull : List Token → Nat
  | .symbol s :: _ =>
      match BinaryOp.ofSymbol? s with
      | some op => op.level
      | none => if s = .openParen then Stratum.call.level else 0
  | _ => 0

/-- An operator pulls with its level. -/
theorem pull_operator (op : BinaryOp) (ts : List Token) :
    pull (.symbol op.symbol :: ts) = op.level := by
  cases op <;> rfl

/-- Nothing pulls harder than a call. -/
private theorem pull_le_call (ts : List Token) :
    pull ts ≤ Stratum.call.level := by
  unfold pull
  split
  · split
    · next op _ => exact Nat.le_succ_of_le (Nat.le_of_lt op.level_lt_unaryLevel)
    · split
      · exact Nat.le_refl _
      · exact Nat.zero_le _
  · exact Nat.zero_le _

/-- What pulls at all is what carries an expression on. -/
theorem pull_eq_zero_iff {ts : List Token} : pull ts = 0 ↔ ¬ CarriesOn ts := by
  constructor
  · intro zero carries
    rcases carries with ⟨op, eq⟩ | eq
    · obtain ⟨tail, rfl⟩ := List.head?_eq_some_iff.1 eq
      rw [pull_operator] at zero
      exact absurd zero (Nat.ne_of_gt op.lowestLevel_lt_level)
    · obtain ⟨tail, rfl⟩ := List.head?_eq_some_iff.1 eq
      cases zero
  · intro stops
    unfold pull
    split
    · next s tail =>
        split
        · next op eq =>
            exact absurd (Or.inl ⟨op,
              by rw [BinaryOp.ofSymbol?_eq_some_iff.1 eq]; rfl⟩) stops
        · split
          · next eq => exact absurd (Or.inr (by rw [eq]; rfl)) stops
          · rfl
    · rfl

/-- Only symbols pull. -/
theorem pull_of_not_symbol {ts : List Token}
    (h : ∀ s rest, ts = .symbol s :: rest → False) :
    pull ts = 0 := by
  unfold pull
  split
  · exact (h _ _ rfl).elim
  · rfl

-- ==================================================== what was read

/-- A reading that succeeds gives something with the property. -/
def Ensures {α : Type} (P : α → Prop) : Reading α → Prop
  | .ok a => P a
  | .error _ => True

/-- The second reading may use what the first one ensures. -/
private theorem Ensures.bind {α β : Type} {P : α → Prop} {Q : β → Prop}
    {r : Reading α} {f : α → Reading β} (h : Ensures P r)
    (hf : ∀ a, P a → Ensures Q (f a)) :
    Ensures Q (r >>= f) := by
  cases r with
  | error failure => trivial
  | ok a => exact hf a h

/-- What was read is handed on. -/
private theorem bind_of_ok {α β : Type} {r : Reading α} {a : α} (h : r = .ok a)
    (f : α → Reading β) :
    (r >>= f) = f a := by
  rw [h]
  rfl

/-- The symbol was there. -/
theorem expect_ensures (s : Symbol) (ts : List Token) :
    Ensures (fun rest => ts = .symbol s :: rest) (expect s ts) := by
  unfold expect
  split
  · split
    · next eq => exact congrArg (fun s => Token.symbol s :: _) eq
    · trivial
  · trivial

/-- The name was there. -/
theorem expectName_ensures (ts : List Token) :
    Ensures (fun a => ts = .ident a.1 :: a.2) (expectName ts) := by
  unfold expectName
  split
  · rfl
  · trivial

/-- The parameters read are those written. -/
theorem readMoreParams_ensures (ts : List Token) :
    Ensures (fun a => ts = moreParamTokens a.1 ++ .symbol .closeParen :: a.2)
      (readMoreParams ts) := by
  fun_induction readMoreParams ts with
  | case1 name rest ih =>
      refine ih.bind fun a ha => ?_
      rw [ha]
      rfl
  | case2 rest => trivial
  | case3 ts _ _ =>
      refine (expect_ensures _ ts).bind fun rest eq => ?_
      rw [eq]
      rfl

theorem readParams_ensures (ts : List Token) :
    Ensures (fun a => ts = paramTokens a.1 ++ .symbol .closeParen :: a.2)
      (readParams ts) := by
  unfold readParams
  split
  · rfl
  · refine (expectName_ensures _).bind fun a ha => ?_
    refine (readMoreParams_ensures _).bind fun b hb => ?_
    rw [ha, hb]
    rfl

/-- Behind what nothing carries on, a statement ends, with a semicolon or
without. -/
private theorem ends_skipSemicolon {ts : List Token} (h : pull ts = 0) :
    Ends ts (skipSemicolon ts) := by
  unfold skipSemicolon
  split
  · exact .semicolon _
  · exact .bare (pull_eq_zero_iff.1 h)

/-- The reader and the grammar agree on when a `return` is bare. -/
private theorem endsReturn_iff {ts : List Token} :
    endsReturn ts = true ↔ LeavesBare ts := by
  unfold LeavesBare
  constructor
  · intro h
    unfold endsReturn at h
    split at h
    · exact .inl rfl
    · exact .inr (.inl rfl)
    · exact .inr (.inr rfl)
    · cases h
  · intro bare
    rcases bare with eq | eq | eq
    · rw [List.head?_eq_none_iff.1 eq]
      rfl
    · obtain ⟨tail, rfl⟩ := List.head?_eq_some_iff.1 eq
      rfl
    · obtain ⟨tail, rfl⟩ := List.head?_eq_some_iff.1 eq
      rfl

/-- Digits denote a word if their number is one. -/
theorem ofDigits?_eq_some_iff {digits : String} {w : Int64} :
    Word.ofDigits? digits = some w
      ↔ decimal digits ≤ 2 ^ 63 - 1 ∧ w.toInt = decimal digits := by
  have small : decimal digits < Word.tooLarge
      ↔ decimal digits ≤ 2 ^ 63 - 1 := by
    unfold Word.tooLarge
    omega
  have value (h : decimal digits < Word.tooLarge) :
      (Int64.ofNat (decimal digits)).toInt = decimal digits :=
    Int64.toInt_ofNat_of_lt h
  unfold Word.ofDigits?
  show (if decimal digits < Word.tooLarge then _ else _) = _ ↔ _
  split
  · next h =>
      rw [Option.some.injEq, ← Int64.toInt_inj]
      show (Int64.ofNat (decimal digits)).toInt = _ ↔ _
      rw [value h]
      exact ⟨fun eq => ⟨small.1 h, eq.symm⟩, fun both => both.2.symm⟩
  · next h =>
      constructor
      · intro eq
        cases eq
      · intro both
        exact absurd (small.2 both.1) h

-- =========================================================== soundness

/-- The tokens read so far are a phrase that reading at `level` may
produce, and the next token binds no tighter than that phrase. The
operand of a unary operator may be unary again, hence the minimum. -/
def Complete (level : Nat) (ts : List Token) (e : Expr) (rest : List Token) :
    Prop :=
  ∃ s : Stratum,
  min (level + 1) unaryLevel ≤ s.level ∧ Derives (.expr s e) ts rest
    ∧ pull rest ≤ s.level

/-- What is complete for a unary operator is complete at every level. -/
theorem Complete.of_unaryLevel {level : Nat} {ts rest : List Token} {e : Expr}
    (h : Complete unaryLevel ts e rest) : Complete level ts e rest := by
  obtain ⟨s, high, derived, bound⟩ := h
  exact ⟨s, by omega, derived, bound⟩

/-- A phrase of the tightest stratum is complete at every level, whatever
comes next. -/
theorem Complete.of_call {level : Nat} {ts rest : List Token} {e : Expr}
    (h : Derives (.expr .call e) ts rest) : Complete level ts e rest :=
  ⟨.call, Nat.le_succ_of_le (Nat.min_le_right _ _), h, pull_le_call rest⟩

/-- A complete expression is a phrase of the stratum above its level. -/
theorem Complete.derives {level : Nat} {ts rest : List Token} {e : Expr}
    {s : Stratum} (h : Complete level ts e rest)
    (le : s.level ≤ min (level + 1) unaryLevel) :
    Derives (.expr s e) ts rest := by
  obtain ⟨s', high, derived, -⟩ := h
  exact derived.loosen (Nat.le_trans le high)

/-- What reading an expression ensures: it is complete, and the next
token does not carry it on. -/
def ReadsExpr (level : Nat) (ts : List Token) (a : Expr × List Token) : Prop :=
  Complete level ts a.1 a.2 ∧ pull a.2 ≤ level

/-- All reading functions ensure what the grammar says, whatever their
bound. -/
structure Sound (n : Nat) : Prop where
  expr (level : Nat) (ts : List Token) :
    Ensures (ReadsExpr level ts) (readExpr n level ts)
  operand (ts : List Token) :
    Ensures (fun a => Complete unaryLevel ts a.1 a.2) (readOperand n ts)
  tail (level : Nat) {start ts : List Token} {left : Expr}
    (h : Complete level start left ts) :
    Ensures (ReadsExpr level start) (readTail n level left ts)
  args (ts : List Token) :
    Ensures (fun a => Derives (.args a.1) ts (.symbol .closeParen :: a.2))
    (readArgs n ts)
  moreArgs (ts : List Token) :
    Ensures (fun a => Derives (.moreArgs a.1) ts (.symbol .closeParen :: a.2))
      (readMoreArgs n ts)
  elseBranch {test : Expr} {yes : Block} {start mid ts : List Token}
    (test_ok : Derives (.expr .equality test) start
      (.symbol .closeParen :: .symbol .openBrace :: mid))
    (yes_ok : Derives (.stmts yes) mid (.symbol .closeBrace :: ts)) :
    Ensures (fun a => Derives (.expr .call (.cond test yes a.1))
      (.keyword .ifWord :: .symbol .openParen :: start) a.2) (readElse n ts)
  block (ts : List Token) :
    Ensures (fun a => Derives (.stmts a.1) ts (.symbol .closeBrace :: a.2))
    (readBlock n ts)
  stmt (ts : List Token) :
    Ensures (fun a => Derives (.stmt a.1) ts a.2) (readStmtWithin n ts)

/-- Reading at the lowest level gives an expression that nothing carries
on. -/
theorem Sound.lowest {n : Nat} (ih : Sound n) (ts : List Token) :
    Ensures (fun a => Derives (.expr .equality a.1) ts a.2 ∧ pull a.2 = 0)
      (readExpr n lowestLevel ts) := by
  have h := ih.expr lowestLevel ts
  cases eq : readExpr n lowestLevel ts with
  | error failure => trivial
  | ok a =>
      rw [eq] at h
      exact ⟨h.1.derives (by decide), Nat.le_zero.1 h.2⟩

/-- A unary operator with a complete operand is complete: only a call binds
tighter, and the operand has taken those. -/
private theorem Sound.unary {n : Nat} (ih : Sound n) (op : UnaryOp)
    (ts : List Token) :
    Ensures (fun a => Complete unaryLevel (.symbol op.symbol :: ts) a.1 a.2) (do
      let (e, rest) ← readExpr n unaryLevel ts
      return (.unary op e, rest)) := by
  refine (ih.expr _ _).bind fun a ha => ?_
  exact ⟨.unary, by decide, .unary (ha.1.derives (by decide)), ha.2⟩

/-- What an expression starts with, by its first token. Most are phrases of
the tightest stratum. -/
private theorem Sound.operand_succ {n : Nat} (ih : Sound n) (ts : List Token) :
    Ensures (fun a => Complete unaryLevel ts a.1 a.2)
      (readOperand (n + 1) ts) := by
  rw [readOperand.eq_def]
  dsimp only
  split
  · exact .of_call (.ident _ _)
  · split
    · next eq =>
        obtain ⟨fits, value⟩ := ofDigits?_eq_some_iff.1 eq
        exact .of_call (.int _ fits value)
    · trivial
  · exact .of_call (.str _ _)
  · exact .of_call (.trueWord _)
  · exact .of_call (.falseWord _)
  · exact ih.unary .neg _
  · exact ih.unary .not _
  · -- a group
    refine (ih.lowest _).bind fun a ha => ?_
    refine (expect_ensures _ _).bind fun rest eq => ?_
    rw [eq] at ha
    exact .of_call (.group ha.1)
  · -- a conditional
    refine (expect_ensures _ _).bind fun start eq₁ => ?_
    refine (ih.lowest _).bind fun test ht => ?_
    refine (expect_ensures _ _).bind fun mid eq₂ => ?_
    refine (expect_ensures _ _).bind fun mid' eq₃ => ?_
    refine (ih.block _).bind fun yes hy => ?_
    rw [eq₂, eq₃] at ht
    refine (ih.elseBranch ht.1 hy).bind fun no hn => ?_
    rw [eq₁]
    exact .of_call hn
  · -- a function
    refine (expect_ensures _ _).bind fun start eq₁ => ?_
    refine (readParams_ensures _).bind fun params hp => ?_
    refine (expect_ensures _ _).bind fun mid eq₂ => ?_
    refine (ih.block _).bind fun body hb => ?_
    rw [eq₁, hp, eq₂]
    exact .of_call (.fn hb)
  · trivial

/-- The step described above: an operator over the level is taken, and the
longer expression is complete again. -/
private theorem Sound.tail_succ {n : Nat} (ih : Sound n) (level : Nat)
    {start ts : List Token} {left : Expr} (h : Complete level start left ts) :
    Ensures (ReadsExpr level start) (readTail (n + 1) level left ts) := by
  rw [readTail.eq_def]
  dsimp only
  split
  · next s rest =>
      split
      · next op eq =>
          obtain rfl := BinaryOp.ofSymbol?_eq_some_iff.1 eq
          split
          · next above =>
              -- the operator is within the stratum of what stands before it
              obtain ⟨s, high, derived, bound⟩ := h
              rw [pull_operator, ← op.level_stratum] at bound
              refine (ih.expr op.level rest).bind fun right hr => ?_
              have right_ok : Derives (.expr op.stratum.tighter right.1)
                  rest right.2 := by
                refine hr.1.derives ?_
                rw [op.level_tighter]
                have below := op.level_lt_unaryLevel
                omega
              refine ih.tail level ⟨op.stratum, ?_,
                .binary (derived.loosen bound) right_ok, ?_⟩
              · rw [op.level_stratum]
                omega
              · rw [op.level_stratum]
                exact hr.2
          · next below =>
              refine ⟨h, ?_⟩
              rw [pull_operator]
              exact Nat.le_of_not_lt below
      · next none_op =>
          split
          · next eq =>
              subst eq
              obtain ⟨s, high, derived, bound⟩ := h
              refine (ih.args rest).bind fun args ha => ?_
              exact ih.tail level (.of_call (.call (derived.loosen bound) ha))
          · next not_paren =>
              refine ⟨h, ?_⟩
              simp only [pull, none_op, if_neg not_paren]
              exact Nat.zero_le _
  · next not_symbol =>
      refine ⟨h, ?_⟩
      show pull _ ≤ level
      rw [pull_of_not_symbol not_symbol]
      exact Nat.zero_le _

/-- A statement, by its keyword. A bare `return` needs that nothing carries
it on. -/
private theorem Sound.stmt_succ {n : Nat} (ih : Sound n) (ts : List Token) :
    Ensures (fun a => Derives (.stmt a.1) ts a.2)
      (readStmtWithin (n + 1) ts) := by
  rw [readStmtWithin.eq_def]
  dsimp only
  split
  · refine (expectName_ensures _).bind fun name eq₁ => ?_
    refine (expect_ensures _ _).bind fun rest eq₂ => ?_
    refine (ih.lowest _).bind fun value hv => ?_
    rw [eq₁, eq₂]
    exact Derives.bind hv.1 (ends_skipSemicolon hv.2)
  · split
    · next bare =>
        have leaves := endsReturn_iff.1 bare
        refine .retBare leaves (ends_skipSemicolon (pull_eq_zero_iff.2 ?_))
        intro carries
        rcases carries with ⟨op, eq⟩ | eq
        · rcases leaves with eq' | eq' | eq' <;>
            rw [eq] at eq' <;> cases op <;> cases eq'
        · rcases leaves with eq' | eq' | eq' <;> rw [eq] at eq' <;> cases eq'
    · refine (ih.lowest _).bind fun value hv => ?_
      exact .ret hv.1 (ends_skipSemicolon hv.2)
  · refine (ih.lowest _).bind fun value hv => ?_
    exact .expr hv.1 (ends_skipSemicolon hv.2)

/-- Whatever is read is a phrase of the grammar, at any bound: one that runs
out only fails. -/
theorem sound (n : Nat) : Sound n := by
  induction n with
  | zero =>
      constructor <;> intros <;>
        simp only [readExpr, readOperand, readTail, readArgs, readMoreArgs,
          readElse, readBlock, readStmtWithin] <;>
        trivial
  | succ n ih =>
      refine ⟨fun level ts => ?_, ih.operand_succ, ih.tail_succ, fun ts => ?_,
        fun ts => ?_, fun {test yes start mid ts} test_ok yes_ok => ?_,
        fun ts => ?_, ih.stmt_succ⟩
      · rw [readExpr]
        exact (ih.operand ts).bind fun left hl => ih.tail level hl.of_unaryLevel
      · rw [readArgs.eq_def]
        dsimp only
        split
        · exact .noArgs _
        · refine (ih.lowest _).bind fun first hf => ?_
          refine (ih.moreArgs _).bind fun others ho => ?_
          exact .firstArg hf.1 ho
      · rw [readMoreArgs.eq_def]
        dsimp only
        split
        · refine (ih.lowest _).bind fun first hf => ?_
          refine (ih.moreArgs _).bind fun others ho => ?_
          exact .nextArg hf.1 ho
        · refine (expect_ensures _ _).bind fun rest eq => ?_
          rw [eq]
          exact .noMoreArgs _
      · rw [readElse.eq_def]
        dsimp only
        split
        · refine (expect_ensures _ _).bind fun rest eq => ?_
          refine (ih.block _).bind fun no hn => ?_
          rw [eq] at yes_ok
          exact .condElse test_ok yes_ok hn
        · next not_else =>
            refine .cond test_ok yes_ok fun eq => ?_
            obtain ⟨rest, rfl⟩ := List.head?_eq_some_iff.1 eq
            exact not_else rest rfl
      · rw [readBlock.eq_def]
        dsimp only
        split
        · trivial
        · exact .noStmts _
        · refine (ih.stmt _).bind fun first hf => ?_
          refine (ih.block _).bind fun others ho => ?_
          exact .stmts hf ho

-- ======================================================= first tokens

/-- The tokens an expression starts with. -/
def Token.startsOperand : Token → Bool
  | .ident _ => true
  | .int _ => true
  | .str _ => true
  | .symbol s => s = .minus || s = .bang || s = .openParen
  | .keyword k => k = .trueWord || k = .falseWord || k = .ifWord || k = .fnWord
  | .illegal _ => false

/-- A token that starts no operand is another one. -/
private theorem Token.ne_of_startsOperand {t u : Token}
    (h : t.startsOperand = true) (hu : u.startsOperand = false) : t ≠ u := by
  intro eq
  subst eq
  rw [h] at hu
  cases hu

/-- A `return` before an operand has a value. -/
private theorem endsReturn_of_startsOperand {t : Token} {ts : List Token}
    (h : t.startsOperand = true) : endsReturn (t :: ts) = false := by
  unfold endsReturn
  split
  · next eq => cases eq
  · next eq => cases eq; cases h
  · next eq => cases eq; cases h
  · rfl

/-- An expression has a first token, and an operand can start with it. -/
private theorem Derives.expr_starts {x : Phrase} {ts rest : List Token}
    (d : Derives x ts rest) {s : Stratum} {e : Expr} (eq : x = .expr s e) :
    ∃ t tail, ts = t :: tail ∧ t.startsOperand = true := by
  induction d generalizing s e with
  | @unary op => exact ⟨_, _, rfl, by cases op <;> rfl⟩
  | call _ _ ih _ => exact ih rfl
  | binary _ _ ih _ => exact ih rfl
  | tighter _ ih => exact ih rfl
  | ident | int | str | trueWord | falseWord | group | cond | condElse | fn =>
      exact ⟨_, _, rfl, rfl⟩
  | noArgs | firstArg | noMoreArgs | nextArg | bind | retBare | ret | expr
  | noStmts | stmts =>
      cases eq

/-- A statement starts with its keyword or with an expression, so with
no symbol that ends one. -/
private theorem Derives.stmt_starts {st : Stmt} {ts rest : List Token}
    (d : Derives (.stmt st) ts rest) :
    ∃ t tail, ts = t :: tail ∧ t ≠ .symbol .closeBrace
      ∧ t ≠ .symbol .semicolon := by
  cases d with
  | bind => exact ⟨_, _, rfl, by decide, by decide⟩
  | retBare => exact ⟨_, _, rfl, by decide, by decide⟩
  | ret => exact ⟨_, _, rfl, by decide, by decide⟩
  | expr value _ =>
      obtain ⟨t, tail, rfl, starts⟩ := value.expr_starts rfl
      exact ⟨t, tail, rfl, Token.ne_of_startsOperand starts rfl,
        Token.ne_of_startsOperand starts rfl⟩

/-- No statement starts with a semicolon. -/
private theorem Derives.stmts_head_ne {ss : List Stmt} {ts rest : List Token}
    (d : Derives (.stmts ss) ts rest)
    (h : rest.head? ≠ some (.symbol .semicolon)) :
    ts.head? ≠ some (.symbol .semicolon) := by
  cases d with
  | noStmts => exact h
  | stmts first _ =>
      obtain ⟨t, tail, rfl, -, not_semicolon⟩ := first.stmt_starts
      intro eq
      exact not_semicolon (Option.some.inj eq)

/-- Behind an argument comes a comma or a parenthesis, and neither pulls. -/
private theorem Derives.moreArgs_pull {es : List Expr} {ts rest : List Token}
    (d : Derives (.moreArgs es) ts (.symbol .closeParen :: rest)) :
    pull ts = 0 := by
  cases d with
  | noMoreArgs => rfl
  | nextArg => rfl

-- ======================================================== completeness

namespace Unbounded

/-- A token that pulls no harder than the level ends the expression. -/
private theorem tail_stop {level : Nat} {ts : List Token} (left : Expr)
    (le : level ≤ unaryLevel) (h : pull ts ≤ level) :
    tail level left ts = .ok (left, ts) := by
  unfold tail depthBound
  rw [readTail.eq_def]
  dsimp only
  split
  · next s rest =>
      split
      · next op eq =>
          simp only [pull, eq] at h
          exact if_neg (Nat.not_lt.2 h)
      · next eq =>
          split
          · next paren =>
              simp only [pull, eq, if_pos paren] at h
              exact absurd (Nat.le_trans h le) (by decide)
          · rfl
  · rfl

end Unbounded

/-- What a derivation says about reading. For an expression: reading at
any level its stratum allows arrives at it, with the tail to go. -/
def Phrase.Read : Phrase → List Token → List Token → Prop
  | .expr s e, ts, rest =>
      ∀ level, level ≤ unaryLevel → min (level + 1) unaryLevel ≤ s.level →
        pull rest ≤ s.level →
        Unbounded.expr level ts = Unbounded.tail level e rest
  | .args es, ts, rest =>
      ∀ behind, rest = .symbol .closeParen :: behind →
        Unbounded.args ts = .ok (es, behind)
  | .moreArgs es, ts, rest =>
      ∀ behind, rest = .symbol .closeParen :: behind →
        Unbounded.moreArgs ts = .ok (es, behind)
  | .stmt s, ts, rest =>
      rest.head? ≠ some (.symbol .semicolon) → readStmt ts = .ok (s, rest)
  | .stmts ss, ts, rest =>
      (∀ behind, rest = .symbol .closeBrace :: behind →
        Unbounded.block ts = .ok (ss, behind))
        ∧ (rest = [] → Listing.ofTokens ts = ⟨ss, []⟩)

/-- An expression that nothing carries on is read as a whole. -/
private theorem Phrase.Read.lowest {e : Expr} {ts rest : List Token}
    (h : Phrase.Read (.expr .equality e) ts rest) (stops : pull rest = 0) :
    Unbounded.expr lowestLevel ts = .ok (e, rest) := by
  rw [h lowestLevel (by decide) (by decide)
    (by rw [stops]; exact Nat.zero_le _)]
  exact Unbounded.tail_stop e (by decide) (Nat.le_of_eq stops)

/-- What is read as an operand is read at every stratum. -/
private theorem Phrase.Read.operand {e : Expr} {ts rest : List Token}
    {s : Stratum} (h : Unbounded.operand ts = .ok (e, rest)) :
    Phrase.Read (.expr s e) ts rest := by
  intro level _ _ _
  rw [Unbounded.expr_eq, h]
  rfl

/-- A symbol that is there is taken. -/
private theorem expect_symbol (s : Symbol) (rest : List Token) :
    expect s (.symbol s :: rest) = .ok rest :=
  if_pos rfl

/-- The parameters behind the first one are read back. -/
private theorem readMoreParams_moreParamTokens (names : List String)
    (rest : List Token) :
    readMoreParams (moreParamTokens names ++ .symbol .closeParen :: rest)
      = .ok (names, rest) := by
  induction names with
  | nil => rfl
  | cons name names ih =>
      show readMoreParams (.symbol .comma :: .ident name ::
        (moreParamTokens names ++ .symbol .closeParen :: rest)) = _
      rw [readMoreParams, ih]
      rfl

private theorem readParams_paramTokens (names : List String)
    (rest : List Token) :
    readParams (paramTokens names ++ .symbol .closeParen :: rest)
      = .ok (names, rest) := by
  cases names with
  | nil => rfl
  | cons name names =>
      rw [paramTokens, List.cons_append, readParams_of_ne (by simp), expectName]
      exact bind_of_ok (readMoreParams_moreParamTokens names rest) _

/-- A statement whose end the grammar marks is read up to that end. -/
private theorem skipSemicolon_of_ends {ts rest : List Token} (h : Ends ts rest)
    (next : rest.head? ≠ some (.symbol .semicolon)) :
    skipSemicolon ts = rest := by
  cases h with
  | semicolon => rfl
  | bare =>
      unfold skipSemicolon
      split
      · exact absurd rfl next
      · rfl

/-- Where a statement ends, nothing carries its expression on. -/
private theorem pull_eq_zero_of_ends {ts rest : List Token} (h : Ends ts rest) :
    pull ts = 0 := by
  cases h with
  | semicolon => rfl
  | bare stops => exact pull_eq_zero_iff.2 stops

/-- The left recursion. The left operand is read with its operator as the
tail to go, and the tail takes it. -/
private theorem Phrase.Read.binary {op : BinaryOp} {left right : Expr}
    {ts mid rest : List Token}
    (hl : Phrase.Read (.expr op.stratum left) ts (.symbol op.symbol :: mid))
    (hr : Phrase.Read (.expr op.stratum.tighter right) mid rest) :
    Phrase.Read (.expr op.stratum (.binary op left right)) ts rest := by
  intro level le high bound
  have level_lt := op.level_lt_unaryLevel
  rw [op.level_stratum] at high bound
  -- the left operand hands over to the operator
  rw [hl level le (by rw [op.level_stratum]; exact high)
    (Nat.le_of_eq (by rw [pull_operator, op.level_stratum])),
    Unbounded.tail_binary (by omega)]
  -- and the right one is read up to what binds no tighter than it
  have right_read : Unbounded.expr op.level mid = .ok (right, rest) := by
    rw [hr op.level (by omega) (by rw [op.level_tighter]; omega)
      (by rw [op.level_tighter]; omega)]
    exact Unbounded.tail_stop right (by omega) bound
  rw [right_read]
  rfl

/-- A unary operator takes its operand and no binary one. -/
private theorem Phrase.Read.unary {op : UnaryOp} {e : Expr}
    {ts rest : List Token} (h : Phrase.Read (.expr .unary e) ts rest) :
    Phrase.Read (.expr .unary (.unary op e))
      (.symbol op.symbol :: ts) rest := by
  intro level _ _ bound
  have operand_read : Unbounded.expr unaryLevel ts = .ok (e, rest) := by
    rw [h unaryLevel (Nat.le_refl _) (by decide) bound]
    exact Unbounded.tail_stop e (Nat.le_refl _) bound
  rw [Unbounded.expr_eq, Unbounded.operand_unary, operand_read]
  rfl

/-- A phrase of a tighter stratum is read at the looser one. -/
private theorem Phrase.Read.tighter {s : Stratum} {e : Expr}
    {ts rest : List Token} (h : Phrase.Read (.expr s.tighter e) ts rest) :
    Phrase.Read (.expr s e) ts rest := by
  intro level le high bound
  have wider : s.level ≤ s.tighter.level := by cases s <;> decide
  exact h level le (Nat.le_trans high wider) (Nat.le_trans bound wider)

/-- A call is a tail of what is called. -/
private theorem Phrase.Read.call {callee : Expr} {args : List Expr}
    {ts mid rest : List Token}
    (hc : Phrase.Read (.expr .call callee) ts (.symbol .openParen :: mid))
    (ha : Phrase.Read (.args args) mid (.symbol .closeParen :: rest)) :
    Phrase.Read (.expr .call (.call callee args)) ts rest := by
  intro level le high _
  rw [hc level le high (pull_le_call _), Unbounded.tail_call, ha rest rfl]
  rfl

/-- A conditional, whose second branch is read by now. -/
private theorem Phrase.Read.cond {test : Expr} {yes : Block} {no : Option Block}
    {ts mid mid' rest : List Token}
    (ht : Phrase.Read (.expr .equality test) ts
      (.symbol .closeParen :: .symbol .openBrace :: mid))
    (hy : Phrase.Read (.stmts yes) mid (.symbol .closeBrace :: mid'))
    (hn : Unbounded.elseBranch mid' = .ok (no, rest)) :
    Phrase.Read (.expr .call (.cond test yes no))
      (.keyword .ifWord :: .symbol .openParen :: ts) rest := by
  refine .operand ?_
  rw [Unbounded.operand_cond]
  refine (bind_of_ok (expect_symbol _ _) _).trans ?_
  refine (bind_of_ok (ht.lowest rfl) _).trans ?_
  refine (bind_of_ok (expect_symbol _ _) _).trans ?_
  refine (bind_of_ok (expect_symbol _ _) _).trans ?_
  refine (bind_of_ok (hy.1 _ rfl) _).trans ?_
  exact bind_of_ok hn _

/-- A function literal, by its body. -/
private theorem Phrase.Read.fn {params : List String} {body : Block}
    {mid rest : List Token} (hb : Phrase.Read (.stmts body) mid
      (.symbol .closeBrace :: rest)) :
    Phrase.Read (.expr .call (.fn params body))
      (.keyword .fnWord :: .symbol .openParen ::
        (paramTokens params ++ .symbol .closeParen
          :: .symbol .openBrace :: mid)) rest := by
  refine .operand ?_
  rw [Unbounded.operand_fn]
  refine (bind_of_ok (expect_symbol _ _) _).trans ?_
  refine (bind_of_ok (readParams_paramTokens _ _) _).trans ?_
  refine (bind_of_ok (expect_symbol _ _) _).trans ?_
  exact bind_of_ok (hb.1 _ rfl) _

/-- A list of statements, in a block or as a program. -/
private theorem Phrase.Read.stmts {s : Stmt} {ss : List Stmt}
    {ts mid rest : List Token} (first : Derives (.stmt s) ts mid)
    (others : Derives (.stmts ss) mid rest)
    (hf : Phrase.Read (.stmt s) ts mid)
    (ho : Phrase.Read (.stmts ss) mid rest) :
    Phrase.Read (.stmts (s :: ss)) ts rest := by
  obtain ⟨t, tail, rfl, not_brace, -⟩ := first.stmt_starts
  constructor
  · intro behind eq
    subst eq
    have first_read := hf (others.stmts_head_ne (by simp))
    rw [Unbounded.block_eq not_brace]
    refine (bind_of_ok first_read _).trans ?_
    exact bind_of_ok (ho.1 behind rfl) _
  · intro eq
    subst eq
    have first_read := hf (others.stmts_head_ne (by simp))
    rw [Listing.ofTokens_of_ok first_read, ho.2 rfl]

/-- Every phrase of the grammar is read, as the tree it stands for. -/
theorem Derives.read {x : Phrase} {ts rest : List Token}
    (d : Derives x ts rest) :
    x.Read ts rest := by
  induction d with
  | ident name rest => exact .operand rfl
  | int rest fits value =>
      refine .operand ?_
      unfold Unbounded.operand depthBound
      simp only [readOperand, ofDigits?_eq_some_iff.2 ⟨fits, value⟩]
  | str body rest => exact .operand rfl
  | trueWord rest => exact .operand rfl
  | falseWord rest => exact .operand rfl
  | group inner ih =>
      refine .operand ?_
      rw [Unbounded.operand_group]
      refine (bind_of_ok (ih.lowest rfl) _).trans ?_
      exact bind_of_ok (expect_symbol _ _) _
  | cond test_ok yes_ok no_else ht hy =>
      exact .cond ht hy (Unbounded.elseBranch_none no_else)
  | condElse test_ok yes_ok no_ok ht hy hn =>
      refine .cond ht hy ?_
      rw [Unbounded.elseBranch_elseWord]
      refine (bind_of_ok (expect_symbol _ _) _).trans ?_
      exact bind_of_ok (hn.1 _ rfl) _
  | fn body_ok hb => exact .fn hb
  | call callee_ok args_ok hc ha => exact .call hc ha
  | unary operand ih => exact .unary ih
  | binary left_ok right_ok hl hr => exact .binary hl hr
  | tighter inner ih => exact .tighter ih
  | noArgs rest =>
      intro behind eq
      subst eq
      exact Unbounded.args_closeParen behind
  | firstArg first others hf ho =>
      intro behind eq
      subst eq
      obtain ⟨t, tail, rfl, starts⟩ := first.expr_starts rfl
      rw [Unbounded.args_eq (Token.ne_of_startsOperand starts rfl)]
      refine (bind_of_ok (hf.lowest others.moreArgs_pull) _).trans ?_
      exact bind_of_ok (ho behind rfl) _
  | noMoreArgs rest =>
      intro behind eq
      subst eq
      exact Unbounded.moreArgs_closeParen behind
  | nextArg next others hx ho =>
      intro behind eq
      subst eq
      rw [Unbounded.moreArgs_comma]
      refine (bind_of_ok (hx.lowest others.moreArgs_pull) _).trans ?_
      exact bind_of_ok (ho behind rfl) _
  | bind value ends ih =>
      intro next
      rw [Unbounded.readStmt_let, ← skipSemicolon_of_ends ends next]
      refine (bind_of_ok rfl _).trans ?_
      refine (bind_of_ok (expect_symbol _ _) _).trans ?_
      exact bind_of_ok (ih.lowest (pull_eq_zero_of_ends ends)) _
  | retBare bare ends =>
      intro next
      rw [Unbounded.readStmt_bare (endsReturn_iff.2 bare),
        skipSemicolon_of_ends ends next]
  | ret value ends ih =>
      intro next
      obtain ⟨t, tail, rfl, starts⟩ := value.expr_starts rfl
      rw [Unbounded.readStmt_return (endsReturn_of_startsOperand starts),
        ← skipSemicolon_of_ends ends next]
      exact bind_of_ok (ih.lowest (pull_eq_zero_of_ends ends)) _
  | expr value ends ih =>
      intro next
      obtain ⟨t, tail, rfl, starts⟩ := value.expr_starts rfl
      rw [Unbounded.readStmt_expr (Token.ne_of_startsOperand starts rfl)
        (Token.ne_of_startsOperand starts rfl),
        ← skipSemicolon_of_ends ends next]
      exact bind_of_ok (ih.lowest (pull_eq_zero_of_ends ends)) _
  | noStmts rest =>
      constructor
      · intro behind eq
        subst eq
        exact Unbounded.block_closeBrace behind
      · intro eq
        subst eq
        rfl
  | stmts first others hf ho => exact .stmts first others hf ho

-- ====================================================== whole programs

/-- A program read without diagnostics is one of the grammar. -/
theorem isProgram_of_clean (ts : List Token)
    (clean : (Listing.ofTokens ts).diagnostics = []) :
    IsProgram ts (Listing.ofTokens ts).program := by
  induction n : ts.length using Nat.strongRecOn generalizing ts with
  | ind n ih =>
      cases ts with
      | nil => exact .noStmts []
      | cons t tail =>
          have takes := readStmt_takes (t :: tail)
          have ensures := (sound (depthBound (t :: tail))).stmt (t :: tail)
          cases eq : readStmt (t :: tail) with
          | error failure =>
              rw [Listing.ofTokens_of_error eq] at clean
              cases clean
          | ok a =>
              rw [eq] at takes
              rw [show readStmtWithin (depthBound (t :: tail)) (t :: tail)
                = _ from eq] at ensures
              rw [Listing.ofTokens_of_ok eq] at clean ⊢
              have shorter := takes.2
              exact .stmts ensures (ih a.2.length (by omega) a.2 clean rfl)

/-- The grammar describes exactly what is read without a diagnostic. -/
theorem isProgram_iff (ts : List Token) (p : Program) :
    IsProgram ts p ↔ Listing.ofTokens ts = ⟨p, []⟩ := by
  constructor
  · intro h
    exact (Derives.read h).2 rfl
  · intro eq
    have derived := isProgram_of_clean ts (by rw [eq])
    rw [eq] at derived
    exact derived

/-- Reading finds nothing wrong with a token list exactly when the
grammar gives it a tree, and then there is one tree and reading builds
it. -/
theorem ofTokens_clean_iff_isProgram (ts : List Token) :
    ((Listing.ofTokens ts).diagnostics = [] ↔ ∃! p, IsProgram ts p)
      ∧ ∀ p, IsProgram ts p ↔ Listing.ofTokens ts = ⟨p, []⟩ := by
  refine ⟨⟨fun clean => ?_, ?_⟩, isProgram_iff ts⟩
  · refine ⟨(Listing.ofTokens ts).program, isProgram_of_clean ts clean,
      fun q hq => ?_⟩
    rw [(isProgram_iff ts q).1 hq]
  · intro unique
    obtain ⟨p, hp, -⟩ := unique
    rw [(isProgram_iff ts p).1 hp]

end Scriptlet
