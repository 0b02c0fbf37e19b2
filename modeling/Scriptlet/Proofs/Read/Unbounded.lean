/-
The reading functions without their bound.

Each reading function is taken at the bound `depthBound` gives for its
tokens, and the equations below are those one would write if recursion
needed no bound: no equation mentions a number of calls. The bound enters
only here, through `Settled`; what is said about reading elsewhere rests
on these equations or on an induction over the bound, never on both.

The equations are given by the first token, which is how a proof meets
them: a phrase of the grammar shows its first token, and a reading
function looks at nothing else before it decides.
-/
import Scriptlet.Expr.Read.Progress

namespace Scriptlet

-- ===================================== one call, by what it does not see

/-- A list that starts with another token does not start with this one. -/
theorem head?_cons_ne {t k : Token} (ne : t ≠ k) (ts : List Token) :
    (t :: ts).head? ≠ some k :=
  fun same => ne (Option.some.inj same)

section
variable {ts : List Token}

/-- A symbol that is not next is missing. -/
theorem expect_of_ne {s : Symbol} (h : ts.head? ≠ some (.symbol s)) :
    expect s ts = missing (.symbol s) ts := by
  unfold expect
  split
  · exact if_neg fun same => h (congrArg (some <| Token.symbol ·) same)
  · rfl

/-- Without a comma the parameters are over. -/
theorem readMoreParams_of_ne (h : ts.head? ≠ some (.symbol .comma)) :
    readMoreParams ts = (do
      let rest ← expect .closeParen ts
      return ([], rest)) := by
  rw [readMoreParams.eq_def]
  split
  · exact absurd rfl h
  · exact absurd rfl h
  · rfl

/-- A list that does not close at once starts with a name. -/
theorem readParams_of_ne (h : ts.head? ≠ some (.symbol .closeParen)) :
    readParams ts = (do
      let (name, rest) ← expectName ts
      let (names, rest) ← readMoreParams rest
      return (name :: names, rest)) := by
  rw [readParams.eq_def]
  split
  · exact absurd rfl h
  · rfl

/-- A list that does not close at once starts with an argument. -/
theorem readArgs_of_ne (n : Nat) (h : ts.head? ≠ some (.symbol .closeParen)) :
    readArgs (n + 1) ts = (do
      let (arg, rest) ← readExpr n lowestLevel ts
      let (args, rest) ← readMoreArgs n rest
      return (arg :: args, rest)) := by
  rw [readArgs.eq_def]
  dsimp only
  split
  · exact absurd rfl h
  · rfl

/-- Without a comma the arguments are over. -/
theorem readMoreArgs_of_ne (n : Nat) (h : ts.head? ≠ some (.symbol .comma)) :
    readMoreArgs (n + 1) ts = (do
      let rest ← expect .closeParen ts
      return ([], rest)) := by
  rw [readMoreArgs.eq_def]
  dsimp only
  split
  · exact absurd rfl h
  · rfl

/-- Without `else` there is no second branch, and nothing is taken. -/
theorem readElse_of_ne (n : Nat) (h : ts.head? ≠ some (.keyword .elseWord)) :
    readElse (n + 1) ts = .ok (none, ts) := by
  rw [readElse.eq_def]
  dsimp only
  split
  · exact absurd rfl h
  · rfl

end

section
variable (n : Nat) {t : Token} (ts : List Token)

/-- A token other than the closing brace starts a statement of the block. -/
theorem readBlock_of_ne (h : t ≠ .symbol .closeBrace) :
    readBlock (n + 1) (t :: ts) = (do
      let (stmt, rest) ← readStmtWithin n (t :: ts)
      let (stmts, rest) ← readBlock n rest
      return (stmt :: stmts, rest)) := by
  rw [readBlock.eq_def]
  dsimp only
  split
  · next eq => cases eq
  · next eq => cases eq; exact absurd rfl h
  · rfl

/-- What starts with neither keyword is an expression statement. -/
theorem readStmtWithin_of_ne (hlet : t ≠ .keyword .letWord)
    (hret : t ≠ .keyword .returnWord) :
    readStmtWithin (n + 1) (t :: ts) = (do
      let (value, rest) ← readExpr n lowestLevel (t :: ts)
      return (.expr value, skipSemicolon rest)) := by
  rw [readStmtWithin.eq_def]
  dsimp only
  split
  · next eq => cases eq; exact absurd rfl hlet
  · next eq => cases eq; exact absurd rfl hret
  · rfl

end

namespace Unbounded

-- ======================================================= the functions

/-- Reads an expression with the operators above `level`. -/
def expr (level : Nat) (ts : List Token) : Reading (Expr × List Token) :=
  readExpr (depthBound ts) level ts

/-- Reads what an expression starts with. -/
def operand (ts : List Token) : Reading (Expr × List Token) :=
  readOperand (depthBound ts) ts

/-- Extends an expression by the operators above `level` and the calls
behind it. -/
def tail (level : Nat) (left : Expr) (ts : List Token) :
    Reading (Expr × List Token) :=
  readTail (depthBound ts) level left ts

/-- Reads an argument list whose opening parenthesis has been taken. -/
def args (ts : List Token) : Reading (List Expr × List Token) :=
  readArgs (depthBound ts) ts

/-- Reads the arguments behind the first one, and the parenthesis. -/
def moreArgs (ts : List Token) : Reading (List Expr × List Token) :=
  readMoreArgs (depthBound ts) ts

/-- Reads the optional `else` branch of a conditional. -/
def elseBranch (ts : List Token) : Reading (Option Block × List Token) :=
  readElse (depthBound ts) ts

/-- Reads the rest of a block whose opening brace has been taken. There is
no function for statements here: that one is `readStmt`. -/
def block (ts : List Token) : Reading (Block × List Token) :=
  readBlock (depthBound ts) ts

-- ==================================================== any larger bound

/-- What settles from `k` on is the same at any two numbers from `k`
on. -/
private theorem eq_of_settled {α : Type} {f : Nat → α} {k : Nat}
    (step : ∀ n, k ≤ n → f n = f (n + 1)) {m n : Nat} (hm : k ≤ m)
    (hn : k ≤ n) :
    f m = f n := by
  have start : ∀ i, f (k + i) = f k := by
    intro i
    induction i with
    | zero => rfl
    | succ i ih =>
        rw [← ih, ← Nat.add_assoc, ← step (k + i) (Nat.le_add_right k i)]
  rw [← Nat.add_sub_cancel' hm, ← Nat.add_sub_cancel' hn, start, start]

variable {n : Nat} {ts : List Token}

/-- Any bound from here on reads the same. The functions below differ only
in how far each is from the next token, counted in calls. -/
theorem readExpr_eq (level : Nat) (h : 4 * ts.length + 2 ≤ n) :
    readExpr n level ts = expr level ts :=
  eq_of_settled (fun m hm => (settled m).expr level ts hm) h
    (by unfold depthBound; omega)

theorem readOperand_eq (h : 4 * ts.length + 1 ≤ n) :
    readOperand n ts = operand ts :=
  eq_of_settled (fun m hm => (settled m).operand ts hm) h
    (by unfold depthBound; omega)

theorem readTail_eq (level : Nat) (left : Expr) (h : 4 * ts.length + 1 ≤ n) :
    readTail n level left ts = tail level left ts :=
  eq_of_settled (fun m hm => (settled m).tail level left ts hm) h
    (by unfold depthBound; omega)

theorem readArgs_eq (h : 4 * ts.length + 3 ≤ n) : readArgs n ts = args ts :=
  eq_of_settled (fun m hm => (settled m).args ts hm) h
    (by unfold depthBound; omega)

theorem readMoreArgs_eq (h : 4 * ts.length + 1 ≤ n) :
    readMoreArgs n ts = moreArgs ts :=
  eq_of_settled (fun m hm => (settled m).moreArgs ts hm) h
    (by unfold depthBound; omega)

theorem readElse_eq (h : 4 * ts.length + 1 ≤ n) :
    readElse n ts = elseBranch ts :=
  eq_of_settled (fun m hm => (settled m).elseBranch ts hm) h
    (by unfold depthBound; omega)

theorem readBlock_eq (h : 4 * ts.length + 4 ≤ n) : readBlock n ts = block ts :=
  eq_of_settled (fun m hm => (settled m).block ts hm) h
    (by unfold depthBound; omega)

theorem readStmtWithin_eq (h : 4 * ts.length + 3 ≤ n) :
    readStmtWithin n ts = readStmt ts :=
  eq_of_settled (fun m hm => (settled m).stmt ts hm) h
    (by unfold depthBound; omega)

-- ========================================================= expressions

/-- An expression is an operand and what extends it. -/
theorem expr_eq (level : Nat) (ts : List Token) :
    expr level ts = (do
      let (left, rest) ← operand ts
      tail level left rest) := by
  unfold expr depthBound
  rw [readExpr]
  refine ((progress _).operand ts).bind_congr (readOperand_eq (by omega))
    fun a ha => ?_
  exact readTail_eq level a.1 (by omega)

/-- A unary operator takes an operand at its own level, which no binary
operator reaches. -/
theorem operand_unary (op : UnaryOp) (ts : List Token) :
    operand (.symbol op.symbol :: ts) = (do
      let (e, rest) ← expr unaryLevel ts
      return (.unary op e, rest)) := by
  unfold operand depthBound
  cases op <;>
    rw [UnaryOp.symbol, readOperand,
      readExpr_eq _ (by simp only [List.length_cons]; omega)]

/-- A parenthesis starts a group: any expression up to the closing one,
which leaves no mark on what is read. -/
theorem operand_group (ts : List Token) :
    operand (.symbol .openParen :: ts) = (do
      let (inner, rest) ← expr lowestLevel ts
      let rest ← expect .closeParen rest
      return (inner, rest)) := by
  unfold operand depthBound
  rw [readOperand, readExpr_eq _ (by simp only [List.length_cons]; omega)]

/-- A conditional: the test in parentheses, a block, perhaps a second one. -/
theorem operand_cond (ts : List Token) :
    operand (.keyword .ifWord :: ts) = (do
      let rest ← expect .openParen ts
      let (test, rest) ← expr lowestLevel rest
      let rest ← expect .closeParen rest
      let rest ← expect .openBrace rest
      let (yes, rest) ← block rest
      let (no, rest) ← elseBranch rest
      return (.cond test yes no, rest)) := by
  unfold operand depthBound
  rw [readOperand]
  refine (expect_takes _ _).bind_congr rfl fun a ha => ?_
  simp only [id, List.length_cons] at ha ⊢
  refine ((progress _).expr _ _).bind_congr (readExpr_eq _ (by omega))
    fun b hb => ?_
  refine (expect_takes _ _).bind_congr rfl fun c hc => ?_
  refine (expect_takes _ _).bind_congr rfl fun d hd => ?_
  simp only [id] at hc hd
  refine ((progress _).block _).bind_congr (readBlock_eq (by omega))
    fun e he => ?_
  refine ((progress _).elseBranch _).bind_congr (readElse_eq (by omega))
    fun _ _ => rfl

/-- A function literal: the parameters, then the body. -/
theorem operand_fn (ts : List Token) :
    operand (.keyword .fnWord :: ts) = (do
      let rest ← expect .openParen ts
      let (params, rest) ← readParams rest
      let rest ← expect .openBrace rest
      let (body, rest) ← block rest
      return (.fn params body, rest)) := by
  unfold operand depthBound
  rw [readOperand]
  refine (expect_takes _ _).bind_congr rfl fun a ha => ?_
  refine (readParams_takes _).bind_congr rfl fun b hb => ?_
  refine (expect_takes _ _).bind_congr rfl fun c hc => ?_
  simp only [id, List.length_cons] at ha hc ⊢
  refine ((progress _).block _).bind_congr (readBlock_eq (by omega))
    fun _ _ => rfl

/-- An operator above the level is taken with its right operand. -/
theorem tail_binary {level : Nat} {op : BinaryOp} (h : level < op.level)
    (left : Expr) (ts : List Token) :
    tail level left (.symbol op.symbol :: ts) = (do
      let (right, rest) ← expr op.level ts
      tail level (.binary op left right) rest) := by
  unfold tail depthBound
  rw [readTail.eq_def]
  simp only [BinaryOp.ofSymbol?_eq_some_iff.2 rfl, if_pos h, List.length_cons]
  refine ((progress _).expr _ _).bind_congr (readExpr_eq _ (by omega))
    fun a ha => ?_
  exact readTail_eq level _ (by omega)

/-- A parenthesis behind an operand is a call, at any level. -/
theorem tail_call (level : Nat) (left : Expr) (ts : List Token) :
    tail level left (.symbol .openParen :: ts) = (do
      let (es, rest) ← args ts
      tail level (.call left es) rest) := by
  unfold tail depthBound
  rw [readTail.eq_def]
  simp only [BinaryOp.ofSymbol?, if_true, List.length_cons]
  refine ((progress _).args _).bind_congr (readArgs_eq (by omega))
    fun a ha => ?_
  exact readTail_eq level _ (by omega)

-- =========================================================== arguments

/-- A list that closes at once has no arguments. -/
theorem args_closeParen (ts : List Token) :
    args (.symbol .closeParen :: ts) = .ok ([], ts) := by
  unfold args depthBound
  rw [readArgs]

/-- Any other token starts the first argument. -/
theorem args_eq {t : Token} (h : t ≠ .symbol .closeParen) (ts : List Token) :
    args (t :: ts) = (do
      let (e, rest) ← expr lowestLevel (t :: ts)
      let (es, rest) ← moreArgs rest
      return (e :: es, rest)) := by
  unfold args depthBound
  rw [readArgs_of_ne _ (head?_cons_ne h ts)]
  refine ((progress _).expr _ _).bind_congr (readExpr_eq _ (by omega))
    fun a ha => ?_
  exact ((progress _).moreArgs _).bind_congr (readMoreArgs_eq (by omega))
    fun _ _ => rfl

/-- A comma promises another argument. -/
theorem moreArgs_comma (ts : List Token) :
    moreArgs (.symbol .comma :: ts) = (do
      let (e, rest) ← expr lowestLevel ts
      let (es, rest) ← moreArgs rest
      return (e :: es, rest)) := by
  unfold moreArgs depthBound
  rw [readMoreArgs]
  simp only [List.length_cons]
  refine ((progress _).expr _ _).bind_congr (readExpr_eq _ (by omega))
    fun a ha => ?_
  exact ((progress _).moreArgs _).bind_congr (readMoreArgs_eq (by omega))
    fun _ _ => rfl

/-- The parenthesis ends the arguments. -/
theorem moreArgs_closeParen (ts : List Token) :
    moreArgs (.symbol .closeParen :: ts) = .ok ([], ts) := rfl

-- ============================================================== blocks

/-- The keyword promises a block. -/
theorem elseBranch_elseWord (ts : List Token) :
    elseBranch (.keyword .elseWord :: ts) = (do
      let rest ← expect .openBrace ts
      let (no, rest) ← block rest
      return (some no, rest)) := by
  unfold elseBranch depthBound
  rw [readElse]
  refine (expect_takes _ _).bind_congr rfl fun a ha => ?_
  simp only [id, List.length_cons] at ha ⊢
  exact ((progress _).block _).bind_congr (readBlock_eq (by omega))
    fun _ _ => rfl

theorem elseBranch_none (h : ts.head? ≠ some (.keyword .elseWord)) :
    elseBranch ts = .ok (none, ts) :=
  readElse_of_ne _ h

/-- The brace ends the block. -/
theorem block_closeBrace (ts : List Token) :
    block (.symbol .closeBrace :: ts) = .ok ([], ts) := rfl

/-- Any other token starts the next statement of the block. -/
theorem block_eq {t : Token} (h : t ≠ .symbol .closeBrace) (ts : List Token) :
    block (t :: ts) = (do
      let (s, rest) ← readStmt (t :: ts)
      let (ss, rest) ← block rest
      return (s :: ss, rest)) := by
  unfold block depthBound
  rw [readBlock_of_ne _ _ h]
  refine ((progress _).stmt _).bind_congr (readStmtWithin_eq (by omega))
    fun a ha => ?_
  exact ((progress _).block _).bind_congr (readBlock_eq (by omega))
    fun _ _ => rfl

-- ========================================================== statements

/-- A binding: a name, `=`, and any expression. -/
theorem readStmt_let (ts : List Token) :
    readStmt (.keyword .letWord :: ts) = (do
      let (name, rest) ← expectName ts
      let rest ← expect .assign rest
      let (value, rest) ← expr lowestLevel rest
      return (.bind name value, skipSemicolon rest)) := by
  unfold readStmt depthBound
  rw [readStmtWithin]
  refine (expectName_takes _).bind_congr rfl fun a ha => ?_
  refine (expect_takes _ _).bind_congr rfl fun b hb => ?_
  simp only [id, List.length_cons] at hb ⊢
  exact ((progress _).expr _ _).bind_congr (readExpr_eq _ (by omega))
    fun _ _ => rfl

/-- A `return` with nothing behind it has no value. -/
theorem readStmt_bare (h : endsReturn ts = true) :
    readStmt (.keyword .returnWord :: ts)
      = .ok (.ret none, skipSemicolon ts) := by
  unfold readStmt depthBound
  rw [readStmtWithin, if_pos h]

/-- Any other `return` has one, and takes the expression behind it. -/
theorem readStmt_return (h : endsReturn ts = false) :
    readStmt (.keyword .returnWord :: ts) = (do
      let (value, rest) ← expr lowestLevel ts
      return (.ret (some value), skipSemicolon rest)) := by
  unfold readStmt depthBound
  rw [readStmtWithin, if_neg (by rw [h]; decide)]
  simp only [List.length_cons]
  exact ((progress _).expr _ _).bind_congr (readExpr_eq _ (by omega))
    fun _ _ => rfl

/-- A token that is neither keyword starts an expression statement. -/
theorem readStmt_expr {t : Token} (hlet : t ≠ .keyword .letWord)
    (hret : t ≠ .keyword .returnWord) (ts : List Token) :
    readStmt (t :: ts) = (do
      let (value, rest) ← expr lowestLevel (t :: ts)
      return (.expr value, skipSemicolon rest)) := by
  unfold readStmt depthBound
  rw [readStmtWithin_of_ne _ _ hlet hret]
  exact ((progress _).expr _ _).bind_congr (readExpr_eq _ (by omega))
    fun _ _ => rfl

end Unbounded

end Scriptlet
