/-
A tree is determined by the tokens it is written with.

Reading the tokens back does not show this, for many trees are not read
back as they were: the test of a conditional is written without the
parentheses it needs, and an expression that is a statement without its
semicolon. The tokens are told apart all the same.

# Where one could go wrong

Two trees with the same tokens start with the same token, which says what
they are, except that a call starts like its callee. So of two
expressions at the front of the same tokens one may go on where the other
has ended, but only with argument lists (`Expr.Overlap`). Inside an
expression a symbol other than `(` follows, and that settles it. Behind
an expression that is a statement another statement may follow, and it
may start with a parenthesis; then what stands in the parentheses is an
operation and not some arguments (`Stmt.noSuffix`).

An `else` never follows a tree, so it always belongs to the conditional
whose branch has just ended.

The induction is on the number of tokens, and not on one of the trees:
what has to be known is about parts of either.
-/
import Scriptlet.Proofs.Program.RoundTrip

namespace Scriptlet

-- ====================================================== tokens of parts

/-- The tokens of an argument list with its parentheses. -/
def Expr.suffixTokens : List Expr → List Token
  | [] => [.symbol .openParen, .symbol .closeParen]
  | arg :: args =>
      .symbol .openParen :: (arg.sourceTokens
        ++ (Expr.moreArgTokens args ++ [.symbol .closeParen]))

/-- The tokens of an `else` branch. -/
def Stmt.elseTokens : Option Block → List Token
  | none => []
  | some no => .keyword .elseWord :: .symbol .openBrace ::
      (Stmt.sourceTokensAll no ++ [.symbol .closeBrace])

/-- The tokens of a call, with its argument list as one piece. -/
private theorem Expr.sourceTokens_call (callee : Expr) (args : List Expr) :
    (Expr.call callee args).sourceTokens
      = callee.sourceTokens ++ Expr.suffixTokens args := by
  cases args <;> rfl

/-- The tokens of a conditional, with its second branch as one piece. -/
private theorem Expr.sourceTokens_cond (test : Expr) (yes : Block)
    (no : Option Block) :
    (Expr.cond test yes no).sourceTokens
      = .keyword .ifWord :: (test.sourceTokens ++ .symbol .openBrace ::
        (Stmt.sourceTokensAll yes
          ++ .symbol .closeBrace :: Stmt.elseTokens no)) := by
  cases no <;> rfl

/-- The token of a truth value, for both at once. -/
private theorem Expr.sourceTokens_bool (b : Bool) :
    (Expr.bool b).sourceTokens
      = [.keyword (if b then .trueWord else .falseWord)] := by
  cases b <;> rfl

/-- Decimal digits denote one number. -/
private theorem Word.eq_of_repr_eq {m n : Nat} (eq : m.repr = n.repr) :
    m = n := by
  have digits := congrArg (fun s => Nat.ofDigitChars 10 s.toList 0) eq
  simpa only [Nat.toList_repr,
    Nat.ofDigitChars_toDigits (b := 10) (by decide) (by decide)] using digits

/-- Digits do not start with a sign. -/
private theorem Word.repr_ne_signed (m n : Nat) : m.repr ≠ "-" ++ n.repr := by
  intro eq
  have mem : '-' ∈ Nat.toDigits 10 m := by
    rw [← Nat.toList_repr, eq]
    simp
  have digit := Nat.isDigit_of_mem_toDigits (by decide) (by decide) mem
  cases digit

/-- A number is determined by how it is written. -/
theorem Word.text_injective {v w : Int64} (same : Word.text v = Word.text w) :
    v = w := by
  apply Int64.toInt_inj.1
  unfold Word.text at same
  cases hv : v.toInt with
  | ofNat m =>
      cases hw : w.toInt with
      | ofNat n =>
          rw [hv, hw] at same
          exact congrArg Int.ofNat (Word.eq_of_repr_eq same)
      | negSucc n =>
          rw [hv, hw] at same
          exact absurd same (Word.repr_ne_signed m _)
  | negSucc m =>
      cases hw : w.toInt with
      | ofNat n =>
          rw [hv, hw] at same
          exact absurd same.symm (Word.repr_ne_signed n _)
      | negSucc n =>
          rw [hv, hw] at same
          have tails := congrArg (fun s => s.toList.tail) same
          have same_repr : (m + 1).repr = (n + 1).repr := by
            apply String.toList_inj.1
            simpa [Int.repr] using tails
          exact congrArg Int.negSucc
            (Nat.succ.inj (Word.eq_of_repr_eq same_repr))

-- ========================================================= call suffixes

/-- The expression called with some argument lists, one after the
other. -/
def Expr.withCalls (e : Expr) (calls : List (List Expr)) : Expr :=
  calls.foldl .call e

/-- The calls are written behind what is called, one after the other. -/
private theorem Expr.sourceTokens_withCalls (e : Expr)
    (calls : List (List Expr)) :
    (e.withCalls calls).sourceTokens
      = e.sourceTokens ++ calls.flatMap Expr.suffixTokens := by
  induction calls generalizing e with
  | nil => exact (List.append_nil _).symm
  | cons args calls ih =>
      rw [List.flatMap_cons, ← List.append_assoc, ← Expr.sourceTokens_call]
      exact ih (.call e args)

/-- Whether the expression is a call. -/
def Expr.isCall : Expr → Bool
  | .call _ _ => true
  | _ => false

/-- Every expression is an operand with some calls behind it. -/
private theorem Expr.exists_withCalls : (e : Expr) →
    ∃ operand calls, operand.isCall = false ∧ e = Expr.withCalls operand calls
  | .call callee args => by
      obtain ⟨operand, calls, no_call, eq⟩ := callee.exists_withCalls
      refine ⟨operand, calls ++ [args], no_call, ?_⟩
      rw [Expr.withCalls, List.foldl_append, eq]
      rfl
  | .ident _ | .int _ | .bool _ | .str _ | .unary _ _ | .binary _ _ _
  | .cond _ _ _ | .fn _ _ =>
      ⟨_, [], rfl, rfl⟩

/-- The second expression is the first with calls behind it, and the
tokens behind the first begin with those. -/
def Expr.GoesOn (e : Expr) (rest : List Token) (e' : Expr)
    (rest' : List Token) : Prop :=
  ∃ calls, e' = e.withCalls calls
    ∧ rest = calls.flatMap Expr.suffixTokens ++ rest'

/-- One of the expressions goes on with calls where the other ends. -/
def Expr.Overlap (e₁ : Expr) (rest₁ : List Token) (e₂ : Expr)
    (rest₂ : List Token) : Prop :=
  e₁.GoesOn rest₁ e₂ rest₂ ∨ e₂.GoesOn rest₂ e₁ rest₁

/-- The tokens do not begin with an argument list. -/
def NoSuffix (rest : List Token) : Prop :=
  ∀ args tail, rest ≠ Expr.suffixTokens args ++ tail

/-- An argument list starts with its parenthesis. -/
private theorem Expr.suffixTokens_starts (args : List Expr) :
    ∃ tail, Expr.suffixTokens args = .symbol .openParen :: tail := by
  cases args <;> exact ⟨_, rfl⟩

/-- So nothing else starts one. -/
private theorem noSuffix_of_head? {rest : List Token}
    (other : rest.head? ≠ some (.symbol .openParen)) :
    NoSuffix rest := by
  rintro args tail rfl
  obtain ⟨tail', eq⟩ := Expr.suffixTokens_starts args
  rw [eq] at other
  exact other rfl

/-- An expression with no argument list behind it does not go on. -/
private theorem Expr.GoesOn.eq_of_noSuffix {e e' : Expr}
    {rest rest' : List Token} (goes_on : e.GoesOn rest e' rest')
    (ended : NoSuffix rest) :
    e = e' ∧ rest = rest' := by
  obtain ⟨calls, rfl, eq⟩ := goes_on
  cases calls with
  | nil => exact ⟨rfl, eq⟩
  | cons args calls =>
      rw [List.flatMap_cons, List.append_assoc] at eq
      exact absurd eq (ended args _)

/-- Expressions that overlap are the same where neither can go on. -/
private theorem Expr.Overlap.eq_of_noSuffix {e₁ e₂ : Expr}
    {rest₁ rest₂ : List Token} (overlap : e₁.Overlap rest₁ e₂ rest₂)
    (ended₁ : NoSuffix rest₁)
    (ended₂ : NoSuffix rest₂) :
    e₁ = e₂ ∧ rest₁ = rest₂ := by
  rcases overlap with goes_on | goes_on
  · exact goes_on.eq_of_noSuffix ended₁
  · obtain ⟨same, same_rest⟩ := goes_on.eq_of_noSuffix ended₂
    exact ⟨same.symm, same_rest.symm⟩

-- ========================================================= one meaning

/-- Tokens that begin with the tokens of at most one tree, up to calls
behind it. -/
structure Unambiguous (ts : List Token) : Prop where
  expr {e₁ e₂ : Expr} {rest₁ rest₂ : List Token}
    (no_else₁ : rest₁.head? ≠ some (.keyword .elseWord))
    (no_else₂ : rest₂.head? ≠ some (.keyword .elseWord))
    (eq₁ : ts = e₁.sourceTokens ++ rest₁)
    (eq₂ : ts = e₂.sourceTokens ++ rest₂) :
    e₁.Overlap rest₁ e₂ rest₂
  stmts {ss₁ ss₂ : List Stmt} {rest₁ rest₂ : List Token}
    (ended₁ : EndsBlock rest₁) (ended₂ : EndsBlock rest₂)
    (eq₁ : ts = Stmt.sourceTokensAll ss₁ ++ rest₁)
    (eq₂ : ts = Stmt.sourceTokensAll ss₂ ++ rest₂) :
    ss₁ = ss₂ ∧ rest₁ = rest₂

namespace Unambiguous

/-- Before a symbol that opens no argument list nothing is left open. -/
private theorem before {e₁ e₂ : Expr} {s₁ s₂ : Symbol}
    {rest₁ rest₂ : List Token}
    (single : Unambiguous (e₁.sourceTokens ++ .symbol s₁ :: rest₁))
    (ends₁ : s₁ ≠ .openParen) (ends₂ : s₂ ≠ .openParen)
    (eq : e₁.sourceTokens ++ .symbol s₁ :: rest₁
      = e₂.sourceTokens ++ .symbol s₂ :: rest₂) :
    e₁ = e₂ ∧ s₁ = s₂ ∧ rest₁ = rest₂ := by
  have overlap := single.expr (by simp) (by simp) rfl eq
  obtain ⟨same, same_rest⟩ := overlap.eq_of_noSuffix
    (noSuffix_of_head? (by simpa using ends₁))
    (noSuffix_of_head? (by simpa using ends₂))
  cases same_rest
  exact ⟨same, rfl, rfl⟩

/-- The statements of a block, up to its brace. -/
private theorem block {ss₁ ss₂ : List Stmt} {rest₁ rest₂ : List Token}
    (single : Unambiguous
      (Stmt.sourceTokensAll ss₁ ++ .symbol .closeBrace :: rest₁))
    (eq : Stmt.sourceTokensAll ss₁ ++ .symbol .closeBrace :: rest₁
      = Stmt.sourceTokensAll ss₂ ++ .symbol .closeBrace :: rest₂) :
    ss₁ = ss₂ ∧ rest₁ = rest₂ := by
  obtain ⟨same, same_rest⟩ :=
    single.stmts (.inr ⟨_, rfl⟩) (.inr ⟨_, rfl⟩) rfl eq
  cases same_rest
  exact ⟨same, rfl⟩

end Unambiguous

/-- All lists with fewer than `n` tokens are so: what the induction
assumes. -/
def UnambiguousBelow (n : Nat) : Prop :=
  ∀ ts : List Token, ts.length < n → Unambiguous ts

-- ======================================================= first tokens

/-- Operators with one operand have their own symbols. -/
theorem UnaryOp.symbol_inj {op₁ op₂ : UnaryOp}
    (same : op₁.symbol = op₂.symbol) : op₁ = op₂ := by
  cases op₁ <;> cases op₂ <;> first | rfl | cases same

/-- So do operators with two operands. -/
theorem BinaryOp.symbol_inj {op₁ op₂ : BinaryOp}
    (same : op₁.symbol = op₂.symbol) :
    op₁ = op₂ := by
  have eq := ofSymbol?_eq_some_iff.2 same
  rw [ofSymbol?_eq_some_iff.2 rfl] at eq
  exact Option.some.inj eq

/-- No binary operator is written as a parenthesis. -/
private theorem BinaryOp.symbol_ne_openParen (op : BinaryOp) :
    op.symbol ≠ .openParen := by
  cases op <;> decide

/-- No expression starts with a word that only a statement starts with,
or with `else`. -/
private theorem Expr.sourceTokens_ne_keyword (e : Expr) (rest tail : List Token)
    {k : Keyword} (other : k = .letWord ∨ k = .returnWord ∨ k = .elseWord) :
    e.sourceTokens ++ rest ≠ .keyword k :: tail := by
  obtain ⟨operand, calls, no_call, rfl⟩ := e.exists_withCalls
  rw [Expr.sourceTokens_withCalls, List.append_assoc]
  intro eq
  cases operand with
  | call => cases no_call
  | bool b => rcases other with rfl | rfl | rfl <;> cases b <;> cases eq
  | cond =>
      rcases other with rfl | rfl | rfl <;>
        rw [Expr.sourceTokens_cond] at eq <;> cases eq
  | _ => rcases other with rfl | rfl | rfl <;> cases eq

/-- No expression starts with a symbol other than `(`. -/
private theorem Expr.sourceTokens_ne_symbol (e : Expr) (rest tail : List Token)
    {s : Symbol} (other : s ≠ .openParen) :
    e.sourceTokens ++ rest ≠ .symbol s :: tail := by
  obtain ⟨t, tail', eq, -, symbol⟩ := e.sourceTokens_starts
  rw [eq]
  intro same
  cases same
  exact other (symbol s rfl).1

/-- Nor is a unary one. -/
private theorem UnaryOp.symbol_ne_openParen (op : UnaryOp) :
    op.symbol ≠ .openParen := by
  cases op <;> decide

-- ============================================================ operands

/-- Parameters with a comma before each are separated from what follows
them by a parenthesis. -/
private theorem moreParamTokens_unique {names₁ names₂ : List String}
    {rest₁ rest₂ : List Token}
    (eq : moreParamTokens names₁ ++ .symbol .closeParen :: rest₁
      = moreParamTokens names₂ ++ .symbol .closeParen :: rest₂) :
    names₁ = names₂ ∧ rest₁ = rest₂ := by
  induction names₁ generalizing names₂ with
  | nil =>
      cases names₂ with
      | nil =>
          cases eq
          exact ⟨rfl, rfl⟩
      | cons name names => cases eq
  | cons name names ih =>
      cases names₂ with
      | nil => cases eq
      | cons name' names' =>
          simp only [moreParamTokens, List.flatMap_cons, List.cons_append,
            List.nil_append, List.cons.injEq, Token.ident.injEq, true_and] at eq
          obtain ⟨rfl, rfl⟩ := ih eq.2
          exact ⟨by rw [eq.1], rfl⟩

/-- A parameter list is written in one way. -/
private theorem paramTokens_unique {names₁ names₂ : List String}
    {rest₁ rest₂ : List Token}
    (eq : paramTokens names₁ ++ .symbol .closeParen :: rest₁
      = paramTokens names₂ ++ .symbol .closeParen :: rest₂) :
    names₁ = names₂ ∧ rest₁ = rest₂ := by
  cases names₁ with
  | nil =>
      cases names₂ with
      | nil =>
          cases eq
          exact ⟨rfl, rfl⟩
      | cons name names => cases eq
  | cons name names =>
      cases names₂ with
      | nil => cases eq
      | cons name' names' =>
          simp only [paramTokens, List.cons_append, List.cons.injEq,
            Token.ident.injEq] at eq
          obtain ⟨rfl, rfl⟩ := moreParamTokens_unique eq.2
          exact ⟨by rw [eq.1], rfl⟩

section

variable {n : Nat} (below : UnambiguousBelow n) {rest₁ rest₂ : List Token}
include below

/-- A second branch is there or not, and its block is one block. -/
private theorem Stmt.elseTokens_unique {no₁ no₂ : Option Block}
    (short : (Stmt.elseTokens no₁ ++ rest₁).length ≤ n)
    (no_else₁ : rest₁.head? ≠ some (.keyword .elseWord))
    (no_else₂ : rest₂.head? ≠ some (.keyword .elseWord))
    (eq : Stmt.elseTokens no₁ ++ rest₁ = Stmt.elseTokens no₂ ++ rest₂) :
    no₁ = no₂ ∧ rest₁ = rest₂ := by
  cases no₁ with
  | none =>
      cases no₂ with
      | none => exact ⟨rfl, eq⟩
      | some no =>
          rw [show rest₁ = _ from eq] at no_else₁
          exact absurd rfl no_else₁
  | some no =>
      cases no₂ with
      | none =>
          rw [show rest₂ = _ from eq.symm] at no_else₂
          exact absurd rfl no_else₂
      | some no' =>
          simp only [Stmt.elseTokens, List.cons_append, List.append_assoc,
            List.nil_append, List.cons.injEq, true_and, List.length_cons]
              at eq short
          obtain ⟨rfl, rfl⟩ := (below _ (by omega)).block eq
          exact ⟨rfl, rfl⟩

/-- Behind the parenthesis the operator tells a unary operation, and its
operand ends at the other parenthesis. -/
private theorem Expr.unary_unique {op₁ op₂ : UnaryOp} {e₁ e₂ : Expr}
    (short : ((Expr.unary op₁ e₁).sourceTokens ++ rest₁).length ≤ n)
    (eq : (Expr.unary op₁ e₁).sourceTokens ++ rest₁
      = (Expr.unary op₂ e₂).sourceTokens ++ rest₂) :
    Expr.unary op₁ e₁ = .unary op₂ e₂ ∧ rest₁ = rest₂ := by
  simp only [Expr.sourceTokens, List.cons_append, List.append_assoc,
    List.nil_append, List.cons.injEq, Token.symbol.injEq, true_and,
    List.length_cons] at eq short
  obtain ⟨same_op, eq⟩ := eq
  obtain ⟨rfl, -, rfl⟩ := (below _ (by omega)).before (by decide) (by decide) eq
  exact ⟨by rw [UnaryOp.symbol_inj same_op], rfl⟩

/-- The left operand ends before the operator. -/
private theorem Expr.binary_unique {op₁ op₂ : BinaryOp} {l₁ l₂ r₁ r₂ : Expr}
    (short : ((Expr.binary op₁ l₁ r₁).sourceTokens ++ rest₁).length ≤ n)
    (eq : (Expr.binary op₁ l₁ r₁).sourceTokens ++ rest₁
      = (Expr.binary op₂ l₂ r₂).sourceTokens ++ rest₂) :
    Expr.binary op₁ l₁ r₁ = .binary op₂ l₂ r₂ ∧ rest₁ = rest₂ := by
  simp only [Expr.sourceTokens, List.cons_append, List.append_assoc,
    List.nil_append, List.cons.injEq, true_and, List.length_cons] at eq short
  obtain ⟨rfl, same_op, behind⟩ :=
    (below _ (by omega)).before op₁.symbol_ne_openParen
      op₂.symbol_ne_openParen eq
  rw [List.length_append, List.length_cons] at short
  obtain ⟨rfl, -, rfl⟩ := (below _ (by omega)).before (by decide)
      (by decide) behind
  exact ⟨by rw [BinaryOp.symbol_inj same_op], rfl⟩

/-- A conditional, part by part: each part ends at a bracket. -/
private theorem Expr.cond_unique {test₁ test₂ : Expr} {yes₁ yes₂ : Block}
    {no₁ no₂ : Option Block}
    (short : ((Expr.cond test₁ yes₁ no₁).sourceTokens ++ rest₁).length ≤ n)
    (no_else₁ : rest₁.head? ≠ some (.keyword .elseWord))
    (no_else₂ : rest₂.head? ≠ some (.keyword .elseWord))
    (eq : (Expr.cond test₁ yes₁ no₁).sourceTokens ++ rest₁
      = (Expr.cond test₂ yes₂ no₂).sourceTokens ++ rest₂) :
    Expr.cond test₁ yes₁ no₁ = .cond test₂ yes₂ no₂ ∧ rest₁ = rest₂ := by
  simp only [Expr.sourceTokens_cond, List.cons_append, List.append_assoc,
    List.cons.injEq, true_and, List.length_cons] at eq short
  obtain ⟨rfl, -, behind_test⟩ :=
    (below _ (by omega)).before (by decide) (by decide) eq
  rw [List.length_append, List.length_cons] at short
  obtain ⟨rfl, behind_yes⟩ := (below _ (by omega)).block behind_test
  rw [List.length_append, List.length_cons] at short
  obtain ⟨rfl, rfl⟩ := Stmt.elseTokens_unique below
      (by omega) no_else₁ no_else₂ behind_yes
  exact ⟨rfl, rfl⟩

/-- A function literal, part by part. -/
private theorem Expr.fn_unique {params₁ params₂ : List String}
    {body₁ body₂ : Block}
    (short : ((Expr.fn params₁ body₁).sourceTokens ++ rest₁).length ≤ n)
    (eq : (Expr.fn params₁ body₁).sourceTokens ++ rest₁
      = (Expr.fn params₂ body₂).sourceTokens ++ rest₂) :
    Expr.fn params₁ body₁ = .fn params₂ body₂ ∧ rest₁ = rest₂ := by
  simp only [Expr.sourceTokens, List.cons_append, List.append_assoc,
    List.nil_append, List.cons.injEq, true_and, List.length_cons] at eq short
  obtain ⟨rfl, behind_params⟩ := paramTokens_unique eq
  rw [List.length_append, List.length_cons, List.length_cons] at short
  obtain ⟨rfl, rfl⟩ := (below _ (by omega)).block
      (List.cons.inj behind_params).2
  exact ⟨rfl, rfl⟩

/-- Of expressions that are no calls the first token tells most. -/
private theorem Expr.operand_unique {e₁ e₂ : Expr}
    (operand₁ : e₁.isCall = false) (operand₂ : e₂.isCall = false)
    (short : (e₁.sourceTokens ++ rest₁).length ≤ n)
    (no_else₁ : rest₁.head? ≠ some (.keyword .elseWord))
    (no_else₂ : rest₂.head? ≠ some (.keyword .elseWord))
    (eq : e₁.sourceTokens ++ rest₁ = e₂.sourceTokens ++ rest₂) :
    e₁ = e₂ ∧ rest₁ = rest₂ := by
  -- an operation that starts with `(` and a unary operator is unary
  have not_both {op : UnaryOp} {e : Expr} {op' : BinaryOp} {l r : Expr}
      {rest rest' : List Token} : (Expr.unary op e).sourceTokens ++ rest
        ≠ (Expr.binary op' l r).sourceTokens ++ rest' := by
    intro same
    simp only [Expr.sourceTokens, List.cons_append, List.append_assoc,
      List.cons.injEq, true_and] at same
    exact l.sourceTokens_ne_symbol _ _ op.symbol_ne_openParen same.symm
  cases e₁ with
  | call => cases operand₁
  | unary =>
      cases e₂ with
      | unary => exact Expr.unary_unique below short eq
      | binary => exact absurd eq not_both
      | call => cases operand₂
      | _ => simp [Expr.sourceTokens, Expr.sourceTokens_bool,
            Expr.sourceTokens_cond] at eq
  | binary =>
      cases e₂ with
      | binary => exact Expr.binary_unique below short eq
      | unary => exact absurd eq.symm not_both
      | call => cases operand₂
      | _ => simp [Expr.sourceTokens, Expr.sourceTokens_bool,
            Expr.sourceTokens_cond] at eq
  | cond =>
      cases e₂ with
      | cond => exact Expr.cond_unique below short no_else₁ no_else₂ eq
      | bool b =>
          cases b <;> simp [Expr.sourceTokens, Expr.sourceTokens_cond] at eq
      | call => cases operand₂
      | _ => simp [Expr.sourceTokens, Expr.sourceTokens_cond] at eq
  | fn =>
      cases e₂ with
      | fn => exact Expr.fn_unique below short eq
      | bool b => cases b <;> simp [Expr.sourceTokens] at eq
      | call => cases operand₂
      | _ => simp [Expr.sourceTokens, Expr.sourceTokens_cond] at eq
  | ident =>
      cases e₂ with
      | ident =>
          cases eq
          exact ⟨rfl, rfl⟩
      | call => cases operand₂
      | _ => simp [Expr.sourceTokens, Expr.sourceTokens_bool,
            Expr.sourceTokens_cond] at eq
  | str =>
      cases e₂ with
      | str =>
          cases eq
          exact ⟨rfl, rfl⟩
      | call => cases operand₂
      | _ => simp [Expr.sourceTokens, Expr.sourceTokens_bool,
            Expr.sourceTokens_cond] at eq
  | int =>
      cases e₂ with
      | int =>
          obtain ⟨same, same_rest⟩ := List.cons.inj eq
          exact ⟨by rw [Word.text_injective (Token.int.inj same)], same_rest⟩
      | call => cases operand₂
      | _ => simp [Expr.sourceTokens, Expr.sourceTokens_bool,
            Expr.sourceTokens_cond] at eq
  | bool b =>
      cases e₂ with
      | bool b' =>
          cases b <;> cases b' <;> simp [Expr.sourceTokens] at eq ⊢ <;> exact eq
      | call => cases operand₂
      | fn => cases b <;> simp [Expr.sourceTokens] at eq
      | cond =>
          cases b <;> simp [Expr.sourceTokens, Expr.sourceTokens_cond] at eq
      | _ => simp [Expr.sourceTokens, Expr.sourceTokens_bool] at eq

-- =============================================================== calls

omit below in
/-- Behind an argument a comma or a parenthesis follows. -/
private theorem Expr.moreArgTokens_starts (args : List Expr)
    (rest : List Token) :
    ∃ s tail, Expr.moreArgTokens args ++ .symbol .closeParen :: rest
      = .symbol s :: tail
      ∧ (s = .comma ∨ s = .closeParen) := by
  cases args with
  | nil => exact ⟨_, _, rfl, .inr rfl⟩
  | cons arg args => exact ⟨_, _, rfl, .inl rfl⟩

/-- An argument, and what follows it. -/
private theorem Expr.arg_unique {e₁ e₂ : Expr} {args₁ args₂ : List Expr}
    (short : (e₁.sourceTokens
      ++ (Expr.moreArgTokens args₁
        ++ .symbol .closeParen :: rest₁)).length < n)
    (eq : e₁.sourceTokens ++ (Expr.moreArgTokens args₁
      ++ .symbol .closeParen :: rest₁)
      = e₂.sourceTokens ++ (Expr.moreArgTokens args₂
        ++ .symbol .closeParen :: rest₂)) :
    e₁ = e₂ ∧ Expr.moreArgTokens args₁ ++ .symbol .closeParen :: rest₁
      = Expr.moreArgTokens args₂ ++ .symbol .closeParen :: rest₂ := by
  obtain ⟨s₁, tail₁, eq₁, kind₁⟩ := Expr.moreArgTokens_starts args₁ rest₁
  obtain ⟨s₂, tail₂, eq₂, kind₂⟩ := Expr.moreArgTokens_starts args₂ rest₂
  rw [eq₁] at short
  rw [eq₁, eq₂] at eq ⊢
  have no_paren {s : Symbol} (kind : s = .comma ∨ s = .closeParen) :
      s ≠ .openParen := by
    rcases kind with rfl | rfl <;> decide
  obtain ⟨same, rfl, rfl⟩ :=
    (below _ short).before (no_paren kind₁) (no_paren kind₂) eq
  exact ⟨same, rfl⟩

/-- The arguments behind the first one, each up to a comma or the
parenthesis. -/
private theorem Expr.moreArgTokens_unique {args₁ args₂ : List Expr}
    (short : (Expr.moreArgTokens args₁
      ++ .symbol .closeParen :: rest₁).length ≤ n)
    (eq : Expr.moreArgTokens args₁ ++ .symbol .closeParen :: rest₁
      = Expr.moreArgTokens args₂ ++ .symbol .closeParen :: rest₂) :
    args₁ = args₂ ∧ rest₁ = rest₂ := by
  induction args₁ generalizing args₂ with
  | nil =>
      cases args₂ with
      | nil =>
          cases eq
          exact ⟨rfl, rfl⟩
      | cons arg args => cases eq
  | cons arg args ih =>
      cases args₂ with
      | nil => cases eq
      | cons arg' args' =>
          simp only [Expr.moreArgTokens, List.cons_append, List.append_assoc,
            List.cons.injEq, true_and, List.length_cons] at eq short
          obtain ⟨rfl, behind⟩ := Expr.arg_unique below (by omega) eq
          rw [List.length_append] at short
          obtain ⟨rfl, rfl⟩ := ih (by omega) behind
          exact ⟨rfl, rfl⟩

/-- An argument list as a whole. -/
private theorem Expr.suffixTokens_unique {args₁ args₂ : List Expr}
    (short : (Expr.suffixTokens args₁ ++ rest₁).length ≤ n)
    (eq : Expr.suffixTokens args₁ ++ rest₁ = Expr.suffixTokens args₂ ++ rest₂) :
    args₁ = args₂ ∧ rest₁ = rest₂ := by
  cases args₁ with
  | nil =>
      cases args₂ with
      | nil =>
          cases eq
          exact ⟨rfl, rfl⟩
      | cons arg args =>
          simp only [Expr.suffixTokens, List.cons_append, List.append_assoc,
            List.cons.injEq, true_and] at eq
          exact absurd eq.symm (arg.sourceTokens_ne_symbol _ _ (by decide))
  | cons arg args =>
      simp only [Expr.suffixTokens, List.cons_append, List.append_assoc,
        List.nil_append, List.length_cons] at eq short
      cases args₂ with
      | nil =>
          exact absurd (List.cons.inj eq).2
            (arg.sourceTokens_ne_symbol _ _ (by decide))
      | cons arg' args' =>
          simp only [List.cons_append, List.append_assoc, List.nil_append,
            List.cons.injEq, true_and] at eq
          obtain ⟨rfl, behind⟩ := Expr.arg_unique below (by omega) eq
          rw [List.length_append] at short
          obtain ⟨rfl, rfl⟩ := Expr.moreArgTokens_unique below (by omega) behind
          exact ⟨rfl, rfl⟩

/-- Of two sequences of calls one goes on where the other ends. -/
private theorem Expr.overlap_withCalls (e : Expr)
    {calls₁ calls₂ : List (List Expr)}
    (short : (calls₁.flatMap Expr.suffixTokens ++ rest₁).length ≤ n)
    (eq : calls₁.flatMap Expr.suffixTokens ++ rest₁
      = calls₂.flatMap Expr.suffixTokens ++ rest₂) :
    (e.withCalls calls₁).Overlap rest₁ (e.withCalls calls₂) rest₂ := by
  induction calls₁ generalizing e calls₂ with
  | nil => exact .inl ⟨calls₂, rfl, eq⟩
  | cons args₁ calls₁ ih =>
      cases calls₂ with
      | nil => exact .inr ⟨args₁ :: calls₁, rfl, eq.symm⟩
      | cons args₂ calls₂ =>
          simp only [List.flatMap_cons, List.append_assoc] at eq short
          obtain ⟨rfl, behind⟩ := Expr.suffixTokens_unique below short eq
          rw [List.length_append] at short
          exact ih (.call e args₁) (by omega) behind

omit below in
/-- No `else` stands behind the calls, as none stands before them. -/
private theorem head?_suffixes_ne_else {calls : List (List Expr)}
    {rest : List Token} (no_else : rest.head? ≠ some (.keyword .elseWord)) :
    (calls.flatMap Expr.suffixTokens ++ rest).head?
      ≠ some (.keyword .elseWord) := by
  cases calls with
  | nil => exact no_else
  | cons args calls =>
      obtain ⟨tail, eq⟩ := Expr.suffixTokens_starts args
      simp [eq]

/-- Two expressions at the front of the same tokens. -/
theorem Expr.overlap_of_eq {e₁ e₂ : Expr}
    (short : (e₁.sourceTokens ++ rest₁).length ≤ n)
    (no_else₁ : rest₁.head? ≠ some (.keyword .elseWord))
    (no_else₂ : rest₂.head? ≠ some (.keyword .elseWord))
    (eq : e₁.sourceTokens ++ rest₁ = e₂.sourceTokens ++ rest₂) :
    e₁.Overlap rest₁ e₂ rest₂ := by
  obtain ⟨operand₁, calls₁, no_call₁, rfl⟩ := e₁.exists_withCalls
  obtain ⟨operand₂, calls₂, no_call₂, rfl⟩ := e₂.exists_withCalls
  rw [Expr.sourceTokens_withCalls, List.append_assoc] at short
  rw [Expr.sourceTokens_withCalls, Expr.sourceTokens_withCalls,
    List.append_assoc, List.append_assoc] at eq
  obtain ⟨rfl, behind⟩ := Expr.operand_unique below no_call₁ no_call₂ short
    (head?_suffixes_ne_else no_else₁) (head?_suffixes_ne_else no_else₂) eq
  rw [List.length_append] at short
  exact Expr.overlap_withCalls below operand₁ (by omega) behind

-- ========================================================== statements

/-- An expression does not begin with an argument list: what it may begin
with in parentheses is an operation. -/
private theorem Expr.noSuffix {e : Expr}
    (short : (e.sourceTokens ++ rest₁).length ≤ n) :
    NoSuffix (e.sourceTokens ++ rest₁) := by
  obtain ⟨operand, calls, no_call, rfl⟩ := e.exists_withCalls
  rw [Expr.sourceTokens_withCalls, List.append_assoc] at short ⊢
  cases operand with
  | call => cases no_call
  | unary op e =>
      intro args tail eq
      cases args with
      | nil =>
          simp only [Expr.suffixTokens, Expr.sourceTokens, List.cons_append,
            List.cons.injEq, Token.symbol.injEq, true_and] at eq
          cases op <;> cases eq.1
      | cons arg args =>
          simp only [Expr.suffixTokens, Expr.sourceTokens, List.cons_append,
            List.append_assoc, List.cons.injEq, true_and] at eq
          exact arg.sourceTokens_ne_symbol _ _ op.symbol_ne_openParen eq.symm
  | binary op l r =>
      intro args tail eq
      simp only [Expr.sourceTokens, List.cons_append, List.append_assoc,
        List.nil_append, List.length_cons] at eq short
      cases args with
      | nil =>
          exact l.sourceTokens_ne_symbol _ _ (by decide) (List.cons.inj eq).2
      | cons arg args =>
          simp only [Expr.suffixTokens, List.cons_append, List.append_assoc,
            List.nil_append, List.cons.injEq, true_and] at eq
          obtain ⟨s, tail', starts, kind⟩ := Expr.moreArgTokens_starts args tail
          rw [starts] at eq
          have no_paren : s ≠ .openParen :=
            by rcases kind with rfl | rfl <;> decide
          obtain ⟨-, same, -⟩ :=
            (below _ (by omega)).before op.symbol_ne_openParen no_paren eq
          rcases kind with rfl | rfl <;> cases op <;> cases same
  | bool b => exact noSuffix_of_head? (by cases b <;> simp [Expr.sourceTokens])
  | cond => exact noSuffix_of_head? (by simp [Expr.sourceTokens_cond])
  | _ => exact noSuffix_of_head? (by simp [Expr.sourceTokens])

/-- Nor do statements. -/
private theorem Stmt.noSuffix {ss : List Stmt}
    (short : (Stmt.sourceTokensAll ss ++ rest₁).length ≤ n) (ended :
      EndsBlock rest₁) : NoSuffix (Stmt.sourceTokensAll ss ++ rest₁) := by
  cases ss with
  | nil =>
      rcases ended with rfl | ⟨tail, rfl⟩ <;>
        exact noSuffix_of_head? (by simp [sourceTokensAll])
  | cons s ss =>
      rw [Stmt.sourceTokensAll, List.append_assoc] at short ⊢
      cases s with
      | expr e => exact Expr.noSuffix below short
      | bind => exact noSuffix_of_head? (by simp [Stmt.sourceTokens])
      | ret value =>
          cases value <;> exact noSuffix_of_head? (by simp [Stmt.sourceTokens])

omit below in
/-- A block does not end where a statement starts. -/
private theorem Stmt.not_endsBlock (s : Stmt) (rest : List Token) :
    ¬ EndsBlock (s.sourceTokens ++ rest) := by
  rintro (eq | ⟨tail, eq⟩)
  · cases s with
    | bind => cases eq
    | ret value => cases value <;> cases eq
    | expr e =>
        obtain ⟨t, tail, starts, -⟩ := e.sourceTokens_starts
        rw [Stmt.sourceTokens, starts] at eq
        cases eq
  · cases s with
    | bind => cases eq
    | ret value => cases value <;> cases eq
    | expr e => exact e.sourceTokens_ne_symbol _ _ (by decide) eq

omit below in
/-- No statement starts with `else`. -/
private theorem Stmt.head?_sourceTokensAll_ne_else {ss : List Stmt}
    {rest : List Token} (ended : EndsBlock rest) :
    (Stmt.sourceTokensAll ss ++ rest).head? ≠ some (.keyword .elseWord) := by
  intro first
  obtain ⟨tail, eq⟩ := List.head?_eq_some_iff.1 first
  cases ss with
  | nil => rcases ended with rfl | ⟨_, rfl⟩ <;> cases eq
  | cons s ss =>
      rw [Stmt.sourceTokensAll, List.append_assoc] at eq
      cases s with
      | bind => cases eq
      | ret value => cases value <;> cases eq
      | expr e => exact e.sourceTokens_ne_keyword _ _ (.inr (.inr rfl)) eq

/-- The first statement, by its keyword. One that is an expression ends
where the next statement starts, since no statement is written like an
argument list. -/
private theorem Stmt.first_unique {s₁ s₂ : Stmt} {ss₁ ss₂ : List Stmt}
    (short : (s₁.sourceTokens
      ++ (Stmt.sourceTokensAll ss₁ ++ rest₁)).length ≤ n)
    (ended₁ : EndsBlock rest₁) (ended₂ : EndsBlock rest₂)
    (eq : s₁.sourceTokens ++ (Stmt.sourceTokensAll ss₁ ++ rest₁)
      = s₂.sourceTokens ++ (Stmt.sourceTokensAll ss₂ ++ rest₂)) :
    s₁ = s₂ ∧ Stmt.sourceTokensAll ss₁ ++ rest₁
      = Stmt.sourceTokensAll ss₂ ++ rest₂ := by
  match s₁, s₂ with
  | .bind name₁ e₁, .bind name₂ e₂ =>
      simp only [Stmt.sourceTokens, List.cons_append, List.append_assoc,
        List.nil_append, List.cons.injEq, Token.ident.injEq, true_and,
        List.length_cons] at eq short
      obtain ⟨rfl, values⟩ := eq
      obtain ⟨rfl, -, behind⟩ :=
        (below _ (by omega)).before (by decide) (by decide) values
      exact ⟨rfl, behind⟩
  | .ret (some e₁), .ret (some e₂) =>
      simp only [Stmt.sourceTokens, List.cons_append, List.append_assoc,
        List.nil_append, List.cons.injEq, true_and, List.length_cons]
          at eq short
      obtain ⟨rfl, -, behind⟩ :=
        (below _ (by omega)).before (by decide) (by decide) eq
      exact ⟨rfl, behind⟩
  | .ret none, .ret none => exact ⟨rfl, (List.cons.inj (List.cons.inj eq).2).2⟩
  | .expr e₁, .expr e₂ =>
      -- no bracket ends the expression: it is what comes next that does
      rw [Stmt.sourceTokens, Stmt.sourceTokens] at eq
      rw [Stmt.sourceTokens] at short
      have overlap := Expr.overlap_of_eq below short
        (Stmt.head?_sourceTokensAll_ne_else ended₁)
        (Stmt.head?_sourceTokensAll_ne_else ended₂) eq
      have short₂ := short
      rw [eq] at short₂
      rw [List.length_append] at short short₂
      obtain ⟨rfl, behind⟩ := overlap.eq_of_noSuffix
        (Stmt.noSuffix below (by omega) ended₁)
        (Stmt.noSuffix below (by omega) ended₂)
      exact ⟨rfl, behind⟩
  | .ret none, .ret (some e) =>
      simp only [Stmt.sourceTokens, List.cons_append, List.append_assoc,
        List.cons.injEq, true_and] at eq
      exact absurd eq.symm (e.sourceTokens_ne_symbol _ _ (by decide))
  | .ret (some e), .ret none =>
      simp only [Stmt.sourceTokens, List.cons_append, List.append_assoc,
        List.cons.injEq, true_and] at eq
      exact absurd eq (e.sourceTokens_ne_symbol _ _ (by decide))
  | .bind _ _, .expr e | .ret none, .expr e | .ret (some _), .expr e =>
      exact absurd eq.symm (e.sourceTokens_ne_keyword _ _ (by simp))
  | .expr e, .bind _ _ | .expr e, .ret none | .expr e, .ret (some _) =>
      exact absurd eq (e.sourceTokens_ne_keyword _ _ (by simp))
  | .bind _ _, .ret none | .bind _ _, .ret (some _) | .ret none, .bind _ _
  | .ret (some _), .bind _ _ => cases eq

end

-- ============================================================= results

/-- No tokens begin with the tokens of two trees, but for calls behind
them. -/
theorem unambiguous (ts : List Token) : Unambiguous ts := by
  induction length : ts.length using Nat.strongRecOn generalizing ts with
  | ind n ih =>
      have below : UnambiguousBelow n :=
        fun us shorter => ih us.length shorter us rfl
      constructor
      case expr =>
        intro e₁ e₂ rest₁ rest₂ no_else₁ no_else₂ eq₁ eq₂
        rw [eq₁] at length
        exact Expr.overlap_of_eq below (Nat.le_of_eq length) no_else₁ no_else₂
          (eq₁.symm.trans eq₂)
      case stmts =>
        intro ss₁ ss₂ rest₁ rest₂ ended₁ ended₂ eq₁ eq₂
        have eq := eq₁.symm.trans eq₂
        rw [eq₁] at length
        cases ss₁ with
        | nil =>
            cases ss₂ with
            | nil => exact ⟨rfl, eq⟩
            | cons s ss =>
                rw [Stmt.sourceTokensAll, Stmt.sourceTokensAll,
                  List.append_assoc] at eq
                rw [show rest₁ = _ from eq] at ended₁
                exact absurd ended₁ (s.not_endsBlock _)
        | cons s₁ ss₁ =>
            rw [Stmt.sourceTokensAll, List.append_assoc] at eq length
            cases ss₂ with
            | nil =>
                rw [show rest₂ = _ from eq.symm] at ended₂
                exact absurd ended₂ (s₁.not_endsBlock _)
            | cons s₂ ss₂ =>
                rw [Stmt.sourceTokensAll, List.append_assoc] at eq
                obtain ⟨rfl, behind⟩ :=
                  Stmt.first_unique below (Nat.le_of_eq length) ended₁ ended₂ eq
                have some_tokens : s₁.sourceTokens ≠ [] := by
                  intro none_of
                  exact s₁.not_endsBlock [] (.inl (by rw [none_of]; rfl))
                have positive := List.length_pos_iff.2 some_tokens
                rw [List.length_append] at length
                obtain ⟨rfl, rfl⟩ := (below _ (by omega)).stmts ended₁
                    ended₂ rfl behind
                exact ⟨rfl, rfl⟩

/-- Programs that are written with the same tokens are the same. -/
theorem Stmt.sourceTokensAll_injective {p q : List Stmt}
    (same : Stmt.sourceTokensAll p = Stmt.sourceTokensAll q) : p = q :=
  ((unambiguous (Stmt.sourceTokensAll p ++ [])).stmts (.inl rfl) (.inl rfl) rfl
    (by rw [same])).1

end Scriptlet
