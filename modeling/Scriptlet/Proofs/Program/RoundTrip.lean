/-
Writing a program and reading it gives the program back.

Not every tree survives. Scanning asks for names, numbers and strings
that are scanned as they were written (`lexical`). Reading asks for two
things more (`layout`), since some parentheses and semicolons that one
would need are not written. The text of a conditional puts none around
its test, so the test has to bring them: it has to be an operation. And
the text of an expression used as a statement has no semicolon, so the
statement behind it must not carry it on, which a parenthesis would.

# The argument

The tokens of a tree are a phrase of the grammar (`Expr.Reread`). An
operation brings its parentheses, so every expression is a phrase of the
tightest stratum and may stand anywhere; the strata of the grammar play
no part beyond that. What the grammar says about the next token has to be
looked at where a conditional or a statement ends, and nowhere else.
-/
import Scriptlet.Proofs.Expr.Written
import Scriptlet.Proofs.Read.Language

namespace Scriptlet

-- ============================================================== layout

/-- The expressions that are written with parentheses around them. -/
def Expr.isOperation : Expr → Bool
  | .unary _ _ => true
  | .binary _ _ _ => true
  | _ => false

/-- The conditions under which a text is read with the grouping it was
written with. -/
def layout : Rules where
  test e := e.isOperation = true
  next s t := ∀ a b, s = .expr a → t = .expr b →
    b.source.toList.head? ≠ some '('

-- ======================================================== first tokens

/-- An expression does not start with a symbol, unless with a
parenthesis, and then so does its text. -/
theorem Expr.sourceTokens_starts :
    (e : Expr) → ∃ t tail, e.sourceTokens = t :: tail
    ∧ t ≠ .keyword .elseWord
    ∧ ∀ s, t = .symbol s → s = .openParen ∧ e.source.toList.head? = some '('
  | .ident _ | .int _ | .bool true | .bool false | .str _ | .cond _ _ none
  | .cond _ _ (some _)
  | .fn _ _ => ⟨_, _, rfl, by simp, by simp⟩
  | .unary _ _ | .binary _ _ _ => ⟨_, _, rfl, by simp, by simp [Expr.source]⟩
  | .call callee args => by
      obtain ⟨t, tail, eq, not_else, symbol⟩ := callee.sourceTokens_starts
      have tokens_eq : ∃ tail',
          (Expr.call callee args).sourceTokens = t :: tail' := by
        cases args <;> simp [Expr.sourceTokens, eq]
      obtain ⟨tail', eq'⟩ := tokens_eq
      refine ⟨t, tail', eq', not_else, fun s is_symbol => ?_⟩
      obtain ⟨paren, first⟩ := symbol s is_symbol
      refine ⟨paren, ?_⟩
      simp [Expr.source, List.head?_append, first]

/-- What may stand behind an expression used as a statement: nothing
that carries it on, and no `else`. -/
def Parts (rest : List Token) : Prop :=
  pull rest = 0 ∧ rest.head? ≠ some (.keyword .elseWord)

/-- What may stand behind a list of statements. -/
def EndsBlock (rest : List Token) : Prop :=
  rest = [] ∨ ∃ tail, rest = .symbol .closeBrace :: tail

/-- Neither a closing brace nor the end carries an expression on. -/
theorem EndsBlock.parts {rest : List Token} (ended : EndsBlock rest) :
    Parts rest := by
  rcases ended with rfl | ⟨tail, rfl⟩ <;> exact ⟨rfl, by simp⟩

/-- An expression that is not written with a parenthesis in front does not
carry on the one before it. -/
theorem Expr.parts_sourceTokens {e : Expr}
    (no_paren : e.source.toList.head? ≠ some '(') (rest : List Token) :
    Parts (e.sourceTokens ++ rest) := by
  obtain ⟨t, tail, eq, not_else, symbol⟩ := e.sourceTokens_starts
  rw [eq, List.cons_append]
  constructor
  · refine pull_of_not_symbol fun s tail' same => ?_
    cases same
    exact no_paren (symbol s rfl).2
  · simpa using not_else

/-- The statements behind an expression do not carry it on. -/
private theorem Stmt.parts_sourceTokensAll {ss : List Stmt} {rest : List Token}
    (next : ∀ t, ss.head? = some t → ∀ e, t = .expr e →
      e.source.toList.head? ≠ some '(')
    (ended : EndsBlock rest) : Parts (Stmt.sourceTokensAll ss ++ rest) := by
  cases ss with
  | nil => exact ended.parts
  | cons t ss =>
      rw [Stmt.sourceTokensAll, List.append_assoc]
      cases t with
      | bind name e => exact ⟨rfl, by simp [Stmt.sourceTokens]⟩
      | ret value => cases value <;> exact ⟨rfl, by simp [Stmt.sourceTokens]⟩
      | expr e => exact Expr.parts_sourceTokens (next _ rfl e rfl) _

-- ============================================================== phrases

/-- The tokens of an expression are a phrase for it wherever no `else`
follows, and those of an operation are one between parentheses. -/
structure Expr.Reread (e : Expr) : Prop where
  whole {rest : List Token} (no_else : rest.head? ≠ some (.keyword .elseWord)) :
    Derives (.expr .call e) (e.sourceTokens ++ rest) rest
  inside (operation : e.isOperation = true) : ∃ inner,
    e.sourceTokens = .symbol .openParen :: (inner ++ [.symbol .closeParen])
      ∧ ∀ rest, Derives (.expr .equality e)
        (inner ++ .symbol .closeParen :: rest)
          (.symbol .closeParen :: rest)

namespace Expr.Reread

variable {e : Expr}

/-- An operation is written in parentheses, and what stands between them is
its phrase. -/
private theorem of_inside (inner : List Token)
    (tokens : e.sourceTokens
      = .symbol .openParen :: (inner ++ [.symbol .closeParen]))
    (phrase : ∀ rest, Derives (.expr .equality e)
      (inner ++ .symbol .closeParen :: rest) (.symbol .closeParen :: rest)) :
        e.Reread where
  whole {rest} _ := by
    rw [tokens, List.cons_append, List.append_assoc]
    exact .group (phrase rest)
  inside _ := ⟨inner, tokens, phrase⟩

/-- Anything else is a phrase as it is written. -/
private theorem of_whole (operand : e.isOperation = false)
    (phrase : ∀ rest, rest.head? ≠ some (.keyword .elseWord) →
      Derives (.expr .call e) (e.sourceTokens ++ rest) rest) : e.Reread where
  whole {rest} no_else := phrase rest no_else
  inside operation := by
    rw [operand] at operation
    cases operation

/-- Being a phrase of the tightest stratum, it is one of any. -/
private theorem at_stratum (reread : e.Reread) (s : Stratum) {rest : List Token}
    (no_else : rest.head? ≠ some (.keyword .elseWord)) :
    Derives (.expr s e) (e.sourceTokens ++ rest) rest :=
  (reread.whole no_else).loosen (by cases s <;> decide)

/-- Any symbol may stand behind an expression. -/
private theorem before (reread : e.Reread) (next : Symbol) (s : Stratum)
    (rest : List Token) :
    Derives (.expr s e) (e.sourceTokens ++ .symbol next :: rest)
      (.symbol next :: rest) :=
  reread.at_stratum s (by simp)

/-- A unary operator, in its parentheses. -/
private theorem unary (op : UnaryOp) (reread : e.Reread) :
    (Expr.unary op e).Reread := by
  refine of_inside (.symbol op.symbol :: e.sourceTokens) rfl fun rest => ?_
  have operation : Derives (.expr .unary (.unary op e)) _ _ :=
    .unary (reread.before .closeParen .unary rest)
  exact operation.loosen (by decide)

/-- A binary operator, in its parentheses. -/
private theorem binary (op : BinaryOp) {l r : Expr} (left : l.Reread)
    (right : r.Reread) :
    (Expr.binary op l r).Reread := by
  refine of_inside (l.sourceTokens ++ .symbol op.symbol :: r.sourceTokens)
    (by simp [Expr.sourceTokens]) fun rest => ?_
  rw [List.append_assoc]
  have operation := Derives.binary (left.before op.symbol op.stratum _)
    (right.before .closeParen op.stratum.tighter rest)
  exact operation.loosen (by cases op <;> decide)

end Expr.Reread

/-- The tokens of some statements are a phrase for them. -/
def Stmt.RereadAll (ss : List Stmt) : Prop :=
  ∀ rest, EndsBlock rest → Derives (.stmts ss)
    (Stmt.sourceTokensAll ss ++ rest) rest

/-- The statements of a block are read back up to its brace. -/
private theorem Stmt.RereadAll.block {ss : List Stmt}
    (reread : Stmt.RereadAll ss) (rest : List Token) :
    Derives (.stmts ss) (Stmt.sourceTokensAll ss ++ .symbol .closeBrace :: rest)
      (.symbol .closeBrace :: rest) :=
  reread _ (.inr ⟨rest, rfl⟩)

/-- The digits of a word denote the word. -/
private theorem Word.decimal_text {w : Int64} (sign : 0 ≤ w.toInt) :
    decimal (Word.text w) = w.toInt.toNat := by
  unfold decimal
  rw [Word.toList_text sign]
  exact Nat.ofDigitChars_toDigits (by decide) (by decide)

/-- A word that is not negative is read back from its digits. -/
private theorem Expr.Reread.int {w : Int64} (sign : 0 ≤ w.toInt) :
    (Expr.int w).Reread := by
  have below := w.toInt_lt
  refine .of_whole rfl fun rest _ => .int rest ?_ ?_
  · rw [Word.decimal_text sign]
    omega
  · rw [Word.decimal_text sign]
    omega

/-- No `else` stands behind an argument. -/
private theorem Expr.head?_moreArgTokens (es : List Expr) (rest : List Token) :
    (Expr.moreArgTokens es ++ .symbol .closeParen :: rest).head?
      ≠ some (.keyword .elseWord) := by
  cases es <;> simp [Expr.moreArgTokens]

mutual

/-- Every expression within the rules of layout is read back. An operation
needs its parentheses here, and nothing else does. -/
theorem Expr.reread : (e : Expr) → e.Obeys lexical → e.Obeys layout → e.Reread
  | .ident name, _, _ => .of_whole rfl fun rest _ => .ident name rest
  | .int w, sign, _ => .int sign
  | .bool true, _, _ => .of_whole rfl fun rest _ => .trueWord rest
  | .bool false, _, _ => .of_whole rfl fun rest _ => .falseWord rest
  | .str body, _, _ => .of_whole rfl fun rest _ => .str body rest
  | .unary op e, scanned, laid => .unary op (e.reread scanned laid)
  | .binary op l r, scanned, laid =>
      .binary op (l.reread scanned.1 laid.1) (r.reread scanned.2 laid.2)
  | .cond test yes none, scanned, laid => by
      refine .of_whole rfl fun rest no_else => ?_
      obtain ⟨inner, tokens, phrase⟩ :=
        (test.reread scanned.2.1 laid.2.1).inside laid.1
      have yes_ok := Stmt.rereadAll yes scanned.2.2 laid.2.2
      simp only [Expr.sourceTokens, tokens, List.cons_append, List.append_assoc,
        List.nil_append]
      exact .cond (phrase _) (yes_ok.block rest) no_else
  | .cond test yes (some no), scanned, laid => by
      refine .of_whole rfl fun rest _ => ?_
      obtain ⟨inner, tokens, phrase⟩ :=
        (test.reread scanned.2.1 laid.2.1).inside laid.1
      have yes_ok := Stmt.rereadAll yes scanned.2.2.1 laid.2.2.1
      have no_ok := Stmt.rereadAll no scanned.2.2.2 laid.2.2.2
      simp only [Expr.sourceTokens, tokens, List.cons_append, List.append_assoc,
        List.nil_append]
      exact .condElse (phrase _) (yes_ok.block _) (no_ok.block rest)
  | .fn params body, scanned, laid => by
      refine .of_whole rfl fun rest _ => ?_
      have body_ok := Stmt.rereadAll body scanned.2 laid.2
      simp only [Expr.sourceTokens, List.cons_append, List.append_assoc,
        List.nil_append]
      exact .fn (body_ok.block rest)
  | .call callee [], scanned, laid => by
      refine .of_whole rfl fun rest _ => ?_
      have callee_ok := callee.reread scanned.1 laid.1
      simp only [Expr.sourceTokens, List.append_assoc, List.cons_append,
        List.nil_append]
      exact .call (callee_ok.before .openParen .call _) (.noArgs _)
  | .call callee (arg :: args), scanned, laid => by
      refine .of_whole rfl fun rest _ => ?_
      have callee_ok := callee.reread scanned.1 laid.1
      have arg_ok := arg.reread scanned.2.1 laid.2.1
      have args_ok := Expr.derives_moreArgs args scanned.2.2 laid.2.2 rest
      have no_else := Expr.head?_moreArgTokens args rest
      simp only [Expr.sourceTokens, List.append_assoc, List.cons_append,
        List.nil_append]
      exact .call (callee_ok.before .openParen .call _)
        (.firstArg (arg_ok.at_stratum .equality no_else) args_ok)

theorem Expr.derives_moreArgs : (es : List Expr) → Expr.AllObey lexical es →
    Expr.AllObey layout es → (rest : List Token) →
    Derives (.moreArgs es)
      (Expr.moreArgTokens es ++ .symbol .closeParen :: rest)
      (.symbol .closeParen :: rest)
  | [], _, _, rest => .noMoreArgs _
  | e :: es, scanned, laid, rest => by
      have first_ok := e.reread scanned.1 laid.1
      have no_else := Expr.head?_moreArgTokens es rest
      rw [Expr.moreArgTokens, List.cons_append, List.append_assoc]
      exact .nextArg (first_ok.at_stratum .equality no_else)
        (Expr.derives_moreArgs es scanned.2 laid.2 rest)

/-- Every list of statements is read back. The rules of layout say that no
statement takes in the next one. -/
theorem Stmt.rereadAll :
    (ss : List Stmt) → Stmt.AllObey lexical ss → Stmt.AllObey layout ss →
    Stmt.RereadAll ss
  | [], _, _ => fun rest _ => .noStmts rest
  | s :: ss, scanned, laid => by
      intro rest ended
      have others := Stmt.rereadAll ss scanned.2.2 laid.2.2 rest ended
      rw [Stmt.sourceTokensAll, List.append_assoc]
      refine .stmts ?_ others
      match s with
      | .bind name e =>
          have value := e.reread scanned.1.2 laid.1.2
          simp only [Stmt.sourceTokens, List.cons_append, List.append_assoc,
            List.nil_append]
          exact .bind (value.before .semicolon .equality _) (.semicolon _)
      | .ret none => exact .retBare (.inr (.inl rfl)) (.semicolon _)
      | .ret (some e) =>
          have value := e.reread scanned.1 laid.1
          simp only [Stmt.sourceTokens, List.cons_append, List.append_assoc,
            List.nil_append]
          exact .ret (value.before .semicolon .equality _) (.semicolon _)
      | .expr e =>
          have value := e.reread scanned.1 laid.1
          have parts : Parts (Stmt.sourceTokensAll ss ++ rest) :=
            Stmt.parts_sourceTokensAll
              (fun t first b => laid.2.1 t first e b rfl) ended
          exact .expr (value.at_stratum .equality parts.2)
            (.bare (pull_eq_zero_iff.1 parts.1))

end

/-- A program that is written and read again is the same program, and
nothing is found wrong with it. -/
theorem ofSource_source {p : Program} (scanned : Stmt.AllObey lexical p)
    (laid : Stmt.AllObey layout p) : Listing.ofSource p.source = ⟨p, []⟩ := by
  have phrase := Stmt.rereadAll p scanned laid [] (.inl rfl)
  rw [List.append_nil] at phrase
  unfold Listing.ofSource
  rw [tokenize_source scanned]
  exact (isProgram_iff _ p).1 phrase

/-- A program with a conditional that is called and a string with a brace
in it: `let f = fn(a, b_1) { if (!a) { return; } b_1("}", 7) };` and
then `(if (1 < 2) { } else { }() + f)`. -/
theorem ofSource_source_nested :
    let body : Block :=
      [.expr (.cond (.unary .not (.ident "a")) [.ret none] none),
        .expr (.call (.ident "b_1") [.str "\x7d", .int 7])]
    let called : Expr :=
      .call (.cond (.binary .less (.int 1) (.int 2)) [] (some [])) []
    let p : Program :=
      [.bind "f" (.fn ["a", "b_1"] body),
        .expr (.binary .add called (.ident "f"))]
    Stmt.AllObey lexical p ∧ Stmt.AllObey layout p
      ∧ Listing.ofSource p.source = ⟨p, []⟩ := by
  intro body called p
  have scanned : Stmt.AllObey lexical p := by
    have names : IsName "a" ∧ IsName "b_1" ∧ IsName "f" := by decide
    simp [p, body, called, Stmt.AllObey, Stmt.Obeys, Expr.Obeys, Expr.AllObey,
      lexical, names]
  have laid : Stmt.AllObey layout p := by
    simp [p, body, called, Stmt.AllObey, Stmt.Obeys, Expr.Obeys,
      Expr.AllObey, layout, Expr.isOperation, Expr.source]
  exact ⟨scanned, laid, ofSource_source scanned laid⟩

end Scriptlet
