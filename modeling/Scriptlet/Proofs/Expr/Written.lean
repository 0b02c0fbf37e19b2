/-
The tokens that a tree is written with.

`Expr.sourceTokens` is `Expr.source` without the characters: which tokens
stand in the text of a tree, and in which order. Scanning the text gives
exactly these tokens, so no two neighbours run into each other
(`tokenize_source`). All later questions about the text of a tree are
then questions about a token list.

# What a tree has to satisfy

A tree may hold a name with a blank in it, a negative number or a string
with a quote, and its text is then scanned as something else. `Rules` are
conditions on the parts of a tree, and `Expr.Obeys` says that they hold
in all of it; `lexical` are the conditions under which the text is
scanned as it was written.

# What may follow

The text of a tree may end in a word or a number, which would go on if a
letter or a digit came next. So all statements here are about a text with
something behind it that is neither (`EndsRun isWordChar rest`).
-/
import Scriptlet.Expr.Source
import Scriptlet.Proofs.Read.Grammar
import Scriptlet.Proofs.Token.Spelling

namespace Scriptlet

-- =============================================================== rules

/-- What is asked of the parts of a tree: names, literals, the tests of
conditionals, and statements that follow each other. -/
structure Rules where
  name : String → Prop := fun _ => True
  int : Int64 → Prop := fun _ => True
  str : String → Prop := fun _ => True
  test : Expr → Prop := fun _ => True
  next : Stmt → Stmt → Prop := fun _ _ => True

mutual

/-- The rules hold everywhere in an expression. -/
def Expr.Obeys (rules : Rules) : Expr → Prop
  | .ident name => rules.name name
  | .int w => rules.int w
  | .bool _ => True
  | .str s => rules.str s
  | .unary _ e => e.Obeys rules
  | .binary _ l r => l.Obeys rules ∧ r.Obeys rules
  | .cond test yes none =>
      rules.test test ∧ test.Obeys rules ∧ Stmt.AllObey rules yes
  | .cond test yes (some no) =>
      rules.test test ∧ test.Obeys rules ∧ Stmt.AllObey rules yes
        ∧ Stmt.AllObey rules no
  | .fn params body =>
      (∀ name ∈ params, rules.name name) ∧ Stmt.AllObey rules body
  | .call callee args => callee.Obeys rules ∧ Expr.AllObey rules args

/-- The rules hold everywhere in a statement. -/
def Stmt.Obeys (rules : Rules) : Stmt → Prop
  | .bind name e => rules.name name ∧ e.Obeys rules
  | .ret none => True
  | .ret (some e) => e.Obeys rules
  | .expr e => e.Obeys rules

/-- The rules hold everywhere in a list of statements, and between each
statement and the one behind it. -/
def Stmt.AllObey (rules : Rules) : List Stmt → Prop
  | [] => True
  | s :: ss =>
      s.Obeys rules ∧ (∀ t, ss.head? = some t → rules.next s t)
        ∧ Stmt.AllObey rules ss

/-- The rules hold everywhere in some arguments. -/
def Expr.AllObey (rules : Rules) : List Expr → Prop
  | [] => True
  | e :: es => e.Obeys rules ∧ Expr.AllObey rules es

end

/-- A text that is scanned as one name. -/
def IsName (name : String) : Prop :=
  IsWord name.toList ∧ ∀ k : Keyword, name ≠ k.spelling

instance (cs : List Char) : Decidable (IsWord cs) :=
  match cs with
  | [] => isFalse fun ⟨_, _, eq, _⟩ => List.cons_ne_nil _ _ eq.symm
  | c :: tail =>
      decidable_of_iff (isLetter c = true ∧ tail.all isWordChar = true)
        ⟨fun ⟨letter, inside⟩ => ⟨c, tail, rfl, letter,
          List.all_eq_true.1 inside⟩, fun ⟨_, _, eq, letter, inside⟩ => by
            cases eq
            exact ⟨letter, List.all_eq_true.2 inside⟩⟩

/-- A word is no keyword if no keyword is spelt so. -/
private theorem Keyword.ofSpelling?_eq_none_iff {word : String} :
    ofSpelling? word = none ↔ ∀ k : Keyword, word ≠ k.spelling := by
  simp only [Option.eq_none_iff_forall_ne_some, ne_eq, ofSpelling?_eq_some_iff]

instance (name : String) : Decidable (IsName name) :=
  decidable_of_iff (IsWord name.toList ∧ Keyword.ofSpelling? name = none)
    (and_congr_right fun _ => Keyword.ofSpelling?_eq_none_iff)

/-- The conditions under which names and literals are scanned as they are
written: names are words and not reserved, numbers have no sign, and
strings no quote. -/
def lexical : Rules where
  name := IsName
  int w := 0 ≤ w.toInt
  str s := '"' ∉ s.toList

-- ============================================================== tokens

mutual

/-- The tokens that an expression is written with. -/
def Expr.sourceTokens : Expr → List Token
  | .ident name => [.ident name]
  | .int w => [.int (Word.text w)]
  | .bool true => [.keyword .trueWord]
  | .bool false => [.keyword .falseWord]
  | .str s => [.str s]
  | .unary op e =>
      .symbol .openParen :: .symbol op.symbol ::
        (e.sourceTokens ++ [.symbol .closeParen])
  | .binary op l r =>
      .symbol .openParen :: (l.sourceTokens ++ .symbol op.symbol ::
        (r.sourceTokens ++ [.symbol .closeParen]))
  | .cond test yes none =>
      .keyword .ifWord :: (test.sourceTokens ++ .symbol .openBrace ::
        (Stmt.sourceTokensAll yes ++ [.symbol .closeBrace]))
  | .cond test yes (some no) =>
      .keyword .ifWord :: (test.sourceTokens ++ .symbol .openBrace ::
        (Stmt.sourceTokensAll yes ++ .symbol .closeBrace ::
          .keyword .elseWord :: .symbol .openBrace ::
            (Stmt.sourceTokensAll no ++ [.symbol .closeBrace])))
  | .fn params body =>
      .keyword .fnWord :: .symbol .openParen ::
        (paramTokens params ++ .symbol .closeParen :: .symbol .openBrace ::
          (Stmt.sourceTokensAll body ++ [.symbol .closeBrace]))
  | .call callee [] =>
      callee.sourceTokens ++ [.symbol .openParen, .symbol .closeParen]
  | .call callee (arg :: args) =>
      callee.sourceTokens ++ .symbol .openParen ::
        (arg.sourceTokens ++ (Expr.moreArgTokens args ++ [.symbol .closeParen]))

/-- The tokens that a statement is written with. -/
def Stmt.sourceTokens : Stmt → List Token
  | .bind name e =>
      .keyword .letWord :: .ident name :: .symbol .assign ::
        (e.sourceTokens ++ [.symbol .semicolon])
  | .ret none => [.keyword .returnWord, .symbol .semicolon]
  | .ret (some e) =>
      .keyword .returnWord :: (e.sourceTokens ++ [.symbol .semicolon])
  | .expr e => e.sourceTokens

/-- The tokens that some statements are written with. -/
def Stmt.sourceTokensAll : List Stmt → List Token
  | [] => []
  | s :: ss => s.sourceTokens ++ Stmt.sourceTokensAll ss

/-- The tokens that arguments are written with, with a comma before
each. -/
def Expr.moreArgTokens : List Expr → List Token
  | [] => []
  | e :: es => .symbol .comma :: (e.sourceTokens ++ Expr.moreArgTokens es)

end

-- ===================================================== pieces of a text

/-- A character that words do not hold ends every word before it. -/
private theorem endsRun_cons {c : Char} (outside : isWordChar c = false)
    (rest : List Char) :
    EndsRun isWordChar (c :: rest) := by
  intro d first
  cases first
  exact outside

/-- What ends a word ends a number, as digits are word characters. -/
private theorem EndsRun.isDigit {rest : List Char}
    (ends : EndsRun isWordChar rest) :
    EndsRun Char.isDigit rest := by
  intro c first
  have outside := ends c first
  simp only [isWordChar, Bool.or_eq_false_iff] at outside
  exact outside.2

section Pieces

variable {rest : List Char}

theorem tokens_blank {c : Char} (blank : isBlank c = true) :
    tokens (c :: rest) = tokens rest := by
  rw [tokens_eq, tokens_eq rest, Token.next?, Token.next?,
    List.dropWhile_cons_of_pos blank]

/-- A blank in front gives no token. -/
private theorem tokens_space : tokens (' ' :: rest) = tokens rest :=
  tokens_blank rfl

/-- A symbol is scanned off the front of the text, and the rest is scanned
as if it stood alone. The same holds of the other tokens below. -/
private theorem tokens_symbol (s : Symbol)
    (alone : s = .assign ∨ s = .bang → rest.head? ≠ some '=') :
    tokens (s.spelling.toList ++ rest) = .symbol s :: tokens rest :=
  tokens_spelled (w := []) (by simp) (.symbol s alone)

/-- A symbol that `=` does not widen is scanned whatever follows. -/
private theorem tokens_symbolChar {c : Char} {s : Symbol}
    (means : Symbol.ofChar? c = some s) (narrow : s.withEqual? = none) :
    tokens (c :: rest) = .symbol s :: tokens rest := by
  have spelling : s.spelling.toList = [c] := by
    rw [Symbol.spelling_of_ofChar? means, String.toList_ofList]
  rw [← tokens_symbol s, spelling, List.singleton_append]
  rintro (rfl | rfl) <;> cases narrow

/-- A keyword, where a word ends behind it. -/
private theorem tokens_keyword (k : Keyword) (ends : EndsRun isWordChar rest) :
    tokens (k.spelling.toList ++ rest) = .keyword k :: tokens rest :=
  tokens_spelled (w := []) (by simp) (.keyword k ends)

/-- A blank is such an end. -/
private theorem tokens_keyword_space (k : Keyword) :
    tokens (k.spelling.toList ++ ' ' :: rest) = .keyword k :: tokens rest := by
  rw [tokens_keyword k (endsRun_cons rfl _), tokens_space]

/-- A name likewise. -/
private theorem tokens_name {name : String} (ok : IsName name)
    (ends : EndsRun isWordChar rest) :
    tokens (name.toList ++ rest) = .ident name :: tokens rest :=
  tokens_spelled (w := []) (by simp) (.ident ok.1 ok.2 ends)

/-- A number without a sign is written in digits. -/
theorem Word.toList_text {w : Int64} (sign : 0 ≤ w.toInt) :
    (Word.text w).toList = Nat.toDigits 10 w.toInt.toNat := by
  obtain ⟨n, eq⟩ := Int.eq_ofNat_of_zero_le sign
  unfold Word.text
  rw [eq]
  exact Nat.toList_repr

/-- A number has a first digit. -/
private theorem Word.text_ne_nil {w : Int64} (sign : 0 ≤ w.toInt) :
    (Word.text w).toList ≠ [] := by
  rw [Word.toList_text sign]
  exact Nat.toDigits_ne_nil

/-- The text of a word that is not negative is digits only. -/
private theorem Word.isDigit_of_mem_text {w : Int64}
    (sign : 0 ≤ w.toInt) {c : Char} (mem : c ∈ (Word.text w).toList) :
    c.isDigit = true := by
  rw [Word.toList_text sign] at mem
  exact Nat.isDigit_of_mem_toDigits (by decide) (by decide) mem

/-- A number, where no digit or letter follows. -/
private theorem tokens_int {w : Int64} (sign : 0 ≤ w.toInt)
    (ends : EndsRun isWordChar rest) :
    tokens ((Word.text w).toList ++ rest) = .int (Word.text w) :: tokens rest :=
  tokens_spelled (w := []) (by simp)
    (.int (Word.text_ne_nil sign)
      (fun _ => Word.isDigit_of_mem_text sign) ends.isDigit)

/-- A string, up to its quote. -/
private theorem tokens_str {body : String} (no_quote : '"' ∉ body.toList) :
    tokens ('"' :: (body.toList ++ '"' :: rest))
      = .str body :: tokens rest := by
  rw [← tokens_spelled (w := []) (by simp) (.str rest no_quote)]
  simp

end Pieces

-- =============================================================== lists

/-- Items with a comma before each. -/
def moreItems (items : List String) : List Char :=
  items.flatMap fun item => ',' :: ' ' :: item.toList

/-- A list of items is the first one with the others behind commas. -/
private theorem toList_commaSeparated_cons (item : String)
    (items : List String) :
    (commaSeparated (item :: items)).toList
      = item.toList ++ moreItems items := by
  induction items generalizing item with
  | nil => simp [commaSeparated, moreItems]
  | cons next items ih =>
      rw [commaSeparated, String.toList_append, ih]
      · simp [moreItems]
      · simp

/-- A comma ends a word. -/
private theorem endsRun_moreItems (items : List String) {rest : List Char}
    (ends : EndsRun isWordChar rest) :
    EndsRun isWordChar (moreItems items ++ rest) := by
  cases items with
  | nil => exact ends
  | cons item items => exact endsRun_cons rfl _

/-- The parameters behind the first one. -/
private theorem tokens_moreParams {names : List String}
    (ok : ∀ name ∈ names, IsName name) {rest : List Char}
    (ends : EndsRun isWordChar rest) :
    tokens (moreItems names ++ rest)
      = moreParamTokens names ++ tokens rest := by
  induction names with
  | nil => rfl
  | cons name names ih =>
      rw [List.forall_mem_cons] at ok
      show tokens (',' :: ' ' :: (name.toList ++ moreItems names ++ rest)) = _
      rw [tokens_symbolChar (c := ',') rfl rfl, tokens_space, List.append_assoc,
        tokens_name ok.1 (endsRun_moreItems names ends), ih ok.2]
      rfl

/-- A parameter list. -/
private theorem tokens_params {names : List String}
    (ok : ∀ name ∈ names, IsName name) {rest : List Char}
    (ends : EndsRun isWordChar rest) :
    tokens ((commaSeparated names).toList ++ rest)
      = paramTokens names ++ tokens rest := by
  cases names with
  | nil => rfl
  | cons name names =>
      rw [List.forall_mem_cons] at ok
      rw [toList_commaSeparated_cons, List.append_assoc,
        tokens_name ok.1 (endsRun_moreItems names ends),
        tokens_moreParams ok.2 ends]
      rfl

/-- Braces around statements that are scanned as `ts`. -/
private theorem tokens_braced {inner : String} {ts : List Token}
    (scanned : ∀ rest, tokens (inner.toList ++ rest) = ts ++ tokens rest)
    (rest : List Char) :
    tokens ((braced inner).toList ++ rest)
      = .symbol .openBrace :: (ts ++ .symbol .closeBrace :: tokens rest) := by
  have text : (braced inner).toList ++ rest
      = '\x7b' :: ' ' :: (inner.toList ++ '\x7d' :: rest) := by
    simp [braced]
  rw [text, tokens_symbolChar (c := '\x7b') rfl rfl, tokens_space, scanned,
    tokens_symbolChar (c := '\x7d') rfl rfl]

-- =============================================================== trees

/-- No text starts with `=`, so none widens a `!` before it. -/
private theorem Expr.head?_source_ne_equal :
    (e : Expr) → e.Obeys lexical → (rest : List Char) →
    (e.source.toList ++ rest).head? ≠ some '='
  | .ident name, ok, rest => by
      obtain ⟨⟨c, tail, eq, letter, -⟩, -⟩ := ok
      rw [Expr.source, eq]
      rintro ⟨⟩
      cases letter
  | .int w, ok, rest => by
      obtain ⟨c, tail, eq⟩ := List.exists_cons_of_ne_nil (Word.text_ne_nil ok)
      have digit : c.isDigit = true :=
        Word.isDigit_of_mem_text ok (by rw [eq]; exact List.mem_cons_self)
      rw [Expr.source, eq]
      rintro ⟨⟩
      cases digit
  | .call callee args, ok, rest => by
      simp only [Expr.source, String.toList_append, List.append_assoc]
      exact callee.head?_source_ne_equal ok.1 _
  | .bool true, _, _ | .bool false, _, _ | .str _, _, _ | .unary _ _, _, _
  | .binary _ _ _, _, _
  | .cond _ _ none, _, _ | .cond _ _ (some _), _, _ | .fn _ _, _, _ => by
      simp [Expr.source, Keyword.spelling]

mutual

/-- The text of an expression is scanned as the tokens it is written
with. -/
theorem Expr.tokens_source : (e : Expr) → e.Obeys lexical → {rest : List Char} →
    EndsRun isWordChar rest →
      tokens (e.source.toList ++ rest) = e.sourceTokens ++ tokens rest
  | .ident name, ok, rest, ends => tokens_name ok ends
  | .int w, ok, rest, ends => tokens_int ok ends
  | .bool true, _, rest, ends => tokens_keyword .trueWord ends
  | .bool false, _, rest, ends => tokens_keyword .falseWord ends
  | .str s, ok, rest, _ => by
      have text : (Expr.str s).source.toList ++ rest
          = '"' :: (s.toList ++ '"' :: rest) := by
        simp [Expr.source]
      rw [text, tokens_str ok]
      rfl
  | .unary op e, ok, rest, _ => by
      have text : (Expr.unary op e).source.toList ++ rest
          = '(' :: (op.symbol.spelling.toList
            ++ (e.source.toList ++ ')' :: rest)) := by
        simp [Expr.source, UnaryOp.spelling]
      rw [text, tokens_symbolChar (c := '(') rfl rfl, tokens_symbol,
        e.tokens_source ok (endsRun_cons rfl _),
        tokens_symbolChar (c := ')') rfl rfl]
      · simp [Expr.sourceTokens]
      · exact fun _ => e.head?_source_ne_equal ok _
  | .binary op l r, ok, rest, _ => by
      have text : (Expr.binary op l r).source.toList ++ rest
          = '(' :: (l.source.toList ++ ' ' :: (op.symbol.spelling.toList
            ++ ' ' :: (r.source.toList ++ ')' :: rest))) := by
        simp [Expr.source, BinaryOp.spelling]
      rw [text, tokens_symbolChar (c := '(') rfl rfl,
        l.tokens_source ok.1 (endsRun_cons rfl _), tokens_space,
        tokens_symbol _ (by simp), tokens_space,
        r.tokens_source ok.2 (endsRun_cons rfl _),
        tokens_symbolChar (c := ')') rfl rfl]
      simp [Expr.sourceTokens]
  | .cond test yes none, ok, rest, _ => by
      have text : (Expr.cond test yes none).source.toList ++ rest
          = Keyword.ifWord.spelling.toList ++ ' ' :: (test.source.toList
            ++ ' ' :: ((braced (Stmt.inlineSource yes)).toList ++ rest)) := by
        simp [Expr.source, Keyword.spelling]
      rw [text, tokens_keyword_space,
        test.tokens_source ok.2.1 (endsRun_cons rfl _), tokens_space,
        tokens_braced fun rest => Stmt.tokens_inlineSource yes ok.2.2]
      simp [Expr.sourceTokens]
  | .cond test yes (some no), ok, rest, _ => by
      have text : (Expr.cond test yes (some no)).source.toList ++ rest
          = Keyword.ifWord.spelling.toList ++ ' ' :: (test.source.toList
            ++ ' ' :: ((braced (Stmt.inlineSource yes)).toList
              ++ ' ' :: (Keyword.elseWord.spelling.toList ++ ' '
                :: ((braced (Stmt.inlineSource no)).toList ++ rest)))) := by
        simp [Expr.source, Keyword.spelling]
      rw [text, tokens_keyword_space,
        test.tokens_source ok.2.1 (endsRun_cons rfl _), tokens_space,
        tokens_braced fun rest => Stmt.tokens_inlineSource yes ok.2.2.1,
        tokens_space, tokens_keyword_space,
        tokens_braced fun rest => Stmt.tokens_inlineSource no ok.2.2.2]
      simp [Expr.sourceTokens]
  | .fn params body, ok, rest, _ => by
      have text : (Expr.fn params body).source.toList ++ rest
          = Keyword.fnWord.spelling.toList ++ '('
            :: ((commaSeparated params).toList
            ++ ')' :: ' ' :: ((braced (Stmt.inlineSource body)).toList
              ++ rest)) := by
        simp [Expr.source, Keyword.spelling]
      rw [text, tokens_keyword _ (endsRun_cons rfl _),
        tokens_symbolChar (c := '(') rfl rfl, tokens_params ok.1
          (endsRun_cons rfl _), tokens_symbolChar (c := ')') rfl rfl,
        tokens_space,
        tokens_braced fun rest => Stmt.tokens_inlineSource body ok.2]
      simp [Expr.sourceTokens]
  | .call callee [], ok, rest, _ => by
      have text : (Expr.call callee []).source.toList ++ rest
          = callee.source.toList ++ '(' :: ')' :: rest := by
        simp [Expr.source, Expr.sources, commaSeparated]
      rw [text, callee.tokens_source ok.1 (endsRun_cons rfl _),
        tokens_symbolChar (c := '(') rfl rfl,
        tokens_symbolChar (c := ')') rfl rfl]
      simp [Expr.sourceTokens]
  | .call callee (arg :: args), ok, rest, _ => by
      have text : (Expr.call callee (arg :: args)).source.toList ++ rest
          = callee.source.toList ++ '(' :: (arg.source.toList
            ++ (moreItems (Expr.sources args) ++ ')' :: rest)) := by
        simp [Expr.source, Expr.sources, toList_commaSeparated_cons]
      rw [text, callee.tokens_source ok.1 (endsRun_cons rfl _),
        tokens_symbolChar (c := '(') rfl rfl,
        arg.tokens_source ok.2.1 (endsRun_moreItems _ (endsRun_cons rfl _)),
        Expr.tokens_moreSources args ok.2.2 (endsRun_cons rfl _),
        tokens_symbolChar (c := ')') rfl rfl]
      simp [Expr.sourceTokens]

/-- The same of a statement. -/
theorem Stmt.tokens_source : (s : Stmt) → s.Obeys lexical → {rest : List Char} →
    EndsRun isWordChar rest →
      tokens (s.source.toList ++ rest) = s.sourceTokens ++ tokens rest
  | .bind name e, ok, rest, _ => by
      have text : (Stmt.bind name e).source.toList ++ rest
          = Keyword.letWord.spelling.toList ++ ' ' :: (name.toList
            ++ ' ' :: (Symbol.assign.spelling.toList ++ ' ' :: (e.source.toList
              ++ ';' :: rest))) := by
        simp [Stmt.source, Keyword.spelling, Symbol.spelling]
      rw [text, tokens_keyword_space, tokens_name ok.1 (endsRun_cons rfl _),
        tokens_space, tokens_symbol _ (by simp), tokens_space,
        e.tokens_source ok.2 (endsRun_cons rfl _),
        tokens_symbolChar (c := ';') rfl rfl]
      simp [Stmt.sourceTokens]
  | .ret none, _, rest, _ => by
      have text : (Stmt.ret none).source.toList ++ rest
          = Keyword.returnWord.spelling.toList ++ ';' :: rest := by
        simp [Stmt.source, Keyword.spelling]
      rw [text, tokens_keyword _ (endsRun_cons rfl _),
        tokens_symbolChar (c := ';') rfl rfl]
      rfl
  | .ret (some e), ok, rest, _ => by
      have text : (Stmt.ret (some e)).source.toList ++ rest
          = Keyword.returnWord.spelling.toList ++ ' '
            :: (e.source.toList ++ ';' :: rest) := by
        simp [Stmt.source, Keyword.spelling]
      rw [text, tokens_keyword_space, e.tokens_source ok (endsRun_cons rfl _),
        tokens_symbolChar (c := ';') rfl rfl]
      simp [Stmt.sourceTokens]
  | .expr e, ok, rest, ends => e.tokens_source ok ends

/-- Statements on one line are each followed by a space, so anything may
follow them. -/
theorem Stmt.tokens_inlineSource : (ss : List Stmt) → Stmt.AllObey lexical ss →
    {rest : List Char} →
    tokens ((Stmt.inlineSource ss).toList ++ rest)
      = Stmt.sourceTokensAll ss ++ tokens rest
  | [], _, rest => rfl
  | s :: ss, ok, rest => by
      have text : (Stmt.inlineSource (s :: ss)).toList ++ rest
          = s.source.toList
            ++ ' ' :: ((Stmt.inlineSource ss).toList ++ rest) := by
        simp [Stmt.inlineSource]
      rw [text, s.tokens_source ok.1 (endsRun_cons rfl _), tokens_space,
        Stmt.tokens_inlineSource ss ok.2.2, Stmt.sourceTokensAll,
        List.append_assoc]

theorem Expr.tokens_moreSources : (es : List Expr) → Expr.AllObey lexical es →
    {rest : List Char} → EndsRun isWordChar rest →
    tokens (moreItems (Expr.sources es) ++ rest)
      = Expr.moreArgTokens es ++ tokens rest
  | [], _, rest, _ => rfl
  | e :: es, ok, rest, ends => by
      have text : moreItems (Expr.sources (e :: es)) ++ rest
          = ',' :: ' ' :: (e.source.toList
            ++ (moreItems (Expr.sources es) ++ rest)) := by
        simp [Expr.sources, moreItems]
      rw [text, tokens_symbolChar (c := ',') rfl rfl, tokens_space,
        e.tokens_source ok.1 (endsRun_moreItems _ ends),
        Expr.tokens_moreSources es ok.2 ends]
      simp [Expr.moreArgTokens]

end

/-- The text of a program is scanned as the tokens it is written with. -/
theorem tokenize_source {p : Program} (ok : Stmt.AllObey lexical p) :
    tokenize p.source = Stmt.sourceTokensAll p := by
  unfold tokenize
  induction p with
  | nil => rfl
  | cons s ss ih =>
      have text : (Program.source (s :: ss)).toList
          = s.source.toList ++ '\n' :: (Program.source ss).toList := by
        simp [Program.source]
      rw [text, s.tokens_source ok.1 (endsRun_cons rfl _),
        tokens_blank rfl, ih ok.2.2]
      rfl

end Scriptlet
