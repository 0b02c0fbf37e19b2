/-
Scanning finds the spelling of a text, and a text has one spelling.

`Spells text ts` says how tokens are written down: one after the other,
with any number of blanks before, between and behind them. It knows
nothing of scanning. What a token is written as, and what must not follow
it, is `Token.Spelled`, one rule for each class of tokens. These side
conditions are all that "the longest token" amounts to: without them
`ab` might also be the words `a` and `b`, and `==` two assignments.

The main statement, `tokenize_eq_iff_spells`, is an equivalence. From
left to right it says that scanning loses and makes up nothing: the text
is put together from the spellings of its tokens and from blanks. From
right to left it says that nothing else could have been found.

# Strings without an end

A string that the text breaks off has no closing quote. Then it is the
last token and nothing follows it, not even a blank, as a blank would
belong to the string.
-/
import Scriptlet.Token.Scan

namespace Scriptlet

-- ================================================================ runs

/-- No character of the class comes next. -/
def EndsRun (p : Char → Bool) (rest : List Char) : Prop :=
  ∀ c, rest.head? = some c → p c = false

section Runs

variable {p : Char → Bool} {run rest : List Char}

/-- A run is all that the scanner takes while the condition holds. -/
private theorem takeWhile_run (inside : ∀ c ∈ run, p c = true)
    (ends : EndsRun p rest) :
    (run ++ rest).takeWhile p = run := by
  rw [List.takeWhile_append_of_pos inside]
  cases rest with
  | nil => simp
  | cons c tail => simp [ends c rfl]

/-- And what follows the run is what it leaves. -/
private theorem dropWhile_run (inside : ∀ c ∈ run, p c = true)
    (ends : EndsRun p rest) :
    (run ++ rest).dropWhile p = rest := by
  rw [List.dropWhile_append_of_pos inside]
  cases rest with
  | nil => rfl
  | cons c tail => simp [ends c rfl]

/-- A run ends where the text ends. -/
theorem endsRun_nil (p : Char → Bool) : EndsRun p [] := by
  intro c first
  cases first

/-- What the scanner leaves never goes on with the run. -/
private theorem endsRun_dropWhile (p : Char → Bool) (text : List Char) :
    EndsRun p (text.dropWhile p) := by
  intro c first
  have stopped := List.head?_dropWhile_not p text
  rw [first] at stopped
  exact stopped

/-- What the scanner takes meets the condition. -/
private theorem of_mem_takeWhile {text : List Char} {c : Char}
    (mem : c ∈ text.takeWhile p) :
    p c = true :=
  List.all_eq_true.1 List.all_takeWhile c mem

end Runs

-- =================================================== character classes

/-- A word: a letter and then letters and digits, where an underscore
counts as a letter. -/
def IsWord (cs : List Char) : Prop :=
  ∃ c tail, cs = c :: tail ∧ isLetter c = true ∧ ∀ d ∈ tail, isWordChar d = true

/-- The characters that some token starts with. -/
def StartsToken (c : Char) : Prop :=
  c = '"' ∨ c.isDigit = true ∨ isLetter c = true
    ∨ ∃ s : Symbol, s.spelling.toList.head? = some c

/-- No letter is a digit, so a token's first character decides between names
and numbers. -/
private theorem isDigit_of_isLetter {c : Char} (letter : isLetter c = true) :
    c.isDigit = false := by
  rw [← Bool.not_eq_true]
  intro digit
  change ((decide ('A'.val ≤ c.val ∧ c.val ≤ 'Z'.val)
    || decide ('a'.val ≤ c.val) && decide (c.val ≤ 'z'.val)) ||
      decide (c = '_')) = true at letter
  change (decide ('0'.val ≤ c.val) && decide (c.val ≤ '9'.val)) = true at digit
  simp only [Bool.or_eq_true, Bool.and_eq_true, decide_eq_true_eq,
    UInt32.le_iff_toNat_le, Char.reduceVal, UInt32.reduceToNat] at letter digit
  rcases letter with (upper | lower) | underscore
  · omega
  · omega
  · subst underscore
    exact absurd digit (by decide)

/-- Every keyword is spelt as a word. -/
private theorem Keyword.isWord_spelling (k : Keyword) :
    IsWord k.spelling.toList := by
  cases k <;> exact ⟨_, _, rfl, rfl, List.all_eq_true.1 rfl⟩

/-- No word has a blank in it. -/
private theorem isBlank_of_isWordChar {c : Char}
    (inside : isWordChar c = true) :
    isBlank c = false := by
  rw [← Bool.not_eq_true]
  intro blank
  simp only [isBlank, Bool.or_eq_true, decide_eq_true_eq] at blank
  rcases blank with (((rfl | rfl) | rfl) | rfl) | rfl <;> cases inside

/-- Only `=` and `!` can be the start of a longer symbol. -/
private theorem Symbol.eq_of_withEqual? {s wide : Symbol}
    (widens : s.withEqual? = some wide) :
    s = .assign ∨ s = .bang := by
  cases s <;> simp [withEqual?] at widens ⊢

/-- A character that means no symbol starts the spelling of none. -/
private theorem Symbol.ofChar?_eq_none {c : Char} :
    ofChar? c = none ↔ ∀ s : Symbol, s.spelling.toList.head? ≠ some c := by
  constructor
  · intro none_of s first
    cases s <;> cases first <;> cases none_of
  · intro no_symbol
    cases eq : ofChar? c with
    | none => rfl
    | some s =>
        refine absurd ?_ (no_symbol s)
        rw [spelling_of_ofChar? eq, String.toList_ofList]
        rfl

-- =========================================================== spellings

/-- The characters `x` spell the token when `rest` follows them. -/
inductive Token.Spelled : Token → (x rest : List Char) → Prop where
  /-- An `=` behind `=` or `!` would belong to the symbol. -/
  | symbol (s : Symbol) {rest : List Char}
      (alone : s = .assign ∨ s = .bang → rest.head? ≠ some '=') :
      Spelled (.symbol s) s.spelling.toList rest
  | keyword (k : Keyword) {rest : List Char} (ends : EndsRun isWordChar rest) :
      Spelled (.keyword k) k.spelling.toList rest
  | ident {name : String} {rest : List Char} (word : IsWord name.toList)
      (free : ∀ k : Keyword, name ≠ k.spelling)
      (ends : EndsRun isWordChar rest) :
      Spelled (.ident name) name.toList rest
  | int {digits : String} {rest : List Char} (some_digits : digits.toList ≠ [])
      (only_digits : ∀ c ∈ digits.toList, c.isDigit = true)
      (ends : EndsRun Char.isDigit rest) :
      Spelled (.int digits) digits.toList rest
  | str {body : String} (rest : List Char) (no_quote : '"' ∉ body.toList) :
      Spelled (.str body) ('"' :: (body.toList ++ ['"'])) rest
  /-- A string that the end of the text breaks off. -/
  | brokenStr {body : String} (no_quote : '"' ∉ body.toList) :
      Spelled (.str body) ('"' :: body.toList) []
  | illegal {c : Char} (rest : List Char) (not_blank : isBlank c = false)
      (starts_none : ¬ StartsToken c) : Spelled (.illegal c) [c] rest

/-- The text is the tokens written one after the other, with blanks
before, between and behind them. -/
inductive Spells : List Char → List Token → Prop where
  | blanks {w : List Char} (blank : ∀ c ∈ w, isBlank c = true) : Spells w []
  | token {w x rest : List Char} {t : Token} {ts : List Token}
      (blank : ∀ c ∈ w, isBlank c = true) (first : t.Spelled x rest)
      (others : Spells rest ts) :
      Spells (w ++ x ++ rest) (t :: ts)

/-- A token that stands in the tokens of some text. -/
def Token.Scanned (t : Token) : Prop :=
  ∃ x rest, t.Spelled x rest

/-- Each token is spelled somewhere in the text. -/
theorem Spells.stands {text : List Char} {ts : List Token}
    (spells : Spells text ts) {t : Token} (mem : t ∈ ts) :
    ∃ before x rest, text = before ++ x ++ rest ∧ t.Spelled x rest := by
  induction spells with
  | blanks => cases mem
  | @token w x rest _ _ _ first _ others =>
      rcases List.mem_cons.1 mem with rfl | later
      · exact ⟨w, x, rest, rfl, first⟩
      · obtain ⟨before, y, behind, rfl, spelled⟩ := others later
        exact ⟨w ++ x ++ before, y, behind, by simp, spelled⟩

/-- Every token that a text spells is one the scanner gives. -/
theorem Spells.scanned {text : List Char} {ts : List Token}
    (spells : Spells text ts) :
    ∀ t ∈ ts, t.Scanned := by
  intro t mem
  obtain ⟨_, x, rest, -, spelled⟩ := spells.stands mem
  exact ⟨x, rest, spelled⟩

theorem scanned_symbol (s : Symbol) : (Token.symbol s).Scanned :=
  ⟨_, [], .symbol s fun _ => by simp⟩

theorem scanned_keyword (k : Keyword) : (Token.keyword k).Scanned :=
  ⟨_, [], .keyword k (endsRun_nil _)⟩

-- ========================================== one token, from its spelling

namespace Token

/-- The spelling of a keyword gives the keyword. -/
private theorem ofWord_keyword (k : Keyword) :
    ofWord k.spelling = keyword k := by
  unfold ofWord
  rw [Keyword.ofSpelling?_eq_some_iff.2 rfl]

/-- Any other word is a name. -/
private theorem ofWord_ident {name : String}
    (free : ∀ k : Keyword, name ≠ k.spelling) :
    ofWord name = ident name := by
  unfold ofWord
  cases eq : Keyword.ofSpelling? name with
  | none => rfl
  | some k => exact absurd (Keyword.ofSpelling?_eq_some_iff.1 eq) (free k)

/-- A word is taken whole. -/
private theorem lexeme_word {c : Char} {tail rest : List Char}
    (letter : isLetter c = true) (inside : ∀ d ∈ tail, isWordChar d = true)
    (ends : EndsRun isWordChar rest) :
    lexeme c (tail ++ rest) = (ofWord (String.ofList (c :: tail)), rest) := by
  have not_quote : c ≠ '"' := by
    intro same
    subst same
    cases letter
  have not_digit : ¬ c.isDigit = true := by
    rw [isDigit_of_isLetter letter]
    decide
  unfold lexeme
  rw [if_neg not_quote, if_neg not_digit, if_pos letter,
    takeWhile_run inside ends, dropWhile_run inside ends]

/-- A run of digits is one integer token. -/
private theorem lexeme_digits {c : Char} {tail rest : List Char}
    (digit : c.isDigit = true) (inside : ∀ d ∈ tail, d.isDigit = true)
    (ends : EndsRun Char.isDigit rest) :
    lexeme c (tail ++ rest) = (int (String.ofList (c :: tail)), rest) := by
  have not_quote : c ≠ '"' := by
    intro same
    subst same
    cases digit
  unfold lexeme
  rw [if_neg not_quote, if_pos digit, takeWhile_run inside ends,
    dropWhile_run inside ends]

/-- A string runs to the next quote, or to the end of the text where there
is none. The quote itself is dropped. -/
private theorem lexeme_string {body : List Char} (no_quote : '"' ∉ body)
    {rest : List Char} (ends : EndsRun (· ≠ '"') rest) :
    lexeme '"' (body ++ rest) = (str (String.ofList body), rest.drop 1) := by
  have inside : ∀ c ∈ body, decide (c ≠ '"') = true := by
    intro c mem
    rw [decide_eq_true_eq]
    intro same
    subst same
    exact no_quote mem
  unfold lexeme
  rw [if_pos rfl, takeWhile_run inside ends, dropWhile_run inside ends]

/-- A character that starts no token is illegal by itself. -/
private theorem lexeme_illegal {c : Char} (starts_none : ¬ StartsToken c)
    (rest : List Char) :
    lexeme c rest = (illegal c, rest) := by
  have no_symbol : Symbol.ofChar? c = none :=
    Symbol.ofChar?_eq_none.2 fun s first =>
      starts_none (.inr (.inr (.inr ⟨s, first⟩)))
  unfold lexeme
  rw [if_neg fun quote => starts_none (.inl quote),
    if_neg fun digit => starts_none (.inr (.inl digit)),
    if_neg fun letter => starts_none (.inr (.inr (.inl letter))), no_symbol]

/-- What a symbol's character is taken as. -/
private theorem lexeme_symbolChar {c : Char} {s : Symbol}
    (means : Symbol.ofChar? c = some s) (rest : List Char) :
    lexeme c rest = match s.withEqual?, rest with
      | some wide, '=' :: rest => (symbol wide, rest)
      | _, _ => (symbol s, rest) := by
  unfold Symbol.ofChar? at means
  split at means <;> cases means <;> rfl

/-- A symbol of one character stands alone, unless an `=` behind it makes it
longer. -/
private theorem lexeme_symbolChar_alone {c : Char} {s : Symbol}
    (means : Symbol.ofChar? c = some s) {rest : List Char}
    (alone : s = .assign ∨ s = .bang → rest.head? ≠ some '=') :
    lexeme c rest = (symbol s, rest) := by
  rw [lexeme_symbolChar means]
  split
  · next wide tail widens =>
      exact absurd rfl (alone (Symbol.eq_of_withEqual? widens))
  · rfl

/-- A symbol of either length is scanned as a whole. -/
private theorem lexeme_symbol (s : Symbol) {rest : List Char}
    (alone : s = .assign ∨ s = .bang → rest.head? ≠ some '=') :
    ∃ c tail, s.spelling.toList = c :: tail ∧ isBlank c = false
      ∧ lexeme c (tail ++ rest) = (symbol s, rest) := by
  cases s
  case equal => exact ⟨'=', ['='], rfl, rfl, rfl⟩
  case notEqual => exact ⟨'!', ['='], rfl, rfl, rfl⟩
  all_goals exact ⟨_, [], rfl, rfl, lexeme_symbolChar_alone rfl alone⟩

/-- A token is found where its spelling stands. -/
theorem Spelled.lexeme_eq {t : Token} {x rest : List Char}
    (spelled : t.Spelled x rest) :
    ∃ c tail, x = c :: tail ∧ isBlank c = false
      ∧ lexeme c (tail ++ rest) = (t, rest) := by
  cases spelled with
  | symbol s alone => exact lexeme_symbol s alone
  | keyword k ends =>
      obtain ⟨c, tail, eq, letter, inside⟩ := k.isWord_spelling
      refine ⟨c, tail, eq,
        isBlank_of_isWordChar (by simp [isWordChar, letter]), ?_⟩
      rw [lexeme_word letter inside ends, ← eq, String.ofList_toList,
        ofWord_keyword]
  | @ident name _ word free ends =>
      obtain ⟨c, tail, eq, letter, inside⟩ := word
      refine ⟨c, tail, eq,
        isBlank_of_isWordChar (by simp [isWordChar, letter]), ?_⟩
      rw [lexeme_word letter inside ends, ← eq, String.ofList_toList,
        ofWord_ident free]
  | @int digits _ some_digits only_digits ends =>
      obtain ⟨c, tail, eq⟩ := List.exists_cons_of_ne_nil some_digits
      rw [eq, List.forall_mem_cons] at only_digits
      refine ⟨c, tail, eq,
        isBlank_of_isWordChar (by simp [isWordChar, only_digits.1]), ?_⟩
      rw [lexeme_digits only_digits.1 only_digits.2 ends, ← eq,
        String.ofList_toList]
  | @str body _ no_quote =>
      refine ⟨'"', _, rfl, rfl, ?_⟩
      have closes : EndsRun (· ≠ '"') ('"' :: rest) := by
        intro c first
        cases first
        rfl
      rw [List.append_assoc, List.singleton_append,
        lexeme_string no_quote closes, String.ofList_toList]
      rfl
  | @brokenStr body no_quote =>
      refine ⟨'"', _, rfl, rfl, ?_⟩
      rw [lexeme_string no_quote (endsRun_nil _), String.ofList_toList]
      rfl
  | illegal rest not_blank starts_none =>
      exact ⟨_, [], rfl, not_blank, lexeme_illegal starts_none rest⟩

-- ========================================== one token, to its spelling

/-- What `lexeme` takes spells what it gives, where nothing is lost. -/
def SpellsLexeme (c : Char) (rest : List Char) : Prop :=
  ∃ x, c :: rest = x ++ (lexeme c rest).2
    ∧ (lexeme c rest).1.Spelled x (lexeme c rest).2

/-- What the scanner finds is spelt if its text is a spelling of it. -/
private theorem spellsLexeme_of_eq {c : Char}
    {rest x behind : List Char} {t : Token}
    (found : lexeme c rest = (t, behind)) (parts : c :: rest = x ++ behind)
    (spelled : t.Spelled x behind) : SpellsLexeme c rest := by
  unfold SpellsLexeme
  rw [found]
  exact ⟨x, parts, spelled⟩

/-- A quote starts a string, closed or not. -/
private theorem spellsLexeme_string (rest : List Char) :
    SpellsLexeme '"' rest := by
  have no_quote : '"' ∉ (String.ofList (rest.takeWhile (· ≠ '"'))).toList := by
    rw [String.toList_ofList]
    intro mem
    have inside := of_mem_takeWhile mem
    cases inside
  have parts : rest = rest.takeWhile (· ≠ '"') ++ rest.dropWhile (· ≠ '"') :=
    List.takeWhile_append_dropWhile.symm
  have ends := endsRun_dropWhile (· ≠ '"') rest
  have found : lexeme '"' rest
      = (str (String.ofList (rest.takeWhile (· ≠ '"'))),
        (rest.dropWhile (· ≠ '"')).drop 1) := rfl
  cases behind : rest.dropWhile (· ≠ '"') with
  | nil =>
      rw [behind] at found parts
      refine spellsLexeme_of_eq found ?_ (.brokenStr no_quote)
      rw [String.toList_ofList, List.drop_nil]
      exact congrArg ('"' :: ·) parts
  | cons c tail =>
      rw [behind] at found parts ends
      have quote : c = '"' := by simpa using ends c rfl
      subst quote
      refine spellsLexeme_of_eq found ?_ (.str _ no_quote)
      rw [String.toList_ofList]
      simpa using parts

/-- A digit starts an integer. -/
private theorem spellsLexeme_digits {c : Char} (digit : c.isDigit = true)
    (rest : List Char) :
    SpellsLexeme c rest := by
  have parts :
      rest = rest.takeWhile Char.isDigit ++ rest.dropWhile Char.isDigit :=
    List.takeWhile_append_dropWhile.symm
  have inside : ∀ d ∈ rest.takeWhile Char.isDigit, d.isDigit = true :=
    fun d => of_mem_takeWhile
  have ends := endsRun_dropWhile Char.isDigit rest
  have found := lexeme_digits digit inside ends
  rw [← parts] at found
  refine spellsLexeme_of_eq found ?_ (.int ?_ ?_ ends)
  · rw [String.toList_ofList]
    exact congrArg (c :: ·) parts
  · simp
  · rw [String.toList_ofList, List.forall_mem_cons]
    exact ⟨digit, inside⟩

/-- A word spells the keyword it is, or else a name. -/
private theorem spelled_ofWord {word : String} (isWord : IsWord word.toList)
    {rest : List Char} (ends : EndsRun isWordChar rest) :
    (ofWord word).Spelled word.toList rest := by
  unfold ofWord
  cases eq : Keyword.ofSpelling? word with
  | some k =>
      rw [Keyword.ofSpelling?_eq_some_iff.1 eq]
      exact .keyword k ends
  | none =>
      refine .ident isWord ?_ ends
      intro k same
      rw [Keyword.ofSpelling?_eq_some_iff.2 same] at eq
      cases eq

/-- A letter starts a word. -/
private theorem spellsLexeme_word {c : Char} (letter : isLetter c = true)
    (rest : List Char) :
    SpellsLexeme c rest := by
  have parts : rest = rest.takeWhile isWordChar ++ rest.dropWhile isWordChar :=
    List.takeWhile_append_dropWhile.symm
  have inside : ∀ d ∈ rest.takeWhile isWordChar, isWordChar d = true :=
    fun d => of_mem_takeWhile
  have ends := endsRun_dropWhile isWordChar rest
  have found := lexeme_word letter inside ends
  rw [← parts] at found
  refine spellsLexeme_of_eq found ?_ (spelled_ofWord ?_ ends)
  · rw [String.toList_ofList]
    exact congrArg (c :: ·) parts
  · rw [String.toList_ofList]
    exact ⟨c, _, rfl, letter, inside⟩

/-- A symbol character starts a symbol. It is the longer one if the `=` is
there, so the shorter one never stands before it. -/
private theorem spellsLexeme_symbol {c : Char} {s : Symbol}
    (means : Symbol.ofChar? c = some s) (rest : List Char) :
    SpellsLexeme c rest := by
  have spelling : s.spelling.toList = [c] := by
    rw [Symbol.spelling_of_ofChar? means, String.toList_ofList]
  by_cases widens : (∃ wide, s.withEqual? = some wide) ∧ rest.head? = some '='
  · obtain ⟨⟨wide, widens⟩, next⟩ := widens
    obtain ⟨tail, rfl⟩ := List.head?_eq_some_iff.1 next
    have found : lexeme c ('=' :: tail) = (symbol wide, tail) := by
      rw [lexeme_symbolChar means, widens]
      rfl
    have wide_spelling : wide.spelling.toList = [c, '='] := by
      rw [Symbol.spelling_of_withEqual? widens, String.toList_append, spelling]
      rfl
    refine spellsLexeme_of_eq found ?_ (.symbol wide ?_)
    · rw [wide_spelling]
      rfl
    · intro narrow
      rcases narrow with rfl | rfl <;> rcases Symbol.eq_of_withEqual?
        widens with rfl | rfl <;>
        cases widens
  · have alone : s = .assign ∨ s = .bang → rest.head? ≠ some '=' := by
      intro narrow next
      refine widens ⟨?_, next⟩
      rcases narrow with rfl | rfl <;> exact ⟨_, rfl⟩
    refine spellsLexeme_of_eq (lexeme_symbolChar_alone means alone) ?_
      (.symbol s alone)
    rw [spelling]
    rfl

/-- What is taken as a token spells it. -/
theorem spellsLexeme {c : Char} (not_blank : isBlank c = false)
    (rest : List Char) :
    SpellsLexeme c rest := by
  by_cases quote : c = '"'
  · subst quote
    exact spellsLexeme_string rest
  by_cases digit : c.isDigit = true
  · exact spellsLexeme_digits digit rest
  by_cases letter : isLetter c = true
  · exact spellsLexeme_word letter rest
  cases means : Symbol.ofChar? c with
  | some s => exact spellsLexeme_symbol means rest
  | none =>
      have starts_none : ¬ StartsToken c := by
        rintro (is_quote | is_digit | is_letter | ⟨s, first⟩)
        · exact quote is_quote
        · exact digit is_digit
        · exact letter is_letter
        · exact Symbol.ofChar?_eq_none.1 means s first
      exact spellsLexeme_of_eq (lexeme_illegal starts_none rest) rfl
        (.illegal rest not_blank starts_none)

end Token

-- ========================================================== whole texts

/-- Blanks alone give no token. -/
private theorem tokens_blanks {w : List Char}
    (blank : ∀ c ∈ w, isBlank c = true) :
    tokens w = [] := by
  have skipped := dropWhile_run blank (endsRun_nil isBlank)
  rw [List.append_nil] at skipped
  rw [tokens_eq, Token.next?, skipped]

/-- The token that is spelled first comes first, whatever follows. -/
theorem tokens_spelled {w x rest : List Char} {t : Token}
    (blank : ∀ c ∈ w, isBlank c = true) (spelled : t.Spelled x rest) :
    tokens (w ++ x ++ rest) = t :: tokens rest := by
  obtain ⟨c, tail, rfl, not_blank, found⟩ := spelled.lexeme_eq
  have skipped : (w ++ c :: tail ++ rest).dropWhile isBlank
      = c :: (tail ++ rest) := by
    rw [List.append_assoc, List.dropWhile_append_of_pos blank,
      List.cons_append,
      List.dropWhile_cons_of_neg (by rw [not_blank]; decide)]
  rw [tokens_eq, Token.next?, skipped]
  simp only [found]

/-- Every text spells the tokens that are scanned from it. -/
theorem spells_tokens (text : List Char) : Spells text (tokens text) := by
  induction n : text.length using Nat.strongRecOn generalizing text with
  | ind n ih =>
      have parts : text = text.takeWhile isBlank ++ text.dropWhile isBlank :=
        List.takeWhile_append_dropWhile.symm
      have blank : ∀ c ∈ text.takeWhile isBlank, isBlank c = true :=
        fun c => of_mem_takeWhile
      cases behind : text.dropWhile isBlank with
      | nil =>
          rw [behind, List.append_nil] at parts
          rw [parts, tokens_blanks blank]
          exact .blanks blank
      | cons c rest =>
          have not_blank : isBlank c = false :=
            endsRun_dropWhile isBlank text c (by rw [behind]; rfl)
          obtain ⟨x, eq, spelled⟩ := Token.spellsLexeme not_blank rest
          have shorter := Token.length_lexeme_le c rest
          have length := congrArg List.length parts
          rw [behind, eq, ← List.append_assoc] at parts
          rw [behind, List.length_append, List.length_cons] at length
          rw [parts, tokens_spelled blank spelled]
          exact .token blank spelled (ih _ (by omega) _ rfl)

/-- Scanning a text gives some tokens exactly when the text is a spelling
of them. -/
theorem tokenize_eq_iff_spells (source : String) (ts : List Token) :
    tokenize source = ts ↔ Spells source.toList ts := by
  unfold tokenize
  generalize source.toList = text
  constructor
  · intro eq
    rw [← eq]
    exact spells_tokens text
  · intro spells
    induction spells with
    | blanks blank => exact tokens_blanks blank
    | token blank first others ih => rw [tokens_spelled blank first, ih]

end Scriptlet
