/-
Cutting a source text into tokens.

`next?` skips blanks and takes the longest token that starts there;
`tokens` repeats it to the end of the text. Only five characters separate
tokens (`isBlank`): any other character that starts no token, a
no-break space included, is a token of its own (`Token.illegal`), so no
character is ever dropped unseen.

A string runs to the next quote or, where there is none, to the end of
the text: scanning never fails.

# Shape of the recursion

`tokensWithin` is structural on a bound for the number of tokens, so that
the kernel can run it. Each token takes at least one character
(`length_lt_of_next?`), hence the length of the text is always enough,
and `tokens_eq` gives back the equation without the bound. Proofs use
`tokens_eq` and never see the bound.
-/
import Scriptlet.Token

namespace Scriptlet

-- =================================================== character classes

/-- The characters that separate tokens: space, tab, line feed, form feed
and carriage return. -/
def isBlank (c : Char) : Bool :=
  c = ' ' || c = '\t' || c = '\n' || c = '\x0c' || c = '\r'

/-- The characters a word starts with. `Char.isAlpha` is the ASCII
letters. -/
def isLetter (c : Char) : Bool :=
  c.isAlpha || c = '_'

/-- The characters a word goes on with. -/
def isWordChar (c : Char) : Bool :=
  isLetter c || c.isDigit

-- ========================================================= one token

namespace Token

/-- The longest token that starts with the character `c`, and what
follows it. -/
def lexeme (c : Char) (rest : List Char) : Token × List Char :=
  if c = '"' then
    (str (String.ofList (rest.takeWhile (· ≠ '"'))),
      (rest.dropWhile (· ≠ '"')).drop 1)
  else if c.isDigit then
    (int (String.ofList (c :: rest.takeWhile Char.isDigit)),
      rest.dropWhile Char.isDigit)
  else if isLetter c then
    (ofWord (String.ofList (c :: rest.takeWhile isWordChar)),
      rest.dropWhile isWordChar)
  else
    match Symbol.ofChar? c with
    | none => (illegal c, rest)
    | some s =>
        match s.withEqual?, rest with
        | some wide, '=' :: rest => (symbol wide, rest)
        | _, _ => (symbol s, rest)

/-- The first token of a text and the text after it, or `none` where only
blanks are left. -/
def next? (text : List Char) : Option (Token × List Char) :=
  match text.dropWhile isBlank with
  | [] => none
  | c :: rest => some (lexeme c rest)

/-- A token's rest is no longer than what followed its first
character. -/
theorem length_lexeme_le (c : Char) (rest : List Char) :
    (lexeme c rest).2.length ≤ rest.length := by
  have drop (p : Char → Bool) : (rest.dropWhile p).length ≤ rest.length :=
    (List.dropWhile_sublist p).length_le
  unfold lexeme
  split
  · have := drop (· ≠ '"')
    simp only [List.length_drop]
    omega
  split
  · exact drop _
  split
  · exact drop _
  split
  · exact Nat.le_refl _
  · split
    · exact Nat.le_succ _
    · exact Nat.le_refl _

/-- Each token takes at least one character. -/
theorem length_lt_of_next? {text rest : List Char} {t : Token}
    (h : next? text = some (t, rest)) : rest.length < text.length := by
  unfold next? at h
  split at h
  · cases h
  · next c tail eq =>
      have skipped := (List.dropWhile_sublist (l := text) isBlank).length_le
      have taken := length_lexeme_le c tail
      rw [Option.some.inj h] at taken
      rw [eq, List.length_cons] at skipped
      exact Nat.lt_of_lt_of_le (Nat.lt_succ_of_le taken) skipped

end Token

-- ========================================================== all tokens

/-- The tokens of a text, at most `bound` of them. -/
def tokensWithin : Nat → List Char → List Token
  | 0, _ => []
  | bound + 1, text =>
      match Token.next? text with
      | none => []
      | some (t, rest) => t :: tokensWithin bound rest

/-- The tokens of a text. -/
def tokens (text : List Char) : List Token :=
  tokensWithin text.length text

/-- The tokens of a source. -/
def tokenize (source : String) : List Token :=
  tokens source.toList

/-- Any bound from the length of the text on gives the same tokens. -/
theorem tokensWithin_eq_tokens {bound : Nat} {text : List Char}
    (h : text.length ≤ bound) : tokensWithin bound text = tokens text := by
  suffices all : ∀ m n : Nat, ∀ text : List Char, text.length ≤ m →
      text.length ≤ n → tokensWithin m text = tokensWithin n text from
    all bound text.length text h (Nat.le_refl _)
  intro m
  induction m with
  | zero =>
      intro n text hm _
      have : text = [] := List.length_eq_zero_iff.1 (Nat.le_zero.1 hm)
      subst this
      cases n <;> rfl
  | succ m ih =>
      intro n text hm hn
      cases n with
      | zero =>
          have : text = [] := List.length_eq_zero_iff.1 (Nat.le_zero.1 hn)
          subst this
          rfl
      | succ n =>
          simp only [tokensWithin]
          split
          · rfl
          · next t rest eq =>
              have := Token.length_lt_of_next? eq
              rw [ih n rest (by omega) (by omega)]

/-- The equation that `tokens` satisfies: take the first token, go on
behind it. -/
theorem tokens_eq (text : List Char) :
    tokens text = match Token.next? text with
      | none => []
      | some (t, rest) => t :: tokens rest := by
  rw [← tokensWithin_eq_tokens (Nat.le_succ _), tokensWithin]
  split
  · rfl
  · next t rest eq =>
      rw [tokensWithin_eq_tokens (Nat.le_of_lt (Token.length_lt_of_next? eq))]

end Scriptlet
