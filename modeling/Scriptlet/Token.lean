/-
The vocabulary of the language: symbols, keywords, and the tokens a
source text is cut into.

A token list has no end marker. The end of the input is the end of the
list, so "the next token" is an `Option Token` and `none` is the end;
only the two texts `kindOf` and `displayOf` give the end a name, because
diagnostics have to mention it.

# Two texts for each token

`kind` names the class of a token (`IDENT`, `INT`, `LET`, `+`) and is
what a diagnostic uses for a token that was wanted or found. `display`
shows the token itself (`x`, `42`, `"s"`) and is what a diagnostic uses
for a token that cannot start an expression. They differ only where the
token carries text of its own.

`Symbol.spelling` and `Keyword.spelling` are the source texts; the
tables `Symbol.ofChar?` and `Keyword.ofSpelling?` invert them, and the
small lemmas below say so.
-/

namespace Scriptlet

-- ============================================================= symbols

/-- Operators and punctuation. -/
inductive Symbol where
  | assign
  | plus
  | minus
  | bang
  | star
  | slash
  | less
  | greater
  | equal
  | notEqual
  | comma
  | semicolon
  | colon
  | openParen
  | closeParen
  | openBrace
  | closeBrace
  | openBracket
  | closeBracket
  deriving DecidableEq

namespace Symbol

/-- The source text of a symbol. -/
def spelling : Symbol → String
  | assign => "="
  | plus => "+"
  | minus => "-"
  | bang => "!"
  | star => "*"
  | slash => "/"
  | less => "<"
  | greater => ">"
  | equal => "=="
  | notEqual => "!="
  | comma => ","
  | semicolon => ";"
  | colon => ":"
  | openParen => "("
  | closeParen => ")"
  | openBrace => "\x7b"
  | closeBrace => "\x7d"
  | openBracket => "["
  | closeBracket => "]"

/-- The symbol a single character stands for. The two-character symbols
are reached from these by `withEqual?`. -/
def ofChar? : Char → Option Symbol
  | '=' => some assign
  | '+' => some plus
  | '-' => some minus
  | '!' => some bang
  | '*' => some star
  | '/' => some slash
  | '<' => some less
  | '>' => some greater
  | ',' => some comma
  | ';' => some semicolon
  | ':' => some colon
  | '(' => some openParen
  | ')' => some closeParen
  | '\x7b' => some openBrace
  | '\x7d' => some closeBrace
  | '[' => some openBracket
  | ']' => some closeBracket
  | _ => none

/-- The symbol that a directly following `=` turns this one into. -/
def withEqual? : Symbol → Option Symbol
  | assign => some equal
  | bang => some notEqual
  | _ => none

/-- A symbol read off one character is spelled by that character. -/
theorem spelling_of_ofChar? {c : Char} {s : Symbol} (h : ofChar? c = some s) :
    s.spelling = String.ofList [c] := by
  unfold ofChar? at h
  split at h <;> cases h <;> rfl

/-- Widening appends the `=` to the spelling. -/
theorem spelling_of_withEqual? {s wide : Symbol}
    (h : s.withEqual? = some wide) :
    wide.spelling = s.spelling ++ "=" := by
  cases s <;> cases h <;> rfl

end Symbol

-- ============================================================ keywords

/-- The reserved words. -/
inductive Keyword where
  | fnWord
  | letWord
  | trueWord
  | falseWord
  | ifWord
  | elseWord
  | returnWord
  deriving DecidableEq

namespace Keyword

/-- The source text of a keyword. -/
def spelling : Keyword → String
  | fnWord => "fn"
  | letWord => "let"
  | trueWord => "true"
  | falseWord => "false"
  | ifWord => "if"
  | elseWord => "else"
  | returnWord => "return"

/-- The name of a keyword's class, which diagnostics show. -/
def kind : Keyword → String
  | fnWord => "FUNCTION"
  | letWord => "LET"
  | trueWord => "TRUE"
  | falseWord => "FALSE"
  | ifWord => "IF"
  | elseWord => "ELSE"
  | returnWord => "RETURN"

/-- The keyword a word spells, if it is reserved. -/
def ofSpelling? (word : String) : Option Keyword :=
  if word = "fn" then some fnWord
  else if word = "let" then some letWord
  else if word = "true" then some trueWord
  else if word = "false" then some falseWord
  else if word = "if" then some ifWord
  else if word = "else" then some elseWord
  else if word = "return" then some returnWord
  else none

/-- A word is reserved exactly when it is a keyword's spelling. -/
theorem ofSpelling?_eq_some_iff {word : String} {k : Keyword} :
    ofSpelling? word = some k ↔ word = k.spelling := by
  unfold ofSpelling?
  constructor
  · intro h
    repeat' split at h
    all_goals first | (cases h; assumption) | cases h
  · intro eq
    subst eq
    cases k <;> decide

end Keyword

-- ============================================================== tokens

/-- One lexical unit. Words that are not reserved, digit runs and string
bodies keep their text; a character no token starts with is kept as
`illegal`. -/
inductive Token where
  | illegal (c : Char)
  | ident (name : String)
  | int (digits : String)
  | str (body : String)
  | symbol (s : Symbol)
  | keyword (k : Keyword)
  deriving DecidableEq

namespace Token

/-- The token a word stands for: its keyword, or else a name. Any text
that is no keyword is taken as a name. -/
def ofWord (word : String) : Token :=
  match Keyword.ofSpelling? word with
  | some k => keyword k
  | none => ident word

/-- The name of the token's class. -/
def kind : Token → String
  | illegal _ => "ILLEGAL"
  | ident _ => "IDENT"
  | int _ => "INT"
  | str _ => "STRING"
  | symbol s => s.spelling
  | keyword k => k.kind

/-- The token as shown to a reader. -/
def display : Token → String
  | illegal c => "ILLEGAL(" ++ String.ofList [c] ++ ")"
  | ident name => name
  | int digits => digits
  | str body => "\"" ++ body ++ "\""
  | symbol s => s.spelling
  | keyword k => k.kind

/-- The class name of the token at some place, where `none` is the end of
the input. -/
def kindOf : Option Token → String
  | some t => t.kind
  | none => "EOF"

/-- The text of the token at some place, where `none` is the end of the
input. -/
def displayOf : Option Token → String
  | some t => t.display
  | none => "EOF"

end Token

end Scriptlet
