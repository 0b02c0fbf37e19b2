/-
What can be wrong with a program text, and how it is said.

A diagnostic keeps the cause: what was wanted and which token was found
in its place, `none` for the end of the input. `Diagnostic.message` is
the only place that knows the wording.
-/
import Scriptlet.Token

namespace Scriptlet

/-- What a place in a program demands: some name, or one given symbol. -/
inductive Wanted where
  | name
  | symbol (s : Symbol)
  deriving DecidableEq

/-- The class name of what is demanded. -/
def Wanted.kind : Wanted → String
  | name => "IDENT"
  | symbol s => s.spelling

/-- Why a statement is malformed. -/
inductive Diagnostic where
  /-- Something else was found where `wanted` has to stand. -/
  | expected (wanted : Wanted) (found : Option Token)
  /-- Nothing that starts an expression was found where one has to. -/
  | noOperand (found : Option Token)
  /-- An integer literal is too large for a word. -/
  | tooLarge (digits : String)
  deriving DecidableEq

namespace Diagnostic

/-- The token a diagnostic is about, `none` for the end of the input. -/
def blamed : Diagnostic → Option Token
  | expected _ found => found
  | noOperand found => found
  | tooLarge digits => some (.int digits)

/-- A diagnostic in words. -/
def message : Diagnostic → String
  | expected wanted found =>
      "expected next token to be `" ++ wanted.kind ++ "`, got `" ++ Token.kindOf
        found ++ "` instead"
  | noOperand found =>
      "no prefix parse function for `" ++ Token.displayOf found ++ "` found"
  | tooLarge digits => "could not parse `" ++ digits ++ "` as integer"

end Diagnostic

end Scriptlet
