/-
Programs as source text.

The text of a tree is source again: reading it gives the tree back
wherever the text can carry it. Operators are written inside parentheses
of their own, so the grouping of a tree shows in its text; a conditional
adds no parentheses around its test, and relies on the test bringing
them.

A program puts each statement on a line of its own; a block puts its
statements on one line, each followed by a space.
-/
import Scriptlet.Expr
import Scriptlet.Word

namespace Scriptlet

/-- Items separated by a comma and a space. -/
def commaSeparated : List String → String
  | [] => ""
  | [item] => item
  | item :: items => item ++ ", " ++ commaSeparated items

/-- Statements already written on one line, put between braces. -/
def braced (inner : String) : String :=
  "\x7b " ++ inner ++ "\x7d"

mutual

/-- The source text of an expression. -/
def Expr.source : Expr → String
  | .ident name => name
  | .int value => Word.text value
  | .bool true => Keyword.trueWord.spelling
  | .bool false => Keyword.falseWord.spelling
  | .str value => "\"" ++ value ++ "\""
  | .unary op e => "(" ++ op.spelling ++ e.source ++ ")"
  | .binary op l r =>
      "(" ++ l.source ++ " " ++ op.spelling ++ " " ++ r.source ++ ")"
  | .cond test yes none =>
      "if " ++ test.source ++ " " ++ braced (Stmt.inlineSource yes)
  | .cond test yes (some no) =>
      "if " ++ test.source ++ " " ++ braced (Stmt.inlineSource yes)
        ++ " else " ++ braced (Stmt.inlineSource no)
  | .fn params body =>
      "fn(" ++ commaSeparated params ++ ") " ++ braced (Stmt.inlineSource body)
  | .call callee args =>
      callee.source ++ "(" ++ commaSeparated (Expr.sources args) ++ ")"

/-- The source text of a statement. -/
def Stmt.source : Stmt → String
  | .bind name value => "let " ++ name ++ " = " ++ value.source ++ ";"
  | .ret (some value) => "return " ++ value.source ++ ";"
  | .ret none => "return;"
  | .expr value => value.source

/-- Statements on one line, each followed by a space. -/
def Stmt.inlineSource : List Stmt → String
  | [] => ""
  | s :: ss => s.source ++ " " ++ Stmt.inlineSource ss

/-- The source texts of some arguments. -/
def Expr.sources : List Expr → List String
  | [] => []
  | e :: es => e.source :: Expr.sources es

end

/-- The source text of a block, braces included. -/
def Block.source (body : Block) : String :=
  braced (Stmt.inlineSource body)

/-- The source text of a program, a line for each statement. -/
def Program.source : Program → String
  | [] => ""
  | s :: ss => s.source ++ "\n" ++ Program.source ss

end Scriptlet
