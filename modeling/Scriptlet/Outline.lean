/-
Outlines: programs and outcomes as one-line texts that show every node.

Where source text shows a program as one would write it, an outline shows
how it is built: the name of each node, the names of its parts, and the
parts. Nothing is left to precedence, and a missing part shows as `None`.
A function shows its parameters and its body, and not the scope it was
made in, which usually holds the function itself.

An outline is made of three forms: a record with named parts, a node
around one unnamed part, and a list.
-/
import Scriptlet.Value
import Scriptlet.Text.Quoted

namespace Scriptlet

open Text (quoted)

-- =============================================================== forms

namespace Outline

/-- Named parts, separated by commas. -/
def parts : List (String × String) → String
  | [] => ""
  | [(name, part)] => name ++ ": " ++ part
  | (name, part) :: rest => name ++ ": " ++ part ++ ", " ++ parts rest

/-- A node with named parts. -/
def record (node : String) (fields : List (String × String)) : String :=
  node ++ " \x7b " ++ parts fields ++ " \x7d"

/-- A node around one part. -/
def wrap (node part : String) : String :=
  node ++ "(" ++ part ++ ")"

/-- A list of parts. -/
def list (items : List String) : String :=
  "[" ++ commaSeparated items ++ "]"

/-- A truth value. -/
def bool : Bool → String
  | true => "true"
  | false => "false"

end Outline

-- =========================================================== operators

/-- The name of an operator in an outline. -/
def UnaryOp.outline : UnaryOp → String
  | neg => "MINUS"
  | not => "BANG"

/-- The name of an operator in an outline. -/
def BinaryOp.outline : BinaryOp → String
  | add => "PLUS"
  | sub => "MINUS"
  | mul => "ASTERISK"
  | div => "SLASH"
  | less => "LT"
  | greater => "GT"
  | equal => "EQ"
  | notEqual => "NEQ"

-- ============================================================ programs

/-- The outline of a block, given those of its statements. -/
def Outline.block (stmts : List String) : String :=
  Outline.record "BlockStatement" [("statements", Outline.list stmts)]

mutual

/-- The outline of an expression. -/
def Expr.outline : Expr → String
  | .ident name => Outline.wrap "Identifier" (quoted name)
  | .int value => Outline.record "IntegerLiteral" [("value", Word.text value)]
  | .bool value => Outline.record "Boolean" [("value", Outline.bool value)]
  | .str value => Outline.record "StringLiteral" [("value", quoted value)]
  | .unary op e =>
      Outline.record "PrefixExpression"
        [("operator", op.outline), ("right", e.outline)]
  | .binary op l r =>
      Outline.record "InfixExpression"
        [("left", l.outline), ("operator", op.outline), ("right", r.outline)]
  | .cond test yes none =>
      Outline.record "IfExpression"
        [("condition", test.outline),
          ("consequence", Outline.block (Stmt.outlines yes)),
          ("alternative", "None")]
  | .cond test yes (some no) =>
      Outline.record "IfExpression"
        [("condition", test.outline),
          ("consequence", Outline.block (Stmt.outlines yes)), ("alternative",
            Outline.wrap "Some" (Outline.block (Stmt.outlines no)))]
  | .fn params body =>
      Outline.record "FunctionLiteral"
        [("parameters", Outline.list (params.map quoted)),
          ("body", Outline.block (Stmt.outlines body))]
  | .call callee args =>
      Outline.record "CallExpression"
        [("function", callee.outline),
          ("arguments", Outline.list (Expr.outlines args))]

/-- The outline of a statement. -/
def Stmt.outline : Stmt → String
  | .bind name value =>
      Outline.record "LetStatement"
        [("name", quoted name), ("value", value.outline)]
  | .ret none => Outline.wrap "ReturnStatement" "None"
  | .ret (some value) =>
      Outline.wrap "ReturnStatement" (Outline.wrap "Some" value.outline)
  | .expr value => Outline.wrap "ExpressionStatement" value.outline

/-- The outlines of some statements. -/
def Stmt.outlines : List Stmt → List String
  | [] => []
  | s :: ss => s.outline :: Stmt.outlines ss

/-- The outlines of some arguments. -/
def Expr.outlines : List Expr → List String
  | [] => []
  | e :: es => e.outline :: Expr.outlines es

end

/-- The outline of a program. -/
def Program.outline (p : Program) : String :=
  Outline.record "Program" [("statements", Outline.list (Stmt.outlines p))]

-- ============================================================ outcomes

/-- The outline of a value. -/
def Value.outline : Value → String
  | .int w => Outline.record "Integer" [("value", Word.text w)]
  | .bool b => Outline.record "Boolean" [("value", Outline.bool b)]
  | .str s => Outline.record "String" [("value", quoted s)]
  | .null => "Null"
  | .closure f =>
      Outline.wrap "Function" <| Outline.record "Function"
        [("parameters", Outline.list (f.params.map quoted)),
          ("body", Outline.block (Stmt.outlines f.body))]

/-- The outline of an outcome. -/
def Outcome.outline : Outcome → String
  | .value v => v.outline
  | .error fault => Outline.record "Error" [("message", quoted fault.message)]
  | .returned inner => Outline.record "ReturnValue" [("value", inner.outline)]

end Scriptlet
