/-
What evaluation produces.

A `Value` is data: a word, a truth value, a string, `null` or a function.
An `Outcome` is what an evaluation ends in: a value, or one of the two
signals that stop whatever is going on around it, an error or a `return`
on its way out of a function. Operators and functions take values only,
so a signal cannot become an operand; that is a matter of types here.

A returned outcome is again an outcome because a host may build any of
them and bind it to a name. Evaluation itself returns only values.

# Function identity

Two functions are equal only if they come from the same evaluation of the
same literal, whatever they do. A closure therefore carries a stamp, and
`Value.same` compares functions by the stamp and all else by content.
-/
import Scriptlet.Expr.Source

namespace Scriptlet

-- ============================================================== values

/-- A scope is known by its place in the heap. -/
abbrev ScopeId := Nat

/-- A function: its literal, the scope it was made in, and the stamp that
tells it from other functions. -/
structure Closure where
  stamp : Nat
  params : List String
  body : Block
  scope : ScopeId

/-- The data of the language. -/
inductive Value where
  | int (w : Int64)
  | bool (b : Bool)
  | str (s : String)
  | null
  | closure (f : Closure)

/-- The classes of values. -/
inductive Kind where
  | integer
  | boolean
  | string
  | null
  | function
  deriving DecidableEq

/-- The name of a class, as messages show it. -/
def Kind.name : Kind → String
  | integer => "INTEGER"
  | boolean => "BOOLEAN"
  | string => "STRING"
  | null => "NULL"
  | function => "FUNCTION"

namespace Value

/-- The class of a value. -/
def kind : Value → Kind
  | int _ => .integer
  | bool _ => .boolean
  | str _ => .string
  | null => .null
  | closure _ => .function

/-- Whether a condition holds: all values count as true but `null` and
`false`. -/
def truthy : Value → Bool
  | bool b => b
  | null => false
  | _ => true

/-- Whether two values are equal for the program: functions by identity,
all else by content. -/
def same : Value → Value → Bool
  | int a, int b => a = b
  | bool a, bool b => a = b
  | str a, str b => a = b
  | null, null => true
  | closure f, closure g => f.stamp = g.stamp
  | _, _ => false

/-- A value as shown to a reader. A string shows as its bare content. -/
def text : Value → String
  | int w => Word.text w
  | bool true => "true"
  | bool false => "false"
  | str s => s
  | null => "null"
  | closure f => "fn(" ++ commaSeparated f.params ++ ") " ++ Block.source f.body

end Value

-- ============================================================== faults

/-- What can go wrong in an evaluation. -/
inductive Fault where
  | unbound (name : String)
  | unknownUnary (op : UnaryOp) (operand : Kind)
  | typeMismatch (op : BinaryOp) (left right : Kind)
  | unknownBinary (op : BinaryOp) (left right : Kind)
  | divisionByZero
  | notAFunction (callee : Kind)
  | wrongArity (wanted got : Nat)
  /-- Any other fault, in the words of the host that supplied it. -/
  | custom (message : String)
  deriving DecidableEq

/-- A fault in words. -/
def Fault.message : Fault → String
  | unbound name => "identifier not found: " ++ name
  | unknownUnary op operand =>
      "unknown operator: " ++ op.spelling ++ operand.name
  | typeMismatch op left right =>
      "type mismatch: " ++ left.name ++ " " ++ op.spelling ++ " " ++ right.name
  | unknownBinary op left right =>
      "unknown operator: " ++ left.name ++ " " ++ op.spelling ++ " "
        ++ right.name
  | divisionByZero => "division by zero"
  | notAFunction callee => "not a function: " ++ callee.name
  | wrongArity wanted got =>
      "wrong number of arguments: want=" ++ wanted.repr ++ ", got=" ++ got.repr
  | custom message => message

-- ============================================================ outcomes

/-- What an evaluation ends in. -/
inductive Outcome where
  | value (v : Value)
  | error (fault : Fault)
  /-- A `return` that has not yet left its function. -/
  | returned (inner : Outcome)

namespace Outcome

/-- The outcome of what has no value of its own. -/
def null : Outcome :=
  value .null

/-- Whether an outcome stops the evaluation around it. -/
def isSignal : Outcome → Bool
  | value _ => false
  | _ => true

/-- Whether an outcome is an error. -/
def isError : Outcome → Bool
  | error _ => true
  | _ => false

/-- Whether an outcome counts as true. Signals do. -/
def truthy : Outcome → Bool
  | value v => v.truthy
  | _ => true

/-- The outcome of a function or a program whose statements ended in
this one: a `return` has arrived. -/
def unwrapped : Outcome → Outcome
  | returned inner => inner
  | outcome => outcome

/-- The name of the class of an outcome. -/
def kindName : Outcome → String
  | value v => v.kind.name
  | error _ => "ERROR"
  | returned _ => "RETURN_VALUE"

/-- An outcome as shown to a reader. -/
def text : Outcome → String
  | value v => v.text
  | error fault => "ERROR: " ++ fault.message
  | returned inner => inner.text

end Outcome

end Scriptlet
