/-
What the operators compute.

Every operator is total on values: a combination that has no meaning is
an error, not a failure of the evaluator. For a binary operator the
classes of the operands are compared first, so operands of different
classes are always a type mismatch, also under `==`.

Negation, sums, differences and products of words wrap around.
-/
import Scriptlet.Value

namespace Scriptlet

/-- What a unary operator makes of its operand. `!` takes anything. -/
def UnaryOp.apply : UnaryOp → Value → Outcome
  | .not, v => .value (.bool !v.truthy)
  | .neg, .int w => .value (.int (-w))
  | .neg, v => .error (.unknownUnary .neg v.kind)

/-- What a binary operator makes of two operands of one class. Equality
is known for every class, the rest for words, and `+` also joins
strings. -/
def BinaryOp.applyAlike : BinaryOp → Value → Value → Outcome
  | .equal, a, b => .value (.bool (a.same b))
  | .notEqual, a, b => .value (.bool !a.same b)
  | .add, .int a, .int b => .value (.int (a + b))
  | .sub, .int a, .int b => .value (.int (a - b))
  | .mul, .int a, .int b => .value (.int (a * b))
  | .div, .int a, .int b =>
      if b = 0 then .error .divisionByZero
      else .value (.int (Word.floorDiv a b))
  | .less, .int a, .int b => .value (.bool (a < b))
  | .greater, .int a, .int b => .value (.bool (b < a))
  | .add, .str a, .str b => .value (.str (a ++ b))
  | op, a, b => .error (.unknownBinary op a.kind b.kind)

/-- What a binary operator makes of its operands. -/
def BinaryOp.apply (op : BinaryOp) (a b : Value) : Outcome :=
  if a.kind = b.kind then op.applyAlike a b
  else .error (.typeMismatch op a.kind b.kind)

end Scriptlet
