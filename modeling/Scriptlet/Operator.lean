/-
The operators of the language and how tightly they bind.

An operator is named for what it computes, not for its symbol: `-` is
`UnaryOp.neg` before an operand and `BinaryOp.sub` between two.

# Levels

`BinaryOp.level` grows with the binding strength: equality, comparison,
sum, product. `unaryLevel` lies above them all, so the operand of a unary
operator takes no binary operator with it. A call suffix `( … )` binds
tighter than any operator and has no level. Reading an expression at
level `m` takes in the operators whose level is above `m`, hence
`lowestLevel` takes in all of them and operators of one level group to
the left.
-/
import Scriptlet.Token

namespace Scriptlet

-- ============================================================== unary

/-- Operators written before their operand. -/
inductive UnaryOp where
  | neg
  | not
  deriving DecidableEq

namespace UnaryOp

/-- The symbol an operator is written with. -/
def symbol : UnaryOp → Symbol
  | neg => .minus
  | not => .bang

/-- The source text of an operator. -/
def spelling (op : UnaryOp) : String :=
  op.symbol.spelling

end UnaryOp

-- ============================================================= binary

/-- Operators written between their operands. -/
inductive BinaryOp where
  | add
  | sub
  | mul
  | div
  | less
  | greater
  | equal
  | notEqual
  deriving DecidableEq

namespace BinaryOp

/-- The symbol an operator is written with. -/
def symbol : BinaryOp → Symbol
  | add => .plus
  | sub => .minus
  | mul => .star
  | div => .slash
  | less => .less
  | greater => .greater
  | equal => .equal
  | notEqual => .notEqual

/-- The source text of an operator. -/
def spelling (op : BinaryOp) : String :=
  op.symbol.spelling

/-- The operator that a symbol between two operands means. -/
def ofSymbol? : Symbol → Option BinaryOp
  | .plus => some add
  | .minus => some sub
  | .star => some mul
  | .slash => some div
  | .less => some less
  | .greater => some greater
  | .equal => some equal
  | .notEqual => some notEqual
  | _ => none

/-- A symbol means an operator exactly when the operator is written with
it. -/
theorem ofSymbol?_eq_some_iff {s : Symbol} {op : BinaryOp} :
    ofSymbol? s = some op ↔ s = op.symbol := by
  constructor
  · intro h
    cases s <;> cases h <;> rfl
  · intro eq
    subst eq
    cases op <;> rfl

end BinaryOp

-- ============================================================= levels

/-- The level below every operator. -/
def lowestLevel : Nat := 0

/-- How tightly a binary operator binds. -/
def BinaryOp.level : BinaryOp → Nat
  | .equal | .notEqual => 1
  | .less | .greater => 2
  | .add | .sub => 3
  | .mul | .div => 4

/-- The level at which a unary operator reads its operand. -/
def unaryLevel : Nat := 5

theorem BinaryOp.lowestLevel_lt_level (op : BinaryOp) :
    lowestLevel < op.level := by
  cases op <;> decide

theorem BinaryOp.level_lt_unaryLevel (op : BinaryOp) :
    op.level < unaryLevel := by
  cases op <;> decide

end Scriptlet
