/-
Programs as trees.

Expressions and statements are mutual: a conditional and a function hold
blocks, a block is a list of statements, and a statement holds
expressions. There is no node for parentheses; grouping is the shape of
the tree.

Trees may hold what no source text denotes (a negative literal, a name
with a space in it): the reader never builds such a tree, but a host may,
and every function on trees is defined for them.

`Expr.same` decides structural equality. It is written out because the
lists inside the nodes keep `deriving` from doing it; `Expr.same_iff`
says that it is equality, and the `DecidableEq` instances rest on it.
-/
import Scriptlet.Operator

namespace Scriptlet

mutual

/-- An expression. -/
inductive Expr where
  | ident (name : String)
  | int (value : Int64)
  | bool (value : Bool)
  | str (value : String)
  | unary (op : UnaryOp) (operand : Expr)
  | binary (op : BinaryOp) (left right : Expr)
  /-- A conditional; the second block is the `else` branch. -/
  | cond (test : Expr) (yes : List Stmt) (no : Option (List Stmt))
  /-- A function literal. -/
  | fn (params : List String) (body : List Stmt)
  | call (callee : Expr) (args : List Expr)

/-- A statement. -/
inductive Stmt where
  /-- Binds a name: `let name = value;`. -/
  | bind (name : String) (value : Expr)
  /-- Leaves the function: `return value;`, or `return;` without a value. -/
  | ret (value : Option Expr)
  /-- Runs an expression for its value or its effect. -/
  | expr (value : Expr)

end

/-- The statements between two braces. -/
abbrev Block := List Stmt

/-- A program is a list of statements too, run outside every function. -/
abbrev Program := List Stmt

/-- The expression a statement evaluates; a bare `return` has none. -/
def Stmt.expression? : Stmt → Option Expr
  | .bind _ value => some value
  | .ret value => value
  | .expr value => some value

-- ================================================= structural equality

mutual

/-- Whether two expressions are the same tree. -/
def Expr.same : Expr → Expr → Bool
  | .ident a, .ident b => a = b
  | .int a, .int b => a = b
  | .bool a, .bool b => a = b
  | .str a, .str b => a = b
  | .unary op a, .unary op' b => decide (op = op') && Expr.same a b
  | .binary op a b, .binary op' c d =>
      decide (op = op') && Expr.same a c && Expr.same b d
  | .cond a yes no, .cond b yes' no' =>
      Expr.same a b && Stmt.sameAll yes yes' && Stmt.sameBranch no no'
  | .fn params body, .fn params' body' =>
      decide (params = params') && Stmt.sameAll body body'
  | .call f args, .call g args' => Expr.same f g && Expr.sameAll args args'
  | _, _ => false

/-- Whether two statements are the same tree. -/
def Stmt.same : Stmt → Stmt → Bool
  | .bind name a, .bind name' b => decide (name = name') && Expr.same a b
  | .ret (some a), .ret (some b) => Expr.same a b
  | .ret none, .ret none => true
  | .expr a, .expr b => Expr.same a b
  | _, _ => false

/-- Whether two blocks hold the same trees. -/
def Stmt.sameAll : List Stmt → List Stmt → Bool
  | [], [] => true
  | s :: ss, t :: ts => Stmt.same s t && Stmt.sameAll ss ts
  | _, _ => false

/-- Whether two `else` branches are both absent or hold the same
trees. -/
def Stmt.sameBranch : Option (List Stmt) → Option (List Stmt) → Bool
  | some ss, some ts => Stmt.sameAll ss ts
  | none, none => true
  | _, _ => false

/-- Whether two argument lists hold the same trees. -/
def Expr.sameAll : List Expr → List Expr → Bool
  | [], [] => true
  | a :: as, b :: bs => Expr.same a b && Expr.sameAll as bs
  | _, _ => false

end

mutual

/-- The comparison decides equality of trees. A derived instance does not
see through the lists in them. -/
theorem Expr.same_iff : (a b : Expr) → (Expr.same a b = true ↔ a = b)
  | .ident _, b | .int _, b | .bool _, b | .str _, b => by
      cases b <;> simp [Expr.same]
  | .unary _ a, b => by cases b <;> simp [Expr.same, Expr.same_iff a]
  | .binary _ l r, b => by
      cases b <;> simp [Expr.same, Expr.same_iff l, Expr.same_iff r, and_assoc]
  | .cond a yes no, b => by
      cases b <;> simp [Expr.same, Expr.same_iff a, Stmt.sameAll_iff yes,
        Stmt.sameBranch_iff no, and_assoc]
  | .fn _ body, b => by cases b <;> simp [Expr.same, Stmt.sameAll_iff body]
  | .call f args, b => by
      cases b <;> simp [Expr.same, Expr.same_iff f, Expr.sameAll_iff args]

theorem Stmt.same_iff : (s t : Stmt) → (Stmt.same s t = true ↔ s = t)
  | .bind _ a, t => by cases t <;> simp [Stmt.same, Expr.same_iff a]
  | .ret none, t => by
      cases t with
      | ret value => cases value <;> simp [Stmt.same]
      | _ => simp [Stmt.same]
  | .ret (some a), t => by
      cases t with
      | ret value => cases value <;> simp [Stmt.same, Expr.same_iff a]
      | _ => simp [Stmt.same]
  | .expr a, t => by cases t <;> simp [Stmt.same, Expr.same_iff a]

theorem Stmt.sameAll_iff :
    (ss ts : List Stmt) → (Stmt.sameAll ss ts = true ↔ ss = ts)
  | [], ts => by cases ts <;> simp [Stmt.sameAll]
  | s :: ss, ts => by
      cases ts <;> simp [Stmt.sameAll, Stmt.same_iff s, Stmt.sameAll_iff ss]

theorem Stmt.sameBranch_iff :
    (b c : Option (List Stmt)) → (Stmt.sameBranch b c = true ↔ b = c)
  | none, c => by cases c <;> simp [Stmt.sameBranch]
  | some ss, c => by cases c <;> simp [Stmt.sameBranch, Stmt.sameAll_iff ss]

theorem Expr.sameAll_iff :
    (as bs : List Expr) → (Expr.sameAll as bs = true ↔ as = bs)
  | [], bs => by cases bs <;> simp [Expr.sameAll]
  | a :: as, bs => by
      cases bs <;> simp [Expr.sameAll, Expr.same_iff a, Expr.sameAll_iff as]

end

instance : DecidableEq Expr := fun a b => decidable_of_iff _ (Expr.same_iff a b)

instance : DecidableEq Stmt := fun s t => decidable_of_iff _ (Stmt.same_iff s t)

end Scriptlet
