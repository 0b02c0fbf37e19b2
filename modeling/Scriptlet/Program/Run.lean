/-
Ways to run a list of statements.

All of them run the statements in order in one scope of a heap, with
calls nested at most `limit` deep. They differ in what a signal does.

- `Program.run`: a signal stops the program, and a `return` has arrived,
  so what it returns is the outcome.
- `Block.run`: a signal stops the block and passes on as it is, since a
  block may stand inside a function.
- `Stmt.runEach`: each statement on its own, whatever the ones before it
  ended in.
- `Stmt.runExpressions`: only the expressions of the statements; nothing
  is bound and nothing returned.
-/
import Scriptlet.Eval

namespace Scriptlet

/-- Runs the statements of a program that are left, given the value of
the last one. -/
def Program.runFrom (call : Caller) (scope : ScopeId) :
    Program → Value → Heap → Run
  | [], last, h => some (.value last, h)
  | s :: ss, _, h =>
      match s.eval call scope h with
      | none => none
      | some (.value v, h) => Program.runFrom call scope ss v h
      | some (.error fault, h) => some (.error fault, h)
      | some (.returned inner, h) => some (inner, h)

/-- Runs a program. -/
def Program.run (limit : Nat) (scope : ScopeId) (p : Program) (h : Heap) :
    Run :=
  Program.runFrom (Closure.call limit) scope p .null h

/-- Runs a block. -/
def Block.run (limit : Nat) (scope : ScopeId) (body : Block) (h : Heap) : Run :=
  Stmt.evalAll (Closure.call limit) scope body .null h

/-- Runs each expression on its own and gives all outcomes. -/
def Expr.runEach (limit : Nat) (scope : ScopeId) :
    List Expr → Heap → Option (List Outcome × Heap)
  | [], h => some ([], h)
  | e :: es, h => do
      let (outcome, h) ← e.eval (Closure.call limit) scope h
      let (outcomes, h) ← Expr.runEach limit scope es h
      return (outcome :: outcomes, h)

/-- Runs each statement on its own and gives all outcomes. -/
def Stmt.runEach (limit : Nat) (scope : ScopeId) :
    List Stmt → Heap → Option (List Outcome × Heap)
  | [], h => some ([], h)
  | s :: ss, h => do
      let (outcome, h) ← s.eval (Closure.call limit) scope h
      let (outcomes, h) ← Stmt.runEach limit scope ss h
      return (outcome :: outcomes, h)

/-- Runs the expression of each statement that has one. -/
def Stmt.runExpressions (limit : Nat) (scope : ScopeId) (ss : List Stmt)
    (h : Heap) :
    Option (List Outcome × Heap) :=
  Expr.runEach limit scope (ss.filterMap Stmt.expression?) h

/-- Runs a program in a heap that holds one empty scope and nothing
else. -/
def Program.runAlone (limit : Nat) (p : Program) : Run :=
  let (scope, h) := Heap.empty.newScope none
  p.run limit scope h

end Scriptlet
