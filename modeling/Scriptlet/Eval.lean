/-
Evaluation of expressions and statements.

An evaluation takes a heap to an outcome and a heap. A signal, that is an
error or a `return`, ends every evaluation around it at once: nothing
else is evaluated, bound or called. `Run.onValue` is the one place where
that rule is written down, and every rule below goes through it.

# Calls and the depth limit

Expressions are evaluated by recursion on the expression, given a
`Caller` that runs the body of a function. A caller for calls nested at
most `limit` deep is `Closure.call limit`, by recursion on the limit. So
both recursions are structural, and the one thing that may not end, calls
within calls, is bounded by a number. A run that would exceed the limit
is `none`; it is not an outcome of the language.

A higher limit changes nothing in a run that a lower one completes.

# Order

Operands, callee and arguments are evaluated from left to right, the
callee before the arguments; a callee is tested for being a function, and
the number of arguments for being right, only after all of them.
-/
import Scriptlet.Heap
import Scriptlet.Value.Operate

namespace Scriptlet

-- ================================================================ runs

/-- The outcome of an evaluation and the heap it leaves, or `none` where
calls were nested deeper than allowed. -/
abbrev Run := Option (Outcome × Heap)

/-- Goes on with the value of a run; a signal ends it as it stands. -/
@[inline]
def Run.onValue (run : Run) (next : Value → Heap → Run) : Run :=
  match run with
  | none => none
  | some (.value v, h) => next v h
  | some (.error fault, h) => some (.error fault, h)
  | some (.returned inner, h) => some (.returned inner, h)

/-- Runs the body of a function for some arguments. -/
abbrev Caller := Closure → List Value → Heap → Run

-- ======================================================= calling a value

/-- Calls a value: it has to be a function with as many parameters as
there are arguments. -/
def Value.applyTo (call : Caller) (callee : Value) (args : List Value)
    (h : Heap) : Run :=
  match callee with
  | .closure f =>
      if f.params.length = args.length then call f args h
      else some (.error (.wrongArity f.params.length args.length), h)
  | other => some (.error (.notAFunction other.kind), h)

-- ========================================================== evaluation

mutual

/-- Evaluates an expression in a scope. -/
def Expr.eval (call : Caller) (scope : ScopeId) : Expr → Heap → Run
  | .ident name, h =>
      match h.lookup scope name with
      | some outcome => some (outcome, h)
      | none => some (.error (.unbound name), h)
  | .int w, h => some (.value (.int w), h)
  | .bool b, h => some (.value (.bool b), h)
  | .str s, h => some (.value (.str s), h)
  | .unary op e, h =>
      Run.onValue (e.eval call scope h) fun v h => some (op.apply v, h)
  | .binary op l r, h =>
      Run.onValue (l.eval call scope h) fun a h =>
        Run.onValue (r.eval call scope h) fun b h => some (op.apply a b, h)
  | .cond test yes none, h =>
      Run.onValue (test.eval call scope h) fun v h =>
        if v.truthy then Stmt.evalAll call scope yes .null h
        else some (.null, h)
  | .cond test yes (some no), h =>
      Run.onValue (test.eval call scope h) fun v h =>
        if v.truthy then Stmt.evalAll call scope yes .null h
        else Stmt.evalAll call scope no .null h
  | .fn params body, h =>
      let (f, h) := h.newClosure params body scope
      some (.value (.closure f), h)
  | .call callee args, h =>
      Run.onValue (callee.eval call scope h) fun f h =>
        Expr.evalArgs call scope f args [] h

/-- Evaluates the arguments of a call that are left, behind those that
are done, and then calls. -/
def Expr.evalArgs (call : Caller) (scope : ScopeId) (callee : Value) :
    List Expr → List Value → Heap → Run
  | [], done, h => callee.applyTo call done h
  | arg :: args, done, h =>
      Run.onValue (arg.eval call scope h) fun v h =>
        Expr.evalArgs call scope callee args (done ++ [v]) h

/-- Evaluates a statement in a scope. A `let` has no value of its own. -/
def Stmt.eval (call : Caller) (scope : ScopeId) : Stmt → Heap → Run
  | .bind name e, h =>
      Run.onValue (e.eval call scope h) fun v h =>
        some (.null, h.bind scope name (.value v))
  | .ret none, h => some (.returned .null, h)
  | .ret (some e), h =>
      Run.onValue (e.eval call scope h) fun v h =>
        some (.returned (.value v), h)
  | .expr e, h => e.eval call scope h

/-- Evaluates statements one after the other. The value is that of the
last one, or the one given if there is none. -/
def Stmt.evalAll (call : Caller) (scope : ScopeId) :
    List Stmt → Value → Heap → Run
  | [], last, h => some (.value last, h)
  | s :: ss, _, h =>
      Run.onValue (s.eval call scope h) fun v h =>
        Stmt.evalAll call scope ss v h

end

-- =============================================================== calls

/-- Runs the body of a function in a new scope inside the one it was made
in, with its parameters bound, where calls may nest `limit` deep. -/
def Closure.call : (limit : Nat) → Caller
  | 0, _, _, _ => none
  | limit + 1, f, args, h =>
      let (scope, h) := h.newScope (some f.scope)
      let h := h.bindAll scope (f.params.zip (args.map .value))
      match Stmt.evalAll (Closure.call limit) scope f.body .null h with
      | none => none
      | some (outcome, h) => some (outcome.unwrapped, h)

/-- How deep calls may nest where nothing else is said. -/
def callLimit : Nat := 10000

end Scriptlet
