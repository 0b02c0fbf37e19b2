/-
An evaluation as the tree of evaluations that it is made of.

To evaluate a node other nodes are evaluated: operands, branches, the
statements of a block, the body of a function that is called. Each of
these is a `Visit`, with its outcome and with the visits made for it, in
their order. The depth of the tree is the depth of the recursion
(`Visit.depth`), and its nodes are all that was reached (`Visit.all`).

The evaluator here gives the tree beside the outcome. It is the same
evaluator otherwise: without the tree its runs are those of `Node.run`
(`Node.run_of_visited`).

# What counts as a visit

Every expression, statement and block that is evaluated. The statements
of a block are visited one after the other by the block, and the
arguments of a call by the call, so a long block is not a deep one. The
body of a function is visited by the call that runs it.
-/
import Scriptlet.Proofs.Eval.Parallel

namespace Scriptlet

-- ============================================================== visits

/-- The evaluation of a node: what it ended in, and the evaluations that
it made, the first one first. -/
structure Visit where
  node : Node
  outcome : Outcome
  inner : List Visit

mutual

/-- How deep visits nest. -/
def Visit.depth : Visit → Nat
  | ⟨_, _, inner⟩ => Visit.depthAll inner + 1

/-- The deepest of several. -/
def Visit.depthAll : List Visit → Nat
  | [] => 0
  | v :: vs => max v.depth (Visit.depthAll vs)

end

mutual

/-- The visit and all visits inside it. -/
def Visit.all : Visit → List Visit
  | ⟨node, outcome, inner⟩ => ⟨node, outcome, inner⟩ :: Visit.allOf inner

/-- All visits of several. -/
def Visit.allOf : List Visit → List Visit
  | [] => []
  | v :: vs => v.all ++ Visit.allOf vs

end

namespace Visit

/-- Of two lists the deeper one counts. -/
theorem depthAll_append (vs ws : List Visit) :
    depthAll (vs ++ ws) = max (depthAll vs) (depthAll ws) := by
  induction vs with
  | nil => simp [depthAll]
  | cons v vs ih => rw [List.cons_append, depthAll, depthAll, ih, Nat.max_assoc]

/-- The visits of two lists, in order. -/
theorem allOf_append (vs ws : List Visit) :
    allOf (vs ++ ws) = allOf vs ++ allOf ws := by
  induction vs with
  | nil => rfl
  | cons v vs ih => rw [List.cons_append, allOf, allOf, ih, List.append_assoc]

end Visit

-- ================================================================ runs

/-- A run with the visits that it made. -/
abbrev Visited := Option (Outcome × Heap × List Visit)

namespace Visited

/-- The run without its visits. -/
def erase (run : Visited) : Run :=
  run.map fun r => (r.1, r.2.1)

/-- Goes on with the value of a run; a signal ends it as it stands. -/
def onValue (run : Visited) (next : Value → Heap → Visited) : Visited :=
  match run with
  | none => none
  | some (.value v, h, visits) => (next v h).map fun r =>
      (r.1, r.2.1, visits ++ r.2.2)
  | some (.error fault, h, visits) => some (.error fault, h, visits)
  | some (.returned inner, h, visits) => some (.returned inner, h, visits)

/-- Makes one visit of a run, the visits that it made being inside. -/
def of (node : Node) (run : Visited) : Visited :=
  run.map fun r => (r.1, r.2.1, [⟨node, r.1, r.2.2⟩])

/-- A `return` in the run has arrived. -/
def arrived (run : Visited) : Visited :=
  run.map fun r => (r.1.unwrapped, r.2)

end Visited

/-- Runs the body of a function for some arguments. -/
abbrev VisitedCaller := Closure → List Value → Heap → Visited

/-- Calls a value: it has to be a function with as many parameters as
there are arguments. -/
def Value.visitsApply (call : VisitedCaller) (callee : Value)
    (args : List Value) (h : Heap) :
    Visited :=
  match callee with
  | .closure f =>
      if f.params.length = args.length then call f args h
      else some (.error (.wrongArity f.params.length args.length), h, [])
  | other => some (.error (.notAFunction other.kind), h, [])

-- ========================================================== evaluation

mutual

/-- Evaluates an expression and gives the visits inside it. -/
def Expr.visits (call : VisitedCaller) (scope : ScopeId) : Expr → Heap → Visited
  | .ident name, h =>
      match h.lookup scope name with
      | some outcome => some (outcome, h, [])
      | none => some (.error (.unbound name), h, [])
  | .int w, h => some (.value (.int w), h, [])
  | .bool b, h => some (.value (.bool b), h, [])
  | .str s, h => some (.value (.str s), h, [])
  | .unary op e, h =>
      Visited.onValue (.of (.expr e) (e.visits call scope h)) fun v h =>
        some (op.apply v, h, [])
  | .binary op l r, h =>
      Visited.onValue (.of (.expr l) (l.visits call scope h)) fun a h =>
        Visited.onValue (.of (.expr r) (r.visits call scope h)) fun b h =>
          some (op.apply a b, h, [])
  | .cond test yes none, h =>
      Visited.onValue (.of (.expr test) (test.visits call scope h)) fun v h =>
        if v.truthy then .of (.block yes)
          (Stmt.visitsAll call scope yes .null h)
        else some (.null, h, [])
  | .cond test yes (some no), h =>
      Visited.onValue (.of (.expr test) (test.visits call scope h)) fun v h =>
        if v.truthy then .of (.block yes)
          (Stmt.visitsAll call scope yes .null h)
        else .of (.block no) (Stmt.visitsAll call scope no .null h)
  | .fn params body, h =>
      let (f, h) := h.newClosure params body scope
      some (.value (.closure f), h, [])
  | .call callee args, h =>
      Visited.onValue (.of (.expr callee) (callee.visits call scope h))
        fun f h =>
          Expr.visitsArgs call scope f args [] h

/-- The arguments from left to right, and then the call. -/
def Expr.visitsArgs (call : VisitedCaller) (scope : ScopeId) (callee : Value) :
    List Expr → List Value → Heap → Visited
  | [], done, h => callee.visitsApply call done h
  | arg :: args, done, h =>
      Visited.onValue (.of (.expr arg) (arg.visits call scope h)) fun v h =>
        Expr.visitsArgs call scope callee args (done ++ [v]) h

/-- A statement visits the expression in it. -/
def Stmt.visits (call : VisitedCaller) (scope : ScopeId) : Stmt → Heap → Visited
  | .bind name e, h =>
      Visited.onValue (.of (.expr e) (e.visits call scope h)) fun v h =>
        some (.null, h.bind scope name (.value v), [])
  | .ret none, h => some (.returned .null, h, [])
  | .ret (some e), h =>
      Visited.onValue (.of (.expr e) (e.visits call scope h)) fun v h =>
        some (.returned (.value v), h, [])
  | .expr e, h => .of (.expr e) (e.visits call scope h)

/-- The statements up to the first signal, each with its visit. -/
def Stmt.visitsAll (call : VisitedCaller) (scope : ScopeId) :
    List Stmt → Value → Heap → Visited
  | [], last, h => some (.value last, h, [])
  | s :: ss, _, h =>
      Visited.onValue (.of (.stmt s) (s.visits call scope h)) fun v h =>
        Stmt.visitsAll call scope ss v h

end

/-- A call of a function visits its body, one call less deep. -/
def Closure.visits : (limit : Nat) → VisitedCaller
  | 0, _, _, _ => none
  | limit + 1, f, args, h =>
      let (scope, h) := f.enter (args.map .value) h
      .arrived (.of (.block f.body)
        (Stmt.visitsAll (Closure.visits limit) scope f.body .null h))

/-- Evaluates a node and gives the visits inside it. -/
def Node.visits (limit : Nat) (scope : ScopeId) : Node → Heap → Visited
  | .program p, h =>
      .arrived (Stmt.visitsAll (Closure.visits limit) scope p .null h)
  | .stmt s, h => s.visits (Closure.visits limit) scope h
  | .block body, h => Stmt.visitsAll (Closure.visits limit) scope body .null h
  | .expr e, h => e.visits (Closure.visits limit) scope h

/-- Evaluates a node and gives the evaluation as a visit. -/
def Node.visited (limit : Nat) (scope : ScopeId) (node : Node) (h : Heap) :
    Option (Visit × Heap) :=
  (node.visits limit scope h).map fun r => (⟨node, r.1, r.2.2⟩, r.2.1)

-- ============================================================= erasure

namespace Visited

/-- Recording a visit changes nothing else. -/
private theorem erase_of (node : Node) (run : Visited) :
    (of node run).erase = run.erase := by
  unfold of erase
  rw [Option.map_map]
  rfl

/-- Leaving a call takes the signal off, with visits or without. -/
private theorem erase_arrived (run : Visited) :
    run.arrived.erase = run.erase.map fun r => (r.1.unwrapped, r.2) := by
  unfold arrived erase
  rw [Option.map_map, Option.map_map]
  rfl

/-- To visit a node and go on with its value is to evaluate it and go on
with its value. -/
private theorem erase_onValue {node : Node} {run : Visited} {run' : Run}
    {next : Value → Heap → Visited} {next' : Value → Heap → Run}
    (same : run.erase = run')
    (same_next : ∀ v h, (next v h).erase = next' v h) :
    (onValue (of node run) next).erase = Run.onValue run' next' := by
  subst same
  cases run with
  | none => rfl
  | some r =>
      obtain ⟨outcome, h, visits⟩ := r
      cases outcome with
      | value v =>
          show erase ((next v h).map _) = next' v h
          rw [← same_next, erase, erase, Option.map_map]
          rfl
      | error fault => rfl
      | returned inner => rfl

end Visited

/-- A caller with visits that runs functions as a plain one does. -/
def VisitedCaller.Agrees (call : VisitedCaller) (plain : Caller) : Prop :=
  ∀ f args h, (call f args h).erase = plain f args h

/-- An application, as far as the callers agree. -/
private theorem Value.erase_visitsApply {call : VisitedCaller} {plain : Caller}
    (agrees : call.Agrees plain) (callee : Value) (args : List Value)
    (h : Heap) :
    (callee.visitsApply call args h).erase = callee.applyTo plain args h := by
  cases callee with
  | closure f =>
      simp only [Value.visitsApply, Value.applyTo]
      split
      · exact agrees f args h
      · rfl
  | int | bool | str | null => rfl

section Erasure

variable {call : VisitedCaller} {plain : Caller}

mutual

/-- Without its visits the evaluation is the evaluator's, rule by rule. -/
theorem Expr.erase_visits (agrees : call.Agrees plain) (scope : ScopeId) :
    (e : Expr) → (h : Heap) →
    (e.visits call scope h).erase = e.eval plain scope h
  | .ident name, h => by
      rw [Expr.visits, Expr.eval]
      cases h.lookup scope name with
      | some outcome => rfl
      | none => rfl
  | .int _, _ => rfl
  | .bool _, _ => rfl
  | .str _, _ => rfl
  | .unary op e, h => by
      rw [Expr.visits, Expr.eval]
      exact Visited.erase_onValue (e.erase_visits agrees scope h) fun _ _ => rfl
  | .binary op l r, h => by
      rw [Expr.visits, Expr.eval]
      refine Visited.erase_onValue (l.erase_visits agrees scope h) fun a h => ?_
      exact Visited.erase_onValue (r.erase_visits agrees scope h) fun _ _ => rfl
  | .cond test yes none, h => by
      rw [Expr.visits, Expr.eval]
      refine Visited.erase_onValue (test.erase_visits agrees scope h)
        fun v h => ?_
      split
      · rw [Visited.erase_of]
        exact Stmt.erase_visitsAll agrees scope yes .null h
      · rfl
  | .cond test yes (some no), h => by
      rw [Expr.visits, Expr.eval]
      refine Visited.erase_onValue (test.erase_visits agrees scope h)
        fun v h => ?_
      split
      · rw [Visited.erase_of]
        exact Stmt.erase_visitsAll agrees scope yes .null h
      · rw [Visited.erase_of]
        exact Stmt.erase_visitsAll agrees scope no .null h
  | .fn _ _, _ => rfl
  | .call callee args, h => by
      rw [Expr.visits, Expr.eval]
      refine Visited.erase_onValue (callee.erase_visits agrees scope h)
        fun f h => ?_
      exact Expr.erase_visitsArgs agrees scope f args [] h

theorem Expr.erase_visitsArgs (agrees : call.Agrees plain) (scope : ScopeId)
    (callee : Value) :
    (args : List Expr) → (done : List Value) → (h : Heap) →
    (Expr.visitsArgs call scope callee args done h).erase
      = Expr.evalArgs plain scope callee args done h
  | [], done, h => by
      rw [Expr.visitsArgs, Expr.evalArgs]
      exact Value.erase_visitsApply agrees callee done h
  | arg :: args, done, h => by
      rw [Expr.visitsArgs, Expr.evalArgs]
      refine Visited.erase_onValue (arg.erase_visits agrees scope h)
        fun v h => ?_
      exact Expr.erase_visitsArgs agrees scope callee args (done ++ [v]) h

theorem Stmt.erase_visits (agrees : call.Agrees plain) (scope : ScopeId) :
    (s : Stmt) → (h : Heap) →
    (s.visits call scope h).erase = s.eval plain scope h
  | .bind name e, h => by
      rw [Stmt.visits, Stmt.eval]
      exact Visited.erase_onValue (e.erase_visits agrees scope h) fun _ _ => rfl
  | .ret none, _ => rfl
  | .ret (some e), h => by
      rw [Stmt.visits, Stmt.eval]
      exact Visited.erase_onValue (e.erase_visits agrees scope h) fun _ _ => rfl
  | .expr e, h => by
      rw [Stmt.visits, Stmt.eval, Visited.erase_of]
      exact e.erase_visits agrees scope h

theorem Stmt.erase_visitsAll (agrees : call.Agrees plain) (scope : ScopeId) :
    (ss : List Stmt) → (last : Value) → (h : Heap) →
    (Stmt.visitsAll call scope ss last h).erase
      = Stmt.evalAll plain scope ss last h
  | [], _, _ => rfl
  | s :: ss, _, h => by
      rw [Stmt.visitsAll, Stmt.evalAll]
      refine Visited.erase_onValue (s.erase_visits agrees scope h) fun v h => ?_
      exact Stmt.erase_visitsAll agrees scope ss v h

end

end Erasure

/-- Calls agree under every limit. -/
theorem Closure.visits_agrees (limit : Nat) :
    VisitedCaller.Agrees (Closure.visits limit) (Closure.call limit) := by
  induction limit with
  | zero => exact fun _ _ _ => rfl
  | succ limit ih =>
      intro f args h
      rw [Closure.visits, Closure.call_eq_map, Visited.erase_arrived,
        Visited.erase_of, Stmt.erase_visitsAll ih]

/-- The same for every kind of node. -/
theorem Node.erase_visits (limit : Nat) (scope : ScopeId) (node : Node)
    (h : Heap) :
    (node.visits limit scope h).erase = node.run limit scope h := by
  have agrees := Closure.visits_agrees limit
  cases node with
  | program p =>
      rw [Node.visits, Visited.erase_arrived, Stmt.erase_visitsAll agrees,
        Node.run, Program.run, Program.runFrom_eq_map]
  | stmt s => exact s.erase_visits agrees scope h
  | block body => exact Stmt.erase_visitsAll agrees scope body .null h
  | expr e => exact e.erase_visits agrees scope h

/-- Without its visits an evaluation is the evaluation. -/
theorem Node.run_of_visited (limit : Nat) (scope : ScopeId) (node : Node)
    (h : Heap) :
    node.run limit scope h
      = (node.visited limit scope h).map fun r => (r.1.outcome, r.2) := by
  rw [← Node.erase_visits, Node.visited, Option.map_map]
  rfl

end Scriptlet
