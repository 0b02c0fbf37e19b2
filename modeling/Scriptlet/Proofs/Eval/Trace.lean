/-
Evaluation with a record of what happens on the way.

`Expr.eval` shows only how an evaluation ends. Some questions are about
the way: what an operator was given, what a call was made with and what
it gave, what was bound where, which outcomes came up and went under
again. The evaluator here answers them. It keeps a list of events beside
the outcome and the heap, and it is the same evaluator otherwise: without
the events its runs are those of `Expr.eval` (`Node.erase_traced`).

# Nothing is excluded by type

In `Expr.eval` operators and calls take values, so a signal cannot reach
them. Here they take outcomes. A rule evaluates a part, looks whether its
outcome is a signal and stops if it is (`Traced.propagate`); otherwise
the outcome goes on as it is, and the event records it as it is. What an
operator or a call makes of a signal is therefore a question with an
answer, if an arbitrary one: it is passed on. That no operator and no
call is ever given one is then something to prove.
-/
import Scriptlet.Program.Run

namespace Scriptlet

-- =============================================================== nodes

/-- What can be evaluated. -/
inductive Node where
  | program (p : Program)
  | stmt (s : Stmt)
  | block (body : Block)
  | expr (e : Expr)

/-- Evaluates a node in a scope, with calls nested at most `limit`
deep. -/
def Node.run (limit : Nat) (scope : ScopeId) : Node → Heap → Run
  | .program p, h => p.run limit scope h
  | .stmt s, h => s.eval (Closure.call limit) scope h
  | .block body, h => Block.run limit scope body h
  | .expr e, h => e.eval (Closure.call limit) scope h

-- ============================================================== events

/-- What happens in an evaluation. -/
inductive Event where
  /-- An operator is given its operand. -/
  | unary (op : UnaryOp) (operand : Outcome)
  /-- An operator is given its operands. -/
  | binary (op : BinaryOp) (left right : Outcome)
  /-- Something is called with some arguments. -/
  | call (callee : Outcome) (args : List Outcome)
  /-- A call gives an outcome. -/
  | result (outcome : Outcome)
  /-- A name is bound in a scope. -/
  | bind (scope : ScopeId) (name : String) (outcome : Outcome)
  /-- The evaluation of an expression or a statement ends. -/
  | ended (outcome : Outcome)

/-- A run with its events, the first one first. -/
abbrev Traced := Option (Outcome × Heap × List Event)

namespace Traced

/-- The run without its events. -/
def erase (run : Traced) : Run :=
  run.map fun r => (r.1, r.2.1)

/-- Puts events before those of the run. -/
def after (log : List Event) (run : Traced) : Traced :=
  run.map fun r => (r.1, r.2.1, log ++ r.2.2)

/-- Goes on with an outcome unless it is a signal. -/
def propagate (run : Traced) (next : Outcome → Heap → Traced) : Traced :=
  match run with
  | none => none
  | some (outcome, h, log) =>
      if outcome.isSignal then some (outcome, h, log)
      else after log (next outcome h)

/-- Records how the run ended. -/
def ended (run : Traced) : Traced :=
  run.map fun r => (r.1, r.2.1, r.2.2 ++ [.ended r.1])

end Traced

/-- What a unary operator makes of any outcome. -/
def UnaryOp.applyAny (op : UnaryOp) : Outcome → Outcome
  | .value v => op.apply v
  | signal => signal

/-- What a binary operator makes of any outcomes. -/
def BinaryOp.applyAny (op : BinaryOp) : Outcome → Outcome → Outcome
  | .value a, .value b => op.apply a b
  | .value _, signal => signal
  | signal, _ => signal

/-- Runs the body of a function for some arguments. -/
abbrev TracedCaller := Closure → List Outcome → Heap → Traced

/-- Calls any outcome with any arguments. -/
def Outcome.applyAny (call : TracedCaller) (callee : Outcome)
    (args : List Outcome) (h : Heap) :
    Traced :=
  match callee with
  | .value (.closure f) =>
      if f.params.length = args.length then call f args h
      else some (.error (.wrongArity f.params.length args.length), h, [])
  | .value other => some (.error (.notAFunction other.kind), h, [])
  | signal => some (signal, h, [])

/-- Calls, and records the call and what it gives. -/
def Outcome.tracedApply (call : TracedCaller) (callee : Outcome)
    (args : List Outcome) (h : Heap) :
    Traced :=
  (callee.applyAny call args h).map fun r =>
    (r.1, r.2.1, .call callee args :: r.2.2 ++ [.result r.1])

-- ========================================================== evaluation

mutual

/-- An expression. Every way out of it is an event of its own, so the log
says in which order evaluations end. -/
def Expr.traced (call : TracedCaller) (scope : ScopeId) : Expr → Heap → Traced
  | .ident name, h =>
      match h.lookup scope name with
      | some outcome => Traced.ended (some (outcome, h, []))
      | none => Traced.ended (some (.error (.unbound name), h, []))
  | .int w, h => Traced.ended (some (.value (.int w), h, []))
  | .bool b, h => Traced.ended (some (.value (.bool b), h, []))
  | .str s, h => Traced.ended (some (.value (.str s), h, []))
  | .unary op e, h =>
      Traced.ended <| Traced.propagate (e.traced call scope h) fun a h =>
        some (op.applyAny a, h, [.unary op a])
  | .binary op l r, h =>
      Traced.ended <| Traced.propagate (l.traced call scope h) fun a h =>
        Traced.propagate (r.traced call scope h) fun b h =>
          some (op.applyAny a b, h, [.binary op a b])
  | .cond test yes none, h =>
      Traced.ended <| Traced.propagate (test.traced call scope h) fun a h =>
        if a.truthy then Stmt.tracedAll call scope yes .null h
        else some (.null, h, [])
  | .cond test yes (some no), h =>
      Traced.ended <| Traced.propagate (test.traced call scope h) fun a h =>
        if a.truthy then Stmt.tracedAll call scope yes .null h
        else Stmt.tracedAll call scope no .null h
  | .fn params body, h =>
      let (f, h) := h.newClosure params body scope
      Traced.ended (some (.value (.closure f), h, []))
  | .call callee args, h =>
      Traced.ended <| Traced.propagate (callee.traced call scope h) fun f h =>
        Expr.tracedArgs call scope f args [] h

/-- The arguments from left to right, and then the call. -/
def Expr.tracedArgs (call : TracedCaller) (scope : ScopeId) (callee : Outcome) :
    List Expr → List Outcome → Heap → Traced
  | [], done, h => callee.tracedApply call done h
  | arg :: args, done, h =>
      Traced.propagate (arg.traced call scope h) fun a h =>
        Expr.tracedArgs call scope callee args (done ++ [a]) h

/-- A statement, and the event of what it ends in. -/
def Stmt.traced (call : TracedCaller) (scope : ScopeId) : Stmt → Heap → Traced
  | .bind name e, h =>
      Traced.ended <| Traced.propagate (e.traced call scope h) fun a h =>
        some (.null, h.bind scope name a, [.bind scope name a])
  | .ret none, h => Traced.ended (some (.returned .null, h, []))
  | .ret (some e), h =>
      Traced.ended <| Traced.propagate (e.traced call scope h) fun a h =>
        some (.returned a, h, [])
  | .expr e, h => Traced.ended (e.traced call scope h)

def Stmt.tracedAll (call : TracedCaller) (scope : ScopeId) :
    List Stmt → Outcome → Heap → Traced
  | [], last, h => some (last, h, [])
  | s :: ss, _, h =>
      Traced.propagate (s.traced call scope h) fun a h =>
        Stmt.tracedAll call scope ss a h

end

/-- The events of binding parameters. -/
def bindEvents (scope : ScopeId) (bound : List (String × Outcome)) :
    List Event :=
  bound.map fun entry => .bind scope entry.1 entry.2

/-- The scope in which the body of a function runs, and the heap with
that scope in it. -/
def Closure.enter (f : Closure) (args : List Outcome) (h : Heap) :
    ScopeId × Heap :=
  let (scope, h) := h.newScope (some f.scope)
  (scope, h.bindAll scope (f.params.zip args))

/-- A call, unfolded once: the body in a scope of its own, without the
signal of a `return`. -/
theorem Closure.call_succ (limit : Nat) (f : Closure) (args : List Value)
    (h : Heap) :
    Closure.call (limit + 1) f args h =
      let (scope, h) := f.enter (args.map .value) h
      match Stmt.evalAll (Closure.call limit) scope f.body .null h with
      | none => none
      | some (outcome, h) => some (outcome.unwrapped, h) := rfl

/-- A call of a function with its events: the arguments are bound, then
comes what the body does. -/
def Closure.traced : (limit : Nat) → TracedCaller
  | 0, _, _, _ => none
  | limit + 1, f, args, h =>
      let (scope, h) := f.enter args h
      match Stmt.tracedAll (Closure.traced limit) scope f.body
        (.value .null) h with
      | none => none
      | some (outcome, h, log) =>
          some (outcome.unwrapped, h,
            bindEvents scope (f.params.zip args) ++ log)

/-- The statements of a program in order. Unlike a block a program takes the
signal of a `return` off. -/
def Program.tracedFrom (call : TracedCaller) (scope : ScopeId) :
    Program → Outcome → Heap → Traced
  | [], last, h => some (last, h, [])
  | s :: ss, _, h =>
      match s.traced call scope h with
      | none => none
      | some (.value v, h, log) =>
          Traced.after log (Program.tracedFrom call scope ss (.value v) h)
      | some (.error fault, h, log) => some (.error fault, h, log)
      | some (.returned inner, h, log) => some (inner, h, log)

/-- Evaluates a node and records the events. -/
def Node.traced (limit : Nat) (scope : ScopeId) : Node → Heap → Traced
  | .program p, h => Program.tracedFrom (Closure.traced limit) scope p .null h
  | .stmt s, h => s.traced (Closure.traced limit) scope h
  | .block body, h => Stmt.tracedAll (Closure.traced limit) scope body .null h
  | .expr e, h => e.traced (Closure.traced limit) scope h

-- ============================================================= erasure

namespace Traced

/-- Earlier events are no part of the run. -/
private theorem erase_after (log : List Event) (run : Traced) :
    (after log run).erase = run.erase := by
  unfold after erase
  rw [Option.map_map]
  rfl

/-- Nor is the event at its end. -/
private theorem erase_ended (run : Traced) : run.ended.erase = run.erase := by
  unfold ended erase
  rw [Option.map_map]
  rfl

/-- To test for a signal and go on with the outcome is to go on with the
value. -/
private theorem erase_propagate {run : Traced} {run' : Run}
    {next : Outcome → Heap → Traced} {next' : Value → Heap → Run}
    (same : run.erase = run')
    (same_next : ∀ v h, (next (.value v) h).erase = next' v h) :
    (propagate run next).erase = Run.onValue run' next' := by
  subst same
  cases run with
  | none => rfl
  | some r =>
      obtain ⟨outcome, h, log⟩ := r
      cases outcome with
      | value v =>
          show (after log (next (.value v) h)).erase = next' v h
          rw [erase_after, same_next]
      | error fault => rfl
      | returned inner => rfl

end Traced

/-- A traced caller that runs functions as a plain one does. -/
def TracedCaller.Agrees (call : TracedCaller) (plain : Caller) : Prop :=
  ∀ f args h, (call f (args.map .value) h).erase = plain f args h

/-- An application, as far as the callers agree. No signal ever comes this
far, which is why values are enough here. -/
private theorem Outcome.erase_tracedApply {call : TracedCaller} {plain : Caller}
    (agrees : call.Agrees plain) (callee : Value) (args : List Value)
    (h : Heap) :
    (Outcome.tracedApply call (.value callee) (args.map .value) h).erase
      = callee.applyTo plain args h := by
  have erased : (Outcome.tracedApply call (.value callee)
      (args.map .value) h).erase
      = (Outcome.applyAny call (.value callee) (args.map .value) h).erase := by
    unfold Outcome.tracedApply Traced.erase
    rw [Option.map_map]
    rfl
  rw [erased]
  cases callee with
  | closure f =>
      simp only [Outcome.applyAny, Value.applyTo, List.length_map]
      split
      · exact agrees f args h
      · rfl
  | int | bool | str | null => rfl

mutual

/-- Without its events the evaluation is the evaluator's, rule by rule. -/
theorem Expr.erase_traced {call : TracedCaller} {plain : Caller}
    (agrees : call.Agrees plain) (scope : ScopeId) : (e : Expr) → (h : Heap) →
    (e.traced call scope h).erase = e.eval plain scope h
  | .ident name, h => by
      rw [Expr.traced, Expr.eval]
      cases h.lookup scope name with
      | some outcome => rfl
      | none => rfl
  | .int _, _ => rfl
  | .bool _, _ => rfl
  | .str _, _ => rfl
  | .unary op e, h => by
      rw [Expr.traced, Expr.eval, Traced.erase_ended]
      exact Traced.erase_propagate (Expr.erase_traced agrees scope e h)
        fun _ _ => rfl
  | .binary op l r, h => by
      rw [Expr.traced, Expr.eval, Traced.erase_ended]
      refine Traced.erase_propagate (Expr.erase_traced agrees scope l h)
        fun a h => ?_
      exact Traced.erase_propagate (Expr.erase_traced agrees scope r h)
        fun _ _ => rfl
  | .cond test yes none, h => by
      rw [Expr.traced, Expr.eval, Traced.erase_ended]
      refine Traced.erase_propagate (Expr.erase_traced agrees scope test h)
        fun v h => ?_
      show (if v.truthy then _ else _ : Traced).erase = _
      split
      · exact Stmt.erase_tracedAll agrees scope yes .null h
      · rfl
  | .cond test yes (some no), h => by
      rw [Expr.traced, Expr.eval, Traced.erase_ended]
      refine Traced.erase_propagate (Expr.erase_traced agrees scope test h)
        fun v h => ?_
      show (if v.truthy then _ else _ : Traced).erase = _
      split
      · exact Stmt.erase_tracedAll agrees scope yes .null h
      · exact Stmt.erase_tracedAll agrees scope no .null h
  | .fn _ _, _ => rfl
  | .call callee args, h => by
      rw [Expr.traced, Expr.eval, Traced.erase_ended]
      refine Traced.erase_propagate (Expr.erase_traced agrees scope callee h)
        fun f h => ?_
      exact Expr.erase_tracedArgs agrees scope f args [] h

theorem Expr.erase_tracedArgs {call : TracedCaller} {plain : Caller}
    (agrees : call.Agrees plain) (scope : ScopeId) (callee : Value) :
    (args : List Expr) → (done : List Value) → (h : Heap) →
    (Expr.tracedArgs call scope (.value callee) args (done.map .value) h).erase
      = Expr.evalArgs plain scope callee args done h
  | [], done, h => by
      rw [Expr.tracedArgs, Expr.evalArgs]
      exact Outcome.erase_tracedApply agrees callee done h
  | arg :: args, done, h => by
      rw [Expr.tracedArgs, Expr.evalArgs]
      refine Traced.erase_propagate (Expr.erase_traced agrees scope arg h)
        fun v h => ?_
      have appended : done.map Outcome.value ++ [.value v]
          = (done ++ [v]).map .value := by
        rw [List.map_append]
        rfl
      rw [appended]
      exact Expr.erase_tracedArgs agrees scope callee args (done ++ [v]) h

theorem Stmt.erase_traced {call : TracedCaller} {plain : Caller}
    (agrees : call.Agrees plain) (scope : ScopeId) : (s : Stmt) → (h : Heap) →
    (s.traced call scope h).erase = s.eval plain scope h
  | .bind name e, h => by
      rw [Stmt.traced, Stmt.eval, Traced.erase_ended]
      exact Traced.erase_propagate (Expr.erase_traced agrees scope e h)
        fun _ _ => rfl
  | .ret none, _ => rfl
  | .ret (some e), h => by
      rw [Stmt.traced, Stmt.eval, Traced.erase_ended]
      exact Traced.erase_propagate (Expr.erase_traced agrees scope e h)
        fun _ _ => rfl
  | .expr e, h => by
      rw [Stmt.traced, Stmt.eval, Traced.erase_ended]
      exact Expr.erase_traced agrees scope e h

theorem Stmt.erase_tracedAll {call : TracedCaller} {plain : Caller}
    (agrees : call.Agrees plain) (scope : ScopeId) :
    (ss : List Stmt) → (last : Value) → (h : Heap) →
    (Stmt.tracedAll call scope ss (.value last) h).erase
      = Stmt.evalAll plain scope ss last h
  | [], _, _ => rfl
  | s :: ss, _, h => by
      rw [Stmt.tracedAll, Stmt.evalAll]
      exact Traced.erase_propagate
        (Stmt.erase_traced agrees scope s h) fun v h =>
          Stmt.erase_tracedAll agrees scope ss v h

end

theorem Program.erase_tracedFrom {call : TracedCaller} {plain : Caller}
    (agrees : call.Agrees plain) (scope : ScopeId) (p : Program) (last : Value)
    (h : Heap) :
    (Program.tracedFrom call scope p (.value last) h).erase
      = Program.runFrom plain scope p last h := by
  induction p generalizing last h with
  | nil => rfl
  | cons s ss ih =>
      rw [Program.tracedFrom, Program.runFrom,
        ← Stmt.erase_traced agrees scope s h]
      cases s.traced call scope h with
      | none => rfl
      | some r =>
          obtain ⟨outcome, h, log⟩ := r
          cases outcome with
          | value v =>
              show (Traced.after log _).erase = _
              rw [Traced.erase_after]
              exact ih v h
          | error fault => rfl
          | returned inner => rfl

/-- Calls agree under every limit. -/
theorem Closure.traced_agrees (limit : Nat) :
    TracedCaller.Agrees (Closure.traced limit) (Closure.call limit) := by
  induction limit with
  | zero => exact fun _ _ _ => rfl
  | succ limit ih =>
      intro f args h
      rw [Closure.traced, Closure.call_succ]
      dsimp only
      rw [← Stmt.erase_tracedAll ih]
      cases Stmt.tracedAll (Closure.traced limit)
        (f.enter (args.map .value) h).1 f.body
          (.value .null) (f.enter (args.map .value) h).2 with
      | none => rfl
      | some r => rfl

/-- Without its events a traced evaluation is the evaluation. -/
theorem Node.erase_traced (limit : Nat) (scope : ScopeId) (node : Node)
    (h : Heap) :
    (node.traced limit scope h).erase = node.run limit scope h := by
  have agrees := Closure.traced_agrees limit
  cases node with
  | program p => exact Program.erase_tracedFrom agrees scope p .null h
  | stmt s => exact Stmt.erase_traced agrees scope s h
  | block body => exact Stmt.erase_tracedAll agrees scope body .null h
  | expr e => exact Expr.erase_traced agrees scope e h

/-- What a run ends in, the traced run ends in too, with some events. -/
private theorem Traced.exists_log {run : Traced} {outcome : Outcome} {h : Heap}
    (erased : run.erase = some (outcome, h)) :
    ∃ log, run = some (outcome, h, log) := by
  obtain ⟨r, eq, same⟩ := Option.map_eq_some_iff.1 erased
  cases same
  exact ⟨r.2.2, eq⟩

/-- So every evaluation has its events. -/
theorem Node.exists_log {limit : Nat} {scope : ScopeId} {node : Node}
    {h h' : Heap} {outcome : Outcome}
    (run : node.run limit scope h = some (outcome, h')) :
    ∃ log, node.traced limit scope h = some (outcome, h', log) := by
  apply Traced.exists_log
  rw [Node.erase_traced, run]

/-- And so does every call. -/
theorem Value.exists_log {limit : Nat} {callee : Value} {args : List Value}
    {h h' : Heap} {outcome : Outcome}
    (run : callee.applyTo (Closure.call limit) args h = some (outcome, h')) :
    ∃ log, Outcome.tracedApply (Closure.traced limit) (.value callee)
        (args.map .value) h
      = some (outcome, h', log) := by
  apply Traced.exists_log
  rw [Outcome.erase_tracedApply (Closure.traced_agrees limit), run]

end Scriptlet
