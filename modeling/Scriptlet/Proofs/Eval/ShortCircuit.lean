/-
A signal goes straight out.

An error or a `return` that comes up somewhere inside an expression ends
everything around it: what stands around gives the same signal and the
same heap, and nothing else is evaluated, bound or called on the way out.

# Where evaluation is

`Frame` says which part of a node is evaluated next, and what was
evaluated before it: one constructor for each place where an evaluation
waits for a part. The earlier parts have run and given values, and the
frame holds the heaps before and behind them and their events. A
`Context` is frames within frames. Scopes do not change on the way: only
a call enters another one, and a call does not pass a `return` on.

# The record

Beside outcome and heap the statements speak about the events of
`Node.traced`. What is left out cannot be seen in an outcome, and not
always in a heap; it can in the events: those of the whole are those of
the earlier parts, those of the part where the signal came up, and
nothing but the ends of what stands around. To ask for the events of the
earlier parts is no more than to ask that they run, as every run has its
events (`Node.exists_log`).
-/
import Scriptlet.Proofs.Eval.Trace

namespace Scriptlet

-- ============================================================ contexts

/-- Nodes evaluated one after the other, each to a value. -/
inductive Passes (limit : Nat) (scope : ScopeId) :
    List Node → Heap → Heap → List Event → Prop where
  | nil {h : Heap} : Passes limit scope [] h h []
  | cons {node : Node} {nodes : List Node} {h h₁ h₂ : Heap} {v : Value}
      {log logs : List Event} (first : node.traced limit scope h
        = some (.value v, h₁, log))
      (others : Passes limit scope nodes h₁ h₂ logs) :
      Passes limit scope (node :: nodes) h h₂ (log ++ logs)

/-- `Frame limit scope outer inner h h₁ log`: in the heap `h` the node
`outer` evaluates its part `inner` in the heap `h₁`, after events
`log`. -/
inductive Frame (limit : Nat) (scope : ScopeId) :
    (outer inner : Node) → (h h₁ : Heap) → List Event → Prop where
  | operand {op : UnaryOp} {e : Expr} {h : Heap} :
      Frame limit scope (.expr (.unary op e)) (.expr e) h h []
  | left {op : BinaryOp} {l r : Expr} {h : Heap} :
      Frame limit scope (.expr (.binary op l r)) (.expr l) h h []
  | right {op : BinaryOp} {l r : Expr} {h h₁ : Heap} {v : Value}
      {log : List Event} (left : (Node.expr l).traced limit scope h
        = some (.value v, h₁, log)) :
      Frame limit scope (.expr (.binary op l r)) (.expr r) h h₁ log
  | test {test : Expr} {yes : Block} {no : Option Block} {h : Heap} :
      Frame limit scope (.expr (.cond test yes no)) (.expr test) h h []
  | yes {test : Expr} {yes : Block} {no : Option Block}
      {h h₁ : Heap} {v : Value} {log : List Event}
      (tested : (Node.expr test).traced limit scope h
        = some (.value v, h₁, log))
      (holds : v.truthy = true) :
      Frame limit scope (.expr (.cond test yes no)) (.block yes) h h₁ log
  | no {test : Expr} {yes no : Block} {h h₁ : Heap} {v : Value}
      {log : List Event} (tested : (Node.expr test).traced limit scope h
        = some (.value v, h₁, log))
      (fails : v.truthy = false) :
      Frame limit scope (.expr (.cond test yes (some no))) (.block no) h h₁ log
  | callee {callee : Expr} {args : List Expr} {h : Heap} :
      Frame limit scope (.expr (.call callee args)) (.expr callee) h h []
  | arg {callee a : Expr} {before behind : List Expr}
      {h h₁ h₂ : Heap} {f : Value} {log logs : List Event}
      (called : (Node.expr callee).traced limit scope h
        = some (.value f, h₁, log))
      (earlier : Passes limit scope (before.map .expr) h₁ h₂ logs) :
      Frame limit scope (.expr (.call callee (before ++ a :: behind)))
        (.expr a) h h₂ (log ++ logs)
  | bound {name : String} {e : Expr} {h : Heap} :
      Frame limit scope (.stmt (.bind name e)) (.expr e) h h []
  | returned {e : Expr} {h : Heap} :
      Frame limit scope (.stmt (.ret (some e))) (.expr e) h h []
  | value {e : Expr} {h : Heap} :
      Frame limit scope (.stmt (.expr e)) (.expr e) h h []
  | stmt {s : Stmt} {before behind : List Stmt} {h h₁ : Heap}
      {logs : List Event} (earlier : Passes limit scope
        (before.map .stmt) h h₁ logs) :
      Frame limit scope (.block (before ++ s :: behind)) (.stmt s) h h₁ logs

/-- Frames within frames, the outermost one first. -/
inductive Context (limit : Nat) (scope : ScopeId) :
    (outer inner : Node) → (h h₁ : Heap) → List Event → Prop where
  | hole {node : Node} {h : Heap} : Context limit scope node node h h []
  | inside {outer middle inner : Node} {h h₁ h₂ : Heap} {log logs : List Event}
      (frame : Frame limit scope outer middle h h₁ log)
      (rest : Context limit scope middle inner h₁ h₂ logs) :
      Context limit scope outer inner h h₂ (log ++ logs)

-- ============================================================ one step

namespace Traced

variable {r : Outcome} {h h₁ h' : Heap} {log events : List Event}
    {next : Outcome → Heap → Traced}

private theorem propagate_of_signal (signal : r.isSignal = true) :
    propagate (some (r, h, log)) next = some (r, h, log) :=
  if_pos signal

/-- Behind a value the run that follows decides. -/
private theorem propagate_of_value {v : Value}
    (run : next (.value v) h₁ = some (r, h', events)) :
    propagate (some (.value v, h₁, log)) next
      = some (r, h', log ++ events) := by
  show after log (next (.value v) h₁) = _
  rw [run]
  rfl

private theorem ended_of_eq {run : Traced} (eq : run = some (r, h, log)) :
    run.ended = some (r, h, log ++ List.replicate 1 (.ended r)) := by
  rw [eq]
  rfl

end Traced

section OneStep

variable {limit : Nat} {scope : ScopeId} {h h₁ h' : Heap} {r : Outcome}
    {log logs events : List Event}

/-- A signal from an argument is the outcome of all the arguments. -/
private theorem Expr.tracedArgs_of_signal {before : List Expr} (a : Expr)
    (behind : List Expr) (callee : Outcome)
    (earlier : Passes limit scope (before.map .expr) h h₁ logs)
    (hole : (Node.expr a).traced limit scope h₁ = some (r, h', events))
    (signal : r.isSignal = true) (done : List Outcome) :
    Expr.tracedArgs (Closure.traced limit) scope callee
        (before ++ a :: behind) done h
      = some (r, h', logs ++ events) := by
  induction before generalizing h logs done with
  | nil =>
      cases earlier
      rw [Node.traced] at hole
      rw [List.nil_append, Expr.tracedArgs, hole]
      exact Traced.propagate_of_signal signal
  | cons first before ih =>
      obtain _ | ⟨passed, others⟩ := earlier
      rw [Node.traced] at passed
      rw [List.cons_append, Expr.tracedArgs, passed, List.append_assoc]
      exact Traced.propagate_of_value (ih others _)

/-- A signal from a statement is the outcome of all the statements. -/
private theorem Stmt.tracedAll_of_signal {before : List Stmt} (s : Stmt)
    (behind : List Stmt) (earlier : Passes limit scope
      (before.map .stmt) h h₁ logs)
    (hole : (Node.stmt s).traced limit scope h₁ = some (r, h', events))
    (signal : r.isSignal = true) (last : Outcome) :
    Stmt.tracedAll (Closure.traced limit) scope (before ++ s :: behind) last h
      = some (r, h', logs ++ events) := by
  induction before generalizing h logs last with
  | nil =>
      cases earlier
      rw [Node.traced] at hole
      rw [List.nil_append, Stmt.tracedAll, hole]
      exact Traced.propagate_of_signal signal
  | cons first before ih =>
      obtain _ | ⟨passed, others⟩ := earlier
      rw [Node.traced] at passed
      rw [List.cons_append, Stmt.tracedAll, passed, List.append_assoc]
      exact Traced.propagate_of_value (ih others _)

/-- A conditional with or without an `else` branch. -/
private theorem Expr.traced_cond (call : TracedCaller) (test : Expr)
    (yes : Block) (no : Option Block) :
    (Expr.cond test yes no).traced call scope h =
      Traced.ended (Traced.propagate (test.traced call scope h) fun a h =>
        if a.truthy then Stmt.tracedAll call scope yes .null h
        else no.elim (some (.null, h, [])) fun no =>
          Stmt.tracedAll call scope no .null h) := by
  cases no with
  | none => rw [Expr.traced]; rfl
  | some no => rw [Expr.traced]; rfl

/-- A node passes on the signal of the part it waits for, and all that
still happens is that it ends. -/
theorem Frame.traced_of_signal {outer inner : Node}
    (frame : Frame limit scope outer inner h h₁ log)
    (hole : inner.traced limit scope h₁ = some (r, h', events))
    (signal : r.isSignal = true) :
    ∃ n, outer.traced limit scope h
      = some (r, h', log ++ events ++ List.replicate n (.ended r)) := by
  cases frame with
  | operand | left | callee | bound | returned =>
      rw [Node.traced] at hole
      refine ⟨1, Traced.ended_of_eq ?_⟩
      rw [hole]
      exact Traced.propagate_of_signal signal
  | value =>
      exact ⟨1, Traced.ended_of_eq hole⟩
  | right passed =>
      rw [Node.traced] at passed hole
      refine ⟨1, Traced.ended_of_eq ?_⟩
      rw [passed]
      refine Traced.propagate_of_value ?_
      rw [hole]
      exact Traced.propagate_of_signal signal
  | test =>
      rw [Node.traced] at hole
      rw [Node.traced, Expr.traced_cond, hole]
      exact ⟨1, Traced.ended_of_eq (Traced.propagate_of_signal signal)⟩
  | yes tested holds =>
      rw [Node.traced] at tested
      rw [Node.traced, Expr.traced_cond, tested]
      refine ⟨1, Traced.ended_of_eq (Traced.propagate_of_value ?_)⟩
      exact (if_pos holds).trans hole
  | no tested fails =>
      rw [Node.traced] at tested
      rw [Node.traced, Expr.traced_cond, tested]
      refine ⟨1, Traced.ended_of_eq (Traced.propagate_of_value ?_)⟩
      exact (if_neg (Bool.eq_false_iff.1 fails)).trans hole
  | arg called earlier =>
      rw [Node.traced] at called
      refine ⟨1, Traced.ended_of_eq ?_⟩
      rw [called, List.append_assoc]
      exact Traced.propagate_of_value
        (Expr.tracedArgs_of_signal _ _ _ earlier hole signal [])
  | stmt earlier =>
      refine ⟨0, ?_⟩
      rw [List.replicate_zero, List.append_nil]
      exact Stmt.tracedAll_of_signal _ _ earlier hole signal .null

end OneStep

-- ============================================================= results

/-- A signal goes out through frames within frames. -/
theorem Context.traced_of_signal {limit : Nat} {scope : ScopeId}
    {outer inner : Node} {h h₁ h' : Heap} {r : Outcome}
    {before events : List Event}
    (context : Context limit scope outer inner h h₁ before)
    (hole : inner.traced limit scope h₁ = some (r, h', events))
    (signal : r.isSignal = true) :
    ∃ n, outer.traced limit scope h
      = some (r, h', before ++ events ++ List.replicate n (.ended r)) := by
  induction context with
  | hole => exact ⟨0, by simpa using hole⟩
  | inside frame rest ih =>
      obtain ⟨n, middle⟩ := ih hole
      obtain ⟨m, whole⟩ := frame.traced_of_signal middle signal
      refine ⟨n + m, ?_⟩
      rw [whole, ← List.replicate_append_replicate]
      simp only [List.append_assoc]

/-- A signal goes straight out. Where the part a context leads to gives
an error or a `return`, the whole gives the same one and leaves the same
heap. Its events are those of the parts evaluated before and those of
that part, and behind them there are only ends: nothing is evaluated,
bound or called on the way out. -/
theorem Context.run_of_signal {limit : Nat} {scope : ScopeId}
    {outer inner : Node} {h h₁ h' : Heap} {r : Outcome} {before : List Event}
    (context : Context limit scope outer inner h h₁ before)
    (hole : inner.run limit scope h₁ = some (r, h'))
    (signal : r.isSignal = true) :
    outer.run limit scope h = some (r, h')
    ∧ ∃ events n, inner.traced limit scope h₁ = some (r, h', events)
        ∧ outer.traced limit scope h
          = some (r, h', before ++ events ++ List.replicate n (.ended r)) := by
  obtain ⟨events, traced⟩ := Node.exists_log hole
  obtain ⟨n, whole⟩ := context.traced_of_signal traced signal
  refine ⟨?_, events, n, traced, whole⟩
  rw [← Node.erase_traced, whole]
  rfl

/-- A `return` in a branch in an operand in a `let`:
`let x = 1 + if (true) { let y = 2; return y; z };` -/
theorem Context.run_of_signal_return_in_operand :
    let h := (Heap.empty.newScope none).2
    let h₁ := h.bind 0 "y" (.value (.int 2))
    let leave : Stmt := .ret (some (.ident "y"))
    let branch : Block := [.bind "y" (.int 2), leave, .expr (.ident "z")]
    let whole : Node :=
      .stmt (.bind "x" (.binary .add (.int 1) (.cond (.bool true) branch none)))
    (∃ before, Context 0 0 whole (.stmt leave) h h₁ before)
    ∧ (Node.stmt leave).run 0 0 h₁ = some (.returned (.value (.int 2)), h₁)
    ∧ whole.run 0 0 h = some (.returned (.value (.int 2)), h₁) := by
  intro h h₁ leave branch whole
  have bound : Passes 0 0 [.stmt (.bind "y" (.int 2))] h h₁ _ := .cons rfl .nil
  have second : Frame 0 0 (.block
      ([.bind "y" (.int 2)] ++ leave :: [.expr (.ident "z")]))
        (.stmt leave) h h₁ _ := .stmt bound
  have context : Context 0 0 whole (.stmt leave) h h₁ _ :=
    .inside .bound <| .inside (.right rfl) <| .inside (.yes rfl rfl) <|
      .inside second .hole
  have hole : (Node.stmt leave).run 0 0 h₁
      = some (.returned (.value (.int 2)), h₁) := rfl
  exact ⟨⟨_, context⟩, hole, (Context.run_of_signal context hole rfl).1⟩

end Scriptlet
