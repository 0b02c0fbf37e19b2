/-
Signals do not become data.

An error or a `return` on its way stops what is around it. It is never
bound to a name, never an operand, never called and never an argument.
A `return` carries a value, not another signal, and it has arrived where
a call or a program ends. Only a host can bind a signal, so all this is
about heaps in which none is bound (`Heap.Clean`), and evaluation keeps
them so.

# What is proved of the way

`Event.Clean` says of each event what it should be, and `signals` is the
invariant that all events are clean. The events are those of
`Node.traced`, where the operators and calls take any outcome: that none
is ever given a signal is due to the rules and not to a type.
-/
import Scriptlet.Proofs.Eval.Invariant

namespace Scriptlet

-- ============================================================ outcomes

namespace Outcome

/-- Whether an outcome is a `return` on its way. -/
def isReturned : Outcome → Bool
  | returned _ => true
  | _ => false

/-- A `return`, if it is one, carries a value. -/
def Sealed : Outcome → Prop
  | returned inner => inner.isSignal = false
  | _ => True

/-- Data is sealed. -/
private theorem Sealed.of_not_signal {outcome : Outcome}
    (data : outcome.isSignal = false) :
    outcome.Sealed := by
  cases outcome with
  | value v => trivial
  | error fault => cases data
  | returned inner => cases data

/-- Data is no returned outcome. -/
private theorem isReturned_of_not_signal {outcome : Outcome}
    (data : outcome.isSignal = false) :
    outcome.isReturned = false := by
  cases outcome with
  | value v => rfl
  | error fault => cases data
  | returned inner => cases data

/-- Once a `return` has arrived there is not another one. -/
private theorem Sealed.isReturned_unwrapped {outcome : Outcome}
    (closed : outcome.Sealed) :
    outcome.unwrapped.isReturned = false := by
  cases outcome with
  | value v => rfl
  | error fault => rfl
  | returned inner => exact isReturned_of_not_signal closed

/-- Unwrapping keeps an outcome sealed, and one that was returned becomes
data. -/
theorem Sealed.unwrapped {outcome : Outcome} (closed : outcome.Sealed) :
    outcome.unwrapped.Sealed := by
  cases outcome with
  | value v => trivial
  | error fault => trivial
  | returned inner => exact Sealed.of_not_signal closed

/-- What operators and literals give is sealed. -/
private theorem Plain.sealed {outcome : Outcome} (plain : outcome.Plain) :
    outcome.Sealed := by
  cases outcome with
  | value v => trivial
  | error fault => trivial
  | returned inner => exact plain.elim

end Outcome

-- =============================================================== heaps

/-- No scope binds a name to a signal. -/
def Heap.Clean (h : Heap) : Prop :=
  ∀ s ∈ h.scopes, ∀ name outcome, s.find? name = some outcome →
    outcome.isSignal = false

/-- Nothing is bound in the empty heap. -/
theorem Heap.clean_empty : Heap.empty.Clean := by
  simp [Heap.Clean, Heap.empty]

namespace Heap.Clean

variable {h : Heap}

private theorem newScope (clean : h.Clean) (outer : Option ScopeId) :
    (h.newScope outer).2.Clean := by
  intro s mem name outcome found
  rcases Array.mem_push.1 mem with old | new
  · exact clean s old name outcome found
  · subst new
    cases found

/-- Binding data leaves the heap clean. -/
private theorem bind (clean : h.Clean) (scope : ScopeId) (name : String)
    {outcome : Outcome} (data : outcome.isSignal = false) :
    (h.bind scope name outcome).Clean := by
  intro s mem other bound found
  obtain ⟨i, inside, at_i⟩ := Array.mem_iff_getElem.1 mem
  simp only [Heap.bind, Array.size_modify] at inside
  simp only [Heap.bind, Array.getElem_modify] at at_i
  have old := clean h.scopes[i] (Array.getElem_mem inside)
  split at at_i
  · subst at_i
    by_cases same : other = name
    · subst same
      rw [Scope.find?_bind_self] at found
      cases found
      exact data
    · rw [Scope.find?_bind_of_ne _ _ same] at found
      exact old other bound found
  · subst at_i
    exact old other bound found

private theorem bindAll (scope : ScopeId) {entries : List (String × Outcome)}
    (data : ∀ entry ∈ entries, entry.2.isSignal = false) (clean : h.Clean) :
    (h.bindAll scope entries).Clean := by
  induction entries generalizing h with
  | nil => exact clean
  | cons entry rest ih =>
      rw [List.forall_mem_cons] at data
      exact ih data.2 (clean.bind scope entry.1 data.1)

/-- A lookup finds data. -/
private theorem lookupWithin (clean : h.Clean) {name : String} {steps : Nat}
    {scope : ScopeId} {outcome : Outcome}
    (found : h.lookupWithin name steps scope = some outcome) :
    outcome.isSignal = false := by
  induction steps generalizing scope with
  | zero => cases found
  | succ steps ih =>
      rw [Heap.lookupWithin] at found
      split at found
      · cases found
      · next s at_scope =>
          split at found
          · next bound here =>
              cases found
              exact clean s (Array.mem_of_getElem? at_scope) name outcome here
          · split at found
            · cases found
            · exact ih found

end Heap.Clean

-- ============================================================== events

/-- What is given to operators, calls and bindings is no signal, a call
does not give a `return`, and every `return` carries a value. -/
def Event.Clean : Event → Prop
  | .unary _ operand => operand.isSignal = false
  | .binary _ left right => left.isSignal = false ∧ right.isSignal = false
  | .call callee args =>
      callee.isSignal = false ∧ ∀ a ∈ args, a.isSignal = false
  | .result outcome => outcome.isReturned = false
  | .bind _ _ outcome => outcome.isSignal = false
  | .ended outcome => outcome.Sealed

/-- Values are no signals. -/
private theorem not_signal_of_mem_values {args : List Value} {a : Outcome}
    (mem : a ∈ args.map Outcome.value) : a.isSignal = false := by
  obtain ⟨v, _, same⟩ := List.mem_map.1 mem
  subst same
  rfl

/-- Parameters are bound to data. -/
private theorem not_signal_of_mem_zip {params : List String} {args : List Value}
    {entry : String × Outcome}
    (mem : entry ∈ params.zip (args.map Outcome.value)) :
    entry.2.isSignal = false :=
  not_signal_of_mem_values (List.of_mem_zip mem).2

/-- What a call records is clean if its arguments are values and what
arrives is no returned outcome. -/
private theorem Event.clean_of_mem_callEvents {f : Closure}
    {args : List Value} {h : Heap} {log : List Event} {outcome : Outcome}
    (inside : ∀ e ∈ log, e.Clean)
    (arrived : outcome.isReturned = false) :
    ∀ e ∈ callEvents f (args.map .value) h log outcome, e.Clean := by
  intro e mem
  simp only [callEvents, bindEvents, List.cons_append, List.append_assoc,
    List.mem_cons, List.mem_append, List.mem_map, List.not_mem_nil, or_false]
      at mem
  rcases mem with called | ⟨entry, bound, same⟩ | body | given
  · subst called
    exact ⟨rfl, fun a => not_signal_of_mem_values⟩
  · subst same
    exact not_signal_of_mem_zip bound
  · exact inside e body
  · subst given
    exact arrived

-- ======================================================= the invariant

/-- Signals stay signals. -/
def signals : Invariant where
  Holds _ h := h.Clean
  Good _ outcome := outcome.Sealed
  Moves _ _ _ _ log := ∀ e ∈ log, e.Clean
  stay _ _ _ := by simp
  trans before behind := List.forall_mem_append.2 ⟨before, behind⟩
  lasts _ good := good
  plain _ _ plain := plain.sealed
  returned _ := rfl
  unwrapped good := good.unwrapped
  found clean found := Outcome.Sealed.of_not_signal (clean.lookupWithin found)
  ended _ _ _ _ good := List.forall_mem_singleton.2 good
  unary _ _ _ _ _ _ := List.forall_mem_singleton.2 rfl
  binary _ _ _ _ _ _ _ _ := List.forall_mem_singleton.2 ⟨rfl, rfl⟩
  refused _ _ _ _ _ _ _ _ := by
    rw [List.forall_mem_cons, List.forall_mem_singleton]
    exact ⟨⟨rfl, fun a => not_signal_of_mem_values⟩, rfl⟩
  closure _ _ _ _ clean := ⟨clean, trivial, by simp⟩
  bind clean _ _ := ⟨clean.bind _ _ rfl, List.forall_mem_singleton.2 rfl⟩
  enter clean _ _ _ :=
    (clean.newScope _).bindAll _ fun entry => not_signal_of_mem_zip
  leave _ _ _ _ _ _ _ _ _ _ _ clean good inside :=
    ⟨clean, Event.clean_of_mem_callEvents inside good.isReturned_unwrapped⟩

-- ============================================================= results

/-- A call records what it gives. -/
private theorem Outcome.result_mem_of_tracedApply {call : TracedCaller}
    {callee outcome : Outcome} {args : List Outcome} {h h' : Heap}
    {log : List Event}
    (run : Outcome.tracedApply call callee args h = some (outcome, h', log)) :
    .result outcome ∈ log := by
  obtain ⟨r, _, same⟩ := Option.map_eq_some_iff.1 run
  cases same
  simp

/-- A program takes off the signal of a `return` at its top. -/
private theorem Node.not_returned_of_program {limit : Nat} {scope : ScopeId}
    {p : Program} {h h' : Heap} {outcome : Outcome} {log : List Event}
    (clean : h.Clean)
    (run : (Node.program p).traced limit scope h = some (outcome, h', log)) :
    outcome.isReturned = false := by
  rw [Node.traced, Outcome.null, Program.tracedFrom_eq] at run
  obtain ⟨⟨last, h₁, log₁⟩, done, same⟩ := Option.map_eq_some_iff.1 run
  cases same
  -- the block has the outcome as it was before it arrived
  have keeps := signals.node limit scope (fun _ => True) h (.block p) clean
      fun _ _ => trivial
  exact (keeps last h' log done).2.1.isReturned_unwrapped

/-- Signals do not become data. In a heap where no name is bound to one,
whatever is evaluated and whatever is called: the heap stays like that;
a program and a call do not give a `return`; every `return` carries a
value; and no operator, no call and no binding is given a signal. -/
theorem Node.run_clean {h : Heap} (clean : h.Clean) (limit : Nat)
    (scope : ScopeId) :
    (∀ (node : Node) (outcome : Outcome) (h' : Heap),
      node.run limit scope h = some (outcome, h') →
        h'.Clean ∧ outcome.Sealed
          ∧ (∀ p, node = .program p → outcome.isReturned = false)
          ∧ ∃ log, node.traced limit scope h = some (outcome, h', log)
            ∧ ∀ e ∈ log, e.Clean)
    ∧ ∀ (callee : Value) (args : List Value) (outcome : Outcome) (h' : Heap),
      callee.applyTo (Closure.call limit) args h = some (outcome, h') →
        h'.Clean ∧ outcome.isReturned = false
          ∧ ∃ log, Outcome.tracedApply (Closure.traced limit) (.value callee)
              (args.map .value) h = some (outcome, h', log)
            ∧ ∀ e ∈ log, e.Clean := by
  constructor
  · intro node outcome h' run
    obtain ⟨log, traced⟩ := Node.exists_log run
    have keeps := signals.node limit scope (fun _ => True) h node clean
        fun _ _ => trivial
    obtain ⟨clean', closed, events⟩ := keeps outcome h' log traced
    refine ⟨clean', closed, ?_, log, traced, events⟩
    intro p is_program
    subst is_program
    exact Node.not_returned_of_program clean traced
  · intro callee args outcome h' run
    obtain ⟨log, traced⟩ := Value.exists_log run
    have keeps :=
      signals.apply limit scope (fun _ => True) h callee args clean trivial
        fun _ _ => trivial
    obtain ⟨clean', _, events⟩ := keeps outcome h' log traced
    have arrived := events _ (Outcome.result_mem_of_tracedApply traced)
    exact ⟨clean', arrived, log, traced, events⟩

/-- A `return` on its way out of a `let`:
`let x = if (true) { return fn(a) { return a; }(one); };` -/
theorem Node.run_clean_return_in_let :
    let h := (Heap.empty.newScope none).2.bind 0 "one" (.value (.int 1))
    let called : Expr := .call (.fn ["a"] [.ret (some (.ident "a"))])
        [.ident "one"]
    let node : Node := .program
        [.bind "x" (.cond (.bool true) [.ret (some called)] none)]
    h.Clean ∧ ∃ h', node.run 1 0 h = some (.value (.int 1), h') ∧ h'.Clean := by
  intro h called node
  have clean : h.Clean := (Heap.clean_empty.newScope none).bind 0 "one" rfl
  exact ⟨clean, _, rfl, ((Node.run_clean clean 1 0).1 node _ _ rfl).1⟩

end Scriptlet
