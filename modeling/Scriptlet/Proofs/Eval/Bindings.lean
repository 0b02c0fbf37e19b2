/-
What holds of all that is bound.

A condition on names and outcomes that holds of every binding of a heap
(`Heap.BindsOnly`) goes on to hold as long as what is bound anew meets
it, and it holds of whatever a look-up finds. Nothing else of evaluation
comes in here: making a scope or a function binds nothing.

The conditions of interest are on functions, and what an operator or a
literal gives is none.
-/
import Scriptlet.Proofs.Eval.Matching

namespace Scriptlet

/-- A plain outcome carries no function. -/
theorem Outcome.Plain.closure?_eq_none {outcome : Outcome}
    (plain : outcome.Plain) :
    outcome.closure? = none := by
  cases outcome with
  | value v =>
      cases v with
      | closure f => exact absurd rfl plain
      | int | bool | str | null => rfl
  | error fault => rfl
  | returned inner => exact plain.elim

/-- Unwrapping changes the signal and not the function that it carries. -/
theorem Outcome.closure?_unwrapped (outcome : Outcome) :
    outcome.unwrapped.closure? = outcome.closure? := by
  cases outcome with
  | value | error | returned => rfl

/-- Whatever is bound, in whatever scope, meets the condition. -/
def Heap.BindsOnly (P : String → Outcome → Prop) (h : Heap) : Prop :=
  ∀ (i : ScopeId) s name outcome,
    h.scopes[i]? = some s → s.find? name = some outcome → P name outcome

namespace Heap.BindsOnly

variable {P : String → Outcome → Prop} {h : Heap}

/-- A new scope binds nothing, so there is nothing to check. -/
theorem newScope (all : h.BindsOnly P) (outer : Option ScopeId) :
    (h.newScope outer).2.BindsOnly P := by
  intro i s name outcome at_i found
  rw [Heap.newScope, Array.getElem?_push] at at_i
  split at at_i
  · cases at_i
    cases found
  · exact all i s name outcome at_i found

/-- A bound name is one entry more; the others stay. -/
theorem bind (all : h.BindsOnly P) (scope : ScopeId) {name : String}
    {outcome : Outcome} (new : P name outcome) :
    (h.bind scope name outcome).BindsOnly P := by
  intro i s other bound at_i found
  by_cases own : i = scope
  · subst own
    rw [Heap.getElem?_bind_self] at at_i
    obtain ⟨old, at_old, rfl⟩ := Option.map_eq_some_iff.1 at_i
    by_cases same : other = name
    · subst same
      rw [Scope.find?_bind_self] at found
      cases found
      exact new
    · rw [Scope.find?_bind_of_ne old outcome same] at found
      exact all i old other bound at_old found
  · rw [Heap.getElem?_bind_of_ne h scope own] at at_i
    exact all i s other bound at_i found

/-- Several names, one after the other. -/
private theorem bindAll (all : h.BindsOnly P) (scope : ScopeId)
    {entries : List (String × Outcome)}
    (new : ∀ entry ∈ entries, P entry.1 entry.2) :
    (h.bindAll scope entries).BindsOnly P := by
  induction entries generalizing h with
  | nil => exact all
  | cons entry rest ih =>
      rw [List.forall_mem_cons] at new
      exact ih (all.bind scope new.1) new.2

/-- Entering a function binds its parameters. -/
theorem enter (all : h.BindsOnly P) (f : Closure) {args : List Outcome}
    (new : ∀ entry ∈ f.params.zip args, P entry.1 entry.2) :
    (f.enter args h).2.BindsOnly P :=
  (all.newScope (some f.scope)).bindAll _ new

/-- A lookup finds only what some scope binds. -/
theorem lookupWithin (all : h.BindsOnly P) {name : String} {steps : Nat}
    {scope : ScopeId} {outcome : Outcome}
    (found : h.lookupWithin name steps scope = some outcome) :
    P name outcome := by
  induction steps generalizing scope with
  | zero => cases found
  | succ steps ih =>
      rw [Heap.lookupWithin] at found
      split at found
      · cases found
      · next s at_scope =>
          split at found
          · next here =>
              cases found
              exact all scope s name outcome at_scope here
          · split at found
            · cases found
            · exact ih found

end Heap.BindsOnly

end Scriptlet
