/-
Which names are found from a scope, and that they stay found.

Scopes only gain names and keep the scopes around them, so the heap that
a run leaves is wider than the one it started from (`Heap.Widens`), and
a name that was found once is found ever after, perhaps nearer and bound
to something else. Names come into reach in two ways: one is bound in the
scope itself, or the scope is a new one inside a scope from which the
name is found.
-/
import Scriptlet.Proofs.Eval.Frame

namespace Scriptlet

-- ======================================================== wider heaps

/-- The scopes of the first heap are in the second, with the scopes
around them and at least the names that they had. -/
def Heap.Widens (h h' : Heap) : Prop :=
  ∀ (i : ScopeId) s, h.scopes[i]? = some s →
    ∃ s', h'.scopes[i]? = some s' ∧ s.Rebound (fun _ => True) s'

namespace Heap.Widens

variable {h h₁ h₂ : Heap}

theorem of_scopes_eq (same : h₁.scopes = h.scopes) : h.Widens h₁ := by
  intro i s at_i
  rw [same]
  exact ⟨s, at_i, .refl _ s⟩

theorem trans (first : h.Widens h₁) (second : h₁.Widens h₂) : h.Widens h₂ := by
  intro i s at_i
  obtain ⟨s₁, at_i₁, rebound₁⟩ := first i s at_i
  obtain ⟨s₂, at_i₂, rebound₂⟩ := second i s₁ at_i₁
  exact ⟨s₂, at_i₂, rebound₁.trans rebound₂⟩

/-- Binding a name unbinds none. -/
theorem bind (h : Heap) (scope : ScopeId) (name : String) (outcome : Outcome) :
    h.Widens (h.bind scope name outcome) := by
  intro i s at_i
  by_cases own : i = scope
  · subst own
    refine ⟨s.bind name outcome, ?_, .bind s outcome trivial⟩
    rw [Heap.getElem?_bind_self, at_i]
    rfl
  · rw [Heap.getElem?_bind_of_ne h scope own]
    exact ⟨s, at_i, .refl _ s⟩

/-- A new scope leaves the others as they are. -/
theorem newScope (h : Heap) (outer : Option ScopeId) :
    h.Widens (h.newScope outer).2 := by
  intro i s at_i
  obtain ⟨before, -⟩ := Array.getElem?_eq_some_iff.1 at_i
  refine ⟨s, ?_, .refl _ s⟩
  rw [Heap.newScope, Array.getElem?_push_lt before, ← Array.getElem?_eq_getElem]
  exact at_i

private theorem bindAll (h : Heap) (scope : ScopeId)
    (entries : List (String × Outcome)) :
    h.Widens (h.bindAll scope entries) := by
  induction entries generalizing h with
  | nil => exact of_scopes_eq rfl
  | cons entry rest ih => exact (bind h scope entry.1 entry.2).trans (ih _)

/-- Entering a call makes a scope and binds names in it. -/
theorem enter (f : Closure) (args : List Outcome) (h : Heap) :
    h.Widens (f.enter args h).2 :=
  (newScope h (some f.scope)).trans (bindAll _ _ _)

/-- A scope of the heap is one of the wider heap. -/
private theorem lt_size (wider : h.Widens h₁) {scope : ScopeId}
    (inside : scope < h.scopes.size) :
    scope < h₁.scopes.size := by
  obtain ⟨_, at_scope, -⟩ := wider scope _ (Array.getElem?_eq_getElem inside)
  exact (Array.getElem?_eq_some_iff.1 at_scope).1

/-- What was found is found again, perhaps nearer. -/
private theorem lookupWithin (wider : h.Widens h₁) {name : String} {steps : Nat}
    {scope : ScopeId} (found : (h.lookupWithin name steps scope).isSome) :
    (h₁.lookupWithin name steps scope).isSome := by
  induction steps generalizing scope with
  | zero => cases found
  | succ steps ih =>
      rw [Heap.lookupWithin] at found ⊢
      cases at_scope : h.scopes[scope]? with
      | none =>
          rw [at_scope] at found
          cases found
      | some s =>
          obtain ⟨s₁, at_scope₁, rebound⟩ := wider scope s at_scope
          rw [at_scope] at found
          rw [at_scope₁]
          dsimp only at found ⊢
          cases here₁ : s₁.find? name with
          | some outcome => rfl
          | none =>
              have here : s.find? name = none := by
                have kept := rebound.bound name
                rw [here₁] at kept
                exact Option.not_isSome_iff_eq_none.1 fun bound =>
                  by cases kept bound
              rw [here] at found
              dsimp only at found ⊢
              rw [rebound.outer]
              cases around : s.outer with
              | none =>
                  rw [around] at found
                  cases found
              | some outer =>
                  rw [around] at found
                  exact ih found

end Heap.Widens

-- ========================================================= looking up

namespace Heap

variable {h : Heap} {name : String} {scope : ScopeId} {s : Scope}

/-- Going further out finds no less. -/
private theorem lookupWithin_isSome_of_le {steps steps' : Nat}
    (le : steps ≤ steps') (found : (h.lookupWithin name steps scope).isSome) :
    (h.lookupWithin name steps' scope).isSome := by
  induction steps generalizing steps' scope with
  | zero => cases found
  | succ steps ih =>
      obtain ⟨more, rfl⟩ := Nat.exists_eq_add_of_le'
          (Nat.lt_of_lt_of_le (Nat.succ_pos _) le)
      rw [lookupWithin] at found ⊢
      split at found
      · cases found
      · split at found
        · rfl
        · split at found
          · cases found
          · exact ih (Nat.le_of_succ_le_succ le) found

/-- A name bound in the scope itself is found. -/
private theorem lookup_isSome_of_bound (at_scope : h.scopes[scope]? = some s)
    (bound : (s.find? name).isSome) : (h.lookup scope name).isSome := by
  obtain ⟨outcome, here⟩ := Option.isSome_iff_exists.1 bound
  rw [lookup, lookupWithin, at_scope]
  dsimp only
  rw [here]
  rfl

/-- A name that is found from the scope around is found. -/
private theorem lookup_isSome_of_outer {outer : ScopeId}
    (at_scope : h.scopes[scope]? = some s) (around : s.outer = some outer)
    (earlier : outer < scope)
    (found : (h.lookup outer name).isSome) : (h.lookup scope name).isSome := by
  rw [lookup, lookupWithin, at_scope]
  dsimp only
  cases s.find? name with
  | some outcome => rfl
  | none =>
      rw [around]
      exact lookupWithin_isSome_of_le earlier found

/-- After binding several names in a scope they are bound there. -/
private theorem bindAll_bound (at_scope : h.scopes[scope]? = some s)
    (entries : List (String × Outcome)) :
    ∃ s', (h.bindAll scope entries).scopes[scope]? = some s'
      ∧ s.Rebound (fun _ => True) s'
      ∧ ∀ name ∈ entries.map Prod.fst, (s'.find? name).isSome := by
  induction entries generalizing h s with
  | nil => exact ⟨s, at_scope, .refl _ s, by simp⟩
  | cons entry rest ih =>
      have at_bound : (h.bind scope entry.1 entry.2).scopes[scope]?
          = some (s.bind entry.1 entry.2) := by
        rw [getElem?_bind_self, at_scope]
        rfl
      obtain ⟨s', at_scope', rebound, bound⟩ := ih at_bound
      refine ⟨s', at_scope',
        (Scope.Rebound.bind s entry.2 trivial).trans rebound, ?_⟩
      rw [List.map_cons, List.forall_mem_cons]
      refine ⟨rebound.bound entry.1 ?_, bound⟩
      rw [Scope.find?_bind_self]
      rfl

end Heap

-- ===================================================== names in reach

/-- The scope is there, and all the names are found from it. -/
structure Heap.Provides (h : Heap) (scope : ScopeId) (known : List String) :
    Prop where
  inside : scope < h.scopes.size
  found : ∀ name ∈ known, (h.lookup scope name).isSome

/-- What a scope provides it goes on providing. -/
theorem Heap.Provides.widens {h h₁ : Heap} {scope : ScopeId}
    {known : List String} (provides : h.Provides scope known)
    (wider : h.Widens h₁) : h₁.Provides scope known where
  inside := wider.lt_size provides.inside
  found name mem := wider.lookupWithin (provides.found name mem)

/-- A name just bound is found. -/
theorem Heap.Provides.bind {h : Heap} {scope : ScopeId} {name : String}
    {outcome : Outcome} {known : List String}
    (provides : (h.bind scope name outcome).Provides scope known) :
    (h.bind scope name outcome).Provides scope (name :: known) := by
  refine ⟨provides.inside, List.forall_mem_cons.2 ⟨?_, provides.found⟩⟩
  have inside := provides.inside
  rw [Heap.size_bind] at inside
  have at_scope : (h.bind scope name outcome).scopes[scope]?
      = some (h.scopes[scope].bind name outcome) := by
    rw [Heap.getElem?_bind_self, Array.getElem?_eq_getElem inside]
    rfl
  refine Heap.lookup_isSome_of_bound at_scope ?_
  rw [Scope.find?_bind_self]
  rfl

/-- In the scope that a function runs in, its parameters are bound, and
the names found where it was made are found. -/
theorem Heap.Provides.enter {f : Closure} {h : Heap} {known : List String}
    (provides : h.Provides f.scope known) {args : List Outcome}
    (same_length : f.params.length = args.length) :
    (f.enter args h).2.Provides (f.enter args h).1 (f.params ++ known) := by
  have at_new : (h.newScope (some f.scope)).2.scopes[h.scopes.size]?
      = some ⟨[], some f.scope⟩ := by
    simp [Heap.newScope]
  obtain ⟨s, at_scope, rebound, bound⟩ :=
    Heap.bindAll_bound at_new (f.params.zip args)
  rw [List.map_fst_zip (Nat.le_of_eq same_length)] at bound
  refine ⟨(Array.getElem?_eq_some_iff.1 at_scope).1,
    List.forall_mem_append.2 ⟨?_, ?_⟩⟩
  · intro name mem
    exact Heap.lookup_isSome_of_bound at_scope (bound name mem)
  · intro name mem
    have outside := (provides.widens (.enter f args h)).found name mem
    exact Heap.lookup_isSome_of_outer at_scope rebound.outer
      provides.inside outside

end Scriptlet
