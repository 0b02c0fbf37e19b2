/-
Scopes and the heap that holds them.

A scope binds names to outcomes and may have an outer scope, where a name
it does not bind is looked up next. Closures refer to scopes and scopes
hold closures, so scopes are kept in a heap and known by their place in
it. Nothing is ever removed, and a new scope goes to the end, hence an
outer scope always has a smaller place than the scopes around which it
stands: this is why `lookup` can stop after as many steps as its scope's
place allows.

The heap also counts the closures made so far, which gives each of them
its stamp.

# Bindings

A scope's bindings are a list with the latest first and no name twice.
Binding a name again replaces what was bound (`Scope.find?_bind_self`)
and leaves the other names alone (`Scope.find?_bind_of_ne`).
-/
import Scriptlet.Value

namespace Scriptlet

-- ============================================================== scopes

/-- The names bound in one scope, and the scope around it. -/
structure Scope where
  bindings : List (String × Outcome)
  outer : Option ScopeId

namespace Scope

/-- What a name is bound to in this scope. -/
def find? (s : Scope) (name : String) : Option Outcome :=
  s.bindings.lookup name

/-- Binds a name in this scope. -/
def bind (s : Scope) (name : String) (outcome : Outcome) : Scope :=
  { s with bindings := (name, outcome) :: s.bindings.filter (·.1 != name) }

/-- A name just bound is bound to that. -/
@[simp]
theorem find?_bind_self (s : Scope) (name : String) (outcome : Outcome) :
    (s.bind name outcome).find? name = some outcome := by
  simp [find?, bind]

/-- Binding one name changes no other. -/
theorem find?_bind_of_ne (s : Scope) {name other : String} (outcome : Outcome)
    (h : other ≠ name) : (s.bind name outcome).find? other = s.find? other := by
  have skip (l : List (String × Outcome)) :
      (l.filter (·.1 != name)).lookup other = l.lookup other := by
    induction l with
    | nil => rfl
    | cons entry rest ih =>
        obtain ⟨key, bound⟩ := entry
        by_cases key_eq : key = name
        · subst key_eq
          simp [List.lookup_cons, beq_false_of_ne h, ih]
        · simp [List.lookup_cons, key_eq, ih]
  simp [find?, bind, List.lookup_cons, beq_false_of_ne h, skip]

@[simp]
theorem outer_bind (s : Scope) (name : String) (outcome : Outcome) :
    (s.bind name outcome).outer = s.outer := rfl

end Scope

-- ================================================================ heap

/-- All scopes made so far, and the number of closures made so far. -/
structure Heap where
  scopes : Array Scope
  closures : Nat

namespace Heap

/-- The heap before anything was made. -/
def empty : Heap :=
  ⟨#[], 0⟩

/-- Makes a scope without bindings. -/
def newScope (h : Heap) (outer : Option ScopeId) : ScopeId × Heap :=
  (h.scopes.size, { h with scopes := h.scopes.push ⟨[], outer⟩ })

/-- Makes a closure of a function literal standing in a scope. -/
def newClosure (h : Heap) (params : List String) (body : Block)
    (scope : ScopeId) :
    Closure × Heap :=
  (⟨h.closures, params, body, scope⟩, { h with closures := h.closures + 1 })

/-- Binds a name in a scope. -/
def bind (h : Heap) (scope : ScopeId) (name : String) (outcome : Outcome) :
    Heap :=
  { h with scopes := h.scopes.modify scope (·.bind name outcome) }

/-- Binds several names in a scope, one after the other: of a name that
occurs twice the last one stays. -/
def bindAll (h : Heap) (scope : ScopeId) : List (String × Outcome) → Heap
  | [] => h
  | (name, outcome) :: rest => (h.bind scope name outcome).bindAll scope rest

section Scopes

variable (h : Heap) (scope : ScopeId)

@[simp]
theorem size_bind (name : String) (outcome : Outcome) :
    (h.bind scope name outcome).scopes.size = h.scopes.size :=
  Array.size_modify

/-- Binding a name changes its scope. -/
@[simp]
theorem getElem?_bind_self (name : String) (outcome : Outcome) :
    (h.bind scope name outcome).scopes[scope]?
      = h.scopes[scope]?.map (·.bind name outcome) := by
  simp [bind, Array.getElem?_modify]

/-- It changes no other scope. -/
theorem getElem?_bind_of_ne {i : ScopeId} (ne : i ≠ scope) (name : String)
    (outcome : Outcome) :
    (h.bind scope name outcome).scopes[i]? = h.scopes[i]? := by
  simp [bind, Array.getElem?_modify, ne.symm]

@[simp]
theorem size_bindAll (entries : List (String × Outcome)) :
    (h.bindAll scope entries).scopes.size = h.scopes.size := by
  induction entries generalizing h with
  | nil => rfl
  | cons entry rest ih => rw [bindAll, ih, size_bind]

theorem getElem?_bindAll_of_ne {i : ScopeId} (ne : i ≠ scope)
    (entries : List (String × Outcome)) :
    (h.bindAll scope entries).scopes[i]? = h.scopes[i]? := by
  induction entries generalizing h with
  | nil => rfl
  | cons entry rest ih => rw [bindAll, ih, getElem?_bind_of_ne h scope ne]

end Scopes

/-- What a name is bound to in the nearest of at most `steps` scopes,
going outward. -/
def lookupWithin (h : Heap) (name : String) :
    (steps : Nat) → ScopeId → Option Outcome
  | 0, _ => none
  | steps + 1, scope =>
      match h.scopes[scope]? with
      | none => none
      | some s =>
          match s.find? name with
          | some outcome => some outcome
          | none =>
              match s.outer with
              | none => none
              | some outer => h.lookupWithin name steps outer

/-- What a name is bound to, seen from a scope. A scope at place `n` has
at most `n` scopes around it. -/
def lookup (h : Heap) (scope : ScopeId) (name : String) : Option Outcome :=
  h.lookupWithin name (scope + 1) scope

end Heap

end Scriptlet
