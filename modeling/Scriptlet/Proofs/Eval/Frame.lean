/-
What an evaluation leaves alone.

An evaluation binds names in the scope it runs in and in no other scope
that was there before. A call runs in a scope of its own, made for it, so
to what was there before a call does nothing at all, even if the function
was made in the scope that calls it.

# What may change

In the scope of the evaluation itself only the names of `let` statements
may be bound anew, and only of those outside function bodies. Nothing is
unbound, and no scope gets another outer scope.
-/
import Scriptlet.Proofs.Eval.Invariant

namespace Scriptlet

-- ============================================================= one scope

/-- The second scope is the first after some of the names were bound. -/
structure Scope.Rebound (names : String → Prop) (s s' : Scope) : Prop where
  outer : s'.outer = s.outer
  bound : ∀ name, (s.find? name).isSome → (s'.find? name).isSome
  same : ∀ name, ¬ names name → s'.find? name = s.find? name

namespace Scope.Rebound

variable {names : String → Prop} {s s₁ s₂ : Scope}

theorem refl (names : String → Prop) (s : Scope) : Rebound names s s :=
  ⟨rfl, fun _ bound => bound, fun _ _ => rfl⟩

theorem trans (first : Rebound names s s₁) (second : Rebound names s₁ s₂) :
    Rebound names s s₂ where
  outer := second.outer.trans first.outer
  bound name before := second.bound name (first.bound name before)
  same name other := (second.same name other).trans (first.same name other)

/-- One name bound among those that may be. -/
theorem bind (s : Scope) {name : String} (outcome : Outcome)
    (among : names name) :
    Rebound names s (s.bind name outcome) where
  outer := s.outer_bind name outcome
  bound other before := by
    by_cases same : other = name
    · subst same
      rw [Scope.find?_bind_self]
      rfl
    · rw [Scope.find?_bind_of_ne s outcome same]
      exact before
  same other outside := by
    have ne : other ≠ name := by
      intro same
      subst same
      exact outside among
    exact Scope.find?_bind_of_ne s outcome ne

end Scope.Rebound

-- ============================================================== the heap

/-- The way from one heap to another with bindings of these names in one
scope, and otherwise only new scopes. -/
structure Heap.Kept (scope : ScopeId) (names : String → Prop) (h h' : Heap) :
    Prop where
  size : h.scopes.size ≤ h'.scopes.size
  others : ∀ i < h.scopes.size, i ≠ scope → h'.scopes[i]? = h.scopes[i]?
  own : ∀ s, h.scopes[scope]? = some s →
    ∃ s', h'.scopes[scope]? = some s' ∧ s.Rebound names s'

namespace Heap.Kept

variable {scope : ScopeId} {names : String → Prop} {h h₁ h₂ : Heap}

private theorem of_scopes_eq (same : h₁.scopes = h.scopes) :
    Kept scope names h h₁ where
  size := Nat.le_of_eq (by rw [same])
  others i _ _ := by rw [same]
  own s found := by
    rw [same]
    exact ⟨s, found, .refl names s⟩

private theorem trans (first : Kept scope names h h₁)
    (second : Kept scope names h₁ h₂) :
    Kept scope names h h₂ where
  size := Nat.le_trans first.size second.size
  others i inside ne := by
    have inside₁ := Nat.lt_of_lt_of_le inside first.size
    rw [second.others i inside₁ ne, first.others i inside ne]
  own s found := by
    obtain ⟨s₁, found₁, rebound₁⟩ := first.own s found
    obtain ⟨s₂, found₂, rebound₂⟩ := second.own s₁ found₁
    exact ⟨s₂, found₂, rebound₁.trans rebound₂⟩

/-- Binding a name changes its scope and no other. -/
private theorem bind (h : Heap) {name : String} (outcome : Outcome)
    (among : names name) :
    Kept scope names h (h.bind scope name outcome) where
  size := Nat.le_of_eq (h.size_bind scope name outcome).symm
  others i _ ne := h.getElem?_bind_of_ne scope ne name outcome
  own s found := by
    refine ⟨s.bind name outcome, ?_, .bind s outcome among⟩
    rw [Heap.getElem?_bind_self, found]
    rfl

/-- Scopes that were there are all left alone if only a later one is
evaluated in. -/
private theorem of_later {inner : ScopeId} {inside : String → Prop}
    (later : h.scopes.size ≤ inner) (size : h.scopes.size ≤ h₁.scopes.size)
    (entered : ∀ i < h.scopes.size, h₁.scopes[i]? = h.scopes[i]?)
    (kept : Kept inner inside h₁ h₂) : Kept scope names h h₂ := by
  have same : ∀ i < h.scopes.size, h₂.scopes[i]? = h.scopes[i]? := by
    intro i before
    have ne : i ≠ inner := Nat.ne_of_lt (Nat.lt_of_lt_of_le before later)
    rw [kept.others i (Nat.lt_of_lt_of_le before size) ne, entered i before]
  refine ⟨Nat.le_trans size kept.size, fun i before _ => same i before, ?_⟩
  intro s found
  obtain ⟨before, _⟩ := Array.getElem?_eq_some_iff.1 found
  exact ⟨s, (same scope before).trans found, .refl names s⟩

end Heap.Kept

-- ======================================================= entering a call

/-- A call makes one scope. -/
theorem Closure.size_enter (f : Closure) (args : List Outcome) (h : Heap) :
    (f.enter args h).2.scopes.size = h.scopes.size + 1 := by
  simp [Closure.enter, Heap.newScope]

/-- A function runs in a new scope, and entering it changes no other. -/
private theorem Closure.getElem?_enter (f : Closure)
    (args : List Outcome) {h : Heap} {i : ScopeId}
    (before : i < h.scopes.size) :
    (f.enter args h).2.scopes[i]? = h.scopes[i]? := by
  have ne : i ≠ h.scopes.size := Nat.ne_of_lt before
  show (Heap.bindAll _ h.scopes.size _).scopes[i]? = _
  rw [Heap.getElem?_bindAll_of_ne _ _ ne]
  simp [Array.getElem?_push, ne]

-- ========================================================= the invariant

/-- Other scopes are left alone. -/
def frame : Invariant where
  Holds _ _ := True
  Good _ _ := True
  Moves scope names h h' _ := Heap.Kept scope names h h'
  stay _ _ _ := .of_scopes_eq rfl
  trans first second := first.trans second
  lasts _ _ := trivial
  plain _ _ _ := trivial
  returned _ := trivial
  unwrapped _ := trivial
  found _ _ := trivial
  ended _ _ _ _ _ := .of_scopes_eq rfl
  unary _ _ _ _ _ _ := .of_scopes_eq rfl
  binary _ _ _ _ _ _ _ _ := .of_scopes_eq rfl
  refused _ _ _ _ _ _ _ _ := .of_scopes_eq rfl
  closure _ _ _ _ _ := ⟨trivial, trivial, .of_scopes_eq rfl⟩
  bind _ _ among := ⟨trivial, .bind _ _ among⟩
  enter _ _ _ _ := trivial
  leave names h h' f args log outcome _ _ _ _ _ _ kept := by
    refine ⟨trivial,
      kept.of_later (Nat.le_refl _) ?_ fun i => f.getElem?_enter _⟩
    rw [f.size_enter]
    exact Nat.le_succ _

-- =============================================================== results

/-- Evaluating a node keeps all scopes but its own, and changes in that one
only what its `let` statements name. -/
theorem Node.run_kept {limit : Nat} {scope : ScopeId} {node : Node}
    {h h' : Heap} {outcome : Outcome}
    (run : node.run limit scope h = some (outcome, h')) :
    Heap.Kept scope (· ∈ node.lets) h h' := by
  obtain ⟨log, traced⟩ := Node.exists_log run
  have keeps := frame.node limit scope (· ∈ node.lets) h node trivial
      fun _ mem => mem
  exact (keeps outcome h' log traced).2.2

/-- The scope that a call is made from does not matter, so it may be one
that is not there yet. -/
theorem Value.applyTo_kept {limit : Nat} {callee : Value} {args : List Value}
    {h h' : Heap} {outcome : Outcome}
    (run : callee.applyTo (Closure.call limit) args h = some (outcome, h')) :
    Heap.Kept h.scopes.size (fun _ => False) h h' := by
  obtain ⟨log, traced⟩ := Value.exists_log run
  have keeps := frame.apply limit h.scopes.size (fun _ => False) h callee args
    trivial trivial fun _ _ => trivial
  exact (keeps outcome h' log traced).2.2

/-- An evaluation leaves all scopes alone but the one it runs in. All
keep their outer scope; its own keeps the names that it had, and only the
names of `let` statements of the node, outside function bodies, can come
to be bound to something else there. A call changes no scope that was
there before it. -/
theorem Node.run_frame :
    (∀ (limit : Nat) (scope : ScopeId) (node : Node) (h h' : Heap)
      (outcome : Outcome),
      node.run limit scope h = some (outcome, h') →
        (∀ i < h.scopes.size, i ≠ scope → h'.scopes[i]? = h.scopes[i]?)
          ∧ (∀ (i : ScopeId) s, h.scopes[i]? = some s →
              ∃ s', h'.scopes[i]? = some s' ∧ s'.outer = s.outer)
          ∧ ∀ s, h.scopes[scope]? = some s → ∃ s', h'.scopes[scope]? = some s'
              ∧ (∀ name, (s.find? name).isSome → (s'.find? name).isSome)
              ∧ ∀ name, s'.find? name ≠ s.find? name → name ∈ node.lets)
    ∧ ∀ (limit : Nat) (callee : Value) (args : List Value) (h h' : Heap)
      (outcome : Outcome),
        callee.applyTo (Closure.call limit) args h = some (outcome, h') →
        ∀ i < h.scopes.size, h'.scopes[i]? = h.scopes[i]? := by
  constructor
  · intro limit scope node h h' outcome run
    have kept := Node.run_kept run
    refine ⟨kept.others, ?_, ?_⟩
    · intro i s found
      by_cases own : i = scope
      · subst own
        obtain ⟨s', found', rebound⟩ := kept.own s found
        exact ⟨s', found', rebound.outer⟩
      · obtain ⟨inside, _⟩ := Array.getElem?_eq_some_iff.1 found
        exact ⟨s, (kept.others i inside own).trans found, rfl⟩
    · intro s found
      obtain ⟨s', found', rebound⟩ := kept.own s found
      refine ⟨s', found', rebound.bound, ?_⟩
      intro name differs
      by_cases mem : name ∈ node.lets
      · exact mem
      · exact absurd (rebound.same name mem) differs
  · intro limit callee args h h' outcome run i inside
    exact (Value.applyTo_kept run).others i inside (Nat.ne_of_lt inside)

/-- With `f` made by `fn(a) { let x = a; }` in the scope itself,
`if (true) { let x = 2; } f(3);` binds `x` there, and the call does
not. -/
theorem Node.run_frame_let_in_branch :
    let f : Value := .closure ⟨0, ["a"], [.bind "x" (.ident "a")], 1⟩
    let h : Heap :=
      ⟨#[⟨[("x", .value (.int 1))], none⟩, ⟨[("f", .value f)], some 0⟩], 1⟩
    let branch : Expr := .cond (.bool true) [.bind "x" (.int 2)] none
    let node : Node := .block
        [.expr branch, .expr (.call (.ident "f") [.int 3])]
    (∃ h', node.run 1 1 h = some (.null, h') ∧ h'.scopes[0]? = h.scopes[0]?
      ∧ h'.scopes[1]?.map (·.find? "x") = some (some (.value (.int 2))))
    ∧ ∃ h', f.applyTo (Closure.call 1) [.int 3] h = some (.null, h')
      ∧ h'.scopes[1]? = h.scopes[1]? := by
  intro f h branch node
  constructor
  · exact ⟨_, rfl,
      (Node.run_frame.1 1 1 node h _ _ rfl).1 0 (by decide) (by decide), rfl⟩
  · exact ⟨_, rfl, Node.run_frame.2 1 f [.int 3] h _ _ rfl 1 (by decide)⟩

end Scriptlet
