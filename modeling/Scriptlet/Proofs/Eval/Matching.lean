/-
Two heaps that a program cannot tell apart.

Two runs may differ in much that no program sees: in the places of
scopes, in the stamps of functions, in scopes that are out of reach, in
names that are not mentioned. Here it is said when two heaps and two
outcomes are alike in all the rest, and that each step of an evaluation
takes what is alike to what is alike: to look a name up, to apply an
operator, to bind a name, to make a function, to enter one.

# Numbers that belong together

Scopes and functions are numbered in the order in which they are made. A
`Pairing` says which numbers of the two runs belong together. What was
there before and is shared has one number for both; what is made later
is paired in the order of making, the first with the first and so on.
Both ways a number has one partner at most, and the order is kept
(`Pairing.Pairs.lt_iff`). So two functions are the same one in the first
run exactly when their partners are in the second.

# What need not agree

A `Matching` compares paired scopes only, and in them only the names it
counts. In the second run a scope may have one more scope around it than
its partner, if that one binds nothing and has nothing around it.
-/
import Mathlib.Data.List.Forall2
import Scriptlet.Proofs.Eval.Invariant

namespace Scriptlet

-- ============================================================ options

section Options

variable {α β : Type} {R S : α → β → Prop} {a : Option α} {b : Option β}

/-- The two ways in which optional things are related. -/
theorem rel_inv (rel : Option.Rel R a b) :
    (a = none ∧ b = none) ∨ ∃ x y, a = some x ∧ b = some y ∧ R x y := by
  cases rel with
  | some related => exact .inr ⟨_, _, rfl, rfl, related⟩
  | none => exact .inl ⟨rfl, rfl⟩

/-- A weaker relation holds as well. -/
theorem rel_mono (rel : Option.Rel R a b) (weaker : ∀ x y, R x y → S x y) :
    Option.Rel S a b := by
  cases rel with
  | some related => exact .some (weaker _ _ related)
  | none => exact .none

end Options

-- ==================================================== mentioned names

mutual

/-- The names that occur in an expression: those it looks up, those of
`let` statements and those of parameters. -/
def Expr.names : Expr → List String
  | .ident name => [name]
  | .int _ => []
  | .bool _ => []
  | .str _ => []
  | .unary _ e => e.names
  | .binary _ l r => l.names ++ r.names
  | .cond test yes none => test.names ++ Stmt.namesAll yes
  | .cond test yes (some no) =>
      test.names ++ (Stmt.namesAll yes ++ Stmt.namesAll no)
  | .fn params body => params ++ Stmt.namesAll body
  | .call callee args => callee.names ++ Expr.namesAll args

/-- The same for a list of expressions. -/
def Expr.namesAll : List Expr → List String
  | [] => []
  | e :: es => e.names ++ Expr.namesAll es

/-- A `let` mentions the name that it binds. -/
def Stmt.names : Stmt → List String
  | .bind name e => name :: e.names
  | .ret none => []
  | .ret (some e) => e.names
  | .expr e => e.names

/-- The same for a list of statements. -/
def Stmt.namesAll : List Stmt → List String
  | [] => []
  | s :: ss => s.names ++ Stmt.namesAll ss

end

/-- The names that occur in a function. -/
def Closure.names (f : Closure) : List String :=
  f.params ++ Stmt.namesAll f.body

-- ================================================== well-formed heaps

/-- The function that an outcome is or returns. -/
def Outcome.closure? : Outcome → Option Closure
  | .value (.closure f) => some f
  | .returned inner => inner.closure?
  | _ => none

/-- The function was made in a scope of the heap, and it is counted. -/
structure Closure.Inside (h : Heap) (f : Closure) : Prop where
  scope : f.scope < h.scopes.size
  stamp : f.stamp < h.closures

/-- An outcome refers to nothing that is not in the heap. -/
def Outcome.Inside (h : Heap) (outcome : Outcome) : Prop :=
  ∀ f, outcome.closure? = some f → f.Inside h

/-- Nothing in the heap refers to something that is not there, and a
scope stands inside one that was made before it, so that the way outward
ends. -/
structure Heap.WellFormed (h : Heap) : Prop where
  outer : ∀ (i : ScopeId) s o, h.scopes[i]? = some s → s.outer = some o → o < i
  bound : ∀ (i : ScopeId) s name outcome, h.scopes[i]? = some s →
    s.find? name = some outcome → outcome.Inside h

/-- A heap in which no less has been made. -/
structure Heap.Grows (h h₁ : Heap) : Prop where
  scopes : h.scopes.size ≤ h₁.scopes.size
  closures : h.closures ≤ h₁.closures

theorem Heap.Grows.refl (h : Heap) : h.Grows h :=
  ⟨Nat.le_refl _, Nat.le_refl _⟩

theorem Heap.Grows.trans {h h₁ h₂ : Heap} (first : h.Grows h₁)
    (second : h₁.Grows h₂) :
    h.Grows h₂ :=
  ⟨Nat.le_trans first.scopes second.scopes,
    Nat.le_trans first.closures second.closures⟩

/-- Binding makes no scope and no function. -/
theorem Heap.grows_bind (h : Heap) (scope : ScopeId) (name : String)
    (outcome : Outcome) :
    h.Grows (h.bind scope name outcome) :=
  ⟨Nat.le_of_eq (h.size_bind scope name outcome).symm, Nat.le_refl _⟩

private theorem Heap.grows_bindAll (h : Heap) (scope : ScopeId)
    (entries : List (String × Outcome)) :
    h.Grows (h.bindAll scope entries) := by
  induction entries generalizing h with
  | nil => exact .refl h
  | cons entry rest ih =>
      exact (h.grows_bind scope entry.1 entry.2).trans (ih _)

/-- A new scope is one more. -/
private theorem Heap.grows_newScope (h : Heap) (outer : Option ScopeId) :
    h.Grows (h.newScope outer).2 := by
  refine ⟨?_, Nat.le_refl _⟩
  rw [Heap.newScope, Array.size_push]
  exact Nat.le_succ _

/-- A new function is one more. -/
theorem Heap.grows_newClosure (h : Heap) (params : List String) (body : Block)
    (scope : ScopeId) :
    h.Grows (h.newClosure params body scope).2 :=
  ⟨Nat.le_refl _, Nat.le_succ _⟩

/-- Entering a call makes a scope. -/
theorem Closure.grows_enter (f : Closure) (args : List Outcome) (h : Heap) :
    h.Grows (f.enter args h).2 :=
  (h.grows_newScope (some f.scope)).trans (Heap.grows_bindAll _ _ _)

/-- A function of the heap is one of every later heap. -/
private theorem Closure.Inside.grows {f : Closure} {h h₁ : Heap}
    (inside : f.Inside h) (grows : h.Grows h₁) : f.Inside h₁ :=
  ⟨Nat.lt_of_lt_of_le inside.scope grows.scopes,
    Nat.lt_of_lt_of_le inside.stamp grows.closures⟩

/-- So is every function that an outcome carries. -/
theorem Outcome.Inside.grows {outcome : Outcome} {h h₁ : Heap}
    (inside : outcome.Inside h) (grows : h.Grows h₁) : outcome.Inside h₁ :=
  fun f is_f => (inside f is_f).grows grows

/-- The empty heap refers to nothing. -/
theorem Heap.wellFormed_empty : Heap.empty.WellFormed :=
  ⟨by simp [Heap.empty], by simp [Heap.empty]⟩

namespace Heap.WellFormed

variable {h : Heap}

/-- A new scope is well-formed if its outer scope is an earlier one. -/
theorem newScope (sound : h.WellFormed) {outer : Option ScopeId}
    (earlier : ∀ o, outer = some o → o < h.scopes.size) :
    (h.newScope outer).2.WellFormed := by
  constructor
  · intro i s o at_i around
    rw [Heap.newScope, Array.getElem?_push] at at_i
    split at at_i
    · next last =>
        cases at_i
        exact last ▸ earlier o around
    · exact sound.outer i s o at_i around
  · intro i s name outcome at_i found
    rw [Heap.newScope, Array.getElem?_push] at at_i
    split at at_i
    · cases at_i
      cases found
    · exact (sound.bound i s name outcome at_i found).grows
        (h.grows_newScope outer)

/-- Binding an outcome of the heap keeps it well-formed. -/
theorem bind (sound : h.WellFormed) (scope : ScopeId) (name : String)
    {outcome : Outcome} (inside : outcome.Inside h) :
    (h.bind scope name outcome).WellFormed := by
  have grows := h.grows_bind scope name outcome
  -- each scope is as it was, or as it was with the name bound
  have before {i : ScopeId} {s : Scope}
      (at_i : (h.bind scope name outcome).scopes[i]? = some s) : ∃ old,
      h.scopes[i]? = some old ∧ (s = old ∨ s = old.bind name outcome) := by
    by_cases same : i = scope
    · subst same
      rw [getElem?_bind_self] at at_i
      obtain ⟨old, at_old, rfl⟩ := Option.map_eq_some_iff.1 at_i
      exact ⟨old, at_old, .inr rfl⟩
    · rw [getElem?_bind_of_ne h scope same] at at_i
      exact ⟨s, at_i, .inl rfl⟩
  constructor
  · intro i s o at_i around
    obtain ⟨old, at_old, rfl | rfl⟩ := before at_i
    · exact sound.outer i s o at_old around
    · exact sound.outer i old o at_old around
  · intro i s other bound at_i found
    obtain ⟨old, at_old, rfl | rfl⟩ := before at_i
    · exact (sound.bound i s other bound at_old found).grows grows
    · by_cases newest : other = name
      · subst newest
        rw [Scope.find?_bind_self] at found
        cases found
        exact inside.grows grows
      · rw [Scope.find?_bind_of_ne _ _ newest] at found
        exact (sound.bound i old other bound at_old found).grows grows

/-- A new function takes the next stamp, and is bound nowhere yet. -/
theorem newClosure (sound : h.WellFormed) (params : List String) (body : Block)
    (scope : ScopeId) : (h.newClosure params body scope).2.WellFormed where
  outer := sound.outer
  bound i s name outcome at_i found :=
    (sound.bound i s name outcome at_i found).grows
      (h.grows_newClosure params body scope)

end Heap.WellFormed

-- ============================================================ pairings

/-- Which numbers of two runs belong together. -/
structure Pairing where
  /-- What both runs found there and have in common. -/
  shared : Nat → Prop
  /-- How many were there before the first run. -/
  left : Nat
  /-- How many were there before the second run. -/
  right : Nat

namespace Pairing

/-- Two numbers belong together. -/
inductive Pairs (p : Pairing) : Nat → Nat → Prop where
  | shared {i : Nat} (common : p.shared i) (before_left : i < p.left)
      (before_right : i < p.right) : Pairs p i i
  | made (k : Nat) : Pairs p (p.left + k) (p.right + k)

/-- Both runs have made the same number. -/
def InStep (p : Pairing) (m n : Nat) : Prop :=
  ∃ k, m = p.left + k ∧ n = p.right + k

variable {p : Pairing} {i i' j j' m n : Nat}

/-- Partners come in the same order. -/
private theorem Pairs.lt_iff (first : p.Pairs i j) (second : p.Pairs i' j') :
    i < i' ↔ j < j' := by
  cases first <;> cases second <;> omega

/-- A number has one partner at most. -/
private theorem Pairs.eq_iff (first : p.Pairs i j) (second : p.Pairs i' j') :
    i = i' ↔ j = j' := by
  have before := first.lt_iff second
  have behind := second.lt_iff first
  omega

/-- What both sides make next, at the same step, will be a pair. -/
theorem InStep.pairs (step : p.InStep m n) : p.Pairs m n := by
  obtain ⟨k, rfl, rfl⟩ := step
  exact .made k

private theorem InStep.succ (step : p.InStep m n) :
    p.InStep (m + 1) (n + 1) := by
  obtain ⟨k, rfl, rfl⟩ := step
  exact ⟨k + 1, rfl, rfl⟩

end Pairing

-- =========================================================== matchings

/-- What two runs have in common. -/
structure Matching where
  scopes : Pairing
  stamps : Pairing
  /-- The names that count. -/
  names : String → Prop
  /-- Scopes of the second run that bind nothing and have nothing around
  them. -/
  void : ScopeId → Prop
  void_unpaired : ∀ i j, void j → ¬ scopes.Pairs i j

/-- Partners among functions: the same literal, made in scopes that
belong together, and themselves belonging together. -/
structure Closure.Alike (m : Matching) (h : Heap) (f g : Closure) : Prop where
  params : f.params = g.params
  body : f.body = g.body
  scope : m.scopes.Pairs f.scope g.scope
  stamp : m.stamps.Pairs f.stamp g.stamp
  inside : f.Inside h
  named : ∀ name ∈ f.names, m.names name

/-- The same outcome but for the numbers of functions and scopes. The
heap is that of the first run. -/
inductive Outcome.Alike (m : Matching) (h : Heap) :
    Outcome → Outcome → Prop where
  | plain {outcome : Outcome} (plain : outcome.Plain) :
      Alike m h outcome outcome
  | closure {f g : Closure} (alike : f.Alike m h g) :
      Alike m h (.value (.closure f)) (.value (.closure g))
  | returned {a b : Outcome} (alike : Alike m h a b) :
      Alike m h (.returned a) (.returned b)

/-- What stands around two scopes `i` and `j`. -/
inductive Matching.Around (m : Matching) (i j : ScopeId) :
    Option ScopeId → Option ScopeId → Prop where
  | none : Around m i j none none
  | some {o p : ScopeId} (earlier : o < i) (pairs : m.scopes.Pairs o p) :
      Around m i j (some o) (some p)
  | void {p : ScopeId} (earlier : p < j) (void : m.void p) :
      Around m i j none (some p)

/-- Two scopes `i` and `j` that bind alike and stand alike. -/
structure Scope.Alike (m : Matching) (h : Heap) (i j : ScopeId) (s t : Scope) :
    Prop where
  around : m.Around i j s.outer t.outer
  find? : ∀ name, m.names name → Option.Rel (Outcome.Alike m h) (s.find? name)
    (t.find? name)

/-- A scope in which nothing is found, nor around it. -/
structure Scope.Void (m : Matching) (s : Scope) : Prop where
  outer : s.outer = none
  find? : ∀ name, m.names name → s.find? name = none

/-- Two heaps that have grown alike, with partners alike. -/
structure Heap.Alike (m : Matching) (h h' : Heap) : Prop where
  scopes : m.scopes.InStep h.scopes.size h'.scopes.size
  stamps : m.stamps.InStep h.closures h'.closures
  partner : ∀ i j s, m.scopes.Pairs i j → h.scopes[i]? = some s →
    ∃ t, h'.scopes[j]? = some t ∧ s.Alike m h i j t
  void : ∀ j, m.void j → ∃ t, h'.scopes[j]? = some t ∧ t.Void m

-- ============================================================ outcomes

section Outcomes

variable {m : Matching} {h h₁ : Heap}

/-- Functions stay alike while the heap grows. -/
private theorem Closure.Alike.grows {f g : Closure} (alike : f.Alike m h g)
    (grows : h.Grows h₁) :
    f.Alike m h₁ g :=
  { alike with inside := alike.inside.grows grows }

namespace Outcome.Alike

variable {a b : Outcome}

theorem grows (alike : a.Alike m h b) (grows : h.Grows h₁) :
    a.Alike m h₁ b := by
  induction alike with
  | plain plain => exact .plain plain
  | closure alike => exact .closure (alike.grows grows)
  | returned _ ih => exact .returned ih

/-- Taking the signal off both sides. -/
theorem unwrapped (alike : a.Alike m h b) :
    a.unwrapped.Alike m h b.unwrapped := by
  cases alike with
  | plain plain =>
      cases a with
      | value v => exact .plain plain
      | error fault => exact .plain plain
      | returned inner => exact plain.elim
  | closure alike => exact .closure alike
  | returned alike => exact alike

/-- What is alike looks the same. -/
theorem kindName_eq (alike : a.Alike m h b) : a.kindName = b.kindName := by
  cases alike <;> rfl

/-- What is alike is shown alike: the text of a function says nothing of
scopes or stamps. -/
theorem text_eq (alike : a.Alike m h b) : a.text = b.text := by
  induction alike with
  | plain => rfl
  | closure alike =>
      simp only [Outcome.text, Value.text, alike.params, alike.body]
  | returned _ ih => exact ih

/-- What is no function is the same in both runs. -/
theorem eq_of_plain (alike : a.Alike m h b) (plain : a.Plain) : b = a := by
  cases alike with
  | plain => rfl
  | closure => exact absurd rfl plain
  | returned => exact plain.elim

end Outcome.Alike

/-- Partners among values. -/
abbrev Value.Alike (m : Matching) (h : Heap) (v w : Value) : Prop :=
  Outcome.Alike m h (.value v) (.value w)

/-- Values of different classes are never equal. -/
theorem Value.same_of_kind_ne (v w : Value) (ne : v.kind ≠ w.kind) :
    v.same w = false := by
  cases v <;> cases w <;> first | rfl | exact absurd rfl ne

namespace Value.Alike

variable {a b v w : Value}

/-- A value that is no function is like itself. -/
theorem null : Value.Alike m h .null .null :=
  .plain Kind.noConfusion

/-- Conditions go the same way. -/
theorem truthy_eq (alike : v.Alike m h w) : v.truthy = w.truthy := by
  cases alike <;> rfl

/-- Partners are equal to each other in both runs or in neither: for
functions because a stamp has one partner at most. -/
private theorem same_eq (first : a.Alike m h v) (second : b.Alike m h w) :
    a.same b = v.same w := by
  cases first with
  | plain plain =>
      cases second with
      | plain => rfl
      | @closure f g =>
          rw [same_of_kind_ne a (.closure f) plain,
            same_of_kind_ne a (.closure g) plain]
  | @closure f g alike =>
      cases second with
      | plain plain =>
          rw [same_of_kind_ne (.closure f) b plain.symm,
            same_of_kind_ne (.closure g) b plain.symm]
      | closure alike' =>
          simp only [Value.same, alike.stamp.eq_iff alike'.stamp]

end Value.Alike

/-- A unary operator asks of a function its kind only. -/
theorem UnaryOp.apply_alike (op : UnaryOp) {v w : Value}
    (alike : v.Alike m h w) :
    op.apply v = op.apply w := by
  cases alike with
  | plain => rfl
  | closure => cases op <;> rfl

/-- Operators give the same for partners: they look at the class of a
function and at its stamp, and at nothing else. -/
theorem BinaryOp.apply_alike (op : BinaryOp) {a b v w : Value}
    (first : a.Alike m h v) (second : b.Alike m h w) :
    op.apply a b = op.apply v w := by
  have same := first.same_eq second
  unfold BinaryOp.apply
  cases first with
  | plain plain =>
      cases second with
      | plain => rfl
      | closure => exact (if_neg plain).trans (if_neg plain).symm
  | closure =>
      cases second with
      | plain plain => exact (if_neg plain.symm).trans (if_neg plain.symm).symm
      | closure =>
          cases op <;> simp only [Value.kind, BinaryOp.applyAlike, same]

end Outcomes

-- ============================================================== steps

section Steps

variable {m : Matching} {h h' : Heap} {i j : ScopeId}

/-- Scopes stay alike while the heap grows. -/
private theorem Scope.Alike.grows {h₁ : Heap} {s t : Scope}
    (alike : s.Alike m h i j t) (grows : h.Grows h₁) : s.Alike m h₁ i j t where
  around := alike.around
  find? name counts := rel_mono (alike.find? name counts) fun _ _ alike =>
    alike.grows grows

/-- The same name bound on both sides, to what is alike. -/
private theorem Scope.Alike.bind {s t : Scope} {a b : Outcome}
    (alike : s.Alike m h i j t) (name : String) (bound : a.Alike m h b) :
    (s.bind name a).Alike m h i j (t.bind name b) where
  around := alike.around
  find? other counts := by
    by_cases same : other = name
    · subst same
      rw [Scope.find?_bind_self, Scope.find?_bind_self]
      exact .some bound
    · rw [Scope.find?_bind_of_ne _ _ same, Scope.find?_bind_of_ne _ _ same]
      exact alike.find? other counts

namespace Heap.Alike

/-- In a void scope nothing is found. -/
private theorem lookupWithin_void (alike : h.Alike m h') {name : String}
    (counts : m.names name) (void : m.void j) (steps : Nat) :
    h'.lookupWithin name steps j = none := by
  obtain ⟨t, at_j, empty⟩ := alike.void j void
  cases steps with
  | zero => rfl
  | succ steps =>
      simp only [Heap.lookupWithin, at_j, empty.find? name counts, empty.outer]

/-- A name is bound alike as seen from partners. The bounds on the way
outward differ with the places of the scopes; each of them is enough. -/
private theorem lookupWithin (alike : h.Alike m h') {name : String}
    (counts : m.names name) {steps steps' : Nat} (pairs : m.scopes.Pairs i j)
    (inside : i < h.scopes.size)
    (enough : i < steps) (enough' : j < steps') :
    Option.Rel (Outcome.Alike m h) (h.lookupWithin name steps i)
      (h'.lookupWithin name steps' j) := by
  induction steps generalizing i j steps' with
  | zero => cases enough
  | succ steps ih =>
      obtain ⟨steps', rfl⟩ := Nat.exists_eq_add_one_of_ne_zero
          (Nat.ne_zero_of_lt enough')
      obtain ⟨t, at_j, same⟩ :=
        alike.partner i j _ pairs (Array.getElem?_eq_getElem inside)
      rw [Heap.lookupWithin, Heap.lookupWithin,
        Array.getElem?_eq_getElem inside, at_j]
      dsimp only
      rcases rel_inv (same.find? name counts) with ⟨none_i, none_j⟩
        | ⟨a, b, some_i, some_j, found⟩
      · rw [none_i, none_j]
        dsimp only
        have around := same.around
        generalize h.scopes[i].outer = outer, t.outer = outer' at around ⊢
        cases around with
        | none => exact .none
        | @some o p earlier outside =>
            have earlier' := (outside.lt_iff pairs).1 earlier
            exact ih outside (Nat.lt_trans earlier inside)
              (Nat.lt_of_lt_of_le earlier (Nat.le_of_lt_succ enough))
              (Nat.lt_of_lt_of_le earlier' (Nat.le_of_lt_succ enough'))
        | void _ void =>
            dsimp only
            rw [alike.lookupWithin_void counts void]
            exact .none
      · rw [some_i, some_j]
        exact .some found

/-- A name that counts is found on both sides or on neither. -/
theorem lookup (alike : h.Alike m h') {name : String} (counts : m.names name)
    (pairs : m.scopes.Pairs i j) (inside : i < h.scopes.size) :
    Option.Rel (Outcome.Alike m h) (h.lookup i name) (h'.lookup j name) :=
  alike.lookupWithin counts pairs inside (Nat.lt_succ_self i)
    (Nat.lt_succ_self j)

/-- Binding in paired scopes what is alike. -/
theorem bind (alike : h.Alike m h') (pairs : m.scopes.Pairs i j) (name : String)
    {a b : Outcome} (bound : a.Alike m h b) :
    (h.bind i name a).Alike m (h'.bind j name b) where
  scopes := by
    rw [size_bind, size_bind]
    exact alike.scopes
  stamps := alike.stamps
  partner i' j' s pairs' at_i' := by
    have grows := h.grows_bind i name a
    by_cases same : i' = i
    · have same' := (pairs'.eq_iff pairs).1 same
      subst same same'
      rw [getElem?_bind_self] at at_i' ⊢
      obtain ⟨s, at_i, rfl⟩ := Option.map_eq_some_iff.1 at_i'
      obtain ⟨t, at_j, same⟩ := alike.partner _ _ s pairs' at_i
      exact ⟨t.bind name b, by rw [at_j]; rfl,
        (same.bind name bound).grows grows⟩
    · have same' := mt (pairs'.eq_iff pairs).2 same
      rw [getElem?_bind_of_ne h i same] at at_i'
      rw [getElem?_bind_of_ne h' j same']
      obtain ⟨t, at_j, same⟩ := alike.partner _ _ s pairs' at_i'
      exact ⟨t, at_j, same.grows grows⟩
  void p void := by
    have ne : p ≠ j := by
      intro same
      subst same
      exact m.void_unpaired i p void pairs
    rw [getElem?_bind_of_ne h' j ne]
    exact alike.void p void

/-- Parameters bound in paired scopes to arguments that are alike. -/
private theorem bindAll (alike : h.Alike m h') (pairs : m.scopes.Pairs i j)
    (params : List String) {args args' : List Value}
    (bound : List.Forall₂ (Value.Alike m h) args args') :
    (h.bindAll i (params.zip (args.map .value))).Alike m
      (h'.bindAll j (params.zip (args'.map .value))) := by
  induction params generalizing h h' args args' with
  | nil => exact alike
  | cons name params ih =>
      cases bound with
      | nil => exact alike
      | @cons a b _ _ first others =>
          have grows := h.grows_bind i name (.value a)
          exact ih (alike.bind pairs name first)
            (others.imp fun _ _ alike => alike.grows grows)

/-- New functions are partners if their scopes are. -/
theorem newClosure (alike : h.Alike m h') (pairs : m.scopes.Pairs i j)
    (inside : i < h.scopes.size) {params : List String} {body : Block}
    (named : ∀ name ∈ params ++ Stmt.namesAll body, m.names name) :
    (h.newClosure params body i).2.Alike m (h'.newClosure params body j).2
      ∧ (h.newClosure params body i).1.Alike m (h.newClosure params body i).2
          (h'.newClosure params body j).1 := by
  have grows := h.grows_newClosure params body i
  constructor
  · refine ⟨alike.scopes, alike.stamps.succ, ?_, alike.void⟩
    intro i j s pairs at_i
    obtain ⟨t, at_j, same⟩ := alike.partner i j s pairs at_i
    exact ⟨t, at_j, same.grows grows⟩
  · exact ⟨rfl, rfl, pairs, alike.stamps.pairs,
      ⟨inside, Nat.lt_succ_self _⟩, named⟩

/-- New scopes are partners if the scopes around them are. -/
private theorem newScope (alike : h.Alike m h') (pairs : m.scopes.Pairs i j)
    (inside : i < h.scopes.size) :
    (h.newScope (some i)).2.Alike m (h'.newScope (some j)).2 where
  scopes := by
    rw [Heap.newScope, Heap.newScope, Array.size_push, Array.size_push]
    exact alike.scopes.succ
  stamps := alike.stamps
  partner i' j' s pairs' at_i' := by
    have grows := h.grows_newScope (some i)
    have newest := pairs'.eq_iff alike.scopes.pairs
    rw [Heap.newScope, Array.getElem?_push] at at_i' ⊢
    by_cases last : i' = h.scopes.size
    · rw [if_pos last] at at_i'
      rw [if_pos (newest.1 last)]
      cases at_i'
      refine ⟨_, rfl, .some (last ▸ inside) pairs, ?_⟩
      intro name _
      exact .none
    · rw [if_neg last] at at_i'
      rw [if_neg (mt newest.2 last)]
      obtain ⟨t, at_j, same⟩ := alike.partner i' j' s pairs' at_i'
      exact ⟨t, at_j, same.grows grows⟩
  void p void := by
    obtain ⟨t, at_p, empty⟩ := alike.void p void
    obtain ⟨there, _⟩ := Array.getElem?_eq_some_iff.1 at_p
    rw [Heap.newScope, Array.getElem?_push, if_neg (Nat.ne_of_lt there)]
    exact ⟨t, at_p, empty⟩

end Heap.Alike

/-- To enter partners with partners as arguments leads to heaps that are
alike. -/
theorem Closure.Alike.enter {f g : Closure} (same : f.Alike m h g)
    (alike : h.Alike m h') {args args' : List Value}
    (given : List.Forall₂ (Value.Alike m h) args args') :
    (f.enter (args.map .value) h).2.Alike m
      (g.enter (args'.map .value) h').2 := by
  have grows := h.grows_newScope (some f.scope)
  have entered := alike.newScope same.scope same.inside.scope
  unfold Closure.enter
  rw [← same.params]
  exact entered.bindAll alike.scopes.pairs f.params
    (given.imp fun _ _ alike => alike.grows grows)

end Steps

end Scriptlet
