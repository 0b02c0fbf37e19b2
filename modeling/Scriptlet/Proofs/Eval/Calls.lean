/-
What a call depends on, and what is left of it.

A call sees the scope its function was made in, the scopes around that
one, and whatever can be reached from there or from its arguments through
functions that are bound on the way. The scope it is called from is not
among them, unless it is reached in this way. So two heaps that agree in
what can be reached cannot be told apart by a call
(`Value.applyTo_lexical`).

A call leaves what was there before as it was. So it can be made again
from the heap it leaves, and gives the same again but for the numbers of
what it makes (`Value.applyTo_again`).

Both compare two runs, and both are a matter of saying what the two heaps
have in common: in the first case what can be reached, in the second all
that was there before.
-/
import Scriptlet.Proofs.Eval.Parallel

namespace Scriptlet

-- ======================================================== reached scopes

/-- The scopes that can be reached from the functions among some values:
where they were made, then outward, and on to where the functions that
are bound there were made. -/
inductive Heap.Reaches (h : Heap) (roots : List Value) : ScopeId → Prop where
  | root {f : Closure} (mem : .closure f ∈ roots) : Reaches h roots f.scope
  | outer {i o : ScopeId} {s : Scope} (reached : Reaches h roots i)
      (at_i : h.scopes[i]? = some s) (around : s.outer = some o) :
        Reaches h roots o
  | bound {i : ScopeId} {s : Scope} {name : String} {outcome : Outcome}
      {f : Closure} (reached : Reaches h roots i) (at_i : h.scopes[i]? = some s)
      (found : s.find? name = some outcome) (is_f : outcome.closure? = some f) :
      Reaches h roots f.scope

/-- Two heaps have the same scope at a place. -/
def Heap.AgreeAt (i : ScopeId) (h h' : Heap) : Prop :=
  ∃ s t, h.scopes[i]? = some s ∧ h'.scopes[i]? = some t ∧ s.Same t

/-- Heaps that agree in what can be reached are alike as far as that
goes. -/
private theorem Heap.alike_of_agree {h h' : Heap} {roots : List Value}
    (sound : h.WellFormed) (sound' : h'.WellFormed)
    (agree : ∀ i, h.Reaches roots i → Heap.AgreeAt i h h') :
    h.Alike (.since (h.Reaches roots) h h') h' := by
  refine Heap.alike_since sound sound' ?_ ?_ ?_
  · intro i s reached at_i
    obtain ⟨s', t, at_i', at_j, same⟩ := agree i reached
    rw [at_i] at at_i'
    cases at_i'
    exact ⟨t, at_j, same⟩
  · intro i s o reached at_i around
    exact .outer reached at_i around
  · intro i s name outcome f reached at_i found is_f
    exact .bound reached at_i found is_f

/-- A call leaves two heaps in agreement where they were. -/
private theorem Heap.AgreeAt.applyTo {h₁ h₂ h₁' h₂' : Heap} {i : ScopeId}
    (agree : Heap.AgreeAt i h₁ h₂) {limit : Nat} {callee : Value}
    {args : List Value} {r₁ r₂ : Outcome}
    (run₁ : callee.applyTo (Closure.call limit) args h₁ = some (r₁, h₁'))
    (run₂ : callee.applyTo (Closure.call limit) args h₂ = some (r₂, h₂')) :
    Heap.AgreeAt i h₁' h₂' := by
  obtain ⟨s, t, at_i, at_j, same⟩ := agree
  obtain ⟨there₁, _⟩ := Array.getElem?_eq_some_iff.1 at_i
  obtain ⟨there₂, _⟩ := Array.getElem?_eq_some_iff.1 at_j
  refine ⟨s, t, ?_, ?_, same⟩
  · rw [(Value.applyTo_kept run₁).others i there₁ (Nat.ne_of_lt there₁), at_i]
  · rw [(Value.applyTo_kept run₂).others i there₂ (Nat.ne_of_lt there₂), at_j]

-- ============================================================== results

/-- Scoping is lexical. Let two well-formed heaps have the same places
for scopes and agree in all that can be reached from a function and from
some arguments. Then calling the function with them completes in both
heaps or in neither. The outcomes are the same and so are the scopes that
are made, where scopes and functions that are made are matched in order,
and what could be reached is still the same in both. -/
theorem Value.applyTo_lexical {h₁ h₂ : Heap} {f : Closure} {args : List Value}
    (sound₁ : h₁.WellFormed) (sound₂ : h₂.WellFormed)
    (same_places : h₁.scopes.size = h₂.scopes.size)
    (inside₁ : h₁.Holds (.closure f :: args))
    (inside₂ : h₂.Holds (.closure f :: args))
    (agree : ∀ i, h₁.Reaches (.closure f :: args) i → Heap.AgreeAt i h₁ h₂)
    (limit : Nat) :
    let m := Matching.since (h₁.Reaches (.closure f :: args)) h₁ h₂
    Option.Rel
      (fun r₁ r₂ => r₁.1.Alike m r₁.2 r₂.1 ∧ r₁.2.Alike m r₂.2
        ∧ r₁.2.scopes.size = r₂.2.scopes.size
        ∧ ∀ i, h₁.Reaches (.closure f :: args) i → Heap.AgreeAt i r₁.2 r₂.2)
      ((Value.closure f).applyTo (Closure.call limit) args h₁)
      ((Value.closure f).applyTo (Closure.call limit) args h₂) := by
  intro m
  have alike : h₁.Alike m h₂ := Heap.alike_of_agree sound₁ sound₂ agree
  have both := Value.applyTo_since alike inside₁ inside₂
      (fun g mem => .root mem) limit
  rcases rel_inv both with ⟨none₁, none₂⟩
    | ⟨r₁, r₂, run₁, run₂, -, same, alike'⟩
  · rw [none₁, none₂]
    exact .none
  · rw [run₁, run₂]
    refine .some ⟨same, alike', ?_,
      fun i reached => (agree i reached).applyTo run₁ run₂⟩
    obtain ⟨made, size₁, size₂⟩ := alike'.scopes
    rw [size₁, size₂]
    exact congrArg (· + made) same_places

/-- The caller binds `x` too, to a number in one heap and to a string in
the other, and in the second one more function was made. None of this
matters to `fn(a) { fn() { x + a } }`, made in the scope around. -/
theorem Value.applyTo_lexical_shadowed :
    let sum : Expr := .fn [] [.expr (.binary .add (.ident "x") (.ident "a"))]
    let f : Closure := ⟨0, ["a"], [.expr sum], 0⟩
    let outside := (Heap.empty.newScope none).2.bind 0 "x" (.value (.int 1))
    let h := (outside.newClosure f.params f.body 0).2.newScope (some 0)
    let h₁ := h.2.bind h.1 "x" (.value (.int 2))
    let h₂ := ((h.2.bind h.1 "x" (.value (.str "two"))).newClosure [] [] h.1).2
    let roots : List Value := [.closure f, .int 3]
    (h₁.WellFormed ∧ h₂.WellFormed ∧ ∀ i, h₁.Reaches roots i →
      Heap.AgreeAt i h₁ h₂)
      ∧ ∃ g₁ h₁' g₂ h₂', g₁.stamp = 1 ∧ g₂.stamp = 2
        ∧ (Value.closure f).applyTo (Closure.call 1) [.int 3] h₁
          = some (.value (.closure g₁), h₁')
        ∧ (Value.closure f).applyTo (Closure.call 1) [.int 3] h₂
          = some (.value (.closure g₂), h₂')
        ∧ h₁'.Alike (.since (h₁.Reaches roots) h₁ h₂) h₂' := by
  intro sum f outside h h₁ h₂ roots
  have word (w : Int64) (h : Heap) : (Outcome.value (.int w)).Inside h :=
    fun _ is_f => by cases is_f
  have text (s : String) (h : Heap) : (Outcome.value (.str s)).Inside h :=
    fun _ is_f => by cases is_f
  have sound : h.2.WellFormed :=
    (((Heap.wellFormed_empty.newScope (by simp)).bind 0 "x"
      (word 1 _)).newClosure _ _ 0).newScope
        (by simp [Heap.newClosure, Heap.newScope, Heap.empty, Heap.bind])
  have sound₁ : h₁.WellFormed := sound.bind _ _ (word 2 _)
  have sound₂ : h₂.WellFormed :=
    (sound.bind _ _ (text "two" _)).newClosure _ _ _
  have inside {h : Heap} (made : f.Inside h) : h.Holds roots := by
    intro v mem g is_g
    simp only [roots, List.mem_cons, List.not_mem_nil, or_false] at mem
    rcases mem with rfl | rfl
    · cases is_g
      exact made
    · cases is_g
  have only (i : ScopeId) (reached : h₁.Reaches roots i) : i = 0 := by
    induction reached with
    | root mem =>
        simp only [roots, List.mem_cons, Value.closure.injEq, reduceCtorEq,
          List.not_mem_nil, or_false] at mem
        rw [mem]
    | outer _ at_i around ih =>
        subst ih
        cases at_i
        cases around
    | @bound _ _ name _ _ _ at_i found is_f ih =>
        subst ih
        cases at_i
        by_cases is_x : name = "x"
        · subst is_x
          cases found
          cases is_f
        · have nothing :=
            (Scope.find?_bind_of_ne ⟨[], none⟩
              (.value (.int 1)) is_x).symm.trans found
          cases nothing
  have agree (i : ScopeId) (reached : h₁.Reaches roots i) :
      Heap.AgreeAt i h₁ h₂ := by
    rw [only i reached]
    exact ⟨_, _, rfl, rfl, rfl, fun _ => rfl⟩
  refine ⟨⟨sound₁, sound₂, agree⟩, _, _, _, _, rfl, rfl, rfl, rfl, ?_⟩
  have both := Value.applyTo_lexical sound₁ sound₂ rfl
    (inside ⟨by decide, by decide⟩) (inside ⟨by decide, by decide⟩) agree 1
  cases both with
  | some same => exact same.2.1

/-- Calls are repeatable. A call that completes can be made again from
the heap it leaves, which is well-formed again, and completes again. The
outcome is the same but for the numbers of the functions and scopes that
were made; so it looks the same, and if it is no function it is the
same. -/
theorem Value.applyTo_again {h h' : Heap} {f : Closure} {args : List Value}
    {limit : Nat} {r : Outcome} (sound : h.WellFormed)
    (inside : h.Holds (.closure f :: args))
    (run : (Value.closure f).applyTo
      (Closure.call limit) args h = some (r, h')) :
    h'.WellFormed ∧ ∃ r' h'',
      (Value.closure f).applyTo (Closure.call limit) args h' = some (r', h'')
        ∧ r.Alike (.since (fun _ => True) h h') h' r'
        ∧ r'.kindName = r.kindName ∧ r'.text = r.text ∧ (r.Plain → r' = r) := by
  obtain ⟨sound', -, grows⟩ := Value.applyTo_wellFormed sound inside run
  refine ⟨sound', ?_⟩
  have kept := Value.applyTo_kept run
  have alike : h.Alike (.since (fun _ => True) h h') h' := by
    refine Heap.alike_since sound sound' ?_ (fun _ _ _ _ _ _ => trivial) ?_
    · intro i s _ at_i
      obtain ⟨there, _⟩ := Array.getElem?_eq_some_iff.1 at_i
      exact ⟨s, (kept.others i there (Nat.ne_of_lt there)).trans at_i, rfl,
        fun _ => rfl⟩
    · exact fun _ _ _ _ _ _ _ _ _ => trivial
  have both := Value.applyTo_since alike inside (inside.grows grows)
      (fun _ _ => trivial) limit
  rw [run] at both
  rcases rel_inv both with ⟨none, -⟩ | ⟨_, ⟨r', h''⟩, eq, again, -, same, -⟩
  · cases none
  · cases eq
    exact ⟨r', h'', again, same, same.kindName_eq.symm, same.text_eq.symm,
      same.eq_of_plain⟩

/-- `fn() { let g = fn() { 1 }; if (g == g) { g } else { 1 } }` gives a
function each time, and not the same one twice. -/
theorem Value.applyTo_again_new_function :
    let one : Expr := .fn [] [.expr (.int 1)]
    let pick : Expr :=
      .cond (.binary .equal (.ident "g") (.ident "g")) [.expr (.ident "g")]
        (some [.expr (.int 1)])
    let f : Closure := ⟨0, [], [.bind "g" one, .expr pick], 0⟩
    let h := ((Heap.empty.newScope none).2.newClosure f.params f.body 0).2
    (h.WellFormed ∧ h.Holds [.closure f]) ∧ ∃ g h', g.stamp = 1
      ∧ (Value.closure f).applyTo (Closure.call 1) [] h
        = some (.value (.closure g), h')
      ∧ ∃ r h'', (Value.closure f).applyTo (Closure.call 1) [] h'
        = some (r, h'')
        ∧ r.text = "fn() \x7b 1 \x7d"
        ∧ (Outcome.value (.closure g)).Alike
          (.since (fun _ => True) h h') h' r := by
  intro one pick f h
  have sound : h.WellFormed :=
    (Heap.wellFormed_empty.newScope (by simp)).newClosure _ _ 0
  have inside : h.Holds [.closure f] := by
    intro v mem g is_g
    rw [List.mem_singleton] at mem
    subst mem
    cases is_g
    exact ⟨by decide, by decide⟩
  have run : (Value.closure f).applyTo (Closure.call 1) [] h = some _ := rfl
  obtain ⟨-, r, h'', again, same, -, text, -⟩ :=
    Value.applyTo_again sound inside run
  refine ⟨⟨sound, inside⟩, _, _, rfl, run, ?_⟩
  exact ⟨r, h'', again, text.trans (by decide), same⟩

end Scriptlet
