/-
Names that are not mentioned do not matter.

A name that occurs neither in a node nor in a function of the heap may be
bound to anything in the scope of the evaluation: the outcome is the
same, function for function and scope for scope, and so is the heap that
is left, except for that one binding, which is still what it was.

# Two halves

Other names than `x` are compared between the two runs. That they are
bound alike is kept by every step (`Node.run_alike`), and since both runs
start with as many scopes and functions, what corresponds has the same
number, so alike means equal.

The name `x` itself is followed through each run alone: no scope gets or
loses a binding of it (`Run.Spares`). Along with it goes that no function
at hand mentions `x`. It is asked of what other names are bound to only,
because what `x` was bound to may well be a function that mentions `x`.
-/
import Scriptlet.Proofs.Eval.Bindings
import Scriptlet.Proofs.Eval.History

namespace Scriptlet

-- ============================================================= silence

/-- The outcome neither is nor returns a function in which the name
occurs. -/
def Outcome.Silent (x : String) (outcome : Outcome) : Prop :=
  ∀ f, outcome.closure? = some f → x ∉ f.names

/-- No function that is bound to another name mentions `x`. -/
def Heap.Silent (x : String) (h : Heap) : Prop :=
  h.BindsOnly fun name outcome => name ≠ x → outcome.Silent x

variable {x : String}

/-- What carries no function mentions nothing. -/
private theorem Outcome.silent_of_none {outcome : Outcome}
    (none : outcome.closure? = none) :
    outcome.Silent x := by
  intro f is_f
  rw [none] at is_f
  cases is_f

-- ==================================================== bindings of a name

namespace Heap

/-- Binding another name leaves what `x` is bound to. -/
private theorem bound?_bind_of_ne (h : Heap) (scope : ScopeId) {name : String}
    (ne : x ≠ name) (outcome : Outcome) (i : ScopeId) :
    (h.bind scope name outcome).bound? i x = h.bound? i x := by
  unfold bound?
  by_cases own : i = scope
  · subst own
    rw [getElem?_bind_self]
    cases h.scopes[i]? with
    | none => rfl
    | some s => exact s.find?_bind_of_ne outcome ne
  · rw [getElem?_bind_of_ne h scope own]

/-- Binding changes no outer link. -/
private theorem outer_bind (h : Heap) (scope : ScopeId) (name : String)
    (outcome : Outcome) (i : ScopeId) :
    (h.bind scope name outcome).scopes[i]?.map Scope.outer
      = h.scopes[i]?.map Scope.outer := by
  by_cases own : i = scope
  · subst own
    rw [getElem?_bind_self, Option.map_map]
    rfl
  · rw [getElem?_bind_of_ne h scope own]

/-- Binding several other names likewise. -/
private theorem bound?_bindAll_of_notMem (h : Heap) (scope : ScopeId)
    {entries : List (String × Outcome)}
    (absent : ∀ entry ∈ entries, x ≠ entry.1) (i : ScopeId) :
    (h.bindAll scope entries).bound? i x = h.bound? i x := by
  induction entries generalizing h with
  | nil => rfl
  | cons entry rest ih =>
      rw [List.forall_mem_cons] at absent
      rw [bindAll, ih _ absent.2, h.bound?_bind_of_ne scope absent.1]

end Heap

-- ============================================================= one run

/-- If the run completes, `x` is bound where it was and to what it was,
and no function that is at hand mentions it. -/
def Run.Spares (x : String) (h : Heap) (run : Run) : Prop :=
  ∀ outcome h', run = some (outcome, h') →
    outcome.Silent x ∧ h'.Silent x ∧ ∀ i, h'.bound? i x = h.bound? i x

namespace Run.Spares

variable {h h₁ : Heap} {run : Run}

/-- Nothing happens, and what is given does not mention `x`. -/
private theorem ended {outcome : Outcome} (quiet : h.Silent x)
    (silent : outcome.Silent x) :
    Run.Spares x h (some (outcome, h)) := by
  intro _ _ eq
  cases eq
  exact ⟨silent, quiet, fun _ => rfl⟩

/-- What spares `x` from a later heap spares it from this one, if `x` is
bound alike in both. -/
private theorem after (same : ∀ i, h₁.bound? i x = h.bound? i x)
    (spares : Run.Spares x h₁ run) :
    Run.Spares x h run := by
  intro outcome h' eq
  obtain ⟨silent, quiet, kept⟩ := spares outcome h' eq
  exact ⟨silent, quiet, fun i => (kept i).trans (same i)⟩

/-- Both steps spare `x`, and the second starts from a heap that does not
mention it. -/
private theorem onValue {next : Value → Heap → Run} (first : Run.Spares x h run)
    (rest : ∀ v h₁, h₁.Silent x → (Outcome.value v).Silent x → Run.Spares x h₁
      (next v h₁)) :
    Run.Spares x h (run.onValue next) := by
  intro outcome h' eq
  cases run with
  | none => cases eq
  | some r =>
      obtain ⟨inner, h₁⟩ := r
      obtain ⟨silent, quiet, kept⟩ := first inner h₁ rfl
      cases inner with
      | value v => exact after kept (rest v h₁ quiet silent) outcome h' eq
      | error fault =>
          cases eq
          exact ⟨silent, quiet, kept⟩
      | returned inner =>
          cases eq
          exact ⟨silent, quiet, kept⟩

/-- What is returned does not mention `x` either. -/
private theorem unwrapped (spares : Run.Spares x h run) :
    Run.Spares x h (run.map fun r => (r.1.unwrapped, r.2)) := by
  intro outcome h' eq
  obtain ⟨⟨inner, h₁⟩, done, same⟩ := Option.map_eq_some_iff.1 eq
  cases same
  obtain ⟨silent, rest⟩ := spares inner h₁ done
  refine ⟨?_, rest⟩
  unfold Outcome.Silent
  rw [Outcome.closure?_unwrapped]
  exact silent

end Run.Spares

/-- A caller that spares the name when it runs functions that do not
mention it. -/
def Caller.Spares (x : String) (call : Caller) : Prop :=
  ∀ (f : Closure) (args : List Value) (h : Heap), h.Silent x → x ∉ f.names →
    (∀ a ∈ args, (Outcome.value a).Silent x) → Run.Spares x h (call f args h)

/-- A call spares `x` if the function and the arguments do not mention it. A
function that did could bring `x` back from the scope where it was made. -/
private theorem Value.applyTo_spares {call : Caller} (calls : call.Spares x)
    {callee : Value} {args : List Value} {h : Heap} (quiet : h.Silent x)
    (silent : (Outcome.value callee).Silent x)
    (given : ∀ a ∈ args, (Outcome.value a).Silent x) :
    Run.Spares x h (callee.applyTo call args h) := by
  cases callee with
  | closure f =>
      rw [Value.applyTo]
      split
      · exact calls f args h quiet (silent f rfl) given
      · exact .ended quiet (Outcome.silent_of_none rfl)
  | int | bool | str | null => exact .ended quiet (Outcome.silent_of_none rfl)

section Evaluation

variable {call : Caller} {scope : ScopeId}

mutual

/-- An expression that does not mention `x`. The names in the bodies of its
functions count as mentioned, since the values it makes carry them. -/
theorem Expr.eval_spares (calls : call.Spares x) :
    (e : Expr) → {h : Heap} → h.Silent x →
    x ∉ e.names → Run.Spares x h (e.eval call scope h)
  | .ident name, h, quiet, absent => by
      rw [Expr.names, List.mem_singleton] at absent
      rw [Expr.eval]
      cases found : h.lookup scope name with
      | some outcome =>
          exact .ended quiet (quiet.lookupWithin found (Ne.symm absent))
      | none => exact .ended quiet (Outcome.silent_of_none rfl)
  | .int _, _, quiet, _ => .ended quiet (Outcome.silent_of_none rfl)
  | .bool _, _, quiet, _ => .ended quiet (Outcome.silent_of_none rfl)
  | .str _, _, quiet, _ => .ended quiet (Outcome.silent_of_none rfl)
  | .unary op e, h, quiet, absent => by
      rw [Expr.eval]
      refine (e.eval_spares calls quiet absent).onValue fun v h₁ quiet₁ _ => ?_
      exact .ended quiet₁ (Outcome.silent_of_none
        (op.plain_apply v).closure?_eq_none)
  | .binary op l r, h, quiet, absent => by
      rw [Expr.names, List.mem_append, not_or] at absent
      rw [Expr.eval]
      refine (l.eval_spares calls quiet absent.1).onValue
        fun a h₁ quiet₁ _ => ?_
      refine (r.eval_spares calls quiet₁ absent.2).onValue
        fun b h₂ quiet₂ _ => ?_
      exact .ended quiet₂ (Outcome.silent_of_none
        (op.plain_apply a b).closure?_eq_none)
  | .cond test yes none, h, quiet, absent => by
      rw [Expr.names, List.mem_append, not_or] at absent
      rw [Expr.eval]
      refine (test.eval_spares calls quiet absent.1).onValue
        fun v h₁ quiet₁ _ => ?_
      split
      · exact Stmt.evalAll_spares calls yes quiet₁ absent.2
          (Outcome.silent_of_none rfl)
      · exact .ended quiet₁ (Outcome.silent_of_none rfl)
  | .cond test yes (some no), h, quiet, absent => by
      rw [Expr.names, List.mem_append, List.mem_append, not_or, not_or]
        at absent
      rw [Expr.eval]
      refine (test.eval_spares calls quiet absent.1).onValue
        fun v h₁ quiet₁ _ => ?_
      split
      · exact Stmt.evalAll_spares calls yes quiet₁ absent.2.1
          (Outcome.silent_of_none rfl)
      · exact Stmt.evalAll_spares calls no quiet₁ absent.2.2
          (Outcome.silent_of_none rfl)
  | .fn params body, h, quiet, absent => by
      intro outcome h' eq
      cases eq
      refine ⟨?_, quiet, fun _ => rfl⟩
      intro f is_f
      cases is_f
      exact absent
  | .call callee args, h, quiet, absent => by
      rw [Expr.names, List.mem_append, not_or] at absent
      rw [Expr.eval]
      refine (callee.eval_spares calls quiet absent.1).onValue
        fun f h₁ quiet₁ silent => ?_
      exact Expr.evalArgs_spares calls silent args
        (List.forall_mem_nil _) quiet₁ absent.2

theorem Expr.evalArgs_spares (calls : call.Spares x) {callee : Value}
    (silent : (Outcome.value callee).Silent x) :
    (args : List Expr) → {done : List Value} →
    (∀ a ∈ done, (Outcome.value a).Silent x) → {h : Heap} → h.Silent x →
    x ∉ Expr.namesAll args → Run.Spares x h
      (Expr.evalArgs call scope callee args done h)
  | [], _, given, _, quiet, _ => by
      rw [Expr.evalArgs]
      exact Value.applyTo_spares calls quiet silent given
  | arg :: args, done, given, h, quiet, absent => by
      rw [Expr.namesAll, List.mem_append, not_or] at absent
      rw [Expr.evalArgs]
      refine (arg.eval_spares calls quiet absent.1).onValue
        fun v h₁ quiet₁ last => ?_
      have given₁ : ∀ a ∈ done ++ [v], (Outcome.value a).Silent x :=
        List.forall_mem_append.2 ⟨given, List.forall_mem_singleton.2 last⟩
      exact Expr.evalArgs_spares calls silent args given₁ quiet₁ absent.2

theorem Stmt.eval_spares (calls : call.Spares x) :
    (s : Stmt) → {h : Heap} → h.Silent x →
    x ∉ s.names → Run.Spares x h (s.eval call scope h)
  | .bind name e, h, quiet, absent => by
      rw [Stmt.names, List.mem_cons, not_or] at absent
      rw [Stmt.eval]
      refine (e.eval_spares calls quiet absent.2).onValue
        fun v h₁ quiet₁ silent => ?_
      intro outcome h' eq
      cases eq
      exact ⟨Outcome.silent_of_none rfl, quiet₁.bind scope fun _ => silent,
        h₁.bound?_bind_of_ne scope absent.1 (.value v)⟩
  | .ret none, _, quiet, _ => .ended quiet (Outcome.silent_of_none rfl)
  | .ret (some e), h, quiet, absent => by
      rw [Stmt.eval]
      refine (e.eval_spares calls quiet absent).onValue
        fun v h₁ quiet₁ silent => ?_
      exact .ended quiet₁ silent
  | .expr e, h, quiet, absent => by
      rw [Stmt.eval]
      exact e.eval_spares calls quiet absent

theorem Stmt.evalAll_spares (calls : call.Spares x) :
    (ss : List Stmt) → {h : Heap} →
    h.Silent x → x ∉ Stmt.namesAll ss → {last : Value} →
    (Outcome.value last).Silent x →
    Run.Spares x h (Stmt.evalAll call scope ss last h)
  | [], _, quiet, _, _, silent => .ended quiet silent
  | s :: ss, h, quiet, absent, _, _ => by
      rw [Stmt.namesAll, List.mem_append, not_or] at absent
      rw [Stmt.evalAll]
      refine (s.eval_spares calls quiet absent.1).onValue
        fun v h₁ quiet₁ silent => ?_
      exact Stmt.evalAll_spares calls ss quiet₁ absent.2 silent

end

end Evaluation

/-- Entering a function binds its parameters, and `x` is none of
them. -/
private theorem Closure.enter_spares {f : Closure} (absent : x ∉ f.names)
    {args : List Value} {h : Heap} (quiet : h.Silent x)
    (given : ∀ a ∈ args, (Outcome.value a).Silent x) :
    (f.enter (args.map .value) h).2.Silent x ∧
      ∀ i, (f.enter (args.map .value) h).2.bound? i x = h.bound? i x := by
  rw [Closure.names, List.mem_append, not_or] at absent
  constructor
  · refine quiet.enter f fun entry mem _ => ?_
    obtain ⟨a, among, is_a⟩ := List.mem_map.1 (List.of_mem_zip mem).2
    rw [← is_a]
    exact given a among
  · intro i
    rw [Closure.enter, Heap.bound?_bindAll_of_notMem, Heap.bound?_newScope]
    intro entry mem is_x
    rw [is_x] at absent
    exact absent.1 (List.of_mem_zip mem).1

/-- Calls spare `x` under every limit. -/
theorem Closure.call_spares (limit : Nat) :
    Caller.Spares x (Closure.call limit) := by
  induction limit with
  | zero =>
      intro _ _ _ _ _ _ _ _ eq
      cases eq
  | succ limit ih =>
      intro f args h quiet absent given
      obtain ⟨quiet₁, same⟩ := Closure.enter_spares absent quiet given
      rw [Closure.names, List.mem_append, not_or] at absent
      rw [Closure.call_eq_map]
      refine Run.Spares.after same (Run.Spares.unwrapped ?_)
      exact Stmt.evalAll_spares ih f.body quiet₁ absent.2
        (Outcome.silent_of_none rfl)

/-- A node that does not mention `x` leaves its bindings alone, in every
scope. -/
theorem Node.run_spares (limit : Nat) (scope : ScopeId) {node : Node} {h : Heap}
    (quiet : h.Silent x) (absent : x ∉ node.names) :
    Run.Spares x h (node.run limit scope h) := by
  have calls : Caller.Spares x (Closure.call limit) := Closure.call_spares limit
  have null : Outcome.Silent x (.value .null) := Outcome.silent_of_none rfl
  cases node with
  | program p =>
      rw [Node.run, Program.run, Program.runFrom_eq_map]
      exact (Stmt.evalAll_spares calls p quiet absent null).unwrapped
  | stmt s => exact Stmt.eval_spares calls s quiet absent
  | block body => exact Stmt.evalAll_spares calls body quiet absent null
  | expr e => exact Expr.eval_spares calls e quiet absent

-- ============================================================ two runs

/-- Two runs that start with as many give the same numbers. -/
private theorem Pairing.Pairs.eq_of_even {p : Pairing} {i j : Nat}
    (pairs : p.Pairs i j) (even : p.left = p.right) : i = j := by
  cases pairs with
  | shared => rfl
  | made k => rw [even]

/-- Where the two sides have made equally many scopes and share all, a scope
is paired with itself. -/
private theorem Pairing.pairs_self_of_even {p : Pairing} (all : ∀ i, p.shared i)
    (even : p.left = p.right) (i : Nat) : p.Pairs i i := by
  by_cases before : i < p.left
  · exact .shared (all i) before (even ▸ before)
  · obtain ⟨k, rfl⟩ := Nat.exists_eq_add_of_le (Nat.not_lt.1 before)
    have made : p.Pairs (p.left + k) (p.right + k) := .made k
    rw [← even] at made
    exact made

/-- The matching for two runs of which the second starts with `x` bound
to something else. -/
def Matching.except (x : String) (h h' : Heap) : Matching :=
  { Matching.since (fun _ => True) h h' with names := (· ≠ x) }

section TwoRuns

variable {h : Heap} {scope : ScopeId} {v : Outcome}

/-- An outcome that does not mention `x` is like itself, whatever `x` is
bound to on the other side. -/
private theorem Outcome.alike_except {outcome : Outcome}
    (inside : outcome.Inside h) (silent : outcome.Silent x) :
    outcome.Alike (.except x h (h.bind scope x v)) h outcome := by
  induction outcome with
  | value w =>
      cases w with
      | closure f =>
          have made := inside f rfl
          refine .closure ⟨rfl, rfl, .shared trivial made.scope ?_,
            .shared trivial made.stamp made.stamp, made, ?_⟩
          · show f.scope < (h.bind scope x v).scopes.size
            rw [Heap.size_bind]
            exact made.scope
          · intro name mem is_x
            subst is_x
            exact silent f rfl mem
      | int | bool | str | null => exact .plain Kind.noConfusion
  | error fault => exact .plain trivial
  | returned inner ih => exact .returned (ih inside silent)

/-- To begin with the heaps differ in what `x` is bound to. -/
private theorem Heap.alike_except (sound : h.WellFormed)
    (silent : h.BindsOnly fun _ outcome => outcome.Silent x) :
    h.Alike (.except x h (h.bind scope x v)) (h.bind scope x v) where
  scopes := ⟨0, rfl, rfl⟩
  stamps := ⟨0, rfl, rfl⟩
  partner i j s pairs at_i := by
    obtain ⟨there, _⟩ := Array.getElem?_eq_some_iff.1 at_i
    cases pairs with
    | made k => exact absurd there (Nat.not_lt.2 (Nat.le_add_right _ k))
    | shared _ _ there' =>
        obtain ⟨t, at_j⟩ : ∃ t, (h.bind scope x v).scopes[i]? = some t :=
          ⟨_, Array.getElem?_eq_getElem there'⟩
        refine ⟨t, at_j, ?_, ?_⟩
        · have outer : t.outer = s.outer := by
            have eq := h.outer_bind scope x v i
            rw [at_i, at_j] at eq
            exact Option.some.inj eq
          rw [outer]
          cases around : s.outer with
          | none => exact .none
          | some o =>
              have earlier := sound.outer i s o at_i around
              exact .some earlier (.shared trivial (Nat.lt_trans earlier there)
                (Nat.lt_trans earlier there'))
        · intro name ne
          have eq := h.bound?_bind_of_ne scope ne v i
          unfold Heap.bound? at eq
          rw [at_i, at_j, Option.bind_some, Option.bind_some] at eq
          rw [eq]
          cases found : s.find? name with
          | none => exact .none
          | some outcome =>
              exact .some (Outcome.alike_except
                (sound.bound i s name outcome at_i found)
                (silent i s name outcome at_i found))
  void _ void := void.elim

/-- Numbers that belong together are equal here, so what is alike is
equal. -/
private theorem Outcome.Alike.eq_of_except {a b : Outcome} {h₁ : Heap}
    (alike : a.Alike (.except x h (h.bind scope x v)) h₁ b) : a = b := by
  induction alike with
  | plain => rfl
  | @closure f g same =>
      have scope_eq : f.scope = g.scope :=
        same.scope.eq_of_even (Heap.size_bind h scope x v).symm
      have stamp_eq : f.stamp = g.stamp := same.stamp.eq_of_even rfl
      obtain ⟨_, _, _, _⟩ := f
      obtain ⟨_, _, _, _⟩ := g
      cases same.params
      cases same.body
      cases scope_eq
      cases stamp_eq
      rfl
  | returned _ ih => rw [ih]

private theorem Matching.Around.eq_of_except {i j : ScopeId}
    {o p : Option ScopeId}
    (around : (Matching.except x h (h.bind scope x v)).Around i j o p) :
    o = p := by
  cases around with
  | none => rfl
  | some _ pairs => rw [pairs.eq_of_even (Heap.size_bind h scope x v).symm]
  | void _ void => exact void.elim

/-- Two scopes with the same place, in heaps that are alike. -/
private theorem Heap.Alike.scope_of_except {h₁ h₂ : Heap}
    (alike : h₁.Alike (.except x h (h.bind scope x v)) h₂) (i : ScopeId) :
    h₁.scopes[i]?.map Scope.outer = h₂.scopes[i]?.map Scope.outer ∧
      ∀ name, name ≠ x → h₁.bound? i name = h₂.bound? i name := by
  have even : h.scopes.size = (h.bind scope x v).scopes.size :=
    (Heap.size_bind h scope x v).symm
  unfold Heap.bound?
  cases at_i : h₁.scopes[i]? with
  | none =>
      have size : h₁.scopes.size = h₂.scopes.size :=
        alike.scopes.pairs.eq_of_even even
      rw [Array.getElem?_eq_none_iff, size, ← Array.getElem?_eq_none_iff]
        at at_i
      rw [at_i]
      exact ⟨rfl, fun _ _ => rfl⟩
  | some s =>
      have pairs : (Matching.except x h (h.bind scope x v)).scopes.Pairs i i :=
        Pairing.pairs_self_of_even (fun _ => trivial) even i
      obtain ⟨t, at_j, same⟩ := alike.partner i i s pairs at_i
      rw [at_j]
      constructor
      · show some s.outer = some t.outer
        rw [same.around.eq_of_except]
      · intro name ne
        show s.find? name = t.find? name
        rcases rel_inv (same.find? name ne) with ⟨free, free'⟩
          | ⟨a, b, bound, bound', same⟩
        · rw [free, free']
        · rw [bound, bound', same.eq_of_except]

end TwoRuns

-- ============================================================== result

/-- The same scopes, standing in the same ones and binding the same
names to the same. -/
structure Heap.Same (h h' : Heap) : Prop where
  closures : h.closures = h'.closures
  outer : ∀ i : ScopeId,
    h.scopes[i]?.map Scope.outer = h'.scopes[i]?.map Scope.outer
  bound : ∀ i name, h.bound? i name = h'.bound? i name

/-- A name that is not mentioned may be bound to anything. The two runs
complete together, with the same outcome, and the heaps they leave are
the same but for that binding, which has stayed as it was. -/
theorem Node.run_unmentioned {h : Heap} (sound : h.WellFormed) {scope : ScopeId}
    (there : scope < h.scopes.size) {x : String}
    (unbound : h.bound? scope x = none) {node : Node}
    (absent : x ∉ node.names)
    (silent : h.BindsOnly fun _ outcome => outcome.Silent x)
    (v : Outcome) (limit : Nat) :
    Option.Rel (fun r r' => r'.1 = r.1 ∧ r.2.bound? scope x = none
        ∧ r'.2.bound? scope x = some v ∧ (r.2.bind scope x v).Same r'.2)
      (node.run limit scope h) (node.run limit scope (h.bind scope x v)) := by
  have there' : scope < (h.bind scope x v).scopes.size := by
    rw [Heap.size_bind]
    exact there
  have quiet : h.Silent x :=
    fun i s name outcome at_i found _ => silent i s name outcome at_i found
  -- nothing is asked of what `x` itself is bound to
  have quiet' : (h.bind scope x v).Silent x :=
    quiet.bind scope fun ne => absurd rfl ne
  have alike : h.Alike (.except x h (h.bind scope x v)) (h.bind scope x v) :=
    Heap.alike_except sound silent
  have both := Node.run_alike limit (.shared trivial there there') alike
    there node fun name mem is_x => absent (is_x ▸ mem)
  have spares := Node.run_spares limit scope quiet absent
  have spares' := Node.run_spares limit scope quiet' absent
  rcases rel_inv both with ⟨none, none'⟩
    | ⟨⟨outcome, h₁⟩, ⟨outcome', h₂⟩, run, run', ends⟩
  · rw [none, none']
    exact .none
  · obtain ⟨grows, same, alike⟩ := ends
    rw [run, run']
    have kept := (spares outcome h₁ run).2.2
    have kept' := (spares' outcome' h₂ run').2.2
    have there₁ : scope < h₁.scopes.size :=
      Nat.lt_of_lt_of_le there grows.scopes
    refine .some ⟨same.eq_of_except.symm, (kept scope).trans unbound,
      ?_, ?_, ?_, ?_⟩
    · show h₂.bound? scope x = some v
      rw [kept', h.bound?_bind there, if_pos ⟨rfl, rfl⟩]
    · obtain ⟨k, made, made'⟩ := alike.stamps
      exact made.trans made'.symm
    · intro i
      rw [Heap.outer_bind]
      exact (alike.scope_of_except i).1
    · intro i name
      by_cases is_x : name = x
      · subst is_x
        show (h₁.bind scope name v).bound? i name = h₂.bound? i name
        rw [kept', h₁.bound?_bind there₁, h.bound?_bind there, kept]
      · rw [Heap.bound?_bind_of_ne _ _ is_x]
        exact (alike.scope_of_except i).2 name is_x

/-- `w` is bound in the outer scope, and so is `f` to `fn(a) { a + 2 }`.
In the inner scope `let y = f(1); fn() { y }` gives the same function
whether or not `w` is bound there too, to `fn() { w }`. -/
theorem Node.run_unmentioned_function :
    let f : Closure :=
      ⟨0, ["a"], [.expr (.binary .add (.ident "a") (.int 2))], 0⟩
    let around :=
      ((Heap.empty.newScope none).2.newClosure f.params f.body 0).2.bind 0 "w"
        (.value (.int 7))
    let h := ((around.bind 0 "f" (.value (.closure f))).newScope (some 0)).2
    let node : Node := .program [.bind "y" (.call (.ident "f") [.int 1]),
      .expr (.fn [] [.expr (.ident "y")])]
    let v : Outcome := .value (.closure ⟨0, [], [.expr (.ident "w")], 1⟩)
    (h.WellFormed ∧ 1 < h.scopes.size ∧ h.bound? 1 "w" = none ∧ "w" ∉ node.names
      ∧ h.BindsOnly fun _ outcome => outcome.Silent "w") ∧
    ∃ g h₁ h₂, node.run 1 1 h = some (.value (.closure g), h₁)
      ∧ node.run 1 1 (h.bind 1 "w" v) = some (.value (.closure g), h₂)
      ∧ h₂.bound? 1 "w" = some v ∧ (h₁.bind 1 "w" v).Same h₂ := by
  intro f around h node v
  have number {h : Heap} : Outcome.Inside h (.value (.int 7)) :=
    fun _ is_f => nomatch is_f
  have inside : Outcome.Inside around (.value (.closure f)) := by
    intro g is_g
    cases is_g
    exact ⟨by decide, by decide⟩
  have sound : h.WellFormed := by
    have first : (Heap.empty.newScope none).2.WellFormed :=
      Heap.wellFormed_empty.newScope fun _ is_o => nomatch is_o
    have made := first.newClosure f.params f.body 0
    refine ((made.bind 0 "w" number).bind 0 "f" inside).newScope ?_
    intro o is_o
    cases is_o
    decide
  have silent : h.BindsOnly fun _ outcome => outcome.Silent "w" := by
    have nothing : Heap.empty.BindsOnly fun _ outcome => outcome.Silent "w" :=
      fun _ _ _ _ at_i => nomatch at_i
    have silent_f : Outcome.Silent "w" (.value (.closure f)) := by
      intro g is_g
      cases is_g
      decide
    have made : around.BindsOnly fun _ outcome => outcome.Silent "w" :=
      (nothing.newScope none).bind 0 (Outcome.silent_of_none rfl)
    exact (made.bind 0 silent_f).newScope (some 0)
  have absent : "w" ∉ node.names := by decide
  have there : 1 < h.scopes.size := by decide
  refine ⟨⟨sound, there, rfl, absent, silent⟩, ?_⟩
  have run : node.run 1 1 h = some (.value (.closure _), _) := rfl
  have both := Node.run_unmentioned sound there rfl absent silent v 1
  rw [run] at both
  rcases rel_inv both with ⟨none, -⟩
    | ⟨_, ⟨_, h₂⟩, eq, run', same, -, still, rest⟩
  · cases none
  · cases eq
    cases same
    exact ⟨_, _, h₂, run, run', still, rest⟩

end Scriptlet
