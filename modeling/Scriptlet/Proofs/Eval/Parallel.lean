/-
What starts alike goes on alike.

A node is evaluated twice, in heaps that are alike and in scopes that are
partners. Then both evaluations complete or neither does, and they end in
outcomes and in heaps that are alike (`Node.run_alike`). The same holds
of calls (`Value.applyTo_alike`, `Closure.call_alike`).

The induction goes over the syntax for callers that keep what is alike,
and then over the limit for the callers themselves. Two heaps that are
alike need not have the same scopes: what is compared is fixed by the
matching, and the matching stays the same throughout, because it already
says how what is yet to be made will be paired.

# A heap beside itself

A heap is well-formed exactly when it is alike to itself, so evaluation
keeps heaps well-formed: that is the case of two runs that are the same
run (`Node.run_wellFormed`).
-/
import Scriptlet.Proofs.Eval.Frame
import Scriptlet.Proofs.Eval.Matching

namespace Scriptlet

variable {m : Matching}

-- ================================================================ runs

/-- Both runs complete, in what is alike, or neither does. The heap is
the one that the first run starts from. -/
def Run.Alike (m : Matching) (h : Heap) : Run → Run → Prop :=
  Option.Rel fun r r' => h.Grows r.2 ∧ r.1.Alike m r.2 r'.1 ∧ r.2.Alike m r'.2

namespace Run.Alike

variable {h h₁ h' : Heap} {run run' : Run}

private theorem ended {a b : Outcome} (alike : h.Alike m h')
    (same : a.Alike m h b) :
    Run.Alike m h (some (a, h)) (some (b, h')) :=
  .some ⟨.refl h, same, alike⟩

/-- The heap to start from may be an earlier one. -/
private theorem after (grows : h.Grows h₁) (alike : Run.Alike m h₁ run run') :
    Run.Alike m h run run' :=
  rel_mono alike fun _ _ ⟨grows₁, same⟩ => ⟨grows.trans grows₁, same⟩

/-- A signal ends both runs, and a value lets both go on. -/
private theorem onValue {next next' : Value → Heap → Run}
    (first : Run.Alike m h run run')
    (rest : ∀ v w h₁ h₁', h.Grows h₁ → h₁.Alike m h₁' → v.Alike m h₁ w →
      Run.Alike m h₁ (next v h₁) (next' w h₁')) :
    Run.Alike m h (run.onValue next) (run'.onValue next') := by
  rcases rel_inv first with ⟨rfl, rfl⟩
    | ⟨⟨a, h₁⟩, ⟨b, h₁'⟩, rfl, rfl, grows, same, alike⟩
  · exact .none
  · cases same with
    | @plain a plain =>
        cases a with
        | value v =>
            exact (rest v v h₁ h₁' grows alike (.plain plain)).after grows
        | error fault => exact .some ⟨grows, .plain plain, alike⟩
        | returned inner => exact plain.elim
    | @closure f g same =>
        exact (rest (.closure f) (.closure g) h₁ h₁' grows alike
          (.closure same)).after grows
    | returned same => exact .some ⟨grows, .returned same, alike⟩

/-- Leaving a call, on both sides. -/
theorem unwrapped (alike : Run.Alike m h run run') :
    Run.Alike m h (run.map fun r => (r.1.unwrapped, r.2))
      (run'.map fun r => (r.1.unwrapped, r.2)) := by
  rcases rel_inv alike with ⟨rfl, rfl⟩ | ⟨r, r', rfl, rfl, grows, same, alike⟩
  · exact .none
  · exact .some ⟨grows, same.unwrapped, alike⟩

end Run.Alike

-- =============================================================== calls

/-- Two callers that run partners alike. -/
def Caller.Alike (m : Matching) (call call' : Caller) : Prop :=
  ∀ (f g : Closure) (args args' : List Value) (h h' : Heap), h.Alike m h' →
    f.Alike m h g →
    List.Forall₂ (Value.Alike m h) args args' →
    Run.Alike m h (call f args h) (call' g args' h')

/-- Values that are alike are called alike: both are functions, with the
same parameters, or neither is. -/
theorem Value.applyTo_alike {call call' : Caller}
    (calls : Caller.Alike m call call') {h h' : Heap} (alike : h.Alike m h')
    {callee callee' : Value}
    (same : callee.Alike m h callee') {args args' : List Value}
    (given : List.Forall₂ (Value.Alike m h) args args') :
    Run.Alike m h (callee.applyTo call args h)
      (callee'.applyTo call' args' h') := by
  have refused (fault : Fault) :
      Run.Alike m h (some (.error fault, h)) (some (.error fault, h')) :=
    .ended alike (.plain trivial)
  cases same with
  | plain plain =>
      cases callee with
      | int | bool | str | null => exact refused _
      | closure f => exact absurd rfl plain
  | @closure f g same =>
      unfold Value.applyTo
      dsimp only
      rw [same.params, given.length_eq]
      split
      · exact calls f g args args' h h' alike same given
      · exact refused _

-- ========================================================== evaluation

section Evaluation

variable {call call' : Caller} {scope scope' : ScopeId}

mutual

/-- An expression in paired scopes, by the rule that evaluates it. Only its
own names are looked up, so only those have to be bound alike. -/
theorem Expr.eval_alike (calls : Caller.Alike m call call')
    (pairs : m.scopes.Pairs scope scope') :
    (e : Expr) → {h h' : Heap} → h.Alike m h' → scope < h.scopes.size →
    (∀ name ∈ e.names, m.names name) →
    Run.Alike m h (e.eval call scope h) (e.eval call' scope' h')
  | .ident name, h, h', alike, inside, named => by
      rw [Expr.eval, Expr.eval]
      have found := alike.lookup
          (named name (by simp [Expr.names])) pairs inside
      rcases rel_inv found with ⟨free, free'⟩ | ⟨a, b, bound, bound', same⟩
      · rw [free, free']
        exact .ended alike (.plain trivial)
      · rw [bound, bound']
        exact .ended alike same
  | .int _, _, _, alike, _, _ => .ended alike (.plain Kind.noConfusion)
  | .bool _, _, _, alike, _, _ => .ended alike (.plain Kind.noConfusion)
  | .str _, _, _, alike, _, _ => .ended alike (.plain Kind.noConfusion)
  | .unary op e, h, h', alike, inside, named => by
      rw [Expr.eval, Expr.eval]
      refine (Expr.eval_alike calls pairs e alike inside named).onValue ?_
      intro v w h₁ h₁' _ alike₁ same
      rw [op.apply_alike same]
      exact .ended alike₁ (.plain (op.plain_apply w))
  | .binary op l r, h, h', alike, inside, named => by
      rw [Expr.names, List.forall_mem_append] at named
      rw [Expr.eval, Expr.eval]
      refine (Expr.eval_alike calls pairs l alike inside named.1).onValue ?_
      intro a a' h₁ h₁' grows₁ alike₁ left
      have inside₁ := Nat.lt_of_lt_of_le inside grows₁.scopes
      refine (Expr.eval_alike calls pairs r alike₁ inside₁ named.2).onValue ?_
      intro b b' h₂ h₂' grows₂ alike₂ right
      -- the left operand has waited, and is still alike in the later heap
      rw [op.apply_alike (left.grows grows₂) right]
      exact .ended alike₂ (.plain (op.plain_apply a' b'))
  | .cond test yes none, h, h', alike, inside, named => by
      rw [Expr.names, List.forall_mem_append] at named
      rw [Expr.eval, Expr.eval]
      refine (Expr.eval_alike calls pairs test alike inside named.1).onValue ?_
      intro v w h₁ h₁' grows alike₁ same
      have inside₁ := Nat.lt_of_lt_of_le inside grows.scopes
      rw [same.truthy_eq]
      split
      · exact Stmt.evalAll_alike calls pairs yes .null alike₁ inside₁ named.2
      · exact .ended alike₁ Value.Alike.null
  | .cond test yes (some no), h, h', alike, inside, named => by
      rw [Expr.names, List.forall_mem_append, List.forall_mem_append] at named
      rw [Expr.eval, Expr.eval]
      refine (Expr.eval_alike calls pairs test alike inside named.1).onValue ?_
      intro v w h₁ h₁' grows alike₁ same
      have inside₁ := Nat.lt_of_lt_of_le inside grows.scopes
      rw [same.truthy_eq]
      split
      · exact Stmt.evalAll_alike calls pairs yes .null alike₁ inside₁ named.2.1
      · exact Stmt.evalAll_alike calls pairs no .null alike₁ inside₁ named.2.2
  | .fn params body, h, h', alike, inside, named => by
      obtain ⟨alike₁, same⟩ := alike.newClosure pairs inside named
      exact .some ⟨h.grows_newClosure params body scope, .closure same, alike₁⟩
  | .call callee args, h, h', alike, inside, named => by
      rw [Expr.names, List.forall_mem_append] at named
      rw [Expr.eval, Expr.eval]
      refine
        (Expr.eval_alike calls pairs callee alike inside named.1).onValue ?_
      intro f g h₁ h₁' grows alike₁ same
      have inside₁ := Nat.lt_of_lt_of_le inside grows.scopes
      exact Expr.evalArgs_alike calls pairs args same .nil alike₁
        inside₁ named.2

theorem Expr.evalArgs_alike (calls : Caller.Alike m call call')
    (pairs : m.scopes.Pairs scope scope') :
    (args : List Expr) → {callee callee' : Value} → {done done' : List Value} →
    {h h' : Heap} →
    callee.Alike m h callee' → List.Forall₂ (Value.Alike m h) done done' →
    h.Alike m h' → scope < h.scopes.size →
    (∀ name ∈ Expr.namesAll args, m.names name) →
    Run.Alike m h (Expr.evalArgs call scope callee args done h)
      (Expr.evalArgs call' scope' callee' args done' h')
  | [], _, _, _, _, _, _, same, given, alike, _, _ => by
      rw [Expr.evalArgs, Expr.evalArgs]
      exact Value.applyTo_alike calls alike same given
  | arg :: args, _, _, _, _, _, _, same, given, alike, inside, named => by
      rw [Expr.namesAll, List.forall_mem_append] at named
      rw [Expr.evalArgs, Expr.evalArgs]
      refine (Expr.eval_alike calls pairs arg alike inside named.1).onValue ?_
      intro v w h₁ h₁' grows alike₁ last
      have inside₁ := Nat.lt_of_lt_of_le inside grows.scopes
      -- the callee and the arguments before had to wait for this one
      have earlier := given.imp fun _ _ same => Outcome.Alike.grows same grows
      exact Expr.evalArgs_alike calls pairs args (same.grows grows)
        (List.rel_append earlier (.cons last .nil)) alike₁ inside₁ named.2

theorem Stmt.eval_alike (calls : Caller.Alike m call call')
    (pairs : m.scopes.Pairs scope scope') :
    (s : Stmt) → {h h' : Heap} → h.Alike m h' → scope < h.scopes.size →
    (∀ name ∈ s.names, m.names name) →
    Run.Alike m h (s.eval call scope h) (s.eval call' scope' h')
  | .bind name e, h, h', alike, inside, named => by
      rw [Stmt.names, List.forall_mem_cons] at named
      rw [Stmt.eval, Stmt.eval]
      refine (Expr.eval_alike calls pairs e alike inside named.2).onValue ?_
      intro v w h₁ h₁' _ alike₁ same
      exact .some ⟨h₁.grows_bind scope name (.value v), Value.Alike.null,
        alike₁.bind pairs name same⟩
  | .ret none, _, _, alike, _, _ => .ended alike (.returned Value.Alike.null)
  | .ret (some e), h, h', alike, inside, named => by
      rw [Stmt.eval, Stmt.eval]
      refine (Expr.eval_alike calls pairs e alike inside named).onValue ?_
      intro v w h₁ h₁' _ alike₁ same
      exact .ended alike₁ (.returned same)
  | .expr e, h, h', alike, inside, named => by
      rw [Stmt.eval, Stmt.eval]
      exact Expr.eval_alike calls pairs e alike inside named

theorem Stmt.evalAll_alike (calls : Caller.Alike m call call')
    (pairs : m.scopes.Pairs scope scope') :
    (ss : List Stmt) → {last last' : Value} → {h h' : Heap} →
    last.Alike m h last' →
    h.Alike m h' → scope < h.scopes.size →
    (∀ name ∈ Stmt.namesAll ss, m.names name) →
    Run.Alike m h (Stmt.evalAll call scope ss last h)
      (Stmt.evalAll call' scope' ss last' h')
  | [], _, _, _, _, same, alike, _, _ => .ended alike same
  | s :: ss, _, _, h, h', _, alike, inside, named => by
      rw [Stmt.namesAll, List.forall_mem_append] at named
      rw [Stmt.evalAll, Stmt.evalAll]
      refine (Stmt.eval_alike calls pairs s alike inside named.1).onValue ?_
      intro v w h₁ h₁' grows alike₁ same
      have inside₁ := Nat.lt_of_lt_of_le inside grows.scopes
      exact Stmt.evalAll_alike calls pairs ss same alike₁ inside₁ named.2

end

end Evaluation

-- ====================================================== calls in calls

/-- A call as one run: the body in a new scope, and then the signal taken
off. -/
theorem Closure.call_eq_map (limit : Nat) (f : Closure) (args : List Value)
    (h : Heap) :
    Closure.call (limit + 1) f args h =
      (Stmt.evalAll (Closure.call limit)
        (f.enter (args.map .value) h).1 f.body .null (f.enter
          (args.map .value) h).2).map fun r => (r.1.unwrapped, r.2) := by
  rw [Closure.call_succ]
  dsimp only
  cases Stmt.evalAll (Closure.call limit)
    (f.enter (args.map .value) h).1 f.body .null
      (f.enter (args.map .value) h).2 with
  | none => rfl
  | some r => rfl

/-- Calls keep what is alike however deep they nest. -/
theorem Closure.call_alike (limit : Nat) :
    Caller.Alike m (Closure.call limit) (Closure.call limit) := by
  induction limit with
  | zero =>
      intro _ _ _ _ _ _ _ _ _
      exact .none
  | succ limit ih =>
      intro f g args args' h h' alike same given
      have entered := same.enter alike given
      have inside :
          (f.enter (args.map .value) h).1
            < (f.enter (args.map .value) h).2.scopes.size := by
        rw [f.size_enter]
        exact Nat.lt_succ_self _
      have named : ∀ name ∈ Stmt.namesAll f.body, m.names name :=
        fun name mem => same.named name (List.mem_append_right _ mem)
      have body := Stmt.evalAll_alike ih alike.scopes.pairs f.body .null entered
          inside named
      rw [Closure.call_eq_map, Closure.call_eq_map, ← same.body]
      exact (body.after (f.grows_enter _ h)).unwrapped

-- =============================================================== nodes

/-- The names that a node mentions. -/
def Node.names : Node → List String
  | .program p => Stmt.namesAll p
  | .stmt s => s.names
  | .block body => Stmt.namesAll body
  | .expr e => e.names

/-- A program is a block at whose end a `return` has arrived. -/
theorem Program.runFrom_eq_map (call : Caller) (scope : ScopeId) (p : Program)
    (last : Value) (h : Heap) :
    Program.runFrom call scope p last h
      = (Stmt.evalAll call scope p last h).map
        fun r => (r.1.unwrapped, r.2) := by
  induction p generalizing last h with
  | nil => rfl
  | cons s ss ih =>
      rw [Program.runFrom, Stmt.evalAll]
      cases s.eval call scope h with
      | none => rfl
      | some r =>
          obtain ⟨outcome, h⟩ := r
          cases outcome with
          | value v => exact ih v h
          | error fault => rfl
          | returned inner => rfl

/-- A node evaluated in partners, in heaps that are alike, has the same
outcome in both but for the numbers of functions and scopes, and leaves
heaps that are alike; or neither evaluation completes. -/
theorem Node.run_alike (limit : Nat) {scope scope' : ScopeId}
    (pairs : m.scopes.Pairs scope scope') {h h' : Heap} (alike : h.Alike m h')
    (inside : scope < h.scopes.size) (node : Node)
    (named : ∀ name ∈ node.names, m.names name) :
    Run.Alike m h (node.run limit scope h) (node.run limit scope' h') := by
  have calls : Caller.Alike m (Closure.call limit) (Closure.call limit) :=
    Closure.call_alike limit
  cases node with
  | program p =>
      rw [Node.run, Node.run, Program.run, Program.run, Program.runFrom_eq_map,
        Program.runFrom_eq_map]
      exact (Stmt.evalAll_alike calls pairs p .null alike inside
        named).unwrapped
  | stmt s => exact Stmt.eval_alike calls pairs s alike inside named
  | block body =>
      exact Stmt.evalAll_alike calls pairs body .null alike inside named
  | expr e => exact Expr.eval_alike calls pairs e alike inside named

-- ======================================================= common origins

/-- Two scopes with the same bindings, in whatever order they are
kept. -/
structure Scope.Same (s t : Scope) : Prop where
  outer : s.outer = t.outer
  find? : ∀ name, s.find? name = t.find? name

/-- The matching for two runs from heaps that have these scopes in
common. -/
def Matching.since (shared : ScopeId → Prop) (h h' : Heap) : Matching where
  scopes := ⟨shared, h.scopes.size, h'.scopes.size⟩
  stamps := ⟨fun _ => True, h.closures, h'.closures⟩
  names _ := True
  void _ := False
  void_unpaired _ _ void := void.elim

section Origins

variable {shared : ScopeId → Prop} {h h' : Heap}

/-- An outcome is like itself where the functions it carries were made in
shared scopes. -/
private theorem Outcome.alike_since {outcome : Outcome}
    (inside : outcome.Inside h) (inside' : outcome.Inside h')
    (common : ∀ f, outcome.closure? = some f → shared f.scope) :
    outcome.Alike (.since shared h h') h outcome := by
  induction outcome with
  | value v =>
      cases v with
      | closure f =>
          have made := inside f rfl
          have made' := inside' f rfl
          exact .closure ⟨rfl, rfl,
            .shared (common f rfl) made.scope made'.scope,
            .shared trivial made.stamp made'.stamp, made, fun _ _ => trivial⟩
      | int | bool | str | null => exact .plain Kind.noConfusion
  | error fault => exact .plain trivial
  | returned inner ih => exact .returned (ih inside inside' common)

/-- Two well-formed heaps are alike to begin with, if they agree in some
scopes that lead to no others. -/
theorem Heap.alike_since (sound : h.WellFormed) (sound' : h'.WellFormed)
    (agree : ∀ i s, shared i → h.scopes[i]? = some s →
      ∃ t, h'.scopes[i]? = some t ∧ s.Same t)
    (outer : ∀ (i : ScopeId) s o, shared i → h.scopes[i]? = some s →
      s.outer = some o → shared o)
    (bound : ∀ (i : ScopeId) s name outcome f, shared i →
      h.scopes[i]? = some s →
      s.find? name = some outcome → outcome.closure? = some f →
      shared f.scope) :
    h.Alike (.since shared h h') h' where
  scopes := ⟨0, rfl, rfl⟩
  stamps := ⟨0, rfl, rfl⟩
  partner i j s pairs at_i := by
    obtain ⟨there, _⟩ := Array.getElem?_eq_some_iff.1 at_i
    cases pairs with
    | made k => exact absurd there (Nat.not_lt.2 (Nat.le_add_right _ k))
    | shared common _ there' =>
        obtain ⟨t, at_j, same⟩ := agree i s common at_i
        refine ⟨t, at_j, ?_, ?_⟩
        · rw [← same.outer]
          cases around : s.outer with
          | none => exact .none
          | some o =>
              have earlier := sound.outer i s o at_i around
              exact .some earlier (.shared (outer i s o common at_i around)
                (Nat.lt_trans earlier there) (Nat.lt_trans earlier there'))
        · intro name _
          rw [← same.find?]
          cases found : s.find? name with
          | none => exact .none
          | some outcome =>
              refine .some (Outcome.alike_since
                (sound.bound i s name outcome at_i found) ?_ ?_)
              · exact sound'.bound i t name outcome at_j
                  ((same.find? name).symm.trans found)
              · exact fun f => bound i s name outcome f common at_i found
  void _ void := void.elim

/-- No value refers to something that is not in the heap. -/
def Heap.Holds (h : Heap) (values : List Value) : Prop :=
  ∀ v ∈ values, (Outcome.value v).Inside h

/-- Values of a heap are values of every later one. -/
theorem Heap.Holds.grows {values : List Value} (holds : h.Holds values)
    (grows : h.Grows h') :
    h'.Holds values :=
  fun v mem => (holds v mem).grows grows

/-- One call from two heaps that are alike. -/
theorem Value.applyTo_since (alike : h.Alike (.since shared h h') h')
    {callee : Value} {args : List Value} (inside : h.Holds (callee :: args))
    (inside' : h'.Holds (callee :: args))
    (common : ∀ f, .closure f ∈ callee :: args → shared f.scope) (limit : Nat) :
    Run.Alike (.since shared h h') h
      (callee.applyTo (Closure.call limit) args h)
      (callee.applyTo (Closure.call limit) args h') := by
  have self (v : Value) (mem : v ∈ callee :: args) :
      v.Alike (.since shared h h') h v := by
    refine Outcome.alike_since (inside v mem) (inside' v mem) ?_
    intro f is_f
    cases v with
    | closure =>
        cases is_f
        exact common f mem
    | int | bool | str | null => cases is_f
  have given : List.Forall₂ (Value.Alike (.since shared h h') h) args args :=
    List.forall₂_same.2 fun v mem => self v (List.mem_cons_of_mem _ mem)
  exact Value.applyTo_alike (Closure.call_alike limit) alike
    (self callee List.mem_cons_self) given

end Origins

-- =================================================== well-formed heaps

section WellFormed

variable {h h₁ : Heap}

/-- The matching of a run with itself. -/
abbrev Matching.self (h : Heap) : Matching :=
  .since (fun _ => True) h h

/-- A well-formed heap is alike to itself. -/
private theorem Heap.WellFormed.alike_self (sound : h.WellFormed) :
    h.Alike (.self h) h :=
  Heap.alike_since sound sound (fun _ s _ at_i => ⟨s, at_i, rfl, fun _ => rfl⟩)
    (fun _ _ _ _ _ _ => trivial) fun _ _ _ _ _ _ _ _ _ => trivial

/-- There each scope is paired with itself. -/
private theorem Matching.pairs_self (h : Heap) (i : ScopeId) :
    (Matching.self h).scopes.Pairs i i := by
  rcases Nat.lt_or_ge i h.scopes.size with before | behind
  · exact .shared trivial before before
  · obtain ⟨k, rfl⟩ := Nat.exists_eq_add_of_le behind
    exact .made k

/-- What is like something is of the heap. -/
private theorem Outcome.Alike.inside {a b : Outcome} (alike : a.Alike m h b) :
    a.Inside h := by
  induction alike with
  | @plain a plain =>
      intro f is_f
      cases a with
      | value v =>
          cases v with
          | closure => exact absurd rfl plain
          | int | bool | str | null => cases is_f
      | error => cases is_f
      | returned => exact plain.elim
  | closure alike =>
      intro f is_f
      cases is_f
      exact alike.inside
  | returned _ ih => exact ih

/-- A heap alike to itself is well-formed. -/
private theorem Heap.Alike.wellFormed (alike : h₁.Alike (.self h) h₁) :
    h₁.WellFormed := by
  have self {i : ScopeId} {s : Scope} (at_i : h₁.scopes[i]? = some s) :
      s.Alike (.self h) h₁ i i s := by
    obtain ⟨t, at_i', same⟩ :=
      alike.partner i i s (Matching.pairs_self h i) at_i
    rw [at_i] at at_i'
    cases at_i'
    exact same
  constructor
  · intro i s o at_i around
    have same := (self at_i).around
    rw [around] at same
    cases same with
    | some earlier => exact earlier
  · intro i s name outcome at_i found
    have same := (self at_i).find? name trivial
    rw [found] at same
    cases same with
    | some same => exact same.inside

/-- What a run from a well-formed heap ends in. -/
private theorem Run.Alike.wellFormed {run : Run}
    (alike : Run.Alike (.self h) h run run) {outcome : Outcome}
    (eq : run = some (outcome, h₁)) :
    h₁.WellFormed ∧ outcome.Inside h₁ ∧ h.Grows h₁ := by
  subst eq
  cases alike with
  | some same => exact ⟨same.2.2.wellFormed, same.2.1.inside, same.1⟩

/-- Evaluation keeps heaps well-formed. -/
theorem Node.run_wellFormed {limit : Nat} {scope : ScopeId} {node : Node}
    {outcome : Outcome} (sound : h.WellFormed) (inside : scope < h.scopes.size)
    (run : node.run limit scope h = some (outcome, h₁)) :
    h₁.WellFormed ∧ outcome.Inside h₁ ∧ h.Grows h₁ :=
  (Node.run_alike limit (Matching.pairs_self h scope)
    sound.alike_self inside node fun _ _ => trivial).wellFormed run

/-- And so do calls. -/
theorem Value.applyTo_wellFormed {limit : Nat} {callee : Value}
    {args : List Value} {outcome : Outcome} (sound : h.WellFormed)
    (inside : h.Holds (callee :: args))
    (run : callee.applyTo (Closure.call limit) args h = some (outcome, h₁)) :
    h₁.WellFormed ∧ outcome.Inside h₁ ∧ h.Grows h₁ :=
  (Value.applyTo_since sound.alike_self inside inside
    (fun _ _ => trivial) limit).wellFormed run

end WellFormed

end Scriptlet
