/-
What a name is bound to, told from the history of all bindings.

A host makes scopes, sets names in them and evaluates programs in them.
All names that are ever bound are bound by one of three: by the host, by
a `let`, or as a parameter of a call. The writes, in their order, are the
history of the heap, and they say all about it that a look-up can find
out: a look-up gives the last write to the name in the nearest scope in
which the name was ever written.

# Two halves

A scope binds a name to the last write to it there (`Heap.Records`).
Evaluation comes in here by the events that it leaves behind, and the
invariant `written` says that they leave out nothing.

The scopes on the way outward are a finite chain. A scope stands inside
one that was made before it, whatever functions are bound where, and it
keeps that place. So the bound on the steps of a look-up is never felt
(`Heap.lookupWithin_of_chain`).
-/
import Scriptlet.Proofs.Eval.Parallel
import Scriptlet.Proofs.Eval.Reach

namespace Scriptlet

-- ============================================================== writes

/-- A name is bound in a scope. -/
structure Write where
  scope : ScopeId
  name : String
  outcome : Outcome

/-- The write that an event of an evaluation is, if it is one. -/
def Event.write? : Event → Option Write
  | .bind scope name outcome => some ⟨scope, name, outcome⟩
  | _ => none

/-- The outcome of the last write to a name in a scope. -/
def latest (writes : List Write) (scope : ScopeId) (name : String) :
    Option Outcome :=
  ((writes.filter fun w => w.scope = scope ∧ w.name = name).getLast?).map
    Write.outcome

section
variable (scope : ScopeId) (name : String)

@[simp]
theorem latest_nil : latest [] scope name = none := rfl

/-- Later writes come first. -/
private theorem latest_append (ws vs : List Write) :
    latest (ws ++ vs) scope name
      = (latest vs scope name).or (latest ws scope name) := by
  unfold latest
  rw [List.filter_append, List.getLast?_append, Option.map_or]

/-- The latest of one write. -/
private theorem latest_singleton (w : Write) :
    latest [w] scope name = if w.scope = scope ∧ w.name = name
      then some w.outcome else none := by
  unfold latest
  split
  · next hits => simp [hits]
  · next misses => simp [misses]

end

-- ============================================================ bindings

/-- What a name is bound to in one scope of a heap. -/
def Heap.bound? (h : Heap) (scope : ScopeId) (name : String) : Option Outcome :=
  h.scopes[scope]?.bind (·.find? name)

/-- Binding a name changes what this name is bound to, in this scope, and
nothing else. -/
theorem Heap.bound?_bind (h : Heap) {scope : ScopeId}
    (there : scope < h.scopes.size) (name : String) (outcome : Outcome)
    (i : ScopeId) (other : String) :
    (h.bind scope name outcome).bound? i other
      = if scope = i ∧ name = other then some outcome
        else h.bound? i other := by
  unfold Heap.bound?
  by_cases own : i = scope
  · subst own
    rw [Heap.getElem?_bind_self, Array.getElem?_eq_getElem there]
    by_cases same : other = name
    · subst same
      simp
    · simp [Scope.find?_bind_of_ne _ _ same, Ne.symm same]
  · rw [Heap.getElem?_bind_of_ne h scope own]
    simp [Ne.symm own]

/-- A new scope binds nothing. -/
theorem Heap.bound?_newScope (h : Heap) (outer : Option ScopeId) (i : ScopeId)
    (name : String) :
    (h.newScope outer).2.bound? i name = h.bound? i name := by
  unfold Heap.bound? Heap.newScope
  rw [Array.getElem?_push]
  split
  · next last =>
      subst last
      rw [Array.getElem?_eq_none (Nat.le_refl _)]
      rfl
  · rfl

/-- The writes lead from the bindings of the first heap to those of the
second. -/
def Heap.Records (h h' : Heap) (writes : List Write) : Prop :=
  ∀ i name, h'.bound? i name = (latest writes i name).or (h.bound? i name)

namespace Heap.Records

variable {h h₁ h₂ : Heap} {ws vs : List Write}

/-- A step that binds nothing records nothing. -/
private theorem of_bound?_eq
    (same : ∀ i name, h₁.bound? i name = h.bound? i name) :
    Records h h₁ [] := by
  intro i name
  rw [same, latest_nil, Option.none_or]

private theorem trans (first : Records h h₁ ws) (second : Records h₁ h₂ vs) :
    Records h h₂ (ws ++ vs) := by
  intro i name
  rw [second, first, latest_append, Option.or_assoc]

/-- A step that binds a name records it. -/
private theorem bind (h : Heap) {scope : ScopeId}
    (there : scope < h.scopes.size) (name : String) (outcome : Outcome) :
    Records h (h.bind scope name outcome) [⟨scope, name, outcome⟩] := by
  intro i other
  rw [h.bound?_bind there, latest_singleton]
  split
  · rfl
  · rw [Option.none_or]

/-- Names bound one after the other are recorded in that order. -/
private theorem bindAll {scope : ScopeId} (there : scope < h.scopes.size)
    (entries : List (String × Outcome)) :
    Records h (h.bindAll scope entries)
      ((bindEvents scope entries).filterMap Event.write?) := by
  induction entries generalizing h with
  | nil => exact of_bound?_eq fun _ _ => rfl
  | cons entry rest ih =>
      have there₁ : scope < (h.bind scope entry.1 entry.2).scopes.size := by
        rw [Heap.size_bind]
        exact there
      exact (bind h there entry.1 entry.2).trans (ih there₁)

/-- Entering a function writes its parameters. -/
private theorem enter (f : Closure) (args : List Outcome) (h : Heap) :
    Records h (f.enter args h).2
      ((bindEvents (f.enter args h).1
        (f.params.zip args)).filterMap Event.write?) := by
  have made : Records h (h.newScope (some f.scope)).2 [] :=
    of_bound?_eq (h.bound?_newScope _)
  have there : h.scopes.size < (h.newScope (some f.scope)).2.scopes.size := by
    rw [Heap.newScope, Array.size_push]
    exact Nat.lt_succ_self _
  exact made.trans (bindAll there _)

end Heap.Records

/-- The writes of a call are its parameters and those of its body. -/
private theorem filterMap_write?_callEvents (f : Closure)
    (args : List Outcome) (h : Heap) (log : List Event) (outcome : Outcome) :
    (callEvents f args h log outcome).filterMap Event.write?
      = (bindEvents (f.enter args h).1
        (f.params.zip args)).filterMap Event.write?
        ++ log.filterMap Event.write? := by
  unfold callEvents
  rw [List.cons_append, List.filterMap_cons_none rfl, List.filterMap_append,
    List.filterMap_append]
  exact List.append_nil _

/-- The bindings are those of the events. -/
def written : Invariant where
  Holds scope h := scope < h.scopes.size
  Good _ _ := True
  Moves _ _ h h' log :=
    h.scopes.size ≤ h'.scopes.size ∧ h.Records h' (log.filterMap Event.write?)
  stay _ _ _ := ⟨Nat.le_refl _, .of_bound?_eq fun _ _ => rfl⟩
  trans first second := by
    rw [List.filterMap_append]
    exact ⟨Nat.le_trans first.1 second.1, first.2.trans second.2⟩
  lasts _ _ := trivial
  plain _ _ _ := trivial
  returned _ := trivial
  unwrapped _ := trivial
  found _ _ := trivial
  ended _ _ _ _ _ := ⟨Nat.le_refl _, .of_bound?_eq fun _ _ => rfl⟩
  unary _ _ _ _ _ _ := ⟨Nat.le_refl _, .of_bound?_eq fun _ _ => rfl⟩
  binary _ _ _ _ _ _ _ _ := ⟨Nat.le_refl _, .of_bound?_eq fun _ _ => rfl⟩
  refused _ _ _ _ _ _ _ _ := ⟨Nat.le_refl _, .of_bound?_eq fun _ _ => rfl⟩
  closure _ _ _ _ there := ⟨there, trivial, Nat.le_refl _,
    .of_bound?_eq fun _ _ => rfl⟩
  bind there _ _ := by
    rw [Heap.size_bind]
    exact ⟨there, Nat.le_refl _, .bind _ there _ _⟩
  enter _ _ _ _ := by
    rw [Closure.size_enter]
    exact Nat.lt_succ_self _
  leave names h h' f args log outcome there _ _ _ _ _ moves := by
    obtain ⟨size, inside⟩ := moves
    rw [Closure.size_enter] at size
    have longer : h.scopes.size ≤ h'.scopes.size := Nat.le_of_succ_le size
    refine ⟨Nat.lt_of_lt_of_le there longer, longer, ?_⟩
    rw [filterMap_write?_callEvents]
    exact (Heap.Records.enter f (args.map .value) h).trans inside

/-- The writes of an evaluation, in their order. -/
def Node.writes (limit : Nat) (scope : ScopeId) (node : Node) (h : Heap) :
    List Write :=
  match node.traced limit scope h with
  | some (_, _, log) => log.filterMap Event.write?
  | none => []

/-- The bindings after a run are those before it, as its events have
overwritten them. -/
theorem Node.run_records {limit : Nat} {scope : ScopeId} {node : Node}
    {h h' : Heap} {outcome : Outcome} (there : scope < h.scopes.size)
    (run : node.run limit scope h = some (outcome, h')) :
    h.Records h' (node.writes limit scope h) := by
  obtain ⟨log, traced⟩ := Node.exists_log run
  have keeps := written.node limit scope (fun _ => True) h node there
      fun _ _ => trivial
  unfold Node.writes
  rw [traced]
  exact (keeps outcome h' log traced).2.2.2

/-- An evaluation leaves every scope where it stood. -/
private theorem Heap.Kept.widens {scope : ScopeId} {names : String → Prop}
    {h h' : Heap} (kept : Heap.Kept scope names h h') : h.Widens h' := by
  intro i s at_i
  by_cases own : i = scope
  · subst own
    obtain ⟨s', at_i', rebound⟩ := kept.own s at_i
    exact ⟨s', at_i', rebound.outer, rebound.bound,
      fun _ other => absurd trivial other⟩
  · obtain ⟨there, -⟩ := Array.getElem?_eq_some_iff.1 at_i
    exact ⟨s, (kept.others i there own).trans at_i, .refl _ s⟩

-- ========================================================== parameters

/-- The events of entering a call are writes, one for each parameter. -/
private theorem filterMap_write?_bindEvents (scope : ScopeId)
    (entries : List (String × Outcome)) :
    (bindEvents scope entries).filterMap Event.write?
      = entries.map fun entry => ⟨scope, entry.1, entry.2⟩ := by
  induction entries with
  | nil => rfl
  | cons entry rest ih =>
      exact congrArg (Write.mk scope entry.1 entry.2 :: ·) ih

private theorem latest_eq_none {writes : List Write} {name : String}
    (scope : ScopeId) (other : ∀ w ∈ writes, w.name ≠ name) :
    latest writes scope name = none := by
  have misses :
      (writes.filter fun w => w.scope = scope ∧ w.name = name) = [] := by
    rw [List.filter_eq_nil_iff]
    intro w mem hits
    exact other w mem (of_decide_eq_true hits).2
  unfold latest
  rw [misses]
  rfl

/-- The last write to a name among pairs of names and outcomes. -/
private theorem latest_zip (scope : ScopeId) {names : List String}
    {outcomes : List Outcome} (same_length : names.length = outcomes.length)
    {i : Nat} {name : String}
    (at_i : names[i]? = some name) (last : ∀ j, i < j → names[j]? ≠ some name) :
    latest ((names.zip outcomes).map fun entry => ⟨scope, entry.1, entry.2⟩)
      scope name
      = outcomes[i]? := by
  induction names generalizing outcomes i with
  | nil => cases at_i
  | cons first names ih =>
      obtain ⟨outcome, outcomes, rfl⟩ :=
        List.exists_cons_of_length_eq_add_one same_length.symm
      rw [List.length_cons, List.length_cons, Nat.add_right_cancel_iff]
        at same_length
      rw [List.zip_cons_cons, List.map_cons, ← List.singleton_append,
        latest_append]
      cases i with
      | zero =>
          obtain rfl : first = name := Option.some.inj at_i
          have later : latest ((names.zip outcomes).map fun entry =>
            ⟨scope, entry.1, entry.2⟩)
              scope first = none := by
            refine latest_eq_none scope fun w mem is_first => ?_
            obtain ⟨entry, paired, rfl⟩ := List.mem_map.1 mem
            obtain ⟨j, at_j⟩ := List.getElem?_of_mem (List.of_mem_zip paired).1
            refine last (j + 1) (Nat.succ_pos j) ?_
            rw [List.getElem?_cons_succ, at_j, ← is_first]
          rw [later, latest_singleton]
          simp
      | succ i =>
          rw [List.getElem?_cons_succ] at at_i
          have later := ih same_length at_i fun j behind =>
            last (j + 1) (Nat.succ_lt_succ behind)
          have there : i < outcomes.length :=
            same_length ▸ (List.getElem?_eq_some_iff.1 at_i).1
          rw [later, List.getElem?_cons_succ, List.getElem?_eq_getElem there]
          rfl

/-- In the scope of a call a parameter is bound to the last of the
arguments that stand for its name. -/
private theorem Closure.bound?_enter (f : Closure)
    {args : List Outcome} (h : Heap)
    (same_length : f.params.length = args.length) {i : Nat} {name : String}
    (at_i : f.params[i]? = some name)
    (last : ∀ j, i < j → f.params[j]? ≠ some name) :
    (f.enter args h).2.bound? (f.enter args h).1 name = args[i]? := by
  have there : i < args.length :=
    same_length ▸ (List.getElem?_eq_some_iff.1 at_i).1
  rw [Heap.Records.enter f args h, filterMap_write?_bindEvents,
    latest_zip _ same_length at_i last, List.getElem?_eq_getElem there]
  rfl

-- ============================================================== chains

/-- The scopes on the way outward from a scope: itself, the scope around
it, and so on up to one with none around it. -/
inductive Heap.Chain (h : Heap) : ScopeId → List ScopeId → Prop where
  | last {i : ScopeId} {s : Scope} (at_i : h.scopes[i]? = some s)
      (ends : s.outer = none) : Chain h i [i]
  | outer {i o : ScopeId} {s : Scope} {chain : List ScopeId}
      (at_i : h.scopes[i]? = some s) (around : s.outer = some o)
      (rest : Chain h o chain) : Chain h i (i :: chain)

/-- Where scopes stand inside earlier ones every chain ends, and goes to
ever earlier scopes. -/
theorem Heap.exists_chain {h : Heap}
    (outer : ∀ (i : ScopeId) s o, h.scopes[i]? = some s → s.outer = some o →
      o < i) {i : ScopeId}
    (there : i < h.scopes.size) :
    ∃ chain, h.Chain i chain ∧ chain.Pairwise (· > ·) ∧ (∀ j ∈ chain, j ≤ i)
      ∧ chain.length ≤ i + 1 := by
  induction i using Nat.strongRecOn with
  | ind i ih =>
      have at_i : h.scopes[i]? = some h.scopes[i] :=
        Array.getElem?_eq_getElem there
      cases around : h.scopes[i].outer with
      | none => exact ⟨[i], .last at_i around, by simp, by simp, by simp⟩
      | some o =>
          have earlier := outer i _ o at_i around
          obtain ⟨chain, rest, descending, below, length⟩ :=
            ih o earlier (Nat.lt_trans earlier there)
          refine ⟨i :: chain, .outer at_i around rest, ?_, ?_, ?_⟩
          · refine List.pairwise_cons.2 ⟨fun j mem => ?_, descending⟩
            exact Nat.lt_of_le_of_lt (below j mem) earlier
          · refine List.forall_mem_cons.2 ⟨Nat.le_refl i, fun j mem => ?_⟩
            exact Nat.le_trans (below j mem) (Nat.le_of_lt earlier)
          · exact Nat.succ_le_succ (Nat.le_trans length earlier)

/-- A look-up that may take as many steps as the chain is long gives what
is bound in the nearest scope of the chain that binds the name. -/
private theorem Heap.lookupWithin_of_chain {h : Heap} {i : ScopeId}
    {chain : List ScopeId} (way : h.Chain i chain) (name : String) {steps : Nat}
    (enough : chain.length ≤ steps) :
    h.lookupWithin name steps i = chain.findSome? fun j => h.bound? j name := by
  induction way generalizing steps with
  | @last i s at_i ends =>
      obtain ⟨steps, rfl⟩ := Nat.exists_eq_succ_of_ne_zero
          (Nat.ne_zero_of_lt enough)
      rw [Heap.lookupWithin, at_i]
      dsimp only
      rw [ends, List.findSome?_singleton, Heap.bound?, at_i]
      dsimp only [Option.bind_some]
      cases s.find? name with
      | some outcome => rfl
      | none => rfl
  | @outer i o s chain at_i around rest ih =>
      rw [List.length_cons] at enough
      obtain ⟨steps, rfl⟩ := Nat.exists_eq_succ_of_ne_zero
          (Nat.ne_zero_of_lt enough)
      have enough' : chain.length ≤ steps := Nat.le_of_succ_le_succ enough
      rw [Heap.lookupWithin, at_i, List.findSome?_cons, Heap.bound?, at_i]
      dsimp only [Option.bind_some]
      cases s.find? name with
      | some outcome => rfl
      | none =>
          dsimp only
          rw [around]
          exact ih enough'

-- =============================================================== hosts

/-- What a host can do. -/
inductive HostOp where
  /-- Makes a scope with none around it. -/
  | newScope
  /-- Makes a scope inside another one. -/
  | enclose (outer : ScopeId)
  /-- Makes a function that comes from no literal. -/
  | newClosure (params : List String) (body : Block) (scope : ScopeId)
  /-- Binds a name in a scope to any outcome. -/
  | set (scope : ScopeId) (name : String) (outcome : Outcome)
  /-- Evaluates a node in a scope. -/
  | evaluate (limit : Nat) (scope : ScopeId) (node : Node)

/-- All that a host has made, and all that was ever bound, the first one
first. -/
structure History where
  heap : Heap
  writes : List Write

/-- Before anything was made. -/
def History.start : History :=
  ⟨Heap.empty, []⟩

instance (h : Heap) (outcome : Outcome) : Decidable (outcome.Inside h) :=
  match is_f : outcome.closure? with
  | none => isTrue fun f is_f' => by
      rw [is_f] at is_f'
      cases is_f'
  | some f =>
      decidable_of_iff (f.scope < h.scopes.size ∧ f.stamp < h.closures)
        ⟨fun made f' is_f' => by
          rw [is_f] at is_f'
          cases is_f'
          exact ⟨made.1, made.2⟩,
        fun inside => ⟨(inside f is_f).scope, (inside f is_f).stamp⟩⟩

namespace HostOp

/-- The operation refers to nothing that is not there. -/
def Refers (h : Heap) : HostOp → Prop
  | newScope => True
  | enclose outer => outer < h.scopes.size
  | newClosure _ _ scope => scope < h.scopes.size
  | set scope _ outcome => scope < h.scopes.size ∧ outcome.Inside h
  | evaluate _ scope _ => scope < h.scopes.size

instance (h : Heap) (op : HostOp) : Decidable (op.Refers h) :=
  match op with
  | newScope => inferInstanceAs (Decidable True)
  | enclose outer => inferInstanceAs (Decidable (outer < h.scopes.size))
  | newClosure _ _ scope => inferInstanceAs (Decidable (scope < h.scopes.size))
  | set scope _ outcome =>
      inferInstanceAs (Decidable (scope < h.scopes.size ∧ outcome.Inside h))
  | evaluate _ scope _ => inferInstanceAs (Decidable (scope < h.scopes.size))

/-- What becomes of the heap, or `none` where an evaluation does not
complete. -/
def run (h : Heap) : HostOp → Option Heap
  | newScope => some (h.newScope none).2
  | enclose outer => some (h.newScope (some outer)).2
  | newClosure params body scope => some (h.newClosure params body scope).2
  | set scope name outcome => some (h.bind scope name outcome)
  | evaluate limit scope node => (node.run limit scope h).map Prod.snd

/-- The writes of the operation. -/
def writes (h : Heap) : HostOp → List Write
  | set scope name outcome => [⟨scope, name, outcome⟩]
  | evaluate limit scope node => node.writes limit scope h
  | _ => []

/-- Performs an operation, and keeps record of it. -/
def perform (op : HostOp) (past : History) : Option History :=
  if op.Refers past.heap then
    (op.run past.heap).map fun h => ⟨h, past.writes ++ op.writes past.heap⟩
  else
    none

/-- Performs operations one after the other. -/
def performAll : List HostOp → History → Option History
  | [], past => some past
  | op :: ops, past => (op.perform past).bind (performAll ops)

/-- Performing operations in two goes. -/
private theorem performAll_append (ops more : List HostOp) (past : History) :
    performAll (ops ++ more) past
      = (performAll ops past).bind (performAll more) := by
  induction ops generalizing past with
  | nil => rfl
  | cons op ops ih =>
      rw [List.cons_append, performAll, performAll, Option.bind_assoc]
      exact congrArg _ (funext ih)

/-- What one operation does: the heap stays well-formed, scopes stay
where they are, and the writes are recorded. -/
theorem run_keeps {op : HostOp} {h h' : Heap} (sound : h.WellFormed)
    (refers : op.Refers h) (done : op.run h = some h') :
    h'.WellFormed ∧ h.Widens h' ∧ h.Records h' (op.writes h) := by
  cases op with
  | newScope =>
      cases done
      exact ⟨sound.newScope (by simp), .newScope h none,
        .of_bound?_eq (h.bound?_newScope none)⟩
  | enclose outer =>
      cases done
      have earlier : ∀ o, some outer = some o → o < h.scopes.size := by
        intro o same
        cases same
        exact refers
      exact ⟨sound.newScope earlier, .newScope h _,
        .of_bound?_eq (h.bound?_newScope _)⟩
  | newClosure params body scope =>
      cases done
      exact ⟨sound.newClosure params body scope, .of_scopes_eq rfl,
        .of_bound?_eq fun _ _ => rfl⟩
  | set scope name outcome =>
      cases done
      exact ⟨sound.bind scope name refers.2, .bind h scope name outcome,
        .bind h refers.1 name outcome⟩
  | evaluate limit scope node =>
      obtain ⟨⟨outcome, _⟩, run, rfl⟩ := Option.map_eq_some_iff.1 done
      exact ⟨(Node.run_wellFormed sound refers run).1,
        (Node.run_kept run).widens, Node.run_records refers run⟩

end HostOp

/-- The heap is well-formed, and its scopes bind each name to the last
write to it. -/
structure History.Faithful (past : History) : Prop where
  wellFormed : past.heap.WellFormed
  bound : ∀ i name, past.heap.bound? i name = latest past.writes i name

private theorem History.faithful_start : History.start.Faithful :=
  ⟨Heap.wellFormed_empty, fun _ _ => rfl⟩

namespace HostOp

/-- One operation leaves the history faithful, and the heap no poorer. -/
theorem perform_faithful {op : HostOp} {past after : History}
    (faithful : past.Faithful) (done : op.perform past = some after) :
    after.Faithful ∧ past.heap.Widens after.heap := by
  unfold perform at done
  split at done
  · next refers =>
      obtain ⟨h', run, rfl⟩ := Option.map_eq_some_iff.1 done
      obtain ⟨sound, wider, records⟩ := run_keeps faithful.wellFormed refers run
      refine ⟨⟨sound, fun i name => ?_⟩, wider⟩
      rw [records, faithful.bound, latest_append]
  · cases done

/-- And what any number of them do. -/
theorem performAll_faithful {ops : List HostOp} {past after : History}
    (faithful : past.Faithful) (done : performAll ops past = some after) :
    after.Faithful ∧ past.heap.Widens after.heap := by
  induction ops generalizing past with
  | nil =>
      cases done
      exact ⟨faithful, .of_scopes_eq rfl⟩
  | cons op ops ih =>
      obtain ⟨next, first, rest⟩ := Option.bind_eq_some_iff.1 done
      obtain ⟨faithful₁, wider₁⟩ := perform_faithful faithful first
      obtain ⟨faithful₂, wider₂⟩ := ih faithful₁ rest
      exact ⟨faithful₂, wider₁.trans wider₂⟩

-- ============================================================= results

/-- A look-up finds the latest write that is nearest. After any number of
operations of a host, scopes stand inside earlier ones, and each stands
where it always stood. So from each scope of the heap a finite chain leads
outward, to ever earlier scopes, and a look-up from it gives the last
write to the name in the nearest scope of the chain where there was one.
A call in which parameters share a name starts with the last of their
arguments bound to it. -/
theorem lookup_eq_latest {ops : List HostOp} {past : History}
    (done : performAll ops .start = some past) :
    (∀ (i : ScopeId) s o, past.heap.scopes[i]? = some s →
      s.outer = some o → o < i)
    ∧ (∀ earlier later, ops = earlier ++ later → ∃ before,
        performAll earlier .start = some before
          ∧ ∀ (i : ScopeId) s, before.heap.scopes[i]? = some s →
            ∃ s', past.heap.scopes[i]? = some s' ∧ s'.outer = s.outer)
    ∧ (∀ scope < past.heap.scopes.size, ∃ chain,
        past.heap.Chain scope chain ∧ chain.Pairwise (· > ·)
          ∧ ∀ name, past.heap.lookup scope name
            = chain.findSome? fun i => latest past.writes i name)
    ∧ ∀ (f : Closure) (args : List Value) (limit : Nat) (h : Heap),
        f.params.length = args.length →
        let entered := f.enter (args.map .value) h
        (Value.closure f).applyTo (Closure.call (limit + 1)) args h
            = (Stmt.evalAll (Closure.call limit) entered.1 f.body .null
              entered.2).map
                (fun r => (r.1.unwrapped, r.2))
          ∧ ∀ (i : Nat) name, f.params[i]? = some name →
            (∀ j, i < j → f.params[j]? ≠ some name) →
            entered.2.bound? entered.1 name = args[i]?.map .value := by
  have faithful := (performAll_faithful History.faithful_start done).1
  have outer := faithful.wellFormed.outer
  refine ⟨outer, ?_, ?_, ?_⟩
  · rintro earlier later rfl
    rw [performAll_append] at done
    obtain ⟨before, first, rest⟩ := Option.bind_eq_some_iff.1 done
    -- the later operations start from a faithful history too
    have wider := (performAll_faithful
        (performAll_faithful History.faithful_start first).1 rest).2
    refine ⟨before, first, fun i s at_i => ?_⟩
    obtain ⟨s', at_i', rebound⟩ := wider i s at_i
    exact ⟨s', at_i', rebound.outer⟩
  · intro scope there
    obtain ⟨chain, way, descending, -, short⟩ := Heap.exists_chain outer there
    refine ⟨chain, way, descending, fun name => ?_⟩
    rw [Heap.lookup, Heap.lookupWithin_of_chain way name short]
    simp only [faithful.bound]
  · intro f args limit h same_length entered
    refine ⟨?_, fun i name at_i last => ?_⟩
    · rw [← Closure.call_eq_map, Value.applyTo, if_pos same_length]
    · have as_outcomes : f.params.length = (args.map Outcome.value).length := by
        rw [List.length_map, same_length]
      rw [← List.getElem?_map]
      exact f.bound?_enter h as_outcomes at_i last

/-- With `x` set to 1, `fn(a, a) { let x = a; }(2, 3)` leaves the scope
of the call behind, and then `y` is set twice around it. Seen from there
`x` is 3 and `y` is what it was set to last. -/
theorem lookup_eq_latest_after_call :
    let called : Expr := .call (.fn ["a", "a"] [.bind "x" (.ident "a")])
      [.int 2, .int 3]
    let ops : List HostOp := [.newScope, .set 0 "x" (.value (.int 1)),
      .evaluate 1 0 (.expr called), .set 0 "y" (.value (.int 4)),
      .set 0 "y" (.value (.int 5))]
    ∃ past, performAll ops .start = some past
      ∧ past.heap.lookup 1 "x" = some (.value (.int 3))
      ∧ past.heap.lookup 1 "y" = some (.value (.int 5))
      ∧ ∃ chain, past.heap.Chain 1 chain ∧ ∀ name, past.heap.lookup 1 name
          = chain.findSome? fun i => latest past.writes i name := by
  intro called ops
  have x_is : (performAll ops .start).bind (·.heap.lookup 1 "x")
      = some (.value (.int 3)) := rfl
  have y_is : (performAll ops .start).bind (·.heap.lookup 1 "y")
      = some (.value (.int 5)) := rfl
  have size : (performAll ops .start).map (·.heap.scopes.size) = some 2 := rfl
  obtain ⟨past, done, found_x⟩ := Option.bind_eq_some_iff.1 x_is
  rw [done] at y_is size
  have there : 1 < past.heap.scopes.size :=
    Nat.lt_of_lt_of_eq (by decide) (Option.some.inj size).symm
  obtain ⟨chain, way, -, found⟩ := (lookup_eq_latest done).2.2.1 1 there
  exact ⟨past, done, found_x, y_is, chain, way, found⟩

end HostOp

end Scriptlet
