/-
Evaluation on objects is evaluation.

Take the addresses away, and what is left of an evaluation on objects is
the run of the evaluator from the heap that is left (`Build.Mirrors`).

The two differ in how they compare. For truth values, `null` and
functions one looks at addresses, the other at what the values are. The
answers agree because of what evaluation never does: it never makes a
second object for a truth value or for `null`, and never makes two
functions in one evaluation of a literal. `Memory.Sound` says so of all
objects of a memory. So one induction shows both, that evaluation keeps
memories sound and that it mirrors the evaluator, since neither goes
through without the other (`Memory.Sound.same_iff`).
-/
import Scriptlet.Proofs.Eval.Objects
import Scriptlet.Proofs.Eval.Parallel

namespace Scriptlet

-- ===================================================== what a memory has

/-- The object is one of the memory. -/
def Memory.Has (m : Memory) (d : Datum) : Prop :=
  m.objects[d.address]? = some d.value

/-- At one address there is one object. -/
theorem Memory.Has.eq_of_address {m : Memory} {a b : Datum} (has_a : m.Has a)
    (has_b : m.Has b) (same : a.address = b.address) : a = b := by
  obtain ⟨address, v⟩ := a
  obtain ⟨_, w⟩ := b
  cases same
  have : some v = some w := has_a.symm.trans has_b
  cases this
  rfl

/-- Whatever data the object is or returns is of the memory. -/
def Object.Of (m : Memory) : Object → Prop
  | .datum d => m.Has d
  | .error _ => True
  | .returned inner => inner.Of m

/-- A name is bound to the object in some scope. -/
def Memory.Binds (m : Memory) (object : Object) : Prop :=
  ∃ s ∈ m.scopes, ∃ name, (name, object) ∈ s.bindings

/-- The objects of a memory are those of a later one too. -/
def Memory.Grows (m m' : Memory) : Prop :=
  ∀ (a : Nat) v, m.objects[a]? = some v → m'.objects[a]? = some v

namespace Memory.Grows

variable {m m₁ m₂ : Memory}

theorem refl (m : Memory) : m.Grows m :=
  fun _ _ there => there

theorem trans (first : m.Grows m₁) (second : m₁.Grows m₂) : m.Grows m₂ :=
  fun a v there => second a v (first a v there)

/-- Scopes may change freely: only objects matter to growing. -/
private theorem of_objects_eq (same : m₁.objects = m.objects) : m.Grows m₁ := by
  intro a v there
  rw [same]
  exact there

/-- A new object is put behind the others, whose addresses stay. -/
private theorem push (m : Memory) (v : Value) (closures : Nat) :
    m.Grows ⟨m.scopes, m.objects.push v, closures⟩ := by
  intro a w there
  obtain ⟨inside, _⟩ := Array.getElem?_eq_some_iff.1 there
  rw [Array.getElem?_push_lt inside, ← there, Array.getElem?_eq_getElem inside]

/-- An object once made is there to stay. -/
private theorem has (grows : m.Grows m₁) {d : Datum} (has : m.Has d) :
    m₁.Has d :=
  grows _ _ has

theorem of (grows : m.Grows m₁) {object : Object} (of : object.Of m) :
    object.Of m₁ := by
  induction object with
  | datum d => exact grows.has of
  | error fault => trivial
  | returned inner ih => exact ih of

end Memory.Grows

/-- Unwrapping keeps the data that is returned. -/
private theorem Object.Of.unwrapped {m : Memory} {object : Object}
    (of : object.Of m) :
    object.unwrapped.Of m := by
  cases object with
  | datum d => exact of
  | error fault => trivial
  | returned inner => exact of

-- ======================================================= sound memories

/-- There is one object for each truth value and one for `null`, each
evaluation of a literal has made one function, and names are bound to
objects of the memory. -/
structure Memory.Sound (m : Memory) : Prop where
  bool : ∀ (b : Bool) a,
    m.objects[a]? = some (.bool b) ↔ a = (Datum.shared b).address
  null : ∀ a, m.objects[a]? = some .null ↔ a = Datum.null.address
  counted : ∀ (a : Nat) f, m.objects[a]? = some (.closure f) →
    f.stamp < m.closures
  made : ∀ k < m.closures, ∃ (a : Nat) (f : Closure),
    m.objects[a]? = some (.closure f) ∧ f.stamp = k
  once : ∀ (a a' : Nat) f g, m.objects[a]? = some (.closure f) →
    m.objects[a']? = some (.closure g) → f.stamp = g.stamp → a = a'
  bound : ∀ object, m.Binds object → object.Of m

/-- A value for which an object may be made: neither a truth value nor
`null`, and with a stamp of its own if it is a function. -/
def Value.New (closures closures' : Nat) : Value → Prop
  | .int _ | .str _ => closures = closures'
  | .closure f => f.stamp = closures ∧ closures' = closures + 1
  | .bool _ | .null => False

/-- The count of functions never falls. -/
private theorem Value.New.le {v : Value} {closures closures' : Nat}
    (new : v.New closures closures') :
    closures ≤ closures' := by
  cases v with
  | int | str => exact Nat.le_of_eq new
  | closure f => exact new.2 ▸ Nat.le_succ _
  | bool | null => exact new.elim

/-- An object is the new one or was there. -/
private theorem Memory.getElem?_push_iff (m : Memory) (v w : Value) (a : Nat) :
    (m.objects.push v)[a]? = some w
      ↔ m.objects[a]? = some w ∨ a = m.objects.size ∧ w = v := by
  rw [Array.getElem?_push]
  by_cases last : a = m.objects.size
  · simp [last, eq_comm]
  · simp [last]

namespace Memory.Sound

variable {m : Memory}

/-- Both truth values are in a sound memory. -/
private theorem has_shared (sound : m.Sound) (b : Bool) : m.Has (.shared b) :=
  (sound.bool b _).2 rfl

/-- So is `null`. -/
private theorem has_null (sound : m.Sound) : m.Has .null :=
  (sound.null _).2 rfl

/-- The first memory has the two truth values and `null`, once each. -/
theorem initial : Memory.initial.Sound where
  bool b a := by
    rcases a with _ | _ | _ | a <;> cases b <;>
      simp [Memory.initial, Datum.shared]
  null a := by
    rcases a with _ | _ | _ | a <;> simp [Memory.initial, Datum.null]
  counted a f there := by
    rcases a with _ | _ | _ | a <;> simp [Memory.initial] at there
  made k counted := by cases counted
  once a _ f _ there := by
    rcases a with _ | _ | _ | a <;> simp [Memory.initial] at there
  bound object binds := by
    obtain ⟨s, mem, name, entry⟩ := binds
    rw [Memory.initial, List.mem_toArray, List.mem_singleton] at mem
    subst mem
    cases entry

/-- A new object keeps a memory sound. -/
private theorem push (sound : m.Sound) {v : Value} {closures : Nat}
    (new : v.New m.closures closures) :
    Memory.Sound ⟨m.scopes, m.objects.push v, closures⟩ where
  bool b a := by
    rw [m.getElem?_push_iff, sound.bool]
    constructor
    · rintro (shared | ⟨-, rfl⟩)
      · exact shared
      · exact new.elim
    · exact .inl
  null a := by
    rw [m.getElem?_push_iff, sound.null]
    constructor
    · rintro (shared | ⟨-, rfl⟩)
      · exact shared
      · exact new.elim
    · exact .inl
  counted a f there := by
    rcases (m.getElem?_push_iff v _ a).1 there with before | ⟨-, rfl⟩
    · exact Nat.lt_of_lt_of_le (sound.counted a f before) new.le
    · show f.stamp < closures
      rw [new.1, new.2]
      exact Nat.lt_succ_self _
  made k counted := by
    have before (counted : k < m.closures) : ∃ (a : Nat) (f : Closure),
        (m.objects.push v)[a]? = some (.closure f) ∧ f.stamp = k := by
      obtain ⟨a, f, there, stamp⟩ := sound.made k counted
      exact ⟨a, f, (m.getElem?_push_iff v _ a).2 (.inl there), stamp⟩
    cases v with
    | int | str => exact before (new ▸ counted)
    | closure f =>
        obtain ⟨stamp, rfl⟩ := new
        rcases Nat.lt_succ_iff_lt_or_eq.1 counted with earlier | rfl
        · exact before earlier
        · exact ⟨m.objects.size, f, Array.getElem?_push_size, stamp⟩
    | bool | null => exact new.elim
  once a a' f g there there' same := by
    rcases (m.getElem?_push_iff v _ a).1 there with before | ⟨last, rfl⟩ <;>
      rcases (m.getElem?_push_iff _ _ a').1 there' with before' | ⟨last', eq⟩
    · exact sound.once a a' f g before before' same
    · -- no function was made before with the stamp of the new one
      subst eq
      have lt := sound.counted a f before
      rw [same, new.1] at lt
      exact absurd lt (Nat.lt_irrefl _)
    · have lt := sound.counted a' g before'
      rw [← same, new.1] at lt
      exact absurd lt (Nat.lt_irrefl _)
    · rw [last, last']
  bound object binds := (Memory.Grows.push m v closures).of
    (sound.bound object binds)

/-- A new scope binds nothing and makes no object. -/
private theorem newScope (sound : m.Sound) (outer : Option ScopeId) :
    (m.newScope outer).2.Sound where
  bool := sound.bool
  null := sound.null
  counted := sound.counted
  made := sound.made
  once := sound.once
  bound object binds := by
    have grows : m.Grows (m.newScope outer).2 := .of_objects_eq rfl
    obtain ⟨s, mem, name, entry⟩ := binds
    rcases Array.mem_push.1 mem with before | last
    · exact grows.of (sound.bound object ⟨s, before, name, entry⟩)
    · subst last
      cases entry

/-- Binding an object of the memory makes no object, and keeps all that is
bound among those there are. -/
private theorem bind (sound : m.Sound) (scope : ScopeId) (name : String)
    {object : Object} (of : object.Of m) :
    (m.bind scope name object).Sound where
  bool := sound.bool
  null := sound.null
  counted := sound.counted
  made := sound.made
  once := sound.once
  bound other binds := by
    have grows : m.Grows (m.bind scope name object) := .of_objects_eq rfl
    apply grows.of
    obtain ⟨s, mem, key, entry⟩ := binds
    obtain ⟨i, at_i⟩ := Array.mem_iff_getElem?.1 mem
    rw [Memory.bind, Array.getElem?_modify] at at_i
    split at at_i
    · obtain ⟨t, at_t, rfl⟩ := Option.map_eq_some_iff.1 at_i
      rcases List.mem_cons.1 entry with new | before
      · cases new
        exact of
      · have there : (key, other) ∈ t.bindings := List.mem_of_mem_filter before
        exact sound.bound other ⟨t, Array.mem_of_getElem? at_t, key, there⟩
    · exact sound.bound other ⟨s, Array.mem_of_getElem? at_i, key, entry⟩

private theorem bindAll (sound : m.Sound) (scope : ScopeId)
    (entries : List (String × Object)) (of : ∀ entry ∈ entries, entry.2.Of m) :
    (m.bindAll scope entries).Sound := by
  induction entries generalizing m with
  | nil => exact sound
  | cons entry rest ih =>
      rw [List.forall_mem_cons] at of
      have grows : m.Grows (m.bind scope entry.1 entry.2) := .of_objects_eq rfl
      exact ih (sound.bind scope entry.1 of.1) fun later mem =>
        grows.of (of.2 later mem)

/-- What is found is of the memory. -/
private theorem lookup (sound : m.Sound) {scope : ScopeId} {name : String}
    {object : Object} (found : m.lookup scope name = some object) :
    object.Of m := by
  unfold Memory.lookup at found
  generalize scope + 1 = steps at found
  induction steps generalizing scope with
  | zero => cases found
  | succ steps ih =>
      rw [Memory.lookupWithin] at found
      split at found
      · cases found
      · next s at_scope =>
          split at found
          · next bound here =>
              cases found
              obtain ⟨before, after, eq, -⟩ := List.lookup_eq_some_iff.1 here
              have entry : (name, object) ∈ s.bindings := by
                rw [eq]
                exact List.mem_append_right _ (List.mem_cons_self ..)
              exact sound.bound object ⟨s, Array.mem_of_getElem? at_scope,
                name, entry⟩
          · split at found
            · cases found
            · exact ih found

end Memory.Sound

/-- Binding makes no object. -/
private theorem Memory.objects_bindAll (m : Memory) (scope : ScopeId)
    (entries : List (String × Object)) :
    (m.bindAll scope entries).objects = m.objects := by
  induction entries generalizing m with
  | nil => rfl
  | cons entry rest ih => exact ih _

-- ============================================================= equality

namespace Memory.Sound

variable {m : Memory} {a b : Datum}

/-- An object that is a truth value is the shared one. -/
theorem eq_shared (sound : m.Sound) (has : m.Has a) {truth : Bool}
    (eq : a.value = .bool truth) :
    a = .shared truth := by
  obtain ⟨address, value⟩ := a
  cases eq
  rw [(sound.bool truth address).1 has]
  rfl

/-- An object that is `null` is the shared one. -/
theorem eq_null (sound : m.Sound) (has : m.Has a) (eq : a.value = .null) :
    a = .null := by
  obtain ⟨address, value⟩ := a
  cases eq
  rw [(sound.null address).1 has]
  rfl

/-- Where addresses decide, they decide as the values do. -/
theorem same_iff (sound : m.Sound) (has_a : m.Has a) (has_b : m.Has b)
    (alike : a.value.kind = b.value.kind) (not_int : a.value.kind ≠ .integer)
    (not_str : a.value.kind ≠ .string) :
    a.address = b.address ↔ a.value.same b.value = true := by
  cases eq : a.value with
  | int w => rw [eq] at not_int; exact absurd rfl not_int
  | str s => rw [eq] at not_str; exact absurd rfl not_str
  | bool x =>
      cases eq' : b.value with
      | bool y =>
          have shared := sound.eq_shared has_a eq
          have shared' := sound.eq_shared has_b eq'
          subst shared shared'
          cases x <;> cases y <;> decide
      | _ => rw [eq, eq'] at alike; cases alike
  | null =>
      cases eq' : b.value with
      | null =>
          rw [sound.eq_null has_a eq, sound.eq_null has_b eq']
          exact iff_of_true rfl rfl
      | _ => rw [eq, eq'] at alike; cases alike
  | closure f =>
      cases eq' : b.value with
      | closure g =>
          show _ ↔ decide (f.stamp = g.stamp) = true
          rw [decide_eq_true_iff]
          constructor
          · intro same
            cases has_a.eq_of_address has_b same
            rw [eq] at eq'
            cases eq'
            rfl
          · rw [Memory.Has, eq] at has_a
            rw [Memory.Has, eq'] at has_b
            exact sound.once _ _ f g has_a has_b
      | _ => rw [eq, eq'] at alike; cases alike

end Memory.Sound

-- ============================================================== mirrors

/-- An evaluation on objects from a memory ends in objects of a sound
memory, and without the addresses in what the run ends in; or neither
completes. -/
def Build.Mirrors (m : Memory) : Build → Run → Prop :=
  Option.Rel fun r s =>
    m.Grows r.2 ∧ r.1.Of r.2 ∧ r.2.Sound ∧ r.1.erase = s.1 ∧ r.2.erase = s.2

namespace Build.Mirrors

variable {m m₁ : Memory} {build : Build} {run : Run}

private theorem ended (sound : m.Sound) {object : Object} (of : object.Of m) :
    Mirrors m (some (object, m)) (some (object.erase, m.erase)) :=
  .some ⟨.refl m, of, sound, rfl, rfl⟩

/-- What is mirrored from a grown memory is mirrored from the one before. -/
private theorem after (grows : m.Grows m₁) (mirrors : Mirrors m₁ build run) :
    Mirrors m build run :=
  rel_mono mirrors fun _ _ ⟨grows₁, same⟩ => ⟨grows.trans grows₁, same⟩

private theorem datum (sound : m.Sound) {d : Datum} (has : m.Has d) :
    Mirrors m (some (.datum d, m)) (some (.value d.value, m.erase)) :=
  .ended sound has

/-- A truth value is shared, so none is made. -/
private theorem shared (sound : m.Sound) (b : Bool) :
    Mirrors m (some (.datum (.shared b), m))
      (some (.value (.bool b), m.erase)) :=
  .datum sound (sound.has_shared b)

/-- An error has no address, and is the same on both sides. -/
private theorem error (sound : m.Sound) (fault : Fault) :
    Mirrors m (some (.error fault, m)) (some (.error fault, m.erase)) :=
  .ended sound trivial

/-- A new object. -/
private theorem new (sound : m.Sound) {v : Value}
    (new : v.New m.closures m.closures) :
    Mirrors m (some (m.new v)) (some (.value v, m.erase)) :=
  .some ⟨.push m v _, Array.getElem?_push_size, sound.push new, rfl, rfl⟩

/-- A function literal makes one object and one closure, and gives both the
next number. -/
private theorem newFunction (sound : m.Sound) (params : List String)
    (body : Block) (scope : ScopeId) :
    Mirrors m (some (m.newFunction params body scope))
      (some (.value (.closure (m.erase.newClosure params body scope).1),
        (m.erase.newClosure params body scope).2)) :=
  .some ⟨.push m _ _, Array.getElem?_push_size, sound.push ⟨rfl, rfl⟩, rfl, rfl⟩

/-- A signal ends both, and data let both go on. -/
private theorem onDatum {next : Datum → Memory → Build}
    {next' : Value → Heap → Run} (first : Mirrors m build run)
    (rest : ∀ d m₁, m.Grows m₁ → m₁.Sound → m₁.Has d →
      Mirrors m₁ (next d m₁) (next' d.value m₁.erase)) :
    Mirrors m (build.onDatum next) (run.onValue next') := by
  rcases rel_inv first with ⟨rfl, rfl⟩
    | ⟨⟨object, m₁⟩, ⟨outcome, h⟩, rfl, rfl, ended⟩
  · exact .none
  · obtain ⟨grows, of, sound, rfl, rfl⟩ := ended
    cases object with
    | datum d => exact (rest d m₁ grows sound of).after grows
    | error fault => exact .some ⟨grows, of, sound, rfl, rfl⟩
    | returned inner => exact .some ⟨grows, of, sound, rfl, rfl⟩

/-- A call unwraps what its body returns, on both sides. -/
private theorem unwrapped (mirrors : Mirrors m build run) :
    Mirrors m (build.map fun r => (r.1.unwrapped, r.2))
      (run.map fun r => (r.1.unwrapped, r.2)) := by
  rcases rel_inv mirrors with ⟨rfl, rfl⟩
    | ⟨⟨object, m₁⟩, ⟨outcome, h⟩, rfl, rfl, ended⟩
  · exact .none
  · obtain ⟨grows, of, sound, rfl, rfl⟩ := ended
    exact .some ⟨grows, of.unwrapped, sound, object.erase_unwrapped, rfl⟩

end Build.Mirrors

-- ============================================================ operators

section Operators

variable {m : Memory} {a b : Datum}

/-- A unary operator: `-` makes a word, `!` gives a shared truth value. -/
private theorem UnaryOp.onDatum_mirrors (op : UnaryOp) (sound : m.Sound)
    (d : Datum) :
    Build.Mirrors m (some (op.onDatum d m))
      (some (op.apply d.value, m.erase)) := by
  obtain ⟨address, v⟩ := d
  cases op with
  | not => exact .shared sound _
  | neg =>
      cases v with
      | int w => exact .new sound rfl
      | bool | str | null | closure => exact .error sound _

/-- Arithmetic makes one new word; the comparisons give shared truth values. -/
private theorem BinaryOp.onWords_mirrors (op : BinaryOp) (sound : m.Sound)
    (x y : Int64) :
    Build.Mirrors m (some (op.onWords x y m))
      (some (op.applyAlike (.int x) (.int y), m.erase)) := by
  cases op with
  | add | sub | mul => exact .new sound rfl
  | div =>
      unfold BinaryOp.onWords BinaryOp.applyAlike
      dsimp only
      split
      · exact .error sound _
      · exact .new sound rfl
  | less | greater | equal => exact .shared sound _
  | notEqual =>
      show Build.Mirrors m _ (some (.value (.bool !decide (x = y)), m.erase))
      rw [← decide_not]
      exact .shared sound _

/-- Joining makes one new string; strings are compared by their text. -/
private theorem BinaryOp.onStrings_mirrors (op : BinaryOp) (sound : m.Sound)
    (x y : String) :
    Build.Mirrors m (some (op.onStrings x y m))
      (some (op.applyAlike (.str x) (.str y), m.erase)) := by
  cases op with
  | add => exact .new sound rfl
  | equal => exact .shared sound _
  | notEqual =>
      show Build.Mirrors m _ (some (.value (.bool !decide (x = y)), m.erase))
      rw [← decide_not]
      exact .shared sound _
  | sub | mul | div | less | greater => exact .error sound _

/-- For operands that are neither words nor strings the evaluator knows only
the two equalities. -/
private theorem BinaryOp.applyAlike_of_kind (op : BinaryOp) {v : Value}
    (not_int : v.kind ≠ .integer) (not_str : v.kind ≠ .string) (w : Value) :
    op.applyAlike v w =
      match op with
      | .equal => .value (.bool (v.same w))
      | .notEqual => .value (.bool !v.same w)
      | _ => .error (.unknownBinary op v.kind w.kind) := by
  cases v with
  | int => exact absurd rfl not_int
  | str => exact absurd rfl not_str
  | bool | null | closure => cases op <;> rfl

/-- Addresses are compared where values are neither words nor strings. -/
private theorem BinaryOp.onAddresses_mirrors (op : BinaryOp) (sound : m.Sound)
    (has_a : m.Has a) (has_b : m.Has b) (alike : a.value.kind = b.value.kind)
    (not_int : a.value.kind ≠ .integer)
    (not_str : a.value.kind ≠ .string) :
    Build.Mirrors m (some (op.onAddresses a b m))
      (some (op.applyAlike a.value b.value, m.erase)) := by
  have same : a.value.same b.value = decide (a.address = b.address) :=
    Bool.eq_iff_iff.2
      ((sound.same_iff has_a has_b alike not_int not_str).symm.trans
        decide_eq_true_iff.symm)
  rw [op.applyAlike_of_kind not_int not_str, same, ← decide_not]
  cases op with
  | equal | notEqual => exact .shared sound _
  | add | sub | mul | div | less | greater => exact .error sound _

/-- A binary operator on objects, whatever their kinds. Only equality by
address needs the memory to be sound. -/
theorem BinaryOp.onData_mirrors (op : BinaryOp) (sound : m.Sound)
    (has_a : m.Has a) (has_b : m.Has b) :
    Build.Mirrors m (some (op.onData a b m))
      (some (op.apply a.value b.value, m.erase)) := by
  obtain ⟨i, v⟩ := a
  obtain ⟨j, w⟩ := b
  unfold BinaryOp.onData BinaryOp.apply
  by_cases alike : v.kind = w.kind
  · rw [if_pos alike, if_pos alike]
    cases v with
    | int x =>
        cases w with
        | int y => exact op.onWords_mirrors sound x y
        | bool | str | null | closure => cases alike
    | str x =>
        cases w with
        | str y => exact op.onStrings_mirrors sound x y
        | int | bool | null | closure => cases alike
    | bool | null | closure =>
        exact op.onAddresses_mirrors sound has_a has_b alike Kind.noConfusion
          Kind.noConfusion
  · rw [if_neg alike, if_neg alike]
    exact .error sound _

end Operators

-- ================================================================ calls

/-- A caller on objects that mirrors a caller on values. -/
def Builder.Mirrors (call : Builder) (call' : Caller) : Prop :=
  ∀ (f : Closure) (args : List Datum) (m : Memory),
    m.Sound → (∀ d ∈ args, m.Has d) →
    Build.Mirrors m (call f args m) (call' f (args.map Datum.value) m.erase)

/-- Calling an object: the two agree on whether it is a function, on the
number of arguments, and then by what is assumed of calls. -/
theorem Datum.applyTo_mirrors {call : Builder} {call' : Caller}
    (calls : call.Mirrors call') {m : Memory} (sound : m.Sound) (callee : Datum)
    {args : List Datum}
    (has : ∀ d ∈ args, m.Has d) :
    Build.Mirrors m (callee.applyTo call args m)
      (callee.value.applyTo call' (args.map Datum.value) m.erase) := by
  obtain ⟨address, v⟩ := callee
  cases v with
  | closure f =>
      unfold Datum.applyTo Value.applyTo
      dsimp only
      rw [List.length_map]
      split
      · exact calls f args m sound has
      · exact .error sound _
  | int | bool | str | null => exact .error sound _

-- =========================================================== evaluation

section Evaluation

variable {call : Builder} {call' : Caller}

mutual

/-- An expression, by the rule that evaluates it. Each operand starts from
the memory that the one before has left, sound and grown. -/
theorem Expr.build_mirrors (calls : call.Mirrors call') (scope : ScopeId) :
    (e : Expr) → {m : Memory} → m.Sound →
    Build.Mirrors m (e.build call scope m) (e.eval call' scope m.erase)
  | .ident name, m, sound => by
      rw [Expr.build, Expr.eval, m.lookup_erase]
      cases found : m.lookup scope name with
      | none => exact .error sound _
      | some object => exact .ended sound (sound.lookup found)
  | .int _, _, sound => .new sound rfl
  | .bool b, _, sound => .shared sound b
  | .str _, _, sound => .new sound rfl
  | .unary op e, m, sound => by
      rw [Expr.build, Expr.eval]
      refine (Expr.build_mirrors calls scope e sound).onDatum ?_
      intro d m₁ _ sound₁ _
      exact op.onDatum_mirrors sound₁ d
  | .binary op l r, m, sound => by
      rw [Expr.build, Expr.eval]
      refine (Expr.build_mirrors calls scope l sound).onDatum ?_
      intro a m₁ _ sound₁ left
      refine (Expr.build_mirrors calls scope r sound₁).onDatum ?_
      intro b m₂ grows₂ sound₂ right
      exact op.onData_mirrors sound₂ (grows₂.has left) right
  | .cond test yes none, m, sound => by
      rw [Expr.build, Expr.eval]
      refine (Expr.build_mirrors calls scope test sound).onDatum ?_
      intro d m₁ _ sound₁ _
      split
      · exact Stmt.buildAll_mirrors calls scope yes sound₁ sound₁.has_null
      · exact .datum sound₁ sound₁.has_null
  | .cond test yes (some no), m, sound => by
      rw [Expr.build, Expr.eval]
      refine (Expr.build_mirrors calls scope test sound).onDatum ?_
      intro d m₁ _ sound₁ _
      split
      · exact Stmt.buildAll_mirrors calls scope yes sound₁ sound₁.has_null
      · exact Stmt.buildAll_mirrors calls scope no sound₁ sound₁.has_null
  | .fn params body, m, sound => .newFunction sound params body scope
  | .call callee args, m, sound => by
      rw [Expr.build, Expr.eval]
      refine (Expr.build_mirrors calls scope callee sound).onDatum ?_
      intro f m₁ _ sound₁ has
      exact Expr.buildArgs_mirrors calls scope f args [] sound₁
        (List.forall_mem_nil _)

theorem Expr.buildArgs_mirrors (calls : call.Mirrors call') (scope : ScopeId)
    (callee : Datum) :
    (args : List Expr) → (done : List Datum) → {m : Memory} → m.Sound →
    (∀ d ∈ done, m.Has d) →
    Build.Mirrors m (Expr.buildArgs call scope callee args done m)
      (Expr.evalArgs call' scope callee.value args
        (done.map Datum.value) m.erase)
  | [], done, m, sound, has => by
      rw [Expr.buildArgs, Expr.evalArgs]
      exact callee.applyTo_mirrors calls sound has
  | arg :: args, done, m, sound, has => by
      rw [Expr.buildArgs, Expr.evalArgs]
      refine (Expr.build_mirrors calls scope arg sound).onDatum ?_
      intro d m₁ grows sound₁ last
      -- the arguments before had to wait for this one
      have has₁ : ∀ d' ∈ done ++ [d], m₁.Has d' := by
        rw [List.forall_mem_append, List.forall_mem_singleton]
        exact ⟨fun d' mem => grows.has (has d' mem), last⟩
      have rest := Expr.buildArgs_mirrors calls scope callee args
          (done ++ [d]) sound₁ has₁
      rw [List.map_append] at rest
      exact rest

theorem Stmt.build_mirrors (calls : call.Mirrors call') (scope : ScopeId) :
    (s : Stmt) → {m : Memory} → m.Sound →
    Build.Mirrors m (s.build call scope m) (s.eval call' scope m.erase)
  | .bind name e, m, sound => by
      rw [Stmt.build, Stmt.eval]
      refine (Expr.build_mirrors calls scope e sound).onDatum ?_
      intro d m₁ _ sound₁ has
      exact .some ⟨.of_objects_eq rfl, sound₁.has_null,
        sound₁.bind scope name has, rfl,
        (m₁.erase_bind scope name (.datum d)).symm⟩
  | .ret none, m, sound => .ended sound sound.has_null
  | .ret (some e), m, sound => by
      rw [Stmt.build, Stmt.eval]
      refine (Expr.build_mirrors calls scope e sound).onDatum ?_
      intro d m₁ _ sound₁ has
      exact .ended sound₁ has
  | .expr e, m, sound => by
      rw [Stmt.build, Stmt.eval]
      exact Expr.build_mirrors calls scope e sound

theorem Stmt.buildAll_mirrors (calls : call.Mirrors call') (scope : ScopeId) :
    (ss : List Stmt) → {last : Datum} → {m : Memory} → m.Sound → m.Has last →
    Build.Mirrors m (Stmt.buildAll call scope ss last m)
      (Stmt.evalAll call' scope ss last.value m.erase)
  | [], _, _, sound, has => .datum sound has
  | s :: ss, _, m, sound, _ => by
      rw [Stmt.buildAll, Stmt.evalAll]
      refine (Stmt.build_mirrors calls scope s sound).onDatum ?_
      intro d m₁ _ sound₁ has₁
      exact Stmt.buildAll_mirrors calls scope ss sound₁ has₁

end

end Evaluation

-- ======================================================= calls in calls

section Calls

variable {m : Memory} (f : Closure) {args : List Datum}

/-- Entering a call makes the same scope on both sides. -/
private theorem Memory.erase_enter (m : Memory) (args : List Datum) :
    f.enter ((args.map Datum.value).map .value) m.erase
      = ((m.enter f args).1, (m.enter f args).2.erase) := by
  have zipped : f.params.zip ((args.map Datum.value).map Outcome.value)
      = (f.params.zip (args.map Object.datum)).map
        (Prod.map id Object.erase) := by
    rw [List.map_map, List.zip_map_right, List.zip_map_right, List.map_map]
    rfl
  obtain ⟨place, made⟩ := m.erase_newScope (some f.scope)
  unfold Closure.enter Memory.enter
  dsimp only
  rw [place, made, zipped, Memory.erase_bindAll]

/-- The scope of a call binds the arguments, which are of the memory. -/
private theorem Memory.Sound.enter (sound : m.Sound)
    (has : ∀ d ∈ args, m.Has d) :
    (m.enter f args).2.Sound := by
  refine (sound.newScope (some f.scope)).bindAll _ _ ?_
  intro entry mem
  obtain ⟨d, given, eq⟩ := List.mem_map.1 (List.of_mem_zip mem).2
  rw [← eq]
  exact has d given

/-- Entering a call makes no object. -/
private theorem Memory.grows_enter (m : Memory) (args : List Datum) :
    m.Grows (m.enter f args).2 :=
  .of_objects_eq (Memory.objects_bindAll ..)

end Calls

/-- Calls on objects mirror calls on values however deep they nest. -/
theorem Closure.build_mirrors (limit : Nat) :
    Builder.Mirrors (Closure.build limit) (Closure.call limit) := by
  induction limit with
  | zero =>
      intro _ _ _ _ _
      exact .none
  | succ limit ih =>
      intro f args m sound has
      have entered := sound.enter f has
      have body := Stmt.buildAll_mirrors ih
          (m.enter f args).1 f.body entered entered.has_null
      rw [Closure.call_eq_map, m.erase_enter]
      exact (body.after (m.grows_enter f args)).unwrapped

-- ============================================================= programs

/-- The statements of a program, in order. An error or a `return` ends both
sides. -/
theorem Program.buildFrom_mirrors {call : Builder} {call' : Caller}
    (calls : call.Mirrors call') (scope : ScopeId) (p : Program) {last : Datum}
    {m : Memory} (sound : m.Sound)
    (has : m.Has last) :
    Build.Mirrors m (Program.buildFrom call scope p last m)
      (Program.runFrom call' scope p last.value m.erase) := by
  induction p generalizing last m with
  | nil => exact .datum sound has
  | cons s ss ih =>
      have first := Stmt.build_mirrors calls scope s sound
      rw [Program.buildFrom, Program.runFrom]
      rcases rel_inv first with ⟨eq, eq'⟩
        | ⟨⟨object, m₁⟩, ⟨outcome, h⟩, eq, eq', ended⟩
      · rw [eq, eq']
        exact .none
      · rw [eq, eq']
        obtain ⟨grows, of, sound₁, rfl, rfl⟩ := ended
        cases object with
        | datum d => exact (ih sound₁ of).after grows
        | error fault => exact .some ⟨grows, of, sound₁, rfl, rfl⟩
        | returned inner => exact .some ⟨grows, of, sound₁, rfl, rfl⟩

/-- Erasing the addresses of a program's run on objects gives its run. -/
theorem Program.build_mirrors (limit : Nat) (scope : ScopeId) (p : Program)
    {m : Memory} (sound : m.Sound) :
    Build.Mirrors m (p.build limit scope m) (p.run limit scope m.erase) :=
  Program.buildFrom_mirrors
    (Closure.build_mirrors limit) scope p sound sound.has_null

end Scriptlet
