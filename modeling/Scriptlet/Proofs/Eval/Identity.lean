/-
Equality by address is an equality.

Two truth values are equal if they are the same object, and so for `null`
and for functions; words and strings are equal if their content is. What
programs get to see of this is an equivalence on all that they can
compare. It is equality of values, but for functions, which are equal
only if they are one function (`Memory.Coherent`).

All of it holds of sound memories, and programs leave sound memories, so
what is left to do here is to run programs one after the other.
-/
import Scriptlet.Proofs.Eval.Mirror

namespace Scriptlet

-- ========================================== programs one after the other

/-- Runs programs one after the other in one scope. -/
def Program.runEach (limit : Nat) (scope : ScopeId) :
    List Program → Heap → Option (List Outcome × Heap)
  | [], h => some ([], h)
  | p :: ps, h => do
      let (outcome, h) ← p.run limit scope h
      let (outcomes, h) ← Program.runEach limit scope ps h
      return (outcome :: outcomes, h)

/-- Runs programs one after the other on objects. -/
def Program.buildEach (limit : Nat) (scope : ScopeId) :
    List Program → Memory → Option (List Object × Memory)
  | [], m => some ([], m)
  | p :: ps, m => do
      let (object, m) ← p.build limit scope m
      let (objects, m) ← Program.buildEach limit scope ps m
      return (object :: objects, m)

/-- Programs that run on objects do what they do on values, and end in
objects of a sound memory. -/
theorem Program.buildEach_mirrors (limit : Nat) (scope : ScopeId)
    (ps : List Program) {m : Memory} (sound : m.Sound) :
    Option.Rel
      (fun r s => m.Grows r.2 ∧ (∀ object ∈ r.1, object.Of r.2) ∧ r.2.Sound
        ∧ r.1.map Object.erase = s.1 ∧ r.2.erase = s.2)
      (Program.buildEach limit scope ps m)
        (Program.runEach limit scope ps m.erase) := by
  induction ps generalizing m with
  | nil => exact .some ⟨.refl m, List.forall_mem_nil _, sound, rfl, rfl⟩
  | cons p ps ih =>
      rw [Program.buildEach, Program.runEach]
      rcases rel_inv (p.build_mirrors limit scope sound) with
        ⟨eq, eq'⟩ | ⟨⟨object, m₁⟩, ⟨outcome, h⟩, eq, eq', ended⟩
      · rw [eq, eq']
        exact .none
      · rw [eq, eq']
        obtain ⟨grows, of, sound₁, rfl, rfl⟩ := ended
        show Option.Rel _ (Program.buildEach limit scope ps m₁ >>= _)
          (Program.runEach limit scope ps m₁.erase >>= _)
        rcases rel_inv (ih sound₁) with
          ⟨eq, eq'⟩ | ⟨⟨objects, m₂⟩, ⟨outcomes, h⟩, eq, eq', ended⟩
        · rw [eq, eq']
          exact .none
        · rw [eq, eq']
          obtain ⟨grows₁, of₁, sound₂, rfl, rfl⟩ := ended
          have all : ∀ o ∈ object :: objects, o.Of m₂ := by
            rw [List.forall_mem_cons]
            exact ⟨grows₁.of of, of₁⟩
          exact .some ⟨grows.trans grows₁, all, sound₂, rfl, rfl⟩

-- ==================================================== equal for a program

namespace Value

/-- Every value is the same as itself. -/
theorem same_refl (v : Value) : v.same v = true := by
  cases v <;> simp [same]

/-- Being the same is symmetric. -/
theorem same_comm (v w : Value) : v.same w = w.same v := by
  cases v <;> cases w <;> simp [same, eq_comm]

/-- Being the same is transitive. For functions it is so because their
identity is a number. -/
theorem same_trans {u v w : Value} (first : u.same v = true)
    (second : v.same w = true) :
    u.same w = true := by
  cases u <;> cases v <;> cases w <;> simp_all [same]

/-- Apart from functions, being the same is equality. -/
theorem same_iff_eq {v w : Value} (not_function : v.kind ≠ .function) :
    v.same w = true ↔ v = w := by
  cases v with
  | closure => exact absurd rfl not_function
  | int | bool | str | null => cases w <;> simp [same]

end Value

/-- Between values of one kind `==` always gives a truth value. -/
private theorem BinaryOp.apply_equal {v w : Value} (alike : v.kind = w.kind) :
    equal.apply v w = .value (.bool (v.same w)) :=
  if_pos alike

/-- So does `!=`, the opposite one. -/
private theorem BinaryOp.apply_notEqual {v w : Value}
    (alike : v.kind = w.kind) :
    notEqual.apply v w = .value (.bool !v.same w) :=
  if_pos alike

/-- A program finds the two objects equal. -/
def Datum.Equal (m : Memory) (a b : Datum) : Prop :=
  (BinaryOp.equal.onData a b m).1 = .datum (.shared true)

namespace Memory.Sound

variable {m : Memory} {a b : Datum}

/-- What a binary operator does to a sound memory, in one place: its result
is of the memory, the memory stays sound, and the evaluator gives the same. -/
private theorem onData_spec (sound : m.Sound) (has_a : m.Has a)
    (has_b : m.Has b) (op : BinaryOp) :
    (op.onData a b m).1.Of (op.onData a b m).2 ∧ (op.onData a b m).2.Sound
      ∧ (op.onData a b m).1.erase = op.apply a.value b.value := by
  cases op.onData_mirrors sound has_a has_b with
  | some ended =>
      obtain ⟨-, of, sound', erased, -⟩ := ended
      exact ⟨of, sound', erased⟩

/-- An operator that answers with a truth value gives the object for
it. -/
private theorem onData_shared (sound : m.Sound) (has_a : m.Has a)
    (has_b : m.Has b) {op : BinaryOp} {answer : Bool}
    (eq : op.apply a.value b.value = .value (.bool answer)) :
    (op.onData a b m).1 = .datum (.shared answer) := by
  obtain ⟨of, sound', erased⟩ := sound.onData_spec has_a has_b op
  rw [eq] at erased
  cases object : (op.onData a b m).1 with
  | datum d =>
      rw [object] at of erased
      rw [sound'.eq_shared of (Outcome.value.inj erased)]
  | error fault => rw [object] at erased; cases erased
  | returned inner => rw [object] at erased; cases erased

/-- An operator fails on objects where it fails on their values. -/
private theorem isError_onData (sound : m.Sound) (has_a : m.Has a)
    (has_b : m.Has b) (op : BinaryOp) :
    (op.onData a b m).1.isError = (op.apply a.value b.value).isError := by
  obtain ⟨-, -, erased⟩ := sound.onData_spec has_a has_b op
  rw [← erased, Object.isError_erase]

/-- Objects are equal if and only if their values are the same. -/
private theorem equal_iff (sound : m.Sound) (has_a : m.Has a)
    (has_b : m.Has b) :
    a.Equal m b ↔ a.value.same b.value = true := by
  unfold Datum.Equal
  by_cases alike : a.value.kind = b.value.kind
  · rw [sound.onData_shared has_a has_b (BinaryOp.apply_equal alike)]
    cases a.value.same b.value <;> simp [Datum.shared]
  · rw [Value.same_of_kind_ne _ _ alike, BinaryOp.onData, if_neg alike]
    exact iff_of_false Object.noConfusion Bool.false_ne_true

end Memory.Sound

-- ============================================================== results

/-- What programs can rely on when they compare objects of a memory. -/
structure Memory.Coherent (m : Memory) : Prop where
  /-- There is no second object for a truth value. -/
  bool : ∀ d, m.Has d → ∀ b, d.value = .bool b → d = .shared b
  /-- There is no second `null`. -/
  null : ∀ d, m.Has d → d.value = .null → d = .null
  /-- Comparing is an error if the classes differ, and only then. -/
  error_iff : ∀ a b, m.Has a → m.Has b →
    ((BinaryOp.equal.onData a b m).1.isError ↔ a.value.kind ≠ b.value.kind)
      ∧ ((BinaryOp.notEqual.onData a b m).1.isError
        ↔ a.value.kind ≠ b.value.kind)
  /-- Otherwise `==` and `!=` give opposite answers. -/
  opposite : ∀ a b, m.Has a → m.Has b → a.value.kind = b.value.kind →
    ∃ answer, (BinaryOp.equal.onData a b m).1 = .datum (.shared answer)
      ∧ (BinaryOp.notEqual.onData a b m).1 = .datum (.shared !answer)
  refl : ∀ a, m.Has a → a.Equal m a
  symm : ∀ a b, m.Has a → m.Has b → a.Equal m b → b.Equal m a
  trans : ∀ a b c, m.Has a → m.Has b → m.Has c → a.Equal m b →
    b.Equal m c → a.Equal m c
  /-- Whatever is not a function is equal to what has the same value. -/
  value : ∀ a b, m.Has a → m.Has b → a.value.kind ≠ .function →
    (a.Equal m b ↔ a.value = b.value)
  /-- The stamps of functions are the numbers of the evaluations of
  function literals. -/
  made : ∀ k, k < m.closures ↔ ∃ d f,
    m.Has d ∧ d.value = .closure f ∧ f.stamp = k
  /-- Functions are equal if one evaluation of a literal made them, and
  then they are one object. -/
  function : ∀ a b f g, m.Has a → m.Has b → a.value = .closure f →
    b.value = .closure g →
    (a.Equal m b ↔ f.stamp = g.stamp) ∧ (a.Equal m b ↔ a = b)

/-- A sound memory is coherent, part by part. -/
theorem Memory.Sound.coherent {m : Memory} (sound : m.Sound) : m.Coherent where
  bool d has b eq := sound.eq_shared has eq
  null d has eq := sound.eq_null has eq
  error_iff a b has_a has_b := by
    rw [sound.isError_onData has_a has_b, sound.isError_onData has_a has_b]
    by_cases alike : a.value.kind = b.value.kind
    · rw [BinaryOp.apply_equal alike, BinaryOp.apply_notEqual alike]
      exact ⟨iff_of_false Bool.false_ne_true (not_not_intro alike),
        iff_of_false Bool.false_ne_true (not_not_intro alike)⟩
    · rw [BinaryOp.apply, BinaryOp.apply, if_neg alike, if_neg alike]
      exact ⟨iff_of_true rfl alike, iff_of_true rfl alike⟩
  opposite a b has_a has_b alike :=
    ⟨a.value.same b.value,
      sound.onData_shared has_a has_b (BinaryOp.apply_equal alike),
      sound.onData_shared has_a has_b (BinaryOp.apply_notEqual alike)⟩
  refl a has := (sound.equal_iff has has).2 a.value.same_refl
  symm a b has_a has_b equal := by
    rw [sound.equal_iff has_a has_b, Value.same_comm] at equal
    exact (sound.equal_iff has_b has_a).2 equal
  trans a b c has_a has_b has_c first second := by
    rw [sound.equal_iff has_a has_b] at first
    rw [sound.equal_iff has_b has_c] at second
    exact (sound.equal_iff has_a has_c).2 (Value.same_trans first second)
  value a b has_a has_b not_function := by
    rw [sound.equal_iff has_a has_b]
    exact Value.same_iff_eq not_function
  made k := by
    constructor
    · intro counted
      obtain ⟨a, f, there, stamp⟩ := sound.made k counted
      exact ⟨⟨a, .closure f⟩, f, there, rfl, stamp⟩
    · rintro ⟨⟨a, _⟩, f, there, rfl, rfl⟩
      exact sound.counted a f there
  function a b f g has_a has_b is_f is_g := by
    have by_stamp : a.value.same b.value = true ↔ f.stamp = g.stamp := by
      rw [is_f, is_g]
      exact decide_eq_true_iff
    have by_address : a.address = b.address ↔ a.value.same b.value = true := by
      apply sound.same_iff has_a has_b <;> simp [is_f, is_g, Value.kind]
    rw [sound.equal_iff has_a has_b]
    refine ⟨by_stamp, ?_, ?_⟩
    · intro same
      exact has_a.eq_of_address has_b (by_address.2 same)
    · intro eq
      exact by_address.1 (congrArg Datum.address eq)

/-- Equality is coherent, although it goes by address. Programs that run
one after the other in a new scope do on objects what they do on values.
Every object that a name is bound to in the end, in whatever scope, or
that one of the programs ended in, is an object of the memory, and all
objects of the memory compare as an equality should. -/
theorem Program.equality_coherent (limit : Nat) (ps : List Program) :
    Program.runEach limit 0 ps (Heap.empty.newScope none).2
        = (Program.buildEach limit 0 ps .initial).map
            (fun r => (r.1.map Object.erase, r.2.erase))
      ∧ ∀ results m, Program.buildEach limit 0 ps .initial = some (results, m) →
        (∀ object, m.Binds object ∨ object ∈ results → object.Of m)
          ∧ m.Coherent := by
  have mirrors := Program.buildEach_mirrors limit 0 ps Memory.Sound.initial
  rw [Memory.erase_initial] at mirrors
  rcases rel_inv mirrors with ⟨eq, eq'⟩
    | ⟨⟨results, m⟩, ⟨outcomes, h⟩, eq, eq', ended⟩
  · rw [eq, eq']
    refine ⟨rfl, ?_⟩
    intro _ _ same
    cases same
  · rw [eq, eq']
    obtain ⟨-, of, sound, rfl, rfl⟩ := ended
    refine ⟨rfl, ?_⟩
    intro _ _ same
    cases same
    refine ⟨?_, sound.coherent⟩
    rintro object (binds | mem)
    · exact sound.bound object binds
    · exact of object mem

/-- After `let f = fn(x) { x }; let g = f(f); let k = fn(x) { x };` the
names `f` and `g` stand for one function, and `k` for another. -/
theorem Program.equality_coherent_functions :
    let identity : Expr := .fn ["x"] [.expr (.ident "x")]
    let setup : Program := [.bind "f" identity,
      .bind "g" (.call (.ident "f") [.ident "f"]), .bind "k" identity]
    let compare (name : String) : Program :=
      [.expr (.binary .equal (.ident "f") (.ident name))]
    ∃ m, Program.buildEach 1 0 [setup, compare "g", compare "k"] .initial
          = some
            ([.datum .null, .datum (.shared true), .datum (.shared false)], m)
      ∧ m.Coherent := by
  intro identity setup compare
  refine ⟨_, rfl, ?_⟩
  exact ((Program.equality_coherent 1
    [setup, compare "g", compare "k"]).2 _ _ rfl).2

end Scriptlet
