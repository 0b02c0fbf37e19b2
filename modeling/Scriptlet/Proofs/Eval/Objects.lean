/-
Evaluation on objects.

`Expr.eval` computes with values. Behind a value there is an object with
an address of its own, and a second kind of equality, that of addresses.
Here evaluation is written down once more with the addresses in view:
which steps make an object, which hand on one that is there, and which
give out the object for `true`, for `false` or for `null`, of which there
is one each. Words and strings are compared by content as before, and all
else by address.

# Addresses

A memory lists all objects that were ever made, by address. An address is
never given out again. Objects do not change, so a reference may carry
its object along (`Datum`); that the two fit is `Memory.Has`. Errors and
`return`s on their way out are never compared, and have no address.

# Erasure

Without the addresses a memory is a heap (`Memory.erase`), and what is
done to the one is done to the other.
-/
import Scriptlet.Program.Run

namespace Scriptlet

-- ============================================================= objects

/-- A reference to an object: its address, and the value that it
holds. -/
structure Datum where
  address : Nat
  value : Value

namespace Datum

/-- The one object for a truth value. -/
def shared (b : Bool) : Datum :=
  ⟨if b then 0 else 1, .bool b⟩

/-- The one object for `null`. -/
def null : Datum :=
  ⟨2, .null⟩

end Datum

/-- What an evaluation on objects ends in. -/
inductive Object where
  | datum (d : Datum)
  | error (fault : Fault)
  | returned (inner : Object)

namespace Object

/-- The object of a function or a program whose statements ended in this
one. -/
def unwrapped : Object → Object
  | returned inner => inner
  | object => object

/-- Whether the object is an error. -/
def isError : Object → Bool
  | error _ => true
  | _ => false

/-- The outcome that is left without the addresses. -/
def erase : Object → Outcome
  | datum d => .value d.value
  | error fault => .error fault
  | returned inner => .returned inner.erase

/-- Erasing commutes with unwrapping. -/
theorem erase_unwrapped (object : Object) :
    object.unwrapped.erase = object.erase.unwrapped := by
  cases object <;> rfl

/-- Erasing keeps what is an error. -/
theorem isError_erase (object : Object) :
    object.erase.isError = object.isError := by
  cases object <;> rfl

end Object

-- ============================================================== scopes

/-- A scope that binds names to objects. -/
structure ObjectScope where
  bindings : List (String × Object)
  outer : Option ScopeId

namespace ObjectScope

variable (s : ObjectScope)

/-- What a name is bound to in this scope alone. -/
def find? (name : String) : Option Object :=
  s.bindings.lookup name

/-- Binds a name, in place of what it was bound to. -/
def bind (name : String) (object : Object) : ObjectScope :=
  { s with bindings := (name, object) :: s.bindings.filter (·.1 != name) }

/-- The scope without addresses. -/
def erase : Scope :=
  ⟨s.bindings.map (Prod.map id Object.erase), s.outer⟩

private theorem find?_erase (name : String) :
    s.erase.find? name = (s.find? name).map Object.erase := by
  obtain ⟨bindings, outer⟩ := s
  show (bindings.map (Prod.map id Object.erase)).lookup name
      = (bindings.lookup name).map _
  induction bindings with
  | nil => rfl
  | cons entry rest ih =>
      obtain ⟨key, object⟩ := entry
      by_cases same : name = key
      · simp [same]
      · simp [List.lookup_cons, beq_false_of_ne same, ih]

private theorem erase_bind (name : String) (object : Object) :
    (s.bind name object).erase = s.erase.bind name object.erase := by
  unfold bind erase Scope.bind
  rw [List.map_cons, List.filter_map]
  rfl

end ObjectScope

-- ============================================================== memory

/-- All scopes and all objects made so far, and the number of times that
a function literal was evaluated. -/
structure Memory where
  scopes : Array ObjectScope
  objects : Array Value
  closures : Nat

namespace Memory

/-- A memory with one empty scope, and with the objects that are there
from the beginning. -/
def initial : Memory :=
  ⟨#[⟨[], none⟩], #[.bool true, .bool false, .null], 0⟩

variable (m : Memory)

/-- Makes an object. -/
def new (v : Value) : Object × Memory :=
  (.datum ⟨m.objects.size, v⟩, { m with objects := m.objects.push v })

/-- Makes the function of a literal standing in a scope. The stamp says
which evaluation of a literal this is. -/
def newFunction (params : List String) (body : Block) (scope : ScopeId) :
    Object × Memory :=
  { m with closures := m.closures + 1 }.new
    (.closure ⟨m.closures, params, body, scope⟩)

/-- Makes a scope without bindings. -/
def newScope (outer : Option ScopeId) : ScopeId × Memory :=
  (m.scopes.size, { m with scopes := m.scopes.push ⟨[], outer⟩ })

/-- Binds a name in a scope to an object that is there. -/
def bind (scope : ScopeId) (name : String) (object : Object) : Memory :=
  { m with scopes := m.scopes.modify scope (·.bind name object) }

/-- Binds several names, one after the other. -/
def bindAll (m : Memory) (scope : ScopeId) : List (String × Object) → Memory
  | [] => m
  | (name, object) :: rest => (m.bind scope name object).bindAll scope rest

/-- The object that a name is bound to in the nearest of at most `steps`
scopes, going outward. -/
def lookupWithin (name : String) : (steps : Nat) → ScopeId → Option Object
  | 0, _ => none
  | steps + 1, scope =>
      match m.scopes[scope]? with
      | none => none
      | some s =>
          match s.find? name with
          | some object => some object
          | none =>
              match s.outer with
              | none => none
              | some outer => lookupWithin name steps outer

/-- The object that a name is bound to, seen from a scope. -/
def lookup (scope : ScopeId) (name : String) : Option Object :=
  m.lookupWithin name (scope + 1) scope

end Memory

-- =========================================================== operators

/-- A unary operator on an object. -/
def UnaryOp.onDatum (op : UnaryOp) (d : Datum) (m : Memory) : Object × Memory :=
  match op, d.value with
  | .not, v => (.datum (.shared !v.truthy), m)
  | .neg, .int w => m.new (.int (-w))
  | .neg, v => (.error (.unknownUnary .neg v.kind), m)

/-- A binary operator on two words. -/
def BinaryOp.onWords (op : BinaryOp) (a b : Int64) (m : Memory) :
    Object × Memory :=
  match op with
  | .add => m.new (.int (a + b))
  | .sub => m.new (.int (a - b))
  | .mul => m.new (.int (a * b))
  | .div => if b = 0 then (.error .divisionByZero, m)
        else m.new (.int (Word.floorDiv a b))
  | .less => (.datum (.shared (a < b)), m)
  | .greater => (.datum (.shared (b < a)), m)
  | .equal => (.datum (.shared (a = b)), m)
  | .notEqual => (.datum (.shared (a ≠ b)), m)

/-- A binary operator on two strings. -/
def BinaryOp.onStrings (op : BinaryOp) (a b : String) (m : Memory) :
    Object × Memory :=
  match op with
  | .add => m.new (.str (a ++ b))
  | .equal => (.datum (.shared (a = b)), m)
  | .notEqual => (.datum (.shared (a ≠ b)), m)
  | _ => (.error (.unknownBinary op .string .string), m)

/-- A binary operator on two objects that have nothing but their
addresses to compare. -/
def BinaryOp.onAddresses (op : BinaryOp) (a b : Datum) (m : Memory) :
    Object × Memory :=
  match op with
  | .equal => (.datum (.shared (a.address = b.address)), m)
  | .notEqual => (.datum (.shared (a.address ≠ b.address)), m)
  | _ => (.error (.unknownBinary op a.value.kind b.value.kind), m)

/-- A binary operator on two objects. -/
def BinaryOp.onData (op : BinaryOp) (a b : Datum) (m : Memory) :
    Object × Memory :=
  if a.value.kind = b.value.kind then
    match a.value, b.value with
    | .int x, .int y => op.onWords x y m
    | .str x, .str y => op.onStrings x y m
    | _, _ => op.onAddresses a b m
  else (.error (.typeMismatch op a.value.kind b.value.kind), m)

-- ========================================================== evaluation

/-- An evaluation on objects: what it ends in and the memory it leaves,
or `none` where calls were nested deeper than allowed. -/
abbrev Build := Option (Object × Memory)

/-- Goes on with an object that is data; a signal ends the evaluation. -/
def Build.onDatum (build : Build) (next : Datum → Memory → Build) : Build :=
  match build with
  | none => none
  | some (.datum d, m) => next d m
  | some (.error fault, m) => some (.error fault, m)
  | some (.returned inner, m) => some (.returned inner, m)

/-- Runs the body of a function on objects. -/
abbrev Builder := Closure → List Datum → Memory → Build

/-- Calls an object. -/
def Datum.applyTo (call : Builder) (callee : Datum) (args : List Datum)
    (m : Memory) : Build :=
  match callee.value with
  | .closure f =>
      if f.params.length = args.length then call f args m
      else some (.error (.wrongArity f.params.length args.length), m)
  | other => some (.error (.notAFunction other.kind), m)

mutual

/-- An expression. Literals make a new object each time, but for the truth
values, which are shared; a name gives the object it is bound to. -/
def Expr.build (call : Builder) (scope : ScopeId) : Expr → Memory → Build
  | .ident name, m =>
      match m.lookup scope name with
      | some object => some (object, m)
      | none => some (.error (.unbound name), m)
  | .int w, m => some (m.new (.int w))
  | .bool b, m => some (.datum (.shared b), m)
  | .str s, m => some (m.new (.str s))
  | .unary op e, m =>
      Build.onDatum (e.build call scope m) fun d m => some (op.onDatum d m)
  | .binary op l r, m =>
      Build.onDatum (l.build call scope m) fun a m =>
        Build.onDatum (r.build call scope m) fun b m => some (op.onData a b m)
  | .cond test yes none, m =>
      Build.onDatum (test.build call scope m) fun d m =>
        if d.value.truthy then Stmt.buildAll call scope yes .null m
        else some (.datum .null, m)
  | .cond test yes (some no), m =>
      Build.onDatum (test.build call scope m) fun d m =>
        if d.value.truthy then Stmt.buildAll call scope yes .null m
        else Stmt.buildAll call scope no .null m
  | .fn params body, m => some (m.newFunction params body scope)
  | .call callee args, m =>
      Build.onDatum (callee.build call scope m) fun f m =>
        Expr.buildArgs call scope f args [] m

def Expr.buildArgs (call : Builder) (scope : ScopeId) (callee : Datum) :
    List Expr → List Datum → Memory → Build
  | [], done, m => callee.applyTo call done m
  | arg :: args, done, m =>
      Build.onDatum (arg.build call scope m) fun d m =>
        Expr.buildArgs call scope callee args (done ++ [d]) m

def Stmt.build (call : Builder) (scope : ScopeId) : Stmt → Memory → Build
  | .bind name e, m =>
      Build.onDatum (e.build call scope m) fun d m =>
        some (.datum .null, m.bind scope name (.datum d))
  | .ret none, m => some (.returned (.datum .null), m)
  | .ret (some e), m =>
      Build.onDatum (e.build call scope m) fun d m =>
        some (.returned (.datum d), m)
  | .expr e, m => e.build call scope m

def Stmt.buildAll (call : Builder) (scope : ScopeId) :
    List Stmt → Datum → Memory → Build
  | [], last, m => some (.datum last, m)
  | s :: ss, _, m =>
      Build.onDatum (s.build call scope m) fun d m =>
        Stmt.buildAll call scope ss d m

end

/-- A new scope for the body of a function, with its parameters bound to
the very objects that were given. -/
def Memory.enter (m : Memory) (f : Closure) (args : List Datum) :
    ScopeId × Memory :=
  let (scope, m) := m.newScope (some f.scope)
  (scope, m.bindAll scope (f.params.zip (args.map .datum)))

/-- Runs the body of a function, where calls may nest `limit` deep. -/
def Closure.build : (limit : Nat) → Builder
  | 0, _, _, _ => none
  | limit + 1, f, args, m =>
      let (scope, m) := m.enter f args
      (Stmt.buildAll (Closure.build limit) scope f.body .null m).map fun r =>
        (r.1.unwrapped, r.2)

/-- Runs the statements of a program that are left. -/
def Program.buildFrom (call : Builder) (scope : ScopeId) :
    Program → Datum → Memory → Build
  | [], last, m => some (.datum last, m)
  | s :: ss, _, m =>
      match s.build call scope m with
      | none => none
      | some (.datum d, m) => Program.buildFrom call scope ss d m
      | some (.error fault, m) => some (.error fault, m)
      | some (.returned inner, m) => some (inner, m)

/-- Runs a program on objects. -/
def Program.build (limit : Nat) (scope : ScopeId) (p : Program) (m : Memory) :
    Build :=
  Program.buildFrom (Closure.build limit) scope p .null m

-- ============================================================= erasure

namespace Memory

/-- The heap that is left without the addresses. -/
def erase (m : Memory) : Heap :=
  ⟨m.scopes.map ObjectScope.erase, m.closures⟩

/-- The first memory is the first heap. -/
theorem erase_initial : initial.erase = (Heap.empty.newScope none).2 := by
  simp [initial, erase, ObjectScope.erase, Heap.newScope, Heap.empty]

variable (m : Memory)

theorem erase_newScope (outer : Option ScopeId) :
    (m.erase.newScope outer).1 = (m.newScope outer).1
      ∧ (m.erase.newScope outer).2 = (m.newScope outer).2.erase := by
  constructor
  · exact Array.size_map
  · unfold erase newScope Heap.newScope
    dsimp only
    rw [Array.map_push]
    rfl

/-- Erasing commutes with binding. -/
theorem erase_bind (scope : ScopeId) (name : String) (object : Object) :
    m.erase.bind scope name object.erase
      = (m.bind scope name object).erase := by
  unfold erase bind Heap.bind
  congr 1
  apply Array.ext_getElem?
  intro i
  rw [Array.getElem?_modify, Array.getElem?_map, Array.getElem?_map,
    Array.getElem?_modify]
  split
  · rw [Option.map_map, Option.map_map]
    congr 1
    funext s
    exact (s.erase_bind name object).symm
  · rfl

theorem erase_bindAll (scope : ScopeId) (entries : List (String × Object)) :
    m.erase.bindAll scope (entries.map (Prod.map id Object.erase))
      = (m.bindAll scope entries).erase := by
  induction entries generalizing m with
  | nil => rfl
  | cons entry rest ih =>
      show (m.erase.bind scope entry.1 entry.2.erase).bindAll scope _ = _
      rw [erase_bind, ih]
      rfl

/-- A lookup finds the same binding, with or without addresses. -/
theorem lookup_erase (scope : ScopeId) (name : String) :
    m.erase.lookup scope name = (m.lookup scope name).map Object.erase := by
  unfold lookup Heap.lookup
  generalize scope + 1 = steps
  induction steps generalizing scope with
  | zero => rfl
  | succ steps ih =>
      have at_scope : m.erase.scopes[scope]?
          = m.scopes[scope]?.map ObjectScope.erase :=
        Array.getElem?_map
      rw [Heap.lookupWithin, lookupWithin, at_scope]
      cases m.scopes[scope]? with
      | none => rfl
      | some s =>
          simp only [Option.map_some, s.find?_erase]
          cases s.find? name with
          | some object => rfl
          | none =>
              have around : s.erase.outer = s.outer := rfl
              simp only [Option.map_none, around]
              cases s.outer with
              | none => rfl
              | some outer => exact ih outer

end Memory

end Scriptlet
