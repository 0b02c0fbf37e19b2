/-
What every evaluation keeps.

An evaluation is put together from a handful of steps: look a name up,
apply an operator, make a function, bind a name, enter a function and
leave it again. An `Invariant` says what holds of the heap, of outcomes
and of the way from one heap to the next, and that each of those steps
keeps it. Then all evaluations keep it (`Invariant.node`), and so does
every call (`Invariant.apply`). The induction over the syntax and over
the nesting of calls is done here, once.

# The three parts

- `Holds scope h`: of the heap, before and after an evaluation in a
  scope.
- `Good h outcome`: of an outcome, as seen from a heap. It lasts while
  the heap moves on, since the operands of a call have to wait for each
  other.
- `Moves scope names h h' log`: of the way from one heap to another with
  these events. `names` are those that the evaluation may bind in its
  own scope: those of the `let` statements in the node, not counting the
  bodies of functions, which run in scopes of their own.
-/
import Scriptlet.Proofs.Eval.Trace

namespace Scriptlet

-- ======================================================= bound names

mutual

/-- The names of the `let` statements outside function bodies. -/
def Expr.lets : Expr → List String
  | .ident _ => []
  | .int _ => []
  | .bool _ => []
  | .str _ => []
  | .unary _ e => e.lets
  | .binary _ l r => l.lets ++ r.lets
  | .cond test yes none => test.lets ++ Stmt.letsAll yes
  | .cond test yes (some no) =>
      test.lets ++ (Stmt.letsAll yes ++ Stmt.letsAll no)
  | .fn _ _ => []
  | .call callee args => callee.lets ++ Expr.letsAll args

/-- The same for a list of expressions. -/
def Expr.letsAll : List Expr → List String
  | [] => []
  | e :: es => e.lets ++ Expr.letsAll es

/-- A `let` binds its own name besides those in its expression. -/
def Stmt.lets : Stmt → List String
  | .bind name e => name :: e.lets
  | .ret none => []
  | .ret (some e) => e.lets
  | .expr e => e.lets

/-- The same for a list of statements. -/
def Stmt.letsAll : List Stmt → List String
  | [] => []
  | s :: ss => s.lets ++ Stmt.letsAll ss

end

/-- The names of the `let` statements in a node, outside function bodies. -/
def Node.lets : Node → List String
  | .program p => Stmt.letsAll p
  | .stmt s => s.lets
  | .block body => Stmt.letsAll body
  | .expr e => e.lets

-- ===================================================== plain outcomes

/-- An outcome that refers to no scope and returns nothing: an error, or
a value that is no function. -/
def Outcome.Plain : Outcome → Prop
  | .value v => v.kind ≠ .function
  | .error _ => True
  | .returned _ => False

/-- What a unary operator gives is plain. -/
theorem UnaryOp.plain_apply (op : UnaryOp) (v : Value) :
    (op.apply v).Plain := by
  cases op with
  | not => exact Kind.noConfusion
  | neg =>
      cases v with
      | int w => exact Kind.noConfusion
      | bool | str | null | closure => trivial

/-- Between operands of one kind. -/
private theorem BinaryOp.plain_applyAlike (op : BinaryOp) (a b : Value) :
    (op.applyAlike a b).Plain := by
  unfold BinaryOp.applyAlike
  split
  -- only `/` looks at its operands once their classes are known
  case h_6 => split <;> simp [Outcome.Plain, Value.kind]
  all_goals simp [Outcome.Plain, Value.kind]

/-- What a binary operator gives is plain. -/
theorem BinaryOp.plain_apply (op : BinaryOp) (a b : Value) :
    (op.apply a b).Plain := by
  unfold BinaryOp.apply
  split
  · exact op.plain_applyAlike a b
  · trivial

-- ========================================================= invariants

/-- The events of a call, given those of the body. -/
def callEvents (f : Closure) (args : List Outcome) (h : Heap) (log : List Event)
    (outcome : Outcome) : List Event :=
  .call (.value (.closure f)) args ::
    (bindEvents (f.enter args h).1 (f.params.zip args) ++ log)
      ++ [.result outcome]

/-- Something that each step of an evaluation keeps. Calls are where it
is decided: `enter` has to give the invariant for the scope of the
function, and `leave` to take it back to the scope of the caller. -/
structure Invariant where
  Holds : ScopeId → Heap → Prop
  Good : Heap → Outcome → Prop
  Moves : ScopeId → (String → Prop) → Heap → Heap → List Event → Prop
  -- moves can be put together, and outcomes stay good meanwhile
  stay (scope : ScopeId) (names : String → Prop) (h : Heap) :
    Moves scope names h h []
  trans {scope : ScopeId} {names : String → Prop} {h h₁ h₂ : Heap}
    {log log₁ : List Event} :
    Moves scope names h h₁ log → Moves scope names h₁ h₂ log₁ →
      Moves scope names h h₂ (log ++ log₁)
  lasts {scope : ScopeId} {names : String → Prop} {h h' : Heap}
    {log : List Event} {outcome : Outcome} :
    Moves scope names h h' log → Good h outcome → Good h' outcome
  -- outcomes
  plain (h : Heap) {outcome : Outcome} : outcome.Plain → Good h outcome
  returned {h : Heap} {v : Value} :
    Good h (.value v) → Good h (.returned (.value v))
  unwrapped {h : Heap} {outcome : Outcome} :
    Good h outcome → Good h outcome.unwrapped
  found {scope : ScopeId} {h : Heap} {name : String} {outcome : Outcome} :
    Holds scope h → h.lookup scope name = some outcome → Good h outcome
  -- events that leave the heap alone
  ended (scope : ScopeId) (names : String → Prop) {h : Heap}
    {outcome : Outcome} :
    Good h outcome → Moves scope names h h [.ended outcome]
  unary (scope : ScopeId) (names : String → Prop) (op : UnaryOp) {h : Heap}
    {v : Value} :
    Good h (.value v) → Moves scope names h h [.unary op (.value v)]
  binary (scope : ScopeId) (names : String → Prop) (op : BinaryOp) {h : Heap}
    {a b : Value} :
    Good h (.value a) → Good h (.value b) →
      Moves scope names h h [.binary op (.value a) (.value b)]
  refused (scope : ScopeId) (names : String → Prop) (fault : Fault) {h : Heap}
    {callee : Value} {args : List Value} :
    Good h (.value callee) → (∀ a ∈ args, Good h (.value a)) →
      Moves scope names h h [.call (.value callee) (args.map .value),
        .result (.error fault)]
  -- steps that change the heap
  closure {scope : ScopeId} (names : String → Prop) {h : Heap}
    (params : List String) (body : Block) : Holds scope h →
      Holds scope (h.newClosure params body scope).2
        ∧ Good (h.newClosure params body scope).2
          (.value (.closure (h.newClosure params body scope).1))
        ∧ Moves scope names h (h.newClosure params body scope).2 []
  bind {scope : ScopeId} {names : String → Prop} {h : Heap} {name : String}
    {v : Value} :
    Holds scope h → Good h (.value v) → names name →
      Holds scope (h.bind scope name (.value v))
        ∧ Moves scope names h (h.bind scope name (.value v))
          [.bind scope name (.value v)]
  enter {scope : ScopeId} {h : Heap} {f : Closure} {args : List Value} :
    Holds scope h → Good h (.value (.closure f)) →
    (∀ a ∈ args, Good h (.value a)) →
      f.params.length = args.length →
      Holds (f.enter (args.map .value) h).1 (f.enter (args.map .value) h).2
  leave {scope : ScopeId} (names : String → Prop) {h h' : Heap} {f : Closure}
    {args : List Value} {log : List Event} {outcome : Outcome} :
    Holds scope h → Good h (.value (.closure f)) →
    (∀ a ∈ args, Good h (.value a)) →
      f.params.length = args.length →
      Holds (f.enter (args.map .value) h).1 h' → Good h' outcome →
      Moves (f.enter (args.map .value) h).1 (fun _ => True)
        (f.enter (args.map .value) h).2 h' log →
      Holds scope h'
        ∧ Moves scope names h h' (callEvents f
          (args.map .value) h log outcome.unwrapped)

namespace Invariant

variable (I : Invariant)

/-- The run keeps the invariant, if it completes. -/
def Keeps (scope : ScopeId) (names : String → Prop) (h : Heap) (run : Traced) :
    Prop :=
  ∀ outcome h' log, run = some (outcome, h', log) →
    I.Holds scope h' ∧ I.Good h' outcome ∧ I.Moves scope names h h' log

variable {I} {scope : ScopeId} {names : String → Prop} {h : Heap}

/-- Nothing happens, and what is given is good. -/
private theorem Keeps.of_good {outcome : Outcome} (holds : I.Holds scope h)
    (good : I.Good h outcome) :
    I.Keeps scope names h (some (outcome, h, [])) := by
  intro _ _ _ eq
  cases eq
  exact ⟨holds, good, I.stay scope names h⟩

/-- The event at the end of an evaluation. -/
private theorem Keeps.ended {run : Traced} (keeps : I.Keeps scope names h run) :
    I.Keeps scope names h run.ended := by
  intro outcome h' log eq
  obtain ⟨r, done, same⟩ := Option.map_eq_some_iff.1 eq
  cases same
  obtain ⟨holds, good, moves⟩ := keeps r.1 r.2.1 r.2.2 done
  exact ⟨holds, good, I.trans moves (I.ended scope names good)⟩

/-- One run and then another, unless the first ends in a signal. -/
private theorem Keeps.propagate {run : Traced} {next : Outcome → Heap → Traced}
    (keeps : I.Keeps scope names h run)
    (keeps_next : ∀ v h₁ log, I.Holds scope h₁ → I.Good h₁ (.value v) →
      I.Moves scope names h h₁ log → I.Keeps scope names h₁
        (next (.value v) h₁)) :
    I.Keeps scope names h (run.propagate next) := by
  intro outcome h' log eq
  cases run with
  | none => cases eq
  | some r =>
      obtain ⟨first, h₁, log₁⟩ := r
      obtain ⟨holds, good, moves⟩ := keeps first h₁ log₁ rfl
      cases first with
      | value v =>
          obtain ⟨r, done, same⟩ := Option.map_eq_some_iff.1 eq
          cases same
          obtain ⟨holds', good', moves'⟩ :=
            keeps_next v h₁ log₁ holds good moves r.1 r.2.1 r.2.2 done
          exact ⟨holds', good', I.trans moves moves'⟩
      | error fault =>
          cases eq
          exact ⟨holds, good, moves⟩
      | returned inner =>
          cases eq
          exact ⟨holds, good, moves⟩

-- ============================================================== calls

/-- A caller that keeps the invariant, whatever the scope that the call
is made from. -/
def KeepsCalls (I : Invariant) (call : TracedCaller) : Prop :=
  ∀ (scope : ScopeId) (names : String → Prop) (f : Closure)
    (args : List Value) (h : Heap), I.Holds scope h →
    I.Good h (.value (.closure f)) → (∀ a ∈ args, I.Good h (.value a)) →
    f.params.length = args.length →
    ∀ outcome h' log, call f (args.map .value) h = some (outcome, h', log) →
      I.Holds scope h' ∧ I.Good h' outcome ∧
        I.Moves scope names h h'
          (.call (.value (.closure f))
            (args.map .value) :: log ++ [.result outcome])

/-- A call keeps the invariant, as far as the caller does. -/
private theorem keeps_tracedApply {call : TracedCaller}
    (caller : I.KeepsCalls call) {callee : Value} {args : List Value}
    (holds : I.Holds scope h)
    (good : I.Good h (.value callee))
    (goods : ∀ a ∈ args, I.Good h (.value a)) :
    I.Keeps scope names h (Outcome.tracedApply call (.value callee)
      (args.map .value) h) := by
  intro outcome h' log eq
  obtain ⟨r, done, same⟩ := Option.map_eq_some_iff.1 eq
  cases same
  have refuse (fault : Fault) (stop : some (.error fault, h, []) = some r) :
      I.Holds scope r.2.1 ∧ I.Good r.2.1 r.1
        ∧ I.Moves scope names h r.2.1
          (.call (.value callee) (args.map .value)
            :: r.2.2 ++ [.result r.1]) := by
    cases stop
    exact ⟨holds, I.plain h trivial, I.refused scope names fault good goods⟩
  cases callee with
  | closure f =>
      simp only [Outcome.applyAny, List.length_map] at done
      split at done
      · next same_length =>
          exact caller scope names f args h holds good goods same_length r.1
            r.2.1 r.2.2 done
      · exact refuse _ done
  | int | bool | str | null => exact refuse _ done

-- ========================================================= evaluation

mutual

/-- An expression keeps the invariant. Each case puts the steps of its rule
together. -/
theorem expr {call : TracedCaller} (caller : I.KeepsCalls call) :
    (e : Expr) → {h : Heap} →
    I.Holds scope h → (∀ name ∈ e.lets, names name) →
    I.Keeps scope names h (e.traced call scope h)
  | .ident name, h, holds, _ => by
      rw [Expr.traced]
      cases found : h.lookup scope name with
      | some outcome =>
          apply Keeps.ended
          exact Keeps.of_good holds (I.found holds found)
      | none =>
          apply Keeps.ended
          exact Keeps.of_good holds (I.plain h trivial)
  | .int _, h, holds, _ => by
      rw [Expr.traced]
      apply Keeps.ended
      exact Keeps.of_good holds (I.plain h Kind.noConfusion)
  | .bool _, h, holds, _ => by
      rw [Expr.traced]
      apply Keeps.ended
      exact Keeps.of_good holds (I.plain h Kind.noConfusion)
  | .str _, h, holds, _ => by
      rw [Expr.traced]
      apply Keeps.ended
      exact Keeps.of_good holds (I.plain h Kind.noConfusion)
  | .unary op e, h, holds, bound => by
      rw [Expr.traced]
      apply Keeps.ended
      apply (expr caller e holds bound).propagate
      intro v h₁ _ holds₁ good _ _ _ _ eq
      cases eq
      exact ⟨holds₁, I.plain h₁ (op.plain_apply v), I.unary scope names op good⟩
  | .binary op l r, h, holds, bound => by
      rw [Expr.lets, List.forall_mem_append] at bound
      rw [Expr.traced]
      apply Keeps.ended
      apply (expr caller l holds bound.1).propagate
      intro a h₁ _ holds₁ good₁ _
      apply (expr caller r holds₁ bound.2).propagate
      intro b h₂ _ holds₂ good₂ moves _ _ _ eq
      cases eq
      -- the left operand had to wait for the right one
      have good₁ := I.lasts moves good₁
      exact ⟨holds₂, I.plain h₂ (op.plain_apply a b),
        I.binary scope names op good₁ good₂⟩
  | .cond test yes none, h, holds, bound => by
      rw [Expr.lets, List.forall_mem_append] at bound
      rw [Expr.traced]
      apply Keeps.ended
      apply (expr caller test holds bound.1).propagate
      intro v h₁ _ holds₁ _ _
      have null : I.Good h₁ .null := I.plain h₁ Kind.noConfusion
      show I.Keeps scope names h₁ (if v.truthy then _ else _)
      split
      · exact stmts caller yes holds₁ null bound.2
      · exact Keeps.of_good holds₁ null
  | .cond test yes (some no), h, holds, bound => by
      rw [Expr.lets, List.forall_mem_append, List.forall_mem_append] at bound
      rw [Expr.traced]
      apply Keeps.ended
      apply (expr caller test holds bound.1).propagate
      intro v h₁ _ holds₁ _ _
      have null : I.Good h₁ .null := I.plain h₁ Kind.noConfusion
      show I.Keeps scope names h₁ (if v.truthy then _ else _)
      split
      · exact stmts caller yes holds₁ null bound.2.1
      · exact stmts caller no holds₁ null bound.2.2
  | .fn params body, h, holds, _ => by
      rw [Expr.traced]
      apply Keeps.ended
      intro _ _ _ eq
      cases eq
      exact I.closure names params body holds
  | .call callee args, h, holds, bound => by
      rw [Expr.lets, List.forall_mem_append] at bound
      rw [Expr.traced]
      apply Keeps.ended
      apply (expr caller callee holds bound.1).propagate
      intro f h₁ _ holds₁ good _
      exact exprs caller args [] holds₁ good (by simp) bound.2

theorem exprs {call : TracedCaller} (caller : I.KeepsCalls call)
    {callee : Value} :
    (args : List Expr) → (done : List Value) → {h : Heap} → I.Holds scope h →
    I.Good h (.value callee) → (∀ a ∈ done, I.Good h (.value a)) →
    (∀ name ∈ Expr.letsAll args, names name) →
    I.Keeps scope names h (Expr.tracedArgs call scope (.value callee) args
      (done.map .value) h)
  | [], done, h, holds, good, goods, _ => by
      rw [Expr.tracedArgs]
      exact keeps_tracedApply caller holds good goods
  | arg :: args, done, h, holds, good, goods, bound => by
      rw [Expr.letsAll, List.forall_mem_append] at bound
      rw [Expr.tracedArgs]
      apply (expr caller arg holds bound.1).propagate
      intro v h₁ _ holds₁ good₁ moves
      -- the callee and the arguments before had to wait for this one
      have goods₁ : ∀ a ∈ done ++ [v], I.Good h₁ (.value a) := by
        rw [List.forall_mem_append, List.forall_mem_singleton]
        exact ⟨fun a mem => I.lasts moves (goods a mem), good₁⟩
      have rest := exprs caller args (done ++ [v]) holds₁
          (I.lasts moves good) goods₁ bound.2
      rw [List.map_append] at rest
      exact rest

theorem stmt {call : TracedCaller} (caller : I.KeepsCalls call) :
    (s : Stmt) → {h : Heap} →
    I.Holds scope h → (∀ name ∈ s.lets, names name) →
    I.Keeps scope names h (s.traced call scope h)
  | .bind name e, h, holds, bound => by
      rw [Stmt.lets, List.forall_mem_cons] at bound
      rw [Stmt.traced]
      apply Keeps.ended
      apply (expr caller e holds bound.2).propagate
      intro v h₁ _ holds₁ good _ _ _ _ eq
      cases eq
      obtain ⟨holds₂, moves⟩ := I.bind holds₁ good bound.1
      exact ⟨holds₂, I.plain _ Kind.noConfusion, moves⟩
  | .ret none, h, holds, _ => by
      rw [Stmt.traced]
      apply Keeps.ended
      have null : I.Good h (.value .null) := I.plain h Kind.noConfusion
      exact Keeps.of_good holds (I.returned null)
  | .ret (some e), h, holds, bound => by
      rw [Stmt.traced]
      apply Keeps.ended
      apply (expr caller e holds bound).propagate
      intro v h₁ _ holds₁ good _
      exact Keeps.of_good holds₁ (I.returned good)
  | .expr e, h, holds, bound => by
      rw [Stmt.traced]
      exact (expr caller e holds bound).ended

theorem stmts {call : TracedCaller} (caller : I.KeepsCalls call) :
    (ss : List Stmt) → {last : Outcome} → {h : Heap} → I.Holds scope h →
    I.Good h last →
    (∀ name ∈ Stmt.letsAll ss, names name) →
    I.Keeps scope names h (Stmt.tracedAll call scope ss last h)
  | [], last, h, holds, good, _ => by
      rw [Stmt.tracedAll]
      exact Keeps.of_good holds good
  | s :: ss, last, h, holds, _, bound => by
      rw [Stmt.letsAll, List.forall_mem_append] at bound
      rw [Stmt.tracedAll]
      apply (stmt caller s holds bound.1).propagate
      intro v h₁ _ holds₁ good _
      exact stmts caller ss holds₁ good bound.2

end

-- =================================================== calls in calls

/-- Calls keep the invariant however deep they nest. -/
theorem keepsCalls (limit : Nat) : I.KeepsCalls (Closure.traced limit) := by
  induction limit with
  | zero =>
      intro _ _ _ _ _ _ _ _ _ _ _ _ eq
      cases eq
  | succ limit ih =>
      intro scope names f args h holds good goods same_length outcome h' log eq
      have inside := I.enter holds good goods same_length
      have null : I.Good (f.enter (args.map .value) h).2 .null :=
        I.plain _ Kind.noConfusion
      -- the body may bind what it likes in its own scope
      have body : I.Keeps _ (fun _ => True) _ _ :=
        stmts ih f.body inside null fun _ _ => trivial
      rw [Closure.traced] at eq
      dsimp only at eq
      split at eq
      · cases eq
      · next _ last _ log₁ run =>
          cases eq
          obtain ⟨inside₁, good₁, moves⟩ := body last h' log₁ run
          obtain ⟨holds₁, moved⟩ :=
            I.leave names holds good goods same_length inside₁ good₁ moves
          exact ⟨holds₁, I.unwrapped good₁, moved⟩

end Invariant

-- =========================================================== programs

/-- A program is a block at whose end a `return` has arrived. -/
theorem Program.tracedFrom_eq (call : TracedCaller) (scope : ScopeId)
    (p : Program) (last : Value) (h : Heap) :
    Program.tracedFrom call scope p (.value last) h
      = (Stmt.tracedAll call scope p (.value last) h).map fun r =>
        (r.1.unwrapped, r.2) := by
  induction p generalizing last h with
  | nil => rfl
  | cons s ss ih =>
      rw [Program.tracedFrom, Stmt.tracedAll]
      cases s.traced call scope h with
      | none => rfl
      | some r =>
          obtain ⟨outcome, h, log⟩ := r
          cases outcome with
          | value v =>
              show Traced.after log
                  (Program.tracedFrom call scope ss (.value v) h)
                = (Traced.after log
                  (Stmt.tracedAll call scope ss (.value v) h)).map _
              rw [ih v h]
              unfold Traced.after
              rw [Option.map_map, Option.map_map]
              rfl
          | error fault => rfl
          | returned inner => rfl

-- ============================================================ results

namespace Invariant

variable (I : Invariant) (limit : Nat) (scope : ScopeId) (names : String → Prop)
    (h : Heap)

/-- Every evaluation keeps the invariant. -/
theorem node (node : Node) (holds : I.Holds scope h)
    (bound : ∀ name ∈ node.lets, names name) :
    I.Keeps scope names h (node.traced limit scope h) := by
  have caller : I.KeepsCalls (Closure.traced limit) := keepsCalls limit
  have null : I.Good h .null := I.plain h Kind.noConfusion
  cases node with
  | program p =>
      intro outcome h' log eq
      rw [Node.traced, Outcome.null, Program.tracedFrom_eq] at eq
      obtain ⟨⟨last, h₁, log₁⟩, done, same⟩ := Option.map_eq_some_iff.1 eq
      cases same
      obtain ⟨holds', good, moves⟩ :=
        stmts caller p holds null bound last h' log done
      exact ⟨holds', I.unwrapped good, moves⟩
  | stmt s => exact stmt caller s holds bound
  | block body => exact stmts caller body holds null bound
  | expr e => exact expr caller e holds bound

/-- Every call keeps the invariant. -/
theorem apply (callee : Value) (args : List Value) (holds : I.Holds scope h)
    (good : I.Good h (.value callee))
    (goods : ∀ a ∈ args, I.Good h (.value a)) :
    I.Keeps scope names h
      (Outcome.tracedApply (Closure.traced limit) (.value callee)
        (args.map .value) h) :=
  keeps_tracedApply (keepsCalls limit) holds good goods

end Invariant

end Scriptlet
