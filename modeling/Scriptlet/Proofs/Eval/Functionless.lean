/-
Without function literals every evaluation ends.

The evaluator has no measure that goes down: a function may call itself.
But a call needs a function, a function needs a literal, and a heap where
nothing bound is a function supplies none. So where the node has no
literal and the heap no function, no call is ever carried out, and the
recursion follows the tree of the node. It is then no deeper than the
tree (`Expr.nesting`), and it makes no scope.

# How the calls end

A call is reached nevertheless, and its callee and arguments are
evaluated. One of them ends in a signal and the call with it, or all have
values and the callee's is not a function (`Refusal`).

# The induction

That nothing is called is said as: whoever were to run the calls, the
evaluation is the same one (`EndsCallFree`). Along with it goes the
invariant, that neither the heap nor a value holds a function, since it
is what refuses each call.
-/
import Scriptlet.Proofs.Eval.Bindings
import Scriptlet.Proofs.Eval.Visits

namespace Scriptlet

-- =================================================== function literals

mutual

/-- Whether no function literal occurs in an expression. -/
def Expr.functionless : Expr → Bool
  | .ident _ | .int _ | .bool _ | .str _ => true
  | .unary _ e => e.functionless
  | .binary _ l r => l.functionless && r.functionless
  | .cond test yes none => test.functionless && Stmt.allFunctionless yes
  | .cond test yes (some no) =>
      test.functionless && (Stmt.allFunctionless yes && Stmt.allFunctionless no)
  | .fn _ _ => false
  | .call callee args => callee.functionless && Expr.allFunctionless args

def Expr.allFunctionless : List Expr → Bool
  | [] => true
  | e :: es => e.functionless && Expr.allFunctionless es

def Stmt.functionless : Stmt → Bool
  | .bind _ e => e.functionless
  | .ret none => true
  | .ret (some e) => e.functionless
  | .expr e => e.functionless

def Stmt.allFunctionless : List Stmt → Bool
  | [] => true
  | s :: ss => s.functionless && Stmt.allFunctionless ss

end

/-- Whether no function literal occurs in a node. -/
def Node.functionless : Node → Bool
  | .program p => Stmt.allFunctionless p
  | .stmt s => s.functionless
  | .block body => Stmt.allFunctionless body
  | .expr e => e.functionless

-- ============================================================= nesting

mutual

/-- How deep expressions, statements and blocks stand inside each
other. -/
def Expr.nesting : Expr → Nat
  | .ident _ | .int _ | .bool _ | .str _ => 1
  | .unary _ e => e.nesting + 1
  | .binary _ l r => max l.nesting r.nesting + 1
  | .cond test yes none => max test.nesting (Stmt.nestingAll yes + 1) + 1
  | .cond test yes (some no) =>
      max test.nesting (max (Stmt.nestingAll yes + 1) (Stmt.nestingAll no + 1))
        + 1
  | .fn _ body => Stmt.nestingAll body + 2
  | .call callee args => max callee.nesting (Expr.nestingAll args) + 1

def Expr.nestingAll : List Expr → Nat
  | [] => 0
  | e :: es => max e.nesting (Expr.nestingAll es)

def Stmt.nesting : Stmt → Nat
  | .bind _ e => e.nesting + 1
  | .ret none => 1
  | .ret (some e) => e.nesting + 1
  | .expr e => e.nesting + 1

def Stmt.nestingAll : List Stmt → Nat
  | [] => 0
  | s :: ss => max s.nesting (Stmt.nestingAll ss)

end

/-- The syntactic nesting of a node. -/
def Node.nesting : Node → Nat
  | .program p => Stmt.nestingAll p + 1
  | .stmt s => s.nesting
  | .block body => Stmt.nestingAll body + 1
  | .expr e => e.nesting

-- ====================================================== what is refused

/-- Nothing that is bound is a function or returns one. -/
def Heap.Functionless (h : Heap) : Prop :=
  h.BindsOnly fun _ outcome => outcome.closure? = none

/-- A call ended without a function being run: the callee was none, or
one of the operands, which are the callee and the arguments, ended in a
signal and the call ended in the same. -/
def Refusal (operands : List Expr) (outcome : Outcome) (visits : List Visit) :
    Prop :=
  (∃ kind, kind ≠ .function ∧ outcome = .error (.notAFunction kind)) ∨
  (outcome.isSignal = true ∧
    ∃ v ∈ visits, v.outcome = outcome ∧ ∃ e ∈ operands, v.node = .expr e)

/-- If the visit is one of a call, then the call was refused. -/
def Visit.Refused (v : Visit) : Prop :=
  ∀ callee args, v.node = .expr (.call callee args) →
    Refusal (callee :: args) v.outcome v.inner

/-- An operand is evaluated first: its signal is a refusal, and with its
value it goes on to one. -/
private theorem Refusal.onValue {operands : List Expr} {e : Expr}
    (among : e ∈ operands) {run : Visited} {next : Value → Heap → Visited}
    {outcome : Outcome}
    {h' : Heap} {visits : List Visit}
    (later : ∀ v h₁ inner outcome h' visits, run = some (.value v, h₁, inner) →
      next v h₁ = some (outcome, h', visits) → Refusal operands outcome visits)
    (ends : Visited.onValue (.of (.expr e) run) next
      = some (outcome, h', visits)) :
    Refusal operands outcome visits := by
  cases run with
  | none => cases ends
  | some r =>
      obtain ⟨first, h₁, inner⟩ := r
      cases first with
      | value v =>
          obtain ⟨⟨_, _, more⟩, rest, eq⟩ := Option.map_eq_some_iff.1 ends
          cases eq
          refine (later v h₁ inner _ _ more rfl rest).imp_right
            fun ⟨signal, u, seen, found⟩ => ?_
          exact ⟨signal, u, List.mem_append_right _ seen, found⟩
      | error fault =>
          cases ends
          exact .inr ⟨rfl, _, List.mem_cons_self, rfl, e, among, rfl⟩
      | returned inner =>
          cases ends
          exact .inr ⟨rfl, _, List.mem_cons_self, rfl, e, among, rfl⟩

/-- Evaluating the operands and then calling what is no function ends as a
refusal does. -/
private theorem Expr.refusal_visitsArgs {call : VisitedCaller} {scope : ScopeId}
    {callee : Value} (plain : (Outcome.value callee).closure? = none)
    {operands args : List Expr}
    (among : ∀ e ∈ args, e ∈ operands) {done : List Value} {h h' : Heap}
    {outcome : Outcome}
    {visits : List Visit}
    (ends : Expr.visitsArgs call scope callee args done h
      = some (outcome, h', visits)) :
    Refusal operands outcome visits := by
  induction args generalizing done h h' outcome visits with
  | nil =>
      rw [Expr.visitsArgs] at ends
      cases callee with
      | closure f => cases plain
      | int | bool | str | null =>
          cases ends
          exact .inl ⟨_, Kind.noConfusion, rfl⟩
  | cons arg args ih =>
      rw [List.forall_mem_cons] at among
      rw [Expr.visitsArgs] at ends
      exact Refusal.onValue among.1
        (fun _ _ _ _ _ _ _ rest => ih among.2 rest) ends

-- ======================================================= runs that end

/-- What a run has come to in which no function came up: no scope was
made, and its visits nest at most `depth` deep. -/
structure CallFree (h : Heap) (depth : Nat) (outcome : Outcome) (h' : Heap)
    (visits : List Visit) : Prop where
  outcome : outcome.closure? = none
  heap : h'.Functionless
  scopes : h'.scopes.size = h.scopes.size
  closures : h'.closures = h.closures
  depth : Visit.depthAll visits ≤ depth
  refused : ∀ v ∈ Visit.allOf visits, v.Refused

/-- Whoever runs the calls, the evaluation ends, and always in the same
way, in which no function comes up. -/
def EndsCallFree (h : Heap) (depth : Nat) (run : VisitedCaller → Visited) :
    Prop :=
  ∃ outcome h' visits, (∀ call, run call = some (outcome, h', visits)) ∧
    CallFree h depth outcome h' visits

namespace EndsCallFree

variable {h : Heap} {depth : Nat} {run : VisitedCaller → Visited}

/-- Nothing happens, and no function comes up. -/
private theorem here {outcome : Outcome} (plain : outcome.closure? = none)
    (free : h.Functionless) :
    EndsCallFree h depth fun _ => some (outcome, h, []) :=
  ⟨outcome, h, [], fun _ => rfl, plain, free, rfl, rfl, Nat.zero_le _,
    List.forall_mem_nil _⟩

/-- Binding data brings no function into the heap. -/
private theorem bound {v : Value} (plain : (Outcome.value v).closure? = none)
    (free : h.Functionless) (scope : ScopeId) (name : String) :
    EndsCallFree h depth
      fun _ => some (.null, h.bind scope name (.value v), []) :=
  ⟨.null, _, [], fun _ => rfl, rfl, free.bind scope plain,
    h.size_bind scope name _, rfl, Nat.zero_le _, List.forall_mem_nil _⟩

/-- What such a run gives carries no function. -/
private theorem outcome (ends : EndsCallFree h depth run) (call : VisitedCaller)
    {outcome : Outcome} {h' : Heap} {visits : List Visit}
    (eq : run call = some (outcome, h', visits)) :
    outcome.closure? = none := by
  obtain ⟨_, _, _, same, free⟩ := ends
  cases (same call).symm.trans eq
  exact free.outcome

/-- A deeper nesting may be allowed. -/
private theorem mono {depth' : Nat} (ends : EndsCallFree h depth run)
    (le : depth ≤ depth') :
    EndsCallFree h depth' run := by
  obtain ⟨outcome, h', visits, same, free⟩ := ends
  exact ⟨outcome, h', visits, same,
    { free with depth := Nat.le_trans free.depth le }⟩

/-- Two such runs in a row. The visits of both are at one depth, so the
deeper one counts. -/
private theorem onValue {next : VisitedCaller → Value → Heap → Visited}
    (ends : EndsCallFree h depth run)
    (later : ∀ v h₁, (Outcome.value v).closure? = none → h₁.Functionless →
      EndsCallFree h₁ depth fun call => next call v h₁) :
    EndsCallFree h depth fun call => (run call).onValue (next call) := by
  obtain ⟨outcome, h₁, visits, same, first⟩ := ends
  cases outcome with
  | value v =>
      obtain ⟨outcome, h₂, more, same', second⟩ :=
        later v h₁ first.outcome first.heap
      refine ⟨outcome, h₂, visits ++ more, fun call => ?_, ?_⟩
      · simp only [same, same', Visited.onValue, Option.map_some]
      · refine { second with
          scopes := ?_, closures := ?_, depth := ?_, refused := ?_ }
        · rw [second.scopes, first.scopes]
        · rw [second.closures, first.closures]
        · rw [Visit.depthAll_append]
          exact Nat.max_le.2 ⟨first.depth, second.depth⟩
        · rw [Visit.allOf_append]
          exact List.forall_mem_append.2 ⟨first.refused, second.refused⟩
  | error fault =>
      exact ⟨_, _, _, fun call => by simp only [same, Visited.onValue], first⟩
  | returned inner =>
      exact ⟨_, _, _, fun call => by simp only [same, Visited.onValue], first⟩

/-- The run of a node as one visit, one level deeper. -/
private theorem of {node : Node} (ends : EndsCallFree h depth run)
    (refused : ∀ call outcome h' visits, run call = some (outcome, h', visits) →
      Visit.Refused ⟨node, outcome, visits⟩) :
    EndsCallFree h (depth + 1) fun call => .of node (run call) := by
  obtain ⟨outcome, h', visits, same, free⟩ := ends
  refine ⟨outcome, h', [⟨node, outcome, visits⟩], fun call => ?_, ?_⟩
  · simp only [same, Visited.of, Option.map_some]
  · refine { free with depth := ?_, refused := ?_ }
    · rw [Visit.depthAll, Visit.depthAll, Visit.depth, Nat.max_zero]
      exact Nat.succ_le_succ free.depth
    · rw [Visit.allOf, Visit.allOf, List.append_nil, Visit.all,
        List.forall_mem_cons]
      -- Any caller will do to say what the run has come to.
      exact ⟨refused (fun _ _ _ => none) outcome h' visits (same _),
        free.refused⟩

/-- A node that is no call refuses nothing itself. -/
private theorem ofOther {node : Node} (ends : EndsCallFree h depth run)
    (other : ∀ callee args, node ≠ .expr (.call callee args)) :
    EndsCallFree h (depth + 1) fun call => .of node (run call) :=
  ends.of fun _ _ _ _ _ callee args is_call =>
    absurd is_call (other callee args)

/-- Leaving a call changes nothing here. -/
private theorem arrived (ends : EndsCallFree h depth run) :
    EndsCallFree h depth fun call => (run call).arrived := by
  obtain ⟨outcome, h', visits, same, free⟩ := ends
  refine ⟨outcome.unwrapped, h', visits, fun call => ?_,
    { free with outcome := ?_ }⟩
  · simp only [same, Visited.arrived, Option.map_some]
  · rw [Outcome.closure?_unwrapped]
    exact free.outcome

end EndsCallFree

-- ========================================================== evaluation

mutual

/-- An expression without function literals ends, by the rule that evaluates
it, and its visits nest as deep as its syntax. -/
theorem Expr.endsCallFree (scope : ScopeId) :
    (e : Expr) → e.functionless = true → {h : Heap} →
    h.Functionless →
    EndsCallFree h e.nesting fun call => .of (.expr e) (e.visits call scope h)
  | .ident name, _, h, free => by
      show EndsCallFree h (0 + 1) _
      refine .ofOther ?_ (by simp)
      simp only [Expr.visits]
      cases found : h.lookup scope name with
      | some outcome => exact .here (free.lookupWithin found) free
      | none => exact .here rfl free
  | .int _, _, _, free => .ofOther (.here rfl free) (by simp)
  | .bool _, _, _, free => .ofOther (.here rfl free) (by simp)
  | .str _, _, _, free => .ofOther (.here rfl free) (by simp)
  | .unary op e, no_fn, h, free => by
      rw [Expr.functionless] at no_fn
      refine .ofOther ?_ (by simp)
      simp only [Expr.visits]
      refine (e.endsCallFree scope no_fn free).onValue fun v h₁ _ free => ?_
      exact .here (op.plain_apply v).closure?_eq_none free
  | .binary op l r, no_fn, h, free => by
      rw [Expr.functionless, Bool.and_eq_true] at no_fn
      refine .ofOther ?_ (by simp)
      simp only [Expr.visits]
      refine ((l.endsCallFree scope no_fn.1 free).mono
        (Nat.le_max_left _ _)).onValue fun a h₁ _ free => ?_
      refine ((r.endsCallFree scope no_fn.2 free).mono
        (Nat.le_max_right _ _)).onValue fun b h₂ _ free => ?_
      exact .here (op.plain_apply a b).closure?_eq_none free
  | .cond test yes none, no_fn, h, free => by
      rw [Expr.functionless, Bool.and_eq_true] at no_fn
      refine .ofOther ?_ (by simp)
      simp only [Expr.visits]
      refine ((test.endsCallFree scope no_fn.1 free).mono
        (Nat.le_max_left _ _)).onValue fun v h₁ _ free => ?_
      by_cases truthy : v.truthy = true
      · simp only [truthy, if_true]
        have branch := Stmt.endsCallFreeAll scope yes no_fn.2 .null rfl free
        exact .mono (branch.ofOther (by simp)) (Nat.le_max_right _ _)
      · simp only [truthy, Bool.false_eq_true, if_false]
        exact .here rfl free
  | .cond test yes (some no), no_fn, h, free => by
      rw [Expr.functionless, Bool.and_eq_true, Bool.and_eq_true] at no_fn
      refine .ofOther ?_ (by simp)
      simp only [Expr.visits]
      refine ((test.endsCallFree scope no_fn.1 free).mono
        (Nat.le_max_left _ _)).onValue fun v h₁ _ free => ?_
      refine .mono ?_ (Nat.le_max_right _ _)
      by_cases truthy : v.truthy = true
      · simp only [truthy, if_true]
        have branch := Stmt.endsCallFreeAll scope yes no_fn.2.1 .null rfl free
        exact .mono (branch.ofOther (by simp)) (Nat.le_max_left _ _)
      · simp only [truthy, Bool.false_eq_true, if_false]
        have branch := Stmt.endsCallFreeAll scope no no_fn.2.2 .null rfl free
        exact .mono (branch.ofOther (by simp)) (Nat.le_max_right _ _)
  | .fn _ _, no_fn, _, _ => by
      rw [Expr.functionless] at no_fn
      cases no_fn
  | .call callee args, no_fn, h, free => by
      rw [Expr.functionless, Bool.and_eq_true] at no_fn
      have first := callee.endsCallFree scope no_fn.1 free
      refine EndsCallFree.of ?_ ?_
      · simp only [Expr.visits]
        refine (first.mono (Nat.le_max_left _ _)).onValue
          fun f h₁ plain free => ?_
        exact (Expr.endsCallFreeArgs scope plain args [] no_fn.2 free).mono
          (Nat.le_max_right _ _)
      · intro call outcome h' visits ends _ _ is_call
        cases is_call
        rw [Expr.visits] at ends
        -- with a value the callee is no function, whatever the arguments are
        refine Refusal.onValue List.mem_cons_self ?_ ends
        intro f h₁ inner outcome h' visits eq rest
        have plain : (Outcome.value f).closure? = none :=
          first.outcome call (by rw [eq]; rfl)
        exact Expr.refusal_visitsArgs plain
          (fun e among => List.mem_cons_of_mem _ among) rest

theorem Expr.endsCallFreeArgs (scope : ScopeId) {callee : Value}
    (plain : (Outcome.value callee).closure? = none) :
    (args : List Expr) → (done : List Value) →
    Expr.allFunctionless args = true → {h : Heap} → h.Functionless →
    EndsCallFree h (Expr.nestingAll args) fun call =>
      Expr.visitsArgs call scope callee args done h
  | [], done, _, h, free => by
      simp only [Expr.visitsArgs]
      cases callee with
      | closure f => cases plain
      | int | bool | str | null => exact .here rfl free
  | arg :: args, done, no_fn, h, free => by
      rw [Expr.allFunctionless, Bool.and_eq_true] at no_fn
      simp only [Expr.visitsArgs]
      refine ((arg.endsCallFree scope no_fn.1 free).mono
        (Nat.le_max_left _ _)).onValue fun v h₁ _ free => ?_
      exact (Expr.endsCallFreeArgs scope plain args _ no_fn.2 free).mono
        (Nat.le_max_right _ _)

theorem Stmt.endsCallFree (scope : ScopeId) :
    (s : Stmt) → s.functionless = true → {h : Heap} →
    h.Functionless →
    EndsCallFree h s.nesting fun call => .of (.stmt s) (s.visits call scope h)
  | .bind name e, no_fn, h, free => by
      rw [Stmt.functionless] at no_fn
      refine .ofOther ?_ (by simp)
      simp only [Stmt.visits]
      refine (e.endsCallFree scope no_fn free).onValue fun v h₁ plain free => ?_
      exact .bound plain free scope name
  | .ret none, _, _, free => .ofOther (.here rfl free) (by simp)
  | .ret (some e), no_fn, h, free => by
      rw [Stmt.functionless] at no_fn
      refine .ofOther ?_ (by simp)
      simp only [Stmt.visits]
      refine (e.endsCallFree scope no_fn free).onValue fun v h₁ plain free => ?_
      exact .here plain free
  | .expr e, no_fn, h, free => by
      rw [Stmt.functionless] at no_fn
      refine .ofOther ?_ (by simp)
      simp only [Stmt.visits]
      exact e.endsCallFree scope no_fn free

theorem Stmt.endsCallFreeAll (scope : ScopeId) : (ss : List Stmt) →
    Stmt.allFunctionless ss = true → (last : Value) →
    (Outcome.value last).closure? = none →
    {h : Heap} → h.Functionless →
    EndsCallFree h (Stmt.nestingAll ss) fun call =>
      Stmt.visitsAll call scope ss last h
  | [], _, _, plain, _, free => .here plain free
  | s :: ss, no_fn, _, _, h, free => by
      rw [Stmt.allFunctionless, Bool.and_eq_true] at no_fn
      simp only [Stmt.visitsAll]
      refine ((s.endsCallFree scope no_fn.1 free).mono
        (Nat.le_max_left _ _)).onValue fun v h₁ plain free => ?_
      exact (Stmt.endsCallFreeAll scope ss no_fn.2 v plain free).mono
        (Nat.le_max_right _ _)

end

/-- The same for every kind of node. The limit is handed to the calls only,
of which there are none. -/
theorem Node.endsCallFree (scope : ScopeId) (node : Node)
    (no_fn : node.functionless = true) {h : Heap} (free : h.Functionless) :
    ∃ run : VisitedCaller → Visited,
      (∀ limit, node.visits limit scope h = run (Closure.visits limit)) ∧
      EndsCallFree h node.nesting fun call => .of node (run call) := by
  cases node with
  | program p =>
      have ends := (Stmt.endsCallFreeAll scope p no_fn .null rfl free).arrived
      exact ⟨_, fun _ => rfl, ends.ofOther (by simp)⟩
  | stmt s => exact ⟨_, fun _ => rfl, s.endsCallFree scope no_fn free⟩
  | block body =>
      have ends := Stmt.endsCallFreeAll scope body no_fn .null rfl free
      exact ⟨_, fun _ => rfl, ends.ofOther (by simp)⟩
  | expr e => exact ⟨_, fun _ => rfl, e.endsCallFree scope no_fn free⟩

-- ============================================================== result

/-- Without function literals every evaluation ends. It ends under every
limit, with the same visits, which nest no deeper than the node; no scope
and no function is made, none is the outcome or bound afterwards, and
every call that is reached is refused. -/
theorem Node.run_functionless (node : Node)
    (no_fn : node.functionless = true) {h : Heap} (free : h.Functionless)
    (scope : ScopeId) :
    ∃ visit h', (∀ limit, node.visited limit scope h = some (visit, h') ∧
        node.run limit scope h = some (visit.outcome, h'))
      ∧ visit.depth ≤ node.nesting
      ∧ h'.scopes.size = h.scopes.size ∧ h'.closures = h.closures
      ∧ visit.outcome.closure? = none ∧ h'.Functionless
      ∧ ∀ v ∈ visit.all, v.Refused := by
  obtain ⟨run, is_run, outcome, h', visits, same, ends⟩ :=
    node.endsCallFree scope no_fn free
  have visited (limit : Nat) :
      (node.visited limit scope h).map (fun r => (r.1.outcome, r.2, [r.1]))
        = some (outcome, h', visits) := by
    have eq : Visited.of node (node.visits limit scope h)
        = some (outcome, h', visits) :=
      (is_run limit).symm ▸ same _
    rw [← eq, Node.visited, Visited.of, Option.map_map]
    rfl
  obtain ⟨⟨visit, h₁⟩, -, eq⟩ := Option.map_eq_some_iff.1 (visited 0)
  obtain ⟨rfl, rfl, rfl⟩ : visit.outcome = outcome ∧ h₁ = h'
      ∧ [visit] = visits := by
    simpa using eq
  refine ⟨visit, h₁, fun limit => ?_, ?_, ends.scopes, ends.closures,
    ends.outcome, ends.heap, ?_⟩
  · obtain ⟨⟨visit', h₂⟩, here, eq⟩ := Option.map_eq_some_iff.1 (visited limit)
    obtain ⟨-, rfl, rfl⟩ : visit'.outcome = visit.outcome ∧ h₂ = h₁
        ∧ visit' = visit := by
      simpa using eq
    exact ⟨here, by rw [Node.run_of_visited, here]; rfl⟩
  · exact (Nat.max_le.1 ends.depth).1
  · exact (List.forall_mem_append.1 ends.refused).1

/-- With `n` set to 2 and `gone` to a `return` of null that the host
supplied, `let m = if (n) { n(n) }; return gone;` ends in the error that
2 is no function, and it goes seven deep at most. -/
theorem Node.run_functionless_refused_call :
    let node : Node := .program [
      .bind "m" (.cond (.ident "n")
        [.expr (.call (.ident "n") [.ident "n"])] none),
      .ret (some (.ident "gone"))]
    let h := ((Heap.empty.newScope none).2.bind 0 "n" (.value (.int 2))).bind
      0 "gone" (.returned .null)
    (node.functionless = true ∧ h.Functionless) ∧
      ∃ visit h', (∀ limit, node.visited limit 0 h = some (visit, h') ∧
          node.run limit 0 h = some (.error (.notAFunction .integer), h'))
        ∧ visit.depth ≤ 7 ∧ h'.scopes.size = 1
          ∧ ∀ v ∈ visit.all, v.Refused := by
  intro node h
  have free : h.Functionless := by
    have none_bound : Heap.empty.Functionless :=
      fun _ _ _ _ at_i => by cases at_i
    exact ((none_bound.newScope none).bind 0 rfl).bind 0 rfl
  refine ⟨⟨rfl, free⟩, ?_⟩
  obtain ⟨visit, h', ends, depth, scopes, -, -, -, refused⟩ :=
    node.run_functionless rfl free 0
  have outcome : visit.outcome = .error (.notAFunction .integer) := by
    have run : (node.run 0 0 h).map (·.1)
        = some (.error (.notAFunction .integer)) := rfl
    rw [(ends 0).2] at run
    exact Option.some.inj run
  rw [outcome] at ends
  exact ⟨visit, h', ends, depth, scopes, refused⟩

end Scriptlet
