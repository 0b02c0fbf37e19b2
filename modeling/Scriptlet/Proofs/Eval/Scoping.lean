/-
A program that passes a check of its names never misses one.

The check is static. It goes through a program with the names known so
far: a name that is used has to be known, a `let` makes its name known to
the statements behind it, and what is bound inside a branch is not known
behind the branch. A function may use the names known where it stands and
its parameters; one that is bound by `let` may also use its own name, so
it can call itself.

# Why it is enough

A function is called later, from elsewhere, in a heap that has changed
much. What it needs is fixed when it is made: names that are found from
the scope it was made in (`Closure.Scoped`). Scopes only gain names and
keep the scopes around them (`Heap.Widens`), so what was found once is
found ever after. A function that calls itself is the one exception. When
it is made its own name may not be there, and it is not scoped before the
`let` is done; since nothing happens in between, the two steps are taken
as one.

The invariant is that all functions in the heap are scoped and that no
error in it is about a name (`Heap.Found`). The events of the evaluation
show every outcome that comes up on the way.
-/
import Scriptlet.Proofs.Eval.Reach

namespace Scriptlet

-- =========================================================== the check

/-- The name that a statement makes known to those behind it. -/
def Stmt.declared : Stmt → List String
  | .bind name _ => [name]
  | .ret _ => []
  | .expr _ => []

mutual

/-- Whether an expression uses known names only. -/
def Expr.wellScoped (known : List String) : Expr → Bool
  | .ident name => known.contains name
  | .int _ => true
  | .bool _ => true
  | .str _ => true
  | .unary _ e => e.wellScoped known
  | .binary _ l r => l.wellScoped known && r.wellScoped known
  | .cond test yes none => test.wellScoped known && Stmt.allWellScoped known yes
  | .cond test yes (some no) =>
      test.wellScoped known && (Stmt.allWellScoped known yes &&
        Stmt.allWellScoped known no)
  | .fn params body => Stmt.allWellScoped (params ++ known) body
  | .call callee args =>
      callee.wellScoped known && Expr.allWellScoped known args

/-- The same for a list of expressions, which all know the same names. -/
def Expr.allWellScoped (known : List String) : List Expr → Bool
  | [] => true
  | e :: es => e.wellScoped known && Expr.allWellScoped known es

/-- Whether a statement uses known names only. The body of a function
that is bound to a name may use that name. -/
def Stmt.wellScoped (known : List String) : Stmt → Bool
  | .bind name (.fn params body) =>
      Stmt.allWellScoped (params ++ name :: known) body
  | .bind _ e => e.wellScoped known
  | .ret none => true
  | .ret (some e) => e.wellScoped known
  | .expr e => e.wellScoped known

/-- Whether statements use known names only, those included that the
statements before them declare. -/
def Stmt.allWellScoped (known : List String) : List Stmt → Bool
  | [] => true
  | s :: ss => s.wellScoped known && Stmt.allWellScoped (s.declared ++ known) ss

end

-- ============================================================== errors

/-- An error that is not about a name: an operator or a call could not
do with what it was given. -/
def Fault.Ordinary : Fault → Prop
  | unbound _ => False
  | custom _ => False
  | _ => True

/-- The text of such an error does not say that a name was not found. -/
private theorem Fault.Ordinary.message_ne {fault : Fault}
    (ordinary : fault.Ordinary) (name : String) :
    fault.message ≠ "identifier not found: " ++ name := by
  unfold Fault.message
  intro same
  have first := congrArg (·.toList.head?) same
  split at first
  · exact ordinary
  case h_8 => exact ordinary
  all_goals simp at first

/-- An error that says that a name was not found, or a `return` of
one. -/
def Outcome.Unresolved : Outcome → Prop
  | .value _ => False
  | .error fault => ∃ name, fault.message = "identifier not found: " ++ name
  | .returned inner => inner.Unresolved

/-- The outcomes that an event shows. -/
def Event.outcomes : Event → List Outcome
  | .unary _ operand => [operand]
  | .binary _ left right => [left, right]
  | .call callee args => callee :: args
  | .result outcome => [outcome]
  | .bind _ _ outcome => [outcome]
  | .ended outcome => [outcome]

/-- None of the outcomes that an event shows is about a name. -/
def Event.Resolved (event : Event) : Prop :=
  ∀ outcome ∈ event.outcomes, ¬ outcome.Unresolved

-- ================================================== free of such errors

/-- The function can be called: the names that its body uses are its
parameters, or found from the scope it was made in. -/
def Closure.Scoped (h : Heap) (f : Closure) : Prop :=
  ∃ known, h.Provides f.scope known
    ∧ Stmt.allWellScoped (f.params ++ known) f.body = true

/-- An outcome that is not about a name; a function in it can be
called. -/
def Outcome.Found (h : Heap) : Outcome → Prop
  | .value (.closure f) => f.Scoped h
  | .value _ => True
  | .error fault => fault.Ordinary
  | .returned inner => inner.Found h

/-- All that is bound is so. -/
def Heap.Found (h : Heap) : Prop :=
  ∀ (i : ScopeId) s name outcome, h.scopes[i]? = some s →
    s.find? name = some outcome →
    outcome.Found h

namespace Outcome.Found

variable {h h₁ : Heap} {outcome : Outcome}

/-- What was found in a heap is found in every wider one. -/
private theorem widens (found : outcome.Found h) (wider : h.Widens h₁) :
    outcome.Found h₁ := by
  induction outcome with
  | value v =>
      cases v with
      | closure f =>
          obtain ⟨known, provides, checked⟩ := found
          exact ⟨known, provides.widens wider, checked⟩
      | int | bool | str | null => trivial
  | error fault => exact found
  | returned inner ih => exact ih found

/-- No such outcome is the failure of a lookup. -/
private theorem not_unresolved (found : outcome.Found h) :
    ¬ outcome.Unresolved := by
  induction outcome with
  | value v => exact id
  | error fault =>
      rintro ⟨name, same⟩
      exact Fault.Ordinary.message_ne found name same
  | returned inner ih => exact ih found

/-- Taking the signal off changes neither the error nor the function. -/
private theorem unwrapped (found : outcome.Found h) :
    outcome.unwrapped.Found h := by
  cases outcome with
  | value | error | returned => exact found

/-- A unary operator fails in its own ways only. -/
private theorem unary (op : UnaryOp) (v : Value) (h : Heap) :
    (op.apply v).Found h := by
  cases op with
  | not => trivial
  | neg => cases v <;> trivial

/-- So does a binary one. -/
private theorem binary (op : BinaryOp) (a b : Value) (h : Heap) :
    (op.apply a b).Found h := by
  unfold BinaryOp.apply
  split
  · unfold BinaryOp.applyAlike
    split
    -- only `/` looks at its operands once their classes are known
    case h_6 => split <;> trivial
    all_goals trivial
  · trivial

end Outcome.Found

namespace Heap.Found

variable {h : Heap}

/-- What is bound has been found before. -/
private theorem lookupWithin (found : h.Found) {name : String} {steps : Nat}
    {scope : ScopeId} {outcome : Outcome}
    (here : h.lookupWithin name steps scope = some outcome) :
    outcome.Found h := by
  induction steps generalizing scope with
  | zero => cases here
  | succ steps ih =>
      rw [Heap.lookupWithin] at here
      split at here
      · cases here
      · next s at_scope =>
          split at here
          · next bound =>
              cases here
              exact found scope s name outcome at_scope bound
          · split at here
            · cases here
            · exact ih here

/-- A new function is bound nowhere yet. -/
private theorem newClosure (found : h.Found) (params : List String)
    (body : Block) (scope : ScopeId) :
    (h.newClosure params body scope).2.Found := by
  intro i s name outcome at_i bound
  exact (found i s name outcome at_i bound).widens (.of_scopes_eq rfl)

private theorem newScope (found : h.Found) (outer : Option ScopeId) :
    (h.newScope outer).2.Found := by
  intro i s name outcome at_i bound
  rw [Heap.newScope, Array.getElem?_push] at at_i
  split at at_i
  · cases at_i
    cases bound
  · exact (found i s name outcome at_i bound).widens (.newScope h outer)

/-- Binding what is found. -/
private theorem bind (found : h.Found) (scope : ScopeId) (name : String)
    {outcome : Outcome} (new : outcome.Found (h.bind scope name outcome)) :
    (h.bind scope name outcome).Found := by
  have wider := Heap.Widens.bind h scope name outcome
  intro i s other bound at_i here
  by_cases own : i = scope
  · subst own
    rw [Heap.getElem?_bind_self] at at_i
    obtain ⟨old, at_old, rfl⟩ := Option.map_eq_some_iff.1 at_i
    by_cases same : other = name
    · subst same
      rw [Scope.find?_bind_self] at here
      cases here
      exact new
    · rw [Scope.find?_bind_of_ne old outcome same] at here
      exact (found i old other bound at_old here).widens wider
  · rw [Heap.getElem?_bind_of_ne h scope own] at at_i
    exact (found i s other bound at_i here).widens wider

/-- Binding parameters, one after the other. -/
private theorem bindAll (found : h.Found) (scope : ScopeId)
    {entries : List (String × Outcome)}
    (new : ∀ entry ∈ entries, entry.2.Found h) :
    (h.bindAll scope entries).Found := by
  induction entries generalizing h with
  | nil => exact found
  | cons entry rest ih =>
      rw [List.forall_mem_cons] at new
      have wider := Heap.Widens.bind h scope entry.1 entry.2
      have bound := found.bind scope entry.1 (new.1.widens wider)
      exact ih bound fun e mem => (new.2 e mem).widens wider

/-- The scope of a call binds the arguments. -/
private theorem enter (found : h.Found) (f : Closure) {args : List Value}
    (goods : ∀ a ∈ args, (Outcome.value a).Found h) :
    (f.enter (args.map .value) h).2.Found := by
  refine (found.newScope (some f.scope)).bindAll _ fun entry mem => ?_
  obtain ⟨a, a_mem, same⟩ := List.mem_map.1 (List.of_mem_zip mem).2
  rw [← same]
  exact (goods a a_mem).widens (.newScope h (some f.scope))

end Heap.Found

-- ======================================================== what runs keep

/-- A run from `h` kept all that is bound free of missing names, and so
are its outcome and its events. -/
structure Run.Resolved (h : Heap) (outcome : Outcome) (h' : Heap)
    (log : List Event) : Prop where
  heap : h'.Found
  wider : h.Widens h'
  outcome : outcome.Found h'
  events : ∀ e ∈ log, e.Resolved

namespace Traced

/-- The run is so, if it completes. -/
def Resolved (h : Heap) (run : Traced) : Prop :=
  ∀ outcome h' log, run = some (outcome, h', log) →
    Run.Resolved h outcome h' log

namespace Resolved

variable {h : Heap} {run : Traced}

/-- Nothing happens, and what is given is found. -/
private theorem of_found {outcome : Outcome} (found : h.Found)
    (good : outcome.Found h) :
    Resolved h (some (outcome, h, [])) := by
  intro _ _ _ eq
  cases eq
  exact ⟨found, .of_scopes_eq rfl, good, by simp⟩

/-- One step that leaves the heap alone. -/
private theorem of_event {outcome : Outcome} {event : Event} (found : h.Found)
    (good : outcome.Found h) (shown : ∀ o ∈ event.outcomes, ¬ o.Unresolved) :
    Resolved h (some (outcome, h, [event])) := by
  intro _ _ _ eq
  cases eq
  exact ⟨found, .of_scopes_eq rfl, good, List.forall_mem_singleton.2 shown⟩

/-- The event at the end of an evaluation shows its outcome. -/
private theorem event_resolved {outcome : Outcome} (good : outcome.Found h) :
    (Event.ended outcome).Resolved := by
  intro o mem
  rw [List.mem_singleton.1 mem]
  exact good.not_unresolved

/-- Recording that event. -/
private theorem ended (resolved : Resolved h run) : Resolved h run.ended := by
  intro outcome h' log eq
  obtain ⟨r, done, same⟩ := Option.map_eq_some_iff.1 eq
  cases same
  obtain ⟨heap, wider, good, events⟩ := resolved r.1 r.2.1 r.2.2 done
  refine ⟨heap, wider, good, List.forall_mem_append.2 ⟨events, ?_⟩⟩
  exact List.forall_mem_singleton.2 (event_resolved good)

/-- One run and then another, unless the first ends in a signal. -/
private theorem propagate {next : Outcome → Heap → Traced}
    (resolved : Resolved h run)
    (resolved_next : ∀ v h₁ log, run = some (.value v, h₁, log) →
      Run.Resolved h (.value v) h₁ log → Resolved h₁ (next (.value v) h₁)) :
    Resolved h (run.propagate next) := by
  intro outcome h' log eq
  cases run with
  | none => cases eq
  | some r =>
      obtain ⟨first, h₁, log₁⟩ := r
      have before := resolved first h₁ log₁ rfl
      cases first with
      | value v =>
          obtain ⟨r, done, same⟩ := Option.map_eq_some_iff.1 eq
          cases same
          obtain ⟨heap, wider, good, events⟩ :=
            resolved_next v h₁ log₁ rfl before r.1 r.2.1 r.2.2 done
          exact ⟨heap, before.wider.trans wider, good,
            List.forall_mem_append.2 ⟨before.events, events⟩⟩
      | error fault =>
          cases eq
          exact before
      | returned inner =>
          cases eq
          exact before

end Resolved

end Traced

-- ================================================== declared names

/-- Behind a statement that did not end in a signal, the name that it
declares is found. -/
theorem Stmt.provides_declared {call : TracedCaller} {scope : ScopeId}
    {s : Stmt} {h h' : Heap} {v : Value} {log : List Event}
    {known : List String}
    (run : s.traced call scope h = some (.value v, h', log))
    (provides : h'.Provides scope known) :
    h'.Provides scope (s.declared ++ known) := by
  cases s with
  | ret | expr => exact provides
  | bind name e =>
      rw [Stmt.traced] at run
      obtain ⟨⟨last, h₂, log₂⟩, done, same⟩ := Option.map_eq_some_iff.1 run
      cases same
      cases value : e.traced call scope h with
      | none =>
          rw [value] at done
          cases done
      | some r =>
          obtain ⟨outcome, h₁, log₁⟩ := r
          rw [value] at done
          cases outcome with
          | value a =>
              cases done
              exact provides.bind
          | error | returned => cases done

-- ============================================================== calls

/-- A caller whose calls miss no name. -/
def TracedCaller.Resolves (call : TracedCaller) : Prop :=
  ∀ (f : Closure) (args : List Value) (h : Heap), h.Found → f.Scoped h →
    (∀ a ∈ args, (Outcome.value a).Found h) → f.params.length = args.length →
    Traced.Resolved h (call f (args.map .value) h)

section

variable {call : TracedCaller} (caller : call.Resolves) {h : Heap}

/-- The event of a call shows values only. -/
private theorem Event.resolved_call (callee : Value) (args : List Value) :
    (Event.call (.value callee) (args.map .value)).Resolved := by
  intro outcome mem
  rcases List.mem_cons.1 mem with rfl | mem
  · exact id
  · obtain ⟨a, -, rfl⟩ := List.mem_map.1 mem
    exact id

include caller

/-- A call whose function knows the names in its body. -/
private theorem Outcome.resolved_tracedApply {callee : Value}
    {args : List Value} (found : h.Found)
    (good : (Outcome.value callee).Found h)
    (goods : ∀ a ∈ args, (Outcome.value a).Found h) :
    Traced.Resolved h (Outcome.tracedApply call (.value callee)
      (args.map .value) h) := by
  have applied : Traced.Resolved h
      (Outcome.applyAny call (.value callee) (args.map .value) h) := by
    cases callee with
    | closure f =>
        simp only [Outcome.applyAny, List.length_map]
        split
        · next same_length =>
            exact caller f args h found good goods same_length
        · exact .of_found found trivial
    | int | bool | str | null => exact .of_found found trivial
  intro outcome h' log eq
  obtain ⟨r, done, same⟩ := Option.map_eq_some_iff.1 eq
  cases same
  obtain ⟨heap, wider, given, events⟩ := applied r.1 r.2.1 r.2.2 done
  refine ⟨heap, wider, given, ?_⟩
  rw [List.cons_append, List.forall_mem_cons, List.forall_mem_append,
    List.forall_mem_singleton]
  exact ⟨Event.resolved_call callee args, events,
    Traced.Resolved.event_resolved given⟩

end

-- ========================================================= evaluation

section

variable {call : TracedCaller} {scope : ScopeId}

/-- A function bound by `let`: it is made and bound in one step, and then
its own name is found. -/
private theorem Stmt.resolved_bind_fn {known : List String} {h : Heap}
    (name : String) (params : List String) (body : Block)
    (checked : Stmt.allWellScoped (params ++ name :: known) body = true)
    (found : h.Found)
    (provides : h.Provides scope known) :
    Traced.Resolved h
      ((Stmt.bind name (.fn params body)).traced call scope h) := by
  let f := (h.newClosure params body scope).1
  let h₁ := (h.newClosure params body scope).2
  have wider : h.Widens (h₁.bind scope name (.value (.closure f))) :=
    .trans (.of_scopes_eq rfl) (.bind h₁ scope name _)
  have good : (Outcome.value (.closure f)).Found
      (h₁.bind scope name (.value (.closure f))) :=
    ⟨name :: known, (provides.widens wider).bind, checked⟩
  rw [Stmt.traced]
  apply Traced.Resolved.ended
  intro outcome h' log eq
  cases eq
  refine ⟨(found.newClosure params body scope).bind scope name good, wider,
    trivial, ?_⟩
  have shown : ∀ e ∈ [Event.ended (.value (.closure f)),
    .bind scope name (.value (.closure f))],
      e.Resolved := by
    simp [Event.Resolved, Event.outcomes, Outcome.Unresolved]
  exact shown

mutual

/-- An expression that passes the check, in a scope that provides the names
it was checked against. -/
theorem Expr.resolved_traced (caller : call.Resolves) {known : List String} :
    (e : Expr) →
    e.wellScoped known = true → {h : Heap} → h.Found → h.Provides scope known →
    Traced.Resolved h (e.traced call scope h)
  | .ident name, checked, h, found, provides => by
      have here := provides.found name (List.contains_iff_mem.1 checked)
      obtain ⟨outcome, eq⟩ := Option.isSome_iff_exists.1 here
      rw [Expr.traced, eq]
      apply Traced.Resolved.ended
      exact .of_found found (found.lookupWithin eq)
  | .int _, _, h, found, _ | .bool _, _, h, found, _
  | .str _, _, h, found, _ => by
      rw [Expr.traced]
      apply Traced.Resolved.ended
      exact .of_found found trivial
  | .unary op e, checked, h, found, provides => by
      rw [Expr.traced]
      apply Traced.Resolved.ended
      apply (Expr.resolved_traced caller e checked found provides).propagate
      intro v h₁ _ _ before
      exact .of_event before.heap (.unary op v h₁)
        (by simp [Event.outcomes, Outcome.Unresolved])
  | .binary op l r, checked, h, found, provides => by
      rw [Expr.wellScoped, Bool.and_eq_true] at checked
      rw [Expr.traced]
      apply Traced.Resolved.ended
      apply (Expr.resolved_traced caller l checked.1 found provides).propagate
      intro a h₁ _ _ before
      have provides₁ := provides.widens before.wider
      apply (Expr.resolved_traced caller r checked.2 before.heap
        provides₁).propagate
      intro b h₂ _ _ before₂
      exact .of_event before₂.heap (.binary op a b h₂)
        (by simp [Event.outcomes, Outcome.Unresolved])
  | .cond test yes none, checked, h, found, provides => by
      rw [Expr.wellScoped, Bool.and_eq_true] at checked
      rw [Expr.traced]
      apply Traced.Resolved.ended
      apply (Expr.resolved_traced caller test checked.1 found
        provides).propagate
      intro v h₁ _ _ before
      have provides₁ := provides.widens before.wider
      show Traced.Resolved h₁ (if v.truthy then _ else _)
      split
      · exact Stmt.resolved_tracedAll caller yes checked.2 trivial
          before.heap provides₁
      · exact .of_found before.heap trivial
  | .cond test yes (some no), checked, h, found, provides => by
      rw [Expr.wellScoped, Bool.and_eq_true, Bool.and_eq_true] at checked
      rw [Expr.traced]
      apply Traced.Resolved.ended
      apply (Expr.resolved_traced caller test checked.1 found
        provides).propagate
      intro v h₁ _ _ before
      have provides₁ := provides.widens before.wider
      show Traced.Resolved h₁ (if v.truthy then _ else _)
      split
      · exact Stmt.resolved_tracedAll caller yes checked.2.1 trivial
          before.heap provides₁
      · exact Stmt.resolved_tracedAll caller no checked.2.2 trivial
          before.heap provides₁
  | .fn params body, checked, h, found, provides => by
      rw [Expr.traced]
      apply Traced.Resolved.ended
      intro _ _ _ eq
      cases eq
      have wider : h.Widens (h.newClosure params body scope).2 :=
        .of_scopes_eq rfl
      exact ⟨found.newClosure params body scope, wider,
        ⟨known, provides.widens wider, checked⟩, by simp⟩
  | .call callee args, checked, h, found, provides => by
      rw [Expr.wellScoped, Bool.and_eq_true] at checked
      rw [Expr.traced]
      apply Traced.Resolved.ended
      apply (Expr.resolved_traced caller callee checked.1 found
        provides).propagate
      intro f h₁ _ _ before
      exact Expr.resolved_tracedArgs caller args [] checked.2 before.heap
        (provides.widens before.wider) before.outcome (by simp)

theorem Expr.resolved_tracedArgs (caller : call.Resolves) {known : List String}
    {callee : Value} :
    (args : List Expr) → (done : List Value) →
    Expr.allWellScoped known args = true →
    {h : Heap} → h.Found → h.Provides scope known →
    (Outcome.value callee).Found h →
    (∀ a ∈ done, (Outcome.value a).Found h) →
    Traced.Resolved h (Expr.tracedArgs call scope (.value callee) args
      (done.map .value) h)
  | [], done, _, h, found, _, good, goods => by
      rw [Expr.tracedArgs]
      exact Outcome.resolved_tracedApply caller found good goods
  | arg :: args, done, checked, h, found, provides, good, goods => by
      rw [Expr.allWellScoped, Bool.and_eq_true] at checked
      rw [Expr.tracedArgs]
      apply (Expr.resolved_traced caller arg checked.1 found provides).propagate
      intro v h₁ _ _ before
      -- the callee and the arguments before had to wait for this one
      have goods₁ : ∀ a ∈ done ++ [v], (Outcome.value a).Found h₁ := by
        rw [List.forall_mem_append, List.forall_mem_singleton]
        exact ⟨fun a mem => (goods a mem).widens before.wider, before.outcome⟩
      have rest := Expr.resolved_tracedArgs caller args (done ++ [v])
        checked.2 before.heap (provides.widens before.wider)
        (good.widens before.wider) goods₁
      rw [List.map_append] at rest
      exact rest

theorem Stmt.resolved_traced (caller : call.Resolves) {known : List String} :
    (s : Stmt) →
    s.wellScoped known = true → {h : Heap} → h.Found → h.Provides scope known →
    Traced.Resolved h (s.traced call scope h)
  | .bind name e, checked, h, found, provides => by
      by_cases literal : ∃ params body, e = .fn params body
      · obtain ⟨params, body, rfl⟩ := literal
        exact Stmt.resolved_bind_fn name params body checked found provides
      · have value_checked : e.wellScoped known = true := by
          cases e with
          | fn params body => exact absurd ⟨params, body, rfl⟩ literal
          | _ => exact checked
        rw [Stmt.traced]
        apply Traced.Resolved.ended
        apply (Expr.resolved_traced caller e value_checked found
          provides).propagate
        intro v h₁ _ _ before _ _ _ eq
        cases eq
        have wider := Heap.Widens.bind h₁ scope name (.value v)
        refine ⟨before.heap.bind scope name (before.outcome.widens wider),
          wider, trivial, ?_⟩
        simp [Event.Resolved, Event.outcomes, Outcome.Unresolved]
  | .ret none, _, h, found, _ => by
      rw [Stmt.traced]
      apply Traced.Resolved.ended
      exact .of_found found trivial
  | .ret (some e), checked, h, found, provides => by
      rw [Stmt.traced]
      apply Traced.Resolved.ended
      apply (Expr.resolved_traced caller e checked found provides).propagate
      intro v h₁ _ _ before
      exact .of_found before.heap before.outcome
  | .expr e, checked, h, found, provides => by
      rw [Stmt.traced]
      exact (Expr.resolved_traced caller e checked found provides).ended

theorem Stmt.resolved_tracedAll (caller : call.Resolves) {known : List String} :
    (ss : List Stmt) →
    Stmt.allWellScoped known ss = true → {last : Outcome} → {h : Heap} →
    last.Found h →
    h.Found → h.Provides scope known →
    Traced.Resolved h (Stmt.tracedAll call scope ss last h)
  | [], _, last, h, good, found, _ => by
      rw [Stmt.tracedAll]
      exact .of_found found good
  | s :: ss, checked, last, h, _, found, provides => by
      rw [Stmt.allWellScoped, Bool.and_eq_true] at checked
      rw [Stmt.tracedAll]
      apply (Stmt.resolved_traced caller s checked.1 found provides).propagate
      intro v h₁ log run before
      exact Stmt.resolved_tracedAll caller ss checked.2
        before.outcome before.heap
          (Stmt.provides_declared run (provides.widens before.wider))

end

end

-- =================================================== calls in calls

/-- Calls find all names under every limit. Entering a function provides
what its body was checked against. -/
theorem Closure.resolves_traced (limit : Nat) :
    TracedCaller.Resolves (Closure.traced limit) := by
  induction limit with
  | zero =>
      intro _ _ _ _ _ _ _ _ _ _ eq
      cases eq
  | succ limit ih =>
      intro f args h found callable goods same_length outcome h' log eq
      obtain ⟨known, provides, checked⟩ := callable
      have wider := Heap.Widens.enter f (args.map .value) h
      have inside : f.params.length = (args.map Outcome.value).length := by
        rw [same_length, List.length_map]
      have start : Outcome.null.Found (f.enter (args.map .value) h).2 := trivial
      have body := Stmt.resolved_tracedAll ih f.body checked start
        (found.enter f goods) (provides.enter inside)
      rw [Closure.traced] at eq
      dsimp only at eq
      split at eq
      · cases eq
      · next _ last _ log₁ run =>
          cases eq
          obtain ⟨heap, wider₁, good, events⟩ := body last h' log₁ run
          refine ⟨heap, wider.trans wider₁, good.unwrapped,
            List.forall_mem_append.2 ⟨?_, events⟩⟩
          -- parameters are bound to the arguments, which are values
          intro e mem
          obtain ⟨entry, entry_mem, rfl⟩ := List.mem_map.1 mem
          obtain ⟨a, -, same⟩ := List.mem_map.1 (List.of_mem_zip entry_mem).2
          simp [Event.Resolved, Event.outcomes, ← same, Outcome.Unresolved]

-- ============================================================= results

/-- A program that uses known names only does not miss a name. If it
completes, neither its outcome nor any outcome that comes up on the way
says that a name was not found. -/
theorem Program.runAlone_resolved {p : Program}
    (checked : Stmt.allWellScoped [] p = true) {limit : Nat}
    {outcome : Outcome} {h' : Heap}
    (run : p.runAlone limit = some (outcome, h')) :
    ¬ outcome.Unresolved
      ∧ ∃ log, (Node.program p).traced limit 0 (Heap.empty.newScope none).2
          = some (outcome, h', log)
        ∧ ∀ event ∈ log, ∀ o ∈ event.outcomes, ¬ o.Unresolved := by
  let h := (Heap.empty.newScope none).2
  have found : h.Found := Heap.Found.newScope
      (by simp [Heap.Found, Heap.empty]) none
  have provides : h.Provides 0 [] := ⟨by decide, by simp⟩
  have node_run : (Node.program p).run limit 0 h = some (outcome, h') := run
  obtain ⟨log, traced⟩ := Node.exists_log node_run
  have start : Outcome.null.Found h := trivial
  have block := Stmt.resolved_tracedAll (Closure.resolves_traced limit) p
    checked start found provides
  have whole := traced
  rw [Node.traced, Outcome.null, Program.tracedFrom_eq] at whole
  obtain ⟨⟨last, h₁, log₁⟩, done, same⟩ := Option.map_eq_some_iff.1 whole
  cases same
  have resolved := block last h' log done
  exact ⟨resolved.outcome.unwrapped.not_unresolved, log, traced,
    resolved.events⟩

/-- A function that calls itself, and one that is made inside a branch
and uses what is bound there:
`let f = fn(n) { if ((n < 1)) { return n; } else { let m = (n - 1); f(m) } };`
`let g = if (true) { let y = 2; fn(z) { f((z + y)) } }; g(0)` -/
theorem Program.runAlone_resolved_recursive :
    let step : Block := [.bind "m" (.binary .sub (.ident "n") (.int 1)),
      .expr (.call (.ident "f") [.ident "m"])]
    let f : Expr := .fn ["n"]
      [.expr (.cond (.binary .less (.ident "n") (.int 1))
        [.ret (some (.ident "n"))] (some step))]
    let inner : Expr := .fn ["z"]
      [.expr (.call (.ident "f") [.binary .add (.ident "z") (.ident "y")])]
    let g : Expr := .cond (.bool true) [.bind "y" (.int 2), .expr inner] none
    let p : Program := [.bind "f" f, .bind "g" g,
      .expr (.call (.ident "g") [.int 0])]
    Stmt.allWellScoped [] p = true
      ∧ (p.runAlone 4).map (fun r => r.1.text) = some "0"
      ∧ ∃ outcome h' log,
        (Node.program p).traced 4 0 (Heap.empty.newScope none).2
            = some (outcome, h', log)
          ∧ ∀ event ∈ log, ∀ o ∈ event.outcomes, ¬ o.Unresolved := by
  intro step f inner g p
  have checked : Stmt.allWellScoped [] p = true := by decide +kernel
  have text : (p.runAlone 4).map (fun r => r.1.text) = some "0" :=
    by decide +kernel
  obtain ⟨⟨outcome, h'⟩, run, -⟩ := Option.map_eq_some_iff.1 text
  obtain ⟨-, log, traced, events⟩ := Program.runAlone_resolved checked run
  exact ⟨checked, text, outcome, h', log, traced, events⟩

end Scriptlet
