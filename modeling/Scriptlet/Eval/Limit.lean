/-
The depth limit only decides whether a run completes.

A run that completes under one limit completes under every higher one,
with the same outcome and the same heap (`Closure.call_le`). So "the
evaluation ends in such an outcome" may be read as "it does under some
limit", and two limits never disagree.

The limit is known to the evaluator only through its caller. Hence the
fact is first shown for any two callers of which one completes whatever
the other does (`Caller.Le`), by recursion on the syntax, and then for
the callers of two limits.
-/
import Scriptlet.Program.Run

namespace Scriptlet

-- ============================================================= callers

/-- Whatever the first run completes, the second completes alike. -/
def Run.Le (a b : Run) : Prop :=
  ∀ r, a = some r → b = some r

/-- Whatever the first caller completes, the second completes alike. -/
def Caller.Le (c d : Caller) : Prop :=
  ∀ f args h, Run.Le (c f args h) (d f args h)

theorem Run.Le.refl (a : Run) : Run.Le a a :=
  fun _ h => h

/-- Both steps go further, so the two in a row do. -/
private theorem Run.Le.onValue {a b : Run} {f g : Value → Heap → Run}
    (hab : Run.Le a b) (hfg : ∀ v h, Run.Le (f v h) (g v h)) :
    Run.Le (a.onValue f) (b.onValue g) := by
  intro r hr
  cases a with
  | none => cases hr
  | some p =>
      rw [hab p rfl]
      obtain ⟨outcome, h⟩ := p
      cases outcome with
      | value v => exact hfg v h r hr
      | error _ => exact hr
      | returned _ => exact hr

/-- Calls that go further carry every application along. -/
private theorem Value.applyTo_le {c d : Caller} (hcd : c.Le d) (callee : Value)
    (args : List Value) (h : Heap) :
    Run.Le (callee.applyTo c args h) (callee.applyTo d args h) := by
  cases callee with
  | closure f =>
      simp only [Value.applyTo]
      split
      · exact hcd f args h
      · exact .refl _
  | _ => exact .refl _

-- ========================================================== evaluation

mutual

/-- An expression. Only calls are limited, so each rule hands on what its
parts give. -/
theorem Expr.eval_le {c d : Caller} (hcd : c.Le d) (scope : ScopeId) :
    (e : Expr) → (h : Heap) → Run.Le (e.eval c scope h) (e.eval d scope h)
  | .ident _, _ => by rw [Expr.eval, Expr.eval]; exact .refl _
  | .int _, _ => .refl _
  | .bool _, _ => .refl _
  | .str _, _ => .refl _
  | .unary _ e, h => by
      rw [Expr.eval, Expr.eval]
      exact (e.eval_le hcd scope h).onValue fun _ _ => .refl _
  | .binary _ l r, h => by
      rw [Expr.eval, Expr.eval]
      exact (l.eval_le hcd scope h).onValue fun _ h =>
        (r.eval_le hcd scope h).onValue fun _ _ => .refl _
  | .cond test yes none, h => by
      rw [Expr.eval, Expr.eval]
      refine (test.eval_le hcd scope h).onValue fun v h => ?_
      split
      · exact Stmt.evalAll_le hcd scope yes _ h
      · exact .refl _
  | .cond test yes (some no), h => by
      rw [Expr.eval, Expr.eval]
      refine (test.eval_le hcd scope h).onValue fun v h => ?_
      split
      · exact Stmt.evalAll_le hcd scope yes _ h
      · exact Stmt.evalAll_le hcd scope no _ h
  | .fn _ _, _ => .refl _
  | .call callee args, h => by
      rw [Expr.eval, Expr.eval]
      exact (callee.eval_le hcd scope h).onValue fun f h =>
        Expr.evalArgs_le hcd scope f args [] h

theorem Expr.evalArgs_le {c d : Caller} (hcd : c.Le d) (scope : ScopeId)
    (callee : Value) :
    (args : List Expr) → (done : List Value) → (h : Heap) →
      Run.Le (Expr.evalArgs c scope callee args done h)
        (Expr.evalArgs d scope callee args done h)
  | [], done, h => by
      rw [Expr.evalArgs, Expr.evalArgs]
      exact Value.applyTo_le hcd callee done h
  | arg :: args, _, h => by
      rw [Expr.evalArgs, Expr.evalArgs]
      exact (arg.eval_le hcd scope h).onValue fun _ h =>
        Expr.evalArgs_le hcd scope callee args _ h

theorem Stmt.eval_le {c d : Caller} (hcd : c.Le d) (scope : ScopeId) :
    (s : Stmt) → (h : Heap) → Run.Le (s.eval c scope h) (s.eval d scope h)
  | .bind _ e, h => by
      rw [Stmt.eval, Stmt.eval]
      exact (e.eval_le hcd scope h).onValue fun _ _ => .refl _
  | .ret none, _ => .refl _
  | .ret (some e), h => by
      rw [Stmt.eval, Stmt.eval]
      exact (e.eval_le hcd scope h).onValue fun _ _ => .refl _
  | .expr e, h => by
      rw [Stmt.eval, Stmt.eval]
      exact e.eval_le hcd scope h

theorem Stmt.evalAll_le {c d : Caller} (hcd : c.Le d) (scope : ScopeId) :
    (ss : List Stmt) → (last : Value) → (h : Heap) →
      Run.Le (Stmt.evalAll c scope ss last h) (Stmt.evalAll d scope ss last h)
  | [], _, _ => .refl _
  | s :: ss, _, h => by
      rw [Stmt.evalAll, Stmt.evalAll]
      exact (s.eval_le hcd scope h).onValue fun v h =>
        Stmt.evalAll_le hcd scope ss v h

end

-- ============================================================== limits

/-- A call that completes under a limit completes alike under the next
one. -/
theorem Closure.call_le_succ (limit : Nat) :
    Caller.Le (Closure.call limit) (Closure.call (limit + 1)) := by
  induction limit with
  | zero => intro _ _ _ _ hr; cases hr
  | succ limit ih =>
      intro f args h r hr
      rw [Closure.call] at hr ⊢
      have body := Stmt.evalAll_le ih (h.newScope (some f.scope)).1 f.body .null
        ((h.newScope (some f.scope)).2.bindAll (h.newScope (some f.scope)).1
          (f.params.zip (args.map .value)))
      revert hr
      dsimp only
      split
      · intro hr; cases hr
      · next eq => rw [body _ eq]; exact id

/-- A call that completes under a limit completes alike under every
higher one. -/
theorem Closure.call_le {m n : Nat} (h : m ≤ n) :
    Caller.Le (Closure.call m) (Closure.call n) := by
  induction h with
  | refl => exact fun _ _ _ => .refl _
  | step _ ih => exact fun f args h r hr =>
      Closure.call_le_succ _ f args h r (ih f args h r hr)

/-- A program that completes under a limit completes alike under every
higher one. -/
theorem Program.run_le {m n : Nat} (le : m ≤ n) (scope : ScopeId) (p : Program)
    (h : Heap) :
    Run.Le (p.run m scope h) (p.run n scope h) := by
  unfold Program.run
  generalize Value.null = last
  induction p generalizing last h with
  | nil => exact .refl _
  | cons s ss ih =>
      intro r hr
      rw [Program.runFrom] at hr ⊢
      have first := s.eval_le (Closure.call_le le) scope h
      revert hr
      split
      · intro hr; cases hr
      · next eq => rw [first _ eq]; exact ih _ _ r
      · next eq => rw [first _ eq]; exact id
      · next eq => rw [first _ eq]; exact id

end Scriptlet
