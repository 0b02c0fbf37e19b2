/-
A program, a block and the body of a function.

Statements can be run in three ways, and each of them has a rule of its
own for where to stop and what to do with a `return`. They agree
(`Program.run_three_ways`): a program is a block at whose end a `return`
has arrived, and it does what the function does that has it as its body.

# One scope more

The second is a comparison of two runs. The body of `fn() { … }` runs in
a scope of its own, inside the one that holds nothing, and the function
itself has the first stamp. So all that the program makes has the next
number in the body: its scope 0 is scope 1 there, and so on
(`Matching.wrapping`). Nothing is ever found in the extra scope, as
nothing is bound there.
-/
import Scriptlet.Proofs.Eval.Parallel

namespace Scriptlet

/-- Evaluates a node in a heap that holds one empty scope and nothing
else. -/
def Node.runAlone (limit : Nat) (node : Node) : Run :=
  let (scope, h) := Heap.empty.newScope none
  node.run limit scope h

/-- The expression that calls a function without parameters, with these
statements as its body. -/
def Block.called (body : Block) : Expr :=
  .call (.fn [] body) []

-- ====================================================== the matching

/-- The matching between a program and the body of a function: the second
run has made one scope and one function before. -/
def Matching.wrapping : Matching where
  scopes := ⟨fun _ => False, 0, 1⟩
  stamps := ⟨fun _ => False, 0, 1⟩
  names _ := True
  void j := j = 0
  void_unpaired i j zero pairs := by
    cases pairs with
    | shared common => exact common
    | made k => exact Nat.succ_ne_zero k ((Nat.add_comm k 1).trans zero)

/-- The function with these statements as its body, and the heap it was
made in. -/
def Block.wrapped (body : Block) : Closure × Heap :=
  (Heap.empty.newScope none).2.newClosure [] body 0

/-- The global scope of one run is matched with the scope of the call in the
other, whose own global scope has no partner. -/
private theorem Matching.wrapping_alike (body : Block) :
    (Heap.empty.newScope none).2.Alike .wrapping
      ((Block.wrapped body).1.enter [] (Block.wrapped body).2).2 where
  scopes := ⟨1, rfl, rfl⟩
  stamps := ⟨0, rfl, rfl⟩
  partner i j s pairs at_i := by
    cases pairs with
    | shared common => exact common.elim
    | made k =>
        cases k with
        | zero =>
            cases at_i
            exact ⟨_, rfl, .void Nat.zero_lt_one rfl, fun _ _ => .none⟩
        | succ k =>
            -- the program starts in the only scope there is
            obtain ⟨inside, -⟩ := Array.getElem?_eq_some_iff.1 at_i
            have few : 0 + (k + 1) < 1 := inside
            omega
  void j zero := by
    subst zero
    exact ⟨_, rfl, rfl, fun _ _ => rfl⟩

-- =========================================================== the runs

/-- What can be seen of the result of a run. -/
def Run.shown (run : Run) : Option (String × String) :=
  run.map fun r => (r.1.kindName, r.1.text)

/-- Showing a result changes nothing about whether there is one. -/
private theorem Run.isSome_shown (run : Run) : run.shown.isSome = run.isSome :=
  Option.isSome_map

/-- Results that are alike are shown alike. -/
private theorem Run.Alike.shown_eq {m : Matching} {h : Heap} {run run' : Run}
    (alike : Run.Alike m h run run') : run.shown = run'.shown := by
  rcases rel_inv alike with ⟨rfl, rfl⟩ | ⟨r, r', rfl, rfl, -, same, -⟩
  · rfl
  · show some (r.1.kindName, r.1.text) = some (r'.1.kindName, r'.1.text)
    rw [same.kindName_eq, same.text_eq]

/-- The wrapped text makes a function and calls it at once. -/
private theorem Node.runAlone_called (limit : Nat) (body : Block) :
    Node.runAlone limit (.expr body.called)
      = Closure.call limit (Block.wrapped body).1 [] (Block.wrapped body).2 :=
  rfl

/-- The call needs one level of nesting more than the program. -/
theorem Program.runAlone_alike_called (limit : Nat) (p : Program) :
    Run.Alike .wrapping (Heap.empty.newScope none).2 (p.runAlone limit)
      (Node.runAlone (limit + 1) (.expr (Block.called p))) := by
  have body := Stmt.evalAll_alike (Closure.call_alike limit) (.made 0) p .null
    (Matching.wrapping_alike p) Nat.zero_lt_one fun _ _ => trivial
  rw [Node.runAlone_called, Closure.call_eq_map]
  show Run.Alike _ _ (Program.runFrom _ _ _ _ _) _
  rw [Program.runFrom_eq_map]
  exact body.unwrapped

/-- The three ways to run statements agree. A program completes where the
block does, leaves the same heap, and has the outcome of the block with a
`return` that arrived. And it completes where a function with these
statements as its body does when called, both alone in a heap: the call
nests one level deeper, and what can be seen of the results is the
same. -/
theorem Program.run_three_ways (p : Program) :
    (∀ (limit : Nat) (scope : ScopeId) (h : Heap),
        p.run limit scope h = (Block.run limit scope p h).map fun r =>
          (r.1.unwrapped, r.2))
      ∧ (∀ limit, (p.runAlone limit).shown
        = (Node.runAlone (limit + 1) (.expr (Block.called p))).shown)
      ∧ ((∃ limit, (p.runAlone limit).isSome)
        ↔ ∃ limit, (Node.runAlone limit (.expr (Block.called p))).isSome) := by
  have same (limit : Nat) := (p.runAlone_alike_called limit).shown_eq
  refine ⟨fun limit scope h => p.runFrom_eq_map _ scope .null h, same, ?_, ?_⟩
  · rintro ⟨limit, completes⟩
    refine ⟨limit + 1, ?_⟩
    rw [← Run.isSome_shown] at completes ⊢
    rw [← same limit]
    exact completes
  · rintro ⟨limit, completes⟩
    cases limit with
    | zero => cases completes
    | succ limit =>
        refine ⟨limit, ?_⟩
        rw [← Run.isSome_shown] at completes ⊢
        rw [same limit]
        exact completes

end Scriptlet
