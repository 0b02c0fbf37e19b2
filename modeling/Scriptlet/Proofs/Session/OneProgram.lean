/-
A session is one program.

The lines of a session that are programs, put together with line ends
between them, are one program. Where each of them ends with a semicolon
and no statement gives a signal, that program leaves the heap which the
session leaves, and its outcome is the reply to the last of these lines
(`Session.replies_eq_run_joined`). Other lines could as well not be there.

The two ways differ only in where they start anew: the session does so
with each line, from the heap that the last line left. A signal would
stop one line in the session but all of the program, and the value of a
line without statements is `null` and not the value before it. Neither
comes up here: a line that ends with a semicolon has a statement.
-/
import Scriptlet.Proofs.Program.Lines
import Scriptlet.Session

namespace Scriptlet

-- ============================================================ programs

section Programs

variable {limit : Nat} {scope : ScopeId} {h : Heap}

/-- The outcomes of the statements of a program, up to the one that stops
it. -/
def Program.outcomes (limit : Nat) (scope : ScopeId) :
    Program → Heap → List Outcome
  | [], _ => []
  | s :: ss, h =>
      match s.eval (Closure.call limit) scope h with
      | none => []
      | some (.value v, h) => .value v :: Program.outcomes limit scope ss h
      | some (signal, _) => [signal]

/-- No outcome is a signal. -/
def Quiet (outcomes : List Outcome) : Prop :=
  ∀ outcome ∈ outcomes, outcome.isSignal = false

/-- Two lists are quiet if both are. -/
private theorem quiet_append {first second : List Outcome} :
    Quiet (first ++ second) ↔ Quiet first ∧ Quiet second :=
  List.forall_mem_append

/-- A first statement that gives no signal does not complete, or gives a
value and the others go on. -/
private theorem Program.quiet_cons {s : Stmt} {ss : Program}
    (quiet : Quiet (Program.outcomes limit scope (s :: ss) h)) :
    s.eval (Closure.call limit) scope h = none
      ∨ ∃ v h₁, s.eval (Closure.call limit) scope h = some (.value v, h₁)
        ∧ Quiet (Program.outcomes limit scope ss h₁) := by
  rw [Program.outcomes] at quiet
  cases first : s.eval (Closure.call limit) scope h with
  | none => exact .inl rfl
  | some r =>
      obtain ⟨outcome, h₁⟩ := r
      rw [first] at quiet
      cases outcome with
      | value v => exact .inr ⟨v, h₁, rfl, (List.forall_mem_cons.1 quiet).2⟩
      | error | returned => cases quiet _ List.mem_cons_self

/-- A program without signals does not complete or has a value, and a
program behind it goes on from there. -/
theorem Program.runFrom_append {p : Program}
    (quiet : Quiet (p.outcomes limit scope h)) (q : Program) (last : Value) :
    (p.runFrom (Closure.call limit) scope last h = none
        ∧ Program.runFrom (Closure.call limit) scope (p ++ q) last h = none)
      ∨ ∃ v h₁, p.runFrom (Closure.call limit) scope last h
        = some (.value v, h₁)
        ∧ Program.runFrom (Closure.call limit) scope (p ++ q) last h
          = q.runFrom (Closure.call limit) scope v h₁ := by
  induction p generalizing last h with
  | nil => exact .inr ⟨last, h, rfl, rfl⟩
  | cons s ss ih =>
      rw [List.cons_append, Program.runFrom, Program.runFrom]
      rcases quiet_cons quiet with stuck | ⟨v, h₁, first, quiet⟩
      · rw [stuck]
        exact .inl ⟨rfl, rfl⟩
      · rw [first]
        exact ih quiet v

/-- The value before a program is lost at its first statement. -/
private theorem Program.runFrom_of_ne_nil {p : Program} (some_stmt : p ≠ [])
    (call : Caller) (last last' : Value) :
    p.runFrom call scope last h = p.runFrom call scope last' h := by
  cases p with
  | nil => exact absurd rfl some_stmt
  | cons s ss => rfl

/-- A source that ends in a semicolon has a statement. -/
private theorem Terminated.program_ne_nil {source : String}
    (done : Terminated source) :
    (Listing.ofSource source).program ≠ [] := by
  intro nil
  have derives : Derives (.stmts (Listing.ofSource source).program)
      (tokenize source) [] :=
    isProgram_of_clean _ done.clean
  rw [nil] at derives
  have last := done.last
  generalize tokenize source = ts at derives last
  cases derives
  cases last

end Programs

namespace Session

-- =========================================================== the lines

/-- The program of a line. -/
def listing (line : String) : Listing :=
  Listing.ofSource (Text.trimEnd line)

/-- A line that is more than white space and that is a program. -/
def keeps (line : String) : Bool :=
  Text.trimEnd line ≠ "" && (listing line).diagnostics.isEmpty

/-- The replies to the lines that are programs. -/
def keptReplies (lines : List String) (replies : List Reply) : List Reply :=
  ((lines.zip replies).filter fun r => keeps r.1).map Prod.snd

private theorem keptReplies_cons_of_keeps {line : String}
    (kept : keeps line = true) (lines : List String) (first : Reply)
    (rest : List Reply) :
    keptReplies (line :: lines) (first :: rest)
      = first :: keptReplies lines rest := by
  simp [keptReplies, kept]

private theorem keptReplies_cons_of_not_keeps {line : String}
    (dropped : ¬ keeps line = true) (lines : List String) (first : Reply)
    (rest : List Reply) :
    keptReplies (line :: lines) (first :: rest) = keptReplies lines rest := by
  simp [keptReplies, dropped]

/-- The lines that are programs, as one text. -/
def joined (lines : List String) : String :=
  "\n".intercalate ((lines.filter keeps).map Text.trimEnd)

/-- The outcomes of the statements of the lines that are programs, as the
session goes. -/
def outcomes (limit : Nat) (scope : ScopeId) : List String → Heap → List Outcome
  | [], _ => []
  | line :: lines, h =>
      (if keeps line then (listing line).program.outcomes limit scope h else [])
        ++ match reply limit scope line h with
          | none => []
          | some (_, h) => outcomes limit scope lines h

variable {limit : Nat} {scope : ScopeId} {h : Heap} {line : String}
    {lines : List String}

-- ============================================================ one line

/-- A line without diagnostics is run. -/
private theorem reply_of_clean (clean : (listing line).diagnostics = [])
    (limit : Nat) (scope : ScopeId) (h : Heap) :
    reply limit scope line h
      = ((listing line).program.run limit scope h).map fun r =>
        (.answered r.1, r.2) := by
  have empty : (listing line).diagnostics.isEmpty = true :=
    List.isEmpty_iff.2 clean
  unfold reply
  dsimp only
  rw [show Listing.ofSource (Text.trimEnd line) = listing line from rfl,
    if_pos empty]
  cases (listing line).program.run limit scope h <;> rfl

/-- A line that is blank or no program changes nothing. -/
private theorem reply_of_not_keeps (dropped : ¬ keeps line = true) (limit : Nat)
    (scope : ScopeId) (h : Heap) :
    ∃ r, reply limit scope line h = some (r, h) := by
  by_cases clean : (listing line).diagnostics = []
  · have blank : Text.trimEnd line = "" := by
      simpa [keeps, clean] using dropped
    refine ⟨.answered .null, ?_⟩
    rw [reply_of_clean clean, listing, blank]
    rfl
  · refine ⟨.rejected (listing line).diagnostics, ?_⟩
    unfold reply
    dsimp only
    rw [show Listing.ofSource (Text.trimEnd line) = listing line from rfl,
      if_neg fun empty => clean (List.isEmpty_iff.1 empty)]
    rfl

private theorem replies_cons :
    replies limit scope (line :: lines) h
      = (reply limit scope line h).bind fun r =>
      (replies limit scope lines r.2).map fun s => (r.1 :: s.1, s.2) := by
  rw [replies]
  cases reply limit scope line h with
  | none => rfl
  | some r =>
      dsimp only [Option.bind_eq_bind, Option.bind_some]
      cases replies limit scope lines r.2 <;> rfl

private theorem getLast?_replies (lines_left : lines ≠ []) (default : Reply) :
    (replies limit scope lines h).map (fun r => (r.1.getLast?, r.2))
      = (replies limit scope lines h).map fun r =>
        (some (r.1.getLast?.getD default), r.2) := by
  obtain ⟨line, lines, rfl⟩ := List.exists_cons_of_ne_nil lines_left
  rw [replies_cons]
  cases reply limit scope line h with
  | none => rfl
  | some r =>
      rw [Option.bind_some, Option.map_map, Option.map_map]
      simp only [Function.comp_def, List.getLast?_cons, Option.getD_some]

-- ==================================================== lines that count

/-- Lines that are blank or no programs could as well not be there. -/
private theorem replies_filter (lines : List String) (h : Heap) :
    (replies limit scope lines h).map (fun r => (keptReplies lines r.1, r.2))
      = replies limit scope (lines.filter keeps) h := by
  induction lines generalizing h with
  | nil => rfl
  | cons line lines ih =>
      rw [replies_cons]
      by_cases kept : keeps line = true
      · rw [List.filter_cons_of_pos kept, replies_cons]
        cases reply limit scope line h with
        | none => rfl
        | some r =>
            rw [Option.bind_some, Option.bind_some, ← ih r.2, Option.map_map,
              Option.map_map]
            simp only [Function.comp_def, keptReplies_cons_of_keeps kept]
      · obtain ⟨r, same⟩ := reply_of_not_keeps kept limit scope h
        rw [List.filter_cons_of_neg kept, same, Option.bind_some, ← ih h,
          Option.map_map]
        simp only [Function.comp_def, keptReplies_cons_of_not_keeps kept]

/-- Lines that are not kept give no outcome. -/
private theorem outcomes_filter (lines : List String) (h : Heap) :
    outcomes limit scope (lines.filter keeps) h
      = outcomes limit scope lines h := by
  induction lines generalizing h with
  | nil => rfl
  | cons line lines ih =>
      rw [outcomes]
      by_cases kept : keeps line = true
      · rw [List.filter_cons_of_pos kept, outcomes]
        cases reply limit scope line h with
        | none => rfl
        | some r => exact congrArg _ (ih r.2)
      · obtain ⟨r, same⟩ := reply_of_not_keeps kept limit scope h
        rw [List.filter_cons_of_neg kept, same, if_neg kept]
        exact ih h

/-- Programs line after line, without signals, run as the one program
that they are together. The value `last` is the answer before the first
line. -/
theorem replies_eq_runFrom (kept : ∀ line ∈ lines, keeps line = true)
    (done : ∀ line ∈ lines, Terminated (Text.trimEnd line))
    (quiet : Quiet (outcomes limit scope lines h)) (last : Value) :
    (replies limit scope lines h).map
        (fun r => (r.1.getLast?.getD (.answered (.value last)), r.2))
      = (Program.runFrom (Closure.call limit) scope
          (lines.flatMap fun line => (listing line).program) last h).map
          fun r => (.answered r.1, r.2) := by
  induction lines generalizing last h with
  | nil => rfl
  | cons line lines ih =>
      rw [List.forall_mem_cons] at kept done
      rw [outcomes, if_pos kept.1, quiet_append] at quiet
      obtain ⟨quiet_line, quiet⟩ := quiet
      have some_stmt : (listing line).program ≠ [] := done.1.program_ne_nil
      have answer := reply_of_clean done.1.clean limit scope h
      rw [Program.run, Program.runFrom_of_ne_nil some_stmt _ .null last]
        at answer
      rw [List.flatMap_cons, replies_cons]
      rcases Program.runFrom_append quiet_line
          (lines.flatMap fun line => (listing line).program) last with
        ⟨stuck, whole⟩ | ⟨v, h₁, first, whole⟩
      · rw [answer, stuck, whole]
        rfl
      · rw [first] at answer
        rw [answer] at quiet ⊢
        rw [whole, ← ih kept.2 done.2 quiet v, Option.map_some,
          Option.bind_some, Option.map_map]
        simp only [Function.comp_def, List.getLast?_cons, Option.getD_some]

-- ===================================================== whole sessions

/-- A session is one program. Where some lines are programs, each of them
ends with a semicolon, and none of their statements gives a signal, the
text of these lines is one program. The session completes where the
program does, in the same heap, and the outcome of the program is the
reply to the last of the lines. The other lines have no effect: without
them there are the same replies to these lines and the same heap. -/
theorem replies_eq_run_joined (limit : Nat) (lines : List String)
    (some_kept : ∃ line ∈ lines, keeps line = true)
    (ended : ∀ line ∈ lines, keeps line = true →
      (tokenize (Text.trimEnd line)).getLast? = some (.symbol .semicolon))
    (quiet : Quiet (outcomes limit 0 lines (Heap.empty.newScope none).2)) :
    (Listing.ofSource (joined lines)).diagnostics = []
      ∧ (replies limit 0 lines (Heap.empty.newScope none).2).map
          (fun r => ((keptReplies lines r.1).getLast?, r.2))
        = ((Listing.ofSource (joined lines)).program.runAlone limit).map
          (fun r => (some (.answered r.1), r.2))
      ∧ (replies limit 0 lines (Heap.empty.newScope none).2).map
          (fun r => (keptReplies lines r.1, r.2))
        = replies limit 0 (lines.filter keeps)
          (Heap.empty.newScope none).2 := by
  have kept : ∀ line ∈ lines.filter keeps, keeps line = true :=
    fun line mem => (List.mem_filter.1 mem).2
  have done : ∀ line ∈ lines.filter keeps, Terminated (Text.trimEnd line) := by
    intro line mem
    have clean := (Bool.and_eq_true_iff.1 (kept line mem)).2
    exact ⟨List.isEmpty_iff.1 clean,
      ended line (List.mem_filter.1 mem).1 (kept line mem)⟩
  have some_left : lines.filter keeps ≠ [] := by
    obtain ⟨line, mem, keep⟩ := some_kept
    exact List.ne_nil_of_mem (List.mem_filter.2 ⟨mem, keep⟩)
  -- one listing for all kept lines, since each line ends its statement
  have read : Listing.ofSource (joined lines) =
      ⟨(lines.filter keeps).flatMap fun line => (listing line).program,
        []⟩ := by
    rw [joined, Listing.ofSource_intercalate (List.forall_mem_map.2 done),
      List.flatMap_map]
    rfl
  refine ⟨by rw [read], ?_, replies_filter lines _⟩
  rw [← outcomes_filter] at quiet
  calc (replies limit 0 lines (Heap.empty.newScope none).2).map
        (fun r => ((keptReplies lines r.1).getLast?, r.2))
    _ = (replies limit 0 (lines.filter keeps) (Heap.empty.newScope none).2).map
          (fun r => (r.1.getLast?, r.2)) := by
        rw [← replies_filter, Option.map_map]
        rfl
    _ = ((replies limit 0 (lines.filter keeps) (Heap.empty.newScope none).2).map
          (fun r => (r.1.getLast?.getD (.answered .null), r.2))).map
          (fun r => (some r.1, r.2)) := by
        rw [getLast?_replies some_left (.answered .null), Option.map_map]
        rfl
    _ = ((Listing.ofSource (joined lines)).program.runAlone limit).map
          (fun r => (some (.answered r.1), r.2)) := by
        rw [show Outcome.null = .value .null from rfl,
          replies_eq_runFrom kept done quiet .null, read, Option.map_map]
        rfl

/-- A session with a blank line and a line that is no program, where a
later line uses what an earlier one has bound. -/
theorem replies_eq_run_joined_malformed_line :
    let lines := ["let x = 5; ", " \t", "let = 1;", "let y = x; y * 2;"]
    joined lines = "let x = 5;\nlet y = x; y * 2;"
      ∧ ((Listing.ofSource (joined lines)).program.runAlone 0).map
        (fun r => r.1.text) = some "10"
      ∧ (Listing.ofSource (joined lines)).diagnostics = []
      ∧ (replies 0 0 lines (Heap.empty.newScope none).2).map
          (fun r => ((keptReplies lines r.1).getLast?, r.2))
        = ((Listing.ofSource (joined lines)).program.runAlone 0).map
          (fun r => (some (.answered r.1), r.2)) := by
  intro lines
  have some_kept : ∃ line ∈ lines, keeps line = true := by decide +kernel
  have ended : ∀ line ∈ lines, keeps line = true →
      (tokenize (Text.trimEnd line)).getLast? = some (.symbol .semicolon) :=
    by decide +kernel
  have quiet : Quiet (outcomes 0 0 lines (Heap.empty.newScope none).2) := by
    unfold Quiet
    decide +kernel
  have whole := replies_eq_run_joined 0 lines some_kept ended quiet
  exact ⟨by decide +kernel, by decide +kernel, whole.1, whole.2.1⟩

end Session

end Scriptlet
