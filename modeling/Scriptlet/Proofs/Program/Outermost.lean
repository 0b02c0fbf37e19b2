/-
Nothing inside a block is ever taken for a statement of the program.

After a malformed statement reading starts again at a later token. If
that token stood inside braces, part of a block would be run as if it had
been written at top level. Here a program is read with a tracker that
goes through all tokens and is never set back (`Tracker.attempts`), and
the search for the end of a malformed statement asks the tracker where it
is, also if the statement was given up in the middle of a block.

# The argument

The tracker's count is that of the text (`Tracker.Counts`), as it passes
each token once. A statement that was read leaves the count as it found
it, and the search stops at zero or at the end. So each attempt to read a
statement starts at zero, by induction on the attempts, and the search
sees the same count that `resync` makes afresh for each statement. That
is why the attempts are the segments of the text.
-/
import Scriptlet.Proofs.Program.Boundaries
import Scriptlet.Proofs.Program.Recovery
import Scriptlet.Proofs.Read.Tracker

namespace Scriptlet

-- ======================================================== the whole text

namespace Tracker

/-- Whether a malformed statement may end with the last token passed. -/
def mayEnd (s : Tracker) : Bool :=
  match s.cur with
  | none => true
  | some t => s.depth = 0 && endsSegment t s.ahead.head?

/-- Passes tokens, at most `bound` of them, up to where a malformed
statement may end. -/
def synchronize : (bound : Nat) → Tracker → Tracker
  | 0, s => s
  | bound + 1, s => if s.mayEnd then s else s.next.synchronize bound

end Tracker

/-- One attempt to read a statement at top level: where it starts, what
comes of it, and where the next one starts. -/
structure Attempt where
  start : Tracker
  reading : Except Diagnostic Stmt
  stop : Tracker

/-- The segment of the text that the attempt has gone through. -/
def Attempt.segment (a : Attempt) : Segment :=
  ⟨a.start.ahead.take (a.start.ahead.length - a.stop.ahead.length), a.reading⟩

namespace Tracker

/-- Reads a statement, or passes the tokens of a malformed one. -/
def attempt (s : Tracker) : Attempt :=
  match trackStmt (depthBound s.ahead) s with
  | .ok stmt s' => ⟨s, .ok stmt, s'⟩
  | .error cause s' => ⟨s, .error cause, s'.synchronize (s'.ahead.length + 1)⟩

/-- Reads statements until no token is ahead, at most `bound` of them,
and gives all attempts and the last place. -/
def attempts : (bound : Nat) → Tracker → List Attempt × Tracker
  | 0, s => ([], s)
  | bound + 1, s =>
      match s.ahead with
      | [] => ([], s)
      | _ :: _ =>
          let (others, last) := attempts bound s.attempt.stop
          (s.attempt :: others, last)

end Tracker

-- ============================================================= the count

/-- The tracker is at a place of the text, its count is that of the
tokens up to and including the last one passed, and so it was at every
token before. -/
structure Tracker.Counts (ts : List Token) (s : Tracker) : Prop where
  within : s.passed ≤ ts.length
  ahead : s.ahead = ts.drop s.passed
  cur : ∀ t, s.cur = some t → (ts.take s.passed).getLast? = some t
  depth : s.depth = braceDepth 0 (ts.take s.passed)
  trail : s.trail = (List.range s.passed).map fun k => braceDepth 0
    (ts.take (k + 1))

namespace Tracker.Counts

variable {ts : List Token} {s s' : Tracker}

theorem start (ts : List Token) : (Tracker.start ts).Counts ts := by
  refine ⟨Nat.zero_le _, rfl, ?_, rfl, rfl⟩
  intro _ none_yet
  cases none_yet

/-- Passing a token counts it. -/
private theorem next (counts : s.Counts ts) : s.next.Counts ts := by
  unfold Tracker.next
  split
  · refine ⟨counts.within, counts.ahead, ?_, counts.depth, counts.trail⟩
    intro _ at_end
    cases at_end
  · next t rest ahead =>
      have at_place : ts.drop s.passed = t :: rest :=
        counts.ahead.symm.trans ahead
      have one_more : (s.trail ++ [t.depthAfter s.depth]).length
          = s.passed + 1 :=
        List.length_append
      have front : ts.take (s.passed + 1) = ts.take s.passed ++ [t] := by
        rw [List.take_add, at_place]
        rfl
      have counted : t.depthAfter s.depth
          = braceDepth 0 (ts.take (s.passed + 1)) := by
        rw [front, braceDepth_append, ← counts.depth]
        rfl
      constructor
      · show (s.trail ++ [_]).length ≤ ts.length
        have some_left : 0 < (ts.drop s.passed).length := by
          rw [at_place]
          exact Nat.zero_lt_succ _
        rw [List.length_drop] at some_left
        omega
      · show rest = ts.drop (s.trail ++ [_]).length
        rw [one_more, ← List.drop_drop, at_place]
        rfl
      · intro u eq
        cases eq
        show (ts.take (s.trail ++ [_]).length).getLast? = _
        rw [one_more, front]
        exact List.getLast?_concat
      · show _ = braceDepth 0 (ts.take (s.trail ++ [_]).length)
        rw [one_more]
        exact counted
      · show s.trail ++ [_] = (List.range (s.trail ++ [_]).length).map _
        rw [one_more, List.range_succ, List.map_append, ← counts.trail, counted]
        rfl

private theorem leads (counts : s.Counts ts) (leads : s.Leads s') :
    s'.Counts ts := by
  induction leads with
  | refl => exact counts
  | next _ ih => exact ih counts.next

end Tracker.Counts

-- ============================================================ the search

/-- Only the last of the tokens that were taken matters. -/
private theorem resync_one (depth : Nat) (ts : List Token) :
    resync 1 depth ts = resync 0 depth ts := by
  cases ts with
  | nil => rfl
  | cons t rest => simp [resync_cons]

namespace Tracker

private theorem leads_synchronize (bound : Nat) (s : Tracker) :
    s.Leads (s.synchronize bound) := by
  induction bound generalizing s with
  | zero => exact .refl s
  | succ bound ih =>
      rw [synchronize]
      split
      · exact .refl s
      · exact .next (ih s.next)

/-- Where the end was passed, there is nothing to skip. -/
private theorem synchronize_of_passed {s : Tracker} (ended : s.cur = none)
    (bound : Nat) :
    s.synchronize bound = s := by
  cases bound with
  | zero => rfl
  | succ bound =>
      have ends : s.mayEnd = true := by rw [mayEnd, ended]
      rw [synchronize, if_pos ends]

/-- The search is the one that counts for itself, and it stops outside
all braces if it does not stop with the text. -/
theorem synchronize_spec {bound depth : Nat} {s : Tracker} {t : Token}
    (enough : s.ahead.length < bound) (last : s.cur = some t)
    (count : s.depth = t.depthAfter depth) :
    (s.synchronize bound).ahead = resync 1 depth (t :: s.ahead)
      ∧ ((s.synchronize bound).ahead = []
        ∨ (s.synchronize bound).depth = 0) := by
  induction bound generalizing s t depth with
  | zero => cases enough
  | succ bound ih =>
      have ends_iff : s.mayEnd = true ↔
          1 ≤ 1 ∧ t.depthAfter depth = 0
            ∧ endsSegment t s.ahead.head? = true := by
        simp [mayEnd, last, count]
      rw [synchronize, resync_cons]
      by_cases ends : s.mayEnd = true
      · rw [if_pos ends, if_pos (ends_iff.1 ends)]
        exact ⟨rfl, .inr (count.trans (ends_iff.1 ends).2.1)⟩
      · rw [if_neg ends, if_neg (mt ends_iff.2 ends)]
        obtain ⟨cur, open_braces, ahead, trail⟩ := s
        cases ahead with
        | nil =>
            rw [synchronize_of_passed rfl]
            exact ⟨rfl, .inl rfl⟩
        | cons u rest =>
            have fewer : rest.length < bound := Nat.lt_of_succ_lt_succ enough
            rw [← resync_one]
            exact ih fewer rfl (congrArg (u.depthAfter ·) count)

end Tracker

-- ========================================================== one attempt

/-- Behind a first token the tracker has passed the end, or the token
that it shows is the last of those it has counted. -/
private theorem Tracker.Leads.last_passed {s s' : Tracker} {t : Token}
    {ts : List Token} (ahead : s.ahead = t :: ts) (leads : s.next.Leads s') :
    (s'.ahead = [] ∧ s'.cur = none)
      ∨ ∃ before u, s.ahead = before ++ u :: s'.ahead ∧ s'.cur = some u
        ∧ s'.depth = u.depthAfter (braceDepth s.depth before) := by
  obtain ⟨cur, open_braces, _, trail⟩ := s
  cases ahead
  obtain ⟨front, split, depth, last⟩ := leads.front
  rcases last with ⟨rfl, rfl⟩ | ended | ⟨before, u, rfl, passed⟩
  · exact .inr ⟨[], t, rfl, rfl, rfl⟩
  · exact .inl ended
  · rw [braceDepth_append] at depth
    rw [List.append_assoc] at split
    exact .inr ⟨t :: before, u, congrArg (t :: ·) split, passed, depth⟩

namespace Tracker

variable {s : Tracker}

private theorem start_attempt (s : Tracker) : s.attempt.start = s := by
  unfold attempt
  split <;> rfl

/-- An attempt that starts outside all braces goes through the first
segment of what is ahead, and the next one starts outside all braces too,
if there is a next one. -/
theorem attempt_spec {t : Token} {ts : List Token} (ahead : s.ahead = t :: ts)
    (outside : s.depth = 0) :
    s.Leads s.attempt.stop
      ∧ readSegment s.ahead = (s.attempt.reading, s.attempt.stop.ahead)
      ∧ (s.attempt.stop.ahead = [] ∨ s.attempt.stop.depth = 0) := by
  have follows : Follows s.next (readStmt s.ahead) _ :=
    (tracked (depthBound s.ahead)).stmt s
  unfold attempt
  cases read : trackStmt (depthBound s.ahead) s with
  | ok stmt s' =>
      rw [read] at follows
      obtain ⟨plain, leads⟩ := follows.of_ok
      have back := (trackStmt_depth read).1
      exact ⟨.next leads, readSegment_of_ok plain, .inr (back.trans outside)⟩
  | error cause s' =>
      rw [read] at follows
      obtain ⟨plain, leads⟩ := follows.of_error
      refine ⟨.trans (.next leads) (leads_synchronize _ s'), ?_⟩
      rw [readSegment_of_error plain]
      dsimp only
      rcases leads.last_passed ahead with ⟨ended, passed⟩
        | ⟨before, u, split, last, count⟩
      · -- the end was passed, so all of it is the segment
        rw [synchronize_of_passed passed, ended, List.length_nil, Nat.sub_zero,
          resync_length]
        exact ⟨rfl, .inl rfl⟩
      · have taken : s.ahead.length - s'.ahead.length
            = before.length + (0 + 1) := by
          rw [split, List.length_append, List.length_cons]
          omega
        rw [outside] at count
        obtain ⟨same, stops⟩ := synchronize_spec (Nat.lt_succ_self _) last count
        have search : resync (s.ahead.length - s'.ahead.length) 0 s.ahead
            = (s'.synchronize (s'.ahead.length + 1)).ahead :=
          calc resync (s.ahead.length - s'.ahead.length) 0 s.ahead
            _ = resync (before.length + (0 + 1)) 0
              (before ++ u :: s'.ahead) := by
                  rw [taken, ← split]
            _ = resync 1 (braceDepth 0 before) (u :: s'.ahead) :=
                resync_of_taken before _ 0 0
            _ = (s'.synchronize (s'.ahead.length + 1)).ahead := same.symm
        rw [search]
        exact ⟨rfl, stops⟩

/-- A statement that was read at top level closes the braces it opens. -/
theorem attempt_balanced {stmt : Stmt} (read : s.attempt.reading = .ok stmt) :
    s.attempt.stop.depth = s.depth
      ∧ ∀ depth, braceDepth depth s.attempt.segment.tokens = depth := by
  unfold attempt at read ⊢
  cases tracks : trackStmt (depthBound s.ahead) s with
  | ok stmt' s' =>
      obtain ⟨back, front, split, balanced⟩ := trackStmt_depth tracks
      have tokens :
          s.ahead.take (s.ahead.length - s'.ahead.length) = front := by
        rw [split, List.length_append, Nat.add_sub_cancel, List.take_left]
      refine ⟨back, ?_⟩
      show ∀ depth, braceDepth depth
          (s.ahead.take (s.ahead.length - s'.ahead.length)) = depth
      rw [tokens]
      exact balanced
  | error cause s' =>
      rw [tracks] at read
      cases read

-- ========================================================= all attempts

private theorem attempts_of_nil (ahead : s.ahead = []) (bound : Nat) :
    s.attempts bound = ([], s) := by
  cases bound with
  | zero => rfl
  | succ bound => rw [attempts, ahead]

private theorem attempts_of_cons {t : Token} {rest : List Token}
    (ahead : s.ahead = t :: rest) (bound : Nat) :
    s.attempts (bound + 1)
      = (s.attempt :: (s.attempt.stop.attempts bound).1,
        (s.attempt.stop.attempts bound).2) := by
  rw [attempts, ahead]

/-- The attempts from a place of the text are the segments of what is
ahead. They all start outside all braces of the text, and in the end all
tokens have been passed and counted. -/
theorem attempts_spec {ts : List Token} {bound : Nat} (counts : s.Counts ts)
    (outside : s.ahead = [] ∨ s.depth = 0) (enough : s.ahead.length ≤ bound) :
    segmentsWithin bound s.ahead = (s.attempts bound).1.map Attempt.segment
      ∧ (∀ a ∈ (s.attempts bound).1, a = a.start.attempt ∧ a.start.Counts ts
        ∧ a.start.depth = 0)
      ∧ (s.attempts bound).2.Counts ts ∧ (s.attempts bound).2.ahead = [] := by
  induction bound generalizing s with
  | zero =>
      have ended : s.ahead = [] :=
        List.length_eq_zero_iff.1 (Nat.le_zero.1 enough)
      rw [attempts_of_nil ended]
      exact ⟨rfl, List.forall_mem_nil _, counts, ended⟩
  | succ bound ih =>
      cases ahead : s.ahead with
      | nil =>
          rw [attempts_of_nil ahead]
          exact ⟨rfl, List.forall_mem_nil _, counts, ahead⟩
      | cons t rest =>
          have zero : s.depth = 0 := by
            rcases outside with ended | zero
            · rw [ahead] at ended
              cases ended
            · exact zero
          obtain ⟨leads, segment, outside'⟩ := attempt_spec ahead zero
          rw [ahead] at segment enough
          have fewer : s.attempt.stop.ahead.length ≤ bound := by
            have shorter := (readSegment_cons_suffix t rest).length_le
            rw [segment] at shorter
            exact Nat.le_trans shorter (Nat.le_of_succ_le_succ enough)
          obtain ⟨same, starts, last⟩ := ih (counts.leads leads) outside' fewer
          rw [attempts_of_cons ahead]
          refine ⟨?_, ?_, last⟩
          · rw [segmentsWithin, segment, List.map_cons, ← same]
            rw [Attempt.segment, start_attempt, ahead]
          · rw [List.forall_mem_cons, start_attempt]
            exact ⟨⟨rfl, counts, zero⟩, starts⟩

end Tracker

-- ============================================================== results

/-- No statement from inside a block is ever promoted to top level. A
program is read with a tracker, attempt by attempt, as it is read without
one. After each token the tracker's count is the brace depth of the text
up to there. Every attempt starts at a place outside all braces of the
text, however many statements before it were malformed, and the
statements of the program are those of the attempts that succeed. A
statement that is read with a tracker, at top level or in a block, is
read without one too. It is a stretch of tokens that closes the braces it
opens, and leaves the count where it was. -/
theorem statements_outermost (ts : List Token) :
    let run := (Tracker.start ts).attempts ts.length
    segments ts = run.1.map Attempt.segment
      ∧ (Listing.ofTokens ts).program = run.1.filterMap (·.reading.toOption)
      ∧ run.2.trail = (List.range ts.length).map
        (fun k => braceDepth 0 (ts.take (k + 1)))
      ∧ (∀ a ∈ run.1, a.start.depth = 0 ∧ a.start.ahead = ts.drop a.start.passed
        ∧ braceDepth 0 (ts.take a.start.passed) = 0)
      ∧ (∀ a ∈ run.1, ∀ stmt, a.reading = .ok stmt → a.stop.depth = 0
        ∧ ∀ depth, braceDepth depth a.segment.tokens = depth)
      ∧ ∀ n s stmt s', trackStmt n s = .ok stmt s' →
        readStmtWithin n s.ahead = .ok (stmt, s'.ahead) ∧ s'.depth = s.depth
          ∧ ∃ front, s.ahead = front ++ s'.ahead ∧ ∀ depth,
          braceDepth depth front = depth := by
  intro run
  obtain ⟨same, starts, counts, ended⟩ :
      segments ts = run.1.map Attempt.segment
        ∧ (∀ a ∈ run.1,
          a = a.start.attempt ∧ a.start.Counts ts ∧ a.start.depth = 0)
        ∧ run.2.Counts ts ∧ run.2.ahead = [] :=
    Tracker.attempts_spec (.start ts) (.inr rfl) (Nat.le_refl ts.length)
  refine ⟨same, ?_, ?_, ?_, ?_, ?_⟩
  · show (segments ts).filterMap Segment.stmt? = _
    rw [same, List.filterMap_map]
    rfl
  · -- the trail has one entry for each token passed, and all are
    have all_passed : run.2.passed = ts.length := by
      have none_left := counts.ahead
      rw [ended] at none_left
      exact Nat.le_antisymm counts.within
        (List.drop_eq_nil_iff.1 none_left.symm)
    rw [← all_passed]
    exact counts.trail
  · intro a mem
    obtain ⟨-, counted, zero⟩ := starts a mem
    exact ⟨zero, counted.ahead, counted.depth.symm.trans zero⟩
  · intro a mem stmt read
    obtain ⟨eq, -, zero⟩ := starts a mem
    rw [eq] at read
    have balanced := Tracker.attempt_balanced read
    rw [← eq, zero] at balanced
    exact balanced
  · intro n s stmt s' read
    have follows := (tracked n).stmt s
    rw [read] at follows
    exact ⟨follows.of_ok.1, trackStmt_depth read⟩

/-- In `if { let b = true } let c = true` the conditional is malformed.
The `let` in its block is passed over, and reading starts again at the
one behind the block. -/
theorem statements_outermost_abandoned_block :
    let ts : List Token :=
      [.keyword .ifWord, .symbol .openBrace, .keyword .letWord, .ident "b",
        .symbol .assign, .keyword .trueWord, .symbol .closeBrace,
        .keyword .letWord, .ident "c", .symbol .assign, .keyword .trueWord]
    let run := (Tracker.start ts).attempts ts.length
    (Listing.ofTokens ts).program = [.bind "c" (.bool true)]
      ∧ ∃ a ∈ run.1,
      a.reading = .ok (.bind "c" (.bool true)) ∧ a.start.passed = 7
        ∧ a.start.depth = 0 ∧ a.stop.depth = 0 := by
  intro ts run
  have last : run.1.getLast?.map (fun a => (a.reading.toOption, a.start.passed))
      = some (some (.bind "c" (.bool true)), 7) := by decide +kernel
  obtain ⟨a, is_last, eq⟩ := Option.map_eq_some_iff.1 last
  have mem : a ∈ run.1 := List.mem_of_getLast? is_last
  obtain ⟨is_stmt, place⟩ := Prod.mk.inj eq
  have read : a.reading = .ok (.bind "c" (.bool true)) := by
    cases reading : a.reading with
    | ok stmt =>
        rw [reading] at is_stmt
        cases is_stmt
        rfl
    | error cause =>
        rw [reading] at is_stmt
        cases is_stmt
  obtain ⟨-, -, -, starts, stops, -⟩ := statements_outermost ts
  exact ⟨rfl, a, mem, read, place, (starts a mem).1, (stops a mem _ read).1⟩

end Scriptlet
