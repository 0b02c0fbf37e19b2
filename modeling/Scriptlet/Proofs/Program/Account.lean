/-
Every token is accounted for.

However malformed the tokens of a program are, reading it ends, and what
it gives can be charged to the tokens: the attempts to read a statement
cut the list into stretches, none of them empty, and each stretch has
given one statement or cost one diagnostic. So a program never has more
statements and diagnostics together than tokens. After the last attempt
nothing is left, and to read on gives nothing more.

That the stretches make up the list is a fact about segments alone
(`tokens_segments`). That the attempts which a tracker makes are these
segments has been shown before (`Tracker.attempts_spec`), and that the
attempts and all that is called for them come to an end is where the
reader is watched (`watched_program`).
-/
import Scriptlet.Proofs.Program.Outermost
import Scriptlet.Proofs.Read.Recursion

namespace Scriptlet

-- ============================================================ segments

/-- Induction along the segments of a token list. -/
theorem segments_induction {motive : List Token → Prop} (nil : motive [])
    (cons : ∀ t ts, motive (readSegment (t :: ts)).2 → motive (t :: ts))
    (ts : List Token) :
    motive ts := by
  induction size : ts.length using Nat.strongRecOn generalizing ts with
  | ind size ih =>
      cases ts with
      | nil => exact nil
      | cons t rest =>
          have shorter := (readSegment_cons_suffix t rest).length_le
          rw [List.length_cons] at size
          exact cons t rest (ih _ (by omega) _ rfl)

/-- No token is lost and none is counted twice. -/
theorem tokens_segments (ts : List Token) :
    (segments ts).flatMap Segment.tokens = ts := by
  induction ts using segments_induction with
  | nil => rfl
  | cons t rest ih =>
      have suffix := (readSegment_cons_suffix t rest).trans
          (List.suffix_cons t rest)
      rw [segments_cons, List.flatMap_cons, ih]
      exact List.suffix_iff_eq_append.1 suffix

private theorem tokens_ne_nil_of_mem_segments (ts : List Token)
    {segment : Segment} (mem : segment ∈ segments ts) :
    segment.tokens ≠ [] := by
  induction ts using segments_induction with
  | nil => cases mem
  | cons t rest ih =>
      rw [segments_cons, List.mem_cons] at mem
      rcases mem with rfl | later
      · have shorter := (readSegment_cons_suffix t rest).length_le
        intro empty
        have none_taken := congrArg List.length empty
        rw [List.length_take, List.length_cons, List.length_nil] at none_taken
        omega
      · exact ih later

/-- A segment gives a statement or a diagnostic, and not both. -/
private theorem Segment.gives_one (segment : Segment) :
    xor segment.stmt?.isSome segment.diagnostic?.isSome = true := by
  obtain ⟨tokens, reading⟩ := segment
  cases reading with
  | ok stmt => rfl
  | error cause => rfl

private theorem length_segments (ts : List Token) :
    (segments ts).length ≤ ts.length := by
  induction ts using segments_induction with
  | nil => exact Nat.le_refl _
  | cons t rest ih =>
      have shorter := (readSegment_cons_suffix t rest).length_le
      rw [segments_cons, List.length_cons, List.length_cons]
      omega

/-- So statements and diagnostics together are as many as segments. -/
theorem length_stmts_add_length_diagnostics (parts : List Segment) :
    (parts.filterMap Segment.stmt?).length
      + (parts.filterMap Segment.diagnostic?).length
      = parts.length := by
  induction parts with
  | nil => rfl
  | cons part parts ih =>
      obtain ⟨tokens, reading⟩ := part
      rw [List.length_cons, ← ih]
      cases reading with
      | ok stmt =>
          show (stmt :: parts.filterMap Segment.stmt?).length
              + (parts.filterMap Segment.diagnostic?).length = _
          rw [List.length_cons]
          omega
      | error cause =>
          show (parts.filterMap Segment.stmt?).length
              + (cause :: parts.filterMap Segment.diagnostic?).length = _
          rw [List.length_cons]
          omega

-- ============================================================== result

/-- Reading a program ends and accounts for every token. No reader is
entered again while it is at work unless a token has been taken since.
The attempts at top level go on until nothing is ahead and the next token
passed is the end. They cut the tokens into stretches, none of them
empty, each of which gives one statement or one diagnostic, in this
order; so there are no more of these than tokens. To read on gives
nothing and changes nothing. -/
theorem Parser.readProgram_accounts (p : Parser) :
    let ts := p.pending
    let run := (Tracker.start ts).attempts ts.length
    let program := p.readProgram.1
    let after := p.readProgram.2
    (∀ other more, watched other (depthBound ts + more) [] .program ts
        = .ok (Listing.ofTokens ts, []))
      ∧ run.2.ahead = [] ∧ run.2.next.cur = none
      ∧ run.1.flatMap (·.segment.tokens) = ts
      ∧ (∀ a ∈ run.1, a.segment.tokens ≠ []
        ∧ xor a.segment.stmt?.isSome a.segment.diagnostic?.isSome = true)
      ∧ program = run.1.filterMap (·.segment.stmt?)
      ∧ after.diagnostics = p.diagnostics ++ run.1.filterMap
        (·.segment.diagnostic?)
      ∧ program.length + after.diagnostics.length
        = p.diagnostics.length + run.1.length
      ∧ run.1.length ≤ ts.length
      ∧ after.readProgram = ([], after)
      ∧ after.readClean
        = (if after.diagnostics.isEmpty then .ok []
          else .error after.diagnostics, after) := by
  intro ts run program after
  obtain ⟨same, -, -, ended⟩ :
      segments ts = run.1.map Attempt.segment
        ∧ (∀ a ∈ run.1,
          a = a.start.attempt ∧ a.start.Counts ts ∧ a.start.depth = 0)
        ∧ run.2.Counts ts ∧ run.2.ahead = [] :=
    Tracker.attempts_spec (.start ts) (.inr rfl) (Nat.le_refl ts.length)
  have stmts : program = run.1.filterMap (·.segment.stmt?) := by
    show (segments ts).filterMap Segment.stmt? = _
    rw [same, List.filterMap_map]
    rfl
  have diagnostics : (segments ts).filterMap Segment.diagnostic?
      = run.1.filterMap (·.segment.diagnostic?) := by
    rw [same, List.filterMap_map]
    rfl
  have number : (segments ts).length = run.1.length := by
    rw [same, List.length_map]
  -- no token is left, so a second reading sees the empty program
  have nothing_more : after.readProgram = ([], after) := by
    show (([] : Program), (⟨[], after.diagnostics ++ []⟩ : Parser))
        = ([], after)
    rw [List.append_nil]
    rfl
  refine ⟨fun other more => ?_, ended, ?_, ?_,
    fun a mem => ⟨?_, a.segment.gives_one⟩, stmts, ?_, ?_, ?_, nothing_more, ?_⟩
  · exact watched_program other (Nat.le_add_right _ more)
  · rw [Tracker.next, ended]
  · have whole := tokens_segments ts
    rw [same, List.flatMap_map] at whole
    exact whole
  · refine tokens_ne_nil_of_mem_segments ts ?_
    rw [same]
    exact List.mem_map_of_mem mem
  · show p.diagnostics ++ (segments ts).filterMap Segment.diagnostic? = _
    rw [diagnostics]
  · show _ + (p.diagnostics ++ (segments ts).filterMap
        Segment.diagnostic?).length = _
    have together := length_stmts_add_length_diagnostics (segments ts)
    rw [number] at together
    rw [List.length_append, ← together]
    show ((segments ts).filterMap Segment.stmt?).length + _ = _
    omega
  · rw [← number]
    exact length_segments ts
  · rw [Parser.readClean, nothing_more]

/-- `let = 1; ( } return` has two malformed statements and one that can
be read. Even if it is watched, and every call that repeats another is
answered by a failure, this is what it is read as. -/
theorem Parser.readProgram_accounts_malformed :
    let p : Parser :=
      ⟨[.keyword .letWord, .symbol .assign, .int "1", .symbol .semicolon,
        .symbol .openParen, .symbol .closeBrace, .keyword .returnWord], []⟩
    let run := (Tracker.start p.pending).attempts p.pending.length
    watched (fun _ _ => .error ⟨.noOperand none, []⟩)
          (depthBound p.pending + 1) [] .program p.pending
        = .ok (⟨[.ret none], [.expected .name (some (.symbol .assign)),
          .noOperand (some (.symbol .closeBrace))]⟩, [])
      ∧ run.1.map (·.segment.tokens.length) = [4, 2, 1]
      ∧ p.readProgram.1.length + p.readProgram.2.diagnostics.length = 3
      ∧ p.readProgram.2.readProgram = ([], p.readProgram.2) := by
  intro p run
  obtain ⟨ends, -, -, -, -, -, -, together, -, again, -⟩ :=
    p.readProgram_accounts
  have listing : Listing.ofTokens p.pending = ⟨[.ret none],
      [.expected .name (some (.symbol .assign)),
        .noOperand (some (.symbol .closeBrace))]⟩ :=
    by decide +kernel
  have sizes : run.1.map (·.segment.tokens.length) = [4, 2, 1] :=
    by decide +kernel
  have three : run.1.length = 3 := by
    rw [← List.length_map (·.segment.tokens.length), sizes]
    rfl
  refine ⟨?_, sizes, ?_, again⟩
  · rw [ends, listing]
  · rw [together, three]
    rfl

end Scriptlet
