/-
Where reading goes on after a malformed statement.

A statement that starts with `let` or `return` outside all braces should
be read whatever stands before it: the search for the end of a malformed
statement stops before such a keyword. It does, as long as the keyword is
still ahead when the search starts. It is ahead if the statement fails
earlier, or at the keyword for want of a symbol or a name. It is not if
the keyword stands where an operand has to: there it has been taken when
the statement fails, the search starts behind it, and the statement it
starts is skipped with the malformed one.

# Which tokens break off

Whether that happens shows in the tokens before the keyword alone. Read
up to their end they break off where an operand is wanted
(`wantsOperand`): the last statement fails for want of one, or it is a
`return` alone, which needs no value at the end of the input but takes
what follows for one. For the tokens that do not break off so, every
statement behind them is read as it would be alone; for those that do,
there is always one that is not (`keeps_keyword_iff`).
-/
import Scriptlet.Proofs.Read.Continuation

namespace Scriptlet

-- ============================================================ breaking off

/-- A diagnostic about the end of the input, said of a text that goes on
with `k`. -/
def Diagnostic.before (k : Token) : Diagnostic → Diagnostic
  | .expected wanted none => .expected wanted (some k)
  | .noOperand none => .noOperand (some k)
  | other => other

private theorem Diagnostic.before_of_blamed {cause : Diagnostic}
    {t : Token} (k : Token) (about : cause.blamed = some t) :
    cause.before k = cause := by
  unfold Diagnostic.before
  split
  · cases about
  · cases about
  · rfl

namespace Failure.Resumes

variable {k : Token} {behind : List Token} {failure failure' : Failure}

/-- For want of an operand the keyword is taken. -/
private theorem of_noOperand (h : failure.Resumes k behind failure')
    (wants : failure.cause = .noOperand none) :
    failure.rest = [] ∧ failure' = ⟨.noOperand (some k), behind⟩ := by
  cases h with
  | expected => cases wants
  | noOperand => exact ⟨rfl, rfl⟩
  | blamed about =>
      dsimp only at wants
      rw [wants] at about
      cases about

/-- Otherwise it stays ahead. -/
private theorem of_ne (h : failure.Resumes k behind failure')
    (other : failure.cause ≠ .noOperand none) :
    failure' = ⟨failure.cause.before k, failure.rest ++ k :: behind⟩ := by
  cases h with
  | expected wanted => rfl
  | noOperand => exact absurd rfl other
  | blamed about => rw [Diagnostic.before_of_blamed k about]

end Failure.Resumes

/-- A segment in a text that goes on with `k`. -/
def Segment.before (k : Token) (segment : Segment) : Segment :=
  ⟨segment.tokens, segment.reading.mapError (Diagnostic.before k)⟩

/-- Whether a segment at the end of the input would take a keyword behind
it for an operand. -/
def Segment.wantsOperand (segment : Segment) : Bool :=
  match segment.reading with
  | .error cause => cause = .noOperand none
  | .ok _ => segment.tokens = [.keyword .returnWord]

/-- Whether the tokens break off where an operand is wanted. -/
def wantsOperand (ts : List Token) : Bool :=
  (segments ts).getLast?.any Segment.wantsOperand

-- ============================================================= skipping

/-- Skipping starts behind the tokens that were taken, but for the last
of them. -/
theorem resync_of_taken (ts us : List Token) (taken depth : Nat) :
    resync (ts.length + (taken + 1)) depth (ts ++ us)
      = resync (taken + 1) (braceDepth depth ts) us := by
  induction ts generalizing depth with
  | nil => rw [List.length_nil, Nat.zero_add]; rfl
  | cons t rest ih =>
      have far : ¬ ((t :: rest).length + (taken + 1) ≤ 1) := by
        rw [List.length_cons]
        omega
      have one_less : (t :: rest).length + (taken + 1) - 1
          = rest.length + (taken + 1) := by
        rw [List.length_cons]
        omega
      rw [List.cons_append, resync_cons,
        if_neg fun stop => far stop.1, one_less]
      exact ih (t.depthAfter depth)

/-- When all tokens were taken nothing is left. -/
theorem resync_length (ts : List Token) (depth : Nat) :
    resync ts.length depth ts = [] := by
  induction ts generalizing depth with
  | nil => rfl
  | cons t rest ih =>
      rw [resync_cons, List.length_cons]
      split
      · next stop => exact List.length_eq_zero_iff.1 (by omega)
      · exact ih (t.depthAfter depth)

section
variable {k : Token} (hk : k.startsStatement = true) {ts : List Token}
include hk

/-- A search that starts before the keyword stops there at the latest. -/
private theorem resync_before_keyword {taken depth : Nat}
    (closed : braceDepth depth ts = 0) (starts : ts ≠ [])
    (within : taken ≤ ts.length) (behind : List Token) :
    resync taken depth (ts ++ k :: behind)
      = resync taken depth ts ++ k :: behind
      ∧ braceDepth 0 (resync taken depth ts) = 0 := by
  induction ts generalizing taken depth with
  | nil => exact absurd rfl starts
  | cons t rest ih =>
      have rest_closed : braceDepth (t.depthAfter depth) rest = 0 := closed
      rw [List.length_cons] at within
      cases rest with
      | nil =>
          -- the last token before the keyword
          have ends : endsSegment t (some k) = true := by
            simp only [endsSegment, Option.any_some, hk, Bool.or_true]
          have stop : resync taken depth (t :: k :: behind) = k :: behind := by
            rw [resync_cons, if_pos ⟨within, rest_closed, ends⟩]
          have none_left : resync taken depth [t] = [] := by
            rw [resync_cons]
            split
            · rfl
            · rfl
          rw [List.singleton_append, stop, none_left]
          exact ⟨rfl, rfl⟩
      | cons second rest =>
          have same_next : (second :: rest ++ k :: behind).head?
              = (second :: rest).head? := rfl
          rw [List.cons_append, resync_cons taken depth t (second :: rest),
            resync_cons taken depth t (second :: rest ++ k :: behind),
            same_next]
          by_cases stop : taken ≤ 1 ∧ t.depthAfter depth = 0
              ∧ endsSegment t (second :: rest).head? = true
          · rw [if_pos stop, if_pos stop]
            rw [stop.2.1] at rest_closed
            exact ⟨rfl, rest_closed⟩
          · rw [if_neg stop, if_neg stop]
            exact ih rest_closed (List.cons_ne_nil _ _) (by omega)

-- ======================================================== one statement

theorem readStmt_resumes (closed : braceDepth 0 ts = 0) (starts : ts ≠ [])
    (valued : ts ≠ [.keyword .returnWord]) (behind : List Token) :
    Resumes k behind (leaving (k :: behind)) (fun a => braceDepth 0 a.2 = 0)
      (readStmt ts) (readStmt (ts ++ k :: behind)) := by
  have longer : depthBound ts ≤ depthBound (ts ++ k :: behind) := by
    unfold depthBound
    rw [List.length_append]
    omega
  have both := (resumed hk behind (depthBound (ts ++ k :: behind))).stmt closed
      starts (.inl valued)
  rw [readStmtWithin_eq_readStmt longer] at both
  exact both

omit hk in
private theorem readStmt_bare_return :
    readStmt [.keyword .returnWord] = .ok (.ret none, []) :=
  Unbounded.readStmt_bare rfl

/-- A keyword is no value for a `return`. -/
private theorem readStmt_return_keyword (behind : List Token) :
    readStmt (.keyword .returnWord :: k :: behind)
      = .error ⟨.noOperand (some k), behind⟩ := by
  rcases Token.eq_let_or_return hk with rfl | rfl
  · rfl
  · rfl

-- ========================================================== one segment

omit hk in
theorem readSegment_of_ok {stmt : Stmt} {rest : List Token}
    (eq : readStmt ts = .ok (stmt, rest)) :
    readSegment ts = (.ok stmt, rest) := by
  unfold readSegment
  rw [eq]

omit hk in
theorem readSegment_of_error {failure : Failure}
    (eq : readStmt ts = .error failure) :
    readSegment ts = (.error failure.cause, resync
      (ts.length - failure.rest.length) 0 ts) := by
  unfold readSegment
  rw [eq]

/-- Tokens that are one statement and want an operand: the keyword is
taken for it. -/
private theorem readStmt_of_wantsOperand (closed : braceDepth 0 ts = 0)
    (starts : ts ≠ []) (wants : Segment.wantsOperand ⟨ts, (readSegment ts).1⟩
      = true) (behind : List Token) :
    (readSegment ts).2 = []
      ∧ readStmt (ts ++ k :: behind)
        = .error ⟨.noOperand (some k), behind⟩ := by
  by_cases bare : ts = [.keyword .returnWord]
  · subst bare
    rw [readSegment_of_ok readStmt_bare_return]
    exact ⟨rfl, readStmt_return_keyword hk behind⟩
  have both := readStmt_resumes hk closed starts bare behind
  cases eq : readStmt ts with
  | ok a =>
      rw [readSegment_of_ok eq] at wants
      exact absurd (of_decide_eq_true wants) bare
  | error failure =>
      rw [readSegment_of_error eq] at wants ⊢
      rw [eq] at both
      obtain ⟨failure', resumes, eq'⟩ := both
      obtain ⟨none_left, rfl⟩ := resumes.of_noOperand (of_decide_eq_true wants)
      rw [none_left]
      exact ⟨resync_length ts 0, eq'⟩

private theorem readSegment_append_of_wantsOperand
    (closed : braceDepth 0 ts = 0) (starts : ts ≠ [])
    (wants : Segment.wantsOperand ⟨ts, (readSegment ts).1⟩
      = true) (behind : List Token) :
    readSegment (ts ++ k :: behind)
      = (.error (.noOperand (some k)), resync 1 0 (k :: behind)) := by
  have fails := (readStmt_of_wantsOperand hk closed starts wants behind).2
  have taken : (ts ++ k :: behind).length - behind.length
      = ts.length + (0 + 1) := by
    rw [List.length_append, List.length_cons]
    omega
  rw [readSegment_of_error fails]
  dsimp only
  rw [taken, resync_of_taken, closed]

/-- All other tokens: what is left of them still stands before the
keyword. -/
theorem readSegment_append (closed : braceDepth 0 ts = 0) (starts : ts ≠ [])
    (complete : Segment.wantsOperand ⟨ts, (readSegment ts).1⟩ = false)
    (behind : List Token) :
    readSegment (ts ++ k :: behind)
        = ((readSegment ts).1.mapError
          (Diagnostic.before k), (readSegment ts).2 ++ k :: behind)
      ∧ braceDepth 0 (readSegment ts).2 = 0 := by
  have valued : ts ≠ [.keyword .returnWord] := by
    rintro rfl
    rw [readSegment_of_ok readStmt_bare_return] at complete
    cases complete
  have both := readStmt_resumes hk closed starts valued behind
  cases eq : readStmt ts with
  | ok a =>
      rw [eq] at both
      obtain ⟨left_closed, eq'⟩ := both
      rw [readSegment_of_ok eq, readSegment_of_ok eq']
      exact ⟨rfl, left_closed⟩
  | error failure =>
      rw [eq] at both
      obtain ⟨failure', resumes, eq'⟩ := both
      rw [readSegment_of_error eq] at complete ⊢
      obtain rfl := resumes.of_ne (of_decide_eq_false complete)
      -- as many tokens were taken as without the keyword
      have taken : (ts ++ k :: behind).length
          - (failure.rest ++ k :: behind).length
          = ts.length - failure.rest.length := by
        rw [List.length_append, List.length_append, Nat.add_sub_add_right]
      obtain ⟨same, left_closed⟩ := resync_before_keyword hk closed starts
        (Nat.sub_le ts.length failure.rest.length) behind
      rw [readSegment_of_error eq']
      dsimp only
      rw [taken, same]
      exact ⟨rfl, left_closed⟩

-- ========================================================= all segments

omit hk in
private theorem segments_eq_nil {ts : List Token} (h : segments ts = []) :
    ts = [] := by
  cases ts with
  | nil => rfl
  | cons t tail =>
      rw [segments_cons] at h
      cases h

omit hk in
/-- Whether the tokens break off is seen behind the first statement, if
it does not break off itself. -/
private theorem wantsOperand_cons {t : Token}
    (complete : Segment.wantsOperand ⟨t :: ts, (readSegment (t :: ts)).1⟩
      = false) :
    wantsOperand (t :: ts) = wantsOperand (readSegment (t :: ts)).2 := by
  unfold wantsOperand
  rw [segments_cons]
  cases others : segments (readSegment (t :: ts)).2 with
  | nil =>
      rw [segments_eq_nil others, List.length_nil, Nat.sub_zero,
        List.take_length]
      exact complete
  | cons second rest => rw [List.getLast?_cons_cons]

/-- Tokens that are one statement and want an operand: the keyword and
what is skipped with it belong to that statement. -/
private theorem segments_append_of_wantsOperand (closed : braceDepth 0 ts = 0)
    (starts : ts ≠ []) (wants : Segment.wantsOperand ⟨ts, (readSegment ts).1⟩
      = true) (behind : List Token) :
    segments ts = [⟨ts, (readSegment ts).1⟩]
      ∧ ∃ tokens, segments (ts ++ k :: behind)
        = ⟨tokens, .error (.noOperand (some k))⟩ :: segments
          (resync 1 0 (k :: behind)) := by
  have last := (readStmt_of_wantsOperand hk closed starts wants behind).1
  have first := readSegment_append_of_wantsOperand hk closed starts wants behind
  obtain ⟨t, tail, rfl⟩ := List.exists_cons_of_ne_nil starts
  constructor
  · rw [segments_cons, last, List.length_nil, Nat.sub_zero, List.take_length,
      segments_nil]
  · rw [List.cons_append] at first ⊢
    rw [segments_cons, first]
    exact ⟨_, rfl⟩

/-- Otherwise the first segment has the tokens it had. -/
private theorem segments_cons_append {t : Token}
    (closed : braceDepth 0 (t :: ts) = 0)
    (complete :
      Segment.wantsOperand ⟨t :: ts, (readSegment (t :: ts)).1⟩ = false)
    (behind : List Token) :
    segments (t :: ts ++ k :: behind)
      = Segment.before k ⟨(t :: ts).take
        ((t :: ts).length - (readSegment (t :: ts)).2.length),
          (readSegment (t :: ts)).1⟩
        :: segments ((readSegment (t :: ts)).2 ++ k :: behind) := by
  have first :=
    (readSegment_append hk closed (List.cons_ne_nil t ts) complete behind).1
  have tokens : (t :: ts ++ k :: behind).take
      ((t :: ts ++ k :: behind).length
        - ((readSegment (t :: ts)).2 ++ k :: behind).length)
      = (t :: ts).take
        ((t :: ts).length - (readSegment (t :: ts)).2.length) := by
    rw [List.length_append, List.length_append, Nat.add_sub_add_right,
      List.take_append_of_le_length (Nat.sub_le _ _)]
  rw [List.cons_append] at first tokens ⊢
  rw [segments_cons, first]
  dsimp only
  rw [tokens]
  rfl

/-- The segments of a text that goes on with a keyword. Unless the text
breaks off they are those of the two parts. If it does, the last one
takes in the keyword and all that is skipped behind it. -/
theorem segments_append (closed : braceDepth 0 ts = 0) (behind : List Token) :
    (wantsOperand ts = false →
      segments (ts ++ k :: behind)
        = (segments ts).map (Segment.before k) ++ segments (k :: behind))
    ∧ (wantsOperand ts = true →
      ∃ tokens, segments (ts ++ k :: behind)
        = (segments ts).dropLast.map (Segment.before k)
          ++ ⟨tokens, .error (.noOperand (some k))⟩ :: segments
            (resync 1 0 (k :: behind))) := by
  induction n : ts.length using Nat.strongRecOn generalizing ts with
  | ind n ih =>
      rcases ts with _ | ⟨t, tail⟩
      · exact ⟨fun _ => rfl, fun wants => absurd wants (by decide)⟩
      have starts : t :: tail ≠ [] := List.cons_ne_nil t tail
      cases wants : Segment.wantsOperand ⟨t :: tail,
        (readSegment (t :: tail)).1⟩ with
      | true =>
          -- then it is the last segment, and the keyword belongs to it
          obtain ⟨alone, taken⟩ := segments_append_of_wantsOperand hk closed
              starts wants behind
          have whole : wantsOperand (t :: tail) = true := by
            unfold wantsOperand
            rw [alone]
            exact wants
          rw [whole, alone]
          exact ⟨nofun, fun _ => taken⟩
      | false =>
          have left_closed :=
            (readSegment_append hk closed starts wants behind).2
          have shorter := (readSegment_cons_suffix t tail).length_le
          obtain ⟨complete, breaks⟩ := ih (readSegment (t :: tail)).2.length
            (by rw [List.length_cons] at n; omega) left_closed rfl
          rw [wantsOperand_cons wants, segments_cons_append hk closed wants,
            segments_cons]
          constructor
          · intro complete_rest
            rw [complete complete_rest]
            rfl
          · intro wants_rest
            obtain ⟨tokens, eq⟩ := breaks wants_rest
            have more : segments (readSegment (t :: tail)).2 ≠ [] := by
              intro none_left
              rw [segments_eq_nil none_left] at wants_rest
              cases wants_rest
            refine ⟨tokens, ?_⟩
            rw [eq, List.dropLast_cons_of_ne_nil more]
            rfl

end

-- ============================================================= results

/-- What follows the keyword in `let name = true;`. -/
def trueAs (name : String) : List Token :=
  [.ident name, .symbol .assign, .keyword .trueWord, .symbol .semicolon]

theorem program_let_trueAs (name : String) :
    (Listing.ofTokens (.keyword .letWord :: trueAs name)).program
      = [.bind name (.bool true)] :=
  rfl

/-- Behind tokens that break off such a statement leaves no trace in the
program. -/
theorem program_append_of_wantsOperand {ts : List Token}
    (closed : braceDepth 0 ts = 0) (wants : wantsOperand ts = true) :
    ∃ program : Program, ∀ name,
      (Listing.ofTokens (ts ++ .keyword .letWord :: trueAs name)).program
        = program := by
  let complete := (segments ts).dropLast.map
      (Segment.before (.keyword .letWord))
  refine ⟨complete.filterMap Segment.stmt?, fun name => ?_⟩
  obtain ⟨tokens, parts⟩ :=
    (segments_append (k := .keyword .letWord) rfl closed (trueAs name)).2 wants
  have skipped : resync 1 0 (.keyword .letWord :: trueAs name) = [] := rfl
  rw [skipped, segments_nil] at parts
  show (segments (ts ++ .keyword .letWord :: trueAs name)).filterMap
      Segment.stmt? = _
  rw [parts, List.filterMap_append]
  exact List.append_nil _

/-- Recovery keeps the statements that start with a keyword outside all
braces: exactly behind the tokens that do not break off where an operand
is wanted. -/
theorem keeps_keyword_iff {ts : List Token} (closed : braceDepth 0 ts = 0) :
    (∀ (k : Token) (behind : List Token), k.startsStatement = true →
      (Listing.ofTokens (k :: behind)).program
          <:+ (Listing.ofTokens (ts ++ k :: behind)).program
        ∧ (Listing.ofTokens (k :: behind)).diagnostics
          <:+ (Listing.ofTokens (ts ++ k :: behind)).diagnostics)
    ↔ wantsOperand ts = false := by
  constructor
  · intro keeps
    rw [Bool.eq_false_iff]
    intro wants
    obtain ⟨program, same⟩ := program_append_of_wantsOperand closed wants
    have ends (name : String) : [Stmt.bind name (.bool true)] <:+ program := by
      have kept := (keeps (.keyword .letWord) (trueAs name) rfl).1
      rw [same name, program_let_trueAs] at kept
      exact kept
    -- one program does not end with two different statements
    have within := List.suffix_of_suffix_length_le (ends "x") (ends "y")
        (Nat.le_refl _)
    have equal := within.eq_of_length rfl
    simp at equal
  · intro complete k behind keyword
    have parts := (segments_append keyword closed behind).1 complete
    have kept : segments (k :: behind) <:+ segments (ts ++ k :: behind) := by
      rw [parts]
      exact List.suffix_append _ _
    exact ⟨kept.filterMap _, kept.filterMap _⟩

/-- The tokens may be malformed, as `let { ; }` and `) 5` are before
`return x;`. -/
theorem keeps_keyword_iff_malformed :
    let ts : List Token :=
      [.keyword .letWord, .symbol .openBrace, .symbol .semicolon,
        .symbol .closeBrace, .symbol .closeParen, .int "5"]
    let behind : List Token := [.ident "x", .symbol .semicolon]
    braceDepth 0 ts = 0 ∧ wantsOperand ts = false
      ∧ (Listing.ofTokens ts).diagnostics ≠ []
      ∧ [Stmt.ret (some (.ident "x"))]
        <:+ (Listing.ofTokens
          (ts ++ .keyword .returnWord :: behind)).program := by
  intro ts behind
  have closed : braceDepth 0 ts = 0 := rfl
  have complete : wantsOperand ts = false := by decide
  refine ⟨closed, complete, by decide, ?_⟩
  exact ((keeps_keyword_iff closed).2 complete
    (.keyword .returnWord) behind rfl).1

/-- In `let x = let y = 10;` the second statement is lost. -/
theorem keyword_lost_in_initialiser :
    let ts : List Token := [.keyword .letWord, .ident "x", .symbol .assign]
    let behind : List Token :=
      [.ident "y", .symbol .assign, .int "10", .symbol .semicolon]
    braceDepth 0 ts = 0
      ∧ (Listing.ofTokens (.keyword .letWord :: behind)).program
        = [.bind "y" (.int 10)]
      ∧ (Listing.ofTokens (ts ++ .keyword .letWord :: behind)).program = []
      ∧ ¬ (Listing.ofTokens (.keyword .letWord :: behind)).program
        <:+ (Listing.ofTokens (ts ++ .keyword .letWord :: behind)).program := by
  intro ts behind
  have alone : (Listing.ofTokens (.keyword .letWord :: behind)).program
      = [.bind "y" (.int 10)] :=
    rfl
  have lost : (Listing.ofTokens (ts ++ .keyword .letWord :: behind)).program
      = [] := rfl
  refine ⟨rfl, alone, lost, ?_⟩
  rw [alone, lost]
  simp

end Scriptlet
