/-
A semicolon outside all braces cuts a program in two.

The statements and the diagnostics of the two parts are those of the
whole, however malformed either part is. Two things have to be seen. A
statement of the first part that can be read, or fails, does so without
a look at the second part: that is `unmoved`. And after a failure, the
search for the end of the statement does not run past the semicolon: it
starts at a token that was taken, which lies before the semicolon or is
the semicolon, and the semicolon is a place to stop.

The first part is used up statement by statement. What is left of it
after each is empty or ends with the same semicolon outside all braces
(`Cut`), so the argument can start again.
-/
import Scriptlet.Proofs.Read.Fence

namespace Scriptlet

/-- Nothing, or tokens that end with a semicolon outside all braces. -/
def Cut (ts : List Token) : Prop :=
  ts = [] ∨ Fenced (.symbol .semicolon) 0 ts

-- ==================================================== one statement

/-- The statement in front is read without a look behind the cut. -/
private theorem readStmt_extends {ts : List Token}
    (h : Fenced (.symbol .semicolon) 0 ts) (behind : List Token) :
    Extends behind (leaving behind) (fun a => Cut a.2) (readStmt ts)
      (readStmt (ts ++ behind)) := by
  have longer : depthBound ts ≤ depthBound (ts ++ behind) := by
    unfold depthBound
    rw [List.length_append]
    omega
  have both := (unmoved rfl behind (depthBound (ts ++ behind))).stmt h
      (.inr (.inr rfl))
  rw [readStmtWithin_eq_readStmt longer] at both
  show Extends _ _ _ _ (readStmtWithin (depthBound (ts ++ behind))
      (ts ++ behind))
  cases eq : readStmt ts with
  | error failure =>
      rw [eq] at both
      exact both
  | ok a =>
      rw [eq] at both
      refine ⟨?_, both.2⟩
      rcases both.1 with fenced | ⟨-, nil⟩
      · exact .inr fenced
      · exact .inl nil

/-- The search for the end of a malformed statement stops at the cut at
the latest. -/
private theorem resync_append {taken depth : Nat} {ts : List Token}
    (h : Fenced (.symbol .semicolon) depth ts) (within : taken ≤ ts.length)
    (behind : List Token) :
    Cut (resync taken depth ts)
      ∧ resync taken depth (ts ++ behind)
        = resync taken depth ts ++ behind := by
  induction ts generalizing taken depth with
  | nil => exact absurd h.last (by simp)
  | cons t rest ih =>
      rw [List.length_cons] at within
      cases rest with
      | nil =>
          -- the semicolon itself
          have same : t = .symbol .semicolon := Option.some.inj h.last
          subst same
          have zero : depth = 0 := h.closed
          have stop (rest : List Token) :
              resync taken depth (.symbol .semicolon :: rest) = rest := by
            rw [resync_cons, if_pos ⟨within, zero, rfl⟩]
          rw [List.cons_append, stop, stop]
          exact ⟨.inl rfl, rfl⟩
      | cons second rest =>
          have fenced := h.behind (List.cons_ne_nil second rest)
          have same_next : (second :: rest ++ behind).head?
              = (second :: rest).head? := rfl
          rw [List.cons_append, resync_cons taken depth t (second :: rest),
            resync_cons taken depth t (second :: rest ++ behind), same_next]
          by_cases stop : taken ≤ 1 ∧ t.depthAfter depth = 0
              ∧ endsSegment t (second :: rest).head? = true
          · rw [if_pos stop, if_pos stop]
            rw [stop.2.1] at fenced
            exact ⟨.inr fenced, rfl⟩
          · rw [if_neg stop, if_neg stop]
            exact ih fenced (by omega)

-- ================================================= whole programs

theorem ofTokens_append_of_cut {ts : List Token} (cut : Cut ts)
    (behind : List Token) :
    Listing.ofTokens (ts ++ behind) =
      ⟨(Listing.ofTokens ts).program ++ (Listing.ofTokens behind).program,
        (Listing.ofTokens ts).diagnostics
          ++ (Listing.ofTokens behind).diagnostics⟩ := by
  induction n : ts.length using Nat.strongRecOn generalizing ts with
  | ind n ih =>
      rcases cut with rfl | fenced
      · rfl
      · obtain ⟨t, tail, rfl⟩ := fenced.exists_cons
        have takes := readStmt_takes (t :: tail)
        have extended := readStmt_extends fenced behind
        cases eq : readStmt (t :: tail) with
        | ok a =>
            rw [eq] at takes extended
            obtain ⟨cut', eq'⟩ := extended
            have shorter := takes.2
            have rest := ih a.2.length (by omega) cut' rfl
            rw [List.cons_append] at eq' ⊢
            rw [Listing.ofTokens_of_ok eq, Listing.ofTokens_of_ok eq']
            show Listing.mk (a.1 :: (Listing.ofTokens (a.2 ++ behind)).program)
                _ = _
            rw [rest]
            rfl
        | error failure =>
            rw [eq] at takes extended
            have eq' : readStmt (t :: tail ++ behind) = _ := extended
            -- as many tokens were taken as without the second part
            have taken : (t :: tail ++ behind).length
                - (failure.rest ++ behind).length
                = (t :: tail).length - failure.rest.length := by
              rw [List.length_append, List.length_append, Nat.add_sub_add_right]
            obtain ⟨cut', same⟩ := resync_append fenced
              (Nat.sub_le (t :: tail).length failure.rest.length) behind
            have shorter := (resync_cons_suffix
              ((t :: tail).length - failure.rest.length) 0 t tail).length_le
            have rest := ih _ (by rw [List.length_cons] at n; omega) cut' rfl
            rw [List.cons_append] at eq' taken same ⊢
            rw [Listing.ofTokens_of_error eq, Listing.ofTokens_of_error eq']
            dsimp only
            rw [taken, same, rest]
            rfl

/-- A semicolon outside all braces isolates errors: what stands before
it and what stands behind it are read as if the other were not there. -/
theorem ofTokens_append_of_semicolon (ts behind : List Token)
    (last : ts.getLast? = some (.symbol .semicolon))
    (closed : braceDepth 0 ts = 0) :
    (Listing.ofTokens (ts ++ behind)).program
        = (Listing.ofTokens ts).program ++ (Listing.ofTokens behind).program
      ∧ (Listing.ofTokens (ts ++ behind)).diagnostics
        = (Listing.ofTokens ts).diagnostics
          ++ (Listing.ofTokens behind).diagnostics := by
  rw [ofTokens_append_of_cut (.inr ⟨last, closed⟩) behind]
  exact ⟨rfl, rfl⟩

/-- Both parts may be malformed, as in `let { ; } ;` before `} x`. -/
theorem ofTokens_append_of_semicolon_malformed :
    let ts : List Token :=
      [.keyword .letWord, .symbol .openBrace, .symbol .semicolon,
        .symbol .closeBrace, .symbol .semicolon]
    let behind : List Token := [.symbol .closeBrace, .ident "x"]
    ts.getLast? = some (.symbol .semicolon) ∧ braceDepth 0 ts = 0
      ∧ (Listing.ofTokens ts).diagnostics ≠ []
        ∧ (Listing.ofTokens behind).diagnostics ≠ []
      ∧ (Listing.ofTokens (ts ++ behind)).diagnostics
        = (Listing.ofTokens ts).diagnostics
          ++ (Listing.ofTokens behind).diagnostics := by
  intro ts behind
  have last : ts.getLast? = some (.symbol .semicolon) := rfl
  have closed : braceDepth 0 ts = 0 := rfl
  refine ⟨last, closed, ?_, ?_,
    (ofTokens_append_of_semicolon ts behind last closed).2⟩
  · decide
  · decide

end Scriptlet
