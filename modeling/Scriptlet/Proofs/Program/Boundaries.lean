/-
Errors do not cascade.

However much is wrong with a stretch of tokens, it costs one diagnostic.
What separates two diagnostics is a boundary: a place outside all braces
where a statement can end, and with something behind it. Hence there is
at most one diagnostic more than there are boundaries.

# The argument

Every segment starts outside all braces, counted from the start of the
text: a statement that was read is balanced (`Derives.balanced_front`),
and the search for the end of a malformed one stops outside the braces it
counted itself. So the search and the text agree on the depth, and the
token with which a malformed statement ends is the end of the text or a
boundary of the text. Boundaries of different segments are different,
which is what the induction counts.

`isBoundary` is said of a place in the text by what stands there, and
without a look at reading or at the search.
-/
import Scriptlet.Proofs.Read.Front

namespace Scriptlet

-- ========================================================== boundaries

/-- The tokens that carry a statement on behind a closing brace. -/
def statementCarriers : List Token :=
  [.symbol .semicolon, .keyword .elseWord, .symbol .openParen, .symbol .plus,
    .symbol .minus, .symbol .star, .symbol .slash, .symbol .less,
    .symbol .greater, .symbol .equal,
    .symbol .notEqual]

/-- Whether a statement can end between two tokens, outside all braces. -/
def Token.partedFrom (t next : Token) : Bool :=
  t = .symbol .semicolon
    || (t = .symbol .closeBrace && !statementCarriers.contains next)
    || (next = .keyword .letWord || next = .keyword .returnWord)

/-- Whether the token at a place is the last one before a boundary: it is
not the last of all, it leaves no brace open, and a statement can end
with it. -/
def isBoundary (ts : List Token) (i : Nat) : Bool :=
  match ts[i]?, ts[i + 1]? with
  | some t, some next => braceDepth 0 (ts.take (i + 1)) = 0 && t.partedFrom next
  | _, _ => false

/-- The number of boundaries in a token list. -/
def boundaries (ts : List Token) : Nat :=
  (List.range ts.length).countP (isBoundary ts)

private theorem Token.startsStatement_eq (t : Token) :
    t.startsStatement
      = (t = .keyword .letWord || t = .keyword .returnWord) := by
  cases t with
  | keyword k => cases k <;> rfl
  | illegal | ident | int | str | symbol => simp [startsStatement]

/-- The listed tokens are those that the reader goes on at. -/
private theorem Token.contains_statementCarriers (t : Token) :
    statementCarriers.contains t = t.continuesStatement := by
  cases t with
  | symbol s => cases s <;> rfl
  | keyword k => cases k <;> rfl
  | illegal | ident | int | str => simp [statementCarriers, continuesStatement]

/-- The search for the end of a malformed statement stops where two
tokens are parted. -/
private theorem endsSegment_some (t next : Token) :
    endsSegment t (some next) = t.partedFrom next := by
  unfold endsSegment Token.partedFrom
  rw [Option.any_some, Option.any_some, next.contains_statementCarriers,
    next.startsStatement_eq]

-- =================================================== counted from within

section
variable {front rest : List Token}

/-- Counting braces goes on from where it was. -/
theorem braceDepth_append (depth : Nat) (front rest : List Token) :
    braceDepth depth (front ++ rest)
      = braceDepth (braceDepth depth front) rest :=
  List.foldl_append

/-- Behind a stretch that leaves no brace open the boundaries are those
of the rest. -/
private theorem isBoundary_append (closed : braceDepth 0 front = 0) (i : Nat) :
    isBoundary (front ++ rest) (front.length + i) = isBoundary rest i := by
  have depth : braceDepth 0 ((front ++ rest).take (front.length + i + 1))
      = braceDepth 0 (rest.take (i + 1)) := by
    rw [Nat.add_assoc, List.take_length_add_append, braceDepth_append, closed]
  unfold isBoundary
  rw [depth, Nat.add_assoc, List.getElem?_append_right (Nat.le_add_right _ _),
    List.getElem?_append_right (Nat.le_add_right _ _), Nat.add_sub_cancel_left,
    Nat.add_sub_cancel_left]

theorem boundaries_append (closed : braceDepth 0 front = 0) :
    boundaries (front ++ rest)
      = (List.range front.length).countP
        (isBoundary (front ++ rest)) + boundaries rest := by
  unfold boundaries
  rw [List.length_append, List.range_add, List.countP_append, List.countP_map]
  congr 1
  refine List.countP_congr fun i _ => ?_
  rw [Function.comp_apply, isBoundary_append closed]

/-- A front outside all braces only adds boundaries. -/
private theorem boundaries_le_append (closed : braceDepth 0 front = 0) :
    boundaries rest ≤ boundaries (front ++ rest) := by
  rw [boundaries_append closed]
  exact Nat.le_add_left _ _

/-- Two tokens parted outside all braces are one boundary more than those
behind. -/
private theorem boundaries_lt_append {t next : Token}
    (closed : braceDepth 0 (front ++ [t]) = 0)
    (parted : t.partedFrom next = true) :
    boundaries (next :: rest) < boundaries (front ++ t :: next :: rest) := by
  have taken : (front ++ [t] ++ next :: rest).take (front.length + 1)
      = front ++ [t] :=
    List.take_left' (by simp)
  have here :
      isBoundary (front ++ [t] ++ next :: rest) front.length = true := by
    unfold isBoundary
    rw [taken]
    simp [closed, parted]
  have inside : front.length ∈ List.range (front ++ [t]).length := by simp
  have counted := List.countP_pos_iff.2 ⟨front.length, inside, here⟩
  rw [List.append_cons, boundaries_append closed]
  omega

end

-- ============================================================ one segment

/-- The search for the end of a malformed statement ends with the text,
or where two tokens are parted outside the braces it counts. -/
private theorem resync_stops (taken depth : Nat) (ts : List Token) :
    resync taken depth ts = [] ∨ ∃ front t next tail,
      ts = front ++ t :: next :: tail ∧ resync taken depth ts = next :: tail
        ∧ braceDepth depth (front ++ [t]) = 0 ∧ t.partedFrom next = true := by
  induction ts generalizing taken depth with
  | nil => exact .inl rfl
  | cons t rest ih =>
      rw [resync_cons]
      split
      · next stop =>
          cases rest with
          | nil => exact .inl rfl
          | cons next tail =>
              have parted := stop.2.2
              rw [List.head?_cons, endsSegment_some] at parted
              exact .inr ⟨[], t, next, tail, rfl, rfl, stop.2.1, parted⟩
      · rcases ih (taken - 1) (t.depthAfter depth) with ended | stopped
        · exact .inl ended
        · obtain ⟨front, last, next, tail, eq, left, closed, parted⟩ := stopped
          exact .inr ⟨t :: front, last, next, tail, congrArg (t :: ·) eq, left,
            closed, parted⟩

-- ============================================================= results

/-- Each segment but the last ends at a boundary, and it has at most one
diagnostic. -/
theorem length_diagnostics_le_boundaries (ts : List Token) :
    (Listing.ofTokens ts).diagnostics.length ≤ boundaries ts + 1 := by
  induction ts using Listing.ofTokens_induction with
  | nil => exact Nat.zero_le _
  | ok read ih =>
      obtain ⟨front, split, balanced⟩ :=
        (derives_of_readStmt read).balanced_front
      rw [Listing.ofTokens_of_ok read, split]
      exact Nat.le_trans ih (Nat.succ_le_succ
        (boundaries_le_append (balanced 0)))
  | @error t tail failure failed ih =>
      rw [Listing.ofTokens_of_error failed]
      rcases resync_stops ((t :: tail).length - failure.rest.length) 0
        (t :: tail) with ended | stopped
      · -- the malformed statement goes on to the end of the text
        dsimp only
        rw [ended]
        exact Nat.succ_le_succ (Nat.zero_le _)
      · obtain ⟨front, last, next, behind, split, left, closed, parted⟩ :=
          stopped
        rw [left] at ih
        have one_more :
            boundaries (next :: behind)
              < boundaries (front ++ last :: next :: behind) :=
          boundaries_lt_append closed parted
        dsimp only
        rw [left, split, List.length_cons]
        omega

/-- There is at most one diagnostic more than there are boundaries. A
text without a boundary has at most one, whatever is wrong with it. -/
theorem length_diagnostics_le (ts : List Token) :
    (Listing.ofTokens ts).diagnostics.length ≤ boundaries ts + 1
      ∧ (boundaries ts = 0 → (Listing.ofTokens ts).diagnostics.length ≤ 1) := by
  have bound := length_diagnostics_le_boundaries ts
  refine ⟨bound, fun none_inside => ?_⟩
  rw [none_inside] at bound
  exact bound

/-- Three things are wrong with `fn(1) { let = ; { ) } ; let let } + ]`,
and it has no boundary, although braces are closed and keywords stand in
it. -/
theorem length_diagnostics_le_nested :
    let ts : List Token :=
      [.keyword .fnWord, .symbol .openParen, .int "1", .symbol .closeParen,
        .symbol .openBrace, .keyword .letWord, .symbol .assign,
        .symbol .semicolon, .symbol .openBrace, .symbol .closeParen,
        .symbol .closeBrace, .symbol .semicolon, .keyword .letWord,
        .keyword .letWord, .symbol .closeBrace, .symbol .plus,
        .symbol .closeBracket]
    boundaries ts = 0 ∧ (Listing.ofTokens ts).diagnostics ≠ []
      ∧ (Listing.ofTokens ts).diagnostics.length ≤ 1 := by
  intro ts
  have none_inside : boundaries ts = 0 := by decide
  exact ⟨none_inside, by decide, (length_diagnostics_le ts).2 none_inside⟩

end Scriptlet
