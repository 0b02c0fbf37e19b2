/-
The first diagnostic is about the earliest token that it can be about.

A token list is viable if some tokens behind it make it a program in
which nothing is wrong (`Viable`). The first diagnostic of a text is
about the token behind its longest viable stretch, or about the end of
the text if all of it is viable. An expression ends without a word where
the next token does not carry it on, and that token is refused only as
the start of a statement; it is the same token.

# The argument

`FirstFault front back d` says that the text `front ++ back` goes wrong
between the two: `front` is viable, and whatever text has `front` and
then the next token of `back` has the same first diagnostic `d`. Where a
statement could not be read, the tokens before the refused one can be
completed (`completable_of_failure`), and reading depends on no token
behind it (`local_readStmt`). A statement that was read is put in front
(`FirstFault.prepend`). It may stand before a completion of what follows
because that begins with the same token, or else nothing follows and the
statement is a program alone.
-/
import Scriptlet.Proofs.Read.Completion

namespace Scriptlet

-- =========================================================== viability

/-- Some tokens, all of them such as scanning gives, make a program of
these in which nothing is wrong. -/
def Viable (front : List Token) : Prop :=
  ∃ more : List Token, (∀ t ∈ more, t.Scanned)
    ∧ (Listing.ofTokens (front ++ more)).diagnostics = []

/-- The front of a program, in terms of trees. -/
theorem viable_iff {front : List Token} : Viable front ↔
    ∃ more : List Token, (∀ t ∈ more, t.Scanned) ∧ ∃ p, IsProgram
      (front ++ more) p := by
  refine exists_congr fun more => and_congr_right fun _ =>
    ⟨fun clean => ?_, fun program => ?_⟩
  · exact ⟨_, isProgram_of_clean _ clean⟩
  · obtain ⟨p, phrase⟩ := program
    rw [(isProgram_iff _ p).1 phrase]

/-- What can be completed to a statement can be completed to a program. -/
private theorem Part.Completable.viable {done : List Token}
    (h : Part.stmt.Completable done) :
    Viable done := by
  obtain ⟨more, scanned, covers⟩ := h
  obtain ⟨s, phrase⟩ := covers [] (.inl rfl)
  rw [List.append_nil] at phrase
  exact viable_iff.2 ⟨more, scanned, [s], .stmts phrase (.noStmts [])⟩

/-- A statement before what is viable. -/
private theorem Derives.viable {s : Stmt} {ts front back : List Token}
    (phrase : Derives (.stmt s) ts (front ++ back)) (viable : Viable front) :
    ∃ first, ts = first ++ (front ++ back) ∧ Viable (first ++ front) := by
  obtain ⟨first, eq, again⟩ := phrase.front
  refine ⟨first, eq, viable_iff.2 ?_⟩
  -- what completes `front` may begin with a token that would carry the
  -- statement on, so it is of use only behind a token that was seen
  cases front with
  | nil =>
      have alone := again [] (.inr (.inl rfl))
      refine ⟨[], by simp, [s], ?_⟩
      rw [List.append_nil]
      exact .stmts alone (.noStmts [])
  | cons t tail =>
      obtain ⟨more, scanned, p, program⟩ := viable_iff.1 viable
      refine ⟨more, scanned, s :: p, ?_⟩
      rw [List.append_assoc]
      exact .stmts (again _ (.inl rfl)) program

-- ========================================================= first faults

/-- The text `front ++ back` goes wrong between the two: `front` is
viable, and the next token gives `d` whatever is behind it. -/
structure FirstFault (front back : List Token) (d : Diagnostic) : Prop where
  viable : Viable front
  refused (back' : List Token) (next : back'.head? = back.head?) :
    (Listing.ofTokens (front ++ back')).diagnostics.head? = some d
  found : d.blamed = back.head?
  unfit {digits : String} (large : d = .tooLarge digits) :
    Word.ofDigits? digits = none

namespace FirstFault

variable {t : Token} {ts : List Token}

/-- A statement that could not be read. -/
private theorem of_error {failure : Failure}
    (failed : readStmt (t :: ts) = .error failure) :
    ∃ front, t :: ts = front ++ failure.unread
      ∧ FirstFault front failure.unread failure.cause := by
  obtain ⟨justified, front, eq, again⟩ := (local_readStmt _).error failed
  obtain ⟨done, eq', completable⟩ := completable_of_failure failed
  obtain rfl : done = front := List.append_cancel_right (eq'.symm.trans eq)
  refine ⟨done, eq, completable.viable, fun back' next => ?_, justified.found,
    justified.unfit⟩
  obtain ⟨failure', failed', same⟩ := again back' next
  have starts : (done ++ back').head? = some t := by
    rw [head?_append_congr next, ← eq]
    rfl
  obtain ⟨tail, cons⟩ := List.head?_eq_some_iff.1 starts
  rw [cons] at failed' ⊢
  rw [Listing.ofTokens_of_error failed', ← same]
  rfl

/-- A statement that was read, before a text that goes wrong. -/
private theorem prepend {s : Stmt} {front back : List Token} {d : Diagnostic}
    (read : readStmt (t :: ts) = .ok (s, front ++ back))
    (fault : FirstFault front back d) :
    ∃ first, t :: ts = first ++ back ∧ FirstFault first back d := by
  obtain ⟨first, eq, again⟩ := (local_readStmt _).ok read
  obtain ⟨first', eq', viable⟩ := (derives_of_readStmt read).viable fault.viable
  obtain rfl : first' = first := List.append_cancel_right (eq'.symm.trans eq)
  refine ⟨first' ++ front, by rw [eq, List.append_assoc], viable,
    fun back' next => ?_, fault.found, fault.unfit⟩
  have next' : (front ++ back').head? = (front ++ back).head? :=
    head?_append_congr next front
  have read' := again _ next'
  have starts : (first' ++ (front ++ back')).head? = some t := by
    rw [head?_append_congr next', ← eq]
    rfl
  obtain ⟨tail, cons⟩ := List.head?_eq_some_iff.1 starts
  rw [List.append_assoc]
  rw [cons] at read' ⊢
  rw [Listing.ofTokens_of_ok read']
  exact fault.refused back' next

end FirstFault

/-- The first diagnostic is about the first token at which the tokens stop
being the front of a program. -/
theorem exists_firstFault {ts : List Token} {d : Diagnostic}
    (first : (Listing.ofTokens ts).diagnostics.head? = some d) :
    ∃ front back, ts = front ++ back ∧ FirstFault front back d := by
  induction ts using Listing.ofTokens_induction with
  | nil => cases first
  | ok read ih =>
      rw [Listing.ofTokens_of_ok read] at first
      obtain ⟨front, back, rfl, fault⟩ := ih first
      obtain ⟨front', eq, fault'⟩ := fault.prepend read
      exact ⟨front', back, eq, fault'⟩
  | error failed _ =>
      rw [Listing.ofTokens_of_error failed] at first
      cases first
      obtain ⟨front, eq, fault⟩ := FirstFault.of_error failed
      exact ⟨front, _, eq, fault⟩

-- ============================================================= results

/-- The words of a diagnostic are about a token, or about the end of the
text. -/
def Diagnostic.Mentions (d : Diagnostic) (t : Option Token) : Prop :=
  (∃ wanted : Wanted, d.message =
      "expected next token to be `" ++ wanted.kind ++ "`, got `" ++ Token.kindOf
        t ++ "` instead")
    ∨ d.message = "no prefix parse function for `"
      ++ Token.displayOf t ++ "` found"
    ∨ ∃ digits, t = some (.int digits) ∧ 2 ^ 63 - 1 < decimal digits
      ∧ d.message = "could not parse `" ++ digits ++ "` as integer"

private theorem ofDigits?_eq_none_iff {digits : String} :
    Word.ofDigits? digits = none ↔ 2 ^ 63 - 1 < decimal digits := by
  show (if decimal digits < Word.tooLarge then some _ else none) = none ↔ _
  rw [ite_eq_right_iff]
  unfold Word.tooLarge
  refine ⟨fun unfit => ?_, fun large fits => by omega⟩
  refine Nat.lt_of_not_le fun small => ?_
  cases unfit (by omega)

private theorem FirstFault.mentions {front back : List Token} {d : Diagnostic}
    (fault : FirstFault front back d) : d.Mentions back.head? := by
  rw [← fault.found]
  cases d with
  | expected wanted found => exact .inl ⟨wanted, rfl⟩
  | noOperand found => exact .inr (.inl rfl)
  | tooLarge digits =>
      exact .inr (.inr ⟨digits, rfl,
        ofDigits?_eq_none_iff.1 (fault.unfit rfl), rfl⟩)

/-- The first diagnostic is about the token behind the longest viable
stretch of the text, and says which it is. One token more, and no tokens
at all make a program of it. -/
theorem first_diagnostic_earliest (ts : List Token) (d : Diagnostic)
    (first : (Listing.ofTokens ts).diagnostics.head? = some d) :
    ∃ k ≤ ts.length, Viable (ts.take k)
      ∧ (∀ j ≤ ts.length, k < j → ∀ more : List Token,
          (Listing.ofTokens (ts.take j ++ more)).diagnostics ≠ [])
      ∧ d.blamed = ts[k]? ∧ d.Mentions ts[k]? := by
  obtain ⟨front, back, rfl, fault⟩ := exists_firstFault first
  have here : (front ++ back)[front.length]? = back.head? := by
    rw [List.getElem?_append_right (Nat.le_refl _), Nat.sub_self,
      List.head?_eq_getElem?]
  refine ⟨front.length, by simp, ?_,
    fun j inside longer more clean => ?_, ?_, ?_⟩
  · rw [List.take_left]
    exact fault.viable
  · -- a longer stretch has the refused token in the same place
    obtain ⟨i, rfl⟩ : ∃ i, j = front.length + (i + 1) :=
      ⟨j - front.length - 1, by omega⟩
    rw [List.take_length_add_append, List.append_assoc] at clean
    have next : (back.take (i + 1) ++ more).head? = back.head? := by
      cases back with
      | nil =>
          rw [List.append_nil] at inside
          omega
      | cons t tail => rfl
    have refused := fault.refused _ next
    rw [clean] at refused
    cases refused
  · rw [here, fault.found]
  · rw [here]
    exact fault.mentions

/-- In `a + b } let = 1` the brace is to blame, though `a + b` ended
before it without complaint. -/
theorem first_diagnostic_earliest_brace :
    let ts : List Token :=
      [.ident "a", .symbol .plus, .ident "b", .symbol .closeBrace,
        .keyword .letWord, .symbol .assign, .int "1"]
    let d : Diagnostic := .noOperand (some (.symbol .closeBrace))
    (Listing.ofTokens ts).diagnostics.head? = some d ∧ Viable (ts.take 3)
      ∧ (∀ more, (Listing.ofTokens (ts.take 4 ++ more)).diagnostics ≠ [])
        ∧ d.Mentions ts[3]? := by
  intro ts d
  have first : (Listing.ofTokens ts).diagnostics.head? = some d := by decide
  obtain ⟨k, inside, viable, refused, found, mentions⟩ :=
    first_diagnostic_earliest ts d first
  have only_brace : ∀ i ≤ ts.length, d.blamed = ts[i]? → i = 3 := by decide
  obtain rfl : k = 3 := only_brace k inside found
  exact ⟨first, viable, refused 4 (by decide) (by decide), mentions⟩

end Scriptlet
