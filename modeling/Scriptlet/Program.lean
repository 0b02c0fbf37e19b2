/-
Reading whole programs.

The statements of a program are the segments that could be read, and its
diagnostics are the causes of those that could not, both in source order.
So a malformed statement leaves a gap and never stops the reading.

A `Parser` is a program text in the course of being read: the tokens
still ahead and the diagnostics so far. Reading takes all the tokens at
once; what is left is a parser at the end of its input, which reads as
the empty program and keeps its diagnostics.
-/
import Scriptlet.Program.Segment
import Scriptlet.Token.Scan

namespace Scriptlet

-- ============================================ statements, diagnostics

/-- The statement of a segment, if it could be read. -/
def Segment.stmt? (segment : Segment) : Option Stmt :=
  segment.reading.toOption

/-- The diagnostic of a segment, if it could not be read. -/
def Segment.diagnostic? (segment : Segment) : Option Diagnostic :=
  match segment.reading with
  | .ok _ => none
  | .error cause => some cause

/-- A program as far as it could be read, and what is wrong with the
rest. -/
structure Listing where
  program : Program
  diagnostics : List Diagnostic
  deriving DecidableEq

/-- Reads a program from tokens. -/
def Listing.ofTokens (ts : List Token) : Listing :=
  let parts := segments ts
  ⟨parts.filterMap Segment.stmt?, parts.filterMap Segment.diagnostic?⟩

namespace Listing

@[simp]
theorem ofTokens_nil : ofTokens [] = ⟨[], []⟩ := rfl

theorem ofTokens_of_ok {t : Token} {ts rest : List Token} {s : Stmt}
    (h : readStmt (t :: ts) = .ok (s, rest)) :
    ofTokens (t :: ts) = ⟨s :: (ofTokens rest).program,
      (ofTokens rest).diagnostics⟩ := by
  have segment : readSegment (t :: ts) = (.ok s, rest) := by
    unfold readSegment
    rw [h]
  unfold ofTokens
  rw [segments_cons, segment]
  rfl

theorem ofTokens_of_error {t : Token} {ts : List Token} {failure : Failure}
    (h : readStmt (t :: ts) = .error failure) :
    ofTokens (t :: ts) =
      let rest := resync ((t :: ts).length - failure.rest.length) 0 (t :: ts)
      ⟨(ofTokens rest).program,
        failure.cause :: (ofTokens rest).diagnostics⟩ := by
  have segment : readSegment (t :: ts) =
      (.error failure.cause,
        resync ((t :: ts).length - failure.rest.length) 0 (t :: ts)) := by
    unfold readSegment
    rw [h]
  unfold ofTokens
  rw [segments_cons, segment]
  rfl

/-- Induction along the statements of a token list: on what lies behind a
statement that was read, and on where reading starts again behind one
that was not. -/
theorem ofTokens_induction {motive : List Token → Prop} (nil : motive [])
    (ok : ∀ {t : Token} {ts rest : List Token} {s : Stmt},
      readStmt (t :: ts) = .ok (s, rest) → motive rest → motive (t :: ts))
    (error : ∀ {t : Token} {ts : List Token} {failure : Failure},
      readStmt (t :: ts) = .error failure →
      motive (resync ((t :: ts).length - failure.rest.length) 0 (t :: ts)) →
      motive (t :: ts))
    (ts : List Token) : motive ts := by
  induction n : ts.length using Nat.strongRecOn generalizing ts with
  | ind n ih =>
      cases ts with
      | nil => exact nil
      | cons t tail =>
          cases read : readStmt (t :: tail) with
          | ok result =>
              have takes := readStmt_takes (t :: tail)
              rw [read] at takes
              exact ok read (ih _ (Nat.lt_of_lt_of_eq takes.2 n) _ rfl)
          | error failure =>
              have shorter := (resync_cons_suffix
                  ((t :: tail).length - failure.rest.length) 0 t tail)
                |>.length_le
              rw [List.length_cons] at n
              exact error read (ih _ (by omega) _ rfl)

end Listing

/-- Reads a program from its source. -/
def Listing.ofSource (source : String) : Listing :=
  ofTokens (tokenize source)

-- ============================================================= parsers

/-- A program text in the course of being read. -/
structure Parser where
  pending : List Token
  diagnostics : List Diagnostic

namespace Parser

/-- A parser at the start of a source. -/
def ofSource (source : String) : Parser :=
  ⟨tokenize source, []⟩

/-- Reads all that is pending, whatever is wrong with it. -/
def readProgram (p : Parser) : Program × Parser :=
  let listing := Listing.ofTokens p.pending
  (listing.program, ⟨[], p.diagnostics ++ listing.diagnostics⟩)

/-- Reads all that is pending and gives the program only if nothing is
wrong, now or in an earlier reading; otherwise gives all diagnostics. -/
def readClean (p : Parser) : Except (List Diagnostic) Program × Parser :=
  let (program, p) := p.readProgram
  (if p.diagnostics.isEmpty then .ok program else .error p.diagnostics, p)

end Parser

/-- Diagnostics as one text, a line for each. -/
def Diagnostic.report (diagnostics : List Diagnostic) : String :=
  "\n".intercalate (diagnostics.map Diagnostic.message)

end Scriptlet
