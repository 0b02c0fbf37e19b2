/-
Cutting a token list into top-level statements, malformed ones included.

A token list is a sequence of segments: each is one statement, or one
stretch of tokens that could not be read as a statement and costs one
diagnostic. No token is lost: the segments put together are the list.

# Where a malformed statement ends

The tokens of a malformed statement are skipped up to a place where a
statement can end outside all braces (`endsSegment`). Braces are counted
from the first token of the statement, also through those tokens that
were read before the failure; a closing brace too many counts for
nothing. The search starts with the last token that was taken when the
statement failed, not before it, and ends with the input at the latest.
-/
import Scriptlet.Expr.Read.Progress

namespace Scriptlet

-- ============================================================= braces

/-- The brace depth after a token. -/
def Token.depthAfter (depth : Nat) : Token → Nat
  | .symbol .openBrace => depth + 1
  | .symbol .closeBrace => depth - 1
  | _ => depth

/-- The brace depth after some tokens, where a closing brace at depth
zero leaves it at zero. -/
def braceDepth (depth : Nat) (ts : List Token) : Nat :=
  ts.foldl Token.depthAfter depth

-- ========================================================= boundaries

/-- Whether a statement that has just closed a brace goes on with this
token: a semicolon, an `else`, an operator or a call suffix. -/
def Token.continuesStatement : Token → Bool
  | .symbol .semicolon => true
  | .symbol .openParen => true
  | .symbol s => (BinaryOp.ofSymbol? s).isSome
  | .keyword .elseWord => true
  | _ => false

/-- Whether a token can only start a statement. -/
def Token.startsStatement : Token → Bool
  | .keyword .letWord => true
  | .keyword .returnWord => true
  | _ => false

/-- Whether a statement outside all braces may end with `t`, given the
token that follows: at a semicolon, at a closing brace that nothing
continues, and before a token that starts a statement. -/
def endsSegment (t : Token) (next : Option Token) : Bool :=
  t = .symbol .semicolon
    || (t = .symbol .closeBrace && !next.any Token.continuesStatement)
    || next.any Token.startsStatement

/-- Skips the tokens of a malformed statement. The first `taken` of them
had been taken when it failed, and `depth` is the brace depth before
them. -/
def resync : (taken depth : Nat) → List Token → List Token
  | _, _, [] => []
  | taken, depth, t :: rest =>
      let depth := t.depthAfter depth
      if taken ≤ 1 ∧ depth = 0 ∧ endsSegment t rest.head? then rest
      else resync (taken - 1) depth rest

theorem resync_cons (taken depth : Nat) (t : Token) (rest : List Token) :
    resync taken depth (t :: rest) =
      if taken ≤ 1 ∧ t.depthAfter depth = 0 ∧ endsSegment t rest.head? then rest
      else resync (taken - 1) (t.depthAfter depth) rest := rfl

/-- Skipping leaves a suffix. -/
theorem resync_suffix (taken depth : Nat) (ts : List Token) :
    resync taken depth ts <:+ ts := by
  induction ts generalizing taken depth with
  | nil => exact List.suffix_refl _
  | cons t rest ih =>
      simp only [resync]
      split
      · exact List.suffix_cons t rest
      · exact (ih _ _).trans (List.suffix_cons t rest)

/-- Skipping drops at least one token. -/
theorem resync_cons_suffix (taken depth : Nat) (t : Token) (ts : List Token) :
    resync taken depth (t :: ts) <:+ ts := by
  simp only [resync]
  split
  · exact List.suffix_refl ts
  · exact resync_suffix _ _ ts

-- =========================================================== segments

/-- The tokens of one top-level statement and what they were read as. -/
structure Segment where
  tokens : List Token
  reading : Except Diagnostic Stmt

/-- Reads the first statement of a token list, or says what is wrong with
it, and gives the tokens behind the statement. -/
def readSegment (ts : List Token) : Except Diagnostic Stmt × List Token :=
  match readStmt ts with
  | .ok (stmt, rest) => (.ok stmt, rest)
  | .error failure =>
      (.error failure.cause, resync (ts.length - failure.rest.length) 0 ts)

/-- What lies behind the first segment is a suffix of what lies behind
its first token. -/
theorem readSegment_cons_suffix (t : Token) (ts : List Token) :
    (readSegment (t :: ts)).2 <:+ ts := by
  have takes := readStmt_takes (t :: ts)
  unfold readSegment
  cases eq : readStmt (t :: ts) with
  | error failure => exact resync_cons_suffix _ _ t ts
  | ok result =>
      rw [eq] at takes
      obtain ⟨suffix, shorter⟩ := takes
      rcases List.suffix_cons_iff.1 suffix with same | behind
      · rw [same, List.length_cons] at shorter
        omega
      · exact behind

/-- The segments of a token list, at most `bound` of them. -/
def segmentsWithin : Nat → List Token → List Segment
  | 0, _ => []
  | _ + 1, [] => []
  | bound + 1, t :: ts =>
      let (reading, rest) := readSegment (t :: ts)
      ⟨(t :: ts).take ((t :: ts).length - rest.length),
        reading⟩ :: segmentsWithin bound rest

/-- The segments of a token list. Each takes at least one token, so the
length of the list bounds their number. -/
def segments (ts : List Token) : List Segment :=
  segmentsWithin ts.length ts

/-- Any bound from the number of tokens on gives the same segments. -/
theorem segmentsWithin_eq_segments {bound : Nat} {ts : List Token}
    (h : ts.length ≤ bound) :
    segmentsWithin bound ts = segments ts := by
  suffices all : ∀ m n : Nat, ∀ ts : List Token, ts.length ≤ m → ts.length ≤ n →
      segmentsWithin m ts = segmentsWithin n ts from
    all bound ts.length ts h (Nat.le_refl _)
  intro m
  induction m with
  | zero =>
      intro n ts hm _
      have : ts = [] := List.length_eq_zero_iff.1 (Nat.le_zero.1 hm)
      subst this
      cases n <;> rfl
  | succ m ih =>
      intro n ts hm hn
      cases ts with
      | nil => cases n <;> rfl
      | cons t ts =>
          cases n with
          | zero => cases hn
          | succ n =>
              have shorter := (readSegment_cons_suffix t ts).length_le
              rw [List.length_cons] at hm hn
              simp only [segmentsWithin]
              rw [ih n _ (by omega) (by omega)]

@[simp]
theorem segments_nil : segments [] = [] := rfl

/-- The equation that `segments` satisfies: take the first segment, go on
behind it. -/
theorem segments_cons (t : Token) (ts : List Token) :
    segments (t :: ts) =
      ⟨(t :: ts).take ((t :: ts).length - (readSegment (t :: ts)).2.length),
        (readSegment (t :: ts)).1⟩ :: segments (readSegment (t :: ts)).2 := by
  have shorter := (readSegment_cons_suffix t ts).length_le
  rw [← segmentsWithin_eq_segments shorter]
  rfl

end Scriptlet
