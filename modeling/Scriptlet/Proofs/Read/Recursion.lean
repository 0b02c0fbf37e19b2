/-
Reading never comes back to where it is.

Whatever the tokens, reading a program ends, because no function and no
loop of the reader is entered again, while it is still at work, before
the number of tokens ahead has gone down. This is shown of every run, not
of the functions one by one: a run is watched, and a call that would
break the rule is answered by somebody else (`watched`). Whoever answers,
the result is that of the reader (`watched_program`), so there was no
such call.

# The reader without its recursion

To watch a run one has to stand between a call and the called. So the
reader is written here with its calls left open (`body`): what a function
does with its tokens, given something that carries out the calls it
makes. The functions that are in use solve the equations of `body`
(`reads_eq_body`). A loop is a function that calls itself for the tokens
behind its first round.

# Ranks

A call on as many tokens goes down in the order program or block,
statement or arguments, expression, operand; any other call has fewer
tokens. With four places the rank `4 * tokens + place` goes down from
call to call, and that is all there is to know about who calls whom
(`body_congr`).
-/
import Scriptlet.Program
import Scriptlet.Proofs.Read.Unbounded

namespace Scriptlet

-- =============================================================== calls

/-- The functions and loops that read a program. -/
inductive Reader where
  | program
  | resync
  | block
  | stmt
  | args
  | moreArgs
  | expr
  | operand
  | tail
  | elseBranch
  | params
  | moreParams
  deriving DecidableEq

/-- The place of a reader among those that are called on the same
tokens. -/
def Reader.place : Reader → Nat
  | program | block => 4
  | stmt | args => 3
  | expr => 2
  | resync | moreArgs | operand | tail | elseBranch | params | moreParams => 1

/-- A call, but for the tokens. -/
inductive Call where
  | program
  | resync (taken depth : Nat)
  | block
  | stmt
  | args
  | moreArgs
  | expr (level : Nat)
  | operand
  | tail (level : Nat) (left : Expr)
  | elseBranch
  | params
  | moreParams

namespace Call

/-- The function that a call is a call of. -/
def reader : Call → Reader
  | program => .program
  | resync _ _ => .resync
  | block => .block
  | stmt => .stmt
  | args => .args
  | moreArgs => .moreArgs
  | expr _ => .expr
  | operand => .operand
  | tail _ _ => .tail
  | elseBranch => .elseBranch
  | params => .params
  | moreParams => .moreParams

/-- What a call reads. -/
abbrev Result : Call → Type
  | program => Listing
  | resync _ _ => Unit
  | block => Block
  | stmt => Stmt
  | args | moreArgs => List Expr
  | expr _ | operand | tail _ _ => Expr
  | elseBranch => Option Block
  | params | moreParams => List String

/-- How many tokens a call takes at least if it succeeds. -/
def least (ts : List Token) : Call → Nat
  | program | tail _ _ | elseBranch => 0
  | resync _ _ => min 1 ts.length
  | block | stmt | args | moreArgs | expr _ | operand | params | moreParams => 1

/-- What gets smaller from one call to the next: the tokens ahead count for
four places each. -/
def rank (c : Call) (ts : List Token) : Nat :=
  4 * ts.length + c.reader.place

end Call

/-- Something that carries out all calls. -/
abbrev Readers := (c : Call) → List Token → Reading (c.Result × List Token)

-- ================================================== the open recursion

/-- What each function does with its tokens if `R` carries out the calls
that it makes. -/
def body (R : Readers) : Readers
  | .program, ts =>
      match ts with
      | [] => .ok (⟨[], []⟩, [])
      | t :: ts =>
          match R .stmt (t :: ts) with
          | .ok (stmt, rest) => do
              let (listing, rest) ← R .program rest
              return (⟨stmt :: listing.program, listing.diagnostics⟩, rest)
          | .error failure => do
              let (_, rest) ← R (.resync
                  ((t :: ts).length - failure.rest.length) 0) (t :: ts)
              let (listing, rest) ← R .program rest
              return (⟨listing.program, failure.cause :: listing.diagnostics⟩,
                rest)
  | .resync taken depth, ts =>
      match ts with
      | [] => .ok ((), [])
      | t :: rest =>
          if taken ≤ 1 ∧ t.depthAfter depth = 0 ∧ endsSegment t rest.head?
            then .ok ((), rest)
          else R (.resync (taken - 1) (t.depthAfter depth)) rest
  | .block, ts =>
      match ts with
      | [] => missing (.symbol .closeBrace) []
      | .symbol .closeBrace :: rest => .ok ([], rest)
      | _ => do
          let (stmt, rest) ← R .stmt ts
          let (stmts, rest) ← R .block rest
          return (stmt :: stmts, rest)
  | .stmt, ts =>
      match ts with
      | .keyword .letWord :: rest => do
          let (name, rest) ← expectName rest
          let rest ← expect .assign rest
          let (value, rest) ← R (.expr lowestLevel) rest
          return (.bind name value, skipSemicolon rest)
      | .keyword .returnWord :: rest =>
          if endsReturn rest then
            .ok (.ret none, skipSemicolon rest)
          else do
            let (value, rest) ← R (.expr lowestLevel) rest
            return (.ret (some value), skipSemicolon rest)
      | _ => do
          let (value, rest) ← R (.expr lowestLevel) ts
          return (.expr value, skipSemicolon rest)
  | .args, ts =>
      match ts with
      | .symbol .closeParen :: rest => .ok ([], rest)
      | _ => do
          let (arg, rest) ← R (.expr lowestLevel) ts
          let (args, rest) ← R .moreArgs rest
          return (arg :: args, rest)
  | .moreArgs, ts =>
      match ts with
      | .symbol .comma :: rest => do
          let (arg, rest) ← R (.expr lowestLevel) rest
          let (args, rest) ← R .moreArgs rest
          return (arg :: args, rest)
      | _ => do
          let rest ← expect .closeParen ts
          return ([], rest)
  | .expr level, ts => do
      let (operand, rest) ← R .operand ts
      R (.tail level operand) rest
  | .operand, ts =>
      match ts with
      | .ident name :: rest => .ok (.ident name, rest)
      | .int digits :: rest =>
          match Word.ofDigits? digits with
          | some value => .ok (.int value, rest)
          | none => .error ⟨.tooLarge digits, rest⟩
      | .str body :: rest => .ok (.str body, rest)
      | .keyword .trueWord :: rest => .ok (.bool true, rest)
      | .keyword .falseWord :: rest => .ok (.bool false, rest)
      | .symbol .minus :: rest => do
          let (operand, rest) ← R (.expr unaryLevel) rest
          return (.unary .neg operand, rest)
      | .symbol .bang :: rest => do
          let (operand, rest) ← R (.expr unaryLevel) rest
          return (.unary .not operand, rest)
      | .symbol .openParen :: rest => do
          let (inner, rest) ← R (.expr lowestLevel) rest
          let rest ← expect .closeParen rest
          return (inner, rest)
      | .keyword .ifWord :: rest => do
          let rest ← expect .openParen rest
          let (test, rest) ← R (.expr lowestLevel) rest
          let rest ← expect .closeParen rest
          let rest ← expect .openBrace rest
          let (yes, rest) ← R .block rest
          let (no, rest) ← R .elseBranch rest
          return (.cond test yes no, rest)
      | .keyword .fnWord :: rest => do
          let rest ← expect .openParen rest
          let (params, rest) ← R .params rest
          let rest ← expect .openBrace rest
          let (body, rest) ← R .block rest
          return (.fn params body, rest)
      | _ => missingOperand ts
  | .tail level left, ts =>
      match ts with
      | .symbol s :: rest =>
          match BinaryOp.ofSymbol? s with
          | some op =>
              if level < op.level then do
                let (right, rest) ← R (.expr op.level) rest
                R (.tail level (.binary op left right)) rest
              else
                .ok (left, .symbol s :: rest)
          | none =>
              if s = .openParen then do
                let (args, rest) ← R .args rest
                R (.tail level (.call left args)) rest
              else
                .ok (left, .symbol s :: rest)
      | _ => .ok (left, ts)
  | .elseBranch, ts =>
      match ts with
      | .keyword .elseWord :: rest => do
          let rest ← expect .openBrace rest
          let (no, rest) ← R .block rest
          return (some no, rest)
      | _ => .ok (none, ts)
  | .params, ts =>
      match ts with
      | .symbol .closeParen :: rest => .ok ([], rest)
      | ts => do
          let (name, rest) ← expectName ts
          let (names, rest) ← R .moreParams rest
          return (name :: names, rest)
  | .moreParams, ts =>
      match ts with
      | .symbol .comma :: .ident name :: rest => do
          let (names, rest) ← R .moreParams rest
          return (name :: names, rest)
      | .symbol .comma :: rest => missing .name rest
      | ts => do
          let rest ← expect .closeParen ts
          return ([], rest)

/-- The functions in use, those with a bound at the bound `n`. -/
def readers (n : Nat) : Readers
  | .program, ts => .ok (Listing.ofTokens ts, [])
  | .resync taken depth, ts => .ok ((), resync taken depth ts)
  | .block, ts => readBlock n ts
  | .stmt, ts => readStmtWithin n ts
  | .args, ts => readArgs n ts
  | .moreArgs, ts => readMoreArgs n ts
  | .expr level, ts => readExpr n level ts
  | .operand, ts => readOperand n ts
  | .tail level left, ts => readTail n level left ts
  | .elseBranch, ts => readElse n ts
  | .params, ts => readParams ts
  | .moreParams, ts => readMoreParams ts

/-- The functions in use, each at the bound for its tokens. -/
def reads : Readers := fun c ts =>
  readers (depthBound ts) c ts

/-- A call takes as many tokens as it promises to. -/
theorem readers_takes (n : Nat) (c : Call) (ts : List Token) :
    Takes Prod.snd (c.least ts) ts (readers n c ts) := by
  cases c with
  | program => exact ⟨List.nil_suffix, Nat.zero_le _⟩
  | resync taken depth =>
      refine ⟨resync_suffix taken depth ts, ?_⟩
      cases ts with
      | nil => exact Nat.le_refl _
      | cons t rest =>
          exact Nat.succ_le_succ (resync_cons_suffix taken depth t
            rest).length_le
  | block => exact (progress n).block ts
  | stmt => exact (progress n).stmt ts
  | args => exact (progress n).args ts
  | moreArgs => exact (progress n).moreArgs ts
  | expr level => exact (progress n).expr level ts
  | operand => exact (progress n).operand ts
  | tail level left => exact (progress n).tail level left ts
  | elseBranch => exact (progress n).elseBranch ts
  | params => exact readParams_takes ts
  | moreParams => exact readMoreParams_takes ts

/-- A bound as large as the rank is large enough. -/
theorem readers_eq_reads {n : Nat} {c : Call} {ts : List Token}
    (enough : c.rank ts ≤ n) :
    readers n c ts = reads c ts := by
  cases c with
  | program => rfl
  | resync taken depth => rfl
  | block => exact Unbounded.readBlock_eq enough
  | stmt => exact Unbounded.readStmtWithin_eq enough
  | args => exact Unbounded.readArgs_eq enough
  | moreArgs => exact Unbounded.readMoreArgs_eq enough
  | expr level => exact Unbounded.readExpr_eq level enough
  | operand => exact Unbounded.readOperand_eq enough
  | tail level left => exact Unbounded.readTail_eq level left enough
  | elseBranch => exact Unbounded.readElse_eq enough
  | params => rfl
  | moreParams => rfl

/-- Each function is its body, over the functions with a smaller bound. -/
private theorem readers_succ (n : Nat) {c : Call} (ne : c ≠ .program)
    (ts : List Token) :
    readers (n + 1) c ts = body (readers n) c ts := by
  cases c with
  | program => exact absurd rfl ne
  | resync taken depth =>
      cases ts with
      | nil => rfl
      | cons t rest =>
          show Except.ok ((), resync taken depth (t :: rest)) = _
          rw [resync_cons]
          simp only [body]
          split <;> rfl
  | block => rfl
  | stmt => rfl
  | args => rfl
  | moreArgs => rfl
  | expr level => rfl
  | operand => rfl
  | tail level left => rfl
  | elseBranch => rfl
  | params => rfl
  | moreParams =>
      show readMoreParams ts = _
      rw [readMoreParams.eq_def]
      rfl

-- ========================================================== agreement

/-- Two that carry out calls agree on fewer tokens than `k`, and the
first one takes tokens as the reader does. -/
structure AgreeBelow (R R' : Readers) (k : Nat) : Prop where
  takes : ∀ (c : Call) (ts : List Token),
      Takes Prod.snd (c.least ts) ts (R c ts)
  same : ∀ (c : Call) (ts : List Token), ts.length < k → R c ts = R' c ts

namespace AgreeBelow

variable {R R' : Readers} {k : Nat} {β : Type} {us : List Token}

/-- A call on fewer tokens leaves fewer, so what agrees on them may
follow. -/
private theorem call (agree : AgreeBelow R R' k) (c : Call)
    (fewer : us.length < k) {f g : c.Result × List Token → Reading β}
    (then_same : ∀ a, a.2.length < k → f a = g a) :
    (R c us >>= f) = (R' c us >>= g) :=
  (agree.takes c us).bind_congr (agree.same c us fewer) fun a shorter =>
    then_same a (by omega)

/-- Behind a symbol there are fewer tokens, so what follows may differ
anywhere else. -/
private theorem expect (s : Symbol) (fewer : us.length ≤ k)
    {f g : List Token → Reading β}
    (then_same : ∀ rest, rest.length < k → f rest = g rest) :
    (Scriptlet.expect s us >>= f) = (Scriptlet.expect s us >>= g) :=
  (expect_takes s us).bind_congr rfl fun rest
    (shorter : rest.length + 1 ≤ us.length) =>
      then_same rest (by omega)

/-- Behind a name likewise. -/
private theorem expectName (fewer : us.length ≤ k)
    {f g : String × List Token → Reading β}
    (then_same : ∀ a, a.2.length < k → f a = g a) :
    (Scriptlet.expectName us >>= f) = (Scriptlet.expectName us >>= g) :=
  (expectName_takes us).bind_congr rfl fun a shorter => then_same a (by omega)

/-- The first call may be on all tokens, if it takes one. -/
private theorem first (agree : AgreeBelow R R' us.length) {c : Call}
    (same : R c us = R' c us) (takes_one : c.least us = 1)
    {f g : c.Result × List Token → Reading β}
    (then_same : ∀ a, a.2.length < us.length → f a = g a) :
    (R c us >>= f) = (R' c us >>= g) :=
  (agree.takes c us).bind_congr same fun a shorter => then_same a (by omega)

/-- What an operand consists of comes behind its first token. -/
private theorem operand (agree : AgreeBelow R R' us.length) :
    body R .operand us = body R' .operand us := by
  simp only [body]
  split <;> try rfl
  · exact agree.call (.expr unaryLevel) (Nat.lt_succ_self _) fun _ _ => rfl
  · exact agree.call (.expr unaryLevel) (Nat.lt_succ_self _) fun _ _ => rfl
  · exact agree.call (.expr lowestLevel) (Nat.lt_succ_self _) fun _ _ => rfl
  · refine expect _ (Nat.le_succ _) fun rest fewer => ?_
    refine agree.call (.expr lowestLevel) fewer fun _ fewer => ?_
    refine expect _ (Nat.le_of_lt fewer) fun _ fewer => ?_
    refine expect _ (Nat.le_of_lt fewer) fun _ fewer => ?_
    refine agree.call .block fewer fun _ fewer => ?_
    exact agree.call .elseBranch fewer fun _ _ => rfl
  · refine expect _ (Nat.le_succ _) fun rest fewer => ?_
    refine agree.call .params fewer fun _ fewer => ?_
    refine expect _ (Nat.le_of_lt fewer) fun _ fewer => ?_
    exact agree.call .block fewer fun _ _ => rfl

private theorem tail (agree : AgreeBelow R R' us.length) (level : Nat)
    (left : Expr) :
    body R (.tail level left) us = body R' (.tail level left) us := by
  simp only [body]
  split
  · split
    · split
      · exact agree.call (.expr _) (Nat.lt_succ_self _) fun a fewer =>
          agree.same _ a.2 fewer
      · rfl
    · split
      · exact agree.call .args (Nat.lt_succ_self _) fun a fewer =>
          agree.same _ a.2 fewer
      · rfl
  · rfl

private theorem stmt (agree : AgreeBelow R R' us.length)
    (same : R (.expr lowestLevel) us = R' (.expr lowestLevel) us) :
    body R .stmt us = body R' .stmt us := by
  simp only [body]
  split
  · refine expectName (Nat.le_succ _) fun _ fewer => ?_
    refine expect _ (Nat.le_of_lt fewer) fun _ fewer => ?_
    exact agree.call (.expr lowestLevel) fewer fun _ _ => rfl
  · split
    · rfl
    · exact agree.call (.expr lowestLevel) (Nat.lt_succ_self _) fun _ _ => rfl
  · rw [same]

/-- The program loop goes on behind a statement, or behind the tokens
that are skipped for want of one. -/
private theorem program (agree : AgreeBelow R R' us.length)
    (same : R .stmt us = R' .stmt us)
    (same_resync : ∀ taken, R (.resync taken 0) us = R' (.resync taken 0) us) :
    body R .program us = body R' .program us := by
  cases us with
  | nil => rfl
  | cons t rest =>
      simp only [body]
      have takes := agree.takes .stmt (t :: rest)
      -- a failure ends nothing here, so this is no bind
      rw [← same]
      cases read : R .stmt (t :: rest) with
      | ok a =>
          rw [read] at takes
          exact agree.call .program (Nat.lt_of_succ_le takes.2) fun _ _ => rfl
      | error failure =>
          refine agree.first (same_resync _) (Nat.min_eq_left (Nat.succ_pos _))
            fun _ fewer => ?_
          exact agree.call .program fewer fun _ _ => rfl

end AgreeBelow

/-- A call is decided by the calls of lower rank. -/
private theorem body_congr {R R' : Readers} {c : Call} {ts : List Token}
    (agree : AgreeBelow R R' ts.length)
    (lower : ∀ d : Call, d.reader.place < c.reader.place → R d ts = R' d ts) :
    body R c ts = body R' c ts := by
  cases c with
  | program =>
      refine agree.program (lower .stmt (by decide)) fun taken =>
        lower (.resync taken 0) ?_
      show 1 < 4
      omega
  | resync taken depth =>
      cases ts with
      | nil => rfl
      | cons t rest =>
          simp only [body]
          split
          · rfl
          · exact agree.same _ rest (Nat.lt_succ_self _)
  | block =>
      simp only [body]
      split
      · rfl
      · rfl
      · refine agree.first (lower .stmt (by decide)) rfl fun _ fewer => ?_
        exact agree.call .block fewer fun _ _ => rfl
  | stmt => exact agree.stmt (lower (.expr lowestLevel) (by decide))
  | args =>
      simp only [body]
      split
      · rfl
      · refine agree.first (lower (.expr lowestLevel) (by decide)) rfl
          fun _ fewer => ?_
        exact agree.call .moreArgs fewer fun _ _ => rfl
  | moreArgs =>
      simp only [body]
      split
      · refine agree.call (.expr lowestLevel) (Nat.lt_succ_self _)
          fun _ fewer => ?_
        exact agree.call .moreArgs fewer fun _ _ => rfl
      · rfl
  | expr level =>
      have same : R .operand ts = R' .operand ts :=
        lower .operand (Nat.lt_succ_self 1)
      simp only [body]
      exact agree.first same rfl fun a fewer => agree.same _ a.2 fewer
  | operand => exact agree.operand
  | tail level left => exact agree.tail level left
  | elseBranch =>
      simp only [body]
      split
      · refine AgreeBelow.expect _ (Nat.le_succ _) fun _ fewer => ?_
        exact agree.call .block fewer fun _ _ => rfl
      · rfl
  | params =>
      simp only [body]
      split
      · rfl
      · refine AgreeBelow.expectName (Nat.le_refl _) fun _ fewer => ?_
        exact agree.call .moreParams fewer fun _ _ => rfl
  | moreParams =>
      simp only [body]
      split
      · exact agree.call .moreParams (by simp only [List.length_cons]; omega)
          fun _ _ => rfl
      · rfl
      · rfl

-- ============================================== the functions in use

/-- There are four places. -/
private theorem Reader.place_bounds (r : Reader) :
    1 ≤ r.place ∧ r.place ≤ 4 := by
  cases r <;> decide

/-- With fewer tokens the rank is smaller, whatever the places. -/
private theorem Call.rank_lt_of_fewer {c d : Call} {ts us : List Token}
    (fewer : us.length < ts.length) :
    d.rank us < c.rank ts := by
  have above := d.reader.place_bounds
  have below := c.reader.place_bounds
  unfold Call.rank
  omega

/-- No call has a rank above the bound for its tokens. -/
private theorem Call.rank_le_depthBound (c : Call) {ts us : List Token}
    (le : us.length ≤ ts.length) :
    c.rank us ≤ depthBound ts := by
  have bounds := c.reader.place_bounds
  unfold Call.rank depthBound
  omega

/-- A program is read by its body, which has no bound of its own. -/
theorem reads_program (ts : List Token) :
    reads .program ts = body reads .program ts := by
  cases ts with
  | nil => rfl
  | cons t rest =>
      simp only [body]
      cases read : readStmt (t :: rest) with
      | ok a =>
          have stmt : reads .stmt (t :: rest) = .ok a := read
          rw [stmt]
          show Except.ok (Listing.ofTokens (t :: rest), []) = _
          rw [Listing.ofTokens_of_ok read]
          rfl
      | error failure =>
          have stmt : reads .stmt (t :: rest) = .error failure := read
          rw [stmt]
          show Except.ok (Listing.ofTokens (t :: rest), []) = _
          rw [Listing.ofTokens_of_error read]
          rfl

/-- The functions in use solve the equations of the reader. -/
theorem reads_eq_body (c : Call) (ts : List Token) :
    reads c ts = body reads c ts := by
  by_cases is_program : c = .program
  · subst is_program
    exact reads_program ts
  · -- with one more than the bound the outermost call can be opened
    calc reads c ts
      _ = readers (depthBound ts + 1) c ts :=
          (readers_eq_reads (Nat.le_succ_of_le
            (c.rank_le_depthBound (Nat.le_refl _)))).symm
      _ = body (readers (depthBound ts)) c ts := readers_succ _ is_program ts
      _ = body reads c ts := by
          refine body_congr ⟨readers_takes _, fun d us fewer => ?_⟩
            fun d _ => ?_
          · exact readers_eq_reads (d.rank_le_depthBound (Nat.le_of_lt fewer))
          · exact readers_eq_reads (d.rank_le_depthBound (Nat.le_refl _))

-- =========================================================== watching

/-- A run that is watched. `active` are the calls that are at work, each
with the number of tokens that were ahead. A call of a reader that is at
work already, when no token has been taken since, is answered by `other`,
and so is one that is nested too deep. -/
def watched (other : Readers) :
    (depth : Nat) → (active : List (Reader × Nat)) → Readers
  | 0, _, c, ts => other c ts
  | depth + 1, active, c, ts =>
      if ∃ entry ∈ active,
        entry.1 = c.reader ∧ entry.2 ≤ ts.length then other c ts
      else body (watched other depth ((c.reader, ts.length) :: active)) c ts

/-- A call whose rank is below that of all calls at work, and no more
than the depth that is left, is carried out as it is without watching. -/
theorem watched_eq_reads (other : Readers) {depth : Nat}
    {active : List (Reader × Nat)} {c : Call} {ts : List Token}
    (enough : c.rank ts ≤ depth)
    (below : ∀ entry ∈ active, c.rank ts < 4 * entry.2 + entry.1.place) :
    watched other depth active c ts = reads c ts := by
  induction depth generalizing active c ts with
  | zero =>
      have bounds := c.reader.place_bounds
      unfold Call.rank at enough
      omega
  | succ depth ih =>
      have allowed : ¬ ∃ entry ∈ active,
          entry.1 = c.reader ∧ entry.2 ≤ ts.length := by
        -- at one place, to rank below a call at work is to have fewer tokens
        rintro ⟨entry, mem, same, not_fewer⟩
        have above := below entry mem
        rw [same] at above
        unfold Call.rank at above
        omega
      have lower (d : Call) (us : List Token) (less : d.rank us < c.rank ts) :
          reads d us = watched other depth
            ((c.reader, ts.length) :: active) d us := by
        refine (ih (by omega) ?_).symm
        rw [List.forall_mem_cons]
        exact ⟨less, fun entry mem => Nat.lt_trans less (below entry mem)⟩
      rw [watched, if_neg allowed, reads_eq_body]
      refine (body_congr ⟨fun d us => readers_takes _ d us,
        fun d us fewer => ?_⟩ ?_).symm
      · exact lower d us (Call.rank_lt_of_fewer fewer)
      · exact fun d less => lower d ts (Nat.add_lt_add_left less _)

/-- Whoever answers a call that repeats one at work, or one that is
nested too deep, the program is read: there is no such call. -/
theorem watched_program (other : Readers) {depth : Nat} {ts : List Token}
    (enough : depthBound ts ≤ depth) :
    watched other depth [] .program ts = .ok (Listing.ofTokens ts, []) :=
  watched_eq_reads other enough (List.forall_mem_nil _)

end Scriptlet
