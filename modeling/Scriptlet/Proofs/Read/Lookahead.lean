/-
Reading looks one token ahead and no further.

What a reading function gives depends on the tokens that it takes and on
the one behind them. It is said of a reading at given tokens (`Local`):
with others behind, of which the first is the same, it gives the same and
leaves those. A reading that fails has found the token that its
diagnostic is about in front of what it has not read
(`Failure.Justified`), and it fails in the same way wherever it finds
that token there.

The bound on the depth of calls does not disturb this. It runs out at the
same place for the same tokens, and it too is reported as a token that
was found.
-/
import Scriptlet.Proofs.Read.Unbounded

namespace Scriptlet

-- ======================================================== what is unread

/-- The tokens from the one on at which a reading failed. An operand that
is none and a literal that is too large have been taken. -/
def Failure.unread : Failure → List Token
  | ⟨.expected _ _, rest⟩ => rest
  | ⟨.noOperand found, rest⟩ => found.toList ++ rest
  | ⟨.tooLarge digits, rest⟩ => .int digits :: rest

/-- The diagnostic is about the first token that is unread, and a literal
is too large only if it does not fit. -/
structure Failure.Justified (failure : Failure) : Prop where
  found : failure.cause.blamed = failure.unread.head?
  unfit {digits : String} (large : failure.cause = .tooLarge digits) :
    Word.ofDigits? digits = none

/-- The failure that `missing` gives. -/
private theorem justified_missing (wanted : Wanted) (ts : List Token) :
    Failure.Justified ⟨.expected wanted ts.head?, ts⟩ :=
  ⟨rfl, fun large => by cases large⟩

/-- The operand that is missing is put back in front. -/
theorem unread_missingOperand (ts : List Token) :
    Failure.unread ⟨.noOperand ts.head?, ts.tail⟩ = ts := by
  cases ts <;> rfl

/-- The failure that `missingOperand` gives. -/
private theorem justified_missingOperand (ts : List Token) :
    Failure.Justified ⟨.noOperand ts.head?, ts.tail⟩ := by
  refine ⟨?_, fun large => by cases large⟩
  rw [unread_missingOperand]
  rfl

/-- What comes first depends on what lies behind only where there is nothing
in front. -/
theorem head?_append_congr {rest rest' : List Token}
    (same : rest'.head? = rest.head?) (front : List Token) :
    (front ++ rest').head? = (front ++ rest).head? := by
  rw [List.head?_append, List.head?_append, same]

-- ======================================================= local readings

/-- The reading at `ts` depends on the tokens that it takes and on the
next one only. -/
structure Local {α : Type} (r : List Token → Reading (α × List Token))
    (ts : List Token) :
    Prop where
  ok {a : α} {rest : List Token} (read : r ts = .ok (a, rest)) :
    ∃ front, ts = front ++ rest
      ∧ ∀ rest', rest'.head? = rest.head? → r (front ++ rest') = .ok (a, rest')
  error {failure : Failure} (failed : r ts = .error failure) :
    failure.Justified ∧ ∃ front, ts = front ++ failure.unread
      ∧ ∀ rest', rest'.head? = failure.unread.head? →
        ∃ failure', r (front ++ rest') = .error failure'
          ∧ failure'.cause = failure.cause

namespace Local

variable {α β : Type} {r g : List Token → Reading (α × List Token)}
    {ts : List Token}

/-- Functions that agree where the next token is that of `ts`. -/
private theorem of_eq (h : Local g ts)
    (same : ∀ us, us.head? = ts.head? → r us = g us) :
    Local r ts where
  ok read := by
    rw [same ts rfl] at read
    obtain ⟨front, rfl, again⟩ := h.ok read
    refine ⟨front, rfl, fun rest' next => ?_⟩
    rw [same _ (head?_append_congr next front)]
    exact again rest' next
  error failed := by
    rw [same ts rfl] at failed
    obtain ⟨justified, front, eq, again⟩ := h.error failed
    refine ⟨justified, front, eq, fun rest' next => ?_⟩
    rw [same _ (by rw [eq]; exact head?_append_congr next front)]
    exact again rest' next

/-- Tokens that have been taken. -/
private theorem prepend (h : Local g ts) (front : List Token)
    (same : ∀ us, r (front ++ us) = g us) :
    Local r (front ++ ts) where
  ok read := by
    rw [same] at read
    obtain ⟨front', rfl, again⟩ := h.ok read
    refine ⟨front ++ front', (List.append_assoc ..).symm, fun rest' next => ?_⟩
    rw [List.append_assoc, same]
    exact again rest' next
  error failed := by
    rw [same] at failed
    obtain ⟨justified, front', eq, again⟩ := h.error failed
    refine ⟨justified, front ++ front', by rw [List.append_assoc, ← eq],
      fun rest' next => ?_⟩
    rw [List.append_assoc, same]
    exact again rest' next

/-- The next token decides which function it is. -/
private theorem of_cons {t : Token} (h : Local g (t :: ts))
    (same : ∀ us, r (t :: us) = g (t :: us)) :
    Local r (t :: ts) := by
  refine h.of_eq fun us next => ?_
  obtain ⟨tail, rfl⟩ := List.head?_eq_some_iff.1 next
  exact same tail

/-- At the end of the tokens the two have to agree there only. -/
private theorem of_nil (h : Local g []) (same : r [] = g []) : Local r [] := by
  refine h.of_eq fun us next => ?_
  rw [List.head?_eq_none_iff.1 next]
  exact same

/-- A token taken on the way. -/
private theorem cons (h : Local g ts) (t : Token)
    (same : ∀ us, r (t :: us) = g us) :
    Local r (t :: ts) :=
  h.prepend [t] same

/-- One reading behind the other. -/
private theorem bind {f : α → List Token → Reading (β × List Token)}
    (h : Local r ts) (hf : ∀ a rest, Local (f a) rest) :
    Local (fun us => r us >>= fun p => f p.1 p.2) ts where
  ok {b rest₂} read := by
    cases first : r ts with
    | error failure =>
        rw [first] at read
        cases read
    | ok result =>
        obtain ⟨a, rest⟩ := result
        rw [first] at read
        obtain ⟨front, rfl, again⟩ := h.ok first
        obtain ⟨front₂, rfl, again₂⟩ := (hf a rest).ok read
        refine ⟨front ++ front₂, (List.append_assoc ..).symm,
          fun rest' next => ?_⟩
        rw [List.append_assoc, again _ (head?_append_congr next front₂)]
        exact again₂ rest' next
  error {failure} failed := by
    cases first : r ts with
    | error failure₁ =>
        rw [first] at failed
        cases failed
        obtain ⟨justified, front, eq, again⟩ := h.error first
        refine ⟨justified, front, eq, fun rest' next => ?_⟩
        obtain ⟨failure', failed', same⟩ := again rest' next
        refine ⟨failure', ?_, same⟩
        rw [failed']
        rfl
    | ok result =>
        obtain ⟨a, rest⟩ := result
        rw [first] at failed
        obtain ⟨front, rfl, again⟩ := h.ok first
        obtain ⟨justified, front₂, eq, again₂⟩ := (hf a rest).error failed
        refine ⟨justified, front ++ front₂, by rw [List.append_assoc, ← eq],
          fun rest' next => ?_⟩
        have ahead : (front₂ ++ rest').head? = rest.head? := by
          rw [eq]
          exact head?_append_congr next front₂
        rw [List.append_assoc, again _ ahead]
        exact again₂ rest' next

/-- Nothing is taken. -/
private theorem pure (a : α) (ts : List Token) :
    Local (fun us => .ok (a, us)) ts where
  ok read := by
    cases read
    exact ⟨[], rfl, fun _ _ => rfl⟩
  error failed := by cases failed

/-- A missing token is told from the next one. -/
private theorem missing (wanted : Wanted) (ts : List Token) :
    Local (fun us => (Scriptlet.missing wanted us : Reading (α × List Token)))
      ts where
  ok read := by cases read
  error failed := by
    cases failed
    refine ⟨justified_missing wanted ts, [], rfl,
      fun rest' next => ⟨_, rfl, ?_⟩⟩
    exact congrArg (Diagnostic.expected wanted) next

/-- So is a missing operand. -/
private theorem missingOperand (ts : List Token) :
    Local (fun us => (Scriptlet.missingOperand us : Reading (α × List Token)))
      ts where
  ok read := by cases read
  error failed := by
    cases failed
    rw [unread_missingOperand]
    refine ⟨justified_missingOperand ts, [], rfl,
      fun rest' next => ⟨_, rfl, ?_⟩⟩
    exact congrArg Diagnostic.noOperand next

end Local

-- ============================================== pieces without depth

section

variable {α : Type} {ts : List Token}

/-- A symbol, and then what is read behind it. -/
private theorem local_expect {g : List Token → Reading (α × List Token)}
    (s : Symbol) (h : ∀ rest, Local g rest) (ts : List Token) :
    Local (fun us => expect s us >>= g) ts := by
  by_cases found : ts.head? = some (.symbol s)
  · obtain ⟨tail, rfl⟩ := List.head?_eq_some_iff.1 found
    refine (h tail).cons _ fun us => ?_
    show (if s = s then _ else _) >>= g = g us
    rw [if_pos rfl]
    rfl
  · refine (Local.missing (.symbol s) ts).of_eq fun us next => ?_
    rw [← next] at found
    rw [expect_of_ne found]
    rfl

private theorem local_expectName (ts : List Token) : Local expectName ts := by
  have other (ts : List Token) :
      Local (fun us => (missing .name us : Reading (String × List Token))) ts :=
    .missing .name ts
  cases ts with
  | nil => exact (other []).of_nil rfl
  | cons t tail =>
      cases t with
      | ident name => exact (Local.pure name tail).cons _ fun _ => rfl
      | illegal | int | str | symbol | keyword =>
          exact (other _).of_cons fun _ => rfl

private theorem local_readMoreParams (ts : List Token) :
    Local readMoreParams ts := by
  fun_induction readMoreParams ts with
  | case1 name rest ih =>
      have names := ih.bind fun names rest => Local.pure (name :: names) rest
      refine names.prepend [.symbol .comma, .ident name] fun us => ?_
      rw [List.cons_append, List.cons_append, readMoreParams]
      rfl
  | case2 rest not_name =>
      have no_name : Local (fun us => readMoreParams (.symbol .comma :: us))
          rest := by
        refine (Local.missing .name rest).of_eq fun us next => ?_
        rw [readMoreParams]
        intro name tail same
        subst same
        obtain ⟨tail', eq⟩ := List.head?_eq_some_iff.1 next.symm
        exact not_name name tail' eq
      exact no_name.cons (.symbol .comma) fun _ => rfl
  | case3 ts _ not_comma =>
      have other : ts.head? ≠ some (.symbol .comma) := by
        intro same
        obtain ⟨tail, rfl⟩ := List.head?_eq_some_iff.1 same
        exact not_comma tail rfl
      refine (local_expect .closeParen
        (fun rest => Local.pure [] rest) ts).of_eq fun us next => ?_
      rw [← next] at other
      exact readMoreParams_of_ne other

private theorem local_readParams (ts : List Token) : Local readParams ts := by
  by_cases found : ts.head? = some (.symbol .closeParen)
  · obtain ⟨tail, rfl⟩ := List.head?_eq_some_iff.1 found
    exact (Local.pure [] tail).cons _ fun _ => rfl
  · have names := (local_expectName ts).bind fun name rest =>
      (local_readMoreParams rest).bind fun names rest =>
        Local.pure (name :: names) rest
    refine names.of_eq fun us next => ?_
    rw [← next] at found
    exact readParams_of_ne found

private theorem endsReturn_congr {us : List Token}
    (next : us.head? = ts.head?) :
    endsReturn us = endsReturn ts := by
  cases ts with
  | nil => rw [List.head?_eq_none_iff.1 next]
  | cons t tail =>
      obtain ⟨tail', rfl⟩ := List.head?_eq_some_iff.1 next
      cases t with
      | symbol s => cases s <;> rfl
      | illegal | ident | int | str | keyword => rfl

/-- The optional semicolon. -/
private theorem local_skipSemicolon (a : α) (ts : List Token) :
    Local (fun us => .ok (a, skipSemicolon us)) ts := by
  by_cases found : ts.head? = some (.symbol .semicolon)
  · obtain ⟨tail, rfl⟩ := List.head?_eq_some_iff.1 found
    exact (Local.pure a tail).cons _ fun _ => rfl
  · refine (Local.pure a ts).of_eq fun us next => ?_
    unfold skipSemicolon
    split
    · exact absurd next.symm found
    · rfl

end

-- ==================================================== all the functions

/-- All reading functions look one token ahead, whatever their bound. -/
structure LooksAhead (n : Nat) : Prop where
  expr (level : Nat) (ts : List Token) : Local (readExpr n level) ts
  operand (ts : List Token) : Local (readOperand n) ts
  tail (level : Nat) (left : Expr) (ts : List Token) :
    Local (readTail n level left) ts
  args (ts : List Token) : Local (readArgs n) ts
  moreArgs (ts : List Token) : Local (readMoreArgs n) ts
  elseBranch (ts : List Token) : Local (readElse n) ts
  block (ts : List Token) : Local (readBlock n) ts
  stmt (ts : List Token) : Local (readStmtWithin n) ts

namespace LooksAhead

variable {n : Nat} (ih : LooksAhead n)
include ih

omit ih in
/-- A literal that is too large is taken, whatever comes behind it. -/
private theorem tooLarge {digits : String}
    (unfit : Word.ofDigits? digits = none) (tail : List Token) :
    Local (readOperand (n + 1)) (.int digits :: tail) := by
  have large (us : List Token) :
      readOperand (n + 1) (.int digits :: us)
        = .error ⟨.tooLarge digits, us⟩ := by
    rw [readOperand, unfit]
  constructor
  case ok =>
    intro _ _ read
    rw [large] at read
    cases read
  case error =>
    intro failure failed
    rw [large] at failed
    cases failed
    refine ⟨⟨rfl, fun same => ?_⟩, [], rfl, fun rest' next => ?_⟩
    · cases same
      exact unfit
    · obtain ⟨us, rfl⟩ := List.head?_eq_some_iff.1 next
      exact ⟨_, large us, rfl⟩

/-- An operand by its first token, which it takes, and with none at the end
of the tokens. -/
private theorem operand_succ (ts : List Token) :
    Local (readOperand (n + 1)) ts := by
  have none_starts (ts : List Token) :
      Local (fun us => (missingOperand us : Reading (Expr × List Token))) ts :=
    .missingOperand ts
  rcases ts with _ | ⟨t, tail⟩
  · exact (none_starts []).of_nil rfl
  have unary (op : UnaryOp) :=
    (ih.expr unaryLevel tail).bind fun operand rest =>
      Local.pure (Expr.unary op operand) rest
  cases t with
  | illegal c => exact (none_starts _).of_cons fun _ => rfl
  | ident name => exact (Local.pure (Expr.ident name) tail).cons _ fun _ => rfl
  | str body => exact (Local.pure (Expr.str body) tail).cons _ fun _ => rfl
  | int digits =>
      cases value : Word.ofDigits? digits with
      | none => exact tooLarge value tail
      | some w =>
          refine (Local.pure (Expr.int w) tail).cons _ fun us => ?_
          rw [readOperand, value]
  | symbol s =>
      cases s
      case minus => exact (unary .neg).cons _ fun _ => rfl
      case bang => exact (unary .not).cons _ fun _ => rfl
      case openParen =>
        have group := (ih.expr lowestLevel tail).bind fun inner =>
          local_expect .closeParen fun rest => Local.pure inner rest
        exact group.cons _ fun _ => rfl
      all_goals exact (none_starts _).of_cons fun _ => rfl
  | keyword word =>
      cases word with
      | trueWord => exact (Local.pure (Expr.bool true) tail).cons _ fun _ => rfl
      | falseWord =>
          exact (Local.pure (Expr.bool false) tail).cons _ fun _ => rfl
      | ifWord =>
          have branches (test : Expr) (ts : List Token) :=
            (ih.block ts).bind fun yes rest =>
              (ih.elseBranch rest).bind fun no rest =>
                Local.pure (Expr.cond test yes no) rest
          have whole := local_expect .openParen (fun rest =>
            (ih.expr lowestLevel rest).bind fun test =>
              local_expect .closeParen (local_expect .openBrace
                (branches test))) tail
          exact whole.cons _ fun _ => rfl
      | fnWord =>
          have body (params : List String) (ts : List Token) :=
            (ih.block ts).bind fun body rest =>
              Local.pure (Expr.fn params body) rest
          have whole := local_expect .openParen (fun rest =>
            (local_readParams rest).bind fun params =>
              local_expect .openBrace (body params)) tail
          exact whole.cons _ fun _ => rfl
      | letWord | elseWord | returnWord =>
          exact (none_starts _).of_cons fun _ => rfl

/-- The tail ends at any token that it does not take, so it has looked at
that one. -/
private theorem tail_succ (level : Nat) (left : Expr) (ts : List Token) :
    Local (readTail (n + 1) level left) ts := by
  rcases ts with _ | ⟨t, tail⟩
  · exact (Local.pure left []).of_nil rfl
  cases t with
  | illegal | ident | int | str | keyword =>
      exact (Local.pure left _).of_cons fun _ => rfl
  | symbol s =>
      cases eq : BinaryOp.ofSymbol? s with
      | some op =>
          by_cases above : level < op.level
          · have operation := (ih.expr op.level tail).bind fun right rest =>
              ih.tail level (.binary op left right) rest
            refine operation.cons _ fun us => ?_
            simp only [readTail, eq, if_pos above]
          · refine (Local.pure left _).of_cons fun us => ?_
            simp only [readTail, eq, if_neg above]
      | none =>
          by_cases paren : s = .openParen
          · subst paren
            have call := (ih.args tail).bind fun args rest =>
              ih.tail level (.call left args) rest
            exact call.cons _ fun _ => rfl
          · refine (Local.pure left _).of_cons fun us => ?_
            simp only [readTail, eq, if_neg paren]

/-- A `return` looks at one more token, to see whether it is bare. -/
private theorem stmt_succ (ts : List Token) :
    Local (readStmtWithin (n + 1)) ts := by
  have value (make : Expr → Stmt) (ts : List Token) :=
    (ih.expr lowestLevel ts).bind fun value rest =>
      local_skipSemicolon (make value) rest
  rcases ts with _ | ⟨t, tail⟩
  · exact (value .expr []).of_nil rfl
  by_cases is_let : t = .keyword .letWord
  · subst is_let
    have whole := (local_expectName tail).bind fun name =>
      local_expect .assign (value (.bind name))
    exact whole.cons _ fun _ => rfl
  by_cases is_return : t = .keyword .returnWord
  · subst is_return
    -- the token behind `return` decides whether there is a value
    have behind : Local (fun us =>
        readStmtWithin (n + 1) (.keyword .returnWord :: us)) tail := by
      cases bare : endsReturn tail with
      | true =>
          refine (local_skipSemicolon (Stmt.ret none) tail).of_eq
            fun us next => ?_
          rw [readStmtWithin, endsReturn_congr next, if_pos bare]
      | false =>
          refine (value (fun value => .ret (some value)) tail).of_eq
            fun us next => ?_
          rw [readStmtWithin, endsReturn_congr next, bare]
          rfl
    exact behind.cons _ fun _ => rfl
  · refine (value .expr (t :: tail)).of_cons fun us => ?_
    exact readStmtWithin_of_ne n us is_let is_return

end LooksAhead

/-- No reading looks further than one token ahead, whatever its bound. -/
theorem looksAhead (n : Nat) : LooksAhead n := by
  induction n with
  | zero =>
      constructor <;> intros <;>
        exact (Local.missingOperand _).of_eq fun _ _ => rfl
  | succ n ih =>
      refine ⟨fun level ts => ?_, ih.operand_succ, ih.tail_succ, fun ts => ?_,
        fun ts => ?_, fun ts => ?_, fun ts => ?_, ih.stmt_succ⟩
      · have whole := (ih.operand ts).bind fun operand rest =>
          ih.tail level operand rest
        exact whole.of_eq fun _ _ => rfl
      · by_cases found : ts.head? = some (.symbol .closeParen)
        · obtain ⟨tail, rfl⟩ := List.head?_eq_some_iff.1 found
          exact (Local.pure [] tail).cons _ fun _ => rfl
        · have args := (ih.expr lowestLevel ts).bind fun arg rest =>
            (ih.moreArgs rest).bind fun args rest =>
              Local.pure (arg :: args) rest
          refine args.of_eq fun us next => ?_
          rw [← next] at found
          exact readArgs_of_ne n found
      · by_cases found : ts.head? = some (.symbol .comma)
        · obtain ⟨tail, rfl⟩ := List.head?_eq_some_iff.1 found
          have args := (ih.expr lowestLevel tail).bind fun arg rest =>
            (ih.moreArgs rest).bind fun args rest =>
              Local.pure (arg :: args) rest
          exact args.cons _ fun _ => rfl
        · refine (local_expect .closeParen
            (fun rest => Local.pure [] rest) ts).of_eq fun us next => ?_
          rw [← next] at found
          exact readMoreArgs_of_ne n found
      · by_cases found : ts.head? = some (.keyword .elseWord)
        · obtain ⟨tail, rfl⟩ := List.head?_eq_some_iff.1 found
          have branch := local_expect .openBrace (fun rest =>
            (ih.block rest).bind fun no rest => Local.pure (some no) rest) tail
          exact branch.cons _ fun _ => rfl
        · refine (Local.pure none ts).of_eq fun us next => ?_
          rw [← next] at found
          exact readElse_of_ne n found
      · rcases ts with _ | ⟨t, tail⟩
        · exact (Local.missing (.symbol .closeBrace) []).of_nil rfl
        by_cases found : t = .symbol .closeBrace
        · subst found
          exact (Local.pure [] tail).cons _ fun _ => rfl
        · have stmts := (ih.stmt (t :: tail)).bind fun stmt rest =>
            (ih.block rest).bind fun stmts rest =>
              Local.pure (stmt :: stmts) rest
          exact stmts.of_cons fun us => readBlock_of_ne n us found

/-- So does the reading of a statement, with the bound that its tokens
call for: any bound above those of two token lists will do for both. -/
theorem local_readStmt (ts : List Token) : Local readStmt ts where
  ok {s rest} read := by
    have at_bound (n : Nat) (enough : depthBound ts ≤ n) :=
      ((looksAhead n).stmt ts).ok
        ((readStmtWithin_eq_readStmt enough).trans read)
    obtain ⟨front, eq, -⟩ := at_bound (depthBound ts) (Nat.le_refl _)
    refine ⟨front, eq, fun rest' next => ?_⟩
    obtain ⟨front', eq', again⟩ :=
      at_bound (max (depthBound ts) (depthBound (front ++ rest')))
        (Nat.le_max_left _ _)
    obtain rfl : front' = front := List.append_cancel_right (eq'.symm.trans eq)
    rw [← readStmtWithin_eq_readStmt (Nat.le_max_right (depthBound ts) _)]
    exact again rest' next
  error {failure} failed := by
    have at_bound (n : Nat) (enough : depthBound ts ≤ n) :=
      ((looksAhead n).stmt ts).error
        ((readStmtWithin_eq_readStmt enough).trans failed)
    obtain ⟨justified, front, eq, -⟩ := at_bound (depthBound ts) (Nat.le_refl _)
    refine ⟨justified, front, eq, fun rest' next => ?_⟩
    obtain ⟨-, front', eq', again⟩ :=
      at_bound (max (depthBound ts) (depthBound (front ++ rest')))
        (Nat.le_max_left _ _)
    obtain rfl : front' = front := List.append_cancel_right (eq'.symm.trans eq)
    rw [← readStmtWithin_eq_readStmt (Nat.le_max_right (depthBound ts) _)]
    exact again rest' next

end Scriptlet
