/-
Reading with a count of the open braces.

The reading functions give the tokens that they leave, and whoever wants
to know how many braces are open there has to count them. A tracker does
this on the way. It passes the tokens one at a time, counts at each, and
knows nothing of statements or blocks; the functions here read from it,
and do all else as the reading functions do.

The count is kept apart from the recursion, and a reading that fails
inside a block leaves it where it is. So there are two things to know:
that tracking changes nothing in what is read or where reading stops
(`Follows`, `tracked`), and that a statement which was read leaves the
count as it found it (`trackStmt_depth`).
-/
import Scriptlet.Proofs.Read.Front

namespace Scriptlet

-- ============================================================= trackers

/-- A place in a token list: the last token that was passed (`none` at
the start, and when the end was passed), the number of braces open behind
it, and the tokens ahead. The trail keeps the count after each token. -/
structure Tracker where
  cur : Option Token
  depth : Nat
  ahead : List Token
  trail : List Nat

namespace Tracker

/-- The place before all tokens. -/
def start (ts : List Token) : Tracker :=
  ⟨none, 0, ts, []⟩

/-- Passes the next token. -/
def next (s : Tracker) : Tracker :=
  match s.ahead with
  | [] => { s with cur := none }
  | t :: rest =>
      ⟨some t, t.depthAfter s.depth, rest, s.trail ++ [t.depthAfter s.depth]⟩

/-- The number of tokens passed. -/
def passed (s : Tracker) : Nat :=
  s.trail.length

end Tracker

-- ============================================================== reading

/-- Reads from a tracker. A reading that fails leaves the tracker where
it failed. -/
abbrev Track := EStateM Diagnostic Tracker

/-- Passes the next token, whatever it is. -/
def advance : Track Unit :=
  modify Tracker.next

/-- Fails for want of an operand. The offending token is passed, as it is
where nothing is tracked. -/
def trackMissingOperand {α : Type} : Track α := do
  let found := (← get).ahead.head?
  advance
  throw (.noOperand found)

/-- Fails for want of something else than the next token, which is not
passed. -/
def trackMissing {α : Type} (wanted : Wanted) : Track α := do
  throw (.expected wanted (← get).ahead.head?)

/-- Passes one given symbol. -/
def trackSymbol (s : Symbol) : Track Unit := do
  match (← get).ahead with
  | .symbol found :: _ =>
      if found = s then advance else trackMissing (.symbol s)
  | _ => trackMissing (.symbol s)

/-- Passes a name and gives it. -/
def trackName : Track String := do
  match (← get).ahead with
  | .ident name :: _ =>
      advance
      return name
  | _ => trackMissing .name

/-- Passes the optional semicolon behind a statement. -/
def trackSemicolon : Track Unit := do
  match (← get).ahead with
  | .symbol .semicolon :: _ => advance
  | _ => return

/-- The parameters behind the first one. Each takes two tokens, so the
bound is no limit where it is the number of tokens. -/
def trackMoreParams : Nat → Track (List String)
  | 0 => trackMissing (.symbol .closeParen)
  | n + 1 => do
      match (← get).ahead with
      | .symbol .comma :: _ =>
          advance
          let name ← trackName
          let names ← trackMoreParams n
          return name :: names
      | _ =>
          trackSymbol .closeParen
          return []

/-- The parameters of a function whose opening parenthesis has been passed.
The count says nothing of parentheses, so these tokens leave it alone. -/
def trackParams : Track (List String) := do
  match (← get).ahead with
  | .symbol .closeParen :: _ =>
      advance
      return []
  | _ =>
      let name ← trackName
      let names ← trackMoreParams ((← get).ahead.length + 1)
      return name :: names

mutual

/-- The expression ahead, with the operators above `level`. -/
def trackExpr : Nat → Nat → Track Expr
  | 0, _ => trackMissingOperand
  | n + 1, level => do
      let operand ← trackOperand n
      trackTail n level operand

/-- What an expression starts with. -/
def trackOperand : Nat → Track Expr
  | 0 => trackMissingOperand
  | n + 1 => do
      match (← get).ahead with
      | .ident name :: _ =>
          advance
          return .ident name
      | .int digits :: _ =>
          advance
          match Word.ofDigits? digits with
          | some value => return .int value
          | none => throw (.tooLarge digits)
      | .str body :: _ =>
          advance
          return .str body
      | .keyword .trueWord :: _ =>
          advance
          return .bool true
      | .keyword .falseWord :: _ =>
          advance
          return .bool false
      | .symbol .minus :: _ =>
          advance
          let operand ← trackExpr n unaryLevel
          return .unary .neg operand
      | .symbol .bang :: _ =>
          advance
          let operand ← trackExpr n unaryLevel
          return .unary .not operand
      | .symbol .openParen :: _ =>
          advance
          let inner ← trackExpr n lowestLevel
          trackSymbol .closeParen
          return inner
      | .keyword .ifWord :: _ =>
          advance
          trackSymbol .openParen
          let test ← trackExpr n lowestLevel
          trackSymbol .closeParen
          trackSymbol .openBrace
          let yes ← trackBlock n
          let no ← trackElse n
          return .cond test yes no
      | .keyword .fnWord :: _ =>
          advance
          trackSymbol .openParen
          let params ← trackParams
          trackSymbol .openBrace
          let body ← trackBlock n
          return .fn params body
      | _ => trackMissingOperand

/-- The operators above `level` and the calls that follow an expression. -/
def trackTail : Nat → Nat → Expr → Track Expr
  | 0, _, _ => trackMissingOperand
  | n + 1, level, left => do
      match (← get).ahead with
      | .symbol s :: _ =>
          match BinaryOp.ofSymbol? s with
          | some op =>
              if level < op.level then
                advance
                let right ← trackExpr n op.level
                trackTail n level (.binary op left right)
              else return left
          | none =>
              if s = .openParen then
                advance
                let args ← trackArgs n
                trackTail n level (.call left args)
              else return left
      | _ => return left

/-- The arguments of a call whose opening parenthesis has been passed. -/
def trackArgs : Nat → Track (List Expr)
  | 0 => trackMissingOperand
  | n + 1 => do
      match (← get).ahead with
      | .symbol .closeParen :: _ =>
          advance
          return []
      | _ =>
          let arg ← trackExpr n lowestLevel
          let args ← trackMoreArgs n
          return arg :: args

/-- The arguments behind the first one, and the parenthesis. -/
def trackMoreArgs : Nat → Track (List Expr)
  | 0 => trackMissingOperand
  | n + 1 => do
      match (← get).ahead with
      | .symbol .comma :: _ =>
          advance
          let arg ← trackExpr n lowestLevel
          let args ← trackMoreArgs n
          return arg :: args
      | _ =>
          trackSymbol .closeParen
          return []

/-- The optional `else` branch of a conditional. -/
def trackElse : Nat → Track (Option Block)
  | 0 => trackMissingOperand
  | n + 1 => do
      match (← get).ahead with
      | .keyword .elseWord :: _ =>
          advance
          trackSymbol .openBrace
          let no ← trackBlock n
          return some no
      | _ => return none

/-- The rest of a block. Its opening brace has been passed and counted, and
the closing one is passed here, so that the count comes back to where it was
before the block. -/
def trackBlock : Nat → Track Block
  | 0 => trackMissingOperand
  | n + 1 => do
      match (← get).ahead with
      | [] => trackMissing (.symbol .closeBrace)
      | .symbol .closeBrace :: _ =>
          advance
          return []
      | _ =>
          let stmt ← trackStmt n
          let stmts ← trackBlock n
          return stmt :: stmts

/-- One statement and the semicolon behind it, if there is one. -/
def trackStmt : Nat → Track Stmt
  | 0 => trackMissingOperand
  | n + 1 => do
      match (← get).ahead with
      | .keyword .letWord :: _ =>
          advance
          let name ← trackName
          trackSymbol .assign
          let value ← trackExpr n lowestLevel
          trackSemicolon
          return .bind name value
      | .keyword .returnWord :: rest =>
          advance
          if endsReturn rest then
            trackSemicolon
            return .ret none
          else
            let value ← trackExpr n lowestLevel
            trackSemicolon
            return .ret (some value)
      | _ =>
          let value ← trackExpr n lowestLevel
          trackSemicolon
          return .expr value

end

-- ===================================================== tokens passed

/-- The second place is the first or lies further on. -/
inductive Tracker.Leads : Tracker → Tracker → Prop where
  | refl (s : Tracker) : Leads s s
  | next {s s' : Tracker} : Leads s.next s' → Leads s s'

namespace Tracker.Leads

variable {s s₁ s₂ : Tracker}

theorem trans (first : s.Leads s₁) (second : s₁.Leads s₂) : s.Leads s₂ := by
  induction first with
  | refl => exact second
  | next _ ih => exact .next (ih second)

/-- No token comes back. -/
private theorem length_le (leads : s.Leads s₁) :
    s₁.ahead.length ≤ s.ahead.length := by
  induction leads with
  | refl => exact Nat.le_refl _
  | @next s _ _ ih =>
      obtain ⟨cur, depth, ahead, trail⟩ := s
      cases ahead with
      | nil => exact ih
      | cons t rest => exact Nat.le_succ_of_le ih

/-- What was passed on the way, and what was passed last: nothing, the
end, or a token. -/
theorem front (leads : s.Leads s₁) :
    ∃ front, s.ahead = front ++ s₁.ahead ∧ s₁.depth = braceDepth s.depth front
      ∧ ((front = [] ∧ s₁ = s) ∨ (s₁.ahead = [] ∧ s₁.cur = none)
        ∨ ∃ before t, front = before ++ [t] ∧ s₁.cur = some t) := by
  induction leads with
  | refl s => exact ⟨[], rfl, rfl, .inl ⟨rfl, rfl⟩⟩
  | @next s s₁ _ ih =>
      obtain ⟨front, split, depth, last⟩ := ih
      obtain ⟨cur, open_braces, ahead, trail⟩ := s
      cases ahead with
      | nil =>
          obtain ⟨rfl, ended⟩ := List.append_eq_nil_iff.1 split.symm
          refine ⟨[], split, depth, .inr (.inl ⟨ended, ?_⟩)⟩
          rcases last with ⟨-, rfl⟩ | ⟨-, passed⟩ | ⟨before, t, eq, -⟩
          · rfl
          · exact passed
          · exact absurd eq (by simp)
      | cons t rest =>
          refine ⟨t :: front, congrArg (t :: ·) split, depth, .inr ?_⟩
          rcases last with ⟨rfl, rfl⟩ | passed | ⟨before, u, rfl, passed⟩
          · exact .inr ⟨[], t, rfl, rfl⟩
          · exact .inl passed
          · exact .inr ⟨t :: before, u, rfl, passed⟩

end Tracker.Leads

-- ============================================================= following

/-- A tracked reading gives what the reading gives, and leaves the
tracker at the tokens that are left, at the given place or further on.
That place is where the reading started, or the next one for a reading
that takes a token whether it succeeds or not. -/
inductive Follows {α : Type} (s : Tracker) :
    Reading (α × List Token) → EStateM.Result Diagnostic Tracker α → Prop where
  | ok (a : α) {s' : Tracker} (leads : s.Leads s') :
      Follows s (.ok (a, s'.ahead)) (.ok a s')
  | error (cause : Diagnostic) {s' : Tracker} (leads : s.Leads s') :
      Follows s (.error ⟨cause, s'.ahead⟩) (.error cause s')

namespace Follows

variable {α β : Type} {p s s' : Tracker} {r : Reading (α × List Token)}
    {x : Track α} {y : EStateM.Result Diagnostic Tracker α}

/-- The place that a reading starts from may be put further back. -/
private theorem after (leads : s.Leads s') (follows : Follows s' r y) :
    Follows s r y := by
  cases follows with
  | ok a leads' => exact .ok a (leads.trans leads')
  | error cause leads' => exact .error cause (leads.trans leads')

/-- What was read is read alike without a tracker, and the tracker stands at
the tokens that are left. -/
theorem of_ok {a : α} (follows : Follows p r (.ok a s')) :
    r = .ok (a, s'.ahead) ∧ p.Leads s' := by
  cases follows with
  | ok _ leads => exact ⟨rfl, leads⟩

/-- A failure is the same failure without a tracker, and the tracker stands
at the tokens not yet taken. -/
theorem of_error {cause : Diagnostic}
    (follows : Follows p r (.error cause s')) :
    r = .error ⟨cause, s'.ahead⟩ ∧ p.Leads s' := by
  cases follows with
  | error _ leads => exact ⟨rfl, leads⟩

/-- The case of one token. -/
private theorem behind (follows : Follows s.next r y) : Follows s r y :=
  after (.next (.refl _)) follows

/-- Giving a value passes nothing. -/
private theorem pure (s : Tracker) (a : α) :
    Follows s (.ok (a, s.ahead)) ((Pure.pure a : Track α) s) :=
  .ok a (.refl s)

/-- Two readings in a row: the second starts where the first has left the
tracker. -/
private theorem bind {f : α × List Token → Reading (β × List Token)}
    {g : α → Track β} (first : Follows p r (x s))
    (rest : ∀ a s', p.Leads s' → Follows s' (f (a, s'.ahead)) (g a s')) :
    Follows p (r >>= f) ((x >>= g) s) := by
  show Follows p (r >>= f) (EStateM.bind x g s)
  unfold EStateM.bind
  generalize x s = y at first ⊢
  cases first with
  | ok a leads => exact (rest a _ leads).after leads
  | error cause leads => exact .error cause leads

/-- A token is passed first. -/
private theorem advance (follows : Follows p r (x s.next)) :
    Follows p r ((advance >>= fun _ => x) s) :=
  follows

/-- Both report the next token and leave it. -/
private theorem missing (s : Tracker) (wanted : Wanted) :
    Follows s (Scriptlet.missing wanted s.ahead)
      ((trackMissing wanted : Track α) s) :=
  .error _ (.refl s)

/-- Both report the next token and take it. -/
private theorem missingOperand (s : Tracker) :
    Follows s.next (Scriptlet.missingOperand s.ahead)
      ((trackMissingOperand : Track α) s) := by
  obtain ⟨cur, depth, ahead, trail⟩ := s
  cases ahead with
  | nil => exact .error _ (.refl _)
  | cons t rest => exact .error _ (.refl _)

end Follows

-- =============================================================== pieces

/-- Both take the symbol if it is next, and both find it missing
otherwise. -/
private theorem trackSymbol_cases (sym : Symbol) (s : Tracker) :
    (expect sym s.ahead = .ok s.next.ahead ∧ trackSymbol sym s = .ok () s.next)
      ∨ (expect sym s.ahead = missing (.symbol sym) s.ahead
        ∧ trackSymbol sym s = trackMissing (.symbol sym) s) := by
  obtain ⟨cur, depth, ahead, trail⟩ := s
  cases ahead with
  | nil => exact .inr ⟨rfl, rfl⟩
  | cons t tail =>
      cases t with
      | symbol found =>
          by_cases same : found = sym
          · subst same
            exact .inl ⟨if_pos rfl, congrFun (if_pos rfl) _⟩
          · exact .inr ⟨if_neg same, congrFun (if_neg same) _⟩
      | illegal | ident | int | str | keyword => exact .inr ⟨rfl, rfl⟩

/-- A reading that goes on behind a symbol. -/
private theorem trackSymbol_follows {α : Type} (sym : Symbol) {s : Tracker}
    {f : List Token → Reading (α × List Token)} {g : Track α}
    (rest : ∀ s', s.Leads s' → Follows s' (f s'.ahead) (g s')) :
    Follows s (expect sym s.ahead >>= f)
      ((trackSymbol sym >>= fun _ => g) s) := by
  show Follows s _ (EStateM.bind (trackSymbol sym) (fun _ => g) s)
  unfold EStateM.bind
  rcases trackSymbol_cases sym s with ⟨read, tracked⟩ | ⟨read, tracked⟩
  · rw [read, tracked]
    have behind : s.Leads s.next := .next (.refl _)
    exact (rest s.next behind).after behind
  · rw [read, tracked]
    exact .error _ (.refl s)

/-- A name is passed, and anything else reported. -/
private theorem trackName_follows (s : Tracker) :
    Follows s (expectName s.ahead) (trackName s) := by
  obtain ⟨cur, depth, ahead, trail⟩ := s
  cases ahead with
  | nil => exact .missing _ _
  | cons t tail =>
      cases t with
      | ident name => exact .behind (.advance (.pure _ _))
      | illegal | int | str | keyword | symbol => exact .missing _ _

/-- A reading that is over, but for a semicolon. -/
private theorem trackSemicolon_follows {α : Type} (s : Tracker) (a : α) :
    Follows s (.ok (a, skipSemicolon s.ahead))
      ((do trackSemicolon; return a : Track α) s) := by
  obtain ⟨cur, depth, ahead, trail⟩ := s
  cases ahead with
  | nil => exact .pure _ _
  | cons t tail =>
      cases t with
      | symbol sym =>
          cases sym with
          | semicolon => exact .behind (.advance (.pure _ _))
          | _ => exact .pure _ _
      | illegal | ident | int | str | keyword => exact .pure _ _

/-- Behind a comma a name is asked for, as a step of its own. The reading
function takes both tokens in one pattern. -/
private theorem readMoreParams_comma (tail : List Token) :
    readMoreParams (.symbol .comma :: tail) =
      expectName tail >>= fun name =>
        readMoreParams name.2 >>= fun names => .ok
          (name.1 :: names.1, names.2) := by
  cases tail with
  | nil => rfl
  | cons t rest => cases t <;> rfl

/-- The bound is never reached, since each parameter passes two tokens. -/
private theorem trackMoreParams_follows (n : Nat) {s : Tracker}
    (enough : s.ahead.length < n) :
    Follows s (readMoreParams s.ahead) (trackMoreParams n s) := by
  induction n generalizing s with
  | zero => cases enough
  | succ n ih =>
      obtain ⟨cur, depth, ahead, trail⟩ := s
      have last : Follows ⟨cur, depth, ahead, trail⟩
          (do let rest ← expect .closeParen ahead; return ([], rest))
          ((do trackSymbol .closeParen; return [] : Track (List String))
            ⟨cur, depth, ahead, trail⟩) :=
        trackSymbol_follows .closeParen fun s' _ => .pure s' _
      cases ahead with
      | nil => exact last
      | cons t tail =>
          cases t with
          | symbol sym =>
              cases sym with
              | comma =>
                  have fewer : tail.length < n := Nat.lt_of_succ_lt_succ enough
                  rw [readMoreParams_comma]
                  refine .behind (.advance (.bind (trackName_follows _)
                    fun name s₁ leads => ?_))
                  have fewer₁ := Nat.lt_of_le_of_lt leads.length_le fewer
                  exact .bind (ih fewer₁) fun names s₂ _ => .pure s₂ _
              | _ => exact last
          | illegal | ident | int | str | keyword => exact last

/-- The whole list, by its first token. -/
private theorem trackParams_follows (s : Tracker) :
    Follows s (readParams s.ahead) (trackParams s) := by
  obtain ⟨cur, depth, ahead, trail⟩ := s
  have named : Follows ⟨cur, depth, ahead, trail⟩
      (expectName ahead >>= fun name =>
        readMoreParams name.2 >>= fun names => .ok (name.1 :: names.1, names.2))
      ((do
        let name ← trackName
        let names ← trackMoreParams ((← get).ahead.length + 1)
        return name :: names : Track (List String)) ⟨cur, depth, ahead,
          trail⟩) := by
    refine .bind (trackName_follows _) fun name s₁ _ => ?_
    exact .bind (trackMoreParams_follows _ (Nat.lt_succ_self _))
      fun names s₂ _ => .pure _ _
  cases ahead with
  | nil => exact named
  | cons t tail =>
      cases t with
      | symbol sym =>
          cases sym with
          | closeParen => exact .behind (.advance (.pure _ _))
          | _ => exact named
      | illegal | ident | int | str | keyword => exact named

-- ============================================================ all of it

/-- Tracking changes nothing, whatever the bound. -/
structure Tracked (n : Nat) : Prop where
  expr (level : Nat) (s : Tracker) :
    Follows s.next (readExpr n level s.ahead) (trackExpr n level s)
  operand (s : Tracker) :
    Follows s.next (readOperand n s.ahead) (trackOperand n s)
  tail (level : Nat) (left : Expr) (s : Tracker) :
    Follows s (readTail n level left s.ahead) (trackTail n level left s)
  args (s : Tracker) : Follows s.next (readArgs n s.ahead) (trackArgs n s)
  moreArgs (s : Tracker) :
    Follows s (readMoreArgs n s.ahead) (trackMoreArgs n s)
  elseBranch (s : Tracker) : Follows s (readElse n s.ahead) (trackElse n s)
  block (s : Tracker) : Follows s (readBlock n s.ahead) (trackBlock n s)
  stmt (s : Tracker) : Follows s.next (readStmtWithin n s.ahead) (trackStmt n s)

namespace Tracked

variable {n : Nat}

/-- One case for each token that an operand can start with; with any other
token both sides report it. -/
private theorem operand_succ (ih : Tracked n) (s : Tracker) :
    Follows s.next (readOperand (n + 1) s.ahead) (trackOperand (n + 1) s) := by
  obtain ⟨cur, depth, ahead, trail⟩ := s
  cases ahead with
  | nil => exact .missingOperand _
  | cons t tail =>
      cases t with
      | illegal => exact .missingOperand _
      | ident | str => exact .advance (.pure _ _)
      | int digits =>
          rw [readOperand]
          show Follows _ _ ((advance >>= fun _ =>
            match Word.ofDigits? digits with
            | some value => Pure.pure (.int value)
            | none => throw (.tooLarge digits) : Track Expr) _)
          cases Word.ofDigits? digits with
          | some value => exact .advance (.pure _ _)
          | none => exact .error _ (.refl _)
      | keyword k =>
          cases k with
          | trueWord | falseWord => exact .advance (.pure _ _)
          | ifWord =>
              refine .advance (trackSymbol_follows _ fun s₁ _ => ?_)
              refine .bind (.behind (ih.expr _ s₁)) fun test s₂ _ => ?_
              refine trackSymbol_follows _ fun s₃ _ =>
                trackSymbol_follows _ fun s₄ _ => ?_
              refine .bind (ih.block s₄) fun yes s₅ _ => ?_
              exact .bind (ih.elseBranch s₅) fun no s₆ _ => .pure s₆ _
          | fnWord =>
              refine .advance (trackSymbol_follows _ fun s₁ _ => ?_)
              refine .bind (trackParams_follows s₁) fun params s₂ _ => ?_
              refine trackSymbol_follows _ fun s₃ _ => ?_
              exact .bind (ih.block s₃) fun body s₄ _ => .pure s₄ _
          | _ => exact .missingOperand _
      | symbol sym =>
          cases sym with
          | minus | bang =>
              refine .advance (.bind (.behind (ih.expr _ _))
                fun operand s₁ _ => ?_)
              exact .pure s₁ _
          | openParen =>
              refine .advance (.bind (.behind (ih.expr _ _))
                fun inner s₁ _ => ?_)
              exact trackSymbol_follows _ fun s₂ _ => .pure s₂ _
          | _ => exact .missingOperand _

/-- An operator is passed before its right operand is read, a call's
parenthesis before its arguments; both go on with the longer expression. -/
private theorem tail_succ (ih : Tracked n) (level : Nat) (left : Expr)
    (s : Tracker) :
    Follows s (readTail (n + 1) level left s.ahead)
      (trackTail (n + 1) level left s) := by
  obtain ⟨cur, depth, ahead, trail⟩ := s
  cases ahead with
  | nil => exact .pure _ _
  | cons t tail =>
      cases t with
      | illegal | ident | int | str | keyword => exact .pure _ _
      | symbol sym =>
          rw [readTail.eq_def]
          show Follows _ _ ((match BinaryOp.ofSymbol? sym with
            | some op =>
                if level < op.level then
                  advance >>= fun _ => trackExpr n op.level >>= fun right =>
                    trackTail n level (.binary op left right)
                else Pure.pure left
            | none =>
                if sym = .openParen then
                  advance >>= fun _ => trackArgs n >>= fun args =>
                    trackTail n level (.call left args)
                else Pure.pure left : Track Expr) _)
          dsimp only
          cases BinaryOp.ofSymbol? sym with
          | some op =>
              by_cases tighter : level < op.level
              · simp only [if_pos tighter]
                refine .behind (.advance (.bind (.behind (ih.expr _ _))
                  fun right s₁ _ => ?_))
                exact ih.tail level _ s₁
              · simp only [if_neg tighter]
                exact .pure _ _
          | none =>
              by_cases call : sym = .openParen
              · simp only [if_pos call]
                refine .behind
                  (.advance (.bind (.behind (ih.args _)) fun args s₁ _ => ?_))
                exact ih.tail level _ s₁
              · simp only [if_neg call]
                exact .pure _ _

private theorem args_succ (ih : Tracked n) (s : Tracker) :
    Follows s.next (readArgs (n + 1) s.ahead) (trackArgs (n + 1) s) := by
  obtain ⟨cur, depth, ahead, trail⟩ := s
  have more : Follows (Tracker.next ⟨cur, depth, ahead, trail⟩)
      (readExpr n lowestLevel ahead >>= fun arg =>
        readMoreArgs n arg.2 >>= fun args => .ok (arg.1 :: args.1, args.2))
      ((do
        let arg ← trackExpr n lowestLevel
        let args ← trackMoreArgs n
        return arg :: args : Track (List Expr))
          ⟨cur, depth, ahead, trail⟩) := by
    refine .bind (ih.expr _ ⟨cur, depth, ahead, trail⟩) fun arg s₁ _ => ?_
    exact .bind (ih.moreArgs s₁) fun args s₂ _ => .pure s₂ _
  cases ahead with
  | nil => exact more
  | cons t tail =>
      cases t with
      | symbol sym =>
          cases sym with
          | closeParen => exact .advance (.pure _ _)
          | _ => exact more
      | illegal | ident | int | str | keyword => exact more

private theorem moreArgs_succ (ih : Tracked n) (s : Tracker) :
    Follows s (readMoreArgs (n + 1) s.ahead) (trackMoreArgs (n + 1) s) := by
  obtain ⟨cur, depth, ahead, trail⟩ := s
  have last : Follows ⟨cur, depth, ahead, trail⟩
      (do let rest ← expect .closeParen ahead; return ([], rest))
      ((do trackSymbol .closeParen; return [] : Track (List Expr)) ⟨cur, depth,
        ahead, trail⟩) :=
    trackSymbol_follows .closeParen fun s' _ => .pure s' _
  cases ahead with
  | nil => exact last
  | cons t tail =>
      cases t with
      | symbol sym =>
          cases sym with
          | comma =>
              refine .behind
                (.advance (.bind (.behind (ih.expr _ _)) fun arg s₁ _ => ?_))
              exact .bind (ih.moreArgs s₁) fun args s₂ _ => .pure s₂ _
          | _ => exact last
      | illegal | ident | int | str | keyword => exact last

private theorem elseBranch_succ (ih : Tracked n) (s : Tracker) :
    Follows s (readElse (n + 1) s.ahead) (trackElse (n + 1) s) := by
  obtain ⟨cur, depth, ahead, trail⟩ := s
  cases ahead with
  | nil => exact .pure _ _
  | cons t tail =>
      cases t with
      | keyword k =>
          cases k with
          | elseWord =>
              refine .behind (.advance (trackSymbol_follows _ fun s₁ _ => ?_))
              exact .bind (ih.block s₁) fun no s₂ _ => .pure s₂ _
          | _ => exact .pure _ _
      | illegal | ident | int | str | symbol => exact .pure _ _

private theorem block_succ (ih : Tracked n) (s : Tracker) :
    Follows s (readBlock (n + 1) s.ahead) (trackBlock (n + 1) s) := by
  obtain ⟨cur, depth, ahead, trail⟩ := s
  have more : Follows ⟨cur, depth, ahead, trail⟩
      (readStmtWithin n ahead >>= fun stmt =>
        readBlock n stmt.2 >>= fun stmts => .ok (stmt.1 :: stmts.1, stmts.2))
      ((do
        let stmt ← trackStmt n
        let stmts ← trackBlock n
        return stmt :: stmts : Track Block) ⟨cur, depth, ahead, trail⟩) := by
    refine .bind (.behind (ih.stmt ⟨cur, depth, ahead, trail⟩))
      fun stmt s₁ _ => ?_
    exact .bind (ih.block s₁) fun stmts s₂ _ => .pure s₂ _
  cases ahead with
  | nil => exact .missing _ _
  | cons t tail =>
      cases t with
      | symbol sym =>
          cases sym with
          | closeBrace => exact .behind (.advance (.pure _ _))
          | _ => exact more
      | illegal | ident | int | str | keyword => exact more

/-- The two keywords are passed; any other token is left to the expression. -/
private theorem stmt_succ (ih : Tracked n) (s : Tracker) :
    Follows s.next (readStmtWithin (n + 1) s.ahead) (trackStmt (n + 1) s) := by
  obtain ⟨cur, depth, ahead, trail⟩ := s
  -- an expression and what is made of it
  have valued (make : Expr → Stmt) (s : Tracker) :
      Follows s.next
        (readExpr n lowestLevel s.ahead >>= fun value =>
          .ok (make value.1, skipSemicolon value.2))
        ((do
          let value ← trackExpr n lowestLevel
          trackSemicolon
          return make value : Track Stmt) s) :=
    .bind (ih.expr _ s) fun value s₁ _ => trackSemicolon_follows s₁ (make value)
  cases ahead with
  | nil => exact valued .expr _
  | cons t tail =>
      cases t with
      | keyword k =>
          cases k with
          | letWord =>
              refine .advance (.bind (trackName_follows _) fun name s₁ _ => ?_)
              exact trackSymbol_follows _ fun s₂ _ =>
                .behind (valued (.bind name) s₂)
          | returnWord =>
              rw [readStmtWithin]
              show Follows _ _ ((advance >>= fun _ =>
                if endsReturn tail then trackSemicolon >>= fun _ =>
                  Pure.pure (.ret none)
                else trackExpr n lowestLevel >>= fun value =>
                  trackSemicolon >>= fun _ =>
                    Pure.pure (.ret (some value)) : Track Stmt) _)
              by_cases bare : endsReturn tail = true
              · simp only [if_pos bare]
                exact .advance (trackSemicolon_follows _ _)
              · simp only [if_neg bare]
                exact .advance
                  (.behind (valued (fun value => .ret (some value)) _))
          | _ => exact valued .expr _
      | illegal | ident | int | str | symbol => exact valued .expr _

end Tracked

/-- Reading from a tracker is reading, whatever the bound. -/
theorem tracked (n : Nat) : Tracked n := by
  induction n with
  | zero =>
      exact ⟨fun _ s => .missingOperand s, .missingOperand,
        fun _ _ s => .behind (.missingOperand s), .missingOperand, fun s =>
          .behind (.missingOperand s), fun s => .behind (.missingOperand s),
        fun s => .behind (.missingOperand s), .missingOperand⟩
  | succ n ih =>
      refine ⟨fun level s => ?_, ih.operand_succ, ih.tail_succ, ih.args_succ,
        ih.moreArgs_succ, ih.elseBranch_succ, ih.block_succ, ih.stmt_succ⟩
      rw [readExpr, trackExpr]
      exact .bind (ih.operand s) fun operand s₁ _ => ih.tail level operand s₁

-- ============================================================== results

/-- A statement that was read is a stretch of tokens that closes the
braces it opens, and the count is back where it was. -/
theorem trackStmt_depth {n : Nat} {s s' : Tracker} {stmt : Stmt}
    (read : trackStmt n s = .ok stmt s') :
    s'.depth = s.depth
      ∧ ∃ front, s.ahead = front ++ s'.ahead ∧ ∀ depth,
        braceDepth depth front = depth := by
  have follows := (tracked n).stmt s
  rw [read] at follows
  obtain ⟨plain, leads⟩ := follows.behind.of_ok
  have phrase := (sound n).stmt s.ahead
  rw [plain] at phrase
  obtain ⟨front, split, balanced⟩ := Derives.balanced_front phrase
  obtain ⟨passed, split', depth, -⟩ := leads.front
  have same : passed = front :=
    List.append_cancel_right (split'.symm.trans split)
  rw [depth, same, balanced]
  exact ⟨rfl, front, split, balanced⟩

end Scriptlet
