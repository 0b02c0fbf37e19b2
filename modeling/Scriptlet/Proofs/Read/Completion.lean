/-
Where a reading fails, what it has read so far can be completed.

Reading never goes on into a dead end. Whatever is open when a token is
refused, some groups, argument lists, blocks and operators, can be closed
again with a few tokens, and the tokens before the refused one together
with these are a phrase of the grammar.

# The argument

A part of a program (`Part`) is what one reading function reads. It
covers some tokens if they are a phrase, with the bracket behind it where
there is one, and tokens can be completed to it if some more make them
that (`Part.Completable`), before all that may follow such a part. There
is one rule for each way in which a part stands inside another
(`Part.Completable.into` and those that follow it). The induction goes
along the reading functions: where one of them fails inside another, the
rule says how the outer part is completed, and where it fails between two
parts, what was read before is a phrase (`sound`) that may stand before
other tokens (`Derives.front`).
-/
import Scriptlet.Proofs.Read.Front
import Scriptlet.Proofs.Read.Lookahead

namespace Scriptlet

-- =============================================================== parts

/-- What a reading function reads. -/
inductive Part where
  | expr (level : Nat)
  | args
  | moreArgs
  | params
  | moreParams
  | block
  | stmt

namespace Part

/-- The tokens are such a part, up to `rest`. Lists include the
parenthesis or brace that closes them. -/
def Covers : Part → List Token → List Token → Prop
  | expr level, ts, rest =>
      ∃ e s, min (level + 1) unaryLevel ≤ Stratum.level s
        ∧ Derives (.expr s e) ts rest
  | args, ts, rest => ∃ es, Derives (.args es) ts (.symbol .closeParen :: rest)
  | moreArgs, ts, rest =>
      ∃ es, Derives (.moreArgs es) ts (.symbol .closeParen :: rest)
  | params, ts, rest =>
      ∃ names, ts = paramTokens names ++ .symbol .closeParen :: rest
  | moreParams, ts, rest =>
      ∃ names, ts = moreParamTokens names ++ .symbol .closeParen :: rest
  | block, ts, rest =>
      ∃ ss, Derives (.stmts ss) ts (.symbol .closeBrace :: rest)
  | stmt, ts, rest => ∃ s, Derives (.stmt s) ts rest

/-- What may follow such a part, whatever it ends with. -/
def Before : Part → List Token → Prop
  | expr _, rest => rest.head? ≠ some (.keyword .elseWord)
  | stmt, rest => EndsBlock rest
  | _, _ => True

/-- Some more tokens make such a part of these. -/
def Completable (part : Part) (done : List Token) : Prop :=
  ∃ more : List Token, (∀ t ∈ more, t.Scanned)
    ∧ ∀ rest, part.Before rest → part.Covers (done ++ (more ++ rest)) rest

/-- A phrase of the tightest stratum is an expression of every level. -/
private theorem covers_call {level : Nat} {e : Expr} {ts rest : List Token}
    (phrase : Derives (.expr .call e) ts rest) : (expr level).Covers ts rest :=
  ⟨e, .call, by simp only [Stratum.level, unaryLevel]; omega, phrase⟩

/-- What may carry on an expression of any level is an expression of the
lowest. -/
private theorem covers_lowest {level : Nat} {ts rest : List Token}
    (covers : (expr level).Covers ts rest) :
    ∃ e, Derives (.expr .equality e) ts rest := by
  obtain ⟨e, s, -, phrase⟩ := covers
  exact ⟨e, phrase.loosen (by cases s <;> decide)⟩

namespace Completable

variable {part part' : Part} {done : List Token}

/-- Fewer tokens can be completed too. -/
private theorem of_append (front ts : List Token)
    (h : part.Completable (front ++ ts)) (scanned : ∀ t ∈ ts, t.Scanned) :
    part.Completable front := by
  obtain ⟨more, scanned_more, covers⟩ := h
  refine ⟨ts ++ more, List.forall_mem_append.2 ⟨scanned, scanned_more⟩,
    fun rest before => ?_⟩
  have whole := covers rest before
  rw [List.append_assoc] at whole
  rw [List.append_assoc]
  exact whole

/-- The last token of a known stretch is taken back. -/
private theorem of_concat {front mid : List Token} {t : Token}
    (h : part.Completable (front ++ (mid ++ [t]))) (scanned : t.Scanned) :
    part.Completable (front ++ mid) := by
  rw [← List.append_assoc] at h
  exact .of_append _ [t] h (List.forall_mem_singleton.2 scanned)

/-- A part that is complete. -/
private theorem of_covers (covers : ∀ rest, part.Before rest → part.Covers
      (done ++ rest) rest) :
    part.Completable done :=
  ⟨[], by simp, covers⟩

/-- One part inside another: `front` stands before it, and `tail` is put
behind it. -/
private theorem into (h : part'.Completable done) (front tail : List Token)
    (scanned : ∀ t ∈ tail, t.Scanned)
    (before : ∀ rest, part.Before rest → part'.Before (tail ++ rest))
    (build : ∀ more rest, part.Before rest → part'.Covers (done ++ more)
      (tail ++ rest) →
      part.Covers (front ++ (done ++ more)) rest) : part.Completable
        (front ++ done) := by
  obtain ⟨more, scanned_more, covers⟩ := h
  refine ⟨more ++ tail, List.forall_mem_append.2 ⟨scanned_more, scanned⟩,
    fun rest ok => ?_⟩
  have inner := covers (tail ++ rest) (before rest ok)
  rw [← List.append_assoc more] at inner
  rw [List.append_assoc]
  exact build _ rest ok inner

/-- Nothing has been read yet. -/
private theorem start (part : Part) : part.Completable [] := by
  have closing (s : Symbol) : ∀ t ∈ [Token.symbol s], t.Scanned :=
    List.forall_mem_singleton.2 (scanned_symbol s)
  have value : ∀ t ∈ [Token.keyword .trueWord], t.Scanned :=
    List.forall_mem_singleton.2 (scanned_keyword _)
  cases part with
  | expr level => exact ⟨_, value, fun rest _ => covers_call (.trueWord rest)⟩
  | args => exact ⟨_, closing .closeParen, fun rest _ => ⟨[], .noArgs _⟩⟩
  | moreArgs =>
      exact ⟨_, closing .closeParen, fun rest _ => ⟨[], .noMoreArgs _⟩⟩
  | params => exact ⟨_, closing .closeParen, fun rest _ => ⟨[], rfl⟩⟩
  | moreParams => exact ⟨_, closing .closeParen, fun rest _ => ⟨[], rfl⟩⟩
  | block => exact ⟨_, closing .closeBrace, fun rest _ => ⟨[], .noStmts _⟩⟩
  | stmt =>
      refine ⟨_, value, fun rest ended => ?_⟩
      have phrase : Derives (.expr .call (.bool true))
          (.keyword .trueWord :: rest) rest :=
        .trueWord rest
      exact ⟨_, .expr (phrase.loosen (by decide)) ended.ends⟩

-- ========================================================= expressions

/-- An expression that has been read. -/
private theorem of_expr {e : Expr} {front mid : List Token}
    (phrase : ∀ rest, (Phrase.expr .equality e).Admits mid rest →
      Derives (.expr .equality e) (front ++ rest) rest) :
    (expr lowestLevel).Completable front :=
  .of_covers fun rest no_else =>
    ⟨e, .equality, by decide, phrase rest (.inr no_else)⟩

/-- What completes an expression at one level completes it at any looser
one. -/
private theorem looser {level level' : Nat} (h : (expr level').Completable done)
    (le : min (level + 1) unaryLevel ≤ min (level' + 1) unaryLevel) :
    (expr level).Completable done := by
  refine h.into [] [] (by simp) (fun _ before => before)
    fun more rest _ covers => ?_
  obtain ⟨e, s, high, phrase⟩ := covers
  exact ⟨e, s, Nat.le_trans le high, phrase⟩

/-- An operand makes an operand behind a unary operator. -/
private theorem unary (op : UnaryOp) (h : (expr unaryLevel).Completable done) :
    (expr unaryLevel).Completable ([.symbol op.symbol] ++ done) := by
  refine h.into _ [] (by simp) (fun _ before => before)
    fun more rest _ covers => ?_
  obtain ⟨e, s, high, phrase⟩ := covers
  exact ⟨.unary op e, .unary, by decide, .unary (phrase.loosen high)⟩

/-- A group is closed by its parenthesis. -/
private theorem group (h : (expr lowestLevel).Completable done) :
    (expr unaryLevel).Completable ([.symbol .openParen] ++ done) := by
  refine h.into _ [.symbol .closeParen]
    (List.forall_mem_singleton.2 (scanned_symbol _))
    (fun _ _ => by simp [Before]) fun more rest _ covers => ?_
  obtain ⟨e, phrase⟩ := covers_lowest covers
  exact covers_call (.group phrase)

/-- The right operand of an operator. Its left one is read and stays. -/
private theorem binary {level : Nat} {op : BinaryOp} {left : Expr}
    {front : List Token} (left_ok : ∀ rest, Derives (.expr op.stratum left)
      (front ++ .symbol op.symbol :: rest) (.symbol op.symbol :: rest))
    (above : level < op.level) (h : (expr op.level).Completable done) :
    (expr level).Completable (front ++ [.symbol op.symbol] ++ done) := by
  refine h.into _ [] (by simp) (fun _ before => before)
    fun more rest _ covers => ?_
  obtain ⟨right, s, high, phrase⟩ := covers
  have below := op.level_lt_unaryLevel
  refine ⟨.binary op left right, op.stratum,
    by rw [op.level_stratum]; omega, ?_⟩
  rw [List.append_assoc]
  exact .binary (left_ok _) (phrase.loosen (by rw [op.level_tighter]; omega))

/-- The arguments of a call. What is called is read and stays. -/
private theorem call {level : Nat} {callee : Expr} {front : List Token}
    (callee_ok : ∀ rest, Derives (.expr .call callee)
      (front ++ .symbol .openParen :: rest) (.symbol .openParen :: rest))
    (h : args.Completable done) :
    (expr level).Completable (front ++ [.symbol .openParen] ++ done) := by
  refine h.into _ [] (by simp) (fun _ _ => trivial) fun more rest _ covers => ?_
  obtain ⟨es, phrase⟩ := covers
  rw [List.append_assoc]
  exact covers_call (.call (callee_ok _) phrase)

/-- The test of a conditional. The parenthesis and an empty block complete
what is around it. -/
private theorem test (h : (expr lowestLevel).Completable done) :
    (expr unaryLevel).Completable
      ([.keyword .ifWord, .symbol .openParen] ++ done) := by
  refine h.into _ [.symbol .closeParen, .symbol .openBrace, .symbol .closeBrace]
    (by simp [scanned_symbol]) (fun _ _ => by simp [Before])
      fun more rest no_else covers => ?_
  obtain ⟨e, phrase⟩ := covers_lowest covers
  exact covers_call (.cond phrase (.noStmts _) no_else)

/-- The first block of a conditional, which needs no second one. -/
private theorem branch {test : Expr} {front : List Token}
    (test_ok : ∀ rest, Derives (.expr .equality test)
      (front ++ .symbol .closeParen :: rest) (.symbol .closeParen :: rest))
    (h : block.Completable done) :
    (expr unaryLevel).Completable
      ([.keyword .ifWord, .symbol .openParen] ++ front
        ++ [.symbol .closeParen, .symbol .openBrace] ++ done) := by
  refine h.into _ [] (by simp) (fun _ _ => trivial)
    fun more rest no_else covers => ?_
  obtain ⟨yes, phrase⟩ := covers
  simp only [List.append_assoc, List.cons_append, List.nil_append]
  exact covers_call (.cond (test_ok _) phrase no_else)

/-- The second block of a conditional. -/
private theorem elseBranch {test : Expr} {yes : Block}
    {front front' : List Token}
    (test_ok : ∀ rest, Derives (.expr .equality test)
      (front ++ .symbol .closeParen :: rest) (.symbol .closeParen :: rest))
    (yes_ok : ∀ rest, Derives (.stmts yes)
      (front' ++ .symbol .closeBrace :: rest) (.symbol .closeBrace :: rest))
    (h : block.Completable done) :
    (expr unaryLevel).Completable
      ([.keyword .ifWord, .symbol .openParen] ++ front
        ++ [.symbol .closeParen, .symbol .openBrace] ++ front'
        ++ [.symbol .closeBrace, .keyword .elseWord, .symbol .openBrace]
          ++ done) := by
  refine h.into _ [] (by simp) (fun _ _ => trivial) fun more rest _ covers => ?_
  obtain ⟨no, phrase⟩ := covers
  simp only [List.append_assoc, List.cons_append, List.nil_append]
  exact covers_call (.condElse (test_ok _) (yes_ok _) phrase)

/-- The parameters of a function literal; an empty body completes it. -/
private theorem fnParams (h : params.Completable done) :
    (expr unaryLevel).Completable
      ([.keyword .fnWord, .symbol .openParen] ++ done) := by
  refine h.into _ [.symbol .openBrace, .symbol .closeBrace]
    (by simp [scanned_symbol]) (fun _ _ => trivial) fun more rest _ covers => ?_
  obtain ⟨names, eq⟩ := covers
  rw [eq]
  exact covers_call (.fn (.noStmts _))

/-- The body of a function literal. -/
private theorem fnBody (names : List String) (h : block.Completable done) :
    (expr unaryLevel).Completable
      ([.keyword .fnWord, .symbol .openParen] ++ paramTokens names
        ++ [.symbol .closeParen, .symbol .openBrace] ++ done) := by
  refine h.into _ [] (by simp) (fun _ _ => trivial) fun more rest _ covers => ?_
  obtain ⟨body, phrase⟩ := covers
  simp only [List.append_assoc, List.cons_append, List.nil_append]
  exact covers_call (.fn phrase)

-- =============================================================== lists

/-- The parameters behind one more. -/
private theorem nextParam {name : String} (h : moreParams.Completable done) :
    moreParams.Completable ([.symbol .comma, .ident name] ++ done) := by
  refine h.into _ [] (by simp) (fun _ _ => trivial) fun more rest _ covers => ?_
  obtain ⟨names, eq⟩ := covers
  rw [eq]
  exact ⟨name :: names, rfl⟩

/-- The parameters behind the first one. -/
private theorem firstParam {name : String} (h : moreParams.Completable done) :
    params.Completable ([.ident name] ++ done) := by
  refine h.into _ [] (by simp) (fun _ _ => trivial) fun more rest _ covers => ?_
  obtain ⟨names, eq⟩ := covers
  rw [eq]
  exact ⟨name :: names, rfl⟩

/-- An argument list whose first argument is open is closed behind it. -/
private theorem firstArg (h : (expr lowestLevel).Completable done) :
    args.Completable done := by
  refine h.into [] [.symbol .closeParen]
    (List.forall_mem_singleton.2 (scanned_symbol _))
    (fun _ _ => by simp [Before]) fun more rest _ covers => ?_
  obtain ⟨e, phrase⟩ := covers_lowest covers
  exact ⟨[e], .firstArg phrase (.noMoreArgs _)⟩

/-- So is a list with an argument open behind a comma. -/
private theorem nextArg (h : (expr lowestLevel).Completable done) :
    moreArgs.Completable ([.symbol .comma] ++ done) := by
  refine h.into _ [.symbol .closeParen]
    (List.forall_mem_singleton.2 (scanned_symbol _))
    (fun _ _ => by simp [Before]) fun more rest _ covers => ?_
  obtain ⟨e, phrase⟩ := covers_lowest covers
  exact ⟨[e], .nextArg phrase (.noMoreArgs _)⟩

/-- A completed list behind a phrase that has been read. Where nothing of
the list has been read yet the phrase has seen another token, so the list
is closed at once. -/
private theorem admitted {x : Phrase} {mid back : List Token}
    (h : part.Completable done) (split : mid = done ++ back) {s : Symbol}
    (closed : ∀ rest, part.Covers (.symbol s :: rest) rest)
    (stops : ∀ rest, x.Admits mid (.symbol s :: rest)) :
    ∃ more : List Token, (∀ t ∈ more, t.Scanned) ∧ ∀ rest, part.Before rest →
      part.Covers (done ++ (more ++ rest)) rest ∧ x.Admits mid
        (done ++ (more ++ rest)) := by
  cases done with
  | nil =>
      refine ⟨[.symbol s], List.forall_mem_singleton.2 (scanned_symbol s),
        fun rest _ => ?_⟩
      exact ⟨closed rest, stops rest⟩
  | cons t done =>
      obtain ⟨more, scanned, covers⟩ := h
      refine ⟨more, scanned, fun rest before => ⟨covers rest before, ?_⟩⟩
      rw [split]
      exact x.admits_of_head?_eq rfl

section

variable {e : Expr} {front mid back : List Token}
    (arg_ok : ∀ rest, (Phrase.expr .equality e).Admits mid rest →
      Derives (.expr .equality e) (front ++ rest) rest)
    (split : mid = done ++ back) (h : moreArgs.Completable done)
include arg_ok split h

/-- With one argument read, what completes the arguments behind it leaves
the argument what it was. -/
private theorem exists_moreArgs :
    ∃ more : List Token, (∀ t ∈ more, t.Scanned) ∧ ∀ rest, ∃ es,
    Derives (.expr .equality e) (front ++ (done ++ (more ++ rest)))
        (done ++ (more ++ rest))
      ∧ Derives (.moreArgs es) (done ++ (more ++ rest))
        (.symbol .closeParen :: rest) := by
  obtain ⟨more, scanned, both⟩ := h.admitted split (x := .expr .equality e)
    (fun rest => ⟨[], .noMoreArgs (.symbol .closeParen :: rest)⟩)
      fun rest => .inr (by simp)
  refine ⟨more, scanned, fun rest => ?_⟩
  obtain ⟨⟨es, phrase⟩, admits⟩ := both rest trivial
  exact ⟨es, arg_ok _ admits, phrase⟩

/-- The arguments behind the first one. -/
private theorem firstArg_moreArgs : args.Completable (front ++ done) := by
  obtain ⟨more, scanned, phrases⟩ := exists_moreArgs arg_ok split h
  refine ⟨more, scanned, fun rest _ => ?_⟩
  obtain ⟨es, arg, others⟩ := phrases rest
  rw [List.append_assoc]
  exact ⟨e :: es, .firstArg arg others⟩

/-- The arguments behind one that follows a comma. -/
private theorem nextArg_moreArgs :
    moreArgs.Completable ([.symbol .comma] ++ front ++ done) := by
  obtain ⟨more, scanned, phrases⟩ := exists_moreArgs arg_ok split h
  refine ⟨more, scanned, fun rest _ => ?_⟩
  obtain ⟨es, arg, others⟩ := phrases rest
  simp only [List.append_assoc]
  exact ⟨e :: es, .nextArg arg others⟩

end

-- ========================================================== statements

/-- The value of a binding. -/
private theorem bind {name : String} (h : (expr lowestLevel).Completable done) :
    stmt.Completable
      ([.keyword .letWord, .ident name, .symbol .assign] ++ done) := by
  refine h.into _ [] (by simp) (fun _ ended => EndsBlock.parts ended |>.2)
    fun more rest ended covers => ?_
  obtain ⟨e, phrase⟩ := covers_lowest covers
  exact ⟨_, .bind phrase (EndsBlock.ends ended)⟩

/-- The value of a `return`. -/
private theorem ret (h : (expr lowestLevel).Completable done) :
    stmt.Completable ([.keyword .returnWord] ++ done) := by
  refine h.into _ [] (by simp) (fun _ ended => EndsBlock.parts ended |>.2)
    fun more rest ended covers => ?_
  obtain ⟨e, phrase⟩ := covers_lowest covers
  exact ⟨_, .ret phrase (EndsBlock.ends ended)⟩

/-- An expression is a statement. -/
private theorem exprStmt (h : (expr lowestLevel).Completable done) :
    stmt.Completable done := by
  refine h.into [] [] (by simp) (fun _ ended => EndsBlock.parts ended |>.2)
    fun more rest ended covers => ?_
  obtain ⟨e, phrase⟩ := covers_lowest covers
  exact ⟨_, .expr phrase (EndsBlock.ends ended)⟩

/-- A block is closed behind its first statement. -/
private theorem firstStmt (h : stmt.Completable done) :
    block.Completable done := by
  refine h.into [] [.symbol .closeBrace]
    (List.forall_mem_singleton.2 (scanned_symbol _)) (fun _ _ => .inr ⟨_, rfl⟩)
      fun more rest _ covers => ?_
  obtain ⟨s, phrase⟩ := covers
  exact ⟨[s], .stmts phrase (.noStmts _)⟩

/-- The statements behind one that is read. That one does not take in what
completes them, since it was read up to where they start. -/
private theorem nextStmts {s : Stmt} {front mid back : List Token}
    (stmt_ok : ∀ rest, Replaces rest mid → Derives (.stmt s)
      (front ++ rest) rest)
    (split : mid = done ++ back) (h : block.Completable done) :
    block.Completable (front ++ done) := by
  obtain ⟨more, scanned, both⟩ := h.admitted split (x := .stmt s)
    (fun rest => ⟨[], .noStmts (.symbol .closeBrace :: rest)⟩) fun rest =>
      .inr (.inr ⟨rest, rfl⟩)
  refine ⟨more, scanned, fun rest _ => ?_⟩
  obtain ⟨⟨ss, phrase⟩, admits⟩ := both rest trivial
  rw [List.append_assoc]
  exact ⟨s :: ss, .stmts (stmt_ok _ admits) phrase⟩

end Completable

end Part

-- ============================================================ failures

/-- Where the reading has failed, the tokens before that place can be
completed. -/
def Rescues {α : Type} (part : Part) (start : List Token) : Reading α → Prop
  | .ok _ => True
  | .error failure =>
      ∃ done, start = done ++ failure.unread ∧ part.Completable done

namespace Rescues

variable {α β : Type} {part part' : Part} {start ts : List Token}
    {r : Reading α}

/-- The second reading starts behind a phrase, so it may use what the first
one ensures. -/
private theorem bind {P : α → Prop} {f : α → Reading β}
    (h : Rescues part start r) (ensures : Ensures P r)
    (hf : ∀ a, P a → Rescues part start (f a)) :
    Rescues part start (r >>= f) := by
  cases r with
  | error failure => exact h
  | ok a => exact hf a ensures

/-- A failure inside a part is one inside the part around it. -/
private theorem inside (h : Rescues part' ts r) (front : List Token)
    (eq : start = front ++ ts)
    (up : ∀ done back, ts = done ++ back → part'.Completable done →
      part.Completable (front ++ done)) : Rescues part start r := by
  cases r with
  | ok a => trivial
  | error failure =>
      obtain ⟨done, split, completable⟩ := h
      refine ⟨front ++ done, ?_, up done _ split completable⟩
      rw [eq, split, List.append_assoc]

/-- A token found missing behind a completable front. -/
private theorem of_missing {wanted : Wanted} (front : List Token)
    (eq : start = front ++ ts) (completable : part.Completable front) :
    Rescues part start (missing wanted ts : Reading α) :=
  ⟨front, eq, completable⟩

/-- An operand found missing behind a completable front. -/
private theorem of_missingOperand (front : List Token)
    (eq : start = front ++ ts) (completable : part.Completable front) :
    Rescues part start (missingOperand ts : Reading α) :=
  ⟨front, by rw [unread_missingOperand]; exact eq, completable⟩

end Rescues

private theorem expect_rescues {part : Part} {start ts : List Token}
    (s : Symbol) (front : List Token) (eq : start = front ++ ts)
    (completable : part.Completable front) :
    Rescues part start (expect s ts) := by
  unfold expect
  split
  · split
    · trivial
    · exact .of_missing front eq completable
  · exact .of_missing front eq completable

private theorem expectName_rescues {part : Part} {start ts : List Token}
    (front : List Token) (eq : start = front ++ ts)
    (completable : part.Completable front) :
    Rescues part start (expectName ts) := by
  unfold expectName
  split
  · trivial
  · exact .of_missing front eq completable

/-- Some name, where one is missing. -/
private theorem exists_scanned_name : ∃ name, (Token.ident name).Scanned := by
  have free : IsName "x" := by decide
  exact ⟨"x", _, [], .ident free.1 free.2 (endsRun_nil _)⟩

/-- By the pattern of the reading: behind a comma a name is wanted, and
elsewhere the parenthesis. -/
private theorem readMoreParams_rescues (ts : List Token) :
    Rescues .moreParams ts (readMoreParams ts) := by
  fun_induction readMoreParams ts with
  | case1 name rest ih =>
      have behind := ih.inside [.symbol .comma, .ident name] rfl
          fun _ _ _ h => h.nextParam
      exact behind.bind (readMoreParams_ensures rest) fun _ _ => trivial
  | case2 rest =>
      obtain ⟨name, scanned⟩ := exists_scanned_name
      have named : Part.moreParams.Completable
          ([.symbol .comma] ++ [.ident name]) :=
        (Part.Completable.start _).nextParam
      exact .of_missing [.symbol .comma] rfl
        (.of_append _ _ named (List.forall_mem_singleton.2 scanned))
  | case3 ts _ _ =>
      have closing := expect_rescues .closeParen []
        (show ts = [] ++ ts from rfl) (Part.Completable.start .moreParams)
      exact closing.bind (expect_ensures _ ts) fun _ _ => trivial

/-- The parameter list, by its first token. -/
private theorem readParams_rescues (ts : List Token) :
    Rescues .params ts (readParams ts) := by
  unfold readParams
  split
  · trivial
  · refine (expectName_rescues [] rfl (.start _)).bind (expectName_ensures _)
      fun a eq => ?_
    have behind := (readMoreParams_rescues a.2).inside [.ident a.1] eq
        fun _ _ _ h => h.firstParam
    exact behind.bind (readMoreParams_ensures a.2) fun _ _ => trivial

-- ==================================================== all the functions

/-- Where any of the reading functions fails, whatever its bound, what it
has read can be completed. -/
structure Rescued (n : Nat) : Prop where
  expr (level : Nat) (ts : List Token) :
    Rescues (.expr level) ts (readExpr n level ts)
  operand (ts : List Token) : Rescues (.expr unaryLevel) ts (readOperand n ts)
  tail (level : Nat) {start ts : List Token} {left : Expr}
    (h : Complete level start left ts) :
    Rescues (.expr level) start (readTail n level left ts)
  args (ts : List Token) : Rescues .args ts (readArgs n ts)
  moreArgs (ts : List Token) : Rescues .moreArgs ts (readMoreArgs n ts)
  elseBranch {test : Expr} {yes : Block} {start mid ts : List Token}
    (test_ok : Derives (.expr .equality test) start
      (.symbol .closeParen :: .symbol .openBrace :: mid))
    (yes_ok : Derives (.stmts yes) mid (.symbol .closeBrace :: ts)) :
    Rescues (.expr unaryLevel) (.keyword .ifWord :: .symbol .openParen :: start)
    (readElse n ts)
  block (ts : List Token) : Rescues .block ts (readBlock n ts)
  stmt (ts : List Token) : Rescues .stmt ts (readStmtWithin n ts)

namespace Rescued

variable {n : Nat}

/-- At bound zero each reading fails at once, and nothing is read. -/
private theorem zero : Rescued 0 := by
  constructor
  case tail =>
    intro level start ts left complete
    obtain ⟨s, high, phrase, -⟩ := complete
    obtain ⟨front, rfl, again⟩ := phrase.front
    exact .of_missingOperand front rfl
      (.of_covers fun rest no_else =>
        ⟨left, s, high, again rest (.inr no_else)⟩)
  case elseBranch =>
    intro test yes start mid ts test_ok yes_ok
    obtain ⟨front, rfl, test_phrase⟩ := test_ok.front
    obtain ⟨front', rfl, yes_phrase⟩ := yes_ok.front
    refine .of_missingOperand ([.keyword .ifWord, .symbol .openParen] ++ front
      ++ [.symbol .closeParen,
        .symbol .openBrace] ++ (front' ++ [.symbol .closeBrace]))
      (by simp) (.of_covers fun rest no_else => ?_)
    simp only [List.append_assoc, List.cons_append, List.nil_append]
    exact Part.covers_call (.cond (test_phrase _ (.inl rfl))
      (yes_phrase _ (.inl rfl)) no_else)
  all_goals
    intros
    exact .of_missingOperand [] rfl (.start _)

private theorem unary (ih : Rescued n) (op : UnaryOp) (ts : List Token) :
    Rescues (.expr unaryLevel) (.symbol op.symbol :: ts) (do
      let (e, rest) ← readExpr n unaryLevel ts
      return (Expr.unary op e, rest)) := by
  have operand := (ih.expr unaryLevel ts).inside [.symbol op.symbol] rfl
      fun _ _ _ h => h.unary op
  exact operand.bind ((sound n).expr _ _) fun _ _ => trivial

private theorem group (ih : Rescued n) (ts : List Token) :
    Rescues (.expr unaryLevel) (.symbol .openParen :: ts) (do
      let (inner, rest) ← readExpr n lowestLevel ts
      let rest ← expect .closeParen rest
      return (inner, rest)) := by
  refine ((ih.expr lowestLevel ts).inside [.symbol .openParen] rfl
    fun _ _ _ h => h.group).bind ((sound n).lowest ts) fun a ha => ?_
  obtain ⟨front, eq, phrase⟩ := ha.1.front
  refine (expect_rescues .closeParen ([.symbol .openParen] ++ front)
    (by rw [eq]; rfl) (Part.Completable.of_expr phrase).group).bind
      (expect_ensures _ _) fun _ _ => trivial

/-- A conditional can fail in seven places, and each has its part: the test,
the blocks, the brackets around them. -/
private theorem cond (ih : Rescued n) (ts : List Token) :
    Rescues (.expr unaryLevel) (.keyword .ifWord :: ts) (do
      let rest ← expect .openParen ts
      let (test, rest) ← readExpr n lowestLevel rest
      let rest ← expect .closeParen rest
      let rest ← expect .openBrace rest
      let (yes, rest) ← readBlock n rest
      let (no, rest) ← readElse n rest
      return (Expr.cond test yes no, rest)) := by
  have opening : (Part.expr unaryLevel).Completable [.keyword .ifWord] :=
    .of_append _ [.symbol .openParen] (Part.Completable.start _).test
      (by simp [scanned_symbol])
  refine (expect_rescues .openParen [.keyword .ifWord] rfl opening).bind
    (expect_ensures _ _) fun start eq₁ => ?_
  refine ((ih.expr lowestLevel start).inside
    [.keyword .ifWord, .symbol .openParen] (by rw [eq₁]; rfl) fun _ _ _ h =>
      h.test).bind ((sound n).lowest start) fun test ht => ?_
  obtain ⟨front, eq₂, phrase⟩ := ht.1.front
  have test_ok (rest : List Token) :=
    phrase (.symbol .closeParen :: rest) (.inr (by simp))
  have entering := (Part.Completable.start .block).branch test_ok
  rw [List.append_nil] at entering
  refine (expect_rescues .closeParen
    ([.keyword .ifWord, .symbol .openParen] ++ front) (by simp [eq₁, eq₂])
    (.of_append _ _ entering (by simp [scanned_symbol]))).bind
    (expect_ensures _ _) fun mid eq₃ => ?_
  refine (expect_rescues .openBrace
    ([.keyword .ifWord, .symbol .openParen] ++ front ++ [.symbol .closeParen])
    (by simp [eq₁, eq₂, eq₃]) (.of_concat entering (scanned_symbol _))).bind
      (expect_ensures _ _)
    fun mid' eq₄ => ?_
  refine ((ih.block mid').inside _ (by simp [eq₁, eq₂, eq₃, eq₄])
    fun _ _ _ h => h.branch test_ok).bind ((sound n).block mid')
      fun yes hy => ?_
  have test_derives : Derives (.expr .equality test.1) start
      (.symbol .closeParen :: .symbol .openBrace :: mid') := by
    rw [← eq₄, ← eq₃]
    exact ht.1
  rw [eq₁]
  exact (ih.elseBranch test_derives hy).bind
    ((sound n).elseBranch test_derives hy) fun _ _ => trivial

/-- A function literal fails in its parameters, before its body, or in it. -/
private theorem fn (ih : Rescued n) (ts : List Token) :
    Rescues (.expr unaryLevel) (.keyword .fnWord :: ts) (do
      let rest ← expect .openParen ts
      let (params, rest) ← readParams rest
      let rest ← expect .openBrace rest
      let (body, rest) ← readBlock n rest
      return (Expr.fn params body, rest)) := by
  have opening : (Part.expr unaryLevel).Completable [.keyword .fnWord] :=
    .of_append _ [.symbol .openParen] (Part.Completable.start _).fnParams
      (by simp [scanned_symbol])
  refine (expect_rescues .openParen [.keyword .fnWord] rfl opening).bind
    (expect_ensures _ _) fun start eq₁ => ?_
  refine ((readParams_rescues start).inside
    [.keyword .fnWord, .symbol .openParen] (by rw [eq₁]; rfl) fun _ _ _ h =>
      h.fnParams).bind (readParams_ensures start)
    fun params eq₂ => ?_
  have entering := (Part.Completable.start .block).fnBody params.1
  rw [List.append_nil] at entering
  refine (expect_rescues .openBrace
    ([.keyword .fnWord, .symbol .openParen] ++ paramTokens
      params.1 ++ [.symbol .closeParen])
    (by simp [eq₁, eq₂]) (.of_concat entering (scanned_symbol _))).bind
      (expect_ensures _ _)
    fun mid eq₃ => ?_
  refine ((ih.block mid).inside _ (by simp [eq₁, eq₂, eq₃])
    fun _ _ _ h => h.fnBody params.1).bind ((sound n).block mid)
      fun _ _ => trivial

private theorem operand_succ (ih : Rescued n) (ts : List Token) :
    Rescues (.expr unaryLevel) ts (readOperand (n + 1) ts) := by
  rw [readOperand.eq_def]
  dsimp only
  split
  · trivial
  · split
    · trivial
    · exact ⟨[], rfl, .start _⟩
  · trivial
  · trivial
  · trivial
  · exact ih.unary .neg _
  · exact ih.unary .not _
  · exact ih.group _
  · exact ih.cond _
  · exact ih.fn _
  · exact .of_missingOperand [] rfl (.start _)

/-- An expression that is complete so far needs nothing; one with an
operator or a call open needs what completes that. -/
private theorem tail_succ (ih : Rescued n) (level : Nat) {start ts : List Token}
    {left : Expr} (h : Complete level start left ts) :
    Rescues (.expr level) start (readTail (n + 1) level left ts) := by
  obtain ⟨s, high, derived, bound⟩ := h
  rw [readTail.eq_def]
  dsimp only
  split
  · next symbol rest =>
      split
      · next op eq =>
          obtain rfl := BinaryOp.ofSymbol?_eq_some_iff.1 eq
          split
          · next above =>
              rw [pull_operator, ← op.level_stratum] at bound
              have left_ok := derived.loosen bound
              -- the left operand stands before whatever completes the right
              obtain ⟨front, eq, phrase⟩ := left_ok.front
              have left_again (rest : List Token) :=
                phrase (.symbol op.symbol :: rest) (.inr (by simp))
              have right : Rescues (.expr level) start
                  (readExpr n op.level rest) :=
                (ih.expr op.level rest).inside
                  (front ++ [.symbol op.symbol])
                  (by rw [eq, List.append_assoc]; rfl) fun _ _ _ h =>
                    h.binary left_again above
              refine right.bind ((sound n).expr op.level rest) fun a ha => ?_
              have right_ok :
                  Derives (.expr op.stratum.tighter a.1) rest a.2 := by
                refine ha.1.derives ?_
                rw [op.level_tighter]
                have below := op.level_lt_unaryLevel
                omega
              refine ih.tail level ⟨op.stratum, ?_,
                .binary left_ok right_ok, ?_⟩
              · rw [op.level_stratum]
                omega
              · rw [op.level_stratum]
                exact ha.2
          · trivial
      · split
        · next eq =>
            subst eq
            have callee_ok : Derives (.expr .call left) start
                (.symbol .openParen :: rest) :=
              derived.loosen bound
            obtain ⟨front, eq, phrase⟩ := callee_ok.front
            have callee_again (rest : List Token) :=
              phrase (.symbol .openParen :: rest) (.inr (by simp))
            have args : Rescues (.expr level) start (readArgs n rest) :=
              (ih.args rest).inside (front ++ [.symbol .openParen])
                (by rw [eq, List.append_assoc]; rfl) fun _ _ _ h =>
                  h.call callee_again
            refine args.bind ((sound n).args rest) fun a ha => ?_
            exact ih.tail level (.of_call (.call callee_ok ha))
        · trivial
  · trivial

private theorem args_succ (ih : Rescued n) (ts : List Token) :
    Rescues .args ts (readArgs (n + 1) ts) := by
  rw [readArgs.eq_def]
  dsimp only
  split
  · trivial
  · refine ((ih.expr lowestLevel ts).inside [] rfl fun _ _ _ h =>
      h.firstArg).bind ((sound n).lowest ts) fun arg ha => ?_
    obtain ⟨front, eq, phrase⟩ := ha.1.front
    refine ((ih.moreArgs arg.2).inside front eq fun _ _ split h =>
      .firstArg_moreArgs phrase split h).bind ((sound n).moreArgs arg.2)
        fun _ _ => trivial

private theorem moreArgs_succ (ih : Rescued n) (ts : List Token) :
    Rescues .moreArgs ts (readMoreArgs (n + 1) ts) := by
  rw [readMoreArgs.eq_def]
  dsimp only
  split
  · next rest =>
      refine ((ih.expr lowestLevel rest).inside [.symbol .comma] rfl
        fun _ _ _ h => h.nextArg).bind ((sound n).lowest rest) fun arg ha => ?_
      obtain ⟨front, eq, phrase⟩ := ha.1.front
      refine ((ih.moreArgs arg.2).inside ([.symbol .comma] ++ front)
        (by rw [eq]; rfl) fun _ _ split h =>
          .nextArg_moreArgs phrase split h).bind ((sound n).moreArgs arg.2)
        fun _ _ => trivial
  · exact (expect_rescues .closeParen [] rfl (.start _)).bind
      (expect_ensures _ _) fun _ _ => trivial

/-- The second branch fails inside a conditional, whose test and first block
are read. -/
private theorem elseBranch_succ (ih : Rescued n) {test : Expr} {yes : Block}
    {start mid ts : List Token} (test_ok : Derives (.expr .equality test) start
      (.symbol .closeParen :: .symbol .openBrace :: mid))
    (yes_ok : Derives (.stmts yes) mid (.symbol .closeBrace :: ts)) :
    Rescues (.expr unaryLevel) (.keyword .ifWord :: .symbol .openParen :: start)
      (readElse (n + 1) ts) := by
  rw [readElse.eq_def]
  dsimp only
  split
  · next rest =>
      obtain ⟨front, rfl, test_phrase⟩ := test_ok.front
      obtain ⟨front', rfl, yes_phrase⟩ := yes_ok.front
      have test_again (rest : List Token) :=
        test_phrase (.symbol .closeParen :: rest) (.inr (by simp))
      have yes_again (rest : List Token) :=
        yes_phrase (.symbol .closeBrace :: rest) (.inr (.inr ⟨rest, rfl⟩))
      have entering := (Part.Completable.start .block).elseBranch
          test_again yes_again
      rw [List.append_nil] at entering
      refine (expect_rescues .openBrace
        ([.keyword .ifWord, .symbol .openParen] ++ front
        ++ [.symbol .closeParen, .symbol .openBrace] ++ front'
        ++ [.symbol .closeBrace, .keyword .elseWord]) (by simp)
          (.of_concat entering (scanned_symbol _))).bind (expect_ensures _ _)
            fun mid eq => ?_
      subst eq
      refine ((ih.block mid).inside _ (by simp)
        fun _ _ _ h => h.elseBranch test_again yes_again).bind
          ((sound n).block mid)
        fun _ _ => trivial
  · trivial

private theorem block_succ (ih : Rescued n) (ts : List Token) :
    Rescues .block ts (readBlock (n + 1) ts) := by
  rw [readBlock.eq_def]
  dsimp only
  split
  · exact .of_missing [] rfl (.start _)
  · trivial
  · refine ((ih.stmt ts).inside [] rfl fun _ _ _ h => h.firstStmt).bind
      ((sound n).stmt ts) fun first hf => ?_
    obtain ⟨front, eq, phrase⟩ := hf.front
    refine ((ih.block first.2).inside front eq fun _ _ split h =>
      h.nextStmts phrase split).bind ((sound n).block first.2)
        fun _ _ => trivial

private theorem stmt_succ (ih : Rescued n) (ts : List Token) :
    Rescues .stmt ts (readStmtWithin (n + 1) ts) := by
  rw [readStmtWithin.eq_def]
  dsimp only
  split
  · next rest =>
      obtain ⟨name, scanned⟩ := exists_scanned_name
      have value (name : String) :
          Part.stmt.Completable [.keyword .letWord, .ident name,
            .symbol .assign] :=
        (Part.Completable.start _).bind
      refine (expectName_rescues [.keyword .letWord] rfl
        (.of_append _ [.ident name, .symbol .assign] (value name)
          (by simp [scanned, scanned_symbol]))).bind (expectName_ensures _)
            fun a eq₁ => ?_
      refine (expect_rescues .assign [.keyword .letWord, .ident a.1]
        (by rw [eq₁]; rfl) (.of_append _ [.symbol .assign] (value a.1)
          (by simp [scanned_symbol]))).bind
        (expect_ensures _ _) fun rest eq₂ => ?_
      refine ((ih.expr lowestLevel rest).inside
        [.keyword .letWord, .ident a.1, .symbol .assign] (by rw [eq₁, eq₂]; rfl)
          fun _ _ _ h => h.bind).bind ((sound n).expr _ _) fun _ _ => trivial
  · split
    · trivial
    · next rest _ =>
        exact ((ih.expr lowestLevel rest).inside [.keyword .returnWord] rfl
          fun _ _ _ h => h.ret).bind ((sound n).expr _ _) fun _ _ => trivial
  · exact ((ih.expr lowestLevel ts).inside [] rfl fun _ _ _ h =>
      h.exprStmt).bind ((sound n).expr _ _) fun _ _ => trivial

end Rescued

/-- Wherever a reading fails, what it has read can be completed. -/
theorem rescued (n : Nat) : Rescued n := by
  induction n with
  | zero => exact .zero
  | succ n ih =>
      refine ⟨fun level ts => ?_, ih.operand_succ, ih.tail_succ, ih.args_succ,
        ih.moreArgs_succ, ih.elseBranch_succ, ih.block_succ, ih.stmt_succ⟩
      rw [readExpr]
      refine ((ih.operand ts).inside [] rfl fun _ _ _ h =>
        h.looser (by omega)).bind ((sound n).operand ts) fun left hl =>
          ih.tail level hl.of_unaryLevel

/-- Where the reading of a statement fails, the tokens before that place
can be completed to a statement. -/
theorem completable_of_failure {ts : List Token} {failure : Failure}
    (failed : readStmt ts = .error failure) :
    ∃ done, ts = done ++ failure.unread ∧ Part.stmt.Completable done := by
  have rescues := (rescued (depthBound ts)).stmt ts
  rw [show readStmtWithin (depthBound ts) ts = _ from failed] at rescues
  exact rescues

end Scriptlet
