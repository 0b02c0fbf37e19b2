/-
A phrase and what follows it.

`Derives x ts rest` keeps the tokens behind the phrase in its indices,
because three rules look at the first of them. Here the phrase is taken
out: it is some tokens `front`, and it may stand before any other tokens
that those rules allow (`Derives.front`). An expression may stand before
everything but an `else`, which a conditional at its end would take.
Statements may stand before the end of a block, where a statement without
its semicolon and a `return` without a value are at home. Before tokens
that begin as the old ones did a phrase may stand in any case.
-/
import Scriptlet.Proofs.Program.Lines
import Scriptlet.Proofs.Program.RoundTrip

namespace Scriptlet

/-- What may stand in the place of `rest` behind a statement. -/
def Replaces (rest' rest : List Token) : Prop :=
  rest'.head? = rest.head? ∨ EndsBlock rest'

/-- A phrase that was found before `rest` may stand before `rest'`. -/
def Phrase.Admits (rest rest' : List Token) : Phrase → Prop
  | .expr _ _ | .args _ | .moreArgs _ =>
      rest'.head? = rest.head? ∨ rest'.head? ≠ some (.keyword .elseWord)
  | .stmt _ | .stmts _ => Replaces rest' rest

section
variable {rest rest' : List Token}

theorem Phrase.admits_of_head?_eq (x : Phrase)
    (same : rest'.head? = rest.head?) :
    x.Admits rest rest' := by
  cases x <;> exact .inl same

/-- What may stand behind a statement may stand behind its value. -/
private theorem Replaces.admits (replaces : Replaces rest' rest) (s : Stratum)
    (e : Expr) :
    (Phrase.expr s e).Admits rest rest' :=
  replaces.imp_right fun ended => ended.parts.2

/-- Where a second phrase follows the first one, nothing new is asked of
what follows both. -/
private theorem Phrase.Admits.prepend {x : Phrase}
    (admits : x.Admits rest rest') (front : List Token) :
    x.Admits (front ++ rest) (front ++ rest') := by
  cases front with
  | nil => exact admits
  | cons t tail => exact x.admits_of_head?_eq rfl

private theorem CarriesOn.congr (same : rest'.head? = rest.head?)
    (carries : CarriesOn rest') :
    CarriesOn rest := by
  unfold CarriesOn at carries
  rw [same] at carries
  exact carries

/-- A statement may end without its semicolon at the end of a block. -/
theorem EndsBlock.ends (ended : EndsBlock rest) : Ends rest rest :=
  .bare (pull_eq_zero_iff.1 ended.parts.1)

/-- A statement without its semicolon ends there as well. -/
private theorem Replaces.ends (replaces : Replaces rest' rest)
    (stops : ¬ CarriesOn rest) :
    Ends rest' rest' := by
  rcases replaces with same | ended
  · exact .bare fun carries => stops (carries.congr same)
  · exact ended.ends

/-- And so does a `return` without a value. -/
private theorem Replaces.leavesBare (replaces : Replaces rest' rest)
    (bare : LeavesBare rest) :
    LeavesBare rest' := by
  rcases replaces with same | rfl | ⟨tail, rfl⟩
  · unfold LeavesBare
    rw [same]
    exact bare
  · exact .inl rfl
  · exact .inr (.inr rfl)

/-- The optional semicolon belongs to the statement, so what follows it
follows the statement. -/
private theorem Ends.front {ts : List Token} (ends : Ends ts rest) :
    ∃ front, ts = front ++ rest
    ∧ ∀ rest', Replaces rest' rest → Ends (front ++ rest') rest' := by
  cases ends with
  | semicolon =>
      exact ⟨[.symbol .semicolon], rfl, fun rest' _ => .semicolon rest'⟩
  | bare stops => exact ⟨[], rfl, fun rest' replaces => replaces.ends stops⟩

end

/-- The tokens of a phrase stand before others as they stand before those
that follow here. -/
theorem Derives.front {x : Phrase} {ts rest : List Token}
    (d : Derives x ts rest) :
    ∃ front, ts = front ++ rest
      ∧ ∀ rest', x.Admits rest rest' → Derives x (front ++ rest') rest' := by
  induction d with
  | ident name rest =>
      exact ⟨[.ident name], rfl, fun rest' _ => .ident name rest'⟩
  | @int digits _ rest fits value =>
      exact ⟨[.int digits], rfl, fun rest' _ => .int rest' fits value⟩
  | str body rest => exact ⟨[.str body], rfl, fun rest' _ => .str body rest'⟩
  | trueWord rest =>
      exact ⟨[.keyword .trueWord], rfl, fun rest' _ => .trueWord rest'⟩
  | falseWord rest =>
      exact ⟨[.keyword .falseWord], rfl, fun rest' _ => .falseWord rest'⟩
  | group _ inner =>
      obtain ⟨front, rfl, phrase⟩ := inner
      refine ⟨.symbol .openParen :: (front ++ [.symbol .closeParen]), by simp,
        fun rest' _ => ?_⟩
      rw [List.cons_append, List.append_assoc]
      exact .group (phrase _ (.inl rfl))
  | cond _ _ no_else test yes =>
      obtain ⟨test_front, rfl, test_phrase⟩ := test
      obtain ⟨yes_front, rfl, yes_phrase⟩ := yes
      refine ⟨.keyword .ifWord :: .symbol .openParen ::
        (test_front ++ .symbol .closeParen :: .symbol .openBrace ::
          (yes_front ++ [.symbol .closeBrace])), by simp, ?_⟩
      intro rest' admits
      simp only [List.cons_append, List.append_assoc, List.nil_append]
      refine .cond (test_phrase _ (.inl rfl)) (yes_phrase _ (.inl rfl)) ?_
      rcases admits with same | no_else'
      · rw [same]
        exact no_else
      · exact no_else'
  | condElse _ _ _ test yes no =>
      obtain ⟨test_front, rfl, test_phrase⟩ := test
      obtain ⟨yes_front, rfl, yes_phrase⟩ := yes
      obtain ⟨no_front, rfl, no_phrase⟩ := no
      refine ⟨.keyword .ifWord :: .symbol .openParen ::
        (test_front ++ .symbol .closeParen :: .symbol .openBrace ::
          (yes_front ++ .symbol .closeBrace :: .keyword .elseWord ::
            .symbol .openBrace :: (no_front ++ [.symbol .closeBrace]))),
        by simp, ?_⟩
      intro rest' _
      simp only [List.cons_append, List.append_assoc, List.nil_append]
      exact .condElse (test_phrase _ (.inl rfl)) (yes_phrase _ (.inl rfl))
        (no_phrase _ (.inl rfl))
  | @fn params _ _ _ _ body =>
      obtain ⟨body_front, rfl, body_phrase⟩ := body
      refine ⟨.keyword .fnWord :: .symbol .openParen ::
        (paramTokens params ++ .symbol .closeParen :: .symbol .openBrace ::
          (body_front ++ [.symbol .closeBrace])), by simp, ?_⟩
      intro rest' _
      simp only [List.cons_append, List.append_assoc, List.nil_append]
      exact .fn (body_phrase _ (.inl rfl))
  | call _ _ callee args =>
      obtain ⟨callee_front, rfl, callee_phrase⟩ := callee
      obtain ⟨args_front, rfl, args_phrase⟩ := args
      refine ⟨callee_front
        ++ .symbol .openParen :: (args_front ++ [.symbol .closeParen]),
        by simp, ?_⟩
      intro rest' _
      simp only [List.cons_append, List.append_assoc, List.nil_append]
      exact .call (callee_phrase _ (.inl rfl)) (args_phrase _ (.inl rfl))
  | @unary op _ _ _ _ operand =>
      obtain ⟨front, rfl, phrase⟩ := operand
      exact ⟨.symbol op.symbol :: front, rfl,
        fun rest' admits => .unary (phrase rest' admits)⟩
  | @binary op _ _ _ _ _ _ _ left right =>
      obtain ⟨left_front, rfl, left_phrase⟩ := left
      obtain ⟨right_front, rfl, right_phrase⟩ := right
      refine ⟨left_front ++ .symbol op.symbol :: right_front, by simp,
        fun rest' admits => ?_⟩
      rw [List.append_assoc]
      exact .binary (left_phrase _ (.inl rfl)) (right_phrase rest' admits)
  | tighter _ inner =>
      obtain ⟨front, rfl, phrase⟩ := inner
      exact ⟨front, rfl, fun rest' admits => .tighter (phrase rest' admits)⟩
  | noArgs rest => exact ⟨[], rfl, fun rest' _ => .noArgs rest'⟩
  | noMoreArgs rest => exact ⟨[], rfl, fun rest' _ => .noMoreArgs rest'⟩
  | firstArg _ _ first others =>
      obtain ⟨first_front, rfl, first_phrase⟩ := first
      obtain ⟨others_front, rfl, others_phrase⟩ := others
      refine ⟨first_front ++ others_front, by simp, fun rest' admits => ?_⟩
      rw [List.append_assoc]
      exact .firstArg (first_phrase _
        (Phrase.Admits.prepend (x := .expr .equality _) admits _))
          (others_phrase rest' admits)
  | nextArg _ _ next others =>
      obtain ⟨next_front, rfl, next_phrase⟩ := next
      obtain ⟨others_front, rfl, others_phrase⟩ := others
      refine ⟨.symbol .comma :: (next_front ++ others_front), by simp,
        fun rest' admits => ?_⟩
      rw [List.cons_append, List.append_assoc]
      exact .nextArg (next_phrase _
        (Phrase.Admits.prepend (x := .expr .equality _) admits _))
          (others_phrase rest' admits)
  | @bind name _ _ _ _ _ ends value =>
      obtain ⟨front, rfl, phrase⟩ := value
      obtain ⟨ends_front, rfl, ends'⟩ := ends.front
      refine ⟨.keyword .letWord :: .ident name
        :: .symbol .assign :: (front ++ ends_front),
        by simp, fun rest' admits => ?_⟩
      simp only [List.cons_append, List.append_assoc]
      exact .bind (phrase _ ((Replaces.admits admits .equality _).prepend _))
        (ends' rest' admits)
  | retBare bare ends =>
      cases ends with
      | semicolon =>
          exact ⟨[.keyword .returnWord, .symbol .semicolon], rfl,
            fun rest' _ => .retBare (.inr (.inl rfl)) (.semicolon rest')⟩
      | bare stops =>
          exact ⟨[.keyword .returnWord], rfl, fun rest' replaces =>
            .retBare (Replaces.leavesBare replaces bare)
              (Replaces.ends replaces stops)⟩
  | ret _ ends value =>
      obtain ⟨front, rfl, phrase⟩ := value
      obtain ⟨ends_front, rfl, ends'⟩ := ends.front
      refine ⟨.keyword .returnWord :: (front ++ ends_front), by simp,
        fun rest' admits => ?_⟩
      rw [List.cons_append, List.append_assoc]
      exact .ret (phrase _ ((Replaces.admits admits .equality _).prepend _))
        (ends' rest' admits)
  | expr _ ends value =>
      obtain ⟨front, rfl, phrase⟩ := value
      obtain ⟨ends_front, rfl, ends'⟩ := ends.front
      refine ⟨front ++ ends_front, by simp, fun rest' admits => ?_⟩
      rw [List.append_assoc]
      exact .expr (phrase _ ((Replaces.admits admits .equality _).prepend _))
        (ends' rest' admits)
  | noStmts rest => exact ⟨[], rfl, fun rest' _ => .noStmts rest'⟩
  | stmts _ _ first others =>
      obtain ⟨first_front, rfl, first_phrase⟩ := first
      obtain ⟨others_front, rfl, others_phrase⟩ := others
      refine ⟨first_front ++ others_front, by simp, fun rest' admits => ?_⟩
      rw [List.append_assoc]
      exact .stmts (first_phrase _
        (Phrase.Admits.prepend (x := .stmt _) admits _))
          (others_phrase rest' admits)

/-- What a statement was read from is a phrase. -/
theorem derives_of_readStmt {ts rest : List Token} {s : Stmt}
    (read : readStmt ts = .ok (s, rest)) : Derives (.stmt s) ts rest := by
  have ensures := (sound (depthBound ts)).stmt ts
  rw [show readStmtWithin (depthBound ts) ts = _ from read] at ensures
  exact ensures

/-- A phrase is a stretch of tokens that closes the braces it opens. -/
theorem Derives.balanced_front {x : Phrase} {ts rest : List Token}
    (d : Derives x ts rest) :
    ∃ front, ts = front ++ rest ∧ ∀ depth, braceDepth depth front = depth := by
  obtain ⟨front, eq, phrase⟩ := d.front
  have at_end : x.Admits rest [] := by
    cases x with
    | expr | args | moreArgs => exact .inr (by simp)
    | stmt | stmts => exact .inr (.inl rfl)
  have alone := phrase [] at_end
  rw [List.append_nil] at alone
  exact ⟨front, eq, alone.braceDepth_eq⟩

end Scriptlet
