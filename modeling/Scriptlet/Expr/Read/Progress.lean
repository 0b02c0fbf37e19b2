/-
Reading makes progress, and its bound never shows.

Two facts about the reading functions, which everything said about them
rests on. A reading takes tokens off the front of the list and nothing
else: what it leaves is a suffix, and after a success a shorter one
(`Takes`, `readStmt_takes`). And any bound that is large enough for the
tokens gives the same reading (`readStmtWithin_eq_readStmt`), so the
bound of `readStmt` is no limit on what can be read.

# How large is enough

Each of the mutual functions calls others on the same tokens only
downward in the order block, statement, expression, operand; a call that
goes up, from an operand to a block, has at least one token less. So four
calls for each token, and one to four for the place in that order, are
enough. The numbers in `Settled` are those places.
-/
import Scriptlet.Expr.Read

namespace Scriptlet

-- ============================================================ progress

/-- A reading leaves a suffix of the tokens, and after a success at least
`k` of them are gone. `rest` says which part of a result is what was
left. -/
def Takes {α : Type} (rest : α → List Token) (k : Nat) (ts : List Token) :
    Reading α → Prop
  | .ok a => rest a <:+ ts ∧ (rest a).length + k ≤ ts.length
  | .error failure => failure.rest <:+ ts

namespace Takes

variable {α β : Type} {rest : α → List Token} {rest' : β → List Token}
    {k k' : Nat} {ts : List Token} {r : Reading α}

/-- A result that takes nothing. -/
private theorem ok (rest : α → List Token) (a : α) :
    Takes rest 0 (rest a) (.ok a) :=
  ⟨List.suffix_refl _, Nat.le_refl _⟩

/-- A missing operand takes at most the token that is not one. -/
private theorem of_missingOperand (ts : List Token) :
    Takes rest k ts (missingOperand ts) :=
  List.tail_suffix ts

/-- Any other missing token is left ahead. -/
private theorem of_missing (wanted : Wanted) (ts : List Token) :
    Takes rest k ts (missing wanted ts) :=
  List.suffix_refl ts

/-- A second reading leaves a suffix of what the first one left, so both
together take at least what the first one takes. -/
private theorem bind {f : α → Reading β} (h : Takes rest k ts r)
    (hf : ∀ a, Takes rest' 0 (rest a) (f a)) (le : k' ≤ k := by omega) :
    Takes rest' k' ts (r >>= f) := by
  cases r with
  | error failure => exact h
  | ok a =>
      have step := hf a
      change Takes rest' k' ts (f a)
      cases eq : f a with
      | error failure =>
          rw [eq] at step
          exact List.IsSuffix.trans step h.1
      | ok b =>
          rw [eq] at step
          exact ⟨step.1.trans h.1, by have := h.2; have := step.2; omega⟩

/-- A token taken before the reading counts too. -/
private theorem cons (t : Token) (h : Takes rest 0 ts r)
    (le : k ≤ 1 := by omega) :
    Takes rest k (t :: ts) r := by
  cases r with
  | error failure => exact h.trans (List.suffix_cons t ts)
  | ok a =>
      have := h.2
      exact ⟨h.1.trans (List.suffix_cons t ts),
        by simp only [List.length_cons]; omega⟩

/-- Equal readings, followed by what agrees on the shorter lists that
they can leave, are equal together. -/
theorem bind_congr {s : Reading α} {f g : α → Reading β} (h : Takes rest k ts r)
    (eq : r = s) (agree : ∀ a, (rest a).length + k ≤ ts.length → f a = g a) :
    (r >>= f) = (s >>= g) := by
  subst eq
  cases r with
  | error failure => rfl
  | ok a => exact agree a h.2

end Takes

/-- A symbol is one token. -/
theorem expect_takes (s : Symbol) (ts : List Token) :
    Takes id 1 ts (expect s ts) := by
  unfold expect
  split
  · split
    · exact .cons _ (.ok id _)
    · exact Takes.of_missing _ _
  · exact Takes.of_missing _ _

/-- A name is one token. -/
theorem expectName_takes (ts : List Token) :
    Takes Prod.snd 1 ts (expectName ts) := by
  unfold expectName
  split
  · exact .cons _ (.ok Prod.snd _)
  · exact Takes.of_missing _ _

/-- The semicolon is optional, so no token is promised. -/
private theorem skipSemicolon_takes {α : Type} (a : α) (ts : List Token) :
    Takes Prod.snd 0 ts (.ok (a, skipSemicolon ts)) := by
  unfold skipSemicolon
  split
  · exact .cons _ (.ok Prod.snd _)
  · exact Takes.ok Prod.snd _

/-- At least the parenthesis is taken. -/
theorem readMoreParams_takes (ts : List Token) :
    Takes Prod.snd 1 ts (readMoreParams ts) := by
  fun_induction readMoreParams ts with
  | case1 name rest ih =>
      exact .cons _ (.cons _ (ih.bind fun _ => .ok Prod.snd _))
  | case2 rest => exact .cons _ (.of_missing _ _)
  | case3 ts => exact (expect_takes _ ts).bind fun _ => Takes.ok Prod.snd _

/-- The same for the whole list. -/
theorem readParams_takes (ts : List Token) :
    Takes Prod.snd 1 ts (readParams ts) := by
  unfold readParams
  split
  · exact .cons _ (.ok Prod.snd _)
  · exact (expectName_takes _).bind fun _ =>
      (readMoreParams_takes _).bind fun _ => Takes.ok Prod.snd _

/-- All reading functions take what they should, whatever their bound. -/
structure Progress (n : Nat) : Prop where
  expr (level : Nat) (ts : List Token) :
    Takes Prod.snd 1 ts (readExpr n level ts)
  operand (ts : List Token) : Takes Prod.snd 1 ts (readOperand n ts)
  tail (level : Nat) (left : Expr) (ts : List Token) :
    Takes Prod.snd 0 ts (readTail n level left ts)
  args (ts : List Token) : Takes Prod.snd 1 ts (readArgs n ts)
  moreArgs (ts : List Token) : Takes Prod.snd 1 ts (readMoreArgs n ts)
  elseBranch (ts : List Token) : Takes Prod.snd 0 ts (readElse n ts)
  block (ts : List Token) : Takes Prod.snd 1 ts (readBlock n ts)
  stmt (ts : List Token) : Takes Prod.snd 1 ts (readStmtWithin n ts)

/-- An operand takes its first token before it reads anything else. -/
private theorem Progress.operand_succ {n : Nat} (ih : Progress n)
    (ts : List Token) :
    Takes Prod.snd 1 ts (readOperand (n + 1) ts) := by
  rw [readOperand.eq_def]
  dsimp only
  split
  · exact .cons _ (.ok Prod.snd _)
  · split
    · exact .cons _ (.ok Prod.snd _)
    · exact List.suffix_cons _ _
  · exact .cons _ (.ok Prod.snd _)
  · exact .cons _ (.ok Prod.snd _)
  · exact .cons _ (.ok Prod.snd _)
  · exact .cons _ (.bind (ih.expr _ _) fun _ => .ok Prod.snd _)
  · exact .cons _ (.bind (ih.expr _ _) fun _ => .ok Prod.snd _)
  · exact .cons _ (.bind (ih.expr _ _) fun _ =>
      .bind (expect_takes _ _) fun _ => .ok Prod.snd _)
  · exact .cons _ (.bind (expect_takes _ _) fun _ =>
      .bind (ih.expr _ _) fun _ =>
      .bind (expect_takes _ _) fun _ => .bind (expect_takes _ _) fun _ =>
      .bind (ih.block _) fun _ => .bind (ih.elseBranch _) fun _ =>
      .ok Prod.snd _)
  · exact .cons _ (.bind (expect_takes _ _) fun _ =>
      .bind (readParams_takes _) fun _ =>
      .bind (expect_takes _ _) fun _ => .bind (ih.block _) fun _ =>
      .ok Prod.snd _)
  · exact Takes.of_missingOperand _

/-- The tail may be empty. -/
private theorem Progress.tail_succ {n : Nat} (ih : Progress n) (level : Nat)
    (left : Expr) (ts : List Token) :
    Takes Prod.snd 0 ts (readTail (n + 1) level left ts) := by
  rw [readTail.eq_def]
  dsimp only
  split
  · split
    · split
      · exact .cons _ (.bind (ih.expr _ _) fun _ => ih.tail _ _ _)
      · exact .ok Prod.snd _
    · split
      · exact .cons _ (.bind (ih.args _) fun _ => ih.tail _ _ _)
      · exact .ok Prod.snd _
  · exact .ok Prod.snd _

/-- No reading gives tokens back, whatever its bound. -/
theorem progress (n : Nat) : Progress n := by
  induction n with
  | zero =>
      constructor <;> intros <;>
        simp only [readExpr, readOperand, readTail, readArgs, readMoreArgs,
          readElse, readBlock, readStmtWithin] <;>
        exact Takes.of_missingOperand _
  | succ n ih =>
      refine ⟨fun level ts => ?_, ih.operand_succ, ih.tail_succ, fun ts => ?_,
        fun ts => ?_, fun ts => ?_, fun ts => ?_, fun ts => ?_⟩
      · rw [readExpr]
        exact .bind (ih.operand ts) fun _ => ih.tail _ _ _
      · rw [readArgs.eq_def]
        dsimp only
        split
        · exact .cons _ (.ok Prod.snd _)
        · exact .bind (ih.expr _ _) fun _ =>
            .bind (ih.moreArgs _) fun _ => .ok Prod.snd _
      · rw [readMoreArgs.eq_def]
        dsimp only
        split
        · exact .cons _ (.bind (ih.expr _ _) fun _ =>
            .bind (ih.moreArgs _) fun _ => .ok Prod.snd _)
        · exact .bind (expect_takes _ _) fun _ => .ok Prod.snd _
      · rw [readElse.eq_def]
        dsimp only
        split
        · exact .cons _ (.bind (expect_takes _ _) fun _ =>
            .bind (ih.block _) fun _ => .ok Prod.snd _)
        · exact .ok Prod.snd _
      · rw [readBlock.eq_def]
        dsimp only
        split
        · exact Takes.of_missing _ _
        · exact .cons _ (.ok Prod.snd _)
        · exact .bind (ih.stmt _) fun _ =>
            .bind (ih.block _) fun _ => .ok Prod.snd _
      · rw [readStmtWithin.eq_def]
        dsimp only
        split
        · exact .cons _ (.bind (expectName_takes _) fun _ =>
            .bind (expect_takes _ _) fun _ =>
            .bind (ih.expr _ _) fun _ => skipSemicolon_takes _ _)
        · split
          · exact .cons _ (skipSemicolon_takes _ _)
          · exact .cons _ (.bind (ih.expr _ _) fun _ => skipSemicolon_takes _ _)
        · exact .bind (ih.expr _ _) fun _ => skipSemicolon_takes _ _

-- ========================================================== the bound

/-- One call more changes no reading whose bound is large enough. -/
structure Settled (n : Nat) : Prop where
  expr (level : Nat) (ts : List Token) (h : 4 * ts.length + 2 ≤ n) :
    readExpr n level ts = readExpr (n + 1) level ts
  operand (ts : List Token) (h : 4 * ts.length + 1 ≤ n) :
    readOperand n ts = readOperand (n + 1) ts
  tail (level : Nat) (left : Expr) (ts : List Token)
    (h : 4 * ts.length + 1 ≤ n) :
    readTail n level left ts = readTail (n + 1) level left ts
  args (ts : List Token) (h : 4 * ts.length + 3 ≤ n) :
    readArgs n ts = readArgs (n + 1) ts
  moreArgs (ts : List Token) (h : 4 * ts.length + 1 ≤ n) :
    readMoreArgs n ts = readMoreArgs (n + 1) ts
  elseBranch (ts : List Token) (h : 4 * ts.length + 1 ≤ n) :
    readElse n ts = readElse (n + 1) ts
  block (ts : List Token) (h : 4 * ts.length + 4 ≤ n) :
    readBlock n ts = readBlock (n + 1) ts
  stmt (ts : List Token) (h : 4 * ts.length + 3 ≤ n) :
    readStmtWithin n ts = readStmtWithin (n + 1) ts

/-- The first token is taken, which makes up for the calls that lead to the
next one. -/
private theorem Settled.operand_succ {n : Nat} (ih : Settled n)
    (ts : List Token) (h : 4 * ts.length + 1 ≤ n + 1) :
    readOperand (n + 1) ts = readOperand (n + 2) ts := by
  rw [readOperand.eq_def, readOperand.eq_def (n + 2)]
  dsimp only
  split <;> try rfl
  all_goals simp only [List.length_cons] at h
  · exact ((progress n).expr _ _).bind_congr (ih.expr _ _ (by omega))
      fun _ _ => rfl
  · exact ((progress n).expr _ _).bind_congr (ih.expr _ _ (by omega))
      fun _ _ => rfl
  · exact ((progress n).expr _ _).bind_congr (ih.expr _ _ (by omega))
      fun _ _ => rfl
  · refine (expect_takes _ _).bind_congr rfl fun _ h₁ => ?_
    refine ((progress n).expr _ _).bind_congr (ih.expr _ _ ?_) fun _ h₂ => ?_
    · simp only [id] at h₁; omega
    refine (expect_takes _ _).bind_congr rfl fun _ h₃ => ?_
    refine (expect_takes _ _).bind_congr rfl fun _ h₄ => ?_
    refine ((progress n).block _).bind_congr (ih.block _ ?_) fun _ h₅ => ?_
    · simp only [id] at *; omega
    refine ((progress n).elseBranch _).bind_congr (ih.elseBranch _ ?_)
      fun _ _ => rfl
    simp only [id] at *; omega
  · refine (expect_takes _ _).bind_congr rfl fun _ h₁ => ?_
    refine (readParams_takes _).bind_congr rfl fun _ h₂ => ?_
    refine (expect_takes _ _).bind_congr rfl fun _ h₃ => ?_
    refine ((progress n).block _).bind_congr (ih.block _ ?_) fun _ _ => rfl
    simp only [id] at *; omega

/-- An operator or a parenthesis is taken, and the right operand or the
arguments take at least one more token before the tail goes on. -/
private theorem Settled.tail_succ {n : Nat} (ih : Settled n) (level : Nat)
    (left : Expr) (ts : List Token) (h : 4 * ts.length + 1 ≤ n + 1) :
    readTail (n + 1) level left ts = readTail (n + 2) level left ts := by
  rw [readTail.eq_def, readTail.eq_def (n + 2)]
  dsimp only
  split
  · simp only [List.length_cons] at h
    split
    · split
      · exact ((progress n).expr _ _).bind_congr
          (ih.expr _ _ (by omega)) fun _ _ =>
            ih.tail _ _ _ (by omega)
      · rfl
    · split
      · exact ((progress n).args _).bind_congr (ih.args _ (by omega)) fun _ _ =>
          ih.tail _ _ _ (by omega)
      · rfl
  · rfl

/-- A bound that covers the tokens reads as the next one does. -/
theorem settled (n : Nat) : Settled n := by
  induction n with
  | zero => constructor <;> intros <;> omega
  | succ n ih =>
      refine ⟨fun level ts h => ?_, ih.operand_succ, ih.tail_succ,
        fun ts h => ?_, fun ts h => ?_, fun ts h => ?_, fun ts h => ?_,
        fun ts h => ?_⟩
      · rw [readExpr, readExpr]
        exact ((progress n).operand _).bind_congr
          (ih.operand _ (by omega)) fun _ _ =>
            ih.tail _ _ _ (by omega)
      · rw [readArgs.eq_def, readArgs.eq_def (n + 2)]
        dsimp only
        split
        · rfl
        · exact ((progress n).expr _ _).bind_congr
            (ih.expr _ _ (by omega)) fun _ _ =>
              ((progress n).moreArgs _).bind_congr (ih.moreArgs _ (by omega))
                fun _ _ => rfl
      · rw [readMoreArgs.eq_def, readMoreArgs.eq_def (n + 2)]
        dsimp only
        split
        · simp only [List.length_cons] at h
          exact ((progress n).expr _ _).bind_congr
            (ih.expr _ _ (by omega)) fun _ _ =>
              ((progress n).moreArgs _).bind_congr (ih.moreArgs _ (by omega))
                fun _ _ => rfl
        · rfl
      · rw [readElse.eq_def, readElse.eq_def (n + 2)]
        dsimp only
        split
        · simp only [List.length_cons] at h
          refine (expect_takes _ _).bind_congr rfl fun _ h₁ => ?_
          refine ((progress n).block _).bind_congr (ih.block _ ?_)
            fun _ _ => rfl
          simp only [id] at *; omega
        · rfl
      · rw [readBlock.eq_def, readBlock.eq_def (n + 2)]
        dsimp only
        split
        · rfl
        · rfl
        · exact ((progress n).stmt _).bind_congr
            (ih.stmt _ (by omega)) fun _ _ =>
              ((progress n).block _).bind_congr (ih.block _ (by omega))
                fun _ _ => rfl
      · rw [readStmtWithin.eq_def, readStmtWithin.eq_def (n + 2)]
        dsimp only
        split
        · simp only [List.length_cons] at h
          refine (expectName_takes _).bind_congr rfl fun _ h₁ => ?_
          refine (expect_takes _ _).bind_congr rfl fun _ h₂ => ?_
          refine ((progress n).expr _ _).bind_congr (ih.expr _ _ ?_)
            fun _ _ => rfl
          simp only [id] at *; omega
        · simp only [List.length_cons] at h
          split
          · rfl
          · exact ((progress n).expr _ _).bind_congr (ih.expr _ _ (by omega))
              fun _ _ => rfl
        · exact ((progress n).expr _ _).bind_congr (ih.expr _ _ (by omega))
            fun _ _ => rfl

-- ========================================================== statements

/-- Reading a statement takes at least one token. -/
theorem readStmt_takes (ts : List Token) : Takes Prod.snd 1 ts (readStmt ts) :=
  (progress _).stmt ts

/-- Any bound that is large enough gives the same reading. -/
theorem readStmtWithin_eq_readStmt {n : Nat} {ts : List Token}
    (h : depthBound ts ≤ n) :
    readStmtWithin n ts = readStmt ts := by
  induction h with
  | refl => rfl
  | step h ih =>
      rw [← ih]
      refine ((settled _).stmt ts ?_).symm
      have := h
      unfold depthBound at this
      simp only [Nat.le_eq] at this
      omega

end Scriptlet
