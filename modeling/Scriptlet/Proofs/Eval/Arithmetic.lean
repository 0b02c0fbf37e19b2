/-
Arithmetic is exact up to multiples of 2^64.

An expression of literals, names of numbers, negation, sums, differences
and products has a value over the unbounded integers (`Expr.number?`).
Evaluation computes with words, which wrap around at each step. That the
steps do not add up to anything worse than one wrapping at the end is
because `Int64.ofInt`, which wraps an integer, keeps all of these
operations: the evaluation gives the wrapped value, whatever overflowed
on the way.

So the outcome depends on the value alone and not on how the expression
was put together.
-/
import Mathlib.Data.Int.ModEq
import Scriptlet.Eval

namespace Scriptlet

-- ================================================ the unbounded value

/-- The integer that a name stands for, if it is bound to a word. -/
def Heap.number? (h : Heap) (scope : ScopeId) (name : String) : Option Int :=
  match h.lookup scope name with
  | some (.value (.int w)) => some w.toInt
  | _ => none

/-- What a binary operator computes over the unbounded integers, for the
operators that wrapping agrees with. The quotient of wrapped numbers is
not the wrapped quotient. -/
def BinaryOp.onIntegers? : BinaryOp → Option (Int → Int → Int)
  | .add => some (· + ·)
  | .sub => some (· - ·)
  | .mul => some (· * ·)
  | _ => none

/-- The value over the unbounded integers of an expression of literals,
names that stand for integers, negation, sums, differences and products.
Other expressions have none. -/
def Expr.number? (known : String → Option Int) : Expr → Option Int
  | .int w => some w.toInt
  | .ident name => known name
  | .unary .neg e => (e.number? known).map (- ·)
  | .binary op l r =>
      match op.onIntegers?, l.number? known, r.number? known with
      | some f, some a, some b => some (f a b)
      | _, _, _ => none
  | _ => none

-- ======================================================== each operator

private theorem UnaryOp.apply_neg_ofInt (a : Int) :
    UnaryOp.apply .neg (.int (Int64.ofInt a))
      = .value (.int (Int64.ofInt (-a))) := by
  rw [Int64.ofInt_neg]
  rfl

private theorem BinaryOp.apply_ofInt {op : BinaryOp} {f : Int → Int → Int}
    (known : op.onIntegers? = some f) (a b : Int) :
    op.apply (.int (Int64.ofInt a)) (.int (Int64.ofInt b))
      = .value (.int (Int64.ofInt (f a b))) := by
  cases op with
  | add =>
      cases known
      rw [Int64.ofInt_add]
      rfl
  | sub =>
      cases known
      rw [Int64.ofInt_sub]
      rfl
  | mul =>
      cases known
      rw [Int64.ofInt_mul]
      rfl
  | div | less | greater | equal | notEqual => cases known

private theorem Heap.lookup_of_number? {h : Heap} {scope : ScopeId}
    {name : String} {z : Int} (known : h.number? scope name = some z) :
    h.lookup scope name = some (.value (.int (Int64.ofInt z))) := by
  unfold Heap.number? at known
  split at known
  · next w found =>
      cases known
      rw [found, Int64.ofInt_toInt]
  · cases known

-- ========================================================== evaluation

section
variable {call : Caller} {scope : ScopeId} {h : Heap}

/-- The evaluation gives the value over the unbounded integers, wrapped
once, and changes nothing. -/
theorem Expr.eval_of_number? :
    (e : Expr) → {z : Int} → e.number? (h.number? scope) = some z →
    e.eval call scope h = some (.value (.int (Int64.ofInt z)), h)
  | .int w, z, number => by
      cases number
      rw [Int64.ofInt_toInt]
      rfl
  | .ident name, z, number => by
      rw [Expr.eval, Heap.lookup_of_number? number]
  | .unary .neg e, z, number => by
      rw [Expr.number?] at number
      obtain ⟨a, operand, rfl⟩ := Option.map_eq_some_iff.1 number
      rw [Expr.eval, Expr.eval_of_number? e operand, Run.onValue,
        UnaryOp.apply_neg_ofInt]
  | .binary op l r, z, number => by
      rw [Expr.number?] at number
      split at number
      · next f a b operation left right =>
          cases number
          rw [Expr.eval, Expr.eval_of_number? l left, Run.onValue,
            Expr.eval_of_number? r right, Run.onValue,
            BinaryOp.apply_ofInt operation]
      · cases number
  | .unary .not _, _, number => by cases number
  | .bool _, _, number => by cases number
  | .str _, _, number => by cases number
  | .cond _ _ _, _, number => by cases number
  | .fn _ _, _, number => by cases number
  | .call _ _, _, number => by cases number

end

-- ============================================================== words

/-- An integer and the word that it wraps to are congruent. -/
private theorem Word.toInt_ofInt_modEq (z : Int) :
    (Int64.ofInt z).toInt ≡ z [ZMOD 2 ^ 64] := by
  rw [Int64.toInt_ofInt]
  exact Int.bmod_emod

/-- Integers that a word can hold are not congruent to each other. -/
private theorem Word.eq_of_modEq {m n : Int} (m_low : -2 ^ 63 ≤ m)
    (m_high : m < 2 ^ 63) (n_low : -2 ^ 63 ≤ n) (n_high : n < 2 ^ 63)
    (congruent : m ≡ n [ZMOD 2 ^ 64]) : m = n := by
  have same : m % 2 ^ 64 = n % 2 ^ 64 := congruent
  omega

-- ============================================================= results

/-- Arithmetic is exact modulo 2^64. If an expression has the value `z`
over the unbounded integers, its evaluation changes nothing and gives a
word: the one number from -2^63 up to 2^63 that is congruent to `z`. Any
expression with the same value over the unbounded integers gives the same
word, whatever overflows on the way. -/
theorem Expr.eval_exact {e : Expr} {scope : ScopeId} {h : Heap} {z : Int}
    (number : e.number? (h.number? scope) = some z) (call : Caller) :
    ∃ w : Int64, e.eval call scope h = some (.value (.int w), h)
      ∧ (-2 ^ 63 ≤ w.toInt ∧ w.toInt < 2 ^ 63 ∧ w.toInt ≡ z [ZMOD 2 ^ 64])
      ∧ (∀ n : Int, -2 ^ 63 ≤ n → n < 2 ^ 63 → n ≡ z
        [ZMOD 2 ^ 64] → n = w.toInt)
      ∧ ∀ e' : Expr, e'.number? (h.number? scope) = some z →
        e'.eval call scope h = some (.value (.int w), h) := by
  have low := (Int64.ofInt z).le_toInt
  have high := (Int64.ofInt z).toInt_lt
  have congruent := Word.toInt_ofInt_modEq z
  refine ⟨Int64.ofInt z, e.eval_of_number? number,
    ⟨low, high, congruent⟩, ?_, ?_⟩
  · intro n n_low n_high n_congruent
    exact Word.eq_of_modEq n_low n_high low high
      (n_congruent.trans congruent.symm)
  · intro e' number'
    exact e'.eval_of_number? number'

/-- With the largest word for `x` nearly all of
`x * x - (x + 1) * (x - 1)` overflows, and it is 1. -/
theorem Expr.eval_exact_overflowing :
    let h := (Heap.empty.newScope none).2.bind 0 "x"
      (.value (.int Int64.maxValue))
    let x : Expr := .ident "x"
    let e : Expr := .binary .sub (.binary .mul x x)
      (.binary .mul (.binary .add x (.int 1)) (.binary .sub x (.int 1)))
    e.number? (h.number? 0) = some 1
      ∧ e.eval (Closure.call 0) 0 h = some (.value (.int 1), h) := by
  intro h x e
  have number : e.number? (h.number? 0) = some 1 := by decide
  obtain ⟨w, run, -, -, same⟩ := Expr.eval_exact number (Closure.call 0)
  have one : (Expr.int 1).eval (Closure.call 0) 0 h
      = some (.value (.int w), h) :=
    same (.int 1) (by decide)
  exact ⟨number, run.trans (one.symm.trans rfl)⟩

end Scriptlet
