/-
Division rounds down, and what it leaves over has the sign of the
divisor.

Words are divided by truncation. The truncated quotient is one too large
exactly when something is left over and the signs differ
(`Word.RoundsUp`), and then one is taken off. That subtraction could
leave the range only at a quotient of -2^63, but there the divisor is 1
and nothing is left over.

# One characterisation for all signs

A quotient is the floor exactly when the remainder is zero, or lies
between zero and the divisor (`FloorRemainder`). Truncation gives a
remainder with the sign of the dividend; where that is the wrong side,
adding the divisor once moves it to the right one. So the four
combinations of signs are two cases, and no product of unknowns is ever
estimated: the truncated quotient enters only through its product with
the divisor.
-/
import Mathlib.Data.Rat.Floor
import Scriptlet.Value.Operate

namespace Scriptlet

-- ========================================================= remainders

/-- What floor division may leave over: nothing, or a number with the
sign of the divisor and nearer to zero. -/
def FloorRemainder (divisor left : Int) : Prop :=
  left = 0 ∨ left.sign = divisor.sign ∧ |left| < |divisor|

private theorem floorRemainder_of_pos {b m : Int} (pos : 0 < b) :
    FloorRemainder b m ↔ 0 ≤ m ∧ m < b := by
  unfold FloorRemainder
  rw [Int.sign_eq_one_of_pos pos, Int.sign_eq_one_iff_pos,
    abs_of_pos pos, abs_lt]
  omega

private theorem floorRemainder_of_neg {b m : Int} (neg : b < 0) :
    FloorRemainder b m ↔ b < m ∧ m ≤ 0 := by
  unfold FloorRemainder
  rw [Int.sign_eq_neg_one_of_neg neg, Int.sign_eq_neg_one_iff_neg,
    abs_of_neg neg, abs_lt]
  omega

/-- The remainder tells the floor. -/
private theorem floor_eq_of_remainder {a b q : Int} (nonzero : b ≠ 0)
    (left : FloorRemainder b (a - q * b)) : ⌊(a : ℚ) / b⌋ = q := by
  rw [Int.floor_eq_iff]
  rcases Int.lt_or_gt_of_ne nonzero with neg | pos
  · obtain ⟨above, below⟩ := (floorRemainder_of_neg neg).1 left
    have neg' : (b : ℚ) < 0 := by exact_mod_cast neg
    rw [le_div_iff_of_neg neg', div_lt_iff_of_neg neg', add_one_mul]
    norm_cast
    omega
  · obtain ⟨above, below⟩ := (floorRemainder_of_pos pos).1 left
    have pos' : (0 : ℚ) < b := by exact_mod_cast pos
    rw [le_div_iff₀ pos', div_lt_iff₀ pos', add_one_mul]
    norm_cast
    omega

-- ========================================================= truncation

/-- Truncation leaves over a number with the sign of the dividend,
nearer to zero than the divisor. -/
private theorem tmod_bounds (a : Int) {b : Int} (nonzero : b ≠ 0) :
    (a.tmod b).natAbs < b.natAbs ∧ (0 ≤ a → 0 ≤ a.tmod b)
      ∧ (a ≤ 0 → a.tmod b ≤ 0) := by
  refine ⟨?_, Int.tmod_nonneg b, ?_⟩
  · rw [Int.natAbs_tmod]
    exact Nat.mod_lt _ (Int.natAbs_pos.2 nonzero)
  · intro nonpos
    have mirrored := Int.tmod_nonneg b (Int.neg_nonneg_of_nonpos nonpos)
    rw [Int.neg_tmod] at mirrored
    omega

/-- Where the signs differ and something is left over, the floor is one
below the truncated quotient. -/
private theorem floorRemainder_sub_one {a b : Int} (inexact : a.tmod b ≠ 0)
    (signs : decide (a < 0) ≠ decide (b < 0)) (nonzero : b ≠ 0) :
    FloorRemainder b (a - (a.tdiv b - 1) * b) := by
  obtain ⟨size, nonneg, nonpos⟩ := tmod_bounds a nonzero
  have split := Int.mul_tdiv_add_tmod a b
  have moved : a - (a.tdiv b - 1) * b = a.tmod b + b := by
    rw [sub_mul, one_mul, mul_comm]
    omega
  rw [moved]
  rcases Int.lt_or_gt_of_ne nonzero with neg | pos
  · rw [floorRemainder_of_neg neg]
    have : ¬ a < 0 := fun both => signs (by simp [both, neg])
    omega
  · rw [floorRemainder_of_pos pos]
    have : a < 0 := by
      by_contra both
      exact signs (by simp [both, pos.le])
    omega

/-- Otherwise it is the truncated quotient. -/
private theorem floorRemainder_tdiv {a b : Int}
    (exact : ¬ (a.tmod b ≠ 0 ∧ decide (a < 0) ≠ decide (b < 0)))
    (nonzero : b ≠ 0) :
    FloorRemainder b (a - a.tdiv b * b) := by
  obtain ⟨size, nonneg, nonpos⟩ := tmod_bounds a nonzero
  have split := Int.mul_tdiv_add_tmod a b
  have same : a - a.tdiv b * b = a.tmod b := by
    rw [mul_comm]
    omega
  rw [same]
  by_cases none_left : a.tmod b = 0
  · exact .inl none_left
  · have signs : decide (a < 0) = decide (b < 0) := by
      by_contra differ
      exact exact ⟨none_left, differ⟩
    rw [decide_eq_decide] at signs
    rcases Int.lt_or_gt_of_ne nonzero with neg | pos
    · rw [floorRemainder_of_neg neg]
      omega
    · rw [floorRemainder_of_pos pos]
      omega

-- ============================================================== words

namespace Word

/-- The truncated quotient is one too large: something is left over, and
the signs differ. -/
def RoundsUp (a b : Int64) : Prop :=
  a % b ≠ 0 ∧ decide (a < 0) ≠ decide (b < 0)

instance (a b : Int64) : Decidable (RoundsUp a b) :=
  inferInstanceAs (Decidable (_ ∧ _))

private theorem floorDiv_eq (a b : Int64) :
    floorDiv a b = if RoundsUp a b then a / b - 1 else a / b := rfl

private theorem toInt_ne_zero {b : Int64} : b.toInt ≠ 0 ↔ b ≠ 0 := by
  rw [← Int64.toInt_zero, ne_eq, Int64.toInt_inj]

private theorem roundsUp_iff (a b : Int64) :
    RoundsUp a b ↔ a.toInt.tmod b.toInt ≠ 0
      ∧ decide (a.toInt < 0) ≠ decide (b.toInt < 0) := by
  unfold RoundsUp
  rw [← toInt_ne_zero, Int64.toInt_mod]
  simp only [Int64.lt_iff_toInt_lt, Int64.toInt_zero]

/-- A quotient as large as 2^63 is that of the least word by 1 or
-1. -/
private theorem natAbs_tdiv_lt (a b : Int64) (nonzero : b.toInt ≠ 0)
    (other : ¬ (a.toInt = -2 ^ 63 ∧ b.toInt.natAbs = 1)) :
    (a.toInt.tdiv b.toInt).natAbs < 2 ^ 63 := by
  have low := a.le_toInt
  have high := a.toInt_lt
  rw [Int.natAbs_tdiv]
  show a.toInt.natAbs / b.toInt.natAbs < 2 ^ 63
  by_cases unit : b.toInt.natAbs = 1
  · rw [unit, Nat.div_one]
    omega
  · have half : a.toInt.natAbs / b.toInt.natAbs ≤ a.toInt.natAbs / 2 :=
      Nat.div_le_div_left (by omega) (by omega)
    omega

/-- Only the quotient of the least word by -1 wraps around. -/
private theorem toInt_div {a b : Int64} (nonzero : b.toInt ≠ 0)
    (fits : ¬ (a.toInt = -2 ^ 63 ∧ b.toInt = -1)) :
    (a / b).toInt = a.toInt.tdiv b.toInt := by
  rw [Int64.toInt_div]
  by_cases least : a.toInt = -2 ^ 63 ∧ b.toInt.natAbs = 1
  · have one : b.toInt = 1 := by omega
    rw [least.1, one]
    decide
  · have small := natAbs_tdiv_lt a b nonzero least
    exact Int.bmod_eq_of_le (by omega) (by omega)

/-- One below a quotient that is rounded up is still a word. -/
private theorem le_toInt_sub_one {a b : Int64} (nonzero : b.toInt ≠ 0)
    (up : RoundsUp a b) :
    -2 ^ 63 ≤ (a / b).toInt - 1 := by
  have inexact := ((roundsUp_iff a b).1 up).1
  -- by 1 and by -1 nothing is left over
  have other : ¬ (a.toInt = -2 ^ 63 ∧ b.toInt.natAbs = 1) := by
    rintro ⟨-, unit⟩
    have size := (tmod_bounds a.toInt nonzero).1
    omega
  have small := natAbs_tdiv_lt a b nonzero other
  rw [toInt_div nonzero fun corner => other ⟨corner.1, by rw [corner.2]; rfl⟩]
  omega

/-- One less than a word is not wrapped if it is a word. -/
private theorem toInt_sub_one {a : Int64} (low : -2 ^ 63 ≤ a.toInt - 1) :
    (a - 1).toInt = a.toInt - 1 := by
  have high := a.toInt_lt
  rw [Int64.toInt_sub, Int64.toInt_one]
  exact Int.bmod_eq_of_le (by omega) (by omega)

/-- Floor division leaves over what it may, the one quotient that does
not fit apart. -/
private theorem floorDiv_remainder {a b : Int64} (nonzero : b.toInt ≠ 0)
    (fits : ¬ (a.toInt = -2 ^ 63 ∧ b.toInt = -1)) :
    FloorRemainder b.toInt (a.toInt - (floorDiv a b).toInt * b.toInt) := by
  have quotient := toInt_div nonzero fits
  rw [floorDiv_eq]
  by_cases up : RoundsUp a b
  · obtain ⟨inexact, signs⟩ := (roundsUp_iff a b).1 up
    rw [if_pos up, toInt_sub_one (le_toInt_sub_one nonzero up), quotient]
    exact floorRemainder_sub_one inexact signs nonzero
  · rw [if_neg up, quotient]
    exact floorRemainder_tdiv (mt (roundsUp_iff a b).2 up) nonzero

/-- What is left over is computed by words without loss. -/
private theorem toInt_remainder {a b q : Int64} (nonzero : b.toInt ≠ 0)
    (left : FloorRemainder b.toInt (a.toInt - q.toInt * b.toInt)) :
    (a - q * b).toInt = a.toInt - q.toInt * b.toInt := by
  have low := b.le_toInt
  have high := b.toInt_lt
  have wrapped : a - q * b = Int64.ofInt (a.toInt - q.toInt * b.toInt) := by
    rw [Int64.ofInt_sub, Int64.ofInt_mul, Int64.ofInt_toInt, Int64.ofInt_toInt,
      Int64.ofInt_toInt]
  rw [wrapped]
  rcases Int.lt_or_gt_of_ne nonzero with neg | pos
  · obtain ⟨above, below⟩ := (floorRemainder_of_neg neg).1 left
    exact Int64.toInt_ofInt_of_le (by omega) (by omega)
  · obtain ⟨above, below⟩ := (floorRemainder_of_pos pos).1 left
    exact Int64.toInt_ofInt_of_le (by omega) (by omega)

end Word

-- ============================================================= results

/-- Division is total and rounds down. It is the error `division by zero`
exactly for the divisor zero. For any other divisor the subtraction that
corrects the truncated quotient stays within the range of words. The
quotient is the floor, but for that of the least word by -1, which wraps
around to the least word. What is left over is zero, or has the sign of
the divisor and is nearer to zero. -/
theorem BinaryOp.apply_div_floor (l r : Int64) :
    (BinaryOp.apply .div (.int l) (.int r) = .error .divisionByZero ↔ r = 0)
      ∧ Fault.message .divisionByZero = "division by zero"
      ∧ (r ≠ 0 →
        (Word.RoundsUp l r → -2 ^ 63 ≤ (l / r).toInt - 1
          ∧ (l / r).toInt - 1 < 2 ^ 63)
        ∧ ∃ q : Int64, BinaryOp.apply .div (.int l) (.int r) = .value (.int q)
          ∧ q = (if Word.RoundsUp l r then l / r - 1 else l / r)
          ∧ q.toInt = (if l.toInt = -2 ^ 63 ∧ r.toInt = -1 then -2 ^ 63
              else ⌊(l.toInt : ℚ) / r.toInt⌋)
          ∧ FloorRemainder r.toInt (l - q * r).toInt) := by
  have total : BinaryOp.apply .div (.int l) (.int r)
      = if r = 0 then .error .divisionByZero
        else .value (.int (Word.floorDiv l r)) := rfl
  rw [total]
  refine ⟨?_, rfl, ?_⟩
  · by_cases zero : r = 0
    · simp [zero]
    · simp [zero]
  · intro divides
    have nonzero : r.toInt ≠ 0 := Word.toInt_ne_zero.2 divides
    rw [if_neg divides]
    refine ⟨?_, Word.floorDiv l r, rfl, Word.floorDiv_eq l r, ?_⟩
    · intro up
      have high := (l / r).toInt_lt
      exact ⟨Word.le_toInt_sub_one nonzero up, by omega⟩
    · by_cases corner : l.toInt = -2 ^ 63 ∧ r.toInt = -1
      · have least : l = Int64.minValue := Int64.toInt_inj.1 corner.1
        have minus : r = -1 := Int64.toInt_inj.1 corner.2
        rw [if_pos corner, least, minus]
        exact ⟨rfl, .inl rfl⟩
      · have left := Word.floorDiv_remainder nonzero corner
        rw [if_neg corner, floor_eq_of_remainder nonzero left,
          Word.toInt_remainder nonzero left]
        exact ⟨rfl, left⟩

/-- The least word by -1, where the quotient wraps around, and -7 by 2,
where it is corrected. -/
theorem BinaryOp.apply_div_floor_least :
    let least := Int64.minValue
    (BinaryOp.apply .div (.int least) (.int (-1)) = .value (.int least)
        ∧ FloorRemainder (-1) (least - least * -1).toInt)
      ∧ Word.RoundsUp (-7) 2 ∧ -2 ^ 63 ≤ ((-7 : Int64) / 2).toInt - 1
      ∧ ∃ q : Int64, BinaryOp.apply .div (.int (-7)) (.int 2) = .value (.int q)
        ∧ q = -4
        ∧ q.toInt = ⌊((-7 : Int64).toInt : ℚ) / (2 : Int64).toInt⌋ := by
  intro least
  obtain ⟨-, -, corner⟩ := BinaryOp.apply_div_floor least (-1)
  obtain ⟨-, q, quotient, wraps, -, left⟩ := corner (by decide)
  obtain rfl : q = least := wraps.trans (by decide)
  obtain ⟨-, -, inexact⟩ := BinaryOp.apply_div_floor (-7) 2
  obtain ⟨stays, q', quotient', corrected, floor, -⟩ := inexact (by decide)
  have up : Word.RoundsUp (-7) 2 := by decide
  exact ⟨⟨quotient, left⟩, up, (stays up).1, q', quotient', corrected, floor⟩

end Scriptlet
