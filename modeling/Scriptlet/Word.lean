/-
Integers of the language: signed 64-bit words.

Sums, differences, products and negation wrap around, which is what
`Int64` does by itself. What has to be said here is how digits are read
(`ofDigits?`, refusing what does not fit), how a word is written
(`text`), and how words are divided (`floorDiv`).
-/

namespace Scriptlet.Word

/-- The least number that is too large for a word, 2^63. -/
def tooLarge : Nat := 9223372036854775808

/-- The word a run of decimal digits denotes, if it is not too large.
Leading zeros do not matter. -/
def ofDigits? (digits : String) : Option Int64 :=
  let n := Nat.ofDigitChars 10 digits.toList 0
  if n < tooLarge then some (Int64.ofNat n) else none

example : tooLarge = Nat.pow 2 63 := by decide

/-- A word in decimal, with a `-` in front of a negative one. -/
def text (w : Int64) : String :=
  w.toInt.repr

/-- Division that rounds toward negative infinity. `Int64` division
truncates, so the quotient is one too large exactly when the division
leaves a remainder and the signs differ. The one quotient that does not
fit, of the least word by -1, wraps around to the least word. -/
def floorDiv (a b : Int64) : Int64 :=
  if a % b ≠ 0 ∧ (decide (a < 0) ≠ decide (b < 0)) then a / b - 1 else a / b

end Scriptlet.Word
