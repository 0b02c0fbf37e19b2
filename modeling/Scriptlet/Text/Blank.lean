/-
Blank characters at the end of a line.

These are the characters with the Unicode property White_Space, 25 of
them. They are more than the five that separate tokens: a no-break space
at the end of a line is dropped, but inside the line it is an illegal
character.
-/

namespace Scriptlet.Text

/-- The places of the White_Space characters, as inclusive ranges in
order. -/
def whiteSpaceRanges : List (Nat × Nat) :=
  [(0x0009, 0x000D), (0x0020, 0x0020), (0x0085, 0x0085), (0x00A0, 0x00A0),
    (0x1680, 0x1680), (0x2000, 0x200A), (0x2028, 0x2029), (0x202F, 0x202F),
    (0x205F, 0x205F), (0x3000, 0x3000)]

/-- Whether a character has the property White_Space. -/
def isWhiteSpace (c : Char) : Bool :=
  whiteSpaceRanges.any fun (first, last) => first ≤ c.toNat && c.toNat ≤ last

/-- A line without the White_Space at its end. -/
def trimEnd (line : String) : String :=
  String.ofList (line.toList.reverse.dropWhile isWhiteSpace).reverse

/-- The ranges hold 25 characters. -/
example : (whiteSpaceRanges.map fun (first, last) => last - first + 1).sum
      = 25 := rfl

end Scriptlet.Text
