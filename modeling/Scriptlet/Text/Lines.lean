/-
Lines of a byte stream.

A line ends at a line feed, which does not belong to it, and the last
line may lack it. A line is decoded by itself: bytes that are no UTF-8
spoil the line they stand in and no other.
-/

namespace Scriptlet.Text

/-- The byte that ends a line. -/
def lineFeed : UInt8 := 10

/-- Cuts a byte stream into lines. -/
def splitLines : List UInt8 → List (List UInt8)
  | [] => []
  | b :: rest =>
      if b = lineFeed then [] :: splitLines rest
      else
        match splitLines rest with
        | [] => [[b]]
        | line :: lines => (b :: line) :: lines

/-- The text that bytes encode in UTF-8, if they do. -/
def decode? (bytes : List UInt8) : Option String :=
  String.fromUTF8? ⟨bytes.toArray⟩

end Scriptlet.Text
