/-
Quoted strings, for outlines.

A quote and a backslash are escaped, and so are control characters, by a
letter where there is one and by their number otherwise. This is for
ASCII text; any other character is taken as it is.
-/

namespace Scriptlet.Text

/-- A character as it stands between quotes. -/
def escaped (c : Char) : String :=
  if c = '"' then "\\\""
  else if c = '\\' then "\\\\"
  else if c = '\n' then "\\n"
  else if c = '\t' then "\\t"
  else if c = '\r' then "\\r"
  else if c = '\x00' then "\\0"
  else if c.toNat < 0x20 ∨ c.toNat = 0x7F then
    "\\u\x7b" ++ String.ofList (Nat.toDigits 16 c.toNat) ++ "\x7d"
  else String.ofList [c]

/-- A string between quotes. -/
def quoted (s : String) : String :=
  "\"" ++ String.join (s.toList.map escaped) ++ "\""

end Scriptlet.Text
