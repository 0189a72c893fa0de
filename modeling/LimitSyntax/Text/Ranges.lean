/-!
# Classes of characters given by ranges

A class of characters is a list of closed code point ranges.
-/

namespace LimitSyntax.Text

/-- A class of characters: closed ranges of code points, in increasing order. -/
abbrev Ranges := List (Nat × Nat)

/-- Whether the code point of `c` lies in one of the ranges. -/
def Ranges.has (rs : Ranges) (c : Char) : Bool :=
  rs.any fun r => r.1 ≤ c.toNat && c.toNat ≤ r.2

/-- The characters that count as blank when a text is trimmed. -/
def blanks : Ranges :=
  [(0x9, 0xd), (0x20, 0x20), (0x85, 0x85), (0xa0, 0xa0), (0x1680, 0x1680), (0x2000, 0x200a),
   (0x2028, 0x2029), (0x202f, 0x202f), (0x205f, 0x205f), (0x3000, 0x3000)]

/-- Whether `c` is a blank: white space in any script. -/
def isBlank (c : Char) : Bool := blanks.has c

end LimitSyntax.Text
