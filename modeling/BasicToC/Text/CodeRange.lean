/-! # Ranges of code points

Tables of Unicode properties are lists of closed ranges.  A table answers one question: is a given
character in it?
-/

namespace BasicToC.Text

/-- The code points from the first number to the second, both included. -/
abbrev CodeRange := Nat × Nat

def covers (table : List CodeRange) (c : Char) : Bool :=
  table.any fun range => range.1 ≤ c.toNat && c.toNat ≤ range.2

end BasicToC.Text
