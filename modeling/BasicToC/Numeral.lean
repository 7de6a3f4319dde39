/-! # Numerals in C

A leading zero would make an octal number of a C numeral, and a numeral without a point an
integer, which divides differently.  So every numeral is written as a floating literal in plain
decimal form.
-/

namespace BasicToC.Numeral

/-- Drop leading zeros, but keep a digit in front of the point. -/
def trimZeros (digits : List Char) : List Char :=
  match digits.dropWhile (· == '0') with
  | [] => ['0']
  | '.' :: fraction => '0' :: '.' :: fraction
  | trimmed => trimmed

/-- Give a numeral without a point the fraction `.0`. -/
def withPoint (digits : List Char) : List Char :=
  if '.' ∈ digits then digits else digits ++ ['.', '0']

/-- The floating literal with the value of a numeral. -/
def literal (numeral : String) : String :=
  String.ofList (withPoint (trimZeros numeral.toList))

end BasicToC.Numeral
