import BasicToC.Position

/-! # Diagnostics

What the compiler says when it gives up: a code, where in the source, and a message.  The parts
that are missing are left out of the text.
-/

namespace BasicToC

/-! ## Classes of failure, and the numbers and words by which they are known -/

namespace Diagnostic

inductive Code where
  | illegalCharacter
  | syntaxError
  | undefinedVariable
  | duplicateLabel
  | undefinedLabel
  | diskError
  deriving DecidableEq, Repr

namespace Code

def number : Code → Nat
  | illegalCharacter => 1
  | syntaxError => 2
  | undefinedVariable => 3
  | duplicateLabel => 4
  | undefinedLabel => 5
  | diskError => 57

def title : Code → String
  | illegalCharacter => "ILLEGAL CHARACTER"
  | syntaxError => "SYNTAX ERROR"
  | undefinedVariable => "UNDEFINED VARIABLE"
  | duplicateLabel => "DUPLICATE LABEL"
  | undefinedLabel => "UNDEFINED LABEL"
  | diskError => "DISK I/O ERROR"

end Code

end Diagnostic

/-! ## Reports -/

/-- A report of failure.  The line may be missing, the column is `0..0` where none is known, and
    the message may be empty. -/
structure Diagnostic where
  code : Diagnostic.Code
  line : Option Nat
  column : Span
  message : String
  deriving DecidableEq, Repr

namespace Diagnostic

/-- The line and columns in the text of a diagnostic, each after a blank. -/
def location (d : Diagnostic) : String :=
  let line := match d.line with
    | some n => " " ++ toString n
    | none => ""
  if d.column = .zero then line
  else line ++ " (" ++ toString d.column.start ++ ".." ++ toString d.column.stop ++ ")"

/-- The text of a diagnostic: title, location and message, as far as they are known. -/
def render (d : Diagnostic) : String :=
  d.code.title ++ (if d.location = "" then "" else " IN" ++ d.location) ++
    (if d.message = "" then "" else "; " ++ d.message)

def inspect (d : Diagnostic) : String :=
  "Error \x7b " ++ d.render ++ " \x7d"

end Diagnostic

end BasicToC
