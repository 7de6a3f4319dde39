import BasicToC.Kind
import BasicToC.Position

/-! # Tokens -/

namespace BasicToC

/-- A word of the program: its kind, its text and where it is written.  The text of a string is
    what stands between the quotes. -/
structure Token where
  kind : Kind
  text : String
  position : Position
  deriving DecidableEq, Repr

namespace Token

def eof (place : Place) : Token :=
  ⟨.eof, "", place.covering 0⟩

/-- A token as messages show it.  Where the text would not be seen its kind is named instead. -/
def display (t : Token) : String :=
  match t.kind with
  | .eof | .newline => t.kind.display
  | .string => "\"" ++ t.text ++ "\""
  | _ => t.text

@[simp]
theorem kind_eof (place : Place) : (eof place).kind = .eof := rfl

end Token

end BasicToC
