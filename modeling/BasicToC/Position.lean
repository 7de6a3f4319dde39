/-! # Positions in a source text

A `Place` is a point between two characters; the scanner carries one along.  A `Position` is the
part of one line that a lexeme covers; tokens and diagnostics carry it.
-/

namespace BasicToC

/-- Columns of one line from `start` up to, and without, `stop`, counted in characters from 0. -/
structure Span where
  start : Nat
  stop : Nat
  deriving DecidableEq, Repr

/-- The span of something that stands nowhere in a line. -/
def Span.zero : Span := ⟨0, 0⟩

/-- Where something is written: a line, and the columns it takes there. -/
structure Position where
  line : Nat
  column : Span
  deriving DecidableEq, Repr

/-- The position of something that is not written in any text. -/
def Position.nowhere : Position := ⟨0, .zero⟩

/-- A point in a text: the line it is on, and the number of characters before it there. -/
structure Place where
  line : Nat
  column : Nat
  deriving DecidableEq, Repr

namespace Place

/-- The beginning of a text: lines count from 1, columns from 0. -/
def start : Place := ⟨1, 0⟩

/-- The place after one more character.  Only a line feed begins a new line. -/
def next (p : Place) (c : Char) : Place :=
  if c = '\n' then ⟨p.line + 1, 0⟩ else ⟨p.line, p.column + 1⟩

def after (p : Place) (cs : List Char) : Place :=
  cs.foldl next p

/-- The position of a lexeme of `length` characters that begins at `p`. -/
def covering (p : Place) (length : Nat) : Position :=
  ⟨p.line, ⟨p.column, p.column + length⟩⟩

@[simp]
theorem after_nil (p : Place) : p.after [] = p := rfl

@[simp]
theorem after_cons (p : Place) (c : Char) (cs : List Char) :
    p.after (c :: cs) = (p.next c).after cs := rfl

@[simp]
theorem after_append (p : Place) (cs ds : List Char) :
    p.after (cs ++ ds) = (p.after cs).after ds := by
  simp [after]

end Place

end BasicToC
