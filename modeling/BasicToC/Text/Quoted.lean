import BasicToC.Text.Combining
import BasicToC.Text.Invisible
import BasicToC.Text.Unassigned

/-! # Quoted characters and texts

Messages show pieces of the source between quotes.  Whatever could not be told apart on the page
is shown by an escape, so a message stays on one line and names each character without doubt.
-/

namespace BasicToC.Text

/-- Characters that are shown by their code point: they have no glyph, or would merge with the
    character in front of them. -/
def needsCodePoint (c : Char) : Bool :=
  covers combining c || covers invisible c || covers unassigned c

/-- One character as it stands between two `delimiter`s.  Five characters and the delimiter have
    short escapes, the ones that cannot be seen are given in hexadecimal. -/
def escape (delimiter c : Char) : List Char :=
  if c = '\x00' then ['\\', '0']
  else if c = '\t' then ['\\', 't']
  else if c = '\r' then ['\\', 'r']
  else if c = '\n' then ['\\', 'n']
  else if c = '\\' then ['\\', '\\']
  else if c = delimiter then ['\\', c]
  else if needsCodePoint c then
    ['\\', 'u', '\x7b'] ++ Nat.toDigits 16 c.toNat ++ ['\x7d']
  else [c]

def quoteChar (c : Char) : String :=
  String.ofList ('\'' :: escape '\'' c ++ ['\''])

def quoteString (s : String) : String :=
  String.ofList ('"' :: s.toList.flatMap (escape '"') ++ ['"'])

end BasicToC.Text
