import BasicToC.Lexeme

/-! # Words

A word is what a token says apart from where it stands.  Words are the vocabulary in which
programs are compared: lexing turns a text into words, a syntax tree is a way to arrange them, and
layout is what is lost between the text and its words.
-/

namespace BasicToC

structure Word where
  kind : Kind
  text : String
  deriving DecidableEq, Repr

def Token.word (t : Token) : Word := ⟨t.kind, t.text⟩

namespace Word

def eof : Word := ⟨.eof, ""⟩

/-! ## Classes of spelling -/

/-- One digit or more. -/
def IsDigits (cs : List Char) : Prop :=
  cs ≠ [] ∧ ∀ c ∈ cs, c.isDigit = true

/-- Digits, with or without a point and digits after it. -/
def IsNumeral (cs : List Char) : Prop :=
  IsDigits cs ∨
    ∃ whole fraction, IsDigits whole ∧ IsDigits fraction ∧ cs = whole ++ '.' :: fraction

/-- A letter, then letters and digits. -/
def IsName (cs : List Char) : Prop :=
  ∃ c rest, cs = c :: rest ∧ c.isAlpha = true ∧ ∀ d ∈ rest, d.isAlphanum = true

/-- The characters between the quotes of a string. -/
def IsQuotable (cs : List Char) : Prop :=
  ∀ c ∈ cs, Lexeme.isInString c = true

/-- Whether a program text can hold this word. -/
def Admissible (w : Word) : Prop :=
  match w.kind with
  | .eof => False
  | .newline => w.text = "\n"
  | .number => IsNumeral w.text.toList
  | .ident => IsName w.text.toList ∧ Keyword.ofSpelling? w.text = none
  | .string => IsQuotable w.text.toList
  | .keyword k => w.text = k.spelling
  | kind => (w.text.toList, kind) ∈ Kind.symbols

/-! ## Writing words -/

def spelling (w : Word) : String :=
  match w.kind with
  | .string => "\"" ++ w.text ++ "\""
  | _ => w.text

/-- Words with a blank between each two. -/
def spellAll (words : List Word) : String :=
  " ".intercalate (words.map spelling)

/-! ## Layout -/

/-- Leave out line ends that follow another one, or that come first if `atStart`. -/
def squeeze (atStart : Bool) : List Word → List Word
  | [] => []
  | w :: rest =>
    if w.kind = .newline then
      if atStart then squeeze true rest else w :: squeeze true rest
    else w :: squeeze false rest

/-- Words without blank lines: none at the beginning, and one line end where there are several. -/
def withoutBlankLines (words : List Word) : List Word :=
  squeeze true words

end Word

end BasicToC
