import BasicToC.Problem

/-! # Lexemes

One step of scanning: which characters at the front of a text belong together, and what they are.
Blanks and comments between lexemes form the *gap*; every lexeme takes at least one character, so
scanning goes on to the end even after a character that no token begins with.
-/

namespace BasicToC

/-! ## The gap before a lexeme -/

/-- The characters that only separate: space, tab and carriage return. -/
def isBlank (c : Char) : Bool :=
  c == ' ' || c == '\t' || c == '\r'

/-- Everything a line still holds. -/
def isInLine (c : Char) : Bool :=
  c != '\n'

/-- A comment runs from `#` to the end of its line. -/
def comment (cs : List Char) : List Char :=
  if cs.head? = some '#' then cs.takeWhile isInLine else []

/-- The blanks, and the comment after them, in front of the next lexeme. -/
def gap (cs : List Char) : List Char :=
  cs.takeWhile isBlank ++ comment (cs.dropWhile isBlank)

def afterGap (cs : List Char) : List Char :=
  let rest := cs.dropWhile isBlank
  if rest.head? = some '#' then rest.dropWhile isInLine else rest

theorem gap_append_afterGap (cs : List Char) : gap cs ++ afterGap cs = cs := by
  simp only [gap, afterGap, comment]
  split <;> simp

/-! ## One lexeme -/

/-- The characters taken from the front of a text, what they were read as, and the text that is
    left. -/
structure Lexeme where
  spelling : List Char
  rest : List Char
  reading : Except Problem (Kind × String)

namespace Lexeme

/-- A numeral: digits, and a point with digits after it if there is a point at all. -/
def number (cs : List Char) : Lexeme :=
  let whole := cs.takeWhile Char.isDigit
  match cs.dropWhile Char.isDigit with
  | '.' :: tail =>
    let fraction := tail.takeWhile Char.isDigit
    let spelling := whole ++ '.' :: fraction
    ⟨spelling, tail.dropWhile Char.isDigit,
      if fraction = [] then .error (.malformedNumber (String.ofList spelling))
      else .ok (.number, String.ofList spelling)⟩
  | rest => ⟨whole, rest, .ok (.number, String.ofList whole)⟩

/-- The kind of a word: a keyword, or else a name. -/
def wordKind (word : String) : Kind :=
  match Keyword.ofSpelling? word with
  | some k => .keyword k
  | none => .ident

def word (cs : List Char) : Lexeme :=
  let spelling := cs.takeWhile Char.isAlphanum
  let text := String.ofList spelling
  ⟨spelling, cs.dropWhile Char.isAlphanum, .ok (wordKind text, text)⟩

/-- The characters a string may hold.  Line breaks, tabs, the backslash and the percent sign would
    mean something else inside the C string made from it. -/
def isInString (c : Char) : Bool :=
  !(c == '"' || c == '\r' || c == '\n' || c == '\t' || c == '\\' || c == '%')

/-- A string whose opening quote is already read.  A character that may not stand in a string is
    left for the next lexeme. -/
def string (cs : List Char) : Lexeme :=
  let body := cs.takeWhile isInString
  match cs.dropWhile isInString with
  | [] => ⟨'"' :: body, [], .error .unterminatedString⟩
  | c :: tail =>
    if c = '"' then ⟨'"' :: body ++ ['"'], tail, .ok (.string, String.ofList body)⟩
    else ⟨'"' :: body, c :: tail, .error (.illegalInString c)⟩

def beginsWith (cs spelling : List Char) : Bool :=
  cs.take spelling.length == spelling

/-- The longest symbol at the front of `c :: cs`, or a single character that is none. -/
def symbol (c : Char) (cs : List Char) : Lexeme :=
  match Kind.symbols.find? (beginsWith (c :: cs) ·.1) with
  | some (spelling, kind) =>
    ⟨spelling, (c :: cs).drop spelling.length, .ok (kind, String.ofList spelling)⟩
  | none => ⟨[c], cs, .error (if c = '!' then .loneExclamation else .unknownCharacter c)⟩

/-- The lexeme at the front of `c :: cs`; its first character decides what it can be. -/
def first (c : Char) (cs : List Char) : Lexeme :=
  if c = '\n' then ⟨[c], cs, .ok (.newline, "\n")⟩
  else if c.isDigit then number (c :: cs)
  else if c.isAlpha then word (c :: cs)
  else if c = '"' then string cs
  else symbol c cs

/-! ## A lexeme is a nonempty piece of the text -/

theorem number_append (cs : List Char) : (number cs).spelling ++ (number cs).rest = cs := by
  unfold number
  have whole := List.takeWhile_append_dropWhile (p := Char.isDigit) (l := cs)
  split
  · next tail h =>
    rw [h] at whole
    simpa using whole
  · exact whole

theorem word_append (cs : List Char) : (word cs).spelling ++ (word cs).rest = cs :=
  List.takeWhile_append_dropWhile

theorem string_append (cs : List Char) : (string cs).spelling ++ (string cs).rest = '"' :: cs := by
  unfold string
  have body := List.takeWhile_append_dropWhile (p := isInString) (l := cs)
  split
  · next h =>
    rw [h] at body
    simpa using body
  · next c tail h =>
    rw [h] at body
    split
    · next quote =>
      subst quote
      simpa using body
    · simpa using body

theorem symbol_append (c : Char) (cs : List Char) :
    (symbol c cs).spelling ++ (symbol c cs).rest = c :: cs := by
  unfold symbol
  split
  · next spelling kind h =>
    have begins : (c :: cs).take spelling.length = spelling := by
      have := List.find?_some h
      simpa only [beginsWith, beq_iff_eq] using this
    calc spelling ++ (c :: cs).drop spelling.length
        = (c :: cs).take spelling.length ++ (c :: cs).drop spelling.length := by rw [begins]
      _ = c :: cs := List.take_append_drop _ _
  · rfl

theorem first_append (c : Char) (cs : List Char) :
    (first c cs).spelling ++ (first c cs).rest = c :: cs := by
  unfold first
  split
  · rfl
  · split
    · exact number_append _
    · split
      · exact word_append _
      · split
        · next quote => subst quote; exact string_append cs
        · exact symbol_append c cs

theorem first_spelling_ne_nil (c : Char) (cs : List Char) : (first c cs).spelling ≠ [] := by
  unfold first
  split
  · simp
  · split
    · next digit =>
      unfold number
      split <;> simp [digit]
    · split
      · next letter =>
        simp [word, Char.isAlphanum, letter]
      · split
        · unfold string
          split
          · simp
          · split <;> simp
        · unfold symbol
          split
          · next spelling kind h =>
            have : ∀ s ∈ Kind.symbols, s.1 ≠ [] := by decide
            exact this _ (List.mem_of_find?_eq_some h)
          · simp

theorem length_rest_first_lt (c : Char) (cs : List Char) :
    (first c cs).rest.length < (c :: cs).length := by
  have whole := congrArg List.length (first_append c cs)
  have taken := List.length_pos_iff.mpr (first_spelling_ne_nil c cs)
  rw [List.length_append] at whole
  omega

/-- The token of a lexeme that begins at `place`, or the report of what is wrong with it. -/
def pull (lexeme : Lexeme) (place : Place) : Except Diagnostic Token :=
  let position := place.covering lexeme.spelling.length
  match lexeme.reading with
  | .ok (kind, text) => .ok ⟨kind, text, position⟩
  | .error problem => .error (problem.located position)

end Lexeme

end BasicToC
