/-! # Kinds of token

The terminal alphabet of Tiny BASIC.  A kind is what the grammar sees of a token; keywords, the
arithmetic operators and the comparison operators form families of their own.
-/

namespace BasicToC

/-! ## Keywords -/

inductive Keyword where
  | label
  | goto
  | print
  | input
  | assign
  | ifHead
  | thenBody
  | endIf
  | whileHead
  | repeatBody
  | endWhile
  deriving DecidableEq, Repr

namespace Keyword

def spelling : Keyword → String
  | label => "LABEL"
  | goto => "GOTO"
  | print => "PRINT"
  | input => "INPUT"
  | assign => "LET"
  | ifHead => "IF"
  | thenBody => "THEN"
  | endIf => "ENDIF"
  | whileHead => "WHILE"
  | repeatBody => "REPEAT"
  | endWhile => "ENDWHILE"

def all : List Keyword :=
  [label, goto, print, input, assign, ifHead, thenBody, endIf, whileHead, repeatBody, endWhile]

/-- The keyword that a word spells, if it spells one.  Letter case counts. -/
def ofSpelling? (word : String) : Option Keyword :=
  all.find? (·.spelling == word)

/-- A word is read as a keyword exactly if it is that keyword's spelling. -/
theorem ofSpelling?_eq_some_iff {word : String} {k : Keyword} :
    ofSpelling? word = some k ↔ word = k.spelling := by
  constructor
  · intro h
    have := List.find?_some h
    simpa using (beq_iff_eq.mp this).symm
  · rintro rfl
    cases k <;> decide

end Keyword

/-! ## Operators of sums, products and comparisons -/

inductive Additive where
  | plus
  | minus
  deriving DecidableEq, Repr

inductive Multiplicative where
  | times
  | over
  deriving DecidableEq, Repr

inductive Comparator where
  | equal
  | notEqual
  | less
  | lessOrEqual
  | greater
  | greaterOrEqual
  deriving DecidableEq, Repr

/-! ## Kinds -/

/-- What the grammar sees of a token. -/
inductive Kind where
  | eof
  | newline
  | number
  | ident
  | string
  | keyword (k : Keyword)
  /-- The `=` of an assignment. -/
  | becomes
  | additive (op : Additive)
  | multiplicative (op : Multiplicative)
  | comparison (op : Comparator)
  deriving DecidableEq, Repr

namespace Kind

/-- The name of a kind in messages. -/
def display : Kind → String
  | eof => "EOF"
  | newline => "NEWLINE"
  | number => "NUMBER"
  | ident => "IDENT"
  | string => "STRING"
  | keyword k => k.spelling
  | becomes => "EQ"
  | additive .plus => "PLUS"
  | additive .minus => "MINUS"
  | multiplicative .times => "ASTERISK"
  | multiplicative .over => "SLASH"
  | comparison .equal => "EQEQ"
  | comparison .notEqual => "NOTEQ"
  | comparison .less => "LT"
  | comparison .lessOrEqual => "LTEQ"
  | comparison .greater => "GT"
  | comparison .greaterOrEqual => "GTEQ"

/-- The name of a kind in the log of pulled tokens. -/
def tag : Kind → String
  | eof => "Eof"
  | newline => "Newline"
  | number => "Number"
  | ident => "Ident"
  | string => "String"
  | keyword .label => "Label"
  | keyword .goto => "Goto"
  | keyword .print => "Print"
  | keyword .input => "Input"
  | keyword .assign => "Let"
  | keyword .ifHead => "If"
  | keyword .thenBody => "Then"
  | keyword .endIf => "Endif"
  | keyword .whileHead => "While"
  | keyword .repeatBody => "Repeat"
  | keyword .endWhile => "Endwhile"
  | becomes => "Eq"
  | additive .plus => "Plus"
  | additive .minus => "Minus"
  | multiplicative .times => "Asterisk"
  | multiplicative .over => "Slash"
  | comparison .equal => "EqEq"
  | comparison .notEqual => "NotEq"
  | comparison .less => "Lt"
  | comparison .lessOrEqual => "LtEq"
  | comparison .greater => "Gt"
  | comparison .greaterOrEqual => "GtEq"

def all : List Kind :=
  [eof, newline, number, ident, string] ++ Keyword.all.map keyword ++
    [becomes, additive .plus, additive .minus, multiplicative .times, multiplicative .over,
      comparison .equal, comparison .notEqual, comparison .less, comparison .lessOrEqual,
      comparison .greater, comparison .greaterOrEqual]

def ofTag? (name : String) : Option Kind :=
  all.find? (·.tag == name)

def isKeyword : Kind → Bool
  | keyword _ => true
  | _ => false

def isComparison : Kind → Bool
  | comparison _ => true
  | _ => false

/-- The symbols and their kinds.  A symbol stands before every symbol that it begins with, so the
    first one that a text begins with is the longest. -/
def symbols : List (List Char × Kind) :=
  [(['=', '='], comparison .equal), (['!', '='], comparison .notEqual),
   (['<', '='], comparison .lessOrEqual), (['>', '='], comparison .greaterOrEqual),
   (['<'], comparison .less), (['>'], comparison .greater), (['='], becomes),
   (['+'], additive .plus), (['-'], additive .minus),
   (['*'], multiplicative .times), (['/'], multiplicative .over)]

end Kind

end BasicToC
