/-! # Reserved names

Variables and labels keep their names in the generated C, so they must stay clear of the words of
the C language and of what the standard input and output header defines.
-/

namespace BasicToC

def cKeywords : List String :=
  ["auto", "break", "case", "char", "const", "continue", "default", "do", "double", "else", "enum",
   "extern", "float", "for", "goto", "if", "inline", "int", "long", "register", "restrict",
   "return", "short", "signed", "sizeof", "static", "struct", "switch", "typedef", "union",
   "unsigned", "void", "volatile", "while"]

/-- The function around the generated code, and the functions it calls. -/
def cFunctions : List String :=
  ["main", "printf", "scanf"]

/-- The macros and objects of the standard input and output header. -/
def cHeaderNames : List String :=
  ["EOF", "NULL", "BUFSIZ", "FILENAME_MAX", "FOPEN_MAX", "L_tmpnam", "SEEK_SET", "SEEK_CUR",
   "SEEK_END", "TMP_MAX", "stdin", "stdout", "stderr"]

/-- The names that a program may give to no variable and no label. -/
def reservedNames : List String :=
  cKeywords ++ cFunctions ++ cHeaderNames

def isReserved (name : String) : Bool :=
  reservedNames.contains name

@[simp]
theorem isReserved_iff {name : String} : isReserved name = true ↔ name ∈ reservedNames := by
  simp [isReserved]

end BasicToC
