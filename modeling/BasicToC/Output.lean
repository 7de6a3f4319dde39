import BasicToC.Numeral

/-! # Generated C

The C program is built as data: declarations for its beginning, and fragments of code in the order
in which the statements come.  Variables are declared ahead of all code although they are met in
the middle of it, so the two grow side by side and are put together at the end.
-/

namespace BasicToC

/-! ## Declarations and pieces of code -/

/-- What stands ahead of the code, a line each. -/
inductive Declaration where
  | includeHeader
  | openMain
  /-- A variable, which begins as zero. -/
  | float (name : String)
  | verbatim (text : String)
  deriving DecidableEq, Repr

inductive Fragment where
  | printText (text : String)
  /-- Before and after an expression that is printed. -/
  | openPrint
  | closePrint
  /-- The beginnings of conditional and repeated code. -/
  | openIf
  | openWhile
  /-- Between a condition and the code it governs, and after that code. -/
  | openBody
  | closeBody
  | label (name : String)
  | goto (name : String)
  /-- Before and after an expression that is assigned. -/
  | openAssign (name : String)
  | closeAssign
  /-- Statements that read a variable: what cannot be read as a number counts as zero and is
      skipped. -/
  | input (name : String)
  | operator (text : String)
  | sign (text : String)
  | numeral (text : String)
  | valueOf (name : String)
  | closeMain
  /-- Code given as text, with and without the end of its line. -/
  | verbatimLine (text : String)
  | verbatim (text : String)
  deriving DecidableEq, Repr

/-! ## Their texts -/

/-- The text of a declaration, without the end of its line. -/
def Declaration.line : Declaration → String
  | includeHeader => "#include <stdio.h>"
  | openMain => "int main(void)\x7b"
  | float name => "float " ++ name ++ " = 0;"
  | verbatim text => text

def Declaration.text (d : Declaration) : String :=
  d.line ++ "\n"

/-- The text of a fragment.  Operators are set off by blanks, so that a sign after one never forms
    another operator with it. -/
def Fragment.text : Fragment → String
  | printText text => "printf(\"" ++ text ++ "\\n\");\n"
  | openPrint => "printf(\"%.2f\\n\", (float)("
  | closePrint => "));\n"
  | openIf => "if("
  | openWhile => "while("
  | openBody => ")\x7b\n"
  | closeBody => "\x7d\n"
  | label name => name ++ ":;\n"
  | goto name => "goto " ++ name ++ ";\n"
  | openAssign name => name ++ " = "
  | closeAssign => ";\n"
  | input name =>
    "if(1 != scanf(\"%f\", &" ++ name ++ ")) \x7b\n" ++ name ++
      " = 0;\nscanf(\"%*[^\\n]\");\n\x7d\n"
  | operator text => " " ++ text ++ " "
  | sign text => text
  | numeral text => Numeral.literal text
  | valueOf name => name
  | closeMain => "return 0;\n\x7d\n"
  | verbatimLine text => text ++ "\n"
  | verbatim text => text

/-! ## A program in the making -/

structure Output where
  declarations : Array Declaration
  code : Array Fragment

namespace Output

def empty : Output := ⟨#[], #[]⟩

def declare (o : Output) (d : Declaration) : Output :=
  { o with declarations := o.declarations.push d }

def emit (o : Output) (f : Fragment) : Output :=
  { o with code := o.code.push f }

def header (o : Output) : String :=
  o.declarations.foldl (fun text d => text ++ d.text) ""

def body (o : Output) : String :=
  o.code.foldl (fun text f => text ++ f.text) ""

/-- The whole program: declarations, then code. -/
def text (o : Output) : String :=
  o.header ++ o.body

@[simp]
theorem header_empty : empty.header = "" := rfl

@[simp]
theorem body_empty : empty.body = "" := rfl

@[simp]
theorem header_declare (o : Output) (d : Declaration) :
    (o.declare d).header = o.header ++ d.text := by
  simp [header, declare]

@[simp]
theorem body_declare (o : Output) (d : Declaration) : (o.declare d).body = o.body := rfl

@[simp]
theorem header_emit (o : Output) (f : Fragment) : (o.emit f).header = o.header := rfl

@[simp]
theorem body_emit (o : Output) (f : Fragment) : (o.emit f).body = o.body ++ f.text := by
  simp [body, emit]

end Output

end BasicToC
