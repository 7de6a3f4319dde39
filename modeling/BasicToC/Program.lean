import BasicToC.Numeral
import BasicToC.Word

/-! # Programs as trees

The structure of a program, the words it is written in and the C program it stands for, each
defined on the tree alone.  The compiler never builds a tree; this is what its work amounts to.
-/

namespace BasicToC

/-! ## Trees -/

/-- An operator, and how it is written. -/
structure Operator (α : Type) where
  op : α
  text : String
  deriving DecidableEq, Repr

inductive Operand where
  | numeral (text : String)
  | name (name : String)
  deriving DecidableEq, Repr

/-- An operand with or without a sign. -/
structure Factor where
  sign : Option (Operator Additive)
  operand : Operand
  deriving DecidableEq, Repr

/-- Factors multiplied and divided from left to right. -/
structure Term where
  first : Factor
  rest : List (Operator Multiplicative × Factor)
  deriving DecidableEq, Repr

/-- Terms added and subtracted from left to right. -/
structure Expression where
  first : Term
  rest : List (Operator Additive × Term)
  deriving DecidableEq, Repr

/-- Expressions compared from left to right, at least two. -/
structure Condition where
  first : Expression
  second : Operator Comparator × Expression
  rest : List (Operator Comparator × Expression)
  deriving DecidableEq, Repr

inductive Statement where
  | printText (text : String)
  | print (value : Expression)
  | ifThen (condition : Condition) (body : List Statement)
  | whileRepeat (condition : Condition) (body : List Statement)
  | label (name : String)
  | goto (name : String)
  | assign (name : String) (value : Expression)
  | input (name : String)

abbrev Program := List Statement

/-! ## Words -/

def Keyword.word (k : Keyword) : Word := ⟨.keyword k, k.spelling⟩

def Word.name (name : String) : Word := ⟨.ident, name⟩

def Word.newline : Word := ⟨.newline, "\n"⟩

def Word.becomes : Word := ⟨.becomes, "="⟩

def Operand.word : Operand → Word
  | .numeral text => ⟨.number, text⟩
  | .name x => .name x

def Factor.words (f : Factor) : List Word :=
  match f.sign with
  | none => [f.operand.word]
  | some sign => [⟨.additive sign.op, sign.text⟩, f.operand.word]

def Term.words (t : Term) : List Word :=
  t.first.words ++ t.rest.flatMap fun (o, f) => ⟨.multiplicative o.op, o.text⟩ :: f.words

def Expression.words (e : Expression) : List Word :=
  e.first.words ++ e.rest.flatMap fun (o, t) => ⟨.additive o.op, o.text⟩ :: t.words

def Condition.words (c : Condition) : List Word :=
  c.first.words ++
    (c.second :: c.rest).flatMap fun (o, e) => ⟨.comparison o.op, o.text⟩ :: e.words

mutual

/-- The words of a statement, up to the end of its last line. -/
def Statement.words : Statement → List Word
  | .printText text => [Keyword.print.word, ⟨.string, text⟩, .newline]
  | .print value => Keyword.print.word :: value.words ++ [.newline]
  | .ifThen condition body =>
    Keyword.ifHead.word :: condition.words ++ [Keyword.thenBody.word, .newline] ++
      Statement.allWords body ++ [Keyword.endIf.word, .newline]
  | .whileRepeat condition body =>
    Keyword.whileHead.word :: condition.words ++ [Keyword.repeatBody.word, .newline] ++
      Statement.allWords body ++ [Keyword.endWhile.word, .newline]
  | .label name => [Keyword.label.word, .name name, .newline]
  | .goto name => [Keyword.goto.word, .name name, .newline]
  | .assign name value =>
    Keyword.assign.word :: .name name :: .becomes :: value.words ++ [.newline]
  | .input name => [Keyword.input.word, .name name, .newline]

def Statement.allWords : List Statement → List Word
  | [] => []
  | s :: rest => s.words ++ Statement.allWords rest

end

/-- The words of a program, without blank lines. -/
def Program.words (p : Program) : List Word :=
  Statement.allWords p

/-! ## The C program -/

def Operand.code : Operand → String
  | .numeral text => Numeral.literal text
  | .name x => x

/-- The C code of a factor: a sign stands directly before its operand. -/
def Factor.code (f : Factor) : String :=
  match f.sign with
  | none => f.operand.code
  | some sign => sign.text ++ f.operand.code

/-- The C code of an operator between two operands: it stands between two blanks. -/
def Operator.code {α : Type} (o : Operator α) : String :=
  " " ++ o.text ++ " "

def Term.code (t : Term) : String :=
  t.first.code ++ String.join (t.rest.map fun (o, f) => o.code ++ f.code)

def Expression.code (e : Expression) : String :=
  e.first.code ++ String.join (e.rest.map fun (o, t) => o.code ++ t.code)

def Condition.code (c : Condition) : String :=
  c.first.code ++ String.join ((c.second :: c.rest).map fun (o, e) => o.code ++ e.code)

mutual

def Statement.code : Statement → String
  | .printText text => "printf(\"" ++ text ++ "\\n\");\n"
  | .print value => "printf(\"%.2f\\n\", (float)(" ++ value.code ++ "));\n"
  | .ifThen condition body =>
    "if(" ++ condition.code ++ ")\x7b\n" ++ Statement.allCode body ++ "\x7d\n"
  | .whileRepeat condition body =>
    "while(" ++ condition.code ++ ")\x7b\n" ++ Statement.allCode body ++ "\x7d\n"
  | .label name => name ++ ":;\n"
  | .goto name => "goto " ++ name ++ ";\n"
  | .assign name value => name ++ " = " ++ value.code ++ ";\n"
  | .input name =>
    "if(1 != scanf(\"%f\", &" ++ name ++ ")) \x7b\n" ++ name ++ " = 0;\n" ++
      "scanf(\"%*[^\\n]\");\n" ++ "\x7d\n"

def Statement.allCode : List Statement → String
  | [] => ""
  | s :: rest => s.code ++ Statement.allCode rest

end

mutual

/-- The variables to which a statement, or one that it governs, gives a value. -/
def Statement.targets : Statement → List String
  | .ifThen _ body | .whileRepeat _ body => Statement.allTargets body
  | .assign name _ | .input name => [name]
  | _ => []

def Statement.allTargets : List Statement → List String
  | [] => []
  | s :: rest => s.targets ++ Statement.allTargets rest

end

/-- The variables of a program in the order in which they first get a value. -/
def Program.assigned (p : Program) : List String :=
  (Statement.allTargets p).eraseDups

/-- The C program of a program: its variables are declared first. -/
def Program.code (p : Program) : String :=
  "#include <stdio.h>\nint main(void)\x7b\n" ++
    String.join (p.assigned.map fun name => "float " ++ name ++ " = 0;\n") ++
    Statement.allCode p ++ "return 0;\n\x7d\n"

end BasicToC
