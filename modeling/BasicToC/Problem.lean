import BasicToC.Diagnostic
import BasicToC.Text.Quoted
import BasicToC.Token

/-! # Problems

The causes for which a program is refused, each with the class it belongs to and its wording.
Everything that rejects a program names one of these; only here are they put into words.
-/

namespace BasicToC

inductive Problem where
  /-- A point with no digit after it. -/
  | malformedNumber (spelling : String)
  | illegalInString (c : Char)
  | unterminatedString
  /-- A `!` that does not begin `!=`. -/
  | loneExclamation
  | unknownCharacter (c : Char)
  | expected (wanted found : Kind)
  | reservedName (name : String)
  /-- A token that begins no statement. -/
  | invalidStatement (found : Token)
  /-- A condition that compares nothing. -/
  | missingComparison (found : Token)
  /-- A token that begins no operand. -/
  | unexpectedToken (found : Token)
  /-- A variable that no earlier statement gives a value. -/
  | unassignedVariable (name : String)
  | repeatedLabel (name : String)
  | missingLabel (name : String)
  | disk (reason : String)
  deriving DecidableEq, Repr

namespace Problem

def code : Problem → Diagnostic.Code
  | malformedNumber _ | illegalInString _ | unterminatedString | loneExclamation
  | unknownCharacter _ => .illegalCharacter
  | expected _ _ | reservedName _ | invalidStatement _ | missingComparison _
  | unexpectedToken _ => .syntaxError
  | unassignedVariable _ => .undefinedVariable
  | repeatedLabel _ => .duplicateLabel
  | missingLabel _ => .undefinedLabel
  | disk _ => .diskError

def message : Problem → String
  | malformedNumber spelling => "ILLEGAL CHARACTER IN NUMBER " ++ spelling
  | illegalInString c => "ILLEGAL CHARACTER IN STRING " ++ Text.quoteChar c
  | unterminatedString => "UNTERMINATED STRING"
  | loneExclamation => "EXPECTED !=, GOT !"
  | unknownCharacter c => "UNKNOWN TOKEN " ++ Text.quoteChar c
  | expected wanted found => "EXPECTED " ++ wanted.display ++ ", GOT " ++ found.display
  | reservedName name => "RESERVED NAME: " ++ name
  | invalidStatement found =>
    "INVALID STATEMENT AT " ++ found.display ++ " (" ++ found.kind.display ++ ")"
  | missingComparison found => "EXPECTED COMPARISON OPERATOR AT " ++ found.display
  | unexpectedToken found => "UNEXPECTED TOKEN AT " ++ found.display
  | unassignedVariable name => "REFERENCING VARIABLE BEFORE ASSIGNMENT: " ++ name
  | repeatedLabel name => "LABEL ALREADY EXISTS: " ++ name
  | missingLabel name => "ATTEMPTING TO GOTO UNDECLARED LABEL: " ++ name
  | disk reason => reason

def located (p : Problem) (position : Position) : Diagnostic :=
  ⟨p.code, some position.line, position.column, p.message⟩

def unlocated (p : Problem) : Diagnostic :=
  ⟨p.code, none, .zero, p.message⟩

end Problem

end BasicToC
