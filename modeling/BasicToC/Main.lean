import BasicToC.CommandLine.Run

/-! # The command

The outer layer: the disk and the terminal as a system.  What is done with them is `System.call`,
the program that the library also runs on trees.
-/

namespace BasicToC.Command

open Files CommandLine

/-- A failure of the system in the words of the library.  Some operations report the number of an
    error with its sign turned. -/
def systemMessage : IO.Error → String
  | .noFileOrDirectory .. => Failure.notFound.message
  | .alreadyExists .. => Failure.alreadyExists.message
  | .inappropriateType _ code _ =>
    if code = 21 || code = 0 - 21 then Failure.isADirectory.message
    else Failure.notADirectory.message
  | error@(.invalidArgument _ code _) =>
    if code = 36 || code = 0 - 36 then Failure.nameTooLong.message else toString error
  | error => toString error

def readText (p : Path) : IO (Except IO.Error String) := do
  match ← (IO.FS.readBinFile p.text).toBaseIO with
  | .error error => return .error error
  | .ok content =>
    match String.fromUTF8? content with
    | some text => return .ok text
    | none => return .error (IO.userError Failure.notText.message)

/-- Whether a path names a directory: that is why it cannot be read. -/
def isDirectory (p : Path) : IO Bool := do
  match ← (IO.FS.readBinFile p.text).toBaseIO with
  | .ok _ => return false
  | .error error => return systemMessage error == Failure.isADirectory.message

/-- The disk and the terminal, with the level up to which log records are shown. -/
def system : System (StateT Level IO) IO.Error where
  readText p := readText p
  write p text := do return ← (IO.FS.writeFile p.text text).toBaseIO
  makeDirectory p := do return ← (IO.FS.createDir p.text).toBaseIO
  isDirectory p := isDirectory p
  isMissing error := systemMessage error == Failure.notFound.message
  message := systemMessage
  print text := IO.print text
  printError text := IO.eprint text
  setLevel level := set level
  log records := do
    for record in shownLog (← get) records do
      IO.eprintln ("[" ++ record.level.name ++ "] " ++ record.message)

end BasicToC.Command

def main (args : List String) : IO UInt32 := do
  let ((exit, problem), _) ← (BasicToC.Command.system.call args).run .error
  if let some problem := problem then
    IO.eprintln ("error: " ++ problem.message)
  return exit.toUInt32
