import BasicToC.Files.Path
import BasicToC.Log

/-! # Systems

What the program asks of the system it runs on.  The operations are those of a monad `m`, so that
one text of the program is run on the disk as well as on a tree of files that is a value.
-/

namespace BasicToC.Files

/-- The operations of a system.  Those on files can fail with an `ε`. -/
structure System (m : Type → Type) (ε : Type) where
  readText : Path → m (Except ε String)
  write : Path → String → m (Except ε Unit)
  makeDirectory : Path → m (Except ε Unit)
  isDirectory : Path → m Bool
  /-- Whether an operation has failed because there was nothing where it looked. -/
  isMissing : ε → Bool
  message : ε → String
  print : String → m Unit
  printError : String → m Unit
  /-- Show no records from now on that are less severe than this. -/
  setLevel : Level → m Unit
  log : List LogRecord → m Unit

/-- Why a text could not be delivered, and what is said about it. -/
structure Refusal (ε : Type) where
  failure : ε
  message : String
  deriving DecidableEq, Repr

def about (path message : String) : String :=
  path ++ ": " ++ message

def writingRecord (path : String) : LogRecord :=
  ⟨.info, "Writing " ++ path⟩

namespace System

variable {m : Type → Type} [Monad m] {ε : Type} (system : System m ε)

/-- An attempt to make a directory succeeds also if the directory is there already. -/
def orDirectory (p : Path) : Except ε Unit → m (Except ε Unit)
  | .ok () => return .ok ()
  | .error failure => return if ← system.isDirectory p then .ok () else .error failure

/-- Make the first of several directories, each of which stands in the next one; the others are
    made as far as they are missing. -/
def makeDirectories : List Path → m (Except ε Unit)
  | [] => return .ok ()
  | p :: parents => do
    match ← system.makeDirectory p with
    | .ok () => return .ok ()
    | .error failure =>
      if system.isMissing failure then
        match ← makeDirectories parents with
        | .ok () => system.orDirectory p (← system.makeDirectory p)
        | .error failure => return .error failure
      else system.orDirectory p (.error failure)

/-- Write a text to a file, and make the directories it stands in if they are missing.  Only a
    failure of the second step names the path. -/
def deliver (path text : String) : m (Except (Refusal ε) Unit) := do
  let target := Path.ofString path
  match ← system.makeDirectories target.parents with
  | .error failure => return .error ⟨failure, system.message failure⟩
  | .ok () =>
    system.log [writingRecord path]
    match ← system.write target text with
    | .error failure => return .error ⟨failure, about path (system.message failure)⟩
    | .ok () => return .ok ()

end System

end BasicToC.Files
