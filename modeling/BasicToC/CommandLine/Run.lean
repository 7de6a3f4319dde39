import BasicToC.CommandLine.Options
import BasicToC.Compile
import BasicToC.Files.Delivery

/-! # A run of the command line

The whole program, on any system: it reads, compiles and delivers.  On a tree of files, what a run
leaves and says is a function of its arguments and the files it finds.
-/

namespace BasicToC

open Files (System Scene Tree about)

namespace CommandLine

/-! ## Compiling a file -/

def greeting : String := "Tiny BASIC Compiler\n"

def farewell : String := "Compiling completed.\n"

/-- A source file compiled, but not yet delivered: the C program, and what there is to log. -/
structure Compilation where
  result : Except Diagnostic String
  log : List LogRecord

/-- Compile the file `source`, given what reading it has brought. -/
def compileFile (source : String) (reading : Except String String) : Compilation :=
  let begun : LogRecord := ⟨.info, "Reading " ++ source⟩
  match reading with
  | .error reason => ⟨.error (Problem.disk (about source reason)).unlocated, [begun]⟩
  | .ok text =>
    let (result, m) := Machine.compile (.ofText text) .empty
    ⟨result.map fun _ => m.output.text, begun :: m.events.toList.map Event.toRecord⟩

/-! ## Verbosity -/

/-- The least severe level that is shown, by how often more talk was asked for. -/
def levelOf? : Nat → Option Level
  | 0 => some .error
  | 1 => some .warn
  | 2 => some .info
  | 3 => some .debug
  | 4 => some .trace
  | _ => none

def verbosityMessage : String := "Don't be crazy with verbose"

/-- The first record of a log, which says what level was asked for. -/
def openingRecord (level : Level) : LogRecord :=
  ⟨.trace, "Logger verbosity " ++ level.name⟩

def bold (text : String) : String :=
  "\x1b[1m" ++ text ++ "\x1b[0m"

end CommandLine

/-! ## The whole program -/

namespace Files.System

open CommandLine

variable {m : Type → Type} [Monad m] {ε : Type} (system : System m ε)

/-- Compile the file `source` into the file `output`. -/
def run (source output : String) : m (Except Diagnostic Unit) := do
  system.print greeting
  let reading ← system.readText (.ofString source)
  let compilation := compileFile source (reading.mapError system.message)
  system.log compilation.log
  match compilation.result with
  | .error d => return .error d
  | .ok text =>
    match ← system.deliver output text with
    | .error refusal => return .error (Problem.disk refusal.message).unlocated
    | .ok () =>
      system.print farewell
      return .ok ()

/-- Do what the options ask for; the exit code. -/
def perform (options : Options) : m Nat := do
  match levelOf? options.verbosity with
  | none =>
    system.printError (verbosityMessage ++ "\n")
    return 2
  | some level =>
    system.setLevel level
    system.log [openingRecord level]
    match ← system.run options.source options.output with
    | .ok () => return 0
    | .error d =>
      system.printError (bold d.render ++ "\n")
      return 1

/-- A call of the program: the exit code, and why the arguments were not taken if they were not. -/
def call (args : List String) : m (Nat × Option UsageError) := do
  match Options.parse args with
  | .ok options => return (← system.perform options, none)
  | .error .displayHelp =>
    system.print helpText
    return (0, none)
  | .error problem => return (2, some problem)

end Files.System

/-! ## The program on a tree -/

namespace CommandLine

structure Run where
  result : Except Diagnostic Unit
  stdout : String
  tree : Tree
  log : List LogRecord

def run (source output : String) (tree : Tree) : Run :=
  let left := (Scene.system.run source output).run tree.scene
  ⟨left.1, left.2.stdout, left.2.tree, left.2.log⟩

structure Report where
  exit : Nat
  stdout : String
  stderr : String
  /-- Why the arguments were not taken, if they were not. -/
  usageError : Option UsageError
  log : List LogRecord
  tree : Tree

def perform (options : Options) (tree : Tree) : Report :=
  let left := (Scene.system.perform options).run tree.scene
  ⟨left.1, left.2.stdout, left.2.stderr, none, left.2.log, left.2.tree⟩

def call (args : List String) (tree : Tree) : Report :=
  let left := (Scene.system.call args).run tree.scene
  ⟨left.1.1, left.2.stdout, left.2.stderr, left.1.2, left.2.log, left.2.tree⟩

end CommandLine

end BasicToC
