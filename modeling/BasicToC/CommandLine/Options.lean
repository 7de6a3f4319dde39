/-! # Options of the command line

Arguments are handled from left to right, and the first problem ends it.  An option that takes its
value from the next argument, and the name of the source, are not looked at until something else
comes up: they are *pending*, and are settled before the next option takes effect, or at the end.
-/

namespace BasicToC.CommandLine

/-! ## What can be asked for -/

structure Options where
  source : String
  output : String
  /-- How often more talk was asked for. -/
  verbosity : Nat
  deriving DecidableEq, Repr

/-- Why arguments are not taken.  A request for help is among the reasons. -/
inductive UsageError where
  | displayHelp
  | unknownArgument
  | invalidValue
  | tooManyValues
  | argumentConflict
  | missingRequiredArgument
  deriving DecidableEq, Repr

def UsageError.message : UsageError → String
  | displayHelp => "help was asked for"
  | unknownArgument => "unknown argument"
  | invalidValue => "a value is missing or empty"
  | tooManyValues => "a value was given to an option that takes none"
  | argumentConflict => "the output was given twice"
  | missingRequiredArgument => "no source was given"

/-- Where the C program goes if nothing is said about it. -/
def defaultOutput : String := "out.c"

/-- More requests for talk than this are not counted. -/
def maxVerbosity : Nat := 255

/-! ## One argument after the other -/

/-- An argument that has been seen and not yet been settled. -/
inductive Pending where
  | nothing
  | source (value : String)
  /-- The option for the output, whose value may still be missing. -/
  | output (value : Option String)
  deriving DecidableEq, Repr

structure Progress where
  source : Option String
  output : Option String
  verbosity : Nat
  pending : Pending
  /-- Whether arguments that look like options are no longer taken for options. -/
  optionsEnded : Bool
  deriving DecidableEq, Repr

namespace Progress

def start : Progress := ⟨none, none, 0, .nothing, false⟩

/-- Take a value for the output.  There is at most one. -/
def setOutput (p : Progress) (value : String) : Except UsageError Progress :=
  if p.output.isSome then .error .argumentConflict
  else if value = "" then .error .invalidValue
  else .ok { p with output := some value }

def settle (p : Progress) : Except UsageError Progress :=
  match p.pending with
  | .nothing => .ok p
  | .source value =>
    if value = "" then .error .invalidValue
    else .ok { p with source := some value, pending := .nothing }
  | .output none => .error .invalidValue
  | .output (some value) => { p with pending := .nothing }.setOutput value

def louder (p : Progress) : Except UsageError Progress := do
  let p ← p.settle
  return { p with verbosity := min (p.verbosity + 1) maxVerbosity }

def help (p : Progress) : Except UsageError Progress := do
  let _ ← p.settle
  throw .displayHelp

/-- The option for the output, with its value in the same argument. -/
def outputIs (p : Progress) (value : String) : Except UsageError Progress := do
  let p ← p.settle
  p.setOutput value

/-- The option for the output, with its value still to come. -/
def awaitOutput (p : Progress) : Except UsageError Progress := do
  let p ← p.settle
  return { p with pending := .output none }

/-- The name of the source.  There is only one. -/
def positional (p : Progress) (value : String) : Except UsageError Progress := do
  if p.source.isSome || p.pending matches .source _ then throw .unknownArgument
  let p ← p.settle
  return { p with pending := .source value }

def valueAfterEquals : List Char → Option (List Char)
  | '=' :: value => some value
  | _ => none

/-- An argument that begins with two dashes; `cs` is what follows them. -/
def long (p : Progress) (cs : List Char) : Except UsageError Progress :=
  let name := String.ofList (cs.takeWhile (· != '='))
  match name, valueAfterEquals (cs.dropWhile (· != '=')) with
  | "output", some value => p.outputIs (String.ofList value)
  | "output", none => p.awaitOutput
  | "verbose", none => p.louder
  | "help", none => p.help
  | "verbose", some _ | "help", some _ => throw .tooManyValues
  | _, _ => throw .unknownArgument

/-- The letters after a single dash.  The letter for the output takes what follows it as its
    value. -/
def short (p : Progress) : List Char → Except UsageError Progress
  | [] => .ok p
  | 'v' :: rest => p.louder >>= (short · rest)
  | 'h' :: _ => p.help
  | 'o' :: [] => p.awaitOutput
  | 'o' :: rest => p.outputIs (String.ofList ((valueAfterEquals rest).getD rest))
  | _ :: _ => throw .unknownArgument

/-- An argument that is not an option: the value that an option waits for, or the source. -/
def plain (p : Progress) (arg : String) : Except UsageError Progress :=
  if p.pending = .output none then .ok { p with pending := .output (some arg) }
  else p.positional arg

def step (p : Progress) (arg : String) : Except UsageError Progress :=
  if p.optionsEnded then p.positional arg
  else
    match arg.toList with
    | ['-', '-'] => .ok { p with optionsEnded := true }
    | '-' :: '-' :: name => p.long name
    | '-' :: c :: letters => p.short (c :: letters)
    | _ => p.plain arg

def finish (p : Progress) : Except UsageError Options := do
  let p ← p.settle
  match p.source with
  | none => throw .missingRequiredArgument
  | some source => return ⟨source, p.output.getD defaultOutput, p.verbosity⟩

end Progress

/-! ## The command line as a whole -/

def Options.parse (args : List String) : Except UsageError Options :=
  args.foldlM Progress.step .start >>= Progress.finish

def helpText : String :=
  "Tiny BASIC to C compiler\n\n" ++
  "Usage: tinybasic [OPTIONS] <SOURCE>\n\n" ++
  "Arguments:\n" ++
  "  <SOURCE>  Tiny BASIC source file\n\n" ++
  "Options:\n" ++
  "  -o, --output <OUTPUT>  Where to write the generated C [default: out.c]\n" ++
  "  -v, --verbose...       Turn on verbose logging\n" ++
  "  -h, --help             Print help\n"

end BasicToC.CommandLine
