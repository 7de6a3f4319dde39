import BasicToC.Machine

/-! # Compiling

The compiler for those who use it: from the text of a program to the text of a C program, handed
back or delivered somewhere, and sessions in which several programs go into one output.
-/

namespace BasicToC

/-! ## From text to text -/

def compile (source : String) : Except Diagnostic String :=
  match Machine.compile (.ofText source) .empty with
  | (.ok (), m) => .ok m.output.text
  | (.error d, _) => .error d

/-! ## Delivery -/

/-- Somewhere a finished program can go.  Delivering it changes the state of the place, and may
    fail for a reason that the place gives. -/
structure Sink (σ : Type) where
  persist : σ → String → Except String Unit × σ

/-- A text that takes programs at its end. -/
def Sink.text : Sink String where
  persist collected output := (.ok (), collected ++ output)

def Sink.failing (reason : String) : Sink Unit where
  persist _ _ := (.error reason, ())

/-- Compile a source text and deliver the result.  A program that does not compile is not
    delivered. -/
def compileTo {σ : Type} (sink : Sink σ) (state : σ) (source : String) :
    Except Diagnostic Unit × σ :=
  match compile source with
  | .error d => (.error d, state)
  | .ok output =>
    match sink.persist state output with
    | (.ok (), state) => (.ok (), state)
    | (.error reason, state) => (.error (Problem.disk reason).unlocated, state)

/-! ## Sessions -/

namespace Session

/-- What can be done to an output: a line is added ahead of the code, a line of code, code that does
    not end its line, or the C program for a stream. -/
inductive Step where
  | declare (text : String)
  | line (text : String)
  | emit (text : String)
  | compile (stream : TokenStream)

/-- Take one step.  A program that does not compile leaves what was made of it until then. -/
def Step.apply (output : Output) : Step → Except Diagnostic Unit × Output
  | .declare text => (.ok (), output.declare (.verbatim text))
  | .line text => (.ok (), output.emit (.verbatimLine text))
  | .emit text => (.ok (), output.emit (.verbatim text))
  | .compile stream =>
    let (result, m) := Machine.compile stream output
    (result, m.output)

/-- Take steps in turn; what each one says and leaves. -/
def run (output : Output) : List Step → List (Except Diagnostic Unit × Output)
  | [] => []
  | step :: steps => step.apply output :: run (step.apply output).2 steps

end Session

/-- Deliver several programs in turn to one place; what each delivery says and leaves. -/
def compileAllTo {σ : Type} (sink : Sink σ) (state : σ) :
    List String → List (Except Diagnostic Unit × σ)
  | [] => []
  | source :: sources =>
    compileTo sink state source :: compileAllTo sink (compileTo sink state source).2 sources

end BasicToC
