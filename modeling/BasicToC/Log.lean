import BasicToC.Text.Quoted
import BasicToC.Token

/-! # The log

What a run tells about its progress.  The compiler notes *events*; the command line turns them
into records and shows the ones that are severe enough.
-/

namespace BasicToC

/-! ## Records -/

/-- How much a record matters, the gravest first. -/
inductive Level where
  | error
  | warn
  | info
  | debug
  | trace
  deriving DecidableEq, Repr

namespace Level

/-- The rank of a level: a higher one is less severe. -/
def rank : Level → Nat
  | error => 0
  | warn => 1
  | info => 2
  | debug => 3
  | trace => 4

def name : Level → String
  | error => "ERROR"
  | warn => "WARN"
  | info => "INFO"
  | debug => "DEBUG"
  | trace => "TRACE"

end Level

structure LogRecord where
  level : Level
  message : String
  deriving DecidableEq, Repr

/-- The records that are shown to those who asked for `level`. -/
def shownLog (level : Level) (log : List LogRecord) : List LogRecord :=
  log.filter (·.level.rank ≤ level.rank)

/-! ## Events -/

/-- What the compiler notes while it works. -/
inductive Event where
  | pulled (token : Token)
  | declaredVariable (name : String)
  | declaredLabel (name : String) (line : Nat)
  deriving DecidableEq, Repr

def Event.toRecord : Event → LogRecord
  | pulled token => ⟨.trace, token.kind.tag ++ " " ++ Text.quoteString token.text⟩
  | declaredVariable name => ⟨.debug, "Variable " ++ name ++ " declared"⟩
  | declaredLabel name line =>
    ⟨.debug, "Label " ++ name ++ " declared on line " ++ toString line⟩

end BasicToC
