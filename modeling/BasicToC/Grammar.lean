import BasicToC.Output
import BasicToC.Problem
import BasicToC.ReservedName
import BasicToC.Scope

/-! # The grammar, one token at a time

Tiny BASIC can be read with a single token in view.  A `Phrase` is something the program has to
bring next, and `Phrase.predict` is the whole grammar: from the phrase and the token in view it
says what to do.  Reading and writing go together, so the goals of a reader are phrases to read
and, between them, actions that add to the C program.
-/

namespace BasicToC

/-! ## Goals -/

/-- The parts of a program a reader can be waiting for. -/
inductive Phrase where
  | keyword (k : Keyword)
  | becomes
  /-- Any number of line ends. -/
  | blankLines
  /-- One line end or more. -/
  | lineEnd
  /-- Statements up to the end of the program. -/
  | statements
  /-- Statements up to, and with, a closing keyword. -/
  | block (close : Keyword)
  | printed
  /-- A new value for a variable: its name, the sign of assignment and an expression. -/
  | assignment
  /-- The names after the keywords that are followed by nothing else. -/
  | inputName
  | labelName
  | jumpName
  /-- Expressions with comparisons between them. -/
  | condition
  /-- The first comparison of a condition, after its first expression. -/
  | comparison
  | moreComparisons
  | expression
  | moreTerms
  | term
  | moreFactors
  | factor
  | operand
  deriving DecidableEq, Repr

/-- What there is to do apart from reading. -/
inductive Action where
  | openProgram
  | emit (fragment : Fragment)
  /-- Give a variable its place, if it has none yet. -/
  | declare (name : String)
  /-- Set a label that must be new. -/
  | setLabel (name : String) (position : Position)
  /-- Jump to a label, which may be set later. -/
  | jump (target : Jump)
  /-- Look for jumps to labels that were never set. -/
  | checkJumps
  deriving DecidableEq, Repr

inductive Goal where
  | read (phrase : Phrase)
  | act (action : Action)
  deriving DecidableEq, Repr

/-- How a reader goes on with a phrase. -/
inductive Move where
  /-- The token in view cannot stand here. -/
  | reject (problem : Problem)
  /-- Do other things instead, with the same token in view. -/
  | expand (goals : List Goal)
  /-- Write down what the token in view stands for, if anything, take the token, and then do other
      things. -/
  | shift (echo : Option Fragment) (goals : List Goal)
  deriving DecidableEq, Repr

/-! ## Prediction -/

/-- The name in view, if it may be given to something: `goals` are what follows from it. -/
def Token.asName (t : Token) (goals : String → List Goal) : Move :=
  if t.kind ≠ .ident then .reject (.expected .ident t.kind)
  else if isReserved t.text then .reject (.reservedName t.text)
  else .shift none (goals t.text)

/-- The goals of a statement with a condition and a block. -/
def Goal.governed (opening : Fragment) (thenWord close : Keyword) : List Goal :=
  [.act (.emit opening), .read .condition, .read (.keyword thenWord), .read .lineEnd,
   .act (.emit .openBody), .read (.block close)]

/-- A statement begins with a keyword and ends with its line; `next` comes after it. -/
def Token.beginStatement (t : Token) (next : Phrase) : Move :=
  let shift (goals : List Goal) : Move := .shift none (goals ++ [.read .lineEnd, .read next])
  match t.kind with
  | .keyword .print => shift [.read .printed]
  | .keyword .ifHead => shift (Goal.governed .openIf .thenBody .endIf)
  | .keyword .whileHead => shift (Goal.governed .openWhile .repeatBody .endWhile)
  | .keyword .label => shift [.read .labelName]
  | .keyword .goto => shift [.read .jumpName]
  | .keyword .assign => shift [.read .assignment]
  | .keyword .input => shift [.read .inputName]
  | _ => .reject (.invalidStatement t)

/-- The move for a phrase when `t` is in view, given what has been named before. -/
def Phrase.predict (phrase : Phrase) (scope : Scope) (t : Token) : Move :=
  match phrase with
  | .keyword k =>
    if t.kind = .keyword k then .shift none [] else .reject (.expected (.keyword k) t.kind)
  | .becomes =>
    if t.kind = .becomes then .shift none [] else .reject (.expected .becomes t.kind)
  | .blankLines =>
    if t.kind = .newline then .shift none [.read .blankLines] else .expand []
  | .lineEnd =>
    if t.kind = .newline then .shift none [.read .blankLines]
    else .reject (.expected .newline t.kind)
  | .statements =>
    if t.kind = .eof then .expand [] else t.beginStatement .statements
  | .block close =>
    if t.kind = .keyword close then .shift none [.act (.emit .closeBody)]
    else if t.kind = .eof then .reject (.expected (.keyword close) .eof)
    else t.beginStatement (.block close)
  | .printed =>
    if t.kind = .string then .shift (some (.printText t.text)) []
    else .expand [.act (.emit .openPrint), .read .expression, .act (.emit .closePrint)]
  | .assignment =>
    t.asName fun name =>
      [.act (.declare name), .act (.emit (.openAssign name)), .read .becomes,
       .read .expression, .act (.emit .closeAssign)]
  | .inputName => t.asName fun name => [.act (.declare name), .act (.emit (.input name))]
  | .labelName => t.asName fun name => [.act (.setLabel name t.position)]
  | .jumpName => t.asName fun name => [.act (.jump ⟨name, t.position⟩)]
  | .condition => .expand [.read .expression, .read .comparison]
  | .comparison =>
    match t.kind with
    | .comparison _ =>
      .shift (some (.operator t.text)) [.read .expression, .read .moreComparisons]
    | _ => .reject (.missingComparison t)
  | .moreComparisons =>
    match t.kind with
    | .comparison _ =>
      .shift (some (.operator t.text)) [.read .expression, .read .moreComparisons]
    | _ => .expand []
  | .expression => .expand [.read .term, .read .moreTerms]
  | .moreTerms =>
    match t.kind with
    | .additive _ => .shift (some (.operator t.text)) [.read .term, .read .moreTerms]
    | _ => .expand []
  | .term => .expand [.read .factor, .read .moreFactors]
  | .moreFactors =>
    match t.kind with
    | .multiplicative _ => .shift (some (.operator t.text)) [.read .factor, .read .moreFactors]
    | _ => .expand []
  | .factor =>
    match t.kind with
    | .additive _ => .shift (some (.sign t.text)) [.read .operand]
    | _ => .expand [.read .operand]
  | .operand =>
    match t.kind with
    | .number => .shift (some (.numeral t.text)) []
    | .ident =>
      if scope.hasVariable t.text then .shift (some (.valueOf t.text)) []
      else .reject (.unassignedVariable t.text)
    | _ => .reject (.unexpectedToken t)

def Goal.program : List Goal :=
  [.act .openProgram, .read .blankLines, .read .statements, .act (.emit .closeMain),
   .act .checkJumps]

/-! ## Prediction makes progress

Every move brings a reader closer to the end.  A shift takes a token, and never the end of the
program; an expansion replaces a phrase by lighter ones.  The weights say how much work one token
in view can still cause. -/

/-- How many moves a phrase can cause before a token is taken. -/
def Phrase.weight : Phrase → Nat
  | .printed => 9
  | .condition => 8
  | .expression => 6
  | .term => 4
  | .factor => 2
  | _ => 1

def Goal.weight : Goal → Nat
  | .read phrase => phrase.weight
  | .act _ => 1

def Goal.totalWeight : List Goal → Nat
  | [] => 0
  | goal :: goals => goal.weight + Goal.totalWeight goals

/-- More than any token can add to the weight of the goals. -/
def Goal.tokenWeight : Nat := 16

@[simp]
theorem Goal.totalWeight_nil : Goal.totalWeight [] = 0 := rfl

@[simp]
theorem Goal.totalWeight_cons (g : Goal) (gs : List Goal) :
    Goal.totalWeight (g :: gs) = g.weight + Goal.totalWeight gs := rfl

@[simp]
theorem Goal.totalWeight_append (gs hs : List Goal) :
    Goal.totalWeight (gs ++ hs) = Goal.totalWeight gs + Goal.totalWeight hs := by
  induction gs with
  | nil => simp
  | cons g gs ih => simp [ih, Nat.add_assoc]

/-- What a move promises: lighter goals, or a token taken that is not the end. -/
def Move.Progress (move : Move) (t : Token) (weight : Nat) : Prop :=
  match move with
  | .reject _ => True
  | .expand goals => Goal.totalWeight goals < weight
  | .shift _ goals => t.kind ≠ .eof ∧ Goal.totalWeight goals < Goal.tokenWeight

theorem Token.progress_asName {t : Token} {goals : String → List Goal} {weight : Nat}
    (light : ∀ name, Goal.totalWeight (goals name) < Goal.tokenWeight) :
    (t.asName goals).Progress t weight := by
  unfold Token.asName
  split
  · trivial
  · next h =>
    split
    · trivial
    · exact ⟨by simp_all, light _⟩

theorem Token.progress_beginStatement {t : Token} {next : Phrase} {weight : Nat}
    (light : next.weight ≤ 1) : (t.beginStatement next).Progress t weight := by
  unfold Token.beginStatement
  split <;>
    simp_all [Move.Progress, Goal.governed, Goal.weight, Phrase.weight, Goal.tokenWeight] <;> omega

/-- Every move of the grammar keeps its promise. -/
theorem Phrase.progress_predict (phrase : Phrase) (scope : Scope) (t : Token) :
    (phrase.predict scope t).Progress t phrase.weight := by
  cases phrase with
  | statements =>
    rw [Phrase.predict]
    split
    · simp [Move.Progress, Phrase.weight]
    · exact Token.progress_beginStatement (Nat.le_refl 1)
  | block close =>
    rw [Phrase.predict]
    split
    · simp_all [Move.Progress, Goal.weight, Goal.tokenWeight]
    · split
      · trivial
      · exact Token.progress_beginStatement (Nat.le_refl 1)
  | assignment | inputName | labelName | jumpName =>
    rw [Phrase.predict]
    apply Token.progress_asName
    simp [Goal.weight, Phrase.weight, Goal.tokenWeight]
  | _ =>
    rw [Phrase.predict]
    repeat' split
    all_goals simp_all [Move.Progress, Phrase.weight, Goal.weight, Goal.tokenWeight]

end BasicToC
