import BasicToC.Grammar
import BasicToC.Log
import BasicToC.TokenStream

/-! # The machine

A machine that works off a list of goals.  It sees one token and holds the one after it, so it has
always taken two tokens more from the stream than it has used.  When something fails the machine
keeps what it has done so far, and can be run again from there.

The machine stops because every step either takes a token or lightens the goals: `Machine.run` is
recursion on `Goal.tokenWeight` times the tokens in front of the end, plus the weight of the
goals.
-/

namespace BasicToC

structure Machine where
  stream : TokenStream
  /-- The token in view. -/
  current : Token
  lookahead : Token
  scope : Scope
  output : Output
  /-- What has happened, the latest last. -/
  events : Array Event

namespace Machine

/-! ## Single operations -/

/-- Take the next token from the stream, so that the lookahead comes into view.  If there is none
    to be had, both tokens stay as they are. -/
def advance (m : Machine) : Except Diagnostic Unit × Machine :=
  match m.stream.next with
  | (.ok token, stream) =>
    (.ok (), { m with stream, current := m.lookahead, lookahead := token,
                      events := m.events.push (.pulled token) })
  | (.error d, stream) => (.error d, { m with stream })

def emit (m : Machine) (f : Fragment) : Machine :=
  { m with output := m.output.emit f }

/-- Add to the C program what a token stands for, if it stands for anything. -/
def echo (m : Machine) : Option Fragment → Machine
  | none => m
  | some f => m.emit f

/-- Give a variable its place ahead of the code, if it has none yet. -/
def declare (m : Machine) (name : String) : Machine :=
  if m.scope.hasVariable name then m
  else { m with scope := m.scope.addVariable name
                output := m.output.declare (.float name)
                events := m.events.push (.declaredVariable name) }

def perform (m : Machine) (action : Action) : Except Diagnostic Unit × Machine :=
  match action with
  | .openProgram =>
    (.ok (), { m with output := (m.output.declare .includeHeader).declare .openMain })
  | .emit f => (.ok (), m.emit f)
  | .declare name => (.ok (), m.declare name)
  | .setLabel name position =>
    if m.scope.hasLabel name then (.error ((Problem.repeatedLabel name).located position), m)
    else (.ok (), { m with scope := m.scope.addLabel name
                           output := m.output.emit (.label name)
                           events := m.events.push (.declaredLabel name position.line) })
  | .jump target =>
    (.ok (), { m with scope := m.scope.addJump target
                      output := m.output.emit (.goto target.name) })
  | .checkJumps =>
    match m.scope.dangling? with
    | none => (.ok (), m)
    | some jump => (.error ((Problem.missingLabel jump.name).located jump.position), m)

/-! ## Working off goals -/

/-- Make a move of the grammar; what is left to do comes back. -/
def move (m : Machine) : Move → Except Diagnostic (List Goal) × Machine
  | .reject problem => (.error (problem.located m.current.position), m)
  | .expand goals => (.ok goals, m)
  | .shift echo goals =>
    match (m.echo echo).advance with
    | (.ok (), m) => (.ok goals, m)
    | (.error d, m) => (.error d, m)

/-- Work on one goal; what is left of it comes back. -/
def step (m : Machine) : Goal → Except Diagnostic (List Goal) × Machine
  | .read phrase => m.move (phrase.predict m.scope m.current)
  | .act action =>
    match m.perform action with
    | (.ok (), m) => (.ok [], m)
    | (.error d, m) => (.error d, m)

/-- Whether a token is something other than the end, as a number. -/
def count (token : Token) : Nat :=
  if token.kind = .eof then 0 else 1

/-- How many tokens there are before the end, at most. -/
def remaining (m : Machine) : Nat :=
  m.stream.pending.length + count m.lookahead + count m.current

theorem remaining_advance_lt {m u : Machine} (h : m.advance = (.ok (), u))
    (notEnd : m.current.kind ≠ .eof) : u.remaining < m.remaining := by
  unfold advance TokenStream.next at h
  split at h
  · next token stream pulled =>
    obtain rfl := (Prod.mk.inj h).2
    split at pulled
    · next empty =>
      obtain ⟨⟨rfl⟩, rfl⟩ := Prod.mk.inj pulled
      simp [remaining, count, notEnd, empty]
    · next item rest nonempty =>
      obtain ⟨rfl, rfl⟩ := Prod.mk.inj pulled
      simp only [remaining, count, notEnd, nonempty, List.length_cons, if_false]
      split <;> omega
  · simp at h

/-- The bound on what a machine with some goals can still do. -/
def workload (m : Machine) (goals : List Goal) : Nat :=
  Goal.tokenWeight * m.remaining + Goal.totalWeight goals

@[simp]
theorem remaining_echo (m : Machine) (f : Option Fragment) :
    (m.echo f).remaining = m.remaining := by
  cases f <;> rfl

@[simp]
theorem current_echo (m : Machine) (f : Option Fragment) : (m.echo f).current = m.current := by
  cases f <;> rfl

theorem remaining_perform (m : Machine) (action : Action) :
    (m.perform action).2.remaining = m.remaining := by
  cases action <;> simp only [perform]
  case declare => unfold declare; split <;> rfl
  case setLabel => split <;> rfl
  case checkJumps => split <;> rfl
  all_goals rfl

/-- A step leaves less to do than there was. -/
theorem workload_step_lt {m u : Machine} {goal : Goal} {more : List Goal}
    (h : m.step goal = (.ok more, u)) (goals : List Goal) :
    u.workload (more ++ goals) < m.workload (goal :: goals) := by
  cases goal with
  | act action =>
    have same := remaining_perform m action
    simp only [step] at h
    split at h
    · next performed =>
      obtain ⟨⟨rfl⟩, rfl⟩ := Prod.mk.inj h
      rw [performed] at same
      simp_all [workload, Goal.weight]
    · simp at h
  | read phrase =>
    have progress := phrase.progress_predict m.scope m.current
    simp only [step] at h
    cases predicted : phrase.predict m.scope m.current with
    | reject problem => simp [predicted, move] at h
    | expand expansion =>
      simp only [predicted, move] at h
      obtain ⟨⟨rfl⟩, rfl⟩ := Prod.mk.inj h
      simp only [predicted, Move.Progress] at progress
      simp only [workload, Goal.totalWeight_append, Goal.totalWeight_cons, Goal.weight]
      omega
    | shift echo after =>
      simp only [predicted, Move.Progress] at progress
      simp only [predicted, move] at h
      split at h
      · next v advanced =>
        obtain ⟨⟨rfl⟩, rfl⟩ := Prod.mk.inj h
        have fewer := remaining_advance_lt advanced (by simpa using progress.1)
        rw [remaining_echo] at fewer
        simp only [workload, Goal.totalWeight_append, Goal.totalWeight_cons, Goal.tokenWeight] at *
        omega
      · simp at h

/-- Work off a list of goals, up to the first failure. -/
def run (m : Machine) (goals : List Goal) : Except Diagnostic Unit × Machine :=
  match goals with
  | [] => (.ok (), m)
  | goal :: goals =>
    match _ : m.step goal with
    | (.ok more, u) => u.run (more ++ goals)
    | (.error d, u) => (.error d, u)
termination_by m.workload goals
decreasing_by exact workload_step_lt ‹_› goals

/-! ## Whole programs -/

/-- A machine that has yet to take its first token. -/
def ofStream (stream : TokenStream) (output : Output) : Machine :=
  ⟨stream, .eof ⟨0, 0⟩, .eof ⟨0, 0⟩, .empty, output, #[]⟩

/-- A machine with its first token in view, whose output is added to what is there. -/
def start (stream : TokenStream) (output : Output) : Except Diagnostic Unit × Machine :=
  match (ofStream stream output).advance with
  | (.ok (), m) => m.advance
  | (.error d, m) => (.error d, m)

/-- Read a program from the token in view on, and compile it. -/
def program (m : Machine) : Except Diagnostic Unit × Machine :=
  m.run Goal.program

/-- Read programs one after the other, each from where the one before it stopped, failed or
    not. -/
def programs : Nat → Machine → List (Except Diagnostic Unit × Machine)
  | 0, _ => []
  | n + 1, m => m.program :: programs n m.program.2

/-- Compile the program of a stream into C, which is added to `output`. -/
def compile (stream : TokenStream) (output : Output) : Except Diagnostic Unit × Machine :=
  match start stream output with
  | (.ok (), m) => m.program
  | (.error d, m) => (.error d, m)

/-! ## Unfolding lemmas -/

@[simp]
theorem run_nil (m : Machine) : m.run [] = (.ok (), m) := by
  rw [run]

theorem run_cons_of_step_ok {m u : Machine} {goal : Goal} {goals more : List Goal}
    (h : m.step goal = (.ok more, u)) : m.run (goal :: goals) = u.run (more ++ goals) := by
  rw [run]
  split <;> simp_all

theorem run_cons_of_step_error {m u : Machine} {goal : Goal} {goals : List Goal} {d : Diagnostic}
    (h : m.step goal = (.error d, u)) : m.run (goal :: goals) = (.error d, u) := by
  rw [run]
  split <;> simp_all

end Machine

end BasicToC
