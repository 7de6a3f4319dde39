import Mathlib.Data.List.TakeWhile
import BasicToC.Machine

/-! # Reading from a list

A machine sees its program through a stream and holds a token in advance.  As long as no pull
fails, what it does depends on much less: on the tokens up to the end, on the names, and on the
goals.  A `Reader` keeps only this.  It leaves out the declarations too, since these are the
variables of its scope once more.

The one fact about the two is `Machine.run_shows`: a machine that shows a reader gives the same
result as the reader, for the same goals.  Everything that is said of whole runs over ready-made
tokens is said of readers, and reaches the machine through `Machine.compile_shows`.
-/

namespace BasicToC

/-- The tokens that are still to be read, and the end after them; what has been named; and the
    code written so far. -/
structure Reader where
  unread : List Token
  ending : Token
  isEnd : ending.kind = .eof
  scope : Scope
  code : List Fragment

namespace Reader

/-! ## Single operations -/

def current (r : Reader) : Token :=
  r.unread.headD r.ending

def advance (r : Reader) : Reader :=
  { r with unread := r.unread.tail }

/-- The reader that still has `ts` to read before it comes to where `r` is. -/
def before (r : Reader) (ts : List Token) : Reader :=
  { r with unread := ts ++ r.unread }

def write (r : Reader) (fs : List Fragment) : Reader :=
  { r with code := r.code ++ fs }

def withScope (r : Reader) (scope : Scope) : Reader :=
  { r with scope }

def perform (r : Reader) : Action → Except Diagnostic Unit × Reader
  -- opening a program only adds declarations
  | .openProgram => (.ok (), r)
  | .emit f => (.ok (), r.write [f])
  | .declare name => (.ok (), r.withScope (r.scope.addVariable name))
  | .setLabel name position =>
    if r.scope.hasLabel name then (.error ((Problem.repeatedLabel name).located position), r)
    else (.ok (), (r.withScope (r.scope.addLabel name)).write [.label name])
  | .jump target => (.ok (), (r.withScope (r.scope.addJump target)).write [.goto target.name])
  | .checkJumps =>
    match r.scope.dangling? with
    | none => (.ok (), r)
    | some jump => (.error ((Problem.missingLabel jump.name).located jump.position), r)

def move (r : Reader) : Move → Except Diagnostic (List Goal) × Reader
  | .reject problem => (.error (problem.located r.current.position), r)
  | .expand goals => (.ok goals, r)
  | .shift echo goals => (.ok goals, (r.write echo.toList).advance)

def step (r : Reader) : Goal → Except Diagnostic (List Goal) × Reader
  | .read phrase => r.move (phrase.predict r.scope r.current)
  | .act action =>
    match r.perform action with
    | (.ok (), r) => (.ok [], r)
    | (.error d, r) => (.error d, r)

/-- The bound on what a reader with some goals can still do. -/
def workload (r : Reader) (goals : List Goal) : Nat :=
  Goal.tokenWeight * r.unread.length + Goal.totalWeight goals

theorem unread_ne_nil {r : Reader} (notEnd : r.current.kind ≠ .eof) : r.unread ≠ [] := by
  intro empty
  apply notEnd
  simp [current, empty, r.isEnd]

theorem unread_perform (r : Reader) (action : Action) :
    (r.perform action).2.unread = r.unread := by
  cases action <;> simp only [perform]
  case setLabel => split <;> rfl
  case checkJumps => split <;> rfl
  all_goals rfl

/-- A step leaves less to do than there was. -/
theorem workload_step_lt {r u : Reader} {goal : Goal} {more : List Goal}
    (stepped : r.step goal = (.ok more, u)) (goals : List Goal) :
    u.workload (more ++ goals) < r.workload (goal :: goals) := by
  cases goal with
  | act action =>
    have same := unread_perform r action
    simp only [step] at stepped
    split at stepped
    · next performed =>
      obtain ⟨⟨rfl⟩, rfl⟩ := Prod.mk.inj stepped
      rw [performed] at same
      simp_all [workload, Goal.weight]
    · simp at stepped
  | read phrase =>
    have progress := phrase.progress_predict r.scope r.current
    simp only [step] at stepped
    cases predicted : phrase.predict r.scope r.current with
    | reject problem => simp [predicted, move] at stepped
    | expand expansion =>
      simp only [predicted, move] at stepped
      obtain ⟨⟨rfl⟩, rfl⟩ := Prod.mk.inj stepped
      simp only [predicted, Move.Progress] at progress
      simp only [workload, Goal.totalWeight_append, Goal.totalWeight_cons, Goal.weight]
      omega
    | shift echo after =>
      simp only [predicted, Move.Progress] at progress
      simp only [predicted, move] at stepped
      obtain ⟨⟨rfl⟩, rfl⟩ := Prod.mk.inj stepped
      -- what a token frees outweighs the goals that come for it
      have some := List.length_pos_iff.mpr (unread_ne_nil progress.1)
      simp only [workload, advance, write, List.length_tail, Goal.totalWeight_append,
        Goal.totalWeight_cons, Goal.tokenWeight] at *
      omega

/-- Work off a list of goals, up to the first failure. -/
def run (r : Reader) (goals : List Goal) : Except Diagnostic Unit × Reader :=
  match goals with
  | [] => (.ok (), r)
  | goal :: goals =>
    match _ : r.step goal with
    | (.ok more, u) => u.run (more ++ goals)
    | (.error d, u) => (.error d, u)
termination_by r.workload goals
decreasing_by exact workload_step_lt ‹_› goals

/-! ## Unfolding lemmas -/

@[simp]
theorem run_nil (r : Reader) : r.run [] = (.ok (), r) := by
  rw [run]

theorem run_cons_of_step_ok {r u : Reader} {goal : Goal} {goals more : List Goal}
    (stepped : r.step goal = (.ok more, u)) : r.run (goal :: goals) = u.run (more ++ goals) := by
  rw [run]
  split <;> simp_all

theorem run_cons_of_step_error {r u : Reader} {goal : Goal} {goals : List Goal} {d : Diagnostic}
    (stepped : r.step goal = (.error d, u)) : r.run (goal :: goals) = (.error d, u) := by
  rw [run]
  split <;> simp_all

theorem run_act_of_perform_ok {r u : Reader} {action : Action}
    (performed : r.perform action = (.ok (), u)) (goals : List Goal) :
    r.run (.act action :: goals) = u.run goals := by
  have stepped : r.step (.act action) = (.ok [], u) := by simp [step, performed]
  exact run_cons_of_step_ok stepped

@[simp]
theorem run_emit (r : Reader) (f : Fragment) (goals : List Goal) :
    r.run (.act (.emit f) :: goals) = (r.write [f]).run goals :=
  run_act_of_perform_ok rfl goals

@[simp]
theorem run_declare (r : Reader) (name : String) (goals : List Goal) :
    r.run (.act (.declare name) :: goals) =
      (r.withScope (r.scope.addVariable name)).run goals :=
  run_act_of_perform_ok rfl goals

@[simp]
theorem run_jump (r : Reader) (target : Jump) (goals : List Goal) :
    r.run (.act (.jump target) :: goals) =
      ((r.withScope (r.scope.addJump target)).write [.goto target.name]).run goals :=
  run_act_of_perform_ok rfl goals

theorem run_setLabel_of_new {r : Reader} {name : String} (new : name ∉ r.scope.labels)
    (position : Position) (goals : List Goal) :
    r.run (.act (.setLabel name position) :: goals) =
      ((r.withScope (r.scope.addLabel name)).write [.label name]).run goals :=
  run_act_of_perform_ok (by simp [perform, new]) goals

theorem run_setLabel_of_old {r : Reader} {name : String} (old : name ∈ r.scope.labels)
    (position : Position) (goals : List Goal) :
    r.run (.act (.setLabel name position) :: goals) =
      (.error ((Problem.repeatedLabel name).located position), r) := by
  apply run_cons_of_step_error
  simp [step, perform, old]

theorem run_of_reject {r : Reader} {phrase : Phrase} {problem : Problem}
    (predicted : phrase.predict r.scope r.current = .reject problem) (goals : List Goal) :
    r.run (.read phrase :: goals) = (.error (problem.located r.current.position), r) := by
  apply run_cons_of_step_error
  simp [step, move, predicted]

theorem run_of_expand {r : Reader} {phrase : Phrase} {more : List Goal}
    (predicted : phrase.predict r.scope r.current = .expand more) (goals : List Goal) :
    r.run (.read phrase :: goals) = r.run (more ++ goals) := by
  apply run_cons_of_step_ok
  simp [step, move, predicted]

theorem run_of_shift {r : Reader} {phrase : Phrase} {echo : Option Fragment} {more : List Goal}
    (predicted : phrase.predict r.scope r.current = .shift echo more) (goals : List Goal) :
    r.run (.read phrase :: goals) = (r.write echo.toList).advance.run (more ++ goals) := by
  apply run_cons_of_step_ok
  simp [step, move, predicted]

/-! ## Readers with tokens in front

Tokens in front are kept outermost, then code, then names. -/

@[simp]
theorem write_before (r : Reader) (ts : List Token) (fs : List Fragment) :
    (r.before ts).write fs = (r.write fs).before ts := rfl

@[simp]
theorem withScope_before (r : Reader) (ts : List Token) (scope : Scope) :
    (r.before ts).withScope scope = (r.withScope scope).before ts := rfl

@[simp]
theorem withScope_write (r : Reader) (fs : List Fragment) (scope : Scope) :
    (r.write fs).withScope scope = (r.withScope scope).write fs := rfl

@[simp]
theorem write_nil (r : Reader) : r.write [] = r := by
  simp [write]

@[simp]
theorem write_write (r : Reader) (fs gs : List Fragment) :
    (r.write fs).write gs = r.write (fs ++ gs) := by
  simp [write]

@[simp]
theorem withScope_scope (r : Reader) : r.withScope r.scope = r := rfl

@[simp]
theorem withScope_withScope (r : Reader) (first second : Scope) :
    (r.withScope first).withScope second = r.withScope second := rfl

@[simp]
theorem scope_write (r : Reader) (fs : List Fragment) : (r.write fs).scope = r.scope := rfl

@[simp]
theorem scope_withScope (r : Reader) (scope : Scope) : (r.withScope scope).scope = scope := rfl

@[simp]
theorem current_write (r : Reader) (fs : List Fragment) : (r.write fs).current = r.current := rfl

@[simp]
theorem current_withScope (r : Reader) (scope : Scope) :
    (r.withScope scope).current = r.current := rfl

@[simp]
theorem before_nil (r : Reader) : r.before [] = r := rfl

@[simp]
theorem before_append (r : Reader) (ts us : List Token) :
    r.before (ts ++ us) = (r.before us).before ts := by
  simp [before]

@[simp]
theorem current_before_cons (r : Reader) (t : Token) (ts : List Token) :
    (r.before (t :: ts)).current = t := rfl

@[simp]
theorem advance_before_cons (r : Reader) (t : Token) (ts : List Token) :
    (r.before (t :: ts)).advance = r.before ts := rfl

@[simp]
theorem scope_before (r : Reader) (ts : List Token) : (r.before ts).scope = r.scope := rfl

/-- A token that is only taken. -/
theorem run_take {r : Reader} {phrase : Phrase} {t : Token} {more : List Goal}
    (predicted : phrase.predict r.scope t = .shift none more) (ts : List Token)
    (goals : List Goal) :
    (r.before (t :: ts)).run (.read phrase :: goals) = (r.before ts).run (more ++ goals) := by
  rw [run_of_shift (r := r.before (t :: ts)) predicted]
  simp

end Reader

/-! ## Machines that show a reader -/

namespace Machine

/-- The next tokens of a machine are `ts`, the one in view first, and no pull of it will fail. -/
def Holds (m : Machine) (ts : List Token) : Prop :=
  ∃ later : List Token, m.stream.pending = later.map .ok ∧
    ts <+: m.current :: m.lookahead :: (later ++ [.eof m.stream.ending])

theorem Holds.current_eq {m : Machine} {t : Token} {ts : List Token} (holds : m.Holds (t :: ts)) :
    m.current = t := by
  obtain ⟨later, -, rest, tape⟩ := holds
  exact (List.cons.inj tape).1.symm

/-- The machine after a pull that gives a token. -/
def pull (m : Machine) (token : Token) (stream : TokenStream) : Machine :=
  { m with stream, current := m.lookahead, lookahead := token,
           events := m.events.push (.pulled token) }

theorem advance_of_next_ok {m : Machine} {token : Token} {stream : TokenStream}
    (pulled : m.stream.next = (.ok token, stream)) :
    m.advance = (.ok (), m.pull token stream) := by
  simp only [advance, pulled, pull]

/-- A machine that holds a token can use it up. -/
theorem Holds.advance {m : Machine} {t : Token} {ts : List Token} (holds : m.Holds (t :: ts)) :
    ∃ u, m.advance = (.ok (), u) ∧ u.Holds ts ∧ u.scope = m.scope ∧ u.output = m.output := by
  obtain ⟨later, pending, tape⟩ := holds
  have shorter : ts <+: m.lookahead :: (later ++ [.eof m.stream.ending]) :=
    (List.cons_prefix_cons.mp tape).2
  cases later with
  | nil =>
    -- the stream is at its end, and goes on giving it
    have pulled : m.stream.next = (.ok (.eof m.stream.ending), m.stream) := by
      simp only [TokenStream.next, pending, List.map_nil]
    refine ⟨_, advance_of_next_ok pulled, ⟨[], pending, ?_⟩, rfl, rfl⟩
    exact shorter.trans (by simp [pull])
  | cons next later =>
    have pulled : m.stream.next = (.ok next, ⟨later.map .ok, m.stream.ending⟩) := by
      simp only [TokenStream.next, pending, List.map_cons]
    exact ⟨_, advance_of_next_ok pulled, ⟨later, rfl, shorter⟩, rfl, rfl⟩

end Machine

namespace Reader

/-- What a machine has written that began with `base`, if it shows the reader `r`. -/
def written (r : Reader) (base : Output) : Output :=
  ⟨base.declarations ++ (r.scope.assigned.map Declaration.float).toArray,
    base.code ++ r.code.toArray⟩

end Reader

namespace Machine

/-- The machine `m` is where the reader `r` is, and has written the same. -/
structure Shows (m : Machine) (base : Output) (r : Reader) : Prop where
  tokens : m.Holds (r.unread ++ [r.ending])
  scope : m.scope = r.scope
  output : m.output = r.written base

theorem Shows.current_eq {m : Machine} {base : Output} {r : Reader} (shows : m.Shows base r) :
    m.current = r.current := by
  have tokens := shows.tokens
  unfold Reader.current
  cases unread : r.unread with
  | nil => exact Holds.current_eq (by simpa [unread] using tokens)
  | cons t ts => exact Holds.current_eq (by simpa [unread] using tokens)

theorem Shows.write {m : Machine} {base : Output} {r : Reader} (shows : m.Shows base r)
    (echo : Option Fragment) : (m.echo echo).Shows base (r.write echo.toList) := by
  cases echo with
  | none => simpa [Machine.echo, Reader.write] using shows
  | some f =>
    refine ⟨shows.tokens, shows.scope, ?_⟩
    simp [Machine.echo, Machine.emit, Output.emit, shows.output, Reader.written, Reader.write]

theorem Shows.advance {m : Machine} {base : Output} {r : Reader} (shows : m.Shows base r)
    (notEnd : r.current.kind ≠ .eof) :
    ∃ u, m.advance = (.ok (), u) ∧ u.Shows base r.advance := by
  obtain ⟨t, ts, unread⟩ := List.exists_cons_of_ne_nil (Reader.unread_ne_nil notEnd)
  have tokens := shows.tokens
  rw [unread, List.cons_append] at tokens
  obtain ⟨u, advanced, holds, scope, output⟩ := tokens.advance
  refine ⟨u, advanced, ⟨?_, scope.trans shows.scope, output.trans shows.output⟩⟩
  simpa [Reader.advance, unread] using holds

/-- Giving a variable its place keeps the two together: a new variable is the only thing that adds
    a declaration. -/
theorem Shows.declare {m : Machine} {base : Output} {r : Reader} (shows : m.Shows base r)
    (name : String) : (m.declare name).Shows base (r.withScope (r.scope.addVariable name)) := by
  obtain ⟨tokens, scope, output⟩ := shows
  unfold Machine.declare
  -- a variable that is known is neither declared nor added once more
  by_cases known : m.scope.hasVariable name
  · rw [if_pos known]
    have same : r.scope.addVariable name = r.scope := by
      rw [Scope.addVariable, if_pos (scope ▸ known)]
    rw [same]
    exact ⟨tokens, scope, output⟩
  · rw [if_neg known]
    have added : (r.scope.addVariable name).assigned = r.scope.assigned ++ [name] := by
      rw [Scope.addVariable, if_neg (scope ▸ known)]
    refine ⟨tokens, by simp [scope, Reader.withScope], ?_⟩
    simp [Output.declare, output, Reader.written, Reader.withScope, added]

theorem Shows.perform {m : Machine} {base : Output} {r : Reader} (shows : m.Shows base r)
    (action : Action) (notOpening : action ≠ .openProgram) :
    (m.perform action).1 = (r.perform action).1 ∧
      (m.perform action).2.Shows base (r.perform action).2 := by
  have scope := shows.scope
  cases action with
  | openProgram => exact absurd rfl notOpening
  | emit f => exact ⟨rfl, shows.write (some f)⟩
  | declare name => exact ⟨rfl, shows.declare name⟩
  | setLabel name position =>
    simp only [Machine.perform, Reader.perform, scope]
    split
    · exact ⟨rfl, shows⟩
    · refine ⟨rfl, shows.tokens, rfl, ?_⟩
      simp [Output.emit, shows.output, Reader.written, Reader.write, Reader.withScope,
        Scope.addLabel]
  | jump target =>
    refine ⟨rfl, shows.tokens, by simp [Machine.perform, Reader.perform, scope, Reader.write,
      Reader.withScope], ?_⟩
    simp [Machine.perform, Reader.perform, Output.emit, shows.output, Reader.written,
      Reader.write, Reader.withScope]
  | checkJumps =>
    simp only [Machine.perform, Reader.perform, scope]
    cases r.scope.dangling? <;> exact ⟨rfl, shows⟩

/-- A step keeps the two together and gives both the same to do next. -/
theorem Shows.step {m : Machine} {base : Output} {r : Reader} (shows : m.Shows base r)
    (goal : Goal) (notOpening : goal ≠ .act .openProgram) :
    (m.step goal).1 = (r.step goal).1 ∧ (m.step goal).2.Shows base (r.step goal).2 := by
  cases goal with
  | act action =>
    obtain ⟨result, after⟩ := shows.perform action (by simpa using notOpening)
    simp only [Machine.step, Reader.step]
    split <;> split <;> simp_all
  | read phrase =>
    have progress := phrase.progress_predict r.scope r.current
    simp only [Machine.step, Reader.step, shows.scope, shows.current_eq]
    cases predicted : phrase.predict r.scope r.current with
    | reject problem => exact ⟨by simp [Machine.move, Reader.move, shows.current_eq], shows⟩
    | expand goals => exact ⟨rfl, shows⟩
    | shift echo goals =>
      rw [predicted] at progress
      have echoed := shows.write echo
      obtain ⟨u, advanced, after⟩ := echoed.advance progress.1
      simp only [Machine.move, Reader.move, advanced]
      exact ⟨trivial, after⟩

end Machine

/-! ## Whole runs -/

/-- What a move leaves to do. -/
def Move.goals : Move → List Goal
  | .reject _ => []
  | .expand goals | .shift _ goals => goals

/-- A program is opened once, and by no phrase of it. -/
theorem Phrase.openProgram_notMem_predict (phrase : Phrase) (scope : Scope) (t : Token) :
    .act .openProgram ∉ (phrase.predict scope t).goals := by
  cases phrase with
  | statements =>
    rw [Phrase.predict, Token.beginStatement]
    split
    · simp [Move.goals]
    · split <;> simp [Move.goals, Goal.governed]
  | block close =>
    rw [Phrase.predict, Token.beginStatement]
    split
    · simp [Move.goals]
    · split
      · simp [Move.goals]
      · split <;> simp [Move.goals, Goal.governed]
  | assignment | inputName | labelName | jumpName =>
    rw [Phrase.predict, Token.asName]
    repeat' split
    all_goals simp [Move.goals]
  | _ =>
    rw [Phrase.predict]
    repeat' split
    all_goals simp [Move.goals]

theorem Reader.openProgram_notMem_step {r u : Reader} {goal : Goal} {more : List Goal}
    (stepped : r.step goal = (.ok more, u)) : .act .openProgram ∉ more := by
  cases goal with
  | act action =>
    simp only [Reader.step] at stepped
    split at stepped
    · cases stepped
      simp
    · simp at stepped
  | read phrase =>
    have notMem := phrase.openProgram_notMem_predict r.scope r.current
    simp only [Reader.step] at stepped
    cases predicted : phrase.predict r.scope r.current with
    | reject problem => simp [predicted, Reader.move] at stepped
    | expand goals | shift echo goals =>
      rw [predicted] at notMem stepped
      cases stepped
      exact notMem

namespace Machine

/-- A machine that shows a reader comes to the same result, and still shows it then. -/
theorem run_shows {m : Machine} {base : Output} {r : Reader} {goals : List Goal}
    (shows : m.Shows base r) (opened : .act .openProgram ∉ goals) :
    (m.run goals).1 = (r.run goals).1 ∧ (m.run goals).2.Shows base (r.run goals).2 := by
  fun_induction Reader.run r goals generalizing m with
  | case1 r => simpa using shows
  | case2 r goal goals more u stepped ih =>
    obtain ⟨result, after⟩ := shows.step goal (fun same => opened (by simp [same]))
    rw [stepped] at result after
    rw [run_cons_of_step_ok (Prod.ext result rfl)]
    -- the goals that are left do not open the program either
    refine ih after ?_
    have opensNothing := Reader.openProgram_notMem_step stepped
    simp_all
  | case3 r goal goals d u stepped =>
    obtain ⟨result, after⟩ := shows.step goal (fun same => opened (by simp [same]))
    rw [stepped] at result after
    rw [run_cons_of_step_error (Prod.ext result rfl)]
    exact ⟨rfl, after⟩

end Machine

/-! ## Compiling

The goals of a program open it and then read it.  From there on a reader can take over. -/

/-- The goals of a program that is open. -/
def Goal.body : List Goal :=
  [.read .blankLines, .read .statements, .act (.emit .closeMain), .act .checkJumps]

/-- An output to which the beginning of a program has been added. -/
def Output.opened (o : Output) : Output :=
  (o.declare .includeHeader).declare .openMain

/-- The reader of a program that has not been begun. -/
def Reader.start (unread : List Token) (ending : Token) (isEnd : ending.kind = .eof) : Reader :=
  ⟨unread, ending, isEnd, .empty, []⟩

namespace Machine

/-- A stream without failures leaves a machine in front of its first token. -/
theorem start_holds {later ts : List Token} {ending : Place}
    (tokens : ts <+: later ++ [.eof ending]) (base : Output) :
    ∃ m, start ⟨later.map .ok, ending⟩ base = (.ok (), m) ∧ m.Holds ts ∧
      m.scope = .empty ∧ m.output = base := by
  -- the two ends that a new machine has in view make room for the first two tokens
  have holds : (ofStream ⟨later.map .ok, ending⟩ base).Holds
      (.eof ⟨0, 0⟩ :: .eof ⟨0, 0⟩ :: ts) :=
    ⟨later, rfl, by simpa [ofStream] using tokens⟩
  obtain ⟨m, once, holds, scope, output⟩ := holds.advance
  obtain ⟨u, twice, holds, scope', output'⟩ := holds.advance
  refine ⟨u, ?_, holds, scope'.trans scope, output'.trans output⟩
  simp only [start, once, twice]

/-- Compiling a stream without failures is reading its tokens. -/
theorem compile_shows {later unread : List Token} {ending : Place} {final : Token}
    (isEnd : final.kind = .eof) (tokens : unread ++ [final] <+: later ++ [.eof ending])
    (base : Output) :
    (compile ⟨later.map .ok, ending⟩ base).1 =
        ((Reader.start unread final isEnd).run Goal.body).1 ∧
      (compile ⟨later.map .ok, ending⟩ base).2.Shows base.opened
        ((Reader.start unread final isEnd).run Goal.body).2 := by
  obtain ⟨m, started, holds, scope, output⟩ := start_holds tokens base
  let opened : Machine := { m with output := base.opened }
  have opening : m.step (.act .openProgram) = (.ok [], opened) := by
    simp [step, perform, opened, output, Output.opened]
  have shows : opened.Shows base.opened (Reader.start unread final isEnd) :=
    ⟨holds, scope, by simp [opened, Reader.written, Reader.start, Scope.empty]⟩
  have compiled : compile ⟨later.map .ok, ending⟩ base = opened.run Goal.body := by
    simp only [compile, started]
    exact run_cons_of_step_ok opening
  rw [compiled]
  exact run_shows shows (by decide)

end Machine

/-! ## Ready-made tokens -/

namespace Token

/-- The tokens in front of the first end. -/
def beforeEnd (ts : List Token) : List Token :=
  ts.takeWhile (·.kind != .eof)

/-- The first end among tokens, or the one that follows them. -/
def firstEnd (ts : List Token) : Token :=
  (ts.find? (·.kind == .eof)).getD (.eof ⟨0, 0⟩)

theorem kind_firstEnd (ts : List Token) : (firstEnd ts).kind = .eof := by
  unfold firstEnd
  cases found : ts.find? (·.kind == .eof) with
  | none => rfl
  | some t => simpa using List.find?_some found

theorem kind_ne_eof_of_mem_beforeEnd {ts : List Token} {t : Token} (mem : t ∈ beforeEnd ts) :
    t.kind ≠ .eof := by
  simpa using List.mem_takeWhile_imp mem

theorem beforeEnd_append {ts : List Token} (noEnd : ∀ t ∈ ts, t.kind ≠ .eof) (us : List Token) :
    beforeEnd (ts ++ us) = ts ++ beforeEnd us :=
  List.takeWhile_append_of_pos (by simpa using noEnd)

theorem beforeEnd_append_firstEnd (ts : List Token) :
    beforeEnd ts ++ [firstEnd ts] <+: ts ++ [.eof ⟨0, 0⟩] := by
  induction ts with
  | nil => simp [beforeEnd, firstEnd]
  | cons t ts ih =>
    by_cases isEnd : t.kind = .eof
    · simp [beforeEnd, firstEnd, isEnd]
    · simpa [beforeEnd, firstEnd, isEnd] using ih

end Token

def Reader.ofTokens (ts : List Token) : Reader :=
  .start (Token.beforeEnd ts) (Token.firstEnd ts) (Token.kind_firstEnd ts)

/-- Compiling ready-made tokens is reading them up to the first end. -/
theorem Machine.compile_ofTokens (ts : List Token) (base : Output) :
    (compile (.ofTokens ts) base).1 = ((Reader.ofTokens ts).run Goal.body).1 ∧
      (compile (.ofTokens ts) base).2.Shows base.opened ((Reader.ofTokens ts).run Goal.body).2 :=
  compile_shows _ (Token.beforeEnd_append_firstEnd ts) base

end BasicToC
