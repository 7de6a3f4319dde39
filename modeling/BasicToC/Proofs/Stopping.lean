import BasicToC.Proofs.Streaming

/-! # Stopping at the end

No call of a machine goes on for ever, and none takes a token from behind the end of its program,
however often the machine is called and wherever it has failed before.  A step either uses up a
token in front of the end or lightens the goals, and a machine with the end in view uses up
nothing.  So the tokens behind the end are never seen: one of them may be held in advance, but it
does not come into view.

Both facts are about the tokens up to the end that a machine still has to read.  `Twins` are two
machines that have these in common, and `Twins.step` says at once that they do the same and how
many of these tokens a step uses up.
-/

namespace BasicToC

namespace Machine

/-! ## Counted runs -/

/-- Working off goals takes exactly this many steps, the failing one included. -/
inductive RunsIn : Nat → Machine → List Goal → Except Diagnostic Unit × Machine → Prop
  | done (m : Machine) : RunsIn 0 m [] (.ok (), m)
  | step {n : Nat} {m u : Machine} {goal : Goal} {goals more : List Goal}
      {x : Except Diagnostic Unit × Machine} (stepped : m.step goal = (.ok more, u))
      (rest : RunsIn n u (more ++ goals) x) : RunsIn (n + 1) m (goal :: goals) x
  | fail {m u : Machine} {goal : Goal} {goals : List Goal} {d : Diagnostic}
      (stepped : m.step goal = (.error d, u)) : RunsIn 1 m (goal :: goals) (.error d, u)

theorem length_pulled_of_advance {m u : Machine} (advanced : m.advance = (.ok (), u)) :
    u.pulled.length = m.pulled.length + 1 := by
  obtain ⟨t, stream, -, pulls⟩ | ⟨d, stream, -, fails⟩ := m.advance_cases
  · obtain rfl := (Prod.mk.inj (pulls.symm.trans advanced)).2
    simp [pulled_pull]
  · cases fails.symm.trans advanced

/-! ## Twins -/

/-- Two machines that have the same tokens to read up to the end, the same names and the same
    output. -/
structure Twins (rest : List Token) (final : Token) (m u : Machine) : Prop where
  isEnd : final.kind = .eof
  tokens : m.Holds (rest ++ [final])
  tokens' : u.Holds (rest ++ [final])
  scope : u.scope = m.scope
  output : u.output = m.output

namespace Twins

variable {rest : List Token} {final : Token} {m u : Machine}

theorem current_eq (twins : Twins rest final m u) :
    m.current = rest.headD final ∧ u.current = rest.headD final := by
  obtain ⟨-, tokens, tokens', -, -⟩ := twins
  cases rest with
  | nil => exact ⟨tokens.current_eq, tokens'.current_eq⟩
  | cons t ts => exact ⟨tokens.current_eq, tokens'.current_eq⟩

theorem echo (twins : Twins rest final m u) (echo : Option Fragment) :
    Twins rest final (m.echo echo) (u.echo echo) := by
  cases echo with
  | none => exact twins
  | some f =>
    exact { twins with output := congrArg (·.emit f) twins.output }

/-- With something other than the end in view there is a token to use up. -/
theorem advance (twins : Twins rest final m u) (notEnd : m.current.kind ≠ .eof) :
    ∃ t ts m' u', rest = t :: ts ∧ m.advance = (.ok (), m') ∧ u.advance = (.ok (), u') ∧
      Twins ts final m' u' ∧ m'.pulled.length = m.pulled.length + 1 := by
  have current := twins.current_eq.1
  obtain ⟨isEnd, tokens, tokens', scope, output⟩ := twins
  cases rest with
  | nil =>
    rw [current] at notEnd
    exact absurd isEnd notEnd
  | cons t ts =>
    obtain ⟨m', advanced, holds, sameScope, sameOutput⟩ := tokens.advance
    obtain ⟨u', advanced', holds', sameScope', sameOutput'⟩ := tokens'.advance
    refine ⟨t, ts, m', u', rfl, advanced, advanced', ⟨isEnd, holds, holds', ?_, ?_⟩, ?_⟩
    · rw [sameScope', scope, sameScope]
    · rw [sameOutput', output, sameOutput]
    · exact length_pulled_of_advance advanced

theorem perform (twins : Twins rest final m u) (action : Action) :
    (m.perform action).1 = (u.perform action).1 ∧
      Twins rest final (m.perform action).2 (u.perform action).2 := by
  obtain ⟨isEnd, tokens, tokens', scope, output⟩ := twins
  cases action with
  | openProgram | emit | jump =>
    refine ⟨rfl, isEnd, tokens, tokens', ?_, ?_⟩ <;> simp [Machine.perform, emit, scope, output]
  | declare name =>
    refine ⟨rfl, ?_⟩
    simp only [Machine.perform, declare, scope, output]
    split <;> exact ⟨isEnd, tokens, tokens', by simp [scope], by simp [output]⟩
  | setLabel name position =>
    simp only [Machine.perform, scope, output]
    split <;> exact ⟨rfl, isEnd, tokens, tokens', by simp [scope], by simp [output]⟩
  | checkJumps =>
    simp only [Machine.perform, scope]
    split <;> exact ⟨rfl, isEnd, tokens, tokens', scope, output⟩

/-- A step does the same to both.  It uses up a token, or lightens the goals by at least one. -/
theorem step (twins : Twins rest final m u) (goal : Goal) :
    (m.step goal).1 = (u.step goal).1 ∧
      ∃ rest', Twins rest' final (m.step goal).2 (u.step goal).2 ∧
        (m.step goal).2.pulled.length + rest'.length = m.pulled.length + rest.length ∧
        rest'.length ≤ rest.length ∧
        ∀ more, (m.step goal).1 = .ok more →
          Goal.tokenWeight * rest'.length + Goal.totalWeight more + 1 ≤
            Goal.tokenWeight * rest.length + goal.weight := by
  cases goal with
  | act action =>
    obtain ⟨result, after⟩ := twins.perform action
    have pulled := m.pulled_perform action
    rw [step_act, step_act]
    cases performed : m.perform action with
    | mk mine m' =>
      cases performed' : u.perform action with
      | mk other u' =>
        rw [performed, performed'] at result after
        rw [performed] at pulled
        obtain rfl : mine = other := result
        cases mine with
        | ok done =>
          refine ⟨rfl, rest, after, by rw [← pulled]; rfl, Nat.le_refl _, fun more ok => ?_⟩
          cases ok
          simp [Goal.weight]
        | error d =>
          refine ⟨rfl, rest, after, by rw [← pulled]; rfl, Nat.le_refl _, fun more ok => ?_⟩
          cases ok
  | read phrase =>
    have progress := phrase.progress_predict m.scope m.current
    have same : u.current = m.current := twins.current_eq.2.trans twins.current_eq.1.symm
    simp only [Machine.step, same, twins.scope]
    cases predicted : phrase.predict m.scope m.current with
    | reject problem =>
      refine ⟨by simp [Machine.move, same], rest, twins, rfl, Nat.le_refl _, fun more ok => ?_⟩
      cases ok
    | expand goals =>
      refine ⟨rfl, rest, twins, rfl, Nat.le_refl _, fun more ok => ?_⟩
      cases ok
      simp only [predicted, Move.Progress] at progress
      simp only [Goal.weight]
      omega
    | shift echo goals =>
      simp only [predicted, Move.Progress] at progress
      -- what is in view is not the end, so both have a token to give
      obtain ⟨t, ts, m', u', rfl, advanced, advanced', after, pulled⟩ :=
        (twins.echo echo).advance (by simpa using progress.1)
      rw [pulled_echo] at pulled
      rw [move_shift, move_shift, advanced, advanced']
      refine ⟨rfl, ts, after, ?_, by simp, fun more ok => ?_⟩
      · change m'.pulled.length + _ = _
        rw [pulled, List.length_cons]
        omega
      · cases ok
        simp only [List.length_cons, Goal.tokenWeight] at *
        omega

/-- Whole runs do the same to both, in no more steps than the tokens and the goals allow. -/
theorem run (twins : Twins rest final m u) (goals : List Goal) :
    (m.run goals).1 = (u.run goals).1 ∧
      ∃ rest' n, Twins rest' final (m.run goals).2 (u.run goals).2 ∧
        (m.run goals).2.pulled.length + rest'.length = m.pulled.length + rest.length ∧
        RunsIn n m goals (m.run goals) ∧ rest'.length ≤ rest.length ∧
        n ≤ Goal.tokenWeight * rest.length + Goal.totalWeight goals := by
  -- each step is paid for by the token that it uses up or by the weight that the goals lose
  fun_induction Machine.run m goals generalizing rest u with
  | case1 m =>
    rw [run_nil]
    exact ⟨rfl, rest, 0, twins, rfl, .done m, Nat.le_refl _, Nat.zero_le _⟩
  | case2 m goal goals more m' stepped ih =>
    obtain ⟨result, between, twins', pulled, shorter, lighter⟩ := twins.step goal
    rw [stepped] at result twins' pulled lighter
    have stepped' : u.step goal = (.ok more, (u.step goal).2) := Prod.ext result.symm rfl
    rw [run_cons_of_step_ok stepped']
    obtain ⟨result', rest', n, after, pulled', runs, shorter', bound⟩ := ih twins'
    refine ⟨result', rest', n + 1, after, pulled'.trans pulled, .step stepped runs,
      Nat.le_trans shorter' shorter, ?_⟩
    have less := lighter more rfl
    rw [Goal.totalWeight_append] at bound
    rw [Goal.totalWeight_cons]
    omega
  | case3 m goal goals d m' stepped =>
    obtain ⟨result, rest', twins', pulled, shorter, -⟩ := twins.step goal
    rw [stepped] at result twins' pulled
    have stepped' : u.step goal = (.error d, (u.step goal).2) := Prod.ext result.symm rfl
    rw [run_cons_of_step_error stepped']
    refine ⟨rfl, rest', 1, twins', pulled, .fail stepped, shorter, ?_⟩
    have positive : 0 < goal.weight := by
      cases goal with
      | act action => exact Nat.one_pos
      | read phrase => cases phrase <;> simp [Goal.weight, Phrase.weight]
    rw [Goal.totalWeight_cons]
    omega

/-- Twins answer any number of calls in the same way. -/
theorem programs (twins : Twins rest final m u) (n : Nat) :
    (m.programs n).map (fun call => (call.1, call.2.output)) =
      (u.programs n).map (fun call => (call.1, call.2.output)) := by
  induction n generalizing m u rest with
  | zero => rfl
  | succ n ih =>
    obtain ⟨result, rest', -, after, -⟩ := twins.run Goal.program
    have first : (m.program.1, m.program.2.output) = (u.program.1, u.program.2.output) :=
      Prod.ext result after.output.symm
    have others := ih after
    simp only [Machine.programs, List.map_cons, first]
    exact congrArg _ others

end Twins

/-! ## Calls -/

/-- What holds of a machine and is kept by calls holds whenever a call is made. -/
theorem programs_preserve {P : Machine → Prop} (keeps : ∀ u, P u → P u.program.2) {m : Machine}
    (holds : P m) (n : Nat) {call : Except Diagnostic Unit × Machine} (mem : call ∈ m.programs n) :
    ∃ u, P u ∧ call = u.program := by
  induction n generalizing m with
  | zero => cases mem
  | succ n ih =>
    rcases List.mem_cons.mp mem with rfl | mem
    · exact ⟨m, holds, rfl⟩
    · exact ih (keeps m holds) mem

/-- The tokens that a machine has pulled, and what it will pull, are the pulls of `stream`. -/
def Draws (stream : TokenStream) (m : Machine) : Prop :=
  ∀ k, stream.pulls (m.pulled.length + k) = m.pulled.map .ok ++ m.stream.pulls k

theorem Draws.pull {stream after : TokenStream} {m : Machine} {t : Token} (draws : m.Draws stream)
    (next : m.stream.next = (.ok t, after)) : (m.pull t after).Draws stream := by
  intro k
  have one := draws (k + 1)
  rw [TokenStream.pulls, next] at one
  rw [pulled_pull, List.length_append, List.length_singleton, Nat.add_assoc, Nat.add_comm 1 k, one]
  simp [Machine.pull]

theorem stream_perform (m : Machine) (action : Action) :
    (m.perform action).2.stream = m.stream :=
  congrArg (·.2.stream) (m.perform_withStream m.stream action)

theorem Draws.perform {stream : TokenStream} {m : Machine} (draws : m.Draws stream)
    (action : Action) : (m.perform action).2.Draws stream := by
  rw [Draws, pulled_perform, stream_perform]
  exact draws

/-- A machine draws on `stream`, and none of the tokens that are left fails. -/
def Follows (stream : TokenStream) (m : Machine) : Prop :=
  (∃ later : List Token, m.stream.pending = later.map .ok) ∧ m.Draws stream

theorem Follows.advance {stream : TokenStream} {m : Machine} (follows : m.Follows stream) :
    m.advance.2.Follows stream := by
  obtain ⟨⟨later, pending⟩, draws⟩ := follows
  -- a pull gives the next token, or the end if there is none
  obtain ⟨t, after, next, rest, isOk⟩ : ∃ t after, m.stream.next = (.ok t, after) ∧
      ∃ rest : List Token, after.pending = rest.map .ok := by
    cases later with
    | nil =>
      refine ⟨.eof m.stream.ending, m.stream, ?_, [], pending⟩
      simp only [TokenStream.next, pending, List.map_nil]
    | cons t later =>
      refine ⟨t, ⟨later.map .ok, m.stream.ending⟩, ?_, later, rfl⟩
      simp only [TokenStream.next, pending, List.map_cons]
  rw [advance_of_next_ok next]
  exact ⟨⟨rest, isOk⟩, Draws.pull draws next⟩

theorem Follows.run {stream : TokenStream} {m : Machine} (follows : m.Follows stream)
    (goals : List Goal) : (m.run goals).2.Follows stream := by
  refine run_preserves (fun u f follows => follows) (fun u follows => follows.advance) ?_ follows
    goals
  intro u action follows
  exact ⟨u.stream_perform action ▸ follows.1, Draws.perform follows.2 action⟩

/-- What the machine has pulled are tokens of `ts`, and what it still has to read up to the end are
    the others in front of it. -/
structure Within (ts : List Token) (m : Machine) : Prop where
  follows : m.Follows (.ofTokens ts)
  unread : ∃ rest, Twins rest (Token.firstEnd ts) m m ∧
    rest.length ≤ (Token.beforeEnd ts).length ∧
    m.pulled.length + rest.length = (Token.beforeEnd ts).length + 2

theorem Within.program {ts : List Token} {m : Machine} (within : m.Within ts) :
    m.program.2.Within ts ∧ ∃ steps, RunsIn steps m Goal.program m.program ∧
      steps ≤ Goal.tokenWeight * (Token.beforeEnd ts).length + Goal.totalWeight Goal.program := by
  obtain ⟨follows, rest, twins, short, count⟩ := within
  obtain ⟨-, rest', steps, after, pulled, runs, shorter, bound⟩ := twins.run Goal.program
  refine ⟨⟨follows.run _, rest', after, Nat.le_trans shorter short, pulled.trans count⟩,
    steps, runs, ?_⟩
  exact Nat.le_trans bound (Nat.add_le_add_right (Nat.mul_le_mul_left _ short) _)

theorem Within.pulled {ts : List Token} {m : Machine} (within : m.Within ts) :
    m.pulled.map .ok = TokenStream.pulls m.pulled.length (.ofTokens ts) ∧
      m.pulled.length ≤ (Token.beforeEnd ts).length + 2 := by
  obtain ⟨follows, rest, -, -, count⟩ := within
  have pulls := follows.2 0
  rw [TokenStream.pulls, List.append_nil, Nat.add_zero] at pulls
  exact ⟨pulls.symm, by omega⟩

/-- A new machine for ready-made tokens has pulled two of them. -/
theorem exists_start (ts : List Token) (base : Output) :
    ∃ m, start (.ofTokens ts) base = (.ok (), m) ∧ m.pulled.length = 2 ∧ m.Within ts := by
  obtain ⟨m, started, holds, -, -⟩ := start_holds (Token.beforeEnd_append_firstEnd ts) base
  obtain ⟨u, first, second⟩ : ∃ u, (ofStream (.ofTokens ts) base).advance = (.ok (), u) ∧
      u.advance = (.ok (), m) := by
    have begun := started
    unfold start at begun
    split at begun
    · next u advanced => exact ⟨u, advanced, begun⟩
    · cases begun
  have two : m.pulled.length = 2 := by
    rw [length_pulled_of_advance second, length_pulled_of_advance first]
    rfl
  have follows : m.Follows (.ofTokens ts) := by
    have begun : (ofStream (.ofTokens ts) base).Follows (.ofTokens ts) :=
      ⟨⟨ts, rfl⟩, fun k => by simp [Machine.pulled, ofStream]⟩
    have once := begun.advance
    rw [first] at once
    have twice := once.advance
    rw [second] at twice
    exact twice
  have twins : Twins (Token.beforeEnd ts) (Token.firstEnd ts) m m :=
    ⟨Token.kind_firstEnd ts, holds, holds, rfl, rfl⟩
  refine ⟨m, started, two, follows, _, twins, Nat.le_refl _, ?_⟩
  rw [two, Nat.add_comm]

/-- What a new machine says and leaves when it is called for programs `n` times. -/
def outcomes (stream : TokenStream) (base : Output) (n : Nat) :
    Except Diagnostic Unit × List (Except Diagnostic Unit × Output) :=
  let (result, m) := start stream base
  (result, (m.programs n).map fun call => (call.1, call.2.output))

/-- Tokens behind an end change nothing. -/
theorem outcomes_append_end (p q q' : List Token) {final : Token} (isEnd : final.kind = .eof)
    (base : Output) (n : Nat) :
    outcomes (.ofTokens (p ++ final :: q)) base n =
      outcomes (.ofTokens (p ++ final :: q')) base n := by
  have begins : ∀ q, ∃ m, start (.ofTokens (p ++ final :: q)) base = (.ok (), m) ∧
      m.Holds (p ++ [final]) ∧ m.scope = .empty ∧ m.output = base :=
    fun q => start_holds (by simp) base
  obtain ⟨m, started, holds, scope, output⟩ := begins q
  obtain ⟨u, started', holds', scope', output'⟩ := begins q'
  have twins : Twins p final m u :=
    ⟨isEnd, holds, holds', scope'.trans scope.symm, output'.trans output.symm⟩
  simp only [outcomes, started, started', twins.programs n]

/-- However often a machine for ready-made tokens is called, every call comes to its end, in a
    number of steps that depends on the tokens in front of the first end alone.  All calls together
    have pulled no more than two tokens beyond these, so what is behind an end never matters. -/
theorem stops_at_end (base : Output) :
    (∀ ts : List Token, ∃ m, start (.ofTokens ts) base = (.ok (), m) ∧ m.pulled.length = 2 ∧
      ∀ n, ∀ call ∈ m.programs n,
        (∃ u steps, call = u.program ∧ RunsIn steps u Goal.program call ∧
          steps ≤ Goal.tokenWeight * (Token.beforeEnd ts).length +
            Goal.totalWeight Goal.program) ∧
        call.2.pulled.map .ok = TokenStream.pulls call.2.pulled.length (.ofTokens ts) ∧
        call.2.pulled.length ≤ (Token.beforeEnd ts).length + 2) ∧
    ∀ (p q q' : List Token) (final : Token), final.kind = .eof → ∀ n,
      outcomes (.ofTokens (p ++ final :: q)) base n =
        outcomes (.ofTokens (p ++ final :: q')) base n := by
  refine ⟨fun ts => ?_, fun p q q' final isEnd n => outcomes_append_end p q q' isEnd base n⟩
  obtain ⟨m, started, two, within⟩ := exists_start ts base
  refine ⟨m, started, two, fun n call mem => ?_⟩
  obtain ⟨u, within, rfl⟩ :=
    programs_preserve (fun u (within : u.Within ts) => within.program.1) within n mem
  obtain ⟨after, steps, runs, bound⟩ := within.program
  exact ⟨⟨u, steps, rfl, runs, bound⟩, after.pulled⟩

/-- Two calls that fail at the same line, and a third one that comes to the end. -/
theorem stops_at_end_of_resumed :
    let front := [Keyword.print.word.token, Keyword.print.word.token, Word.newline.token]
    let ts := front ++ .eof ⟨0, 0⟩ :: [Word.newline.token, Keyword.print.word.token]
    let m := (start (.ofTokens ts) .empty).2
    (m.programs 3).map (·.1.isOk) = [false, false, true] ∧
      (∃ call ∈ m.programs 3, call.1 = .ok () ∧ call.2.pulled.length ≤ 5) ∧
      outcomes (.ofTokens ts) .empty 3 =
        outcomes (.ofTokens (front ++ .eof ⟨0, 0⟩ :: [])) .empty 3 := by
  intro front ts m
  obtain ⟨m', started, -, calls⟩ := (stops_at_end .empty).1 ts
  obtain rfl : m = m' := congrArg Prod.snd started
  have third : m.program.2.program.2.program ∈ m.programs 3 := by simp [programs]
  refine ⟨by decide +kernel, ⟨_, third, by decide +kernel, (calls 3 _ third).2.2⟩, ?_⟩
  exact (stops_at_end .empty).2 front _ [] (.eof ⟨0, 0⟩) rfl 3

end Machine

end BasicToC
