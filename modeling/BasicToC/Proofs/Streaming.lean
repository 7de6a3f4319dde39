import BasicToC.Compile
import BasicToC.Proofs.Acceptance
import BasicToC.Proofs.Vocabulary

/-! # Compiling while lexing

Tokens can be taken from a text one by one, or all of them can be made first.  Without a lexical
error the two come to the same, since a reader sees the same tokens either way.

With a lexical error there is no list of all tokens, but there are the tokens in front of it, and
they can be compiled by themselves.  The two machines are `Abreast` until one of them pulls the
token after these: there the text fails, and the list gives the end or whatever comes next.
-/

namespace BasicToC

/-! ## Tokens taken so far -/

/-- The token of an event, if it is the pull of one. -/
def Event.token? : Event → Option Token
  | .pulled t => some t
  | _ => none

namespace Machine

/-- The tokens that a machine has pulled. -/
def pulled (m : Machine) : List Token :=
  m.events.toList.filterMap Event.token?

theorem pulled_echo (m : Machine) (echo : Option Fragment) : (m.echo echo).pulled = m.pulled := by
  cases echo <;> rfl

theorem pulled_pull (m : Machine) (t : Token) (stream : TokenStream) :
    (m.pull t stream).pulled = m.pulled ++ [t] := by
  simp [pulled, pull, Event.token?]

theorem pulled_perform (m : Machine) (action : Action) :
    (m.perform action).2.pulled = m.pulled := by
  cases action with
  | openProgram | emit | jump => rfl
  | declare name =>
    simp only [perform, declare]
    split
    · rfl
    · simp [pulled, Event.token?]
  | setLabel name position =>
    simp only [perform]
    split
    · rfl
    · simp [pulled, Event.token?]
  | checkJumps =>
    simp only [perform]
    split <;> rfl

/-- What a pull leaves: one token more, or the same tokens and another stream. -/
theorem advance_cases (m : Machine) :
    (∃ t stream, m.stream.next = (.ok t, stream) ∧ m.advance = (.ok (), m.pull t stream)) ∨
      ∃ d stream, m.stream.next = (.error d, stream) ∧
        m.advance = (.error d, { m with stream }) := by
  cases pulled : m.stream.next with
  | mk result stream =>
    cases result with
    | ok t => exact Or.inl ⟨t, stream, rfl, advance_of_next_ok pulled⟩
    | error d => exact Or.inr ⟨d, stream, rfl, by simp only [advance, pulled]⟩

section Preserves

variable {P : Machine → Prop} (emits : ∀ m f, P m → P (Machine.emit m f))
  (advances : ∀ m, P m → P (Machine.advance m).2)
  (performs : ∀ m action, P m → P (Machine.perform m action).2)

include emits advances performs

/-- What holds after every single operation holds after every step. -/
theorem step_preserves {m : Machine} (holds : P m) (goal : Goal) : P (m.step goal).2 := by
  cases goal with
  | act action =>
    have performed := performs m action holds
    simp only [step]
    split <;> simp_all
  | read phrase =>
    simp only [step]
    cases phrase.predict m.scope m.current with
    | reject problem => exact holds
    | expand goals => exact holds
    | shift echo goals =>
      have echoed : P (m.echo echo) := by
        cases echo with
        | none => exact holds
        | some f => exact emits m f holds
      have advanced := advances _ echoed
      simp only [move]
      split <;> simp_all

theorem run_preserves {m : Machine} (holds : P m) (goals : List Goal) : P (m.run goals).2 := by
  fun_induction Machine.run m goals with
  | case1 m => exact holds
  | case2 m goal goals more u stepped ih =>
    have after := step_preserves emits advances performs holds goal
    rw [stepped] at after
    exact ih after
  | case3 m goal goals d u stepped =>
    have after := step_preserves emits advances performs holds goal
    rw [stepped] at after
    exact after

end Preserves

theorem pulled_prefix_advance (m : Machine) : m.pulled <+: m.advance.2.pulled := by
  obtain ⟨t, stream, -, advanced⟩ | ⟨d, stream, -, advanced⟩ := m.advance_cases
  · rw [advanced, pulled_pull]
    exact List.prefix_append _ _
  · rw [advanced]
    exact List.prefix_rfl

/-- The tokens pulled so far stay pulled. -/
theorem pulled_prefix_run (m : Machine) (goals : List Goal) :
    m.pulled <+: (m.run goals).2.pulled := by
  refine run_preserves (P := fun u => m.pulled <+: u.pulled) (fun u f kept => kept)
    (fun u kept => kept.trans u.pulled_prefix_advance) ?_ List.prefix_rfl goals
  intro u action kept
  rw [pulled_perform]
  exact kept

theorem pulled_step_prefix_run (m : Machine) (goal : Goal) (goals : List Goal) :
    (m.step goal).2.pulled <+: (m.run (goal :: goals)).2.pulled := by
  cases stepped : m.step goal with
  | mk result u =>
    cases result with
    | ok more =>
      rw [run_cons_of_step_ok stepped]
      exact u.pulled_prefix_run _
    | error d =>
      rw [run_cons_of_step_error stepped]

theorem view_perform (m : Machine) (action : Action) :
    (m.perform action).2.current = m.current ∧ (m.perform action).2.lookahead = m.lookahead := by
  cases action with
  | openProgram | emit | jump => exact ⟨rfl, rfl⟩
  | declare name =>
    simp only [perform, declare]
    split <;> exact ⟨rfl, rfl⟩
  | setLabel name position =>
    simp only [perform]
    split <;> exact ⟨rfl, rfl⟩
  | checkJumps =>
    simp only [perform]
    split <;> exact ⟨rfl, rfl⟩

/-- The machine sees the token before the last one that it has pulled. -/
def Looking (m : Machine) : Prop :=
  [m.current, m.lookahead] <:+ m.pulled

theorem Looking.advance {m : Machine} (looking : m.Looking) : m.advance.2.Looking := by
  obtain ⟨t, stream, -, advanced⟩ | ⟨d, stream, -, advanced⟩ := m.advance_cases
  · rw [advanced, Looking, pulled_pull]
    obtain ⟨earlier, whole⟩ := looking
    exact ⟨earlier ++ [m.current], by simp [← whole, pull]⟩
  · rw [advanced]
    exact looking

theorem Looking.perform {m : Machine} (looking : m.Looking) (action : Action) :
    (m.perform action).2.Looking := by
  obtain ⟨current, lookahead⟩ := m.view_perform action
  rw [Looking, pulled_perform, current, lookahead]
  exact looking

theorem Looking.run {m : Machine} (looking : m.Looking) (goals : List Goal) :
    (m.run goals).2.Looking :=
  run_preserves (fun _ _ looking => looking) (fun _ looking => looking.advance)
    (fun _ action looking => looking.perform action) looking goals

end Machine

/-! ## Two machines abreast -/

namespace Machine

/-- The machine with another stream to pull from. -/
def withStream (m : Machine) (stream : TokenStream) : Machine :=
  { m with stream }

theorem perform_withStream (m : Machine) (stream : TokenStream) (action : Action) :
    (m.withStream stream).perform action =
      ((m.perform action).1, (m.perform action).2.withStream stream) := by
  cases action with
  | openProgram | emit | jump => rfl
  | declare name =>
    cases known : m.scope.hasVariable name <;> simp [perform, declare, withStream, known]
  | setLabel name position =>
    cases known : m.scope.hasLabel name <;> simp [perform, withStream, known]
  | checkJumps => cases dangling : m.scope.dangling? <;> simp [perform, withStream, dangling]

/-- Go on from a result, unless it is a failure. -/
def andThen {α β : Type} (x : Except Diagnostic α × Machine)
    (f : α → Machine → Except Diagnostic β × Machine) : Except Diagnostic β × Machine :=
  match x with
  | (.ok a, m) => f a m
  | (.error d, m) => (.error d, m)

theorem move_shift (m : Machine) (echo : Option Fragment) (goals : List Goal) :
    m.move (.shift echo goals) = andThen (m.echo echo).advance fun _ u => (.ok goals, u) := by
  simp only [move, andThen]
  split <;> simp_all

theorem step_act (m : Machine) (action : Action) :
    m.step (.act action) = andThen (m.perform action) fun _ u => (.ok [], u) := by
  simp only [step, andThen]
  split <;> simp_all

theorem start_eq (stream : TokenStream) (output : Output) :
    start stream output = andThen (ofStream stream output).advance fun _ u => u.advance := by
  simp only [start, andThen]
  split <;> simp_all

theorem eq_of_start {stream : TokenStream} {output : Output} {m : Machine}
    (started : start stream output = (.ok (), m)) :
    m = (ofStream stream output).advance.2.advance.2 := by
  rw [start_eq] at started
  cases advanced : (ofStream stream output).advance with
  | mk result u =>
    rw [advanced] at started
    cases result with
    | ok done => exact (congrArg Prod.snd started).symm
    | error d => cases started

theorem compile_eq (stream : TokenStream) (output : Output) :
    compile stream output = andThen (start stream output) fun _ u => u.program := by
  simp only [compile, andThen]
  split <;> simp_all

end Machine

section Abreast

variable {ts : List Token} {lexical : Diagnostic} {rest : List (Except Diagnostic Token)}

/-- The two machines differ in their streams only.  What both have pulled and what both still have
    in common to pull is `ts`; after that the first one fails. -/
structure Abreast (ts : List Token) (lexical : Diagnostic)
    (rest : List (Except Diagnostic Token)) (m u : Machine) : Prop where
  same : u = m.withStream u.stream
  fork : ∃ common later : List Token,
    m.stream.pending = common.map .ok ++ .error lexical :: rest ∧
    u.stream.pending = common.map .ok ++ later.map .ok ∧ m.pulled ++ common = ts

/-- The first machine has failed where the second has pulled one token more. -/
structure Parted {α : Type} (ts : List Token) (lexical : Diagnostic)
    (rest : List (Except Diagnostic Token)) (x y : Except Diagnostic α × Machine) : Prop where
  failed : x.1 = .error lexical
  pending : x.2.stream.pending = rest
  beyond : ts.length < y.2.pulled.length

/-- Two results that are the same, with the machines still abreast, or not any more. -/
def Together {α : Type} (ts : List Token) (lexical : Diagnostic)
    (rest : List (Except Diagnostic Token)) (x y : Except Diagnostic α × Machine) : Prop :=
  (x.1 = y.1 ∧ Abreast ts lexical rest x.2 y.2) ∨ Parted ts lexical rest x y

/-- What is done after two results that are together leaves them together. -/
theorem Together.andThen {α β : Type} {x y : Except Diagnostic α × Machine}
    (together : Together ts lexical rest x y)
    {f : α → Machine → Except Diagnostic β × Machine}
    (keeps : ∀ a m u, Abreast ts lexical rest m u → Together ts lexical rest (f a m) (f a u))
    (grows : ∀ a u, u.pulled <+: (f a u).2.pulled) :
    Together ts lexical rest (Machine.andThen x f) (Machine.andThen y f) := by
  obtain ⟨result, m⟩ := x
  obtain ⟨result', u⟩ := y
  obtain ⟨same, abreast⟩ | ⟨failed, pending, beyond⟩ := together
  · obtain rfl : result = result' := same
    cases result with
    | ok a => exact keeps a m u abreast
    | error d => exact Or.inl ⟨rfl, abreast⟩
  · obtain rfl : result = .error lexical := failed
    refine Or.inr ⟨rfl, pending, ?_⟩
    cases result' with
    | ok a => exact Nat.lt_of_lt_of_le beyond (grows a u).length_le
    | error d => exact beyond

theorem Abreast.pulled_eq {m u : Machine} (abreast : Abreast ts lexical rest m u) :
    u.pulled = m.pulled := by
  rw [abreast.same]
  rfl

theorem Abreast.pulled_prefix {m u : Machine} (abreast : Abreast ts lexical rest m u) :
    u.pulled <+: ts := by
  obtain ⟨common, later, -, -, taken⟩ := abreast.fork
  exact ⟨common, by rw [abreast.pulled_eq, taken]⟩

/-- The failure is still to be pulled. -/
theorem Abreast.pending_ne {m u : Machine} (abreast : Abreast ts lexical rest m u) :
    m.stream.pending ≠ rest := by
  obtain ⟨common, later, left, -, -⟩ := abreast.fork
  intro pending
  have lengths := congrArg List.length (left.symm.trans pending)
  simp only [List.length_append, List.length_cons] at lengths
  omega

theorem Abreast.advance {m u : Machine} (abreast : Abreast ts lexical rest m u) :
    Together ts lexical rest m.advance u.advance := by
  have pulledSame := abreast.pulled_eq
  obtain ⟨same, common, later, left, right, taken⟩ := abreast
  cases common with
  | nil =>
    -- here they part: the first pull fails and the second gives a token or the end
    have next : m.stream.next = (.error lexical, ⟨rest, m.stream.ending⟩) := by
      simp [TokenStream.next, left]
    have advanced : m.advance = (.error lexical, { m with stream := ⟨rest, m.stream.ending⟩ }) := by
      simp only [Machine.advance, next]
    obtain ⟨t, stream, -, advanced'⟩ | ⟨d, stream, next', -⟩ := u.advance_cases
    · rw [advanced, advanced']
      refine Or.inr ⟨rfl, rfl, ?_⟩
      rw [Machine.pulled_pull, pulledSame, ← taken]
      simp
    · cases later <;> simp [TokenStream.next, right] at next'
  | cons t common =>
    have next : m.stream.next =
        (.ok t, ⟨common.map .ok ++ .error lexical :: rest, m.stream.ending⟩) := by
      simp [TokenStream.next, left]
    have next' : u.stream.next = (.ok t, ⟨common.map .ok ++ later.map .ok, u.stream.ending⟩) := by
      simp [TokenStream.next, right]
    rw [Machine.advance_of_next_ok next, Machine.advance_of_next_ok next']
    refine Or.inl ⟨rfl, ?_, common, later, rfl, rfl, ?_⟩
    · rw [same]
      rfl
    · rw [Machine.pulled_pull, List.append_assoc]
      exact taken

/-- What does not look at the stream, and pulls nothing, leaves machines abreast. -/
theorem Abreast.map {m u : Machine} (abreast : Abreast ts lexical rest m u)
    {g : Machine → Machine}
    (commutes : ∀ m stream, g (m.withStream stream) = (g m).withStream stream)
    (pulled : ∀ m, (g m).pulled = m.pulled) : Abreast ts lexical rest (g m) (g u) := by
  have stream : ∀ m, (g m).stream = m.stream := by
    intro m
    rw [show m = m.withStream m.stream from rfl, commutes]
    rfl
  obtain ⟨same, common, later, left, right, taken⟩ := abreast
  refine ⟨?_, common, later, by rw [stream, left], by rw [stream, right], by rw [pulled, taken]⟩
  rw [stream, ← commutes, ← same]

theorem Abreast.step {m u : Machine} (abreast : Abreast ts lexical rest m u) (goal : Goal) :
    Together ts lexical rest (m.step goal) (u.step goal) := by
  have same := abreast.same
  cases goal with
  | act action =>
    -- actions do not pull, so they cannot part the machines
    have performed : Abreast ts lexical rest (m.perform action).2 (u.perform action).2 :=
      abreast.map (g := fun m => (m.perform action).2)
        (fun m stream => by rw [Machine.perform_withStream])
        fun m => m.pulled_perform action
    have result : (m.perform action).1 = (u.perform action).1 := by
      rw [same, Machine.perform_withStream]
    rw [Machine.step_act, Machine.step_act]
    have together : Together ts lexical rest (m.perform action) (u.perform action) :=
      Or.inl ⟨result, performed⟩
    exact together.andThen (fun _ m u abreast => Or.inl ⟨rfl, abreast⟩) fun _ u => List.prefix_rfl
  | read phrase =>
    have current : u.current = m.current := by
      rw [same]
      rfl
    have scope : u.scope = m.scope := by
      rw [same]
      rfl
    simp only [Machine.step, current, scope]
    cases phrase.predict m.scope m.current with
    | reject problem => exact Or.inl ⟨by simp [Machine.move, current], abreast⟩
    | expand goals => exact Or.inl ⟨rfl, abreast⟩
    | shift echo goals =>
      rw [Machine.move_shift, Machine.move_shift]
      have echoed : Abreast ts lexical rest (m.echo echo) (u.echo echo) :=
        abreast.map (g := fun m => m.echo echo) (fun m stream => by cases echo <;> rfl)
          fun m => m.pulled_echo echo
      exact echoed.advance.andThen (fun _ m u abreast => Or.inl ⟨rfl, abreast⟩)
        fun _ u => List.prefix_rfl

/-- Machines that are abreast come to the same result, or part on the way. -/
theorem Abreast.run {m u : Machine} (abreast : Abreast ts lexical rest m u) (goals : List Goal) :
    Together ts lexical rest (m.run goals) (u.run goals) := by
  fun_induction Machine.run m goals generalizing u with
  | case1 m =>
    rw [Machine.run_nil]
    exact Or.inl ⟨rfl, abreast⟩
  | case2 m goal goals more v stepped ih =>
    have together := abreast.step goal
    rw [stepped] at together
    obtain ⟨result, after⟩ | parted := together
    · have stepped' : u.step goal = (.ok more, (u.step goal).2) := Prod.ext result.symm rfl
      rw [Machine.run_cons_of_step_ok stepped']
      exact ih after
    · exact absurd parted.failed nofun
  | case3 m goal goals d v stepped =>
    have together := abreast.step goal
    rw [stepped] at together
    obtain ⟨result, after⟩ | ⟨failed, pending, beyond⟩ := together
    · have stepped' : u.step goal = (.error d, (u.step goal).2) := Prod.ext result.symm rfl
      rw [Machine.run_cons_of_step_error stepped']
      exact Or.inl ⟨rfl, after⟩
    · -- the first machine has stopped, and whatever the second one does it keeps its tokens
      obtain rfl : d = lexical := by simpa using failed
      refine Or.inr ⟨rfl, pending, Nat.lt_of_lt_of_le beyond ?_⟩
      exact (u.pulled_step_prefix_run goal goals).length_le

/-- The same for whole compilations of streams that have the tokens `ts` in common. -/
theorem Machine.compile_together (ts : List Token) (lexical : Diagnostic)
    (rest : List (Except Diagnostic Token)) (ending : Place) (more : List Token)
    (output : Output) :
    Together ts lexical rest (compile ⟨ts.map .ok ++ .error lexical :: rest, ending⟩ output)
      (compile (.ofTokens (ts ++ more)) output) := by
  let m := ofStream ⟨ts.map .ok ++ .error lexical :: rest, ending⟩ output
  let u := ofStream (.ofTokens (ts ++ more)) output
  have abreast : Abreast ts lexical rest m u :=
    ⟨rfl, ts, more, rfl, by simp [u, ofStream, TokenStream.ofTokens], rfl⟩
  rw [compile_eq, compile_eq, start_eq, start_eq]
  refine (abreast.advance.andThen (fun _ m u abreast => abreast.advance) ?_).andThen
    (fun _ m u abreast => abreast.run Goal.program) ?_
  · exact fun _ u => u.pulled_prefix_advance
  · exact fun _ u => u.pulled_prefix_run Goal.program

end Abreast

/-! ## Texts -/

namespace TokenStream

/-- No token of a text is the end. -/
theorem kind_ne_eof_of_mem_scan {place : Place} {cs : List Char} {t : Token}
    (mem : .ok t ∈ (scan place cs).pending) : t.kind ≠ .eof := by
  intro isEnd
  have admissible := admissible_of_mem_scan mem
  simp [Word.Admissible, Token.word, isEnd] at admissible

/-- Pulls are tokens throughout, or tokens up to a failure. -/
theorem collect_cases (items : List (Except Diagnostic Token)) :
    (∃ ts : List Token, items = ts.map .ok ∧ collect items = .ok ts) ∨
      ∃ (ts : List Token) (d : Diagnostic) (rest : List (Except Diagnostic Token)),
        items = ts.map .ok ++ .error d :: rest ∧ collect items = .error d := by
  induction items with
  | nil => exact Or.inl ⟨[], rfl, rfl⟩
  | cons item items ih =>
    cases item with
    | error d => exact Or.inr ⟨[], d, items, rfl, rfl⟩
    | ok t =>
      obtain ⟨ts, rfl, collected⟩ | ⟨ts, d, rest, rfl, collected⟩ := ih
      · exact Or.inl ⟨t :: ts, rfl, by rw [collect, collected]; rfl⟩
      · exact Or.inr ⟨t :: ts, d, rest, rfl, by rw [collect, collected]; rfl⟩

theorem collect_map_ok (ts : List Token) : collect (ts.map .ok) = .ok ts := by
  induction ts with
  | nil => rfl
  | cons t ts ih => simp only [List.map_cons, collect, ih, Except.map]

theorem pulls_of_failure (ts : List Token) (d : Diagnostic)
    (rest : List (Except Diagnostic Token)) (ending : Place) :
    pulls (ts.length + 1) ⟨ts.map .ok ++ .error d :: rest, ending⟩ = ts.map .ok ++ [.error d] := by
  induction ts with
  | nil => rfl
  | cons t ts ih => exact congrArg (.ok t :: ·) ih

end TokenStream

namespace Machine

/-- A compilation that succeeds has the end in view. -/
theorem current_of_compile_ok {ts : List Token} {output : Output}
    (ok : (compile (.ofTokens ts) output).1 = .ok ()) :
    (compile (.ofTokens ts) output).2.current.kind = .eof := by
  obtain ⟨result, shows⟩ := compile_ofTokens ts output
  have noEnd : ∀ t ∈ (Reader.ofTokens ts).unread, t.kind ≠ .eof :=
    fun t mem => Token.kind_ne_eof_of_mem_beforeEnd mem
  rw [ok] at result
  obtain ⟨⟨tree, laid⟩, allowed, -⟩ := (Reader.run_body_ok_iff _ noEnd).mp result.symm
  rw [laid.run_body allowed] at shows
  rw [shows.current_eq]
  exact (Reader.ofTokens ts).isEnd

theorem looking_start {stream : TokenStream} {output : Output} {m : Machine}
    (started : start stream output = (.ok (), m)) : m.Looking := by
  rw [start_eq] at started
  obtain ⟨t, after, -, first⟩ | ⟨d, after, -, first⟩ := (ofStream stream output).advance_cases
  · rw [first] at started
    obtain ⟨t', after', -, second⟩ | ⟨d, after', -, second⟩ :=
      ((ofStream stream output).pull t after).advance_cases
    · obtain rfl := (Prod.mk.inj (second.symm.trans started)).2
      rw [Looking, pulled_pull, pulled_pull, List.append_assoc]
      exact List.suffix_append _ _
    · nomatch second.symm.trans started
  · rw [first] at started
    nomatch started

/-- A compilation that succeeds has pulled the token in view. -/
theorem current_mem_pulled_of_compile_ok {stream : TokenStream} {output : Output}
    (ok : (compile stream output).1 = .ok ()) :
    (compile stream output).2.current ∈ (compile stream output).2.pulled := by
  rw [compile_eq] at ok ⊢
  cases started : start stream output with
  | mk result m =>
    cases result with
    | error d => simp [andThen, started] at ok
    | ok done =>
      have looking := (looking_start started).run Goal.program
      exact looking.subset (by simp [andThen, program])

/-- Tokens without an end cannot be compiled without pulling more than them. -/
theorem exists_error_of_pulled_prefix {ts : List Token} {output : Output}
    (noEnd : ∀ t ∈ ts, t.kind ≠ .eof)
    (within : (compile (.ofTokens ts) output).2.pulled <+: ts) :
    ∃ e, (compile (.ofTokens ts) output).1 = .error e := by
  cases result : (compile (.ofTokens ts) output).1 with
  | error e => exact ⟨e, rfl⟩
  | ok done =>
    have seen := within.subset (current_mem_pulled_of_compile_ok result)
    exact absurd (current_of_compile_ok result) (noEnd _ seen)

end Machine

/-- A text without a lexical error is a stream of the tokens that lexing gives. -/
theorem ofText_of_lexed {source : String} {ts : List Token} (lexed : lex source = .ok ts) :
    ∃ (later : List Token) (ending : Place),
      TokenStream.ofText source = ⟨later.map .ok, ending⟩ ∧ ts = later ++ [.eof ending] := by
  unfold lex TokenStream.tokens at lexed
  generalize TokenStream.ofText source = stream at lexed
  obtain ⟨pending, ending⟩ := stream
  obtain ⟨later, rfl, collected⟩ | ⟨later, d, rest, rfl, collected⟩ :=
    TokenStream.collect_cases pending
  · rw [collected] at lexed
    cases lexed
    exact ⟨later, ending, rfl, rfl⟩
  · rw [collected] at lexed
    nomatch lexed

/-- Lexing gives tokens that a text can hold, and one end after them. -/
theorem tokens_of_lexed {source : String} {ts : List Token} (lexed : lex source = .ok ts) :
    (∃ ending, ts = Token.beforeEnd ts ++ [.eof ending]) ∧
      ∀ t ∈ Token.beforeEnd ts, t.word.Admissible := by
  obtain ⟨later, ending, stream, rfl⟩ := ofText_of_lexed lexed
  have scanned : ∀ t ∈ later, .ok t ∈ (TokenStream.ofText source).pending := by
    intro t mem
    simp [stream, mem]
  have before : Token.beforeEnd (later ++ [.eof ending]) = later := by
    rw [Token.beforeEnd_append fun t mem => TokenStream.kind_ne_eof_of_mem_scan (scanned t mem)]
    simp [Token.beforeEnd]
  rw [before]
  exact ⟨⟨ending, rfl⟩, fun t mem => TokenStream.admissible_of_mem_scan (scanned t mem)⟩

/-- Without a lexical error a text is compiled as its tokens are. -/
theorem Machine.compile_ofText_of_lexed {source : String} {ts : List Token}
    (lexed : lex source = .ok ts) (output : Output) :
    (compile (.ofText source) output).1 = (compile (.ofTokens ts) output).1 ∧
      (compile (.ofText source) output).2.output = (compile (.ofTokens ts) output).2.output := by
  obtain ⟨later, ending, stream, rfl⟩ := ofText_of_lexed lexed
  -- the same reader for both; what comes after the first end does not matter to it
  have longer : later ++ [.eof ending] <+: later ++ [.eof ending] ++ [Token.eof ⟨0, 0⟩] :=
    List.prefix_append _ _
  obtain ⟨result, shows⟩ := compile_shows (Token.kind_eof ending) List.prefix_rfl output
  obtain ⟨result', shows'⟩ := compile_shows (Token.kind_eof ending) longer output
  rw [stream]
  exact ⟨result.trans result'.symm, shows.output.trans shows'.output.symm⟩

/-- A text that compiles has no lexical error. -/
theorem Machine.lexed_of_compile_ok {source : String} {output : Output}
    (ok : (compile (.ofText source) output).1 = .ok ()) : ∃ ts, lex source = .ok ts := by
  have noEnd : ∀ t, .ok t ∈ (TokenStream.ofText source).pending → t.kind ≠ .eof :=
    fun t mem => TokenStream.kind_ne_eof_of_mem_scan mem
  unfold lex TokenStream.tokens
  generalize TokenStream.ofText source = stream at ok noEnd
  obtain ⟨pending, ending⟩ := stream
  obtain ⟨later, rfl, collected⟩ | ⟨later, lexical, rest, rfl, collected⟩ :=
    TokenStream.collect_cases pending
  · exact ⟨later ++ [.eof ending], by rw [collected]; rfl⟩
  · -- the tokens in front of the error do not make a program either
    have alone := compile_together later lexical rest ending [] output
    rw [List.append_nil] at alone
    obtain ⟨same, abreast⟩ | parted := alone
    · have noEndBefore : ∀ t ∈ later, t.kind ≠ .eof := fun t mem => noEnd t (by simp [mem])
      obtain ⟨e, failed⟩ := exists_error_of_pulled_prefix noEndBefore abreast.pulled_prefix
      nomatch ok.symm.trans (same.trans failed)
    · nomatch ok.symm.trans parted.failed

/-- The C program for a source text is what the machine leaves, if it does not fail. -/
theorem compile_eq_map (source : String) :
    compile source = (Machine.compile (.ofText source) .empty).1.map fun _ =>
      (Machine.compile (.ofText source) .empty).2.output.text := by
  unfold compile
  split <;> simp_all [Except.map]

/-- A source text has a C program exactly if the machine does not fail, and then it is the text of
    the output. -/
theorem compile_eq_ok_iff {source c : String} :
    compile source = .ok c ↔ (Machine.compile (.ofText source) .empty).1 = .ok () ∧
      c = (Machine.compile (.ofText source) .empty).2.output.text := by
  rw [compile_eq_map]
  cases (Machine.compile (.ofText source) .empty).1 with
  | ok done => simp [Except.map, eq_comm]
  | error d => simp [Except.map]

/-- Compiling a text agrees with lexing it first.  If there is a lexical error, the tokens in front
    of it are compiled by themselves for comparison.  As long as that pulls no more than these
    tokens, it stops with the same error as the text does, and so does every list of tokens that
    begins with them; otherwise the text stops with the lexical error. -/
theorem Machine.compile_ofText_eq_lex (source : String) (output : Output) :
    match lex source with
    | .ok ts =>
      (compile (.ofText source) output).1 = (compile (.ofTokens ts) output).1 ∧
        (compile (.ofText source) output).2.output = (compile (.ofTokens ts) output).2.output
    | .error lexical =>
      ∃ ts : List Token,
        (TokenStream.ofText source).pulls (ts.length + 1) = ts.map .ok ++ [.error lexical] ∧
        if (compile (.ofTokens ts) output).2.pulled.length ≤ ts.length then
          ∃ e, (compile (.ofText source) output).1 = .error e ∧
            (compile (.ofTokens ts) output).1 = .error e ∧
            ∀ more, (compile (.ofTokens (ts ++ more)) output).1 = .error e
        else (compile (.ofText source) output).1 = .error lexical := by
  cases lexed : lex source with
  | ok ts => exact compile_ofText_of_lexed lexed output
  | error lexical =>
    have noEnd : ∀ t, .ok t ∈ (TokenStream.ofText source).pending → t.kind ≠ .eof :=
      fun t mem => TokenStream.kind_ne_eof_of_mem_scan mem
    unfold lex TokenStream.tokens at lexed
    generalize TokenStream.ofText source = stream at lexed noEnd
    obtain ⟨pending, ending⟩ := stream
    obtain ⟨ts, rfl, collected⟩ | ⟨ts, first, rest, rfl, collected⟩ :=
      TokenStream.collect_cases pending
    · rw [collected] at lexed
      cases lexed
    · rw [collected] at lexed
      obtain rfl : first = lexical := Except.error.inj lexed
      refine ⟨ts, TokenStream.pulls_of_failure ts first rest ending, ?_⟩
      have alone := compile_together ts first rest ending [] output
      rw [List.append_nil] at alone
      obtain ⟨same, abreast⟩ | parted := alone
      · rw [if_pos abreast.pulled_prefix.length_le]
        have noEndBefore : ∀ t ∈ ts, t.kind ≠ .eof := fun t mem => noEnd t (by simp [mem])
        obtain ⟨e, failed⟩ := exists_error_of_pulled_prefix noEndBefore abreast.pulled_prefix
        refine ⟨e, same.trans failed, failed, fun more => ?_⟩
        -- the text has not come to its lexical error, whatever it is compared with
        obtain ⟨same', -⟩ | parted := compile_together ts first rest ending more output
        · rw [← same', same, failed]
        · exact absurd parted.pending abreast.pending_ne
      · rw [if_neg (Nat.not_le.mpr parted.beyond)]
        exact parted.failed

-- A lexical error overtakes the wrong token directly in front of it, since the machine looks one
-- token ahead.
example : (Machine.compile (.ofText "PRINT PRINT $") .empty).1.mapError Diagnostic.code =
    .error .illegalCharacter := by
  decide +kernel

example : (Machine.compile (.ofText "PRINT PRINT\n$") .empty).1.mapError Diagnostic.code =
    .error .syntaxError := by
  decide +kernel

end BasicToC
