import BasicToC.Proofs.Streaming

/-! # Names and output agree

A machine keeps what has been named apart from what has been written.  The two are brought forward
by single actions, between which a pull can fail, and after a failure the next program begins in the
middle of a statement, with all names and all output still there.

What a step can do to names and output is said once, by `Effect`.  That every step is one of these
takes the goals into account: an action that writes a variable stands in the list behind the one
that declares it (`Goal.Sound`).  Whatever the machine is asked to do and wherever it fails, the
names then account for the output (`Scope.Accounts`).
-/

namespace BasicToC

/-! ## What is written -/

/-- The variables that stand in a fragment. -/
def Fragment.variables : Fragment → List String
  | openAssign name | input name | valueOf name => [name]
  | _ => []

/-- A fragment that is neither a label nor a jump. -/
def Fragment.Plain (f : Fragment) : Prop :=
  ∀ name, f ≠ .label name ∧ f ≠ .goto name

/-- What a machine adds ahead of the code: beginnings of programs, and variables. -/
inductive Headers : List Declaration → Prop
  | none : Headers []
  | opening {ds : List Declaration} (earlier : Headers ds) :
      Headers (ds ++ [.includeHeader, .openMain])
  | float {ds : List Declaration} (earlier : Headers ds) (name : String) :
      Headers (ds ++ [.float name])

/-- An output to which declarations and fragments have been added. -/
def Output.extend (o : Output) (ds : List Declaration) (fs : List Fragment) : Output :=
  ⟨o.declarations ++ ds.toArray, o.code ++ fs.toArray⟩

theorem Output.extend_nil (o : Output) : o.extend [] [] = o := by
  simp [extend]

theorem Output.extend_extend (o : Output) (ds ds' : List Declaration) (fs fs' : List Fragment) :
    (o.extend ds fs).extend ds' fs' = o.extend (ds ++ ds') (fs ++ fs') := by
  simp [extend]

/-- The names in a scope account for what has been written: there is one declaration for each
    variable and one label for each label, the jumps are those that are remembered, every variable
    in the code is known, and no name is one of C. -/
structure Scope.Accounts (scope : Scope) (ds : List Declaration) (fs : List Fragment) : Prop where
  headers : Headers ds
  floats : ∀ x, ds.count (.float x) = if x ∈ scope.assigned then 1 else 0
  labels : ∀ x, fs.count (.label x) = if x ∈ scope.labels then 1 else 0
  gotos : ∀ x, .goto x ∈ fs ↔ x ∈ scope.jumps.map Jump.name
  known : ∀ f ∈ fs, ∀ x ∈ f.variables, x ∈ scope.assigned
  free : ∀ x, x ∈ scope.assigned ∨ x ∈ scope.labels ∨ x ∈ scope.jumps.map Jump.name →
    isReserved x = false

/-! ## What a step can do -/

/-- How one step can change the names, and what it writes. -/
inductive Effect (s : Scope) : Scope → List Declaration → List Fragment → Prop
  | nothing : Effect s s [] []
  | opening : Effect s s [.includeHeader, .openMain] []
  | code (f : Fragment) (plain : f.Plain) (known : ∀ x ∈ f.variables, x ∈ s.assigned) :
      Effect s s [] [f]
  | float (x : String) (new : x ∉ s.assigned) (free : isReserved x = false) :
      Effect s (s.addVariable x) [.float x] []
  | label (x : String) (new : x ∉ s.labels) (free : isReserved x = false) :
      Effect s (s.addLabel x) [] [.label x]
  | jump (target : Jump) (free : isReserved target.name = false) :
      Effect s (s.addJump target) [] [.goto target.name]

theorem Effect.variables {s s' : Scope} {ds : List Declaration} {fs : List Fragment}
    (effect : Effect s s' ds fs) : ∀ f ∈ fs, ∀ x ∈ f.variables, x ∈ s.assigned := by
  cases effect with
  | nothing | opening | float => simp
  | code f plain known => simpa using known
  | label | jump => simp [Fragment.variables]

namespace Scope.Accounts

variable {s s' : Scope} {ds ds' : List Declaration} {fs fs' : List Fragment}

theorem empty : Accounts .empty [] [] := by
  constructor <;> simp [Scope.empty, Headers.none]

theorem step (accounts : s.Accounts ds fs) (effect : Effect s s' ds' fs') :
    s'.Accounts (ds ++ ds') (fs ++ fs') := by
  cases effect with
  | nothing =>
    rw [List.append_nil, List.append_nil]
    exact accounts
  | opening =>
    rw [List.append_nil]
    refine { accounts with headers := accounts.headers.opening, floats := fun x => ?_ }
    simp [List.count_append, accounts.floats]
  | code f plain known =>
    rw [List.append_nil]
    refine { accounts with labels := fun x => ?_, gotos := fun x => ?_, known := ?_ }
    · simp [List.count_append, accounts.labels, (plain x).1]
    · simp [accounts.gotos, (plain x).2.symm]
    · simp only [List.forall_mem_append, List.forall_mem_singleton]
      exact ⟨accounts.known, known⟩
  | float name new free =>
    rw [List.append_nil]
    refine ⟨accounts.headers.float name, fun x => ?_, ?_, ?_, fun f mem x isVariable => ?_,
      fun x => ?_⟩
    · -- the count goes from none to one for the new name, and stays for all others
      by_cases same : x = name
      · subst same
        simp [List.count_append, accounts.floats, new]
      · simp [List.count_append, accounts.floats, same, Ne.symm same]
    · simpa using accounts.labels
    · simpa using accounts.gotos
    · exact mem_assigned_addVariable.mpr (.inl (accounts.known f mem x isVariable))
    · rw [mem_assigned_addVariable, labels_addVariable, jumps_addVariable]
      rintro ((old | rfl) | others)
      · exact accounts.free x (.inl old)
      · exact free
      · exact accounts.free x (.inr others)
  | label name new free =>
    rw [List.append_nil]
    refine ⟨accounts.headers, accounts.floats, fun x => ?_, fun x => ?_, ?_, fun x => ?_⟩
    · by_cases same : x = name
      · subst same
        simp [List.count_append, accounts.labels, new]
      · simp [List.count_append, accounts.labels, same, Ne.symm same]
    · simpa using accounts.gotos x
    · simpa [Fragment.variables, or_imp, forall_and] using accounts.known
    · rw [assigned_addLabel, mem_labels_addLabel, jumps_addLabel]
      rintro (old | (old | rfl) | old)
      · exact accounts.free x (.inl old)
      · exact accounts.free x (.inr (.inl old))
      · exact free
      · exact accounts.free x (.inr (.inr old))
  | jump target free =>
    rw [List.append_nil]
    refine ⟨accounts.headers, fun x => ?_, fun x => ?_, fun x => ?_, ?_, fun x => ?_⟩
    · simp [accounts.floats]
    · simp [List.count_append, accounts.labels]
    · rw [mem_jumpNames_addJump, ← accounts.gotos]
      simp
    · simpa [Fragment.variables, or_imp, forall_and] using accounts.known
    · rw [assigned_addJump, labels_addJump, mem_jumpNames_addJump]
      rintro (old | old | old | rfl)
      · exact accounts.free x (.inl old)
      · exact accounts.free x (.inr (.inl old))
      · exact accounts.free x (.inr (.inr old))
      · exact free

/-- If every jump has its label, every jump that was written has one that was written. -/
theorem labelled (accounts : s.Accounts ds fs) (lands : s.dangling? = none) {x : String}
    (jumps : .goto x ∈ fs) : fs.count (.label x) = 1 := by
  obtain ⟨jump, mem, rfl⟩ := List.mem_map.mp ((accounts.gotos x).mp jumps)
  rw [accounts.labels, if_pos (Scope.dangling?_eq_none_iff.mp lands jump mem)]

end Scope.Accounts

/-! ## What the goals promise -/

/-- The variables that an action makes known. -/
def Action.declares : Action → List String
  | .declare name => [name]
  | _ => []

/-- An action that keeps names and output together where these variables are known. -/
def Action.Sound (known : List String) : Action → Prop
  | .emit f => f.Plain ∧ ∀ x ∈ f.variables, x ∈ known
  | .declare name | .setLabel name _ => isReserved name = false
  | .jump target => isReserved target.name = false
  | .openProgram | .checkJumps => True

/-- Every action is sound when its turn comes. -/
def Goal.Sound (known : List String) : List Goal → Prop
  | [] => True
  | .read _ :: goals => Goal.Sound known goals
  | .act action :: goals => action.Sound known ∧ Goal.Sound (known ++ action.declares) goals

theorem Action.Sound.mono {known known' : List String} (more : known ⊆ known') {action : Action}
    (sound : action.Sound known) : action.Sound known' := by
  cases action with
  | emit f => exact ⟨sound.1, fun x mem => more (sound.2 x mem)⟩
  | _ => exact sound

namespace Goal.Sound

theorem mono {known known' : List String} (more : known ⊆ known') {goals : List Goal}
    (sound : Goal.Sound known goals) : Goal.Sound known' goals := by
  induction goals generalizing known known' with
  | nil => trivial
  | cons goal goals ih =>
    cases goal with
    | read phrase => exact ih more sound
    | act action =>
      refine ⟨sound.1.mono more, ih ?_ sound.2⟩
      exact List.append_subset.mpr
        ⟨List.subset_append_of_subset_left _ more, List.subset_append_right _ _⟩

theorem append {known : List String} {goals more : List Goal} (sound : Goal.Sound known goals)
    (others : Goal.Sound known more) : Goal.Sound known (goals ++ more) := by
  induction goals generalizing known with
  | nil => exact others
  | cons goal goals ih =>
    cases goal with
    | read phrase => exact ih sound others
    | act action =>
      exact ⟨sound.1, ih sound.2 (others.mono (List.subset_append_left _ _))⟩

theorem program (known : List String) : Goal.Sound known Goal.program := by
  simp [Goal.program, Goal.Sound, Action.Sound, Fragment.Plain, Fragment.variables]

end Goal.Sound

/-- What a token is echoed as is known where it is in view. -/
def Move.EchoSound (known : List String) : Move → Prop
  | .shift (some f) _ => f.Plain ∧ ∀ x ∈ f.variables, x ∈ known
  | _ => True

theorem Token.sound_asName {known : List String} (t : Token) {goals : String → List Goal}
    (sound : ∀ name, isReserved name = false → Goal.Sound known (goals name)) :
    Goal.Sound known (t.asName goals).goals ∧ (t.asName goals).EchoSound known := by
  unfold Token.asName
  split
  · exact ⟨trivial, trivial⟩
  · split
    · exact ⟨trivial, trivial⟩
    · next free => exact ⟨sound _ (Bool.not_eq_true _ ▸ free), trivial⟩

theorem Token.sound_beginStatement (known : List String) (t : Token) (next : Phrase) :
    Goal.Sound known (t.beginStatement next).goals ∧
      (t.beginStatement next).EchoSound known := by
  unfold Token.beginStatement
  split <;>
    simp [Move.goals, Move.EchoSound, Goal.governed, Goal.Sound, Action.Sound, Fragment.Plain,
      Fragment.variables]

/-- Whatever the grammar asks for is sound. -/
theorem Phrase.sound_predict (phrase : Phrase) (scope : Scope) (t : Token) :
    Goal.Sound scope.assigned (phrase.predict scope t).goals ∧
      (phrase.predict scope t).EchoSound scope.assigned := by
  cases phrase with
  | statements =>
    rw [Phrase.predict]
    split
    · exact ⟨trivial, trivial⟩
    · exact t.sound_beginStatement _ _
  | block close =>
    rw [Phrase.predict]
    split
    · simp [Move.goals, Move.EchoSound, Goal.Sound, Action.Sound, Fragment.Plain,
        Fragment.variables]
    · split
      · exact ⟨trivial, trivial⟩
      · exact t.sound_beginStatement _ _
  | assignment | inputName | labelName | jumpName =>
    -- a name is declared in front of what is written with it
    rw [Phrase.predict]
    apply Token.sound_asName
    intro name free
    simp [Goal.Sound, Action.Sound, Action.declares, Fragment.Plain, Fragment.variables, free]
  | _ =>
    rw [Phrase.predict]
    repeat' split
    all_goals
      simp_all [Move.goals, Move.EchoSound, Goal.Sound, Action.Sound, Fragment.Plain,
        Fragment.variables]

/-! ## Steps -/

namespace Machine

theorem effect_perform {u : Machine} {action : Action} (sound : action.Sound u.scope.assigned) :
    ∃ ds fs, Effect u.scope (u.perform action).2.scope ds fs ∧
      (u.perform action).2.output = u.output.extend ds fs := by
  have same : u.output = u.output.extend [] [] := u.output.extend_nil.symm
  cases action with
  | openProgram =>
    refine ⟨_, _, .opening, ?_⟩
    simp only [perform, Output.declare, Output.extend, Array.push_eq_append, Array.append_assoc]
    simp
  | emit f =>
    exact ⟨_, _, .code f sound.1 sound.2, by simp [perform, emit, Output.emit, Output.extend]⟩
  | declare name =>
    simp only [perform, declare]
    split
    · exact ⟨_, _, .nothing, same⟩
    · next new =>
      refine ⟨_, _, .float name (by simpa using new) sound, ?_⟩
      simp [Output.declare, Output.extend]
  | setLabel name position =>
    simp only [perform]
    split
    · exact ⟨_, _, .nothing, same⟩
    · next new =>
      refine ⟨_, _, .label name (by simpa using new) sound, ?_⟩
      simp [Output.emit, Output.extend]
  | jump target =>
    exact ⟨_, _, .jump target sound, by simp [perform, Output.emit, Output.extend]⟩
  | checkJumps =>
    simp only [perform]
    split <;> exact ⟨_, _, .nothing, same⟩

theorem scope_output_advance (u : Machine) :
    u.advance.2.scope = u.scope ∧ u.advance.2.output = u.output := by
  obtain ⟨t, stream, -, advanced⟩ | ⟨d, stream, -, advanced⟩ := u.advance_cases <;>
    rw [advanced] <;> exact ⟨rfl, rfl⟩

theorem effect_move {u : Machine} {move : Move} (sound : move.EchoSound u.scope.assigned) :
    (u.move move).2.scope = u.scope ∧ ∃ fs, Effect u.scope u.scope [] fs ∧
      (u.move move).2.output = u.output.extend [] fs := by
  have same : u.output = u.output.extend [] [] := u.output.extend_nil.symm
  cases move with
  | reject problem => exact ⟨rfl, _, .nothing, same⟩
  | expand goals => exact ⟨rfl, _, .nothing, same⟩
  | shift echo goals =>
    -- what a token stands for is written before the next one is pulled
    have left : (u.move (.shift echo goals)).2 = (u.echo echo).advance.2 := by
      simp only [Machine.move]
      split <;> simp_all
    obtain ⟨scope, output⟩ := (u.echo echo).scope_output_advance
    rw [left, scope, output]
    cases echo with
    | none => exact ⟨rfl, _, .nothing, same⟩
    | some f =>
      refine ⟨rfl, _, .code f sound.1 sound.2, ?_⟩
      simp [Machine.echo, emit, Output.emit, Output.extend]

theorem step_act_snd (u : Machine) (action : Action) :
    (u.step (.act action)).2 = (u.perform action).2 := by
  simp only [step]
  split <;> simp_all

/-- Every step from sound goals does what a step can do. -/
theorem effect_step {u : Machine} {goal : Goal} {goals : List Goal}
    (sound : Goal.Sound u.scope.assigned (goal :: goals)) :
    ∃ ds fs, Effect u.scope (u.step goal).2.scope ds fs ∧
      (u.step goal).2.output = u.output.extend ds fs := by
  cases goal with
  | read phrase =>
    obtain ⟨scope, fs, effect, output⟩ :=
      effect_move (phrase.sound_predict u.scope u.current).2
    refine ⟨[], fs, ?_, output⟩
    rw [step, scope]
    exact effect
  | act action =>
    rw [step_act_snd]
    exact effect_perform sound.1

theorem sound_step {u v : Machine} {goal : Goal} {goals more : List Goal}
    (sound : Goal.Sound u.scope.assigned (goal :: goals))
    (stepped : u.step goal = (.ok more, v)) : Goal.Sound v.scope.assigned (more ++ goals) := by
  cases goal with
  | read phrase =>
    -- the goals of the move come first, and reading changes no names
    obtain ⟨soundGoals, soundEcho⟩ := phrase.sound_predict u.scope u.current
    have scope := (effect_move soundEcho).1
    have left : more = (phrase.predict u.scope u.current).goals := by
      rw [step] at stepped
      generalize phrase.predict u.scope u.current = move at stepped
      cases move with
      | reject problem => cases stepped
      | expand goals =>
        cases stepped
        rfl
      | shift echo goals =>
        simp only [Machine.move] at stepped
        split at stepped <;> cases stepped
        rfl
    rw [step] at stepped
    rw [stepped] at scope
    rw [scope, left]
    exact soundGoals.append sound
  | act action =>
    have left : more = [] := by
      simp only [step] at stepped
      split at stepped <;> cases stepped
      rfl
    obtain rfl : v = (u.perform action).2 := by rw [← step_act_snd, stepped]
    rw [left]
    -- an action makes known what it declares, and forgets nothing
    have known : u.scope.assigned ++ action.declares ⊆ (u.perform action).2.scope.assigned := by
      intro x mem
      rw [List.mem_append] at mem
      cases action with
      | declare name =>
        simp only [perform, declare, Action.declares, List.mem_singleton] at mem ⊢
        split
        · next old =>
          rcases mem with old' | rfl
          · exact old'
          · exact Scope.hasVariable_iff.mp old
        · exact Scope.mem_assigned_addVariable.mpr mem
      | setLabel name position =>
        simp only [perform]
        split <;> simpa [Action.declares] using mem
      | checkJumps =>
        simp only [perform]
        split <;> simpa [Action.declares] using mem
      | openProgram | emit | jump => simpa [perform, emit, Action.declares] using mem
    exact sound.2.mono known

/-! ## Lifetimes -/

/-- The states that a machine can come to from `m`, with what is then left to do, if it is asked for
    programs any number of times.  Where a step fails the rest of the goals is dropped, and the next
    program goes on from there. -/
inductive Reaches (m : Machine) : Machine → List Goal → Prop
  | start : Reaches m m []
  | call {u : Machine} (idle : Reaches m u []) : Reaches m u Goal.program
  | step {u v : Machine} {goal : Goal} {goals more : List Goal} (busy : Reaches m u (goal :: goals))
      (stepped : u.step goal = (.ok more, v)) : Reaches m v (more ++ goals)
  | fail {u v : Machine} {goal : Goal} {goals : List Goal} {d : Diagnostic}
      (busy : Reaches m u (goal :: goals)) (stepped : u.step goal = (.error d, v)) :
      Reaches m v []

theorem Reaches.run {m u : Machine} {goals : List Goal} (reaches : m.Reaches u goals) :
    m.Reaches (u.run goals).2 [] := by
  fun_induction Machine.run u goals with
  | case1 u => exact reaches
  | case2 u goal goals more v stepped ih => exact ih (reaches.step stepped)
  | case3 u goal goals d v stepped => exact reaches.fail stepped

/-- What holds at first and after every single operation holds in every state. -/
theorem Reaches.preserves {P : Machine → Prop} (emits : ∀ m f, P m → P (Machine.emit m f))
    (advances : ∀ m, P m → P (Machine.advance m).2)
    (performs : ∀ m action, P m → P (Machine.perform m action).2) {m u : Machine}
    {goals : List Goal} (holds : P m) (reaches : m.Reaches u goals) : P u := by
  induction reaches with
  | start => exact holds
  | call idle ih => exact ih
  | @step _ _ goal _ _ busy stepped ih | @fail _ _ goal _ _ busy stepped ih =>
    have after := step_preserves emits advances performs ih goal
    rw [stepped] at after
    exact after

theorem Reaches.programs {m u : Machine} (idle : m.Reaches u []) (n : Nat)
    {call : Except Diagnostic Unit × Machine} (mem : call ∈ u.programs n) :
    ∃ v, m.Reaches v [] ∧ call = v.program := by
  induction n generalizing u with
  | zero => cases mem
  | succ n ih =>
    rcases List.mem_cons.mp mem with rfl | mem
    · exact ⟨u, idle, rfl⟩
    · exact ih idle.call.run mem

/-- In every state the goals are sound and the names account for the output. -/
theorem Reaches.accounts {m u : Machine} {base : Output} {goals : List Goal}
    (reaches : m.Reaches u goals) (scope : m.scope = .empty) (output : m.output = base) :
    Goal.Sound u.scope.assigned goals ∧
      ∃ ds fs, u.output = base.extend ds fs ∧ u.scope.Accounts ds fs := by
  have goesOn : ∀ {u : Machine} {goal : Goal} {goals : List Goal},
      Goal.Sound u.scope.assigned (goal :: goals) →
      (∃ ds fs, u.output = base.extend ds fs ∧ u.scope.Accounts ds fs) →
      ∃ ds fs, (u.step goal).2.output = base.extend ds fs ∧
        (u.step goal).2.scope.Accounts ds fs := by
    rintro u goal goals sound ⟨ds, fs, output, accounts⟩
    obtain ⟨ds', fs', effect, output'⟩ := effect_step sound
    refine ⟨ds ++ ds', fs ++ fs', ?_, accounts.step effect⟩
    rw [output', output, Output.extend_extend]
  -- a failing step has its effect as well; only the goals are lost
  induction reaches with
  | start =>
    refine ⟨trivial, [], [], ?_, ?_⟩
    · rw [output, Output.extend_nil]
    · rw [scope]
      exact .empty
  | call idle ih => exact ⟨.program _, ih.2⟩
  | step busy stepped ih =>
    have after := goesOn ih.1 ih.2
    rw [stepped] at after
    exact ⟨sound_step ih.1 stepped, after⟩
  | fail busy stepped ih =>
    have after := goesOn ih.1 ih.2
    rw [stepped] at after
    exact ⟨trivial, after⟩

/-- A run that comes through the check of the jumps has found a label for each. -/
theorem dangling?_of_run_ok {u v : Machine} {goals : List Goal}
    (ran : u.run (goals ++ [.act .checkJumps]) = (.ok (), v)) : v.scope.dangling? = none := by
  generalize whole : goals ++ [.act .checkJumps] = all at ran
  fun_induction Machine.run u all generalizing goals with
  | case1 u => simp at whole
  | case2 u goal rest more w stepped ih =>
    cases goals with
    | nil =>
      -- the check is all that is left
      obtain ⟨rfl, rfl⟩ := List.cons.inj whole
      simp only [step, perform] at stepped
      cases lands : u.scope.dangling? with
      | some jump => simp [lands] at stepped
      | none =>
        simp only [lands] at stepped
        cases stepped
        rw [List.append_nil, run_nil] at ran
        cases ran
        exact lands
    | cons first goals =>
      obtain ⟨rfl, rfl⟩ := List.cons.inj whole
      exact ih (List.append_assoc _ _ _) ran
  | case3 u goal rest d w stepped => cases ran

theorem scope_output_of_start {stream : TokenStream} {base : Output} {m : Machine}
    (started : start stream base = (.ok (), m)) : m.scope = .empty ∧ m.output = base := by
  rw [eq_of_start started]
  obtain ⟨scope, output⟩ := (ofStream stream base).scope_output_advance
  obtain ⟨scope', output'⟩ := (ofStream stream base).advance.2.scope_output_advance
  exact ⟨scope'.trans scope, output'.trans output⟩

/-- However often a machine is asked for programs, and wherever it fails and goes on, in every state
    its names account for all that it has written; every variable is known when it is written; and
    whenever a call succeeds, every jump written so far has exactly one label. -/
theorem names_account_for_output {stream : TokenStream} {base : Output} {m : Machine}
    (started : start stream base = (.ok (), m)) :
    (∀ u goals, m.Reaches u goals →
      ∃ ds fs, u.output = base.extend ds fs ∧ u.scope.Accounts ds fs) ∧
    (∀ u goal goals, m.Reaches u (goal :: goals) →
      ∃ ds fs, (u.step goal).2.output = u.output.extend ds fs ∧
        ∀ f ∈ fs, ∀ x ∈ f.variables, x ∈ u.scope.assigned) ∧
    ∀ n, ∀ call ∈ m.programs n, m.Reaches call.2 [] ∧
      (call.1 = .ok () → ∃ ds fs, call.2.output = base.extend ds fs ∧
        ∀ x, .goto x ∈ fs → fs.count (.label x) = 1) := by
  obtain ⟨scope, output⟩ := scope_output_of_start started
  refine ⟨fun u goals reaches => (reaches.accounts scope output).2, ?_, ?_⟩
  · intro u goal goals busy
    obtain ⟨ds, fs, effect, output'⟩ := effect_step (busy.accounts scope output).1
    exact ⟨ds, fs, output', effect.variables⟩
  · intro n call mem
    obtain ⟨v, idle, rfl⟩ := Reaches.start.programs n mem
    have done : m.Reaches v.program.2 [] := idle.call.run
    refine ⟨done, fun ok => ?_⟩
    have ran : v.run ([.act .openProgram, .read .blankLines, .read .statements,
        .act (.emit .closeMain)] ++ [.act .checkJumps]) = (.ok (), v.program.2) := Prod.ext ok rfl
    obtain ⟨-, ds, fs, left, accounts⟩ := done.accounts scope output
    exact ⟨ds, fs, left, fun x jumps => accounts.labelled (dangling?_of_run_ok ran) jumps⟩

/-- A program that stops at a character between two of its lines, and is gone on with: the jump was
    written by the call that failed, its label by the one that did not. -/
theorem names_account_for_output_of_resumed :
    let stream := TokenStream.ofText "GOTO a\n\n$LABEL a\n"
    let m := (start stream .empty).2
    start stream .empty = (.ok (), m) ∧
      (m.programs 2).map (·.1.isOk) = [false, true] ∧
      ∀ call ∈ m.programs 2, m.Reaches call.2 [] ∧
        (call.1 = .ok () → ∃ ds fs, call.2.output = Output.empty.extend ds fs ∧
          ∀ x, .goto x ∈ fs → fs.count (.label x) = 1) := by
  intro stream m
  have result : (start stream .empty).1 = .ok () := by decide +kernel
  have started : start stream .empty = (.ok (), m) := Prod.ext result rfl
  exact ⟨started, by decide +kernel, (names_account_for_output started).2.2 2⟩

end Machine

end BasicToC
