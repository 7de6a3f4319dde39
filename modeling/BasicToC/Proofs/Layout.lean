import BasicToC.Proofs.Streaming

/-! # Layout does not matter

Two programs that differ in positions, in blank lines and in how their line ends are written come to
the same: both compile, or both fail for the same cause, and what they have written is the same in
either case.

Two readers of such programs are `Alike`.  They go on step by step together, except that one of
them may have more blank lines to skip than the other; so between them the relation carries whether
the reader is about to skip blank lines.
-/

namespace BasicToC

/-! ## What is seen of a token -/

/-- What a report says apart from where. -/
def Diagnostic.cause (d : Diagnostic) : Diagnostic.Code × String :=
  (d.code, d.message)

/-- The kind of a token, and its text unless it is the end of a line or of the program. -/
def Token.shown (t : Token) : Word :=
  match t.kind with
  | .eof | .newline => ⟨t.kind, ""⟩
  | _ => t.word

/-- The words of tokens up to the end, without blank lines and without the texts of line ends. -/
def Token.withoutLayout (ts : List Token) : List Word :=
  Word.withoutBlankLines ((Token.beforeEnd ts).map Token.shown)

namespace Token

@[simp]
theorem kind_shown (t : Token) : t.shown.kind = t.kind := by
  unfold shown
  split <;> simp_all [word]

theorem kind_eq_of_shown {t u : Token} (same : t.shown = u.shown) : t.kind = u.kind := by
  rw [← kind_shown t, same, kind_shown]

theorem text_eq_of_shown {t u : Token} (same : t.shown = u.shown) (notEnd : u.kind ≠ .eof)
    (notNewline : u.kind ≠ .newline) : t.text = u.text := by
  have kinds := kind_eq_of_shown same
  have plain : ∀ v : Token, v.kind = u.kind → v.shown = v.word := by
    intro v isKind
    unfold shown
    split <;> simp_all
  rw [plain t kinds, plain u rfl] at same
  exact congrArg Word.text same

/-- Messages show no more of a token than this. -/
theorem display_eq_of_shown {t u : Token} (same : t.shown = u.shown) : t.display = u.display := by
  have kinds := kind_eq_of_shown same
  have texts := text_eq_of_shown same
  unfold display
  rw [kinds]
  split
  · rfl
  · rfl
  · rw [texts (by simp_all) (by simp_all)]
  · exact texts (by assumption) (by assumption)

end Token

/-! ## Moves that are alike -/

/-- Goals that differ in positions only. -/
inductive Goal.Alike : Goal → Goal → Prop
  | refl (goal : Goal) : Alike goal goal
  | setLabel (name : String) (place place' : Position) :
      Alike (.act (.setLabel name place)) (.act (.setLabel name place'))
  | jump (name : String) (place place' : Position) :
      Alike (.act (.jump ⟨name, place⟩)) (.act (.jump ⟨name, place'⟩))

/-- Lists of goals that differ in positions only. -/
def Goal.AllAlike (goals goals' : List Goal) : Prop :=
  List.Forall₂ Goal.Alike goals goals'

theorem Goal.AllAlike.refl (goals : List Goal) : Goal.AllAlike goals goals :=
  List.forall₂_same.mpr fun goal _ => .refl goal

/-- Moves that differ in positions only. -/
inductive Move.Alike : Move → Move → Prop
  | reject {p q : Problem} (code : p.code = q.code) (message : p.message = q.message) :
      Alike (.reject p) (.reject q)
  | expand {goals goals' : List Goal} (same : Goal.AllAlike goals goals') :
      Alike (.expand goals) (.expand goals')
  | shift {echo : Option Fragment} {goals goals' : List Goal}
      (same : Goal.AllAlike goals goals') : Alike (.shift echo goals) (.shift echo goals')

theorem Move.Alike.refl (move : Move) : move.Alike move := by
  cases move with
  | reject p => exact .reject rfl rfl
  | expand goals => exact .expand (.refl goals)
  | shift echo goals => exact .shift (.refl goals)

theorem Token.alike_asName {t u : Token} (same : t.shown = u.shown)
    {goals goals' : String → List Goal}
    (alike : ∀ name, Goal.AllAlike (goals name) (goals' name)) :
    (t.asName goals).Alike (u.asName goals') := by
  unfold asName
  rw [kind_eq_of_shown same]
  split
  · exact .refl _
  · next isName =>
    have text : t.text = u.text := text_eq_of_shown same (by simp_all) (by simp_all)
    rw [text]
    split
    · exact .refl _
    · exact .shift (alike u.text)

theorem Token.alike_beginStatement {t u : Token} (same : t.shown = u.shown) (next : Phrase) :
    (t.beginStatement next).Alike (u.beginStatement next) := by
  have kinds := kind_eq_of_shown same
  have message : (Problem.invalidStatement t).message = (Problem.invalidStatement u).message := by
    change "INVALID STATEMENT AT " ++ t.display ++ " (" ++ t.kind.display ++ ")" = _
    rw [display_eq_of_shown same, kinds]
    rfl
  simp only [beginStatement, kinds]
  split
  case h_8 => exact .reject rfl message
  all_goals exact .refl _

/-- The grammar sees of a token only what is shown, and of the names only the variables. -/
theorem Phrase.alike_predict (phrase : Phrase) {scope scope' : Scope} {t u : Token}
    (assigned : scope.assigned = scope'.assigned) (same : t.shown = u.shown) :
    (phrase.predict scope t).Alike (phrase.predict scope' u) := by
  have kinds := Token.kind_eq_of_shown same
  have texts := Token.text_eq_of_shown same
  have displays := Token.display_eq_of_shown same
  cases phrase with
  | statements =>
    simp only [Phrase.predict, kinds]
    split
    · exact .refl _
    · exact Token.alike_beginStatement same _
  | block close =>
    simp only [Phrase.predict, kinds]
    split
    · exact .refl _
    · split
      · exact .refl _
      · exact Token.alike_beginStatement same _
  | assignment | inputName =>
    rw [Phrase.predict, Phrase.predict]
    exact Token.alike_asName same fun name => .refl _
  | labelName =>
    rw [Phrase.predict, Phrase.predict]
    exact Token.alike_asName same fun name => .cons (.setLabel name _ _) .nil
  | jumpName =>
    rw [Phrase.predict, Phrase.predict]
    exact Token.alike_asName same fun name => .cons (.jump name _ _) .nil
  | keyword | becomes | blankLines | lineEnd =>
    simp only [Phrase.predict, kinds]
    exact .refl _
  | condition | expression | term => exact .refl _
  | printed =>
    simp only [Phrase.predict, kinds]
    split
    · rw [texts (by simp_all) (by simp_all)]
      exact .refl _
    · exact .refl _
  | comparison =>
    simp only [Phrase.predict, kinds]
    split
    · rw [texts (by simp_all) (by simp_all)]
      exact .refl _
    · refine .reject rfl ?_
      change "EXPECTED COMPARISON OPERATOR AT " ++ t.display = _
      rw [displays]
      rfl
  | moreComparisons | moreTerms | moreFactors | factor =>
    simp only [Phrase.predict, kinds]
    split
    · rw [texts (by simp_all) (by simp_all)]
      exact .refl _
    · exact .refl _
  | operand =>
    simp only [Phrase.predict, kinds]
    split
    · rw [texts (by simp_all) (by simp_all)]
      exact .refl _
    · rw [texts (by simp_all) (by simp_all), Scope.hasVariable, assigned]
      exact .refl _
    · refine .reject rfl ?_
      change "UNEXPECTED TOKEN AT " ++ t.display = _
      rw [displays]
      rfl

/-- Only blank lines are taken one by one: a phrase that takes a line end goes on with them. -/
theorem Phrase.goals_of_shift_newline {phrase : Phrase} {scope : Scope} {t : Token}
    {echo : Option Fragment} {goals : List Goal} (isNewline : t.kind = .newline)
    (predicted : phrase.predict scope t = .shift echo goals) :
    goals = [.read .blankLines] := by
  cases phrase with
  | blankLines | lineEnd =>
    simp only [Phrase.predict, isNewline, if_true, Move.shift.injEq] at predicted
    exact predicted.2.symm
  | statements | block =>
    simp [Phrase.predict, Token.beginStatement, isNewline] at predicted
  | assignment | inputName | labelName | jumpName =>
    simp [Phrase.predict, Token.asName, isNewline] at predicted
  | _ => simp [Phrase.predict, isNewline] at predicted

/-! ## Blank lines -/

namespace Word

theorem squeeze_false_cons (w : Word) (ws : List Word) :
    squeeze false (w :: ws) = w :: squeeze (w.kind = .newline) ws := by
  by_cases newline : w.kind = .newline <;> simp [squeeze, newline]

theorem squeeze_true_newlines {ns : List Word} (newlines : ∀ n ∈ ns, n.kind = .newline)
    (ws : List Word) : squeeze true (ns ++ ws) = squeeze true ws := by
  induction ns with
  | nil => rfl
  | cons n ns ih =>
    rw [List.cons_append, squeeze, if_pos (newlines n (by simp)), if_pos rfl]
    exact ih fun m mem => newlines m (by simp [mem])

theorem squeeze_true_eq_false {ws : List Word} (stops : ∀ w ∈ ws.head?, w.kind ≠ .newline) :
    squeeze true ws = squeeze false ws := by
  cases ws with
  | nil => rfl
  | cons w ws => simp [squeeze, stops w rfl]

/-- Words that are the same after a word are the same after a line end. -/
theorem squeeze_true_of_false {ws vs : List Word} (same : squeeze false ws = squeeze false vs) :
    squeeze true ws = squeeze true vs := by
  cases ws with
  | nil =>
    cases vs with
    | nil => rfl
    | cons v vs =>
      rw [squeeze_false_cons] at same
      nomatch same
  | cons w ws =>
    cases vs with
    | nil =>
      rw [squeeze_false_cons] at same
      nomatch same
    | cons v vs =>
      rw [squeeze_false_cons, squeeze_false_cons] at same
      obtain ⟨rfl, rest⟩ := List.cons.inj same
      by_cases newline : w.kind = .newline
      · simpa [squeeze, newline] using rest
      · simpa [squeeze, newline] using rest

end Word

/-! ## Readers that are alike -/

/-- The same names, with jumps at other positions. -/
structure Scope.Alike (s s' : Scope) : Prop where
  assigned : s.assigned = s'.assigned
  labels : s.labels = s'.labels
  jumps : s.jumps.map Jump.name = s'.jumps.map Jump.name

namespace Scope.Alike

variable {s s' : Scope}

theorem addVariable (alike : s.Alike s') (name : String) :
    (s.addVariable name).Alike (s'.addVariable name) where
  assigned := by rw [assigned_addVariable, assigned_addVariable, alike.assigned]
  labels := by rw [labels_addVariable, labels_addVariable, alike.labels]
  jumps := by rw [jumps_addVariable, jumps_addVariable, alike.jumps]

theorem addLabel (alike : s.Alike s') (name : String) :
    (s.addLabel name).Alike (s'.addLabel name) :=
  ⟨alike.assigned, congrArg (· ++ [name]) alike.labels, alike.jumps⟩

theorem addJump (alike : s.Alike s') {jump jump' : Jump} (name : jump.name = jump'.name) :
    (s.addJump jump).Alike (s'.addJump jump') := by
  have known : ∀ jumps : List Jump,
      jumps.any (·.name == jump'.name) = (jumps.map Jump.name).any (· == jump'.name) := by
    intro jumps
    rw [List.any_map]
    rfl
  unfold Scope.addJump
  rw [name, known, known, alike.jumps]
  split
  · exact alike
  · exact ⟨alike.assigned, alike.labels, by simp [alike.jumps, name]⟩

theorem name_leastJump? {jumps jumps' : List Jump}
    (names : jumps.map Jump.name = jumps'.map Jump.name) :
    (leastJump? jumps).map Jump.name = (leastJump? jumps').map Jump.name := by
  induction jumps generalizing jumps' with
  | nil =>
    obtain rfl : jumps' = [] := by simpa using names.symm
    rfl
  | cons jump jumps ih =>
    obtain ⟨jump', rest', rfl, name, others⟩ := List.map_eq_cons_iff.mp names.symm
    have least := ih others.symm
    rw [leastJump?, leastJump?]
    generalize leastJump? jumps = found at least ⊢
    generalize leastJump? rest' = found' at least ⊢
    cases found with
    | none =>
      cases found' with
      | none => simp [name]
      | some found' => cases least
    | some found =>
      cases found' with
      | none => cases least
      | some found' =>
        have same : found.name = found'.name := by simpa using least
        simp only [same, name]
        split <;> simp [same, name]

/-- The same jump is reported in the end. -/
theorem name_dangling? (alike : s.Alike s') :
    s.dangling?.map Jump.name = s'.dangling?.map Jump.name := by
  apply name_leastJump?
  have filtered : ∀ s : Scope, (s.jumps.filter (!s.hasLabel ·.name)).map Jump.name =
      (s.jumps.map Jump.name).filter (!s.labels.contains ·) := by
    intro s
    rw [List.filter_map]
    rfl
  rw [filtered, filtered, alike.jumps, alike.labels]

end Scope.Alike

/-- Whether the next thing to do is to skip blank lines. -/
def Goal.skips (goals : List Goal) : Bool :=
  goals.head? = some (.read .blankLines)

namespace Reader

/-- Two readers with the same words to come, up to layout, the same names and the same code.  If
    they are `skipping`, line ends in view do not count. -/
structure Alike (skipping : Bool) (r u : Reader) : Prop where
  words : Word.squeeze skipping (r.unread.map Token.shown) =
    Word.squeeze skipping (u.unread.map Token.shown)
  scope : r.scope.Alike u.scope
  code : r.code = u.code

theorem shown_current (r : Reader) :
    r.current.shown = (r.unread.map Token.shown).headD .eof := by
  cases unread : r.unread with
  | nil => simp [current, unread, Token.shown, Word.eof, r.isEnd]
  | cons t ts => simp [current, unread]

theorem step_blankLines (r : Reader) :
    r.step (.read .blankLines) =
      if r.current.kind = .newline then (.ok [.read .blankLines], r.advance) else (.ok [], r) := by
  simp only [step, Phrase.predict]
  split <;> simp [move]

/-- Without a line end in view it makes no difference whether line ends in view count. -/
theorem squeeze_shown {r : Reader} (stop : r.current.kind ≠ .newline) :
    Word.squeeze true (r.unread.map Token.shown) =
      Word.squeeze false (r.unread.map Token.shown) := by
  apply Word.squeeze_true_eq_false
  intro w isFirst
  rw [← Token.kind_shown, shown_current, List.headD_eq_head?_getD,
    Option.mem_def.mp isFirst] at stop
  exact stop

namespace Alike

variable {r u : Reader}

theorem weaken (alike : r.Alike false u) (skipping : Bool) : r.Alike skipping u := by
  cases skipping with
  | false => exact alike
  | true => exact ⟨Word.squeeze_true_of_false alike.words, alike.scope, alike.code⟩

/-- What is in view of both looks the same. -/
theorem shown_eq (alike : r.Alike false u) : r.current.shown = u.current.shown := by
  have head : ∀ ws : List Word, (Word.squeeze false ws).head? = ws.head? := by
    intro ws
    cases ws with
    | nil => rfl
    | cons w ws => rw [Word.squeeze_false_cons]; rfl
  rw [shown_current, shown_current, List.headD_eq_head?_getD, List.headD_eq_head?_getD, ← head,
    ← head (u.unread.map Token.shown), alike.words]

theorem advance (alike : r.Alike false u) :
    r.advance.Alike (r.current.kind = .newline) u.advance := by
  have words := alike.words
  refine ⟨?_, alike.scope, alike.code⟩
  rw [← Token.kind_shown, shown_current]
  simp only [Reader.advance, List.map_tail]
  generalize r.unread.map Token.shown = ws at words ⊢
  generalize u.unread.map Token.shown = vs at words ⊢
  cases ws with
  | nil =>
    cases vs with
    | nil => rfl
    | cons v vs =>
      rw [Word.squeeze_false_cons] at words
      cases words
  | cons w ws =>
    cases vs with
    | nil =>
      rw [Word.squeeze_false_cons] at words
      cases words
    | cons v vs =>
      rw [Word.squeeze_false_cons, Word.squeeze_false_cons] at words
      obtain ⟨rfl, rest⟩ := List.cons.inj words
      exact rest

theorem write (alike : r.Alike false u) (fs : List Fragment) :
    (r.write fs).Alike false (u.write fs) :=
  ⟨alike.words, alike.scope, congrArg (· ++ fs) alike.code⟩

theorem withScope (alike : r.Alike false u) {scope scope' : Scope} (names : scope.Alike scope') :
    (r.withScope scope).Alike false (u.withScope scope') :=
  ⟨alike.words, names, alike.code⟩

/-- A reader that skips blank lines may be ahead of the other. -/
theorem skip (alike : r.Alike true u) (isNewline : r.current.kind = .newline) :
    r.advance.Alike true u := by
  refine ⟨?_, alike.scope, alike.code⟩
  rw [← alike.words]
  cases unread : r.unread with
  | nil => simp [Reader.advance, unread]
  | cons t ts =>
    have isFirst : t.kind = .newline := by
      simpa [Reader.current, unread] using isNewline
    simp [Reader.advance, unread, Word.squeeze, isFirst]

/-- When one of them is done with the blank lines, the other one can be brought there. -/
theorem settle (alike : r.Alike true u) (done : r.current.kind ≠ .newline) :
    ∃ v : Reader, r.Alike false v ∧
      ∀ goals, u.run (.read .blankLines :: goals) = v.run goals := by
  obtain ⟨ns, rest, unread, newlines, stop⟩ := u.exists_blank
  have whole : u = (u.skipTo rest).before ns := eq_before_skipTo unread
  refine ⟨u.skipTo rest, ⟨?_, alike.scope, alike.code⟩, fun goals => ?_⟩
  · have blank : ∀ n ∈ ns.map Token.shown, n.kind = .newline := by
      intro n mem
      obtain ⟨t, isNewline, rfl⟩ := List.mem_map.mp mem
      rw [Token.kind_shown, newlines t isNewline]
    calc Word.squeeze false (r.unread.map Token.shown)
        = Word.squeeze true (r.unread.map Token.shown) := (squeeze_shown done).symm
      _ = Word.squeeze true (u.unread.map Token.shown) := alike.words
      _ = Word.squeeze true (rest.map Token.shown) := by
        rw [unread, List.map_append, Word.squeeze_true_newlines blank]
      _ = Word.squeeze false (rest.map Token.shown) := squeeze_shown stop
  · conv_lhs => rw [whole]
    exact run_blankLines newlines stop goals

end Alike

/-- Results of a step after which two readers still go on alike, whatever they have to do then, or
    have failed alike. -/
inductive Matches :
    Except Diagnostic (List Goal) × Reader → Except Diagnostic (List Goal) × Reader → Prop
  | ok {r u : Reader} {more more' : List Goal} (same : Goal.AllAlike more more')
      (alike : ∀ rest, r.Alike (Goal.skips (more ++ rest)) u) :
      Matches (.ok more, r) (.ok more', u)
  | error {r u : Reader} {d d' : Diagnostic} (cause : d.cause = d'.cause)
      (alike : r.Alike false u) : Matches (.error d, r) (.error d', u)

namespace Alike

variable {r u : Reader}

theorem matches_done (alike : r.Alike false u) : Matches (.ok [], r) (.ok [], u) :=
  .ok .nil fun _ => alike.weaken _

/-- Reading a phrase, unless it is blank lines. -/
theorem step_read (alike : r.Alike false u) (phrase : Phrase) :
    Matches (r.step (.read phrase)) (u.step (.read phrase)) := by
  have moves := phrase.alike_predict alike.scope.assigned alike.shown_eq
  have atNewline : r.current.kind = .newline → ∀ echo goals,
      phrase.predict r.scope r.current = .shift echo goals → goals = [.read .blankLines] :=
    fun isNewline _ _ => Phrase.goals_of_shift_newline isNewline
  simp only [Reader.step]
  generalize phrase.predict r.scope r.current = move at moves atNewline ⊢
  generalize phrase.predict u.scope u.current = move' at moves ⊢
  cases moves with
  | reject code message => exact .error (Prod.ext code message) alike
  | expand same => exact .ok same fun _ => alike.weaken _
  | @shift echo goals goals' same =>
    refine .ok same fun rest => ?_
    have advanced := (alike.write echo.toList).advance
    rw [Reader.current_write] at advanced
    by_cases isNewline : r.current.kind = .newline
    · -- from here on more line ends may follow in one of them
      rw [atNewline isNewline echo goals rfl]
      simpa [Goal.skips, isNewline] using advanced
    · simp only [isNewline, decide_false] at advanced
      exact advanced.weaken _

theorem step_setLabel (alike : r.Alike false u) (name : String) (place place' : Position) :
    Matches (r.step (.act (.setLabel name place))) (u.step (.act (.setLabel name place'))) := by
  have known : r.scope.hasLabel name = u.scope.hasLabel name := by
    rw [Scope.hasLabel, alike.scope.labels, Scope.hasLabel]
  simp only [Reader.step, Reader.perform, known]
  by_cases old : u.scope.hasLabel name
  · simp only [old, if_true]
    exact .error rfl alike
  · simp only [old]
    exact ((alike.withScope (alike.scope.addLabel name)).write [.label name]).matches_done

theorem step_jump (alike : r.Alike false u) {jump jump' : Jump} (name : jump.name = jump'.name) :
    Matches (r.step (.act (.jump jump))) (u.step (.act (.jump jump'))) := by
  have jumped := (alike.withScope (alike.scope.addJump name)).write [.goto jump'.name]
  rw [← name] at jumped
  simpa [Reader.step, Reader.perform, name] using jumped.matches_done

theorem step_checkJumps (alike : r.Alike false u) :
    Matches (r.step (.act .checkJumps)) (u.step (.act .checkJumps)) := by
  have names := alike.scope.name_dangling?
  simp only [Reader.step, Reader.perform]
  generalize r.scope.dangling? = dangling at names ⊢
  generalize u.scope.dangling? = dangling' at names ⊢
  cases dangling with
  | none =>
    cases dangling' with
    | none => exact alike.matches_done
    | some jump' => cases names
  | some jump =>
    cases dangling' with
    | none => cases names
    | some jump' =>
      have name : jump.name = jump'.name := by simpa using names
      refine .error ?_ alike
      rw [name]
      rfl

/-- Any step but skipping blank lines is made together. -/
theorem step (alike : r.Alike false u) {goal goal' : Goal} (same : goal.Alike goal') :
    Matches (r.step goal) (u.step goal') := by
  cases same with
  | setLabel name place place' => exact alike.step_setLabel name place place'
  | jump name place place' => exact alike.step_jump rfl
  | refl =>
    cases goal with
    | read phrase => exact alike.step_read phrase
    | act action =>
      cases action with
      | openProgram => exact alike.matches_done
      | emit f => exact (alike.write [f]).matches_done
      | declare name =>
        exact (alike.withScope (alike.scope.addVariable name)).matches_done
      | setLabel name place => exact alike.step_setLabel name place place
      | jump target => exact alike.step_jump rfl
      | checkJumps => exact alike.step_checkJumps

/-- Readers that are alike come to the same result, and are alike in the end. -/
theorem run {goals goals' : List Goal} (alike : r.Alike (Goal.skips goals) u)
    (same : Goal.AllAlike goals goals') :
    (r.run goals).1.mapError Diagnostic.cause = (u.run goals').1.mapError Diagnostic.cause ∧
      (r.run goals).2.Alike true (u.run goals').2 := by
  -- the induction follows the first reader; the second one makes the same steps, but may wait or
  -- run ahead where the first one skips blank lines
  fun_induction Reader.run r goals generalizing u goals' with
  | case1 r =>
    cases same
    rw [Reader.run_nil]
    exact ⟨rfl, alike.weaken true⟩
  | case2 r goal goals more r' stepped ih =>
    cases same with
    | @cons _ goal' _ goals' sameGoal sameGoals =>
    by_cases skips : goal = .read .blankLines
    · subst skips
      cases sameGoal
      rw [step_blankLines] at stepped
      split at stepped
      · next isNewline =>
        cases stepped
        exact ih (alike.skip isNewline) (.cons (.refl _) sameGoals)
      · next done =>
        cases stepped
        obtain ⟨v, alike', ahead⟩ := settle alike done
        rw [ahead]
        exact ih (alike'.weaken _) sameGoals
    · have notSkipping : Goal.skips (goal :: goals) = false := by simp [Goal.skips, skips]
      rw [notSkipping] at alike
      have together := alike.step sameGoal
      rw [stepped] at together
      cases stepped' : u.step goal' with
      | mk result u' =>
        rw [stepped'] at together
        cases together with
        | ok sameMore after =>
          rw [Reader.run_cons_of_step_ok stepped']
          exact ih (after goals) (List.rel_append sameMore sameGoals)
  | case3 r goal goals d r' stepped =>
    cases same with
    | @cons _ goal' _ goals' sameGoal sameGoals =>
    have notSkipping : Goal.skips (goal :: goals) = false := by
      by_contra skips
      obtain rfl : goal = .read .blankLines := by simpa [Goal.skips] using skips
      rw [step_blankLines] at stepped
      split at stepped <;> cases stepped
    rw [notSkipping] at alike
    have together := alike.step sameGoal
    rw [stepped] at together
    cases stepped' : u.step goal' with
    | mk result u' =>
      rw [stepped'] at together
      cases together with
      | error cause after =>
        rw [Reader.run_cons_of_step_error stepped']
        exact ⟨congrArg Except.error cause, after.weaken true⟩

end Alike

end Reader

/-! ## Compiling -/

/-- Ready-made tokens with the same words up to layout: the same outcome and the same output. -/
theorem Machine.compile_of_withoutLayout_eq {ts us : List Token}
    (same : Token.withoutLayout ts = Token.withoutLayout us) (output : Output) :
    (compile (.ofTokens ts) output).1.mapError Diagnostic.cause =
        (compile (.ofTokens us) output).1.mapError Diagnostic.cause ∧
      (compile (.ofTokens ts) output).2.output = (compile (.ofTokens us) output).2.output := by
  -- a program begins with blank lines to skip
  have alike : (Reader.ofTokens ts).Alike (Goal.skips Goal.body) (Reader.ofTokens us) :=
    ⟨same, ⟨rfl, rfl, rfl⟩, rfl⟩
  obtain ⟨result, after⟩ := alike.run (Goal.AllAlike.refl Goal.body)
  obtain ⟨result₁, shows₁⟩ := compile_ofTokens ts output
  obtain ⟨result₂, shows₂⟩ := compile_ofTokens us output
  rw [result₁, result₂, shows₁.output, shows₂.output, Reader.written, Reader.written,
    after.scope.assigned, after.code]
  exact ⟨result, rfl⟩

/-- Neither positions, nor blank lines, nor the texts of line ends, change what comes of a program.
    Ready-made tokens that agree in everything else compile alike or fail alike, and leave the same
    output even when they fail; so do texts of which they are the tokens. -/
theorem compile_ignores_layout :
    (∀ (ts us : List Token) (output : Output),
      Token.withoutLayout ts = Token.withoutLayout us →
        (Machine.compile (.ofTokens ts) output).1.mapError Diagnostic.cause =
            (Machine.compile (.ofTokens us) output).1.mapError Diagnostic.cause ∧
          (Machine.compile (.ofTokens ts) output).2.output =
            (Machine.compile (.ofTokens us) output).2.output) ∧
      ∀ (source source' : String) (ts us : List Token), lex source = .ok ts →
        lex source' = .ok us → Token.withoutLayout ts = Token.withoutLayout us →
          (compile source).mapError Diagnostic.cause =
            (compile source').mapError Diagnostic.cause := by
  refine ⟨fun ts us output same => Machine.compile_of_withoutLayout_eq same output, ?_⟩
  intro source source' ts us lexed lexed' same
  obtain ⟨result, written⟩ := Machine.compile_of_withoutLayout_eq same .empty
  obtain ⟨result₁, written₁⟩ := Machine.compile_ofText_of_lexed lexed .empty
  obtain ⟨result₂, written₂⟩ := Machine.compile_ofText_of_lexed lexed' .empty
  have swap : ∀ (x : Except Diagnostic Unit) (text : String),
      (x.map fun _ => text).mapError Diagnostic.cause =
        (x.mapError Diagnostic.cause).map fun _ => text := by
    intro x text
    cases x <;> rfl
  rw [compile_eq_map, compile_eq_map, swap, swap, result₁, result₂, written₁, written₂, result,
    written]

/-- A program that fails in its third line, and one that has the same words elsewhere, among blank
    lines and with line ends of another kind; and two texts. -/
theorem compile_ignores_layout_of_two_lines :
    let words : List Word :=
      [Keyword.assign.word, .name "a", .becomes, ⟨.number, "1"⟩, .newline,
        Keyword.print.word, .name "b", .newline]
    let place : Position := ⟨7, ⟨3, 1⟩⟩
    let blank : Token := ⟨.newline, "\r\n", place⟩
    let ts := words.map Word.token
    let us := blank :: (words.flatMap fun w =>
      if w.kind = .newline then [blank, blank] else [⟨w.kind, w.text, place⟩])
    let source := "PRINT 1\n"
    let source' := "# nothing\n\nPRINT\t1 # one\n\n"
    let tokens (source : String) := (lex source).toOption.getD []
    (Token.withoutLayout ts = Token.withoutLayout us ∧
      (Machine.compile (.ofTokens ts) .empty).1.mapError Diagnostic.cause =
          (Machine.compile (.ofTokens us) .empty).1.mapError Diagnostic.cause ∧
        (Machine.compile (.ofTokens ts) .empty).2.output =
          (Machine.compile (.ofTokens us) .empty).2.output) ∧
      lex source = .ok (tokens source) ∧ lex source' = .ok (tokens source') ∧
      (compile source).mapError Diagnostic.cause =
        (compile source').mapError Diagnostic.cause := by
  intro words place blank ts us source source' tokens
  have same : Token.withoutLayout ts = Token.withoutLayout us := by decide
  refine ⟨⟨same, compile_ignores_layout.1 ts us .empty same⟩, ?_⟩
  have lexed : lex source = .ok (tokens source) := by decide +kernel
  have lexed' : lex source' = .ok (tokens source') := by decide +kernel
  refine ⟨lexed, lexed', ?_⟩
  exact compile_ignores_layout.2 source source' _ _ lexed lexed' (by decide +kernel)

end BasicToC
