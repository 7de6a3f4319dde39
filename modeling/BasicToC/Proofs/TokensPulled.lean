import BasicToC.Proofs.CommandRuns
import BasicToC.Proofs.Completion
import BasicToC.Proofs.LongestMatch
import BasicToC.Proofs.Stopping

/-! # Which tokens a compilation pulls

A machine sees one token and holds the next one, so what it has pulled when it stops is known from
the token it stops at.  `Machine.Along` is what is true of the pulled tokens at any time, and
`Goal.Poised` what the goals say about them: a label is set right after its name was used up, and
jumps are checked with the end in view.  A step keeps both, or the machine stops in one of the ways
of `Machine.Stops`.
-/

namespace BasicToC

/-! ## Places of tokens -/

namespace Place

theorem line_after (p : Place) (cs : List Char) : (p.after cs).line = p.line + cs.count '\n' := by
  induction cs generalizing p with
  | nil => rfl
  | cons c cs ih =>
    rw [after_cons, ih, next]
    by_cases newline : c = '\n'
    · simp only [newline, if_true, List.count_cons_self]
      omega
    · simp [newline]

theorem column_after {cs : List Char} (inLine : '\n' ∉ cs) (p : Place) :
    (p.after cs).column = p.column + cs.length := by
  induction cs generalizing p with
  | nil => rfl
  | cons c cs ih =>
    rw [List.mem_cons, not_or] at inLine
    have newline : c ≠ '\n' := Ne.symm inLine.1
    rw [after_cons, ih inLine.2, next, if_neg newline, List.length_cons]
    show p.column + 1 + cs.length = p.column + (cs.length + 1)
    omega

theorem after_ne {cs : List Char} (some : cs ≠ []) (p : Place) : p.after cs ≠ p := by
  intro same
  by_cases inLine : '\n' ∈ cs
  · have line := p.line_after cs
    have further := List.count_pos_iff.mpr inLine
    rw [same] at line
    omega
  · have column := column_after inLine p
    have further := List.length_pos_iff.mpr some
    rw [same] at column
    omega

end Place

/-- The place at which a token begins. -/
def Token.place (t : Token) : Place :=
  ⟨t.position.line, t.position.column.start⟩

namespace TokenStream

/-- What a stream gives until its end has come once. -/
def untilEnd (s : TokenStream) : List (Except Diagnostic Token) :=
  s.pending ++ [.ok (.eof s.ending)]

theorem place_of_pull {lexeme : Lexeme} {place : Place} {t : Token}
    (pulled : lexeme.pull place = .ok t) : t.place = place := by
  unfold Token.place
  rw [(Lexeme.pull_eq_ok_iff.mp pulled).2]
  rfl

/-- The tokens of a text stand behind its beginning. -/
theorem exists_place_of_mem_untilEnd {place : Place} {cs : List Char} {t : Token}
    (mem : .ok t ∈ (scan place cs).untilEnd) : ∃ ds, t.place = place.after ds := by
  fun_induction scan place cs with
  | case1 place cs start after =>
    obtain rfl : t = .eof start := by simpa [untilEnd] using mem
    exact ⟨gap cs, rfl⟩
  | case2 place cs start c tail after lexeme rest ih =>
    rcases List.mem_cons.mp mem with isFirst | mem
    · exact ⟨gap cs, place_of_pull isFirst.symm⟩
    · obtain ⟨ds, stands⟩ := ih mem
      exact ⟨gap cs ++ (lexeme.spelling ++ ds), by rw [stands, Place.after_append,
        Place.after_append]⟩

/-- No two tokens of a text stand at one place. -/
theorem pairwise_place_untilEnd (place : Place) (cs : List Char) :
    (scan place cs).untilEnd.Pairwise fun x y =>
      ∀ t u, x = .ok t → y = .ok u → t.place ≠ u.place := by
  fun_induction scan place cs with
  | case1 => exact List.pairwise_singleton _ _
  | case2 place cs start c tail after lexeme rest ih =>
    refine List.pairwise_cons.mpr ⟨?_, ih⟩
    rintro y mem t u isFirst rfl
    obtain ⟨ds, stands⟩ := exists_place_of_mem_untilEnd mem
    rw [place_of_pull isFirst, stands, ← Place.after_append]
    refine (Place.after_ne ?_ start).symm
    simp [Lexeme.first_spelling_ne_nil c tail, lexeme]

/-- Tokens without an end among them are the first ones in front of the end. -/
theorem prefix_untilEnd {s : TokenStream} {n : Nat} {front more : List Token} {t : Token}
    (pulls : s.pulls n = (front ++ t :: more).map .ok) (noEnd : ∀ t ∈ front, t.kind ≠ .eof) :
    (front ++ [t]).map .ok <+: s.untilEnd := by
  induction front generalizing s n with
  | nil =>
    obtain ⟨pending, ending⟩ := s
    cases n with
    | zero => cases pulls
    | succ n =>
      have isFirst := (List.cons.inj pulls).1
      cases pending with
      | nil => exact ⟨[], by simpa [untilEnd] using isFirst.symm⟩
      | cons item pending =>
        exact ⟨pending ++ [.ok (.eof ending)], by simpa [untilEnd] using isFirst.symm⟩
  | cons x front ih =>
    obtain ⟨pending, ending⟩ := s
    rw [List.forall_mem_cons] at noEnd
    cases n with
    | zero => cases pulls
    | succ n =>
      obtain ⟨isFirst, later⟩ := List.cons.inj pulls
      cases pending with
      | nil =>
        obtain rfl : Token.eof ending = x := by simpa using isFirst
        exact absurd rfl noEnd.1
      | cons item pending =>
        obtain rfl : item = .ok x := isFirst
        exact List.cons_prefix_cons.mpr ⟨rfl, ih later noEnd.2⟩

end TokenStream

/-! ## Codes -/

theorem Token.code_of_asName {t : Token} {goals : String → List Goal} {problem : Problem}
    (rejected : t.asName goals = .reject problem) : problem.code = .syntaxError := by
  unfold Token.asName at rejected
  split at rejected
  · cases rejected
    rfl
  · split at rejected <;> cases rejected
    rfl

theorem Token.code_of_beginStatement {t : Token} {next : Phrase} {problem : Problem}
    (rejected : t.beginStatement next = .reject problem) : problem.code = .syntaxError := by
  unfold Token.beginStatement at rejected
  split at rejected <;> cases rejected
  rfl

/-- A token that cannot stand where it does is a mistake in the syntax or a variable without a
    value. -/
theorem Phrase.code_of_reject {phrase : Phrase} {scope : Scope} {t : Token} {problem : Problem}
    (rejected : phrase.predict scope t = .reject problem) :
    problem.code = .syntaxError ∨ problem.code = .undefinedVariable := by
  cases phrase with
  | statements =>
    rw [Phrase.predict] at rejected
    split at rejected
    · cases rejected
    · exact .inl (Token.code_of_beginStatement rejected)
  | block close =>
    rw [Phrase.predict] at rejected
    split at rejected
    · cases rejected
    · split at rejected
      · cases rejected
        exact .inl rfl
      · exact .inl (Token.code_of_beginStatement rejected)
  | assignment | inputName | labelName | jumpName =>
    rw [Phrase.predict] at rejected
    exact .inl (Token.code_of_asName rejected)
  | condition | expression | term =>
    rw [Phrase.predict] at rejected
    cases rejected
  | operand =>
    rw [Phrase.predict] at rejected
    split at rejected
    · cases rejected
    · split at rejected <;> cases rejected
      exact .inr rfl
    · cases rejected
      exact .inl rfl
  | keyword | becomes | lineEnd | comparison =>
    rw [Phrase.predict] at rejected
    split at rejected <;> cases rejected
    exact .inl rfl
  | blankLines | printed | moreComparisons | moreTerms | moreFactors | factor =>
    rw [Phrase.predict] at rejected
    split at rejected <;> cases rejected

/-- What fails in a text is a character that cannot stand there. -/
theorem TokenStream.code_of_mem_scan {place : Place} {cs : List Char} {d : Diagnostic}
    (mem : .error d ∈ (scan place cs).pending) : d.code = .illegalCharacter := by
  obtain ⟨c, tail, start, pulled⟩ := exists_lexeme_of_mem_scan mem
  obtain ⟨problem, failed, rfl⟩ := Lexeme.pull_eq_error_iff.mp pulled
  exact Lexeme.code_of_error failed

/-! ## The tokens pulled so far -/

namespace Machine

theorem Draws.pulls_of_error {stream after : TokenStream} {m : Machine} {d : Diagnostic}
    (draws : m.Draws stream) (next : m.stream.next = (.error d, after)) :
    stream.pulls (m.pulled.length + 1) = m.pulled.map .ok ++ [.error d] := by
  have one : m.stream.pulls 1 = [.error d] := by simp only [TokenStream.pulls, next]
  rw [draws 1, one]

/-- The machine has pulled tokens of a stream: it has used up some, the end not among them, and
    after these come the two that it holds. -/
structure Along (stream : TokenStream) (used : List Token) (m : Machine) : Prop where
  pulled : m.pulled = used ++ [m.current, m.lookahead]
  noEnd : ∀ t ∈ used, t.kind ≠ .eof
  draws : m.Draws stream

namespace Along

variable {stream : TokenStream} {used : List Token} {m : Machine}

theorem echo (along : m.Along stream used) (echo : Option Fragment) :
    (m.echo echo).Along stream used := by
  cases echo <;> exact ⟨along.pulled, along.noEnd, along.draws⟩

theorem perform (along : m.Along stream used) (action : Action) :
    (m.perform action).2.Along stream used := by
  obtain ⟨current, lookahead⟩ := m.view_perform action
  refine ⟨?_, along.noEnd, along.draws.perform action⟩
  rw [pulled_perform, current, lookahead, along.pulled]

/-- A pull uses up the token in view, or fails where the stream fails. -/
theorem advance (along : m.Along stream used) (notEnd : m.current.kind ≠ .eof) :
    (∃ u, m.advance = (.ok (), u) ∧ u.Along stream (used ++ [m.current])) ∨
      ∃ d u, m.advance = (.error d, u) ∧
        stream.pulls (u.pulled.length + 1) = u.pulled.map .ok ++ [.error d] := by
  obtain ⟨t, after, next, advanced⟩ | ⟨d, after, next, advanced⟩ := m.advance_cases
  · refine .inl ⟨_, advanced, ?_, ?_, along.draws.pull next⟩
    · rw [pulled_pull, along.pulled]
      simp [pull]
    · intro t mem
      rcases List.mem_append.mp mem with mem | mem
      · exact along.noEnd t mem
      · rw [List.mem_singleton.mp mem]
        exact notEnd
  · exact .inr ⟨d, _, advanced, along.draws.pulls_of_error next⟩

end Along

/-! ## How a machine stops -/

/-- The ways in which a run can end: at the end of the program, where at most a label is missing;
    at the token in view; at the name of a label that has been used up; or at a pull that fails. -/
inductive Stops (stream : TokenStream) : Except Diagnostic Unit × Machine → Prop
  | atEnd {result : Except Diagnostic Unit} {used : List Token} {m : Machine}
      (along : m.Along stream used) (isEnd : m.current.kind = .eof)
      (missing : ∀ d, result = .error d → d.code = .undefinedLabel) : Stops stream (result, m)
  | inView {problem : Problem} {used : List Token} {m : Machine} (along : m.Along stream used)
      (code : problem.code = .syntaxError ∨ problem.code = .undefinedVariable) :
      Stops stream (.error (problem.located m.current.position), m)
  | atLabel {name : String} {used : List Token} {t : Token} {m : Machine}
      (along : m.Along stream (used ++ [t])) :
      Stops stream (.error ((Problem.repeatedLabel name).located t.position), m)
  | atPull {d : Diagnostic} {m : Machine}
      (failed : stream.pulls (m.pulled.length + 1) = m.pulled.map .ok ++ [.error d]) :
      Stops stream (.error d, m)

end Machine

/-- Goals that fit the tokens used up and the token in view: in the middle of a program, right
    after the name of a label, or at the end. -/
inductive Goal.Poised (used : List Token) (t : Token) : List Goal → Prop
  | inside {goals : List Goal} (guarded : Guarded goals) : Poised used t goals
  | label {name : String} {earlier : List Token} {named : Token} {goals : List Goal}
      (isLast : used = earlier ++ [named]) (rest : Guarded goals) :
      Poised used t (.act (.setLabel name named.position) :: goals)
  | closing {goals : List Goal} (isEnd : t.kind = .eof)
      (last : goals <:+ [.act (.emit .closeMain), .act .checkJumps]) : Poised used t goals

namespace Machine

variable {stream : TokenStream} {used : List Token} {m : Machine} {goals : List Goal}

/-- After a step the tokens and the goals still fit together, or the machine stops. -/
def Continues (stream : TokenStream) (goals : List Goal)
    (x : Except Diagnostic (List Goal) × Machine) : Prop :=
  (∃ more u used, x = (.ok more, u) ∧ u.Along stream used ∧
      Goal.Poised used u.current (more ++ goals)) ∨
    ∃ d u, x = (.error d, u) ∧ Stops stream (.error d, u)

theorem Along.step_read (along : m.Along stream used) {phrase : Phrase}
    (guarded : Guarded (.read phrase :: goals)) :
    Continues stream goals (m.step (.read phrase)) := by
  have progress := phrase.progress_predict m.scope m.current
  cases predicted : phrase.predict m.scope m.current with
  | reject problem =>
    refine .inr ⟨problem.located m.current.position, m, ?_,
      .inView along (Phrase.code_of_reject predicted)⟩
    simp only [step, predicted, move]
  | expand more =>
    refine .inl ⟨more, m, used, by simp only [step, predicted, move], along, ?_⟩
    by_cases atStatements : phrase = .statements
    · subst atStatements
      cases guarded with
      | read inner => exact absurd rfl inner
      | program =>
        rw [Phrase.predict] at predicted
        split at predicted
        · next isEnd =>
          cases predicted
          exact .closing isEnd List.suffix_rfl
        · exact absurd predicted (Token.beginStatement_ne_expand _ _ _)
    · obtain ⟨expansion, -⟩ := (Phrase.predict_eq_expand_iff atStatements _ _ _).mp predicted
      exact .inside (guarded.of_expansion expansion).1
  | shift echo more =>
    rw [predicted] at progress
    rw [step, predicted, move_shift]
    obtain ⟨u, advanced, after⟩ | ⟨d, u, advanced, failed⟩ :=
      (along.echo echo).advance (by rw [current_echo]; exact progress.1)
    · rw [advanced]
      rw [current_echo] at after
      refine .inl ⟨more, u, _, rfl, after, ?_⟩
      by_cases isLabel : phrase = .labelName
      · subst isLabel
        rw [Phrase.predict] at predicted
        obtain ⟨-, -, rfl⟩ := Token.asName_eq_shift predicted
        cases guarded with
        | read inner stop rest => exact .label rfl rest
      · exact .inside (guarded.of_shift isLabel predicted)
    · rw [advanced]
      exact .inr ⟨d, u, rfl, .atPull failed⟩

theorem Along.continues_of_ok (along : m.Along stream used) {action : Action}
    (performed : (m.perform action).1 = .ok ()) (poised : Goal.Poised used m.current goals) :
    Continues stream goals (m.step (.act action)) := by
  refine .inl ⟨[], (m.perform action).2, used, ?_, along.perform action, ?_⟩
  · have done : m.perform action = (.ok (), (m.perform action).2) := Prod.ext performed rfl
    rw [step_act, done]
    rfl
  · rw [(m.view_perform action).1]
    exact poised

theorem Along.step (along : m.Along stream used) {goal : Goal}
    (poised : Goal.Poised used m.current (goal :: goals)) :
    Continues stream goals (m.step goal) := by
  cases poised with
  | inside guarded =>
    cases guarded with
    | program => exact along.step_read .program
    | read inner stop rest => exact along.step_read (.read inner stop rest)
    | act safe rest => cases safe <;> exact along.continues_of_ok rfl (.inside rest)
  | @label name earlier named _ isLast rest =>
    cases known : m.scope.hasLabel name with
    | false =>
      exact along.continues_of_ok (by simp [Machine.perform, known]) (.inside rest)
    | true =>
      refine .inr ⟨(Problem.repeatedLabel name).located named.position, m, ?_,
        .atLabel (isLast ▸ along)⟩
      simp only [Machine.step, Machine.perform, known, if_true]
  | closing isEnd last =>
    rcases List.suffix_cons_iff.mp last with same | last
    · obtain ⟨rfl, rfl⟩ := List.cons.inj same
      exact along.continues_of_ok rfl (.closing isEnd (List.suffix_cons _ _))
    · rcases List.suffix_cons_iff.mp last with same | last
      · obtain ⟨rfl, rfl⟩ := List.cons.inj same
        cases dangling : m.scope.dangling? with
        | none =>
          exact along.continues_of_ok (by simp [Machine.perform, dangling])
            (.closing isEnd List.nil_suffix)
        | some jump =>
          refine .inr ⟨(Problem.missingLabel jump.name).located jump.position, m, ?_,
            .atEnd along isEnd ?_⟩
          · simp only [Machine.step, Machine.perform, dangling]
          · rintro d ⟨⟩
            rfl
      · cases List.suffix_nil.mp last

theorem Along.run (along : m.Along stream used) (poised : Goal.Poised used m.current goals) :
    Stops stream (m.run goals) := by
  fun_induction Machine.run m goals generalizing used with
  | case1 m =>
    cases poised with
    | inside guarded => cases guarded
    | closing isEnd => exact .atEnd along isEnd (by simp)
  | case2 m goal goals more u stepped ih =>
    obtain ⟨more', u', used', after, along', poised'⟩ | ⟨d, u', after, -⟩ := along.step poised
    · cases stepped.symm.trans after
      exact ih along' poised'
    · cases stepped.symm.trans after
  | case3 m goal goals d u stepped =>
    obtain ⟨more, u', used', after, -⟩ | ⟨d', u', after, stops⟩ := along.step poised
    · cases stepped.symm.trans after
    · cases stepped.symm.trans after
      exact stops

/-- A compilation stops in one of these ways. -/
theorem stops_compile (stream : TokenStream) (base : Output) :
    Stops stream (compile stream base) := by
  let m := ofStream stream base
  have begun : m.Draws stream := fun k => by simp [m, Machine.pulled, ofStream]
  rw [compile_eq, start_eq]
  obtain ⟨t, after, next, first⟩ | ⟨d, after, next, first⟩ := m.advance_cases
  · rw [first]
    obtain ⟨t', after', next', second⟩ | ⟨d, after', next', second⟩ :=
      (m.pull t after).advance_cases
    · have along : ((m.pull t after).pull t' after').Along stream [] :=
        ⟨by rw [pulled_pull, pulled_pull]; rfl, by simp, (begun.pull next).pull next'⟩
      have opened := along.perform .openProgram
      have poised : Goal.Poised [] t Goal.body := .inside .body
      simp only [andThen, second, program, Goal.program]
      rw [run_cons_of_step_ok (u := (((m.pull t after).pull t' after').perform .openProgram).2) rfl]
      exact opened.run poised
    · simp only [andThen, second]
      exact .atPull ((begun.pull next).pulls_of_error next')
  · rw [first]
    exact .atPull (begun.pulls_of_error next)

end Machine

/-! ## Texts -/

/-- A report names the position of a token. -/
def Diagnostic.PointsAt (d : Diagnostic) (t : Token) : Prop :=
  d.line = some t.position.line ∧ d.column = t.position.column

theorem Problem.pointsAt_located (problem : Problem) (t : Token) :
    (problem.located t.position).PointsAt t :=
  ⟨rfl, rfl⟩

theorem Diagnostic.PointsAt.place_eq {d : Diagnostic} {s t : Token} (atFirst : d.PointsAt s)
    (atSecond : d.PointsAt t) : s.place = t.place := by
  have line := Option.some.inj (atFirst.1.symm.trans atSecond.1)
  have column := atFirst.2.symm.trans atSecond.2
  rw [Token.place, Token.place, line, column]

/-- The token is the first one that a report points at; `seen` are those in front of it. -/
structure Diagnostic.FirstAt (d : Diagnostic) (seen : List Token) (t : Token) : Prop where
  here : d.PointsAt t
  notBefore : ∀ s ∈ seen, ¬ d.PointsAt s

namespace TokenStream

theorem pulls_of_tokens (ts : List Token) (ending : Place) (k : Nat) :
    pulls (ts.length + k) ⟨ts.map .ok, ending⟩ =
      ts.map .ok ++ List.replicate k (.ok (.eof ending)) := by
  induction ts with
  | nil =>
    rw [List.length_nil, Nat.zero_add]
    induction k with
    | zero => rfl
    | succ k ih => exact congrArg (.ok (.eof ending) :: ·) ih
  | cons t ts ih =>
    rw [List.length_cons, Nat.add_right_comm]
    exact congrArg (.ok t :: ·) ih

/-- If tokens are pulled from a text and none in front of `t` is the end, a report that points at
    `t` does so for the first time there. -/
theorem firstAt_of_pulls {source : String} {n : Nat} {seen more : List Token} {t : Token}
    (pulls : (ofText source).pulls n = (seen ++ t :: more).map .ok)
    (noEnd : ∀ s ∈ seen, s.kind ≠ .eof) {d : Diagnostic} (here : d.PointsAt t) :
    d.FirstAt seen t := by
  have isFront := prefix_untilEnd pulls noEnd
  have apart := (pairwise_place_untilEnd .start source.toList).sublist isFront.sublist
  rw [List.map_append, List.pairwise_append] at apart
  refine ⟨here, fun s mem there => ?_⟩
  exact apart.2.2 (.ok s) (List.mem_map_of_mem mem) (.ok t) (by simp) s t rfl rfl
    (there.place_eq here)

end TokenStream

namespace Machine

theorem Along.pulls {stream : TokenStream} {used : List Token} {m : Machine}
    (along : m.Along stream used) : stream.pulls m.pulled.length = m.pulled.map .ok := by
  have none := along.draws 0
  rwa [TokenStream.pulls, List.append_nil, Nat.add_zero] at none

/-- If the token in view is to blame, the machine holds only one token behind it. -/
theorem Along.stops_at_current {source : String} {used : List Token} {m : Machine} {d : Diagnostic}
    (along : m.Along (.ofText source) used) (here : d.PointsAt m.current) :
    ∃ seen t ahead, m.pulled = seen ++ [t, ahead] ∧ d.FirstAt seen t ∧
      (TokenStream.ofText source).pulls (seen.length + 2) = m.pulled.map .ok := by
  have pulls := along.pulls
  have count : m.pulled.length = used.length + 2 := by simp [along.pulled]
  refine ⟨used, m.current, m.lookahead, along.pulled, ?_, count ▸ pulls⟩
  exact TokenStream.firstAt_of_pulls (along.pulled ▸ pulls) along.noEnd here

/-- If the last token that was used up is to blame, the machine holds two. -/
theorem Along.stops_at_last {source : String} {used : List Token} {t : Token} {m : Machine}
    {d : Diagnostic} (along : m.Along (.ofText source) (used ++ [t])) (here : d.PointsAt t) :
    ∃ seen t after ahead, m.pulled = seen ++ [t, after, ahead] ∧ d.FirstAt seen t ∧
      (TokenStream.ofText source).pulls (seen.length + 3) = m.pulled.map .ok := by
  have split : m.pulled = used ++ [t, m.current, m.lookahead] := by
    rw [along.pulled, List.append_assoc]
    rfl
  have pulls := along.pulls
  have count : m.pulled.length = used.length + 3 := by simp [split]
  refine ⟨used, t, m.current, m.lookahead, split, ?_, count ▸ pulls⟩
  exact TokenStream.firstAt_of_pulls (split ▸ pulls)
    (fun s mem => along.noEnd s (List.mem_append_left _ mem)) here

/-- With the end in view, every token of the text has been used up. -/
theorem Along.lex_eq {source : String} {used : List Token} {m : Machine}
    (along : m.Along (.ofText source) used) (isEnd : m.current.kind = .eof) :
    ∃ final, lex source = .ok (used ++ [final]) ∧ final.kind = .eof ∧
      m.pulled = used ++ [final, final] := by
  have pulls := along.pulls
  have notPending : .ok m.current ∉ (TokenStream.ofText source).pending :=
    fun mem => TokenStream.kind_ne_eof_of_mem_scan mem isEnd
  have isFront : (used ++ [m.current]).map .ok <+: (TokenStream.ofText source).untilEnd :=
    TokenStream.prefix_untilEnd (along.pulled ▸ pulls) along.noEnd
  unfold lex TokenStream.tokens
  generalize TokenStream.ofText source = stream at pulls notPending isFront
  obtain ⟨pending, ending⟩ := stream
  rcases List.prefix_concat_iff.mp isFront with same | isFront
  · rw [List.map_append] at same
    obtain ⟨rfl, -⟩ := List.append_inj' same rfl
    have count : m.pulled.length = used.length + 2 := by simp [along.pulled]
    rw [count, TokenStream.pulls_of_tokens] at pulls
    refine ⟨.eof ending, by rw [TokenStream.collect_map_ok]; rfl, rfl, ?_⟩
    refine List.map_injective_iff.mpr (fun _ _ => Except.ok.inj) (pulls.symm.trans ?_)
    simp
  · exact absurd (isFront.subset (by simp)) notPending

/-- What is known of the tokens pulled if a machine has stopped with a report of some class. -/
def StoppedWith (stream : TokenStream) (m : Machine) (d : Diagnostic) : Diagnostic.Code → Prop
  | .undefinedLabel => ∃ used, m.Along stream used ∧ m.current.kind = .eof
  | .syntaxError | .undefinedVariable => ∃ used, m.Along stream used ∧ d.PointsAt m.current
  | .duplicateLabel => ∃ used t, m.Along stream (used ++ [t]) ∧ d.PointsAt t
  | .illegalCharacter => stream.pulls (m.pulled.length + 1) = m.pulled.map .ok ++ [.error d]
  | .diskError => False

theorem Stops.stoppedWith {source : String} {d : Diagnostic} {m : Machine}
    (stops : Stops (.ofText source) (.error d, m)) :
    m.StoppedWith (.ofText source) d d.code := by
  cases stops with
  | atEnd along isEnd missing =>
    rw [missing d rfl]
    exact ⟨_, along, isEnd⟩
  | @inView problem used _ along code =>
    have here := problem.pointsAt_located m.current
    rcases code with code | code
    · rw [show (problem.located m.current.position).code = .syntaxError from code]
      exact ⟨used, along, here⟩
    · rw [show (problem.located m.current.position).code = .undefinedVariable from code]
      exact ⟨used, along, here⟩
  | atLabel along => exact ⟨_, _, along, Problem.pointsAt_located _ _⟩
  | atPull failed =>
    have mem : .error d ∈ (TokenStream.ofText source).pulls (m.pulled.length + 1) := by
      rw [failed]
      simp
    rcases TokenStream.mem_of_mem_pulls mem with mem | isEnd
    · rw [TokenStream.code_of_mem_scan mem]
      exact failed
    · cases isEnd

end Machine

/-! ## The log -/

/-- The record of a token that was pulled. -/
def Token.record (t : Token) : LogRecord :=
  ⟨.trace, t.kind.tag ++ " " ++ Text.quoteString t.text⟩

/-- The finest records of a log. -/
def traceRecords (log : List LogRecord) : List LogRecord :=
  log.filter (·.level == .trace)

theorem traceRecords_append (log more : List LogRecord) :
    traceRecords (log ++ more) = traceRecords log ++ traceRecords more :=
  List.filter_append ..

theorem Machine.traceRecords_events (m : Machine) :
    traceRecords (m.events.toList.map Event.toRecord) = m.pulled.map Token.record := by
  rw [Machine.pulled]
  induction m.events.toList with
  | nil => rfl
  | cons event events ih =>
    cases event with
    | pulled t => exact congrArg (t.record :: ·) ih
    | declaredVariable name => exact ih
    | declaredLabel name line => exact ih

namespace CommandLine

open Files (Tree)

theorem traceRecords_deliver (tree : Tree) (path text : String) :
    traceRecords (tree.deliver path text).log = [] := by
  rcases tree.log_deliver path text with nothing | writing
  · rw [nothing]
    rfl
  · rw [writing]
    rfl

theorem traceRecords_compileFile (source text : String) :
    traceRecords (compileFile source (.ok text)).log =
      (Machine.compile (.ofText text) .empty).2.pulled.map Token.record := by
  rw [← Machine.traceRecords_events]
  rfl

theorem traceRecords_run {tree : Tree} {source text : String}
    (read : tree.readText (.ofString source) = .ok text) (output : String) :
    traceRecords (run source output tree).log =
      (Machine.compile (.ofText text) .empty).2.pulled.map Token.record := by
  have compiling : compilation source tree = compileFile source (.ok text) := by
    rw [compilation, read]
    rfl
  have delivered (c : String) :
      traceRecords ((compilation source tree).log ++ (tree.deliver output c).log) =
        traceRecords (compilation source tree).log := by
    rw [traceRecords_append, traceRecords_deliver, List.append_nil]
  rw [← traceRecords_compileFile source, ← compiling]
  cases compiled : (compilation source tree).result with
  | error d => rw [run_of_uncompiled compiled]
  | ok c =>
    cases result : (tree.deliver output c).result with
    | error refusal => rw [run_of_refused compiled result, delivered]
    | ok done => rw [run_of_delivered compiled result, delivered]

theorem traceRecords_perform (source output : String) (tree : Tree) :
    traceRecords (perform ⟨source, output, 4⟩ tree).log =
      openingRecord .trace :: traceRecords (run source output tree).log := by
  cases result : (run source output tree).result with
  | ok done =>
    rw [perform_eq_of_ok rfl result, shownLog_trace]
    rfl
  | error d =>
    rw [perform_eq_of_error rfl result, shownLog_trace]
    rfl

end CommandLine

/-- The tokens that a compilation pulls are known from the way in which it stops, and they are what
    the finest log shows of it. -/
theorem compile_pulls_exactly (source : String) (base : Output) :
    let stream := TokenStream.ofText source
    let outcome := Machine.compile stream base
    let pulled := outcome.2.pulled
    (outcome.1 = .ok () ∨ (∃ d, outcome.1 = .error d ∧ d.code = .undefinedLabel) →
        ∃ ts final, lex source = .ok (ts ++ [final]) ∧ final.kind = .eof ∧
          pulled = ts ++ [final, final]) ∧
      (∀ d, outcome.1 = .error d → d.code = .syntaxError ∨ d.code = .undefinedVariable →
        ∃ seen t ahead, pulled = seen ++ [t, ahead] ∧ d.FirstAt seen t ∧
          stream.pulls (seen.length + 2) = pulled.map .ok) ∧
      (∀ d, outcome.1 = .error d → d.code = .duplicateLabel →
        ∃ seen t after ahead, pulled = seen ++ [t, after, ahead] ∧ d.FirstAt seen t ∧
          stream.pulls (seen.length + 3) = pulled.map .ok) ∧
      (∀ d, outcome.1 = .error d → d.code = .illegalCharacter →
        stream.pulls (pulled.length + 1) = pulled.map .ok ++ [.error d]) ∧
      (∀ d, outcome.1 = .error d → d.code ≠ .diskError) ∧
      ∀ path output tree, tree.Holds (.ofString path) source.toUTF8 →
        traceRecords (CommandLine.perform ⟨path, output, 4⟩ tree).log =
          CommandLine.openingRecord .trace ::
            (Machine.compile stream .empty).2.pulled.map Token.record := by
  intro stream outcome pulled
  have stops : Machine.Stops stream (outcome.1, outcome.2) := Machine.stops_compile stream base
  have stopped : ∀ d, outcome.1 = .error d → outcome.2.StoppedWith stream d d.code := by
    intro d failed
    rw [failed] at stops
    exact stops.stoppedWith
  refine ⟨?_, fun d failed code => ?_, fun d failed code => ?_, fun d failed code => ?_,
    fun d failed code => ?_, fun path output tree holds => ?_⟩
  · intro finished
    have atEnd : ∃ used, outcome.2.Along stream used ∧ outcome.2.current.kind = .eof := by
      rcases finished with ok | ⟨d, failed, code⟩
      · rw [ok] at stops
        cases stops with
        | atEnd along isEnd => exact ⟨_, along, isEnd⟩
      · have stopped := stopped d failed
        rw [code] at stopped
        exact stopped
    obtain ⟨used, along, isEnd⟩ := atEnd
    exact ⟨used, along.lex_eq isEnd⟩
  · have stopped := stopped d failed
    have inView : ∃ used, outcome.2.Along stream used ∧ d.PointsAt outcome.2.current := by
      rcases code with code | code
      · rw [code] at stopped
        exact stopped
      · rw [code] at stopped
        exact stopped
    obtain ⟨used, along, here⟩ := inView
    exact along.stops_at_current here
  · have stopped := stopped d failed
    rw [code] at stopped
    obtain ⟨used, t, along, here⟩ := stopped
    exact along.stops_at_last here
  · have stopped := stopped d failed
    rw [code] at stopped
    exact stopped
  · have stopped := stopped d failed
    rw [code] at stopped
    exact stopped
  · rw [CommandLine.traceRecords_perform]
    exact congrArg _ (CommandLine.traceRecords_run (Files.Tree.readText_eq_ok_iff.mpr holds) output)

theorem compile_pulls_exactly_of_repeated_label :
    let source := "LABEL a\nPRINT 1\nLABEL a\nGOTO b\n"
    let tree := Files.Tree.empty.insert ["p.bas"] (.file source.toUTF8)
    let outcome := Machine.compile (.ofText source) .empty
    let log := (CommandLine.perform ⟨"p.bas", "p.c", 4⟩ tree).log
    outcome.1.mapError Diagnostic.code = .error .duplicateLabel ∧
      (∃ seen t after ahead, outcome.2.pulled = seen ++ [t, after, ahead] ∧
        (TokenStream.ofText source).pulls (seen.length + 3) = outcome.2.pulled.map .ok) ∧
      traceRecords log =
        CommandLine.openingRecord .trace :: outcome.2.pulled.map Token.record := by
  intro source tree outcome log
  obtain ⟨-, -, label, -, -, logged⟩ := compile_pulls_exactly source .empty
  have repeats : outcome.1.mapError Diagnostic.code = .error .duplicateLabel := by
    decide +kernel
  have read : tree.readText (.ofString "p.bas") = .ok source := by decide +kernel
  refine ⟨repeats, ?_, logged "p.bas" "p.c" tree (Files.Tree.readText_eq_ok_iff.mp read)⟩
  cases failed : outcome.1 with
  | ok done =>
    rw [failed] at repeats
    cases repeats
  | error d =>
    rw [failed] at repeats
    obtain ⟨seen, t, after, ahead, split, -, pulls⟩ := label d failed (Except.error.inj repeats)
    exact ⟨seen, t, after, ahead, split, pulls⟩

end BasicToC
