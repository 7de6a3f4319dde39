import BasicToC.Proofs.Bookkeeping
import BasicToC.Proofs.CReading
import BasicToC.Proofs.Stopping

/-! # Expressions as C reads them

An expression keeps its structure on the way from one language to the other.  `CReading` says so of
trees.  The machine has none: in the middle of a program, with names and output from before and with
anything at all to come, it uses up some tokens and writes some code.  Both are those of one tree.

The goals of an expression only read, and what they do depends on the tokens that they use up and on
the one in view after them.  So a reader that has just these does the same (`Machine.Works`), and
what a reader does is known.
-/

namespace BasicToC

/-! ## Phrases of an expression -/

namespace Phrase

def isArithmetic : Phrase → Bool
  | .expression | .moreTerms | .term | .moreFactors | .factor | .operand => true
  | _ => false

/-- Phrases of an expression stand for phrases of an expression, and never for an action. -/
theorem isArithmetic_of_mem_predict {phrase : Phrase} (arithmetic : phrase.isArithmetic)
    (scope : Scope) (t : Token) :
    ∀ goal ∈ (phrase.predict scope t).goals, ∃ part : Phrase, goal = .read part ∧
      part.isArithmetic := by
  cases phrase with
  | expression | moreTerms | term | moreFactors | factor | operand =>
    rw [Phrase.predict]
    repeat' split
    all_goals simp [Move.goals, isArithmetic]
  | _ => cases arithmetic

end Phrase

theorem Output.body_extend (o : Output) (ds : List Declaration) (fs : List Fragment) :
    (o.extend ds fs).body = o.body ++ Fragment.join fs := by
  rw [Output.body, Output.extend, Array.foldl_append, List.foldl_toArray, foldl_append_text]
  rfl

theorem Output.header_extend_nil (o : Output) (fs : List Fragment) :
    (o.extend [] fs).header = o.header := by
  simp [Output.header, Output.extend]

/-- A reader can have any token in view. -/
theorem Reader.exists_current (t : Token) (scope : Scope) :
    ∃ r : Reader, r.scope = scope ∧ r.current = t := by
  by_cases isEnd : t.kind = .eof
  · exact ⟨⟨[], t, isEnd, scope, []⟩, rfl, rfl⟩
  · exact ⟨⟨[t], .eof .start, rfl, scope, []⟩, rfl, rfl⟩

namespace Machine

/-! ## Runs that only read -/

/-- What a step of reading can do: nothing but find out what to read, or take the token in view. -/
theorem step_read_ok {u v : Machine} {phrase : Phrase} {more : List Goal}
    (stepped : u.step (.read phrase) = (.ok more, v)) :
    (phrase.predict u.scope u.current = .expand more ∧ v = u) ∨
      ∃ echo t stream, phrase.predict u.scope u.current = .shift echo more ∧
        v = (u.echo echo).pull t stream := by
  rw [step] at stepped
  cases predicted : phrase.predict u.scope u.current with
  | reject problem =>
    rw [predicted] at stepped
    cases stepped
  | expand goals =>
    rw [predicted] at stepped
    cases stepped
    exact .inl ⟨rfl, rfl⟩
  | shift echo goals =>
    rw [predicted, move_shift] at stepped
    obtain ⟨t, stream, -, advanced⟩ | ⟨d, stream, -, advanced⟩ := (u.echo echo).advance_cases
    · rw [advanced] at stepped
      cases stepped
      exact .inr ⟨echo, t, stream, rfl, rfl⟩
    · rw [advanced] at stepped
      cases stepped

/-- Working off the goals brings the first machine to the second one.  On the way it uses up the
    tokens `ts` and writes `fs`, and so does every reader with these tokens in front of what the
    machine then has in view. -/
structure Works (goals : List Goal) (u v : Machine) (ts : List Token) (fs : List Fragment) :
    Prop where
  pulled : ∀ earlier, u.pulled = earlier ++ [u.current, u.lookahead] →
    v.pulled = earlier ++ ts ++ [v.current, v.lookahead]
  noEnd : ∀ t ∈ ts, t.kind ≠ .eof
  output : v.output = u.output.extend [] fs
  reader : ∀ r : Reader, r.scope = u.scope → r.current = v.current →
    (r.before ts).current = u.current ∧ (r.before ts).run goals = (.ok (), r.write fs)

namespace Works

variable {goals more : List Goal} {u v : Machine} {ts : List Token} {fs : List Fragment}
  {phrase : Phrase}

theorem nil (u : Machine) : Works [] u u [] [] where
  pulled earlier split := by rw [split, List.append_nil]
  noEnd := by simp
  output := u.output.extend_nil.symm
  reader r _ view := ⟨view, by simp⟩

theorem expand (predicted : phrase.predict u.scope u.current = .expand more)
    (works : Works (more ++ goals) u v ts fs) : Works (.read phrase :: goals) u v ts fs where
  pulled := works.pulled
  noEnd := works.noEnd
  output := works.output
  reader r scope view := by
    obtain ⟨front, run⟩ := works.reader r scope view
    rw [← scope, ← front] at predicted
    exact ⟨front, (Reader.run_of_expand (r := r.before ts) predicted goals).trans run⟩

theorem shift {echo : Option Fragment} {t : Token} {stream : TokenStream}
    (predicted : phrase.predict u.scope u.current = .shift echo more)
    (works : Works (more ++ goals) ((u.echo echo).pull t stream) v ts fs) :
    Works (.read phrase :: goals) u v (u.current :: ts) (echo.toList ++ fs) where
  pulled earlier split := by
    have lookahead : (u.echo echo).lookahead = u.lookahead := by cases echo <;> rfl
    -- the token that was in view now counts as one of the earlier ones
    have after : v.pulled = earlier ++ [u.current] ++ ts ++ [v.current, v.lookahead] := by
      apply works.pulled
      rw [pulled_pull, pulled_echo, split]
      simp [pull, lookahead]
    simpa using after
  noEnd := by
    have progress := phrase.progress_predict u.scope u.current
    rw [predicted] at progress
    exact List.forall_mem_cons.mpr ⟨progress.1, works.noEnd⟩
  output := by
    have echoed : (u.echo echo).output = u.output.extend [] echo.toList := by
      cases echo <;> simp [Machine.echo, emit, Output.emit, Output.extend]
    have after : v.output = (u.echo echo).output.extend [] fs := works.output
    rw [after, echoed, Output.extend_extend, List.append_nil]
  reader r scope view := by
    have scopes : (u.echo echo).scope = u.scope := by cases echo <;> rfl
    obtain ⟨-, run⟩ := works.reader (r.write echo.toList) (scope.trans scopes.symm) view
    rw [← scope] at predicted
    refine ⟨rfl, ?_⟩
    rw [Reader.run_of_shift (r := r.before (u.current :: ts)) predicted]
    exact run.trans (by rw [Reader.write_write])

/-- A run that succeeds does this, if it only reads. -/
theorem of_run (only : ∀ goal ∈ goals, ∃ phrase : Phrase, goal = .read phrase ∧
    phrase.isArithmetic) (ran : u.run goals = (.ok (), v)) : ∃ ts fs, Works goals u v ts fs := by
  fun_induction Machine.run u goals with
  | case1 u =>
    cases ran
    exact ⟨[], [], .nil _⟩
  | case2 u goal goals more w stepped ih =>
    obtain ⟨⟨phrase, rfl, arithmetic⟩, others⟩ := List.forall_mem_cons.mp only
    -- what the phrase stands for only reads as well
    have parts := Phrase.isArithmetic_of_mem_predict arithmetic u.scope u.current
    obtain ⟨predicted, rfl⟩ | ⟨echo, t, stream, predicted, rfl⟩ := step_read_ok stepped
    · rw [predicted] at parts
      obtain ⟨ts, fs, works⟩ := ih (List.forall_mem_append.mpr ⟨parts, others⟩) ran
      exact ⟨ts, fs, works.expand predicted⟩
    · rw [predicted] at parts
      obtain ⟨ts, fs, works⟩ := ih (List.forall_mem_append.mpr ⟨parts, others⟩) ran
      exact ⟨_, _, works.shift predicted⟩
  | case3 u goal goals d w stepped => cases ran

end Works

/-- A machine that accepts an expression uses up the tokens of a tree, and writes its fragments. -/
theorem exists_expression {u v : Machine} (accepted : u.run [.read .expression] = (.ok (), v)) :
    ∃ (e : Expression) (ts : List Token), Works [.read .expression] u v ts e.fragments ∧
      ts.map Token.word = e.words ∧ Token.Known u.scope ts := by
  obtain ⟨ts, fs, works⟩ := Works.of_run (by simp [Phrase.isArithmetic]) accepted
  -- any reader will do that sees what the machine sees in the end
  obtain ⟨r, scope, view⟩ := Reader.exists_current v.current u.scope
  obtain ⟨-, run⟩ := works.reader r scope view
  obtain ⟨e, ts', rest, unread, spelled, known, stop⟩ | ⟨d, w, -, fails⟩ :=
    Reads.expression.total (r.before ts)
  · -- what the reader leaves is what there was behind the tokens, so it has used up all of these
    have reads := Reads.expression.reads (r := (r.before ts).skipTo rest) spelled known stop []
    rw [List.append_nil, ← Reader.eq_before_skipTo unread, run, Reader.run_nil] at reads
    have left := (Prod.mk.inj reads).2
    have behind : r.unread = rest := congrArg Reader.unread left
    have written : fs = e.fragments := List.append_cancel_left (congrArg Reader.code left)
    obtain rfl : ts = ts' := List.append_cancel_right (unread.trans (behind ▸ rfl))
    exact ⟨e, ts, written ▸ works, spelled, scope ▸ known⟩
  · rw [← List.append_nil [Goal.read .expression], fails []] at run
    cases run

/-! ## Going on after some of the goals -/

theorem run_append {u v : Machine} {goals : List Goal} (ran : u.run goals = (.ok (), v))
    (rest : List Goal) : u.run (goals ++ rest) = v.run rest := by
  fun_induction Machine.run u goals with
  | case1 u =>
    cases ran
    rfl
  | case2 u goal goals more w stepped ih =>
    rw [List.cons_append, run_cons_of_step_ok stepped, ← List.append_assoc]
    exact ih ran
  | case3 u goal goals d w stepped => cases ran

theorem Reaches.append {m u v : Machine} {goals rest : List Goal}
    (reaches : m.Reaches u (goals ++ rest)) (ran : u.run goals = (.ok (), v)) :
    m.Reaches v rest := by
  fun_induction Machine.run u goals with
  | case1 u =>
    cases ran
    exact reaches
  | case2 u goal goals more w stepped ih =>
    have after : m.Reaches w (more ++ (goals ++ rest)) := reaches.step stepped
    rw [← List.append_assoc] at after
    exact ih after ran
  | case3 u goal goals d w stepped => cases ran

/-! ## Tokens of a text -/

/-- All tokens that the machine has pulled or will pull say words that a text can hold, the end
    apart. -/
structure Lexed (m : Machine) : Prop where
  pulled : ∀ t ∈ m.pulled, t.kind = .eof ∨ t.word.Admissible
  pending : ∀ t, .ok t ∈ m.stream.pending → t.word.Admissible

namespace Lexed

theorem ofText (source : String) (base : Output) : (ofStream (.ofText source) base).Lexed where
  pulled t mem := by cases mem
  pending t mem := TokenStream.admissible_of_mem_scan mem

theorem advance {m : Machine} (lexed : m.Lexed) : m.advance.2.Lexed := by
  obtain ⟨t, stream, next, advanced⟩ | ⟨d, stream, next, advanced⟩ := m.advance_cases
  all_goals
    rw [advanced]
    rw [TokenStream.next] at next
    split at next
  · cases next
    refine ⟨?_, lexed.pending⟩
    rw [pulled_pull]
    exact List.forall_mem_append.mpr ⟨lexed.pulled, by simp [Token.eof]⟩
  · next pending =>
    cases next
    have others := lexed.pending
    rw [pending] at others
    refine ⟨?_, fun t mem => others t (List.mem_cons_of_mem _ mem)⟩
    rw [pulled_pull]
    exact List.forall_mem_append.mpr ⟨lexed.pulled, by simpa using .inr (others _ (by simp))⟩
  · cases next
  · next pending =>
    cases next
    have others := lexed.pending
    rw [pending] at others
    exact ⟨lexed.pulled, fun t mem => others t (List.mem_cons_of_mem _ mem)⟩

theorem perform {m : Machine} (lexed : m.Lexed) (action : Action) :
    (m.perform action).2.Lexed := by
  refine ⟨?_, ?_⟩
  · rw [pulled_perform]
    exact lexed.pulled
  · rw [stream_perform]
    exact lexed.pending

theorem of_start {source : String} {base : Output} {m : Machine}
    (started : start (.ofText source) base = (.ok (), m)) : m.Lexed := by
  rw [eq_of_start started]
  exact (Lexed.ofText source base).advance.advance

end Lexed

/-! ## Expressions -/

/-- Whatever programs a machine has been asked for, and wherever it has failed before: if it comes
    to an expression in a text and accepts it, the tokens that it uses up are those of one tree and
    no other, no variable in it has a name of C, and C reads the code that is written for it as
    what this tree says. -/
theorem expression_keeps_structure {source : String} {base : Output} {m u v : Machine}
    {goals : List Goal} (started : start (.ofText source) base = (.ok (), m))
    (reaches : m.Reaches u (.read .expression :: goals))
    (accepted : u.run [.read .expression] = (.ok (), v)) :
    m.Reaches v goals ∧ u.run (.read .expression :: goals) = v.run goals ∧
      ∃ (earlier used : List Token) (code : String) (e : Expression),
        u.pulled = earlier ++ [u.current, u.lookahead] ∧
        v.pulled = earlier ++ used ++ [v.current, v.lookahead] ∧
        v.output.header = u.output.header ∧ v.output.body = u.output.body ++ code ∧
        (∀ e' : Expression, used.map Token.word = e'.words ↔ e' = e) ∧
        (∀ t ∈ used, t.kind = .ident → isReserved t.text = false) ∧
        CReading.read code = some e.formula := by
  have pending : m.Reaches u ([.read .expression] ++ goals) := reaches
  have after := pending.append accepted
  refine ⟨after, run_append accepted goals, ?_⟩
  have lexed : ∀ {w goals}, m.Reaches w goals → w.Lexed := fun reached =>
    reached.preserves (fun _ _ lexed => ⟨lexed.1, lexed.2⟩) (fun _ lexed => lexed.advance)
      (fun _ action lexed => lexed.perform action) (Lexed.of_start started)
  have looking : u.Looking :=
    reaches.preserves (fun _ _ looking => looking) (fun _ looking => looking.advance)
      (fun _ action looking => looking.perform action) (looking_start started)
  obtain ⟨earlier, split⟩ := looking
  obtain ⟨e, used, works, spelled, known⟩ := exists_expression accepted
  have pulled := works.pulled earlier split.symm
  -- the tokens come from the text, and the end is not among them
  have admissible : ∀ w ∈ e.words, w.Admissible := by
    rw [← spelled]
    intro w mem
    obtain ⟨t, isUsed, rfl⟩ := List.mem_map.mp mem
    refine ((lexed after).pulled t ?_).resolve_left (works.noEnd t isUsed)
    rw [pulled]
    exact List.mem_append_left _ (List.mem_append_right _ isUsed)
  -- names are checked when they are given, and only names that were given are accepted here
  obtain ⟨scope, output⟩ := scope_output_of_start started
  obtain ⟨-, ds, fs, -, accounts⟩ := reaches.accounts scope output
  refine ⟨earlier, used, e.code, e, split.symm, pulled, ?_, ?_, fun e' => ⟨fun spelled' => ?_, ?_⟩,
    fun t mem isName => accounts.free t.text (.inl (known t mem isName)),
    CReading.read_expression admissible⟩
  · rw [works.output, Output.header_extend_nil]
  · rw [works.output, Output.body_extend, e.join_fragments]
  · have same : e'.words ++ [] = e.words ++ [] := by rw [← spelled', spelled]
    exact (Unambiguous.expression.unique same (by simp [Word.Stops]) (by simp [Word.Stops])).1
  · rintro rfl
    exact spelled

theorem expression_keeps_structure_of_signs :
    let m := (start (.ofText "LET a = 007 - -a / 2 * 3.50\n") .empty).2
    ∃ u v goals, m.Reaches u (.read .expression :: goals) ∧
      u.run [.read .expression] = (.ok (), v) ∧
      v.output.body = u.output.body ++ "7.0 - -a / 2.0 * 3.50" ∧
      ∃ e : Expression, e.words.map Word.text = ["007", "-", "-", "a", "/", "2", "*", "3.50"] ∧
        CReading.read "7.0 - -a / 2.0 * 3.50" = some e.formula := by
  intro m
  have started : start (.ofText "LET a = 007 - -a / 2 * 3.50\n") .empty = (.ok (), m) :=
    Prod.ext (by decide +kernel) rfl
  have next : ∀ {u : Machine} {goal : Goal} {goals : List Goal} (more : List Goal),
      m.Reaches u (goal :: goals) → (u.step goal).1 = .ok more →
      m.Reaches (u.step goal).2 (more ++ goals) := fun _ busy ok => busy.step (Prod.ext ok rfl)
  have skip : ∀ {u : Machine} {rest : List Goal} (goals : List Goal),
      m.Reaches u (goals ++ rest) → (u.run goals).1 = .ok () → m.Reaches (u.run goals).2 rest :=
    fun _ busy ok => busy.append (Prod.ext ok rfl)
  have atStatement := skip [.act .openProgram, .read .blankLines] Reaches.start.call
    (by decide +kernel)
  have atName := next [.read .assignment, .read .lineEnd, .read .statements] atStatement
    (by decide +kernel)
  have atDeclaration := next [.act (.declare "a"), .act (.emit (.openAssign "a")), .read .becomes,
    .read .expression, .act (.emit .closeAssign)] atName (by decide +kernel)
  have atExpression := skip [.act (.declare "a"), .act (.emit (.openAssign "a")), .read .becomes]
    atDeclaration (by decide +kernel)
  generalize isState : (Machine.run _ _).2 = u at atExpression
  -- everything that has to be computed
  obtain ⟨ok, written, before, texts⟩ : (u.run [.read .expression]).1 = .ok () ∧
      (u.run [.read .expression]).2.output.body = u.output.body ++ "7.0 - -a / 2.0 * 3.50" ∧
      u.pulled.map Token.text = ["LET", "a", "="] ++ [u.current, u.lookahead].map Token.text ∧
      (u.run [.read .expression]).2.pulled.map Token.text =
        ["LET", "a", "="] ++ (["007", "-", "-", "a", "/", "2", "*", "3.50"] ++
          [(u.run [.read .expression]).2.current, (u.run [.read .expression]).2.lookahead].map
            Token.text) := by
    subst isState
    decide +kernel
  have accepted : u.run [.read .expression] = (.ok (), (u.run [.read .expression]).2) :=
    Prod.ext ok rfl
  obtain ⟨-, -, earlier, used, code, e, pulled, pulled', -, body, spelled, -, reads⟩ :=
    expression_keeps_structure started atExpression accepted
  rw [pulled, List.map_append] at before
  rw [pulled', List.map_append, List.map_append, List.append_cancel_right before,
    List.append_assoc] at texts
  have words : used.map Token.text = e.words.map Word.text := by
    rw [← (spelled e).mpr rfl, List.map_map]
    rfl
  refine ⟨u, _, _, atExpression, accepted, written, e, ?_, ?_⟩
  · rw [← words]
    exact List.append_cancel_right (List.append_cancel_left texts)
  · rw [← (String.append_right_inj _).mp (body.symm.trans written)]
    exact reads

end Machine

end BasicToC
