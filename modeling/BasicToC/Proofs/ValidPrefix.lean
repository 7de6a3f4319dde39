import BasicToC.Proofs.Completion
import BasicToC.Proofs.Translation

/-! # Errors come at the first wrong token

A program that fails is blamed on one token.  The tokens in front of it are fine: they can be
continued to a program that compiles, and what had been written when the error came up is the
beginning of what that program gives.  With the token itself there is no way to go on.
-/

namespace BasicToC

/-- The reader `r`, with these goals, stops in the state `u`, and the token `t` is to blame; `seen`
    are the tokens in front of it. -/
structure Blame (r : Reader) (goals : List Goal) (u : Reader) (seen : List Token) (t : Token) :
    Prop where
  /-- The token comes into view after the others. -/
  inView : ∃ rest, r.unread = seen ++ rest ∧ (r.skipTo rest).current = t
  /-- Other tokens in its place lead to the end. -/
  viable : ∃ more, (seen = [] → more.head?.map Token.kind = some (Goal.opening goals)) ∧
    (∀ t ∈ more, t.kind ≠ .eof) ∧ Finishes goals r (seen ++ more) u
  /-- Nothing after the token does. -/
  hopeless : ∀ (other : Reader) (rest : List Token), other.scope = r.scope →
    other.unread = seen ++ rest → (other.skipTo rest).current = t → (other.run goals).1 ≠ .ok ()

namespace Blame

/-- The token in view is to blame if it fails and the goals can be completed. -/
theorem of_fails {r u : Reader} {goals : List Goal} (guarded : Guarded goals)
    (free : r.scope.Free) (code : u.code = r.code) (scope : u.scope = r.scope)
    (fails : ∀ other : Reader, other.scope = r.scope → other.current = r.current →
      (other.run goals).1 ≠ .ok ()) : Blame r goals u [] r.current where
  inView := ⟨r.unread, rfl, rfl⟩
  viable := by
    obtain ⟨ts, opens, noEnd, finishes⟩ := guarded.completes r free
    refine ⟨ts, fun _ => opens, noEnd, fun e empty sameScope sameCode => ?_⟩
    obtain ⟨w, ran, more⟩ := finishes e empty sameScope sameCode
    exact ⟨w, ran, ⟨code ▸ more.code, scope ▸ more.assigned⟩⟩
  hopeless other rest sameScope unread sameToken := by
    refine fails other sameScope ?_
    rw [← sameToken]
    simp [Reader.current, Reader.skipTo, unread]

/-- Blame passes back over what a reader does first: it uses up some tokens, writes something and
    has other goals then.  If it uses up no token, what it does must not hang on the token that is
    to blame. -/
theorem of_run {r u : Reader} {goals more : List Goal} (used rest : List Token)
    {seen : List Token} {scope : Scope} {fs : List Fragment} {t : Token}
    (blame : Blame (((r.skipTo rest).withScope scope).write fs) more u seen t)
    (unread : r.unread = used ++ rest)
    (opening : used = [] → Goal.opening more = Goal.opening goals)
    (run : ∀ e : Reader, e.scope = r.scope →
      (used = [] → e.current = r.current ∨ e.current.kind = Goal.opening goals) →
      (e.before used).run goals = ((e.withScope scope).write fs).run more) :
    Blame r goals u (used ++ seen) t := by
  obtain ⟨⟨after, split, inView⟩, ⟨completion, opens, noEnd, finishes⟩, hopeless⟩ := blame
  have splitRest : rest = seen ++ after := split
  have current : ∀ {e : Reader} {s : Token} {ts : List Token}, e.unread = s :: ts →
      e.current = s := by
    intro e s ts unread
    simp [Reader.current, unread]
  refine ⟨⟨after, by rw [unread, splitRest, List.append_assoc], inView⟩, ?_, ?_⟩
  · refine ⟨completion, fun nothing => ?_, noEnd, fun e empty sameScope sameCode => ?_⟩
    · obtain ⟨noUsed, noSeen⟩ := List.append_eq_nil_iff.mp nothing
      rw [← opening noUsed]
      exact opens noSeen
    · obtain ⟨w, ran, extended⟩ := finishes ((e.withScope scope).write fs) empty rfl
        (congrArg (· ++ fs) sameCode)
      refine ⟨w, ?_, extended⟩
      rw [List.append_assoc, Reader.before_append, run (e.before (seen ++ completion)) sameScope]
      · exact ran
      · -- in front of the goals comes the completion, or what the reader had seen as well
        intro noUsed
        cases seen with
        | nil =>
          obtain ⟨first, others, rfl⟩ : ∃ first others, completion = first :: others :=
            List.exists_cons_of_ne_nil fun none => by simpa [none] using opens rfl
          rw [← opening noUsed]
          exact Or.inr (Option.some.inj (opens rfl))
        | cons s seen =>
          rw [noUsed, splitRest] at unread
          exact Or.inl (current unread).symm
  · intro other rest' sameScope unread' sameToken
    rw [List.append_assoc] at unread'
    rw [Reader.eq_before_skipTo unread', run (other.skipTo (seen ++ rest')) sameScope]
    · exact hopeless _ rest' rfl rfl sameToken
    · -- with nothing used up, the other reader sees what this one does
      intro noUsed
      rw [noUsed, splitRest] at unread
      left
      cases seen with
      | nil =>
        have same : r.skipTo after = r := by
          cases r
          simp_all [Reader.skipTo]
        have inViewHere : (r.skipTo after).current = t := inView
        exact sameToken.trans (inViewHere.symm.trans (congrArg Reader.current same))
      | cons s seen => exact (current unread).symm

/-- An expansion does not hang on the token to blame. -/
theorem of_expand {r u : Reader} {phrase : Phrase} {goals more : List Goal} {seen : List Token}
    {t : Token} (guarded : Guarded (.read phrase :: goals)) (inner : phrase ≠ .statements)
    (predicted : phrase.predict r.scope r.current = .expand more)
    (blame : Blame r (more ++ goals) u seen t) : Blame r (.read phrase :: goals) u seen t := by
  obtain ⟨expansion, -⟩ := (Phrase.predict_eq_expand_iff inner _ _ _).mp predicted
  have same : r = ((r.skipTo r.unread).withScope r.scope).write [] := by simp [Reader.skipTo]
  rw [same] at blame
  refine blame.of_run [] r.unread rfl (fun _ => (guarded.of_expansion expansion).2)
    fun e sameScope alike => ?_
  -- the token in view is the same, or the one that a completion begins with
  have predictedHere : phrase.predict e.scope e.current = .expand more := by
    rw [sameScope]
    rcases alike rfl with sameToken | first
    · rw [sameToken, predicted]
    · rw [Phrase.predict_eq_expand_iff inner, first]
      exact ⟨expansion, guarded.takes_opening⟩
  rw [Reader.before_nil, Reader.run_of_expand predictedHere, ← sameScope]
  simp

theorem of_shift {r u : Reader} {phrase : Phrase} {goals more : List Goal}
    {echo : Option Fragment} {seen : List Token} {t : Token} (notEnd : r.current.kind ≠ .eof)
    (predicted : phrase.predict r.scope r.current = .shift echo more)
    (blame : Blame (r.write echo.toList).advance (more ++ goals) u seen t) :
    Blame r (.read phrase :: goals) u (r.current :: seen) t := by
  have same : (r.write echo.toList).advance =
      ((r.skipTo r.unread.tail).withScope r.scope).write echo.toList := rfl
  rw [same] at blame
  refine blame.of_run [r.current] r.unread.tail (Reader.unread_eq_cons notEnd) nofun
    fun e sameScope _ => ?_
  have predictedHere : phrase.predict e.scope r.current = .shift echo more := by
    rw [sameScope, predicted]
  rw [Reader.run_of_shift (r := e.before [r.current]) predictedHere, ← sameScope]
  rfl

end Blame

/-! ## Finding the token -/

/-- There is a token to blame, and it stands where the diagnostic says. -/
def Blamed (r : Reader) (goals : List Goal) (d : Diagnostic) (u : Reader) : Prop :=
  ∃ seen t, d.line = some t.position.line ∧ d.column = t.position.column ∧ Blame r goals u seen t

/-- A reader at the name of a label takes it, and then sees whether it is new. -/
theorem Reader.run_labelName {r : Reader} {more : List Goal} {echo : Option Fragment}
    (predicted : Phrase.labelName.predict r.scope r.current = .shift echo more)
    (goals : List Goal) :
    r.run (.read .labelName :: goals) =
      r.advance.run (.act (.setLabel r.current.text r.current.position) :: goals) := by
  have named := predicted
  rw [Phrase.predict] at named
  obtain ⟨-, rfl, rfl⟩ := Token.asName_eq_shift named
  rw [Reader.run_of_shift predicted]
  simp

/-- The name of a label that is already there is to blame, although it has been taken by the time
    that shows. -/
theorem Blamed.of_old_label {r u : Reader} {goals more : List Goal} {echo : Option Fragment}
    {d : Diagnostic} (guarded : Guarded (.read .labelName :: goals)) (free : r.scope.Free)
    (predicted : Phrase.labelName.predict r.scope r.current = .shift echo more)
    (old : r.current.text ∈ r.scope.labels)
    (failed : r.run (.read .labelName :: goals) = (.error d, u)) :
    Blamed r (.read .labelName :: goals) d u := by
  rw [Reader.run_labelName predicted, Reader.run_setLabel_of_old (r := r.advance) old] at failed
  obtain ⟨⟨rfl⟩, rfl⟩ := Prod.mk.inj failed
  refine ⟨[], r.current, rfl, rfl, .of_fails guarded free rfl rfl ?_⟩
  intro other sameScope sameToken
  rw [← sameScope, ← sameToken] at predicted old
  rw [Reader.run_labelName predicted, Reader.run_setLabel_of_old (r := other.advance) old]
  nofun

/-- A new label is set in one go with taking its name. -/
theorem Blame.of_new_label {r u : Reader} {goals more : List Goal} {echo : Option Fragment}
    {seen : List Token} {t : Token} (notEnd : r.current.kind ≠ .eof)
    (predicted : Phrase.labelName.predict r.scope r.current = .shift echo more)
    (new : r.current.text ∉ r.scope.labels)
    (blame : Blame (((r.skipTo r.unread.tail).withScope
      (r.scope.addLabel r.current.text)).write [.label r.current.text]) goals u seen t) :
    Blame r (.read .labelName :: goals) u (r.current :: seen) t := by
  refine blame.of_run [r.current] r.unread.tail (Reader.unread_eq_cons notEnd) nofun
    fun e sameScope _ => ?_
  rw [← sameScope] at predicted new
  rw [Reader.run_labelName (r := e.before [r.current]) predicted, ← sameScope]
  exact Reader.run_setLabel_of_new (r := e) new _ _

/-- Whatever stops in `u` with less than `n` left to do has a token to blame. -/
def BlamedBelow (n : Nat) (d : Diagnostic) (u : Reader) : Prop :=
  ∀ (goals : List Goal) (r : Reader), r.workload goals < n → Guarded goals → r.scope.Free →
    r.run goals = (.error d, u) → Blamed r goals d u

namespace Guarded

variable {r u : Reader} {others : List Goal} {d : Diagnostic}

/-- A label and its name are one step: between the two the goals are not guarded. -/
theorem blamed_label (guarded : Guarded (.read .labelName :: others)) (free : r.scope.Free)
    (failed : r.run (.read .labelName :: others) = (.error d, u)) {echo : Option Fragment}
    {more : List Goal}
    (predicted : Phrase.labelName.predict r.scope r.current = .shift echo more)
    (below : BlamedBelow (r.workload (.read .labelName :: others)) d u) :
    Blamed r (.read .labelName :: others) d u := by
  by_cases old : r.current.text ∈ r.scope.labels
  · exact .of_old_label guarded free predicted old failed
  · have notEnd : r.current.kind ≠ .eof := by
      have progress := Phrase.labelName.progress_predict r.scope r.current
      rw [predicted] at progress
      exact progress.1
    have rest : Guarded others := by
      cases guarded with
      | read _ _ rest => exact rest
    let labelled := ((r.skipTo r.unread.tail).withScope
      (r.scope.addLabel r.current.text)).write [.label r.current.text]
    have freeAfter : labelled.scope.Free := free
    have smaller : labelled.workload others < r.workload (.read .labelName :: others) := by
      have unread := congrArg List.length (Reader.unread_eq_cons notEnd)
      simp only [Reader.workload, labelled, Reader.skipTo, Reader.write, Reader.withScope,
        Goal.totalWeight_cons, Goal.weight, Phrase.weight, Goal.tokenWeight,
        List.length_cons] at unread ⊢
      omega
    rw [Reader.run_labelName predicted, Reader.run_setLabel_of_new (r := r.advance) old] at failed
    obtain ⟨seen, t, line, column, blame⟩ := below _ _ smaller rest freeAfter failed
    exact ⟨_, t, line, column, blame.of_new_label notEnd predicted old⟩

/-- A phrase rejects the token in view, or passes the blame on.  The statements of the program
    itself are left out where they are over. -/
theorem blamed_read {phrase : Phrase} (guarded : Guarded (.read phrase :: others))
    (free : r.scope.Free) (failed : r.run (.read phrase :: others) = (.error d, u))
    (notOver : phrase = .statements → r.current.kind ≠ .eof)
    (below : BlamedBelow (r.workload (.read phrase :: others)) d u) :
    Blamed r (.read phrase :: others) d u := by
  cases predicted : phrase.predict r.scope r.current with
  | reject problem =>
    rw [Reader.run_of_reject predicted] at failed
    obtain ⟨⟨rfl⟩, rfl⟩ := Prod.mk.inj failed
    refine ⟨[], r.current, rfl, rfl, .of_fails guarded free rfl rfl ?_⟩
    intro other sameScope sameToken
    rw [← sameScope, ← sameToken] at predicted
    rw [Reader.run_of_reject predicted]
    nofun
  | expand more =>
    have inner : phrase ≠ .statements := by
      rintro rfl
      have expanded := predicted
      rw [Phrase.predict, if_neg (notOver rfl)] at expanded
      exact Token.beginStatement_ne_expand _ _ _ expanded
    obtain ⟨expansion, -⟩ := (Phrase.predict_eq_expand_iff inner _ _ _).mp predicted
    have stepped : r.step (.read phrase) = (.ok more, r) := by
      simp [Reader.step, Reader.move, predicted]
    have smaller := Reader.workload_step_lt stepped others
    rw [Reader.run_of_expand predicted] at failed
    obtain ⟨seen, t, line, column, blame⟩ :=
      below _ _ smaller (guarded.of_expansion expansion).1 free failed
    exact ⟨seen, t, line, column, blame.of_expand guarded inner predicted⟩
  | shift echo more =>
    have progress := phrase.progress_predict r.scope r.current
    rw [predicted] at progress
    have stepped : r.step (.read phrase) = (.ok more, (r.write echo.toList).advance) := by
      simp [Reader.step, Reader.move, predicted]
    have smaller := Reader.workload_step_lt stepped others
    by_cases isLabel : phrase = .labelName
    · subst isLabel
      exact guarded.blamed_label free failed predicted below
    · have freeAfter : (r.write echo.toList).advance.scope.Free := free
      rw [Reader.run_of_shift predicted] at failed
      obtain ⟨seen, t, line, column, blame⟩ :=
        below _ _ smaller (guarded.of_shift isLabel predicted) freeAfter failed
      exact ⟨_, t, line, column, blame.of_shift progress.1 predicted⟩

/-- A failure that is not for want of a label has a token to blame. -/
theorem blamed {goals : List Goal} (guarded : Guarded goals) (free : r.scope.Free)
    (failed : r.run goals = (.error d, u)) (code : d.code ≠ .undefinedLabel) :
    Blamed r goals d u := by
  induction left : r.workload goals using Nat.strongRecOn generalizing r goals with
  | ind n ih =>
    subst left
    have below : BlamedBelow (r.workload goals) d u :=
      fun _ _ smaller guarded free failed => ih _ smaller guarded free failed rfl
    cases guarded with
    | program =>
      by_cases isEnd : r.current.kind = .eof
      · -- after the end only a jump without a label can fail
        have predicted : Phrase.statements.predict r.scope r.current = .expand [] := by
          simp [Phrase.predict, isEnd]
        rw [Reader.run_of_expand predicted, List.nil_append, Reader.run_emit,
          Reader.run_checkJumps] at failed
        exact absurd (Scope.code_of_verdict_eq_error (Prod.mk.inj failed).1) code
      · exact Guarded.program.blamed_read free failed (fun _ => isEnd) below
    | read inner stop rest =>
      exact (Guarded.read inner stop rest).blamed_read free failed (absurd · inner) below
    | @act action others safe rest =>
      obtain ⟨f, fs, run, keeps⟩ := safe.effect
      rw [run] at failed
      have smaller : ((r.withScope (f r.scope)).write fs).workload others <
          r.workload (.act action :: others) := by
        simp [Reader.workload, Reader.write, Reader.withScope, Goal.weight]
      obtain ⟨seen, t, line, column, blame⟩ :=
        below _ _ smaller rest ((keeps r.scope).2 free) failed
      refine ⟨seen, t, line, column, ?_⟩
      have same : r.skipTo r.unread = r := rfl
      rw [← same] at blame
      refine blame.of_run [] r.unread rfl (fun _ => rfl) fun e sameScope _ => ?_
      rw [Reader.before_nil, run, sameScope]
      rfl

end Guarded

/-! ## Ready-made tokens -/

namespace Token

theorem firstEnd_append {ts : List Token} (noEnd : ∀ t ∈ ts, t.kind ≠ .eof) (us : List Token) :
    firstEnd (ts ++ us) = firstEnd us := by
  have notFound : ts.find? (·.kind == .eof) = none := by
    simpa [List.find?_eq_none] using noEnd
  simp [firstEnd, List.find?_append, notFound]

end Token

theorem Reader.current_ofTokens {seen : List Token} (noEnd : ∀ t ∈ seen, t.kind ≠ .eof)
    (t : Token) (more : List Token) :
    (Reader.ofTokens (seen ++ t :: more)).unread = seen ++ Token.beforeEnd (t :: more) ∧
      ((Reader.ofTokens (seen ++ t :: more)).skipTo
        (Token.beforeEnd (t :: more))).current = t := by
  refine ⟨Token.beforeEnd_append noEnd _, ?_⟩
  by_cases isEnd : t.kind = .eof
  · have ending : (Reader.ofTokens (seen ++ t :: more)).ending = t := by
      refine (Token.firstEnd_append noEnd _).trans ?_
      simp [Token.firstEnd, isEnd]
    simp [Reader.current, Reader.skipTo, Token.beforeEnd, isEnd, ending]
  · simp [Reader.current, Reader.skipTo, Token.beforeEnd, isEnd]

theorem Reader.ofTokens_of_noEnd {ts : List Token} (noEnd : ∀ t ∈ ts, t.kind ≠ .eof) :
    Reader.ofTokens ts = (Reader.ofTokens []).before ts := by
  have whole := Token.beforeEnd_append noEnd []
  have ending := Token.firstEnd_append noEnd []
  rw [List.append_nil] at whole ending
  simp [Reader.ofTokens, Reader.start, Reader.before, whole, ending]

/-- Tokens, and the end after them, which stands nowhere. -/
def Token.withEnd (ts : List Token) : List Token :=
  ts ++ [.eof ⟨0, 0⟩]

/-- Both texts of `o` begin with those of `p`. -/
def Output.Extends (o p : Output) : Prop :=
  (∃ more, o.header = p.header ++ more) ∧ ∃ more, o.body = p.body ++ more

theorem Reader.Extends.written {w u : Reader} (extended : w.Extends u) (base : Output) :
    (w.written base).Extends (u.written base) := by
  obtain ⟨⟨fs, code⟩, ⟨names, assigned⟩⟩ := extended
  constructor
  · rw [Reader.header_written, Reader.header_written, ← assigned, List.map_append,
      String.join_append, ← String.append_assoc]
    exact ⟨_, rfl⟩
  · rw [Reader.body_written, Reader.body_written, ← code, Fragment.join_append,
      ← String.append_assoc]
    exact ⟨_, rfl⟩

/-- Where the compilation of ready-made tokens fails.  The error is reported at one of them, or at
    the end after them, the one with index `i`.  Those in front of it can be continued to a program
    that compiles, and what that program gives extends what had been written.  Nothing that begins
    with those tokens and the one at `i` compiles. -/
theorem Machine.compile_error_at_first_wrong_token {ts : List Token} {d : Diagnostic}
    (failed : (compile (.ofTokens ts) .empty).1 = .error d) (code : d.code ≠ .undefinedLabel) :
    ∃ i t, (Token.withEnd ts)[i]? = some t ∧
      d.line = some t.position.line ∧ d.column = t.position.column ∧
      (∃ more, (compile (.ofTokens (ts.take i ++ more)) .empty).1 = .ok () ∧
        (compile (.ofTokens (ts.take i ++ more)) .empty).2.output.Extends
          (compile (.ofTokens ts) .empty).2.output) ∧
      ∀ more,
        (compile (.ofTokens ((Token.withEnd ts).take (i + 1) ++ more)) .empty).1 ≠ .ok () := by
  obtain ⟨result, shows⟩ := compile_ofTokens ts .empty
  rw [failed] at result
  obtain ⟨seen, t, line, column, ⟨rest, split, inView⟩, ⟨more, -, noEnd, finishes⟩, hopeless⟩ :=
    Guarded.body.blamed (r := Reader.ofTokens ts) nofun (Prod.ext result.symm rfl) code
  -- from the reader of the tokens back to the tokens themselves
  have splitEnd : Token.beforeEnd ts = seen ++ rest := split
  have seenNoEnd : ∀ s ∈ seen, s.kind ≠ .eof := by
    intro s mem
    exact Token.kind_ne_eof_of_mem_beforeEnd (splitEnd ▸ List.mem_append_left rest mem)
  obtain ⟨after, whole⟩ : seen ++ [t] <+: Token.withEnd ts := by
    refine List.IsPrefix.trans ?_ (Token.beforeEnd_append_firstEnd ts)
    rw [splitEnd, List.append_assoc, List.prefix_append_right_inj, ← inView]
    cases rest <;> simp [Reader.current, Reader.skipTo, Reader.ofTokens, Reader.start]
  have before : ts.take seen.length = seen := by
    have isPrefix : seen <+: ts :=
      (splitEnd ▸ List.prefix_append seen rest).trans (List.takeWhile_prefix _)
    exact (List.prefix_iff_eq_take.mp isPrefix).symm
  have upTo : (Token.withEnd ts).take (seen.length + 1) = seen ++ [t] := by
    rw [← whole]
    exact List.take_left' (by simp)
  refine ⟨seen.length, t, ?_, line, column, ⟨more, ?_⟩, fun others => ?_⟩
  · simp [← whole]
  · have allNoEnd : ∀ s ∈ seen ++ more, s.kind ≠ .eof := by
      simpa [or_imp, forall_and] using ⟨seenNoEnd, noEnd⟩
    obtain ⟨w, ran, extended⟩ := finishes (Reader.ofTokens []) rfl rfl rfl
    obtain ⟨result', shows'⟩ := compile_ofTokens (seen ++ more) .empty
    rw [Reader.ofTokens_of_noEnd allNoEnd, ran] at result' shows'
    rw [before, shows'.output, shows.output]
    exact ⟨result', extended.written _⟩
  · obtain ⟨unread, current⟩ := Reader.current_ofTokens seenNoEnd t others
    rw [upTo, List.append_assoc, (compile_ofTokens _ _).1]
    exact hopeless _ _ rfl unread current

/-- A label that is placed twice, while a jump still waits for another one. -/
theorem Machine.compile_error_at_repeated_label :
    let ts : List Token :=
      [Keyword.goto.word.token, (Word.name "b").token, Word.newline.token,
        Keyword.label.word.token, (Word.name "a").token, Word.newline.token,
        Keyword.label.word.token, ⟨.ident, "a", ⟨3, ⟨6, 7⟩⟩⟩, Word.newline.token]
    let d := (Problem.repeatedLabel "a").located ⟨3, ⟨6, 7⟩⟩
    ((compile (.ofTokens ts) .empty).1 = .error d ∧ d.code ≠ .undefinedLabel) ∧
      ∃ i t, (Token.withEnd ts)[i]? = some t ∧
        d.line = some t.position.line ∧ d.column = t.position.column ∧
        (∃ more, (compile (.ofTokens (ts.take i ++ more)) .empty).1 = .ok () ∧
          (compile (.ofTokens (ts.take i ++ more)) .empty).2.output.Extends
            (compile (.ofTokens ts) .empty).2.output) ∧
        ∀ more,
          (compile (.ofTokens ((Token.withEnd ts).take (i + 1) ++ more)) .empty).1 ≠ .ok () :=
  ⟨⟨by decide +kernel, by decide⟩,
    compile_error_at_first_wrong_token (by decide +kernel) (by decide)⟩

end BasicToC
