import Mathlib.Data.Fintype.EquivFin
import BasicToC.Proofs.Acceptance

/-! # Every state can be completed

Whatever a reader is waiting for, there are tokens that would bring it to the end of a program.
Goals that can arise in the middle of a program are `Guarded`: no phrase among them is followed by
something that it would take for its own.  `Guarded.completes` gives the tokens.

How the tokens begin is known from the goals alone: `Goal.opening` is the kind of the first one.
A phrase that is completed with nothing leaves it to the goals after it.
-/

namespace BasicToC

/-! ## Guarded goals -/

/-- The kind of the token with which a phrase is completed, if it is not completed with nothing. -/
def Phrase.opening? : Phrase → Option Kind
  | .keyword k | .block k => some (.keyword k)
  | .becomes => some .becomes
  | .lineEnd => some .newline
  | .statements => some (.keyword .label)
  | .assignment | .inputName | .labelName | .jumpName => some .ident
  | .comparison => some (.comparison .equal)
  | .printed | .condition | .expression | .term | .factor | .operand => some .number
  | .blankLines | .moreComparisons | .moreTerms | .moreFactors => none

/-- The kind of the first token with which goals are completed. -/
def Goal.opening : List Goal → Kind
  | [] => .eof
  | .act _ :: goals => opening goals
  | .read phrase :: goals => phrase.opening?.getD (opening goals)

/-- Whether a phrase that could stop goes on with a token of this kind. -/
def Phrase.absorbs : Phrase → Kind → Bool
  | .blankLines | .lineEnd => (· == .newline)
  | .condition | .comparison | .moreComparisons => Kind.extendsCondition
  | .printed | .assignment | .expression | .moreTerms => Kind.extendsExpression
  | .term | .moreFactors => Kind.extendsTerm
  | _ => fun _ => false

/-- The actions that always succeed.  A jump must go to a name that a label can have. -/
inductive Action.Safe : Action → Prop
  | emit (f : Fragment) : Safe (.emit f)
  | declare (name : String) : Safe (.declare name)
  | jump {target : Jump} (free : isReserved target.name = false) : Safe (.jump target)

/-- The goals of a reader in the middle of a program. -/
inductive Guarded : List Goal → Prop
  | program : Guarded [.read .statements, .act (.emit .closeMain), .act .checkJumps]
  | act {action : Action} {goals : List Goal} (safe : action.Safe) (rest : Guarded goals) :
      Guarded (.act action :: goals)
  | read {phrase : Phrase} {goals : List Goal} (inner : phrase ≠ .statements)
      (stop : ¬ phrase.absorbs (Goal.opening goals)) (rest : Guarded goals) :
      Guarded (.read phrase :: goals)

theorem Guarded.body : Guarded Goal.body :=
  .read nofun (by decide) .program

/-! ### Moves keep goals guarded -/

theorem Token.asName_ne_expand (t : Token) (goals : String → List Goal) (more : List Goal) :
    t.asName goals ≠ .expand more := by
  unfold Token.asName
  repeat' split
  all_goals nofun

theorem Token.beginStatement_ne_expand (t : Token) (next : Phrase) (more : List Goal) :
    t.beginStatement next ≠ .expand more := by
  unfold Token.beginStatement
  split <;> nofun

/-- What a phrase stands for that can do without a token. -/
def Phrase.expansion? : Phrase → Option (List Goal)
  | .blankLines | .moreComparisons | .moreTerms | .moreFactors => some []
  | .printed => some [.act (.emit .openPrint), .read .expression, .act (.emit .closePrint)]
  | .condition => some [.read .expression, .read .comparison]
  | .expression => some [.read .term, .read .moreTerms]
  | .term => some [.read .factor, .read .moreFactors]
  | .factor => some [.read .operand]
  | _ => none

/-- Whether a phrase that can do without a token takes one of this kind all the same. -/
def Phrase.takes : Phrase → Kind → Bool
  | .blankLines, .newline | .printed, .string | .moreComparisons, .comparison _
  | .moreTerms, .additive _ | .moreFactors, .multiplicative _ | .factor, .additive _ => true
  | _, _ => false

/-- A phrase expands in one way only, and whether it does depends on the kind in view. -/
theorem Phrase.predict_eq_expand_iff {phrase : Phrase} (inner : phrase ≠ .statements)
    (scope : Scope) (t : Token) (more : List Goal) :
    phrase.predict scope t = .expand more ↔
      phrase.expansion? = some more ∧ phrase.takes t.kind = false := by
  cases phrase with
  | statements => exact absurd rfl inner
  | assignment | inputName | labelName | jumpName =>
    rw [Phrase.predict]
    exact iff_of_false (Token.asName_ne_expand t _ more) (by simp [Phrase.expansion?])
  | block close =>
    refine iff_of_false ?_ (by simp [Phrase.expansion?])
    rw [Phrase.predict]
    split
    · simp
    · split
      · simp
      · exact Token.beginStatement_ne_expand t _ more
  | keyword | becomes | lineEnd =>
    refine iff_of_false ?_ (by simp [Phrase.expansion?])
    rw [Phrase.predict]
    split <;> simp
  | comparison | operand =>
    refine iff_of_false ?_ (by simp [Phrase.expansion?])
    rw [Phrase.predict]
    repeat' split
    all_goals simp
  | condition | expression | term =>
    simp [Phrase.predict, Phrase.expansion?, Phrase.takes]
  | blankLines | printed | moreComparisons | moreTerms | moreFactors | factor =>
    rw [Phrase.predict]
    cases kind : t.kind <;> simp [Phrase.expansion?, Phrase.takes]

/-- The phrase stands for goals that are guarded as well as it is, and that are completed by the
    same tokens. -/
theorem Guarded.of_expansion {phrase : Phrase} {goals more : List Goal}
    (guarded : Guarded (.read phrase :: goals)) (expansion : phrase.expansion? = some more) :
    Guarded (more ++ goals) ∧
      Goal.opening (more ++ goals) = Goal.opening (.read phrase :: goals) := by
  cases guarded with
  | program => exact absurd expansion nofun
  | read inner stop rest =>
    -- the last phrase of an expansion absorbs what the phrase itself does
    cases phrase with
    | blankLines | moreComparisons | moreTerms | moreFactors =>
      cases expansion
      exact ⟨rest, rfl⟩
    | printed =>
      cases expansion
      exact ⟨.act (.emit _) (.read nofun stop (.act (.emit _) rest)), rfl⟩
    | condition =>
      cases expansion
      exact ⟨.read nofun nofun (.read nofun stop rest), rfl⟩
    | expression =>
      cases expansion
      refine ⟨.read nofun ?_ (.read nofun stop rest), rfl⟩
      exact fun extended => stop ((Kind.extendsExpression_iff _).mpr (Or.inl extended))
    | term =>
      cases expansion
      exact ⟨.read nofun nofun (.read nofun stop rest), rfl⟩
    | factor =>
      cases expansion
      exact ⟨.read nofun nofun rest, rfl⟩
    | _ => exact absurd expansion nofun

theorem Phrase.takes_of_not_absorbs {phrase : Phrase} (opening : phrase.opening? = none)
    {k : Kind} (stop : ¬ phrase.absorbs k) : phrase.takes k = false := by
  revert stop
  cases phrase <;> cases k <;> simp_all [Phrase.absorbs, Phrase.opening?, Phrase.takes,
    Kind.extendsCondition, Kind.extendsExpression, Kind.extendsTerm]

/-- The token that completes goals does not keep their first phrase from expanding. -/
theorem Guarded.takes_opening {phrase : Phrase} {goals : List Goal}
    (guarded : Guarded (.read phrase :: goals)) :
    phrase.takes (Goal.opening (.read phrase :: goals)) = false := by
  cases guarded with
  | program => rfl
  | read inner stop rest =>
    cases opening : phrase.opening? with
    | none => simpa [Goal.opening, opening] using Phrase.takes_of_not_absorbs opening stop
    | some k =>
      rw [Goal.opening, opening, Option.getD_some]
      cases phrase <;> cases opening <;> rfl

/-- A statement begins with the keyword of a line or of a construct. -/
theorem Token.beginStatement_eq_shift {t : Token} {next : Phrase} {echo : Option Fragment}
    {more : List Goal} (begins : t.beginStatement next = .shift echo more) :
    (∃ k : LineKind, more = [.read k.phrase, .read .lineEnd, .read next]) ∨
      ∃ c : Construct, more = Goal.governed c.opening c.thenWord c.close ++
        [.read .lineEnd, .read next] := by
  unfold Token.beginStatement at begins
  split at begins
  · cases begins
    exact Or.inl ⟨.print, rfl⟩
  · cases begins
    exact Or.inr ⟨.ifThen, rfl⟩
  · cases begins
    exact Or.inr ⟨.whileRepeat, rfl⟩
  · cases begins
    exact Or.inl ⟨.label, rfl⟩
  · cases begins
    exact Or.inl ⟨.goto, rfl⟩
  · cases begins
    exact Or.inl ⟨.assign, rfl⟩
  · cases begins
    exact Or.inl ⟨.input, rfl⟩
  · nomatch begins

/-- A statement may begin where its line can be followed by what comes after it. -/
theorem Guarded.of_beginStatement {t : Token} {next : Phrase} {goals : List Goal}
    (guarded : Guarded (.read next :: goals))
    (stop : Goal.opening (.read next :: goals) ≠ .newline) {echo : Option Fragment}
    {more : List Goal} (begins : t.beginStatement next = .shift echo more) :
    Guarded (more ++ goals) := by
  have line : Guarded (.read .lineEnd :: .read next :: goals) :=
    .read nofun (by simpa [Phrase.absorbs] using stop) guarded
  obtain ⟨k, rfl⟩ | ⟨c, rfl⟩ := Token.beginStatement_eq_shift begins
  · cases k <;> exact .read nofun nofun line
  · exact .act (.emit _) (.read nofun nofun (.read nofun nofun (.read nofun nofun
      (.act (.emit _) (.read nofun nofun line)))))

theorem Token.asName_eq_shift {t : Token} {goals : String → List Goal} {echo : Option Fragment}
    {more : List Goal} (shifts : t.asName goals = .shift echo more) :
    isReserved t.text = false ∧ echo = none ∧ more = goals t.text := by
  unfold Token.asName at shifts
  split at shifts
  · nomatch shifts
  · split at shifts
    · nomatch shifts
    · next free =>
      cases shifts
      exact ⟨eq_false_of_ne_true free, rfl, rfl⟩

/-- Taking a token keeps goals guarded, unless a label is to be set that need not be new. -/
theorem Guarded.of_shift {phrase : Phrase} {goals more : List Goal}
    (guarded : Guarded (.read phrase :: goals)) (notLabel : phrase ≠ .labelName) {scope : Scope}
    {t : Token} {echo : Option Fragment}
    (predicted : phrase.predict scope t = .shift echo more) : Guarded (more ++ goals) := by
  cases guarded with
  | program =>
    rw [Phrase.predict] at predicted
    split at predicted
    · cases predicted
    · exact Guarded.program.of_beginStatement (by simp [Goal.opening, Phrase.opening?]) predicted
  | read inner stop rest =>
    -- of what follows the token, the last phrase absorbs no more than the one that took it
    cases phrase with
    | statements => exact absurd rfl inner
    | labelName => exact absurd rfl notLabel
    | condition | expression | term => simp [Phrase.predict] at predicted
    | keyword | becomes =>
      rw [Phrase.predict] at predicted
      split at predicted
      · cases predicted
        exact rest
      · cases predicted
    | blankLines | lineEnd =>
      rw [Phrase.predict] at predicted
      split at predicted
      · cases predicted
        exact .read (by simp) stop rest
      · cases predicted
    | block close =>
      rw [Phrase.predict] at predicted
      split at predicted
      · cases predicted
        exact .act (.emit _) rest
      · split at predicted
        · cases predicted
        · have block : Guarded (.read (.block close) :: goals) :=
            .read (by simp) Bool.false_ne_true rest
          exact block.of_beginStatement (by simp [Goal.opening, Phrase.opening?]) predicted
    | printed =>
      rw [Phrase.predict] at predicted
      split at predicted
      · cases predicted
        exact rest
      · cases predicted
    | assignment =>
      rw [Phrase.predict] at predicted
      obtain ⟨-, -, rfl⟩ := Token.asName_eq_shift predicted
      exact .act (.declare _) (.act (.emit _) (.read (by simp) Bool.false_ne_true
        (.read (by simp) stop (.act (.emit _) rest))))
    | inputName =>
      rw [Phrase.predict] at predicted
      obtain ⟨-, -, rfl⟩ := Token.asName_eq_shift predicted
      exact .act (.declare _) (.act (.emit _) rest)
    | jumpName =>
      rw [Phrase.predict] at predicted
      obtain ⟨free, -, rfl⟩ := Token.asName_eq_shift predicted
      exact .act (.jump free) rest
    | comparison | moreComparisons =>
      rw [Phrase.predict] at predicted
      split at predicted
      · cases predicted
        refine .read (by simp) ?_ (.read (by simp) stop rest)
        exact fun extended => stop ((Kind.extendsCondition_iff _).mpr (Or.inl extended))
      · cases predicted
    | moreTerms =>
      rw [Phrase.predict] at predicted
      split at predicted
      · cases predicted
        refine .read (by simp) ?_ (.read (by simp) stop rest)
        exact fun extended => stop ((Kind.extendsExpression_iff _).mpr (Or.inl extended))
      · cases predicted
    | moreFactors =>
      rw [Phrase.predict] at predicted
      split at predicted
      · cases predicted
        exact .read (by simp) Bool.false_ne_true (.read (by simp) stop rest)
      · cases predicted
    | factor =>
      rw [Phrase.predict] at predicted
      split at predicted
      · cases predicted
        exact .read (by simp) Bool.false_ne_true rest
      · cases predicted
    | operand =>
      rw [Phrase.predict] at predicted
      split at predicted
      · cases predicted
        exact rest
      · split at predicted
        · cases predicted
          exact rest
        · cases predicted
      · cases predicted

/-! ## Completing phrases -/

/-- Every jump goes to a name that a label can have. -/
def Scope.Free (scope : Scope) : Prop :=
  ∀ jump ∈ scope.jumps, isReserved jump.name = false

theorem Scope.Free.addJump {scope : Scope} (free : scope.Free) {target : Jump}
    (freeTarget : isReserved target.name = false) : (scope.addJump target).Free := by
  intro jump mem
  rcases mem_jumpNames_addJump.mp (List.mem_map_of_mem mem) with old | same
  · obtain ⟨before, oldMem, same⟩ := List.mem_map.mp old
    exact same ▸ free before oldMem
  · exact same ▸ freeTarget

theorem Scope.assigned_prefix_addVariable (scope : Scope) (name : String) :
    scope.assigned <+: (scope.addVariable name).assigned := by
  rw [Scope.assigned_addVariable]
  split
  · exact List.prefix_rfl
  · exact List.prefix_append _ _

namespace Ledger

theorem free_enter {l : Ledger} (free : l.scope.Free) {t : Token} (allowed : l.Allows t) :
    (l.enter t).scope.Free := by
  have reserved := ((allows_iff l t).mp allowed).1
  have notReserved : l.last.jumps = true → isReserved t.text = false := by
    intro jumps
    exact reserved (by simp [Kind.names, jumps])
  unfold Scope.Free
  rw [jumps_enter]
  split
  · next jumps => exact free.addJump (notReserved jumps)
  · exact free

theorem free_enterAll {l : Ledger} (free : l.scope.Free) {ts : List Token}
    (allowed : l.AllowsAll ts) : (l.enterAll ts).scope.Free := by
  induction ts generalizing l with
  | nil => exact free
  | cons t ts ih => exact ih (free_enter free allowed.1) allowed.2

theorem assigned_prefix_enterAll (l : Ledger) (ts : List Token) :
    l.scope.assigned <+: (l.enterAll ts).scope.assigned := by
  induction ts generalizing l with
  | nil => exact List.prefix_rfl
  | cons t ts ih =>
    refine List.IsPrefix.trans ?_ (ih (l.enter t))
    rw [assigned_enter]
    split
    · exact Scope.assigned_prefix_addVariable _ _
    · exact List.prefix_rfl

end Ledger

/-- The tokens complete the phrase: a reader that waits for it reads them, and goes on. -/
structure Phrase.Completes (phrase : Phrase) (scope : Scope) (ts : List Token) (after : Scope)
    (fs : List Fragment) : Prop where
  opens : ts.head?.map Token.kind = phrase.opening?
  noEnd : ∀ t ∈ ts, t.kind ≠ .eof
  keeps : scope.assigned <+: after.assigned
  free : after.Free
  reads : ∀ r : Reader, r.scope = scope → ¬ phrase.absorbs r.current.kind → ∀ goals : List Goal,
    (r.before ts).run (.read phrase :: goals) = ((r.withScope after).write fs).run goals

namespace Phrase.Completes

variable {phrase : Phrase} {scope : Scope}

/-- A phrase that reads trees is completed by a tree without names. -/
theorem of_reads {α : Type} {words : α → List Word} {fragments : α → List Fragment}
    (read : Reads [.read phrase] words fragments phrase.absorbs) (free : scope.Free) (x : α)
    (opens : (words x).head?.map Word.kind = phrase.opening?)
    (plain : ∀ w ∈ words x, w.kind ≠ .eof ∧ w.kind ≠ .ident) :
    phrase.Completes scope ((words x).map Word.token) scope (fragments x) where
  opens := by
    rw [← opens, List.head?_map, Option.map_map]
    rfl
  noEnd := by
    simpa [Word.token] using fun w mem => (plain w mem).1
  keeps := List.prefix_rfl
  free := free
  reads := by
    rintro r rfl stop goals
    have known : Token.Known r.scope ((words x).map Word.token) := by
      intro t mem isName
      obtain ⟨w, wordMem, rfl⟩ := List.mem_map.mp mem
      exact absurd isName (plain w wordMem).2
    have spelled : ((words x).map Word.token).map Token.word = words x := by
      simp [Word.token, Token.word, Function.comp_def]
    exact read.reads spelled known stop goals

/-- A phrase that stands for nothing is completed by nothing. -/
theorem of_expansion (expansion : phrase.expansion? = some []) (free : scope.Free) :
    phrase.Completes scope [] scope [] := by
  have opening : phrase.opening? = none := by
    revert expansion
    cases phrase <;> simp [Phrase.expansion?, Phrase.opening?]
  have inner : phrase ≠ .statements := by
    rintro rfl
    nomatch expansion
  refine ⟨opening.symm, nofun, List.prefix_rfl, free, ?_⟩
  rintro r rfl stop goals
  have predicted := (Phrase.predict_eq_expand_iff inner r.scope r.current []).mpr
    ⟨expansion, Phrase.takes_of_not_absorbs opening stop⟩
  rw [Reader.before_nil, Reader.run_of_expand predicted]
  simp

/-- What follows the keyword of a line is completed by a line. -/
theorem of_line {k : LineKind} {ts : List Token} {s : Statement} (isLine : Line k ts s)
    (free : scope.Free) (allowed : (Ledger.afterHead k scope).AllowsAll ts)
    (opens : ts.head?.map Token.kind = k.phrase.opening?) (noEnd : ∀ t ∈ ts, t.kind ≠ .eof) :
    k.phrase.Completes scope ts ((Ledger.afterHead k scope).enterAll ts).scope s.fragments where
  opens := opens
  noEnd := noEnd
  keeps := (Ledger.afterHead k scope).assigned_prefix_enterAll ts
  free := Ledger.free_enterAll free allowed
  reads := by
    rintro r rfl stop goals
    refine isLine.reads allowed (fun ends => ?_) goals
    cases isLine with
    | print | assign => exact stop
    | _ => nomatch ends

/-- A phrase that only takes a token and writes something is completed by the token. -/
theorem of_take {t : Token} {fs : List Fragment} (opens : phrase.opening? = some t.kind)
    (notEnd : t.kind ≠ .eof) (free : scope.Free)
    (predicted : phrase.predict scope t = .shift none (fs.map fun f => .act (.emit f))) :
    phrase.Completes scope [t] scope fs where
  opens := opens.symm
  noEnd := by simpa using notEnd
  keeps := List.prefix_rfl
  free := free
  reads := by
    rintro r rfl - goals
    rw [Reader.run_take predicted, Reader.before_nil, Reader.withScope_scope]
    -- what is left is to write the fragments one by one
    clear predicted
    induction fs generalizing r with
    | nil => simp
    | cons f fs ih =>
      rw [List.map_cons, List.cons_append, Reader.run_emit, ih (r := r.write [f]) free]
      simp

end Phrase.Completes

/-- A name that no label has and that C does not keep for itself. -/
theorem exists_fresh (names : List String) :
    ∃ name, name ∉ names ∧ isReserved name = false := by
  obtain ⟨name, fresh⟩ := Infinite.exists_notMem_finset (names ++ reservedNames).toFinset
  rw [List.mem_toFinset, List.mem_append, not_or] at fresh
  exact ⟨name, fresh.1, eq_false_of_ne_true (isReserved_iff.not.mpr fresh.2)⟩

/-- The number zero, at each level of an expression. -/
def Factor.zero : Factor := ⟨none, .numeral "0"⟩
def Term.zero : Term := ⟨.zero, []⟩
def Expression.zero : Expression := ⟨.zero, []⟩
def Condition.zero : Condition := ⟨.zero, (⟨.equal, "=="⟩, .zero), []⟩

/-- Every phrase inside a program can be completed. -/
theorem Phrase.exists_completes (phrase : Phrase) (inner : phrase ≠ .statements) {scope : Scope}
    (free : scope.Free) : ∃ ts after fs, phrase.Completes scope ts after fs := by
  -- names stand for `a`, values for zero; only a label must have a name that is new
  let name : Token := (Word.name "a").token
  let zero : Token := ⟨.number, "0", .nowhere⟩
  have isFree : isReserved name.text = false := by decide
  have spelledZero : [zero].map Token.word = Expression.zero.words := rfl
  have notEnd : ∀ k : Keyword, k.word.token.kind ≠ .eof := by simp [Word.token, Keyword.word]
  cases phrase with
  | statements => exact absurd rfl inner
  | keyword k =>
    have predicted : (Phrase.keyword k).predict scope k.word.token = .shift none [] := by
      simp [Phrase.predict, Word.token, Keyword.word]
    exact ⟨_, _, [], .of_take (t := k.word.token) rfl (notEnd k) free predicted⟩
  | becomes => exact ⟨_, _, [], .of_take (t := Word.becomes.token) rfl (by decide) free rfl⟩
  | block close =>
    have predicted : (Phrase.block close).predict scope close.word.token =
        .shift none [.act (.emit .closeBody)] := by
      simp [Phrase.predict, Word.token, Keyword.word]
    exact ⟨_, _, [.closeBody], .of_take (t := close.word.token) rfl (notEnd close) free predicted⟩
  | blankLines | moreComparisons | moreTerms | moreFactors =>
    exact ⟨_, _, _, .of_expansion rfl free⟩
  | lineEnd =>
    have isEnd : LineEnd [Word.newline.token] := ⟨by simp, by decide⟩
    refine ⟨[Word.newline.token], scope, [], rfl, by decide, List.prefix_rfl, free, ?_⟩
    rintro r rfl stop goals
    rw [Reader.run_lineEnd isEnd (by simpa [Phrase.absorbs] using stop)]
    simp
  | printed =>
    exact ⟨_, _, _, .of_line (.print spelledZero) free (by simp [Ledger.Allows, Ledger.afterHead,
      zero]) rfl (by decide)⟩
  | assignment =>
    let sign : Token := Word.becomes.token
    have isLine : Line .assign [name, sign, zero] (.assign name.text .zero) :=
      .assign rfl rfl spelledZero
    refine ⟨_, _, _, .of_line isLine free ⟨isFree, ?_⟩ rfl (by decide)⟩
    simp [Ledger.Allows, Ledger.enter, name, sign, zero, Word.token, Word.name, Word.becomes]
  | inputName =>
    have isLine : Line .input [name] (.input name.text) := .input rfl
    exact ⟨_, _, _, .of_line isLine free ⟨isFree, trivial⟩ rfl (by decide)⟩
  | jumpName =>
    have isLine : Line .goto [name] (.goto name.text) := .goto rfl
    exact ⟨_, _, _, .of_line isLine free ⟨isFree, trivial⟩ rfl (by decide)⟩
  | labelName =>
    obtain ⟨label, new, notReserved⟩ := exists_fresh scope.labels
    have isLine : Line .label [(Word.name label).token] (.label label) := .label rfl
    exact ⟨_, _, _, .of_line isLine free ⟨⟨notReserved, new⟩, trivial⟩ rfl
      (by simp [Word.token, Word.name])⟩
  | condition => exact ⟨_, _, _, .of_reads Reads.condition free .zero rfl (by decide)⟩
  | comparison =>
    exact ⟨_, _, _, .of_reads Reads.comparison free (Condition.zero.second, []) rfl (by decide)⟩
  | expression => exact ⟨_, _, _, .of_reads Reads.expression free .zero rfl (by decide)⟩
  | term => exact ⟨_, _, _, .of_reads Reads.term free .zero rfl (by decide)⟩
  | factor => exact ⟨_, _, _, .of_reads Reads.factor free .zero rfl (by decide)⟩
  | operand => exact ⟨_, _, _, .of_reads Reads.operand free (.numeral "0") rfl (by decide)⟩

/-! ## Completing goals -/

/-- The reader `w` has written what `u` has, and perhaps more. -/
structure Reader.Extends (w u : Reader) : Prop where
  code : u.code <+: w.code
  assigned : u.scope.assigned <+: w.scope.assigned

theorem Reader.Extends.trans {w u r : Reader} (second : w.Extends u) (first : u.Extends r) :
    w.Extends r :=
  ⟨first.code.trans second.code, first.assigned.trans second.assigned⟩

theorem Reader.extends_write {r : Reader} {scope : Scope}
    (keeps : r.scope.assigned <+: scope.assigned) (fs : List Fragment) :
    ((r.withScope scope).write fs).Extends r :=
  ⟨List.prefix_append _ _, keeps⟩

/-- With these tokens a reader in the state of `r` comes to the end of the goals, and has then
    written what `u` has. -/
def Finishes (goals : List Goal) (r : Reader) (ts : List Token) (u : Reader) : Prop :=
  ∀ e : Reader, e.unread = [] → e.scope = r.scope → e.code = r.code →
    ∃ w, (e.before ts).run goals = (.ok (), w) ∧ w.Extends u

/-- What a safe action does. -/
theorem Action.Safe.effect {action : Action} (safe : action.Safe) :
    ∃ (f : Scope → Scope) (fs : List Fragment),
      (∀ (r : Reader) (goals : List Goal),
        r.run (.act action :: goals) = ((r.withScope (f r.scope)).write fs).run goals) ∧
      ∀ scope, scope.assigned <+: (f scope).assigned ∧ (scope.Free → (f scope).Free) := by
  cases safe with
  | emit f =>
    refine ⟨id, [f], fun r goals => ?_, fun scope => ⟨List.prefix_rfl, id⟩⟩
    rw [Reader.run_emit]
    rfl
  | declare name =>
    refine ⟨(·.addVariable name), [], fun r goals => ?_, fun scope => ⟨?_, ?_⟩⟩
    · rw [Reader.run_declare, Reader.write_nil]
    · exact scope.assigned_prefix_addVariable name
    · exact fun free => by simpa [Scope.Free] using free
  | @jump target free =>
    refine ⟨(·.addJump target), [.goto target.name], fun r goals => ?_, fun scope => ⟨?_, ?_⟩⟩
    · rw [Reader.run_jump]
    · simp
    · exact fun others => others.addJump free

/-- Lines that set labels. -/
def labelLines (names : List String) : List Token :=
  names.flatMap fun name =>
    [Keyword.label.word.token, (Word.name name).token, Word.newline.token]

theorem spelled_labelLines (names : List String) :
    Spelled (names.map Statement.label) (labelLines names) := by
  induction names with
  | nil => exact .nil
  | cons name names ih =>
    have isLine : Line .label [(Word.name name).token] (.label name) := .label rfl
    have isEnd : LineEnd [Word.newline.token] := ⟨nofun, by decide⟩
    exact .line .label rfl isLine isEnd ih

theorem Ledger.enterAll_labelLines (scope : Scope) (names : List String) :
    ((atLine scope).enterAll (labelLines names)).scope =
      { scope with labels := scope.labels ++ names } := by
  induction names generalizing scope with
  | nil => simp [labelLines]
  | cons name names ih =>
    refine (ih (scope.addLabel name)).trans ?_
    simp [Scope.addLabel]

theorem Ledger.allowsAll_labelLines (scope : Scope) {names : List String} (nodup : names.Nodup)
    (new : ∀ name ∈ names, name ∉ scope.labels) (free : ∀ name ∈ names, isReserved name = false) :
    (atLine scope).AllowsAll (labelLines names) := by
  induction names generalizing scope with
  | nil => trivial
  | cons name names ih =>
    obtain ⟨notMem, nodup⟩ := List.nodup_cons.mp nodup
    refine ⟨nofun, ⟨free name (by simp), new name (by simp)⟩, nofun, ?_⟩
    refine ih (scope.addLabel name) nodup ?_ fun other mem => free other (by simp [mem])
    intro other mem old
    rcases Scope.mem_labels_addLabel.mp old with old | rfl
    · exact new other (by simp [mem]) old
    · exact notMem mem

/-- Labels can be set so that every jump lands, and at least one. -/
theorem Scope.Free.exists_labels {scope : Scope} (free : scope.Free) :
    ∃ name names, (name :: names).Nodup ∧ (∀ x ∈ name :: names, x ∉ scope.labels) ∧
      (∀ x ∈ name :: names, isReserved x = false) ∧
      ∀ jump ∈ scope.jumps, jump.name ∈ scope.labels ++ (name :: names) := by
  -- the labels that jumps still wait for, and one more so that the list is not empty
  let missing := ((scope.jumps.map Jump.name).filter (· ∉ scope.labels)).dedup
  have memMissing : ∀ {x}, x ∈ missing ↔ x ∈ scope.jumps.map Jump.name ∧ x ∉ scope.labels := by
    simp [missing]
  obtain ⟨name, fresh, notReserved⟩ := exists_fresh (scope.labels ++ missing)
  rw [List.mem_append, not_or] at fresh
  refine ⟨name, missing, List.nodup_cons.mpr ⟨fresh.2, List.nodup_dedup _⟩, ?_, ?_, ?_⟩
  · intro x mem
    rcases List.mem_cons.mp mem with rfl | mem
    · exact fresh.1
    · exact (memMissing.mp mem).2
  · intro x mem
    rcases List.mem_cons.mp mem with rfl | mem
    · exact notReserved
    · obtain ⟨jump, jumpMem, rfl⟩ := List.mem_map.mp (memMissing.mp mem).1
      exact free jump jumpMem
  · intro jump mem
    by_cases known : jump.name ∈ scope.labels
    · simp [known]
    · have isMissing := memMissing.mpr ⟨List.mem_map_of_mem mem, known⟩
      simp [isMissing]

/-- A program can be ended wherever a statement may begin. -/
theorem exists_finishes_program (r : Reader) (free : r.scope.Free) :
    ∃ ts, ts.head?.map Token.kind = some (.keyword .label) ∧ (∀ t ∈ ts, t.kind ≠ .eof) ∧
      Finishes [.read .statements, .act (.emit .closeMain), .act .checkJumps] r ts r := by
  obtain ⟨name, names, nodup, new, notReserved, land⟩ := free.exists_labels
  refine ⟨labelLines (name :: names), rfl, ?_, ?_⟩
  · intro t mem
    obtain ⟨x, -, mem⟩ := List.mem_flatMap.mp mem
    simp only [List.mem_cons, List.not_mem_nil, or_false] at mem
    rcases mem with rfl | rfl | rfl <;> nofun
  · intro e empty scope code
    have allowed := Ledger.allowsAll_labelLines e.scope nodup (scope ▸ new) notReserved
    have isEnd : e.current.kind = .eof := by
      simp [Reader.current, empty, e.isEnd]
    have run := (spelled_labelLines (name :: names)).reads_program allowed isEnd
    rw [Reader.run_checkJumps, Ledger.enterAll_labelLines] at run
    refine ⟨_, run.trans (Prod.ext ?_ rfl), ?_⟩
    · rw [Scope.verdict_eq_ok_iff, Scope.dangling?_eq_none_iff]
      simpa [scope] using land
    · exact ⟨code ▸ List.prefix_append _ _, scope ▸ List.prefix_rfl⟩

/-- Goals in the middle of a program can be completed, with a first token of a known kind. -/
theorem Guarded.completes {goals : List Goal} (guarded : Guarded goals) (r : Reader)
    (free : r.scope.Free) :
    ∃ ts, ts.head?.map Token.kind = some (Goal.opening goals) ∧ (∀ t ∈ ts, t.kind ≠ .eof) ∧
      Finishes goals r ts r := by
  induction guarded generalizing r with
  | program => exact exists_finishes_program r free
  | act safe rest ih =>
    obtain ⟨f, fs, run, keeps⟩ := safe.effect
    obtain ⟨ts, opens, noEnd, finishes⟩ :=
      ih ((r.withScope (f r.scope)).write fs) ((keeps r.scope).2 free)
    refine ⟨ts, opens, noEnd, fun e empty scope code => ?_⟩
    obtain ⟨w, ran, more⟩ := finishes ((e.withScope (f e.scope)).write fs) empty
      (congrArg f scope) (congrArg (· ++ fs) code)
    refine ⟨w, (run _ _).trans ran, more.trans (Reader.extends_write (keeps r.scope).1 fs)⟩
  | @read phrase goals inner stop rest ih =>
    -- first the tokens of the phrase, then those of the goals after it
    obtain ⟨ts, after, fs, completes⟩ := phrase.exists_completes inner free
    obtain ⟨us, opens, noEnd, finishes⟩ := ih ((r.withScope after).write fs) completes.free
    refine ⟨ts ++ us, ?_, ?_, fun e empty scope code => ?_⟩
    · have opensFirst := completes.opens
      cases ts with
      | nil =>
        have nothing : phrase.opening? = none := opensFirst.symm
        rw [Goal.opening, nothing]
        exact opens
      | cons t ts =>
        have first : some t.kind = phrase.opening? := opensFirst
        rw [Goal.opening, ← first]
        rfl
    · simpa [or_imp, forall_and] using ⟨completes.noEnd, noEnd⟩
    · -- the phrase stops there because the goals are guarded
      have stopsAt : ¬ phrase.absorbs (e.before us).current.kind := by
        cases us with
        | nil => nomatch opens
        | cons u us =>
          obtain first : u.kind = Goal.opening goals := Option.some.inj opens
          rw [Reader.current_before_cons, first]
          exact stop
      obtain ⟨w, ran, more⟩ := finishes ((e.withScope after).write fs) empty rfl
        (congrArg (· ++ fs) code)
      rw [Reader.before_append, completes.reads (e.before us) scope stopsAt]
      exact ⟨w, ran, more.trans (Reader.extends_write completes.keeps fs)⟩

end BasicToC
