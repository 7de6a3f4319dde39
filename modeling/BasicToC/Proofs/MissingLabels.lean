import Mathlib.Data.String.Basic
import BasicToC.Proofs.Translation

/-! # Labels that are missing

Jumps are looked at when the whole program has been read.  One of them is reported: of the names
without a label the least one, at the first jump that gives this name.  The table of jumps keeps
the first jump to each name, which is `Ledger.first_of_mem_jumps`; the least of them is taken by
`Scope.leastJump?`.
-/

namespace BasicToC

/-! ## The least jump -/

theorem Text.comesBefore_iff_lt {cs ds : List Char} :
    comesBefore cs ds = true ↔ cs < ds := by
  induction cs generalizing ds with
  | nil =>
    cases ds with
    | nil => simp [comesBefore]
    | cons d ds => simp [comesBefore]
  | cons c cs ih =>
    cases ds with
    | nil => simp [comesBefore]
    | cons d ds =>
      rw [List.cons_lt_cons_iff, ← ih, comesBefore]
      split
      · next same => simp [same]
      · next apart => simp [apart, Nat.blt_eq, Char.lt_def, UInt32.lt_iff_toNat_lt]

theorem Text.precedes_iff_lt {s t : String} : precedes s t = true ↔ s < t :=
  comesBefore_iff_lt

namespace Scope

theorem leastJump?_eq_some {jumps : List Jump} {least : Jump}
    (found : leastJump? jumps = some least) :
    least ∈ jumps ∧ ∀ jump ∈ jumps, least.name ≤ jump.name := by
  induction jumps generalizing least with
  | nil => cases found
  | cons first rest ih =>
    rw [leastJump?] at found
    cases others : leastJump? rest with
    | none =>
      rw [others] at found
      cases found
      rw [leastJump?_eq_none_iff.mp others]
      simp
    | some other =>
      obtain ⟨mem, below⟩ := ih others
      simp only [others] at found
      split at found
      · next before =>
        cases found
        have less := Text.precedes_iff_lt.mp before
        refine ⟨List.mem_cons_of_mem _ mem, List.forall_mem_cons.mpr ⟨le_of_lt less, below⟩⟩
      · next notBefore =>
        cases found
        have atMost : first.name ≤ other.name :=
          not_lt.mp fun less => notBefore (Text.precedes_iff_lt.mpr less)
        refine ⟨List.mem_cons_self, List.forall_mem_cons.mpr ⟨le_rfl, fun jump inRest => ?_⟩⟩
        exact le_trans atMost (below jump inRest)

end Scope

/-! ## The first jump to each name -/

/-- The table of jumps holds the first jump to a name, and the position that it gives. -/
theorem Ledger.first_of_mem_jumps {ts : List Token} {jump : Jump}
    (mem : jump ∈ ((atLine .empty).enterAll ts).scope.jumps) :
    ∃ t, (Token.following Kind.jumps ts).find? (·.text == jump.name) = some t ∧
      jump = ⟨t.text, t.position⟩ := by
  induction ts using List.reverseRecOn generalizing jump with
  | nil => cases mem
  | append_singleton ts t ih =>
    rw [enterAll_append, enterAll_cons, enterAll_nil, jumps_enter, last_enterAll] at mem
    rw [Token.following_concat rfl, List.find?_append]
    have old : jump ∈ ((atLine .empty).enterAll ts).scope.jumps →
        ∃ u, ((Token.following Kind.jumps ts).find? (·.text == jump.name)).or
          ((if Kind.jumps (Token.lastKind ts) then [t] else []).find? (·.text == jump.name)) =
            some u ∧ jump = ⟨u.text, u.position⟩ := by
      intro mem
      obtain ⟨u, found, same⟩ := ih mem
      exact ⟨u, by rw [found, Option.some_or], same⟩
    split at mem
    · next isJump =>
      rw [Scope.addJump] at mem
      split at mem
      · exact old mem
      · next new =>
        rcases List.mem_append.mp mem with mem | mem
        · exact old mem
        · obtain rfl := List.mem_singleton.mp mem
          -- no jump before gives this name
          have notBefore : (Token.following Kind.jumps ts).find? (·.text == t.text) = none := by
            refine List.find?_eq_none.mpr fun u inTs same => new ?_
            have inNames : t.text ∈ Token.namesFollowing Kind.jumps ts :=
              List.mem_map.mpr ⟨u, inTs, by simpa using same⟩
            obtain ⟨known, inJumps, name⟩ := List.mem_map.mp (mem_jumpNames_enterAll.mpr inNames)
            exact List.any_eq_true.mpr ⟨known, inJumps, by simp [name]⟩
          exact ⟨t, by simp [notBefore, isJump], rfl⟩
    · exact old mem

namespace Token

/-- A jump gives this name, and no label has it. -/
def Missing (ts : List Token) (name : String) : Prop :=
  name ∈ namesFollowing Kind.jumps ts ∧ name ∉ namesFollowing Kind.labels ts

/-- The jump that is reported goes to the least name without a label, and is the first one to do
    so. -/
theorem exists_of_dangling {ts : List Token} {jump : Jump}
    (dangling : ((Ledger.atLine .empty).enterAll ts).scope.dangling? = some jump) :
    ∃ t, (following Kind.jumps ts).find? (·.text == t.text) = some t ∧ Missing ts t.text ∧
      (∀ name, Missing ts name → t.text ≤ name) ∧ jump = ⟨t.text, t.position⟩ := by
  obtain ⟨mem, least⟩ := Scope.leastJump?_eq_some dangling
  obtain ⟨mem, unlabelled⟩ := List.mem_filter.mp mem
  rw [Bool.not_eq_true'] at unlabelled
  obtain ⟨t, first, rfl⟩ := Ledger.first_of_mem_jumps mem
  refine ⟨t, first, ⟨Ledger.mem_jumpNames_enterAll.mp (List.mem_map_of_mem mem), ?_⟩, ?_, rfl⟩
  · rw [← Ledger.labels_enterAll, ← Scope.hasLabel_iff, unlabelled]
    exact Bool.false_ne_true
  · rintro name ⟨isJump, notLabel⟩
    obtain ⟨other, mem', rfl⟩ := List.mem_map.mp (Ledger.mem_jumpNames_enterAll.mpr isJump)
    rw [← Ledger.labels_enterAll, ← Scope.hasLabel_iff, Bool.not_eq_true] at notLabel
    exact least other (List.mem_filter.mpr ⟨mem', by rw [notLabel]; rfl⟩)

theorem not_jumpsLand_iff (ts : List Token) : ¬ JumpsLand ts ↔ ∃ name, Missing ts name := by
  simp [JumpsLand, Missing]

end Token

/-! ## Compiling -/

/-- Tokens that have no other fault are laid out from a tree, and their names are in order. -/
theorem Machine.laid_of_no_other {ts : List Token} {base : Output}
    (noOther : ∀ d, (compile (.ofTokens ts) base).1 = .error d → d.code = .undefinedLabel) :
    ∃ tree, Laid tree (Token.beforeEnd ts) ∧
      (Ledger.atLine .empty).AllowsAll (Token.beforeEnd ts) := by
  have noEnd : ∀ t ∈ (Reader.ofTokens ts).unread, t.kind ≠ .eof :=
    fun t mem => Token.kind_ne_eof_of_mem_beforeEnd mem
  obtain ⟨tree, laid, allowed⟩ | ⟨d, u, other, run⟩ := (Reader.ofTokens ts).laid_or_fails noEnd
  · exact ⟨tree, laid, allowed⟩
  · have failed := run [.act (.emit .closeMain), .act .checkJumps]
    exact absurd (noOther d ((compile_ofTokens ts base).1.trans (congrArg Prod.fst failed))) other

theorem Machine.compile_ofTokens_verdict {ts : List Token} {tree : Program}
    (laid : Laid tree (Token.beforeEnd ts))
    (allowed : (Ledger.atLine .empty).AllowsAll (Token.beforeEnd ts)) (base : Output) :
    (compile (.ofTokens ts) base).1 =
      ((Ledger.atLine .empty).enterAll (Token.beforeEnd ts)).scope.verdict := by
  rw [(compile_ofTokens ts base).1, laid.run_body (r := Reader.ofTokens ts) allowed]
  rfl

/-- If nothing else is wrong with a program, it fails exactly if a jump has no label to go to.  The
    report names the least name that is missing, at the first jump to it, and the output is that of
    the whole program. -/
theorem Machine.compile_reports_missing_label {ts : List Token} {base : Output}
    (noOther : ∀ d, (compile (.ofTokens ts) base).1 = .error d → d.code = .undefinedLabel) :
    let program := Token.beforeEnd ts
    let outcome := compile (.ofTokens ts) base
    ((∃ d, outcome.1 = .error d ∧ d.code = .undefinedLabel) ↔
        ∃ name, Token.Missing program name) ∧
      (∀ d, outcome.1 = .error d →
        ∃ t, (Token.following Kind.jumps program).find? (·.text == t.text) = some t ∧
          Token.Missing program t.text ∧
          (∀ name, Token.Missing program name → t.text ≤ name) ∧
          d = ⟨.undefinedLabel, some t.position.line, t.position.column,
            "ATTEMPTING TO GOTO UNDECLARED LABEL: " ++ t.text⟩) ∧
      ∃ tree, Laid tree program ∧ (∀ other, Laid other program → other = tree) ∧
        outcome.2.output.header = base.header ++ "#include <stdio.h>\nint main(void)\x7b\n" ++
          String.join (tree.assigned.map fun name => "float " ++ name ++ " = 0;\n") ∧
        outcome.2.output.body = base.body ++ Statement.allCode tree ++ "return 0;\n\x7d\n" := by
  intro program outcome
  obtain ⟨tree, laid, allowed⟩ := laid_of_no_other noOther
  have result := compile_ofTokens_verdict laid allowed base
  refine ⟨?_, fun d failed => ?_, tree, laid, fun other laid' => laid'.unique laid,
    output_of_laid laid allowed base⟩
  · rw [← Token.not_jumpsLand_iff, Token.jumpsLand_iff, ← Scope.verdict_eq_ok_iff, ← result]
    constructor
    · rintro ⟨d, failed, -⟩ ok
      cases failed.symm.trans ok
    · intro notOk
      cases failed : outcome.1 with
      | ok done => exact absurd failed notOk
      | error d => exact ⟨d, rfl, noOther d failed⟩
  · have failed := result.symm.trans failed
    unfold Scope.verdict at failed
    split at failed
    · cases failed
    · next jump dangling =>
      obtain ⟨t, first, missing, least, rfl⟩ := Token.exists_of_dangling dangling
      cases failed
      exact ⟨t, first, missing, least, rfl⟩

/-- Two names are missing.  The lesser one is given for the first time inside a block, and once more
    after it. -/
theorem Machine.compile_reports_missing_label_of_block :
    let source := "GOTO b\nIF 1 < 2 THEN\nGOTO a\nENDIF\nGOTO c\nLABEL c\nGOTO a\n"
    let ts := (TokenStream.ofText source).pending.filterMap Except.toOption
    let d : Diagnostic :=
      ⟨.undefinedLabel, some 3, ⟨5, 6⟩, "ATTEMPTING TO GOTO UNDECLARED LABEL: a"⟩
    (compile (.ofTokens ts) .empty).1 = .error d ∧
      (∃ name, Token.Missing (Token.beforeEnd ts) name) ∧
      ∃ t, (Token.following Kind.jumps (Token.beforeEnd ts)).find? (·.text == t.text) = some t ∧
        (∀ name, Token.Missing (Token.beforeEnd ts) name → t.text ≤ name) ∧
        t.position = ⟨3, ⟨5, 6⟩⟩ := by
  intro source ts d
  have failed : (compile (.ofTokens ts) .empty).1 = .error d := by decide +kernel
  have noOther : ∀ e, (compile (.ofTokens ts) .empty).1 = .error e → e.code = .undefinedLabel := by
    intro e failed'
    cases failed.symm.trans failed'
    rfl
  obtain ⟨fails, reported, -⟩ := compile_reports_missing_label noOther
  obtain ⟨t, first, -, least, same⟩ := reported d failed
  obtain ⟨-, line, column, -⟩ := Diagnostic.mk.inj same
  refine ⟨failed, fails.mp ⟨d, failed, rfl⟩, t, first, least, ?_⟩
  obtain ⟨kind, text, position⟩ := t
  obtain ⟨onLine, inColumns⟩ := position
  cases Option.some.inj line
  cases column
  rfl

end BasicToC
