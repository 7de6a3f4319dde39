import BasicToC.Proofs.ReadingPrograms

/-! # The language of the compiler

The compiler accepts exactly the programs of the grammar whose names are in order.  The grammar is
the derivation of kinds in `Derivation`, which knows of no names; the order of names is
`Token.NamesInOrder` and `Token.JumpsLand`, which know of no grammar.
-/

namespace BasicToC

/-- What comes of checking the jumps. -/
def Scope.verdict (scope : Scope) : Except Diagnostic Unit :=
  match scope.dangling? with
  | none => .ok ()
  | some jump => .error ((Problem.missingLabel jump.name).located jump.position)

theorem Scope.verdict_eq_ok_iff (scope : Scope) :
    scope.verdict = .ok () ↔ scope.dangling? = none := by
  unfold verdict
  split <;> simp_all

theorem Scope.code_of_verdict_eq_error {scope : Scope} {d : Diagnostic}
    (failed : scope.verdict = .error d) : d.code = .undefinedLabel := by
  unfold verdict at failed
  split at failed
  · nomatch failed
  · cases failed
    rfl

/-- Checking the jumps changes nothing. -/
theorem Reader.run_checkJumps (r : Reader) :
    r.run [.act .checkJumps] = (r.scope.verdict, r) := by
  cases dangling : r.scope.dangling? with
  | none =>
    have performed : r.perform .checkJumps = (.ok (), r) := by
      simp [Reader.perform, dangling]
    rw [Reader.run_act_of_perform_ok performed, Reader.run_nil, Scope.verdict, dangling]
  | some jump =>
    have stepped : r.step (.act .checkJumps) =
        (.error ((Problem.missingLabel jump.name).located jump.position), r) := by
      simp [Reader.step, Reader.perform, dangling]
    rw [Reader.run_cons_of_step_error stepped, Scope.verdict, dangling]

/-- A program whose names are in order is read to its end, and its jumps decide. -/
theorem Laid.run_body {tree : Program} {r : Reader} (laid : Laid tree r.unread)
    (allowed : (Ledger.atLine r.scope).AllowsAll r.unread) :
    let scope := ((Ledger.atLine r.scope).enterAll r.unread).scope
    r.run Goal.body = (scope.verdict, ((r.skipTo []).withScope scope).write
      (Statement.allFragments tree ++ [.closeMain])) := by
  have whole : r = (r.skipTo []).before r.unread := Reader.eq_before_skipTo (by simp)
  have run := laid.reads (r := r.skipTo []) allowed r.isEnd
  rw [← whole, Reader.run_checkJumps] at run
  exact run

/-- A reader at the beginning gets through exactly the programs whose names are in order. -/
theorem Reader.run_body_ok_iff (r : Reader) (noEnd : ∀ t ∈ r.unread, t.kind ≠ .eof) :
    (r.run Goal.body).1 = .ok () ↔
      (∃ tree, Laid tree r.unread) ∧ (Ledger.atLine r.scope).AllowsAll r.unread ∧
        ((Ledger.atLine r.scope).enterAll r.unread).scope.dangling? = none := by
  constructor
  · intro ok
    obtain ⟨tree, laid, allowed⟩ | ⟨d, u, -, run⟩ := r.laid_or_fails noEnd
    · rw [laid.run_body allowed, Scope.verdict_eq_ok_iff] at ok
      exact ⟨⟨tree, laid⟩, allowed, ok⟩
    · have failed := run [.act (.emit .closeMain), .act .checkJumps]
      exact absurd (ok.symm.trans (congrArg Prod.fst failed)) nofun
  · rintro ⟨⟨tree, laid⟩, allowed, noDangling⟩
    rw [laid.run_body allowed, Scope.verdict_eq_ok_iff]
    exact noDangling

/-- Ready-made tokens are accepted exactly if those in front of the first end derive from the
    grammar, their names are in order, and every jump lands. -/
theorem Machine.compile_ofTokens_ok_iff (ts : List Token) (output : Output) :
    (compile (.ofTokens ts) output).1 = .ok () ↔
      (Token.beforeEnd ts).map Token.kind ∈ Derivation.program ∧
        Token.NamesInOrder (Token.beforeEnd ts) ∧ Token.JumpsLand (Token.beforeEnd ts) := by
  have noEnd : ∀ t ∈ (Reader.ofTokens ts).unread, t.kind ≠ .eof :=
    fun t mem => Token.kind_ne_eof_of_mem_beforeEnd mem
  rw [(compile_ofTokens ts output).1, Reader.run_body_ok_iff _ noEnd, mem_program_iff,
    Token.namesInOrder_iff, Token.jumpsLand_iff]
  rfl

end BasicToC
