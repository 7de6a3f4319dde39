import BasicToC.CommandLine.Run
import BasicToC.Proofs.Delivery
import BasicToC.Proofs.Streaming

/-! # Runs of the command line

A run reads, compiles and delivers, and stops at the first of these that fails.  What it does on a
scene is known from the run on the tree alone (`scene_run`).  Nothing is touched before the
delivery, so what a run leaves is what `Tree.deliver_of_writable` and
`Tree.deliver_of_not_writable` say about the delivery.
-/

namespace BasicToC.CommandLine

open Files (Tree Path Failure Location Entry Scene Refusal)

/-! ## Reading and compiling -/

/-- The file `source` holds a text that compiles to this C program. -/
def CompilesTo (tree : Tree) (source c : String) : Prop :=
  ∃ text, tree.Holds (.ofString source) text.toUTF8 ∧ compile text = .ok c

/-- What reading and compiling the file `source` brings. -/
def compilation (source : String) (tree : Tree) : Compilation :=
  compileFile source ((tree.readText (.ofString source)).mapError Failure.message)

theorem compileFile_ok (source text : String) :
    (compileFile source (.ok text)).result = compile text :=
  (compile_eq_map text).symm

theorem compilation_eq_ok_iff {tree : Tree} {source c : String} :
    (compilation source tree).result = .ok c ↔ CompilesTo tree source c := by
  simp only [compilation, CompilesTo, ← Tree.readText_eq_ok_iff]
  cases tree.readText (.ofString source) with
  | error failure =>
    refine iff_of_false (fun compiled => ?_) fun ⟨text, same, _⟩ => ?_
    · cases compiled
    · cases same
  | ok text => simp only [Except.mapError, compileFile_ok, Except.ok.injEq, exists_eq_left']

/-! ## Runs in a scene -/

/-- A scene with what a run has left and said. -/
def afterRun (s : Scene) (ran : Run) : Scene :=
  { s with
    tree := ran.tree
    stdout := s.stdout ++ ran.stdout
    log := s.log ++ shownLog s.level ran.log }

section Scene

variable {s : Scene} {source output : String}

theorem scene_run_of_uncompiled {d : Diagnostic}
    (failed : (compilation source s.tree).result = .error d) :
    (Scene.system.run source output).run s =
      (.error d, afterRun s ⟨.error d, greeting, s.tree, (compilation source s.tree).log⟩) := by
  rw [compilation] at failed
  simp only [Files.System.run, Scene.run_bind, Scene.run_print, Scene.run_readText,
    Scene.message_eq, failed]
  rfl

section Compiled

variable {c : String} (compiled : (compilation source s.tree).result = .ok c)
include compiled

theorem scene_run_of_refused {refusal : Refusal Failure}
    (refused : (s.tree.deliver output c).result = .error refusal) :
    (Scene.system.run source output).run s =
      (.error (Problem.disk refusal.message).unlocated,
        afterRun s ⟨.error (Problem.disk refusal.message).unlocated, greeting,
          (s.tree.deliver output c).tree,
          (compilation source s.tree).log ++ (s.tree.deliver output c).log⟩) := by
  rw [compilation] at compiled
  simp only [Files.System.run, Scene.run_bind, Scene.run_print, Scene.run_readText,
    Scene.message_eq, compiled, Scene.run_log, Scene.run_deliver, refused, afterRun,
    shownLog_append, ← List.append_assoc]
  rfl

theorem scene_run_of_delivered (delivered : (s.tree.deliver output c).result = .ok ()) :
    (Scene.system.run source output).run s =
      (.ok (), afterRun s ⟨.ok (), greeting ++ farewell, (s.tree.deliver output c).tree,
        (compilation source s.tree).log ++ (s.tree.deliver output c).log⟩) := by
  rw [compilation] at compiled
  simp only [Files.System.run, Scene.run_bind, Scene.run_print, Scene.run_readText,
    Scene.message_eq, compiled, Scene.run_log, Scene.run_deliver, delivered, afterRun,
    shownLog_append, ← List.append_assoc, ← String.append_assoc]
  rfl

end Compiled

end Scene

/-! ## Runs -/

section Run

variable {source output : String} {tree : Tree}

theorem run_eq {ran : Run} (left : (Scene.system.run source output).run tree.scene =
      (ran.result, afterRun tree.scene ran)) :
    run source output tree = ran := by
  -- everything is logged, and nothing was said before
  rw [run, left]
  simp only [afterRun, Tree.scene, String.empty_append, List.nil_append, shownLog_trace]

theorem run_of_uncompiled {d : Diagnostic} (failed : (compilation source tree).result = .error d) :
    run source output tree = ⟨.error d, greeting, tree, (compilation source tree).log⟩ :=
  run_eq (scene_run_of_uncompiled (s := tree.scene) failed)

section Compiled

variable {c : String} (compiled : (compilation source tree).result = .ok c)
include compiled

theorem run_of_refused {refusal : Refusal Failure}
    (refused : (tree.deliver output c).result = .error refusal) :
    run source output tree =
      ⟨.error (Problem.disk refusal.message).unlocated, greeting, (tree.deliver output c).tree,
        (compilation source tree).log ++ (tree.deliver output c).log⟩ :=
  run_eq (scene_run_of_refused (s := tree.scene) compiled refused)

theorem run_of_delivered (delivered : (tree.deliver output c).result = .ok ()) :
    run source output tree =
      ⟨.ok (), greeting ++ farewell, (tree.deliver output c).tree,
        (compilation source tree).log ++ (tree.deliver output c).log⟩ :=
  run_eq (scene_run_of_delivered (s := tree.scene) compiled delivered)

end Compiled

/-- What a run does to the files, it does whatever has been said before. -/
theorem scene_run (s : Scene) (source output : String) :
    (Scene.system.run source output).run s =
      ((run source output s.tree).result, afterRun s (run source output s.tree)) := by
  cases compiled : (compilation source s.tree).result with
  | error d => rw [scene_run_of_uncompiled compiled, run_of_uncompiled compiled]
  | ok c =>
    cases delivered : (s.tree.deliver output c).result with
    | error refusal =>
      rw [scene_run_of_refused compiled delivered, run_of_refused compiled delivered]
    | ok done => rw [scene_run_of_delivered compiled delivered, run_of_delivered compiled delivered]

theorem run_of_compilesTo {c : String} (compiles : CompilesTo tree source c)
    (writable : tree.Writable (.ofString output)) :
    (run source output tree).result = .ok () ∧
      (run source output tree).stdout = greeting ++ farewell ∧
      (run source output tree).tree = (tree.deliver output c).tree := by
  rw [run_of_delivered (compilation_eq_ok_iff.mpr compiles) (Tree.deliver_of_writable writable c).1]
  exact ⟨rfl, rfl, rfl⟩

theorem run_of_not_writable {c : String} (compiles : CompilesTo tree source c)
    (refused : ¬ tree.Writable (.ofString output)) :
    (∃ d, (run source output tree).result = .error d) ∧
      (run source output tree).stdout = greeting ∧
      (run source output tree).tree = (tree.deliver output c).tree := by
  obtain ⟨⟨refusal, failed⟩, -⟩ := Tree.deliver_of_not_writable refused c
  rw [run_of_refused (compilation_eq_ok_iff.mpr compiles) failed]
  exact ⟨⟨_, rfl⟩, rfl, rfl⟩

theorem run_of_not_compilesTo (fails : ¬ ∃ c, CompilesTo tree source c) (output : String) :
    (∃ d, (run source output tree).result = .error d) ∧
      (run source output tree).stdout = greeting ∧ (run source output tree).tree = tree := by
  cases compiled : (compilation source tree).result with
  | ok c => exact absurd ⟨c, compilation_eq_ok_iff.mp compiled⟩ fails
  | error d =>
    rw [run_of_uncompiled compiled]
    exact ⟨⟨d, rfl⟩, rfl, rfl⟩

end Run

/-! ## Calls -/

theorem levelOf?_eq_none {verbosity : Nat} (crazy : 4 < verbosity) : levelOf? verbosity = none := by
  match verbosity, crazy with
  | _ + 5, _ => rfl

theorem exists_levelOf?_eq_some {verbosity : Nat} (sane : verbosity ≤ 4) :
    ∃ level, levelOf? verbosity = some level := by
  match verbosity, sane with
  | 0, _ | 1, _ | 2, _ | 3, _ | 4, _ => exact ⟨_, rfl⟩

section Perform

variable {source output : String} {tree : Tree} {verbosity : Nat}

theorem perform_eq_of_ok {level : Level} (shown : levelOf? verbosity = some level)
    (ok : (run source output tree).result = .ok ()) :
    perform ⟨source, output, verbosity⟩ tree =
      ⟨0, (run source output tree).stdout, "", none,
        shownLog level (openingRecord level :: (run source output tree).log),
        (run source output tree).tree⟩ := by
  rw [perform, Files.System.perform, shown, ← List.singleton_append, shownLog_append]
  simp only [Scene.run_bind, Scene.run_setLevel, Scene.run_log, scene_run, Tree.scene, ok]
  simp only [Scene.run_pure, afterRun, String.empty_append, List.nil_append]

theorem perform_eq_of_error {level : Level} {d : Diagnostic}
    (shown : levelOf? verbosity = some level)
    (failed : (run source output tree).result = .error d) :
    perform ⟨source, output, verbosity⟩ tree =
      ⟨1, (run source output tree).stdout, bold d.render ++ "\n", none,
        shownLog level (openingRecord level :: (run source output tree).log),
        (run source output tree).tree⟩ := by
  rw [perform, Files.System.perform, shown, ← List.singleton_append, shownLog_append]
  simp only [Scene.run_bind, Scene.run_setLevel, Scene.run_log, scene_run, Tree.scene, failed]
  simp only [Scene.run_pure, Scene.run_printError, afterRun, String.empty_append, List.nil_append]

theorem perform_of_crazy (crazy : 4 < verbosity) :
    (perform ⟨source, output, verbosity⟩ tree).exit = 2 ∧
      (perform ⟨source, output, verbosity⟩ tree).stdout = "" ∧
      (perform ⟨source, output, verbosity⟩ tree).tree = tree := by
  simp only [perform, Files.System.perform, levelOf?_eq_none crazy]
  exact ⟨rfl, rfl, rfl⟩

theorem perform_of_ok (ok : (run source output tree).result = .ok ()) (sane : verbosity ≤ 4) :
    (perform ⟨source, output, verbosity⟩ tree).exit = 0 ∧
      (perform ⟨source, output, verbosity⟩ tree).stdout = (run source output tree).stdout ∧
      (perform ⟨source, output, verbosity⟩ tree).tree = (run source output tree).tree := by
  obtain ⟨level, shown⟩ := exists_levelOf?_eq_some sane
  rw [perform_eq_of_ok shown ok]
  exact ⟨rfl, rfl, rfl⟩

theorem perform_of_error {d : Diagnostic} (failed : (run source output tree).result = .error d)
    (sane : verbosity ≤ 4) :
    (perform ⟨source, output, verbosity⟩ tree).exit = 1 ∧
      (perform ⟨source, output, verbosity⟩ tree).stdout = (run source output tree).stdout ∧
      (perform ⟨source, output, verbosity⟩ tree).tree = (run source output tree).tree := by
  obtain ⟨level, shown⟩ := exists_levelOf?_eq_some sane
  rw [perform_eq_of_error shown failed]
  exact ⟨rfl, rfl, rfl⟩

end Perform

/-- Files are touched only by a run that succeeds.  A run succeeds if the source holds a text that
    compiles and the output is writable, and then only the output is written, with directories on
    the way to it. -/
theorem perform_touches_files_on_success (source output : String) (tree : Tree) :
    (∀ verbosity, 4 < verbosity →
      (perform ⟨source, output, verbosity⟩ tree).exit = 2 ∧
        (perform ⟨source, output, verbosity⟩ tree).stdout = "" ∧
        (perform ⟨source, output, verbosity⟩ tree).tree = tree) ∧
    ∃ exit stdout after,
      (∀ verbosity, verbosity ≤ 4 →
        (perform ⟨source, output, verbosity⟩ tree).exit = exit ∧
          (perform ⟨source, output, verbosity⟩ tree).stdout = stdout ∧
          (perform ⟨source, output, verbosity⟩ tree).tree = after) ∧
      (exit = 0 ∨ exit = 1) ∧
      (exit = 0 ↔
        (∃ c, CompilesTo tree source c) ∧ tree.Writable (.ofString output)) ∧
      (exit = 0 →
        stdout = greeting ++ farewell ∧
          (∃ c, CompilesTo tree source c ∧ after.Holds (.ofString output) c.toUTF8) ∧
          ∀ location, location ≠ (Path.ofString output).location →
            after.find? location = tree.find? location ∨
              location ∈ (Path.ofString output).directories ∧ tree.find? location = none ∧
                after.find? location = some .directory) ∧
      (exit = 1 →
        stdout = greeting ∧
          (∀ location content, after.find? location = some (.file content) ↔
            tree.find? location = some (.file content)) ∧
          ((¬ ∃ c, CompilesTo tree source c) → after = tree)) := by
  refine ⟨fun verbosity crazy => perform_of_crazy crazy, ?_⟩
  -- a run comes to its end, or to a delivery that fails, or not even to that
  by_cases compiles : ∃ c, CompilesTo tree source c
  · obtain ⟨c, compilesTo⟩ := compiles
    by_cases writable : tree.Writable (.ofString output)
    · obtain ⟨ok, stdout, left⟩ := run_of_compilesTo compilesTo writable
      obtain ⟨-, holds, others⟩ := Tree.deliver_of_writable writable c
      refine ⟨0, _, _, fun verbosity sane => perform_of_ok ok sane, .inl rfl,
        iff_of_true rfl ⟨⟨c, compilesTo⟩, writable⟩, fun _ => ?_,
        fun wrong => absurd wrong (by decide)⟩
      rw [left]
      exact ⟨stdout, ⟨c, compilesTo, holds⟩, others⟩
    · obtain ⟨⟨d, failed⟩, stdout, left⟩ := run_of_not_writable compilesTo writable
      obtain ⟨-, grows⟩ := Tree.deliver_of_not_writable writable c
      refine ⟨1, _, _, fun verbosity sane => perform_of_error failed sane, .inr rfl,
        iff_of_false (by decide) fun both => writable both.2,
        fun wrong => absurd wrong (by decide), fun _ => ?_⟩
      rw [left]
      exact ⟨stdout, fun _ _ => grows.file_iff, fun fails => absurd ⟨c, compilesTo⟩ fails⟩
  · obtain ⟨⟨d, failed⟩, stdout, left⟩ := run_of_not_compilesTo compiles output
    refine ⟨1, _, _, fun verbosity sane => perform_of_error failed sane, .inr rfl,
      iff_of_false (by decide) fun both => compiles both.1,
      fun wrong => absurd wrong (by decide), fun _ => ?_⟩
    rw [left]
    exact ⟨stdout, fun _ _ => .rfl, fun _ => rfl⟩

/-- A run that writes over its own source, by a path that leads through a missing directory, and one
    whose output would be below a plain file. -/
theorem perform_touches_files_on_success_of_same_file :
    let tree := Tree.empty.insert ["a.bas"] (.file "LET x = 1\nPRINT x\n".toUTF8)
    let self (verbosity : Nat) := perform ⟨"a.bas", "made/../a.bas", verbosity⟩ tree
    let below (verbosity : Nat) := perform ⟨"a.bas", "a.bas/made/b.c", verbosity⟩ tree
    ((self 5).exit = 2 ∧ (self 5).tree = tree) ∧
      ((self 4).exit = 0 ∧ (self 0).stdout = greeting ++ farewell ∧
        ∃ c, CompilesTo tree "a.bas" c ∧ (self 0).tree.Holds (.ofString "made/../a.bas") c.toUTF8) ∧
      (below 4).exit = 1 ∧ (below 0).stdout = greeting := by
  intro tree self below
  obtain ⟨crazy, exit, stdout, after, same, -, -, success, -⟩ :=
    perform_touches_files_on_success "a.bas" "made/../a.bas" tree
  obtain ⟨-, exit', stdout', after', same', -, -, -, failure⟩ :=
    perform_touches_files_on_success "a.bas" "a.bas/made/b.c" tree
  have succeeds : (self 4).exit = 0 := by decide +kernel
  have fails : (below 4).exit = 1 := by decide +kernel
  obtain ⟨said, holds, -⟩ := success ((same 4 (by decide)).1.symm.trans succeeds)
  obtain ⟨said', -⟩ := failure ((same' 4 (by decide)).1.symm.trans fails)
  obtain ⟨-, stdoutQuiet, afterQuiet⟩ := same 0 (by decide)
  obtain ⟨-, stdoutQuiet', -⟩ := same' 0 (by decide)
  refine ⟨⟨(crazy 5 (by decide)).1, (crazy 5 (by decide)).2.2⟩,
    ⟨succeeds, stdoutQuiet.trans said, ?_⟩, fails, stdoutQuiet'.trans said'⟩
  rw [← afterQuiet] at holds
  exact holds

end BasicToC.CommandLine
