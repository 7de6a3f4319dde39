import BasicToC.Files.Delivery

/-! # The program on a tree of files

The functions of a tree are runs of the program on a scene.  Here are the equations by which they
are known from then on: what is said in a scene only grows, and the tree does not depend on it.
-/

namespace BasicToC

theorem shownLog_append (level : Level) (log more : List LogRecord) :
    shownLog level (log ++ more) = shownLog level log ++ shownLog level more :=
  List.filter_append ..

theorem shownLog_trace (log : List LogRecord) : shownLog .trace log = log := by
  refine List.filter_eq_self.mpr fun record _ => ?_
  cases record.level <;> decide

namespace Files

/-! ## Single operations -/

theorem Tree.orDirectory_error (p : Path) (failure : Failure) (t : Tree) :
    orDirectory p (.error failure, t) = (if t.isDirectory p then .ok () else .error failure, t) :=
  rfl

theorem Tree.makeDirectory_error {t u : Tree} {p : Path} {failure : Failure}
    (failed : t.makeDirectory p = (.error failure, u)) : u = t := by
  unfold makeDirectory at failed
  split at failed
  · exact (congrArg Prod.snd failed).symm
  · cases failed

namespace Scene

theorem run_pure {α : Type} (value : α) (s : Scene) :
    (pure value : StateM Scene α).run s = (value, s) :=
  rfl

theorem run_bind {α β : Type} (action : StateM Scene α) (next : α → StateM Scene β) (s : Scene) :
    (action >>= next).run s = (next (action.run s).1).run (action.run s).2 :=
  rfl

theorem run_makeDirectory (s : Scene) (p : Path) :
    (system.makeDirectory p).run s =
      ((s.tree.makeDirectory p).1, { s with tree := (s.tree.makeDirectory p).2 }) :=
  rfl

theorem run_write (s : Scene) (p : Path) (text : String) :
    (system.write p text).run s =
      ((s.tree.write p text).1, { s with tree := (s.tree.write p text).2 }) :=
  rfl

theorem run_readText (s : Scene) (p : Path) :
    (system.readText p).run s = (s.tree.readText p, s) :=
  rfl

theorem run_print (s : Scene) (text : String) :
    (system.print text).run s = ((), { s with stdout := s.stdout ++ text }) :=
  rfl

theorem run_printError (s : Scene) (text : String) :
    (system.printError text).run s = ((), { s with stderr := s.stderr ++ text }) :=
  rfl

theorem run_setLevel (s : Scene) (level : Level) :
    (system.setLevel level).run s = ((), { s with level }) :=
  rfl

theorem run_log (s : Scene) (records : List LogRecord) :
    (system.log records).run s = ((), { s with log := s.log ++ shownLog s.level records }) :=
  rfl

theorem message_eq : system.message = Failure.message :=
  rfl

theorem isMissing_notFound : system.isMissing .notFound = true :=
  rfl

theorem run_orDirectory (s : Scene) (p : Path) (attempt : Except Failure Unit) :
    (system.orDirectory p attempt).run s =
      ((Tree.orDirectory p (attempt, s.tree)).1,
        { s with tree := (Tree.orDirectory p (attempt, s.tree)).2 }) := by
  cases attempt with
  | ok done => rfl
  | error failure => rfl

/-! ## Making directories -/

/-- Directories are made without a word. -/
theorem run_makeDirectories (s : Scene) (ps : List Path) :
    (system.makeDirectories ps).run s =
      ((s.tree.makeDirectories ps).1, { s with tree := (s.tree.makeDirectories ps).2 }) := by
  induction ps generalizing s with
  | nil => rfl
  | cons p parents ih =>
    -- the tree alone is a scene too, and both take the same way
    rw [Tree.makeDirectories, Tree.apply, System.makeDirectories, run_bind, run_bind,
      run_makeDirectory, run_makeDirectory]
    dsimp only [Tree.scene]
    cases (s.tree.makeDirectory p).1 with
    | ok done => rfl
    | error failure =>
      dsimp only
      split
      · rw [run_bind, run_bind, ih, ih]
        dsimp only
        cases ((s.tree.makeDirectory p).2.makeDirectories parents).1 with
        | ok done =>
          dsimp only
          rw [run_bind, run_bind, run_orDirectory, run_orDirectory]
          rfl
        | error failure => rfl
      · rw [run_orDirectory, run_orDirectory]

end Scene

namespace Tree

variable {t u v : Tree} {p : Path} {failure : Failure}

section Cons

variable {stations : List Path}

theorem makeDirectories_cons_of_ne_notFound (stations : List Path)
    (other : ∀ u, t.makeDirectory p ≠ (.error .notFound, u)) :
    t.makeDirectories (p :: stations) = orDirectory p (t.makeDirectory p) := by
  rw [makeDirectories, apply, System.makeDirectories, Scene.run_bind, Scene.run_makeDirectory]
  dsimp only [scene]
  cases made : t.makeDirectory p with
  | mk result u =>
    cases result with
    | ok done => rfl
    | error failure =>
      have present : Scene.system.isMissing failure = false := by
        refine beq_eq_false_iff_ne.mpr ?_
        rintro rfl
        exact other u made
      simp only [present, Bool.false_eq_true, if_false, Scene.run_orDirectory]

theorem makeDirectories_cons_of_notFound (missing : t.makeDirectory p = (.error .notFound, u))
    (made : t.makeDirectories stations = (.ok (), v)) :
    t.makeDirectories (p :: stations) = orDirectory p (v.makeDirectory p) := by
  obtain rfl := makeDirectory_error missing
  rw [makeDirectories, apply, System.makeDirectories, Scene.run_bind, Scene.run_makeDirectory]
  simp only [scene, missing, Scene.isMissing_notFound, if_true, Scene.run_bind,
    Scene.run_makeDirectories, made, Scene.run_makeDirectory, Scene.run_orDirectory]

theorem makeDirectories_cons_of_error (missing : t.makeDirectory p = (.error .notFound, u))
    (failed : t.makeDirectories stations = (.error failure, v)) :
    t.makeDirectories (p :: stations) = (.error failure, v) := by
  obtain rfl := makeDirectory_error missing
  rw [makeDirectories, apply, System.makeDirectories, Scene.run_bind, Scene.run_makeDirectory]
  simp only [scene, missing, Scene.isMissing_notFound, if_true, Scene.run_bind,
    Scene.run_makeDirectories, failed]
  rfl

/-- How directories are made: by one attempt, or by the others and one more attempt, or the others
    cannot be made. -/
theorem makeDirectories_cons_cases (t : Tree) (p : Path) (stations : List Path) :
    (∀ u, t.makeDirectory p ≠ (.error .notFound, u)) ∧
        t.makeDirectories (p :: stations) = orDirectory p (t.makeDirectory p) ∨
      (∃ u, t.makeDirectory p = (.error .notFound, u)) ∧
        ((∃ v, t.makeDirectories stations = (.ok (), v) ∧
            t.makeDirectories (p :: stations) = orDirectory p (v.makeDirectory p)) ∨
          ∃ failure v, t.makeDirectories stations = (.error failure, v) ∧
            t.makeDirectories (p :: stations) = (.error failure, v)) := by
  by_cases missing : ∃ u, t.makeDirectory p = (.error .notFound, u)
  · refine .inr ⟨missing, ?_⟩
    obtain ⟨u, missing⟩ := missing
    cases others : t.makeDirectories stations with
    | mk result v =>
      cases result with
      | ok done => exact .inl ⟨v, rfl, makeDirectories_cons_of_notFound missing others⟩
      | error failure =>
        exact .inr ⟨failure, v, rfl, makeDirectories_cons_of_error missing others⟩
  · rw [not_exists] at missing
    exact .inl ⟨missing, makeDirectories_cons_of_ne_notFound stations missing⟩

end Cons

/-! ## Deliveries -/

section Deliver

variable {path text : String}

theorem deliver_of_unmade (text : String)
    (unmade : t.makeDirectories (Path.ofString path).parents = (.error failure, u)) :
    t.deliver path text = ⟨.error ⟨failure, failure.message⟩, u, []⟩ := by
  simp only [deliver, System.deliver, Scene.run_bind, Scene.run_makeDirectories, scene, unmade]
  rfl

theorem deliver_of_unwritten
    (made : t.makeDirectories (Path.ofString path).parents = (.ok (), u))
    (unwritten : u.write (.ofString path) text = (.error failure, v)) :
    t.deliver path text =
      ⟨.error ⟨failure, about path failure.message⟩, v, [writingRecord path]⟩ := by
  simp only [deliver, System.deliver, Scene.run_bind, Scene.run_makeDirectories, scene, made,
    Scene.run_log, Scene.run_write, unwritten]
  rfl

theorem deliver_of_written
    (made : t.makeDirectories (Path.ofString path).parents = (.ok (), u))
    (written : u.write (.ofString path) text = (.ok (), v)) :
    t.deliver path text = ⟨.ok (), v, [writingRecord path]⟩ := by
  simp only [deliver, System.deliver, Scene.run_bind, Scene.run_makeDirectories, scene, made,
    Scene.run_log, Scene.run_write, written]
  rfl

end Deliver

/-- Where a delivery can end: at the directories, at the file, or well. -/
theorem deliver_ends (t : Tree) (path text : String) :
    (∃ failure u, t.makeDirectories (Path.ofString path).parents = (.error failure, u)) ∨
      ∃ u, t.makeDirectories (Path.ofString path).parents = (.ok (), u) ∧
        ((∃ failure v, u.write (.ofString path) text = (.error failure, v)) ∨
          ∃ v, u.write (.ofString path) text = (.ok (), v)) := by
  cases t.makeDirectories (Path.ofString path).parents with
  | mk result u =>
    cases result with
    | error failure => exact .inl ⟨failure, u, rfl⟩
    | ok done =>
      refine .inr ⟨u, rfl, ?_⟩
      cases u.write (.ofString path) text with
      | mk result v =>
        cases result with
        | error failure => exact .inl ⟨failure, v, rfl⟩
        | ok done => exact .inr ⟨v, rfl⟩

/-- A delivery logs no more than that it begins to write. -/
theorem log_deliver (t : Tree) (path text : String) :
    (t.deliver path text).log = [] ∨ (t.deliver path text).log = [writingRecord path] := by
  obtain ⟨failure, u, unmade⟩ | ⟨u, made, ⟨failure, v, unwritten⟩ | ⟨v, written⟩⟩ :=
    t.deliver_ends path text
  · exact .inl (by rw [deliver_of_unmade text unmade])
  · exact .inr (by rw [deliver_of_unwritten made unwritten])
  · exact .inr (by rw [deliver_of_written made written])

end Tree

/-- What a delivery does to the files, it does whatever has been said before. -/
theorem Scene.run_deliver (s : Scene) (path text : String) :
    (system.deliver path text).run s =
      ((s.tree.deliver path text).result,
        { s with
          tree := (s.tree.deliver path text).tree
          log := s.log ++ shownLog s.level (s.tree.deliver path text).log }) := by
  obtain ⟨failure, u, unmade⟩ | ⟨u, made, ⟨failure, v, unwritten⟩ | ⟨v, written⟩⟩ :=
    s.tree.deliver_ends path text
  · rw [Tree.deliver_of_unmade text unmade, shownLog, List.filter_nil, List.append_nil]
    simp only [System.deliver, run_bind, run_makeDirectories, unmade]
    rfl
  · rw [Tree.deliver_of_unwritten made unwritten]
    simp only [System.deliver, run_bind, run_makeDirectories, made, run_log, run_write, unwritten]
    rfl
  · rw [Tree.deliver_of_written made written]
    simp only [System.deliver, run_bind, run_makeDirectories, made, run_log, run_write, written]
    rfl

end Files

end BasicToC
