import BasicToC.Proofs.Delivery

/-! # Delivering again

Several texts are delivered in turn to one path.  The first delivery may make directories, so the
later ones find another tree, even where the first one is refused.  What they can find is said
here: a second attempt to make the same directories changes nothing (`makeDirectories_again_of_ok`,
`makeDirectories_again_of_error`), so all deliveries succeed or all are refused.

The later refusals are the first one, but for one case.  A path may lead upwards again out of a
directory that is missing, and then into a plain file.  At first the missing directory is noticed;
once it has been made, the file.
-/

namespace BasicToC.Files

namespace Tree

/-! ## Walks that stop -/

theorem enter_append_of_error {t : Tree} {here : Location} {front : List String}
    {failure : Failure} (stopped : t.enter here front = .error failure) (back : List String) :
    t.enter here (front ++ back) = .error failure := by
  induction front generalizing here with
  | nil =>
    rw [enter_nil] at stopped
    cases found : t.find? here with
    | none => cases back <;> simp_all [enter_nil, enter_cons]
    | some entry =>
      cases entry with
      | file content => cases back <;> simp_all [enter_nil, enter_cons]
      | directory => simp [found] at stopped
  | cons segment front ih =>
    rw [List.cons_append, enter_cons]
    rw [enter_cons] at stopped
    split
    · next found => simpa [found] using stopped
    · next found => simpa [found] using stopped
    · next found =>
      simp only [found] at stopped
      split at stopped
      · next long => rw [if_pos long, stopped]
      · next long => rw [if_neg long, ih stopped]

/-- Where a path is entered, one more segment leads on, if there is a directory. -/
theorem enter_concat_of_ok {t : Tree} {here directory : Location} {front : List String}
    (entered : t.enter here front = .ok directory) (last : String) :
    t.enter here (front ++ [last]) =
      if Path.isTooLong last then .error .nameTooLong else t.enter (child directory last) [] := by
  rw [enter, List.append_assoc, ← List.append_assoc, walk_append, walk_concat, entered]
  cases Path.isTooLong last <;> rfl

theorem isTooLong_of_isDots {segment : String} (dots : Path.isDots segment = true) :
    Path.isTooLong segment = false := by
  rcases (by simpa [Path.isDots] using dots : segment = "." ∨ segment = "..") with rfl | rfl <;>
    decide

theorem enter_concat_of_idle {last : String} (idle : Path.isIdle last = true) (t : Tree)
    (here : Location) (front : List String) :
    t.enter here (front ++ [last]) = t.enter here front := by
  cases entered : t.enter here front with
  | error failure => exact enter_append_of_error entered [last]
  | ok directory =>
    have notLong : Path.isTooLong last = false := by
      rcases (by simpa [Path.isIdle] using idle : last = "" ∨ last = ".") with rfl | rfl <;> decide
    obtain ⟨directories, -, rfl⟩ := enter_eq_ok_iff.mp entered
    rw [enter_concat_of_ok entered, notLong, child_of_idle idle, enter_nil,
      directories front List.prefix_rfl]
    rfl

/-- A plain file is no directory to enter, nor to pass. -/
theorem Holds.enter_eq_error {t : Tree} {p : Path} {content : ByteArray} (holds : t.Holds p content)
    (back : List String) : t.enter (origin p) (p.segments ++ back) = .error .notADirectory := by
  refine enter_append_of_error ?_ back
  have walked := walk_segments_eq_ok_iff.mpr ⟨holds.short, holds.directories, rfl⟩
  rw [enter, walk_append, walked]
  simp [Except.bind, walk, holds.found]

/-! ## One attempt -/

theorem orDirectory_of_enter_error {t : Tree} {p : Path} {stop : Failure}
    (stopped : t.enter (origin p) p.segments = .error stop) (failure : Failure) :
    orDirectory p (.error failure, t) = (.error failure, t) := by
  have notThere : t.isDirectory p = false := by
    rw [isDirectory, stopped]
    cases objection? p <;> rfl
  rw [orDirectory_error, notThere]
  rfl

theorem makeDirectory_of_tooLong {t : Tree} {p : Path} {front : List String} {last : String}
    {directory : Location} (segments : p.segments = front ++ [last])
    (acceptable : objection? p = none) (entered : t.enter (origin p) front = .ok directory)
    (long : Path.isTooLong last = true) : t.makeDirectory p = (.error .nameTooLong, t) := by
  have notDots : Path.isDots last = false := by
    rw [← Bool.not_eq_true]
    intro dots
    rw [isTooLong_of_isDots dots] at long
    cases long
  simp [makeDirectory, directoryLocation_concat segments acceptable, entered, Except.bind, notDots,
    long]

theorem Holds.makeDirectory {t : Tree} {p : Path} {content : ByteArray} (holds : t.Holds p content)
    (ends : p.endsInName = true) : t.makeDirectory p = (.error .alreadyExists, t) := by
  obtain ⟨front, last, segments, -⟩ := Path.exists_of_endsInName ends
  have entered : ∀ shorter, shorter <+: front →
      t.find? (follow (origin p) shorter) = some .directory := fun shorter isShorter =>
    holds.directories _ ((Path.mem_directories_concat segments).mpr ⟨shorter, isShorter, rfl⟩)
  simp [Tree.makeDirectory, holds.found,
    directoryLocation_of_entered segments entered holds.acceptable holds.short ends]

/-- How an attempt to make a directory can end: it is there, or nothing was done.  In the second
    case the way to it is blocked, its name is too long, or it is a plain file. -/
theorem orDirectory_makeDirectory_cases {p : Path} {front : List String} {last : String}
    (segments : p.segments = front ++ [last]) (ends : p.endsInName = true) (noSlash : p.NoSlash)
    (acceptable : objection? p = none) (t : Tree) :
    (∃ u, orDirectory p (t.makeDirectory p) = (.ok (), u) ∧ u.isDirectory p = true) ∨
      ∃ failure, t.makeDirectory p = (.error failure, t) ∧
        orDirectory p (t.makeDirectory p) = (.error failure, t) ∧
        (t.enter (origin p) front = .error failure ∨
          (∃ directory, t.enter (origin p) front = .ok directory) ∧
            (failure = .nameTooLong ∧ t.enter (origin p) p.segments = .error .nameTooLong ∨
              failure = .alreadyExists ∧ ∃ content, t.Holds p content)) := by
  have refused : ∀ {failure stop}, t.makeDirectory p = (.error failure, t) →
      t.enter (origin p) p.segments = .error stop →
      orDirectory p (t.makeDirectory p) = (.error failure, t) :=
    fun failed stopped => failed ▸ orDirectory_of_enter_error stopped _
  cases entered : t.enter (origin p) front with
  | error failure =>
    have failed := makeDirectory_of_enter_error segments acceptable entered
    have stopped := segments ▸ enter_append_of_error entered [last]
    exact .inr ⟨failure, failed, refused failed stopped, .inl rfl⟩
  | ok directory =>
    cases long : Path.isTooLong last with
    | true =>
      have failed := makeDirectory_of_tooLong segments acceptable entered long
      have stopped : t.enter (origin p) p.segments = .error .nameTooLong := by
        rw [segments, enter_concat_of_ok entered, if_pos long]
      exact .inr ⟨_, failed, refused failed stopped, .inr ⟨⟨_, rfl⟩, .inl ⟨rfl, stopped⟩⟩⟩
    | false =>
      obtain ⟨directories, notLong, rfl⟩ := enter_eq_ok_iff.mp entered
      have short : p.Short := by
        intro segment mem
        rw [segments, List.mem_append, List.mem_singleton] at mem
        rcases mem with mem | rfl
        · exact notLong segment mem
        · exact long
      by_cases isFile : ∃ content, t.find? p.location = some (.file content)
      · obtain ⟨content, found⟩ := isFile
        have holds : t.Holds p content := by
          refine ⟨acceptable, short, fun location onTheWay => ?_, found⟩
          obtain ⟨shorter, isShorter, rfl⟩ := (Path.mem_directories_concat segments).mp onTheWay
          exact directories shorter isShorter
        have failed := holds.makeDirectory ends
        have stopped := holds.enter_eq_error []
        rw [List.append_nil] at stopped
        exact .inr ⟨_, failed, refused failed stopped,
          .inr ⟨⟨_, rfl⟩, .inr ⟨rfl, content, holds⟩⟩⟩
      · obtain ⟨-, u, made, directories'⟩ := orDirectory_of_entered segments directories acceptable
          short ends noSlash fun content found => isFile ⟨content, found⟩
        exact .inl ⟨u, made, isDirectory_iff.mpr ⟨acceptable, directories', short⟩⟩

theorem makeDirectory_of_objection {p : Path} {failure : Failure}
    (objected : objection? p = some failure) (t : Tree) :
    t.makeDirectory p = (.error failure, t) := by
  simp [makeDirectory, directoryLocation, objected]

theorem orDirectory_of_objection {p : Path} {failure : Failure}
    (objected : objection? p = some failure) (t : Tree) :
    orDirectory p (t.makeDirectory p) = (.error failure, t) := by
  simp [makeDirectory_of_objection objected, orDirectory_error, isDirectory, objected]

theorem eq_of_orDirectory_eq_error {t u : Tree} {p : Path} {failure : Failure}
    (ends : p.endsInName = true) (noSlash : p.NoSlash)
    (failed : orDirectory p (t.makeDirectory p) = (.error failure, u)) : u = t := by
  have left : u = (t.makeDirectory p).2 := by rw [← orDirectory_snd p, failed]
  rcases makeDirectory_cases ends noSlash t with ⟨_, undone⟩ | ⟨-, -, made⟩
  · rw [left, undone]
  · rw [made] at failed
    cases failed

theorem isDirectory_of_orDirectory {t u : Tree} {p : Path} (ends : p.endsInName = true)
    (noSlash : p.NoSlash) (done : orDirectory p (t.makeDirectory p) = (.ok (), u)) :
    u.isDirectory p = true := by
  cases objected : objection? p with
  | some failure =>
    rw [orDirectory_of_objection objected] at done
    cases done
  | none =>
    obtain ⟨front, last, segments, -⟩ := Path.exists_of_endsInName ends
    rcases orDirectory_makeDirectory_cases segments ends noSlash objected t with
      ⟨v, done', isThere⟩ | ⟨failure, -, failed, -⟩
    · cases done.symm.trans done'
      exact isThere
    · cases done.symm.trans failed

/-! ## Making the same directories again -/

theorem makeDirectories_cons_of_isDirectory {t : Tree} {p : Path} (ends : p.endsInName = true)
    (isThere : t.isDirectory p = true) (stations : List Path) :
    t.makeDirectories (p :: stations) = (.ok (), t) := by
  obtain ⟨acceptable, directories, short⟩ := isDirectory_iff.mp isThere
  obtain ⟨front, last, segments, -⟩ := Path.exists_of_endsInName ends
  have found : t.find? p.location = some .directory := directories _ List.prefix_rfl
  have failed : t.makeDirectory p = (.error .alreadyExists, t) := by
    have entered : ∀ shorter, shorter <+: front →
        t.find? (follow (origin p) shorter) = some .directory := fun shorter isShorter =>
      directories shorter (segments ▸ isShorter.trans (List.prefix_append _ _))
    simp [makeDirectory, directoryLocation_of_entered segments entered acceptable short ends, found]
  rw [makeDirectories_cons_of_ne_notFound stations (by simp [failed]), failed, orDirectory_error,
    isThere]
  rfl

theorem isDirectory_of_makeDirectories {t u : Tree} {p : Path} {stations : List Path}
    (ends : p.endsInName = true) (noSlash : p.NoSlash)
    (made : t.makeDirectories (p :: stations) = (.ok (), u)) : u.isDirectory p = true := by
  rcases makeDirectories_cons_cases t p stations with
    ⟨-, attempt⟩ | ⟨-, ⟨v, -, attempt⟩ | ⟨failure, v, -, failed⟩⟩
  · exact isDirectory_of_orDirectory ends noSlash (attempt ▸ made)
  · exact isDirectory_of_orDirectory ends noSlash (attempt ▸ made)
  · cases made.symm.trans failed

end Tree

namespace Path

/-- A last segment is a station of its own, or it leads nowhere else. -/
theorem stations_concat_cases (absolute : Bool) (front : List String) (last : String) :
    endsInName ⟨absolute, front ++ [last]⟩ = true ∧
        stations ⟨absolute, front ++ [last]⟩ =
          ⟨absolute, front ++ [last]⟩ :: stations ⟨absolute, front⟩ ∨
      isIdle last = true ∧
        stations ⟨absolute, front ++ [last]⟩ = stations ⟨absolute, front⟩ := by
  rw [stations_concat]
  by_cases ends : endsInName ⟨absolute, front ++ [last]⟩ = true
  · exact .inl ⟨ends, by rw [if_pos ends]; rfl⟩
  · refine .inr ⟨?_, by rw [if_neg ends]; rfl⟩
    by_contra busy
    rw [Bool.not_eq_true] at busy
    exact ends (endsInName_of_busy rfl busy)

/-- After a station come those on the way to it. -/
theorem of_stations_eq_cons {p q : Path} {rest : List Path} (stations : p.stations = q :: rest) :
    q.endsInName = true ∧ ∃ front last, q = ⟨p.absolute, front ++ [last]⟩ ∧
      rest = Path.stations ⟨p.absolute, front⟩ := by
  obtain ⟨absolute, segments⟩ := p
  induction segments using List.reverseRecOn with
  | nil => cases stations
  | append_singleton front last ih =>
    rcases stations_concat_cases absolute front last with ⟨ends, whole⟩ | ⟨-, shorter⟩
    · cases whole.symm.trans stations
      exact ⟨ends, front, last, rfl, rfl⟩
    · exact ih (shorter ▸ stations)

/-- The directories that lead to what a path names are the stations of a path. -/
theorem exists_parents_eq_stations (p : Path) :
    ∃ front, front <+: p.segments ∧ p.parents = stations ⟨p.absolute, front⟩ := by
  cases whole : p.stations with
  | nil => exact ⟨[], List.nil_prefix, by rw [parents, whole]; rfl⟩
  | cons q rest =>
    obtain ⟨-, front, last, rfl, rfl⟩ := of_stations_eq_cons whole
    have isFront := (of_mem_stations (whole ▸ List.mem_cons_self)).2.1
    exact ⟨front, (List.prefix_append _ _).trans isFront, by rw [parents, whole]; rfl⟩

end Path

namespace Tree

theorem enter_of_makeDirectories {t u : Tree} {p : Path} (noSlash : p.NoSlash)
    (made : t.makeDirectories p.stations = (.ok (), u)) :
    ∃ directory, u.enter (origin p) p.segments = .ok directory := by
  obtain ⟨absolute, segments⟩ := p
  induction segments using List.reverseRecOn with
  | nil => exact ⟨_, by rw [enter_nil, find?_of_isAncestor (isAncestor_origin _)]⟩
  | append_singleton front last ih =>
    rcases Path.stations_concat_cases absolute front last with ⟨ends, whole⟩ | ⟨idle, shorter⟩
    · have isThere := isDirectory_of_makeDirectories ends noSlash (whole ▸ made)
      obtain ⟨-, directories, short⟩ := isDirectory_iff.mp isThere
      exact ⟨_, enter_eq_ok_iff.mpr ⟨directories, short, rfl⟩⟩
    · obtain ⟨directory, entered⟩ :=
        ih (noSlash.of_prefix (List.prefix_append _ _)) (shorter ▸ made)
      exact ⟨directory, (enter_concat_of_idle idle _ _ _).trans entered⟩

/-- How the directories of a path cannot be made: nothing is done at all, or one of the names is too
    long, or one of them is a plain file. -/
theorem makeDirectories_stations_of_error {t u : Tree} {p : Path} {failure : Failure}
    (noSlash : p.NoSlash) (acceptable : ∀ q ∈ p.stations, objection? q = none)
    (failed : t.makeDirectories p.stations = (.error failure, u)) :
    u = t ∨
      failure = .nameTooLong ∧ u.enter (origin p) p.segments = .error .nameTooLong ∨
      failure = .alreadyExists ∧ ∃ q ∈ p.stations, ∃ content, u.Holds q content := by
  obtain ⟨absolute, segments⟩ := p
  induction segments using List.reverseRecOn with
  | nil => cases failed
  | append_singleton front last ih =>
    have noSlash' : Path.NoSlash ⟨absolute, front⟩ := noSlash.of_prefix (List.prefix_append _ _)
    rcases Path.stations_concat_cases absolute front last with ⟨ends, whole⟩ | ⟨idle, shorter⟩
    · rw [whole, List.forall_mem_cons] at acceptable
      rw [whole] at failed
      simp only [whole, List.exists_mem_cons_iff]
      have attempts := orDirectory_makeDirectory_cases (p := ⟨absolute, front ++ [last]⟩) rfl ends
        noSlash acceptable.1
      rcases makeDirectories_cons_cases t ⟨absolute, front ++ [last]⟩
        (Path.stations ⟨absolute, front⟩) with
        ⟨-, attempt⟩ | ⟨-, ⟨v, made, attempt⟩ | ⟨_, _, others, failed'⟩⟩
      · rcases attempts t with ⟨_, done, -⟩ | ⟨_, -, nothing, -⟩
        · cases failed.symm.trans (attempt.trans done)
        · cases failed.symm.trans (attempt.trans nothing)
          exact .inl rfl
      · -- the way is there now, so it is the last name that is wrong
        rcases attempts v with ⟨_, done, -⟩ | ⟨_, -, nothing, blocked | ⟨-, wrong⟩⟩
        · cases failed.symm.trans (attempt.trans done)
        · obtain ⟨directory, entered⟩ := enter_of_makeDirectories noSlash' made
          cases blocked.symm.trans entered
        · cases failed.symm.trans (attempt.trans nothing)
          rcases wrong with long | ⟨isFailure, isFile⟩
          · exact .inr (.inl long)
          · exact .inr (.inr ⟨isFailure, .inl isFile⟩)
      · cases failed.symm.trans failed'
        rcases ih noSlash' acceptable.2 others with nothing | ⟨isFailure, stopped⟩ |
          ⟨isFailure, isFile⟩
        · exact .inl nothing
        · exact .inr (.inl ⟨isFailure, enter_append_of_error stopped [last]⟩)
        · exact .inr (.inr ⟨isFailure, .inr isFile⟩)
    · rw [shorter] at acceptable failed ⊢
      rw [enter_concat_of_idle idle]
      exact ih noSlash' acceptable failed

/-- One of these paths leads to a plain file in the second tree, and did not in the first. -/
def Uncovers (t u : Tree) (paths : List Path) : Prop :=
  ∃ q ∈ paths, ∃ content, u.Holds q content ∧ ¬ t.Holds q content

theorem not_uncovers_self (t : Tree) (paths : List Path) : ¬ t.Uncovers t paths :=
  fun ⟨_, _, _, holds, notHolds⟩ => notHolds holds

theorem makeDirectories_again_of_ok {t u : Tree} {p : Path} (noSlash : p.NoSlash)
    (made : t.makeDirectories p.stations = (.ok (), u)) :
    u.makeDirectories p.stations = (.ok (), u) := by
  cases whole : p.stations with
  | nil => rfl
  | cons q rest =>
    obtain ⟨-, isFront, ends⟩ := Path.of_mem_stations (whole ▸ List.mem_cons_self : q ∈ p.stations)
    rw [whole] at made
    exact makeDirectories_cons_of_isDirectory ends
      (isDirectory_of_makeDirectories ends (noSlash.of_prefix isFront) made) rest

theorem makeDirectories_cons_of_enter_error {t : Tree} {p : Path} {front : List String}
    {last : String} {failure : Failure} (segments : p.segments = front ++ [last])
    (acceptable : objection? p = none) (stopped : t.enter (origin p) front = .error failure)
    (other : failure ≠ .notFound) (stations : List Path) :
    t.makeDirectories (p :: stations) = (.error failure, t) := by
  have failed := makeDirectory_of_enter_error segments acceptable stopped
  rw [makeDirectories_cons_of_ne_notFound stations (by simp [failed, other]), failed]
  exact orDirectory_of_enter_error (segments ▸ enter_append_of_error stopped [last]) failure

/-- A plain file on the way to a directory is in the way. -/
theorem Holds.enter_of_mem_stations {t : Tree} {p q : Path} {content : ByteArray}
    (holds : t.Holds q content) (mem : q ∈ p.stations) :
    t.enter (origin p) p.segments = .error .notADirectory := by
  obtain ⟨isAbsolute, ⟨back, segments⟩, -⟩ := Path.of_mem_stations mem
  have same : origin p = origin q := by simp only [origin, isAbsolute]
  rw [same, ← segments]
  exact holds.enter_eq_error back

/-- If a walk ends otherwise than at a plain file, no file has come to be in its way. -/
theorem not_uncovers_of_enter {t u : Tree} {p : Path} {result : Except Failure Location}
    (entered : u.enter (origin p) p.segments = result) (other : result ≠ .error .notADirectory) :
    ¬ t.Uncovers u p.stations := by
  rintro ⟨q, mem, content, holds, -⟩
  exact other (entered.symm.trans (holds.enter_of_mem_stations mem))

/-- Where the way is there, one more attempt fails as this one. -/
theorem makeDirectories_cons_of_entered {t : Tree} {p : Path} {front : List String} {last : String}
    {directory : Location} {failure : Failure} (segments : p.segments = front ++ [last])
    (ends : p.endsInName = true) (noSlash : p.NoSlash) (acceptable : objection? p = none)
    (entered : t.enter (origin p) front = .ok directory)
    (failed : orDirectory p (t.makeDirectory p) = (.error failure, t)) (stations : List Path) :
    t.makeDirectories (p :: stations) = (.error failure, t) := by
  rcases orDirectory_makeDirectory_cases segments ends noSlash acceptable t with
    ⟨_, done, -⟩ | ⟨_, undone, -, blocked | ⟨-, wrong⟩⟩
  · cases failed.symm.trans done
  · cases entered.symm.trans blocked
  · rw [makeDirectories_cons_of_ne_notFound, failed]
    rcases wrong with ⟨rfl, -⟩ | ⟨rfl, -⟩ <;> simp [undone]

theorem objection?_of_notFound {t u : Tree} {p : Path} (ends : p.endsInName = true)
    (missing : t.makeDirectory p = (.error .notFound, u)) : objection? p = none := by
  cases objected : objection? p with
  | none => rfl
  | some failure =>
    rw [makeDirectory_of_objection objected] at missing
    cases missing
    have notEmpty := Path.text_ne_empty ends
    simp only [objection?, notEmpty, if_false] at objected
    split at objected
    · cases objected
    · split at objected <;> cases objected

/-- A second attempt to make the directories that cannot be made leaves everything as it is, and
    fails as the first one, unless that has uncovered a plain file. -/
theorem makeDirectories_again_of_error {t u : Tree} {p : Path} {failure : Failure}
    (noSlash : p.NoSlash) (failed : t.makeDirectories p.stations = (.error failure, u)) :
    ∃ again, u.makeDirectories p.stations = (.error again, u) ∧
      (again = failure ∧ ¬ t.Uncovers u p.stations.tail ∨
        failure = .alreadyExists ∧ again = .notADirectory ∧ t.Uncovers u p.stations.tail) := by
  -- where nothing was done, the second attempt is the first one
  by_cases nothing : u = t
  · subst nothing
    exact ⟨failure, failed, .inl ⟨rfl, not_uncovers_self u _⟩⟩
  cases whole : p.stations with
  | nil =>
    rw [whole] at failed
    cases failed
  | cons q rest =>
    obtain ⟨-, isFront, -⟩ := Path.of_mem_stations (whole ▸ List.mem_cons_self : q ∈ p.stations)
    have noSlash' : q.NoSlash := noSlash.of_prefix isFront
    obtain ⟨ends, front, last, rfl, rfl⟩ := Path.of_stations_eq_cons whole
    let way : Path := ⟨p.absolute, front⟩
    have noSlash'' : way.NoSlash := noSlash'.of_prefix (List.prefix_append _ _)
    rw [whole] at failed
    rw [List.tail_cons]
    rcases makeDirectories_cons_cases t ⟨p.absolute, front ++ [last]⟩ way.stations with
      ⟨-, attempt⟩ | ⟨⟨_, missing⟩, others⟩
    · rw [attempt] at failed
      exact absurd (eq_of_orDirectory_eq_error ends noSlash' failed) nothing
    have acceptable := objection?_of_notFound ends missing
    have again : ∀ {stop}, u.enter (origin way) front = .error stop → stop ≠ .notFound →
        u.makeDirectories (⟨p.absolute, front ++ [last]⟩ :: way.stations) = (.error stop, u) :=
      fun stopped other => makeDirectories_cons_of_enter_error rfl acceptable stopped other _
    rcases others with ⟨v, made, attempt⟩ | ⟨_, _, unmade, failed'⟩
    · -- the way is there, and so it is for the second attempt
      obtain ⟨directory, entered⟩ := enter_of_makeDirectories noSlash'' made
      rw [attempt] at failed
      obtain rfl := eq_of_orDirectory_eq_error ends noSlash' failed
      exact ⟨failure, makeDirectories_cons_of_entered rfl ends noSlash' acceptable entered failed _,
        .inl ⟨rfl, not_uncovers_of_enter (p := way) entered (by simp)⟩⟩
    · cases failed.symm.trans failed'
      have acceptable' : ∀ q ∈ way.stations, objection? q = none := by
        intro q mem
        obtain ⟨isAbsolute, isFront, ends⟩ := Path.of_mem_stations mem
        exact objection?_of_mem_stations acceptable isAbsolute
          (isFront.trans (List.prefix_append _ _)) ends
      rcases makeDirectories_stations_of_error noSlash'' acceptable' unmade with
        same | ⟨rfl, stopped⟩ | ⟨rfl, q, mem, content, holds⟩
      · exact absurd same nothing
      · exact ⟨_, again stopped (by simp), .inl ⟨rfl, not_uncovers_of_enter stopped (by simp)⟩⟩
      · refine ⟨_, again (holds.enter_of_mem_stations mem) (by simp), .inr ⟨rfl, rfl, q, mem,
          content, holds, fun heldBefore => ?_⟩⟩
        -- had the file been in the way before, nothing would have been missing
        have failed := makeDirectory_of_enter_error (p := ⟨p.absolute, front ++ [last]⟩) rfl
          acceptable (heldBefore.enter_of_mem_stations mem)
        cases missing.symm.trans failed

/-! ## Trees without loose ends -/

/-- What is at a location is in a directory. -/
def Rooted (t : Tree) : Prop :=
  ∀ location entry, t.find? location = some entry → t.find? location.dropLast = some .directory

theorem Rooted.find?_of_prefix {t : Tree} (rooted : t.Rooted) {front location : Location}
    {entry : Entry} (isFront : front <+: location) (found : t.find? location = some entry) :
    front = location ∨ t.find? front = some .directory := by
  induction location using List.reverseRecOn generalizing entry with
  | nil => exact .inl (List.prefix_nil.mp isFront)
  | append_singleton location name ih =>
    have within := rooted _ _ found
    rw [List.dropLast_concat] at within
    rcases List.prefix_concat_iff.mp isFront with same | isFront
    · exact .inl same
    · rcases ih isFront within with rfl | found'
      · exact .inr within
      · exact .inr found'

theorem follow_append (here : Location) (front back : List String) :
    follow here (front ++ back) = follow (follow here front) back :=
  List.foldl_append

theorem prefix_follow {segments : List String} (noUp : ".." ∉ segments) (here : Location) :
    here <+: follow here segments := by
  induction segments generalizing here with
  | nil => exact List.prefix_rfl
  | cons segment rest ih =>
    rw [List.mem_cons, not_or] at noUp
    refine List.IsPrefix.trans ?_ (ih noUp.2 (child here segment))
    cases idle : Path.isIdle segment with
    | true => rw [child_of_idle idle]
    | false =>
      rw [child_of_name idle (Ne.symm noUp.1)]
      exact List.prefix_append _ _

/-- Only by way of `..` can a path come to lead to a plain file because directories were made. -/
theorem Grows.not_uncovers {t u : Tree} {locations : List Location} (grows : t.Grows u locations)
    (rooted : t.Rooted) {paths : List Path} (noUp : ∀ q ∈ paths, ".." ∉ q.segments) :
    ¬ t.Uncovers u paths := by
  rintro ⟨q, mem, content, holds, notBefore⟩
  have found := grows.file_iff.mp holds.found
  refine notBefore ⟨holds.acceptable, holds.short, fun location onTheWay => ?_, found⟩
  have isDirectory := holds.directories location onTheWay
  obtain ⟨shorter, isShorter, rfl⟩ := Path.mem_directories.mp onTheWay
  obtain ⟨back, segments⟩ := isShorter.trans (List.dropLast_prefix _)
  have noUp' : ".." ∉ back := fun up => noUp q mem (segments ▸ List.mem_append_right _ up)
  have isFront : follow (origin q) shorter <+: q.location := by
    rw [Path.location, ← segments, follow_append]
    exact prefix_follow noUp' _
  rcases rooted.find?_of_prefix isFront found with same | found'
  · rw [same, holds.found] at isDirectory
    cases isDirectory
  · exact found'

/-! ## Delivering again -/

theorem Holds.writable {t : Tree} {p : Path} {content : ByteArray} (holds : t.Holds p content)
    (named : p.NamesFile) : t.Writable p where
  acceptable := holds.acceptable
  short := holds.short
  named := named
  passable location onTheWay content found := by
    cases found.symm.trans (holds.directories location onTheWay)
  free found := by cases found.symm.trans holds.found
  apart onTheWay := by cases (holds.directories _ onTheWay).symm.trans holds.found

/-- What a successful delivery leaves, if `first` is what the first of several has left. -/
structure Lands (t first : Tree) (p : Path) (text : String) (d : Delivery) : Prop where
  result : d.result = .ok ()
  holds : d.tree.Holds p text.toUTF8
  elsewhere : ∀ location, location ≠ p.location → d.tree.find? location = first.find? location
  kept : ∀ location entry, location ≠ p.location → t.find? location = some entry →
    d.tree.find? location = some entry

theorem forall₂_lands {t first u : Tree} {path : String} {content : ByteArray}
    (named : (Path.ofString path).NamesFile) (holds : u.Holds (.ofString path) content)
    (elsewhere : ∀ location, location ≠ (Path.ofString path).location →
      u.find? location = first.find? location)
    (kept : ∀ location entry, location ≠ (Path.ofString path).location →
      t.find? location = some entry → u.find? location = some entry) (texts : List String) :
    List.Forall₂ (t.Lands first (.ofString path)) texts (u.deliverAll path texts) := by
  induction texts generalizing u content with
  | nil => exact .nil
  | cons text texts ih =>
    obtain ⟨ok, holds', changes⟩ := deliver_of_writable (holds.writable named) text
    -- all directories are there by now
    have same : ∀ location, location ≠ (Path.ofString path).location →
        (u.deliver path text).tree.find? location = u.find? location := by
      intro location apart
      rcases changes location apart with same | ⟨onTheWay, nothing, -⟩
      · exact same
      · cases nothing.symm.trans (holds.directories location onTheWay)
    have elsewhere' : ∀ location, location ≠ (Path.ofString path).location →
        (u.deliver path text).tree.find? location = first.find? location :=
      fun location apart => (same location apart).trans (elsewhere location apart)
    have kept' : ∀ location entry, location ≠ (Path.ofString path).location →
        t.find? location = some entry →
        (u.deliver path text).tree.find? location = some entry :=
      fun location entry apart found =>
        (same location apart).trans (kept location entry apart found)
    exact .cons ⟨ok, holds', elsewhere', kept'⟩ (ih holds' elsewhere' kept')

theorem forall₂_steady {u : Tree} {path : String} {again : Refusal Failure}
    (steady : ∀ text, (u.deliver path text).result = .error again ∧ (u.deliver path text).tree = u)
    (texts : List String) :
    List.Forall₂ (fun _ d => d.result = .error again ∧ d.tree = u) texts
      (u.deliverAll path texts) := by
  induction texts with
  | nil => exact .nil
  | cons text texts ih =>
    refine .cons (steady text) ?_
    rw [(steady text).2]
    exact ih

/-- After a refusal, every further one is the same and changes nothing. -/
theorem deliver_again_of_not_writable {t : Tree} {path : String}
    (refused : ¬ t.Writable (.ofString path)) (text : String) :
    ∃ refusal again, (t.deliver path text).result = .error refusal ∧
      (∀ text', ((t.deliver path text).tree.deliver path text').result = .error again ∧
        ((t.deliver path text).tree.deliver path text').tree = (t.deliver path text).tree) ∧
      (again = refusal ∧
          ¬ t.Uncovers (t.deliver path text).tree (Path.ofString path).parents.tail ∨
        refusal = ⟨.alreadyExists, Failure.message .alreadyExists⟩ ∧
          again = ⟨.notADirectory, Failure.message .notADirectory⟩ ∧
          t.Uncovers (t.deliver path text).tree (Path.ofString path).parents.tail) := by
  have noSlash : (Path.ofString path).NoSlash := fun _ => Path.ne_slash_of_mem_segments
  have grows := makeDirectories_parents_grows t noSlash
  obtain ⟨front, isFront, parents⟩ := Path.exists_parents_eq_stations (.ofString path)
  let way : Path := ⟨(Path.ofString path).absolute, front⟩
  have noSlash' : way.NoSlash := noSlash.of_prefix isFront
  cases made : t.makeDirectories (Path.ofString path).parents with
  | mk result u =>
    rw [made] at grows
    cases result with
    | error failure =>
      have unmade : t.makeDirectories way.stations = (.error failure, u) := parents ▸ made
      obtain ⟨again, unmade', which⟩ := makeDirectories_again_of_error noSlash' unmade
      rw [← parents] at unmade' which
      rw [deliver_of_unmade text made]
      refine ⟨_, ⟨again, again.message⟩, rfl, fun text' => ?_, ?_⟩
      · rw [deliver_of_unmade text' unmade']
        exact ⟨rfl, rfl⟩
      rcases which with ⟨rfl, covered⟩ | ⟨rfl, rfl, uncovered⟩
      · exact .inl ⟨rfl, covered⟩
      · exact .inr ⟨rfl, rfl, uncovered⟩
    | ok done =>
      have made' : t.makeDirectories way.stations = (.ok (), u) := parents ▸ made
      have again := makeDirectories_again_of_ok noSlash' made'
      rw [← parents] at again
      cases located : u.fileLocation (.ofString path) with
      | ok location => exact absurd (writable_of_fileLocation grows located) refused
      | error failure =>
        have unwritten (text : String) : u.write (.ofString path) text = (.error failure, u) := by
          rw [write, located]
        rw [deliver_of_unwritten made (unwritten text)]
        refine ⟨_, _, rfl, fun text' => ?_, .inl ⟨rfl, ?_⟩⟩
        · rw [deliver_of_unwritten again (unwritten text')]
          exact ⟨rfl, rfl⟩
        obtain ⟨directory, entered⟩ := enter_of_makeDirectories noSlash' made'
        rintro ⟨q, mem, uncovered⟩
        rw [parents] at mem
        exact not_uncovers_of_enter (p := way) entered (by simp)
          ⟨q, List.mem_of_mem_tail mem, uncovered⟩

/-- Deliveries to one path, made in turn, all succeed or are all refused. -/
theorem deliverAll_all_or_none (t : Tree) (path text : String) (texts : List String) :
    let p := Path.ofString path
    let first := t.deliver path text
    let later := first.tree.deliverAll path texts
    t.deliverAll path (text :: texts) = first :: later ∧
      (t.Writable p ∧ List.Forall₂ (t.Lands first.tree p) (text :: texts) (first :: later) ∨
        ¬ t.Writable p ∧ ∃ refusal again, first.result = .error refusal ∧
          List.Forall₂ (fun _ d => d.result = .error again ∧ d.tree = first.tree) texts later ∧
          (∀ location content, first.tree.find? location = some (.file content) ↔
            t.find? location = some (.file content)) ∧
          (¬ t.Uncovers first.tree p.parents.tail → again = refusal) ∧
          (t.Uncovers first.tree p.parents.tail →
            refusal = ⟨.alreadyExists, "File exists (os error 17)"⟩ ∧
              again = ⟨.notADirectory, "Not a directory (os error 20)"⟩) ∧
          (t.Rooted → ".." ∉ p.segments → ¬ t.Uncovers first.tree p.parents.tail)) := by
  intro p first later
  refine ⟨rfl, ?_⟩
  by_cases writable : t.Writable p
  · obtain ⟨ok, holds, changes⟩ := deliver_of_writable writable text
    have kept : ∀ location entry, location ≠ p.location → t.find? location = some entry →
        first.tree.find? location = some entry := by
      intro location entry apart found
      rcases changes location apart with same | ⟨-, nothing, -⟩
      · exact same.trans found
      · cases found.symm.trans nothing
    exact .inl ⟨writable, .cons ⟨ok, holds, fun _ _ => rfl, kept⟩
      (forall₂_lands writable.named holds (fun _ _ => rfl) kept texts)⟩
  · obtain ⟨-, grows⟩ := deliver_of_not_writable writable text
    obtain ⟨refusal, again, failed, steady, which⟩ := deliver_again_of_not_writable writable text
    refine .inr ⟨writable, refusal, again, failed, forall₂_steady steady texts,
      fun _ _ => grows.file_iff, fun covered => ?_, fun uncovered => ?_, fun rooted noUp => ?_⟩
    · rcases which with ⟨same, -⟩ | ⟨-, -, uncovered⟩
      · exact same
      · exact absurd uncovered covered
    · rcases which with ⟨-, covered⟩ | ⟨isFirst, isLater, -⟩
      · exact absurd uncovered covered
      · exact ⟨isFirst, isLater⟩
    · refine grows.not_uncovers rooted fun q mem up => noUp ?_
      obtain ⟨-, isFront, -⟩ := Path.of_mem_parents (List.mem_of_mem_tail mem)
      exact (isFront.trans (List.dropLast_prefix _)).subset up

/-- The first of two refusals says that there is a file, the second that it is no directory. -/
theorem deliverAll_refusals_differ :
    ((empty.place (.ofString "f") (.file "t".toUTF8)).deliverAll "a/../f/x/y.c" ["1", "2"]).map
        (·.result) =
      [.error ⟨.alreadyExists, "File exists (os error 17)"⟩,
        .error ⟨.notADirectory, "Not a directory (os error 20)"⟩] := by
  decide +kernel

theorem deliver_uncovers :
    let t := empty.place (.ofString "f") (.file "t".toUTF8)
    let first := t.deliver "a/../f/x/y.c" "1"
    t.Uncovers first.tree (Path.ofString "a/../f/x/y.c").parents.tail := by
  intro t first
  have failed : first.result = .error ⟨.alreadyExists, "File exists (os error 17)"⟩ := by
    decide +kernel
  have failed' : (first.tree.deliver "a/../f/x/y.c" "2").result =
      .error ⟨.notADirectory, "Not a directory (os error 20)"⟩ := by
    decide +kernel
  obtain ⟨-, ⟨-, landed⟩ | ⟨-, refusal, again, isFirst, steady, -, same, -⟩⟩ :=
    deliverAll_all_or_none t "a/../f/x/y.c" "1" ["2"]
  · cases failed.symm.trans (List.forall₂_cons.mp landed).1.result
  · by_contra covered
    obtain rfl := same covered
    have isLater := (List.forall₂_cons.mp steady).1.1
    cases (failed.symm.trans isFirst).trans (isLater.symm.trans failed')

end Tree

end BasicToC.Files
