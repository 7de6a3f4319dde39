import BasicToC.Proofs.Paths
import BasicToC.Proofs.Scenes

/-! # Delivering a text

A delivery makes directories and then writes a file.  Whatever happens, directories are only made
where there was nothing, on the way that the path leads; this is `Tree.Grows`.  When it succeeds,
and what is there then, is said by `Tree.deliver_of_writable` and `Tree.deliver_of_not_writable`,
in terms of the tree as it was before.
-/

namespace BasicToC.Files

namespace Tree

/-! ## New directories -/

/-- The second tree is the first one with directories at some of these locations, where there was
    nothing. -/
def Grows (t u : Tree) (locations : List Location) : Prop :=
  ∀ location, u.find? location = t.find? location ∨
    location ∈ locations ∧ t.find? location = none ∧ u.find? location = some .directory

namespace Grows

variable {t u v : Tree} {locations : List Location}

theorem refl (t : Tree) (locations : List Location) : t.Grows t locations :=
  fun _ => .inl rfl

theorem trans (first : t.Grows u locations) (second : u.Grows v locations) :
    t.Grows v locations := by
  intro location
  rcases second location with same | ⟨mem, nothing, made⟩
  · rw [same]
    exact first location
  · rcases first location with same' | ⟨-, -, made'⟩
    · exact .inr ⟨mem, same' ▸ nothing, made⟩
    · cases nothing.symm.trans made'

theorem mono (grows : t.Grows u locations) {others : List Location} (subset : locations ⊆ others) :
    t.Grows u others := by
  intro location
  rcases grows location with same | ⟨mem, nothing, made⟩
  · exact .inl same
  · exact .inr ⟨subset mem, nothing, made⟩

theorem find?_of_some (grows : t.Grows u locations) {location : Location} {entry : Entry}
    (found : t.find? location = some entry) : u.find? location = some entry := by
  rcases grows location with same | ⟨-, nothing, -⟩
  · rw [same, found]
  · cases found.symm.trans nothing

/-- Plain files are neither made nor changed nor removed. -/
theorem file_iff (grows : t.Grows u locations) {location : Location} {content : ByteArray} :
    u.find? location = some (.file content) ↔ t.find? location = some (.file content) := by
  rcases grows location with same | ⟨-, nothing, made⟩
  · rw [same]
  · simp [nothing, made]

end Grows

/-! ## Stations -/

end Tree

namespace Path

/-- Whether no segment of a path is a slash. -/
def NoSlash (p : Path) : Prop :=
  ∀ segment ∈ p.segments, segment ≠ "/"

theorem exists_of_endsInName {p : Path} (ends : p.endsInName = true) :
    ∃ front last, p.segments = front ++ [last] ∧ last ≠ "" ∧
      (isIdle last = false ∨ last = ".") := by
  unfold endsInName at ends
  split at ends
  · cases ends
  · next last isLast =>
    obtain ⟨front, segments⟩ := List.getLast?_eq_some_iff.mp isLast
    refine ⟨front, last, segments, ?_⟩
    rw [segments] at ends
    cases idle : isIdle last with
    | false =>
      refine ⟨?_, .inl rfl⟩
      rintro rfl
      cases idle
    | true =>
      have dot : last = "." := by
        simp only [idle, Bool.not_true, Bool.false_or, Bool.and_eq_true, beq_iff_eq] at ends
        have ofEnds := congrArg List.getLast? ends.2
        rw [List.getLast?_concat] at ofEnds
        exact Option.some.inj ofEnds
      exact ⟨by simp [dot], .inr dot⟩

theorem endsInName_of_busy {p : Path} {front : List String} {last : String}
    (segments : p.segments = front ++ [last]) (busy : isIdle last = false) :
    p.endsInName = true := by
  simp [endsInName, segments, busy]

/-- The stations of a path are the path itself, if it ends in a name, and the stations of the path
    without its last segment. -/
theorem stations_concat (absolute : Bool) (front : List String) (last : String) :
    stations ⟨absolute, front ++ [last]⟩ =
      (if endsInName ⟨absolute, front ++ [last]⟩ then [⟨absolute, front ++ [last]⟩] else []) ++
        stations ⟨absolute, front⟩ := by
  have shorter : ∀ n ∈ List.range front.length,
      (⟨absolute, (front ++ [last]).take (front.length + 1 - (n + 1))⟩ : Path) =
        ⟨absolute, front.take (front.length - n)⟩ := by
    intro n _
    rw [Nat.add_sub_add_right, List.take_append_of_le_length (Nat.sub_le _ _)]
  have whole : (front ++ [last]).take (front.length + 1 - 0) = front ++ [last] :=
    List.take_of_length_le (by simp)
  simp only [stations, List.length_append, List.length_singleton, List.range_succ_eq_map,
    List.map_cons, List.map_map, Function.comp_def, Nat.succ_eq_add_one, List.filter_cons, whole,
    List.map_congr_left shorter]
  split <;> rfl

theorem of_mem_stations {p q : Path} (mem : q ∈ p.stations) :
    q.absolute = p.absolute ∧ q.segments <+: p.segments ∧ q.endsInName = true := by
  obtain ⟨isShorter, ends⟩ := List.mem_filter.mp mem
  obtain ⟨n, -, rfl⟩ := List.mem_map.mp isShorter
  exact ⟨rfl, List.take_prefix _ _, ends⟩

/-- The stations on the way to a path lead to directories on the way. -/
theorem of_mem_parents {p q : Path} (mem : q ∈ p.parents) :
    q.absolute = p.absolute ∧ q.segments <+: p.segments.dropLast ∧ q.endsInName = true := by
  obtain ⟨absolute, segments⟩ := p
  induction segments using List.reverseRecOn with
  | nil => cases mem
  | append_singleton front last ih =>
    rw [parents, stations_concat] at mem
    rw [List.dropLast_concat]
    split at mem
    · exact of_mem_stations (p := ⟨absolute, front⟩) mem
    · obtain ⟨isAbsolute, isFront, ends⟩ := ih mem
      exact ⟨isAbsolute, isFront.trans (List.dropLast_prefix _), ends⟩

theorem location_mem_directories {p q : Path} (mem : q ∈ p.parents) :
    q.location ∈ p.directories := by
  obtain ⟨isAbsolute, isFront, -⟩ := of_mem_parents mem
  rw [mem_directories]
  refine ⟨q.segments, isFront, ?_⟩
  simp only [location, Tree.origin, isAbsolute]

theorem NoSlash.of_prefix {p q : Path} (noSlash : p.NoSlash) (isFront : q.segments <+: p.segments) :
    q.NoSlash :=
  fun segment mem => noSlash segment (isFront.subset mem)

/-- A path begins with the text of every path on the way. -/
theorem exists_text_eq_append {p q : Path} (isAbsolute : q.absolute = p.absolute)
    (isFront : q.segments <+: p.segments) (notEmpty : q.segments ≠ []) :
    ∃ more, p.text = q.text ++ more := by
  obtain ⟨rest, segments⟩ := isFront
  rw [text, text, isAbsolute, ← segments]
  rcases List.eq_nil_or_concat rest with rfl | ⟨front, last, rfl⟩
  · exact ⟨"", by simp⟩
  · exact ⟨"/" ++ "/".intercalate (front.concat last), by
      rw [String.intercalate_append_of_ne_nil notEmpty (by simp)]
      simp only [String.append_assoc]⟩

theorem text_ne_empty {p : Path} (ends : p.endsInName = true) : p.text ≠ "" := by
  obtain ⟨front, last, segments, notEmpty, -⟩ := exists_of_endsInName ends
  intro empty
  rw [text, String.append_eq_empty_iff, segments] at empty
  rcases List.eq_nil_or_concat front with rfl | ⟨_, _, rfl⟩
  · exact notEmpty (by simpa using empty.2)
  · rw [String.intercalate_append_of_ne_nil (by simp) (by simp), String.append_eq_empty_iff,
      String.intercalate_singleton] at empty
    exact notEmpty empty.2.2

end Path

namespace Tree

theorem objection?_eq_none_iff {p : Path} :
    objection? p = none ↔ '\x00' ∉ p.text.toList ∧ p.text ≠ "" ∧
      p.text.utf8ByteSize ≤ Path.maxSize := by
  have zero : p.hasZero = true ↔ '\x00' ∈ p.text.toList := by simp [Path.hasZero]
  have oversized : p.isOversized = true ↔ Path.maxSize < p.text.utf8ByteSize := by
    simp [Path.isOversized, Nat.blt_eq]
  rw [objection?, ← zero, ← Nat.not_lt, ← oversized]
  by_cases hasZero : p.hasZero = true
  · simp [hasZero]
  · by_cases empty : p.text = "" <;> simp [hasZero, empty]

/-- Where the system takes a path, it takes every station on the way. -/
theorem objection?_of_mem_stations {p q : Path} (acceptable : objection? p = none)
    (isAbsolute : q.absolute = p.absolute) (isFront : q.segments <+: p.segments)
    (ends : q.endsInName = true) : objection? q = none := by
  obtain ⟨front, last, segments, -⟩ := Path.exists_of_endsInName ends
  obtain ⟨more, text⟩ := Path.exists_text_eq_append isAbsolute isFront (by simp [segments])
  rw [objection?_eq_none_iff] at acceptable ⊢
  rw [text, String.toList_append, List.mem_append, not_or, String.utf8ByteSize_append] at acceptable
  exact ⟨acceptable.1.1, Path.text_ne_empty ends, by omega⟩

/-! ## Making one directory -/

theorem directoryLocation_concat {p : Path} {front : List String} {last : String}
    (segments : p.segments = front ++ [last]) (acceptable : objection? p = none) (t : Tree) :
    t.directoryLocation p = (t.enter (origin p) front).bind fun directory =>
      if Path.isDots last then .error .alreadyExists
      else if Path.isTooLong last then .error .nameTooLong
      else
        match t.find? (directory ++ [last]) with
        | some _ => .error .alreadyExists
        | none => .ok (directory ++ [last]) := by
  simp only [directoryLocation, segments, acceptable, List.getLast?_concat, List.dropLast_concat]
  cases t.enter (origin p) front <;> rfl

/-- A directory is made where the path leads, where there was nothing, or nothing is done. -/
theorem makeDirectory_cases {p : Path} (ends : p.endsInName = true) (noSlash : p.NoSlash)
    (t : Tree) :
    (∃ failure, t.makeDirectory p = (.error failure, t)) ∨
      Location.isAncestor p.location = false ∧ t.find? p.location = none ∧
        t.makeDirectory p = (.ok (), t.insert p.location .directory) := by
  obtain ⟨front, last, segments, -, busyOrDot⟩ := Path.exists_of_endsInName ends
  unfold makeDirectory
  cases located : t.directoryLocation p with
  | error failure => exact .inl ⟨failure, rfl⟩
  | ok location =>
    have acceptable : objection? p = none := by
      cases objected : objection? p with
      | none => rfl
      | some failure =>
        simp only [directoryLocation, objected] at located
        cases located
    rw [directoryLocation_concat segments acceptable] at located
    cases entered : t.enter (origin p) front with
    | error failure =>
      rw [entered] at located
      cases located
    | ok directory =>
      obtain ⟨-, -, rfl⟩ := enter_eq_ok_iff.mp entered
      simp only [entered, Except.bind] at located
      split at located
      · cases located
      · next notDots =>
        split at located
        · cases located
        · split at located
          · cases located
          · next nothing =>
            cases located
            have busy : Path.isIdle last = false := by
              rcases busyOrDot with busy | rfl
              · exact busy
              · exact absurd rfl notDots
            have notUp : last ≠ ".." := by
              rintro rfl
              exact notDots rfl
            have notRoot : last ≠ "/" := noSlash last (by simp [segments])
            rw [Path.location_concat segments busy notUp]
            exact .inr ⟨isAncestor_concat notUp notRoot _, nothing, rfl⟩

theorem makeDirectory_grows {p : Path} (ends : p.endsInName = true) (noSlash : p.NoSlash)
    (t : Tree) : t.Grows (t.makeDirectory p).2 [p.location] := by
  obtain ⟨failure, failed⟩ | ⟨below, nothing, made⟩ := makeDirectory_cases ends noSlash t
  · rw [failed]
    exact .refl t _
  · rw [made]
    intro location
    rw [find?_insert t .directory below]
    by_cases here : location = p.location
    · subst here
      exact .inr ⟨by simp, nothing, if_pos rfl⟩
    · exact .inl (if_neg here)

theorem orDirectory_snd (p : Path) (attempt : Except Failure Unit × Tree) :
    (orDirectory p attempt).2 = attempt.2 := by
  obtain ⟨result, t⟩ := attempt
  cases result with
  | ok done => rfl
  | error failure => rfl

/-- Where directories are made, they are made on the way. -/
theorem makeDirectories_grows (t : Tree) (stations : List Path)
    (ends : ∀ p ∈ stations, p.endsInName = true) (noSlash : ∀ p ∈ stations, p.NoSlash) :
    t.Grows (t.makeDirectories stations).2 (stations.map Path.location) := by
  induction stations with
  | nil => exact .refl t _
  | cons p parents ih =>
    rw [List.forall_mem_cons] at ends noSlash
    have one : ∀ u : Tree, u.Grows (u.makeDirectory p).2 ((p :: parents).map Path.location) :=
      fun u => (makeDirectory_grows ends.1 noSlash.1 u).mono (by simp)
    have others := (ih ends.2 noSlash.2).mono
      (List.subset_cons_self p.location (parents.map Path.location))
    rcases makeDirectories_cons_cases t p parents with
      ⟨-, attempt⟩ | ⟨-, ⟨v, made, attempt⟩ | ⟨failure, v, failed, attempt⟩⟩
    · rw [attempt, orDirectory_snd]
      exact one t
    · rw [made] at others
      rw [attempt, orDirectory_snd]
      exact others.trans (one v)
    · rw [failed] at others
      rw [attempt]
      exact others

/-! ## Making all directories -/

section Entered

variable {t : Tree} {p : Path} {front : List String} {last : String}
  (segments : p.segments = front ++ [last])
  (entered : ∀ shorter, shorter <+: front → t.find? (follow (origin p) shorter) = some .directory)

include segments entered

/-- A location that is named by dots is a directory if those on the way to it are. -/
theorem find?_location_of_isDots (dots : Path.isDots last = true) :
    t.find? p.location = some .directory := by
  have here := entered front List.prefix_rfl
  rw [Path.location, segments, follow_concat]
  rcases (by simpa [Path.isDots] using dots : last = "." ∨ last = "..") with rfl | rfl
  · exact here
  · cases above : Location.isAncestor (follow (origin p) front) with
    | true => exact find?_of_isAncestor (isAncestor_child_up above) t
    | false =>
      obtain ⟨shorter, isShorter, leads⟩ :=
        exists_follow_eq_dropLast (isAncestor_origin p) front front List.prefix_rfl above
      rw [child_up above, ← leads]
      exact entered shorter isShorter

variable (acceptable : objection? p = none) (short : p.Short) (ends : p.endsInName = true)

include acceptable short ends

/-- What an attempt to make a directory says, if those on the way to it are there. -/
theorem directoryLocation_of_entered :
    t.directoryLocation p =
      if (t.find? p.location).isSome then .error .alreadyExists else .ok p.location := by
  have notLong : ∀ segment ∈ front, Path.isTooLong segment = false :=
    fun segment mem => short segment (by simp [segments, mem])
  rw [directoryLocation_concat segments acceptable,
    enter_eq_ok_iff.mpr ⟨entered, notLong, rfl⟩]
  simp only [Except.bind, short last (by simp [segments]), Bool.false_eq_true, if_false]
  cases dots : Path.isDots last with
  | true => simp [find?_location_of_isDots segments entered dots]
  | false =>
    obtain ⟨front', last', segments', notEmpty, busyOrDot⟩ := Path.exists_of_endsInName ends
    obtain ⟨rfl, rfl⟩ : front = front' ∧ last = last' := by
      simpa using List.append_inj' (segments.symm.trans segments') rfl
    have busy : Path.isIdle last = false := by
      rcases busyOrDot with busy | rfl
      · exact busy
      · cases dots
    have notUp : last ≠ ".." := by
      rintro rfl
      cases dots
    rw [Path.location_concat segments busy notUp]
    cases t.find? (follow (origin p) front ++ [last]) <;> simp

/-- If all directories on the way are there, an attempt to make a directory leaves one, unless there
    is a plain file. -/
theorem orDirectory_of_entered (noSlash : p.NoSlash)
    (noFile : ∀ content, t.find? p.location ≠ some (.file content)) :
    (∀ u, t.makeDirectory p ≠ (.error .notFound, u)) ∧
      ∃ u, orDirectory p (t.makeDirectory p) = (.ok (), u) ∧
        ∀ shorter, shorter <+: p.segments →
          u.find? (follow (origin p) shorter) = some .directory := by
  have located := directoryLocation_of_entered segments entered acceptable short ends
  have grows := makeDirectory_grows ends noSlash t
  cases found : t.find? p.location with
  | none =>
    have made : t.makeDirectory p = (.ok (), t.insert p.location .directory) := by
      simp [makeDirectory, located, found]
    have below : Location.isAncestor p.location = false := by
      by_contra above
      rw [Bool.not_eq_false] at above
      cases found.symm.trans (find?_of_isAncestor above t)
    refine ⟨fun u => by simp [made], t.insert p.location .directory, by rw [made]; rfl, ?_⟩
    intro shorter isShorter
    rw [segments, List.prefix_concat_iff, ← segments] at isShorter
    rcases isShorter with rfl | isShorter
    · exact (find?_insert t .directory below p.location).trans (if_pos rfl)
    · rw [made] at grows
      exact grows.find?_of_some (entered shorter isShorter)
  | some entry =>
    cases entry with
    | file content => exact absurd found (noFile content)
    | directory =>
      have there : t.makeDirectory p = (.error .alreadyExists, t) := by
        simp [makeDirectory, located, found]
      have directories : ∀ shorter, shorter <+: p.segments →
          t.find? (follow (origin p) shorter) = some .directory := by
        intro shorter isShorter
        rw [segments, List.prefix_concat_iff, ← segments] at isShorter
        rcases isShorter with rfl | isShorter
        · exact found
        · exact entered shorter isShorter
      have isThere : t.isDirectory p = true := isDirectory_iff.mpr ⟨acceptable, directories, short⟩
      exact ⟨fun u => by simp [there], t, by simp [there, orDirectory_error, isThere], directories⟩

end Entered

theorem makeDirectory_of_enter_error {t : Tree} {p : Path} {front : List String} {last : String}
    {failure : Failure} (segments : p.segments = front ++ [last]) (acceptable : objection? p = none)
    (stopped : t.enter (origin p) front = .error failure) :
    t.makeDirectory p = (.error failure, t) := by
  simp [makeDirectory, directoryLocation_concat segments acceptable, stopped, Except.bind]

/-- Where no plain file is in the way and the system takes every name, all directories on the way
    are there in the end. -/
theorem makeDirectories_stations {t : Tree} {p : Path} (noSlash : p.NoSlash) (short : p.Short)
    (acceptable : ∀ q ∈ p.stations, objection? q = none)
    (noFile : ∀ front, front <+: p.segments → ∀ content,
      t.find? (follow (origin p) front) ≠ some (.file content)) :
    ∃ u, t.makeDirectories p.stations = (.ok (), u) ∧
      ∀ front, front <+: p.segments → u.find? (follow (origin p) front) = some .directory := by
  obtain ⟨absolute, segments⟩ := p
  induction segments using List.reverseRecOn with
  | nil =>
    refine ⟨t, rfl, fun front isFront => ?_⟩
    rw [List.prefix_nil.mp isFront]
    exact find?_of_isAncestor (isAncestor_origin _) t
  | append_singleton front last ih =>
    have others := ih (fun segment mem => noSlash segment (List.mem_append_left _ mem))
      (fun segment mem => short segment (List.mem_append_left _ mem))
      (fun q mem => acceptable q (by rw [Path.stations_concat]; exact List.mem_append_right _ mem))
      fun shorter isShorter => noFile shorter (isShorter.trans (List.prefix_append _ _))
    obtain ⟨u, made, directories⟩ := others
    let p : Path := ⟨absolute, front ++ [last]⟩
    by_cases ends : p.endsInName = true
    · have stations : p.stations = p :: Path.stations ⟨absolute, front⟩ := by
        rw [Path.stations_concat, if_pos ends]
        rfl
      have acceptable' : objection? p = none := acceptable p (by rw [stations]; simp)
      have noFile' : ∀ {v : Tree} {locations}, t.Grows v locations →
          ∀ content, v.find? p.location ≠ some (.file content) :=
        fun grows content found => noFile _ List.prefix_rfl content (grows.file_iff.mp found)
      have grows := makeDirectories_grows t (Path.stations ⟨absolute, front⟩)
        (fun q mem => (Path.of_mem_stations mem).2.2) fun q mem =>
          noSlash.of_prefix ((Path.of_mem_stations mem).2.1.trans (List.prefix_append _ _))
      rw [made] at grows
      -- the directory can be made at once if those on the way to it are there
      rcases enter_eq_ok_or_notFound
        (fun shorter isShorter => noFile shorter (isShorter.trans (List.prefix_append _ _)))
        (fun segment mem => short segment (List.mem_append_left _ mem)) with entered | missing
      · have attempt := orDirectory_of_entered (p := p) rfl (enter_eq_ok_iff.mp entered).1
          acceptable' short ends noSlash (noFile' (.refl t []))
        rw [stations, makeDirectories_cons_of_ne_notFound _ attempt.1]
        exact attempt.2
      · have attempt := orDirectory_of_entered (p := p) (t := u) rfl directories
          acceptable' short ends noSlash (noFile' grows)
        have missing' := makeDirectory_of_enter_error (p := p) rfl acceptable' missing
        rw [stations, makeDirectories_cons_of_notFound missing' made]
        exact attempt.2
    · -- an idle segment at the end leads nowhere else
      have idle : Path.isIdle last = true := by
        by_contra busy
        rw [Bool.not_eq_true] at busy
        exact ends (Path.endsInName_of_busy (p := p) rfl busy)
      rw [Path.stations_concat, if_neg ends]
      refine ⟨u, made, fun shorter isShorter => ?_⟩
      rcases List.prefix_concat_iff.mp isShorter with rfl | isShorter
      · rw [follow_concat, child_of_idle idle]
        exact directories front List.prefix_rfl
      · exact directories shorter isShorter

/-! ## Delivering -/

/-- A text can be delivered to a path: the system takes the path, which ends in the name of a file;
    no plain file is where a directory has to be, and no directory where the file has to be, now
    or when the directories have been made. -/
structure Writable (t : Tree) (p : Path) : Prop where
  acceptable : objection? p = none
  short : p.Short
  named : p.NamesFile
  passable : ∀ location ∈ p.directories, ∀ content, t.find? location ≠ some (.file content)
  free : t.find? p.location ≠ some .directory
  apart : p.location ∉ p.directories

theorem makeDirectories_parents_grows (t : Tree) {p : Path} (noSlash : p.NoSlash) :
    t.Grows (t.makeDirectories p.parents).2 p.directories := by
  have grows := makeDirectories_grows t p.parents
    (fun q mem => (Path.of_mem_parents mem).2.2) fun q mem =>
      noSlash.of_prefix ((Path.of_mem_parents mem).2.1.trans (List.dropLast_prefix _))
  refine grows.mono fun location mem => ?_
  obtain ⟨q, isParent, rfl⟩ := List.mem_map.mp mem
  exact Path.location_mem_directories isParent

theorem Writable.makeDirectories_parents {t : Tree} {p : Path} (writable : t.Writable p)
    (noSlash : p.NoSlash) :
    ∃ u, t.makeDirectories p.parents = (.ok (), u) ∧
      ∀ location ∈ p.directories, u.find? location = some .directory := by
  obtain ⟨last, isLast, busy, -⟩ := writable.named
  obtain ⟨front, segments⟩ := List.getLast?_eq_some_iff.mp isLast
  obtain ⟨absolute, _⟩ := p
  obtain rfl : _ = front ++ [last] := segments
  have isFront : front <+: front ++ [last] := List.prefix_append _ _
  have parents : Path.parents ⟨absolute, front ++ [last]⟩ = Path.stations ⟨absolute, front⟩ := by
    rw [Path.parents, Path.stations_concat, if_pos (Path.endsInName_of_busy rfl busy)]
    rfl
  have made := makeDirectories_stations (t := t) (p := ⟨absolute, front⟩)
    (noSlash.of_prefix isFront)
    (fun segment mem => writable.short segment (List.mem_append_left _ mem))
    (fun q mem => by
      obtain ⟨isAbsolute, isShorter, ends⟩ := Path.of_mem_stations mem
      exact objection?_of_mem_stations writable.acceptable isAbsolute (isShorter.trans isFront)
        ends)
    fun shorter isShorter => writable.passable _
      ((Path.mem_directories_concat rfl).mpr ⟨shorter, isShorter, rfl⟩)
  obtain ⟨u, made, directories⟩ := made
  refine ⟨u, parents ▸ made, fun location onTheWay => ?_⟩
  obtain ⟨shorter, isShorter, rfl⟩ := (Path.mem_directories_concat rfl).mp onTheWay
  exact directories shorter isShorter

section Grown

variable {t u : Tree} {p : Path} (grows : t.Grows u p.directories)

include grows

theorem Writable.fileLocation (writable : t.Writable p)
    (directories : ∀ location ∈ p.directories, u.find? location = some .directory) :
    u.fileLocation p = .ok p.location := by
  refine fileLocation_eq_ok_iff.mpr
    ⟨writable.acceptable, writable.short, writable.named, directories, ?_, rfl⟩
  rcases grows p.location with same | ⟨onTheWay, -, -⟩
  · rw [same]
    exact writable.free
  · exact absurd onTheWay writable.apart

theorem writable_of_fileLocation {location : Location} (located : u.fileLocation p = .ok location) :
    t.Writable p := by
  obtain ⟨acceptable, short, named, directories, free, -⟩ := fileLocation_eq_ok_iff.mp located
  refine ⟨acceptable, short, named, fun location onTheWay content found => ?_, fun found => ?_,
    fun onTheWay => free (directories _ onTheWay)⟩
  · cases (grows.find?_of_some found).symm.trans (directories location onTheWay)
  · exact free (grows.find?_of_some found)

end Grown

/-- A text is delivered if and only if the path is writable; otherwise the directories that have
    been made are left. -/
theorem deliver_cases (t : Tree) (path text : String) :
    let p := Path.ofString path
    let u := (t.makeDirectories p.parents).2
    (t.Writable p ∧ (t.deliver path text).result = .ok () ∧
        (∀ location ∈ p.directories, u.find? location = some .directory) ∧
        (t.deliver path text).tree = u.insert p.location (.file text.toUTF8)) ∨
      (¬ t.Writable p ∧ (∃ refusal, (t.deliver path text).result = .error refusal) ∧
        (t.deliver path text).tree = u) := by
  intro p u
  have noSlash : p.NoSlash := fun segment mem => Path.ne_slash_of_mem_segments mem
  have grows : t.Grows u p.directories := makeDirectories_parents_grows t noSlash
  cases made : t.makeDirectories p.parents with
  | mk result v =>
    obtain rfl : u = v := congrArg Prod.snd made
    cases result with
    | error failure =>
      rw [deliver_of_unmade text made]
      refine .inr ⟨fun writable => ?_, ⟨_, rfl⟩, rfl⟩
      obtain ⟨_, made', -⟩ := writable.makeDirectories_parents noSlash
      cases made.symm.trans made'
    | ok done =>
      cases located : u.fileLocation p with
      | error failure =>
        have unwritten : u.write p text = (.error failure, u) := by rw [write, located]
        rw [deliver_of_unwritten made unwritten]
        refine .inr ⟨fun writable => ?_, ⟨_, rfl⟩, rfl⟩
        obtain ⟨_, made', directories⟩ := writable.makeDirectories_parents noSlash
        cases made.symm.trans made'
        cases located.symm.trans (writable.fileLocation grows directories)
      | ok location =>
        obtain ⟨-, -, -, directories, -, rfl⟩ := fileLocation_eq_ok_iff.mp located
        have written : u.write p text = (.ok (), u.insert p.location (.file text.toUTF8)) := by
          rw [write, located]
        rw [deliver_of_written made written]
        exact .inl ⟨writable_of_fileLocation grows located, rfl, directories, rfl⟩

section Deliver

variable {t : Tree} {path : String}

theorem deliver_of_writable (writable : t.Writable (.ofString path)) (text : String) :
    (t.deliver path text).result = .ok () ∧
      (t.deliver path text).tree.Holds (.ofString path) text.toUTF8 ∧
      ∀ location, location ≠ (Path.ofString path).location →
        (t.deliver path text).tree.find? location = t.find? location ∨
          location ∈ (Path.ofString path).directories ∧ t.find? location = none ∧
            (t.deliver path text).tree.find? location = some .directory := by
  rcases t.deliver_cases path text with ⟨-, ok, directories, delivered⟩ | ⟨refused, -⟩
  · obtain ⟨last, isLast, busy, notUp⟩ := writable.named
    obtain ⟨front, segments⟩ := List.getLast?_eq_some_iff.mp isLast
    have below : Location.isAncestor (Path.ofString path).location = false := by
      rw [Path.location_concat segments busy notUp]
      exact isAncestor_concat notUp (Path.ne_slash_of_mem_segments (List.mem_of_getLast? isLast)) _
    have found := find?_insert (t.makeDirectories (Path.ofString path).parents).2
      (.file text.toUTF8) below
    rw [← delivered] at found
    have elsewhere : ∀ location, location ≠ (Path.ofString path).location →
        (t.deliver path text).tree.find? location =
          (t.makeDirectories (Path.ofString path).parents).2.find? location :=
      fun location apart => (found location).trans (if_neg apart)
    refine ⟨ok, ⟨writable.acceptable, writable.short, fun location onTheWay => ?_,
      (found _).trans (if_pos rfl)⟩, fun location apart => ?_⟩
    · rw [elsewhere location fun same => writable.apart (same ▸ onTheWay)]
      exact directories location onTheWay
    · rw [elsewhere location apart]
      exact makeDirectories_parents_grows t (fun _ => Path.ne_slash_of_mem_segments) location
  · exact absurd writable refused

theorem deliver_of_not_writable (refused : ¬ t.Writable (.ofString path)) (text : String) :
    (∃ refusal, (t.deliver path text).result = .error refusal) ∧
      t.Grows (t.deliver path text).tree (Path.ofString path).directories := by
  rcases t.deliver_cases path text with ⟨writable, -⟩ | ⟨-, failed, left⟩
  · exact absurd writable refused
  · rw [left]
    exact ⟨failed, makeDirectories_parents_grows t fun _ => Path.ne_slash_of_mem_segments⟩

end Deliver

end Tree

end BasicToC.Files
