import Mathlib.Data.List.Infix
import BasicToC.Files.Tree

/-! # Where paths lead

There are no links, so a path leads to the same location whatever there is on the way; what is on
the way only decides whether one gets there.  `Path.location` is that location, and
`Path.directories` are the locations that have to be directories before anything can be at the end
of the path.  Reading a file is said in these terms by `Tree.read_eq_ok_iff`, and finding the
place for a new file by `Tree.fileLocation_eq_ok_iff`.
-/

namespace BasicToC.Files

namespace Tree

/-! ## Following segments -/

/-- Where segments lead from a location, whatever is on the way. -/
def follow (here : Location) (segments : List String) : Location :=
  segments.foldl child here

@[simp]
theorem follow_nil (here : Location) : follow here [] = here := rfl

@[simp]
theorem follow_cons (here : Location) (segment : String) (rest : List String) :
    follow here (segment :: rest) = follow (child here segment) rest := rfl

@[simp]
theorem follow_concat (here : Location) (front : List String) (segment : String) :
    follow here (front ++ [segment]) = child (follow here front) segment := by
  simp [follow]

theorem child_of_idle {segment : String} (idle : Path.isIdle segment = true) (here : Location) :
    child here segment = here :=
  if_pos idle

theorem child_of_name {segment : String} (busy : Path.isIdle segment = false)
    (notUp : segment ≠ "..") (here : Location) : child here segment = here ++ [segment] := by
  simp [child, busy, notUp]

theorem isAncestor_origin (p : Path) : Location.isAncestor (origin p) = true := by
  unfold origin
  split <;> rfl

theorem isAncestor_concat {name : String} (notUp : name ≠ "..") (notRoot : name ≠ "/")
    (here : Location) : Location.isAncestor (here ++ [name]) = false := by
  have apart : here ++ [name] ≠ ["/"] := by
    intro same
    have last := congrArg List.getLast? same
    rw [List.getLast?_concat] at last
    exact notRoot (Option.some.inj last)
  simp [Location.isAncestor, notUp, apart]

theorem isAncestor_child_up {here : Location} (above : Location.isAncestor here = true) :
    Location.isAncestor (child here "..") = true := by
  have busy : Path.isIdle ".." = false := by decide
  by_cases root : here = ["/"]
  · simp [child, busy, root, Location.isAncestor]
  · have up : child here ".." = here ++ [".."] := by simp [child, busy, root, above]
    have dots : ∀ x ∈ here, x = ".." := by simpa [Location.isAncestor, root] using above
    rw [up]
    simpa [Location.isAncestor] using .inl dots

theorem child_up {here : Location} (below : Location.isAncestor here = false) :
    child here ".." = here.dropLast := by
  have busy : Path.isIdle ".." = false := by decide
  have notRoot : here ≠ ["/"] := by
    rintro rfl
    cases below
  simp [child, busy, notRoot, below]

theorem find?_of_isAncestor {location : Location} (above : Location.isAncestor location = true)
    (t : Tree) : t.find? location = some .directory :=
  if_pos above

/-- Upwards from a location that a path leads to, there is one that it has led to before. -/
theorem exists_follow_eq_dropLast {here : Location} (above : Location.isAncestor here = true)
    (segments : List String) :
    ∀ front, front <+: segments → Location.isAncestor (follow here front) = false →
      ∃ shorter, shorter <+: segments ∧ follow here shorter = (follow here front).dropLast := by
  induction segments using List.reverseRecOn with
  | nil =>
    intro front isFront below
    obtain rfl := List.prefix_nil.mp isFront
    rw [follow_nil, above] at below
    cases below
  | append_singleton segments last ih =>
    have widen : ∀ {shorter : List String}, shorter <+: segments → shorter <+: segments ++ [last] :=
      fun isShorter => isShorter.trans (List.prefix_append _ _)
    intro front isFront below
    rcases List.prefix_concat_iff.mp isFront with rfl | isFront
    · rw [follow_concat] at below ⊢
      by_cases idle : Path.isIdle last = true
      · rw [child_of_idle idle] at below ⊢
        obtain ⟨shorter, isShorter, leads⟩ := ih segments List.prefix_rfl below
        exact ⟨shorter, widen isShorter, leads⟩
      · rw [Bool.not_eq_true] at idle
        by_cases up : last = ".."
        · -- upwards twice: once for the segment, and once for the claim
          subst up
          have below' : Location.isAncestor (follow here segments) = false := by
            by_contra isAbove
            rw [Bool.not_eq_false] at isAbove
            rw [isAncestor_child_up isAbove] at below
            cases below
          obtain ⟨shorter, isShorter, leads⟩ := ih segments List.prefix_rfl below'
          rw [child_up below', ← leads] at below ⊢
          obtain ⟨shortest, isShortest, leads'⟩ := ih shorter isShorter below
          exact ⟨shortest, widen isShortest, leads'⟩
        · rw [child_of_name idle up, List.dropLast_concat]
          exact ⟨segments, widen List.prefix_rfl, rfl⟩
    · obtain ⟨shorter, isShorter, leads⟩ := ih front isFront below
      exact ⟨shorter, widen isShorter, leads⟩

/-! ## Walking -/

theorem walk_append (t : Tree) (here : Location) (front back : List String) :
    t.walk here (front ++ back) = (t.walk here front).bind (t.walk · back) := by
  induction front generalizing here with
  | nil => rfl
  | cons segment front ih =>
    simp only [List.cons_append, walk]
    split
    · rfl
    · rfl
    · split
      · rfl
      · exact ih _

/-- The last segment of a path is followed from the directory that the others lead to. -/
theorem walk_concat (t : Tree) (here : Location) (front : List String) (segment : String) :
    t.walk here (front ++ [segment]) =
      (t.enter here front).bind fun directory =>
        if Path.isTooLong segment then .error .nameTooLong else .ok (child directory segment) := by
  have short : Path.isTooLong "." = false := by decide
  rw [enter, walk_append, walk_append]
  cases t.walk here front with
  | error failure => rfl
  | ok location =>
    simp only [Except.bind, walk, short]
    cases t.find? location with
    | none => rfl
    | some entry =>
      cases entry with
      | file content => rfl
      | directory => rfl

theorem enter_cons (t : Tree) (here : Location) (segment : String) (rest : List String) :
    t.enter here (segment :: rest) =
      match t.find? here with
      | none => .error .notFound
      | some (.file _) => .error .notADirectory
      | some .directory =>
        if Path.isTooLong segment then .error .nameTooLong
        else t.enter (child here segment) rest := rfl

theorem enter_nil (t : Tree) (here : Location) :
    t.enter here [] =
      match t.find? here with
      | none => .error .notFound
      | some (.file _) => .error .notADirectory
      | some .directory => .ok here := rfl

/-- A directory is entered if every location on the way is a directory, itself included, and no
    name is too long. -/
theorem enter_eq_ok_iff {t : Tree} {here location : Location} {segments : List String} :
    t.enter here segments = .ok location ↔
      (∀ front, front <+: segments → t.find? (follow here front) = some .directory) ∧
        (∀ segment ∈ segments, Path.isTooLong segment = false) ∧
        location = follow here segments := by
  induction segments generalizing here with
  | nil =>
    rw [enter_nil]
    have only : (∀ front, front <+: [] → t.find? (follow here front) = some .directory) ↔
        t.find? here = some .directory := by
      simp [List.prefix_nil]
    rw [only]
    cases found : t.find? here with
    | none => simp
    | some entry =>
      cases entry with
      | file content => simp
      | directory =>
        constructor
        · rintro ⟨⟩
          exact ⟨rfl, nofun, rfl⟩
        · rintro ⟨-, -, rfl⟩
          rfl
  | cons segment rest ih =>
    rw [enter_cons]
    cases found : t.find? here with
    | none =>
      refine iff_of_false nofun fun ⟨directories, _⟩ => ?_
      simpa [found] using directories [] List.nil_prefix
    | some entry =>
      cases entry with
      | file content =>
        refine iff_of_false nofun fun ⟨directories, _⟩ => ?_
        simpa [found] using directories [] List.nil_prefix
      | directory =>
        cases long : Path.isTooLong segment with
        | true =>
          refine iff_of_false nofun fun ⟨_, short, _⟩ => ?_
          simpa [long] using short segment List.mem_cons_self
        | false =>
          simp only [Bool.false_eq_true, if_false, ih, List.prefix_cons_iff, List.forall_mem_cons,
            long, true_and, follow_cons]
          refine and_congr_left fun _ => ⟨fun directories front isFront => ?_,
            fun directories front isFront => ?_⟩
          · rcases isFront with rfl | ⟨front, rfl, isFront⟩
            · exact found
            · exact directories front isFront
          · exact directories (segment :: front) (.inr ⟨front, rfl, isFront⟩)

/-- If there are no plain files on the way and no name is too long, only a missing directory can
    stop one. -/
theorem enter_eq_ok_or_notFound {t : Tree} {here : Location} {segments : List String}
    (noFile : ∀ front, front <+: segments → ∀ content,
      t.find? (follow here front) ≠ some (.file content))
    (short : ∀ segment ∈ segments, Path.isTooLong segment = false) :
    t.enter here segments = .ok (follow here segments) ∨
      t.enter here segments = .error .notFound := by
  induction segments generalizing here with
  | nil =>
    rw [enter_nil]
    cases found : t.find? here with
    | none => exact .inr rfl
    | some entry =>
      cases entry with
      | file content => exact absurd found (noFile [] List.nil_prefix content)
      | directory => exact .inl rfl
  | cons segment rest ih =>
    rw [enter_cons]
    cases found : t.find? here with
    | none => exact .inr rfl
    | some entry =>
      cases entry with
      | file content => exact absurd found (noFile [] List.nil_prefix content)
      | directory =>
        rw [List.forall_mem_cons] at short
        simp only [short.1, Bool.false_eq_true, if_false]
        refine ih (fun front isFront => ?_) short.2
        exact noFile (segment :: front) (List.cons_prefix_cons.mpr ⟨rfl, isFront⟩)

theorem isDirectory_iff {t : Tree} {p : Path} :
    t.isDirectory p = true ↔ objection? p = none ∧
      (∀ front, front <+: p.segments → t.find? (follow (origin p) front) = some .directory) ∧
      ∀ segment ∈ p.segments, Path.isTooLong segment = false := by
  unfold isDirectory
  cases objection? p with
  | some failure => simp
  | none =>
    cases entered : t.enter (origin p) p.segments with
    | ok location =>
      obtain ⟨directories, short, -⟩ := enter_eq_ok_iff.mp entered
      simpa using ⟨directories, short⟩
    | error failure =>
      refine iff_of_false nofun fun ⟨_, directories, short⟩ => ?_
      rw [enter_eq_ok_iff.mpr ⟨directories, short, rfl⟩] at entered
      cases entered

end Tree

/-! ## Locations of paths -/

namespace Path

/-- Where a path leads, whatever is on the way. -/
def location (p : Path) : Location :=
  Tree.follow (Tree.origin p) p.segments

/-- The locations on the way to what a path names.  Where there is something at the end of the
    path, these are directories. -/
def directories (p : Path) : List Location :=
  p.segments.dropLast.inits.map (Tree.follow (Tree.origin p))

theorem mem_directories {p : Path} {location : Location} :
    location ∈ p.directories ↔
      ∃ front, front <+: p.segments.dropLast ∧ Tree.follow (Tree.origin p) front = location := by
  simp [directories]

theorem mem_directories_concat {p : Path} {front : List String} {last : String}
    (segments : p.segments = front ++ [last]) {location : Location} :
    location ∈ p.directories ↔
      ∃ shorter, shorter <+: front ∧ Tree.follow (Tree.origin p) shorter = location := by
  rw [mem_directories, segments, List.dropLast_concat]

theorem location_concat {p : Path} {front : List String} {last : String}
    (segments : p.segments = front ++ [last]) (busy : isIdle last = false) (notUp : last ≠ "..") :
    p.location = Tree.follow (Tree.origin p) front ++ [last] := by
  rw [location, segments, Tree.follow_concat, Tree.child_of_name busy notUp]

/-- Whether every name in a path is one that the system takes. -/
def Short (p : Path) : Prop :=
  ∀ segment ∈ p.segments, isTooLong segment = false

/-- Whether a path ends in a name that a file can have. -/
def NamesFile (p : Path) : Prop :=
  ∃ name, p.segments.getLast? = some name ∧ isIdle name = false ∧ name ≠ ".."

theorem slash_notMem_cutAtSlash (cs : List Char) : ∀ segment ∈ cutAtSlash cs, '/' ∉ segment := by
  induction cs with
  | nil => simp [cutAtSlash]
  | cons c cs ih =>
    rw [cutAtSlash]
    split
    · simpa using ih
    · next notSlash =>
      have notSlash' : '/' ≠ c := fun same => notSlash same.symm
      split
      · simpa using notSlash'
      · next segment segments cut =>
        rw [cut, List.forall_mem_cons] at ih
        simpa [notSlash', ih.1] using ih.2

/-- A slash is never a segment. -/
theorem ne_slash_of_mem_segments {text segment : String}
    (mem : segment ∈ (ofString text).segments) : segment ≠ "/" := by
  have cut : ∃ cs, (ofString text).segments = (cutAtSlash cs).map String.ofList := by
    unfold ofString
    split <;> exact ⟨_, rfl⟩
  obtain ⟨cs, segments⟩ := cut
  rw [segments] at mem
  obtain ⟨chars, isSegment, rfl⟩ := List.mem_map.mp mem
  intro same
  have slash : chars = ['/'] := by simpa using congrArg String.toList same
  exact slash_notMem_cutAtSlash cs chars isSegment (by simp [slash])

end Path

/-! ## Reading and writing in these terms -/

namespace Tree

/-- A path leads to a plain file that holds this. -/
structure Holds (t : Tree) (p : Path) (content : ByteArray) : Prop where
  acceptable : objection? p = none
  short : p.Short
  directories : ∀ location ∈ p.directories, t.find? location = some .directory
  found : t.find? p.location = some (.file content)

theorem walk_segments_eq_ok_iff {t : Tree} {p : Path} {location : Location} :
    t.walk (origin p) p.segments = .ok location ↔
      p.Short ∧ (∀ location ∈ p.directories, t.find? location = some .directory) ∧
        location = p.location := by
  simp only [Path.mem_directories, Path.Short, Path.location]
  rcases List.eq_nil_or_concat p.segments with nothing | ⟨front, last, segments⟩
  · have begun := find?_of_isAncestor (isAncestor_origin p) t
    rw [nothing]
    constructor
    · rintro ⟨⟩
      refine ⟨nofun, ?_, rfl⟩
      rintro location ⟨front, isFront, rfl⟩
      rw [List.prefix_nil.mp isFront]
      exact begun
    · rintro ⟨-, -, rfl⟩
      rfl
  · rw [segments, List.concat_eq_append, walk_concat, List.dropLast_concat, follow_concat,
      List.forall_mem_append, List.forall_mem_singleton]
    constructor
    · intro walked
      cases entered : t.enter (origin p) front with
      | error failure => simp [entered, Except.bind] at walked
      | ok directory =>
        obtain ⟨directories, short, rfl⟩ := enter_eq_ok_iff.mp entered
        simp only [entered, Except.bind] at walked
        split at walked
        · cases walked
        · next notLong =>
          cases walked
          refine ⟨⟨short, by simpa using notLong⟩, ?_, rfl⟩
          rintro location ⟨front, isFront, rfl⟩
          exact directories front isFront
    · rintro ⟨⟨short, notLong⟩, directories, rfl⟩
      have entered : t.enter (origin p) front = .ok (follow (origin p) front) :=
        enter_eq_ok_iff.mpr ⟨fun q isFront => directories _ ⟨q, isFront, rfl⟩, short, rfl⟩
      simp [entered, Except.bind, notLong]

theorem read_eq_ok_iff {t : Tree} {p : Path} {content : ByteArray} :
    t.read p = .ok content ↔ t.Holds p content := by
  unfold read
  constructor
  · intro ok
    split at ok
    · cases ok
    · next acceptable =>
      split at ok
      · cases ok
      · next location walked =>
        obtain ⟨short, directories, rfl⟩ := walk_segments_eq_ok_iff.mp walked
        split at ok
        · cases ok
        · cases ok
        · next found =>
          cases ok
          exact ⟨acceptable, short, directories, found⟩
  · rintro ⟨acceptable, short, directories, found⟩
    simp only [acceptable, walk_segments_eq_ok_iff.mpr ⟨short, directories, rfl⟩, found]

theorem readText_eq_ok_iff {t : Tree} {p : Path} {text : String} :
    t.readText p = .ok text ↔ t.Holds p text.toUTF8 := by
  have decoded : ∀ content, String.fromUTF8? content = some text ↔ content = text.toUTF8 := by
    intro content
    unfold String.fromUTF8?
    constructor
    · intro valid
      split at valid
      · cases valid
        rfl
      · cases valid
    · rintro rfl
      exact dif_pos text.isValidUTF8
  rw [← read_eq_ok_iff, readText]
  cases t.read p with
  | error failure => simp
  | ok content =>
    rw [Except.ok.injEq, ← decoded]
    simp only
    cases String.fromUTF8? content <;> simp

/-- A slash at the end of a path asks for a directory, so there is no place for a file. -/
theorem fileLocation_ne_ok_of_slash {p : Path} {front : List String}
    (segments : p.segments = front ++ [""]) (t : Tree) (location : Location) :
    t.fileLocation p ≠ .ok location := by
  have fewer : ((p.segments.reverse.dropWhile (· == "")).reverse).length < p.segments.length := by
    have dropped := (List.dropWhile_suffix (· == "") (l := front.reverse)).length_le
    simp only [segments, List.reverse_append, List.reverse_singleton, List.singleton_append,
      List.dropWhile_cons, beq_self_eq_true, if_true, List.length_reverse, List.length_append,
      List.length_singleton] at dropped ⊢
    omega
  intro ok
  simp only [fileLocation] at ok
  split at ok
  · cases ok
  · cases ok
  · split at ok
    · cases ok
    · rw [decide_eq_true fewer, Bool.or_true, if_pos rfl] at ok
      cases ok

theorem fileLocation_concat {p : Path} {front : List String} {last : String}
    (segments : p.segments = front ++ [last]) (notEmpty : last ≠ "")
    (acceptable : objection? p = none) (t : Tree) :
    t.fileLocation p = (t.enter (origin p) front).bind fun directory =>
      if Path.isDots last then .error .isADirectory
      else if Path.isTooLong last then .error .nameTooLong
      else
        match t.find? (directory ++ [last]) with
        | some .directory => .error .isADirectory
        | _ => .ok (directory ++ [last]) := by
  have named : ((front ++ [last]).reverse.dropWhile (· == "")).reverse = front ++ [last] := by
    simp [notEmpty]
  simp only [fileLocation, segments, named, acceptable, List.getLast?_concat, List.dropLast_concat,
    Nat.lt_irrefl, decide_false, Bool.or_false]
  cases t.enter (origin p) front <;> rfl

/-- A file can be made where a path leads: the directories on the way are there, and the path ends
    in a name that no directory has. -/
theorem fileLocation_eq_ok_iff {t : Tree} {p : Path} {location : Location} :
    t.fileLocation p = .ok location ↔
      objection? p = none ∧ p.Short ∧ p.NamesFile ∧
        (∀ location ∈ p.directories, t.find? location = some .directory) ∧
        t.find? p.location ≠ some .directory ∧ location = p.location := by
  constructor
  · intro ok
    have acceptable : objection? p = none := by
      cases objected : objection? p with
      | none => rfl
      | some failure =>
        simp only [fileLocation, objected] at ok
        cases ok
    rcases List.eq_nil_or_concat p.segments with nothing | ⟨front, last, segments⟩
    · simp [fileLocation, nothing, acceptable] at ok
    · rw [List.concat_eq_append] at segments
      have notEmpty : last ≠ "" := by
        rintro rfl
        exact fileLocation_ne_ok_of_slash segments t location ok
      rw [fileLocation_concat segments notEmpty acceptable] at ok
      cases entered : t.enter (origin p) front with
      | error failure => simp [entered, Except.bind] at ok
      | ok directory =>
        obtain ⟨directories, short, rfl⟩ := enter_eq_ok_iff.mp entered
        simp only [entered, Except.bind] at ok
        split at ok
        · cases ok
        · next notDots =>
          split at ok
          · cases ok
          · next notLong =>
            have busy : Path.isIdle last = false := by
              simp_all [Path.isIdle, Path.isDots]
            have notUp : last ≠ ".." := by
              rintro rfl
              exact notDots rfl
            refine ⟨acceptable, ?_, ⟨last, by simp [segments], busy, notUp⟩, ?_, ?_⟩
            · rw [Path.Short, segments, List.forall_mem_append, List.forall_mem_singleton]
              exact ⟨short, by simpa using notLong⟩
            · intro location onTheWay
              obtain ⟨shorter, isFront, rfl⟩ := (Path.mem_directories_concat segments).mp onTheWay
              exact directories shorter isFront
            · rw [Path.location_concat segments busy notUp]
              split at ok
              · cases ok
              · next free =>
                cases ok
                exact ⟨free, rfl⟩
  · rintro ⟨acceptable, short, ⟨last, isLast, busy, notUp⟩, directories, free, rfl⟩
    obtain ⟨front, segments⟩ := List.getLast?_eq_some_iff.mp isLast
    have notEmpty : last ≠ "" := by
      rintro rfl
      cases busy
    have notDots : Path.isDots last = false := by
      simp_all [Path.isIdle, Path.isDots]
    rw [Path.Short, segments, List.forall_mem_append, List.forall_mem_singleton] at short
    have entered : t.enter (origin p) front = .ok (follow (origin p) front) := by
      refine enter_eq_ok_iff.mpr ⟨fun shorter isFront => directories _ ?_, short.1, rfl⟩
      exact (Path.mem_directories_concat segments).mpr ⟨shorter, isFront, rfl⟩
    rw [fileLocation_concat segments notEmpty acceptable, entered]
    rw [Path.location_concat segments busy notUp] at free ⊢
    simp only [Except.bind, notDots, short.2, Bool.false_eq_true, if_false]

end Tree

end BasicToC.Files
