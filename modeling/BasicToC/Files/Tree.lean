import BasicToC.Files.Path
import BasicToC.Text.Order

/-! # Trees of files

The files and directories around the running directory, as a value.  Reading, writing and making
directories follow the rules of a Unix file system without links: a path is walked from its front,
and the first segment that cannot be passed decides what goes wrong.
-/

namespace BasicToC.Files

/-! ## Trees -/

/-- Where something is: the names on the way from the running directory.  Each `..` at the front
    stands for a directory further up, and a slash at the front for the root. -/
abbrev Location := List String

/-- What there can be at a location. -/
inductive Entry where
  | file (content : ByteArray)
  | directory

inductive Failure where
  | notFound
  | alreadyExists
  | notADirectory
  | isADirectory
  /-- A name, or the whole path, is longer than the system allows. -/
  | nameTooLong
  | zeroInPath
  /-- The file is there, but what it holds is no text. -/
  | notText
  deriving DecidableEq, Repr

def Failure.message : Failure → String
  | notFound => "No such file or directory (os error 2)"
  | alreadyExists => "File exists (os error 17)"
  | notADirectory => "Not a directory (os error 20)"
  | isADirectory => "Is a directory (os error 21)"
  | nameTooLong => "File name too long (os error 36)"
  | zeroInPath => "file name contained an unexpected NUL byte"
  | notText => "stream did not contain valid UTF-8"

/-- Whether a location is the running directory, one further up, or the root. -/
def Location.isAncestor (location : Location) : Bool :=
  location.all (· == "..") || location == ["/"]

/-- The entries that are known.  Nothing is known about what else there is above the running
    directory, and it counts as missing.  Nor does a tree know the name of the running directory:
    a path that comes back to it by that name, as an absolute path into it or one that goes up and
    down again (`../name`), is taken for another place. -/
structure Tree where
  entries : List (Location × Entry)

namespace Tree

def empty : Tree := ⟨[]⟩

/-- What is at a location.  The running directory and those above it are always there. -/
def find? (t : Tree) (location : Location) : Option Entry :=
  if Location.isAncestor location then some .directory
  else (t.entries.find? (·.1 == location)).map (·.2)

def put (location : Location) (entry : Entry) : List (Location × Entry) → List (Location × Entry)
  | [] => [(location, entry)]
  | e :: rest => if e.1 = location then (location, entry) :: rest else e :: put location entry rest

/-- Put an entry at a location, in the place of what is there. -/
def insert (t : Tree) (location : Location) (entry : Entry) : Tree :=
  ⟨put location entry t.entries⟩

theorem find?_put (location : Location) (entry : Entry) (entries : List (Location × Entry))
    (other : Location) :
    ((put location entry entries).find? (·.1 == other)).map (·.2) =
      if other = location then some entry else (entries.find? (·.1 == other)).map (·.2) := by
  induction entries with
  | nil =>
    by_cases same : other = location
    · simp [put, same]
    · simp [put, same, Ne.symm same]
  | cons e rest ih =>
    by_cases here : e.1 = location
    · by_cases same : location = other
      · simp [put, here, same]
      · simp [put, here, same, Ne.symm same]
    · by_cases found : e.1 = other
      · have apart : other ≠ location := fun eq => here (found.trans eq)
        simp [put, found, apart]
      · simpa [put, here, found] using ih

/-- A location holds what was put there, and every other location what it held before. -/
theorem find?_insert (t : Tree) {location : Location} (entry : Entry)
    (below : Location.isAncestor location = false) (other : Location) :
    (t.insert location entry).find? other =
      if other = location then some entry else t.find? other := by
  by_cases above : Location.isAncestor other = true
  · have apart : other ≠ location := by
      rintro rfl
      rw [above] at below
      contradiction
    simp [find?, above, apart]
  · simpa only [find?, insert, above, Bool.false_eq_true, if_false]
      using find?_put location entry t.entries other

/-! ## Walking -/

def origin (p : Path) : Location :=
  if p.absolute then ["/"] else []

/-- Go from a directory where a segment leads.  Above the root there is only the root. -/
def child (here : Location) (segment : String) : Location :=
  if Path.isIdle segment then here
  else if segment = ".." then
    if here = ["/"] then here
    else if Location.isAncestor here then here ++ [".."]
    else here.dropLast
  else here ++ [segment]

/-- Follow segments from a location.  A segment can be followed only from a directory, and only if
    it is no longer than a name; whether there is something at the end is left open. -/
def walk (t : Tree) (here : Location) : List String → Except Failure Location
  | [] => .ok here
  | segment :: rest =>
    match t.find? here with
    | none => .error .notFound
    | some (.file _) => .error .notADirectory
    | some .directory =>
      if Path.isTooLong segment then .error .nameTooLong else walk t (child here segment) rest

/-- Follow segments from a location to a directory. -/
def enter (t : Tree) (here : Location) (segments : List String) : Except Failure Location :=
  t.walk here (segments ++ ["."])

/-- What the system finds wrong with a path before it looks for anything. -/
def objection? (p : Path) : Option Failure :=
  if p.hasZero then some .zeroInPath
  else if p.text = "" then some .notFound
  else if p.isOversized then some .nameTooLong
  else none

def isDirectory (t : Tree) (p : Path) : Bool :=
  match objection? p, t.enter (origin p) p.segments with
  | none, .ok _ => true
  | _, _ => false

/-! ## Reading and writing -/

def read (t : Tree) (p : Path) : Except Failure ByteArray :=
  match objection? p with
  | some failure => .error failure
  | none =>
    match t.walk (origin p) p.segments with
    | .error failure => .error failure
    | .ok location =>
      match t.find? location with
      | none => .error .notFound
      | some .directory => .error .isADirectory
      | some (.file content) => .ok content

def readText (t : Tree) (p : Path) : Except Failure String :=
  match t.read p with
  | .error failure => .error failure
  | .ok content =>
    match String.fromUTF8? content with
    | none => .error .notText
    | some text => .ok text

/-- The location a new file of this path would have.  The directory it stands in has to be there,
    and the last segment has to be a name that no directory has; a slash after it also asks for a
    directory. -/
def fileLocation (t : Tree) (p : Path) : Except Failure Location :=
  let named := (p.segments.reverse.dropWhile (· == "")).reverse
  match objection? p, named.getLast? with
  | some failure, _ => .error failure
  | none, none => .error .isADirectory
  | none, some name =>
    match t.enter (origin p) named.dropLast with
    | .error failure => .error failure
    | .ok directory =>
      if Path.isDots name || named.length < p.segments.length then .error .isADirectory
      else if Path.isTooLong name then .error .nameTooLong
      else
        match t.find? (directory ++ [name]) with
        | some .directory => .error .isADirectory
        | _ => .ok (directory ++ [name])

/-- Make a file hold a text, whatever it held before. -/
def write (t : Tree) (p : Path) (text : String) : Except Failure Unit × Tree :=
  match t.fileLocation p with
  | .error failure => (.error failure, t)
  | .ok location => (.ok (), t.insert location (.file text.toUTF8))

/-! ## Making directories -/

/-- The location of a directory that is to be made.  The directory it stands in has to be there,
    and nothing may be where it will be. -/
def directoryLocation (t : Tree) (p : Path) : Except Failure Location :=
  match objection? p, p.segments.getLast? with
  | some failure, _ => .error failure
  | none, none => .error .alreadyExists
  | none, some name =>
    match t.enter (origin p) p.segments.dropLast with
    | .error failure => .error failure
    | .ok directory =>
      if Path.isDots name then .error .alreadyExists
      else if Path.isTooLong name then .error .nameTooLong
      else
        match t.find? (directory ++ [name]) with
        | some _ => .error .alreadyExists
        | none => .ok (directory ++ [name])

def makeDirectory (t : Tree) (p : Path) : Except Failure Unit × Tree :=
  match t.directoryLocation p with
  | .error failure => (.error failure, t)
  | .ok location => (.ok (), t.insert location .directory)

/-! ## Building and listing -/

/-- Put an entry where a path leads, together with the directories on the way. -/
def place (t : Tree) (p : Path) (entry : Entry) : Tree :=
  let location := p.segments.foldl child (origin p)
  let ways := (List.range location.length).map location.take
  let made := ways.foldl (fun t d => if (t.find? d).isSome then t else t.insert d .directory) t
  if Location.isAncestor location then made else made.insert location entry

/-- A location as a path.  That of a directory ends in a slash. -/
def pathOf (location : Location) : Entry → String
  | .file _ => "/".intercalate location
  | .directory => "/".intercalate location ++ "/"

def isBelow (location : Location) : Bool :=
  match location.head? with
  | none => false
  | some name => name != ".." && name != "/"

/-- Every entry below the running directory with its path, in the order of the paths. -/
def listing (t : Tree) : List (String × Entry) :=
  let below := t.entries.filter fun e => isBelow e.1
  (below.map fun e => (pathOf e.1 e.2, e.2)).mergeSort fun a b => !Text.precedes b.1 a.1

end Tree

end BasicToC.Files
