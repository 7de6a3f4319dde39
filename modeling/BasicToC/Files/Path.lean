/-! # Paths

A path is a text that names a file or a directory, seen from the directory in which the program
runs or, if it begins with a slash, from the root of all files.  The system sets limits to the text
of a path and to the names in it, both counted in bytes.
-/

namespace BasicToC.Files

def cutAtSlash : List Char → List (List Char)
  | [] => [[]]
  | c :: cs =>
    if c = '/' then [] :: cutAtSlash cs
    else
      match cutAtSlash cs with
      | [] => [[c]]
      | segment :: segments => (c :: segment) :: segments

/-- A path, cut at its slashes.  Between two slashes in a row there is an empty segment. -/
structure Path where
  absolute : Bool
  segments : List String
  deriving DecidableEq, Repr

namespace Path

def ofString (text : String) : Path :=
  match text.toList with
  | '/' :: cs => ⟨true, (cutAtSlash cs).map String.ofList⟩
  | cs => ⟨false, (cutAtSlash cs).map String.ofList⟩

def text (p : Path) : String :=
  (if p.absolute then "/" else "") ++ "/".intercalate p.segments

/-! ## Segments -/

/-- Whether a segment says nothing about where a path leads. -/
def isIdle (segment : String) : Bool :=
  segment == "" || segment == "."

/-- Whether a segment can only name a directory. -/
def isDots (segment : String) : Bool :=
  segment == "." || segment == ".."

def maxNameSize : Nat := 255

def isTooLong (segment : String) : Bool :=
  Nat.blt maxNameSize segment.utf8ByteSize

/-! ## The directories on the way -/

/-- Whether a path ends in a segment that matters.  The dot of a path that begins in the running
    directory by its dot does. -/
def endsInName (p : Path) : Bool :=
  match p.segments.getLast? with
  | none => false
  | some segment => !isIdle segment || (!p.absolute && p.segments == ["."])

/-- The path and every shorter one that it passes through, the longest first. -/
def stations (p : Path) : List Path :=
  let count := p.segments.length
  ((List.range count).map fun n => ⟨p.absolute, p.segments.take (count - n)⟩).filter endsInName

/-- The directories that lead to what a path names, the nearest first.  The running directory and
    the root are not among them. -/
def parents (p : Path) : List Path :=
  p.stations.tail

/-! ## The text of a path -/

def maxSize : Nat := 4095

def isOversized (p : Path) : Bool :=
  Nat.blt maxSize p.text.utf8ByteSize

/-- The system takes texts that end in a zero byte, so there cannot be one inside. -/
def hasZero (p : Path) : Bool :=
  p.text.toList.contains '\x00'

end Path

end BasicToC.Files
