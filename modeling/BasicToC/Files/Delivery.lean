import BasicToC.Files.System
import BasicToC.Files.Tree

/-! # Delivering a text to a file

What the program does to files, on a tree of them: `Scene.system` is the tree as a system, and the
functions of a tree are those of this system.
-/

namespace BasicToC.Files

/-! ## A tree as a system -/

/-- The files around a run, and what the run has said so far. -/
structure Scene where
  tree : Tree
  stdout : String
  stderr : String
  level : Level
  log : List LogRecord

/-- The files as they are found.  Nothing has been said, and everything will be logged. -/
def Tree.scene (t : Tree) : Scene := ⟨t, "", "", .trace, []⟩

namespace Scene

def system : System (StateM Scene) Failure where
  readText p := do return (← get).tree.readText p
  write p text := modifyGet fun s =>
    let (result, tree) := s.tree.write p text
    (result, { s with tree })
  makeDirectory p := modifyGet fun s =>
    let (result, tree) := s.tree.makeDirectory p
    (result, { s with tree })
  isDirectory p := do return (← get).tree.isDirectory p
  isMissing failure := failure == .notFound
  message := Failure.message
  print text := modify fun s => { s with stdout := s.stdout ++ text }
  printError text := modify fun s => { s with stderr := s.stderr ++ text }
  setLevel level := modify fun s => { s with level }
  log records := modify fun s => { s with log := s.log ++ shownLog s.level records }

end Scene

/-! ## Deliveries -/

structure Delivery where
  result : Except (Refusal Failure) Unit
  tree : Tree
  log : List LogRecord

namespace Tree

/-- What an operation on files gives, and the tree that it leaves. -/
def apply {α : Type} (t : Tree) (operation : StateM Scene α) : α × Tree :=
  let left := operation.run t.scene
  (left.1, left.2.tree)

def orDirectory (p : Path) (attempt : Except Failure Unit × Tree) : Except Failure Unit × Tree :=
  attempt.2.apply (Scene.system.orDirectory p attempt.1)

def makeDirectories (t : Tree) (ps : List Path) : Except Failure Unit × Tree :=
  t.apply (Scene.system.makeDirectories ps)

def deliver (t : Tree) (path text : String) : Delivery :=
  let left := (Scene.system.deliver path text).run t.scene
  ⟨left.1, left.2.tree, left.2.log⟩

/-- Deliver several texts in turn to the same path; what each delivery says and leaves. -/
def deliverAll (t : Tree) (path : String) : List String → List Delivery
  | [] => []
  | text :: texts => t.deliver path text :: deliverAll (t.deliver path text).tree path texts

end Tree

end BasicToC.Files
