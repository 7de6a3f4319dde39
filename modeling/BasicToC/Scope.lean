import BasicToC.Position
import BasicToC.Text.Order

/-! # Scopes

What a program has named so far.  Variables and labels are remembered in the order in which they
came; a jump may come before its label, so the jumps are kept and looked at when the program has
ended.
-/

namespace BasicToC

/-- A jump to a label: the name it gives, and where it gives it. -/
structure Jump where
  name : String
  position : Position
  deriving DecidableEq, Repr

/-- The names of a program: its variables, its labels, and the first jump to each label. -/
structure Scope where
  assigned : List String
  labels : List String
  jumps : List Jump
  deriving DecidableEq, Repr

namespace Scope

def empty : Scope := ⟨[], [], []⟩

def hasVariable (s : Scope) (name : String) : Bool :=
  s.assigned.contains name

def hasLabel (s : Scope) (name : String) : Bool :=
  s.labels.contains name

def addVariable (s : Scope) (name : String) : Scope :=
  if s.hasVariable name then s else { s with assigned := s.assigned ++ [name] }

def addLabel (s : Scope) (name : String) : Scope :=
  { s with labels := s.labels ++ [name] }

/-- Remember a jump, unless there was one to the same label before. -/
def addJump (s : Scope) (jump : Jump) : Scope :=
  if s.jumps.any (·.name == jump.name) then s else { s with jumps := s.jumps ++ [jump] }

/-- The jump whose name comes first in the order of strings. -/
def leastJump? : List Jump → Option Jump
  | [] => none
  | jump :: rest =>
    match leastJump? rest with
    | none => some jump
    | some least => if Text.precedes least.name jump.name then some least else some jump

/-- The jump to report when the program has ended: the least one without a label. -/
def dangling? (s : Scope) : Option Jump :=
  leastJump? (s.jumps.filter (!s.hasLabel ·.name))

@[simp]
theorem hasVariable_iff {s : Scope} {name : String} :
    s.hasVariable name = true ↔ name ∈ s.assigned := by
  simp [hasVariable]

@[simp]
theorem hasLabel_iff {s : Scope} {name : String} : s.hasLabel name = true ↔ name ∈ s.labels := by
  simp [hasLabel]

theorem assigned_addVariable (s : Scope) (name : String) :
    (s.addVariable name).assigned =
      if name ∈ s.assigned then s.assigned else s.assigned ++ [name] := by
  unfold addVariable
  split <;> simp_all

@[simp]
theorem labels_addVariable (s : Scope) (name : String) :
    (s.addVariable name).labels = s.labels := by
  unfold addVariable
  split <;> rfl

@[simp]
theorem jumps_addVariable (s : Scope) (name : String) : (s.addVariable name).jumps = s.jumps := by
  unfold addVariable
  split <;> rfl

@[simp]
theorem assigned_addLabel (s : Scope) (name : String) :
    (s.addLabel name).assigned = s.assigned := rfl

@[simp]
theorem jumps_addLabel (s : Scope) (name : String) : (s.addLabel name).jumps = s.jumps := rfl

@[simp]
theorem assigned_addJump (s : Scope) (jump : Jump) :
    (s.addJump jump).assigned = s.assigned := by
  unfold addJump
  split <;> rfl

@[simp]
theorem labels_addJump (s : Scope) (jump : Jump) : (s.addJump jump).labels = s.labels := by
  unfold addJump
  split <;> rfl

@[simp]
theorem mem_assigned_addVariable {s : Scope} {x name : String} :
    x ∈ (s.addVariable name).assigned ↔ x ∈ s.assigned ∨ x = name := by
  unfold addVariable
  split
  · next known =>
    constructor
    · exact Or.inl
    · rintro (old | rfl)
      · exact old
      · exact hasVariable_iff.mp known
  · simp

@[simp]
theorem mem_labels_addLabel {s : Scope} {x name : String} :
    x ∈ (s.addLabel name).labels ↔ x ∈ s.labels ∨ x = name := by
  simp [addLabel]

theorem mem_jumpNames_addJump {s : Scope} {x : String} {jump : Jump} :
    x ∈ (s.addJump jump).jumps.map Jump.name ↔ x ∈ s.jumps.map Jump.name ∨ x = jump.name := by
  unfold addJump
  split
  · next known =>
    obtain ⟨old, mem, same⟩ := List.any_eq_true.mp known
    constructor
    · exact Or.inl
    · rintro (mem' | rfl)
      · exact mem'
      · exact List.mem_map.mpr ⟨old, mem, by simpa using same⟩
  · simp

theorem leastJump?_eq_none_iff {jumps : List Jump} : leastJump? jumps = none ↔ jumps = [] := by
  cases jumps with
  | nil => simp [leastJump?]
  | cons jump rest =>
    rw [leastJump?]
    split
    · simp
    · split <;> simp

/-- No jump is reported exactly if every jump has its label. -/
theorem dangling?_eq_none_iff {s : Scope} :
    s.dangling? = none ↔ ∀ jump ∈ s.jumps, jump.name ∈ s.labels := by
  rw [dangling?, leastJump?_eq_none_iff, List.filter_eq_nil_iff]
  simp

end Scope

end BasicToC
