import BasicToC.Program
import BasicToC.Proofs.NumeralValues

/-! # Formulas

What an expression or a condition says: a tree of operators, with numbers and names at its leaves.
In Tiny BASIC operators of the same kind are applied from left to right.  A `Chain` is what there is
before any operator is applied, and `Chain.group` applies some of the operators and leaves the
others; applying one kind of operator after the other is what gives operators their precedence.
-/

namespace BasicToC

/-! ## Chains -/

/-- Operands with operators between them. -/
structure Chain (ω α : Type) where
  first : α
  rest : List (ω × α)

namespace Chain

variable {ω ω' α β γ : Type}

/-- The operators of a chain. -/
def operators (c : Chain ω α) : List ω :=
  c.rest.map Prod.fst

/-- Change every operator and every operand. -/
def bimap (g : ω → ω') (f : α → β) (c : Chain ω α) : Chain ω' β :=
  ⟨f c.first, c.rest.map fun (o, x) => (g o, f x)⟩

/-- Change every operand. -/
def map (f : α → β) (c : Chain ω α) : Chain ω β :=
  c.bimap id f

/-- Put a chain in the place of every operand. -/
def flatten (f : α → Chain ω β) (c : Chain ω α) : Chain ω β :=
  ⟨(f c.first).first,
    (f c.first).rest ++ c.rest.flatMap fun (o, x) => (o, (f x).first) :: (f x).rest⟩

/-- Apply all operators from left to right. -/
def fold (apply : ω → α → α → α) (c : Chain ω α) : α :=
  c.rest.foldl (fun x (o, y) => apply o x y) c.first

/-- Apply some of the operators that stand behind an operand, from left to right. -/
def groupFrom (binds : ω → Bool) (apply : ω → α → α → α) (x : α) : List (ω × α) → Chain ω α
  | [] => ⟨x, []⟩
  | (o, y) :: rest =>
    if binds o then groupFrom binds apply (apply o x y) rest
    else ⟨x, (o, (groupFrom binds apply y rest).first) :: (groupFrom binds apply y rest).rest⟩

/-- Apply some of the operators from left to right, and leave the others between the results. -/
def group (binds : ω → Bool) (apply : ω → α → α → α) (c : Chain ω α) : Chain ω α :=
  groupFrom binds apply c.first c.rest

@[simp]
theorem operators_map (f : α → β) (c : Chain ω α) : (c.map f).operators = c.operators := by
  simp [operators, map, bimap, Function.comp_def]

theorem mem_operators_flatten {f : α → Chain ω β} {c : Chain ω α} {o : ω}
    (mem : o ∈ (c.flatten f).operators) : (∃ x, o ∈ (f x).operators) ∨ o ∈ c.operators := by
  obtain ⟨p, isPair, rfl⟩ := List.mem_map.mp mem
  rcases List.mem_append.mp isPair with inside | isPair
  · exact .inl ⟨c.first, List.mem_map_of_mem inside⟩
  · obtain ⟨q, between, isPair⟩ := List.mem_flatMap.mp isPair
    rcases List.mem_cons.mp isPair with rfl | inside
    · exact .inr (List.mem_map_of_mem between)
    · exact .inl ⟨q.2, List.mem_map_of_mem inside⟩

theorem map_bimap (g : ω → ω') (f : α → β) (h : β → γ) (c : Chain ω α) :
    (c.bimap g f).map h = c.bimap g (h ∘ f) := by
  simp [map, bimap]

theorem map_flatten (f : α → Chain ω β) (g : β → γ) (c : Chain ω α) :
    (c.flatten f).map g = c.flatten fun x => (f x).map g := by
  simp [map, bimap, flatten, List.map_flatMap]

theorem flatten_singleton (f : α → β) (c : Chain ω α) :
    (c.flatten fun x => ⟨f x, []⟩) = c.map f := by
  simp [flatten, map, bimap, List.map_eq_flatMap]

theorem flatten_flatten (f : α → Chain ω β) (g : β → Chain ω γ) (c : Chain ω α) :
    (c.flatten f).flatten g = c.flatten fun x => (f x).flatten g := by
  simp [flatten, List.flatMap_assoc]

section Group

variable {binds : ω → Bool} {apply : ω → α → α → α}

/-- Operators that all bind are applied. -/
theorem groupFrom_append {rest : List (ω × α)} (all : ∀ p ∈ rest, binds p.1 = true) (x : α)
    (others : List (ω × α)) :
    groupFrom binds apply x (rest ++ others) =
      groupFrom binds apply (fold apply ⟨x, rest⟩) others := by
  induction rest generalizing x with
  | nil => rfl
  | cons p rest ih =>
    obtain ⟨o, y⟩ := p
    rw [List.forall_mem_cons] at all
    rw [List.cons_append, groupFrom, if_pos all.1, ih all.2]
    rfl

/-- An operator that does not bind parts the groups. -/
theorem groupFrom_append_cons {o : ω} (parts : binds o = false) (x y : α)
    (rest others : List (ω × α)) :
    groupFrom binds apply x (rest ++ (o, y) :: others) =
      ⟨(groupFrom binds apply x rest).first, (groupFrom binds apply x rest).rest ++
        (o, (groupFrom binds apply y others).first) :: (groupFrom binds apply y others).rest⟩ := by
  induction rest generalizing x with
  | nil => simp [groupFrom, parts]
  | cons p rest ih =>
    obtain ⟨o', z⟩ := p
    rw [List.cons_append, groupFrom, groupFrom]
    split
    · exact ih _
    · rw [ih]
      rfl

theorem groupFrom_of_none {rest : List (ω × α)} (none : ∀ p ∈ rest, binds p.1 = false) (x : α) :
    groupFrom binds apply x rest = ⟨x, rest⟩ := by
  induction rest generalizing x with
  | nil => rfl
  | cons p rest ih =>
    obtain ⟨o, y⟩ := p
    rw [List.forall_mem_cons] at none
    rw [groupFrom, if_neg (by simp [none.1]), ih none.2]

theorem group_of_all {c : Chain ω α} (all : ∀ o ∈ c.operators, binds o = true) :
    c.group binds apply = ⟨c.fold apply, []⟩ := by
  rw [group, ← List.append_nil c.rest, groupFrom_append (List.forall_mem_map.mp all)]
  rfl

/-- Where the operators inside of operands bind and those between them do not, the operands are
    what is put together. -/
theorem group_flatten {f : β → Chain ω α} {c : Chain ω β}
    (inside : ∀ x, ∀ o ∈ (f x).operators, binds o = true)
    (between : ∀ o ∈ c.operators, binds o = false) :
    (c.flatten f).group binds apply = c.map fun x => (f x).fold apply := by
  obtain ⟨first, rest⟩ := c
  replace inside := fun x => List.forall_mem_map.mp (inside x)
  replace between := List.forall_mem_map.mp between
  change groupFrom binds apply _ _ = _
  rw [flatten, groupFrom_append (inside first)]
  induction rest generalizing first with
  | nil => rfl
  | cons p rest ih =>
    obtain ⟨o, x⟩ := p
    rw [List.forall_mem_cons] at between
    have others := ih x between.2
    rw [List.flatMap_cons, List.cons_append, groupFrom, if_neg (by simp [between.1]),
      groupFrom_append (inside x), others]
    rfl

/-- The operators that are left are those that do not bind. -/
theorem of_mem_operators_group {c : Chain ω α} :
    ∀ o ∈ (c.group binds apply).operators, o ∈ c.operators ∧ binds o = false := by
  obtain ⟨first, rest⟩ := c
  change ∀ o ∈ (groupFrom binds apply first rest).operators, o ∈ rest.map Prod.fst ∧ binds o = false
  induction rest generalizing first with
  | nil => simp [groupFrom, operators]
  | cons p rest ih =>
    obtain ⟨o, y⟩ := p
    rw [groupFrom, List.map_cons]
    split
    · intro other mem
      obtain ⟨isOperator, parts⟩ := ih _ other mem
      exact ⟨List.mem_cons_of_mem _ isOperator, parts⟩
    · next parts =>
      intro other mem
      rcases List.mem_cons.mp mem with rfl | mem
      · exact ⟨List.mem_cons_self, by simpa using parts⟩
      · obtain ⟨isOperator, parts⟩ := ih y other mem
        exact ⟨List.mem_cons_of_mem _ isOperator, parts⟩

theorem fold_append (x : α) (front back : List (ω × α)) :
    fold apply ⟨x, front ++ back⟩ = fold apply ⟨fold apply ⟨x, front⟩, back⟩ := by
  simp [fold]

/-- Where the operators that bind come first, all operators are applied from left to right. -/
theorem fold_group_of_append {front back : List (ω × α)} (x : α)
    (all : ∀ p ∈ front, binds p.1 = true) (none : ∀ p ∈ back, binds p.1 = false) :
    fold apply (group binds apply ⟨x, front ++ back⟩) = fold apply ⟨x, front ++ back⟩ := by
  rw [group, groupFrom_append all, groupFrom_of_none none, fold_append]

/-- Behind an operator that does not bind, those that bind are applied before it. -/
theorem fold_group_of_append_cons {o : ω} (parts : binds o = false) {front back : List (ω × α)}
    (all : ∀ p ∈ front, binds p.1 = true) (none : ∀ p ∈ back, binds p.1 = false) (x y : α)
    (earlier : List (ω × α)) :
    fold apply (group binds apply ⟨x, earlier ++ (o, y) :: (front ++ back)⟩) =
      fold apply ⟨apply o (fold apply (group binds apply ⟨x, earlier⟩)) (fold apply ⟨y, front⟩),
        back⟩ := by
  rw [group, groupFrom_append_cons parts, groupFrom_append all, groupFrom_of_none none, fold_append]
  rfl

/-- What every application of an operator has, and the first operand, the result has. -/
theorem fold_of_apply {P : α → Prop} (applied : ∀ o x y, P (apply o x y)) {x : α} (first : P x)
    (rest : List (ω × α)) : P (fold apply ⟨x, rest⟩) := by
  induction rest generalizing x with
  | nil => exact first
  | cons p rest ih => exact ih (applied p.1 x p.2)

theorem group_first_of_apply {P : α → Prop} (applied : ∀ o x y, P (apply o x y)) {x : α}
    (first : P x) (rest : List (ω × α)) : P (group binds apply ⟨x, rest⟩).first := by
  change P (groupFrom binds apply x rest).first
  induction rest generalizing x with
  | nil => exact first
  | cons p rest ih =>
    obtain ⟨o, y⟩ := p
    rw [groupFrom]
    split
    · exact ih (applied o x y)
    · exact first

end Group

section Bimap

variable {apply : ω → α → α → α} {apply' : ω' → β → β → β} {g : ω → ω'} {f : α → β}
  (respects : ∀ o x y, f (apply o x y) = apply' (g o) (f x) (f y))

include respects

theorem bimap_fold (c : Chain ω α) : f (c.fold apply) = (c.bimap g f).fold apply' := by
  obtain ⟨first, rest⟩ := c
  induction rest generalizing first with
  | nil => rfl
  | cons p rest ih =>
    obtain ⟨o, y⟩ := p
    have step : (Chain.mk first ((o, y) :: rest)).fold apply =
        (Chain.mk (apply o first y) rest).fold apply := rfl
    rw [step, ih, bimap, respects]
    rfl

/-- What respects the application of operators respects groups. -/
theorem bimap_group (binds : ω → Bool) (binds' : ω' → Bool) (same : ∀ o, binds' (g o) = binds o)
    (c : Chain ω α) : (c.group binds apply).bimap g f = (c.bimap g f).group binds' apply' := by
  obtain ⟨first, rest⟩ := c
  change (groupFrom binds apply first rest).bimap g f =
    groupFrom binds' apply' (f first) (rest.map fun (o, x) => (g o, f x))
  induction rest generalizing first with
  | nil => rfl
  | cons p rest ih =>
    obtain ⟨o, y⟩ := p
    rw [groupFrom, List.map_cons, groupFrom, same]
    split
    · rw [ih, respects]
    · rw [← ih y]
      rfl

end Bimap

end Chain

/-! ## Trees of operators -/

/-- An operator between two operands. -/
inductive Binary where
  | multiplicative (op : Multiplicative)
  | additive (op : Additive)
  | comparison (op : Comparator)
  deriving DecidableEq, Repr

/-- What an expression or a condition says. -/
inductive Formula where
  | number (value : ℚ)
  | name (name : String)
  | signed (sign : Additive) (x : Formula)
  | binary (op : Binary) (x y : Formula)
  deriving DecidableEq

/-- The truth value of a comparison: one or zero. -/
def Comparator.truth (op : Comparator) (a b : ℚ) : ℚ :=
  match op with
  | .equal => if a = b then 1 else 0
  | .notEqual => if a = b then 0 else 1
  | .less => if a < b then 1 else 0
  | .lessOrEqual => if a ≤ b then 1 else 0
  | .greater => if b < a then 1 else 0
  | .greaterOrEqual => if b ≤ a then 1 else 0

/-- Apply an operator to two numbers.  Nothing comes of a division by zero. -/
def Binary.apply (op : Binary) (a b : ℚ) : Option ℚ :=
  match op with
  | .multiplicative .times => some (a * b)
  | .multiplicative .over => if b = 0 then none else some (a / b)
  | .additive .plus => some (a + b)
  | .additive .minus => some (a - b)
  | .comparison op => some (op.truth a b)

/-- Apply an operator to two results, if both are there. -/
def Binary.applyTo (op : Binary) (a b : Option ℚ) : Option ℚ :=
  a.bind fun a => b.bind fun b => op.apply a b

/-- The value of a formula where names have values, unless there is a division by zero in it. -/
def Formula.value (env : String → ℚ) : Formula → Option ℚ
  | .number q => some q
  | .name x => some (env x)
  | .signed .plus x => x.value env
  | .signed .minus x => (x.value env).map (- ·)
  | .binary op x y => op.applyTo (x.value env) (y.value env)

/-! ## What expressions say -/

def Operand.formula : Operand → Formula
  | .numeral text => .number (Numeral.value text.toList)
  | .name x => .name x

def Factor.formula (f : Factor) : Formula :=
  match f.sign with
  | none => f.operand.formula
  | some sign => .signed sign.op f.operand.formula

/-- The factors of a term. -/
def Term.chain (t : Term) : Chain Binary Factor :=
  ⟨t.first, t.rest.map fun (o, f) => (.multiplicative o.op, f)⟩

/-- Multiplications and divisions are done from left to right. -/
def Term.formula (t : Term) : Formula :=
  (t.chain.map Factor.formula).fold .binary

/-- The terms of an expression. -/
def Expression.chain (e : Expression) : Chain Binary Term :=
  ⟨e.first, e.rest.map fun (o, t) => (.additive o.op, t)⟩

/-- Additions and subtractions are done from left to right. -/
def Expression.formula (e : Expression) : Formula :=
  (e.chain.map Term.formula).fold .binary

/-- The expressions of a condition. -/
def Condition.chain (c : Condition) : Chain Binary Expression :=
  ⟨c.first, (c.second :: c.rest).map fun (o, e) => (.comparison o.op, e)⟩

/-- Comparisons are done from left to right on truth values, whatever their operators are. -/
def Condition.formula (c : Condition) : Formula :=
  (c.chain.map Expression.formula).fold .binary

end BasicToC
