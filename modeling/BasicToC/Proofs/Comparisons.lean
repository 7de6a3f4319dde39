import Mathlib.Tactic.NormNum
import BasicToC.Proofs.CReading

/-! # Chained comparisons

A condition says that comparisons are done from left to right, but in C the four operators of order
bind more tightly than the two of equality.  The two agree as long as no operator of order comes
behind one of equality.  Where one does, there are numerals for which they disagree: `2` behind
the operator of equality, `0.5` behind further operators of order, and zeros elsewhere, so that it
is the numeral behind the first operator of order that decides whether the truth values that are
compared in the two readings are the same.
-/

namespace BasicToC

/-! ## The order of operators -/

/-- No operator of order comes behind one of equality. -/
def Comparator.InOrder (operators : List Comparator) : Prop :=
  operators.Pairwise fun first later => first.isEquality = true → later.isEquality = true

/-- The operators of a condition. -/
def Condition.operators (c : Condition) : List Comparator :=
  (c.second :: c.rest).map fun (o, _) => o.op

namespace Comparator

theorem InOrder.exists_split {operators : List Comparator} (inOrder : InOrder operators) :
    ∃ orders equalities, operators = orders ++ equalities ∧
      (∀ op ∈ orders, op.isEquality = false) ∧ ∀ op ∈ equalities, op.isEquality = true := by
  induction operators with
  | nil => exact ⟨[], [], rfl, by simp, by simp⟩
  | cons op rest ih =>
    obtain ⟨later, inOrder⟩ := List.pairwise_cons.mp inOrder
    cases equality : op.isEquality with
    | true =>
      refine ⟨[], op :: rest, rfl, by simp, ?_⟩
      exact List.forall_mem_cons.mpr ⟨equality, fun other mem => later other mem equality⟩
    | false =>
      obtain ⟨orders, equalities, rfl, areOrders, areEqualities⟩ := ih inOrder
      exact ⟨op :: orders, equalities, rfl, List.forall_mem_cons.mpr ⟨equality, areOrders⟩,
        areEqualities⟩

/-- What is out of order has a last operator of equality with operators of order behind it, and
    after these only further ones of equality. -/
theorem exists_split_of_not_inOrder {operators : List Comparator} (out : ¬ InOrder operators) :
    ∃ earlier equality order orders equalities,
      operators = earlier ++ equality :: order :: (orders ++ equalities) ∧
      equality.isEquality = true ∧ order.isEquality = false ∧
      (∀ op ∈ orders, op.isEquality = false) ∧ ∀ op ∈ equalities, op.isEquality = true := by
  induction operators with
  | nil => exact absurd .nil out
  | cons op rest ih =>
    by_cases inOrder : InOrder rest
    · obtain ⟨orders, equalities, rfl, areOrders, areEqualities⟩ := inOrder.exists_split
      have exception : op.isEquality = true ∧ ∃ order ∈ orders ++ equalities,
          order.isEquality = false := by
        by_contra none
        refine out (List.pairwise_cons.mpr ⟨fun later mem equality => ?_, inOrder⟩)
        by_contra isOrder
        exact none ⟨equality, later, mem, by simpa using isOrder⟩
      obtain ⟨equality, other, mem, isOrder⟩ := exception
      cases orders with
      | nil =>
        rw [areEqualities other mem] at isOrder
        cases isOrder
      | cons order orders =>
        rw [List.forall_mem_cons] at areOrders
        exact ⟨[], op, order, orders, equalities, rfl, equality, areOrders.1, areOrders.2,
          areEqualities⟩
    · obtain ⟨earlier, equality, order, orders, equalities, rfl, facts⟩ := ih inOrder
      exact ⟨op :: earlier, equality, order, orders, equalities, rfl, facts⟩

end Comparator

namespace CReading

theorem level_of_order {op : Comparator} (order : op.isEquality = false) :
    level (.comparison op) = 2 := by
  simp [level, order]

theorem level_of_equality {op : Comparator} (equality : op.isEquality = true) :
    level (.comparison op) = 3 := by
  simp [level, equality]

/-- C reads a condition as it is meant, if its operators are in order. -/
theorem read_condition_of_inOrder {c : Condition} (admissible : ∀ w ∈ c.words, w.Admissible)
    (inOrder : Comparator.InOrder c.operators) : read c.code = some c.formula := by
  obtain ⟨orders, equalities, split, areOrders, areEqualities⟩ := inOrder.exists_split
  let chain := c.chain.map Expression.formula
  have operators : chain.rest.map Prod.fst =
      orders.map Binary.comparison ++ equalities.map Binary.comparison := by
    rw [← List.map_append, ← split]
    simp [chain, Chain.map, Chain.bimap, Condition.chain, Condition.operators]
  obtain ⟨front, back, rest, isFront, isBack⟩ := List.map_eq_append_iff.mp operators
  have all : ∀ p ∈ front, (level p.1 == 2) = true := by
    intro p mem
    have isOrder : p.1 ∈ orders.map Binary.comparison := isFront ▸ List.mem_map_of_mem mem
    obtain ⟨op, mem, same⟩ := List.mem_map.mp isOrder
    simp [← same, level_of_order (areOrders op mem)]
  have none : ∀ p ∈ back, (level p.1 == 2) = false := by
    intro p mem
    have isEquality : p.1 ∈ equalities.map Binary.comparison := isBack ▸ List.mem_map_of_mem mem
    obtain ⟨op, mem, same⟩ := List.mem_map.mp isEquality
    simp [← same, level_of_equality (areEqualities op mem)]
  have folded : (Chain.group (level · == 2) .binary ⟨chain.first, front ++ back⟩).fold .binary =
      (Chain.mk chain.first (front ++ back)).fold Formula.binary :=
    Chain.fold_group_of_append _ all none
  rw [← rest] at folded
  rw [read_condition admissible]
  exact congrArg some folded

end CReading

/-! ## Truth values -/

namespace Comparator

/-- Zero or one. -/
def IsBit (q : ℚ) : Prop :=
  q = 0 ∨ q = 1

theorem isBit_truth (op : Comparator) (a b : ℚ) : IsBit (op.truth a b) := by
  unfold truth IsBit
  split <;> split <;> simp

/-- Behind an operator of order, one half keeps different truth values apart. -/
theorem truth_half_ne {op : Comparator} (order : op.isEquality = false) {a b : ℚ} (isBit : IsBit a)
    (isBit' : IsBit b) (ne : a ≠ b) : op.truth a (1 / 2) ≠ op.truth b (1 / 2) := by
  rcases isBit with rfl | rfl <;> rcases isBit' with rfl | rfl <;> cases op <;>
    simp_all [truth, isEquality] <;> norm_num

/-- Behind an operator of equality, zero keeps different truth values apart. -/
theorem truth_zero_ne {op : Comparator} (equality : op.isEquality = true) {a b : ℚ}
    (isBit : IsBit a) (isBit' : IsBit b) (ne : a ≠ b) : op.truth a 0 ≠ op.truth b 0 := by
  rcases isBit with rfl | rfl <;> rcases isBit' with rfl | rfl <;> cases op <;>
    simp_all [truth, isEquality]

/-- A truth value is compared for equality with what keeps it or with what turns it around. -/
theorem truth_keeps_or_turns {op : Comparator} (equality : op.isEquality = true) {a : ℚ}
    (isBit : IsBit a) :
    (∀ b, IsBit b → op.truth a b = b) ∨ ∀ b, IsBit b → op.truth a b ≠ b := by
  rcases isBit with rfl | rfl <;> cases op <;> simp_all [truth, isEquality, IsBit]

/-- Two and a truth value are on the same side of three. -/
theorem truth_three {op : Comparator} (order : op.isEquality = false) {a : ℚ} (isBit : IsBit a) :
    op.truth a 3 = op.truth 2 3 := by
  rcases isBit with rfl | rfl <;> cases op <;> simp_all [truth, isEquality] <;> norm_num

/-- Two and a truth value are on different sides of three halves. -/
theorem truth_three_halves_ne {op : Comparator} (order : op.isEquality = false) {a : ℚ}
    (isBit : IsBit a) : op.truth a (3 / 2) ≠ op.truth 2 (3 / 2) := by
  rcases isBit with rfl | rfl <;> cases op <;> simp_all [truth, isEquality] <;> norm_num

/-- Operands that keep truth values apart keep them apart to the end. -/
theorem fold_truth_ne {rest : List (Comparator × ℚ)}
    (apart : ∀ p ∈ rest, ∀ a b, IsBit a → IsBit b → a ≠ b → p.1.truth a p.2 ≠ p.1.truth b p.2)
    {a b : ℚ} (isBit : IsBit a) (isBit' : IsBit b) (ne : a ≠ b) :
    (Chain.mk a rest).fold truth ≠ (Chain.mk b rest).fold truth := by
  induction rest generalizing a b with
  | nil => exact ne
  | cons p rest ih =>
    rw [List.forall_mem_cons] at apart
    exact ih apart.2 (isBit_truth _ _ _) (isBit_truth _ _ _) (apart.1 a b isBit isBit' ne)

/-- The value of a chain of comparisons of which those for equality come last. -/
def cValue (c : Chain Comparator ℚ) : ℚ :=
  (c.group (!·.isEquality) truth).fold truth

section Disagreement

variable {orders equalities : List (Comparator × ℚ)} {equality order : Comparator}
  (isEquality : equality.isEquality = true) (isOrder : order.isEquality = false)
  (areOrders : ∀ p ∈ orders, p.1.isEquality = false ∧ p.2 = 1 / 2)
  (areEqualities : ∀ p ∈ equalities, p.1.isEquality = true ∧ p.2 = 0)

include isEquality isOrder areOrders areEqualities

/-- With three or with three halves behind the first operator of order, the two readings differ. -/
theorem cValue_ne_fold {x : ℚ} (isBit : IsBit x) (earlier : List (Comparator × ℚ)) :
    ∃ pivot, (pivot = 3 ∨ pivot = 3 / 2) ∧
      let c : Chain Comparator ℚ :=
        ⟨x, earlier ++ (equality, 2) :: ((order, pivot) :: orders ++ equalities)⟩
      cValue c ≠ c.fold truth := by
  -- what stands before the operator of equality, in either reading
  let left := (Chain.mk x earlier).fold truth
  let right := ((Chain.mk x earlier).group (!·.isEquality) truth).fold truth
  have rightIsBit : IsBit right :=
    Chain.fold_of_apply isBit_truth (Chain.group_first_of_apply isBit_truth isBit earlier) _
  have ordersApart : ∀ p ∈ orders, ∀ a b, IsBit a → IsBit b → a ≠ b →
      p.1.truth a p.2 ≠ p.1.truth b p.2 := by
    intro p mem a b isBit isBit' ne
    rw [(areOrders p mem).2]
    exact truth_half_ne (areOrders p mem).1 isBit isBit' ne
  have equalitiesApart : ∀ p ∈ equalities, ∀ a b, IsBit a → IsBit b → a ≠ b →
      p.1.truth a p.2 ≠ p.1.truth b p.2 := by
    intro p mem a b isBit isBit' ne
    rw [(areEqualities p mem).2]
    exact truth_zero_ne (areEqualities p mem).1 isBit isBit' ne
  -- the truth values that are compared behind it
  let first (pivot : ℚ) := (Chain.mk (order.truth (equality.truth left 2) pivot) orders).fold truth
  let second (pivot : ℚ) := (Chain.mk (order.truth 2 pivot) orders).fold truth
  have isBit₁ : ∀ pivot, IsBit (first pivot) :=
    fun pivot => Chain.fold_of_apply isBit_truth (isBit_truth _ _ _) orders
  have isBit₂ : ∀ pivot, IsBit (second pivot) :=
    fun pivot => Chain.fold_of_apply isBit_truth (isBit_truth _ _ _) orders
  have differ : ∀ pivot, equality.truth right (second pivot) ≠ first pivot →
      let c : Chain Comparator ℚ :=
        ⟨x, earlier ++ (equality, 2) :: ((order, pivot) :: orders ++ equalities)⟩
      cValue c ≠ c.fold truth := by
    intro pivot ne c
    have all : ∀ p ∈ (order, pivot) :: orders, (!p.1.isEquality) = true := by
      rw [List.forall_mem_cons]
      exact ⟨by simp [isOrder], fun p mem => by simp [areOrders p mem]⟩
    have none : ∀ p ∈ equalities, (!p.1.isEquality) = false :=
      fun p mem => by simp [areEqualities p mem]
    have grouped : cValue c =
        (Chain.mk (equality.truth right (second pivot)) equalities).fold truth :=
      Chain.fold_group_of_append_cons (by simp [isEquality]) all none x 2 earlier
    have folded : c.fold truth = (Chain.mk (first pivot) equalities).fold truth := by
      rw [Chain.fold_append, ← List.cons_append, Chain.fold_append]
      rfl
    rw [grouped, folded]
    exact fold_truth_ne equalitiesApart (isBit_truth _ _ _) (isBit₁ pivot) ne
  rcases truth_keeps_or_turns isEquality rightIsBit with keeps | turns
  · refine ⟨3 / 2, .inr rfl, differ _ ?_⟩
    rw [keeps _ (isBit₂ _)]
    have apart := truth_three_halves_ne isOrder (isBit_truth equality left 2)
    exact fold_truth_ne ordersApart (isBit_truth _ _ _) (isBit_truth _ _ _) apart.symm
  · refine ⟨3, .inl rfl, differ _ ?_⟩
    have same : first 3 = second 3 := by
      simp only [first, second, truth_three isOrder (isBit_truth equality left 2)]
    rw [same]
    exact turns _ (isBit₂ _)

end Disagreement

end Comparator

/-! ## Conditions of numerals -/

section Values

variable (env : String → ℚ)

theorem value_binary (o : Binary) (x y : Formula) :
    (Formula.binary o x y).value env = (id o).applyTo (x.value env) (y.value env) := rfl

theorem some_truth (op : Comparator) (a b : ℚ) :
    some (op.truth a b) = (Binary.comparison op).applyTo (some a) (some b) := rfl

variable (c : Chain Comparator ℚ)

theorem map_value_comparisons :
    (c.bimap Binary.comparison Formula.number).bimap id (Formula.value env) =
      c.bimap Binary.comparison some :=
  c.map_bimap _ _ _

theorem value_fold_comparisons :
    ((c.bimap Binary.comparison Formula.number).fold .binary).value env =
      some (c.fold Comparator.truth) := by
  rw [Chain.bimap_fold (value_binary env), map_value_comparisons, ← Chain.bimap_fold some_truth]

theorem value_grouped_comparisons :
    ((CReading.resolveLevel 2 (c.bimap Binary.comparison Formula.number)).fold .binary).value env =
      some (Comparator.cValue c) := by
  have ofFormulas := Chain.bimap_group (value_binary env) (CReading.level · == 2)
    (CReading.level · == 2) (fun _ => rfl) (c.bimap Binary.comparison Formula.number)
  have ofNumbers := Chain.bimap_group some_truth (!·.isEquality) (CReading.level · == 2)
    (fun op => by cases op <;> rfl) c
  rw [Chain.bimap_fold (value_binary env), CReading.resolveLevel, ofFormulas,
    map_value_comparisons, ← ofNumbers, ← Chain.bimap_fold some_truth]
  rfl

end Values

/-- An operator as it is written. -/
def Comparator.operator (op : Comparator) : Operator Comparator :=
  ⟨op, match op with
    | .equal => "=="
    | .notEqual => "!="
    | .less => "<"
    | .lessOrEqual => "<="
    | .greater => ">"
    | .greaterOrEqual => ">="⟩

def Expression.ofNumeral (text : String) : Expression :=
  ⟨⟨⟨none, .numeral text⟩, []⟩, []⟩

def Condition.ofNumerals (first : String) (second : Comparator × String)
    (rest : List (Comparator × String)) : Condition :=
  ⟨.ofNumeral first, (second.1.operator, .ofNumeral second.2),
    rest.map fun (op, text) => (op.operator, .ofNumeral text)⟩

section OfNumerals

variable {first : String} {second : Comparator × String} {rest : List (Comparator × String)}

theorem Condition.operators_ofNumerals :
    (ofNumerals first second rest).operators = (second :: rest).map Prod.fst := by
  simp [operators, ofNumerals, Comparator.operator]

theorem Condition.chain_ofNumerals :
    (ofNumerals first second rest).chain.map Expression.formula =
      (Chain.map (fun text => Numeral.value text.toList) ⟨first, second :: rest⟩).bimap
        Binary.comparison Formula.number := by
  simp only [chain, ofNumerals, Chain.map, Chain.bimap, List.map_cons, List.map_map]
  rfl

theorem Expression.admissible_ofNumeral {text : String} (isNumeral : Word.IsNumeral text.toList) :
    ∀ w ∈ (ofNumeral text).words, w.Admissible ∧ w.kind ≠ .ident := by
  intro w mem
  obtain rfl : w = ⟨.number, text⟩ := by
    simpa [ofNumeral, Expression.words, Term.words, Factor.words, Operand.word] using mem
  exact ⟨isNumeral, by simp⟩

theorem Condition.admissible_ofNumerals (isNumeral : Word.IsNumeral first.toList)
    (numerals : ∀ p ∈ second :: rest, Word.IsNumeral p.2.toList) :
    ∀ w ∈ (ofNumerals first second rest).words, w.Admissible ∧ w.kind ≠ .ident := by
  have operator : ∀ op : Comparator,
      (op.operator.text.toList, .comparison op.operator.op) ∈ Kind.symbols := by
    intro op
    cases op <;> decide
  intro w mem
  rcases List.mem_append.mp mem with mem | mem
  · exact Expression.admissible_ofNumeral isNumeral w mem
  · obtain ⟨q, isItem, mem⟩ := List.mem_flatMap.mp mem
    have items : (ofNumerals first second rest).second :: (ofNumerals first second rest).rest =
        (second :: rest).map fun (op, text) => (op.operator, .ofNumeral text) := rfl
    rw [items] at isItem
    obtain ⟨p, isPair, rfl⟩ := List.mem_map.mp isItem
    rcases List.mem_cons.mp mem with rfl | mem
    · exact ⟨operator p.1, by simp⟩
    · exact Expression.admissible_ofNumeral (numerals p isPair) w mem

end OfNumerals

/-- Where operators are out of order, there are numerals for which the two readings differ. -/
theorem Condition.exists_disagreement {operators : List Comparator}
    (out : ¬ Comparator.InOrder operators) :
    ∃ first second rest, Word.IsNumeral first.toList ∧
      (∀ p ∈ second :: rest, Word.IsNumeral p.2.toList) ∧
      (ofNumerals first second rest).operators = operators ∧
      let c := Chain.map (fun text => Numeral.value text.toList) ⟨first, second :: rest⟩
      Comparator.cValue c ≠ c.fold Comparator.truth := by
  obtain ⟨earlier, equality, order, orders, equalities, rfl, isEquality, isOrder, areOrders,
    areEqualities⟩ := Comparator.exists_split_of_not_inOrder out
  have halves : ∀ p ∈ orders.map fun op => (op, (1 / 2 : ℚ)),
      p.1.isEquality = false ∧ p.2 = 1 / 2 := by
    simpa using areOrders
  have zeros : ∀ p ∈ equalities.map fun op => (op, (0 : ℚ)), p.1.isEquality = true ∧ p.2 = 0 := by
    simpa using areEqualities
  obtain ⟨pivot, isPivot, differ⟩ := Comparator.cValue_ne_fold isEquality isOrder halves zeros
    (.inl rfl) (earlier.map fun op => (op, 0))
  have digit : ∀ c : Char, c.isDigit = true → Word.IsDigits [c] := by
    simp [Word.IsDigits]
  obtain ⟨text, isNumeral, value⟩ : ∃ text : String, Word.IsNumeral text.toList ∧
      Numeral.value text.toList = pivot := by
    rcases isPivot with rfl | rfl
    · exact ⟨"3", .inl (digit _ rfl), by decide +kernel⟩
    · exact ⟨"1.5", .inr ⟨['1'], ['5'], digit _ rfl, digit _ rfl, rfl⟩, by decide +kernel⟩
  have zero : Numeral.value "0".toList = 0 := by decide +kernel
  have half : Numeral.value "0.5".toList = 1 / 2 := by decide +kernel
  have two : Numeral.value "2".toList = 2 := by decide +kernel
  let pairs := earlier.map (·, "0") ++ (equality, "2") ::
    ((order, text) :: orders.map (·, "0.5") ++ equalities.map (·, "0"))
  have numerals : ∀ p ∈ pairs, Word.IsNumeral p.2.toList := by
    have isZero : Word.IsNumeral "0".toList := .inl (digit _ rfl)
    have isHalf : Word.IsNumeral "0.5".toList :=
      .inr ⟨['0'], ['5'], digit _ rfl, digit _ rfl, rfl⟩
    simp only [pairs, List.forall_mem_append, List.forall_mem_cons, List.forall_mem_map]
    exact ⟨fun _ _ => isZero, .inl (digit _ rfl), ⟨isNumeral, fun _ _ => isHalf⟩, fun _ _ => isZero⟩
  have values : Chain.map (fun text => Numeral.value text.toList) ⟨"0", pairs⟩ =
      ⟨0, earlier.map (fun op => (op, 0)) ++ (equality, 2) ::
        ((order, pivot) :: orders.map (fun op => (op, 1 / 2)) ++
          equalities.map fun op => (op, 0))⟩ := by
    simp only [pairs, Chain.map, Chain.bimap, List.map_append, List.map_cons, List.map_map,
      Function.comp_def, zero, half, two, value, id]
  obtain ⟨second, rest, split⟩ : ∃ second rest, pairs = second :: rest :=
    List.exists_cons_of_ne_nil (by simp [pairs])
  refine ⟨"0", second, rest, .inl (digit _ rfl), split ▸ numerals, ?_, ?_⟩
  · rw [operators_ofNumerals, ← split]
    simp [pairs, Function.comp_def]
  · rw [← split, values]
    exact differ

end BasicToC
