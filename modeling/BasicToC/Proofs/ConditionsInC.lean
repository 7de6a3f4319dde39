import BasicToC.Proofs.Comparisons
import BasicToC.Proofs.Concatenation
import BasicToC.Proofs.RoundTrip

/-! # Conditions of programs, read as C

The condition of a block stands in the parentheses behind `if` or `while`, and in between is the
whole of what C reads.  Whether it is read as the program means it depends on the operators alone.
-/

namespace BasicToC

/-! ## Conditions in the code -/

mutual

/-- The conditions of a statement and of those that it governs, with what they are conditions of. -/
def Statement.conditions : Statement → List (Construct × Condition)
  | .ifThen condition body => (.ifThen, condition) :: Statement.allConditions body
  | .whileRepeat condition body => (.whileRepeat, condition) :: Statement.allConditions body
  | _ => []

def Statement.allConditions : List Statement → List (Construct × Condition)
  | [] => []
  | s :: rest => s.conditions ++ Statement.allConditions rest

end

/-- The first line of a block in the code. -/
def Construct.headLine (c : Construct) (condition : Condition) : String :=
  Decoding.codeWord c ++ "(" ++ condition.code ++ ")\x7b\n"

theorem Construct.conditions_statement (c : Construct) (condition : Condition)
    (body : List Statement) :
    (c.statement condition body).conditions = (c, condition) :: Statement.allConditions body := by
  cases c <;> rfl

theorem Construct.code_statement (c : Construct) (condition : Condition) (body : List Statement) :
    (c.statement condition body).code =
      c.headLine condition ++ (Statement.allCode body ++ "\x7d\n") := by
  rw [← String.append_assoc]
  cases c <;> rfl

/-- The words of a condition are among these words, and the line that it heads is in this code. -/
structure Condition.Within (k : Construct) (condition : Condition) (words : List Word)
    (code : String) : Prop where
  words : condition.words ⊆ words
  code : ∃ front back, code = front ++ k.headLine condition ++ back

namespace Condition.Within

variable {k : Construct} {condition : Condition} {words : List Word} {code : String}

theorem append (within : Within k condition words code) (more : List Word) (other : String) :
    Within k condition (words ++ more) (code ++ other) := by
  obtain ⟨front, back, rfl⟩ := within.code
  exact ⟨fun w mem => List.mem_append_left _ (within.words mem), front, back ++ other,
    String.append_assoc⟩

theorem prepend (within : Within k condition words code) (more : List Word) (other : String) :
    Within k condition (more ++ words) (other ++ code) := by
  obtain ⟨front, back, rfl⟩ := within.code
  refine ⟨fun w mem => List.mem_append_right _ (within.words mem), other ++ front, back, ?_⟩
  simp only [String.append_assoc]

end Condition.Within

theorem Construct.within_statement {c k : Construct} {condition own : Condition}
    {body : List Statement}
    (inner : (k, condition) ∈ Statement.allConditions body →
      condition.Within k (Statement.allWords body) (Statement.allCode body))
    (mem : (k, condition) ∈ (c.statement own body).conditions) :
    condition.Within k (c.statement own body).words (c.statement own body).code := by
  rw [c.conditions_statement] at mem
  rw [c.words_statement, c.code_statement]
  rcases List.mem_cons.mp mem with first | mem
  · cases first
    refine ⟨fun w mem => by simp [mem], "", Statement.allCode body ++ "\x7d\n", ?_⟩
    rw [String.empty_append]
  · have inside := ((inner mem).append [c.close.word, .newline] "\x7d\n").prepend
      (c.head.word :: (own.words ++ [c.thenWord.word, .newline])) (c.headLine own)
    simpa using inside

mutual

theorem Statement.within_conditions (s : Statement) {k : Construct} {condition : Condition}
    (mem : (k, condition) ∈ s.conditions) : condition.Within k s.words s.code := by
  cases s with
  | ifThen own body =>
    exact Construct.within_statement (c := .ifThen) (Statement.within_allConditions body) mem
  | whileRepeat own body =>
    exact Construct.within_statement (c := .whileRepeat) (Statement.within_allConditions body) mem
  | _ => cases mem

theorem Statement.within_allConditions (program : List Statement) {k : Construct}
    {condition : Condition} (mem : (k, condition) ∈ Statement.allConditions program) :
    condition.Within k (Statement.allWords program) (Statement.allCode program) := by
  cases program with
  | nil => cases mem
  | cons s rest =>
    rcases List.mem_append.mp mem with mem | mem
    · exact (Statement.within_conditions s mem).append _ _
    · exact (Statement.within_allConditions rest mem).prepend _ _

end

theorem Program.within_conditions {tree : Program} {k : Construct} {condition : Condition}
    (mem : (k, condition) ∈ Statement.allConditions tree) :
    condition.Within k tree.words tree.code := by
  obtain ⟨prologue, code⟩ : ∃ prologue,
      tree.code = prologue ++ Statement.allCode tree ++ "return 0;\n\x7d\n" := ⟨_, rfl⟩
  have inside := ((Statement.within_allConditions tree mem).prepend [] prologue).append []
    "return 0;\n\x7d\n"
  rw [List.nil_append, List.append_nil, ← code] at inside
  exact inside

/-! ## Conditions of sources -/

/-- A source has this condition behind `IF` or `WHILE`. -/
def HasCondition (source : String) (k : Construct) (condition : Condition) : Prop :=
  ∃ ts tree, lex source = .ok ts ∧ Laid tree (Token.beforeEnd ts) ∧
    (k, condition) ∈ Statement.allConditions tree

theorem Program.Accepted.compile_code {source : String} {ts : List Token} {tree : Program}
    (lexed : lex source = .ok ts) (accepted : Accepted tree (Token.beforeEnd ts)) :
    compile source = .ok tree.code := by
  obtain ⟨result, output⟩ := Machine.compile_ofText_of_lexed lexed .empty
  refine compile_eq_ok_iff.mpr ⟨result.trans accepted.compile_eq.1, ?_⟩
  rw [output, Machine.text_of_laid accepted.laid accepted.allowed]

/-- Where a source compiles, its conditions can be found in the code. -/
theorem HasCondition.within {source c : String} {k : Construct} {condition : Condition}
    (has : HasCondition source k condition) (compiled : compile source = .ok c) :
    (∀ w ∈ condition.words, w.Admissible) ∧
      ∃ front back, c = front ++ k.headLine condition ++ back := by
  obtain ⟨ts, tree, lexed, laid, mem⟩ := has
  obtain ⟨ts', tree', lexed', accepted⟩ := Program.Accepted.of_compile compiled
  obtain rfl : ts' = ts := Except.ok.inj (lexed'.symm.trans lexed)
  -- there is one tree only, so the condition is one of the tree that is compiled
  obtain rfl := laid.unique accepted.laid
  have within := Program.within_conditions mem
  have admissible := laid.admissible_words (tokens_of_lexed lexed).2
  refine ⟨fun w isWord => admissible w (within.words isWord), ?_⟩
  rw [accepted.compile_code lexed] at compiled
  cases compiled
  exact within.code

theorem Construct.spelled_of_words {c : Construct} {condition : Condition} {ts : List Token}
    (spelled : ts.map Token.word = (c.statement condition []).words) :
    Spelled [c.statement condition []] ts := by
  rw [c.words_statement] at spelled
  obtain ⟨head, ts, rfl, isHead, spelled⟩ := List.map_eq_cons_iff.mp spelled
  obtain ⟨cs, ts, rfl, isCondition, spelled⟩ := List.map_eq_append_iff.mp spelled
  obtain ⟨thenToken, ts, rfl, isThen, spelled⟩ := List.map_eq_cons_iff.mp spelled
  obtain ⟨n, ts, rfl, isEnd, spelled⟩ := List.map_eq_cons_iff.mp spelled
  rw [Statement.allWords, List.nil_append] at spelled
  obtain ⟨close, ts, rfl, isClose, spelled⟩ := List.map_eq_cons_iff.mp spelled
  obtain ⟨n', ts, rfl, isEnd', spelled⟩ := List.map_eq_cons_iff.mp spelled
  obtain rfl := List.map_eq_nil_iff.mp spelled
  have lineEnd : ∀ {n : Token}, n.word = .newline → LineEnd [n] := by
    intro n isNewline
    refine ⟨by simp, List.forall_mem_singleton.mpr (congrArg Word.kind isNewline)⟩
  exact Spelled.governed c (congrArg Word.kind isHead) isCondition (congrArg Word.kind isThen)
    (lineEnd isEnd) .nil (congrArg Word.kind isClose) (lineEnd isEnd') .nil

theorem Construct.nameless_statement {c : Construct} {condition : Condition}
    (nameless : ∀ w ∈ condition.words, w.Admissible ∧ w.kind ≠ .ident) :
    ∀ w ∈ (c.statement condition []).words,
      w.Admissible ∧ w.kind ≠ .ident ∧ w.kind.names = false := by
  have keyword : ∀ {k : Keyword}, (Kind.keyword k).names = false →
      k.word.Admissible ∧ k.word.kind ≠ .ident ∧ k.word.kind.names = false :=
    fun plain => ⟨rfl, by simp [Keyword.word], plain⟩
  have newline : Word.newline.Admissible ∧ Word.newline.kind ≠ .ident ∧
      Word.newline.kind.names = false := ⟨rfl, by decide, rfl⟩
  have inside : ∀ w ∈ condition.words, w.Admissible ∧ w.kind ≠ .ident ∧ w.kind.names = false :=
    fun w mem => ⟨(nameless w mem).1, (nameless w mem).2, condition.plain_words w mem⟩
  rw [c.words_statement, Statement.allWords, List.nil_append]
  simp only [List.forall_mem_cons, List.forall_mem_append]
  exact ⟨keyword (by cases c <;> rfl), inside, keyword (by cases c <;> rfl), newline,
    keyword (by cases c <;> rfl), newline, by simp⟩

/-- A block with nothing in it compiles if there are no names in its condition. -/
theorem Construct.compile_statement {condition : Condition}
    (nameless : ∀ w ∈ condition.words, w.Admissible ∧ w.kind ≠ .ident) (c : Construct) :
    let source := Word.spellAll (c.statement condition []).words
    compile source = .ok (Program.code [c.statement condition []]) ∧
      HasCondition source c condition := by
  intro source
  have inBlock := c.nameless_statement nameless
  obtain ⟨ts, lexed, words⟩ := lexed_spellAll fun w mem => (inBlock w mem).1
  obtain ⟨⟨ending, whole⟩, -⟩ := tokens_of_lexed lexed
  have spelled : (Token.beforeEnd ts).map Token.word = (c.statement condition []).words := by
    rw [whole, List.map_append] at words
    exact (List.append_inj' words rfl).1
  have laid : Laid [c.statement condition []] (Token.beforeEnd ts) :=
    ⟨[], _, rfl, by simp, Construct.spelled_of_words spelled⟩
  have ofToken : ∀ t ∈ Token.beforeEnd ts, t.word ∈ (c.statement condition []).words :=
    fun t mem => spelled ▸ List.mem_map_of_mem mem
  -- no name is given, used or jumped to, so nothing can be wrong with one
  have plain : Token.Plain (Token.beforeEnd ts) := fun t mem => (inBlock _ (ofToken t mem)).2.2
  have known : Token.Known .empty (Token.beforeEnd ts) :=
    fun t mem isName => absurd isName (inBlock _ (ofToken t mem)).2.1
  have accepted : Program.Accepted [c.statement condition []] (Token.beforeEnd ts) := by
    refine ⟨laid, (Ledger.allowsAll_of_plain rfl plain).mpr known, ?_⟩
    rw [(Ledger.enterAll_of_plain rfl plain).1]
    rfl
  have mem : (c, condition) ∈ Statement.allConditions [c.statement condition []] := by
    rw [Statement.allConditions, c.conditions_statement]
    simp
  exact ⟨accepted.compile_code lexed, ts, _, lexed, laid, mem⟩

/-! ## What conditions mean -/

/-- In the code of a source each condition stands behind `if` or `while`, and C reads it there as
    the comparisons from left to right if no operator of order comes behind one of equality.  For
    any operators with one that does, there is a source whose condition C reads as something
    else. -/
theorem conditions_read_left_to_right (k : Construct) (operators : List Comparator) :
    (∀ (source code : String) (condition : Condition), compile source = .ok code →
      HasCondition source k condition → condition.operators = operators →
        (∃ front back, code = front ++ k.headLine condition ++ back) ∧
        ∃ formula, CReading.read condition.code = some formula ∧
          (Comparator.InOrder operators →
            ∀ env, formula.value env = condition.formula.value env)) ∧
    (¬ Comparator.InOrder operators →
      ∃ source code condition formula, compile source = .ok code ∧
        HasCondition source k condition ∧ condition.operators = operators ∧
        CReading.read condition.code = some formula ∧
        ∀ env, formula.value env ≠ condition.formula.value env) := by
  constructor
  · rintro source code condition compiled has rfl
    obtain ⟨admissible, inCode⟩ := has.within compiled
    refine ⟨inCode, _, CReading.read_condition admissible, fun inOrder env => ?_⟩
    -- in order, even the formulas are the same
    have same := CReading.read_condition_of_inOrder admissible inOrder
    rw [CReading.read_condition admissible] at same
    rw [Option.some.inj same]
  · intro out
    -- out of order, numerals are enough to tell the readings apart
    obtain ⟨first, second, rest, isNumeral, numerals, rfl, differ⟩ :=
      Condition.exists_disagreement out
    have nameless := Condition.admissible_ofNumerals isNumeral numerals
    obtain ⟨compiled, has⟩ := k.compile_statement nameless
    refine ⟨_, _, _, _, compiled, has, rfl,
      CReading.read_condition fun w mem => (nameless w mem).1, fun env => ?_⟩
    rw [Condition.formula, Condition.chain_ofNumerals, value_grouped_comparisons,
      value_fold_comparisons]
    exact fun same => differ (Option.some.inj same)

theorem conditions_read_left_to_right_of_loop :
    let source := "WHILE 1 < 2 <= 1.5 == 1 REPEAT \n ENDWHILE \n"
    let condition := Condition.ofNumerals "1" (.less, "2") [(.lessOrEqual, "1.5"), (.equal, "1")]
    (∃ code, compile source = .ok code) ∧ HasCondition source .whileRepeat condition ∧
      Comparator.InOrder condition.operators ∧ condition.code = "1.0 < 2.0 <= 1.5 == 1.0" ∧
      (∃ formula, CReading.read condition.code = some formula ∧
        ∀ env, formula.value env = some 1) ∧
      ¬ Comparator.InOrder [.equal, .less] ∧
      ∃ source code condition formula, compile source = .ok code ∧
        HasCondition source .ifThen condition ∧ condition.operators = [.equal, .less] ∧
        CReading.read condition.code = some formula ∧
        ∀ env, formula.value env ≠ condition.formula.value env := by
  intro source condition
  have digits : Word.IsDigits ['1'] ∧ Word.IsDigits ['2'] ∧ Word.IsDigits ['5'] := by
    simp [Word.IsDigits]
  have numerals : ∀ p ∈ [(Comparator.less, "2"), (.lessOrEqual, "1.5"), (.equal, "1")],
      Word.IsNumeral p.2.toList := by
    simp only [List.forall_mem_cons]
    exact ⟨.inl digits.2.1, .inr ⟨['1'], ['5'], digits.1, digits.2.2, rfl⟩, .inl digits.1, by simp⟩
  have printed : Word.spellAll (Construct.whileRepeat.statement condition []).words = source := by
    decide
  have nameless : ∀ w ∈ condition.words, w.Admissible ∧ w.kind ≠ .ident :=
    Condition.admissible_ofNumerals (.inl digits.1) numerals
  obtain ⟨compiled, has⟩ := Construct.whileRepeat.compile_statement nameless
  rw [printed] at compiled has
  have inOrder : Comparator.InOrder condition.operators := by
    simp [Comparator.InOrder, condition, Condition.operators_ofNumerals, Comparator.isEquality]
  have out : ¬ Comparator.InOrder [.equal, .less] := by
    simp [Comparator.InOrder, Comparator.isEquality]
  obtain ⟨-, formula, read, same⟩ :=
    (conditions_read_left_to_right .whileRepeat _).1 _ _ _ compiled has rfl
  refine ⟨⟨_, compiled⟩, has, inOrder, by decide, ⟨formula, read, fun env => ?_⟩, out,
    (conditions_read_left_to_right .ifThen _).2 out⟩
  rw [same inOrder, Condition.formula, Condition.chain_ofNumerals, value_fold_comparisons]
  decide +kernel

/-- Three equals three, and this truth is less than two, but C compares three to the truth of
    `3 < 2`. -/
theorem equality_before_order_read_otherwise :
    let source := "IF 3 == 3 < 2 THEN \n ENDIF \n"
    let condition := Condition.ofNumerals "3" (.equal, "3") [(.less, "2")]
    compile source = .ok ("#include <stdio.h>\nint main(void)\x7b\n" ++
        "if(3.0 == 3.0 < 2.0)\x7b\n\x7d\nreturn 0;\n\x7d\n") ∧
      HasCondition source .ifThen condition ∧ condition.code = "3.0 == 3.0 < 2.0" ∧
      ∃ formula, CReading.read condition.code = some formula ∧
        ∀ env, formula.value env = some 0 ∧ condition.formula.value env = some 1 := by
  intro source condition
  have digits : Word.IsDigits ['2'] ∧ Word.IsDigits ['3'] := by
    simp [Word.IsDigits]
  have numerals : ∀ p ∈ [(Comparator.equal, "3"), (.less, "2")], Word.IsNumeral p.2.toList := by
    simp only [List.forall_mem_cons]
    exact ⟨.inl digits.2, .inl digits.1, by simp⟩
  have nameless : ∀ w ∈ condition.words, w.Admissible ∧ w.kind ≠ .ident :=
    Condition.admissible_ofNumerals (.inl digits.2) numerals
  have printed : Word.spellAll (Construct.ifThen.statement condition []).words = source := by
    decide
  obtain ⟨compiled, has⟩ := Construct.ifThen.compile_statement nameless
  rw [printed] at compiled has
  refine ⟨compiled.trans (congrArg Except.ok (by decide)), has, by decide, _,
    CReading.read_condition fun w mem => (nameless w mem).1, fun env => ?_⟩
  rw [Condition.formula, Condition.chain_ofNumerals, value_grouped_comparisons,
    value_fold_comparisons]
  decide +kernel

end BasicToC
