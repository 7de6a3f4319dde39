import BasicToC.Proofs.TreeWords

/-! # Code can be read back

Every line of the generated code tells what it was made from.  Its first letters and digits, and the
character behind them, tell the statement; an expression goes on as long as its characters do, and
the blanks in it stand between its items.  Only a closing brace says nothing by itself: it closes
the block that was opened last.  `Decoding.program` reads code in this way, and gets back the words
of the program with literals in place of numerals.
-/

namespace BasicToC

namespace Decoding

theorem isName_of_all (first : String) (letter : first.toList.head?.any Char.isAlpha = true)
    (alphanumeric : first.toList.all Char.isAlphanum = true) : Word.IsName first.toList := by
  cases chars : first.toList with
  | nil => simp [chars] at letter
  | cons c rest =>
    rw [chars] at letter alphanumeric
    simp only [List.all_cons, Bool.and_eq_true, List.all_eq_true] at alphanumeric
    exact ⟨c, rest, rfl, letter, alphanumeric.2⟩

/-! ## Expressions -/

/-- The word of an operand.  Literals have a point in them, names do not. -/
def operand (cs : List Char) : Word :=
  if '.' ∈ cs then ⟨.number, String.ofList cs⟩ else .name (String.ofList cs)

/-- The words of an operand that may have a sign. -/
def signed : List Char → List Word
  | '+' :: rest => [⟨.additive .plus, "+"⟩, operand rest]
  | '-' :: rest => [⟨.additive .minus, "-"⟩, operand rest]
  | cs => [operand cs]

/-- The words of an item between two blanks: an operator, or else an operand. -/
def item (cs : List Char) : List Word :=
  match Kind.symbols.lookup cs with
  | some kind => [⟨kind, String.ofList cs⟩]
  | none => signed cs

/-- The words of an expression or of a condition. -/
def items (cs : List Char) : List Word :=
  (cs.splitOn ' ').flatMap item

/-- The characters in the code of an expression. -/
def isInExpression (c : Char) : Bool :=
  c.isAlphanum || c ∈ [' ', '.', '+', '-', '*', '/', '=', '!', '<', '>']

/-- What is read of an expression at the front of a text. -/
def expression (cs : List Char) : List Word :=
  items (cs.takeWhile isInExpression)

/-! ## Lines -/

/-- What a line is read as: words, and a block that it opens.  Nothing is read in a block without
    a construct. -/
structure Reading where
  words : List Word
  opens : Option (Option Construct)

def Reading.nothing : Reading := ⟨[], none⟩

/-- A line of a statement that is no more than its line. -/
def Reading.simple (keyword : Keyword) (words : List Word) : Reading :=
  ⟨keyword.word :: words ++ [.newline], none⟩

/-- The first line of a block. -/
def Reading.head (c : Construct) (condition : List Word) : Reading :=
  ⟨c.head.word :: condition ++ [c.thenWord.word, .newline], some (some c)⟩

/-- The name at the front of a text. -/
def name (cs : List Char) : Word :=
  .name (String.ofList (cs.takeWhile Char.isAlphanum))

/-- A line that prints, from behind the quote that opens its format.  Only the format for an
    expression begins with a percent sign. -/
def printLine (cs : List Char) : Reading :=
  if cs.head? = some '%' then .simple .print (expression (cs.drop "%.2f\\n\", (float)(".length))
  else .simple .print [⟨.string, String.ofList (cs.takeWhile (· != '\\'))⟩]

/-- A line that begins with `if`, from behind the parenthesis that opens its test.  In an input
    statement there is a call in the test. -/
def ifLine (cs : List Char) : Reading :=
  match cs.dropWhile isInExpression with
  | '(' :: rest => ⟨[Keyword.input.word, name (rest.drop "\"%f\", &".length), .newline], some none⟩
  | _ => .head .ifThen (expression cs)

/-- The word that begins a block in the code. -/
def codeWord : Construct → String
  | .ifThen => "if"
  | .whileRepeat => "while"

/-- A line that begins with the letters and digits `first`. -/
def lineAfter (first : String) : List Char → Reading
  | '(' :: rest =>
    match first with
    | "printf" => printLine rest.tail
    | "while" => .head .whileRepeat (expression rest)
    | "if" => ifLine rest
    | _ => .nothing
  | ':' :: _ => .simple .label [.name first]
  | ' ' :: '=' :: ' ' :: rest => .simple .assign (.name first :: .becomes :: expression rest)
  | ' ' :: rest => if first = "goto" then .simple .goto [name rest] else .nothing
  | _ => .nothing

/-- What a line is read as, if it is not a closing brace. -/
def line (cs : List Char) : Reading :=
  lineAfter (String.ofList (cs.takeWhile Char.isAlphanum)) (cs.dropWhile Char.isAlphanum)

/-! ## Programs -/

/-- The words at the end of a block. -/
def closing : Option (Option Construct) → List Word
  | some (some c) => [c.close.word, .newline]
  | _ => []

/-- Whether the innermost block is one in which nothing is read. -/
def silent : List (Option Construct) → Bool
  | none :: _ => true
  | _ => false

/-- What lines are read as inside of blocks, of which the innermost comes first. -/
def lines (blocks : List (Option Construct)) : List (List Char) → List Word
  | [] => []
  | cs :: rest =>
    if cs = ['\x7d'] then closing blocks.head? ++ lines blocks.tail rest
    else if silent blocks then lines blocks rest
    else (line cs).words ++ lines ((line cs).opens.toList ++ blocks) rest

/-- The words of code inside of blocks. -/
def code (blocks : List (Option Construct)) (cs : List Char) : List Word :=
  lines blocks (cs.splitOn '\n')

/-- The words of the program from which a C program was made. -/
def program (text : String) : List Word :=
  code [] text.toList

/-! ## Expressions are read back -/

theorem items_append (as bs : List Char) : items (as ++ ' ' :: bs) = items as ++ items bs := by
  simp [items, List.splitOn_append_cons_self]

theorem items_of_notMem {cs : List Char} (noBlank : ' ' ∉ cs) : items cs = item cs := by
  simp [items, List.splitOn_eq_singleton noBlank]

theorem symbol_chars {cs : List Char} {kind : Kind} (isSymbol : (cs, kind) ∈ Kind.symbols) :
    ∀ c ∈ cs, isInExpression c = true ∧ c ≠ ' ' ∧ c.isAlphanum = false := by
  have all : ∀ s ∈ Kind.symbols, ∀ c ∈ s.1,
      isInExpression c = true ∧ c ≠ ' ' ∧ c.isAlphanum = false := by
    simp [Kind.symbols, isInExpression]
  exact all _ isSymbol

/-- What has a letter or a digit in it is not a symbol. -/
theorem lookup_symbols_eq_none {c : Char} {cs : List Char} (mem : c ∈ cs)
    (alphanumeric : c.isAlphanum = true) : Kind.symbols.lookup cs = none := by
  rw [List.lookup_eq_none_iff]
  intro s isSymbol
  rw [bne_iff_ne]
  rintro rfl
  exact absurd alphanumeric (by simp [symbol_chars isSymbol c mem])

/-- The code of an operand is letters, digits and points, and tells its word. -/
structure OperandCode (cs : List Char) (w : Word) : Prop where
  first : ∃ c rest, cs = c :: rest ∧ c.isAlphanum = true
  chars : ∀ c ∈ cs, c.isAlphanum = true ∨ c = '.'
  word : operand cs = w

theorem operandCode_of_numeral {text : String} (isNumeral : Word.IsNumeral text.toList) :
    OperandCode (Numeral.literal text).toList ⟨.number, Numeral.literal text⟩ := by
  have digit : ∀ c : Char, c.isDigit = true → c.isAlphanum = true := by
    simp +contextual [Char.isAlphanum]
  obtain ⟨whole, fraction, isWhole, isFraction, code⟩ := Numeral.literal_digits isNumeral
  obtain ⟨d, more, rfl⟩ := List.exists_cons_of_ne_nil isWhole.1
  have isDigit : d.isDigit = true := isWhole.2 d (by simp)
  constructor
  · exact ⟨d, more ++ '.' :: fraction, code, digit d isDigit⟩
  · intro c mem
    rw [code] at mem
    rcases List.mem_append.mp mem with inWhole | mem
    · exact .inl (digit c (isWhole.2 c inWhole))
    · rcases List.mem_cons.mp mem with isPoint | inFraction
      · exact .inr isPoint
      · exact .inl (digit c (isFraction.2 c inFraction))
  · have point : '.' ∈ (Numeral.literal text).toList := by simp [code]
    rw [operand, if_pos point, String.ofList_toList]

theorem operandCode_of_name {x : String} (isName : Word.IsName x.toList) :
    OperandCode x.toList (.name x) := by
  have alphanumeric := isName.alphanumeric
  constructor
  · obtain ⟨c, rest, code, -⟩ := isName
    exact ⟨c, rest, code, alphanumeric c (by simp [code])⟩
  · exact fun c mem => .inl (alphanumeric c mem)
  · have noPoint : '.' ∉ x.toList := fun mem => absurd (alphanumeric _ mem) (by decide)
    rw [operand, if_neg noPoint, String.ofList_toList]

theorem operandCode {x : Operand} (admissible : x.word.Admissible) :
    OperandCode x.code.toList x.word.canonical := by
  cases x with
  | numeral text => exact operandCode_of_numeral admissible
  | name x => exact operandCode_of_name admissible.1

namespace OperandCode

variable {cs : List Char} {w : Word}

theorem isInExpression (code : OperandCode cs w) : ∀ c ∈ cs, isInExpression c = true := by
  intro c mem
  rcases code.chars c mem with alphanumeric | isPoint
  · simp [Decoding.isInExpression, alphanumeric]
  · subst isPoint
    decide

theorem noBlank (code : OperandCode cs w) : ' ' ∉ cs := by
  intro mem
  rcases code.chars _ mem with alphanumeric | isPoint
  · nomatch alphanumeric
  · nomatch isPoint

theorem item_eq (code : OperandCode cs w) : item cs = [w] := by
  obtain ⟨c, rest, rfl, alphanumeric⟩ := code.first
  rw [item, lookup_symbols_eq_none (List.mem_cons_self ..) alphanumeric, ← code.word]
  change signed (c :: rest) = _
  unfold signed
  split
  · next sign =>
    obtain ⟨rfl, -⟩ := List.cons.inj sign
    nomatch alphanumeric
  · next sign =>
    obtain ⟨rfl, -⟩ := List.cons.inj sign
    nomatch alphanumeric
  · rfl

/-- A sign before an operand is not taken for an operator. -/
theorem item_sign (code : OperandCode cs w) {op : Additive} {sign : List Char}
    (isSign : (sign, .additive op) ∈ Kind.symbols) :
    item (sign ++ cs) = [⟨.additive op, String.ofList sign⟩, w] := by
  obtain ⟨c, rest, first, alphanumeric⟩ := code.first
  have notOperator : Kind.symbols.lookup (sign ++ cs) = none :=
    lookup_symbols_eq_none (List.mem_append_right _ (first ▸ List.mem_cons_self ..)) alphanumeric
  have signs : sign = ['+'] ∧ op = .plus ∨ sign = ['-'] ∧ op = .minus := by
    simpa [Kind.symbols] using isSign
  rcases signs with ⟨rfl, rfl⟩ | ⟨rfl, rfl⟩
  · rw [item, notOperator, ← code.word]
    rfl
  · rw [item, notOperator, ← code.word]
    rfl

end OperandCode

theorem item_operator {kind : Kind} {cs : List Char} (isSymbol : (cs, kind) ∈ Kind.symbols) :
    item cs = [⟨kind, String.ofList cs⟩] := by
  have found : ∀ s ∈ Kind.symbols, Kind.symbols.lookup s.1 = some s.2 := by decide
  rw [item, found _ isSymbol]

/-- Code of which the words are read back. -/
structure Legible (code : String) (words : List Word) : Prop where
  chars : ∀ c ∈ code.toList, isInExpression c = true
  read : items code.toList = words.map Word.canonical

namespace Legible

theorem factor (f : Factor) (admissible : ∀ w ∈ f.words, w.Admissible) :
    Legible f.code f.words := by
  obtain ⟨sign, x⟩ := f
  cases sign with
  | none =>
    have code := operandCode (admissible x.word (by simp [Factor.words]))
    constructor
    · exact code.isInExpression
    · exact (items_of_notMem code.noBlank).trans code.item_eq
  | some sign =>
    have code := operandCode (admissible x.word (by simp [Factor.words]))
    have isSign : (sign.text.toList, .additive sign.op) ∈ Kind.symbols :=
      admissible ⟨.additive sign.op, sign.text⟩ (by simp [Factor.words])
    have chars : (Factor.code ⟨some sign, x⟩).toList = sign.text.toList ++ x.code.toList :=
      String.toList_append
    constructor
    · rw [chars, List.forall_mem_append]
      exact ⟨fun c mem => (symbol_chars isSign c mem).1, code.isInExpression⟩
    · have noBlank : ' ' ∉ sign.text.toList ++ x.code.toList := by
        rw [List.mem_append, not_or]
        exact ⟨fun mem => (symbol_chars isSign _ mem).2.1 rfl, code.noBlank⟩
      rw [chars, items_of_notMem noBlank, code.item_sign isSign, String.ofList_toList]
      rfl

theorem operator {kind : Kind} {text : String} (isSymbol : (text.toList, kind) ∈ Kind.symbols) :
    Legible text [⟨kind, text⟩] := by
  have noBlank : ' ' ∉ text.toList := fun mem => (symbol_chars isSymbol _ mem).2.1 rfl
  have notNumber : ∀ s ∈ Kind.symbols, s.2 ≠ .number := by decide
  constructor
  · exact fun c mem => (symbol_chars isSymbol c mem).1
  · have canonical : Word.canonical ⟨kind, text⟩ = ⟨kind, text⟩ :=
      Word.canonical_of_ne_number (notNumber _ isSymbol)
    rw [items_of_notMem noBlank, item_operator isSymbol, String.ofList_toList, List.map_singleton,
      canonical]

/-- Two texts with a blank between them. -/
theorem append {first second : String} {ws vs : List Word} (legible : Legible first ws)
    (legible' : Legible second vs) : Legible (first ++ " " ++ second) (ws ++ vs) := by
  have chars : (first ++ " " ++ second).toList = first.toList ++ ' ' :: second.toList := by
    simp
  constructor
  · rw [chars, List.forall_mem_append, List.forall_mem_cons]
    exact ⟨legible.chars, by decide, legible'.chars⟩
  · rw [chars, items_append, legible.read, legible'.read, List.map_append]

/-- A chain is read back, if its items are. -/
theorem chain {ω α : Type} (kind : ω → Kind) {words : α → List Word} {code : α → String}
    (isOperator : ∀ op text, Word.Admissible ⟨kind op, text⟩ →
      (text.toList, kind op) ∈ Kind.symbols)
    (item : ∀ x, (∀ w ∈ words x, w.Admissible) → Legible (code x) (words x))
    {first : α} {rest : List (Operator ω × α)}
    (admissible : ∀ w ∈ words first ++ Operator.chainWords kind words rest, w.Admissible) :
    Legible (code first ++ String.join (rest.map fun (o, x) => o.code ++ code x))
      (words first ++ Operator.chainWords kind words rest) := by
  induction rest generalizing first with
  | nil =>
    rw [List.forall_mem_append] at admissible
    simpa [Operator.chainWords] using item first admissible.1
  | cons second rest ih =>
    obtain ⟨o, x⟩ := second
    rw [Operator.chainWords_cons] at admissible ⊢
    rw [List.forall_mem_append, List.forall_mem_cons] at admissible
    obtain ⟨ofFirst, ofOperator, ofRest⟩ := admissible
    have start := (item first ofFirst).append (operator (isOperator _ _ ofOperator))
    have whole := start.append (ih ofRest)
    simpa [Operator.code, String.append_assoc] using whole

theorem term (t : Term) (admissible : ∀ w ∈ t.words, w.Admissible) : Legible t.code t.words :=
  chain Kind.multiplicative (fun _ _ isSymbol => isSymbol) factor admissible

theorem expression (e : Expression) (admissible : ∀ w ∈ e.words, w.Admissible) :
    Legible e.code e.words :=
  chain Kind.additive (fun _ _ isSymbol => isSymbol) term admissible

theorem condition (c : Condition) (admissible : ∀ w ∈ c.words, w.Admissible) :
    Legible c.code c.words :=
  chain Kind.comparison (fun _ _ isSymbol => isSymbol) expression admissible

end Legible

/-- What follows the code of an expression does not belong to it. -/
theorem Legible.expression_append {code : String} {words : List Word} (legible : Legible code words)
    (c : Char) (stop : isInExpression c = false) (rest : List Char) :
    Decoding.expression (code.toList ++ c :: rest) = words.map Word.canonical := by
  rw [Decoding.expression, List.takeWhile_append_of_pos legible.chars,
    List.takeWhile_cons_of_neg (by simp [stop]), List.append_nil, legible.read]

/-! ## Lines are read back -/

/-- What stands behind a name or a keyword does not belong to it. -/
theorem line_append {first : String} (alphanumeric : ∀ c ∈ first.toList, c.isAlphanum = true)
    {c : Char} (stop : c.isAlphanum = false) (rest : List Char) :
    line (first.toList ++ c :: rest) = lineAfter first (c :: rest) := by
  rw [line, List.takeWhile_append_of_pos alphanumeric, List.dropWhile_append_of_pos alphanumeric,
    List.takeWhile_cons_of_neg (by simp [stop]), List.dropWhile_cons_of_neg (by simp [stop]),
    List.append_nil, String.ofList_toList]

theorem name_append {x : String} (isName : Word.IsName x.toList) (c : Char)
    (stop : c.isAlphanum = false) (rest : List Char) : name (x.toList ++ c :: rest) = .name x := by
  rw [name, List.takeWhile_append_of_pos isName.alphanumeric,
    List.takeWhile_cons_of_neg (by simp [stop]), List.append_nil, String.ofList_toList]

theorem lineAfter_printText {text : String} (quotable : Word.IsQuotable text.toList)
    (rest : List Char) :
    lineAfter "printf" ('(' :: '"' :: (text.toList ++ '\\' :: rest)) =
      .simple .print [⟨.string, text⟩] := by
  have plain : ∀ c ∈ text.toList, c ≠ '%' ∧ (c != '\\') = true := by
    intro c mem
    have allowed := quotable c mem
    simp_all [Lexeme.isInString]
  have notFormat : (text.toList ++ '\\' :: rest).head? ≠ some '%' := by
    cases chars : text.toList with
    | nil => simp
    | cons c cs => simpa using (plain c (by simp [chars])).1
  change printLine (text.toList ++ '\\' :: rest) = _
  rw [printLine, if_neg notFormat, List.takeWhile_append_of_pos fun c mem => (plain c mem).2,
    List.takeWhile_cons_of_neg (by decide), List.append_nil, String.ofList_toList]

theorem lineAfter_print {value : Expression} (admissible : ∀ w ∈ value.words, w.Admissible)
    (rest : List Char) :
    lineAfter "printf"
        ('(' :: '"' :: ("%.2f\\n\", (float)(".toList ++ (value.code.toList ++ ')' :: rest))) =
      .simple .print (value.words.map Word.canonical) := by
  rw [← (Legible.expression value admissible).expression_append ')' (by decide) rest]
  rfl

theorem lineAfter_head (c : Construct) {condition : Condition}
    (admissible : ∀ w ∈ condition.words, w.Admissible) (rest : List Char) :
    lineAfter (codeWord c) ('(' :: (condition.code.toList ++ ')' :: rest)) =
      .head c (condition.words.map Word.canonical) := by
  have legible := Legible.condition condition admissible
  have behind : (condition.code.toList ++ ')' :: rest).dropWhile isInExpression = ')' :: rest := by
    rw [List.dropWhile_append_of_pos legible.chars, List.dropWhile_cons_of_neg (by decide)]
  rw [← legible.expression_append ')' (by decide) rest]
  cases c with
  | ifThen =>
    change ifLine (condition.code.toList ++ ')' :: rest) = _
    rw [ifLine, behind]
    rfl
  | whileRepeat => rfl

theorem lineAfter_input {x : String} (isName : Word.IsName x.toList) (rest : List Char) :
    lineAfter "if" ('(' :: ("1 != scanf(\"%f\", &".toList ++ (x.toList ++ ')' :: rest))) =
      ⟨[Keyword.input.word, .name x, .newline], some none⟩ := by
  rw [← name_append isName ')' (by decide) rest]
  rfl

theorem lineAfter_assign (x : String) {value : Expression}
    (admissible : ∀ w ∈ value.words, w.Admissible) (rest : List Char) :
    lineAfter x (' ' :: '=' :: ' ' :: (value.code.toList ++ ';' :: rest)) =
      .simple .assign (.name x :: .becomes :: value.words.map Word.canonical) := by
  rw [← (Legible.expression value admissible).expression_append ';' (by decide) rest]
  rfl

/-- A word, a blank and a name: a jump or a declaration. -/
theorem lineAfter_name (first : String) {x : String} (isName : Word.IsName x.toList) {c : Char}
    (stop : c.isAlphanum = false) (rest : List Char) :
    lineAfter first (' ' :: (x.toList ++ c :: rest)) =
      if first = "goto" then .simple .goto [.name x] else .nothing := by
  have named := name_append isName c stop rest
  obtain ⟨d, more, chars, letter, -⟩ := isName
  rw [chars, List.cons_append] at named ⊢
  unfold lineAfter
  split
  · next same => nomatch same
  · next same => nomatch same
  · next same =>
    obtain ⟨rfl, -⟩ := List.cons.inj (List.cons.inj same).2
    nomatch letter
  · next same =>
    cases same
    rw [named]
  · next other => exact absurd rfl (other _)

/-! ## Programs are read back -/

variable {blocks : List (Option Construct)}

/-- A line that begins with letters and digits, outside of input statements. -/
theorem code_line (speaking : silent blocks = false) {first : String}
    (isName : Word.IsName first.toList) {c : Char} (stop : c.isAlphanum = false) {more : List Char}
    (inLine : '\n' ∉ c :: more) (rest : List Char) :
    code blocks (first.toList ++ c :: more ++ '\n' :: rest) =
      (lineAfter first (c :: more)).words ++
        code ((lineAfter first (c :: more)).opens.toList ++ blocks) rest := by
  have noNewline : '\n' ∉ first.toList ++ c :: more := by
    rw [List.mem_append, not_or]
    exact ⟨fun mem => absurd (isName.alphanumeric _ mem) (by decide), inLine⟩
  have notClosing : first.toList ++ c :: more ≠ ['\x7d'] := by
    obtain ⟨d, others, chars, letter, -⟩ := isName
    intro same
    rw [chars, List.cons_append] at same
    obtain ⟨rfl, -⟩ := List.cons.inj same
    nomatch letter
  rw [code, List.splitOn_append_cons_self_of_not_mem noNewline, lines, if_neg notClosing, speaking,
    if_neg nofun, line_append isName.alphanumeric stop]
  rfl

theorem code_closing (rest : List Char) :
    code blocks ('\x7d' :: '\n' :: rest) = closing blocks.head? ++ code blocks.tail rest := by
  have line : (['\x7d'] ++ '\n' :: rest).splitOn '\n' = ['\x7d'] :: rest.splitOn '\n' :=
    List.splitOn_append_cons_self_of_not_mem (by decide) rest
  rw [code, ← List.singleton_append, line, lines, if_pos rfl]
  rfl

/-- A line of an input statement that is not the last one. -/
theorem code_silent {cs : List Char} (inLine : '\n' ∉ cs) (notClosing : cs ≠ ['\x7d'])
    (rest : List Char) :
    code (none :: blocks) (cs ++ '\n' :: rest) = code (none :: blocks) rest := by
  rw [code, List.splitOn_append_cons_self_of_not_mem inLine, lines, if_neg notClosing]
  rfl

/-- Code from which words are read, whatever follows it. -/
structure ReadsBack (text : String) (words : List Word) : Prop where
  read : ∀ {blocks : List (Option Construct)}, silent blocks = false → ∀ rest,
    code blocks (text.toList ++ rest) = words.map Word.canonical ++ code blocks rest

namespace ReadsBack

/-- A statement of one line. -/
theorem of_line {text : String} {words : List Word} {first : String}
    (isName : Word.IsName first.toList) {c : Char} (stop : c.isAlphanum = false) {more : List Char}
    (inLine : '\n' ∉ c :: more) (chars : text.toList = first.toList ++ c :: more ++ ['\n'])
    (reads : lineAfter first (c :: more) = ⟨words.map Word.canonical, none⟩) :
    ReadsBack text words := by
  constructor
  intro blocks speaking rest
  rw [chars, List.append_assoc, List.singleton_append, code_line speaking isName stop inLine, reads]
  rfl

theorem append {first second : String} {ws vs : List Word} (reads : ReadsBack first ws)
    (reads' : ReadsBack second vs) : ReadsBack (first ++ second) (ws ++ vs) := by
  constructor
  intro blocks speaking rest
  rw [String.toList_append, List.append_assoc, reads.read speaking, reads'.read speaking,
    List.map_append, List.append_assoc]

theorem printText {text : String} (quotable : Word.IsQuotable text.toList) :
    ReadsBack (Statement.printText text).code (Statement.printText text).words := by
  have inLine : '\n' ∉ '(' :: '"' :: (text.toList ++ '\\' :: "n\");".toList) := by
    have := quotable '\n'
    simp_all [Lexeme.isInString]
  apply of_line (isName_of_all "printf" (by decide) (by decide)) (by decide) inLine
  · change ("printf(\"" ++ text ++ "\\n\");\n").toList = _
    simp
  · exact lineAfter_printText quotable _

theorem print {value : Expression} (admissible : ∀ w ∈ value.words, w.Admissible) :
    ReadsBack (Statement.print value).code (Statement.print value).words := by
  have inLine : '\n' ∉ '(' :: '"' ::
      ("%.2f\\n\", (float)(".toList ++ (value.code.toList ++ ')' :: ");".toList)) := by
    have := (Legible.expression value admissible).chars '\n'
    simp_all [isInExpression]
  apply of_line (isName_of_all "printf" (by decide) (by decide)) (by decide) inLine
  · change ("printf(\"%.2f\\n\", (float)(" ++ value.code ++ "));\n").toList = _
    simp
  · rw [lineAfter_print admissible]
    simp [Reading.simple, Statement.words]

theorem label {x : String} (isName : Word.IsName x.toList) :
    ReadsBack (Statement.label x).code (Statement.label x).words := by
  apply of_line isName (by decide) (by decide : '\n' ∉ ':' :: ";".toList)
  · change (x ++ ":;\n").toList = _
    simp
  · rfl

theorem goto {x : String} (isName : Word.IsName x.toList) :
    ReadsBack (Statement.goto x).code (Statement.goto x).words := by
  have inLine : '\n' ∉ ' ' :: (x.toList ++ [';']) := by
    have := isName.alphanumeric '\n'
    simp_all
  apply of_line (isName_of_all "goto" (by decide) (by decide)) (by decide) inLine
  · change ("goto " ++ x ++ ";\n").toList = _
    simp
  · rw [lineAfter_name "goto" isName (by decide), if_pos rfl]
    rfl

theorem assign {x : String} (isName : Word.IsName x.toList) {value : Expression}
    (admissible : ∀ w ∈ value.words, w.Admissible) :
    ReadsBack (Statement.assign x value).code (Statement.assign x value).words := by
  have inLine : '\n' ∉ ' ' :: '=' :: ' ' :: (value.code.toList ++ [';']) := by
    have := (Legible.expression value admissible).chars '\n'
    simp_all [isInExpression]
  apply of_line isName (by decide) inLine
  · change (x ++ " = " ++ value.code ++ ";\n").toList = _
    simp
  · rw [lineAfter_assign x admissible]
    simp [Reading.simple, Statement.words]

/-- All lines of an input statement but its first one are passed over. -/
theorem input {x : String} (isName : Word.IsName x.toList) :
    ReadsBack (Statement.input x).code (Statement.input x).words := by
  have noNewline : '\n' ∉ x.toList := fun mem => absurd (isName.alphanumeric _ mem) (by decide)
  have inLine : '\n' ∉ '(' ::
      ("1 != scanf(\"%f\", &".toList ++ (x.toList ++ ')' :: ") \x7b".toList)) := by
    simpa using noNewline
  have inLine' : '\n' ∉ x.toList ++ " = 0;".toList := by simpa using noNewline
  have notClosing : x.toList ++ " = 0;".toList ≠ ['\x7d'] :=
    fun same => absurd (congrArg List.length same) (by simp)
  constructor
  intro blocks speaking rest
  have chars : (Statement.input x).code.toList ++ rest = "if".toList ++
      '(' :: ("1 != scanf(\"%f\", &".toList ++ (x.toList ++ ')' :: ") \x7b".toList)) ++ '\n' ::
        (x.toList ++ " = 0;".toList ++ '\n' ::
          ("scanf(\"%*[^\\n]\");".toList ++ '\n' :: '\x7d' :: '\n' :: rest)) := by
    change ("if(1 != scanf(\"%f\", &" ++ x ++ ")) \x7b\n" ++ x ++ " = 0;\n" ++
      "scanf(\"%*[^\\n]\");\n" ++ "\x7d\n").toList ++ rest = _
    simp
  rw [chars, code_line speaking (isName_of_all "if" (by decide) (by decide)) (by decide) inLine,
    lineAfter_input isName]
  change _ ++ code (none :: blocks) _ = _
  rw [code_silent inLine' notClosing, code_silent (by decide) (by decide), code_closing]
  rfl

/-- A block is read back if what is inside of it is: the brace at its end closes this block. -/
theorem governed (c : Construct) {condition : Condition}
    (admissible : ∀ w ∈ condition.words, w.Admissible) {body : List Statement}
    (inner : ReadsBack (Statement.allCode body) (Statement.allWords body)) :
    ReadsBack (c.statement condition body).code (c.statement condition body).words := by
  have isWord : Word.IsName (codeWord c).toList := by
    cases c <;> exact isName_of_all _ (by decide) (by decide)
  have inLine : '\n' ∉ '(' :: (condition.code.toList ++ [')', '\x7b']) := by
    have := (Legible.condition condition admissible).chars '\n'
    simp_all [isInExpression]
  constructor
  intro blocks speaking rest
  have chars : (c.statement condition body).code.toList ++ rest = (codeWord c).toList ++
      '(' :: (condition.code.toList ++ [')', '\x7b']) ++ '\n' ::
        ((Statement.allCode body).toList ++ '\x7d' :: '\n' :: rest) := by
    cases c with
    | ifThen =>
      change ("if(" ++ condition.code ++ ")\x7b\n" ++ Statement.allCode body ++ "\x7d\n").toList ++
        rest = "if".toList ++ _ ++ _
      simp
    | whileRepeat =>
      change ("while(" ++ condition.code ++ ")\x7b\n" ++ Statement.allCode body ++
        "\x7d\n").toList ++ rest = "while".toList ++ _ ++ _
      simp
  rw [chars, code_line speaking isWord (by decide) inLine, lineAfter_head c admissible]
  change _ ++ code (some c :: blocks) _ = _
  rw [inner.read rfl, code_closing, c.words_statement]
  simp [Reading.head, closing]

end ReadsBack

mutual

/-- The words of a statement are read from its code. -/
theorem readsBack_code (s : Statement) (admissible : ∀ w ∈ s.words, w.Admissible) :
    ReadsBack s.code s.words := by
  cases s with
  | printText text =>
    have quotable : Word.IsQuotable text.toList :=
      admissible ⟨.string, text⟩ (by simp [Statement.words])
    exact .printText quotable
  | print value => exact .print fun w mem => admissible w (by simp [Statement.words, mem])
  | ifThen condition body =>
    have inner := readsBack_allCode body fun w mem => admissible w (by simp [Statement.words, mem])
    exact .governed .ifThen (fun w mem => admissible w (by simp [Statement.words, mem])) inner
  | whileRepeat condition body =>
    have inner := readsBack_allCode body fun w mem => admissible w (by simp [Statement.words, mem])
    exact .governed .whileRepeat (fun w mem => admissible w (by simp [Statement.words, mem])) inner
  | label x =>
    exact .label (admissible (.name x) (by simp [Statement.words])).1
  | goto x =>
    exact .goto (admissible (.name x) (by simp [Statement.words])).1
  | assign x value =>
    have ofValue : ∀ w ∈ value.words, w.Admissible :=
      fun w mem => admissible w (by simp [Statement.words, mem])
    exact .assign (admissible (.name x) (by simp [Statement.words])).1 ofValue
  | input x =>
    exact .input (admissible (.name x) (by simp [Statement.words])).1

/-- The words of statements are read from their code. -/
theorem readsBack_allCode (p : List Statement)
    (admissible : ∀ w ∈ Statement.allWords p, w.Admissible) :
    ReadsBack (Statement.allCode p) (Statement.allWords p) := by
  cases p with
  | nil => exact ⟨fun _ _ => rfl⟩
  | cons s rest =>
    rw [Statement.allWords, List.forall_mem_append] at admissible
    exact (readsBack_code s admissible.1).append (readsBack_allCode rest admissible.2)

end

mutual

theorem name_mem_words {s : Statement} {x : String} (mem : x ∈ s.targets) : .name x ∈ s.words := by
  cases s with
  | ifThen condition body | whileRepeat condition body =>
    have inside := name_mem_allWords (p := body) (by simpa [Statement.targets] using mem)
    simp [Statement.words, inside]
  | assign y value | input y =>
    obtain rfl : x = y := by simpa [Statement.targets] using mem
    simp [Statement.words]
  | printText | print | label | goto => simp [Statement.targets] at mem

/-- The variables of statements are among their words. -/
theorem name_mem_allWords {p : List Statement} {x : String} (mem : x ∈ Statement.allTargets p) :
    .name x ∈ Statement.allWords p := by
  cases p with
  | nil => nomatch mem
  | cons s rest =>
    rw [Statement.allTargets, List.mem_append] at mem
    rw [Statement.allWords, List.mem_append]
    exact mem.imp name_mem_words name_mem_allWords

end

/-- Nothing is read from the beginning of a C program. -/
theorem readsBack_prologue : ReadsBack "#include <stdio.h>\nint main(void)\x7b\n" [] := by
  have inclusion : ReadsBack "#include <stdio.h>\n" [] := by
    constructor
    intro blocks speaking rest
    have chars : "#include <stdio.h>\n".toList ++ rest =
        "#include <stdio.h>".toList ++ '\n' :: rest := by simp
    rw [chars, code, List.splitOn_append_cons_self_of_not_mem (by decide), lines,
      if_neg (by decide), speaking]
    rfl
  have opening : ReadsBack "int main(void)\x7b\n" [] :=
    .of_line (isName_of_all "int" (by decide) (by decide)) (by decide)
      (by decide : '\n' ∉ ' ' :: "main(void)\x7b".toList) (by decide) rfl
  exact inclusion.append opening

/-- Nothing is read from declarations. -/
theorem readsBack_declarations {names : List String}
    (areNames : ∀ x ∈ names, Word.IsName x.toList) :
    ReadsBack (String.join (names.map fun x => "float " ++ x ++ " = 0;\n")) [] := by
  induction names with
  | nil => exact ⟨fun _ _ => rfl⟩
  | cons x names ih =>
    rw [List.forall_mem_cons] at areNames
    obtain ⟨isName, others⟩ := areNames
    have inLine : '\n' ∉ ' ' :: (x.toList ++ ' ' :: "= 0;".toList) := by
      have := isName.alphanumeric '\n'
      simp_all
    have declaration : ReadsBack ("float " ++ x ++ " = 0;\n") [] := by
      apply ReadsBack.of_line (isName_of_all "float" (by decide) (by decide)) (by decide) inLine
      · simp
      · rw [lineAfter_name "float" isName (by decide), if_neg (by decide)]
        rfl
    rw [List.map_cons, String.join_cons]
    exact declaration.append (ih others)

/-- The words of a program, with literals in place of numerals, are read from its code. -/
theorem program_code {p : Program} (admissible : ∀ w ∈ p.words, w.Admissible) :
    program p.code = p.words.map Word.canonical := by
  have areNames : ∀ x ∈ p.assigned, Word.IsName x.toList := by
    intro x mem
    have target : x ∈ Statement.allTargets p := List.mem_eraseDups.mp mem
    exact (admissible _ (name_mem_allWords target)).1
  let front := "#include <stdio.h>\nint main(void)\x7b\n" ++
    String.join (p.assigned.map fun x => "float " ++ x ++ " = 0;\n") ++ Statement.allCode p
  have reads : ReadsBack front p.words :=
    (readsBack_prologue.append (readsBack_declarations areNames)).append
      (readsBack_allCode p admissible)
  have outside : silent [] = false := rfl
  have ending : code [] "return 0;\n\x7d\n".toList = [] := by decide +kernel
  have text : p.code = front ++ "return 0;\n\x7d\n" := rfl
  have chars : p.code.toList = front.toList ++ "return 0;\n\x7d\n".toList := by
    rw [text]
    exact String.toList_append
  rw [program, chars, reads.read outside, ending, List.append_nil]

end Decoding

/-! ## Sources and their code -/

/-- What tokens say that matters to the code: their words without blank lines, and with literals in
    place of numerals. -/
def Token.essence (ts : List Token) : List Word :=
  (Word.withoutBlankLines (ts.map Token.word)).map Word.canonical

/-- The tree of a source that compiles. -/
theorem exists_tree_of_compile_ok {source c : String} (compiled : compile source = .ok c) :
    ∃ (ts : List Token) (tree : Program), lex source = .ok ts ∧ c = tree.code ∧
      (∀ w ∈ tree.words, w.Admissible) ∧
      Token.essence ts = tree.words.map Word.canonical ++ [.eof] := by
  obtain ⟨ok, rfl⟩ := compile_eq_ok_iff.mp compiled
  obtain ⟨ts, lexed⟩ := Machine.lexed_of_compile_ok ok
  obtain ⟨result, output⟩ := Machine.compile_ofText_of_lexed lexed .empty
  obtain ⟨⟨ending, split⟩, admissible⟩ := tokens_of_lexed lexed
  have noEnd : ∀ t ∈ (Reader.ofTokens ts).unread, t.kind ≠ .eof :=
    fun t mem => Token.kind_ne_eof_of_mem_beforeEnd mem
  rw [result, (Machine.compile_ofTokens ts .empty).1, Reader.run_body_ok_iff _ noEnd] at ok
  obtain ⟨⟨tree, (laid : Laid tree (Token.beforeEnd ts))⟩, allowed, -⟩ := ok
  refine ⟨ts, tree, lexed, ?_, laid.admissible_words admissible, ?_⟩
  · rw [output, Machine.text_of_laid laid allowed]
  · have words : ts.map Token.word = (Token.beforeEnd ts).map Token.word ++ [.eof] := by
      conv => lhs; rw [split]
      simp [Token.word, Token.eof, Word.eof]
    rw [Token.essence, Word.withoutBlankLines, words, laid.squeeze_append admissible,
      List.map_append]
    rfl

/-- Code is uniquely decodable.  Two sources that compile have the same C program exactly if their
    tokens agree but for positions, blank lines and how numerals are written. -/
theorem compile_eq_iff_essence_eq {source source' c c' : String}
    (compiled : compile source = .ok c) (compiled' : compile source' = .ok c') :
    ∃ ts us : List Token, lex source = .ok ts ∧ lex source' = .ok us ∧
      (c = c' ↔ Token.essence ts = Token.essence us) := by
  obtain ⟨ts, tree, lexed, rfl, admissible, essence⟩ := exists_tree_of_compile_ok compiled
  obtain ⟨us, tree', lexed', rfl, admissible', essence'⟩ := exists_tree_of_compile_ok compiled'
  refine ⟨ts, us, lexed, lexed', ?_⟩
  rw [essence, essence', List.append_left_inj]
  constructor
  · intro same
    rw [← Decoding.program_code admissible, same, Decoding.program_code admissible']
  · exact Program.code_eq_of_words

/-- The same program with other numerals, more blank lines and a comment. -/
theorem compile_eq_iff_essence_eq_of_loop :
    let source := "LET a = 007\nWHILE a < 9 REPEAT\nINPUT a\nENDWHILE\n"
    let source' := "# seven\nLET a = 7.0\n\nWHILE a < 09 REPEAT\n  INPUT a\nENDWHILE\n"
    let text (source : String) := (compile source).toOption.getD ""
    compile source = .ok (text source) ∧ compile source' = .ok (text source') ∧
      ∃ ts us : List Token, lex source = .ok ts ∧ lex source' = .ok us ∧
        (text source = text source' ↔ Token.essence ts = Token.essence us) := by
  intro source source' text
  have compiled : compile source = .ok (text source) := by decide +kernel
  have compiled' : compile source' = .ok (text source') := by decide +kernel
  exact ⟨compiled, compiled', compile_eq_iff_essence_eq compiled compiled'⟩

end BasicToC
