import BasicToC.Proofs.Decoding
import BasicToC.Proofs.Formulas
import BasicToC.Proofs.Spelling

/-! # Expressions read as C

The other side of the code of expressions: how C reads it.  The text is cut into numbers, names and
symbols by longest match, so that two signs in a row or the beginning of a comment would be noticed;
then operators are applied in the order of their precedence.  Only what can stand in an expression
without parentheses is read, and numbers only if they are digits, a point and digits.

`read_expression` says that expressions keep their structure.  `read_condition` says what becomes of
conditions: C has two levels of precedence for comparisons.  The other half of the namespace
`CReading`, how C reads literals and calls of `printf`, is in `BasicToC.Proofs.PrintedText`.
-/

namespace BasicToC

/-- Whether an operator asks for equality, or for the lack of it. -/
def Comparator.isEquality : Comparator → Bool
  | .equal | .notEqual => true
  | _ => false

namespace CReading

/-! ## Pieces -/

/-- What C sees of a text at a time. -/
inductive Piece where
  | number (chars : List Char)
  | name (chars : List Char)
  | symbol (chars : List Char)
  deriving DecidableEq, Repr

/-- The symbols of C, and what comments begin with.  A symbol stands before every symbol that it
    begins with. -/
def symbols : List (List Char) :=
  ["%:%:", "...", "<<=", ">>=", "++", "--", "->", "<<", ">>", "<=", ">=", "==", "!=", "&&", "||",
    "*=", "/=", "%=", "+=", "-=", "&=", "^=", "|=", "##", "//", "/*", "<:", ":>", "<%", "%>", "%:",
    "[", "]", "(", ")", "\x7b", "\x7d", ".", "&", "*", "+", "-", "~", "!", "/", "%", "<", ">", "^",
    "|", "?", ":", ";", "=", ",", "#"].map String.toList

/-- The longest symbol at the front of a text. -/
def symbolAt (cs : List Char) : Option (List Char) :=
  symbols.find? (·.isPrefixOf cs)

def isInName (c : Char) : Bool :=
  c.isAlphanum || c == '_'

def isInNumber (c : Char) : Bool :=
  isInName c || c == '.'

/-- Cut a text into pieces, each of them as long as it can be. -/
def pieces : List Char → Option (List Piece)
  | [] => some []
  | c :: cs =>
    if c = ' ' then pieces cs
    else if c.isDigit || (c == '.' && cs.head?.any Char.isDigit) then
      (pieces (cs.dropWhile isInNumber)).map (.number (c :: cs.takeWhile isInNumber) :: ·)
    else if isInName c then
      (pieces (cs.dropWhile isInName)).map (.name (c :: cs.takeWhile isInName) :: ·)
    else
      match symbolAt (c :: cs) with
      | none => none
      | some symbol => (pieces (cs.drop (symbol.length - 1))).map (.symbol symbol :: ·)
termination_by cs => cs.length
decreasing_by
  · simp
  · simpa using Nat.lt_succ_of_le (List.dropWhile_suffix _).length_le
  · simpa using Nat.lt_succ_of_le (List.dropWhile_suffix _).length_le
  · simp only [List.length_drop, List.length_cons]
    omega

/-! ## Formulas -/

/-- The value of a floating constant: digits, a point and digits. -/
def number? (cs : List Char) : Option ℚ :=
  let whole := cs.takeWhile (· != '.')
  let fraction := Numeral.fraction cs
  if whole ≠ [] ∧ fraction ≠ [] ∧ '.' ∈ cs ∧ (whole ++ fraction).all Char.isDigit then
    some (Numeral.value cs)
  else none

def sign? : List Char → Option Additive
  | ['+'] => some .plus
  | ['-'] => some .minus
  | _ => none

def binary? : List Char → Option Binary
  | ['*'] => some (.multiplicative .times)
  | ['/'] => some (.multiplicative .over)
  | ['+'] => some (.additive .plus)
  | ['-'] => some (.additive .minus)
  | ['<'] => some (.comparison .less)
  | ['<', '='] => some (.comparison .lessOrEqual)
  | ['>'] => some (.comparison .greater)
  | ['>', '='] => some (.comparison .greaterOrEqual)
  | ['=', '='] => some (.comparison .equal)
  | ['!', '='] => some (.comparison .notEqual)
  | _ => none

def operand? : Piece → Option Formula
  | .number cs => (number? cs).map .number
  | .name cs => some (.name (String.ofList cs))
  | .symbol _ => none

/-- Operands and the operators between them.  A sign belongs to the operand behind it. -/
def chain : List Piece → Option (Chain Binary Formula)
  | [] => none
  | [p] => (operand? p).map (⟨·, []⟩)
  | .symbol s :: p :: rest =>
    (sign? s).bind fun sign => (chain (p :: rest)).map fun c => ⟨.signed sign c.first, c.rest⟩
  | p :: .symbol s :: rest =>
    (operand? p).bind fun x => (binary? s).bind fun o =>
      (chain rest).map fun c => ⟨x, (o, c.first) :: c.rest⟩
  | _ :: _ :: _ => none

/-- The level of precedence of an operator, from those that bind most tightly. -/
def level : Binary → Nat
  | .multiplicative _ => 0
  | .additive _ => 1
  | .comparison op => if op.isEquality then 3 else 2

/-- Apply the operators of one level from left to right. -/
def resolveLevel (n : Nat) (c : Chain Binary Formula) : Chain Binary Formula :=
  c.group (level · == n) .binary

/-- Apply operators level by level.  One operand is left in the end. -/
def resolve (c : Chain Binary Formula) : Formula :=
  (resolveLevel 3 (resolveLevel 2 (resolveLevel 1 (resolveLevel 0 c)))).first

/-- What a text says if it is read as an expression of C. -/
def read (text : String) : Option Formula :=
  ((pieces text.toList).bind chain).map resolve

/-! ## Cutting at blanks -/

theorem span_append_blank {p : Char → Bool} (stop : p ' ' = false) (cs rest : List Char) :
    (cs ++ ' ' :: rest).takeWhile p = cs.takeWhile p ∧
      (cs ++ ' ' :: rest).dropWhile p = cs.dropWhile p ++ ' ' :: rest := by
  induction cs with
  | nil => simp [stop]
  | cons c cs ih =>
    by_cases holds : p c = true
    · simp [holds, ih]
    · simp [holds]

theorem prefix_append_blank {s : List Char} (noBlank : ' ' ∉ s) (cs rest : List Char) :
    s <+: cs ++ ' ' :: rest ↔ s <+: cs := by
  refine ⟨fun isFront => ?_, fun isFront => isFront.trans (List.prefix_append _ _)⟩
  rcases List.prefix_or_prefix_of_prefix isFront (List.prefix_append _ _) with inside | ⟨more, rfl⟩
  · exact inside
  · cases more with
    | nil => simp
    | cons c more =>
      -- what goes on beyond the text holds the blank
      rw [List.prefix_append_right_inj, List.cons_prefix_cons] at isFront
      exact absurd (by simp [isFront.1]) noBlank

theorem symbolAt_append_blank (cs rest : List Char) :
    symbolAt (cs ++ ' ' :: rest) = symbolAt cs := by
  have noBlank : ∀ s ∈ symbols, ' ' ∉ s := by decide
  have same : ∀ s ∈ symbols, s.isPrefixOf (cs ++ ' ' :: rest) = s.isPrefixOf cs := by
    intro s mem
    rw [Bool.eq_iff_iff, List.isPrefixOf_iff_prefix, List.isPrefixOf_iff_prefix]
    exact prefix_append_blank (noBlank s mem) cs rest
  unfold symbolAt
  generalize symbols = candidates at same
  induction candidates with
  | nil => rfl
  | cons s candidates ih =>
    rw [List.forall_mem_cons] at same
    rw [List.find?_cons, List.find?_cons, same.1, ih same.2]

theorem prefix_of_symbolAt {cs symbol : List Char} (found : symbolAt cs = some symbol) :
    symbol <+: cs := by
  unfold symbolAt at found
  have isFront := List.find?_some found
  exact List.isPrefixOf_iff_prefix.mp isFront

/-- No piece goes on beyond a blank. -/
theorem pieces_append_blank (cs rest : List Char) :
    pieces (cs ++ ' ' :: rest) =
      (pieces cs).bind fun ps => (pieces rest).map (ps ++ ·) := by
  have head : ∀ cs : List Char,
      (cs ++ ' ' :: rest).head?.any Char.isDigit = cs.head?.any Char.isDigit := by
    intro cs
    cases cs <;> rfl
  have pushed : ∀ (p : Piece) (ps : Option (List Piece)),
      (ps.bind fun ps => (pieces rest).map (ps ++ ·)).map (p :: ·) =
        (ps.map (p :: ·)).bind fun ps => (pieces rest).map (ps ++ ·) := by
    intro p ps
    cases ps <;> simp [Function.comp_def]
  -- whatever the piece in front is, it is the same with more text behind the blank
  fun_induction pieces cs with
  | case1 =>
    rw [List.nil_append, pieces]
    simp
  | case2 cs ih => rw [List.cons_append, pieces, if_pos rfl, ih]
  | case3 c cs notBlank number ih =>
    obtain ⟨taken, left⟩ := span_append_blank (p := isInNumber) rfl cs rest
    rw [List.cons_append, pieces, if_neg notBlank, head, if_pos number, taken, left, ih, pushed]
  | case4 c cs notBlank notNumber name ih =>
    obtain ⟨taken, left⟩ := span_append_blank (p := isInName) rfl cs rest
    rw [List.cons_append, pieces, if_neg notBlank, head, if_neg notNumber, if_pos name, taken, left,
      ih, pushed]
  | case5 c cs notBlank notNumber notName nothing =>
    have nothing' : symbolAt (c :: (cs ++ ' ' :: rest)) = none :=
      (symbolAt_append_blank (c :: cs) rest).trans nothing
    rw [List.cons_append, pieces, if_neg notBlank, head, if_neg notNumber, if_neg notName, nothing']
    rfl
  | case6 c cs notBlank notNumber notName symbol found ih =>
    have found' : symbolAt (c :: (cs ++ ' ' :: rest)) = some symbol :=
      (symbolAt_append_blank (c :: cs) rest).trans found
    have inside : symbol.length - 1 ≤ cs.length := by
      have isFront := (prefix_of_symbolAt found).length_le
      rw [List.length_cons] at isFront
      omega
    rw [List.cons_append, pieces, if_neg notBlank, head, if_neg notNumber, if_neg notName, found']
    simp only
    rw [List.drop_append_of_le_length inside, ih, pushed]

/-! ## Pieces of the code -/

theorem pieces_symbol {cs : List Char} {kind : Kind} (isSymbol : (cs, kind) ∈ Kind.symbols) :
    pieces cs = some [.symbol cs] := by
  have all : ∀ s ∈ Kind.symbols, pieces s.1 = some [.symbol s.1] := by decide +kernel
  exact all _ isSymbol

theorem symbolAt_sign {sign c : Char} (isSign : sign = '+' ∨ sign = '-')
    (alphanumeric : c.isAlphanum = true) (cs : List Char) :
    symbolAt (sign :: c :: cs) = some [sign] := by
  have ne : ∀ d : Char, d.isAlphanum = false → d ≠ c := by
    rintro d notAlphanumeric rfl
    rw [alphanumeric] at notAlphanumeric
    cases notAlphanumeric
  have plus := ne '+' (by decide)
  have minus := ne '-' (by decide)
  have equal := ne '=' (by decide)
  have greater := ne '>' (by decide)
  rcases isSign with rfl | rfl <;> simp [symbolAt, symbols, plus, minus, equal, greater]

theorem pieces_sign {sign c : Char} (isSign : sign = '+' ∨ sign = '-')
    (alphanumeric : c.isAlphanum = true) (cs : List Char) :
    pieces (sign :: c :: cs) = (pieces (c :: cs)).map (.symbol [sign] :: ·) := by
  have found := symbolAt_sign isSign alphanumeric cs
  rw [pieces]
  rcases isSign with rfl | rfl <;> simp [found, isInName]

theorem pieces_number {c : Char} {cs : List Char} (digit : c.isDigit = true)
    (inside : ∀ d ∈ cs, isInNumber d = true) : pieces (c :: cs) = some [.number (c :: cs)] := by
  have notBlank : c ≠ ' ' := by
    rintro rfl
    cases digit
  have taken : cs.takeWhile isInNumber = cs := List.takeWhile_eq_self_iff.mpr inside
  have left : cs.dropWhile isInNumber = [] := List.dropWhile_eq_nil_iff.mpr inside
  rw [pieces, if_neg notBlank, if_pos (by simp [digit]), taken, left, pieces]
  rfl

theorem pieces_name {c : Char} {cs : List Char} (letter : c.isAlpha = true)
    (inside : ∀ d ∈ cs, d.isAlphanum = true) : pieces (c :: cs) = some [.name (c :: cs)] := by
  have notBlank : c ≠ ' ' := by
    rintro rfl
    cases letter
  have notPoint : c ≠ '.' := by
    rintro rfl
    cases letter
  have notDigit := Lexeme.isDigit_of_isAlpha letter
  have inside' : ∀ d ∈ cs, isInName d = true := fun d mem => by simp [isInName, inside d mem]
  have taken : cs.takeWhile isInName = cs := List.takeWhile_eq_self_iff.mpr inside'
  have left : cs.dropWhile isInName = [] := List.dropWhile_eq_nil_iff.mpr inside'
  rw [pieces, if_neg notBlank, if_neg (by simp [notDigit, notPoint]),
    if_pos (by simp [isInName, Char.isAlphanum, letter]), taken, left, pieces]
  rfl

theorem number?_literal {numeral : String} (isNumeral : Word.IsNumeral numeral.toList) :
    number? (Numeral.literal numeral).toList = some (Numeral.value numeral.toList) := by
  obtain ⟨whole, fraction, isWhole, isFraction, code⟩ := Numeral.literal_digits isNumeral
  have noPoint := Numeral.ne_point_of_isDigits isWhole
  have front : (whole ++ '.' :: fraction).takeWhile (· != '.') = whole := by
    rw [List.takeWhile_append_of_pos noPoint]
    simp
  have behind : Numeral.fraction (whole ++ '.' :: fraction) = fraction := by
    rw [Numeral.fraction, List.dropWhile_append_of_pos noPoint]
    rfl
  have digits : (whole ++ fraction).all Char.isDigit = true := by
    rw [List.all_eq_true, List.forall_mem_append]
    exact ⟨isWhole.2, isFraction.2⟩
  rw [← Numeral.value_literal isNumeral, number?, code]
  simp only [front, behind]
  rw [if_pos ⟨isWhole.1, isFraction.1, by simp, digits⟩]

/-- An operand is one piece, which says what the operand says. -/
theorem exists_piece {x : Operand} (admissible : x.word.Admissible) :
    ∃ p, pieces x.code.toList = some [p] ∧ operand? p = some x.formula := by
  cases x with
  | numeral text =>
    have isNumeral : Word.IsNumeral text.toList := admissible
    obtain ⟨whole, fraction, isWhole, isFraction, code⟩ := Numeral.literal_digits isNumeral
    obtain ⟨d, more, rfl⟩ := List.exists_cons_of_ne_nil isWhole.1
    have digit : ∀ c : Char, c.isDigit = true → isInNumber c = true := by
      simp +contextual [isInNumber, isInName, Char.isAlphanum]
    have inside : ∀ c ∈ more ++ '.' :: fraction, isInNumber c = true := by
      rw [List.forall_mem_append, List.forall_mem_cons]
      exact ⟨fun c mem => digit c (isWhole.2 c (List.mem_cons_of_mem d mem)), rfl,
        fun c mem => digit c (isFraction.2 c mem)⟩
    refine ⟨.number (Numeral.literal text).toList, ?_, ?_⟩
    · change pieces (Numeral.literal text).toList = _
      rw [code]
      exact pieces_number (isWhole.2 d List.mem_cons_self) inside
    · rw [operand?, number?_literal isNumeral]
      rfl
  | name x =>
    obtain ⟨c, cs, chars, letter, inside⟩ := admissible.1
    refine ⟨.name x.toList, ?_, ?_⟩
    · change pieces x.toList = _
      rw [show x.toList = c :: cs from chars]
      exact pieces_name letter inside
    · rw [operand?, String.ofList_toList]
      rfl

/-! ## Chains of the code -/

/-- What a text says before any operator is applied. -/
def Reads (text : String) (c : Chain Binary Formula) : Prop :=
  (pieces text.toList).bind chain = some c

theorem chain_append {ps qs : List Piece} {c d : Chain Binary Formula} (reads : chain ps = some c)
    {s : List Char} {o : Binary} (isBinary : binary? s = some o) (reads' : chain qs = some d) :
    chain (ps ++ .symbol s :: qs) = some ⟨c.first, c.rest ++ (o, d.first) :: d.rest⟩ := by
  -- the symbol comes behind an operand: it is read as an operator there, and not as a sign
  fun_induction chain ps generalizing c with
  | case1 => cases reads
  | case2 p =>
    cases p with
    | symbol s' => cases reads
    | number cs | name cs =>
      obtain ⟨x, isOperand, rfl⟩ := Option.map_eq_some_iff.mp reads
      simp [chain, isOperand, isBinary, reads']
  | case3 s' p rest ih =>
    obtain ⟨sign, isSign, reads⟩ := Option.bind_eq_some_iff.mp reads
    obtain ⟨c, others, rfl⟩ := Option.map_eq_some_iff.mp reads
    have longer := ih others
    rw [List.cons_append] at longer
    simp [chain, isSign, longer]
  | case4 p s' rest notSymbol ih =>
    obtain ⟨x, isOperand, reads⟩ := Option.bind_eq_some_iff.mp reads
    obtain ⟨o', isBinary', reads⟩ := Option.bind_eq_some_iff.mp reads
    obtain ⟨c, others, rfl⟩ := Option.map_eq_some_iff.mp reads
    have longer := ih others
    cases p with
    | symbol s' => exact absurd rfl (notSymbol s')
    | number cs | name cs => simp [chain, isOperand, isBinary', longer]
  | case5 => cases reads

/-- The operator between two operands that a kind stands for. -/
def binaryOf? : Kind → Option Binary
  | .multiplicative op => some (.multiplicative op)
  | .additive op => some (.additive op)
  | .comparison op => some (.comparison op)
  | _ => none

theorem binary?_of_mem_symbols {cs : List Char} {kind : Kind}
    (isSymbol : (cs, kind) ∈ Kind.symbols) : binary? cs = binaryOf? kind := by
  have all : ∀ s ∈ Kind.symbols, binary? s.1 = binaryOf? s.2 := by decide
  exact all _ isSymbol

namespace Reads

theorem factor (f : Factor) (admissible : ∀ w ∈ f.words, w.Admissible) :
    Reads f.code ⟨f.formula, []⟩ := by
  obtain ⟨sign, x⟩ := f
  cases sign with
  | none =>
    obtain ⟨p, cut, isOperand⟩ := exists_piece (admissible x.word (by simp [Factor.words]))
    change (pieces x.code.toList).bind chain = _
    rw [cut, Option.bind_some, chain, isOperand]
    rfl
  | some sign =>
    have ofOperand := admissible x.word (by simp [Factor.words])
    have ofSign : (sign.text.toList, .additive sign.op) ∈ Kind.symbols :=
      admissible ⟨.additive sign.op, sign.text⟩ (by simp [Factor.words])
    obtain ⟨p, cut, isOperand⟩ := exists_piece ofOperand
    obtain ⟨c, cs, code, alphanumeric⟩ := (Decoding.operandCode ofOperand).first
    have signs : ∃ s, sign.text.toList = [s] ∧ (s = '+' ∨ s = '-') ∧ sign? [s] = some sign.op := by
      have cases : sign.text.toList = ['+'] ∧ sign.op = .plus ∨
          sign.text.toList = ['-'] ∧ sign.op = .minus := by
        simpa [Kind.symbols] using ofSign
      rcases cases with ⟨text, op⟩ | ⟨text, op⟩
      · exact ⟨'+', text, .inl rfl, by rw [op]; rfl⟩
      · exact ⟨'-', text, .inr rfl, by rw [op]; rfl⟩
    obtain ⟨s, text, isSign, readSign⟩ := signs
    have chars : (Factor.code ⟨some sign, x⟩).toList = s :: c :: cs := by
      change (sign.text ++ x.code).toList = _
      rw [String.toList_append, text, code]
      rfl
    rw [Reads, chars, pieces_sign isSign alphanumeric, ← code, cut, Option.map_some,
      Option.bind_some, chain, readSign, Option.bind_some, chain, isOperand]
    rfl

theorem append {first second : String} {c d : Chain Binary Formula} (reads : Reads first c)
    (reads' : Reads second d) {op : List Char} {kind : Kind} {o : Binary}
    (isSymbol : (op, kind) ∈ Kind.symbols) (isBinary : binary? op = some o) :
    Reads (first ++ " " ++ String.ofList op ++ " " ++ second)
      ⟨c.first, c.rest ++ (o, d.first) :: d.rest⟩ := by
  have chars : (first ++ " " ++ String.ofList op ++ " " ++ second).toList =
      first.toList ++ ' ' :: (op ++ ' ' :: second.toList) := by
    simp
  obtain ⟨ps, cut, reads⟩ := Option.bind_eq_some_iff.mp reads
  obtain ⟨qs, cut', reads'⟩ := Option.bind_eq_some_iff.mp reads'
  rw [Reads, chars, pieces_append_blank, cut, pieces_append_blank, pieces_symbol isSymbol, cut']
  exact chain_append reads isBinary reads'

/-- A chain is read, if its items are. -/
theorem chain {ω α : Type} (kind : ω → Kind) (binary : ω → Binary)
    {words : α → List Word} {code : α → String} {inside : α → Chain Binary Formula}
    (isSymbol : ∀ op text, Word.Admissible ⟨kind op, text⟩ →
      (text.toList, kind op) ∈ Kind.symbols)
    (isBinary : ∀ op, binaryOf? (kind op) = some (binary op))
    (item : ∀ x, (∀ w ∈ words x, w.Admissible) → Reads (code x) (inside x))
    {first : α} {rest : List (Operator ω × α)}
    (admissible : ∀ w ∈ words first ++ Operator.chainWords kind words rest, w.Admissible) :
    Reads (code first ++ String.join (rest.map fun (o, x) => o.code ++ code x))
      (Chain.flatten inside ⟨first, rest.map fun (o, x) => (binary o.op, x)⟩) := by
  induction rest generalizing first with
  | nil =>
    rw [List.forall_mem_append] at admissible
    simpa [Chain.flatten] using item first admissible.1
  | cons second rest ih =>
    obtain ⟨o, x⟩ := second
    rw [Operator.chainWords_cons, List.forall_mem_append, List.forall_mem_cons] at admissible
    obtain ⟨ofFirst, ofOperator, ofRest⟩ := admissible
    have symbol := isSymbol _ _ ofOperator
    have between := (binary?_of_mem_symbols symbol).trans (isBinary o.op)
    have whole := (item first ofFirst).append (ih ofRest) symbol between
    simpa [Operator.code, String.append_assoc, Chain.flatten] using whole

theorem term (t : Term) (admissible : ∀ w ∈ t.words, w.Admissible) :
    Reads t.code (t.chain.map Factor.formula) := by
  rw [← Chain.flatten_singleton]
  exact chain Kind.multiplicative Binary.multiplicative (fun _ _ isSymbol => isSymbol)
    (fun _ => rfl) factor admissible

theorem expression (e : Expression) (admissible : ∀ w ∈ e.words, w.Admissible) :
    Reads e.code (e.chain.flatten fun t => t.chain.map Factor.formula) :=
  chain Kind.additive Binary.additive (fun _ _ isSymbol => isSymbol) (fun _ => rfl) term admissible

theorem condition (c : Condition) (admissible : ∀ w ∈ c.words, w.Admissible) :
    Reads c.code (c.chain.flatten fun e => e.chain.flatten fun t => t.chain.map Factor.formula) :=
  chain Kind.comparison Binary.comparison (fun _ _ isSymbol => isSymbol) (fun _ => rfl) expression
    admissible

end Reads

/-! ## Levels -/

theorem level_of_mem_term {t : Term} : ∀ o ∈ t.chain.operators, level o = 0 := by
  intro o mem
  obtain ⟨p, isPair, rfl⟩ := List.mem_map.mp mem
  obtain ⟨q, -, rfl⟩ := List.mem_map.mp isPair
  rfl

theorem level_of_mem_expression {e : Expression} : ∀ o ∈ e.chain.operators, level o = 1 := by
  intro o mem
  obtain ⟨p, isPair, rfl⟩ := List.mem_map.mp mem
  obtain ⟨q, -, rfl⟩ := List.mem_map.mp isPair
  rfl

theorem level_of_mem_condition {c : Condition} :
    ∀ o ∈ c.chain.operators, level o = 2 ∨ level o = 3 := by
  intro o mem
  obtain ⟨p, isPair, rfl⟩ := List.mem_map.mp mem
  obtain ⟨q, -, rfl⟩ := List.mem_map.mp isPair
  change (if q.1.op.isEquality then 3 else 2) = 2 ∨ (if q.1.op.isEquality then 3 else 2) = 3
  split
  · exact .inr rfl
  · exact .inl rfl

/-- Multiplications and divisions make the terms, if there is nothing of the kind between them. -/
theorem resolveLevel_terms {c : Chain Binary Term} (between : ∀ o ∈ c.operators, level o ≠ 0) :
    resolveLevel 0 (c.flatten fun t => t.chain.map Factor.formula) = c.map Term.formula := by
  refine Chain.group_flatten (fun t o mem => ?_) fun o mem => by simpa using between o mem
  rw [Chain.operators_map] at mem
  simp [level_of_mem_term o mem]

/-- Additions and subtractions make the expressions, if there is nothing of the kind between
    them. -/
theorem resolveLevel_expressions {c : Chain Binary Expression}
    (between : ∀ o ∈ c.operators, level o ≠ 1) :
    resolveLevel 1 (c.flatten fun e => e.chain.map Term.formula) = c.map Expression.formula := by
  refine Chain.group_flatten (fun e o mem => ?_) fun o mem => by simpa using between o mem
  rw [Chain.operators_map] at mem
  simp [level_of_mem_expression o mem]

/-- C reads an expression as what it says. -/
theorem read_expression {e : Expression} (admissible : ∀ w ∈ e.words, w.Admissible) :
    read e.code = some e.formula := by
  have terms : ∀ o ∈ e.chain.operators, level o ≠ 0 := by
    intro o mem
    simp [level_of_mem_expression o mem]
  have sums : ∀ o ∈ (e.chain.map Term.formula).operators, (level o == 1) = true := by
    intro o mem
    rw [Chain.operators_map] at mem
    simp [level_of_mem_expression o mem]
  have whole : resolveLevel 1 (e.chain.map Term.formula) = ⟨e.formula, []⟩ :=
    Chain.group_of_all sums
  have reads : (pieces e.code.toList).bind CReading.chain = some _ := Reads.expression e admissible
  rw [read, reads, Option.map_some, resolve, resolveLevel_terms terms, whole]
  rfl

/-- C reads a condition as comparisons of its expressions, those for equality last. -/
theorem read_condition {c : Condition} (admissible : ∀ w ∈ c.words, w.Admissible) :
    read c.code = some ((resolveLevel 2 (c.chain.map Expression.formula)).fold .binary) := by
  have terms : ∀ o ∈ (c.chain.flatten Expression.chain).operators, level o ≠ 0 := by
    intro o mem
    rcases Chain.mem_operators_flatten mem with ⟨e, inside⟩ | between
    · simp [level_of_mem_expression o inside]
    · have comparison := level_of_mem_condition o between
      omega
  have sums : ∀ o ∈ c.chain.operators, level o ≠ 1 := by
    intro o mem
    have comparison := level_of_mem_condition o mem
    omega
  -- what the third level leaves is for the last one
  have last : ∀ o ∈ (resolveLevel 2 (c.chain.map Expression.formula)).operators,
      (level o == 3) = true := by
    intro o mem
    obtain ⟨isOperator, left⟩ := Chain.of_mem_operators_group o mem
    rw [Chain.operators_map] at isOperator
    have comparison := level_of_mem_condition o isOperator
    simp only [beq_eq_false_iff_ne] at left
    simpa [left] using comparison
  have reads : (pieces c.code.toList).bind CReading.chain = some _ := Reads.condition c admissible
  rw [← Chain.flatten_flatten] at reads
  rw [read, reads, Option.map_some, resolve, resolveLevel_terms terms, Chain.map_flatten,
    resolveLevel_expressions sums]
  exact congrArg (fun c => some (Chain.first c)) (Chain.group_of_all last)

end CReading

end BasicToC
