import BasicToC.Proofs.Vocabulary

/-! # How words are written

`Spells` is the lexical grammar, a rule for each class of words.  It does not say how far a word
goes where another character could follow.  The scanner looks at the first character only to find
the class, so for every class there is one lemma about what it takes from a text that begins with
such a word: at least that word, and exactly that word in front of a `Boundary`.
-/

namespace BasicToC

/-- The kinds that are written with signs of their own, and their signs. -/
def Kind.sign? : Kind → Option String
  | .becomes => some "="
  | .additive .plus => some "+"
  | .additive .minus => some "-"
  | .multiplicative .times => some "*"
  | .multiplicative .over => some "/"
  | .comparison .equal => some "=="
  | .comparison .notEqual => some "!="
  | .comparison .less => some "<"
  | .comparison .lessOrEqual => some "<="
  | .comparison .greater => some ">"
  | .comparison .greaterOrEqual => some ">="
  | _ => none

/-- The characters are a way to write the word. -/
inductive Spells : List Char → Word → Prop
  | newline : Spells ['\n'] ⟨.newline, "\n"⟩
  | numeral {cs : List Char} (isNumeral : Word.IsNumeral cs) :
      Spells cs ⟨.number, String.ofList cs⟩
  | keyword (k : Keyword) : Spells k.spelling.toList ⟨.keyword k, k.spelling⟩
  | name {cs : List Char} (isName : Word.IsName cs)
      (free : ∀ k : Keyword, String.ofList cs ≠ k.spelling) :
      Spells cs ⟨.ident, String.ofList cs⟩
  | string {cs : List Char} (quotable : ∀ c ∈ cs, c ∉ ['"', '\r', '\n', '\t', '\\', '%']) :
      Spells ('"' :: (cs ++ ['"'])) ⟨.string, String.ofList cs⟩
  | symbol {kind : Kind} {sign : String} (isSign : kind.sign? = some sign) :
      Spells sign.toList ⟨kind, sign⟩

/-! ## Words that a text can hold -/

theorem Kind.mem_symbols_iff {cs : List Char} {kind : Kind} :
    (cs, kind) ∈ Kind.symbols ↔ kind.sign? = some (String.ofList cs) := by
  have sign : ∀ word : String, word = String.ofList cs ↔ cs = word.toList := by
    intro word
    rw [← String.toList_inj, String.toList_ofList, eq_comm]
  cases kind with
  | additive op | multiplicative op | comparison op =>
    cases op <;> simp [Kind.symbols, Kind.sign?, sign]
  | becomes => simp [Kind.symbols, Kind.sign?, sign]
  | _ => simp [Kind.symbols, Kind.sign?]

theorem Kind.mem_symbols_of_sign? {kind : Kind} {sign : String} (isSign : kind.sign? = some sign) :
    (sign.toList, kind) ∈ Kind.symbols := by
  rw [Kind.mem_symbols_iff, String.ofList_toList, isSign]

theorem Lexeme.isInString_iff {c : Char} :
    Lexeme.isInString c = true ↔ c ∉ ['"', '\r', '\n', '\t', '\\', '%'] := by
  simp [Lexeme.isInString, and_assoc]

/-- A word that a text can hold is spelled as it is written. -/
theorem Word.Admissible.spells {w : Word} (admissible : w.Admissible) :
    Spells w.spelling.toList w := by
  obtain ⟨kind, text⟩ := w
  cases kind with
  | eof => exact admissible.elim
  | newline =>
    obtain rfl : text = "\n" := admissible
    exact .newline
  | number =>
    have numeral := Spells.numeral (show Word.IsNumeral text.toList from admissible)
    rw [String.ofList_toList] at numeral
    exact numeral
  | ident =>
    obtain ⟨isName, notKeyword⟩ :
      Word.IsName text.toList ∧ Keyword.ofSpelling? text = none := admissible
    have free : ∀ k : Keyword, String.ofList text.toList ≠ k.spelling := by
      intro k same
      rw [String.ofList_toList] at same
      exact absurd (notKeyword.symm.trans (Keyword.ofSpelling?_eq_some_iff.mpr same)) nofun
    have name := Spells.name isName free
    rw [String.ofList_toList] at name
    exact name
  | string =>
    have quotable : ∀ c ∈ text.toList, c ∉ ['"', '\r', '\n', '\t', '\\', '%'] :=
      fun c mem => Lexeme.isInString_iff.mp (admissible c mem)
    have string := Spells.string quotable
    rw [String.ofList_toList] at string
    simpa [Word.spelling] using string
  | keyword k =>
    obtain rfl : text = k.spelling := admissible
    exact .keyword k
  | becomes | additive | multiplicative | comparison =>
    have isSign := Kind.mem_symbols_iff.mp admissible
    rw [String.ofList_toList] at isSign
    exact .symbol isSign

/-! ## The class of a word is known from its first character -/

theorem Keyword.isName_spelling (k : Keyword) : Word.IsName k.spelling.toList := by
  cases k <;> exact ⟨_, _, rfl, by decide, by simp; decide⟩

/-- A symbol is one character, or one character and a sign of equality. -/
theorem Kind.tail_of_mem_symbols :
    ∀ s ∈ Kind.symbols, s.1 ≠ [] ∧ (s.1.tail = [] ∨ s.1.tail = ['=']) := by
  decide

/-- A symbol begins with a character that begins nothing else. -/
theorem Kind.head_of_mem_symbols : ∀ s ∈ Kind.symbols, ∀ c ∈ s.1.head?,
    c ≠ '\n' ∧ c.isDigit = false ∧ c.isAlpha = false ∧ c ≠ '"' := by
  have each : ∀ s ∈ Kind.symbols, (s.1.head?.all fun c =>
      c ≠ '\n' ∧ c.isDigit = false ∧ c.isAlpha = false ∧ c ≠ '"') = true := by decide
  intro s mem c isFirst
  have ofFirst := each s mem
  rw [Option.mem_def.mp isFirst, Option.all_some, decide_eq_true_eq] at ofFirst
  exact ofFirst

theorem Word.IsDigits.head {cs : List Char} (digits : Word.IsDigits cs) :
    ∃ c rest, cs = c :: rest ∧ c.isDigit = true := by
  obtain ⟨c, rest, rfl⟩ := List.exists_cons_of_ne_nil digits.1
  exact ⟨c, rest, rfl, digits.2 c (by simp)⟩

theorem Word.IsNumeral.head {cs : List Char} (isNumeral : Word.IsNumeral cs) :
    ∃ c rest, cs = c :: rest ∧ c.isDigit = true := by
  obtain digits | ⟨whole, fraction, digits, -, rfl⟩ := isNumeral
  · exact digits.head
  · obtain ⟨c, rest, rfl, digit⟩ := digits.head
    exact ⟨c, rest ++ '.' :: fraction, rfl, digit⟩

theorem Word.IsName.head {cs : List Char} (isName : Word.IsName cs) :
    ∃ c rest, cs = c :: rest ∧ c.isAlpha = true := by
  obtain ⟨c, rest, split, letter, -⟩ := isName
  exact ⟨c, rest, split, letter⟩

namespace Lexeme

theorem isDigit_of_isAlpha {c : Char} (letter : c.isAlpha = true) : c.isDigit = false := by
  -- the digits come before the letters
  have above : 'A'.val ≤ c.val := by
    rcases Bool.or_eq_true_iff.mp letter with upper | lower
    · exact (of_decide_eq_true upper).1
    · have fromSmall : 'a'.val ≤ c.val := of_decide_eq_true (Bool.and_eq_true_iff.mp lower).1
      exact UInt32.le_trans (by decide) fromSmall
  rw [← Bool.not_eq_true]
  intro digit
  have below : c.val ≤ '9'.val := of_decide_eq_true (Bool.and_eq_true_iff.mp digit).2
  exact absurd (UInt32.le_trans above below) (by decide)

theorem first_of_digit {c : Char} (digit : c.isDigit = true) (cs : List Char) :
    first c cs = number (c :: cs) := by
  have notNewline : c ≠ '\n' := by
    rintro rfl
    cases digit
  simp [first, notNewline, digit]

theorem first_of_letter {c : Char} (letter : c.isAlpha = true) (cs : List Char) :
    first c cs = word (c :: cs) := by
  have notNewline : c ≠ '\n' := by
    rintro rfl
    cases letter
  simp [first, notNewline, isDigit_of_isAlpha letter, letter]

theorem first_of_quote (cs : List Char) : first '"' cs = string cs := rfl

theorem first_of_symbol {c : Char} {rest : List Char} {kind : Kind}
    (isSymbol : (c :: rest, kind) ∈ Kind.symbols) (cs : List Char) :
    first c cs = symbol c cs := by
  obtain ⟨notNewline, notDigit, notLetter, notQuote⟩ :=
    Kind.head_of_mem_symbols _ isSymbol c rfl
  simp [first, notNewline, notDigit, notLetter, notQuote]

end Lexeme

/-! ## What the scanner takes -/

/-- Nothing, or a character that goes on with no word. -/
def Boundary (cs : List Char) : Prop :=
  ∀ c ∈ cs.head?, c.isAlphanum = false ∧ c ≠ '.' ∧ c ≠ '='

theorem boundary_nil : Boundary [] := nofun

theorem takeWhile_append_of_stop {p : Char → Bool} {cs : List Char} (all : ∀ c ∈ cs, p c = true)
    {rest : List Char} (stop : ∀ c ∈ rest.head?, p c = false) :
    (cs ++ rest).takeWhile p = cs ∧ (cs ++ rest).dropWhile p = rest := by
  rw [List.takeWhile_append_of_pos all, List.dropWhile_append_of_pos all]
  cases rest with
  | nil => simp
  | cons c rest => simp [stop c rfl]

theorem takeWhile_append_point {digits : List Char} (all : ∀ c ∈ digits, c.isDigit = true)
    (rest : List Char) :
    (digits ++ '.' :: rest).takeWhile Char.isDigit = digits ∧
      (digits ++ '.' :: rest).dropWhile Char.isDigit = '.' :: rest := by
  apply takeWhile_append_of_stop all
  simp

namespace Lexeme

/-- What the scanner makes of a text that begins with `taken`: it takes no less, and fails only
    behind a numeral. -/
structure Covers (lexeme : Lexeme) (taken : List Char) : Prop where
  length_le : taken.length ≤ lexeme.spelling.length
  reads : Word.IsNumeral taken ∨ ∃ word, lexeme.reading = .ok word

theorem covers_number {taken : List Char} (isNumeral : Word.IsNumeral taken)
    (rest : List Char) : (number (taken ++ rest)).Covers taken := by
  refine ⟨?_, .inl isNumeral⟩
  obtain ⟨-, digits⟩ | ⟨whole, fraction, ⟨-, digits⟩, ⟨-, digits'⟩, rfl⟩ := isNumeral
  · unfold number
    rw [List.takeWhile_append_of_pos digits]
    split <;> simp
  · have split : whole ++ '.' :: fraction ++ rest = whole ++ '.' :: (fraction ++ rest) := by simp
    obtain ⟨taken, left⟩ := takeWhile_append_point digits (fraction ++ rest)
    unfold number
    rw [split, taken, left]
    simp [List.takeWhile_append_of_pos digits']

theorem number_of_boundary {taken : List Char} (isNumeral : Word.IsNumeral taken)
    {rest : List Char} (boundary : Boundary rest) :
    number (taken ++ rest) = ⟨taken, rest, .ok (.number, String.ofList taken)⟩ := by
  have noDigit : ∀ c ∈ rest.head?, c.isDigit = false := by
    intro c isFirst
    have := (boundary c isFirst).1
    simp_all [Char.isAlphanum]
  obtain ⟨-, digits⟩ | ⟨whole, fraction, ⟨-, digits⟩, ⟨some, digits'⟩, rfl⟩ := isNumeral
  · obtain ⟨taken, left⟩ := takeWhile_append_of_stop digits noDigit
    unfold number
    rw [taken, left]
    split
    · next tail => exact absurd rfl (boundary '.' rfl).2.1
    · rfl
  · have split : whole ++ '.' :: fraction ++ rest = whole ++ '.' :: (fraction ++ rest) := by simp
    obtain ⟨taken, left⟩ := takeWhile_append_point digits (fraction ++ rest)
    obtain ⟨taken', left'⟩ := takeWhile_append_of_stop digits' noDigit
    unfold number
    rw [split, taken, left]
    simp [taken', left', some]

theorem covers_word {taken : List Char} (isName : Word.IsName taken) (rest : List Char) :
    (word (taken ++ rest)).Covers taken where
  length_le := by simp [word, List.takeWhile_append_of_pos isName.alphanumeric]
  reads := .inr ⟨_, rfl⟩

theorem word_of_boundary {taken : List Char} (isName : Word.IsName taken) {rest : List Char}
    (boundary : Boundary rest) :
    word (taken ++ rest) =
      ⟨taken, rest, .ok (wordKind (String.ofList taken), String.ofList taken)⟩ := by
  obtain ⟨taken', left⟩ := takeWhile_append_of_stop isName.alphanumeric
    fun c isFirst => (boundary c isFirst).1
  simp only [word, taken', left]

/-- A string goes up to the next quote, whatever comes then. -/
theorem string_of_quotable {cs : List Char} (quotable : ∀ c ∈ cs, isInString c = true)
    (rest : List Char) :
    string (cs ++ '"' :: rest) = ⟨'"' :: (cs ++ ['"']), rest, .ok (.string, String.ofList cs)⟩ := by
  have stop : ∀ c ∈ ('"' :: rest).head?, isInString c = false := by simp [isInString]
  obtain ⟨taken, left⟩ := takeWhile_append_of_stop quotable stop
  unfold string
  rw [taken, left]
  simp

/-- Where a symbol stands, a symbol is found that is no shorter. -/
theorem exists_symbol {sign : List Char} {kind : Kind} (isSymbol : (sign, kind) ∈ Kind.symbols)
    {c : Char} {cs rest : List Char} (front : c :: cs = sign ++ rest) :
    ∃ sign' kind' rest', (sign', kind') ∈ Kind.symbols ∧ c :: cs = sign' ++ rest' ∧
      sign.length ≤ sign'.length ∧
      symbol c cs = ⟨sign', rest', .ok (kind', String.ofList sign')⟩ := by
  have begins : beginsWith (c :: cs) sign = true := by simp [beginsWith, front]
  cases found : Kind.symbols.find? (beginsWith (c :: cs) ·.1) with
  | none => exact absurd begins (by simpa using List.find?_eq_none.mp found _ isSymbol)
  | some s =>
    obtain ⟨sign', kind'⟩ := s
    obtain ⟨begins', earlier, later, symbols, skipped⟩ := List.find?_eq_some_iff_append.mp found
    have whole : c :: cs = sign' ++ (c :: cs).drop sign'.length := by
      have taken : (c :: cs).take sign'.length = sign' := by simpa [beginsWith] using begins'
      calc c :: cs = (c :: cs).take sign'.length ++ (c :: cs).drop sign'.length :=
            (List.take_append_drop _ _).symm
        _ = sign' ++ (c :: cs).drop sign'.length := by rw [taken]
    refine ⟨sign', kind', _, List.mem_of_find?_eq_some found, whole, ?_, ?_⟩
    · -- longer symbols stand in front of shorter ones
      have sorted : Kind.symbols.Pairwise fun s t => t.1.length ≤ s.1.length := by decide
      rw [symbols, List.pairwise_append, List.pairwise_cons] at sorted
      rw [symbols] at isSymbol
      rcases List.mem_append.mp isSymbol with isEarlier | isLater
      · exact absurd begins (by simpa using skipped _ isEarlier)
      · rcases List.mem_cons.mp isLater with same | isLater
        · cases same
          exact Nat.le_refl _
        · exact sorted.2.1.1 _ isLater
    · unfold symbol
      rw [found]

theorem symbol_of_boundary {c : Char} {cs : List Char} {kind : Kind}
    (isSymbol : (c :: cs, kind) ∈ Kind.symbols) {rest : List Char} (boundary : Boundary rest) :
    symbol c (cs ++ rest) = ⟨c :: cs, rest, .ok (kind, String.ofList (c :: cs))⟩ := by
  have stands : c :: (cs ++ rest) = c :: cs ++ rest := rfl
  obtain ⟨sign', kind', rest', isSymbol', front, longer, found⟩ := exists_symbol isSymbol stands
  obtain ⟨nonempty, tail'⟩ := Kind.tail_of_mem_symbols _ isSymbol'
  obtain ⟨-, tail⟩ := Kind.tail_of_mem_symbols _ isSymbol
  obtain ⟨c', cs', rfl⟩ := List.exists_cons_of_ne_nil nonempty
  -- the symbol that is found can only have a sign of equality more, and no boundary has one
  have same : c :: cs = c' :: cs' := by
    simp only [List.tail_cons] at tail tail'
    rcases tail with rfl | rfl <;> rcases tail' with rfl | rfl
    · simpa using (List.cons.inj front).1
    · have isRest : rest = '=' :: rest' := (List.cons.inj front).2
      exact absurd rfl (boundary '=' (by simp [isRest])).2.2
    · simp at longer
    · simpa using (List.cons.inj front).1
  have unique : ∀ s ∈ Kind.symbols, ∀ t ∈ Kind.symbols, s.1 = t.1 → s = t := by decide
  obtain ⟨rfl, rfl⟩ := List.cons.inj same
  obtain rfl : kind = kind' := congrArg Prod.snd (unique _ isSymbol _ isSymbol' rfl)
  obtain rfl : rest = rest' := by simpa using front
  exact found

end Lexeme

/-! ## All classes together -/

namespace Spells

/-- The scanner takes no less than a word that stands at the front of a text. -/
theorem covers_first {taken rest cs : List Char} {w : Word} {c : Char} (spells : Spells taken w)
    (front : c :: cs = taken ++ rest) : (Lexeme.first c cs).Covers taken := by
  have name : ∀ {taken}, Word.IsName taken → c :: cs = taken ++ rest →
      (Lexeme.first c cs).Covers taken := by
    intro taken isName front
    obtain ⟨d, ds, rfl, letter⟩ := isName.head
    obtain ⟨rfl, -⟩ := List.cons.inj front
    rw [Lexeme.first_of_letter letter, front]
    exact Lexeme.covers_word isName rest
  cases spells with
  | newline =>
    obtain ⟨rfl, -⟩ := List.cons.inj front
    exact ⟨Nat.le_refl 1, .inr ⟨_, rfl⟩⟩
  | numeral isNumeral =>
    obtain ⟨d, ds, rfl, digit⟩ := isNumeral.head
    obtain ⟨rfl, -⟩ := List.cons.inj front
    rw [Lexeme.first_of_digit digit, front]
    exact Lexeme.covers_number isNumeral rest
  | keyword k => exact name k.isName_spelling front
  | name isName => exact name isName front
  | @string body quotable =>
    obtain ⟨rfl, isRest⟩ := List.cons.inj front
    have isRest : cs = body ++ '"' :: rest := by simpa using isRest
    rw [Lexeme.first_of_quote, isRest,
      Lexeme.string_of_quotable fun c mem => Lexeme.isInString_iff.mpr (quotable c mem)]
    exact ⟨Nat.le_refl _, .inr ⟨_, rfl⟩⟩
  | @symbol kind sign isSign =>
    have isSymbol := Kind.mem_symbols_of_sign? isSign
    obtain ⟨sign', kind', rest', -, -, longer, found⟩ := Lexeme.exists_symbol isSymbol front
    obtain ⟨d, ds, split⟩ := List.exists_cons_of_ne_nil (Kind.tail_of_mem_symbols _ isSymbol).1
    dsimp only at split
    rw [split] at isSymbol front
    obtain ⟨rfl, -⟩ := List.cons.inj front
    rw [Lexeme.first_of_symbol isSymbol, found]
    exact ⟨longer, .inr ⟨_, rfl⟩⟩

/-- In front of a boundary the scanner takes exactly the word. -/
theorem first_of_boundary {c : Char} {cs rest : List Char} {w : Word} (spells : Spells (c :: cs) w)
    (boundary : Boundary rest) :
    Lexeme.first c (cs ++ rest) = ⟨c :: cs, rest, .ok (w.kind, w.text)⟩ := by
  -- keywords and names are told apart only after the whole word has been taken
  have name : Word.IsName (c :: cs) →
      Lexeme.first c (cs ++ rest) = ⟨c :: cs, rest,
        .ok (Lexeme.wordKind (String.ofList (c :: cs)), String.ofList (c :: cs))⟩ := by
    intro isName
    obtain ⟨_, _, split, letter⟩ := isName.head
    obtain ⟨rfl, rfl⟩ := List.cons.inj split
    rw [Lexeme.first_of_letter letter]
    exact Lexeme.word_of_boundary isName boundary
  generalize whole : c :: cs = taken at spells name
  cases spells with
  | newline =>
    obtain ⟨rfl, rfl⟩ := List.cons.inj whole
    rfl
  | numeral isNumeral =>
    obtain ⟨_, _, rfl, digit⟩ := isNumeral.head
    obtain ⟨rfl, rfl⟩ := List.cons.inj whole
    rw [Lexeme.first_of_digit digit]
    exact Lexeme.number_of_boundary isNumeral boundary
  | keyword k =>
    have isKeyword : Keyword.ofSpelling? k.spelling = some k :=
      Keyword.ofSpelling?_eq_some_iff.mpr rfl
    rw [name k.isName_spelling, String.ofList_toList, Lexeme.wordKind, isKeyword]
  | name isName free =>
    have notKeyword : Keyword.ofSpelling? (String.ofList taken) = none := by
      rw [Option.eq_none_iff_forall_ne_some]
      exact fun k isKeyword => free k (Keyword.ofSpelling?_eq_some_iff.mp isKeyword)
    rw [name isName, Lexeme.wordKind, notKeyword]
  | string quotable =>
    obtain ⟨rfl, rfl⟩ := List.cons.inj whole
    rw [Lexeme.first_of_quote, List.append_assoc, List.singleton_append,
      Lexeme.string_of_quotable fun c mem => Lexeme.isInString_iff.mpr (quotable c mem)]
  | @symbol kind sign isSign =>
    have isSymbol := Kind.mem_symbols_of_sign? isSign
    rw [← whole] at isSymbol
    rw [Lexeme.first_of_symbol isSymbol, Lexeme.symbol_of_boundary isSymbol boundary, whole,
      String.ofList_toList]

theorem ne_nil {cs : List Char} {w : Word} (spells : Spells cs w) : cs ≠ [] := by
  cases spells with
  | newline | string => simp
  | numeral isNumeral =>
    obtain ⟨c, rest, rfl, -⟩ := isNumeral.head
    simp
  | keyword k =>
    obtain ⟨c, rest, split, -⟩ := k.isName_spelling.head
    simp [split]
  | name isName =>
    obtain ⟨c, rest, rfl, -⟩ := isName.head
    simp
  | symbol isSign => exact (Kind.tail_of_mem_symbols _ (Kind.mem_symbols_of_sign? isSign)).1

theorem unique {cs : List Char} {v w : Word} (spells : Spells cs v) (spells' : Spells cs w) :
    v = w := by
  obtain ⟨c, cs, rfl⟩ := List.exists_cons_of_ne_nil spells.ne_nil
  -- with nothing behind them both are what the scanner reads
  have read := (spells.first_of_boundary boundary_nil).symm.trans
    (spells'.first_of_boundary boundary_nil)
  injection read with _ _ same
  cases v
  cases w
  simpa using same

end Spells

end BasicToC
