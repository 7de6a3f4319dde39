import BasicToC.Proofs.Spelling

/-! # Lexing is longest match

The lexical rules say nothing of a scanner: skip blanks and comments, take the longest word that
stands at the front, and begin again.  `Tokenizes` and `GetsStuck` are the two ways in which this
can end.  Lexing gives the words of the first and fails in the second.

The two part company in one place on the way.  Behind digits and a point the scanner fails at once,
while by longest match the digits are a numeral, and the point is where it gets stuck.
-/

namespace BasicToC

/-! ## The rules -/

/-- What is left of a text when the blanks and comments in front of it have been skipped. -/
inductive Skips : List Char → List Char → Prop
  | stop {cs : List Char} (others : ∀ c ∈ cs.head?, c ∉ [' ', '\t', '\r', '#']) : Skips cs cs
  | blank {c : Char} {cs rest : List Char} (isBlank : c ∈ [' ', '\t', '\r'])
      (more : Skips cs rest) : Skips (c :: cs) rest
  | comment {comment cs rest : List Char} (inLine : '\n' ∉ comment)
      (toEnd : cs = [] ∨ cs.head? = some '\n') (more : Skips cs rest) :
      Skips ('#' :: (comment ++ cs)) rest

/-- The word `w` stands at the front of a text, with `rest` after it, and no word that stands there
    leaves less. -/
structure LongestMatch (cs : List Char) (w : Word) (rest : List Char) : Prop where
  stands : ∃ taken, Spells taken w ∧ cs = taken ++ rest
  longest : ∀ other v left, Spells other v → cs = other ++ left → rest.length ≤ left.length

/-- A text is used up by taking these words. -/
inductive Tokenizes : List Char → List Word → Prop
  | done {cs : List Char} (skipped : Skips cs []) : Tokenizes cs []
  | word {cs text rest : List Char} {w : Word} {ws : List Word} (skipped : Skips cs text)
      (matched : LongestMatch text w rest) (others : Tokenizes rest ws) : Tokenizes cs (w :: ws)

/-- After some words, something else than a word is left. -/
inductive GetsStuck : List Char → Prop
  | here {cs text : List Char} (skipped : Skips cs text) (nonempty : text ≠ [])
      (noWord : ∀ taken w rest, Spells taken w → text ≠ taken ++ rest) : GetsStuck cs
  | later {cs text rest : List Char} {w : Word} (skipped : Skips cs text)
      (matched : LongestMatch text w rest) (stuck : GetsStuck rest) : GetsStuck cs

/-! ## Blanks and comments -/

theorem isBlank_iff {c : Char} : isBlank c = true ↔ c ∈ [' ', '\t', '\r'] := by
  simp [isBlank, or_assoc]

theorem afterGap_of_blank {c : Char} (blank : isBlank c = true) (cs : List Char) :
    afterGap (c :: cs) = afterGap cs := by
  simp [afterGap, blank]

theorem afterGap_of_comment {comment cs : List Char} (inLine : '\n' ∉ comment)
    (toEnd : cs = [] ∨ cs.head? = some '\n') : afterGap ('#' :: (comment ++ cs)) = cs := by
  have notBlank : isBlank '#' = false := rfl
  have all : ∀ c ∈ '#' :: comment, isInLine c = true := by
    intro c mem
    rcases List.mem_cons.mp mem with rfl | mem
    · rfl
    · exact bne_iff_ne.mpr fun newline => inLine (newline ▸ mem)
  have stop : ∀ c ∈ cs.head?, isInLine c = false := by
    intro c isFirst
    rcases toEnd with rfl | newline
    · cases isFirst
    · obtain rfl : c = '\n' := by simpa [newline] using isFirst.symm
      rfl
  simp only [afterGap, List.dropWhile_cons, notBlank]
  exact (takeWhile_append_of_stop all stop).2

theorem afterGap_of_stop {cs : List Char} (others : ∀ c ∈ cs.head?, c ∉ [' ', '\t', '\r', '#']) :
    afterGap cs = cs := by
  cases cs with
  | nil => rfl
  | cons c cs =>
    have notBlank : isBlank c = false := by
      rw [← Bool.not_eq_true, isBlank_iff]
      exact fun mem => others c rfl (by simp_all)
    have noComment : c ≠ '#' := fun hash => others c rfl (by simp [hash])
    simp [afterGap, notBlank, noComment]

theorem Skips.eq_afterGap {cs rest : List Char} (skips : Skips cs rest) : rest = afterGap cs := by
  induction skips with
  | stop others => exact (afterGap_of_stop others).symm
  | blank blank more ih => rw [afterGap_of_blank (isBlank_iff.mpr blank), ih]
  | @comment comment cs rest inLine toEnd more ih =>
    -- nothing is skipped at the end of a line, so one comment is all there is
    have stop : afterGap cs = cs := by
      apply afterGap_of_stop
      rcases toEnd with rfl | newline
      · simp
      · simp [newline]
    rw [afterGap_of_comment inLine toEnd, ih, stop]

theorem skips_afterGap (cs : List Char) : Skips cs (afterGap cs) := by
  induction cs with
  | nil => exact .stop (by simp)
  | cons c cs ih =>
    by_cases blank : isBlank c = true
    · rw [afterGap_of_blank blank]
      exact .blank (isBlank_iff.mp blank) ih
    · by_cases hash : c = '#'
      · subst hash
        -- the comment goes on as long as its line does
        have inLine : '\n' ∉ cs.takeWhile isInLine := by
          intro mem
          cases List.mem_takeWhile_imp mem
        have toEnd : cs.dropWhile isInLine = [] ∨ (cs.dropWhile isInLine).head? = some '\n' := by
          cases left : cs.dropWhile isInLine with
          | nil => exact .inl rfl
          | cons d rest =>
            have stops := List.head?_dropWhile_not isInLine cs
            simp only [left, List.head?_cons] at stops
            exact .inr (by simpa [isInLine] using stops)
        have rest : Skips (cs.dropWhile isInLine) (cs.dropWhile isInLine) := by
          apply Skips.stop
          rcases toEnd with empty | newline
          · simp [empty]
          · simp [newline]
        have left := afterGap_of_comment inLine toEnd
        have skips := Skips.comment inLine toEnd rest
        rw [List.takeWhile_append_dropWhile] at left skips
        rw [left]
        exact skips
      · have others : ∀ d ∈ (c :: cs).head?, d ∉ [' ', '\t', '\r', '#'] := by
          rintro d ⟨⟩ mem
          rw [isBlank_iff] at blank
          simp_all
        rw [afterGap_of_stop others]
        exact .stop others

theorem Skips.unique {cs rest rest' : List Char} (skips : Skips cs rest)
    (skips' : Skips cs rest') : rest = rest' :=
  skips.eq_afterGap.trans skips'.eq_afterGap.symm

/-! ## Longest matches -/

theorem LongestMatch.unique {cs rest rest' : List Char} {w w' : Word}
    (matched : LongestMatch cs w rest) (matched' : LongestMatch cs w' rest') :
    w = w' ∧ rest = rest' := by
  obtain ⟨⟨taken, spells, whole⟩, longest⟩ := matched
  obtain ⟨⟨taken', spells', whole'⟩, longest'⟩ := matched'
  have lengths : rest.length = rest'.length :=
    Nat.le_antisymm (longest _ _ _ spells' whole') (longest' _ _ _ spells whole)
  obtain ⟨rfl, rfl⟩ := List.append_inj' (whole.symm.trans whole') lengths
  exact ⟨spells.unique spells', rfl⟩

theorem LongestMatch.ne_nil {cs rest : List Char} {w : Word} (matched : LongestMatch cs w rest) :
    cs ≠ [] := by
  obtain ⟨⟨taken, spells, rfl⟩, -⟩ := matched
  simp [spells.ne_nil]

/-- What the scanner reads as a word is the longest match. -/
theorem Lexeme.longestMatch {c : Char} {cs : List Char} {kind : Kind} {text : String}
    (read : (first c cs).reading = .ok (kind, text)) :
    LongestMatch (c :: cs) ⟨kind, text⟩ (first c cs).rest where
  stands := by
    have faithful := faithful_first c cs
    refine ⟨(first c cs).spelling, ?_, (first_append c cs).symm⟩
    rw [faithful.spelling read]
    exact (faithful.admissible read).spells
  longest other v left spells front := by
    have covers := (spells.covers_first front).length_le
    have lengths := congrArg List.length ((first_append c cs).trans front)
    simp only [List.length_append] at lengths
    omega

/-! ### Where the scanner fails -/

theorem Spells.isNumeral {c : Char} {cs : List Char} {w : Word} (spells : Spells (c :: cs) w)
    (digit : c.isDigit = true) : Word.IsNumeral (c :: cs) := by
  have notName : ∀ {taken}, c :: cs = taken → ¬ Word.IsName taken := by
    rintro taken rfl isName
    obtain ⟨d, ds, split, letter⟩ := isName.head
    obtain ⟨rfl, -⟩ := List.cons.inj split
    exact absurd digit (by simp [Lexeme.isDigit_of_isAlpha letter])
  generalize whole : c :: cs = taken at spells
  cases spells with
  | numeral isNumeral => exact isNumeral
  | keyword k => exact absurd k.isName_spelling (notName whole)
  | name isName => exact absurd isName (notName whole)
  | newline | string =>
    obtain ⟨rfl, -⟩ := List.cons.inj whole
    cases digit
  | symbol isSign =>
    have isSymbol := Kind.mem_symbols_of_sign? isSign
    rw [← whole] at isSymbol
    exact absurd digit (by simp [Kind.head_of_mem_symbols _ isSymbol c rfl])

/-- No word begins with a blank, with the sign of a comment or with a point. -/
theorem Spells.head_notMem {c : Char} {cs : List Char} {w : Word} (spells : Spells (c :: cs) w) :
    c ∉ [' ', '\t', '\r', '#', '.'] := by
  intro mem
  have read := congrArg Lexeme.reading (spells.first_of_boundary boundary_nil)
  have failed : (Lexeme.first c (cs ++ [])).reading = .error (.unknownCharacter c) := by
    simp only [List.mem_cons, List.not_mem_nil, or_false] at mem
    rcases mem with rfl | rfl | rfl | rfl | rfl <;>
      simp [Lexeme.first, Lexeme.symbol, Kind.symbols, Lexeme.beginsWith]
  cases failed.symm.trans read

/-- A numeral fails only for a point that no digit follows. -/
theorem Lexeme.number_of_error {cs : List Char} {problem : Problem}
    (failed : (number cs).reading = .error problem) :
    ∃ tail, cs.dropWhile Char.isDigit = '.' :: tail ∧ tail.takeWhile Char.isDigit = [] := by
  unfold number at failed
  split at failed
  · next tail left =>
    refine ⟨tail, left, ?_⟩
    by_contra some
    simp [some] at failed
  · cases failed

/-- Digits in front of such a point are the longest match. -/
theorem longestMatch_of_point {c : Char} {cs tail : List Char} (digit : c.isDigit = true)
    (left : (c :: cs).dropWhile Char.isDigit = '.' :: tail)
    (noFraction : tail.takeWhile Char.isDigit = []) :
    LongestMatch (c :: cs)
      ⟨.number, String.ofList ((c :: cs).takeWhile Char.isDigit)⟩ ('.' :: tail) := by
  have whole := List.takeWhile_append_dropWhile (p := Char.isDigit) (l := c :: cs)
  rw [left] at whole
  have digits : Word.IsDigits ((c :: cs).takeWhile Char.isDigit) :=
    ⟨by simp [digit], fun d mem => List.mem_takeWhile_imp mem⟩
  refine ⟨⟨_, .numeral (.inl digits), whole.symm⟩, ?_⟩
  intro other v left' spells front
  obtain ⟨d, ds, rfl⟩ := List.exists_cons_of_ne_nil spells.ne_nil
  obtain ⟨rfl, -⟩ := List.cons.inj front
  obtain ⟨-, all⟩ | ⟨whole', fraction, ⟨-, all⟩, isFraction, split⟩ := spells.isNumeral digit
  · -- digits alone leave the point, at least
    rw [front, List.dropWhile_append_of_pos all] at left
    rw [← left]
    exact List.length_dropWhile_le _ _
  · -- and a fraction would need a digit behind it
    rw [split, List.append_assoc, List.cons_append] at front
    have behind := (takeWhile_append_point all (fraction ++ left')).2
    rw [← front, left] at behind
    obtain rfl : tail = fraction ++ left' := (List.cons.inj behind).2
    rw [List.takeWhile_append_of_pos isFraction.2] at noFraction
    exact absurd (List.append_eq_nil_iff.mp noFraction).1 isFraction.1

/-- Where the scanner fails, longest match gets stuck: there, or at a point behind digits. -/
theorem getsStuck_of_error {text : List Char} {c : Char} {cs : List Char} {problem : Problem}
    (skipped : Skips text (c :: cs)) (failed : (Lexeme.first c cs).reading = .error problem) :
    GetsStuck text := by
  by_cases digit : c.isDigit = true
  · rw [Lexeme.first_of_digit digit] at failed
    obtain ⟨tail, left, noFraction⟩ := Lexeme.number_of_error failed
    refine .later skipped (longestMatch_of_point digit left noFraction) (.here (.stop ?_) nofun ?_)
    · simp
    · intro taken w rest spells front
      obtain ⟨d, ds, rfl⟩ := List.exists_cons_of_ne_nil spells.ne_nil
      obtain ⟨rfl, -⟩ := List.cons.inj front
      exact spells.head_notMem (by simp)
  · refine .here skipped nofun fun taken w rest spells front => ?_
    obtain isNumeral | ⟨word, read⟩ := (spells.covers_first front).reads
    · obtain ⟨d, ds, rfl, isDigit⟩ := isNumeral.head
      obtain ⟨rfl, -⟩ := List.cons.inj front
      exact digit isDigit
    · cases failed.symm.trans read

theorem Lexeme.code_of_error {c : Char} {cs : List Char} {problem : Problem}
    (failed : (first c cs).reading = .error problem) : problem.code = .illegalCharacter := by
  unfold first at failed
  split at failed
  · cases failed
  · split at failed
    · unfold number at failed
      split at failed
      · dsimp only at failed
        split at failed <;> cases failed
        rfl
      · cases failed
    · split at failed
      · cases failed
      · split at failed
        · unfold string at failed
          split at failed
          · cases failed
            rfl
          · split at failed <;> cases failed
            rfl
        · unfold symbol at failed
          split at failed
          · cases failed
          · cases failed
            split <;> rfl

/-! ## Whole texts -/

theorem Tokenizes.unique {cs : List Char} {ws ws' : List Word} (tokenizes : Tokenizes cs ws)
    (tokenizes' : Tokenizes cs ws') : ws = ws' := by
  induction tokenizes generalizing ws' with
  | done skipped =>
    cases tokenizes' with
    | done => rfl
    | word skipped' matched' =>
      exact absurd (skipped'.unique skipped) matched'.ne_nil
  | word skipped matched others ih =>
    cases tokenizes' with
    | done skipped' => exact absurd (skipped.unique skipped') matched.ne_nil
    | word skipped' matched' others' =>
      obtain rfl := skipped.unique skipped'
      obtain ⟨rfl, rfl⟩ := matched.unique matched'
      rw [ih others']

theorem Tokenizes.not_getsStuck {cs : List Char} {ws : List Word} (tokenizes : Tokenizes cs ws) :
    ¬ GetsStuck cs := by
  induction tokenizes with
  | done skipped =>
    intro stuck
    cases stuck with
    | here skipped' nonempty => exact nonempty (skipped'.unique skipped)
    | later skipped' matched => exact absurd (skipped'.unique skipped) matched.ne_nil
  | word skipped matched others ih =>
    intro stuck
    cases stuck with
    | here skipped' nonempty noWord =>
      obtain rfl := skipped.unique skipped'
      obtain ⟨⟨taken, spells, whole⟩, -⟩ := matched
      exact noWord taken _ _ spells whole
    | later skipped' matched' stuck' =>
      obtain rfl := skipped.unique skipped'
      obtain ⟨rfl, rfl⟩ := matched.unique matched'
      exact ih stuck'

/-- The scanner gives the words that the text is used up by, or fails where it gets stuck. -/
theorem TokenStream.collect_scan (place : Place) (cs : List Char) :
    match collect (scan place cs).pending with
    | .ok ts => Tokenizes cs (ts.map Token.word)
    | .error d => GetsStuck cs ∧ d.code = .illegalCharacter := by
  have skipped := skips_afterGap cs
  -- the induction follows the scanner, a gap and a lexeme at a time
  fun_induction scan place cs with
  | case1 place cs start after =>
    rw [after] at skipped
    exact .done skipped
  | case2 place cs start c tail after lexeme rest ih =>
    rw [after] at skipped
    cases read : lexeme.reading with
    | error problem =>
      have failed : lexeme.pull start = .error (problem.located
          (start.covering lexeme.spelling.length)) :=
        Lexeme.pull_eq_error_iff.mpr ⟨problem, read, rfl⟩
      simp only [failed, collect]
      exact ⟨getsStuck_of_error skipped read, Lexeme.code_of_error read⟩
    | ok word =>
      obtain ⟨kind, text⟩ := word
      have matched := Lexeme.longestMatch read
      have pulled : lexeme.pull start =
          .ok ⟨kind, text, start.covering lexeme.spelling.length⟩ :=
        Lexeme.pull_eq_ok_iff.mpr ⟨read, rfl⟩
      have others := ih (skips_afterGap _)
      simp only [pulled, collect]
      cases collected : collect rest.pending with
      | ok ts =>
        rw [collected] at others
        exact .word skipped matched others
      | error d =>
        rw [collected] at others
        exact ⟨.later skipped matched others.1, others.2⟩

/-- Without a failure lexing gives the words by longest match, and the end after them. -/
theorem lex_cases (source : String) :
    (∃ ts words, lex source = .ok ts ∧ ts.map Token.word = words ++ [.eof] ∧
      Tokenizes source.toList words) ∨
    ∃ d, lex source = .error d ∧ d.code = .illegalCharacter ∧ GetsStuck source.toList := by
  have scanned := TokenStream.collect_scan .start source.toList
  unfold lex TokenStream.tokens TokenStream.ofText
  cases collected : TokenStream.collect (TokenStream.scan .start source.toList).pending with
  | ok ts =>
    rw [collected] at scanned
    exact .inl ⟨_, ts.map Token.word, rfl, by simp; rfl, scanned⟩
  | error d =>
    rw [collected] at scanned
    exact .inr ⟨d, rfl, scanned.2, scanned.1⟩

/-- Lexing is longest match.  A text is used up by some words exactly if lexing gives them, with the
    end after them; and it gets stuck exactly if lexing fails, which is always for an illegal
    character. -/
theorem lex_eq_longest_match (source : String) :
    (∀ words, Tokenizes source.toList words ↔
      ∃ ts, lex source = .ok ts ∧ ts.map Token.word = words ++ [.eof]) ∧
    ((∃ words, Tokenizes source.toList words) ↔ ∃ ts, lex source = .ok ts) ∧
    (GetsStuck source.toList ↔ ∃ d, lex source = .error d) ∧
    (GetsStuck source.toList ↔ ∃ d, lex source = .error d ∧ d.code = .illegalCharacter) := by
  obtain ⟨ts, words, lexed, isWords, tokenizes⟩ | ⟨d, failed, code, stuck⟩ := lex_cases source
  · rw [lexed]
    have notStuck := tokenizes.not_getsStuck
    refine ⟨fun words' => ⟨fun tokenizes' => ?_, ?_⟩, ?_, ?_, ?_⟩
    · rw [tokenizes'.unique tokenizes]
      exact ⟨ts, rfl, isWords⟩
    · rintro ⟨ts', ⟨⟩, isWords'⟩
      rw [isWords, List.append_cancel_right_eq] at isWords'
      exact isWords' ▸ tokenizes
    · exact iff_of_true ⟨words, tokenizes⟩ ⟨ts, rfl⟩
    · exact iff_of_false notStuck (by simp)
    · exact iff_of_false notStuck (by simp)
  · rw [failed]
    have noWords : ∀ words, ¬ Tokenizes source.toList words :=
      fun words tokenizes => tokenizes.not_getsStuck stuck
    refine ⟨fun words => iff_of_false (noWords words) (by simp), ?_, ?_, ?_⟩
    · exact iff_of_false (by simpa using noWords) (by simp)
    · exact iff_of_true stuck ⟨d, rfl⟩
    · exact iff_of_true stuck ⟨d, rfl, code⟩

end BasicToC
