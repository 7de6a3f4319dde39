import Mathlib.Data.List.DropRight
import BasicToC.Proofs.Vocabulary

/-! # Pulling takes a text apart

Each pull takes a gap and a lexeme from the front of a text, whether it gives a token or fails, and
the next pull goes on behind them.  So the text is what the pulls have taken, in order, and what
they have left.  Positions are counted from the characters that were taken before.

The step is `TokenStream.next_scan`.  It is said of a text behind the characters `before`, since a
place is only known from what comes before it.
-/

namespace BasicToC

/-! ## Places by counting -/

/-- The place behind some characters: lines are ended by line feeds, and the column counts the
    characters since the last one. -/
theorem Place.after_start (cs : List Char) :
    Place.start.after cs = ⟨1 + cs.count '\n', (cs.rtakeWhile isInLine).length⟩ := by
  induction cs using List.reverseRecOn with
  | nil => rfl
  | append_singleton cs c ih =>
    rw [Place.after_append, ih, Place.after_cons, Place.after_nil, Place.next]
    by_cases newline : c = '\n'
    · simp [newline, isInLine, Nat.add_assoc]
    · simp [newline, isInLine, List.rtakeWhile_concat]

/-! ## Gaps -/

/-- Blanks, and comments that go up to the end of their line, in front of `following`. -/
inductive IsGap (following : List Char) : List Char → Prop
  | none : IsGap following []
  | blank {c : Char} {cs : List Char} (isBlank : isBlank c) (others : IsGap following cs) :
      IsGap following (c :: cs)
  | comment {cs : List Char} (inLine : ∀ c ∈ cs, c ≠ '\n')
      (toEnd : following = [] ∨ following.head? = some '\n') : IsGap following ('#' :: cs)

theorem IsGap.append_blanks {following blanks cs : List Char} (areBlank : ∀ c ∈ blanks, isBlank c)
    (isGap : IsGap following cs) : IsGap following (blanks ++ cs) := by
  induction blanks with
  | nil => exact isGap
  | cons c blanks ih =>
    exact .blank (areBlank c (by simp)) (ih fun d mem => areBlank d (by simp [mem]))

/-- What the scanner skips is a gap in front of what it goes on with. -/
theorem isGap_gap (cs : List Char) : IsGap (afterGap cs) (gap cs) := by
  apply IsGap.append_blanks fun c mem => List.mem_takeWhile_imp mem
  unfold comment afterGap
  cases rest : cs.dropWhile isBlank with
  | nil => exact .none
  | cons c tail =>
    by_cases hash : c = '#'
    · subst hash
      have inLine : isInLine '#' = true := rfl
      simp only [List.head?_cons, if_true, List.takeWhile_cons, List.dropWhile_cons, inLine]
      apply IsGap.comment
      · intro d mem
        simpa [isInLine] using List.mem_takeWhile_imp mem
      · cases after : tail.dropWhile isInLine with
        | nil => exact Or.inl rfl
        | cons d rest =>
          have stops := List.head?_dropWhile_not isInLine tail
          simp only [after, List.head?_cons] at stops
          exact Or.inr (by simpa [isInLine] using stops)
    · simp only [List.head?_cons, Option.some.injEq, hash, if_false]
      exact .none

/-! ## Pieces -/

/-- What one pull takes from a text, and what it gives for it. -/
structure Piece where
  gap : List Char
  lexeme : List Char
  item : Except Diagnostic Token

namespace Piece

/-- The characters of a piece. -/
def chars (p : Piece) : List Char :=
  p.gap ++ p.lexeme

/-- The line that is given for the lexeme. -/
def line (p : Piece) : Option Nat :=
  match p.item with
  | .ok t => some t.position.line
  | .error d => d.line

/-- The columns that are given for the lexeme. -/
def column (p : Piece) : Span :=
  match p.item with
  | .ok t => t.position.column
  | .error d => d.column

/-- The piece has been cut out of a text between `before` and `after` in the right way. -/
structure Fits (p : Piece) (before after : List Char) : Prop where
  isGap : IsGap (p.lexeme ++ after) p.gap
  /-- A token is written as its lexeme says.  The end is not written at all, and it is only given
      when nothing is left. -/
  token : ∀ t, p.item = .ok t →
    p.lexeme = t.word.spelling.toList ∧ (t.kind = .eof → p.lexeme = [] ∧ after = [])
  failure : ∀ d, p.item = .error d → p.lexeme ≠ []
  line : p.line = some (1 + (before ++ p.gap).count '\n')
  start : p.column.start = ((before ++ p.gap).rtakeWhile isInLine).length
  stop : p.column.stop = p.column.start + p.lexeme.length

/-- The position of the lexeme is one that begins at the place behind the gap. -/
theorem fits_of_covering {p : Piece} {before after : List Char}
    (isGap : IsGap (p.lexeme ++ after) p.gap)
    (token : ∀ t, p.item = .ok t →
      p.lexeme = t.word.spelling.toList ∧ (t.kind = .eof → p.lexeme = [] ∧ after = []))
    (failure : ∀ d, p.item = .error d → p.lexeme ≠ [])
    (line : p.line = some ((Place.start.after (before ++ p.gap)).covering p.lexeme.length).line)
    (column : p.column = ((Place.start.after (before ++ p.gap)).covering p.lexeme.length).column) :
    p.Fits before after := by
  rw [Place.after_start] at line column
  exact ⟨isGap, token, failure, line, by rw [column]; rfl, by rw [column]; rfl⟩

end Piece

/-- A lexeme that is read faithfully makes a piece that fits. -/
theorem Lexeme.Faithful.fits {lexeme : Lexeme} (faithful : lexeme.Faithful)
    (nonempty : lexeme.spelling ≠ []) {before gap after : List Char}
    (isGap : IsGap (lexeme.spelling ++ after) gap) :
    Piece.Fits ⟨gap, lexeme.spelling, lexeme.pull (Place.start.after (before ++ gap))⟩
      before after := by
  cases read : lexeme.reading with
  | ok word =>
    obtain ⟨kind, text⟩ := word
    apply Piece.fits_of_covering isGap _ (fun d given => nonempty)
    · simp only [Piece.line, Lexeme.pull, read]
    · simp only [Piece.column, Lexeme.pull, read]
    · intro t given
      simp only [Lexeme.pull, read, Except.ok.injEq] at given
      subst given
      refine ⟨faithful.spelling read, fun isEnd => ?_⟩
      -- no text can hold the end as a word
      have admissible := faithful.admissible read
      cases isEnd
      exact admissible.elim
  | error problem =>
    apply Piece.fits_of_covering isGap _ (fun d given => nonempty)
    · simp only [Piece.line, Lexeme.pull, read, Problem.located]
    · simp only [Piece.column, Lexeme.pull, read, Problem.located]
    · intro t given
      simp [Lexeme.pull, read] at given

namespace TokenStream

/-- The stream that is left after `n` pulls. -/
def afterPulls : Nat → TokenStream → TokenStream
  | 0, s => s
  | n + 1, s => afterPulls n s.next.2

/-- One pull takes one piece off the text and leaves the rest of it. -/
theorem next_scan (before cs : List Char) :
    ∃ (p : Piece) (rest : List Char), cs = p.chars ++ rest ∧ p.Fits before rest ∧
      (scan (Place.start.after before) cs).next =
        (p.item, scan (Place.start.after (before ++ p.chars)) rest) := by
  have whole := gap_append_afterGap cs
  have isGap := isGap_gap cs
  have place : (Place.start.after before).after (gap cs) = Place.start.after (before ++ gap cs) :=
    (Place.after_append _ _ _).symm
  cases after : afterGap cs with
  | nil =>
    rw [after] at whole isGap
    refine ⟨⟨gap cs, [], .ok (.eof (Place.start.after (before ++ gap cs)))⟩, [], ?_, ?_, ?_⟩
    · simpa [Piece.chars] using whole.symm
    · apply Piece.fits_of_covering isGap
      · intro t given
        cases given
        exact ⟨rfl, fun _ => ⟨rfl, rfl⟩⟩
      · intro d given
        nomatch given
      · rfl
      · rfl
    · have nothing : afterGap [] = [] := rfl
      rw [scan_of_afterGap_eq_nil after, scan_of_afterGap_eq_nil nothing, place]
      simp [Piece.chars, gap, comment]
  | cons c tail =>
    have split := Lexeme.first_append c tail
    rw [after, ← split] at whole isGap
    refine ⟨⟨gap cs, (Lexeme.first c tail).spelling, _⟩, (Lexeme.first c tail).rest, ?_,
      (Lexeme.faithful_first c tail).fits (Lexeme.first_spelling_ne_nil c tail) isGap, ?_⟩
    · simpa [Piece.chars] using whole.symm
    · rw [scan_of_afterGap_eq_cons after, place]
      simp only [next, Piece.chars]
      rw [← List.append_assoc, Place.after_append _ (before ++ gap cs)]

/-- What pulls from the text `cs` behind `before` take and leave. -/
structure Partition (before cs : List Char) (pieces : List Piece) (rest : List Char) : Prop where
  whole : cs = pieces.flatMap Piece.chars ++ rest
  items : pulls pieces.length (scan (Place.start.after before) cs) = pieces.map Piece.item
  left : ∀ earlier later, pieces = earlier ++ later →
    (scan (Place.start.after before) cs).afterPulls earlier.length =
      scan (Place.start.after (before ++ earlier.flatMap Piece.chars))
        (later.flatMap Piece.chars ++ rest)
  fits : ∀ earlier p later, pieces = earlier ++ p :: later →
    p.Fits (before ++ earlier.flatMap Piece.chars) (later.flatMap Piece.chars ++ rest)

theorem Partition.nil (before cs : List Char) : Partition before cs [] cs where
  whole := rfl
  items := rfl
  left earlier later split := by
    obtain ⟨rfl, rfl⟩ := List.append_eq_nil_iff.mp split.symm
    simp [afterPulls]
  fits earlier p later split := by simp at split

/-- A piece in front of a partition of what it leaves. -/
theorem Partition.cons {before cs rest : List Char} {p : Piece} {pieces : List Piece}
    (next : (scan (Place.start.after before) (p.chars ++ cs)).next =
      (p.item, scan (Place.start.after (before ++ p.chars)) cs))
    (fits : p.Fits before cs) (others : Partition (before ++ p.chars) cs pieces rest) :
    Partition before (p.chars ++ cs) (p :: pieces) rest where
  whole := by simp [← others.whole]
  items := by
    simp only [List.length_cons, pulls, next, others.items, List.map_cons]
  left earlier later split := by
    cases earlier with
    | nil =>
      obtain rfl : p :: pieces = later := split
      simp [afterPulls, ← others.whole]
    | cons q earlier =>
      obtain ⟨rfl, rfl⟩ := List.cons.inj split
      rw [List.length_cons, afterPulls, next]
      simpa using others.left earlier later rfl
  fits earlier q later split := by
    cases earlier with
    | nil =>
      obtain ⟨rfl, rfl⟩ := List.cons.inj split
      simpa [← others.whole] using fits
    | cons q' earlier =>
      obtain ⟨rfl, rfl⟩ := List.cons.inj split
      simpa using others.fits earlier q later rfl

/-- Any number of pulls takes as many pieces off the text. -/
theorem exists_partition (n : Nat) (before cs : List Char) :
    ∃ pieces rest, pieces.length = n ∧ Partition before cs pieces rest := by
  induction n generalizing before cs with
  | zero => exact ⟨[], cs, rfl, .nil before cs⟩
  | succ n ih =>
    obtain ⟨p, rest, rfl, fits, next⟩ := next_scan before cs
    obtain ⟨pieces, rest', rfl, others⟩ := ih (before ++ p.chars) rest
    exact ⟨p :: pieces, rest', rfl, .cons next fits others⟩

/-- Any number of pulls from a program text, failures included, takes the text apart.  It is the
    gaps and lexemes of the pulls in order, and a rest that is still to be scanned; in between, too,
    what is still to be scanned begins where the pieces so far end. -/
theorem pulls_ofText_partition (source : String) (n : Nat) :
    ∃ (pieces : List Piece) (rest : List Char),
      pieces.length = n ∧
      source.toList = pieces.flatMap Piece.chars ++ rest ∧
      (ofText source).pulls n = pieces.map Piece.item ∧
      (∀ earlier later, pieces = earlier ++ later →
        (ofText source).afterPulls earlier.length =
          scan (Place.start.after (earlier.flatMap Piece.chars))
            (later.flatMap Piece.chars ++ rest)) ∧
      ∀ earlier p later, pieces = earlier ++ p :: later →
        p.Fits (earlier.flatMap Piece.chars) (later.flatMap Piece.chars ++ rest) := by
  obtain ⟨pieces, rest, rfl, partition⟩ := exists_partition n [] source.toList
  exact ⟨pieces, rest, rfl, partition.whole, partition.items, partition.left, partition.fits⟩

end TokenStream

end BasicToC
