import Mathlib.Data.List.TakeWhile
import BasicToC.TokenStream
import BasicToC.Word

/-! # The words of a text

What the scanner takes for a token is a word that a text can hold, and the characters it takes are
exactly the spelling of that word.  The cases are those of `Lexeme.first`, one lemma for each class
of lexemes.
-/

namespace BasicToC

theorem Word.IsName.alphanumeric {cs : List Char} (isName : Word.IsName cs) :
    ∀ c ∈ cs, c.isAlphanum = true := by
  obtain ⟨c, rest, rfl, letter, others⟩ := isName
  rw [List.forall_mem_cons]
  exact ⟨by simp [Char.isAlphanum, letter], others⟩

namespace Lexeme

/-- A lexeme that is read as a token is how the word of the token is written. -/
structure Faithful (lexeme : Lexeme) : Prop where
  admissible : ∀ {kind text}, lexeme.reading = .ok (kind, text) → Word.Admissible ⟨kind, text⟩
  spelling : ∀ {kind text}, lexeme.reading = .ok (kind, text) →
    lexeme.spelling = (Word.spelling ⟨kind, text⟩).toList

/-- A lexeme that is not read as a token promises nothing. -/
theorem faithful_of_error {lexeme : Lexeme} {problem : Problem}
    (failed : lexeme.reading = .error problem) : lexeme.Faithful := by
  constructor <;> intro kind text read <;> exact absurd (failed.symm.trans read) nofun

theorem faithful_of_ok {lexeme : Lexeme} {kind : Kind} {text : String}
    (read : lexeme.reading = .ok (kind, text)) (admissible : Word.Admissible ⟨kind, text⟩)
    (spelling : lexeme.spelling = (Word.spelling ⟨kind, text⟩).toList) : lexeme.Faithful := by
  constructor <;> intro kind' text' read' <;> cases read.symm.trans read'
  · exact admissible
  · exact spelling

theorem faithful_number {c : Char} (digit : c.isDigit) (cs : List Char) :
    (number (c :: cs)).Faithful := by
  have whole : Word.IsDigits ((c :: cs).takeWhile Char.isDigit) :=
    ⟨by simp [digit], fun d mem => List.mem_takeWhile_imp mem⟩
  unfold number
  split
  · next tail after =>
    by_cases empty : tail.takeWhile Char.isDigit = []
    · exact faithful_of_error (if_pos empty)
    · have fraction : Word.IsDigits (tail.takeWhile Char.isDigit) :=
        ⟨empty, fun d mem => List.mem_takeWhile_imp mem⟩
      apply faithful_of_ok (if_neg empty)
      · exact Or.inr ⟨_, _, whole, fraction, by simp⟩
      · simp [Word.spelling]
  · apply faithful_of_ok rfl
    · exact Or.inl (by simpa using whole)
    · simp [Word.spelling]

theorem faithful_word {c : Char} (letter : c.isAlpha) (cs : List Char) :
    (word (c :: cs)).Faithful := by
  have taken : (c :: cs).takeWhile Char.isAlphanum = c :: cs.takeWhile Char.isAlphanum := by
    simp [Char.isAlphanum, letter]
  apply faithful_of_ok rfl
  · unfold wordKind
    split
    · next k isKeyword => exact Keyword.ofSpelling?_eq_some_iff.mp isKeyword
    · next notKeyword =>
      refine ⟨⟨c, cs.takeWhile Char.isAlphanum, by simp [taken], letter, ?_⟩, notKeyword⟩
      exact fun d mem => List.mem_takeWhile_imp mem
  · unfold wordKind
    split <;> simp [word, Word.spelling]

theorem faithful_string (cs : List Char) : (string cs).Faithful := by
  unfold string
  split
  · exact faithful_of_error rfl
  · next c tail after =>
    split
    · apply faithful_of_ok rfl
      · intro d mem
        rw [String.toList_ofList] at mem
        exact List.mem_takeWhile_imp mem
      · simp [Word.spelling]
    · exact faithful_of_error rfl

theorem faithful_symbol (c : Char) (cs : List Char) : (symbol c cs).Faithful := by
  unfold symbol
  split
  · next spelling kind found =>
    have mem := List.mem_of_find?_eq_some found
    apply faithful_of_ok rfl
    · -- a symbol is of no kind that is written in another way
      cases kind with
      | eof | newline | number | ident | string | keyword => simp [Kind.symbols] at mem
      | becomes | additive | multiplicative | comparison =>
        simpa [Word.Admissible] using mem
    · cases kind with
      | string => simp [Kind.symbols] at mem
      | _ => simp [Word.spelling]
  · exact faithful_of_error rfl

/-- Every lexeme is read faithfully. -/
theorem faithful_first (c : Char) (cs : List Char) : (first c cs).Faithful := by
  unfold first
  split
  · next newline => exact faithful_of_ok rfl rfl (by simp [newline, Word.spelling])
  · split
    · next digit => exact faithful_number digit cs
    · split
      · next letter => exact faithful_word letter cs
      · split
        · exact faithful_string cs
        · exact faithful_symbol c cs

/-! ## What a pull gives -/

theorem pull_eq_ok_iff {lexeme : Lexeme} {place : Place} {t : Token} :
    lexeme.pull place = .ok t ↔
      lexeme.reading = .ok (t.kind, t.text) ∧
        t.position = place.covering lexeme.spelling.length := by
  obtain ⟨kind, text, position⟩ := t
  unfold pull
  cases lexeme.reading with
  | error problem => simp
  | ok word => simp [Prod.ext_iff, and_assoc, eq_comm]

theorem pull_eq_error_iff {lexeme : Lexeme} {place : Place} {d : Diagnostic} :
    lexeme.pull place = .error d ↔
      ∃ problem, lexeme.reading = .error problem ∧
        d = problem.located (place.covering lexeme.spelling.length) := by
  unfold pull
  cases lexeme.reading with
  | error problem => simp [eq_comm]
  | ok word => simp

end Lexeme

namespace TokenStream

/-- Whatever comes from a text is a lexeme that is read at its place. -/
theorem exists_lexeme_of_mem_scan {place : Place} {cs : List Char} {item : Except Diagnostic Token}
    (mem : item ∈ (scan place cs).pending) :
    ∃ c tail start, (Lexeme.first c tail).pull start = item := by
  fun_induction scan place cs with
  | case1 => cases mem
  | case2 place cs start c tail after lexeme rest ih =>
    rcases List.mem_cons.mp mem with isFirst | mem
    · exact ⟨c, tail, start, isFirst.symm⟩
    · exact ih mem

/-- The tokens of a text say words that a text can hold. -/
theorem admissible_of_mem_scan {place : Place} {cs : List Char} {t : Token}
    (mem : .ok t ∈ (scan place cs).pending) : t.word.Admissible := by
  obtain ⟨c, tail, start, pulled⟩ := exists_lexeme_of_mem_scan mem
  exact (Lexeme.faithful_first c tail).admissible (Lexeme.pull_eq_ok_iff.mp pulled).1

/-- A failure in a text has a line. -/
theorem exists_line_of_mem_scan {place : Place} {cs : List Char} {d : Diagnostic}
    (mem : .error d ∈ (scan place cs).pending) : ∃ line, d.line = some line := by
  obtain ⟨c, tail, start, pulled⟩ := exists_lexeme_of_mem_scan mem
  obtain ⟨problem, -, rfl⟩ := Lexeme.pull_eq_error_iff.mp pulled
  exact ⟨_, rfl⟩

/-- What is pulled was still to come, or is the end. -/
theorem mem_of_mem_pulls {s : TokenStream} {item : Except Diagnostic Token} {n : Nat}
    (mem : item ∈ s.pulls n) : item ∈ s.pending ∨ item = .ok (.eof s.ending) := by
  induction n generalizing s with
  | zero => cases mem
  | succ n ih =>
    obtain ⟨pending, ending⟩ := s
    cases pending with
    | nil =>
      rcases List.mem_cons.mp mem with isFirst | mem
      · exact .inr isFirst
      · exact ih mem
    | cons first pending =>
      rcases List.mem_cons.mp mem with isFirst | mem
      · exact .inl (List.mem_cons.mpr (.inl isFirst))
      · exact (ih mem).imp_left (List.mem_cons_of_mem _)

theorem pulls_length_pending (s : TokenStream) : s.pulls s.pending.length = s.pending := by
  obtain ⟨pending, ending⟩ := s
  induction pending with
  | nil => rfl
  | cons first pending ih => exact congrArg (first :: ·) ih

end TokenStream

end BasicToC
