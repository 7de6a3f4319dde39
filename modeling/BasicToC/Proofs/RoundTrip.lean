import BasicToC.Proofs.LongestMatch
import BasicToC.Proofs.Streaming

/-! # Lexing undoes printing

Words with a blank between each two are read back as they were: a blank is a boundary, so every
word ends where it was printed to end.  By longest match this needs no scanner.
-/

namespace BasicToC

namespace Tokenizes

theorem blank {c : Char} {cs : List Char} {words : List Word} (isBlank : c ∈ [' ', '\t', '\r'])
    (tokenizes : Tokenizes cs words) : Tokenizes (c :: cs) words := by
  cases tokenizes with
  | done skipped => exact .done (.blank isBlank skipped)
  | word skipped matched others => exact .word (.blank isBlank skipped) matched others

/-- A word in front of a boundary is the longest match there. -/
theorem spelling_append {w : Word} (admissible : w.Admissible) {rest : List Char}
    (boundary : Boundary rest) {words : List Word} (tokenizes : Tokenizes rest words) :
    Tokenizes (w.spelling.toList ++ rest) (w :: words) := by
  have spells := admissible.spells
  obtain ⟨c, cs, spelling⟩ := List.exists_cons_of_ne_nil spells.ne_nil
  rw [spelling] at spells ⊢
  have read := spells.first_of_boundary boundary
  have matched := Lexeme.longestMatch (congrArg Lexeme.reading read)
  rw [read] at matched
  -- nothing is skipped in front of a word
  have skipped : Skips (c :: (cs ++ rest)) (c :: (cs ++ rest)) := by
    apply Skips.stop
    intro d isFirst mem
    cases isFirst
    apply spells.head_notMem
    simp only [List.mem_cons] at mem ⊢
    tauto
  exact .word skipped matched tokenizes

theorem spellAll {words : List Word} (admissible : ∀ w ∈ words, w.Admissible) :
    Tokenizes (Word.spellAll words).toList words := by
  induction words with
  | nil =>
    apply Tokenizes.done
    exact .stop (by simp [Word.spellAll])
  | cons w words ih =>
    have first : w.Admissible := admissible w (by simp)
    have others := ih fun v mem => admissible v (by simp [mem])
    cases words with
    | nil => simpa [Word.spellAll] using spelling_append first boundary_nil others
    | cons v words =>
      have isBoundary : Boundary (' ' :: (Word.spellAll (v :: words)).toList) := by
        intro c isFirst
        cases isFirst
        decide
      have apart : (Word.spellAll (w :: v :: words)).toList =
          w.spelling.toList ++ ' ' :: (Word.spellAll (v :: words)).toList := by
        simp [Word.spellAll]
      rw [apart]
      exact spelling_append first isBoundary (.blank (by simp) others)

end Tokenizes

/-- Words that a text can hold are what lexing makes of them when they are printed. -/
theorem lexed_spellAll {words : List Word} (admissible : ∀ w ∈ words, w.Admissible) :
    ∃ ts, lex (Word.spellAll words) = .ok ts ∧ ts.map Token.word = words ++ [.eof] := by
  have tokenizes := Tokenizes.spellAll admissible
  obtain ⟨ts, words', lexed, isWords, tokenizes'⟩ | ⟨d, -, -, stuck⟩ :=
    lex_cases (Word.spellAll words)
  · rw [tokenizes'.unique tokenizes] at isWords
    exact ⟨ts, lexed, isWords⟩
  · exact absurd stuck tokenizes.not_getsStuck

/-- Lexing undoes printing, and whatever lexing gives can be printed and lexed once more. -/
theorem lex_undoes_printing :
    (∀ words : List Word, (∀ w ∈ words, w.Admissible) →
      ∃ ts, lex (Word.spellAll words) = .ok ts ∧ ts.map Token.word = words ++ [.eof]) ∧
    ∀ (source : String) (ts : List Token), lex source = .ok ts →
      ∃ words : List Word, (∀ w ∈ words, w.Admissible) ∧ ts.map Token.word = words ++ [.eof] ∧
        ∃ us, lex (Word.spellAll words) = .ok us ∧ us.map Token.word = ts.map Token.word := by
  refine ⟨fun words admissible => lexed_spellAll admissible, fun source ts lexed => ?_⟩
  obtain ⟨⟨ending, whole⟩, admissible⟩ := tokens_of_lexed lexed
  have printable : ∀ w ∈ (Token.beforeEnd ts).map Token.word, w.Admissible := by
    intro w mem
    obtain ⟨t, isToken, rfl⟩ := List.mem_map.mp mem
    exact admissible t isToken
  have words : ts.map Token.word = (Token.beforeEnd ts).map Token.word ++ [.eof] := by
    conv_lhs => rw [whole]
    simp only [List.map_append, List.map_cons, List.map_nil]
    rfl
  obtain ⟨us, lexed', words'⟩ := lexed_spellAll printable
  exact ⟨_, printable, words, us, lexed', words'.trans words.symm⟩

theorem lex_undoes_printing_of_line :
    let words : List Word := [⟨.ident, "x"⟩, ⟨.number, "1.5"⟩, ⟨.string, "# b"⟩, ⟨.newline, "\n"⟩]
    (∀ w ∈ words, w.Admissible) ∧
      ∃ ts, lex (Word.spellAll words) = .ok ts ∧ ts.map Token.word = words ++ [.eof] := by
  intro words
  have admissible : ∀ w ∈ words, w.Admissible := by
    simp only [words, List.forall_mem_cons]
    refine ⟨⟨⟨'x', [], rfl, rfl, by simp⟩, rfl⟩, .inr ⟨['1'], ['5'], ?_, ?_, rfl⟩, ?_, rfl, by simp⟩
    · exact ⟨by simp, by simp⟩
    · exact ⟨by simp, by simp⟩
    · simp [Word.Admissible, Word.IsQuotable, Lexeme.isInString]
  exact ⟨admissible, lex_undoes_printing.1 words admissible⟩

end BasicToC
