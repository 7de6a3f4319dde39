import Mathlib.Tactic.NormNum
import BasicToC.Proofs.NumeralValues
import BasicToC.Proofs.RoundTrip

/-! # Numerals from the text to C

The numerals that the scanner can give are digits with or without a fraction, of any length.  Each
becomes a floating literal in normal form that stands for the same number.
-/

namespace BasicToC.Numeral

/-- Where a literal begins with a zero the point comes next, whatever it was made from. -/
theorem point_of_leading_zero {numeral : String} {rest : List Char}
    (leading : (literal numeral).toList = '0' :: rest) : rest.head? = some '.' := by
  unfold literal at leading
  rw [String.toList_ofList] at leading
  obtain zero | ⟨fraction, point⟩ | ⟨c, more, other, notZero, -⟩ := trimZeros_cases numeral.toList
  · rw [zero] at leading
    cases leading
    rfl
  · rw [point, withPoint_of_mem (by simp)] at leading
    cases leading
    rfl
  · rw [other] at leading
    unfold withPoint at leading
    split at leading <;> exact absurd (List.cons.inj leading).1 notZero

/-- The digits in front of the point do not begin with a zero, unless it is the only one. -/
theorem whole_eq_zero {numeral : String} {whole fraction : List Char} (digits : Word.IsDigits whole)
    (split : (literal numeral).toList = whole ++ '.' :: fraction)
    (leading : whole.head? = some '0') : whole = ['0'] := by
  obtain ⟨more, rfl⟩ := List.head?_eq_some_iff.mp leading
  have point := point_of_leading_zero split
  cases more with
  | nil => rfl
  | cons d more =>
    obtain rfl : d = '.' := by simpa using point
    exact absurd (digits.2 '.' (by simp)) (by decide)

/-- The texts that are pulled as numbers are the numerals. -/
theorem isNumeral_iff_pulled {n : String} :
    (∃ source k t, .ok t ∈ (TokenStream.ofText source).pulls k ∧ t.word = ⟨.number, n⟩) ↔
      Word.IsNumeral n.toList := by
  constructor
  · rintro ⟨source, k, t, mem, isNumber⟩
    rcases TokenStream.mem_of_mem_pulls mem with mem | isEnd
    · have admissible := TokenStream.admissible_of_mem_scan mem
      rw [isNumber] at admissible
      exact admissible
    · cases isEnd
      cases isNumber
  · -- any numeral can be lexed where it stands alone
    intro isNumeral
    have admissible : ∀ w ∈ [(⟨.number, n⟩ : Word)], w.Admissible :=
      List.forall_mem_singleton.mpr isNumeral
    obtain ⟨ts, lexed, words⟩ := lexed_spellAll admissible
    obtain ⟨later, ending, stream, rfl⟩ := ofText_of_lexed lexed
    rw [List.map_append] at words
    have isLater : ⟨.number, n⟩ ∈ later.map Token.word := by
      rw [(List.append_inj' words rfl).1]
      exact List.mem_singleton_self _
    obtain ⟨t, mem, isNumber⟩ := List.mem_map.mp isLater
    refine ⟨Word.spellAll [⟨.number, n⟩], later.length, t, ?_, isNumber⟩
    have pulled := TokenStream.pulls_length_pending ⟨later.map .ok, ending⟩
    rw [List.length_map] at pulled
    rw [stream, pulled]
    exact List.mem_map_of_mem mem

/-- A numeral that can be pulled from a text becomes a decimal literal without zeros in front that
    stands for the same number, and whatever has been made a literal stays as it is. -/
theorem literal_keeps_number (n : String) :
    ((∃ source k t, .ok t ∈ (TokenStream.ofText source).pulls k ∧ t.word = ⟨.number, n⟩) ↔
      Word.IsNumeral n.toList) ∧
    (Word.IsNumeral n.toList →
      (∃ whole fraction, Word.IsDigits whole ∧ Word.IsDigits fraction ∧
        (literal n).toList = whole ++ '.' :: fraction ∧
        (whole.head? = some '0' → whole = ['0'])) ∧
      value (literal n).toList = value n.toList) ∧
    literal (literal n) = literal n := by
  refine ⟨isNumeral_iff_pulled, fun isNumeral => ⟨?_, value_literal isNumeral⟩, literal_literal n⟩
  obtain ⟨whole, fraction, isWhole, isFraction, split⟩ := literal_digits isNumeral
  exact ⟨whole, fraction, isWhole, isFraction, split, whole_eq_zero isWhole split⟩

theorem literal_keeps_number_of_zeros :
    Word.IsNumeral "007.50".toList ∧ literal "007.50" = "7.50" ∧
      value "7.50".toList = value "007.50".toList ∧ value "007.50".toList = 15 / 2 := by
  have isWhole : Word.IsDigits ['0', '0', '7'] := by simp [Word.IsDigits]
  have isFraction : Word.IsDigits ['5', '0'] := by simp [Word.IsDigits]
  have isNumeral : Word.IsNumeral "007.50".toList := .inr ⟨_, _, isWhole, isFraction, rfl⟩
  have written : literal "007.50" = "7.50" := by decide
  have kept := ((literal_keeps_number "007.50").2.1 isNumeral).2
  rw [written] at kept
  refine ⟨isNumeral, written, kept, (value_append_point isWhole ['5', '0']).trans ?_⟩
  have digits : Nat.ofDigitChars 10 (['0', '0', '7'] ++ ['5', '0']) 0 = 750 := by decide
  rw [digits]
  norm_num

end BasicToC.Numeral
