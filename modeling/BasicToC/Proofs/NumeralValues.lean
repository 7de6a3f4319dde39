import Mathlib.Algebra.Field.Rat
import BasicToC.Proofs.Numerals

/-! # Values of numerals

A numeral stands for a rational number, and its literal for the same one: a zero in front changes
nothing, and neither does a zero behind the point.
-/

namespace BasicToC.Numeral

/-- The digits behind the point. -/
def fraction (cs : List Char) : List Char :=
  (cs.dropWhile (· != '.')).tail

/-- The number that digits with or without a point stand for in decimal notation. -/
def value (cs : List Char) : ℚ :=
  Nat.ofDigitChars 10 (cs.takeWhile (· != '.') ++ fraction cs) 0 / 10 ^ (fraction cs).length

theorem ne_point_of_isDigits {cs : List Char} (digits : Word.IsDigits cs) :
    ∀ c ∈ cs, (c != '.') = true := by
  intro c mem
  rw [bne_iff_ne]
  rintro rfl
  exact absurd (digits.2 _ mem) (by decide)

theorem value_of_digits {cs : List Char} (digits : Word.IsDigits cs) :
    value cs = Nat.ofDigitChars 10 cs 0 := by
  have noPoint := ne_point_of_isDigits digits
  have behind : fraction cs = [] := by
    rw [fraction, List.dropWhile_eq_nil_iff.mpr noPoint]
    rfl
  have front : cs.takeWhile (· != '.') = cs := List.takeWhile_eq_self_iff.mpr noPoint
  simp [value, behind, front]

theorem value_append_point {whole : List Char} (digits : Word.IsDigits whole) (behind : List Char) :
    value (whole ++ '.' :: behind) =
      Nat.ofDigitChars 10 (whole ++ behind) 0 / 10 ^ behind.length := by
  have noPoint := ne_point_of_isDigits digits
  have rest : fraction (whole ++ '.' :: behind) = behind := by
    rw [fraction, List.dropWhile_append_of_pos noPoint]
    rfl
  have front : (whole ++ '.' :: behind).takeWhile (· != '.') = whole := by
    rw [List.takeWhile_append_of_pos noPoint]
    simp
  simp [value, rest, front]

theorem ofDigitChars_trimZeros {cs : List Char} (digits : Word.IsDigits cs) :
    Nat.ofDigitChars 10 (trimZeros cs) 0 = Nat.ofDigitChars 10 cs 0 := by
  have dropped : ∀ ds : List Char,
      Nat.ofDigitChars 10 (ds.dropWhile (· == '0')) 0 = Nat.ofDigitChars 10 ds 0 := by
    intro ds
    induction ds with
    | nil => rfl
    | cons d ds ih =>
      by_cases zero : d = '0'
      · subst zero
        rw [List.dropWhile_cons_of_pos (by rfl), ih, Nat.ofDigitChars_cons]
        rfl
      · rw [List.dropWhile_cons_of_neg (by simpa using zero)]
  rw [← dropped cs]
  unfold trimZeros
  split
  · next nothing =>
    rw [nothing]
    rfl
  · next rest =>
    have mem : '.' ∈ cs := (List.dropWhile_suffix (· == '0')).subset (by simp [rest])
    exact absurd (digits.2 _ mem) (by decide)
  · rfl

/-- A literal stands for the same number as its numeral. -/
theorem value_literal {numeral : String} (isNumeral : Word.IsNumeral numeral.toList) :
    value (literal numeral).toList = value numeral.toList := by
  unfold literal
  rw [String.toList_ofList]
  obtain digits | ⟨whole, behind, isWhole, isFraction, split⟩ := isNumeral
  · have trimmed := isDigits_trimZeros digits
    have noPoint : '.' ∉ trimZeros numeral.toList :=
      fun mem => absurd (trimmed.2 _ mem) (by decide)
    have pointed : withPoint (trimZeros numeral.toList) = trimZeros numeral.toList ++ ['.', '0'] :=
      if_neg noPoint
    have shifted : Nat.ofDigitChars 10 (trimZeros numeral.toList ++ ['0']) 0 =
        10 * Nat.ofDigitChars 10 numeral.toList 0 := by
      rw [Nat.ofDigitChars_append, ofDigitChars_trimZeros digits]
      rfl
    rw [pointed, value_append_point trimmed, value_of_digits digits, shifted]
    simp
  · have same : Nat.ofDigitChars 10 (trimZeros whole ++ behind) 0 =
        Nat.ofDigitChars 10 (whole ++ behind) 0 := by
      rw [Nat.ofDigitChars_append, Nat.ofDigitChars_append, ofDigitChars_trimZeros isWhole]
    rw [split, trimZeros_append_point isWhole, withPoint_of_mem (by simp),
      value_append_point (isDigits_trimZeros isWhole), value_append_point isWhole, same]

end BasicToC.Numeral
