import Mathlib.Data.List.TakeWhile
import BasicToC.Numeral
import BasicToC.Word

/-! # Floating literals

A numeral becomes digits, a point and digits, and what has been made a literal stays as it is.
-/

namespace BasicToC.Numeral

theorem trimZeros_cons {c : Char} (notZero : c ≠ '0') (notPoint : c ≠ '.') (rest : List Char) :
    trimZeros (c :: rest) = c :: rest := by
  have stop : (c :: rest).dropWhile (· == '0') = c :: rest := by simp [notZero]
  unfold trimZeros
  rw [stop]
  split
  · next empty => nomatch empty
  · next point => exact absurd (List.cons.inj point).1 notPoint
  · rfl

/-- What trimming leaves: one zero, one zero and a point, or something that begins with neither. -/
theorem trimZeros_cases (cs : List Char) :
    trimZeros cs = ['0'] ∨ (∃ fraction, trimZeros cs = '0' :: '.' :: fraction) ∨
      ∃ c rest, trimZeros cs = c :: rest ∧ c ≠ '0' ∧ c ≠ '.' := by
  unfold trimZeros
  split
  · exact .inl rfl
  · next fraction _ => exact .inr (.inl ⟨fraction, rfl⟩)
  · next notEmpty notPoint =>
    obtain ⟨c, rest, split⟩ := List.exists_cons_of_ne_nil notEmpty
    have notZero : (c == '0') = false := by
      have := List.head?_dropWhile_not (· == '0') cs
      simpa [split] using this
    refine .inr (.inr ⟨c, rest, split, by simpa using notZero, ?_⟩)
    intro point
    exact notPoint rest (point ▸ split)

theorem withPoint_of_mem {cs : List Char} (point : '.' ∈ cs) : withPoint cs = cs :=
  if_pos point

theorem point_mem_withPoint (cs : List Char) : '.' ∈ withPoint cs := by
  unfold withPoint
  split
  · assumption
  · simp

/-- Neither half of the work is left to do on a literal. -/
theorem literal_literal (numeral : String) : literal (literal numeral) = literal numeral := by
  have trimmed : trimZeros (withPoint (trimZeros numeral.toList)) =
      withPoint (trimZeros numeral.toList) := by
    obtain zero | ⟨fraction, point⟩ | ⟨c, rest, other, notZero, notPoint⟩ :=
      trimZeros_cases numeral.toList
    · rw [zero]
      rfl
    · rw [point, withPoint_of_mem (by simp)]
      rfl
    · have first : ∃ more, withPoint (c :: rest) = c :: more := by
        unfold withPoint
        split
        · exact ⟨rest, rfl⟩
        · exact ⟨rest ++ ['.', '0'], rfl⟩
      obtain ⟨more, first⟩ := first
      rw [other, first, trimZeros_cons notZero notPoint]
  unfold literal
  rw [String.toList_ofList, trimmed, withPoint_of_mem (point_mem_withPoint _)]

/-- Trimming keeps the digits of a numeral and its point. -/
theorem isDigits_trimZeros {cs : List Char} (digits : Word.IsDigits cs) :
    Word.IsDigits (trimZeros cs) := by
  have kept : ∀ c ∈ cs.dropWhile (· == '0'), c.isDigit = true :=
    fun c mem => digits.2 c ((List.dropWhile_suffix _).subset mem)
  unfold trimZeros
  split
  · simp [Word.IsDigits]
  · next rest =>
    exact absurd (kept '.' (by simp [rest])) (by decide)
  · next notEmpty _ => exact ⟨notEmpty, kept⟩

theorem trimZeros_append_point {whole : List Char} (digits : Word.IsDigits whole)
    (fraction : List Char) :
    trimZeros (whole ++ '.' :: fraction) = trimZeros whole ++ '.' :: fraction := by
  have noPoint : ∀ rest, whole.dropWhile (· == '0') ≠ '.' :: rest := by
    intro rest split
    have mem : '.' ∈ whole := (List.dropWhile_suffix (· == '0')).subset (by simp [split])
    exact absurd (digits.2 _ mem) (by decide)
  by_cases zeros : whole.dropWhile (· == '0') = []
  · have all : ∀ c ∈ whole, (c == '0') = true := by simpa using zeros
    have left : (whole ++ '.' :: fraction).dropWhile (· == '0') = '.' :: fraction := by
      rw [List.dropWhile_append_of_pos all]
      rfl
    unfold trimZeros
    rw [left, zeros]
    rfl
  · obtain ⟨c, rest, split⟩ := List.exists_cons_of_ne_nil zeros
    have left : (whole ++ '.' :: fraction).dropWhile (· == '0') = c :: rest ++ '.' :: fraction := by
      rw [List.dropWhile_append]
      simp [split]
    have notPoint : c ≠ '.' := fun point => noPoint rest (point ▸ split)
    unfold trimZeros
    rw [left, split]
    simp [notPoint]

/-- The literal of a numeral is digits, a point and digits. -/
theorem literal_digits {numeral : String} (isNumeral : Word.IsNumeral numeral.toList) :
    ∃ whole fraction, Word.IsDigits whole ∧ Word.IsDigits fraction ∧
      (literal numeral).toList = whole ++ '.' :: fraction := by
  unfold literal
  rw [String.toList_ofList]
  obtain digits | ⟨whole, fraction, isWhole, isFraction, split⟩ := isNumeral
  · have trimmed := isDigits_trimZeros digits
    have noPoint : '.' ∉ trimZeros numeral.toList :=
      fun mem => absurd (trimmed.2 _ mem) (by decide)
    exact ⟨_, ['0'], trimmed, by simp [Word.IsDigits], if_neg noPoint⟩
  · refine ⟨trimZeros whole, fraction, isDigits_trimZeros isWhole, isFraction, ?_⟩
    rw [split, trimZeros_append_point isWhole, withPoint_of_mem (by simp)]

end BasicToC.Numeral
