import BasicToC.Proofs.Spelling

/-! # The text of a diagnostic tells what it reports

A text has up to four parts one after the other: a title, a line, columns and a message.  Each part
can be told from all that may follow it, `Separable`: titles because none begins another one,
numbers because no digit follows them, and a part that is left out because nothing that follows
begins like it.  The message may hold anything, but nothing follows it.
-/

namespace BasicToC

/-! ## Parts of a text -/

/-- A value is known from its text, whatever of the things that may follow comes after it. -/
structure Separable {α : Type} (text : α → List Char) (follows : List Char → Prop) : Prop where
  unique : ∀ {x y : α} {as bs : List Char}, text x ++ as = text y ++ bs →
    follows as → follows bs → x = y ∧ as = bs

/-- A part that is left out for one value, and stands behind a mark for the others. -/
def marked {α : Type} [DecidableEq α] (missing : α) (mark : List Char) (text : α → List Char)
    (x : α) : List Char :=
  if x = missing then [] else mark ++ text x

section Marked

variable {α : Type} [DecidableEq α] {missing : α} {mark : List Char} {text : α → List Char}

theorem marked_of_ne {x : α} (present : x ≠ missing) :
    marked missing mark text x = mark ++ text x :=
  if_neg present

theorem marked_append_cases (x : α) (as : List Char) :
    marked missing mark text x ++ as = as ∨ mark <+: marked missing mark text x ++ as := by
  by_cases absent : x = missing
  · exact .inl (by rw [marked, if_pos absent, List.nil_append])
  · refine .inr ?_
    rw [marked_of_ne absent, List.append_assoc]
    exact List.prefix_append _ _

end Marked

namespace Separable

variable {α β : Type} {text : α → List Char} {text' : β → List Char}
  {follows follows' : List Char → Prop}

theorem pair (first : Separable text follows) (second : Separable text' follows')
    (next : ∀ y as, follows' as → follows (text' y ++ as)) :
    Separable (fun p : α × β => text p.1 ++ text' p.2) follows' where
  unique {p q as bs} same followsA followsB := by
    rw [List.append_assoc, List.append_assoc] at same
    obtain ⟨firsts, rests⟩ := first.unique same (next _ _ followsA) (next _ _ followsB)
    obtain ⟨seconds, rests⟩ := second.unique rests followsA followsB
    exact ⟨Prod.ext firsts seconds, rests⟩

/-- A part may be left out for one value if nothing that may follow begins like the others. -/
theorem optional (missing : α) (empty : text missing = [])
    (apart : ∀ {x as bs}, x ≠ missing → follows as → as ≠ text x ++ bs)
    (others : ∀ {x y as bs}, x ≠ missing → y ≠ missing → text x ++ as = text y ++ bs →
      follows as → follows bs → x = y ∧ as = bs) :
    Separable text follows where
  unique {x y as bs} same followsA followsB := by
    by_cases missingX : x = missing <;> by_cases missingY : y = missing
    · subst missingX missingY
      exact ⟨rfl, by simpa [empty] using same⟩
    · rw [missingX, empty] at same
      exact absurd same (apart missingY followsA)
    · rw [missingY, empty] at same
      exact absurd same.symm (apart missingX followsB)
    · exact others missingX missingY same followsA followsB

theorem marked [DecidableEq α] (part : Separable text follows) (missing : α) {mark : List Char}
    (apart : ∀ as bs, follows as → as ≠ mark ++ bs) :
    Separable (marked missing mark text) follows := by
  apply optional missing (if_pos rfl)
  · intro x as bs present follows
    rw [marked_of_ne present, List.append_assoc]
    exact apart as _ follows
  · intro x y as bs presentX presentY same followsA followsB
    rw [marked_of_ne presentX, marked_of_ne presentY, List.append_assoc, List.append_assoc] at same
    exact part.unique (List.append_cancel_left same) followsA followsB

theorem digits : Separable (Nat.toDigits 10) fun as => ∀ c ∈ as.head?, c.isDigit = false where
  unique {m n as bs} same followsA followsB := by
    have isDigit (n : Nat) : ∀ c ∈ Nat.toDigits 10 n, c.isDigit = true :=
      fun c mem => Nat.isDigit_of_mem_toDigits (by decide) (by decide) mem
    -- the number is all digits up to the first other character, so both texts are cut at one place
    obtain ⟨takenA, leftA⟩ := takeWhile_append_of_stop (isDigit m) followsA
    obtain ⟨takenB, leftB⟩ := takeWhile_append_of_stop (isDigit n) followsB
    rw [same] at takenA leftA
    refine ⟨?_, leftA.symm.trans leftB⟩
    rw [← @Nat.ofDigitChars_ten_toDigits m, takenA.symm.trans takenB, Nat.ofDigitChars_ten_toDigits]

end Separable

namespace Diagnostic

/-! ## The parts of a diagnostic -/

def lineText : Option Nat → List Char
  | none => []
  | some n => ' ' :: Nat.toDigits 10 n

def spanText (column : Span) : List Char :=
  Nat.toDigits 10 column.start ++ ('.' :: '.' :: (Nat.toDigits 10 column.stop ++ [')']))

def columnText : Span → List Char :=
  marked .zero [' ', '('] spanText

/-- The line and the columns share one word in front of them. -/
def locationText : Option Nat × Span → List Char :=
  marked (none, .zero) [' ', 'I', 'N'] fun location =>
    lineText location.1 ++ columnText location.2

def messageText : String → List Char :=
  marked "" [';', ' '] String.toList

theorem toList_location (d : Diagnostic) :
    d.location.toList = lineText d.line ++ columnText d.column := by
  obtain ⟨code, line, column, message⟩ := d
  unfold location columnText marked
  cases line <;> dsimp only <;> split <;> simp [lineText, spanText]

theorem location_eq_empty_iff {d : Diagnostic} :
    d.location = "" ↔ (d.line, d.column) = (none, .zero) := by
  rw [← String.toList_eq_nil_iff, toList_location, List.append_eq_nil_iff, Prod.mk.injEq]
  unfold columnText marked
  cases d.line <;> simp [lineText]

theorem toList_render (d : Diagnostic) :
    d.render.toList =
      d.code.title.toList ++ (locationText (d.line, d.column) ++ messageText d.message) := by
  unfold render locationText messageText marked
  simp only [location_eq_empty_iff]
  split <;> split <;> simp [toList_location]

/-! ## The parts can be told apart -/

/-- What may follow the columns: nothing, or a message. -/
def AtMessage (as : List Char) : Prop :=
  ∀ c ∈ as.head?, c = ';'

/-- What may follow the line: columns, or what may follow them. -/
def AtColumns (as : List Char) : Prop :=
  AtMessage as ∨ [' ', '('] <+: as

theorem AtMessage.ne_blank {as : List Char} (atMessage : AtMessage as) (bs : List Char) :
    as ≠ ' ' :: bs := by
  rintro rfl
  exact absurd (atMessage ' ' rfl) (by decide)

theorem atMessage_messageText (message : String) : AtMessage (messageText message ++ []) := by
  intro c mem
  obtain absent | ⟨rest, present⟩ := marked_append_cases message []
  · rw [messageText, absent] at mem
    cases mem
  · rw [messageText, ← present] at mem
    cases mem
    rfl

theorem AtMessage.atColumns {as : List Char} (atMessage : AtMessage as) (column : Span) :
    AtColumns (columnText column ++ as) := by
  obtain absent | present := marked_append_cases column as
  · rw [columnText, absent]
    exact .inl atMessage
  · exact .inr present

theorem separable_title : Separable (fun code : Code => code.title.toList) fun _ => True where
  unique {c d as bs} same _ _ := by
    have noneBegins : ∀ c d : Code, c.title.toList <+: d.title.toList → c = d := by
      intro c d
      cases c <;> cases d <;> decide
    -- both titles begin the same text, so the shorter one begins the longer one
    have begins : c.title.toList <+: d.title.toList ++ bs := ⟨as, same⟩
    have equal : c = d := by
      rcases List.prefix_or_prefix_of_prefix begins (List.prefix_append _ _) with shorter | longer
      · exact noneBegins c d shorter
      · exact (noneBegins d c longer).symm
    subst equal
    exact ⟨rfl, List.append_cancel_left same⟩

theorem separable_lineText : Separable lineText AtColumns := by
  have noDigit : ∀ {as}, AtColumns as → ∀ c ∈ as.head?, c.isDigit = false := by
    rintro as (atMessage | ⟨rest, rfl⟩) c mem
    · rw [atMessage c mem]
      rfl
    · cases mem
      rfl
  apply Separable.optional none rfl
  · intro line as bs present follows same
    obtain ⟨n, rfl⟩ := Option.ne_none_iff_exists'.mp present
    rcases follows with atMessage | ⟨rest, rfl⟩
    · exact atMessage.ne_blank _ same
    · -- a line goes on with a digit behind the blank, and columns with a bracket
      obtain ⟨c, cs, digits⟩ := List.exists_cons_of_ne_nil (@Nat.toDigits_ne_nil n 10)
      have isDigit : c.isDigit = true :=
        Nat.isDigit_of_mem_toDigits (by decide) (by decide) (digits ▸ List.mem_cons_self)
      simp only [lineText, digits, List.cons_append, List.cons.injEq] at same
      rw [← same.2.1] at isDigit
      exact absurd isDigit (by decide)
  · intro line line' as bs present present' same followsA followsB
    obtain ⟨m, rfl⟩ := Option.ne_none_iff_exists'.mp present
    obtain ⟨n, rfl⟩ := Option.ne_none_iff_exists'.mp present'
    obtain ⟨numbers, rests⟩ := Separable.digits.unique (List.cons.inj same).2 (noDigit followsA)
      (noDigit followsB)
    exact ⟨congrArg some numbers, rests⟩

theorem separable_spanText (follows : List Char → Prop) : Separable spanText follows where
  unique {c d as bs} same _ _ := by
    obtain ⟨start, stop⟩ := c
    obtain ⟨start', stop'⟩ := d
    simp only [spanText, List.append_assoc, List.cons_append] at same
    -- points follow the first number and a bracket the second, so anything may follow the columns
    obtain ⟨rfl, behindStart⟩ := Separable.digits.unique same (by simp) (by simp)
    simp only [List.cons.injEq, true_and] at behindStart
    obtain ⟨rfl, behindStop⟩ := Separable.digits.unique behindStart (by simp) (by simp)
    exact ⟨rfl, (List.cons.inj behindStop).2⟩

theorem separable_columnText : Separable columnText AtMessage :=
  (separable_spanText AtMessage).marked .zero fun _ _ atMessage => atMessage.ne_blank _

theorem separable_locationText : Separable locationText AtMessage := by
  have both := separable_lineText.pair separable_columnText
    fun column _ atMessage => atMessage.atColumns column
  exact both.marked (none, .zero) fun _ _ atMessage => atMessage.ne_blank _

theorem separable_messageText : Separable messageText (· = []) := by
  have verbatim : Separable String.toList (· = []) := by
    constructor
    rintro x y _ _ same rfl rfl
    exact ⟨String.toList_inj.mp (List.append_cancel_right same), rfl⟩
  apply verbatim.marked ""
  rintro _ bs rfl
  simp

/-- The text of a diagnostic determines all of it. -/
theorem render_eq_iff (d e : Diagnostic) :
    d.render = e.render ↔
      d.code = e.code ∧ d.line = e.line ∧ d.column = e.column ∧ d.message = e.message := by
  constructor
  · intro same
    have located := separable_locationText.pair separable_messageText (by
      rintro message _ rfl
      exact atMessage_messageText message)
    have whole := separable_title.pair located fun _ _ _ => trivial
    have texts := congrArg (String.toList · ++ []) same
    simp only [toList_render] at texts
    obtain ⟨parts, -⟩ := whole.unique
      (x := (d.code, (d.line, d.column), d.message)) (y := (e.code, (e.line, e.column), e.message))
      texts rfl rfl
    simpa [and_assoc] using parts
  · rintro ⟨code, line, column, message⟩
    obtain rfl : d = e := by
      cases d
      cases e
      simp_all
    rfl

end Diagnostic

end BasicToC
