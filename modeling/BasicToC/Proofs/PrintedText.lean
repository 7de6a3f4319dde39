import Mathlib.Data.List.TakeWhile
import BasicToC.Proofs.Streaming
import BasicToC.Proofs.Translation

/-! # Printed text

A print statement with a string becomes a call of `printf` with a format and nothing else.  What
such a call writes is up to C: it reads escapes and quotes in the literal, takes the string to end
at the first null character, and reads conversions in what is left.  The strings of a program can
hold neither escapes, nor quotes, nor conversions; but they can hold a null character, and then the
call writes less than the string.  In `CReading`, which is about how C reads code, this module has
the literals and calls of `printf`; the expressions are in `BasicToC.Proofs.CReading`.

On the way from the text to the code, strings are neither lost nor changed: `Reader.texts`, the
strings printed so far followed by the strings still to be read, is the same all the time.
-/

namespace BasicToC

/-! ## How C reads a call of `printf` -/

namespace CReading

/-- The character meant by a letter after a backslash. -/
def escape? : Char → Option Char
  | 'a' => some '\x07'
  | 'b' => some '\x08'
  | 't' => some '\t'
  | 'n' => some '\n'
  | 'v' => some '\x0b'
  | 'f' => some '\x0c'
  | 'r' => some '\r'
  | '"' => some '"'
  | '\'' => some '\''
  | '?' => some '?'
  | '\\' => some '\\'
  | _ => none

/-- The characters of a string literal and the text behind it.  The literal goes up to the first
    quote that no backslash takes, and does not go beyond its line; `escaped` says that a backslash
    has just been read.  Escapes by number are not read. -/
def literal (escaped : Bool) : List Char → Option (List Char × List Char)
  | [] => none
  | c :: rest =>
    if escaped then
      match escape? c with
      | none => none
      | some d => (literal false rest).map (Prod.map (d :: ·) id)
    else if c = '"' then some ([], rest)
    else if c = '\n' then none
    else if c = '\\' then literal true rest
    else (literal false rest).map (Prod.map (c :: ·) id)

/-- A string goes up to its first null character. -/
def terminated (cs : List Char) : List Char :=
  cs.takeWhile (· != '\x00')

/-- What a format writes for which there are no arguments.  A percent sign begins a conversion, and
    only a second percent sign needs no argument; `converting` says that the first one has just been
    read. -/
def format (converting : Bool) : List Char → Option (List Char)
  | [] => if converting then none else some []
  | c :: rest =>
    if converting then if c = '%' then (format false rest).map ('%' :: ·) else none
    else if c = '%' then format true rest
    else (format false rest).map (c :: ·)

/-- What is written by the call of `printf` at the front of a program text, and the text behind
    that statement and its line. -/
def printCall (code : List Char) : Option (List Char × List Char) := do
  let inside ← code.dropPrefix? "printf(\"".toList
  let (cs, behind) ← literal false inside
  let rest ← behind.dropPrefix? ");\n".toList
  let written ← format false (terminated cs)
  some (written, rest)

theorem literal_append {cs : List Char} (quotable : Word.IsQuotable cs) (rest : List Char) :
    literal false (cs ++ '\\' :: 'n' :: '"' :: rest) = some (cs ++ ['\n'], rest) := by
  induction cs with
  | nil => rfl
  | cons c cs ih =>
    have plain : Lexeme.isInString c = true := quotable c (by simp)
    have others := ih fun d mem => quotable d (by simp [mem])
    simp only [Lexeme.isInString, Bool.not_eq_true', Bool.or_eq_false_iff,
      beq_eq_false_iff_ne] at plain
    simp [literal, others, plain]

theorem format_of_plain {cs : List Char} (plain : '%' ∉ cs) : format false cs = some cs := by
  induction cs with
  | nil => rfl
  | cons c cs ih =>
    have others := ih fun mem => plain (by simp [mem])
    have first : c ≠ '%' := fun same => plain (by simp [same])
    simp [format, first, others]

/-- The call for a string writes what comes before the first null character of the string and the
    line end after it. -/
theorem printCall_printText {text : String} (quotable : Word.IsQuotable text.toList)
    (rest : List Char) :
    printCall ((Fragment.printText text).text.toList ++ rest) =
      some (terminated (text.toList ++ ['\n']), rest) := by
  have code : (Fragment.printText text).text.toList ++ rest =
      "printf(\"".toList ++ (text.toList ++ '\\' :: 'n' :: '"' :: (");\n".toList ++ rest)) := by
    change ("printf(\"" ++ text ++ "\\n\");\n").toList ++ rest = _
    simp
  have plain : '%' ∉ terminated (text.toList ++ ['\n']) := by
    intro mem
    rcases List.mem_append.mp (List.takeWhile_subset _ mem) with inText | isNewline
    · exact absurd (quotable _ inText) (by decide)
    · simp at isNewline
  rw [printCall, code, List.dropPrefix?_append_of_beq _ (by simp)]
  simp only [Option.bind_eq_bind, Option.bind_some, literal_append quotable]
  rw [List.dropPrefix?_append_of_beq _ (by simp)]
  simp [format_of_plain plain]

/-- A string without null characters is not cut short, and no other is whole. -/
theorem terminated_eq_self_iff {cs : List Char} : terminated cs = cs ↔ '\x00' ∉ cs := by
  rw [terminated, List.takeWhile_eq_self_iff]
  constructor
  · intro each mem
    simpa using each _ mem
  · intro notMem c mem
    have ne : c ≠ '\x00' := fun same => notMem (same ▸ mem)
    simpa using ne

end CReading

/-! ## Strings on their way into the code -/

/-- The text of a string. -/
def Token.string? (t : Token) : Option String :=
  if t.kind = .string then some t.text else none

/-- The text that a statement prints as it is. -/
def Fragment.printed? : Fragment → Option String
  | .printText text => some text
  | _ => none

/-- Whether a goal is to print a text, whatever the program says. -/
def Goal.prints : Goal → Bool
  | .act (.emit f) => f.printed?.isSome
  | _ => false

/-- What a move promises about strings: one that it takes is printed, and nothing else is, neither
    at once nor by the goals that it leaves. -/
def Move.KeepsTexts (move : Move) (t : Token) : Prop :=
  match move with
  | .reject _ => True
  | .expand goals => goals.all (!·.prints)
  | .shift echo goals =>
    echo.toList.filterMap Fragment.printed? = [t].filterMap Token.string? ∧ goals.all (!·.prints)

theorem Token.keepsTexts_asName {t : Token} {goals : String → List Goal}
    (quiet : ∀ name, (goals name).all (!·.prints)) : (t.asName goals).KeepsTexts t := by
  unfold Token.asName
  split
  · trivial
  · next isName =>
    split
    · trivial
    · exact ⟨by simp_all [Token.string?], quiet _⟩

theorem Token.keepsTexts_beginStatement (t : Token) (next : Phrase) :
    (t.beginStatement next).KeepsTexts t := by
  unfold Token.beginStatement
  split <;> simp_all [Move.KeepsTexts, Goal.governed, Goal.prints, Fragment.printed?, Token.string?]

theorem Phrase.keepsTexts_predict (phrase : Phrase) (scope : Scope) (t : Token) :
    (phrase.predict scope t).KeepsTexts t := by
  cases phrase with
  | statements =>
    rw [Phrase.predict]
    split
    · rfl
    · exact t.keepsTexts_beginStatement _
  | block close =>
    rw [Phrase.predict]
    split
    · simp_all [Move.KeepsTexts, Goal.prints, Fragment.printed?, Token.string?]
    · split
      · trivial
      · exact t.keepsTexts_beginStatement _
  | assignment | inputName | labelName | jumpName =>
    rw [Phrase.predict]
    exact Token.keepsTexts_asName fun name => rfl
  | _ =>
    rw [Phrase.predict]
    repeat' split
    all_goals simp_all [Move.KeepsTexts, Goal.prints, Fragment.printed?, Token.string?]

namespace Reader

/-- The strings printed so far, and those still to be read. -/
def texts (r : Reader) : List String :=
  r.code.filterMap Fragment.printed? ++ r.unread.filterMap Token.string?

theorem texts_write {r : Reader} {f : Fragment} (quiet : f.printed? = none) :
    (r.write [f]).texts = r.texts := by
  simp [texts, write, quiet]

theorem texts_perform {r : Reader} {action : Action} (quiet : ¬ (Goal.act action).prints) :
    (r.perform action).2.texts = r.texts := by
  cases action with
  | openProgram => rfl
  | emit f => exact texts_write (by simpa [Goal.prints] using quiet)
  | declare name => rfl
  | setLabel name position =>
    simp only [perform]
    split
    · rfl
    · exact texts_write rfl
  | jump target => exact texts_write rfl
  | checkJumps =>
    simp only [perform]
    split <;> rfl

/-- A step keeps the strings in order, and leaves nothing to do that does not. -/
theorem texts_step {r : Reader} {goal : Goal} (quiet : ¬ goal.prints) :
    (r.step goal).2.texts = r.texts ∧ ∀ more ∈ (r.step goal).1.toOption, more.all (!·.prints) := by
  cases goal with
  | act action =>
    have same := texts_perform (r := r) quiet
    simp only [step]
    split <;> simp_all [Except.toOption]
  | read phrase =>
    have keeps := phrase.keepsTexts_predict r.scope r.current
    have progress := phrase.progress_predict r.scope r.current
    simp only [step]
    cases predicted : phrase.predict r.scope r.current with
    | reject problem => exact ⟨rfl, by simp [move, Except.toOption]⟩
    | expand goals =>
      rw [predicted] at keeps
      exact ⟨rfl, by simpa [move, Except.toOption, Move.KeepsTexts] using keeps⟩
    | shift echo goals =>
      rw [predicted] at keeps progress
      obtain ⟨t, ts, unread⟩ := List.exists_cons_of_ne_nil (unread_ne_nil progress.1)
      have isFirst : r.current = t := by simp [current, unread]
      rw [isFirst] at keeps
      refine ⟨?_, by simpa [move, Except.toOption] using keeps.2⟩
      simp only [move, texts, write, advance, unread, List.tail_cons, List.filterMap_append,
        keeps.1, List.append_assoc]
      rw [← List.filterMap_append]
      rfl

theorem texts_run {r : Reader} {goals : List Goal} (quiet : goals.all (!·.prints)) :
    (r.run goals).2.texts = r.texts := by
  fun_induction Reader.run r goals with
  | case1 r => rfl
  | case2 r goal goals more u stepped ih =>
    rw [List.all_cons, Bool.and_eq_true] at quiet
    have notPrinting : ¬ goal.prints := by simpa using quiet.1
    have kept := texts_step (r := r) notPrinting
    rw [stepped] at kept
    rw [ih (by simp [kept.2 more rfl, quiet.2]), kept.1]
  | case3 r goal goals d u stepped =>
    rw [List.all_cons, Bool.and_eq_true] at quiet
    have notPrinting : ¬ goal.prints := by simpa using quiet.1
    have kept := texts_step (r := r) notPrinting
    rw [stepped] at kept
    exact kept.1

end Reader

/-- When ready-made tokens compile, the code prints their strings, each one once and in order. -/
theorem Machine.printed_of_compile_ok {ts : List Token}
    (ok : (compile (.ofTokens ts) .empty).1 = .ok ()) :
    (compile (.ofTokens ts) .empty).2.output.code.toList.filterMap Fragment.printed? =
      (Token.beforeEnd ts).filterMap Token.string? := by
  obtain ⟨result, shows⟩ := compile_ofTokens ts .empty
  have kept : ((Reader.ofTokens ts).run Goal.body).2.texts = (Reader.ofTokens ts).texts :=
    Reader.texts_run rfl
  have noEnd : ∀ t ∈ (Reader.ofTokens ts).unread, t.kind ≠ .eof :=
    fun t mem => Token.kind_ne_eof_of_mem_beforeEnd mem
  rw [ok] at result
  obtain ⟨⟨tree, laid⟩, allowed, -⟩ := (Reader.run_body_ok_iff _ noEnd).mp result.symm
  have nothingUnread : ((Reader.ofTokens ts).run Goal.body).2.unread = [] := by
    rw [laid.run_body allowed]
    rfl
  have begun : (Reader.ofTokens ts).texts = (Token.beforeEnd ts).filterMap Token.string? := rfl
  rw [begun, Reader.texts, nothingUnread, List.filterMap_nil, List.append_nil] at kept
  rw [shows.output]
  simpa [Reader.written, Output.opened, Output.declare, Output.empty] using kept

/-- The text of an output whose code is known. -/
theorem Output.text_eq_join (o : Output) : o.text = o.header ++ Fragment.join o.code.toList := by
  rw [Output.text, Output.body, ← Array.foldl_toList, foldl_append_text]
  simp [Fragment.join]

/-- A text among those that fragments print is printed by one of them, behind fragments that print
    the texts before it. -/
theorem Fragment.exists_printText {fs : List Fragment} {text : String} {before after : List String}
    (printed : fs.filterMap Fragment.printed? = before ++ text :: after) :
    ∃ earlier later, fs = earlier ++ .printText text :: later ∧
      earlier.filterMap Fragment.printed? = before := by
  obtain ⟨front, back, rfl, isBefore, rest⟩ := List.filterMap_eq_append_iff.mp printed
  obtain ⟨quiet, f, later, rfl, none, found, -⟩ := List.filterMap_eq_cons_iff.mp rest
  have isPrint : f = .printText text := by
    cases f <;> simp_all [Fragment.printed?]
  refine ⟨front ++ quiet, later, by simp [isPrint], ?_⟩
  rw [List.filterMap_append, isBefore, List.filterMap_eq_nil_iff.mpr none, List.append_nil]

open CReading in
/-- A program that compiles holds, for each of its print statements with a string, a call of
    `printf` in its place: behind the code for as many such statements as there are before it.  By
    the rules of C the call writes the string and a line end if the string has no null character in
    it, and otherwise it does not. -/
theorem compile_print_verbatim_iff {source c : String} (compiled : compile source = .ok c) :
    let output := (Machine.compile (.ofText source) .empty).2.output
    ∃ ts, lex source = .ok ts ∧ ∀ before p t after, ts = before ++ p :: t :: after →
      p.kind = .keyword .print → t.kind = .string →
        ∃ earlier later, output.code.toList = earlier ++ .printText t.text :: later ∧
          earlier.filterMap Fragment.printed? = before.filterMap Token.string? ∧
          c = output.header ++ Fragment.join earlier ++ (Fragment.printText t.text).text ++
            Fragment.join later ∧
          ∀ rest, printCall ((Fragment.printText t.text).text.toList ++ rest) =
              some (t.text.toList ++ ['\n'], rest) ↔ '\x00' ∉ t.text.toList := by
  intro output
  obtain ⟨ok, text⟩ : _ ∧ c = output.text := compile_eq_ok_iff.mp compiled
  obtain ⟨ts, lexed⟩ := Machine.lexed_of_compile_ok ok
  obtain ⟨⟨ending, whole⟩, admissible⟩ := tokens_of_lexed lexed
  obtain ⟨sameResult, sameOutput⟩ := Machine.compile_ofText_of_lexed lexed .empty
  have printed := Machine.printed_of_compile_ok (sameResult ▸ ok)
  rw [← sameOutput] at printed
  refine ⟨ts, lexed, fun before p t after split isPrint isString => ?_⟩
  have strings : (Token.beforeEnd ts).filterMap Token.string? =
      before.filterMap Token.string? ++ t.text :: after.filterMap Token.string? := by
    have all : ts.filterMap Token.string? = (Token.beforeEnd ts).filterMap Token.string? := by
      conv_lhs => rw [whole]
      simp [Token.string?]
    rw [← all, split]
    simp [Token.string?, isPrint, isString]
  obtain ⟨earlier, later, code, isBefore⟩ := Fragment.exists_printText (printed.trans strings)
  refine ⟨earlier, later, code, isBefore, ?_, ?_⟩
  · rw [text, Output.text_eq_join, code, Fragment.join_append, Fragment.join_cons]
    simp only [String.append_assoc]
  · intro rest
    have mem : t ∈ Token.beforeEnd ts := by
      have inAll : t ∈ ts := by simp [split]
      rw [whole, List.mem_append, List.mem_singleton] at inAll
      rcases inAll with inFront | isEnd
      · exact inFront
      · simp [isEnd] at isString
    have quotable : Word.IsQuotable t.text.toList := by
      simpa [Word.Admissible, Token.word, isString] using admissible t mem
    rw [printCall_printText quotable, Option.some_inj, Prod.mk.injEq, terminated_eq_self_iff]
    simp

open CReading in
/-- Quotes of the other kind, and a print statement inside a block. -/
theorem compile_print_verbatim_loop :
    let source := "WHILE 1 < 2 REPEAT\nPRINT \"it's 5 o'clock\"\nENDWHILE\n"
    let text := "it's 5 o'clock"
    ∃ c, compile source = .ok c ∧ ∃ earlier later,
      (Machine.compile (.ofText source) .empty).2.output.code.toList =
        earlier ++ .printText text :: later ∧
      printCall ((Fragment.printText text).text.toList ++ (Fragment.join later).toList) =
        some (text.toList ++ ['\n'], (Fragment.join later).toList) := by
  intro source text
  let tokens := (lex source).toOption.getD []
  have compiled : compile source = .ok ((compile source).toOption.getD "") := by decide +kernel
  have lexed : lex source = .ok (tokens.take 6 ++ ⟨.keyword .print, "PRINT", ⟨2, ⟨0, 5⟩⟩⟩ ::
      ⟨.string, text, ⟨2, ⟨6, 22⟩⟩⟩ :: tokens.drop 8) := by decide +kernel
  refine ⟨_, compiled, ?_⟩
  obtain ⟨ts, lexed', each⟩ := compile_print_verbatim_iff compiled
  obtain rfl := Except.ok.inj (lexed.symm.trans lexed')
  obtain ⟨earlier, later, code, -, -, verbatim⟩ := each _ _ _ _ rfl rfl rfl
  exact ⟨earlier, later, code, (verbatim _).mpr (by decide)⟩

open CReading in
/-- A string can hold a null character, and then only what is before it is written: neither the rest
    of the string nor a line end. -/
theorem compile_print_null_cut_short :
    let source := "PRINT \"a\x00b\"\n"
    let text := "a\x00b"
    let code := (Fragment.printText text).text ++ Fragment.closeMain.text
    compile source = .ok (Output.empty.opened.header ++ code) ∧
      printCall code.toList = some (['a'], Fragment.closeMain.text.toList) ∧
      printCall code.toList ≠ some (text.toList ++ ['\n'], Fragment.closeMain.text.toList) := by
  decide +kernel

end BasicToC
