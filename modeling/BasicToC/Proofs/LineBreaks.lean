import Mathlib.Data.List.Find
import Mathlib.Data.List.Induction
import BasicToC.Proofs.Partition
import BasicToC.Proofs.Streaming

/-! # Texts one after the other

No lexeme and no comment goes on past a line feed, so a text that ends with one is scanned the same
whatever comes after it, and what comes after it is scanned as if it stood alone.  Only the lines
are counted on: `lower` says by how much.

A line feed behind a text also leaves the lexemes of the text as they are, with one exception: what
is reported of a string that is not closed.  So a text without failures may be followed by a line
feed and any other text, `lex_append_newline`.
-/

namespace BasicToC

/-! ## Scanning stops at a line feed -/

/-- A line feed stands in `cs`, or right behind it at the front of `ds`. -/
def Breaks (cs ds : List Char) : Prop :=
  '\n' ∈ cs ∨ ds.head? = some '\n'

namespace Breaks

theorem nil {ds : List Char} (breaks : Breaks [] ds) : ∃ rest, ds = '\n' :: rest := by
  rcases breaks with mem | behind
  · cases mem
  · exact List.head?_eq_some_iff.mp behind

theorem tail {c : Char} {cs ds : List Char} (other : c ≠ '\n') (breaks : Breaks (c :: cs) ds) :
    Breaks cs ds := by
  rcases breaks with mem | behind
  · rcases List.mem_cons.mp mem with same | mem
    · exact absurd same.symm other
    · exact .inl mem
  · exact .inr behind

/-- A stretch that ends at a line feed does not depend on what comes after the text. -/
theorem span {p : Char → Bool} (stop : p '\n' = false) {cs ds : List Char}
    (breaks : Breaks cs ds) :
    (cs ++ ds).takeWhile p = cs.takeWhile p ∧
      (cs ++ ds).dropWhile p = cs.dropWhile p ++ ds ∧ Breaks (cs.dropWhile p) ds := by
  induction cs with
  | nil =>
    obtain ⟨rest, rfl⟩ := breaks.nil
    exact ⟨List.takeWhile_cons_of_neg (by simp [stop]), List.dropWhile_cons_of_neg (by simp [stop]),
      breaks⟩
  | cons d cs ih =>
    by_cases goesOn : p d = true
    · have other : d ≠ '\n' := by
        rintro rfl
        simp [stop] at goesOn
      simpa [goesOn] using ih (breaks.tail other)
    · simpa [goesOn] using breaks

/-- What holds no line feed and stands at the front of two texts stands in the first. -/
theorem within {cs ds front : List Char} (breaks : Breaks cs ds) (inLine : '\n' ∉ front)
    (begins : front <+: cs ++ ds) : front <+: cs := by
  rcases List.prefix_or_prefix_of_prefix begins (List.prefix_append cs ds) with within | ⟨more, rfl⟩
  · exact within
  · -- otherwise it goes on with the line feed
    rw [List.prefix_append_right_inj] at begins
    rw [List.mem_append, not_or] at inLine
    cases more with
    | nil => simp
    | cons c more =>
      obtain ⟨rest, rfl⟩ := nil (breaks.imp_left fun mem => absurd mem inLine.1)
      obtain ⟨rfl, -⟩ := List.cons_prefix_cons.mp begins
      simp at inLine

end Breaks

/-- A text that is empty, or whose last character is a line feed. -/
def EndsLine (cs : List Char) : Prop :=
  ∀ c ∈ cs.getLast?, c = '\n'

namespace EndsLine

theorem mem {cs : List Char} (ends : EndsLine cs) (nonempty : cs ≠ []) : '\n' ∈ cs := by
  rw [← ends _ (List.getLast?_eq_some_getLast nonempty)]
  exact List.getLast_mem nonempty

theorem of_append {cs ds : List Char} (ends : EndsLine (cs ++ ds)) : EndsLine ds := by
  intro c isLast
  apply ends
  simp [List.getLast?_append, Option.mem_def.mp isLast]

end EndsLine

theorem Breaks.gap {cs ds : List Char} (breaks : Breaks cs ds) :
    gap (cs ++ ds) = gap cs ∧ afterGap (cs ++ ds) = afterGap cs ++ ds ∧
      Breaks (afterGap cs) ds := by
  obtain ⟨taken, left, breaks'⟩ := breaks.span (p := isBlank) rfl
  obtain ⟨taken', left', breaks''⟩ := breaks'.span (p := isInLine) rfl
  -- the line feed is no beginning of a comment
  have head : (cs.dropWhile isBlank ++ ds).head? = some '#' ↔
      (cs.dropWhile isBlank).head? = some '#' := by
    cases rest : cs.dropWhile isBlank with
    | nil =>
      rw [rest] at breaks'
      obtain ⟨rest, rfl⟩ := breaks'.nil
      simp
    | cons c rest => simp
  simp only [BasicToC.gap, afterGap, comment, taken, left, head, taken', left', true_and]
  by_cases hash : (cs.dropWhile isBlank).head? = some '#'
  · simpa [hash] using breaks''
  · simpa [hash] using breaks'

namespace Lexeme

/-- The same lexeme in front of a longer text. -/
def extend (lexeme : Lexeme) (ds : List Char) : Lexeme :=
  { lexeme with rest := lexeme.rest ++ ds }

theorem number_extend {cs ds : List Char} (breaks : Breaks cs ds) :
    number (cs ++ ds) = (number cs).extend ds := by
  obtain ⟨taken, left, breaks'⟩ := breaks.span (p := Char.isDigit) rfl
  unfold number
  rw [taken, left]
  cases rest : cs.dropWhile Char.isDigit with
  | nil =>
    -- the line feed is no point
    rw [rest] at breaks'
    obtain ⟨more, rfl⟩ := breaks'.nil
    rfl
  | cons d tail =>
    rw [rest] at breaks'
    by_cases point : d = '.'
    · subst point
      obtain ⟨taken', left', -⟩ := (breaks'.tail (by decide)).span (p := Char.isDigit) rfl
      simp only [List.cons_append, taken', left', extend]
    · simp [point, extend]

theorem word_extend {cs ds : List Char} (breaks : Breaks cs ds) :
    word (cs ++ ds) = (word cs).extend ds := by
  obtain ⟨taken, left, -⟩ := breaks.span (p := Char.isAlphanum) rfl
  simp only [word, taken, left, extend]

theorem string_extend {cs ds : List Char} (breaks : Breaks cs ds)
    (closed : '\n' ∈ cs ∨ (string cs).reading ≠ .error .unterminatedString) :
    string (cs ++ ds) = (string cs).extend ds := by
  obtain ⟨taken, left, -⟩ := breaks.span (p := isInString) rfl
  cases rest : cs.dropWhile isInString with
  | nil =>
    rcases closed with mem | closed
    · -- a string does not run over a line feed
      have breaks' := (Breaks.span (p := isInString) rfl (.inl mem : Breaks cs [])).2.2
      rw [rest] at breaks'
      obtain ⟨more, empty⟩ := breaks'.nil
      cases empty
    · refine absurd ?_ closed
      simp only [string, rest]
  | cons d tail =>
    simp only [string, taken, left, rest, List.cons_append]
    by_cases quote : d = '"' <;> simp [quote, extend]

theorem beginsWith_iff {cs spelling : List Char} : beginsWith cs spelling ↔ spelling <+: cs := by
  rw [beginsWith, beq_iff_eq, List.prefix_iff_eq_take, eq_comm]

theorem symbol_extend {c : Char} {cs ds : List Char} (breaks : Breaks (c :: cs) ds) :
    symbol c (cs ++ ds) = (symbol c cs).extend ds := by
  have begins : ∀ s ∈ Kind.symbols,
      beginsWith (c :: (cs ++ ds)) s.1 = beginsWith (c :: cs) s.1 := by
    -- `=` after `<`, `>`, `=` or `!` is looked for in the same line only
    have inLine : ∀ s ∈ Kind.symbols, '\n' ∉ s.1 := by decide
    intro s mem
    rw [Bool.eq_iff_iff, beginsWith_iff, beginsWith_iff]
    exact ⟨breaks.within (inLine s mem), fun begins => begins.trans (List.prefix_append _ _)⟩
  unfold symbol
  rw [List.find?_congr begins]
  split
  · next spelling kind found =>
    have begins := List.find?_some found
    have within := (beginsWith_iff.mp begins).length_le
    rw [← List.cons_append, List.drop_append_of_le_length within]
    rfl
  · rfl

/-- What comes after a line feed does not change the lexeme in front of it.  A line feed that is
    itself the first to come only tells that an open string will not be closed. -/
theorem first_extend {c : Char} {cs ds : List Char} (breaks : Breaks (c :: cs) ds)
    (closed : '\n' ∈ c :: cs ∨ (first c cs).reading ≠ .error .unterminatedString) :
    first c (cs ++ ds) = (first c cs).extend ds := by
  unfold first at closed ⊢
  by_cases newline : c = '\n'
  · simp [newline, extend]
  · rw [List.mem_cons, or_iff_right (Ne.symm newline), if_neg newline] at closed
    rw [if_neg newline, if_neg newline, ← List.cons_append, number_extend breaks,
      word_extend breaks, symbol_extend breaks]
    split_ifs at closed ⊢
    · rfl
    · rfl
    · exact string_extend (breaks.tail newline) closed
    · rfl

end Lexeme

namespace TokenStream

theorem scan_newline (place : Place) (cs : List Char) :
    scan place ('\n' :: cs) =
      ⟨.ok ⟨.newline, "\n", place.covering 1⟩ :: (scan (place.next '\n') cs).pending,
        (scan (place.next '\n') cs).ending⟩ := by
  have noGap : afterGap ('\n' :: cs) = '\n' :: cs := rfl
  rw [scan_of_afterGap_eq_cons noGap]
  rfl

/-- The first of two texts ends its last line, or it holds no failure and the second begins with a
    line feed. -/
def Apart (place : Place) (cs ds : List Char) : Prop :=
  EndsLine cs ∨ ds.head? = some '\n' ∧ ∀ d : Diagnostic, .error d ∉ (scan place cs).pending

namespace Apart

variable {place : Place} {cs ds tail : List Char} {c : Char}

theorem breaks (apart : Apart place cs ds) (nonempty : cs ≠ []) : Breaks cs ds :=
  apart.imp (fun ends => ends.mem nonempty) fun behind => behind.1

theorem closed (apart : Apart place cs ds) (after : afterGap cs = c :: tail) :
    '\n' ∈ c :: tail ∨ (Lexeme.first c tail).reading ≠ .error .unterminatedString := by
  rcases apart with ends | ⟨-, noFailure⟩
  · rw [← gap_append_afterGap cs, after] at ends
    exact .inl (ends.of_append.mem (by simp))
  · refine .inr fun isOpen => ?_
    rw [scan_of_afterGap_eq_cons after] at noFailure
    exact noFailure _ (List.mem_cons.mpr
      (.inl (Lexeme.pull_eq_error_iff.mpr ⟨_, isOpen, rfl⟩).symm))

/-- The rest of the first text is as far apart from the second. -/
theorem rest (apart : Apart place cs ds) (after : afterGap cs = c :: tail) :
    Apart ((place.after (gap cs)).after (Lexeme.first c tail).spelling) (Lexeme.first c tail).rest
      ds := by
  rcases apart with ends | ⟨behind, noFailure⟩
  · rw [← gap_append_afterGap cs, after, ← Lexeme.first_append c tail, ← List.append_assoc] at ends
    exact .inl ends.of_append
  · rw [scan_of_afterGap_eq_cons after] at noFailure
    exact .inr ⟨behind, fun d mem => noFailure d (List.mem_cons_of_mem _ mem)⟩

end Apart

/-- Two texts that are apart are scanned one after the other. -/
theorem scan_append {place : Place} {cs ds : List Char} (apart : Apart place cs ds) :
    scan place (cs ++ ds) =
      ⟨(scan place cs).pending ++ (scan (place.after cs) ds).pending,
        (scan (place.after cs) ds).ending⟩ := by
  have whole := gap_append_afterGap cs
  -- the induction follows the scanner over the first text, and `Apart` stays true of what is left
  fun_induction scan place cs with
  | case1 place cs start after =>
    by_cases empty : cs = []
    · subst empty
      rfl
    · -- a line feed is no part of a gap, so it comes right behind
      obtain ⟨sameGap, left, behind⟩ := (apart.breaks empty).gap
      rw [after] at left behind
      obtain ⟨rest, rfl⟩ := behind.nil
      rw [after, List.append_nil] at whole
      rw [scan_of_afterGap_eq_cons left, scan_newline, sameGap, whole]
      rfl
  | case2 place cs start c tail after lexeme rest ih =>
    have nonempty : cs ≠ [] := by
      rintro rfl
      cases after
    obtain ⟨sameGap, left, breaks⟩ := (apart.breaks nonempty).gap
    rw [after] at left breaks
    rw [List.cons_append] at left
    rw [after, ← Lexeme.first_append c tail] at whole
    have further : (start.after lexeme.spelling).after lexeme.rest = place.after cs := by
      rw [← whole, Place.after_append, Place.after_append]
    have others := ih (apart.rest after) (gap_append_afterGap _)
    rw [further] at others
    rw [scan_of_afterGap_eq_cons left, sameGap, Lexeme.first_extend breaks (apart.closed after)]
    simp only [Lexeme.extend]
    rw [others]
    rfl

end TokenStream

/-! ## Counting lines on -/

/-- The same place some lines further down. -/
def Place.lower (n : Nat) (p : Place) : Place := ⟨p.line + n, p.column⟩

/-- The same token some lines further down. -/
def Token.lower (n : Nat) (t : Token) : Token :=
  { t with position := ⟨t.position.line + n, t.position.column⟩ }

/-- The same report some lines further down. -/
def Diagnostic.lower (n : Nat) (d : Diagnostic) : Diagnostic :=
  { d with line := d.line.map (· + n) }

theorem Place.after_lower (n : Nat) (p : Place) (cs : List Char) :
    (p.lower n).after cs = (p.after cs).lower n := by
  induction cs generalizing p with
  | nil => rfl
  | cons c cs ih =>
    have next : (p.lower n).next c = (p.next c).lower n := by
      unfold Place.next
      split
      · simp [Place.lower, Nat.add_right_comm]
      · rfl
    rw [Place.after_cons, next, ih, Place.after_cons]

theorem EndsLine.after_start {cs : List Char} (ends : EndsLine cs) :
    Place.start.after cs = Place.start.lower (cs.count '\n') := by
  rw [Place.after_start]
  cases cs using List.reverseRecOn with
  | nil => rfl
  | append_singleton cs c =>
    obtain rfl : c = '\n' := ends c (by simp)
    simp [Place.start, Place.lower, isInLine]

/-- What a pull gives, some lines further down. -/
def TokenStream.lowerItem (n : Nat) : Except Diagnostic Token → Except Diagnostic Token
  | .ok t => .ok (t.lower n)
  | .error d => .error (d.lower n)

theorem Lexeme.pull_lower (lexeme : Lexeme) (n : Nat) (place : Place) :
    lexeme.pull (place.lower n) = TokenStream.lowerItem n (lexeme.pull place) := by
  unfold Lexeme.pull
  cases lexeme.reading <;> rfl

namespace TokenStream

/-- The same text further down has the same tokens and failures further down. -/
theorem scan_lower (n : Nat) (place : Place) (cs : List Char) :
    scan (place.lower n) cs =
      ⟨(scan place cs).pending.map (lowerItem n), (scan place cs).ending.lower n⟩ := by
  fun_induction scan place cs with
  | case1 place cs start after =>
    rw [scan_of_afterGap_eq_nil after, Place.after_lower]
    rfl
  | case2 place cs start c tail after lexeme rest ih =>
    rw [scan_of_afterGap_eq_cons after]
    simp only [Place.after_lower, Lexeme.pull_lower, List.map_cons]
    rw [ih]

/-- A text is left at its end. -/
theorem ending_scan (place : Place) (cs : List Char) : (scan place cs).ending = place.after cs := by
  have whole := gap_append_afterGap cs
  fun_induction scan place cs with
  | case1 place cs start after =>
    rw [after, List.append_nil] at whole
    rw [← whole]
  | case2 place cs start c tail after lexeme rest ih =>
    rw [after, ← Lexeme.first_append c tail] at whole
    rw [← whole, Place.after_append, Place.after_append]
    exact ih (gap_append_afterGap _)

theorem collect_append (ts : List Token) (items : List (Except Diagnostic Token)) :
    collect (ts.map .ok ++ items) = (collect items).map (ts ++ ·) := by
  induction ts with
  | nil => cases collected : collect items <;> simp [collected, Except.map]
  | cons t ts ih =>
    rw [List.map_cons, List.cons_append, collect, ih]
    cases collect items <;> rfl

theorem collect_lower (n : Nat) (items : List (Except Diagnostic Token)) :
    collect (items.map (lowerItem n)) =
      ((collect items).map (List.map (Token.lower n))).mapError (Diagnostic.lower n) := by
  induction items with
  | nil => rfl
  | cons item items ih =>
    cases item with
    | error d => rfl
    | ok t =>
      rw [List.map_cons, lowerItem, collect, ih, collect]
      cases collect items <;> rfl

end TokenStream

/-! ## Lexing line after line -/

/-- The stream of a text without failures is its tokens in front of the end. -/
theorem stream_of_lexed {source : String} {ts : List Token} (lexed : lex source = .ok ts) :
    ∃ ending, TokenStream.ofText source = ⟨(Token.beforeEnd ts).map .ok, ending⟩ ∧
      ts = Token.beforeEnd ts ++ [.eof ending] := by
  obtain ⟨⟨ending', whole⟩, -⟩ := tokens_of_lexed lexed
  obtain ⟨later, ending, stream, split⟩ := ofText_of_lexed lexed
  obtain ⟨same, -⟩ := List.append_inj' (whole.symm.trans split) rfl
  rw [same]
  exact ⟨ending, stream, split⟩

/-- Lexing behind a text that ends its last line: the end of the first text is left out, and the
    lines of the second are counted on. -/
theorem lex_append_eq {s₁ : String} {ts₁ : List Token} (ends : EndsLine s₁.toList)
    (lexed₁ : lex s₁ = .ok ts₁) (s₂ : String) :
    lex (s₁ ++ s₂) =
      ((lex s₂).map fun ts₂ =>
        Token.beforeEnd ts₁ ++ ts₂.map (Token.lower (s₁.toList.count '\n'))).mapError
          (Diagnostic.lower (s₁.toList.count '\n')) := by
  obtain ⟨ending, stream₁, -⟩ := stream_of_lexed lexed₁
  unfold TokenStream.ofText at stream₁
  rw [lex, TokenStream.ofText, String.toList_append, TokenStream.scan_append (.inl ends),
    ends.after_start, TokenStream.scan_lower, stream₁, TokenStream.tokens]
  dsimp only
  rw [TokenStream.collect_append, TokenStream.collect_lower, lex, TokenStream.tokens]
  unfold TokenStream.ofText
  cases TokenStream.collect (TokenStream.scan .start s₂.toList).pending with
  | error d => rfl
  | ok ts =>
    simp only [Except.map, Except.mapError, List.map_append, List.append_assoc]
    rfl

/-- Two texts in a row are lexed as one: the end of the first is left out, and the lines of the
    second are counted on. -/
theorem lex_append {s₁ s₂ : String} {ts₁ ts₂ : List Token} (ends : EndsLine s₁.toList)
    (lexed₁ : lex s₁ = .ok ts₁) (lexed₂ : lex s₂ = .ok ts₂) :
    lex (s₁ ++ s₂) =
      .ok (Token.beforeEnd ts₁ ++ ts₂.map (Token.lower (s₁.toList.count '\n'))) := by
  rw [lex_append_eq ends lexed₁, lexed₂]
  rfl

/-- A line feed behind a text is a token where the text ended. -/
theorem lex_append_lineFeed {s : String} {ts : List Token} (lexed : lex s = .ok ts) :
    ∃ ending, ts = Token.beforeEnd ts ++ [.eof ending] ∧
      lex (s ++ "\n") =
        .ok (Token.beforeEnd ts ++ [⟨.newline, "\n", ending.covering 1⟩] ++
          [.eof (ending.next '\n')]) := by
  obtain ⟨ending, stream, whole⟩ := stream_of_lexed lexed
  unfold TokenStream.ofText at stream
  refine ⟨ending, whole, ?_⟩
  have apart : TokenStream.Apart .start s.toList ['\n'] := by
    refine .inr ⟨rfl, fun d mem => ?_⟩
    simp [stream] at mem
  have ends : Place.start.after s.toList = ending := by rw [← TokenStream.ending_scan, stream]
  have lineFeed : (s ++ "\n").toList = s.toList ++ ['\n'] := by simp
  rw [lex, TokenStream.ofText, lineFeed, TokenStream.scan_append apart, ends, stream,
    TokenStream.scan_newline, TokenStream.scan_of_afterGap_eq_nil rfl, TokenStream.tokens]
  dsimp only
  rw [TokenStream.collect_append]
  rfl

theorem exists_line_of_lex {s : String} {d : Diagnostic} (failed : lex s = .error d) :
    ∃ line, d.line = some line := by
  unfold lex TokenStream.tokens at failed
  obtain ⟨ts, -, collected⟩ | ⟨ts, d', rest, pending, collected⟩ :=
    TokenStream.collect_cases (TokenStream.ofText s).pending
  · rw [collected] at failed
    cases failed
  · rw [collected] at failed
    cases failed
    have mem : .error d ∈ (TokenStream.ofText s).pending := by simp [pending]
    exact TokenStream.exists_line_of_mem_scan mem

/-- A line feed is a border for the lexer.  Behind a text without failures it is a token where the
    text ended, and what comes after it is lexed as if it stood alone, on lines that are counted
    on. -/
theorem lex_append_newline {s₁ : String} {ts₁ : List Token} (lexed₁ : lex s₁ = .ok ts₁) :
    ∃ (before : List Token) (ending : Place), ts₁ = before ++ [.eof ending] ∧
      ∀ s₂ : String,
        ((∃ ts, lex (s₁ ++ "\n" ++ s₂) = .ok ts) ↔ ∃ ts₂, lex s₂ = .ok ts₂) ∧
        (∀ ts₂, lex s₂ = .ok ts₂ →
          lex (s₁ ++ "\n" ++ s₂) =
            .ok (before ++ ⟨.newline, "\n", ending.covering 1⟩ ::
              ts₂.map (Token.lower (s₁.toList.count '\n' + 1)))) ∧
        ∀ d, lex s₂ = .error d →
          ∃ line, d.line = some line ∧
            lex (s₁ ++ "\n" ++ s₂) =
              .error { d with line := some (line + (s₁.toList.count '\n' + 1)) } := by
  -- with the line feed the first text ends its line, and the second one comes behind it
  obtain ⟨ending, whole, lexed⟩ := lex_append_lineFeed lexed₁
  refine ⟨Token.beforeEnd ts₁, ending, whole, fun s₂ => ?_⟩
  obtain ⟨ending', -, whole'⟩ := stream_of_lexed lexed
  have before := (List.append_inj' whole' rfl).1
  have ends : EndsLine (s₁ ++ "\n").toList := by simp [EndsLine]
  have lines : (s₁ ++ "\n").toList.count '\n' = s₁.toList.count '\n' + 1 := by simp
  have further := lex_append_eq ends lexed s₂
  rw [lines, ← before] at further
  rw [further]
  cases lexed₂ : lex s₂ with
  | ok ts₂ =>
    refine ⟨by simp [Except.map, Except.mapError], ?_, by simp⟩
    rintro _ ⟨⟩
    simp [Except.map, Except.mapError]
  | error d =>
    refine ⟨by simp [Except.map, Except.mapError], by simp, ?_⟩
    rintro _ ⟨⟩
    obtain ⟨line, isLine⟩ := exists_line_of_lex lexed₂
    refine ⟨line, isLine, ?_⟩
    simp [Except.map, Except.mapError, Diagnostic.lower, isLine]

theorem lex_append_newline_of_comparison :
    let s₁ := "IF 1 # one\n<"
    let ts₁ : List Token := [⟨.keyword .ifHead, "IF", ⟨1, ⟨0, 2⟩⟩⟩, ⟨.number, "1", ⟨1, ⟨3, 4⟩⟩⟩,
      ⟨.newline, "\n", ⟨1, ⟨10, 11⟩⟩⟩, ⟨.comparison .less, "<", ⟨2, ⟨0, 1⟩⟩⟩, .eof ⟨2, 1⟩]
    lex s₁ = .ok ts₁ ∧
      ∃ before ending, ts₁ = before ++ [.eof ending] ∧
        lex (s₁ ++ "\n" ++ "= x") =
          .ok (before ++ ⟨.newline, "\n", ending.covering 1⟩ ::
            [⟨.becomes, "=", ⟨3, ⟨0, 1⟩⟩⟩, ⟨.ident, "x", ⟨3, ⟨2, 3⟩⟩⟩, .eof ⟨3, 3⟩]) ∧
        lex (s₁ ++ "\n" ++ " !") =
          .error ⟨.illegalCharacter, some 3, ⟨1, 2⟩, "EXPECTED !=, GOT !"⟩ := by
  intro s₁ ts₁
  have lexed : lex s₁ = .ok ts₁ := by decide +kernel
  have lines : s₁.toList.count '\n' = 1 := by decide
  obtain ⟨before, ending, whole, border⟩ := lex_append_newline lexed
  rw [lines] at border
  obtain ⟨-, goesOn, -⟩ := border "= x"
  obtain ⟨-, -, fails⟩ := border " !"
  refine ⟨lexed, before, ending, whole, ?_, ?_⟩
  · exact goesOn [⟨.becomes, "=", ⟨1, ⟨0, 1⟩⟩⟩, ⟨.ident, "x", ⟨1, ⟨2, 3⟩⟩⟩, .eof ⟨1, 3⟩]
      (by decide +kernel)
  · obtain ⟨line, isLine, failed⟩ :=
      fails ⟨.illegalCharacter, some 1, ⟨1, 2⟩, "EXPECTED !=, GOT !"⟩ (by decide +kernel)
    cases isLine
    exact failed

end BasicToC
