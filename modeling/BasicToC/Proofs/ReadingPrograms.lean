import BasicToC.Proofs.ReadingLines

/-! # Statements and programs are read

Statements are read line by line, and blocks as lines inside lines.  Again there are two facts:
`Spelled.reads`, that statements whose names a ledger allows are read and leave the reader with the
names of that ledger, and `Region.statements_or_fails`, that a reader that waits for statements
finds some or fails.
-/

namespace BasicToC

/-! ## Reading statements -/

/-- Where statements stand: in the program itself, or in the block of a construct. -/
inductive Region where
  | top
  | block (c : Construct)

namespace Region

def phrase : Region → Phrase
  | top => .statements
  | block c => .block c.close

/-- What comes after the last statement. -/
def closing : Region → Kind
  | top => .eof
  | block c => .keyword c.close

end Region

theorem Region.closing_ne_newline (region : Region) : region.closing ≠ .newline := by
  cases region <;> nofun

/-- The beginning of the code of a construct. -/
def Construct.opening : Construct → Fragment
  | ifThen => .openIf
  | whileRepeat => .openWhile

theorem Region.predict_line (region : Region) {k : LineKind} {t : Token}
    (isHead : t.kind = .keyword k.keyword) (scope : Scope) :
    region.phrase.predict scope t =
      .shift none [.read k.phrase, .read .lineEnd, .read region.phrase] := by
  cases k <;> rcases region with _ | (_ | _) <;>
    simp [isHead, Phrase.predict, Token.beginStatement, Region.phrase, LineKind.phrase,
      Construct.close]

theorem Region.predict_governed (region : Region) {c : Construct} {t : Token}
    (isHead : t.kind = .keyword c.head) (scope : Scope) :
    region.phrase.predict scope t =
      .shift none (Goal.governed c.opening c.thenWord c.close ++
        [.read .lineEnd, .read region.phrase]) := by
  cases c <;> rcases region with _ | (_ | _) <;>
    simp [isHead, Phrase.predict, Token.beginStatement, Region.phrase, Construct.head,
      Construct.opening, Construct.thenWord, Construct.close]

/-- What can come where statements stand: the end of them, a line, a construct; anything else is
    rejected. -/
theorem Region.predict_cases (region : Region) (scope : Scope) (t : Token) :
    t.kind = region.closing ∨ (∃ k : LineKind, t.kind = .keyword k.keyword) ∨
      (∃ c : Construct, t.kind = .keyword c.head) ∨
      ∃ problem : Problem, problem.code ≠ .undefinedLabel ∧
        region.phrase.predict scope t = .reject problem := by
  by_cases isClose : t.kind = region.closing
  · exact Or.inl isClose
  · have begins : (∃ problem : Problem, problem.code ≠ .undefinedLabel ∧
        region.phrase.predict scope t = .reject problem) ∨
        region.phrase.predict scope t = t.beginStatement region.phrase := by
      cases region with
      | top => exact Or.inr (if_neg isClose)
      | block c =>
        by_cases isEnd : t.kind = .eof
        · refine Or.inl ⟨.expected (.keyword c.close) .eof, by simp [Problem.code], ?_⟩
          simp [Region.phrase, Phrase.predict, isEnd]
        · exact Or.inr ((if_neg isClose).trans (if_neg isEnd))
    obtain rejects | begins := begins
    · exact Or.inr (Or.inr (Or.inr rejects))
    · rw [begins]
      unfold Token.beginStatement
      split
      · next isHead => exact Or.inr (Or.inl ⟨.print, isHead⟩)
      · next isHead => exact Or.inr (Or.inr (Or.inl ⟨.ifThen, isHead⟩))
      · next isHead => exact Or.inr (Or.inr (Or.inl ⟨.whileRepeat, isHead⟩))
      · next isHead => exact Or.inr (Or.inl ⟨.label, isHead⟩)
      · next isHead => exact Or.inr (Or.inl ⟨.goto, isHead⟩)
      · next isHead => exact Or.inr (Or.inl ⟨.assign, isHead⟩)
      · next isHead => exact Or.inr (Or.inl ⟨.input, isHead⟩)
      · exact Or.inr (Or.inr (Or.inr ⟨.invalidStatement t, by simp [Problem.code], rfl⟩))

/-! ### Names in statements -/

/-- After a line no keyword waits for a name. -/
theorem Line.last_enterAll {k : LineKind} {ts : List Token} {s : Statement} (isLine : Line k ts s)
    (scope : Scope) : ((Ledger.afterHead k scope).enterAll ts).last.names = false := by
  cases isLine with
  | printText isString => simp [Ledger.enter, isString, Kind.names, Kind.assigns, Kind.labels,
      Kind.jumps]
  | @print _ value spelled =>
    exact (Ledger.enterAll_of_plain rfl (Token.plain_of_words spelled value.plain_words)).2
  | label isName | goto isName | input isName =>
    simp [Ledger.enter, isName, Kind.names, Kind.assigns, Kind.labels, Kind.jumps]
  | @assign _ sign _ value _ isSign spelled =>
    have plain := Token.plain_of_words spelled value.plain_words
    refine (Ledger.enterAll_of_plain ?_ plain).2
    simp [Ledger.enter, isSign, Kind.names, Kind.assigns, Kind.labels, Kind.jumps]

/-- What a ledger makes of a line and of what comes after it. -/
theorem Line.ledger {k : LineKind} {head : Token} {ts ns : List Token} {s : Statement}
    (isHead : head.kind = .keyword k.keyword) (isLine : Line k ts s) (isEnd : LineEnd ns)
    (scope : Scope) (rest : List Token) :
    ((Ledger.atLine scope).AllowsAll (head :: (ts ++ (ns ++ rest))) ↔
      (Ledger.afterHead k scope).AllowsAll ts ∧
        (Ledger.atLine ((Ledger.afterHead k scope).enterAll ts).scope).AllowsAll rest) ∧
    (Ledger.atLine scope).enterAll (head :: (ts ++ (ns ++ rest))) =
      (Ledger.atLine ((Ledger.afterHead k scope).enterAll ts).scope).enterAll rest := by
  have plain := isLine.last_enterAll scope
  have headed : (Ledger.atLine scope).enter head = .afterHead k scope := by
    rw [Ledger.enter_of_plain rfl, isHead]
    rfl
  have allowsHead : (Ledger.atLine scope).Allows head := by
    rw [Ledger.allows_of_plain rfl]
    simp [isHead]
  -- the line has been entered, and only its end is still to come
  have noMore : Token.Plain [] := by simp [Token.Plain]
  rw [Ledger.allowsAll_cons, Ledger.enterAll_cons, headed, Ledger.allowsAll_append,
    Ledger.enterAll_append]
  refine ⟨?_, Ledger.enterAll_line plain noMore isEnd rest⟩
  have allowsRest := Ledger.allowsAll_line plain noMore isEnd rest
  rw [List.nil_append] at allowsRest
  simp [allowsHead, allowsRest]

/-- The line of a condition gives no name. -/
theorem Construct.plain_head (c : Construct) {head thenToken : Token} {cs : List Token}
    {condition : Condition} (isHead : head.kind = .keyword c.head)
    (isCondition : cs.map Token.word = condition.words)
    (isThen : thenToken.kind = .keyword c.thenWord) :
    Token.Plain (head :: (cs ++ [thenToken])) := by
  have plainCondition := Token.plain_of_words isCondition condition.plain_words
  intro t mem
  rcases List.mem_cons.mp mem with rfl | mem
  · rw [isHead]
    cases c <;> rfl
  · rcases List.mem_append.mp mem with mem | mem
    · exact plainCondition t mem
    · rw [List.mem_singleton.mp mem, isThen]
      cases c <;> rfl

theorem Construct.plain_close (c : Construct) {close : Token}
    (isClose : close.kind = .keyword c.close) : Token.Plain [close] := by
  intro t mem
  rw [List.mem_singleton.mp mem, isClose]
  cases c <;> rfl

/-- What a ledger makes of a construct and of what comes after it, if the block in it leaves no
    keyword that waits for a name. -/
theorem Construct.ledger (c : Construct) {head thenToken close : Token}
    {cs ns bs ns' : List Token} {condition : Condition} {scope : Scope}
    (isHead : head.kind = .keyword c.head) (isCondition : cs.map Token.word = condition.words)
    (isThen : thenToken.kind = .keyword c.thenWord) (isEnd : LineEnd ns)
    (plainBody : ((Ledger.atLine scope).enterAll bs).last.names = false)
    (isClose : close.kind = .keyword c.close) (isEnd' : LineEnd ns') (rest : List Token) :
    ((Ledger.atLine scope).AllowsAll
        (head :: (cs ++ thenToken :: (ns ++ (bs ++ close :: (ns' ++ rest))))) ↔
      Token.Known scope cs ∧ (Ledger.atLine scope).AllowsAll bs ∧
        (Ledger.atLine ((Ledger.atLine scope).enterAll bs).scope).AllowsAll rest) ∧
    (Ledger.atLine scope).enterAll
        (head :: (cs ++ thenToken :: (ns ++ (bs ++ close :: (ns' ++ rest))))) =
      (Ledger.atLine ((Ledger.atLine scope).enterAll bs).scope).enterAll rest := by
  have plainLine := c.plain_head isHead isCondition isThen
  have plainClose := c.plain_close isClose
  have split : head :: (cs ++ thenToken :: (ns ++ (bs ++ close :: (ns' ++ rest)))) =
      (head :: (cs ++ [thenToken])) ++ (ns ++ (bs ++ ([close] ++ (ns' ++ rest)))) := by
    simp
  rw [split]
  constructor
  · rw [Ledger.allowsAll_line rfl plainLine isEnd, Ledger.allowsAll_append, Ledger.scope_atLine,
      Ledger.allowsAll_line plainBody plainClose isEnd']
    simp [isHead, isThen, isClose]
  · rw [Ledger.enterAll_line rfl plainLine isEnd, Ledger.enterAll_append, Ledger.scope_atLine,
      Ledger.enterAll_line plainBody plainClose isEnd']

/-- Statements leave a ledger at the beginning of a line. -/
theorem Spelled.enterAll_eq {program : List Statement} {ts : List Token}
    (spelled : Spelled program ts) (scope : Scope) :
    (Ledger.atLine scope).enterAll ts = .atLine ((Ledger.atLine scope).enterAll ts).scope := by
  induction spelled generalizing scope with
  | nil => rfl
  | line k isHead isLine isEnd others ih =>
    rw [(Line.ledger isHead isLine isEnd scope _).2]
    exact ih _
  | governed c isHead isCondition isThen isEnd inner isClose isEnd' others ihInner ihOthers =>
    have plainBody := congrArg (·.last.names) (ihInner scope)
    rw [(c.ledger isHead isCondition isThen isEnd plainBody isClose isEnd' _).2]
    exact ihOthers _

theorem Spelled.last_enterAll {program : List Statement} {ts : List Token}
    (spelled : Spelled program ts) (scope : Scope) :
    ((Ledger.atLine scope).enterAll ts).last.names = false := by
  rw [spelled.enterAll_eq]
  rfl

theorem Spelled.append {first second : List Statement} {ts us : List Token}
    (spelled : Spelled first ts) (more : Spelled second us) :
    Spelled (first ++ second) (ts ++ us) := by
  induction spelled with
  | nil => exact more
  | line k isHead isLine isEnd others ih => simpa using Spelled.line k isHead isLine isEnd ih
  | governed c isHead isCondition isThen isEnd inner isClose isEnd' others ihInner ihOthers =>
    simpa using Spelled.governed c isHead isCondition isThen isEnd inner isClose isEnd' ihOthers

/-! ### Statements that are there -/

/-- No statement begins with a line end. -/
theorem Spelled.current_ne_newline {program : List Statement} {ts : List Token}
    (spelled : Spelled program ts) {r : Reader} (stop : r.current.kind ≠ .newline) :
    (r.before ts).current.kind ≠ .newline := by
  cases spelled with
  | nil => exact stop
  | line k isHead => simp [isHead]
  | governed c isHead => simp [isHead]

/-- A line is read from its keyword to its end. -/
theorem Line.reads_whole {k : LineKind} {head : Token} {ts ns : List Token} {s : Statement}
    (isHead : head.kind = .keyword k.keyword) (isLine : Line k ts s) (isEnd : LineEnd ns)
    {r : Reader} (allowed : (Ledger.afterHead k r.scope).AllowsAll ts)
    (stop : r.current.kind ≠ .newline) (region : Region) (rest : List Goal) :
    (r.before (head :: (ts ++ ns))).run (.read region.phrase :: rest) =
      ((r.withScope ((Ledger.afterHead k r.scope).enterAll ts).scope).write s.fragments).run
        (.read region.phrase :: rest) := by
  have stopLine : ¬ (r.before ns).current.kind.extendsExpression := by
    obtain ⟨n, ns, rfl⟩ := List.exists_cons_of_ne_nil isEnd.1
    simp [isEnd.2 n, Kind.extendsExpression, Kind.extendsTerm]
  -- keyword, line, line end
  rw [Reader.run_take (region.predict_line isHead r.scope), Reader.before_append]
  refine (isLine.reads (r := r.before ns) allowed (fun _ => stopLine) _).trans ?_
  rw [Reader.withScope_before, Reader.write_before]
  refine Reader.run_lineEnd isEnd ?_ _
  exact stop

/-- A construct is read up to its block. -/
theorem Construct.reads_head (c : Construct) {head thenToken : Token} {cs ns : List Token}
    {condition : Condition} (isHead : head.kind = .keyword c.head)
    (isCondition : cs.map Token.word = condition.words)
    (isThen : thenToken.kind = .keyword c.thenWord) (isEnd : LineEnd ns) {r : Reader}
    (known : Token.Known r.scope cs) (stop : r.current.kind ≠ .newline) (region : Region)
    (rest : List Goal) :
    (r.before (head :: (cs ++ thenToken :: ns))).run (.read region.phrase :: rest) =
      (r.write (c.opening :: (condition.fragments ++ [.openBody]))).run
        (.read (Region.block c).phrase :: .read .lineEnd :: .read region.phrase :: rest) := by
  have stopCondition : ¬ (r.before (thenToken :: ns)).current.kind.extendsCondition := by
    simp [isThen, Kind.extendsCondition, Kind.extendsExpression, Kind.extendsTerm]
  have predictedThen : (Phrase.keyword c.thenWord).predict r.scope thenToken = .shift none [] := by
    simp [Phrase.predict, isThen]
  let opened := r.write [c.opening]
  let read := opened.write condition.fragments
  let after : List Goal := .read .lineEnd :: .act (.emit .openBody) ::
    .read (Region.block c).phrase :: .read .lineEnd :: .read region.phrase :: rest
  calc (r.before (head :: (cs ++ thenToken :: ns))).run (.read region.phrase :: rest)
      = ((opened.before (thenToken :: ns)).before cs).run
          (.read .condition :: .read (.keyword c.thenWord) :: after) := by
        rw [Reader.run_take (region.predict_governed isHead r.scope), Reader.before_append]
        exact Reader.run_emit _ _ _
    _ = (read.before (thenToken :: ns)).run (.read (.keyword c.thenWord) :: after) :=
        Reads.condition.reads (r := opened.before (thenToken :: ns)) isCondition known
          stopCondition _
    _ = (read.before ns).run after := Reader.run_take (r := read) predictedThen ns after
    _ = read.run (.act (.emit .openBody) :: .read (Region.block c).phrase :: .read .lineEnd ::
          .read region.phrase :: rest) := Reader.run_lineEnd (r := read) isEnd stop _
    _ = _ := by
        rw [Reader.run_emit]
        simp [read, opened]

theorem Construct.reads_close (c : Construct) {close : Token} {ns : List Token}
    (isClose : close.kind = .keyword c.close) (isEnd : LineEnd ns) {r : Reader}
    (stop : r.current.kind ≠ .newline) (rest : List Goal) :
    (r.before (close :: ns)).run (.read (Region.block c).phrase :: .read .lineEnd :: rest) =
      (r.write [.closeBody]).run rest := by
  have predicted : (Region.block c).phrase.predict r.scope close =
      .shift none [.act (.emit .closeBody)] := by
    simp [Region.phrase, Phrase.predict, isClose]
  rw [Reader.run_take predicted, List.singleton_append, Reader.run_emit, Reader.write_before]
  exact Reader.run_lineEnd (r := r.write [.closeBody]) isEnd stop _

theorem Construct.fragments_statement (c : Construct) (condition : Condition)
    (body : List Statement) :
    (c.statement condition body).fragments =
      c.opening :: (condition.fragments ++ [.openBody]) ++ Statement.allFragments body ++
        [.closeBody] := by
  cases c <;> simp [Construct.statement, Construct.opening, Statement.fragments]

/-- Statements that are there are read, and the reader waits for more. -/
theorem Spelled.reads {program : List Statement} {ts : List Token} (spelled : Spelled program ts)
    {r : Reader} (allowed : (Ledger.atLine r.scope).AllowsAll ts)
    (stop : r.current.kind ≠ .newline) (region : Region) (rest : List Goal) :
    (r.before ts).run (.read region.phrase :: rest) =
      ((r.withScope ((Ledger.atLine r.scope).enterAll ts).scope).write
        (Statement.allFragments program)).run (.read region.phrase :: rest) := by
  -- the region is not fixed, since the block of a construct is a region of its own
  induction spelled generalizing r region rest with
  | nil => simp [Statement.allFragments]
  | @line k head ts ns others s more isHead isLine isEnd spelled ih =>
    obtain ⟨allows, enters⟩ := Line.ledger isHead isLine isEnd r.scope others
    obtain ⟨allowsLine, allowsOthers⟩ := allows.mp allowed
    let u := (r.withScope ((Ledger.afterHead k r.scope).enterAll ts).scope).write s.fragments
    have split : head :: (ts ++ (ns ++ others)) = (head :: (ts ++ ns)) ++ others := by simp
    calc (r.before (head :: (ts ++ (ns ++ others)))).run (.read region.phrase :: rest)
        = (u.before others).run (.read region.phrase :: rest) := by
          rw [split, Reader.before_append]
          exact isLine.reads_whole isHead isEnd (r := r.before others) allowsLine
            (spelled.current_ne_newline stop) region rest
      _ = _ := by
          rw [ih (r := u) allowsOthers stop, enters]
          simp [u, Statement.allFragments]
  | @governed c head thenToken close cs ns bs ns' others condition body more isHead isCondition
      isThen isEnd inner isClose isEnd' spelled ihInner ihOthers =>
    obtain ⟨allows, enters⟩ :=
      c.ledger isHead isCondition isThen isEnd (inner.last_enterAll r.scope) isClose isEnd' others
    obtain ⟨known, allowsBody, allowsOthers⟩ := allows.mp allowed
    let after : List Goal := .read .lineEnd :: .read region.phrase :: rest
    let opened := r.write (c.opening :: (condition.fragments ++ [.openBody]))
    let filled := (opened.withScope ((Ledger.atLine r.scope).enterAll bs).scope).write
      (Statement.allFragments body)
    have split : head :: (cs ++ thenToken :: (ns ++ (bs ++ close :: (ns' ++ others)))) =
        (head :: (cs ++ thenToken :: ns)) ++ (bs ++ ((close :: ns') ++ others)) := by simp
    have stopOthers := spelled.current_ne_newline (r := r) stop
    have stopBody : (opened.before ((close :: ns') ++ others)).current.kind ≠ .newline := by
      simp [isClose]
    calc (r.before (head :: (cs ++ thenToken :: (ns ++ (bs ++ close :: (ns' ++ others)))))).run
            (.read region.phrase :: rest)
        = (opened.before (bs ++ ((close :: ns') ++ others))).run
            (.read (Region.block c).phrase :: after) := by
          rw [split, Reader.before_append]
          refine c.reads_head isHead isCondition isThen isEnd
            (r := r.before (bs ++ ((close :: ns') ++ others))) known ?_ region rest
          rw [Reader.before_append]
          exact inner.current_ne_newline stopBody
      _ = ((filled.before others).before (close :: ns')).run
            (.read (Region.block c).phrase :: after) := by
          rw [Reader.before_append]
          refine (ihInner (r := opened.before ((close :: ns') ++ others)) allowsBody stopBody
            (.block c) after).trans ?_
          rw [Reader.before_append]
          rfl
      _ = ((filled.write [.closeBody]).before others).run (.read region.phrase :: rest) :=
          c.reads_close isClose isEnd' (r := filled.before others) stopOthers _
      _ = _ := by
          rw [ihOthers (r := filled.write [.closeBody]) allowsOthers stop, enters]
          simp [filled, opened, Statement.allFragments, c.fragments_statement]

/-! ### Statements are there, or reading fails -/

/-- The reader stands in front of the tokens of statements, and their names are allowed. -/
structure Reader.Finds (r : Reader) (program : List Statement) (ts rest : List Token) : Prop where
  unread : r.unread = ts ++ rest
  spelled : Spelled program ts
  allowed : (Ledger.atLine r.scope).AllowsAll ts
  stop : (r.skipTo rest).current.kind ≠ .newline

/-- The reader after such statements. -/
def Reader.past (r : Reader) (program : List Statement) (ts rest : List Token) : Reader :=
  ((r.skipTo rest).withScope ((Ledger.atLine r.scope).enterAll ts).scope).write
    (Statement.allFragments program)

theorem Reader.Finds.run {r : Reader} {program : List Statement} {ts rest : List Token}
    (found : r.Finds program ts rest) (region : Region) (others : List Goal) :
    r.run (.read region.phrase :: others) =
      (r.past program ts rest).run (.read region.phrase :: others) := by
  conv_lhs => rw [Reader.eq_before_skipTo found.unread]
  exact found.spelled.reads (r := r.skipTo rest) found.allowed found.stop region others

theorem Reader.Finds.append {r : Reader} {first second : List Statement}
    {ts us rest rest' : List Token} (found : r.Finds first ts rest)
    (more : (r.past first ts rest).Finds second us rest') :
    r.Finds (first ++ second) (ts ++ us) rest' where
  unread := by
    have split : rest = us ++ rest' := more.unread
    rw [found.unread, split, List.append_assoc]
  spelled := found.spelled.append more.spelled
  allowed := by
    rw [Ledger.allowsAll_append, found.spelled.enterAll_eq]
    exact ⟨found.allowed, more.allowed⟩
  stop := more.stop

/-- Where a line begins there is all of it, or reading fails. -/
theorem LineKind.whole_or_fails (k : LineKind) {r : Reader}
    (isHead : r.current.kind = .keyword k.keyword) (region : Region) :
    (∃ s ts rest, r.Finds [s] (r.current :: ts) rest) ∨ r.Fails [.read region.phrase] := by
  have run : ∀ others, r.run ([.read region.phrase] ++ others) =
      r.advance.run ([.read k.phrase, .read .lineEnd, .read region.phrase] ++ others) := by
    intro others
    refine (Reader.run_of_shift (region.predict_line isHead r.scope) others).trans ?_
    simp
  obtain ⟨ts, rest, s, unreadLine, isLine, allowed, stop⟩ | fails := k.line_or_fails r.advance
  · let u := ((r.advance.skipTo rest).withScope
      ((Ledger.afterHead k r.scope).enterAll ts).scope).write s.fragments
    have runLine : ∀ others, r.run ([.read region.phrase] ++ others) =
        u.run ([.read .lineEnd, .read region.phrase] ++ others) := by
      intro others
      rw [run, Reader.eq_before_skipTo unreadLine]
      exact isLine.reads (r := r.advance.skipTo rest) allowed stop _
    obtain ⟨ns, rest', unreadEnd, isEnd, stop'⟩ | fails := u.lineEnd_or_fails
    · refine Or.inl ⟨s, ts ++ ns, rest', ⟨?_, ?_, ?_, stop'⟩⟩
      · have after : r.unread.tail = ts ++ (ns ++ rest') :=
          unreadLine.trans (congrArg (ts ++ ·) unreadEnd)
        rw [Reader.unread_eq_cons (r := r) (by simp [isHead]), after]
        simp
      · simpa using Spelled.line k isHead isLine isEnd .nil
      · simpa using (Line.ledger isHead isLine isEnd r.scope []).1.mpr ⟨allowed, trivial⟩
    · exact Or.inr ((fails.append _).of_run runLine)
  · exact Or.inr ((fails.append _).of_run run)

/-- Where a construct begins there is all of it up to its block, or reading fails. -/
theorem Construct.head_or_fails (c : Construct) {r : Reader}
    (isHead : r.current.kind = .keyword c.head) (region : Region) :
    (∃ cs thenToken ns rest, ∃ condition : Condition,
      r.unread = r.current :: (cs ++ thenToken :: ns) ++ rest ∧
      cs.map Token.word = condition.words ∧ Token.Known r.scope cs ∧
      thenToken.kind = .keyword c.thenWord ∧ LineEnd ns ∧
      (r.skipTo rest).current.kind ≠ .newline) ∨ r.Fails [.read region.phrase] := by
  -- each part is there or stops everything after it: the condition, the keyword, the line end
  have unread := Reader.unread_eq_cons (r := r) (by simp [isHead])
  let after : List Goal := [.act (.emit .openBody), .read (.block c.close), .read .lineEnd,
    .read region.phrase]
  have run : ∀ others, r.run ([.read region.phrase] ++ others) =
      (r.advance.write [c.opening]).run
        ([.read .condition] ++ (.read (.keyword c.thenWord) :: .read .lineEnd :: after) ++
          others) := by
    intro others
    refine (Reader.run_of_shift (region.predict_governed isHead r.scope) others).trans ?_
    exact (Reader.run_emit _ _ _).trans (by simp [after])
  obtain ⟨condition, cs, rest, unreadCondition, isCondition, known, stop⟩ | fails :=
    Reads.condition.total (r.advance.write [c.opening])
  · let u := ((r.advance.write [c.opening]).skipTo rest).write condition.fragments
    have runCondition : ∀ others, r.run ([.read region.phrase] ++ others) =
        u.run ([.read (.keyword c.thenWord)] ++ (.read .lineEnd :: after) ++ others) := by
      intro others
      rw [run, Reader.eq_before_skipTo unreadCondition, List.append_assoc]
      exact Reads.condition.reads (r := (r.advance.write [c.opening]).skipTo rest) isCondition
        known stop _
    by_cases isThen : u.current.kind = .keyword c.thenWord
    · have unreadThen := Reader.unread_eq_cons (r := u) (by simp [isThen])
      have predicted : (Phrase.keyword c.thenWord).predict u.scope u.current =
          .shift none [] := by
        simp [Phrase.predict, isThen]
      have runThen : ∀ others, r.run ([.read region.phrase] ++ others) =
          u.advance.run ([.read .lineEnd] ++ after ++ others) := by
        intro others
        refine (runCondition others).trans ((Reader.run_of_shift predicted _).trans ?_)
        simp
      obtain ⟨ns, rest', unreadEnd, isEnd, stop'⟩ | fails := u.advance.lineEnd_or_fails
      · refine Or.inl ⟨cs, u.current, ns, rest', condition, ?_, isCondition, known, isThen,
          isEnd, stop'⟩
        have afterHead : r.unread.tail = cs ++ rest := unreadCondition
        have afterCondition : rest = u.current :: (ns ++ rest') :=
          unreadThen.trans (congrArg (u.current :: ·) unreadEnd)
        rw [unread, afterHead, afterCondition]
        simp
      · exact Or.inr ((fails.append _).of_run runThen)
    · have predicted : (Phrase.keyword c.thenWord).predict u.scope u.current =
          .reject (.expected (.keyword c.thenWord) u.current.kind) := by
        simp [Phrase.predict, isThen]
      have fails : u.Fails [.read (.keyword c.thenWord)] :=
        .of_reject predicted (by simp [Problem.code])
      exact Or.inr ((fails.append _).of_run runCondition)
  · exact Or.inr ((fails.append _).of_run run)

/-- Where a block closes its line ends, or reading fails. -/
theorem Construct.close_or_fails (c : Construct) {r : Reader}
    (isClose : r.current.kind = .keyword c.close) :
    (∃ ns rest, r.unread = r.current :: ns ++ rest ∧ LineEnd ns ∧
      (r.skipTo rest).current.kind ≠ .newline) ∨
      r.Fails [.read (Region.block c).phrase, .read .lineEnd] := by
  have unread := Reader.unread_eq_cons (r := r) (by simp [isClose])
  have predicted : (Region.block c).phrase.predict r.scope r.current =
      .shift none [.act (.emit .closeBody)] := by
    simp [Region.phrase, Phrase.predict, isClose]
  obtain ⟨ns, rest, unreadEnd, isEnd, stop⟩ | fails :=
    (r.advance.write [.closeBody]).lineEnd_or_fails
  · refine Or.inl ⟨ns, rest, ?_, isEnd, stop⟩
    rw [unread, List.cons_append]
    exact congrArg (r.current :: ·) unreadEnd
  · refine Or.inr (fails.of_run fun others => ?_)
    refine (Reader.run_of_shift predicted _).trans ((Reader.run_emit _ _ _).trans ?_)
    simp

/-- Where a construct begins there is all of it, or reading fails, if the same is known of its
    block. -/
theorem Construct.whole_or_fails (c : Construct) {r : Reader}
    (isHead : r.current.kind = .keyword c.head) (region : Region)
    (block : ∀ u : Reader, u.unread.length < r.unread.length →
      (∃ body bs rest, u.Finds body bs rest ∧
        (u.skipTo rest).current.kind = (Region.block c).closing) ∨
      u.Fails [.read (Region.block c).phrase]) :
    (∃ s ts rest, r.Finds [s] (r.current :: ts) rest) ∨ r.Fails [.read region.phrase] := by
  obtain ⟨cs, thenToken, ns, rest, condition, unread, isCondition, known, isThen, isEnd,
    stop⟩ | fails := c.head_or_fails isHead region
  · let u := (r.skipTo rest).write (c.opening :: (condition.fragments ++ [.openBody]))
    have runHead : ∀ others, r.run ([.read region.phrase] ++ others) =
        u.run ([.read (Region.block c).phrase] ++ [.read .lineEnd, .read region.phrase] ++
          others) := by
      intro others
      conv_lhs => rw [Reader.eq_before_skipTo unread]
      exact c.reads_head isHead isCondition isThen isEnd (r := r.skipTo rest) known stop region
        others
    have shorter : rest.length < r.unread.length := by
      rw [unread, List.length_append, List.length_cons]
      omega
    obtain ⟨body, bs, rest', found, isClose⟩ | fails := block u shorter
    · let v := u.past body bs rest'
      have isClosing : v.current.kind = .keyword c.close := isClose
      have runBody : ∀ others, r.run ([.read region.phrase] ++ others) =
          v.run ([.read (Region.block c).phrase, .read .lineEnd] ++ [.read region.phrase] ++
            others) :=
        fun others => (runHead others).trans (found.run (.block c) _)
      obtain ⟨ns', rest'', unreadClose, isEnd', stop'⟩ | fails := c.close_or_fails isClosing
      · refine Or.inl ⟨c.statement condition body,
          cs ++ thenToken :: (ns ++ (bs ++ v.current :: ns')), rest'', ⟨?_, ?_, ?_, stop'⟩⟩
        · have splitBody : rest = bs ++ rest' := found.unread
          have splitClose : rest' = v.current :: ns' ++ rest'' := unreadClose
          rw [unread, splitBody, splitClose]
          simp
        · simpa using Spelled.governed c isHead isCondition isThen isEnd found.spelled isClosing
            isEnd' .nil
        · have allows := (c.ledger isHead isCondition isThen isEnd
            (found.spelled.last_enterAll r.scope) isClosing isEnd' []).1
          simpa using allows.mpr ⟨known, found.allowed, trivial⟩
      · exact Or.inr ((fails.append _).of_run runBody)
    · exact Or.inr ((fails.append _).of_run runHead)
  · exact Or.inr fails

/-- Where statements may stand there are some, up to what closes them, or reading fails. -/
theorem Region.statements_or_fails (region : Region) (r : Reader) :
    (∃ program ts rest, r.Finds program ts rest ∧
      (r.skipTo rest).current.kind = region.closing) ∨ r.Fails [.read region.phrase] := by
  -- Every statement uses up its first token, so the tokens left bound the statements left.
  induction left : r.unread.length using Nat.strongRecOn generalizing region r with
  | ind n ih =>
    have goOn : ∀ s ts rest, r.Finds [s] (r.current :: ts) rest →
        (∃ program ts rest, r.Finds program ts rest ∧
          (r.skipTo rest).current.kind = region.closing) ∨ r.Fails [.read region.phrase] := by
      intro s ts rest first
      have shorter : rest.length < n := by
        rw [← left, first.unread, List.length_append, List.length_cons]
        omega
      obtain ⟨program, us, rest', more, isClose⟩ | fails :=
        ih rest.length shorter region (r.past [s] (r.current :: ts) rest) rfl
      · exact Or.inl ⟨s :: program, _, rest', first.append more, isClose⟩
      · exact Or.inr (fails.of_run fun others => first.run region others)
    obtain isClose | ⟨k, isHead⟩ | ⟨c, isHead⟩ | ⟨problem, code, rejects⟩ :=
      region.predict_cases r.scope r.current
    · refine Or.inl ⟨[], [], r.unread, ⟨rfl, .nil, trivial, ?_⟩, isClose⟩
      exact fun isNewline => region.closing_ne_newline (isClose.symm.trans isNewline)
    · obtain ⟨s, ts, rest, first⟩ | fails := k.whole_or_fails isHead region
      · exact goOn s ts rest first
      · exact Or.inr fails
    · have block := fun (u : Reader) (shorter : u.unread.length < r.unread.length) =>
        ih u.unread.length (left ▸ shorter) (.block c) u rfl
      obtain ⟨s, ts, rest, first⟩ | fails := c.whole_or_fails isHead region block
      · exact goOn s ts rest first
      · exact Or.inr fails
    · exact Or.inr (.of_reject rejects code)

/-! ## Whole programs -/

/-- The statements of a program are read to its end, and only the jumps are left to check. -/
theorem Spelled.reads_program {program : Program} {ts : List Token}
    (spelled : Spelled program ts) {r : Reader}
    (allowed : (Ledger.atLine r.scope).AllowsAll ts) (isEnd : r.current.kind = .eof) :
    (r.before ts).run [.read .statements, .act (.emit .closeMain), .act .checkJumps] =
      ((r.withScope ((Ledger.atLine r.scope).enterAll ts).scope).write
        (Statement.allFragments program ++ [.closeMain])).run [.act .checkJumps] := by
  have stop : r.current.kind ≠ .newline := by
    simp [isEnd]
  refine (spelled.reads allowed stop .top _).trans ?_
  let u := (r.withScope ((Ledger.atLine r.scope).enterAll ts).scope).write
    (Statement.allFragments program)
  have predicted : Phrase.statements.predict u.scope u.current = .expand [] := by
    simp [u, Phrase.predict, isEnd]
  refine (Reader.run_of_expand predicted _).trans ((Reader.run_emit _ _ _).trans ?_)
  simp [u]

/-- The same for a whole program, with blank lines in front of it or not. -/
theorem Laid.reads {tree : Program} {ts : List Token} (laid : Laid tree ts) {r : Reader}
    (allowed : (Ledger.atLine r.scope).AllowsAll ts) (isEnd : r.current.kind = .eof) :
    (r.before ts).run Goal.body =
      ((r.withScope ((Ledger.atLine r.scope).enterAll ts).scope).write
        (Statement.allFragments tree ++ [.closeMain])).run [.act .checkJumps] := by
  obtain ⟨blank, rest, rfl, newlines, spelled⟩ := laid
  have stop : r.current.kind ≠ .newline := by
    simp [isEnd]
  rw [Ledger.allowsAll_blank newlines] at allowed
  rw [Ledger.enterAll_blank newlines, Reader.before_append]
  refine (Reader.run_blankLines newlines (spelled.current_ne_newline stop) _).trans ?_
  exact spelled.reads_program allowed isEnd

/-- A program is there, up to the end, or reading fails. -/
theorem Reader.laid_or_fails (r : Reader) (noEnd : ∀ t ∈ r.unread, t.kind ≠ .eof) :
    (∃ tree, Laid tree r.unread ∧ (Ledger.atLine r.scope).AllowsAll r.unread) ∨
      r.Fails [.read .blankLines, .read .statements] := by
  obtain ⟨blank, rest, unread, newlines, stop⟩ := r.exists_blank
  have run : ∀ others, r.run ([.read .blankLines, .read .statements] ++ others) =
      (r.skipTo rest).run ([.read .statements] ++ others) := by
    intro others
    conv_lhs => rw [eq_before_skipTo unread]
    exact run_blankLines newlines stop _
  obtain ⟨tree, ts, rest', found, isClose⟩ | fails :=
    Region.top.statements_or_fails (r.skipTo rest)
  · have split : rest = ts ++ rest' := found.unread
    -- the statements end at the end, which is not among the tokens
    have ended : rest' = [] := by
      cases rest' with
      | nil => rfl
      | cons t more => exact absurd isClose (noEnd t (by simp [unread, split]))
    rw [ended, List.append_nil] at split
    refine Or.inl ⟨tree, ⟨blank, ts, by rw [unread, split], newlines, found.spelled⟩, ?_⟩
    rw [unread, split, Ledger.allowsAll_blank newlines]
    exact found.allowed
  · exact Or.inr (fails.of_run run)

end BasicToC
