import BasicToC.Proofs.Reading

/-! # Lines are read

What a line holds after its keyword is a name, an expression or both.  As for expressions there
are two facts: `Line.reads`, that a line whose names a ledger allows is read and leaves the reader
with the names of that ledger, and `LineKind.line_or_fails`, that a line is there or reading fails.
A ledger goes over most tokens without a change, and first it is said which these are.
-/

namespace BasicToC

/-! ## Ledgers over lines -/

/-- No token is a keyword that a name follows. -/
def Token.Plain (ts : List Token) : Prop :=
  ∀ t ∈ ts, t.kind.names = false

namespace Ledger

theorem enter_of_plain {l : Ledger} (plain : l.last.names = false) (t : Token) :
    l.enter t = ⟨t.kind, l.scope⟩ := by
  unfold enter
  split <;> simp_all [Kind.names, Kind.assigns, Kind.labels, Kind.jumps]

theorem allows_of_plain {l : Ledger} (plain : l.last.names = false) (t : Token) :
    l.Allows t ↔ (t.kind = .ident → t.text ∈ l.scope.assigned) := by
  have noLabel : l.last.labels = false := by
    simp only [Kind.names, Bool.or_eq_false_iff] at plain
    exact plain.1.2
  simp [allows_iff, plain, noLabel]

theorem allowsAll_of_plain {l : Ledger} (plain : l.last.names = false) {ts : List Token}
    (plains : Token.Plain ts) : l.AllowsAll ts ↔ Token.Known l.scope ts := by
  induction ts generalizing l with
  | nil => simp
  | cons t ts ih =>
    have plainHead : t.kind.names = false := plains t (by simp)
    have plainTail : Token.Plain ts := fun u mem => plains u (by simp [mem])
    rw [allowsAll_cons, allows_of_plain plain, enter_of_plain plain, ih plainHead plainTail,
      Token.known_cons]

theorem enterAll_of_plain {l : Ledger} (plain : l.last.names = false) {ts : List Token}
    (plains : Token.Plain ts) :
    (l.enterAll ts).scope = l.scope ∧ (l.enterAll ts).last.names = false := by
  induction ts generalizing l with
  | nil => exact ⟨rfl, plain⟩
  | cons t ts ih =>
    have plainHead : t.kind.names = false := plains t (by simp)
    have plainTail : Token.Plain ts := fun u mem => plains u (by simp [mem])
    rw [enterAll_cons, enter_of_plain plain]
    exact ih plainHead plainTail

theorem enterAll_lineEnd {l : Ledger} (plain : l.last.names = false) {ns : List Token}
    (isEnd : LineEnd ns) : l.enterAll ns = atLine l.scope := by
  obtain ⟨nonempty, newlines⟩ := isEnd
  induction ns generalizing l with
  | nil => exact absurd rfl nonempty
  | cons n ns ih =>
    have isNewline := newlines n (by simp)
    rw [enterAll_cons, enter_of_plain plain, isNewline]
    cases ns with
    | nil => rfl
    | cons n' ns => exact ih rfl (by simp) fun n mem => newlines n (by simp [mem])

theorem plain_of_lineEnd {ns : List Token} (newlines : ∀ n ∈ ns, n.kind = .newline) :
    Token.Plain ns := by
  intro n mem
  rw [newlines n mem]
  rfl

theorem known_of_lineEnd {ns : List Token} (newlines : ∀ n ∈ ns, n.kind = .newline)
    (scope : Scope) : Token.Known scope ns := by
  intro n mem isName
  simp [newlines n mem] at isName

/-- What a ledger says to the rest of a line with no name to give, and to the lines after it. -/
theorem allowsAll_line {l : Ledger} (plain : l.last.names = false) {ts ns : List Token}
    (plains : Token.Plain ts) (isEnd : LineEnd ns) (rest : List Token) :
    l.AllowsAll (ts ++ (ns ++ rest)) ↔
      Token.Known l.scope ts ∧ (atLine l.scope).AllowsAll rest := by
  obtain ⟨scope, plainAfter⟩ := enterAll_of_plain plain plains
  -- line ends are no names, so nothing is asked of them
  have allowsEnd := (allowsAll_of_plain plainAfter (plain_of_lineEnd isEnd.2)).mpr
    (known_of_lineEnd isEnd.2 _)
  rw [allowsAll_append, allowsAll_append, allowsAll_of_plain plain plains,
    enterAll_lineEnd plainAfter isEnd, scope]
  simp [allowsEnd]

/-- Where a ledger is after the rest of a line with no name to give. -/
theorem enterAll_line {l : Ledger} (plain : l.last.names = false) {ts ns : List Token}
    (plains : Token.Plain ts) (isEnd : LineEnd ns) (rest : List Token) :
    l.enterAll (ts ++ (ns ++ rest)) = (atLine l.scope).enterAll rest := by
  obtain ⟨scope, plainAfter⟩ := enterAll_of_plain plain plains
  rw [enterAll_append, enterAll_append, enterAll_lineEnd plainAfter isEnd, scope]

theorem allowsAll_blank {ns : List Token} (newlines : ∀ n ∈ ns, n.kind = .newline)
    (scope : Scope) (rest : List Token) :
    (atLine scope).AllowsAll (ns ++ rest) ↔ (atLine scope).AllowsAll rest := by
  cases ns with
  | nil => rfl
  | cons n ns =>
    have isEnd : LineEnd (n :: ns) := ⟨by simp, newlines⟩
    have noMore : Token.Plain [] := nofun
    simpa using allowsAll_line (l := atLine scope) rfl noMore isEnd rest

theorem enterAll_blank {ns : List Token} (newlines : ∀ n ∈ ns, n.kind = .newline)
    (scope : Scope) (rest : List Token) :
    (atLine scope).enterAll (ns ++ rest) = (atLine scope).enterAll rest := by
  cases ns with
  | nil => rfl
  | cons n ns =>
    have isEnd : LineEnd (n :: ns) := ⟨by simp, newlines⟩
    have noMore : Token.Plain [] := nofun
    exact enterAll_line (l := atLine scope) rfl noMore isEnd rest

end Ledger

/-! ### Expressions give no names -/

/-- No word is a keyword that a name follows. -/
def Word.Plain (ws : List Word) : Prop :=
  ∀ w ∈ ws, w.kind.names = false

theorem Token.plain_of_words {ts : List Token} {ws : List Word} (spelled : ts.map Token.word = ws)
    (plain : Word.Plain ws) : Token.Plain ts := by
  intro t mem
  exact plain t.word (spelled ▸ List.mem_map_of_mem mem)

theorem Operator.plain_chainWords {ω α : Type} (kind : ω → Kind) {words : α → List Word}
    (plainOp : ∀ op, (kind op).names = false) (plain : ∀ x, Word.Plain (words x))
    (xs : List (Operator ω × α)) : Word.Plain (Operator.chainWords kind words xs) := by
  intro w mem
  obtain ⟨⟨o, x⟩, -, mem⟩ := List.mem_flatMap.mp mem
  rcases List.mem_cons.mp mem with rfl | mem
  · exact plainOp o.op
  · exact plain x w mem

theorem Factor.plain_words (f : Factor) : Word.Plain f.words := by
  obtain ⟨sign, operand⟩ := f
  cases sign <;> cases operand <;>
    simp [Word.Plain, Factor.words, Operand.word, Word.name, Kind.names, Kind.assigns, Kind.labels,
      Kind.jumps]

theorem Term.plain_words (t : Term) : Word.Plain t.words := by
  intro w mem
  rcases List.mem_append.mp mem with mem | mem
  · exact t.first.plain_words w mem
  · exact Operator.plain_chainWords Kind.multiplicative (fun _ => rfl) Factor.plain_words t.rest
      w mem

theorem Expression.plain_words (e : Expression) : Word.Plain e.words := by
  intro w mem
  rcases List.mem_append.mp mem with mem | mem
  · exact e.first.plain_words w mem
  · exact Operator.plain_chainWords Kind.additive (fun _ => rfl) Term.plain_words e.rest w mem

theorem Condition.plain_words (c : Condition) : Word.Plain c.words := by
  intro w mem
  rcases List.mem_append.mp mem with mem | mem
  · exact c.first.plain_words w mem
  · exact Operator.plain_chainWords Kind.comparison (fun _ => rfl) Expression.plain_words
      (c.second :: c.rest) w mem

/-! ## Reading lines -/

namespace Reader

theorem run_blankLines {r : Reader} {ns : List Token} (newlines : ∀ n ∈ ns, n.kind = .newline)
    (stop : r.current.kind ≠ .newline) (rest : List Goal) :
    (r.before ns).run (.read .blankLines :: rest) = r.run rest := by
  induction ns with
  | nil =>
    have predicted : Phrase.blankLines.predict r.scope r.current = .expand [] := by
      simp [Phrase.predict, stop]
    rw [before_nil, run_of_expand predicted, List.nil_append]
  | cons n ns ih =>
    have predicted : Phrase.blankLines.predict r.scope n = .shift none [.read .blankLines] := by
      simp [Phrase.predict, newlines n]
    rw [run_of_shift predicted]
    simpa using ih fun n mem => newlines n (by simp [mem])

/-- The end of a line is skipped, with the blank lines after it. -/
theorem run_lineEnd {r : Reader} {ns : List Token} (isEnd : LineEnd ns)
    (stop : r.current.kind ≠ .newline) (rest : List Goal) :
    (r.before ns).run (.read .lineEnd :: rest) = r.run rest := by
  obtain ⟨nonempty, newlines⟩ := isEnd
  obtain ⟨n, ns, rfl⟩ := List.exists_cons_of_ne_nil nonempty
  have predicted : Phrase.lineEnd.predict r.scope n = .shift none [.read .blankLines] := by
    simp [Phrase.predict, newlines n]
  rw [run_of_shift predicted]
  simpa using run_blankLines (fun n mem => newlines n (by simp [mem])) stop rest

/-- The line ends in view, and what comes after them. -/
theorem exists_blank (r : Reader) :
    ∃ ns rest, r.unread = ns ++ rest ∧ (∀ n ∈ ns, n.kind = .newline) ∧
      (r.skipTo rest).current.kind ≠ .newline := by
  let isNewline (t : Token) : Bool := t.kind == .newline
  refine ⟨r.unread.takeWhile isNewline, r.unread.dropWhile isNewline,
    List.takeWhile_append_dropWhile.symm, ?_, ?_⟩
  · intro n mem
    simpa [isNewline] using List.mem_takeWhile_imp mem
  · cases left : r.unread.dropWhile isNewline with
    | nil => simp [skipTo, current, r.isEnd]
    | cons t ts =>
      have stops := List.head_dropWhile_not isNewline (l := r.unread) (by simp [left])
      simpa [left, isNewline, skipTo, current] using stops

theorem lineEnd_or_fails (r : Reader) :
    (∃ ns rest, r.unread = ns ++ rest ∧ LineEnd ns ∧
      (r.skipTo rest).current.kind ≠ .newline) ∨ r.Fails [.read .lineEnd] := by
  obtain ⟨ns, rest, unread, newlines, stop⟩ := r.exists_blank
  cases ns with
  | nil =>
    have same : r.skipTo rest = r := by
      cases r
      simp_all [skipTo]
    rw [same] at stop
    have predicted : Phrase.lineEnd.predict r.scope r.current =
        .reject (.expected .newline r.current.kind) := by
      simp [Phrase.predict, stop]
    exact Or.inr (.of_reject predicted (by simp [Problem.code]))
  | cons n ns => exact Or.inl ⟨n :: ns, rest, unread, ⟨by simp, newlines⟩, stop⟩

end Reader

/-- What there is to read after the keyword of a line. -/
def LineKind.phrase : LineKind → Phrase
  | print => .printed
  | label => .labelName
  | goto => .jumpName
  | assign => .assignment
  | input => .inputName

/-- The names where the keyword of a line has just been taken. -/
def Ledger.afterHead (k : LineKind) (scope : Scope) : Ledger :=
  ⟨.keyword k.keyword, scope⟩

theorem Token.asName_of_free {t : Token} (isName : t.kind = .ident)
    (free : isReserved t.text = false) (goals : String → List Goal) :
    t.asName goals = .shift none (goals t.text) := by
  simp [Token.asName, isName, free]

/-- What cannot be a new name is rejected. -/
theorem Token.asName_or_reject (t : Token) (goals : String → List Goal) :
    (t.kind = .ident ∧ isReserved t.text = false) ∨
      ∃ problem : Problem, problem.code ≠ .undefinedLabel ∧ t.asName goals = .reject problem := by
  by_cases isName : t.kind = .ident
  · cases reserved : isReserved t.text with
    | false => exact Or.inl ⟨isName, rfl⟩
    | true =>
      refine Or.inr ⟨.reservedName t.text, by simp [Problem.code], ?_⟩
      simp [Token.asName, isName, reserved]
  · refine Or.inr ⟨.expected .ident t.kind, by simp [Problem.code], ?_⟩
    simp [Token.asName, isName]

/-- A new name is in view and can be taken, or the phrase that wants one fails. -/
theorem Reader.name_or_fails (r : Reader) (phrase : Phrase) {goals : String → List Goal}
    (predicted : phrase.predict r.scope r.current = r.current.asName goals) :
    (r.current.kind = .ident ∧ isReserved r.current.text = false ∧
      r.unread = r.current :: r.unread.tail ∧
      ∀ others, r.run ([.read phrase] ++ others) =
        r.advance.run (goals r.current.text ++ others)) ∨ r.Fails [.read phrase] := by
  obtain ⟨isName, free⟩ | ⟨problem, code, rejects⟩ := r.current.asName_or_reject goals
  · refine Or.inl ⟨isName, free, Reader.unread_eq_cons (by simp [isName]), fun others => ?_⟩
    have shifts := predicted.trans (Token.asName_of_free isName free goals)
    refine (Reader.run_of_shift shifts others).trans ?_
    simp
  · exact Or.inr (.of_reject (predicted.trans rejects) code)

/-- Whether the line of a statement ends with an expression, which may go on. -/
def Statement.endsWithValue : Statement → Bool
  | .print _ | .assign _ _ => true
  | _ => false

/-- A line that is there is read. -/
theorem Line.reads {k : LineKind} {ts : List Token} {s : Statement} (isLine : Line k ts s)
    {r : Reader} (allowed : (Ledger.afterHead k r.scope).AllowsAll ts)
    (stop : s.endsWithValue → ¬ r.current.kind.extendsExpression) (rest : List Goal) :
    (r.before ts).run (.read k.phrase :: rest) =
      ((r.withScope ((Ledger.afterHead k r.scope).enterAll ts).scope).write s.fragments).run
        rest := by
  cases isLine with
  | @printText t isString =>
    have predicted : Phrase.printed.predict r.scope t = .shift (some (.printText t.text)) [] := by
      simp [Phrase.predict, isString]
    rw [LineKind.phrase, Reader.run_of_shift predicted]
    rfl
  | @print _ value spelled =>
    have plain := Token.plain_of_words spelled value.plain_words
    obtain ⟨scope, -⟩ := Ledger.enterAll_of_plain (l := .afterHead .print r.scope) rfl plain
    have known := (Ledger.allowsAll_of_plain (l := .afterHead .print r.scope) rfl plain).mp allowed
    -- the first token of the expression tells that this is not a string
    obtain ⟨t, us, rfl, notString⟩ := Expression.tokens_eq_cons spelled
    have predicted : Phrase.printed.predict r.scope t =
        .expand [.act (.emit .openPrint), .read .expression, .act (.emit .closePrint)] := by
      simp [Phrase.predict, notString]
    rw [LineKind.phrase, Reader.run_of_expand predicted, scope]
    refine (Reader.run_emit _ _ _).trans ?_
    refine (Reads.expression.reads (r := r.write [.openPrint]) spelled known (stop rfl) _).trans ?_
    rw [Reader.run_emit]
    simp [Statement.fragments, Ledger.afterHead]
  | @label t isName =>
    have predicted : Phrase.labelName.predict r.scope t =
        .shift none [.act (.setLabel t.text t.position)] :=
      Token.asName_of_free isName allowed.1.1 fun name => [.act (.setLabel name t.position)]
    rw [LineKind.phrase, Reader.run_take predicted]
    exact Reader.run_setLabel_of_new (r := r) allowed.1.2 t.position rest
  | @goto t isName =>
    have predicted : Phrase.jumpName.predict r.scope t =
        .shift none [.act (.jump ⟨t.text, t.position⟩)] :=
      Token.asName_of_free isName allowed.1 fun name => [.act (.jump ⟨name, t.position⟩)]
    rw [LineKind.phrase, Reader.run_take predicted]
    exact Reader.run_jump r _ rest
  | @input t isName =>
    have predicted : Phrase.inputName.predict r.scope t =
        .shift none [.act (.declare t.text), .act (.emit (.input t.text))] :=
      Token.asName_of_free isName allowed.1 fun name =>
        [.act (.declare name), .act (.emit (.input name))]
    rw [LineKind.phrase, Reader.run_take predicted]
    exact (Reader.run_declare r t.text _).trans (Reader.run_emit _ _ rest)
  | @assign t sign us value isName isSign spelled =>
    have predicted : Phrase.assignment.predict r.scope t =
        .shift none [.act (.declare t.text), .act (.emit (.openAssign t.text)), .read .becomes,
          .read .expression, .act (.emit .closeAssign)] :=
      Token.asName_of_free isName allowed.1 fun name =>
        [.act (.declare name), .act (.emit (.openAssign name)), .read .becomes,
          .read .expression, .act (.emit .closeAssign)]
    -- the variable counts as assigned from its name on, so its value may use it
    let named := r.scope.addVariable t.text
    have plain := Token.plain_of_words spelled value.plain_words
    have afterSign : ((Ledger.afterHead .assign r.scope).enter t).enter sign =
        ⟨.becomes, named⟩ := by
      simp [Ledger.enter, Ledger.afterHead, isName, isSign, named]
    obtain ⟨scope, -⟩ := Ledger.enterAll_of_plain (l := ⟨.becomes, named⟩) rfl plain
    have known : Token.Known named us := by
      have allowedValue := allowed.2.2
      rw [afterSign] at allowedValue
      exact (Ledger.allowsAll_of_plain (l := ⟨.becomes, named⟩) rfl plain).mp allowedValue
    rw [LineKind.phrase, Reader.run_take predicted, Ledger.enterAll_cons,
      Ledger.enterAll_cons, afterSign, scope]
    let u := (r.withScope named).write [.openAssign t.text]
    have sign : (u.before (sign :: us)).run
        (.read .becomes :: .read .expression :: .act (.emit .closeAssign) :: rest) =
        (u.before us).run (.read .expression :: .act (.emit .closeAssign) :: rest) := by
      have predicted : Phrase.becomes.predict u.scope sign = .shift none [] := by
        simp [Phrase.predict, isSign]
      exact Reader.run_take predicted us _
    refine (Reader.run_declare _ _ _).trans ((Reader.run_emit _ _ _).trans (sign.trans ?_))
    refine (Reads.expression.reads (r := u) spelled known (stop rfl) _).trans ?_
    rw [Reader.run_emit]
    simp [Statement.fragments, u]

/-- A line is there, or its phrase fails. -/
theorem LineKind.line_or_fails (k : LineKind) (r : Reader) :
    (∃ ts rest s, r.unread = ts ++ rest ∧ Line k ts s ∧
      (Ledger.afterHead k r.scope).AllowsAll ts ∧
      (s.endsWithValue → ¬ (r.skipTo rest).current.kind.extendsExpression)) ∨
      r.Fails [.read k.phrase] := by
  cases k with
  | print =>
    by_cases isString : r.current.kind = .string
    · have unread := Reader.unread_eq_cons (r := r) (by simp [isString])
      exact Or.inl ⟨[r.current], _, _, unread, .printText isString, by simp [Ledger.Allows,
        Ledger.afterHead, isString], by simp [Statement.endsWithValue]⟩
    · have predicted : Phrase.printed.predict r.scope r.current =
          .expand [.act (.emit .openPrint), .read .expression, .act (.emit .closePrint)] := by
        simp [Phrase.predict, isString]
      obtain ⟨value, ts, rest, unread, spelled, known, stop⟩ | fails :=
        Reads.expression.total (r.write [.openPrint])
      · have plain := Token.plain_of_words spelled value.plain_words
        have allowed := (Ledger.allowsAll_of_plain (l := .afterHead .print r.scope) rfl plain).mpr
          known
        exact Or.inl ⟨ts, rest, _, unread, .print spelled, allowed, fun _ => stop⟩
      · refine Or.inr ((fails.append [.act (.emit .closePrint)]).of_run fun others => ?_)
        exact (Reader.run_of_expand predicted others).trans (Reader.run_emit _ _ _)
  | label =>
    obtain ⟨isName, free, unread, run⟩ | fails :=
      r.name_or_fails .labelName (by rw [Phrase.predict])
    · -- that the label is new is checked after its name has been taken
      by_cases old : r.current.text ∈ r.scope.labels
      · refine Or.inr ⟨_, _, ?_, fun others => (run others).trans
          (Reader.run_setLabel_of_old (r := r.advance) old _ _)⟩
        simp [Problem.located, Problem.code]
      · exact Or.inl ⟨[r.current], _, _, unread, .label isName, ⟨⟨free, old⟩, trivial⟩,
          by simp [Statement.endsWithValue]⟩
    · exact Or.inr fails
  | goto =>
    obtain ⟨isName, free, unread, -⟩ | fails :=
      r.name_or_fails .jumpName (by rw [Phrase.predict])
    · exact Or.inl ⟨[r.current], _, _, unread, .goto isName, ⟨free, trivial⟩,
        by simp [Statement.endsWithValue]⟩
    · exact Or.inr fails
  | input =>
    obtain ⟨isName, free, unread, -⟩ | fails :=
      r.name_or_fails .inputName (by rw [Phrase.predict])
    · exact Or.inl ⟨[r.current], _, _, unread, .input isName, ⟨free, trivial⟩,
        by simp [Statement.endsWithValue]⟩
    · exact Or.inr fails
  | assign =>
    obtain ⟨isName, free, unread, run⟩ | fails :=
      r.name_or_fails .assignment (by rw [Phrase.predict])
    · let u := (r.advance.withScope (r.scope.addVariable r.current.text)).write
        [.openAssign r.current.text]
      have runSign : ∀ others, r.run ([.read .assignment] ++ others) =
          u.run ([.read .becomes, .read .expression, .act (.emit .closeAssign)] ++ others) := by
        intro others
        exact (run others).trans ((Reader.run_declare _ _ _).trans (Reader.run_emit _ _ _))
      by_cases isSign : u.current.kind = .becomes
      · have unreadSign := Reader.unread_eq_cons (r := u) (by simp [isSign])
        have predicted : Phrase.becomes.predict u.scope u.current = .shift none [] := by
          simp [Phrase.predict, isSign]
        obtain ⟨value, ts, rest, unreadValue, spelled, known, stop⟩ | fails :=
          Reads.expression.total u.advance
        · refine Or.inl ⟨r.current :: u.current :: ts, rest, _, ?_,
            .assign isName isSign spelled, ⟨free, ?_⟩, fun _ => stop⟩
          · rw [unread, List.cons_append, List.cons_append, ← unreadValue]
            exact congrArg (r.current :: ·) unreadSign
          · have plain := Token.plain_of_words spelled value.plain_words
            refine ⟨by simp [Ledger.Allows, Ledger.enter, isName, isSign], ?_⟩
            simp only [Ledger.enter, isName, isSign]
            exact (Ledger.allowsAll_of_plain rfl plain).mpr known
        · refine Or.inr ((fails.append [.act (.emit .closeAssign)]).of_run fun others => ?_)
          refine (runSign others).trans ((Reader.run_of_shift predicted _).trans ?_)
          simp
      · have predicted : Phrase.becomes.predict u.scope u.current =
            .reject (.expected .becomes u.current.kind) := by
          simp [Phrase.predict, isSign]
        have fails : u.Fails [.read .becomes] := .of_reject predicted (by simp [Problem.code])
        exact Or.inr ((fails.append _).of_run runSign)
    · exact Or.inr fails

end BasicToC
