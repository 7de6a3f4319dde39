import BasicToC.Proofs.Derivation
import BasicToC.Proofs.Naming
import BasicToC.Proofs.Reader

/-! # Phrases read trees

For every phrase of the grammar, what a reader does with it: it takes the tokens of some tree,
writes the code of the tree, and goes on; or it fails, whatever else there is to do.  Each phrase
has one statement of either kind, `Reads`, and those of larger phrases are put together from
those of smaller ones.  The further operands of sums, products and comparisons are all the same
loop, treated once in `Reads.chain`.

What a reader does with the names on its way is told by a `Ledger`.
-/

namespace BasicToC

/-! ## The code of trees, piece by piece -/

def Operand.fragment : Operand → Fragment
  | .numeral text => .numeral text
  | .name x => .valueOf x

def Factor.fragments (f : Factor) : List Fragment :=
  match f.sign with
  | none => [f.operand.fragment]
  | some sign => [.sign sign.text, f.operand.fragment]

/-- The code of operators with trees after them. -/
def Operator.chainFragments {ω α : Type} (fragments : α → List Fragment)
    (rest : List (Operator ω × α)) : List Fragment :=
  rest.flatMap fun (o, x) => .operator o.text :: fragments x

def Term.fragments (t : Term) : List Fragment :=
  t.first.fragments ++ Operator.chainFragments Factor.fragments t.rest

def Expression.fragments (e : Expression) : List Fragment :=
  e.first.fragments ++ Operator.chainFragments Term.fragments e.rest

def Condition.fragments (c : Condition) : List Fragment :=
  c.first.fragments ++ Operator.chainFragments Expression.fragments (c.second :: c.rest)

mutual

def Statement.fragments : Statement → List Fragment
  | .printText text => [.printText text]
  | .print value => .openPrint :: (value.fragments ++ [.closePrint])
  | .ifThen condition body =>
    .openIf :: (condition.fragments ++ .openBody :: (Statement.allFragments body ++ [.closeBody]))
  | .whileRepeat condition body =>
    .openWhile ::
      (condition.fragments ++ .openBody :: (Statement.allFragments body ++ [.closeBody]))
  | .label name => [.label name]
  | .goto name => [.goto name]
  | .assign name value => .openAssign name :: (value.fragments ++ [.closeAssign])
  | .input name => [.input name]

def Statement.allFragments : List Statement → List Fragment
  | [] => []
  | s :: rest => s.fragments ++ Statement.allFragments rest

end

/-! ## Readers on their way -/

namespace Reader

/-- The reader with only `rest` still to be read. -/
def skipTo (r : Reader) (rest : List Token) : Reader :=
  { r with unread := rest }

theorem eq_before_skipTo {r : Reader} {ts rest : List Token} (unread : r.unread = ts ++ rest) :
    r = (r.skipTo rest).before ts := by
  cases r
  simp_all [skipTo, before]

theorem unread_eq_cons {r : Reader} (notEnd : r.current.kind ≠ .eof) :
    r.unread = r.current :: r.unread.tail := by
  obtain ⟨t, ts, unread⟩ := List.exists_cons_of_ne_nil (unread_ne_nil notEnd)
  simp [current, unread]

/-- The reader fails at the goals, whatever comes after them, and not for want of a label. -/
def Fails (r : Reader) (goals : List Goal) : Prop :=
  ∃ d u, d.code ≠ .undefinedLabel ∧ ∀ rest, r.run (goals ++ rest) = (.error d, u)

theorem Fails.append {r : Reader} {goals : List Goal} (fails : r.Fails goals)
    (more : List Goal) : r.Fails (goals ++ more) := by
  obtain ⟨d, u, code, run⟩ := fails
  exact ⟨d, u, code, fun rest => by rw [List.append_assoc, run]⟩

theorem Fails.of_run {r u : Reader} {goals more : List Goal} (fails : u.Fails more)
    (run : ∀ rest, r.run (goals ++ rest) = u.run (more ++ rest)) : r.Fails goals := by
  obtain ⟨d, v, code, runs⟩ := fails
  exact ⟨d, v, code, fun rest => by rw [run, runs]⟩

theorem Fails.of_reject {r : Reader} {phrase : Phrase} {problem : Problem}
    (predicted : phrase.predict r.scope r.current = .reject problem)
    (code : problem.code ≠ .undefinedLabel) : r.Fails [.read phrase] :=
  ⟨_, _, code, fun rest => run_of_reject predicted rest⟩

end Reader

/-- Every name among the tokens is that of a variable. -/
def Token.Known (scope : Scope) (ts : List Token) : Prop :=
  ∀ t ∈ ts, t.kind = .ident → t.text ∈ scope.assigned

namespace Token

@[simp]
theorem known_nil (scope : Scope) : Known scope [] := by
  simp [Known]

@[simp]
theorem known_cons {scope : Scope} {t : Token} {ts : List Token} :
    Known scope (t :: ts) ↔ (t.kind = .ident → t.text ∈ scope.assigned) ∧ Known scope ts := by
  simp [Known]

@[simp]
theorem known_append {scope : Scope} {ts us : List Token} :
    Known scope (ts ++ us) ↔ Known scope ts ∧ Known scope us := by
  simp [Known, or_imp, forall_and]

end Token

/-! ## Reading expressions -/

/-- The goals read the words of trees of one type, up to a token that they would not absorb. -/
structure Reads {α : Type} (goals : List Goal) (words : α → List Word)
    (fragments : α → List Fragment) (absorbs : Kind → Bool) : Prop where
  /-- A tree that is there is read. -/
  reads : ∀ {x : α} {ts : List Token} {r : Reader}, ts.map Token.word = words x →
    Token.Known r.scope ts → ¬ absorbs r.current.kind → ∀ rest : List Goal,
      (r.before ts).run (goals ++ rest) = (r.write (fragments x)).run rest
  /-- A tree is there, or the goals fail. -/
  total : ∀ r : Reader,
    (∃ x ts rest, r.unread = ts ++ rest ∧ ts.map Token.word = words x ∧
      Token.Known r.scope ts ∧ ¬ absorbs (r.skipTo rest).current.kind) ∨ r.Fails goals

namespace Reads

variable {α β ω : Type} {goals more : List Goal} {words : α → List Word}
  {words' : β → List Word} {fragments : α → List Fragment} {fragments' : β → List Fragment}
  {absorbs absorbs' : Kind → Bool}

/-- One after another: what comes second must not begin with what the first would absorb. -/
theorem seq (first : Reads goals words fragments absorbs)
    (second : Reads more words' fragments' absorbs')
    (starts : ∀ y w ws, words' y = w :: ws → ¬ absorbs w.kind)
    (wider : ∀ k, absorbs k → absorbs' k) :
    Reads (goals ++ more) (fun p : α × β => words p.1 ++ words' p.2)
      (fun p => fragments p.1 ++ fragments' p.2) absorbs' where
  reads := by
    rintro ⟨x, y⟩ ts r spelled known stop rest
    obtain ⟨as, bs, rfl, spelledA, spelledB⟩ := List.map_eq_append_iff.mp spelled
    rw [Token.known_append] at known
    -- the first one sees the second, or, if that is empty, what follows both
    have stopFirst : ¬ absorbs (r.before bs).current.kind := by
      cases bs with
      | nil => exact fun absorbed => stop (wider _ absorbed)
      | cons b bs => exact starts y b.word (bs.map Token.word) spelledB.symm
    rw [Reader.before_append, List.append_assoc,
      first.reads (r := r.before bs) spelledA known.1 stopFirst]
    have moved : (r.before bs).write (fragments x) = (r.write (fragments x)).before bs := rfl
    rw [moved, second.reads (r := r.write (fragments x)) spelledB known.2 stop]
    simp [Reader.write]
  total := by
    intro r
    obtain ⟨x, as, rest, unread, spelledA, knownA, stopA⟩ | fails := first.total r
    · have run : ∀ others, r.run (goals ++ more ++ others) =
          ((r.skipTo rest).write (fragments x)).run (more ++ others) := by
        intro others
        conv_lhs => rw [Reader.eq_before_skipTo unread]
        rw [List.append_assoc, first.reads (r := r.skipTo rest) spelledA knownA stopA]
      obtain ⟨y, bs, rest', unread', spelledB, knownB, stopB⟩ | fails :=
        second.total ((r.skipTo rest).write (fragments x))
      · refine Or.inl ⟨(x, y), as ++ bs, rest', ?_, ?_, ?_, stopB⟩
        · rw [unread, List.append_assoc]
          exact congrArg (as ++ ·) unread'
        · rw [List.map_append, spelledA, spelledB]
        · exact Token.known_append.mpr ⟨knownA, knownB⟩
      · exact Or.inr (fails.of_run run)
    · exact Or.inr (fails.append more)

/-- The same trees in another form. -/
theorem congr (read : Reads goals words fragments absorbs) (f : α → β) (g : β → α)
    (wordsTo : ∀ x, words' (f x) = words x) (wordsFrom : ∀ y, words (g y) = words' y)
    (fragmentsFrom : ∀ y, fragments (g y) = fragments' y) :
    Reads goals words' fragments' absorbs where
  reads := by
    intro y ts r spelled known stop rest
    rw [read.reads (x := g y) (spelled.trans (wordsFrom y).symm) known stop, fragmentsFrom]
  total := by
    intro r
    obtain ⟨x, ts, rest, unread, spelled, known, stop⟩ | fails := read.total r
    · exact Or.inl ⟨f x, ts, rest, unread, spelled.trans (wordsTo x).symm, known, stop⟩
    · exact Or.inr fails

/-- A phrase that only stands for other goals. -/
theorem expand {phrase : Phrase} (read : Reads goals words fragments absorbs)
    (predicted : ∀ scope t, phrase.predict scope t = .expand goals) :
    Reads [.read phrase] words fragments absorbs where
  reads := by
    intro x ts r spelled known stop rest
    rw [List.singleton_append, Reader.run_of_expand (predicted _ _)]
    exact read.reads spelled known stop rest
  total := by
    intro r
    obtain present | fails := read.total r
    · exact Or.inl present
    · refine Or.inr (fails.of_run fun rest => ?_)
      rw [List.singleton_append, Reader.run_of_expand (predicted _ _)]

/-- A phrase that takes one token more, in front of what other goals read. -/
theorem reads_shifted (read : Reads goals words fragments absorbs) {phrase : Phrase}
    {f : Fragment} {x : α} {t : Token} {us : List Token} {r : Reader}
    (predicted : phrase.predict r.scope t = .shift (some f) goals)
    (spelled : us.map Token.word = words x) (known : Token.Known r.scope (t :: us))
    (stop : ¬ absorbs r.current.kind) (rest : List Goal) :
    (r.before (t :: us)).run (.read phrase :: rest) =
      (r.write (f :: fragments x)).run rest := by
  have moved : ((r.before (t :: us)).write [f]).advance = (r.write [f]).before us := rfl
  have knownRest := (Token.known_cons.mp known).2
  rw [Reader.run_of_shift (r := r.before (t :: us)) predicted, Option.toList_some, moved,
    read.reads (r := r.write [f]) spelled knownRest stop rest, Reader.write_write]
  rfl

theorem total_shifted (read : Reads goals words fragments absorbs) {phrase : Phrase}
    {f : Fragment} {r : Reader}
    (predicted : phrase.predict r.scope r.current = .shift (some f) goals)
    (notEnd : r.current.kind ≠ .eof) (notName : r.current.kind ≠ .ident) :
    (∃ x us rest, r.unread = r.current :: us ++ rest ∧ us.map Token.word = words x ∧
      Token.Known r.scope (r.current :: us) ∧ ¬ absorbs (r.skipTo rest).current.kind) ∨
      r.Fails [.read phrase] := by
  obtain ⟨x, us, rest, unread, spelled, known, stop⟩ | fails := read.total (r.write [f]).advance
  · refine Or.inl ⟨x, us, rest, ?_, spelled, ?_, stop⟩
    · rw [Reader.unread_eq_cons notEnd]
      exact congrArg (r.current :: ·) unread
    · exact Token.known_cons.mpr ⟨fun isName => absurd isName notName, known⟩
  · exact Or.inr (fails.of_run fun rest => Reader.run_of_shift predicted rest)

/-! ### Operands -/

theorem operand :
    Reads [.read .operand] (fun x : Operand => [x.word]) (fun x => [x.fragment])
      (fun _ => false) where
  reads := by
    intro x ts r spelled known _ rest
    obtain ⟨t, rfl, same⟩ := List.map_eq_singleton_iff.mp spelled
    cases x with
    | numeral text =>
      obtain ⟨isNumber, rfl⟩ := Token.word_eq_mk_iff.mp same
      have predicted : Phrase.operand.predict r.scope t = .shift (some (.numeral t.text)) [] := by
        simp [Phrase.predict, isNumber]
      rw [List.singleton_append, Reader.run_of_shift predicted]
      rfl
    | name name =>
      obtain ⟨isName, rfl⟩ := Token.word_eq_mk_iff.mp same
      have assigned : t.text ∈ r.scope.assigned := by simpa [isName] using known
      have predicted : Phrase.operand.predict r.scope t = .shift (some (.valueOf t.text)) [] := by
        simp [Phrase.predict, isName, assigned]
      rw [List.singleton_append, Reader.run_of_shift predicted]
      rfl
  total := by
    intro r
    have present : ∀ x : Operand, r.current.kind ≠ .eof → r.current.word = x.word →
        Token.Known r.scope [r.current] →
        ∃ (x : Operand) (ts rest : List Token), r.unread = ts ++ rest ∧
          ts.map Token.word = [x.word] ∧ Token.Known r.scope ts ∧ ¬ false = true := by
      intro x notEnd same known
      exact ⟨x, [r.current], _, Reader.unread_eq_cons notEnd, by simp [same], known, by simp⟩
    -- the token in view alone decides
    by_cases isNumber : r.current.kind = .number
    · exact Or.inl (present (.numeral r.current.text) (by simp [isNumber])
        (Token.word_eq_mk_iff.mpr ⟨isNumber, rfl⟩) (by simp [isNumber]))
    · by_cases isName : r.current.kind = .ident
      · by_cases assigned : r.current.text ∈ r.scope.assigned
        · exact Or.inl (present (.name r.current.text) (by simp [isName])
            (Token.word_eq_mk_iff.mpr ⟨isName, rfl⟩) (by simp [assigned]))
        · have predicted : Phrase.operand.predict r.scope r.current =
              .reject (.unassignedVariable r.current.text) := by
            simp [Phrase.predict, isName, assigned]
          exact Or.inr (.of_reject predicted (by simp [Problem.code]))
      · have predicted : Phrase.operand.predict r.scope r.current =
            .reject (.unexpectedToken r.current) := by
          rw [Phrase.predict]
          split <;> simp_all
        exact Or.inr (.of_reject predicted (by simp [Problem.code]))

theorem factor : Reads [.read .factor] Factor.words Factor.fragments (fun _ => false) where
  reads := by
    rintro ⟨sign, x⟩ ts r spelled known stop rest
    cases sign with
    | none =>
      obtain ⟨t, rfl, same⟩ := List.map_eq_singleton_iff.mp spelled
      have predicted : Phrase.factor.predict r.scope t = .expand [.read .operand] := by
        cases x <;> simp_all [Phrase.predict, Operand.word, Word.name]
      rw [List.singleton_append, Reader.run_of_expand predicted]
      exact operand.reads spelled known stop rest
    | some sign =>
      obtain ⟨op, text⟩ := sign
      obtain ⟨t, us, rfl, same, spelled'⟩ := List.map_eq_cons_iff.mp spelled
      obtain ⟨isSign, rfl⟩ := Token.word_eq_mk_iff.mp same
      have predicted : Phrase.factor.predict r.scope t =
          .shift (some (.sign t.text)) [.read .operand] := by
        simp [Phrase.predict, isSign]
      exact operand.reads_shifted predicted spelled' known stop rest
  total := by
    intro r
    by_cases isSign : ∃ op, r.current.kind = .additive op
    · obtain ⟨op, isSign⟩ := isSign
      have predicted : Phrase.factor.predict r.scope r.current =
          .shift (some (.sign r.current.text)) [.read .operand] := by
        simp [Phrase.predict, isSign]
      obtain ⟨x, us, rest, unread, spelled, known, stop⟩ | fails :=
        operand.total_shifted predicted (by simp [isSign]) (by simp [isSign])
      · refine Or.inl ⟨⟨some ⟨op, r.current.text⟩, x⟩, _, rest, unread, ?_, known, stop⟩
        simpa [Factor.words, isSign] using spelled
      · exact Or.inr fails
    · have predicted : Phrase.factor.predict r.scope r.current = .expand [.read .operand] := by
        rw [Phrase.predict]
        split <;> simp_all
      obtain ⟨x, us, rest, unread, spelled, known, stop⟩ | fails := operand.total r
      · exact Or.inl ⟨⟨none, x⟩, us, rest, unread, spelled, known, stop⟩
      · exact Or.inr (fails.of_run fun rest => Reader.run_of_expand predicted rest)

/-! ### Operands with operators between them -/

end Reads

/-- The phrase `more` takes an operator of one family and then wants an `item` and more, and it
    takes nothing else. -/
structure Phrase.Loop {ω : Type} (more item : Phrase) (kind : ω → Kind) : Prop where
  takes : ∀ (scope : Scope) (t : Token) (op : ω), t.kind = kind op →
    more.predict scope t = .shift (some (.operator t.text)) [.read item, .read more]
  leaves : ∀ (scope : Scope) (t : Token), (∀ op, t.kind ≠ kind op) →
    more.predict scope t = .expand []
  notEnd : ∀ op, kind op ≠ .eof
  notName : ∀ op, kind op ≠ .ident

theorem Phrase.loop_moreFactors : Loop .moreFactors .factor Kind.multiplicative where
  takes scope t op isOp := by simp [Phrase.predict, isOp]
  leaves scope t noOp := by
    rw [Phrase.predict]
    split <;> simp_all
  notEnd := by simp
  notName := by simp

theorem Phrase.loop_moreTerms : Loop .moreTerms .term Kind.additive where
  takes scope t op isOp := by simp [Phrase.predict, isOp]
  leaves scope t noOp := by
    rw [Phrase.predict]
    split <;> simp_all
  notEnd := by simp
  notName := by simp

theorem Phrase.loop_moreComparisons : Loop .moreComparisons .expression Kind.comparison where
  takes scope t op isOp := by simp [Phrase.predict, isOp]
  leaves scope t noOp := by
    rw [Phrase.predict]
    split <;> simp_all
  notEnd := by simp
  notName := by simp

namespace Reads

variable {α ω : Type} {words : α → List Word} {fragments : α → List Fragment}
  {absorbs further : Kind → Bool} {more item : Phrase} {kind : ω → Kind}

/-- What follows an item of a chain is another operator of the family, or what follows the chain. -/
theorem stop_item (apart : ∀ op, ¬ absorbs (kind op)) {xs : List (Operator ω × α)}
    {bs : List Token} {r : Reader} (spelled : bs.map Token.word = Operator.chainWords kind words xs)
    (stop : ¬ absorbs r.current.kind) : ¬ absorbs (r.before bs).current.kind := by
  cases bs with
  | nil => exact stop
  | cons b bs =>
    cases xs with
    | nil => simp [Operator.chainWords] at spelled
    | cons next xs =>
      have isNext : b.kind = kind next.1.op :=
        (Token.word_eq_mk_iff.mp (List.cons.inj spelled).1).1
      simpa [isNext] using apart next.1.op

/-- A loop reads operators with trees after them. -/
theorem loop_reads (loop : Phrase.Loop more item kind)
    (read : Reads [.read item] words fragments absorbs) (apart : ∀ op, ¬ absorbs (kind op))
    {xs : List (Operator ω × α)} {ts : List Token} {r : Reader}
    (spelled : ts.map Token.word = Operator.chainWords kind words xs)
    (known : Token.Known r.scope ts) (stop : ¬ absorbs r.current.kind)
    (noOp : ∀ op, r.current.kind ≠ kind op) (rest : List Goal) :
    (r.before ts).run (.read more :: rest) =
      (r.write (Operator.chainFragments fragments xs)).run rest := by
  induction xs generalizing ts r with
  | nil =>
    rw [Operator.chainWords, List.flatMap_nil, List.map_eq_nil_iff] at spelled
    rw [spelled, Reader.before_nil, Reader.run_of_expand (loop.leaves _ _ noOp)]
    simp [Operator.chainFragments, Reader.write]
  | cons first xs ih =>
    obtain ⟨⟨op, text⟩, x⟩ := first
    rw [Operator.chainWords_cons] at spelled
    obtain ⟨t, us, rfl, same, spelledRest⟩ := List.map_eq_cons_iff.mp spelled
    obtain ⟨isOp, rfl⟩ := Token.word_eq_mk_iff.mp same
    obtain ⟨as, bs, rfl, spelledA, spelledB⟩ := List.map_eq_append_iff.mp spelledRest
    have knownAB := Token.known_append.mp (Token.known_cons.mp known).2
    let u := (r.write [.operator t.text]).before bs
    have stopItem : ¬ absorbs u.current.kind :=
      stop_item apart (r := r.write [.operator t.text]) spelledB stop
    rw [Reader.run_of_shift (loop.takes r.scope t op isOp)]
    have moved : ((r.before (t :: (as ++ bs))).write [.operator t.text]).advance =
        u.before as := by
      simp [u, Reader.write, Reader.before, Reader.advance]
    rw [Option.toList_some, moved]
    have readItem := read.reads (r := u) spelledA knownAB.1 stopItem (.read more :: rest)
    have readMore := ih (r := (r.write [.operator t.text]).write (fragments x)) spelledB
      knownAB.2 stop noOp
    refine readItem.trans (readMore.trans ?_)
    simp [Reader.write, Operator.chainFragments]

/-- A loop that begins after an item reads what is there, or fails. -/
theorem loop_total (loop : Phrase.Loop more item kind)
    (read : Reads [.read item] words fragments absorbs) (r : Reader)
    (stop : ¬ absorbs r.current.kind) :
    (∃ xs ts rest, r.unread = ts ++ rest ∧
      ts.map Token.word = Operator.chainWords kind words xs ∧ Token.Known r.scope ts ∧
      ¬ absorbs (r.skipTo rest).current.kind ∧
      ∀ op, (r.skipTo rest).current.kind ≠ kind op) ∨ r.Fails [.read more] := by
  -- Each round uses up an operator, so the tokens left bound the rounds left.
  induction left : r.unread.length using Nat.strongRecOn generalizing r with
  | ind n ih =>
    by_cases isOp : ∃ op, r.current.kind = kind op
    · obtain ⟨op, isOp⟩ := isOp
      have notEnd : r.current.kind ≠ .eof := by
        rw [isOp]
        exact loop.notEnd op
      have unread := Reader.unread_eq_cons notEnd
      let u := (r.write [.operator r.current.text]).advance
      have run : ∀ others, r.run ([.read more] ++ others) =
          u.run ([.read item, .read more] ++ others) :=
        fun others => Reader.run_of_shift (loop.takes r.scope r.current op isOp) others
      obtain ⟨x, as, rest, unreadItem, spelledA, knownA, stopA⟩ | fails := read.total u
      · have shorter : rest.length < n := by
          have whole := congrArg List.length unread
          have part := congrArg List.length unreadItem
          simp only [u, Reader.advance, Reader.write, List.length_append, List.length_cons] at *
          omega
        let v := (u.skipTo rest).write (fragments x)
        have runItem : ∀ others, r.run ([.read more] ++ others) =
            v.run ([.read more] ++ others) := by
          intro others
          rw [run, Reader.eq_before_skipTo unreadItem]
          exact read.reads (r := u.skipTo rest) spelledA knownA stopA _
        obtain ⟨xs, bs, rest', unreadMore, spelledB, knownB, stopB, noOp⟩ | fails :=
          ih rest.length shorter v stopA rfl
        · refine Or.inl ⟨(⟨op, r.current.text⟩, x) :: xs, r.current :: (as ++ bs), rest', ?_, ?_,
            ?_, stopB, noOp⟩
          · have after : r.unread.tail = as ++ (bs ++ rest') :=
              unreadItem.trans (congrArg (as ++ ·) unreadMore)
            rw [unread, after]
            simp
          · simp [Operator.chainWords_cons, isOp, spelledA, spelledB]
          · refine Token.known_cons.mpr ⟨fun isName => ?_, Token.known_append.mpr ⟨knownA, knownB⟩⟩
            exact absurd (isOp.symm.trans isName) (loop.notName op)
        · exact Or.inr (fails.of_run runItem)
      · exact Or.inr ((fails.append [.read more]).of_run run)
    · rw [not_exists] at isOp
      exact Or.inl ⟨[], [], r.unread, rfl, rfl, by simp, stop, isOp⟩

/-- An item and a loop read items with operators between them. -/
theorem chain (loop : Phrase.Loop more item kind)
    (read : Reads [.read item] words fragments absorbs) (apart : ∀ op, ¬ absorbs (kind op))
    (goesOn : ∀ k, further k ↔ absorbs k ∨ ∃ op, k = kind op) :
    Reads [.read item, .read more]
      (fun p : α × List (Operator ω × α) => words p.1 ++ Operator.chainWords kind words p.2)
      (fun p => fragments p.1 ++ Operator.chainFragments fragments p.2) further where
  reads := by
    rintro ⟨x, xs⟩ ts r spelled known stop rest
    obtain ⟨as, bs, rfl, spelledA, spelledB⟩ := List.map_eq_append_iff.mp spelled
    rw [Token.known_append] at known
    rw [goesOn, not_or, not_exists] at stop
    have readItem := read.reads (r := r.before bs) spelledA known.1
      (stop_item apart spelledB stop.1) (.read more :: rest)
    have readMore := loop_reads loop read apart (r := r.write (fragments x)) spelledB known.2
      stop.1 stop.2 rest
    rw [Reader.before_append]
    refine readItem.trans (readMore.trans ?_)
    simp [Reader.write]
  total := by
    intro r
    obtain ⟨x, as, rest, unread, spelledA, knownA, stopA⟩ | fails := read.total r
    · let u := (r.skipTo rest).write (fragments x)
      have run : ∀ others, r.run ([.read item, .read more] ++ others) =
          u.run ([.read more] ++ others) := by
        intro others
        conv_lhs => rw [Reader.eq_before_skipTo unread]
        exact read.reads (r := r.skipTo rest) spelledA knownA stopA _
      obtain ⟨xs, bs, rest', unread', spelledB, knownB, stopB, noOp⟩ | fails :=
        loop_total loop read u stopA
      · refine Or.inl ⟨(x, xs), as ++ bs, rest', ?_, ?_, ?_, ?_⟩
        · rw [unread, List.append_assoc]
          exact congrArg (as ++ ·) unread'
        · rw [List.map_append, spelledA, spelledB]
        · exact Token.known_append.mpr ⟨knownA, knownB⟩
        · rw [goesOn, not_or, not_exists]
          exact ⟨stopB, noOp⟩
      · exact Or.inr (fails.of_run run)
    · exact Or.inr (fails.append [.read more])

/-! ### The levels of an expression -/

theorem term : Reads [.read .term] Term.words Term.fragments Kind.extendsTerm := by
  have factors := chain Phrase.loop_moreFactors factor (by simp) Kind.extendsTerm_iff
  have asTerm : Reads [.read .term] _ _ Kind.extendsTerm := factors.expand fun _ _ => rfl
  exact asTerm.congr (fun p => ⟨p.1, p.2⟩) (fun t => (t.first, t.rest)) (fun _ => rfl)
    (fun _ => rfl) (fun _ => rfl)

theorem expression :
    Reads [.read .expression] Expression.words Expression.fragments Kind.extendsExpression := by
  have terms := chain Phrase.loop_moreTerms term nofun Kind.extendsExpression_iff
  have asExpression : Reads [.read .expression] _ _ Kind.extendsExpression :=
    terms.expand fun _ _ => rfl
  exact asExpression.congr (fun p => ⟨p.1, p.2⟩) (fun e => (e.first, e.rest)) (fun _ => rfl)
    (fun _ => rfl) (fun _ => rfl)

/-- The comparisons of a condition, of which there must be one. -/
theorem comparison :
    Reads [.read .comparison]
      (fun p : (Operator Comparator × Expression) × List (Operator Comparator × Expression) =>
        Operator.chainWords Kind.comparison Expression.words (p.1 :: p.2))
      (fun p => Operator.chainFragments Expression.fragments (p.1 :: p.2))
      Kind.extendsCondition := by
  have operands := chain Phrase.loop_moreComparisons expression (fun _ => Bool.false_ne_true)
    Kind.extendsCondition_iff
  constructor
  · rintro ⟨⟨⟨op, text⟩, x⟩, xs⟩ ts r spelled known stop rest
    rw [Operator.chainWords_cons] at spelled
    obtain ⟨t, us, rfl, same, spelledRest⟩ := List.map_eq_cons_iff.mp spelled
    obtain ⟨isOp, rfl⟩ := Token.word_eq_mk_iff.mp same
    have predicted : Phrase.comparison.predict r.scope t =
        .shift (some (.operator t.text)) [.read .expression, .read .moreComparisons] := by
      simp [Phrase.predict, isOp]
    exact operands.reads_shifted (x := (x, xs)) predicted spelledRest known stop rest
  · intro r
    by_cases isOp : ∃ op, r.current.kind = .comparison op
    · obtain ⟨op, isOp⟩ := isOp
      have predicted : Phrase.comparison.predict r.scope r.current =
          .shift (some (.operator r.current.text))
            [.read .expression, .read .moreComparisons] := by
        simp [Phrase.predict, isOp]
      obtain ⟨⟨x, xs⟩, us, rest, unread, spelled, known, stop⟩ | fails :=
        operands.total_shifted predicted (by simp [isOp]) (by simp [isOp])
      · refine Or.inl ⟨((⟨op, r.current.text⟩, x), xs), _, rest, unread, ?_, known, stop⟩
        simp [Operator.chainWords_cons, isOp, spelled]
      · exact Or.inr fails
    · have predicted : Phrase.comparison.predict r.scope r.current =
          .reject (.missingComparison r.current) := by
        rw [Phrase.predict]
        split <;> simp_all
      exact Or.inr (.of_reject predicted (by simp [Problem.code]))

theorem condition :
    Reads [.read .condition] Condition.words Condition.fragments Kind.extendsCondition := by
  have apart : ∀ (p : (Operator Comparator × Expression) × List (Operator Comparator × Expression))
      (w : Word) (ws : List Word),
      Operator.chainWords Kind.comparison Expression.words (p.1 :: p.2) = w :: ws →
        ¬ w.kind.extendsExpression := by
    rintro ⟨⟨o, x⟩, xs⟩ w ws spelled
    rw [Operator.chainWords_cons] at spelled
    obtain ⟨rfl, -⟩ := List.cons.inj spelled
    simp [Kind.extendsExpression, Kind.extendsTerm]
  have wider : ∀ k : Kind, k.extendsExpression → k.extendsCondition :=
    fun k extended => (Kind.extendsCondition_iff k).mpr (Or.inl extended)
  exact ((seq expression comparison apart wider).expand fun _ _ => rfl).congr
    (fun p => ⟨p.1, p.2.1, p.2.2⟩) (fun c => (c.first, c.second, c.rest)) (fun _ => rfl)
    (fun _ => rfl) (fun _ => rfl)

end Reads

end BasicToC
