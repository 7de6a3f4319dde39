import BasicToC.Proofs.Acceptance

/-! # Labels that are there already

A program that is in order but for a label whose name is taken is read up to that label, and fails
there.  `Ledger.Repeats` says from left to right which label that is, and `Spelled.run_of_repeats`
follows the statements to it, into blocks and past them.
-/

namespace BasicToC

namespace Ledger

/-- Of the next tokens, `t` is the first one that is not allowed, and all that is wrong with it is
    that there is a label of this name. -/
def Repeats (l : Ledger) : List Token → Token → Prop
  | [], _ => False
  | u :: us, t =>
    (t = u ∧ l.last = .keyword .label ∧ isReserved t.text = false ∧ t.text ∈ l.scope.labels) ∨
      l.Allows u ∧ (l.enter u).Repeats us t

theorem repeats_append {l : Ledger} {ts us : List Token} {t : Token} :
    l.Repeats (ts ++ us) t ↔
      l.Repeats ts t ∨ l.AllowsAll ts ∧ (l.enterAll ts).Repeats us t := by
  induction ts generalizing l with
  | nil => simp [Repeats]
  | cons u ts ih =>
    simp only [List.cons_append, Repeats, allowsAll_cons, enterAll_cons, ih]
    tauto

/-- Where no label is named, none is repeated. -/
theorem not_repeats_of_plain {l : Ledger} (plain : l.last.names = false) {ts : List Token}
    (plains : Token.Plain ts) {t : Token} : ¬ l.Repeats ts t := by
  induction ts generalizing l with
  | nil => exact id
  | cons u ts ih =>
    have plainHead : u.kind.names = false := plains u (by simp)
    have plainTail : Token.Plain ts := fun v mem => plains v (by simp [mem])
    rintro (⟨-, isLabel, -⟩ | ⟨-, later⟩)
    · rw [isLabel] at plain
      cases plain
    · exact ih plainHead plainTail later

theorem repeats_blank {ns : List Token} (newlines : ∀ n ∈ ns, n.kind = .newline) {scope : Scope}
    {rest : List Token} {t : Token} (repeats : (atLine scope).Repeats (ns ++ rest) t) :
    (atLine scope).Repeats rest t := by
  rcases repeats_append.mp repeats with here | ⟨-, later⟩
  · exact absurd here (not_repeats_of_plain rfl (plain_of_lineEnd newlines))
  · have same := enterAll_blank newlines scope []
    rw [List.append_nil] at same
    rwa [same] at later

end Ledger

/-! ## The line of the label -/

theorem Line.repeats {k : LineKind} {ts : List Token} {s : Statement} (isLine : Line k ts s)
    {scope : Scope} {t : Token} (repeats : (Ledger.afterHead k scope).Repeats ts t) :
    k = .label ∧ ts = [t] ∧ t.kind = .ident ∧ isReserved t.text = false ∧
      t.text ∈ scope.labels := by
  cases isLine with
  | @label u isName =>
    obtain ⟨rfl, -, free, old⟩ | ⟨-, ⟨⟩⟩ := repeats
    exact ⟨rfl, rfl, isName, free, old⟩
  | printText | goto | input =>
    obtain ⟨-, ⟨⟩, -⟩ | ⟨-, ⟨⟩⟩ := repeats
  | @print _ value spelled =>
    have plain := Token.plain_of_words spelled value.plain_words
    exact absurd repeats (Ledger.not_repeats_of_plain rfl plain)
  | @assign u sign us value isName isSign spelled =>
    have plain : Token.Plain (sign :: us) := by
      intro v mem
      rcases List.mem_cons.mp mem with rfl | mem
      · rw [isSign]
        rfl
      · exact Token.plain_of_words spelled value.plain_words v mem
    obtain ⟨-, ⟨⟩, -⟩ | ⟨-, later⟩ := repeats
    have plainName : ((Ledger.afterHead .assign scope).enter u).last.names = false := by
      simp [Ledger.enter, isName, Kind.names, Kind.assigns, Kind.labels, Kind.jumps]
    exact absurd later (Ledger.not_repeats_of_plain plainName plain)

theorem Line.repeats_whole {k : LineKind} {head : Token} {ts ns : List Token} {s : Statement}
    (isHead : head.kind = .keyword k.keyword) (isLine : Line k ts s) (isEnd : LineEnd ns)
    {scope : Scope} {t : Token}
    (repeats : (Ledger.atLine scope).Repeats (head :: (ts ++ ns)) t) :
    (Ledger.afterHead k scope).Repeats ts t := by
  have headed : (Ledger.atLine scope).enter head = .afterHead k scope := by
    rw [Ledger.enter_of_plain rfl, isHead]
    rfl
  obtain ⟨-, ⟨⟩, -⟩ | ⟨-, later⟩ := repeats
  rw [headed] at later
  rcases Ledger.repeats_append.mp later with named | ⟨-, atEnd⟩
  · exact named
  · exact absurd atEnd
      (Ledger.not_repeats_of_plain (isLine.last_enterAll scope) (Ledger.plain_of_lineEnd isEnd.2))

/-- A construct repeats a label only inside its block, which is reached. -/
theorem Construct.repeats_whole (c : Construct) {head thenToken close : Token}
    {cs ns bs ns' : List Token} {condition : Condition} {scope : Scope} {t : Token}
    (isHead : head.kind = .keyword c.head) (isCondition : cs.map Token.word = condition.words)
    (isThen : thenToken.kind = .keyword c.thenWord) (isEnd : LineEnd ns)
    (plainBody : ((Ledger.atLine scope).enterAll bs).last.names = false)
    (isClose : close.kind = .keyword c.close) (isEnd' : LineEnd ns')
    (repeats : (Ledger.atLine scope).Repeats
      (head :: (cs ++ thenToken :: (ns ++ (bs ++ close :: ns')))) t) :
    Token.Known scope cs ∧ (Ledger.atLine scope).Repeats bs t := by
  have plainLine := c.plain_head isHead isCondition isThen
  have plainClose : Token.Plain (close :: ns') := by
    rw [Token.Plain, List.forall_mem_cons]
    exact ⟨c.plain_close isClose close (by simp), Ledger.plain_of_lineEnd isEnd'.2⟩
  have split : head :: (cs ++ thenToken :: (ns ++ (bs ++ close :: ns'))) =
      (head :: (cs ++ [thenToken])) ++ (ns ++ (bs ++ close :: ns')) := by simp
  obtain ⟨sameScope, plainAfter⟩ := Ledger.enterAll_of_plain (l := .atLine scope) rfl plainLine
  have opened := Ledger.enterAll_lineEnd plainAfter isEnd
  rw [sameScope] at opened
  rw [split] at repeats
  rcases Ledger.repeats_append.mp repeats with here | ⟨allowed, later⟩
  · exact absurd here (Ledger.not_repeats_of_plain rfl plainLine)
  · have known := (Ledger.allowsAll_of_plain rfl plainLine).mp allowed
    refine ⟨fun u mem => known u (by simp [mem]), ?_⟩
    rcases Ledger.repeats_append.mp later with here | ⟨-, later⟩
    · exact absurd here
        (Ledger.not_repeats_of_plain plainAfter (Ledger.plain_of_lineEnd isEnd.2))
    · rw [opened] at later
      rcases Ledger.repeats_append.mp later with inBody | ⟨-, atClose⟩
      · exact inBody
      · exact absurd atClose (Ledger.not_repeats_of_plain plainBody plainClose)

/-! ## Reading up to the label -/

/-- The report of a label that is there already. -/
def Token.repeated (t : Token) : Diagnostic :=
  (Problem.repeatedLabel t.text).located t.position

theorem Reader.run_labelName_of_old {r : Reader} {t : Token} (isName : t.kind = .ident)
    (free : isReserved t.text = false) (old : t.text ∈ r.scope.labels) (ts : List Token)
    (rest : List Goal) :
    ((r.before (t :: ts)).run (.read .labelName :: rest)).1 = .error t.repeated := by
  have predicted : Phrase.labelName.predict r.scope t =
      .shift none [.act (.setLabel t.text t.position)] :=
    Token.asName_of_free isName free fun name => [.act (.setLabel name t.position)]
  rw [Reader.run_take predicted]
  exact congrArg Prod.fst (Reader.run_setLabel_of_old (r := r.before ts) old t.position rest)

/-- Reading fails where a label is repeated. -/
theorem Spelled.run_of_repeats {program : List Statement} {ts : List Token}
    (spelled : Spelled program ts) {r : Reader} {t : Token}
    (repeats : (Ledger.atLine r.scope).Repeats ts t) (stop : r.current.kind ≠ .newline)
    (region : Region) (rest : List Goal) :
    ((r.before ts).run (.read region.phrase :: rest)).1 = .error t.repeated := by
  -- the first statement is the one that fails, or it is read as a program of its own
  induction spelled generalizing r region rest with
  | nil => cases repeats
  | @line k head ts ns others s more isHead isLine isEnd spelled ih =>
    have first : Spelled [s] (head :: (ts ++ ns)) := by
      simpa using Spelled.line k isHead isLine isEnd .nil
    have split : head :: (ts ++ (ns ++ others)) = (head :: (ts ++ ns)) ++ others := by simp
    rw [split] at repeats ⊢
    rcases Ledger.repeats_append.mp repeats with here | ⟨allowed, later⟩
    · have named := isLine.repeats_whole isHead isEnd here
      obtain ⟨rfl, rfl, isName, free, old⟩ := isLine.repeats named
      rw [List.cons_append, Reader.run_take (region.predict_line isHead r.scope)]
      exact Reader.run_labelName_of_old isName free old (ns ++ others) _
    · rw [first.enterAll_eq] at later
      rw [Reader.before_append, first.reads (r := r.before others) allowed
        (spelled.current_ne_newline stop)]
      exact ih (r := (r.withScope _).write _) later stop region rest
  | @governed c head thenToken close cs ns bs ns' others condition body more isHead isCondition
      isThen isEnd inner isClose isEnd' spelled ihInner ihOthers =>
    have first : Spelled [c.statement condition body]
        (head :: (cs ++ thenToken :: (ns ++ (bs ++ close :: ns')))) := by
      simpa using Spelled.governed c isHead isCondition isThen isEnd inner isClose isEnd' .nil
    have split : head :: (cs ++ thenToken :: (ns ++ (bs ++ close :: (ns' ++ others)))) =
        (head :: (cs ++ thenToken :: (ns ++ (bs ++ close :: ns')))) ++ others := by simp
    rw [split] at repeats ⊢
    rcases Ledger.repeats_append.mp repeats with here | ⟨allowed, later⟩
    · obtain ⟨known, inBody⟩ := c.repeats_whole isHead isCondition isThen isEnd
        (inner.last_enterAll r.scope) isClose isEnd' here
      let u := r.before (close :: (ns' ++ others))
      have stopBody : u.current.kind ≠ .newline := by simp [u, isClose]
      have upToBlock : (head :: (cs ++ thenToken :: (ns ++ (bs ++ close :: ns')))) ++ others =
          (head :: (cs ++ thenToken :: ns)) ++ (bs ++ close :: (ns' ++ others)) := by simp
      rw [upToBlock, Reader.before_append, Reader.before_append,
        c.reads_head isHead isCondition isThen isEnd (r := u.before bs) known
          (inner.current_ne_newline stopBody)]
      exact ihInner (r := u.write _) inBody stopBody (.block c) _
    · rw [first.enterAll_eq] at later
      rw [Reader.before_append, first.reads (r := r.before others) allowed
        (spelled.current_ne_newline stop)]
      exact ihOthers (r := (r.withScope _).write _) later stop region rest

/-- A whole program fails where it repeats a label. -/
theorem Laid.run_body_of_repeats {tree : Program} {r : Reader} (laid : Laid tree r.unread)
    {t : Token} (repeats : (Ledger.atLine r.scope).Repeats r.unread t) :
    (r.run Goal.body).1 = .error t.repeated := by
  obtain ⟨blank, rest, unread, newlines, spelled⟩ := laid
  have whole : r = (r.skipTo []).before (blank ++ rest) :=
    Reader.eq_before_skipTo (by simp [unread])
  have stop : (r.skipTo []).current.kind ≠ .newline := by
    simp [Reader.skipTo, Reader.current, r.isEnd]
  rw [unread] at repeats
  have later := Ledger.repeats_blank newlines repeats
  have skipped := Reader.run_blankLines newlines (spelled.current_ne_newline stop)
    [.read .statements, .act (.emit .closeMain), .act .checkJumps]
  rw [whole, Reader.before_append]
  refine (congrArg Prod.fst skipped).trans ?_
  exact spelled.run_of_repeats (r := r.skipTo []) later stop .top _

end BasicToC
