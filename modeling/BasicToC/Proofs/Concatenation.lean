import BasicToC.Proofs.Layout
import BasicToC.Proofs.LineBreaks
import BasicToC.Proofs.RepeatedLabels

/-! # Programs one after the other

A program is compiled the same after another one as alone, but for two things: a variable that the
first one has is not declared once more, and a label that the first one has cannot be placed.  The
second program is read once with no names and once with those of the first; `Scope.After` relates
the names of the two readings, and every token keeps it.
-/

namespace BasicToC

/-! ## Names after other names -/

namespace Scope

/-- The names `s'` are those of `base`, and after them those of `s` that are not there yet. -/
structure After (base s s' : Scope) : Prop where
  assigned : s'.assigned = base.assigned ++ s.assigned.filter (· ∉ base.assigned)
  labels : s'.labels = base.labels ++ s.labels
  jumps : ∀ name, name ∈ s'.jumps.map Jump.name ↔
    name ∈ base.jumps.map Jump.name ∨ name ∈ s.jumps.map Jump.name

namespace After

variable {base s s' : Scope}

theorem empty (base : Scope) : After base .empty base := by
  constructor <;> simp [Scope.empty]

theorem mem_assigned (after : After base s s') {x : String} :
    x ∈ s'.assigned ↔ x ∈ base.assigned ∨ x ∈ s.assigned := by
  by_cases old : x ∈ base.assigned <;> simp [after.assigned, old]

theorem addVariable (after : After base s s') (name : String) :
    After base (s.addVariable name) (s'.addVariable name) where
  assigned := by
    rw [assigned_addVariable, assigned_addVariable]
    -- whether the name is new depends on where it is looked for
    by_cases old : name ∈ base.assigned <;> by_cases known : name ∈ s.assigned <;>
      simp [after.assigned, List.filter_append, old, known]
  labels := by simpa using after.labels
  jumps := by simpa using after.jumps

theorem addLabel (after : After base s s') (name : String) :
    After base (s.addLabel name) (s'.addLabel name) where
  assigned := after.assigned
  labels := by simp [Scope.addLabel, after.labels]
  jumps := after.jumps

theorem addJump (after : After base s s') (jump : Jump) :
    After base (s.addJump jump) (s'.addJump jump) where
  assigned := by simpa using after.assigned
  labels := by simpa using after.labels
  jumps name := by rw [mem_jumpNames_addJump, mem_jumpNames_addJump, after.jumps, or_assoc]

theorem dangling?_eq_none (after : After base s s') (lands : base.dangling? = none)
    (lands' : s.dangling? = none) : s'.dangling? = none := by
  rw [dangling?_eq_none_iff] at lands lands' ⊢
  intro jump mem
  rw [after.labels, List.mem_append]
  rcases (after.jumps jump.name).mp (List.mem_map_of_mem mem) with old | new
  · obtain ⟨other, mem', same⟩ := List.mem_map.mp old
    exact .inl (same ▸ lands other mem')
  · obtain ⟨other, mem', same⟩ := List.mem_map.mp new
    exact .inr (same ▸ lands' other mem')

end After

end Scope

namespace Ledger

variable {base : Scope} {l m : Ledger}

theorem after_enter (last : l.last = m.last) (after : Scope.After base l.scope m.scope)
    (t : Token) : Scope.After base (l.enter t).scope (m.enter t).scope := by
  unfold enter
  rw [last]
  dsimp only
  split
  · exact after.addVariable t.text
  · exact after.addVariable t.text
  · exact after.addLabel t.text
  · exact after.addJump _
  · exact after

theorem after_enterAll (last : l.last = m.last) (after : Scope.After base l.scope m.scope)
    (ts : List Token) : Scope.After base (l.enterAll ts).scope (m.enterAll ts).scope := by
  induction ts generalizing l m with
  | nil => exact after
  | cons t ts ih => exact ih rfl (after_enter last after t)

/-- The same token is allowed after more names, unless it is a label that they have. -/
theorem allows_after (last : l.last = m.last) (after : Scope.After base l.scope m.scope) {t : Token}
    (allowed : l.Allows t) (new : m.last.labels = true → t.text ∉ base.labels) :
    m.Allows t := by
  rw [allows_iff, last] at allowed
  rw [allows_iff]
  obtain ⟨free, unplaced, known⟩ := allowed
  refine ⟨free, fun isLabel => ?_, fun plain isName => ?_⟩
  · rw [after.labels, List.mem_append, not_or]
    exact ⟨new isLabel, unplaced isLabel⟩
  · exact after.mem_assigned.mpr (.inr (known plain isName))

/-- Tokens that are allowed alone are allowed after more names, up to the first label that they
    have. -/
theorem allowsAll_or_repeats (base : Scope) {ts : List Token}
    (allowed : (atLine .empty).AllowsAll ts) :
    match (Token.following Kind.labels ts).find? (·.text ∈ base.labels) with
    | none => (atLine base).AllowsAll ts
    | some t => (atLine base).Repeats ts t := by
  induction ts using List.reverseRecOn with
  | nil => exact trivial
  | append_singleton ts t ih =>
    rw [allowsAll_append] at allowed
    obtain ⟨earlier, allowsLast, -⟩ := allowed
    have before := ih earlier
    rw [Token.following_concat rfl, List.find?_append]
    cases found : (Token.following Kind.labels ts).find? (·.text ∈ base.labels) with
    | some u =>
      rw [found] at before
      exact repeats_append.mpr (.inl before)
    | none =>
      rw [found] at before
      have last : ((atLine .empty).enterAll ts).last = ((atLine base).enterAll ts).last := by
        rw [last_enterAll, last_enterAll]
      have after := after_enterAll (l := atLine .empty) (m := atLine base) rfl (.empty base) ts
      rw [Option.none_or]
      by_cases isLabel : (Token.lastKind ts).labels = true
      · by_cases old : t.text ∈ base.labels
        · -- this is the first label that is there already
          have placed : ((atLine base).enterAll ts).last = .keyword .label := by
            rw [last_enterAll]
            simpa [Kind.labels] using isLabel
          have free : isReserved t.text = false := by
            rw [allows_iff, last, placed] at allowsLast
            exact allowsLast.1 rfl
          simp only [isLabel, if_true, List.find?_cons, old, decide_true]
          refine repeats_append.mpr (.inr ⟨before, .inl ⟨rfl, placed, free, ?_⟩⟩)
          rw [after.labels]
          exact List.mem_append_left _ old
        · simp only [isLabel, if_true, List.find?_cons, old, decide_false, List.find?_nil]
          exact (allowsAll_append _ _ _).mpr
            ⟨before, allows_after last after allowsLast fun _ => old, trivial⟩
      · simp only [isLabel, Bool.false_eq_true, if_false, List.find?_nil]
        have plain : ((atLine base).enterAll ts).last.labels = true → t.text ∉ base.labels := by
          rw [last_enterAll]
          exact fun labels => absurd labels isLabel
        exact (allowsAll_append _ _ _).mpr
          ⟨before, allows_after last after allowsLast plain, trivial⟩

end Ledger

/-! ## Trees after other trees -/

theorem Statement.allFragments_append (first second : List Statement) :
    Statement.allFragments (first ++ second) =
      Statement.allFragments first ++ Statement.allFragments second := by
  induction first with
  | nil => simp [Statement.allFragments]
  | cons s first ih => simp [Statement.allFragments, ih]

/-- Blank lines can stand after the last statement. -/
theorem Spelled.append_blank {program : List Statement} {ts : List Token}
    (spelled : Spelled program ts) (nonempty : program ≠ []) {ns : List Token}
    (newlines : ∀ n ∈ ns, n.kind = .newline) : Spelled program (ts ++ ns) := by
  -- the end of the last line takes them in
  have longer : ∀ {ends : List Token}, LineEnd ends → LineEnd (ends ++ ns) := by
    rintro ends ⟨some, areNewlines⟩
    refine ⟨by simp [some], fun n mem => ?_⟩
    rcases List.mem_append.mp mem with mem | mem
    · exact areNewlines n mem
    · exact newlines n mem
  induction spelled with
  | nil => exact absurd rfl nonempty
  | @line k head ts ends others s more isHead isLine isEnd spelled ih =>
    cases more with
    | nil =>
      cases spelled
      simpa using Spelled.line k isHead isLine (longer isEnd) .nil
    | cons s' more => simpa using Spelled.line k isHead isLine isEnd (ih (by simp))
  | @governed c head thenToken close cs ends bs ends' others condition body more isHead isCondition
      isThen isEnd inner isClose isEnd' spelled ihInner ihOthers =>
    cases more with
    | nil =>
      cases spelled
      simpa using Spelled.governed c isHead isCondition isThen isEnd inner isClose (longer isEnd')
        .nil
    | cons s' more =>
      simpa using Spelled.governed c isHead isCondition isThen isEnd inner isClose isEnd'
        (ihOthers (by simp))

theorem Laid.append {first second : Program} {ts us : List Token} (laid : Laid first ts)
    (laid' : Laid second us) : Laid (first ++ second) (ts ++ us) := by
  obtain ⟨blank, rest, rfl, newlines, spelled⟩ := laid
  obtain ⟨blank', rest', rfl, newlines', spelled'⟩ := laid'
  by_cases empty : first = []
  · subst empty
    cases spelled
    refine ⟨blank ++ blank', rest', by simp, fun n mem => ?_, spelled'⟩
    rcases List.mem_append.mp mem with mem | mem
    · exact newlines n mem
    · exact newlines' n mem
  · exact ⟨blank, rest ++ blank' ++ rest', by simp, newlines,
      (spelled.append_blank empty newlines').append spelled'⟩

/-- A program leaves nothing open at its end. -/
theorem Laid.enterAll_eq {tree : Program} {ts : List Token} (laid : Laid tree ts) (scope : Scope) :
    (Ledger.atLine scope).enterAll ts = .atLine ((Ledger.atLine scope).enterAll ts).scope := by
  obtain ⟨blank, rest, rfl, newlines, spelled⟩ := laid
  rw [Ledger.enterAll_blank newlines]
  exact spelled.enterAll_eq scope

theorem Laid.lastKind_eq {tree : Program} {ts : List Token} (laid : Laid tree ts) :
    Token.lastKind ts = .newline := by
  rw [← Ledger.last_enterAll .empty, laid.enterAll_eq]
  rfl

/-! ## Accepted programs -/

/-- The first label of `us` whose name is that of a label of `ts`. -/
def Token.takenLabel? (ts us : List Token) : Option Token :=
  (following Kind.labels us).find? (·.text ∈ namesFollowing Kind.labels ts)

theorem Token.takenLabel?_eq_none_iff {ts us : List Token} :
    takenLabel? ts us = none ↔
      ∀ name ∈ namesFollowing Kind.labels us, name ∉ namesFollowing Kind.labels ts := by
  simp [takenLabel?, namesFollowing, List.find?_eq_none]

/-- These tokens are a program, with its tree, that compiles. -/
structure Program.Accepted (tree : Program) (ts : List Token) : Prop where
  laid : Laid tree ts
  allowed : (Ledger.atLine .empty).AllowsAll ts
  lands : ((Ledger.atLine .empty).enterAll ts).scope.dangling? = none

/-- The variables of a row of tokens. -/
def Token.assigned (ts : List Token) : List String :=
  ((Ledger.atLine .empty).enterAll ts).scope.assigned

/-- The output of a whole program: its beginning, a declaration for each of its variables, its code
    and its end. -/
def Output.whole (names : List String) (code : List Fragment) : Output where
  declarations := #[.includeHeader, .openMain] ++ (names.map Declaration.float).toArray
  code := (code ++ [Fragment.closeMain]).toArray

namespace Program.Accepted

variable {tree tree' : Program} {ts us : List Token}

theorem of_compile_ok (ok : (Machine.compile (.ofTokens ts) .empty).1 = .ok ()) :
    ∃ tree, Accepted tree (Token.beforeEnd ts) := by
  have noEnd : ∀ t ∈ (Reader.ofTokens ts).unread, t.kind ≠ .eof :=
    fun t mem => Token.kind_ne_eof_of_mem_beforeEnd mem
  rw [(Machine.compile_ofTokens ts .empty).1, Reader.run_body_ok_iff _ noEnd] at ok
  obtain ⟨⟨tree, laid⟩, allowed, lands⟩ := ok
  exact ⟨tree, laid, allowed, lands⟩

theorem compile_eq (accepted : Accepted tree (Token.beforeEnd ts)) :
    (Machine.compile (.ofTokens ts) .empty).1 = .ok () ∧
      (Machine.compile (.ofTokens ts) .empty).2.output =
        .whole (Token.assigned (Token.beforeEnd ts)) (Statement.allFragments tree) := by
  obtain ⟨result, shows⟩ := Machine.compile_ofTokens ts .empty
  have run := accepted.laid.run_body (r := Reader.ofTokens ts) accepted.allowed
  rw [run] at result shows
  refine ⟨result.trans ((Scope.verdict_eq_ok_iff _).mpr accepted.lands), shows.output.trans ?_⟩
  simp [Reader.written, Output.whole, Output.opened, Output.empty, Output.declare, Reader.write,
    Reader.ofTokens, Reader.start, Reader.withScope, Reader.skipTo, Token.assigned]

/-- The names of both programs are those of the second after those of the first. -/
theorem after (accepted : Accepted tree ts) (us : List Token) :
    Scope.After ((Ledger.atLine .empty).enterAll ts).scope
      ((Ledger.atLine .empty).enterAll us).scope
      ((Ledger.atLine .empty).enterAll (ts ++ us)).scope := by
  let base := ((Ledger.atLine .empty).enterAll ts).scope
  have same : (Ledger.atLine .empty).enterAll (ts ++ us) = (Ledger.atLine base).enterAll us := by
    rw [Ledger.enterAll_append, accepted.laid.enterAll_eq]
  rw [same]
  exact Ledger.after_enterAll (l := .atLine .empty) (m := .atLine base) rfl (.empty base) us

theorem append (accepted : Accepted tree ts) (accepted' : Accepted tree' us)
    (new : Token.takenLabel? ts us = none) :
    Accepted (tree ++ tree') (ts ++ us) where
  laid := accepted.laid.append accepted'.laid
  allowed := by
    have allowed := Ledger.allowsAll_or_repeats ((Ledger.atLine .empty).enterAll ts).scope
      accepted'.allowed
    rw [Ledger.labels_enterAll, ← Token.takenLabel?, new] at allowed
    rw [Ledger.allowsAll_append, accepted.laid.enterAll_eq]
    exact ⟨accepted.allowed, allowed⟩
  lands := (accepted.after us).dangling?_eq_none accepted.lands accepted'.lands

theorem repeats (accepted : Accepted tree ts) (accepted' : Accepted tree' us) {t : Token}
    (old : Token.takenLabel? ts us = some t) :
    (Ledger.atLine .empty).Repeats (ts ++ us) t := by
  have repeats := Ledger.allowsAll_or_repeats ((Ledger.atLine .empty).enterAll ts).scope
    accepted'.allowed
  rw [Ledger.labels_enterAll, ← Token.takenLabel?, old] at repeats
  rw [Ledger.repeats_append, accepted.laid.enterAll_eq]
  exact .inr ⟨accepted.allowed, repeats⟩

end Program.Accepted

/-! ## Texts -/

/-- A text compiles, and `o` is its output. -/
structure Leaves (source : String) (o : Output) : Prop where
  output : (Machine.compile (.ofText source) .empty).2.output = o
  text : compile source = .ok o.text

theorem Program.Accepted.leaves {source : String} {ts : List Token} {tree : Program}
    (lexed : lex source = .ok ts) (accepted : Accepted tree (Token.beforeEnd ts)) :
    Leaves source
      (.whole (Token.assigned (Token.beforeEnd ts)) (Statement.allFragments tree)) := by
  obtain ⟨result, output⟩ := Machine.compile_ofText_of_lexed lexed .empty
  obtain ⟨ok, whole⟩ := accepted.compile_eq
  have left := output.trans whole
  exact ⟨left, compile_eq_ok_iff.mpr ⟨result.trans ok, by rw [left]⟩⟩

theorem Program.Accepted.of_compile {source c : String} (compiled : compile source = .ok c) :
    ∃ ts tree, lex source = .ok ts ∧ Accepted tree (Token.beforeEnd ts) := by
  obtain ⟨ok, -⟩ := compile_eq_ok_iff.mp compiled
  obtain ⟨ts, lexed⟩ := Machine.lexed_of_compile_ok ok
  rw [(Machine.compile_ofText_of_lexed lexed .empty).1] at ok
  obtain ⟨tree, accepted⟩ := Accepted.of_compile_ok ok
  exact ⟨ts, tree, lexed, accepted⟩

/-- A text with a label that is there already does not compile. -/
theorem Laid.compile_of_repeats {source : String} {ts : List Token} {tree : Program} {t : Token}
    (lexed : lex source = .ok ts) (laid : Laid tree (Token.beforeEnd ts))
    (repeats : (Ledger.atLine .empty).Repeats (Token.beforeEnd ts) t) :
    compile source = .error t.repeated := by
  have failed := laid.run_body_of_repeats (r := Reader.ofTokens ts) repeats
  rw [← (Machine.compile_ofTokens ts .empty).1,
    ← (Machine.compile_ofText_of_lexed lexed .empty).1] at failed
  rw [compile_eq_map, failed]
  rfl

namespace Token

theorem beforeEnd_lower (n : Nat) (ts : List Token) :
    beforeEnd (ts.map (lower n)) = (beforeEnd ts).map (lower n) := by
  rw [beforeEnd, List.takeWhile_map]
  rfl

theorem following_lower (kinds : Kind → Bool) (n : Nat) (ts : List Token) :
    following kinds (ts.map (lower n)) = (following kinds ts).map (lower n) := by
  induction ts with
  | nil => rfl
  | cons t ts ih =>
    cases ts with
    | nil => rfl
    | cons u ts =>
      have kind : (t.lower n).kind = t.kind := rfl
      simp only [List.map_cons, following, kind] at ih ⊢
      rw [ih]
      split <;> rfl

/-- The end of a program follows no keyword. -/
theorem following_beforeEnd {source : String} {ts : List Token} (lexed : lex source = .ok ts)
    {tree : Program} (laid : Laid tree (beforeEnd ts)) :
    following Kind.labels ts = following Kind.labels (beforeEnd ts) := by
  obtain ⟨⟨ending, whole⟩, -⟩ := tokens_of_lexed lexed
  conv_lhs => rw [whole]
  rw [following_concat rfl, laid.lastKind_eq]
  simp [Kind.labels]

end Token

/-- The label is the same where the second program stands further down. -/
theorem Program.Accepted.takenLabel?_lower {s₁ s₂ : String} {ts₁ ts₂ : List Token}
    {tree₁ tree₂ : Program} (lexed₁ : lex s₁ = .ok ts₁) (lexed₂ : lex s₂ = .ok ts₂)
    (accepted₁ : Accepted tree₁ (Token.beforeEnd ts₁))
    (accepted₂ : Accepted tree₂ (Token.beforeEnd ts₂)) (n : Nat) :
    Token.takenLabel? (Token.beforeEnd ts₁) (Token.beforeEnd (ts₂.map (Token.lower n))) =
      (Token.takenLabel? ts₁ ts₂).map (Token.lower n) := by
  have labels₁ := Token.following_beforeEnd lexed₁ accepted₁.laid
  have labels₂ := Token.following_beforeEnd lexed₂ accepted₂.laid
  rw [Token.takenLabel?, Token.takenLabel?, Token.beforeEnd_lower, Token.following_lower,
    Token.namesFollowing, ← labels₁, ← labels₂, List.find?_map]
  rfl

/-- The same program further down is accepted as well, and compiles to the same. -/
theorem Program.Accepted.lower {tree : Program} {ts : List Token}
    (accepted : Accepted tree (Token.beforeEnd ts)) (n : Nat) :
    ∃ tree', Accepted tree' (Token.beforeEnd (ts.map (Token.lower n))) ∧
      (Machine.compile (.ofTokens ts) .empty).2.output =
        .whole (Token.assigned (Token.beforeEnd (ts.map (Token.lower n))))
          (Statement.allFragments tree') := by
  have shown : Token.withoutLayout (ts.map (Token.lower n)) = Token.withoutLayout ts := by
    rw [Token.withoutLayout, Token.beforeEnd_lower, List.map_map]
    rfl
  obtain ⟨result, output⟩ := Machine.compile_of_withoutLayout_eq shown .empty
  rw [accepted.compile_eq.1] at result
  have ok : (Machine.compile (.ofTokens (ts.map (Token.lower n))) .empty).1 = .ok () := by
    cases compiled : (Machine.compile (.ofTokens (ts.map (Token.lower n))) .empty).1 with
    | ok => rfl
    | error d =>
      rw [compiled] at result
      cases result
  obtain ⟨tree', accepted'⟩ := Accepted.of_compile_ok ok
  exact ⟨tree', accepted', output.symm.trans accepted'.compile_eq.2⟩

/-- Compiling two programs in a row, the first of which ends its last line.  If they have no label
    in common, the output has one beginning, the variables of the first, those of the second that
    the first does not have, the code of the first, the code of the second, and one end.  Otherwise
    compiling fails at the first label of the second that the first has, and the line of the report
    is counted on. -/
theorem compile_append {s₁ s₂ c₁ c₂ : String} (first : compile s₁ = .ok c₁)
    (second : compile s₂ = .ok c₂) (ends : s₁ = "" ∨ ∃ line, s₁ = line ++ "\n") :
    ∃ ts₁ ts₂ names₁ names₂ code₁ code₂,
      lex s₁ = .ok ts₁ ∧ lex s₂ = .ok ts₂ ∧
      Leaves s₁ (.whole names₁ code₁) ∧ Leaves s₂ (.whole names₂ code₂) ∧
      ((∀ name ∈ Token.namesFollowing Kind.labels ts₂,
          name ∉ Token.namesFollowing Kind.labels ts₁) →
        Leaves (s₁ ++ s₂)
          (.whole (names₁ ++ names₂.filter (· ∉ names₁)) (code₁ ++ code₂))) ∧
      ((∃ name ∈ Token.namesFollowing Kind.labels ts₂,
          name ∈ Token.namesFollowing Kind.labels ts₁) →
        ∃ t, (Token.following Kind.labels ts₂).find?
            (·.text ∈ Token.namesFollowing Kind.labels ts₁) = some t ∧
          compile (s₁ ++ s₂) = .error
            ⟨.duplicateLabel, some (t.position.line + s₁.toList.count '\n'), t.position.column,
              (Problem.repeatedLabel t.text).message⟩) := by
  have endsLine : EndsLine s₁.toList := by
    rcases ends with rfl | ⟨line, rfl⟩ <;> simp [EndsLine]
  obtain ⟨ts₁, tree₁, lexed₁, accepted₁⟩ := Program.Accepted.of_compile first
  obtain ⟨ts₂, tree₂, lexed₂, accepted₂⟩ := Program.Accepted.of_compile second
  let n := s₁.toList.count '\n'
  obtain ⟨tree, accepted, output₂⟩ := accepted₂.lower n
  -- the tokens of both texts are those of the first, and those of the second further down
  have lexed := lex_append endsLine lexed₁ lexed₂
  have noEnd : ∀ t ∈ Token.beforeEnd ts₁, t.kind ≠ .eof :=
    fun t mem => Token.kind_ne_eof_of_mem_beforeEnd mem
  have whole := Token.beforeEnd_append noEnd (ts₂.map (Token.lower n))
  have leaves₁ := accepted₁.leaves lexed₁
  have leaves₂ := accepted₂.leaves lexed₂
  rw [← accepted₂.compile_eq.2, output₂] at leaves₂
  have taken := accepted₁.takenLabel?_lower lexed₁ lexed₂ accepted₂ n
  refine ⟨ts₁, ts₂, _, _, _, _, lexed₁, lexed₂, leaves₁, leaves₂, ?_, ?_⟩
  · intro new
    rw [Token.takenLabel?_eq_none_iff.mpr new] at taken
    have joined := accepted₁.append accepted taken
    have names := (accepted₁.after (Token.beforeEnd (ts₂.map (Token.lower n)))).assigned
    rw [← whole] at joined names
    have leaves := joined.leaves lexed
    rw [Token.assigned, names, Statement.allFragments_append] at leaves
    exact leaves
  · rintro ⟨name, mem₂, mem₁⟩
    cases old : Token.takenLabel? ts₁ ts₂ with
    | none => exact absurd mem₁ (Token.takenLabel?_eq_none_iff.mp old name mem₂)
    | some t =>
      rw [old] at taken
      have repeats := accepted₁.repeats accepted taken
      have laid := accepted₁.laid.append accepted.laid
      rw [← whole] at repeats laid
      exact ⟨t, old, laid.compile_of_repeats lexed repeats⟩

/-- A second program with a variable of the first, and one with its label. -/
theorem compile_append_of_two_programs :
    let s₁ := "LET x = 1\nLABEL a\n"
    let s₂ := "LET y = 2\nLET x = y\nLABEL b\n"
    let s₃ := "# again\nINPUT y\nLABEL a\n"
    let text (source : String) := (compile source).toOption.getD ""
    (compile s₁ = .ok (text s₁) ∧ compile s₂ = .ok (text s₂) ∧ compile s₃ = .ok (text s₃)) ∧
      (∃ names₁ names₂ code₁ code₂,
        Leaves s₁ (.whole names₁ code₁) ∧ Leaves s₂ (.whole names₂ code₂) ∧
        Leaves (s₁ ++ s₂)
          (.whole (names₁ ++ names₂.filter (· ∉ names₁)) (code₁ ++ code₂))) ∧
      compile (s₁ ++ s₃) = .error ⟨.duplicateLabel, some 5, ⟨6, 7⟩, "LABEL ALREADY EXISTS: a"⟩ := by
  intro s₁ s₂ s₃ text
  have compiled₁ : compile s₁ = .ok (text s₁) := by decide +kernel
  have compiled₂ : compile s₂ = .ok (text s₂) := by decide +kernel
  have compiled₃ : compile s₃ = .ok (text s₃) := by decide +kernel
  have ends : s₁ = "" ∨ ∃ line, s₁ = line ++ "\n" := .inr ⟨"LET x = 1\nLABEL a", by decide⟩
  let labels (source : String) := (lex source).map (Token.following Kind.labels)
  have labels₁ : labels s₁ = .ok [⟨.ident, "a", ⟨2, ⟨6, 7⟩⟩⟩] := by decide +kernel
  have labels₂ : labels s₂ = .ok [⟨.ident, "b", ⟨3, ⟨6, 7⟩⟩⟩] := by decide +kernel
  have labels₃ : labels s₃ = .ok [⟨.ident, "a", ⟨3, ⟨6, 7⟩⟩⟩] := by decide +kernel
  refine ⟨⟨compiled₁, compiled₂, compiled₃⟩, ?_, ?_⟩
  · obtain ⟨ts₁, ts₂, names₁, names₂, code₁, code₂, lexed₁, lexed₂, leaves₁, leaves₂, apart, -⟩ :=
      compile_append compiled₁ compiled₂ ends
    simp only [labels, lexed₁, lexed₂, Except.map, Except.ok.injEq] at labels₁ labels₂
    refine ⟨names₁, names₂, code₁, code₂, leaves₁, leaves₂, apart ?_⟩
    simp [Token.namesFollowing, labels₁, labels₂]
  · obtain ⟨ts₁, ts₃, -, -, -, -, lexed₁, lexed₃, -, -, -, common⟩ :=
      compile_append compiled₁ compiled₃ ends
    simp only [labels, lexed₁, lexed₃, Except.map, Except.ok.injEq] at labels₁ labels₃
    obtain ⟨t, found, failed⟩ := common (by simp [Token.namesFollowing, labels₁, labels₃])
    obtain rfl : _ = t := by
      simpa [Token.namesFollowing, labels₁, labels₃] using found
    exact failed.trans (by decide +kernel)

end BasicToC
