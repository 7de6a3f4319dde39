import BasicToC.Proofs.Layout
import BasicToC.Proofs.Numerals
import BasicToC.Proofs.Translation

/-! # Trees and their words

The words of a program, without blank lines, are the words of its tree, and no other tree has the
same words.  In canonical form, with literals in place of numerals, they still determine the code.
-/

namespace BasicToC

/-! ## From tokens to the words of their tree -/

/-- A property of the words that conditions are made of. -/
structure Word.OnConditions (P : Word → Prop) : Prop where
  operand : ∀ x : Operand, P x.word
  additive : ∀ op text, P ⟨.additive op, text⟩
  multiplicative : ∀ op text, P ⟨.multiplicative op, text⟩
  comparison : ∀ op text, P ⟨.comparison op, text⟩

namespace Word.OnConditions

variable {P : Word → Prop}

theorem chain {ω α : Type} {kind : ω → Kind} {words : α → List Word}
    (operator : ∀ op text, P ⟨kind op, text⟩) (item : ∀ x, ∀ w ∈ words x, P w)
    (rest : List (Operator ω × α)) : ∀ w ∈ Operator.chainWords kind words rest, P w := by
  intro w mem
  obtain ⟨⟨o, x⟩, -, mem⟩ := List.mem_flatMap.mp mem
  cases mem with
  | head => exact operator o.op o.text
  | tail _ mem => exact item x w mem

theorem factor (holds : Word.OnConditions P) (f : Factor) : ∀ w ∈ f.words, P w := by
  obtain ⟨sign, x⟩ := f
  cases sign with
  | none => simpa [Factor.words] using holds.operand x
  | some sign =>
    simpa [Factor.words] using ⟨holds.additive sign.op sign.text, holds.operand x⟩

theorem term (holds : Word.OnConditions P) (t : Term) : ∀ w ∈ t.words, P w := by
  intro w mem
  cases List.mem_append.mp mem with
  | inl mem => exact holds.factor t.first w mem
  | inr mem => exact chain holds.multiplicative holds.factor t.rest w mem

theorem expression (holds : Word.OnConditions P) (e : Expression) : ∀ w ∈ e.words, P w := by
  intro w mem
  cases List.mem_append.mp mem with
  | inl mem => exact holds.term e.first w mem
  | inr mem => exact chain holds.additive holds.term e.rest w mem

theorem condition (holds : Word.OnConditions P) (c : Condition) : ∀ w ∈ c.words, P w := by
  intro w mem
  cases List.mem_append.mp mem with
  | inl mem => exact holds.expression c.first w mem
  | inr mem => exact chain holds.comparison holds.expression (c.second :: c.rest) w mem

theorem ne_newline : Word.OnConditions fun w => w.kind ≠ .newline where
  operand x := by cases x <;> nofun
  additive := nofun
  multiplicative := nofun
  comparison := nofun

end Word.OnConditions

namespace Word

theorem squeeze_false_append {ws : List Word} (inLine : ∀ w ∈ ws, w.kind ≠ .newline)
    (rest : List Word) : squeeze false (ws ++ rest) = ws ++ squeeze false rest := by
  induction ws with
  | nil => rfl
  | cons w ws ih =>
    rw [List.cons_append, squeeze, if_neg (inLine w (by simp)),
      ih fun v mem => inLine v (by simp [mem])]
    rfl

end Word

namespace Token

theorem word_of_keyword {t : Token} {k : Keyword} (isKeyword : t.kind = .keyword k)
    (admissible : t.word.Admissible) : t.word = k.word := by
  have text : t.text = k.spelling := by
    simpa [Word.Admissible, word, isKeyword] using admissible
  rw [word, isKeyword, text]
  rfl

theorem word_of_becomes {t : Token} (isSign : t.kind = .becomes)
    (admissible : t.word.Admissible) : t.word = .becomes := by
  have text : t.text.toList = "=".toList := by
    simpa [Word.Admissible, word, isSign, Kind.symbols] using admissible
  rw [word, isSign, String.toList_inj.mp text]
  rfl

theorem word_of_newline {t : Token} (isNewline : t.kind = .newline)
    (admissible : t.word.Admissible) : t.word = .newline := by
  have text : t.text = "\n" := by
    simpa [Word.Admissible, word, isNewline] using admissible
  rw [word, isNewline, text]
  rfl

end Token

/-- The line ends after a line count as one. -/
theorem LineEnd.squeeze_append {ns : List Token} (isEnd : LineEnd ns)
    (admissible : ∀ n ∈ ns, n.word.Admissible) (rest : List Word) :
    Word.squeeze false (ns.map Token.word ++ rest) = .newline :: Word.squeeze true rest := by
  obtain ⟨n, more, rfl⟩ := List.exists_cons_of_ne_nil isEnd.1
  have first := Token.word_of_newline (isEnd.2 n (by simp)) (admissible n (by simp))
  have others : ∀ w ∈ more.map Token.word, w.kind = .newline := by
    intro w mem
    obtain ⟨m, isMore, rfl⟩ := List.mem_map.mp mem
    exact isEnd.2 m (by simp [isMore])
  rw [List.map_cons, first, List.cons_append, Word.squeeze_false_cons]
  exact congrArg _ (Word.squeeze_true_newlines others rest)

/-- The words of a statement of one line. -/
theorem Line.words_eq {k : LineKind} {ts : List Token} {s : Statement} (isLine : Line k ts s)
    (admissible : ∀ t ∈ ts, t.word.Admissible) :
    s.words = k.keyword.word :: (ts.map Token.word ++ [.newline]) := by
  cases isLine with
  | printText isKind | label isKind | goto isKind | input isKind =>
    simp [Statement.words, Token.word, Word.name, isKind]
  | print spelled =>
    rw [spelled]
    rfl
  | assign isName isSign spelled =>
    have sign := Token.word_of_becomes isSign (admissible _ (by simp))
    rw [List.map_cons, List.map_cons, spelled, sign, Token.word, isName]
    rfl

theorem Line.ne_newline {k : LineKind} {ts : List Token} {s : Statement} (isLine : Line k ts s) :
    ∀ w ∈ ts.map Token.word, w.kind ≠ .newline := by
  cases isLine with
  | printText isKind | label isKind | goto isKind | input isKind => simp [Token.word, isKind]
  | print spelled =>
    rw [spelled]
    exact Word.OnConditions.ne_newline.expression _
  | assign isName isSign spelled =>
    rw [List.map_cons, List.map_cons, spelled, List.forall_mem_cons, List.forall_mem_cons]
    refine ⟨?_, ?_, Word.OnConditions.ne_newline.expression _⟩
    · simp [Token.word, isName]
    · simp [Token.word, isSign]

theorem Construct.words_statement (c : Construct) (condition : Condition)
    (body : List Statement) :
    (c.statement condition body).words =
      c.head.word :: (condition.words ++ c.thenWord.word :: .newline ::
        (Statement.allWords body ++ [c.close.word, .newline])) := by
  cases c <;> simp [Construct.statement, Statement.words, Construct.head, Construct.thenWord,
    Construct.close]

/-- Without its blank lines, a row of statements has the words of its trees. -/
theorem Spelled.squeeze_append {program : List Statement} {ts : List Token}
    (spelled : Spelled program ts) (admissible : ∀ t ∈ ts, t.word.Admissible)
    (rest : List Word) :
    Word.squeeze true (ts.map Token.word ++ rest) =
      Statement.allWords program ++ Word.squeeze true rest := by
  have keyword : ∀ {t : Token} {k : Keyword} (ws : List Word), t.kind = .keyword k →
      t.word.Admissible → Word.squeeze true (t.word :: ws) = k.word :: Word.squeeze false ws := by
    intro t k ws isKeyword admissible
    rw [Token.word_of_keyword isKeyword admissible, Word.squeeze, if_neg (by simp [Keyword.word])]
  induction spelled generalizing rest with
  | nil => rfl
  | @line k head ts ns others s more isHead isLine isEnd _ ih =>
    simp only [List.forall_mem_cons, List.forall_mem_append] at admissible
    obtain ⟨ofHead, ofLine, ofEnd, ofOthers⟩ := admissible
    simp only [List.map_cons, List.map_append, List.cons_append, List.append_assoc]
    rw [keyword _ isHead ofHead, Word.squeeze_false_append isLine.ne_newline,
      isEnd.squeeze_append ofEnd, ih ofOthers, Statement.allWords, isLine.words_eq ofLine]
    simp
  | @governed c head thenToken close cs ns bs ns' others condition body more isHead isCondition
      isThen isEnd inner isClose isEnd' _ ihInner ihOthers =>
    simp only [List.forall_mem_cons, List.forall_mem_append] at admissible
    obtain ⟨ofHead, -, ofThen, ofEnd, ofBody, ofClose, ofEnd', ofOthers⟩ := admissible
    have inLine : ∀ w ∈ cs.map Token.word ++ [c.thenWord.word], w.kind ≠ .newline := by
      rw [isCondition, List.forall_mem_append]
      exact ⟨Word.OnConditions.ne_newline.condition condition, by simp [Keyword.word]⟩
    simp only [List.map_cons, List.map_append, List.cons_append, List.append_assoc]
    rw [keyword _ isHead ofHead, Token.word_of_keyword isThen ofThen, List.append_cons,
      Word.squeeze_false_append inLine, isEnd.squeeze_append ofEnd, ihInner ofBody,
      keyword _ isClose ofClose, isEnd'.squeeze_append ofEnd', ihOthers ofOthers,
      Statement.allWords, c.words_statement, isCondition]
    simp

/-- Without blank lines, the tokens of a program say the words of its tree. -/
theorem Laid.squeeze_append {tree : Program} {ts : List Token} (laid : Laid tree ts)
    (admissible : ∀ t ∈ ts, t.word.Admissible) (rest : List Word) :
    Word.squeeze true (ts.map Token.word ++ rest) = tree.words ++ Word.squeeze true rest := by
  obtain ⟨blank, later, rfl, newlines, spelled⟩ := laid
  have blankWords : ∀ w ∈ blank.map Token.word, w.kind = .newline := by
    intro w mem
    obtain ⟨n, isBlank, rfl⟩ := List.mem_map.mp mem
    exact newlines n isBlank
  rw [List.map_append, List.append_assoc, Word.squeeze_true_newlines blankWords,
    spelled.squeeze_append fun t mem => admissible t (by simp [mem])]
  rfl

theorem Word.mem_of_mem_squeeze {w : Word} {atStart : Bool} {ws : List Word}
    (mem : w ∈ squeeze atStart ws) : w ∈ ws := by
  fun_induction squeeze atStart ws <;> simp_all <;> tauto

/-- The words of a tree are among those of its tokens. -/
theorem Laid.admissible_words {tree : Program} {ts : List Token} (laid : Laid tree ts)
    (admissible : ∀ t ∈ ts, t.word.Admissible) : ∀ w ∈ tree.words, w.Admissible := by
  intro w mem
  have squeezed : w ∈ Word.squeeze true (ts.map Token.word ++ []) := by
    rw [laid.squeeze_append admissible]
    exact List.mem_append_left _ mem
  have among := Word.mem_of_mem_squeeze squeezed
  rw [List.append_nil] at among
  obtain ⟨t, isToken, rfl⟩ := List.mem_map.mp among
  exact admissible t isToken

/-! ## From words to trees -/

@[simp]
theorem Word.word_token (w : Word) : w.token.word = w := rfl

theorem Word.map_word_token (ws : List Word) : (ws.map Word.token).map Token.word = ws := by
  simp [Function.comp_def]

theorem Word.lineEnd_newline : LineEnd [Word.newline.token] := by
  simp [LineEnd, Word.newline, Word.token]

theorem Construct.spelled_words (c : Construct) (condition : Condition)
    {body more : List Statement} {rest : List Token}
    (inner : Spelled body ((Statement.allWords body).map Word.token))
    (others : Spelled more rest) :
    Spelled (c.statement condition body :: more)
      ((c.statement condition body).words.map Word.token ++ rest) := by
  have isKeyword : ∀ k : Keyword, k.word.token.kind = .keyword k := fun _ => rfl
  have isCondition := Word.map_word_token condition.words
  rw [c.words_statement]
  simpa using Spelled.governed c (isKeyword c.head) isCondition (isKeyword c.thenWord)
    Word.lineEnd_newline inner (isKeyword c.close) Word.lineEnd_newline others

mutual

/-- A statement can be written with its words. -/
theorem Statement.spelled_words (s : Statement) {more : List Statement} {rest : List Token}
    (others : Spelled more rest) : Spelled (s :: more) (s.words.map Word.token ++ rest) := by
  have line : ∀ {k : LineKind} {ts : List Token} {s : Statement}, Line k ts s →
      Spelled (s :: more) (k.keyword.word.token :: (ts ++ ([Word.newline.token] ++ rest))) :=
    fun isLine => Spelled.line _ rfl isLine Word.lineEnd_newline others
  have isName : ∀ name, (Word.name name).token.kind = .ident := fun _ => rfl
  cases s with
  | printText text => exact line (.printText (t := Word.token ⟨.string, text⟩) rfl)
  | print value => simpa [Statement.words] using line (.print (Word.map_word_token value.words))
  | ifThen condition body =>
    exact Construct.spelled_words .ifThen condition (Statement.spelled_allWords body) others
  | whileRepeat condition body =>
    exact Construct.spelled_words .whileRepeat condition (Statement.spelled_allWords body) others
  | label name => exact line (.label (isName name))
  | goto name => exact line (.goto (isName name))
  | assign name value =>
    have isSign : Word.becomes.token.kind = .becomes := rfl
    have isLine : Line .assign _ (.assign name value) :=
      .assign (isName name) isSign (Word.map_word_token value.words)
    simpa [Statement.words] using line isLine
  | input name => exact line (.input (isName name))

theorem Statement.spelled_allWords (program : List Statement) :
    Spelled program ((Statement.allWords program).map Word.token) := by
  cases program with
  | nil => exact .nil
  | cons s rest =>
    rw [Statement.allWords, List.map_append]
    exact Statement.spelled_words s (Statement.spelled_allWords rest)

end

/-- Different programs have different words. -/
theorem Program.words_injective {p q : Program} (same : p.words = q.words) : p = q := by
  have laid : ∀ r : Program, Laid r (r.words.map Word.token) :=
    fun r => ⟨[], _, rfl, nofun, Statement.spelled_allWords r⟩
  exact (laid p).unique (same ▸ laid q)

/-! ## Literals in place of numerals -/

/-- A word with the literal of a numeral in place of the numeral. -/
def Word.canonical (w : Word) : Word :=
  match w.kind with
  | .number => ⟨.number, Numeral.literal w.text⟩
  | _ => w

theorem Word.canonical_of_ne_number {w : Word} (other : w.kind ≠ .number) : w.canonical = w := by
  unfold Word.canonical
  split
  · next isNumber => exact absurd isNumber other
  · rfl

@[simp]
theorem Keyword.canonical_word (k : Keyword) : k.word.canonical = k.word := rfl

@[simp]
theorem Word.canonical_name (x : String) : (Word.name x).canonical = .name x := rfl

@[simp]
theorem Word.canonical_newline : Word.newline.canonical = .newline := rfl

@[simp]
theorem Word.canonical_becomes : Word.becomes.canonical = .becomes := rfl

def Operand.canonical : Operand → Operand
  | .numeral text => .numeral (Numeral.literal text)
  | .name x => .name x

def Factor.canonical (f : Factor) : Factor :=
  ⟨f.sign, f.operand.canonical⟩

def Term.canonical (t : Term) : Term :=
  ⟨t.first.canonical, t.rest.map (Prod.map id Factor.canonical)⟩

def Expression.canonical (e : Expression) : Expression :=
  ⟨e.first.canonical, e.rest.map (Prod.map id Term.canonical)⟩

def Condition.canonical (c : Condition) : Condition :=
  ⟨c.first.canonical, Prod.map id Expression.canonical c.second,
    c.rest.map (Prod.map id Expression.canonical)⟩

mutual

/-- A statement with literals in place of its numerals. -/
def Statement.canonical : Statement → Statement
  | .printText text => .printText text
  | .print value => .print value.canonical
  | .ifThen condition body => .ifThen condition.canonical (Statement.allCanonical body)
  | .whileRepeat condition body => .whileRepeat condition.canonical (Statement.allCanonical body)
  | .label name => .label name
  | .goto name => .goto name
  | .assign name value => .assign name value.canonical
  | .input name => .input name

/-- Statements with literals in place of their numerals. -/
def Statement.allCanonical : List Statement → List Statement
  | [] => []
  | s :: rest => s.canonical :: Statement.allCanonical rest

end

/-! ### Their words -/

/-- The words of a chain in canonical form, if it is known for the items. -/
theorem Operator.words_canonical {ω α : Type} {kind : ω → Kind} {words : α → List Word}
    {canonical : α → α} (fixed : ∀ op, kind op ≠ .number)
    (same : ∀ x, words (canonical x) = (words x).map Word.canonical)
    (first : α) (rest : List (Operator ω × α)) :
    words (canonical first) ++
        Operator.chainWords kind words (rest.map (Prod.map id canonical)) =
      (words first ++ Operator.chainWords kind words rest).map Word.canonical := by
  induction rest generalizing first with
  | nil => simp [Operator.chainWords, same]
  | cons second rest ih =>
    obtain ⟨o, x⟩ := second
    have operator : Word.canonical ⟨kind o.op, o.text⟩ = ⟨kind o.op, o.text⟩ :=
      Word.canonical_of_ne_number (fixed o.op)
    rw [List.map_cons, Prod.map_apply, id_eq, Operator.chainWords_cons, Operator.chainWords_cons,
      ih x, same]
    simp only [List.map_append, List.map_cons, operator]

theorem Factor.words_canonical (f : Factor) : f.canonical.words = f.words.map Word.canonical := by
  obtain ⟨sign, x⟩ := f
  cases sign <;> cases x <;> rfl

theorem Term.words_canonical (t : Term) : t.canonical.words = t.words.map Word.canonical :=
  Operator.words_canonical nofun Factor.words_canonical t.first t.rest

theorem Expression.words_canonical (e : Expression) :
    e.canonical.words = e.words.map Word.canonical :=
  Operator.words_canonical nofun Term.words_canonical e.first e.rest

theorem Condition.words_canonical (c : Condition) :
    c.canonical.words = c.words.map Word.canonical :=
  Operator.words_canonical nofun Expression.words_canonical c.first (c.second :: c.rest)

mutual

theorem Statement.words_canonical (s : Statement) :
    s.canonical.words = s.words.map Word.canonical := by
  cases s with
  | printText | label | goto | input => rfl
  | print value | assign name value =>
    simp [Statement.canonical, Statement.words, value.words_canonical]
  | ifThen condition body | whileRepeat condition body =>
    simp [Statement.canonical, Statement.words, condition.words_canonical,
      Statement.allWords_canonical body]

theorem Statement.allWords_canonical (program : List Statement) :
    Statement.allWords (Statement.allCanonical program) =
      (Statement.allWords program).map Word.canonical := by
  cases program with
  | nil => rfl
  | cons s rest =>
    rw [Statement.allCanonical, Statement.allWords, Statement.words_canonical s,
      Statement.allWords_canonical rest, Statement.allWords, List.map_append]

end

/-! ### Their code -/

/-- A chain keeps its code in canonical form, if the items do. -/
theorem Operator.code_canonical {ω α : Type} {code : α → String} {canonical : α → α}
    (same : ∀ x, code (canonical x) = code x) (first : α) (rest : List (Operator ω × α)) :
    code (canonical first) ++ String.join
        ((rest.map (Prod.map id canonical)).map fun (o, x) => o.code ++ code x) =
      code first ++ String.join (rest.map fun (o, x) => o.code ++ code x) := by
  rw [same, List.map_map]
  congr 3
  funext ⟨o, x⟩
  exact congrArg (o.code ++ ·) (same x)

theorem Factor.code_canonical (f : Factor) : f.canonical.code = f.code := by
  have operand : f.operand.canonical.code = f.operand.code := by
    cases f.operand with
    | numeral text => exact Numeral.literal_literal text
    | name x => rfl
  unfold Factor.code Factor.canonical
  rw [operand]

theorem Term.code_canonical (t : Term) : t.canonical.code = t.code :=
  Operator.code_canonical Factor.code_canonical t.first t.rest

theorem Expression.code_canonical (e : Expression) : e.canonical.code = e.code :=
  Operator.code_canonical Term.code_canonical e.first e.rest

theorem Condition.code_canonical (c : Condition) : c.canonical.code = c.code :=
  Operator.code_canonical Expression.code_canonical c.first (c.second :: c.rest)

mutual

theorem Statement.code_canonical (s : Statement) : s.canonical.code = s.code := by
  cases s with
  | printText | label | goto | input => rfl
  | print value =>
    exact congrArg ("printf(\"%.2f\\n\", (float)(" ++ · ++ "));\n") value.code_canonical
  | assign name value => exact congrArg (name ++ " = " ++ · ++ ";\n") value.code_canonical
  | ifThen condition body =>
    exact congrArg₂ ("if(" ++ · ++ ")\x7b\n" ++ · ++ "\x7d\n") condition.code_canonical
      (Statement.allCode_canonical body)
  | whileRepeat condition body =>
    exact congrArg₂ ("while(" ++ · ++ ")\x7b\n" ++ · ++ "\x7d\n") condition.code_canonical
      (Statement.allCode_canonical body)

theorem Statement.allCode_canonical (program : List Statement) :
    Statement.allCode (Statement.allCanonical program) = Statement.allCode program := by
  cases program with
  | nil => rfl
  | cons s rest =>
    exact congrArg₂ (· ++ ·) (Statement.code_canonical s) (Statement.allCode_canonical rest)

end

mutual

theorem Statement.targets_canonical (s : Statement) : s.canonical.targets = s.targets := by
  cases s with
  | ifThen condition body | whileRepeat condition body =>
    rw [Statement.canonical, Statement.targets, Statement.allTargets_canonical body,
      Statement.targets]
  | _ => rfl

theorem Statement.allTargets_canonical (program : List Statement) :
    Statement.allTargets (Statement.allCanonical program) = Statement.allTargets program := by
  cases program with
  | nil => rfl
  | cons s rest =>
    rw [Statement.allCanonical, Statement.allTargets, Statement.targets_canonical s,
      Statement.allTargets_canonical rest, Statement.allTargets]

end

theorem Program.code_canonical (p : Program) :
    Program.code (Statement.allCanonical p) = p.code := by
  unfold Program.code Program.assigned
  rw [Statement.allTargets_canonical, Statement.allCode_canonical]

/-- Programs with the same words, but for how their numerals are written, have the same code. -/
theorem Program.code_eq_of_words {p q : Program}
    (same : p.words.map Word.canonical = q.words.map Word.canonical) : p.code = q.code := by
  have words : Program.words (Statement.allCanonical p) =
      Program.words (Statement.allCanonical q) := by
    unfold Program.words at same ⊢
    rw [Statement.allWords_canonical, same, Statement.allWords_canonical]
  rw [← Program.code_canonical p, Program.words_injective words, Program.code_canonical]

end BasicToC
