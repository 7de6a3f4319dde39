import BasicToC.Proofs.Derivation

/-! # Tokens determine their tree

No row of tokens can be read as two trees.  For parts of an expression this is said of words with
more words after them: if two trees are followed by something that neither of them would go on
with, and the whole is the same, then so are the trees.  In that form it passes from parts to
wholes; the three levels of an expression are one argument, `Unambiguous.chain`.
-/

namespace BasicToC

/-! ## Expressions -/

/-- The first of the words, if there is one, is of none of these kinds. -/
def Word.Stops (absorbs : Kind → Bool) (ws : List Word) : Prop :=
  ∀ w ∈ ws.head?, ¬ absorbs w.kind

/-- Trees followed by something that does not belong to them can be told apart. -/
structure Unambiguous {α : Type} (words : α → List Word) (absorbs : Kind → Bool) : Prop where
  unique : ∀ {x y : α} {as bs : List Word}, words x ++ as = words y ++ bs →
    Word.Stops absorbs as → Word.Stops absorbs bs → x = y ∧ as = bs

namespace Unambiguous

variable {α β ω : Type} {words : α → List Word} {absorbs further : Kind → Bool} {kind : ω → Kind}

/-- The same holds for trees of which these are a part that determines them. -/
theorem comap (unambiguous : Unambiguous words absorbs) {words' : β → List Word} (f : β → α)
    (injective : ∀ x y, f x = f y → x = y) (same : ∀ x, words' x = words (f x)) :
    Unambiguous words' absorbs where
  unique {x y as bs} whole stopA stopB := by
    rw [same, same] at whole
    obtain ⟨trees, rests⟩ := unambiguous.unique whole stopA stopB
    exact ⟨injective x y trees, rests⟩

/-- What comes after an item of a chain, be it an operator or the end, stops the item. -/
theorem stops_chainWords (apart : ∀ op, ¬ absorbs (kind op)) {xs : List (Operator ω × α)}
    {as : List Word} (stop : Word.Stops absorbs as) :
    Word.Stops absorbs (Operator.chainWords kind words xs ++ as) := by
  cases xs with
  | nil => exact stop
  | cons first xs =>
    obtain ⟨o, x⟩ := first
    intro w mem
    obtain rfl : _ = w := by simpa [Operator.chainWords_cons] using mem
    exact apart o.op

/-- Operators with trees after them can be told apart. -/
theorem loop (item : Unambiguous words absorbs) (apart : ∀ op, ¬ absorbs (kind op))
    (injective : ∀ a b, kind a = kind b → a = b)
    {xs ys : List (Operator ω × α)} {as bs : List Word}
    (whole : Operator.chainWords kind words xs ++ as = Operator.chainWords kind words ys ++ bs)
    (stopA : Word.Stops absorbs as) (noOpA : ∀ w ∈ as.head?, ∀ op, w.kind ≠ kind op)
    (stopB : Word.Stops absorbs bs) (noOpB : ∀ w ∈ bs.head?, ∀ op, w.kind ≠ kind op) :
    xs = ys ∧ as = bs := by
  induction xs generalizing ys with
  | nil =>
    cases ys with
    | nil => exact ⟨rfl, whole⟩
    | cons first ys =>
      obtain ⟨o, y⟩ := first
      obtain rfl : as = _ := whole
      exact absurd rfl (noOpA _ rfl o.op)
  | cons first xs ih =>
    obtain ⟨⟨op, text⟩, x⟩ := first
    cases ys with
    | nil =>
      obtain rfl : _ = bs := whole
      exact absurd rfl (noOpB _ rfl op)
    | cons second ys =>
      obtain ⟨⟨op', text'⟩, y⟩ := second
      rw [Operator.chainWords_cons, Operator.chainWords_cons] at whole
      simp only [List.cons_append, List.append_assoc, List.cons.injEq, Word.mk.injEq] at whole
      obtain ⟨⟨sameKind, rfl⟩, wholeRest⟩ := whole
      obtain rfl := injective op op' sameKind
      obtain ⟨rfl, afterItem⟩ := item.unique wholeRest (stops_chainWords apart stopA)
        (stops_chainWords apart stopB)
      obtain ⟨rfl, rfl⟩ := ih afterItem
      exact ⟨rfl, rfl⟩

/-- Items with operators between them can be told apart. -/
theorem chain (item : Unambiguous words absorbs) (apart : ∀ op, ¬ absorbs (kind op))
    (injective : ∀ a b, kind a = kind b → a = b)
    (goesOn : ∀ k, further k ↔ absorbs k ∨ ∃ op, k = kind op) :
    Unambiguous (fun p : α × List (Operator ω × α) =>
      words p.1 ++ Operator.chainWords kind words p.2) further := by
  constructor
  rintro ⟨x, xs⟩ ⟨y, ys⟩ as bs whole stopA stopB
  have stops : ∀ {ws : List Word}, Word.Stops further ws →
      Word.Stops absorbs ws ∧ ∀ w ∈ ws.head?, ∀ op, w.kind ≠ kind op := by
    intro ws stop
    refine ⟨fun w mem absorbed => stop w mem ((goesOn _).mpr (Or.inl absorbed)), ?_⟩
    exact fun w mem op isOp => stop w mem ((goesOn _).mpr (Or.inr ⟨op, isOp⟩))
  simp only [List.append_assoc] at whole
  obtain ⟨rfl, wholeRest⟩ := item.unique whole (stops_chainWords apart (stops stopA).1)
    (stops_chainWords apart (stops stopB).1)
  obtain ⟨rfl, rfl⟩ := loop item apart injective wholeRest (stops stopA).1 (stops stopA).2
    (stops stopB).1 (stops stopB).2
  exact ⟨rfl, rfl⟩

theorem operand_word_injective {x y : Operand} (same : x.word = y.word) : x = y := by
  cases x <;> cases y <;> simp_all [Operand.word, Word.name]

theorem operand_word_ne_sign (x : Operand) (op : Additive) (text : String) :
    x.word ≠ ⟨.additive op, text⟩ := by
  cases x <;> simp [Operand.word, Word.name]

theorem factor : Unambiguous Factor.words (fun _ => false) := by
  constructor
  rintro ⟨sign, x⟩ ⟨sign', y⟩ as bs whole - -
  cases sign with
  | none =>
    cases sign' with
    | none =>
      obtain ⟨same, rfl⟩ := List.cons.inj whole
      obtain rfl := operand_word_injective same
      exact ⟨rfl, rfl⟩
    | some sign' => exact absurd (List.cons.inj whole).1 (operand_word_ne_sign x _ _)
  | some sign =>
    cases sign' with
    | none => exact absurd (List.cons.inj whole).1.symm (operand_word_ne_sign y _ _)
    | some sign' =>
      obtain ⟨op, text⟩ := sign
      obtain ⟨op', text'⟩ := sign'
      simp only [Factor.words, List.cons_append, List.nil_append, List.cons.injEq, Word.mk.injEq,
        Kind.additive.injEq] at whole
      obtain ⟨⟨rfl, rfl⟩, same, rfl⟩ := whole
      obtain rfl := operand_word_injective same
      exact ⟨rfl, rfl⟩

theorem term : Unambiguous Term.words Kind.extendsTerm :=
  (chain factor nofun (by simp) Kind.extendsTerm_iff).comap (fun t => (t.first, t.rest))
    (by rintro ⟨_, _⟩ ⟨_, _⟩ ⟨⟩; rfl) (fun _ => rfl)

theorem expression : Unambiguous Expression.words Kind.extendsExpression :=
  (chain term nofun (by simp) Kind.extendsExpression_iff).comap (fun e => (e.first, e.rest))
    (by rintro ⟨_, _⟩ ⟨_, _⟩ ⟨⟩; rfl) (fun _ => rfl)

theorem condition : Unambiguous Condition.words Kind.extendsCondition :=
  (chain expression nofun (by simp) Kind.extendsCondition_iff).comap
    (fun c => (c.first, c.second :: c.rest)) (by rintro ⟨_, _, _⟩ ⟨_, _, _⟩ ⟨⟩; rfl)
    (fun _ => rfl)

end Unambiguous

/-! ## Statements -/

/-- The first of the tokens, if there is one, is of none of these kinds. -/
def Token.Stops (absorbs : Kind → Bool) (ts : List Token) : Prop :=
  ∀ t ∈ ts.head?, ¬ absorbs t.kind

/-- The tokens of a tree are determined as its words are. -/
theorem Unambiguous.tokens {α : Type} {words : α → List Word} {absorbs : Kind → Bool}
    (unambiguous : Unambiguous words absorbs) {x y : α} {ts us as bs : List Token}
    (spelledX : ts.map Token.word = words x) (spelledY : us.map Token.word = words y)
    (whole : ts ++ as = us ++ bs) (stopA : Token.Stops absorbs as)
    (stopB : Token.Stops absorbs bs) : x = y ∧ ts = us ∧ as = bs := by
  have stops : ∀ {cs : List Token}, Token.Stops absorbs cs →
      Word.Stops absorbs (cs.map Token.word) := by
    intro cs stop w mem
    rw [List.head?_map, Option.mem_map] at mem
    obtain ⟨t, isFirst, rfl⟩ := mem
    exact stop t isFirst
  have wholeWords : words x ++ as.map Token.word = words y ++ bs.map Token.word := by
    rw [← spelledX, ← spelledY, ← List.map_append, whole, List.map_append]
  obtain ⟨rfl, -⟩ := unambiguous.unique wholeWords (stops stopA) (stops stopB)
  -- the words say nothing of positions, but the tokens of one tree are equally many
  have sameLength : ts.length = us.length := by
    rw [← List.length_map Token.word, spelledX, ← spelledY, List.length_map]
  exact ⟨rfl, List.append_inj whole sameLength⟩

/-- Line ends before something else are determined. -/
theorem newlines_unique {ns ms as bs : List Token} (newlinesN : ∀ n ∈ ns, n.kind = .newline)
    (newlinesM : ∀ m ∈ ms, m.kind = .newline) (whole : ns ++ as = ms ++ bs)
    (stopA : Token.Stops (· == .newline) as) (stopB : Token.Stops (· == .newline) bs) :
    ns = ms ∧ as = bs := by
  -- the line ends are what `takeWhile` takes of the whole
  let isNewline (t : Token) : Bool := t.kind == .newline
  have taken : ∀ {ns as : List Token}, (∀ n ∈ ns, n.kind = .newline) →
      Token.Stops (· == .newline) as → (ns ++ as).takeWhile isNewline = ns := by
    intro ns as newlines stop
    rw [List.takeWhile_append_of_pos (by simpa [isNewline] using newlines)]
    cases as with
    | nil => simp
    | cons t as =>
      have notNewline : isNewline t = false := by simpa [isNewline] using stop t rfl
      simp [notNewline]
  have same : ns = ms := by
    rw [← taken newlinesN stopA, whole, taken newlinesM stopB]
  subst same
  exact ⟨rfl, List.append_cancel_left whole⟩

/-- A line that ends where it should determines its statement. -/
theorem Line.unique {k : LineKind} {ts us as bs : List Token} {s s' : Statement}
    (isLine : Line k ts s) (isLine' : Line k us s') (whole : ts ++ as = us ++ bs)
    (stopA : Token.Stops Kind.extendsExpression as)
    (stopB : Token.Stops Kind.extendsExpression bs) : s = s' ∧ ts = us ∧ as = bs := by
  cases isLine with
  | printText isString =>
    cases isLine' with
    | printText isString' =>
      obtain ⟨rfl, rfl⟩ := List.cons.inj whole
      exact ⟨rfl, rfl, rfl⟩
    | print spelled =>
      obtain ⟨t, us, rfl, notString⟩ := Expression.tokens_eq_cons spelled
      obtain ⟨rfl, -⟩ := List.cons.inj whole
      exact absurd isString notString
  | print spelled =>
    cases isLine' with
    | printText isString =>
      obtain ⟨t, us, rfl, notString⟩ := Expression.tokens_eq_cons spelled
      obtain ⟨rfl, -⟩ := List.cons.inj whole
      exact absurd isString notString
    | print spelled' =>
      obtain ⟨rfl, rfl, rfl⟩ := Unambiguous.expression.tokens spelled spelled' whole stopA stopB
      exact ⟨rfl, rfl, rfl⟩
  | label | goto | input =>
    cases isLine'
    obtain ⟨rfl, rfl⟩ := List.cons.inj whole
    exact ⟨rfl, rfl, rfl⟩
  | assign isName isSign spelled =>
    cases isLine' with
    | assign isName' isSign' spelled' =>
      simp only [List.cons_append, List.cons.injEq] at whole
      obtain ⟨rfl, rfl, wholeValue⟩ := whole
      obtain ⟨rfl, rfl, rfl⟩ :=
        Unambiguous.expression.tokens spelled spelled' wholeValue stopA stopB
      exact ⟨rfl, rfl, rfl⟩

/-- The first of the tokens, if there is one, closes a block. -/
def Token.Closed (ts : List Token) : Prop :=
  ∀ t ∈ ts.head?, ∃ c : Construct, t.kind = .keyword c.close

theorem LineEnd.stops {ns : List Token} (isEnd : LineEnd ns) (rest : List Token) :
    Token.Stops Kind.extendsExpression (ns ++ rest) := by
  obtain ⟨n, ns, rfl⟩ := List.exists_cons_of_ne_nil isEnd.1
  intro t isFirst
  obtain rfl : n = t := by simpa using isFirst
  simp [isEnd.2 n, Kind.extendsExpression, Kind.extendsTerm]

theorem Spelled.stops {program : List Statement} {ts as : List Token}
    (spelled : Spelled program ts) (closed : Token.Closed as) :
    Token.Stops (· == .newline) (ts ++ as) := by
  intro t isFirst
  cases spelled with
  | nil =>
    obtain ⟨c, isClose⟩ := closed t isFirst
    simp [isClose]
  | line k isHead | governed c isHead =>
    obtain rfl := Option.some.inj isFirst
    simp [isHead]

/-! ### What statements begin and end with -/

theorem LineKind.keyword_ne_close (k : LineKind) (c : Construct) : k.keyword ≠ c.close := by
  cases k <;> cases c <;> nofun

theorem LineKind.keyword_ne_head (k : LineKind) (c : Construct) : k.keyword ≠ c.head := by
  cases k <;> cases c <;> nofun

theorem LineKind.keyword_injective {k k' : LineKind} : k.keyword = k'.keyword → k = k' := by
  cases k <;> cases k' <;> simp

theorem Construct.head_ne_close (c d : Construct) : c.head ≠ d.close := by
  cases c <;> cases d <;> nofun

theorem Construct.head_injective {c d : Construct} : c.head = d.head → c = d := by
  cases c <;> cases d <;> simp [Construct.head]

theorem Construct.stops_thenWord (c : Construct) {t : Token}
    (isThen : t.kind = .keyword c.thenWord) (rest : List Token) :
    Token.Stops Kind.extendsCondition (t :: rest) := by
  intro u isFirst
  obtain rfl := Option.some.inj isFirst
  simp [isThen, Kind.extendsCondition, Kind.extendsExpression, Kind.extendsTerm]

theorem Construct.closed_close (c : Construct) {t : Token} (isClose : t.kind = .keyword c.close)
    (rest : List Token) : Token.Closed (t :: rest) := by
  intro u isFirst
  obtain rfl := Option.some.inj isFirst
  exact ⟨c, isClose⟩

/-- Statements that end where they should are determined by their tokens. -/
theorem Spelled.unique {program program' : List Statement} {ts us as bs : List Token}
    (spelled : Spelled program ts) (spelled' : Spelled program' us)
    (whole : ts ++ as = us ++ bs) (closedA : Token.Closed as) (closedB : Token.Closed bs) :
    program = program' ∧ ts = us ∧ as = bs := by
  have sameWord : ∀ {t : Token} {k k' : Keyword}, t.kind = .keyword k → t.kind = .keyword k' →
      k = k' := fun isK isK' => Kind.keyword.inj (isK.symm.trans isK')
  -- the first token tells which of the three cases both are in
  induction spelled generalizing program' us as bs with
  | nil =>
    cases spelled' with
    | nil => exact ⟨rfl, rfl, whole⟩
    | line k isHead =>
      obtain rfl : as = _ := whole
      obtain ⟨c, isClose⟩ := closedA _ rfl
      exact absurd (sameWord isHead isClose) (k.keyword_ne_close c)
    | governed c isHead =>
      obtain rfl : as = _ := whole
      obtain ⟨d, isClose⟩ := closedA _ rfl
      exact absurd (sameWord isHead isClose) (c.head_ne_close d)
  | @line k head ts ns rest s more isHead isLine isEnd others ih =>
    cases spelled' with
    | nil =>
      obtain rfl : _ = bs := whole
      obtain ⟨c, isClose⟩ := closedB _ rfl
      exact absurd (sameWord isHead isClose) (k.keyword_ne_close c)
    | @line k' head' ts' ns' rest' s' more' isHead' isLine' isEnd' others' =>
      simp only [List.cons_append, List.append_assoc, List.cons.injEq] at whole
      obtain ⟨rfl, afterHead⟩ := whole
      obtain rfl := LineKind.keyword_injective (sameWord isHead isHead')
      obtain ⟨rfl, rfl, afterLine⟩ :=
        isLine.unique isLine' afterHead (isEnd.stops _) (isEnd'.stops _)
      obtain ⟨rfl, afterEnd⟩ := newlines_unique isEnd.2 isEnd'.2 afterLine (others.stops closedA)
        (others'.stops closedB)
      obtain ⟨rfl, rfl, rfl⟩ := ih others' afterEnd closedA closedB
      exact ⟨rfl, rfl, rfl⟩
    | governed c isHead' =>
      obtain ⟨rfl, -⟩ := List.cons.inj whole
      exact absurd (sameWord isHead isHead') (k.keyword_ne_head c)
  | @governed c head thenToken close cs ns body ns' rest condition inside more isHead isCondition
      isThen isEnd inner isClose isEnd' others ihInner ihOthers =>
    cases spelled' with
    | nil =>
      obtain rfl : _ = bs := whole
      obtain ⟨d, isClosed⟩ := closedB _ rfl
      exact absurd (sameWord isHead isClosed) (c.head_ne_close d)
    | line k isHead' =>
      obtain ⟨rfl, -⟩ := List.cons.inj whole
      exact absurd (sameWord isHead' isHead) (k.keyword_ne_head c)
    | governed d isHead₂ isCondition₂ isThen₂ isEnd₂ inner₂ isClose₂ isEnd₂' others₂ =>
      simp only [List.cons_append, List.append_assoc, List.cons.injEq] at whole
      obtain ⟨rfl, afterHead⟩ := whole
      obtain rfl := Construct.head_injective (sameWord isHead isHead₂)
      obtain ⟨rfl, rfl, afterCondition⟩ := Unambiguous.condition.tokens isCondition isCondition₂
        afterHead (c.stops_thenWord isThen _) (c.stops_thenWord isThen₂ _)
      obtain ⟨rfl, afterThen⟩ := List.cons.inj afterCondition
      obtain ⟨rfl, afterEnd⟩ := newlines_unique isEnd.2 isEnd₂.2 afterThen
        (inner.stops (c.closed_close isClose _)) (inner₂.stops (c.closed_close isClose₂ _))
      obtain ⟨rfl, rfl, afterBody⟩ :=
        ihInner inner₂ afterEnd (c.closed_close isClose _) (c.closed_close isClose₂ _)
      obtain ⟨rfl, afterClose⟩ := List.cons.inj afterBody
      obtain ⟨rfl, afterEnd'⟩ := newlines_unique isEnd'.2 isEnd₂'.2 afterClose
        (others.stops closedA) (others₂.stops closedB)
      obtain ⟨rfl, rfl, rfl⟩ := ihOthers others₂ afterEnd' closedA closedB
      exact ⟨rfl, rfl, rfl⟩

/-- Tokens are laid out from one program at most. -/
theorem Laid.unique {tree tree' : Program} {ts : List Token} (laid : Laid tree ts)
    (laid' : Laid tree' ts) : tree = tree' := by
  obtain ⟨blank, rest, rfl, newlines, spelled⟩ := laid
  obtain ⟨blank', rest', whole, newlines', spelled'⟩ := laid'
  have ended : Token.Closed [] := nofun
  have stops := spelled.stops ended
  have stops' := spelled'.stops ended
  rw [List.append_nil] at stops stops'
  obtain ⟨rfl, rfl⟩ := newlines_unique newlines newlines' whole stops stops'
  exact (spelled.unique spelled' rfl ended ended).1

end BasicToC
