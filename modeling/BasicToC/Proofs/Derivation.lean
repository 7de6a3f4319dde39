import Mathlib.Computability.Language
import BasicToC.Program

/-! # The language and its trees

The programs of Tiny BASIC as a language over the kinds of tokens.  What has no nesting is an
expression over languages: `*` puts one after another, `+` is a choice and `∗` repeats.  Blocks
nest, so statements are an inductive definition.

A derivation leaves open what the tokens say.  `Spelled` relates statements, as trees, to the
tokens they can be written with: the texts of names, numerals, strings and operators count, the
line ends may be repeated, and the texts of all other tokens are free.  `mem_program_iff` says
that the tokens of which some tree can be written are those whose kinds are in the language.
-/

namespace BasicToC

open Computability

/-! ## The language -/

namespace Derivation

/-- A single token of one kind. -/
def token (k : Kind) : Language Kind := {[k]}

def keyword (k : Keyword) : Language Kind := token (.keyword k)

def additive : Language Kind := token (.additive .plus) + token (.additive .minus)

def multiplicative : Language Kind :=
  token (.multiplicative .times) + token (.multiplicative .over)

def comparator : Language Kind :=
  token (.comparison .equal) + token (.comparison .notEqual) + token (.comparison .less) +
    token (.comparison .lessOrEqual) + token (.comparison .greater) +
    token (.comparison .greaterOrEqual)

def primary : Language Kind := token .number + token .ident

def unary : Language Kind := (1 + additive) * primary

def term : Language Kind := unary * (multiplicative * unary)∗

def expression : Language Kind := term * (additive * term)∗

/-- Expressions with at least one comparison between them. -/
def comparison : Language Kind :=
  expression * ((comparator * expression) * (comparator * expression)∗)

/-- One line end or more. -/
def nl : Language Kind := token .newline * (token .newline)∗

/-- The statements of one line, without its end. -/
def simple : Language Kind :=
  keyword .print * (token .string + expression) + keyword .label * token .ident +
    keyword .goto * token .ident +
    keyword .assign * (token .ident * (token .becomes * expression)) +
    keyword .input * token .ident

/-- What derivations of statements derive. -/
inductive Part where
  /-- One statement, with the end of its last line. -/
  | statement
  /-- Any number of statements. -/
  | statements

/-- The kinds of tokens that a statement, or several, can have. -/
inductive Derives : Part → List Kind → Prop
  | simple {line ends : List Kind} (isLine : line ∈ simple) (isEnd : ends ∈ nl) :
      Derives .statement (line ++ ends)
  | ifThen {condition ends body ends' : List Kind} (isCondition : condition ∈ comparison)
      (isEnd : ends ∈ nl) (isBody : Derives .statements body) (isEnd' : ends' ∈ nl) :
      Derives .statement (.keyword .ifHead :: condition ++ .keyword .thenBody :: ends ++ body ++
        .keyword .endIf :: ends')
  | whileRepeat {condition ends body ends' : List Kind} (isCondition : condition ∈ comparison)
      (isEnd : ends ∈ nl) (isBody : Derives .statements body) (isEnd' : ends' ∈ nl) :
      Derives .statement (.keyword .whileHead :: condition ++ .keyword .repeatBody :: ends ++
        body ++ .keyword .endWhile :: ends')
  | none : Derives .statements []
  | more {first rest : List Kind} (isFirst : Derives .statement first)
      (isRest : Derives .statements rest) : Derives .statements (first ++ rest)

/-- Any number of statements. -/
def statements : Language Kind := {kinds | Derives .statements kinds}

/-- The kinds of tokens that a program can have: blank lines, then statements. -/
def program : Language Kind := (token .newline)∗ * statements

@[simp]
theorem mem_token {k : Kind} {kinds : List Kind} : kinds ∈ token k ↔ kinds = [k] := Iff.rfl

theorem mem_additive {kinds : List Kind} : kinds ∈ additive ↔ ∃ op, kinds = [.additive op] := by
  simp only [additive, Language.mem_add, mem_token]
  constructor
  · rintro (rfl | rfl) <;> exact ⟨_, rfl⟩
  · rintro ⟨op, rfl⟩
    cases op <;> simp

theorem mem_multiplicative {kinds : List Kind} :
    kinds ∈ multiplicative ↔ ∃ op, kinds = [.multiplicative op] := by
  simp only [multiplicative, Language.mem_add, mem_token]
  constructor
  · rintro (rfl | rfl) <;> exact ⟨_, rfl⟩
  · rintro ⟨op, rfl⟩
    cases op <;> simp

theorem mem_comparator {kinds : List Kind} :
    kinds ∈ comparator ↔ ∃ op, kinds = [.comparison op] := by
  simp only [comparator, Language.mem_add, mem_token]
  constructor
  · rintro (((((rfl | rfl) | rfl) | rfl) | rfl) | rfl) <;> exact ⟨_, rfl⟩
  · rintro ⟨op, rfl⟩
    cases op <;> simp

/-- A repeated token is a row of that token. -/
theorem mem_token_kstar {k : Kind} {kinds : List Kind} :
    kinds ∈ (token k)∗ ↔ ∀ kind ∈ kinds, kind = k := by
  rw [Language.mem_kstar]
  constructor
  · rintro ⟨rows, rfl, single⟩ kind mem
    obtain ⟨row, rowMem, mem⟩ := List.mem_flatten.mp mem
    rw [mem_token.mp (single row rowMem)] at mem
    exact List.mem_singleton.mp mem
  · intro same
    -- every token is a row by itself
    refine ⟨kinds.map ([·]), by simp [List.flatten_eq_flatMap, List.flatMap_map], ?_⟩
    intro row mem
    obtain ⟨kind, kindMem, rfl⟩ := List.mem_map.mp mem
    rw [same kind kindMem, mem_token]

/-- A token in front of others. -/
theorem mem_token_mul {k : Kind} {language : Language Kind} {ts : List Token} :
    ts.map Token.kind ∈ token k * language ↔
      ∃ t rest, ts = t :: rest ∧ t.kind = k ∧ rest.map Token.kind ∈ language := by
  rw [Language.mem_mul]
  constructor
  · rintro ⟨_, rfl, b, isRest, split⟩
    obtain ⟨t, rest, rfl, isFirst, rfl⟩ := List.map_eq_cons_iff.mp split.symm
    exact ⟨t, rest, rfl, isFirst, isRest⟩
  · rintro ⟨t, rest, rfl, rfl, isRest⟩
    exact ⟨[t.kind], rfl, _, isRest, rfl⟩

end Derivation

/-! ## Trees of expressions

A language *describes* a type of trees if its words are the kinds of the tokens that trees of this
type are written with. -/

/-- A token that says the word and stands nowhere. -/
def Word.token (w : Word) : Token :=
  ⟨w.kind, w.text, .nowhere⟩

@[simp]
theorem Token.word_eq_mk_iff {t : Token} {kind : Kind} {text : String} :
    t.word = ⟨kind, text⟩ ↔ t.kind = kind ∧ t.text = text := by
  simp [Token.word]

/-- The words of operators with trees after them. -/
def Operator.chainWords {ω α : Type} (kind : ω → Kind) (words : α → List Word)
    (rest : List (Operator ω × α)) : List Word :=
  rest.flatMap fun (o, x) => ⟨kind o.op, o.text⟩ :: words x

theorem Operator.chainWords_cons {ω α : Type} (kind : ω → Kind) (words : α → List Word)
    (o : Operator ω) (x : α) (rest : List (Operator ω × α)) :
    Operator.chainWords kind words ((o, x) :: rest) =
      ⟨kind o.op, o.text⟩ :: (words x ++ Operator.chainWords kind words rest) := rfl

/-- The kinds in `language` are those of the words of trees. -/
def Describes {α : Type} (language : Language Kind) (words : α → List Word) : Prop :=
  ∀ ts : List Token, ts.map Token.kind ∈ language ↔ ∃ x, ts.map Token.word = words x

namespace Describes

open BasicToC.Derivation

variable {α β ω : Type} {first second : Language Kind} {words : α → List Word}
  {words' : β → List Word}

theorem mul (hfirst : Describes first words) (hsecond : Describes second words') :
    Describes (first * second) fun p : α × β => words p.1 ++ words' p.2 := by
  intro ts
  rw [Language.mem_mul]
  constructor
  · rintro ⟨a, aMem, b, bMem, split⟩
    obtain ⟨as, bs, rfl, rfl, rfl⟩ := List.map_eq_append_iff.mp split.symm
    obtain ⟨x, spelled⟩ := (hfirst as).mp aMem
    obtain ⟨y, spelled'⟩ := (hsecond bs).mp bMem
    exact ⟨(x, y), by rw [List.map_append, spelled, spelled']⟩
  · rintro ⟨⟨x, y⟩, spelled⟩
    obtain ⟨as, bs, rfl, spelledA, spelledB⟩ := List.map_eq_append_iff.mp spelled
    refine ⟨_, (hfirst as).mpr ⟨x, spelledA⟩, _, (hsecond bs).mpr ⟨y, spelledB⟩, ?_⟩
    rw [List.map_append]

/-- The same trees in another form. -/
theorem congr (described : Describes first words) (f : α → β) (g : β → α)
    (left : ∀ x, words' (f x) = words x) (right : ∀ y, words (g y) = words' y) :
    Describes first words' := by
  intro ts
  rw [described ts]
  constructor
  · rintro ⟨x, spelled⟩
    exact ⟨f x, spelled.trans (left x).symm⟩
  · rintro ⟨y, spelled⟩
    exact ⟨g y, spelled.trans (right y).symm⟩

theorem operator {language : Language Kind} {kind : ω → Kind}
    (operators : ∀ {kinds}, kinds ∈ language ↔ ∃ op, kinds = [kind op]) :
    Describes language fun o : Operator ω => [⟨kind o.op, o.text⟩] := by
  intro ts
  rw [operators]
  constructor
  · rintro ⟨op, single⟩
    obtain ⟨t, rfl, isOp⟩ := List.map_eq_singleton_iff.mp single
    exact ⟨⟨op, t.text⟩, by simp [Token.word, isOp]⟩
  · rintro ⟨o, single⟩
    obtain ⟨t, rfl, isOp⟩ := List.map_eq_singleton_iff.mp single
    exact ⟨o.op, by simp [(Token.word_eq_mk_iff.mp isOp).1]⟩

/-- Repetition gives lists of trees. -/
theorem kstar (described : Describes first words) :
    Describes first∗ fun xs : List α => xs.flatMap words := by
  intro ts
  rw [Language.mem_kstar]
  constructor
  · rintro ⟨rows, split, each⟩
    induction rows generalizing ts with
    | nil => exact ⟨[], by simpa using split⟩
    | cons row rows ih =>
      obtain ⟨as, bs, rfl, rfl, rest⟩ := List.map_eq_append_iff.mp split
      obtain ⟨x, spelled⟩ := (described as).mp (each _ (by simp))
      obtain ⟨xs, spelled'⟩ := ih bs rest fun row mem => each row (by simp [mem])
      exact ⟨x :: xs, by simp [spelled, spelled']⟩
  · rintro ⟨xs, spelled⟩
    induction xs generalizing ts with
    | nil => exact ⟨[], by simpa using spelled, by simp⟩
    | cons x xs ih =>
      obtain ⟨as, bs, rfl, spelledA, spelledB⟩ := List.map_eq_append_iff.mp spelled
      obtain ⟨rows, split, each⟩ := ih bs spelledB
      refine ⟨as.map Token.kind :: rows, by simp [split], ?_⟩
      simpa using ⟨(described as).mpr ⟨x, spelledA⟩, each⟩

theorem chain {language : Language Kind} {kind : ω → Kind}
    (operators : ∀ {kinds}, kinds ∈ language ↔ ∃ op, kinds = [kind op])
    (described : Describes first words) :
    Describes (language * first)∗ (Operator.chainWords kind words) :=
  ((operator operators).mul described).kstar

end Describes

/-! ### The levels of an expression -/

open BasicToC.Derivation in
theorem describes_primary : Describes primary fun x : Operand => [x.word] := by
  intro ts
  simp only [primary, Language.mem_add, mem_token]
  constructor
  · rintro (single | single)
    · obtain ⟨t, rfl, isNumber⟩ := List.map_eq_singleton_iff.mp single
      exact ⟨.numeral t.text, by simp [Token.word, Operand.word, isNumber]⟩
    · obtain ⟨t, rfl, isName⟩ := List.map_eq_singleton_iff.mp single
      exact ⟨.name t.text, by simp [Token.word, Operand.word, Word.name, isName]⟩
  · rintro ⟨x, single⟩
    obtain ⟨t, rfl, same⟩ := List.map_eq_singleton_iff.mp single
    cases x with
    | numeral text => exact Or.inl (by simp [(Token.word_eq_mk_iff.mp same).1])
    | name name => exact Or.inr (by simp [(Token.word_eq_mk_iff.mp same).1])

open BasicToC.Derivation in
theorem describes_unary : Describes unary Factor.words := by
  intro ts
  rw [unary, add_mul, one_mul, Language.mem_add, describes_primary ts,
    (Describes.operator mem_additive).mul describes_primary ts]
  constructor
  · rintro (⟨x, spelled⟩ | ⟨⟨o, x⟩, spelled⟩)
    · exact ⟨⟨none, x⟩, spelled⟩
    · exact ⟨⟨some o, x⟩, spelled⟩
  · rintro ⟨⟨sign, x⟩, spelled⟩
    cases sign with
    | none => exact Or.inl ⟨x, spelled⟩
    | some o => exact Or.inr ⟨(o, x), spelled⟩

open BasicToC.Derivation in
theorem describes_term : Describes term Term.words :=
  (describes_unary.mul (Describes.chain mem_multiplicative describes_unary)).congr
    (fun p => ⟨p.1, p.2⟩) (fun t => (t.first, t.rest)) (fun _ => rfl) (fun _ => rfl)

open BasicToC.Derivation in
theorem describes_expression : Describes expression Expression.words :=
  (describes_term.mul (Describes.chain mem_additive describes_term)).congr
    (fun p => ⟨p.1, p.2⟩) (fun e => (e.first, e.rest)) (fun _ => rfl) (fun _ => rfl)

open BasicToC.Derivation in
theorem describes_comparison : Describes comparison Condition.words :=
  (describes_expression.mul
    (((Describes.operator mem_comparator).mul describes_expression).mul
      (Describes.chain mem_comparator describes_expression))).congr
    (fun p => ⟨p.1, p.2.1, p.2.2⟩) (fun c => (c.first, c.second, c.rest))
    (fun _ => by simp [Condition.words, Operator.chainWords])
    (fun _ => by simp [Condition.words, Operator.chainWords])

/-- No expression begins with a string. -/
theorem Expression.tokens_eq_cons {e : Expression} {ts : List Token}
    (spelled : ts.map Token.word = e.words) : ∃ t us, ts = t :: us ∧ t.kind ≠ .string := by
  have words : ∃ w ws, e.words = w :: ws ∧ w.kind ≠ .string := by
    obtain ⟨⟨⟨sign, operand⟩, factors⟩, terms⟩ := e
    cases sign <;> cases operand <;> exact ⟨_, _, rfl, nofun⟩
  obtain ⟨w, ws, split, notString⟩ := words
  obtain ⟨t, us, rfl, rfl, -⟩ := List.map_eq_cons_iff.mp (spelled.trans split)
  exact ⟨t, us, rfl, notString⟩

/-! ### Where they go on -/

/-- Whether a term goes on with a token of this kind. -/
def Kind.extendsTerm : Kind → Bool
  | .multiplicative _ => true
  | _ => false

/-- Whether an expression goes on with a token of this kind. -/
def Kind.extendsExpression : Kind → Bool
  | .additive _ => true
  | k => k.extendsTerm

/-- Whether a condition goes on with a token of this kind. -/
def Kind.extendsCondition : Kind → Bool
  | .comparison _ => true
  | k => k.extendsExpression

-- Each level goes on as its parts do, or with an operator of its own.  A factor does not go on.

theorem Kind.extendsTerm_iff (k : Kind) :
    k.extendsTerm ↔ false = true ∨ ∃ op, k = .multiplicative op := by
  cases k <;> simp [Kind.extendsTerm]

theorem Kind.extendsExpression_iff (k : Kind) :
    k.extendsExpression ↔ k.extendsTerm ∨ ∃ op, k = .additive op := by
  cases k <;> simp [Kind.extendsExpression, Kind.extendsTerm]

theorem Kind.extendsCondition_iff (k : Kind) :
    k.extendsCondition ↔ k.extendsExpression ∨ ∃ op, k = .comparison op := by
  cases k <;> simp [Kind.extendsCondition, Kind.extendsExpression, Kind.extendsTerm]

/-! ## Trees of statements -/

/-- The two constructs that govern a block. -/
inductive Construct where
  | ifThen
  | whileRepeat

namespace Construct

/-- The keyword that begins it. -/
def head : Construct → Keyword
  | ifThen => .ifHead
  | whileRepeat => .whileHead

/-- The keyword after its condition. -/
def thenWord : Construct → Keyword
  | ifThen => .thenBody
  | whileRepeat => .repeatBody

/-- The keyword that closes its block. -/
def close : Construct → Keyword
  | ifThen => .endIf
  | whileRepeat => .endWhile

def statement : Construct → Condition → List Statement → Statement
  | ifThen => .ifThen
  | whileRepeat => .whileRepeat

end Construct

/-- The statements of one line. -/
inductive LineKind where
  | print
  | label
  | goto
  | assign
  | input

@[simp] def LineKind.keyword : LineKind → Keyword
  | print => .print
  | label => .label
  | goto => .goto
  | assign => .assign
  | input => .input

/-- One line end or more. -/
def LineEnd (ns : List Token) : Prop :=
  ns ≠ [] ∧ ∀ n ∈ ns, n.kind = .newline

/-- The tokens of a statement of one line, between its keyword and the end of the line. -/
inductive Line : LineKind → List Token → Statement → Prop
  | printText {t : Token} (isString : t.kind = .string) : Line .print [t] (.printText t.text)
  | print {ts : List Token} {value : Expression} (spelled : ts.map Token.word = value.words) :
      Line .print ts (.print value)
  | label {t : Token} (isName : t.kind = .ident) : Line .label [t] (.label t.text)
  | goto {t : Token} (isName : t.kind = .ident) : Line .goto [t] (.goto t.text)
  | assign {t sign : Token} {ts : List Token} {value : Expression} (isName : t.kind = .ident)
      (isSign : sign.kind = .becomes) (spelled : ts.map Token.word = value.words) :
      Line .assign (t :: sign :: ts) (.assign t.text value)
  | input {t : Token} (isName : t.kind = .ident) : Line .input [t] (.input t.text)

/-- The tokens that statements can be written with. -/
inductive Spelled : List Statement → List Token → Prop
  | nil : Spelled [] []
  | line (k : LineKind) {head : Token} {ts ns rest : List Token} {s : Statement}
      {more : List Statement} (isHead : head.kind = .keyword k.keyword) (isLine : Line k ts s)
      (isEnd : LineEnd ns) (others : Spelled more rest) :
      Spelled (s :: more) (head :: (ts ++ (ns ++ rest)))
  | governed (c : Construct) {head thenToken close : Token} {cs ns bs ns' rest : List Token}
      {condition : Condition} {body more : List Statement}
      (isHead : head.kind = .keyword c.head) (isCondition : cs.map Token.word = condition.words)
      (isThen : thenToken.kind = .keyword c.thenWord) (isEnd : LineEnd ns)
      (inner : Spelled body bs) (isClose : close.kind = .keyword c.close) (isEnd' : LineEnd ns')
      (others : Spelled more rest) :
      Spelled (c.statement condition body :: more)
        (head :: (cs ++ thenToken :: (ns ++ (bs ++ close :: (ns' ++ rest)))))

/-! ## Trees and derivations -/

open BasicToC.Derivation

theorem mem_nl_iff (ns : List Token) : ns.map Token.kind ∈ nl ↔ LineEnd ns := by
  rw [nl, mem_token_mul]
  constructor
  · rintro ⟨n, rest, rfl, isNewline, isRest⟩
    rw [mem_token_kstar] at isRest
    refine ⟨by simp, ?_⟩
    simpa [isNewline] using isRest
  · rintro ⟨nonempty, all⟩
    obtain ⟨n, rest, rfl⟩ := List.exists_cons_of_ne_nil nonempty
    refine ⟨n, rest, rfl, all n (by simp), ?_⟩
    rw [mem_token_kstar]
    simpa using fun n mem => all n (by simp [mem])

theorem mem_simple_iff (ts : List Token) :
    ts.map Token.kind ∈ simple ↔
      ∃ k head rest s, ts = head :: rest ∧ head.kind = .keyword k.keyword ∧ Line k rest s := by
  simp only [simple, keyword, Language.mem_add, mem_token_mul, mem_token,
    List.map_eq_singleton_iff]
  constructor
  · rintro ((((isPrint | isLabel) | isGoto) | isAssign) | isInput)
    · obtain ⟨head, rest, rfl, isHead, ⟨t, rfl, isString⟩ | isExpression⟩ := isPrint
      · exact ⟨.print, _, _, _, rfl, isHead, .printText isString⟩
      · obtain ⟨value, spelled⟩ := (describes_expression rest).mp isExpression
        exact ⟨.print, _, _, _, rfl, isHead, .print spelled⟩
    · obtain ⟨head, rest, rfl, isHead, t, rfl, isName⟩ := isLabel
      exact ⟨.label, _, _, _, rfl, isHead, .label isName⟩
    · obtain ⟨head, rest, rfl, isHead, t, rfl, isName⟩ := isGoto
      exact ⟨.goto, _, _, _, rfl, isHead, .goto isName⟩
    · obtain ⟨head, _, rfl, isHead, t, _, rfl, isName, sign, rest, rfl, isSign, isValue⟩ := isAssign
      obtain ⟨value, spelled⟩ := (describes_expression rest).mp isValue
      exact ⟨.assign, _, _, _, rfl, isHead, .assign isName isSign spelled⟩
    · obtain ⟨head, rest, rfl, isHead, t, rfl, isName⟩ := isInput
      exact ⟨.input, _, _, _, rfl, isHead, .input isName⟩
  · rintro ⟨k, head, rest, s, rfl, isHead, isLine⟩
    cases isLine with
    | @printText t isString =>
      exact Or.inl (Or.inl (Or.inl (Or.inl ⟨head, _, rfl, isHead, Or.inl ⟨t, rfl, isString⟩⟩)))
    | print spelled =>
      have isValue := (describes_expression rest).mpr ⟨_, spelled⟩
      exact Or.inl (Or.inl (Or.inl (Or.inl ⟨head, _, rfl, isHead, Or.inr isValue⟩)))
    | @label t isName =>
      exact Or.inl (Or.inl (Or.inl (Or.inr ⟨head, _, rfl, isHead, t, rfl, isName⟩)))
    | @goto t isName => exact Or.inl (Or.inl (Or.inr ⟨head, _, rfl, isHead, t, rfl, isName⟩))
    | @assign t sign ts value isName isSign spelled =>
      have isValue := (describes_expression ts).mpr ⟨value, spelled⟩
      exact Or.inl (Or.inr ⟨head, _, rfl, isHead, t, _, rfl, isName, sign, ts, rfl, isSign,
        isValue⟩)
    | @input t isName => exact Or.inr ⟨head, _, rfl, isHead, t, rfl, isName⟩

/-- The tokens of statements have kinds that the language derives. -/
theorem Spelled.derives {program : List Statement} {ts : List Token}
    (spelled : Spelled program ts) : Derives .statements (ts.map Token.kind) := by
  induction spelled with
  | nil => exact .none
  | @line k head ts ns rest s more isHead isLine isEnd others ih =>
    have isSimple := (mem_simple_iff (head :: ts)).mpr ⟨k, head, ts, s, rfl, isHead, isLine⟩
    simpa using Derives.more (.simple isSimple ((mem_nl_iff ns).mpr isEnd)) ih
  | @governed c head thenToken close cs ns bs ns' rest condition body more isHead isCondition
      isThen isEnd inner isClose isEnd' others ihInner ihOthers =>
    have isComparison := (describes_comparison cs).mpr ⟨condition, isCondition⟩
    have ends := (mem_nl_iff ns).mpr isEnd
    have ends' := (mem_nl_iff ns').mpr isEnd'
    cases c with
    | ifThen =>
      have := Derives.more (.ifThen isComparison ends ihInner ends') ihOthers
      simpa [isHead, isThen, isClose, Construct.head, Construct.thenWord, Construct.close]
        using this
    | whileRepeat =>
      have := Derives.more (.whileRepeat isComparison ends ihInner ends') ihOthers
      simpa [isHead, isThen, isClose, Construct.head, Construct.thenWord, Construct.close]
        using this

/-- Some tree is written with the tokens: one statement in front of any others, or all of them. -/
def Derivation.Part.Written : Part → List Token → Prop
  | .statement, ts => ∃ s, ∀ more rest, Spelled more rest → Spelled (s :: more) (ts ++ rest)
  | .statements, ts => ∃ program, Spelled program ts

theorem Derivation.Part.written_governed (c : Construct) {condition ends body ends' : List Kind}
    (isCondition : condition ∈ comparison) (isEnd : ends ∈ nl)
    (isBody : ∀ ts : List Token, ts.map Token.kind = body → Part.statements.Written ts)
    (isEnd' : ends' ∈ nl) (ts : List Token)
    (kinds : ts.map Token.kind = .keyword c.head :: condition ++ .keyword c.thenWord :: ends ++
      body ++ .keyword c.close :: ends') : Part.statement.Written ts := by
  simp only [List.cons_append, List.append_assoc] at kinds
  -- the kinds come in pieces, and so do the tokens
  obtain ⟨head, _, rfl, isHead, afterHead⟩ := List.map_eq_cons_iff.mp kinds
  obtain ⟨cs, _, rfl, rfl, afterCondition⟩ := List.map_eq_append_iff.mp afterHead
  obtain ⟨thenToken, _, rfl, isThen, afterThen⟩ := List.map_eq_cons_iff.mp afterCondition
  obtain ⟨ns, _, rfl, rfl, afterLine⟩ := List.map_eq_append_iff.mp afterThen
  obtain ⟨bs, _, rfl, isBs, afterBody⟩ := List.map_eq_append_iff.mp afterLine
  obtain ⟨close, ns', rfl, isClose, rfl⟩ := List.map_eq_cons_iff.mp afterBody
  -- each piece has its tree
  obtain ⟨tree, spelled⟩ := (describes_comparison cs).mp isCondition
  obtain ⟨inner, innerSpelled⟩ := isBody bs isBs
  refine ⟨c.statement tree inner, fun more rest others => ?_⟩
  simpa using Spelled.governed c isHead spelled isThen ((mem_nl_iff ns).mp isEnd) innerSpelled
    isClose ((mem_nl_iff ns').mp isEnd') others

/-- Tokens whose kinds the language derives are those of some tree. -/
theorem Derivation.Derives.written {part : Part} {kinds : List Kind}
    (derives : Derives part kinds) :
    ∀ ts : List Token, ts.map Token.kind = kinds → part.Written ts := by
  induction derives with
  | simple isLine isEnd =>
    intro ts split
    obtain ⟨line, ns, rfl, rfl, rfl⟩ := List.map_eq_append_iff.mp split
    obtain ⟨k, head, rest, s, rfl, isHead, isLine⟩ := (mem_simple_iff line).mp isLine
    refine ⟨s, fun more rest' others => ?_⟩
    simpa using Spelled.line k isHead isLine ((mem_nl_iff ns).mp isEnd) others
  | ifThen isCondition isEnd isBody isEnd' ih =>
    exact Part.written_governed .ifThen isCondition isEnd ih isEnd'
  | whileRepeat isCondition isEnd isBody isEnd' ih =>
    exact Part.written_governed .whileRepeat isCondition isEnd ih isEnd'
  | none =>
    intro ts empty
    rw [List.map_eq_nil_iff.mp empty]
    exact ⟨[], .nil⟩
  | more isFirst isRest ihFirst ihRest =>
    intro ts split
    obtain ⟨as, bs, rfl, asKinds, bsKinds⟩ := List.map_eq_append_iff.mp split
    obtain ⟨s, spelledFirst⟩ := ihFirst as asKinds
    obtain ⟨program, spelledRest⟩ := ihRest bs bsKinds
    exact ⟨s :: program, spelledFirst program bs spelledRest⟩

/-- The tokens of a program: those of its statements, with blank lines in front of them or not. -/
def Laid (tree : Program) (ts : List Token) : Prop :=
  ∃ blank rest, ts = blank ++ rest ∧ (∀ n ∈ blank, n.kind = .newline) ∧ Spelled tree rest

/-- A row of tokens is a program by its kinds exactly if it is laid out from some tree. -/
theorem mem_program_iff (ts : List Token) :
    ts.map Token.kind ∈ Derivation.program ↔ ∃ tree, Laid tree ts := by
  rw [Derivation.program, Language.mem_mul]
  constructor
  · rintro ⟨a, isBlank, b, derives, split⟩
    obtain ⟨blank, rest, rfl, rfl, restKinds⟩ := List.map_eq_append_iff.mp split.symm
    obtain ⟨tree, spelled⟩ := Derives.written derives rest restKinds
    exact ⟨tree, blank, rest, rfl, by simpa using mem_token_kstar.mp isBlank, spelled⟩
  · rintro ⟨tree, blank, rest, rfl, isBlank, spelled⟩
    refine ⟨_, mem_token_kstar.mpr ?_, _, spelled.derives, List.map_append.symm⟩
    simpa using isBlank

end BasicToC
