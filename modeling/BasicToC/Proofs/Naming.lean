import Mathlib.Data.List.Induction
import BasicToC.ReservedName
import BasicToC.Scope
import BasicToC.Token

/-! # Names in a row of tokens

Which tokens name something is plain from the row of tokens alone: a name is given directly after
one of four keywords, and every other name is the value of a variable.  `NamesInOrder` says what
the names of a program must satisfy, by positions in the row.

The same is said once more from left to right.  A `Ledger` goes over the tokens one by one and
remembers the last kind and the names so far, as the compiler does; `Ledger.AllowsAll` is the
condition on each token when its turn comes.  `namesInOrder_iff` joins the two.
-/

namespace BasicToC

/-! ## Names by position -/

namespace Kind

/-- The keywords in front of the name of a variable that gets a value. -/
def assigns (k : Kind) : Bool :=
  k == .keyword .assign || k == .keyword .input

/-- The keyword in front of the name of a label. -/
def labels (k : Kind) : Bool :=
  k == .keyword .label

/-- The keyword in front of the label of a jump. -/
def jumps (k : Kind) : Bool :=
  k == .keyword .goto

/-- The keywords in front of a name. -/
def names (k : Kind) : Bool :=
  k.assigns || k.labels || k.jumps

end Kind

namespace Token

/-- The tokens that stand directly after a token whose kind is among `kinds`. -/
def following (kinds : Kind → Bool) : List Token → List Token
  | t :: u :: rest =>
    if kinds t.kind then u :: following kinds (u :: rest) else following kinds (u :: rest)
  | _ => []

/-- The names that stand directly after a token whose kind is among `kinds`. -/
def namesFollowing (kinds : Kind → Bool) (ts : List Token) : List String :=
  (following kinds ts).map Token.text

/-- The kind of the last token.  Nothing is as good as a line end. -/
def lastKind (ts : List Token) : Kind :=
  (ts.getLast?.map Token.kind).getD .newline

/-- The names of a program are in order. -/
structure NamesInOrder (ts : List Token) : Prop where
  /-- No name is given that C keeps for itself. -/
  free : ∀ name ∈ namesFollowing Kind.names ts, isReserved name = false
  /-- A variable is used only after it was given a value. -/
  assigned : ∀ earlier t later, ts = earlier ++ t :: later → t.kind = .ident →
    (lastKind earlier).names = false → t.text ∈ namesFollowing Kind.assigns earlier
  /-- No two labels have the same name. -/
  distinct : (namesFollowing Kind.labels ts).Nodup

/-- Every jump has a label to go to, before or after it. -/
def JumpsLand (ts : List Token) : Prop :=
  ∀ name ∈ namesFollowing Kind.jumps ts, name ∈ namesFollowing Kind.labels ts

theorem lastKind_concat (ts : List Token) (t : Token) : lastKind (ts ++ [t]) = t.kind := by
  simp [lastKind]

/-- One more token is one more that follows, if the last one was of the right kind. -/
theorem following_concat {kinds : Kind → Bool} (newline : kinds .newline = false)
    (ts : List Token) (t : Token) :
    following kinds (ts ++ [t]) =
      following kinds ts ++ if kinds (lastKind ts) then [t] else [] := by
  induction ts with
  | nil => simp [following, lastKind, newline]
  | cons first ts ih =>
    -- whether the second token follows depends on the first one
    cases ts with
    | nil => by_cases picked : kinds first.kind <;> simp [following, lastKind, picked]
    | cons second ts =>
      have last : lastKind (first :: second :: ts) = lastKind (second :: ts) := by
        simp [lastKind]
      simp only [List.cons_append, following, last] at ih ⊢
      rw [ih]
      split <;> simp

theorem namesFollowing_concat {kinds : Kind → Bool} (newline : kinds .newline = false)
    (ts : List Token) (t : Token) :
    namesFollowing kinds (ts ++ [t]) =
      namesFollowing kinds ts ++ if kinds (lastKind ts) then [t.text] else [] := by
  rw [namesFollowing, following_concat newline, List.map_append, namesFollowing]
  split <;> rfl

/-- A statement about every token and those before it is one about the last token and one about
    the others. -/
theorem forall_split_concat {P : List Token → Token → Prop} (ts : List Token) (t : Token) :
    (∀ earlier u later, ts ++ [t] = earlier ++ u :: later → P earlier u) ↔
      (∀ earlier u later, ts = earlier ++ u :: later → P earlier u) ∧ P ts t := by
  constructor
  · intro each
    refine ⟨fun earlier u later split => ?_, each ts t [] rfl⟩
    exact each earlier u (later ++ [t]) (by simp [split])
  · rintro ⟨others, last⟩ earlier u later split
    -- the token is the last one exactly if nothing comes later
    cases later using List.reverseRecOn with
    | nil =>
      obtain ⟨rfl, same⟩ := List.append_inj' split rfl
      obtain rfl := List.singleton_inj.mp same
      exact last
    | append_singleton later w =>
      rw [← List.cons_append, ← List.append_assoc] at split
      exact others earlier u later (List.append_inj' split rfl).1

end Token

/-! ## Names from left to right -/

/-- The kind of the last token, and what has been named up to it. -/
structure Ledger where
  last : Kind
  scope : Scope

namespace Ledger

/-- At the beginning of a line nothing waits for a name. -/
def atLine (scope : Scope) : Ledger := ⟨.newline, scope⟩

@[simp]
theorem scope_atLine (scope : Scope) : (atLine scope).scope = scope := rfl

/-- Go on over one token: after some keywords it names something. -/
def enter (l : Ledger) (t : Token) : Ledger where
  last := t.kind
  scope := match l.last with
    | .keyword .assign | .keyword .input => l.scope.addVariable t.text
    | .keyword .label => l.scope.addLabel t.text
    | .keyword .goto => l.scope.addJump ⟨t.text, t.position⟩
    | _ => l.scope

def enterAll (l : Ledger) (ts : List Token) : Ledger :=
  ts.foldl enter l

/-- Whether the next token may be `t`, as far as names go. -/
def Allows (l : Ledger) (t : Token) : Prop :=
  match l.last with
  | .keyword .assign | .keyword .input | .keyword .goto => isReserved t.text = false
  | .keyword .label => isReserved t.text = false ∧ t.text ∉ l.scope.labels
  | _ => t.kind = .ident → t.text ∈ l.scope.assigned

/-- Whether the next tokens may be `ts`, as far as names go. -/
def AllowsAll (l : Ledger) : List Token → Prop
  | [] => True
  | t :: ts => l.Allows t ∧ (l.enter t).AllowsAll ts

@[simp]
theorem enterAll_nil (l : Ledger) : l.enterAll [] = l := rfl

@[simp]
theorem enterAll_cons (l : Ledger) (t : Token) (ts : List Token) :
    l.enterAll (t :: ts) = (l.enter t).enterAll ts := rfl

@[simp]
theorem enterAll_append (l : Ledger) (ts us : List Token) :
    l.enterAll (ts ++ us) = (l.enterAll ts).enterAll us := by
  simp [enterAll]

@[simp]
theorem allowsAll_nil (l : Ledger) : l.AllowsAll [] := trivial

@[simp]
theorem allowsAll_cons (l : Ledger) (t : Token) (ts : List Token) :
    l.AllowsAll (t :: ts) ↔ l.Allows t ∧ (l.enter t).AllowsAll ts := Iff.rfl

@[simp]
theorem allowsAll_append (l : Ledger) (ts us : List Token) :
    l.AllowsAll (ts ++ us) ↔ l.AllowsAll ts ∧ (l.enterAll ts).AllowsAll us := by
  induction ts generalizing l with
  | nil => simp
  | cons t ts ih => simp [ih, and_assoc]

/-! ### What a ledger holds -/

theorem assigned_enter (l : Ledger) (t : Token) :
    (l.enter t).scope.assigned =
      if l.last.assigns then (l.scope.addVariable t.text).assigned else l.scope.assigned := by
  unfold enter
  split <;> simp_all [Kind.assigns]

theorem labels_enter (l : Ledger) (t : Token) :
    (l.enter t).scope.labels = l.scope.labels ++ if l.last.labels then [t.text] else [] := by
  unfold enter
  split <;> simp_all [Kind.labels, Scope.addLabel]

theorem jumps_enter (l : Ledger) (t : Token) :
    (l.enter t).scope.jumps =
      if l.last.jumps then (l.scope.addJump ⟨t.text, t.position⟩).jumps else l.scope.jumps := by
  unfold enter
  split <;> simp_all [Kind.jumps]

@[simp]
theorem last_enterAll (scope : Scope) (ts : List Token) :
    ((atLine scope).enterAll ts).last = Token.lastKind ts := by
  induction ts using List.reverseRecOn with
  | nil => rfl
  | append_singleton ts t ih => simp [Token.lastKind_concat, enter]

theorem labels_enterAll (ts : List Token) :
    ((atLine .empty).enterAll ts).scope.labels = Token.namesFollowing Kind.labels ts := by
  induction ts using List.reverseRecOn with
  | nil => rfl
  | append_singleton ts t ih =>
    rw [enterAll_append, enterAll_cons, enterAll_nil, labels_enter, ih, last_enterAll,
      Token.namesFollowing_concat rfl]

theorem eraseDups_concat (names : List String) (name : String) :
    (names ++ [name]).eraseDups =
      if name ∈ names then names.eraseDups else names.eraseDups ++ [name] := by
  rw [List.eraseDups_append]
  split
  · next old => simp [List.removeAll, old]
  · next new => simp [List.removeAll, new, List.eraseDups_cons]

/-- The variables are the names that get a value, each one where it first does. -/
theorem assigned_enterAll (ts : List Token) :
    ((atLine .empty).enterAll ts).scope.assigned =
      (Token.namesFollowing Kind.assigns ts).eraseDups := by
  induction ts using List.reverseRecOn with
  | nil => rfl
  | append_singleton ts t ih =>
    rw [enterAll_append, enterAll_cons, enterAll_nil, assigned_enter, last_enterAll,
      Scope.assigned_addVariable, ih, Token.namesFollowing_concat rfl]
    split
    · rw [eraseDups_concat]
      simp only [List.mem_eraseDups]
    · simp

theorem mem_jumpNames_enterAll {ts : List Token} {name : String} :
    name ∈ ((atLine .empty).enterAll ts).scope.jumps.map Jump.name ↔
      name ∈ Token.namesFollowing Kind.jumps ts := by
  induction ts using List.reverseRecOn with
  | nil => simp [atLine, Scope.empty, Token.namesFollowing, Token.following]
  | append_singleton ts t ih =>
    rw [enterAll_append, enterAll_cons, enterAll_nil, jumps_enter, last_enterAll,
      Token.namesFollowing_concat rfl, List.mem_append]
    split
    · rw [Scope.mem_jumpNames_addJump, ih, List.mem_singleton]
    · simpa using ih

/-! ### The two descriptions agree -/

/-- The three conditions on a token, apart from each other. -/
theorem allows_iff (l : Ledger) (t : Token) :
    l.Allows t ↔
      (l.last.names = true → isReserved t.text = false) ∧
      (l.last.labels = true → t.text ∉ l.scope.labels) ∧
      (l.last.names = false → t.kind = .ident → t.text ∈ l.scope.assigned) := by
  unfold Allows
  split <;> simp_all [Kind.names, Kind.assigns, Kind.labels, Kind.jumps]

end Ledger

namespace Token

/-- One more token keeps the names in order if the ledger allows it. -/
theorem namesInOrder_concat (ts : List Token) (t : Token) :
    NamesInOrder (ts ++ [t]) ↔
      NamesInOrder ts ∧ ((Ledger.atLine .empty).enterAll ts).Allows t := by
  -- each of the three conditions takes one part of what the ledger asks of `t`
  have free : (∀ name ∈ namesFollowing Kind.names (ts ++ [t]), isReserved name = false) ↔
      (∀ name ∈ namesFollowing Kind.names ts, isReserved name = false) ∧
        ((lastKind ts).names = true → isReserved t.text = false) := by
    rw [namesFollowing_concat rfl]
    cases (lastKind ts).names <;> simp [or_imp, forall_and]
  have distinct : (namesFollowing Kind.labels (ts ++ [t])).Nodup ↔
      (namesFollowing Kind.labels ts).Nodup ∧
        ((lastKind ts).labels = true → t.text ∉ namesFollowing Kind.labels ts) := by
    rw [namesFollowing_concat rfl]
    cases (lastKind ts).labels
    · simp
    · simp [List.nodup_append, List.forall_mem_ne']
  rw [Ledger.allows_iff, Ledger.last_enterAll, Ledger.labels_enterAll, Ledger.assigned_enterAll,
    List.mem_eraseDups]
  constructor
  · intro inOrder
    obtain ⟨others, last⟩ := (forall_split_concat ts t).mp fun earlier u later split ident =>
      inOrder.assigned earlier u later split ident
    have unreserved := free.mp inOrder.free
    have new := distinct.mp inOrder.distinct
    exact ⟨⟨unreserved.1, fun earlier u later split ident => others earlier u later split ident,
      new.1⟩, unreserved.2, new.2, fun plain ident => last ident plain⟩
  · rintro ⟨inOrder, unreserved, new, known⟩
    refine ⟨free.mpr ⟨inOrder.free, unreserved⟩, fun earlier u later split ident => ?_,
      distinct.mpr ⟨inOrder.distinct, new⟩⟩
    exact (forall_split_concat ts t).mpr ⟨fun earlier u later split ident =>
      inOrder.assigned earlier u later split ident, fun ident plain => known plain ident⟩
      earlier u later split ident

/-- The names are in order if the ledger allows every token when its turn comes. -/
theorem namesInOrder_iff (ts : List Token) :
    NamesInOrder ts ↔ (Ledger.atLine .empty).AllowsAll ts := by
  induction ts using List.reverseRecOn with
  | nil =>
    refine iff_of_true ⟨?_, ?_, ?_⟩ trivial
    · simp [namesFollowing, following]
    · simp
    · simp [namesFollowing, following]
  | append_singleton ts t ih => simp [namesInOrder_concat, ih]

/-- Every jump lands if no jump of the ledger is without a label. -/
theorem jumpsLand_iff (ts : List Token) :
    JumpsLand ts ↔ ((Ledger.atLine .empty).enterAll ts).scope.dangling? = none := by
  rw [Scope.dangling?_eq_none_iff]
  constructor
  · intro land jump mem
    rw [Ledger.labels_enterAll]
    exact land _ (Ledger.mem_jumpNames_enterAll.mp (List.mem_map_of_mem mem))
  · intro known name mem
    obtain ⟨jump, mem', rfl⟩ := List.mem_map.mp (Ledger.mem_jumpNames_enterAll.mpr mem)
    rw [← Ledger.labels_enterAll]
    exact known jump mem'

end Token

end BasicToC
