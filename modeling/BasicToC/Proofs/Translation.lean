import BasicToC.Proofs.Acceptance
import BasicToC.Proofs.Unambiguity

/-! # The code of a program

The compiler writes its code while it reads, in two places at once, and never sees a tree.  What it
has written in the end is the translation of the tree: `Statement.join_allFragments` says so of the
code, and `Spelled.assigned_enterAll` of the declarations ahead of it.
-/

namespace BasicToC

/-! ## Fragments together -/

/-- The text of fragments in a row. -/
def Fragment.join (fs : List Fragment) : String :=
  String.join (fs.map Fragment.text)

namespace Fragment

@[simp]
theorem join_nil : join [] = "" := rfl

@[simp]
theorem join_cons (f : Fragment) (fs : List Fragment) : join (f :: fs) = f.text ++ join fs := by
  simp [join]

@[simp]
theorem join_append (fs gs : List Fragment) : join (fs ++ gs) = join fs ++ join gs := by
  simp [join]

end Fragment

theorem Factor.join_fragments (f : Factor) : Fragment.join f.fragments = f.code := by
  have operand : f.operand.fragment.text = f.operand.code := by
    cases f.operand <;> rfl
  obtain ⟨sign, x⟩ := f
  cases sign with
  | none => simpa [Factor.fragments, Factor.code] using operand
  | some sign =>
    simp only [Factor.fragments, Factor.code, Fragment.join_cons, Fragment.join_nil,
      String.append_empty, operand]
    rfl

theorem Operator.join_chainFragments {ω α : Type} {fragments : α → List Fragment}
    {code : α → String} (same : ∀ x, Fragment.join (fragments x) = code x)
    (rest : List (Operator ω × α)) :
    Fragment.join (Operator.chainFragments fragments rest) =
      String.join (rest.map fun (o, x) => o.code ++ code x) := by
  induction rest with
  | nil => rfl
  | cons first rest ih =>
    obtain ⟨o, x⟩ := first
    have split : Operator.chainFragments fragments ((o, x) :: rest) =
        .operator o.text :: (fragments x ++ Operator.chainFragments fragments rest) := by
      simp [Operator.chainFragments]
    have operator : (Fragment.operator o.text).text = o.code := rfl
    rw [split, Fragment.join_cons, Fragment.join_append, same, ih, operator]
    simp [String.append_assoc]

theorem Term.join_fragments (t : Term) : Fragment.join t.fragments = t.code := by
  rw [Term.fragments, Fragment.join_append, Factor.join_fragments,
    Operator.join_chainFragments Factor.join_fragments, Term.code]

theorem Expression.join_fragments (e : Expression) : Fragment.join e.fragments = e.code := by
  rw [Expression.fragments, Fragment.join_append, Term.join_fragments,
    Operator.join_chainFragments Term.join_fragments, Expression.code]

theorem Condition.join_fragments (c : Condition) : Fragment.join c.fragments = c.code := by
  rw [Condition.fragments, Fragment.join_append, Expression.join_fragments,
    Operator.join_chainFragments Expression.join_fragments, Condition.code]

mutual

theorem Statement.join_fragments (s : Statement) : Fragment.join s.fragments = s.code := by
  cases s with
  | input name =>
    -- one fragment for what the translation of the tree writes as four lines
    have lines : " = 0;\nscanf(\"%*[^\\n]\");\n\x7d\n" =
        " = 0;\n" ++ ("scanf(\"%*[^\\n]\");\n" ++ "\x7d\n") := by decide
    rw [Statement.fragments, Fragment.join_cons, Fragment.join_nil, String.append_empty]
    refine (congrArg (_ ++ ·) lines).trans ?_
    rw [← String.append_assoc, ← String.append_assoc]
    rfl
  | printText | label | goto =>
    rw [Statement.fragments, Fragment.join_cons, Fragment.join_nil, String.append_empty]
    rfl
  | print value | assign name value =>
    rw [Statement.fragments, Fragment.join_cons, Fragment.join_append, value.join_fragments,
      Fragment.join_cons, Fragment.join_nil, String.append_empty, ← String.append_assoc]
    rfl
  | ifThen condition body | whileRepeat condition body =>
    rw [Statement.fragments, Fragment.join_cons, Fragment.join_append, condition.join_fragments,
      Fragment.join_cons, Fragment.join_append, Statement.join_allFragments body,
      Fragment.join_cons, Fragment.join_nil, String.append_empty, ← String.append_assoc,
      ← String.append_assoc, ← String.append_assoc]
    rfl

theorem Statement.join_allFragments (program : List Statement) :
    Fragment.join (Statement.allFragments program) = Statement.allCode program := by
  cases program with
  | nil => rfl
  | cons s rest =>
    rw [Statement.allFragments, Fragment.join_append, Statement.join_fragments s,
      Statement.join_allFragments rest]
    rfl

end

/-! ## Variables in order -/

/-- A line gives a value to the target of its statement, and to nothing else. -/
theorem Line.assigned_enterAll {k : LineKind} {ts : List Token} {s : Statement}
    (isLine : Line k ts s) {scope : Scope} {earlier : List String}
    (assigned : scope.assigned = earlier.eraseDups) :
    ((Ledger.afterHead k scope).enterAll ts).scope.assigned =
      (earlier ++ s.targets).eraseDups := by
  -- a variable that has a value already keeps its place
  have named : ∀ name, (scope.addVariable name).assigned = (earlier ++ [name]).eraseDups := by
    intro name
    rw [Scope.assigned_addVariable, assigned, Ledger.eraseDups_concat]
    simp only [List.mem_eraseDups]
  cases isLine with
  | printText | label | goto =>
    simpa [Ledger.enter, Ledger.afterHead, Statement.targets] using assigned
  | @print _ value spelled =>
    have plain := Token.plain_of_words spelled value.plain_words
    rw [(Ledger.enterAll_of_plain rfl plain).1]
    simpa [Statement.targets, Ledger.afterHead] using assigned
  | @input t isName => exact named t.text
  | @assign t sign us value isName isSign spelled =>
    have plain := Token.plain_of_words spelled value.plain_words
    have afterSign : ((Ledger.afterHead .assign scope).enter t).enter sign =
        ⟨.becomes, scope.addVariable t.text⟩ := by
      simp [Ledger.enter, Ledger.afterHead, isName, isSign]
    rw [Ledger.enterAll_cons, Ledger.enterAll_cons, afterSign,
      (Ledger.enterAll_of_plain rfl plain).1]
    exact named t.text

/-- The variables of statements are their targets, each one where it first is one. -/
theorem Spelled.assigned_enterAll {program : List Statement} {ts : List Token}
    (spelled : Spelled program ts) {scope : Scope} {earlier : List String}
    (assigned : scope.assigned = earlier.eraseDups) :
    ((Ledger.atLine scope).enterAll ts).scope.assigned =
      (earlier ++ Statement.allTargets program).eraseDups := by
  induction spelled generalizing scope earlier with
  | nil => simpa [Statement.allTargets] using assigned
  | line k isHead isLine isEnd others ih =>
    rw [(Line.ledger isHead isLine isEnd scope _).2, ih (isLine.assigned_enterAll assigned),
      Statement.allTargets, List.append_assoc]
  | governed c isHead isCondition isThen isEnd inner isClose isEnd' others ihInner ihOthers =>
    have targets : ∀ condition body,
        (c.statement condition body).targets = Statement.allTargets body := by
      intro condition body
      cases c <;> simp [Construct.statement, Statement.targets]
    rw [(c.ledger isHead isCondition isThen isEnd (inner.last_enterAll scope) isClose isEnd' _).2,
      ihOthers (ihInner assigned), Statement.allTargets, targets, List.append_assoc]

theorem Laid.assigned_enterAll {tree : Program} {ts : List Token} (laid : Laid tree ts) :
    ((Ledger.atLine .empty).enterAll ts).scope.assigned = tree.assigned := by
  obtain ⟨blank, rest, rfl, newlines, spelled⟩ := laid
  have nothing : Scope.empty.assigned = [].eraseDups := rfl
  rw [Ledger.enterAll_blank newlines, spelled.assigned_enterAll nothing]
  rfl

/-! ## The whole text -/

theorem foldl_append_text {α : Type} (text : α → String) (start : String) (xs : List α) :
    xs.foldl (fun whole x => whole ++ text x) start = start ++ String.join (xs.map text) := by
  induction xs generalizing start with
  | nil => simp
  | cons x xs ih => rw [List.foldl_cons, ih, List.map_cons, String.join_cons, String.append_assoc]

/-- The text ahead of the code: what was there, and a line for each variable. -/
theorem Reader.header_written (r : Reader) (base : Output) :
    (r.written base).header = base.header ++
      String.join (r.scope.assigned.map fun name => "float " ++ name ++ " = 0;\n") := by
  have line : Declaration.text ∘ Declaration.float = fun name => "float " ++ name ++ " = 0;\n" := by
    funext name
    simp [Declaration.text, Declaration.line, String.append_assoc]
  rw [Output.header, Reader.written, Array.foldl_append, List.foldl_toArray, foldl_append_text,
    List.map_map, line]
  rfl

/-- The text of the code: what was there, and the text of the fragments. -/
theorem Reader.body_written (r : Reader) (base : Output) :
    (r.written base).body = base.body ++ Fragment.join r.code := by
  rw [Output.body, Reader.written, Array.foldl_append, List.foldl_toArray, foldl_append_text]
  rfl

theorem Output.header_opened (base : Output) :
    base.opened.header = base.header ++ "#include <stdio.h>\nint main(void)\x7b\n" := by
  have prologue : Declaration.includeHeader.text ++ Declaration.openMain.text =
      "#include <stdio.h>\nint main(void)\x7b\n" := by decide
  rw [Output.opened, Output.header_declare, Output.header_declare, String.append_assoc, prologue]

/-- A program whose names are in order leaves the whole of its translation, even if a label is
    missing. -/
theorem Machine.output_of_laid {ts : List Token} {tree : Program}
    (laid : Laid tree (Token.beforeEnd ts))
    (allowed : (Ledger.atLine .empty).AllowsAll (Token.beforeEnd ts)) (base : Output) :
    (compile (.ofTokens ts) base).2.output.header =
        base.header ++ "#include <stdio.h>\nint main(void)\x7b\n" ++
          String.join (tree.assigned.map fun name => "float " ++ name ++ " = 0;\n") ∧
      (compile (.ofTokens ts) base).2.output.body =
        base.body ++ Statement.allCode tree ++ "return 0;\n\x7d\n" := by
  have shows := (compile_ofTokens ts base).2
  rw [laid.run_body (r := Reader.ofTokens ts) allowed] at shows
  have epilogue : Fragment.join [.closeMain] = "return 0;\n\x7d\n" := by decide
  have written : ∀ u : Reader, u.scope.assigned = tree.assigned →
      u.code = Statement.allFragments tree ++ [.closeMain] →
      (u.written base.opened).header = base.header ++ "#include <stdio.h>\nint main(void)\x7b\n" ++
          String.join (tree.assigned.map fun name => "float " ++ name ++ " = 0;\n") ∧
        (u.written base.opened).body =
          base.body ++ Statement.allCode tree ++ "return 0;\n\x7d\n" := by
    intro u assigned code
    rw [Reader.header_written, Reader.body_written, assigned, code, Output.header_opened,
      Fragment.join_append, Statement.join_allFragments, epilogue, ← String.append_assoc]
    exact ⟨rfl, rfl⟩
  rw [shows.output]
  exact written _ laid.assigned_enterAll rfl

theorem Machine.text_of_laid {ts : List Token} {tree : Program}
    (laid : Laid tree (Token.beforeEnd ts))
    (allowed : (Ledger.atLine .empty).AllowsAll (Token.beforeEnd ts)) :
    (compile (.ofTokens ts) .empty).2.output.text = tree.code := by
  obtain ⟨header, body⟩ := output_of_laid laid allowed .empty
  rw [Output.text, header, body, Output.header_empty, Output.body_empty, String.empty_append,
    String.empty_append, ← String.append_assoc]
  rfl

/-- Translation of ready-made tokens: when they are accepted there is exactly one tree that they
    are laid out from, and the text of the output is its translation. -/
theorem Machine.compile_ofTokens_text {ts : List Token}
    (ok : (compile (.ofTokens ts) .empty).1 = .ok ()) :
    ∃ tree, Laid tree (Token.beforeEnd ts) ∧
      (∀ other, Laid other (Token.beforeEnd ts) → other = tree) ∧
      (compile (.ofTokens ts) .empty).2.output.text = tree.code := by
  have noEnd : ∀ t ∈ (Reader.ofTokens ts).unread, t.kind ≠ .eof :=
    fun t mem => Token.kind_ne_eof_of_mem_beforeEnd mem
  rw [(compile_ofTokens ts .empty).1, Reader.run_body_ok_iff _ noEnd] at ok
  obtain ⟨⟨tree, laid⟩, allowed, -⟩ := ok
  exact ⟨tree, laid, fun other laid' => laid'.unique laid, text_of_laid laid allowed⟩

/-- A block with a blank line in it, a sign after the sign of assignment, and a numeral that C would
    read as octal. -/
theorem Machine.compile_ofTokens_text_loop :
    let words : List Word :=
      [Keyword.input.word, .name "a", .newline,
        Keyword.whileHead.word, .name "a", ⟨.comparison .less, "<"⟩, ⟨.number, "010"⟩,
        Keyword.repeatBody.word, .newline, .newline,
        Keyword.assign.word, .name "b", .becomes, ⟨.additive .minus, "-"⟩, .name "a", .newline,
        Keyword.endWhile.word, .newline]
    let ts := words.map Word.token
    (compile (.ofTokens ts) .empty).1 = .ok () ∧
      ∃ tree, Laid tree (Token.beforeEnd ts) ∧
        (∀ other, Laid other (Token.beforeEnd ts) → other = tree) ∧
        (compile (.ofTokens ts) .empty).2.output.text = tree.code :=
  ⟨by decide +kernel, compile_ofTokens_text (by decide +kernel)⟩

end BasicToC
