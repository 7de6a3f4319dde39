import BasicToC.Proofs.Streaming
import BasicToC.Proofs.Translation

/-! # Sessions

Several programs can go into one output, with lines from elsewhere between them.  A machine only
ever adds to its output and never looks at it, so it does behind any output what it does behind
none: `Machine.step_behind` says this of one step, and everything up to a whole compilation follows
from it.  What a session leaves is then what its steps leave by themselves, one behind the other.
-/

namespace BasicToC

/-! ## Outputs behind each other -/

namespace Output

/-- What the second output holds, behind what the first one holds. -/
def append (o p : Output) : Output :=
  ⟨o.declarations ++ p.declarations, o.code ++ p.code⟩

@[simp]
theorem append_empty (o : Output) : o.append .empty = o := by
  simp [append, empty]

@[simp]
theorem declare_append (o p : Output) (d : Declaration) :
    (o.append p).declare d = o.append (p.declare d) := by
  simp [append, declare]

@[simp]
theorem emit_append (o p : Output) (f : Fragment) :
    (o.append p).emit f = o.append (p.emit f) := by
  simp [append, emit]

theorem header_append (o p : Output) : (o.append p).header = o.header ++ p.header := by
  simp only [header, append, ← Array.foldl_toList, Array.toList_append, foldl_append_text,
    List.map_append, String.join_append, String.empty_append]

theorem body_append (o p : Output) : (o.append p).body = o.body ++ p.body := by
  simp only [body, append, ← Array.foldl_toList, Array.toList_append, foldl_append_text,
    List.map_append, String.join_append, String.empty_append]

end Output

/-! ## Machines behind an output -/

namespace Machine

/-- The same machine with its output behind another one. -/
def behind (m : Machine) (base : Output) : Machine :=
  { m with output := base.append m.output }

/-- The same result, with the output of its machine behind another one. -/
def resultBehind {α : Type} (x : Except Diagnostic α × Machine) (base : Output) :
    Except Diagnostic α × Machine :=
  (x.1, x.2.behind base)

theorem andThen_behind {α β : Type} {base : Output}
    {f : α → Machine → Except Diagnostic β × Machine}
    (same : ∀ a m, f a (m.behind base) = resultBehind (f a m) base)
    (x : Except Diagnostic α × Machine) :
    andThen (resultBehind x base) f = resultBehind (andThen x f) base := by
  obtain ⟨result, m⟩ := x
  cases result with
  | ok a => exact same a m
  | error d => rfl

theorem echo_behind (m : Machine) (base : Output) (echo : Option Fragment) :
    (m.behind base).echo echo = (m.echo echo).behind base := by
  cases echo <;> simp [Machine.echo, Machine.emit, behind]

theorem advance_behind (m : Machine) (base : Output) :
    (m.behind base).advance = resultBehind m.advance base := by
  obtain ⟨t, stream, next, advanced⟩ | ⟨d, stream, next, advanced⟩ := m.advance_cases
  · have next' : (m.behind base).stream.next = (.ok t, stream) := next
    rw [advanced, advance_of_next_ok next']
    rfl
  · have next' : (m.behind base).stream.next = (.error d, stream) := next
    rw [advanced]
    simp only [Machine.advance, next']
    rfl

theorem perform_behind (m : Machine) (base : Output) (action : Action) :
    (m.behind base).perform action = resultBehind (m.perform action) base := by
  cases action with
  | openProgram | emit | jump => simp [perform, Machine.emit, behind, resultBehind]
  | declare name =>
    cases known : m.scope.hasVariable name <;>
      simp [perform, Machine.declare, behind, resultBehind, known]
  | setLabel name position =>
    cases known : m.scope.hasLabel name <;> simp [perform, behind, resultBehind, known]
  | checkJumps =>
    cases dangling : m.scope.dangling? <;> simp [perform, behind, resultBehind, dangling]

theorem move_behind (m : Machine) (base : Output) (move : Move) :
    (m.behind base).move move = resultBehind (m.move move) base := by
  cases move with
  | reject problem => rfl
  | expand goals => rfl
  | shift echo goals =>
    rw [move_shift, move_shift, echo_behind, advance_behind]
    exact andThen_behind (fun _ _ => rfl) _

/-- What a machine does in a step does not depend on what its output held before. -/
theorem step_behind (m : Machine) (base : Output) (goal : Goal) :
    (m.behind base).step goal = resultBehind (m.step goal) base := by
  cases goal with
  | read phrase => exact m.move_behind base _
  | act action =>
    rw [step_act, step_act, perform_behind]
    exact andThen_behind (fun _ _ => rfl) _

theorem run_behind (m : Machine) (base : Output) (goals : List Goal) :
    (m.behind base).run goals = resultBehind (m.run goals) base := by
  fun_induction Machine.run m goals with
  | case1 m => exact run_nil _
  | case2 m goal goals more u stepped ih =>
    have stepped' : (m.behind base).step goal = (.ok more, u.behind base) := by
      rw [step_behind, stepped]
      rfl
    rw [run_cons_of_step_ok stepped', ih]
  | case3 m goal goals d u stepped =>
    have stepped' : (m.behind base).step goal = (.error d, u.behind base) := by
      rw [step_behind, stepped]
      rfl
    rw [run_cons_of_step_error stepped']
    rfl

/-- Compiling into an output is compiling into none, behind that output. -/
theorem compile_behind (stream : TokenStream) (base : Output) :
    compile stream base = resultBehind (compile stream .empty) base := by
  have begun : ofStream stream base = (ofStream stream .empty).behind base := by
    simp [ofStream, behind]
  rw [compile_eq, compile_eq, start_eq, start_eq, begun, advance_behind,
    andThen_behind fun _ m => m.advance_behind base]
  exact andThen_behind (fun _ m => m.run_behind base Goal.program) _

end Machine

/-! ## What steps contribute -/

namespace Session

/-- What a step adds ahead of the code.  For a program this is what compiling it into nothing
    leaves there. -/
def Step.header : Step → String
  | .declare text => text ++ "\n"
  | .line _ | .emit _ => ""
  | .compile stream => (Machine.compile stream .empty).2.output.header

/-- What a step adds to the code. -/
def Step.code : Step → String
  | .declare _ => ""
  | .line text => text ++ "\n"
  | .emit text => text
  | .compile stream => (Machine.compile stream .empty).2.output.body

/-- What a step says.  For a program this is what compiling it into nothing says. -/
def Step.result : Step → Except Diagnostic Unit
  | .compile stream => (Machine.compile stream .empty).1
  | _ => .ok ()

theorem Step.apply_eq (step : Step) (base : Output) :
    (step.apply base).1 = step.result ∧
      (step.apply base).2.header = base.header ++ step.header ∧
      (step.apply base).2.body = base.body ++ step.code := by
  cases step with
  | declare text => simp [Step.apply, Step.result, Step.header, Step.code, Declaration.text,
      Declaration.line]
  | line text =>
    refine ⟨rfl, (String.append_empty).symm, ?_⟩
    exact Output.body_emit base (.verbatimLine text)
  | emit text =>
    refine ⟨rfl, (String.append_empty).symm, ?_⟩
    exact Output.body_emit base (.verbatim text)
  | compile stream =>
    simp only [Step.apply, Machine.compile_behind stream base]
    exact ⟨rfl, Output.header_append _ _, Output.body_append _ _⟩

/-- Whatever an output holds when a session begins, and whatever its steps are, each step says what
    it says by itself.  What is left after it is what there was, with the contributions of all steps
    so far behind it: those ahead of the code first, and then those to the code. -/
theorem output_eq_contributions (base : Output) (earlier : List Step) (step : Step)
    (later : List Step) :
    let header := base.header ++ String.join ((earlier ++ [step]).map Step.header)
    let code := base.body ++ String.join ((earlier ++ [step]).map Step.code)
    ∃ o, (run base (earlier ++ step :: later))[earlier.length]? = some (step.result, o) ∧
      o.header = header ∧ o.body = code ∧ o.text = header ++ code := by
  intro header code
  have parts : ∃ o, (run base (earlier ++ step :: later))[earlier.length]? = some (step.result, o) ∧
      o.header = header ∧ o.body = code := by
    -- the first step leaves another output to begin with, so the induction is for any of them
    induction earlier generalizing base with
    | nil =>
      obtain ⟨result, ofHeader, ofBody⟩ := step.apply_eq base
      refine ⟨(step.apply base).2, ?_, ?_, ?_⟩
      · rw [← result]
        rfl
      · simpa [header] using ofHeader
      · simpa [code] using ofBody
    | cons first earlier ih =>
      obtain ⟨-, ofHeader, ofBody⟩ := first.apply_eq base
      obtain ⟨o, left, ofHeader', ofBody'⟩ := ih (first.apply base).2
      refine ⟨o, left, ?_, ?_⟩
      · rw [ofHeader', ofHeader]
        simp [header, String.append_assoc]
      · rw [ofBody', ofBody]
        simp [code, String.append_assoc]
  obtain ⟨o, left, ofHeader, ofBody⟩ := parts
  exact ⟨o, left, ofHeader, ofBody, by rw [Output.text, ofHeader, ofBody]⟩

end Session

end BasicToC
