import BasicToC.Lexeme

/-! # Streams of tokens

The compiler pulls tokens one at a time, from a text or from a list made beforehand.  Both are the
same thing here: what each pull will give, in order, and the place of the end, which every later
pull gives.  A pull may fail, and the ones after it still go on with the rest of the text.
-/

namespace BasicToC

/-- The pulls that are still to come before the end, and where the end is. -/
structure TokenStream where
  pending : List (Except Diagnostic Token)
  ending : Place

namespace TokenStream

/-- Take the next token, or the report of what stands in its place.  After the last one comes the
    end of the program, as often as it is asked for. -/
def next (s : TokenStream) : Except Diagnostic Token × TokenStream :=
  match s.pending with
  | [] => (.ok (.eof s.ending), s)
  | item :: rest => (item, { s with pending := rest })

@[simp]
theorem next_nil (ending : Place) : next ⟨[], ending⟩ = (.ok (.eof ending), ⟨[], ending⟩) := rfl

@[simp]
theorem next_cons (item : Except Diagnostic Token) (rest : List (Except Diagnostic Token))
    (ending : Place) : next ⟨item :: rest, ending⟩ = (item, ⟨rest, ending⟩) := rfl

/-! ## Where streams come from -/

/-- The stream of the text `cs` that begins at `place`: gap and lexeme in turn, and the end after
    the last gap. -/
def scan (place : Place) (cs : List Char) : TokenStream :=
  let start := place.after (gap cs)
  match _ : afterGap cs with
  | [] => ⟨[], start⟩
  | c :: tail =>
    let lexeme := Lexeme.first c tail
    let rest := scan (start.after lexeme.spelling) lexeme.rest
    ⟨lexeme.pull start :: rest.pending, rest.ending⟩
termination_by cs.length
decreasing_by
  have shorter := Lexeme.length_rest_first_lt c tail
  have whole := congrArg List.length (gap_append_afterGap cs)
  rw [List.length_append, ‹afterGap cs = c :: tail›] at whole
  omega

def ofText (source : String) : TokenStream :=
  scan .start source.toList

/-- The stream of ready-made tokens.  Its end stands nowhere. -/
def ofTokens (tokens : List Token) : TokenStream :=
  ⟨tokens.map .ok, ⟨0, 0⟩⟩

theorem scan_of_afterGap_eq_nil {place : Place} {cs : List Char} (h : afterGap cs = []) :
    scan place cs = ⟨[], place.after (gap cs)⟩ := by
  rw [scan]
  split
  · rfl
  · simp_all

theorem scan_of_afterGap_eq_cons {place : Place} {cs tail : List Char} {c : Char}
    (h : afterGap cs = c :: tail) :
    scan place cs =
      let start := place.after (gap cs)
      let lexeme := Lexeme.first c tail
      let rest := scan (start.after lexeme.spelling) lexeme.rest
      ⟨lexeme.pull start :: rest.pending, rest.ending⟩ := by
  rw [scan]
  split
  · simp_all
  · next c' tail' h' =>
    obtain ⟨rfl, rfl⟩ := List.cons.inj (h'.symm.trans h)
    rfl

/-! ## Pulling many -/

/-- What the first `n` pulls give, failures included. -/
def pulls : Nat → TokenStream → List (Except Diagnostic Token)
  | 0, _ => []
  | n + 1, s => s.next.1 :: pulls n s.next.2

/-- The tokens of the pulls of a list up to the first failure. -/
def collect : List (Except Diagnostic Token) → Except Diagnostic (List Token)
  | [] => .ok []
  | .error d :: _ => .error d
  | .ok t :: rest => (collect rest).map (t :: ·)

/-- Every token of the stream, the end included, or the first failure. -/
def tokens (s : TokenStream) : Except Diagnostic (List Token) :=
  (collect s.pending).map (· ++ [.eof s.ending])

end TokenStream

def lex (source : String) : Except Diagnostic (List Token) :=
  (TokenStream.ofText source).tokens

end BasicToC
