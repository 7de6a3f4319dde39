/-! # The order of texts

Texts are ordered by their first characters that differ, and characters by their code points; a
text comes before every longer one that it begins.
-/

namespace BasicToC.Text

def comesBefore : List Char → List Char → Bool
  | _, [] => false
  | [], _ :: _ => true
  | c :: cs, d :: ds =>
    if c = d then comesBefore cs ds else Nat.blt c.toNat d.toNat

def precedes (s t : String) : Bool :=
  comesBefore s.toList t.toList

end BasicToC.Text
