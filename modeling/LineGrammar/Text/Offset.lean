import LineGrammar.Text.Blank

/-! Positions in a text. An offset counts bytes of the UTF-8 form from 0, a column counts
characters from 1. -/

namespace LineGrammar.Text

def byteSize (t : Text) : Nat :=
  t.foldr (fun c size => c.utf8Size + size) 0

/-- The longest beginning of a text that takes at most `budget` bytes. -/
def fitting (budget : Nat) : Text → Text
  | [] => []
  | c :: rest => if c.utf8Size ≤ budget then c :: fitting (budget - c.utf8Size) rest else []

def column (t : Text) (offset : Nat) : Nat :=
  (t.fitting offset).length + 1

@[simp] theorem byteSize_nil : byteSize [] = 0 := rfl

@[simp] theorem byteSize_cons (c : Char) (t : Text) : byteSize (c :: t) = c.utf8Size + byteSize t :=
  rfl

@[simp] theorem byteSize_append (s t : Text) : byteSize (s ++ t) = byteSize s + byteSize t := by
  induction s with
  | nil => simp
  | cons c s ih => rw [List.cons_append, byteSize_cons, byteSize_cons, ih, Nat.add_assoc]

theorem fitting_byteSize (s t : Text) : fitting (byteSize s) (s ++ t) = s := by
  induction s with
  | nil =>
    cases t with
    | nil => rfl
    | cons c t => simp [fitting, Nat.ne_of_gt (Char.utf8Size_pos c)]
  | cons c s ih => simp [fitting, ih]

end LineGrammar.Text
