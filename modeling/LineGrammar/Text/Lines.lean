import LineGrammar.Text.Blank

/-! Cutting a sequence behind each of its separators, and the lines of a text. A line ends
with a line feed, which takes one carriage return right before it along; what follows the
last line feed is a line unless it is empty. -/

namespace LineGrammar

/-- Cuts a list behind each element that satisfies `p`. No piece is empty, and the pieces put
together are the list. -/
def cutAfter {α : Type} (p : α → Bool) : List α → List (List α)
  | [] => []
  | a :: rest =>
    match p a, cutAfter p rest with
    | false, piece :: pieces => (a :: piece) :: pieces
    | _, pieces => [a] :: pieces

def dropTrailing {α : Type} (p : α → Bool) (l : List α) : List α :=
  (l.reverse.dropWhile p).reverse

def dropFinal {α : Type} [DecidableEq α] (a : α) (l : List α) : List α :=
  if l.getLast? = some a then l.dropLast else l

namespace Text

/-- Takes the line ending off a piece that ends with a line feed or is the last of its text. -/
def withoutLineEnding (piece : Text) : Text :=
  if piece.getLast? = some '\n' then dropFinal '\r' piece.dropLast else piece

def lines (t : Text) : List Text :=
  (cutAfter (· == '\n') t).map withoutLineEnding

end Text

theorem flatten_cutAfter {α : Type} (p : α → Bool) (l : List α) : (cutAfter p l).flatten = l := by
  induction l with
  | nil => rfl
  | cons a rest ih =>
    rw [cutAfter]
    split
    · next piece pieces _ h => simpa [h] using ih
    · next pieces h => simpa using ih

end LineGrammar
