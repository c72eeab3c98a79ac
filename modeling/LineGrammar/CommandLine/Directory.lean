import LineGrammar.Text.Offset
import LineGrammar.Text.Utf8

/-! The working directory, as far as a path can lead into it: plain files, no directories below
it, and only directories above it. -/

namespace LineGrammar

abbrev Directory := List (Text × Bytes)

inductive Entry where
  | file (content : Bytes)
  | directory
deriving DecidableEq, Repr

namespace Directory

def names : Text → List Text
  | [] => [[]]
  | c :: rest =>
    if c = '/' then [] :: names rest
    else
      match names rest with
      | [] => [[c]]
      | name :: later => (c :: name) :: later

def isStay (name : Text) : Bool :=
  name = [] || name = ['.']

/-- Paths take fewer bytes than this, wherever they lead. -/
def pathBound : Nat := 4096

/-- Names that stay where they are lead nowhere else, but behind a file none may follow. -/
def find? (d : Directory) (path : Text) : Option Entry :=
  let all := names path
  let moves := all.filter (!isStay ·)
  if path = [] ∨ pathBound ≤ path.byteSize then none
  else if moves.all (· = ['.', '.']) then some .directory
  else if path.head? = some '/' then none
  else
    match moves with
    | [name] => if all.getLast? = some name then (d.lookup name).map .file else none
    | _ => none

end Directory

end LineGrammar
