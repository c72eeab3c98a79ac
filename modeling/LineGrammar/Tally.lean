import LineGrammar.Report

/-! Counts of verdicts. -/

namespace LineGrammar

/-- How many lines were judged, how many of them were accepted and rejected, and how many
lines were blank. -/
structure Tally where
  checked : Nat
  accepted : Nat
  rejected : Nat
  blank : Nat
deriving DecidableEq, Repr

namespace Tally

def zero : Tally :=
  ⟨0, 0, 0, 0⟩

def add (t : Tally) : Verdict → Tally
  | .blank => { t with blank := t.blank + 1 }
  | .accepted _ => { t with checked := t.checked + 1, accepted := t.accepted + 1 }
  | .rejected _ => { t with checked := t.checked + 1, rejected := t.rejected + 1 }

def render (t : Tally) : Text :=
  Text.decimal t.checked ++ " lines checked: ".toList ++ Text.decimal t.accepted ++
    " accepted, ".toList ++ Text.decimal t.rejected ++ " rejected, ".toList ++
    Text.decimal t.blank ++ " blank".toList

end Tally

end LineGrammar
