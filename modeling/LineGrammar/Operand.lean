import LineGrammar.Defect

/-! Operands: the right side of an assignment and the two sides of a comparison, as lists of
categories. Groups are only counted, and the last category is not asked to fit the one before
it. -/

namespace LineGrammar

/-- Whether `next` may stand right behind a category inside an operand. -/
def Category.admits (c next : Category) : Bool :=
  match c with
  | .openGroup => (next matches .number | .identifier)
  | .closeGroup => (next matches .operator | .endMark _)
  | .number => (next matches .operator | .closeGroup | .endMark _)
  | .operator => (next matches .number | .identifier | .openGroup)
  | _ => true

namespace Operand

def linked : List Category → Bool
  | c :: next :: later => c.admits next && linked (next :: later)
  | _ => true

def isFinal : Category → Bool
  | .operator | .openGroup => false
  | _ => true

def wellFormed (cs : List Category) : Bool :=
  cs.getLast?.any isFinal && linked cs.dropLast

/-- Groups are counted before anything else is looked at. -/
def check (cs : List Category) : Except Defect Unit :=
  if cs.count .openGroup ≠ cs.count .closeGroup then
    .error (.unevenGroups (cs.count .openGroup) (cs.count .closeGroup))
  else if wellFormed cs then .ok ()
  else .error .malformedOperand

end Operand

end LineGrammar
