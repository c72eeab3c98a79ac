import LineGrammar.Operand
import LineGrammar.Statement

/-! The judgement on a statement: its kind, or its first defect. The end mark is looked at
first, then unknown tokens from the left, then the rule that the head selects. -/

namespace LineGrammar

inductive Kind where
  | declaration
  | assignment
  | conditional
  | loop
deriving DecidableEq, Repr

def Kind.label : Kind → Text
  | .declaration => "declaration".toList
  | .assignment => "assignment".toList
  | .conditional => "conditional".toList
  | .loop => "loop".toList

namespace Statement

/-- A declaration is a size keyword, a name and the end mark. -/
def checkDeclaration (cs : List Category) : Except Defect Unit :=
  if cs.length = 3 then .ok () else .error (.declarationLength cs.length)

/-- An assignment is an identifier, the sign `=`, an operand and the end mark. -/
def checkAssignment : List Category → Except Defect Unit
  | .identifier :: .assignment :: c :: later => Operand.check (c :: later).dropLast
  | found :: _ => .error (.assignmentTarget found)
  | [] => .error .unrecognized

/-- A guard compares two operands between the keyword that opens the block and the end mark.
The comparisons are counted before the operands are looked at. -/
def checkGuard (cs : List Category) : Except Defect Unit :=
  let inner := cs.tail.dropLast
  match inner.count .comparison with
  | 0 => .error .noComparison
  | 1 => do
    Operand.check (inner.takeWhile (· != .comparison))
    Operand.check (inner.dropWhile (· != .comparison)).tail
  | count => .error (.manyComparisons count)

def rule (head : Category) (cs : List Category) : Except Defect Kind :=
  match head with
  | .declaration => (checkDeclaration cs).map fun _ => .declaration
  | .conditional => (checkGuard cs).map fun _ => .conditional
  | .loop => (checkGuard cs).map fun _ => .loop
  | _ =>
    if cs[1]? = some .assignment then (checkAssignment cs).map fun _ => .assignment
    else .error .unrecognized

def judge (s : Statement) : Except Defect Kind :=
  if s.endMark? ≠ some s.head.requiredMark then .error (.missingEndMark s.head.requiredMark)
  else
    match s.tokens.find? (·.category == .unknown) with
    | some t => .error (.unknownToken t.text (s.text.column t.start))
    | none => rule s.head s.categories

end Statement

end LineGrammar
