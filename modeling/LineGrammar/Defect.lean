import LineGrammar.Category
import LineGrammar.Text.Quoted

/-! What can be wrong with a line. A defect carries the facts that its explanation names; its
message, which the output shows, is fixed for each cause. -/

namespace LineGrammar

inductive Defect where
  | missingEndMark (expected : EndMark)
  | declarationLength (count : Nat)
  | assignmentTarget (found : Category)
  | noComparison
  | manyComparisons (count : Nat)
  | unevenGroups (opened closed : Nat)
  | malformedOperand
  | unknownToken (text : Text) (column : Nat)
  | unrecognized
deriving DecidableEq, Repr

namespace Defect

def message : Defect → Text
  | missingEndMark .semicolon => "No end of line".toList
  | missingEndMark .colon => "Colon must end Conditional or Loop".toList
  | declarationLength _ => "Invalid Type Declaration".toList
  | assignmentTarget _ => "First Token Must be Variable".toList
  | noComparison => "No Equators".toList
  | manyComparisons _ => "Too Many Equators".toList
  | unevenGroups _ _ => "Paren Count Mismatch".toList
  | malformedOperand => "Subexpression Syntax Error".toList
  | unknownToken _ _ => "Unknown Token".toList
  | unrecognized => "Unrecognized Statement".toList

def explanation : Defect → Text
  | missingEndMark expected => "expected trailing '".toList ++ [expected.char, '\'']
  | declarationLength count => "expected 3 tokens, found ".toList ++ Text.decimal count
  | assignmentTarget found => "assignment target is ".toList ++ found.label
  | noComparison => "no comparison keyword".toList
  | manyComparisons count => Text.decimal count ++ " comparison keywords".toList
  | unevenGroups opened closed =>
    Text.decimal opened ++ " OPENPAREN against ".toList ++ Text.decimal closed ++
      " CLOSEPAREN".toList
  | malformedOperand => "malformed subexpression".toList
  | unknownToken text column =>
    ['\''] ++ text ++ "' at column ".toList ++ Text.decimal column
  | unrecognized => "no statement rule applies".toList

end Defect

end LineGrammar
