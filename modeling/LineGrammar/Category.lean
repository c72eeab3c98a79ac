import LineGrammar.Text.Offset

/-! The category of a word: one of twenty keywords, or what its characters make it. The mark
that ends a statement is a category of its own, which no word has. -/

namespace LineGrammar

inductive EndMark where
  | semicolon
  | colon
deriving DecidableEq, Repr

def EndMark.char : EndMark → Char
  | .semicolon => ';'
  | .colon => ':'

inductive Category where
  | declaration
  | comparison
  | openGroup
  | closeGroup
  | operator
  | conditional
  | loop
  | assignment
  | number
  | identifier
  | endMark (mark : EndMark)
  | unknown
deriving DecidableEq, Repr

namespace Category

def keywords : List (Text × Category) :=
  [("tiny".toList, declaration), ("small".toList, declaration), ("medium".toList, declaration),
    ("large".toList, declaration), ("LST".toList, comparison), ("GRT".toList, comparison),
    ("LSTE".toList, comparison), ("GRTE".toList, comparison), ("EQ".toList, comparison),
    ("NEQU".toList, comparison), ("OPENPAREN".toList, openGroup), ("CLOSEPAREN".toList, closeGroup),
    ("ADD".toList, operator), ("SUB".toList, operator), ("MUL".toList, operator),
    ("DIV".toList, operator), ("MODULUS".toList, operator), ("COND".toList, conditional),
    ("REPEAT".toList, loop), ("=".toList, assignment)]

/-- Identifiers take fewer bytes than this. -/
def identifierBound : Nat := 10

/-- Only the first character counts, so `5x` is a number. -/
def isNumber : Text → Bool
  | [] => false
  | c :: _ => c.isDigit

def isIdentifier : Text → Bool
  | [] => false
  | c :: rest =>
    c.isAlpha && rest.all (fun d => d.isAlphanum || d == '_' || d == '-') &&
      decide (Text.byteSize (c :: rest) < identifierBound)

/-- Keywords come first, so a keyword is never an identifier; case matters. -/
def ofWord (w : Text) : Category :=
  match keywords.lookup w with
  | some category => category
  | none => if isNumber w then number else if isIdentifier w then identifier else unknown

def opensBlock : Category → Bool
  | conditional | loop => true
  | _ => false

def requiredMark (c : Category) : EndMark :=
  if c.opensBlock then .colon else .semicolon

def label : Category → Text
  | declaration => "Declaration".toList
  | comparison => "Equator".toList
  | openGroup => "OPENPAREN".toList
  | closeGroup => "CLOSEPAREN".toList
  | operator => "Operator".toList
  | conditional => "Conditional".toList
  | loop => "Loop".toList
  | assignment => "Assignment".toList
  | number => "Number".toList
  | identifier => "Variable".toList
  | endMark mark => [mark.char]
  | unknown => "Unknown Token".toList

end Category

end LineGrammar
