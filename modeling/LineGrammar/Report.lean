import LineGrammar.Judgement
import LineGrammar.Text.Lines

/-! The report on one line, and the reports on a whole text. Lines are judged on their own, so
a defect never touches another line. -/

namespace LineGrammar

inductive Verdict where
  | blank
  | accepted (kind : Kind)
  | rejected (defect : Defect)
deriving DecidableEq, Repr

def Verdict.ofStatement (s : Statement) : Verdict :=
  match s.judge with
  | .ok kind => .accepted kind
  | .error defect => .rejected defect

structure Report where
  line : Nat
  text : Text
  verdict : Verdict
deriving DecidableEq, Repr

namespace Report

def ofLine (line : Nat) (text : Text) : Report :=
  ⟨line, text, ((Statement.ofLine? line text).map Verdict.ofStatement).getD .blank⟩

def ofText (t : Text) : List Report :=
  (t.lines.zipIdx 1).map fun (text, line) => ofLine line text

def isRejected (r : Report) : Bool :=
  match r.verdict with
  | .rejected _ => true
  | _ => false

/-- The output line: the text itself, behind the message of its defect if there is one. -/
def render (r : Report) : Text :=
  match r.verdict with
  | .rejected defect => "Error: ".toList ++ defect.message ++ " in line ".toList ++ r.text
  | _ => r.text

end Report

end LineGrammar
