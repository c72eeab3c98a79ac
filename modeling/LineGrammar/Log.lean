import LineGrammar.Tally
import LineGrammar.Text.Quoted

/-! The events of a log, how detailed they are, and how they are written. -/

namespace LineGrammar

inductive Level where
  | error
  | warn
  | info
  | debug
  | trace
deriving DecidableEq, Repr

namespace Level

def rank : Level → Nat
  | error => 1
  | warn => 2
  | info => 3
  | debug => 4
  | trace => 5

def label : Level → Text
  | error => "ERROR".toList
  | warn => "WARN".toList
  | info => "INFO".toList
  | debug => "DEBUG".toList
  | trace => "TRACE".toList

end Level

/-- The most detailed level that is written, if any is. -/
abbrev Verbosity := Option Level

namespace Verbosity

def shows (v : Verbosity) (level : Level) : Bool :=
  v.any fun most => decide (level.rank ≤ most.rank)

/-- Warnings are the most detailed level where none is asked for. -/
def default : Verbosity :=
  some .warn

def ofName? (name : Text) : Option Verbosity :=
  [("off".toList, none), ("error".toList, some .error), ("warn".toList, some .warn),
    ("info".toList, some .info), ("debug".toList, some .debug),
    ("trace".toList, some .trace)].lookup name

/-- A setting that is missing or names no level leaves the default. -/
def ofSetting (setting? : Option Text) : Verbosity :=
  (setting?.bind ofName?).getD default

end Verbosity

inductive LogEvent where
  | token (token : Token)
  | unrecognized (line : Nat) (categories : List Category)
  | verdict (line : Nat) (verdict : Verdict)
  | finished (tally : Tally)
deriving DecidableEq, Repr

namespace LogEvent

def level : LogEvent → Level
  | token _ => .trace
  | unrecognized _ _ | verdict _ _ => .debug
  | finished _ => .info

end LogEvent

def Category.logName : Category → Text
  | .openGroup => "OpenParen".toList
  | .closeGroup => "CloseParen".toList
  | .endMark .semicolon => "Terminator(Semicolon)".toList
  | .endMark .colon => "Terminator(Colon)".toList
  | .unknown => "UnknownToken".toList
  | c => c.label

namespace LogEvent

def origin : LogEvent → Text
  | token _ => "linecheck::checker::lexer".toList
  | unrecognized _ _ => "linecheck::checker::validator::statement".toList
  | verdict _ _ | finished _ => "linecheck::checker::driver".toList

def commaSeparated (names : List Text) : Text :=
  (names.intersperse ", ".toList).flatten

def description : LogEvent → Text
  | token t =>
    "classified token word=".toList ++ t.text.quoted ++ " category=".toList ++ t.category.label
  | unrecognized line categories =>
    "unrecognized statement line=".toList ++ Text.decimal line ++ " categories=[".toList ++
      commaSeparated (categories.map Category.logName) ++ "]".toList
  | verdict line .blank => "blank line line=".toList ++ Text.decimal line
  | verdict line (.accepted kind) =>
    "accepted line=".toList ++ Text.decimal line ++ " kind=".toList ++ kind.label
  | verdict line (.rejected defect) =>
    "rejected line=".toList ++ Text.decimal line ++ " error=".toList ++ defect.message ++
      " detail=".toList ++ defect.explanation
  | finished tally =>
    "finished checked=".toList ++ Text.decimal tally.checked ++ " accepted=".toList ++
      Text.decimal tally.accepted ++ " rejected=".toList ++ Text.decimal tally.rejected ++
      " blank=".toList ++ Text.decimal tally.blank

def render (e : LogEvent) : Text :=
  e.level.label ++ " run: ".toList ++ e.origin ++ ": ".toList ++ e.description

end LogEvent

end LineGrammar
