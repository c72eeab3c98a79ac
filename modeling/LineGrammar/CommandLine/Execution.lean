import LineGrammar.CommandLine.Arguments
import LineGrammar.CommandLine.Directory
import LineGrammar.Logged

/-! What an invocation does: which bytes it checks, what it writes, and how it exits. Rejected
lines are no failure. -/

namespace LineGrammar

structure Transcript where
  exitCode : Nat
  output : Bytes
  notes : List Text
deriving DecidableEq, Repr

/-- The advice on wrong usage is left to the shell around the program. -/
inductive Reply where
  | misuse
  | transcript (t : Transcript)
deriving DecidableEq, Repr

def versionText : Text :=
  "linecheck 0.1.0\n".toList

def helpText : Text :=
  ("A static syntax checker for a line-oriented scripting notation.\n" ++
    "\n" ++
    "Usage: linecheck [OPTIONS] <CONTENTS>\n" ++
    "\n" ++
    "Arguments:\n" ++
    "  <CONTENTS>  \n" ++
    "\n" ++
    "Options:\n" ++
    "  -f, --file     Tells linecheck to read the file named by `contents` instead of checking `contents` itself. `-` reads standard input\n" ++
    "  -s, --summary  Prints how many lines were accepted and rejected once the run is over\n" ++
    "  -h, --help     Print help\n" ++
    "  -V, --version  Print version\n").toList

inductive Source where
  | operand (text : Text)
  | standardInput
  | file (path : Text)
deriving DecidableEq, Repr

def Invocation.source (i : Invocation) : Source :=
  if !i.readsFile then .operand i.contents
  else if i.contents = ['-'] then .standardInput
  else .file i.contents

namespace Transcript

/-- What stands on standard error: each note ends with a line feed, and may hold others. -/
def errorText (t : Transcript) : Text :=
  t.notes.flatMap (· ++ ['\n'])

def fileMissing (path : Text) : Transcript :=
  ⟨1, [], ["Failed to read the input file '".toList ++ path ++
    "'. Perhaps this file does not exist?".toList]⟩

def ofRefills (summarizes : Bool) (verbosity : Verbosity) (refills : List Refill) : Transcript :=
  let session := Logged.session verbosity .unlimited .zero (.ofRefills refills)
  let log := session.events.map LogEvent.render
  match session.value.result with
  | .ok tally => ⟨0, session.value.output, log ++ if summarizes then [tally.render] else []⟩
  | .error fault => ⟨1, session.value.output, log ++ [fault.message]⟩

end Transcript

/-- A directory can be opened, but not read. -/
def Entry.refills : Entry → List Refill
  | .file content => [.chunk content]
  | .directory => [.failure "Is a directory (os error 21)".toList]

/-- What an invocation finds at its source; nothing if there is no such file. -/
def Source.refills? (input : Bytes) (files : Directory) : Source → Option (List Refill)
  | .operand text => some [.chunk (Utf8.encode text)]
  | .standardInput => some [.chunk input]
  | .file path => (files.find? path).map Entry.refills

def Detour.reply : Detour → Reply
  | .help => .transcript ⟨0, Utf8.encode helpText, []⟩
  | .version => .transcript ⟨0, Utf8.encode versionText, []⟩
  | .misuse => .misuse

def Invocation.reply (i : Invocation) (verbosity : Verbosity) : Option (List Refill) → Reply
  | some refills => .transcript (.ofRefills i.summarizes verbosity refills)
  | none => .transcript (.fileMissing i.contents)

def execute (arguments : List Text) (input : Bytes) (files : Directory) (verbosity : Verbosity) :
    Reply :=
  match Invocation.ofArguments arguments with
  | .ok i => i.reply verbosity (i.source.refills? input files)
  | .error detour => detour.reply

end LineGrammar
