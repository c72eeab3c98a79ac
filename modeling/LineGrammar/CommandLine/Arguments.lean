import LineGrammar.Text.Blank

/-! The arguments of the command line: flags, and one operand that says what to check. They
are read from left to right, and the first one that settles the matter does so. -/

namespace LineGrammar

inductive Flag where
  | file
  | summary
  | help
  | version
deriving DecidableEq, Repr

namespace Flag

def ofLetter? (letter : Char) : Option Flag :=
  [('f', file), ('s', summary), ('h', help), ('V', version)].lookup letter

/-- Names are neither abbreviated nor given a value. -/
def ofName? (name : Text) : Option Flag :=
  [("file".toList, file), ("summary".toList, summary), ("help".toList, help),
    ("version".toList, version)].lookup name

end Flag

structure Invocation where
  readsFile : Bool
  summarizes : Bool
  contents : Text
deriving DecidableEq, Repr

inductive Detour where
  | help
  | version
  | misuse
deriving DecidableEq, Repr

structure Draft where
  readsFile : Bool := false
  summarizes : Bool := false
  contents : Option Text := none
  flagsEnded : Bool := false
deriving DecidableEq, Repr

namespace Draft

/-- No flag may be given twice. -/
def raise (d : Draft) : Option Flag → Except Detour Draft
  | some .file => if d.readsFile then .error .misuse else .ok { d with readsFile := true }
  | some .summary => if d.summarizes then .error .misuse else .ok { d with summarizes := true }
  | some .help => .error .help
  | some .version => .error .version
  | none => .error .misuse

def fill (d : Draft) (operand : Text) : Except Detour Draft :=
  if d.contents.isSome then .error .misuse else .ok { d with contents := some operand }

/-- Behind `--` every argument is an operand, and a lone `-` always is. -/
def read (d : Draft) (argument : Text) : Except Detour Draft :=
  if d.flagsEnded then d.fill argument
  else
    match argument with
    | ['-', '-'] => .ok { d with flagsEnded := true }
    | '-' :: '-' :: name => d.raise (Flag.ofName? name)
    | '-' :: letter :: letters =>
      (letter :: letters).foldlM (fun draft letter => draft.raise (Flag.ofLetter? letter)) d
    | operand => d.fill operand

def finish (d : Draft) : Except Detour Invocation :=
  match d.contents with
  | some contents => .ok ⟨d.readsFile, d.summarizes, contents⟩
  | none => .error .misuse

end Draft

def Invocation.ofArguments (arguments : List Text) : Except Detour Invocation := do
  let draft ← arguments.foldlM Draft.read {}
  draft.finish

end LineGrammar
