import LineGrammar.CommandLine.Execution

/-! The program: finds the arguments, the level of the log and the bytes to check, and prints
the reply. -/

namespace LineGrammar

def faultText : IO.Error → Text
  | .inappropriateType _ code details | .permissionDenied _ code details
  | .resourceVanished code details | .hardwareFault code details | .otherError code details =>
    details.toList ++ " (os error ".toList ++ Text.decimal code.toNat ++ ")".toList
  | e => e.toString.toList

/-- What a stream yields up to its end or its first failure. -/
partial def refillsOf (stream : IO.FS.Stream) (soFar : List Refill) : IO (List Refill) := do
  let found ←
    try
      pure (Refill.chunk (← stream.read 65536).toList)
    catch e => pure (Refill.failure (faultText e))
  match found with
  | .chunk [] => return soFar.reverse
  | .chunk bytes => refillsOf stream (.chunk bytes :: soFar)
  | failure => return (failure :: soFar).reverse

def Source.readAll? : Source → IO (Option (List Refill))
  | .operand text => return some [.chunk (Utf8.encode text)]
  | .standardInput => return some (← refillsOf (← IO.getStdin) [])
  | .file path => do
    let handle? ←
      try
        pure (some (← IO.FS.Handle.mk (String.ofList path) .read))
      catch _ => pure none
    match handle? with
    | some handle => return some (← refillsOf (IO.FS.Stream.ofHandle handle) [])
    | none => return none

def verbosityFromEnvironment : IO Verbosity := do
  return .ofSetting ((← IO.getEnv "RUST_LOG").map String.toList)

def Reply.print : Reply → IO UInt32
  | .misuse => do
    IO.eprintln "Usage: linecheck [OPTIONS] <CONTENTS>\n\nFor more information, try '--help'."
    return 2
  | .transcript t => do
    let output ← IO.getStdout
    output.write ⟨t.output.toArray⟩
    output.flush
    IO.eprint (String.ofList t.errorText)
    return t.exitCode.toUInt32

end LineGrammar

def main (arguments : List String) : IO UInt32 := do
  match LineGrammar.Invocation.ofArguments (arguments.map String.toList) with
  | .ok i => (i.reply (← LineGrammar.verbosityFromEnvironment) (← i.source.readAll?)).print
  | .error detour => detour.reply.print
