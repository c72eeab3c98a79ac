import LineGrammar.Text.Blank

/-! What can go wrong outside the text: reading, or writing to a sink that takes no more. -/

namespace LineGrammar

inductive Fault where
  | unreadable (message : Text)
  | sinkFull
  | sinkStalled
  | flushFailed
deriving DecidableEq, Repr

def Fault.message : Fault → Text
  | .unreadable message => message
  | .sinkFull => "sink full".toList
  | .sinkStalled => "failed to write whole buffer".toList
  | .flushFailed => "flush failed".toList

end LineGrammar
