import LineGrammar.Stream.Fault
import LineGrammar.Text.Utf8

/-! Where output goes. A sink may take only so many bytes altogether; what is written beyond
them is cut, and the write reports it. -/

namespace LineGrammar

structure Sink where
  /-- How many bytes it still takes; no number means all. -/
  room : Option Nat
  /-- Whether it takes nothing in silence when full, rather than failing. -/
  stalls : Bool
  flushFails : Bool
deriving DecidableEq, Repr

namespace Sink

def unlimited : Sink :=
  ⟨none, false, false⟩

def exhausted (s : Sink) : Fault :=
  if s.stalls then .sinkStalled else .sinkFull

/-- The bytes that a sink takes, and the sink behind them if it takes them all. -/
def write (s : Sink) (bytes : Bytes) : Bytes × Except Fault Sink :=
  match s.room with
  | none => (bytes, .ok s)
  | some room =>
    if bytes.length ≤ room then (bytes, .ok { s with room := some (room - bytes.length) })
    else (bytes.take room, .error s.exhausted)

def flush (s : Sink) : Except Fault Unit :=
  if s.flushFails then .error .flushFailed else .ok ()

end Sink

end LineGrammar
