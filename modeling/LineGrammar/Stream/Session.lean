import LineGrammar.Stream.Reports
import LineGrammar.Stream.Sink
import LineGrammar.Tally

/-! A session writes one output line for each line it reads, up to the first end of input, and
counts the verdicts. It stops at the first fault; what is written stays written. The sink is
flushed only if nothing went wrong before. -/

namespace LineGrammar

structure Session where
  output : Bytes
  result : Except Fault Tally

def Report.outputLine (r : Report) : Bytes :=
  Utf8.encode r.render ++ [lineFeed]

namespace Session

def deliver (sink : Sink) (tally : Tally) : List (Except Fault Report) → Session
  | [] => ⟨[], sink.flush.map fun _ => tally⟩
  | .error fault :: _ => ⟨[], .error fault⟩
  | .ok report :: later =>
    match sink.write report.outputLine with
    | (taken, .error fault) => ⟨taken, .error fault⟩
    | (taken, .ok sink) =>
      let rest := deliver sink (tally.add report.verdict) later
      ⟨taken ++ rest.output, rest.result⟩

def ofRefills (refills : List Refill) (sink : Sink) : Session :=
  deliver sink .zero (ReportStream.ofRefills refills).untilEnd

end Session

end LineGrammar
