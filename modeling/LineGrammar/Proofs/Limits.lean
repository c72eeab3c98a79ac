import LineGrammar.Proofs.Streaming
import LineGrammar.Stream.Session

/-! A sink that takes only so many bytes gets the front of what a sink without a limit gets, and
complains exactly if something is missing. -/

namespace LineGrammar

namespace Sink

variable {room : Nat} {stalls flushFails : Bool} {bytes : Bytes}

theorem write_of_fits (h : bytes.length ≤ room) :
    write ⟨some room, stalls, flushFails⟩ bytes =
      (bytes, .ok ⟨some (room - bytes.length), stalls, flushFails⟩) := by
  simp [write, h]

theorem write_of_cut (h : room < bytes.length) :
    write ⟨some room, stalls, flushFails⟩ bytes =
      (bytes.take room, .error (if stalls then .sinkStalled else .sinkFull)) := by
  have hn : ¬ bytes.length ≤ room := by omega
  simp [write, hn, exhausted]

end Sink

def Tally.addAll (t : Tally) (reports : List Report) : Tally :=
  reports.foldl (fun t r => t.add r.verdict) t

namespace Session

def behind (bytes : Bytes) (rest : Session) : Session :=
  ⟨bytes ++ rest.output, rest.result⟩

theorem behind_behind (front bytes : Bytes) (rest : Session) :
    (rest.behind bytes).behind front = rest.behind (front ++ bytes) := by
  rw [behind, behind, behind, List.append_assoc]

/-- What is left of a session if the sink takes only so many bytes. -/
def limited (full : Session) (room : Nat) (stalls flushFails : Bool) : Session :=
  ⟨full.output.take room,
    if room < full.output.length then .error (if stalls then .sinkStalled else .sinkFull)
    else
      match full.result with
      | .ok tally => if flushFails then .error .flushFailed else .ok tally
      | .error fault => .error fault⟩

theorem limited_eq_of_error {full : Session} {fault : Fault} (h : full.result = .error fault)
    (room : Nat) (stalls flushFails : Bool) :
    full.limited room stalls flushFails = full.limited room stalls (!flushFails) := by
  rw [limited, limited, h]

theorem deliver_ok_unlimited (tally : Tally) (report : Report)
    (later : List (Except Fault Report)) :
    deliver .unlimited tally (.ok report :: later) =
      (deliver .unlimited (tally.add report.verdict) later).behind report.outputLine :=
  rfl

theorem deliver_ok_of_fits {room : Nat} {stalls flushFails : Bool} {report : Report}
    (h : report.outputLine.length ≤ room) (tally : Tally) (later : List (Except Fault Report)) :
    deliver ⟨some room, stalls, flushFails⟩ tally (.ok report :: later) =
      (deliver ⟨some (room - report.outputLine.length), stalls, flushFails⟩
        (tally.add report.verdict) later).behind report.outputLine := by
  rw [deliver, Sink.write_of_fits h]
  rfl

theorem deliver_ok_of_cut {room : Nat} {stalls flushFails : Bool} {report : Report}
    (h : room < report.outputLine.length) (tally : Tally) (later : List (Except Fault Report)) :
    deliver ⟨some room, stalls, flushFails⟩ tally (.ok report :: later) =
      ⟨report.outputLine.take room, .error (if stalls then .sinkStalled else .sinkFull)⟩ := by
  rw [deliver, Sink.write_of_cut h]

theorem deliver_limited (room : Nat) (stalls flushFails : Bool) (tally : Tally)
    (items : List (Except Fault Report)) :
    deliver ⟨some room, stalls, flushFails⟩ tally items =
      (deliver .unlimited tally items).limited room stalls flushFails := by
  -- Each line that fits takes its length from the room, so the room is part of the induction.
  induction items generalizing room tally with
  | nil => cases flushFails <;> simp [deliver, limited, Sink.flush, Sink.unlimited, Except.map]
  | cons item later ih =>
    cases item with
    | error fault => simp [deliver, limited]
    | ok report =>
      rw [deliver_ok_unlimited]
      by_cases h : report.outputLine.length ≤ room
      · have hlt : ∀ n, room - report.outputLine.length < n ↔
            room < report.outputLine.length + n := fun n => by omega
        rw [deliver_ok_of_fits h, ih]
        simp only [limited, behind, List.length_append, hlt, List.take_append,
          List.take_of_length_le h]
      · have hc : room < report.outputLine.length := by omega
        have hl : ∀ bytes : Bytes, room < (report.outputLine ++ bytes).length :=
          fun bytes => by rw [List.length_append]; omega
        rw [deliver_ok_of_cut hc, limited, behind, List.take_append_of_le_length hc.le,
          if_pos (hl _)]

theorem deliver_unlimited_append (tally : Tally) (handed : List Report)
    (later : List (Except Fault Report)) :
    deliver .unlimited tally (handed.map .ok ++ later) =
      (deliver .unlimited (tally.addAll handed) later).behind
        (handed.flatMap Report.outputLine) := by
  induction handed generalizing tally with
  | nil => rfl
  | cons report handed ih =>
    rw [List.map_cons, List.cons_append, deliver_ok_unlimited, ih, behind_behind,
      List.flatMap_cons]
    rfl

theorem exists_ofRefills_unlimited (refills : List Refill) :
    ∃ handed : List Report,
      (ofRefills refills .unlimited).output = handed.flatMap Report.outputLine ∧
      (((ReportStream.ofRefills refills).untilEnd = handed.map .ok ∧
          (ofRefills refills .unlimited).result = .ok (Tally.zero.addAll handed)) ∨
        ∃ message, (ReportStream.ofRefills refills).untilEnd =
            handed.map .ok ++ [.error (.unreadable message)] ∧
          (ofRefills refills .unlimited).result = .error (.unreadable message)) := by
  obtain ⟨handed, he | ⟨message, he⟩⟩ :=
    ReportStream.exists_untilEnd_eq (Reader.ofRefills refills) 0
  · have hd := deliver_unlimited_append .zero handed []
    rw [List.append_nil, ← he] at hd
    refine ⟨handed, ?_, .inl ⟨he, ?_⟩⟩
    · exact (congrArg Session.output hd).trans (List.append_nil _)
    · exact congrArg Session.result hd
  · have hd := deliver_unlimited_append .zero handed [.error (.unreadable message)]
    rw [← he] at hd
    refine ⟨handed, ?_, .inr ⟨message, he, ?_⟩⟩
    · exact (congrArg Session.output hd).trans (List.append_nil _)
    · exact congrArg Session.result hd

end Session

/-- A session with a limited sink writes the front of what it writes without a limit. It reports
the sink if something is missing, the failure to read otherwise, and flushes only without one. -/
theorem ofRefills_limited (refills : List Refill) (room : Nat) (stalls flushFails : Bool) :
    let full := Session.ofRefills refills .unlimited
    let session := Session.ofRefills refills ⟨some room, stalls, flushFails⟩
    session.output = full.output.take room ∧
    session.result =
      (if room < full.output.length then .error (if stalls then .sinkStalled else .sinkFull)
      else
        match full.result with
        | .ok tally => if flushFails then .error .flushFailed else .ok tally
        | .error fault => .error fault) ∧
    ∃ handed : List Report,
      full.output = handed.flatMap (fun r => Utf8.encode r.render ++ [lineFeed]) ∧
      (((ReportStream.ofRefills refills).untilEnd = handed.map .ok ∧
          full.result = .ok (Tally.zero.addAll handed)) ∨
        ∃ message, (ReportStream.ofRefills refills).untilEnd =
            handed.map .ok ++ [.error (.unreadable message)] ∧
          full.result = .error (.unreadable message) ∧
          session = Session.ofRefills refills ⟨some room, stalls, !flushFails⟩) := by
  intro full session
  have hs : ∀ flushFails, Session.ofRefills refills ⟨some room, stalls, flushFails⟩ =
      full.limited room stalls flushFails :=
    fun _ => Session.deliver_limited room stalls _ .zero _
  refine ⟨congrArg Session.output (hs flushFails), congrArg Session.result (hs flushFails), ?_⟩
  obtain ⟨handed, ho, he | ⟨message, he, hr⟩⟩ := Session.exists_ofRefills_unlimited refills
  · exact ⟨handed, ho, .inl he⟩
  · refine ⟨handed, ho, .inr ⟨message, he, hr, ?_⟩⟩
    exact (hs _).trans ((Session.limited_eq_of_error hr _ _ _).trans (hs _).symm)

end LineGrammar
