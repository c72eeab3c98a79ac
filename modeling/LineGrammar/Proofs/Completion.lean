import LineGrammar.Proofs.InputLines
import LineGrammar.Proofs.Limits

/-! Sessions that go well. Nothing failed before the end of input, the sink took all that was
written, and output and tally are those of the reports on the lines that were read. -/

namespace LineGrammar

namespace Sink

/-- A sink takes all of these bytes, and flushing it behind them goes well. -/
structure Takes (s : Sink) (bytes : Bytes) : Prop where
  fits : ∀ room ∈ s.room, bytes.length ≤ room
  flushes : s.flushFails = false

theorem takes_append_iff {s : Sink} {bytes more : Bytes} :
    s.Takes (bytes ++ more) ↔ ∃ later, s.write bytes = (bytes, .ok later) ∧ later.Takes more := by
  obtain ⟨room, stalls, flushFails⟩ := s
  cases room with
  | none =>
    constructor
    · intro h
      exact ⟨_, rfl, by simp, h.flushes⟩
    · rintro ⟨later, hw, h⟩
      cases hw
      exact ⟨by simp, h.flushes⟩
  | some room =>
    constructor
    · intro h
      have hf := h.fits room rfl
      rw [List.length_append] at hf
      refine ⟨_, write_of_fits (by omega), ?_, h.flushes⟩
      intro left hl
      obtain rfl : room - bytes.length = left := by simpa using hl
      omega
    · rintro ⟨later, hw, h⟩
      by_cases hf : bytes.length ≤ room
      · rw [write_of_fits hf] at hw
        cases hw
        have hl := h.fits _ rfl
        refine ⟨?_, h.flushes⟩
        intro whole hr
        obtain rfl : room = whole := by simpa using hr
        rw [List.length_append]
        omega
      · simp [write_of_cut (by omega : room < bytes.length)] at hw

theorem write_of_ok {s later : Sink} {bytes taken : Bytes}
    (h : s.write bytes = (taken, .ok later)) : taken = bytes := by
  obtain ⟨room, stalls, flushFails⟩ := s
  cases room with
  | none =>
    cases h
    rfl
  | some room =>
    by_cases hf : bytes.length ≤ room
    · rw [write_of_fits hf] at h
      cases h
      rfl
    · simp [write_of_cut (by omega : room < bytes.length)] at h

theorem takes_nil_iff {s : Sink} : s.Takes [] ↔ s.flush = .ok () := by
  constructor
  · intro h
    simp [flush, h.flushes]
  · intro h
    refine ⟨by simp, ?_⟩
    by_contra hn
    simp [flush, hn] at h

end Sink

namespace Session

theorem deliver_of_takes {sink : Sink} {reports : List Report}
    (h : sink.Takes (reports.flatMap Report.outputLine)) (tally : Tally) :
    deliver sink tally (reports.map .ok) =
      ⟨reports.flatMap Report.outputLine, .ok (tally.addAll reports)⟩ := by
  induction reports generalizing sink tally with
  | nil =>
    have hf := Sink.takes_nil_iff.mp h
    rw [List.map_nil, deliver, hf]
    rfl
  | cons report reports ih =>
    obtain ⟨later, hw, ht⟩ := Sink.takes_append_iff.mp h
    rw [List.map_cons, deliver, hw]
    dsimp only
    rw [ih ht]
    rfl

/-- A session goes well if nothing failed before the end of input and the sink takes all output. -/
theorem exists_of_deliver_eq_ok {sink : Sink} {tally total : Tally}
    {items : List (Except Fault Report)} (h : (deliver sink tally items).result = .ok total) :
    ∃ reports : List Report, items = reports.map .ok ∧
      sink.Takes (reports.flatMap Report.outputLine) ∧ total = tally.addAll reports := by
  induction items generalizing sink tally with
  | nil =>
    rw [deliver] at h
    cases hf : sink.flush with
    | error fault => rw [hf] at h; cases h
    | ok done =>
      rw [hf] at h
      cases h
      exact ⟨[], rfl, Sink.takes_nil_iff.mpr hf, rfl⟩
  | cons item items ih =>
    cases item with
    | error fault => cases h
    | ok report =>
      rw [deliver] at h
      split at h
      · cases h
      · next taken later hw =>
        obtain rfl := Sink.write_of_ok hw
        obtain ⟨reports, rfl, ht, hr⟩ := ih h
        exact ⟨report :: reports, rfl, Sink.takes_append_iff.mpr ⟨later, hw, ht⟩, hr⟩

theorem ofRefills_of_takes {refills : List Refill} {sink : Sink}
    (hu : (ReportStream.ofRefills refills).untilEnd = (Refill.reports refills).map .ok)
    (h : sink.Takes ((Refill.reports refills).flatMap Report.outputLine)) :
    ofRefills refills sink = ⟨(Refill.reports refills).flatMap Report.outputLine,
      .ok (Tally.zero.addAll (Refill.reports refills))⟩ := by
  rw [ofRefills, hu, deliver_of_takes h]

/-- All about a session that goes well, from the lines that it reads. -/
theorem ofRefills_eq_of_ok {refills : List Refill} {sink : Sink} {tally : Tally}
    (h : (ofRefills refills sink).result = .ok tally) :
    (ReportStream.ofRefills refills).untilEnd = (Refill.reports refills).map .ok ∧
      sink.Takes ((Refill.reports refills).flatMap Report.outputLine) ∧
      tally = Tally.zero.addAll (Refill.reports refills) ∧
      (ofRefills refills sink).output = (Refill.reports refills).flatMap Report.outputLine := by
  obtain ⟨reports, hr, ht, hs⟩ := exists_of_deliver_eq_ok h
  have hok : Function.Injective (Except.ok : Report → Except Fault Report) :=
    fun _ _ he => Except.ok.inj he
  have hu : reports = Refill.reports refills := by
    rcases ReportStream.untilEnd_ofRefills refills with he | ⟨message, he⟩
    · exact hok.list_map (hr.symm.trans he)
    · have hm : (.error (.unreadable message) : Except Fault Report) ∈ reports.map .ok := by
        rw [← hr, he]
        simp
      obtain ⟨report, _, hc⟩ := List.mem_map.mp hm
      cases hc
  rw [hu] at hr ht hs
  exact ⟨hr, ht, hs, congrArg output (ofRefills_of_takes hr ht)⟩

end Session

theorem untilEnd_chunk_reports (bytes : Bytes) :
    (ReportStream.ofRefills [.chunk bytes]).untilEnd =
      (Refill.reports [.chunk bytes]).map .ok := by
  rw [untilEnd_chunk, Refill.reports, inputLines_chunk]

theorem Session.ofRefills_chunk {bytes : Bytes} {sink : Sink}
    (h : sink.Takes ((Refill.reports [.chunk bytes]).flatMap Report.outputLine)) :
    ofRefills [.chunk bytes] sink = ⟨(Refill.reports [.chunk bytes]).flatMap Report.outputLine,
      .ok (Tally.zero.addAll (Refill.reports [.chunk bytes]))⟩ :=
  ofRefills_of_takes (untilEnd_chunk_reports bytes) h

theorem Sink.takes_unlimited (bytes : Bytes) : Sink.unlimited.Takes bytes :=
  ⟨by simp [unlimited], rfl⟩

end LineGrammar
