import LineGrammar.Proofs.Rendering

/-! How long reading can go on. Each pull uses up a line feed or an end of input, except for one
that finds what lies behind the last of them. So refills bound the pulls before there are only ends,
and with them the rounds of a session and the lines that it writes. -/

namespace LineGrammar

/-- The places in a refill where a read may stop and later ones go on. -/
def Refill.stops : Refill → Nat
  | chunk bytes => bytes.count lineFeed
  | endOfInput => 1
  | failure _ | interruption => 0

theorem Refill.sum_stops (refills : List Refill) :
    (refills.map stops).sum =
      (refills.flatMap bytes).count lineFeed + refills.count .endOfInput := by
  induction refills with
  | nil => rfl
  | cons refill later ih =>
    rw [List.map_cons, List.sum_cons, ih, List.flatMap_cons, List.count_append, List.count_cons]
    cases refill <;> simp [stops, bytes]
    all_goals omega

namespace Reader

def stops (r : Reader) : Nat :=
  r.buffer.count lineFeed + (r.refills.map Refill.stops).sum

theorem stops_of_firstLine? {buffer line rest : Bytes} (h : firstLine? buffer = some (line, rest))
    (refills : List Refill) : stops ⟨rest, refills⟩ < stops ⟨buffer, refills⟩ := by
  obtain ⟨x, _, _, rfl⟩ := firstLine?_eq_some_iff.mp h
  simp only [stops, List.count_append, List.count_cons_self]
  omega

/-- A read passes a stop, or leaves nothing to read, or fails. -/
theorem stops_readRest (taken buffer : Bytes) (refills : List Refill) :
    (readRest taken buffer refills).2.stops < stops ⟨buffer, refills⟩ ∨
      (readRest taken buffer refills).2 = ⟨[], []⟩ ∨
      ∃ fault, (readRest taken buffer refills).1 = .failed fault := by
  fun_induction readRest taken buffer refills with
  | case1 refills taken buffer line rest hb => exact .inl (stops_of_firstLine? hb refills)
  | case2 => exact .inr (.inl rfl)
  | case3 taken buffer hb bytes later ih =>
    have hle : stops ⟨bytes, later⟩ ≤ stops ⟨buffer, .chunk bytes :: later⟩ := by
      simp [stops, Refill.stops]
    exact ih.imp_left fun hlt => hlt.trans_le hle
  | case4 taken buffer hb later =>
    left
    simp only [stops, Refill.stops, List.map_cons, List.sum_cons, List.count_nil]
    omega
  | case5 taken buffer hb message later => exact .inr (.inr ⟨_, rfl⟩)
  | case6 taken buffer hb later ih =>
    have hle : stops ⟨[], later⟩ ≤ stops ⟨buffer, .interruption :: later⟩ := by
      simp [stops, Refill.stops]
    exact ih.imp_left fun hlt => hlt.trans_le hle

end Reader

/-- A sink takes the front of what is written to it. -/
theorem Sink.write_isPrefix (s : Sink) (bytes : Bytes) : (s.write bytes).1 <+: bytes := by
  rw [write]
  split
  · exact List.prefix_rfl
  · split
    · exact List.prefix_rfl
    · exact List.take_prefix _ _

namespace ReportStream

/-- How many pulls there may be before all of them find an end. One is for what lies behind the last
stop: a line without a line feed, a failure, or nothing. -/
def remaining (s : ReportStream) : Nat :=
  if s.failed = true ∨ s.reader = ⟨[], []⟩ then 0 else s.reader.stops + 1

theorem remaining_le (s : ReportStream) : s.remaining ≤ s.reader.stops + 1 := by
  rw [remaining]
  split <;> omega

theorem remaining_eq_zero_iff {s : ReportStream} :
    s.remaining = 0 ↔ s.failed = true ∨ s.reader = ⟨[], []⟩ := by
  rw [remaining]
  split <;> simp_all

theorem next_of_remaining_eq_zero {s : ReportStream} (h : s.remaining = 0) :
    s.next = (none, s) := by
  obtain ⟨reader, line, failed⟩ := s
  cases failed with
  | true => rfl
  | false =>
    obtain rfl : reader = ⟨[], []⟩ := by simpa using remaining_eq_zero_iff.mp h
    exact next_of_ended rfl (Reader.readRest_nil rfl)

/-- With fewer stops to come fewer pulls are left, and none if nothing is left to read. -/
theorem remaining_lt {later : Reader} {n : Nat} (h : later.stops < n ∨ later = ⟨[], []⟩)
    (line : Nat) : remaining ⟨later, line, false⟩ < n + 1 := by
  rcases h with hlt | hend
  · have hle : remaining ⟨later, line, false⟩ ≤ later.stops + 1 := remaining_le _
    omega
  · rw [remaining_eq_zero_iff.mpr (.inr hend)]
    exact Nat.succ_pos n

theorem remaining_next_lt {s : ReportStream} (h : s.remaining ≠ 0) :
    s.next.2.remaining < s.remaining := by
  obtain ⟨reader, line, failed⟩ := s
  have hn := mt remaining_eq_zero_iff.mpr h
  obtain rfl : failed = false := by simpa using fun hf => hn (.inl hf)
  have hs : remaining ⟨reader, line, false⟩ = reader.stops + 1 := if_neg hn
  have hread : reader.readLine.2.stops < reader.stops ∨ reader.readLine.2 = ⟨[], []⟩ ∨
      ∃ fault, reader.readLine.1 = .failed fault :=
    Reader.stops_readRest [] reader.buffer reader.refills
  rw [hs]
  cases hr : reader.readLine with
  | mk read later =>
    rw [hr] at hread
    cases read with
    | line bytes =>
      rw [next_of_line rfl hr]
      exact remaining_lt (by simpa using hread) (line + 1)
    | ended =>
      rw [next_of_ended rfl hr]
      exact remaining_lt (by simpa using hread) line
    | failed fault =>
      rw [next_of_failed rfl hr]
      simp [remaining]

/-- Behind the last pull that is counted there are only ends. -/
theorem drop_items {s : ReportStream} {m : Nat} (h : s.remaining ≤ m) (n : Nat) :
    (s.items (m + n)).drop m = List.replicate n none := by
  induction m generalizing s with
  | zero =>
    have hnext := next_of_remaining_eq_zero (Nat.le_zero.mp h)
    rw [Nat.zero_add, List.drop_zero, items_of_next_eq_self hnext]
  | succ m ih =>
    have hle : s.next.2.remaining ≤ m := by
      by_cases hz : s.remaining = 0
      · rw [next_of_remaining_eq_zero hz, hz]
        exact Nat.zero_le m
      · have hlt := remaining_next_lt hz
        omega
    rw [Nat.add_right_comm, items, List.drop_succ_cons, ih hle]

theorem length_untilEnd_le {s : ReportStream} {m : Nat} (h : s.remaining ≤ m) :
    s.untilEnd.length ≤ m := by
  induction m generalizing s with
  | zero =>
    have hnext := next_of_remaining_eq_zero (Nat.le_zero.mp h)
    rw [untilEnd_of_none (congrArg Prod.fst hnext), List.length_nil]
  | succ m ih =>
    cases hi : s.next.1 with
    | none => rw [untilEnd_of_none hi]; exact Nat.zero_le _
    | some item =>
      have hz : s.remaining ≠ 0 := fun hz => by simp [next_of_remaining_eq_zero hz] at hi
      have hlt := remaining_next_lt hz
      have hlen := ih (s := s.next.2) (by omega)
      rw [untilEnd_of_some hi, List.length_cons]
      omega

end ReportStream

namespace Session

/-- The session over a stream if it comes to its end within so many pulls. A report is written
before the next pull. -/
def within : Nat → Sink → Tally → ReportStream → Option Session
  | 0, _, _, _ => none
  | pulls + 1, sink, tally, s =>
    match s.next.1 with
    | none => some ⟨[], sink.flush.map fun _ => tally⟩
    | some (.error fault) => some ⟨[], .error fault⟩
    | some (.ok report) =>
      match sink.write report.outputLine with
      | (taken, .error fault) => some ⟨taken, .error fault⟩
      | (taken, .ok sink) =>
        (within pulls sink (tally.add report.verdict) s.next.2).map (behind taken)

theorem within_eq_some {s : ReportStream} {pulls : Nat} (h : s.untilEnd.length < pulls)
    (sink : Sink) (tally : Tally) :
    within pulls sink tally s = some (deliver sink tally s.untilEnd) := by
  induction pulls generalizing s sink tally with
  | zero => cases h
  | succ pulls ih =>
    rw [within]
    cases hi : s.next.1 with
    | none => rw [ReportStream.untilEnd_of_none hi]; rfl
    | some item =>
      have hu := ReportStream.untilEnd_of_some hi
      rw [hu, List.length_cons] at h
      rw [hu]
      cases item with
      | error fault => rfl
      | ok report =>
        cases hw : sink.write report.outputLine with
        | mk taken result =>
          cases result with
          | error fault => simp only [deliver, hw]
          | ok later =>
            have hrest := ih (by omega : s.next.2.untilEnd.length < pulls) later
              (tally.add report.verdict)
            simp only [deliver, hw, hrest]
            rfl

/-- Nothing is written but the output lines of reports, in order, up to where the sink is full. -/
theorem output_deliver_isPrefix (sink : Sink) (tally : Tally) (items : List (Except Fault Report)) :
    (deliver sink tally items).output <+:
      (items.filterMap Except.toOption).flatMap Report.outputLine := by
  induction items generalizing sink tally with
  | nil => exact List.nil_prefix
  | cons item items ih =>
    cases item with
    | error fault => exact List.nil_prefix
    | ok report =>
      have hcons : (Except.ok report :: items).filterMap Except.toOption =
          report :: items.filterMap Except.toOption := rfl
      rw [hcons, List.flatMap_cons, deliver]
      split
      · next taken fault hw =>
        have htaken := sink.write_isPrefix report.outputLine
        rw [hw] at htaken
        exact htaken.trans (List.prefix_append _ _)
      · next taken later hw =>
        obtain rfl := Sink.write_of_ok hw
        exact (List.prefix_append_right_inj _).mpr (ih later _)

end Session

theorem filterMap_untilEnd_ofRefills (refills : List Refill) :
    (ReportStream.ofRefills refills).untilEnd.filterMap Except.toOption =
      Refill.reports refills := by
  have hok (reports : List Report) :
      (reports.map (Except.ok : Report → Except Fault Report)).filterMap Except.toOption =
        reports := by
    rw [List.filterMap_map]
    exact List.filterMap_some
  rcases ReportStream.untilEnd_ofRefills refills with hu | ⟨message, hu⟩
  · rw [hu, hok]
  · rw [hu, List.filterMap_append, hok]
    exact List.append_nil _

theorem count_lineFeed_outputLines {line : Nat} {texts : List Text}
    (h : ∀ text ∈ texts, '\n' ∉ text) :
    ((reportsFrom line texts).flatMap Report.outputLine).count lineFeed = texts.length := by
  induction texts generalizing line with
  | nil => rfl
  | cons text texts ih =>
    have hn : lineFeed ∉ Utf8.encode (Report.ofLine line text).render :=
      lineFeed_not_mem_encode (newline_not_mem_render (h text (by simp)))
    rw [reportsFrom_cons, List.flatMap_cons, List.count_append, ih fun t ht => h t (by simp [ht]),
      Report.outputLine, List.count_append, List.count_eq_zero_of_not_mem hn, List.length_cons]
    simp only [List.count_singleton_self]
    omega

theorem ReportStream.remaining_ofRefills_le (refills : List Refill) :
    (ofRefills refills).remaining ≤
      (refills.flatMap Refill.bytes).count lineFeed + refills.count .endOfInput + 1 := by
  have hle := (ofRefills refills).remaining_le
  have hstops : (ofRefills refills).reader.stops = (refills.map Refill.stops).sum := by
    simp [ofRefills, Reader.ofRefills, Reader.stops]
  rwa [hstops, Refill.sum_stops] at hle

/-- Reading comes to an end, wherever it fails or is interrupted: behind one pull for each line feed
and each end of input among the refills, and one more, there are only ends. So a session is over
with the pull behind them at the latest, whatever the sink takes, and writes no more lines. -/
theorem ofRefills_ends (refills : List Refill) :
    let bound := (refills.flatMap Refill.bytes).count lineFeed + refills.count .endOfInput + 1
    (∀ n, ((ReportStream.ofRefills refills).items (bound + n)).drop bound =
      List.replicate n none) ∧
    ∀ sink,
      let session := Session.ofRefills refills sink
      Session.within (bound + 1) sink .zero (.ofRefills refills) = some session ∧
      session.output <+: (Refill.reports refills).flatMap Report.outputLine ∧
      (Refill.reports refills).length ≤ bound ∧ session.output.count lineFeed ≤ bound := by
  intro bound
  have hbound := ReportStream.remaining_ofRefills_le refills
  have hlength := ReportStream.length_untilEnd_le hbound
  refine ⟨ReportStream.drop_items hbound, fun sink => ⟨?_, ?_⟩⟩
  · exact Session.within_eq_some (Nat.lt_succ_of_le hlength) sink .zero
  · have hreports := filterMap_untilEnd_ofRefills refills
    have hfew : (Refill.reports refills).length ≤ bound := by
      rw [← hreports]
      exact (List.length_filterMap_le _ _).trans hlength
    have hfront := Session.output_deliver_isPrefix sink .zero
      (ReportStream.ofRefills refills).untilEnd
    rw [hreports] at hfront
    refine ⟨hfront, hfew, (hfront.sublist.count_le lineFeed).trans ?_⟩
    rw [Refill.reports, count_lineFeed_outputLines fun _ => newline_not_mem_texts]
    rwa [Refill.reports, length_reportsFrom] at hfew

/-- As many pulls can find something: the end of input closes one line, and another one is left. -/
example : ((ReportStream.ofRefills [.chunk [120], .endOfInput, .chunk [59]]).items 2).all
    (·.isSome) = true := by decide

end LineGrammar
