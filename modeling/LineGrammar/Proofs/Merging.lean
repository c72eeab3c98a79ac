import LineGrammar.Proofs.Streaming
import LineGrammar.Stream.Session

/-! Where the bytes of a stream are cut into chunks, and where reading is interrupted, cannot be
seen from what is read. -/

namespace LineGrammar

namespace Refill

def prepend (bytes : Bytes) : List Refill → List Refill
  | .chunk more :: later => .chunk (bytes ++ more) :: later
  | later => .chunk bytes :: later

/-- Interruptions are dropped and neighbouring chunks are joined. -/
def merged : List Refill → List Refill
  | [] => []
  | .chunk bytes :: later => prepend bytes (merged later)
  | .endOfInput :: later => .endOfInput :: merged later
  | .failure message :: later => .failure message :: merged later
  | .interruption :: later => merged later

theorem prepend_prepend (front bytes : Bytes) (refills : List Refill) :
    prepend front (prepend bytes refills) = prepend (front ++ bytes) refills := by
  fun_cases prepend bytes refills with
  | case1 more later => simp [prepend]
  | case2 h => simp [prepend]

theorem exists_prepend_eq (refills : List Refill) :
    ∃ more later, ∀ bytes, prepend bytes refills = .chunk (bytes ++ more) :: later := by
  by_cases h : ∃ more later, refills = .chunk more :: later
  · obtain ⟨more, later, rfl⟩ := h
    exact ⟨more, later, fun _ => rfl⟩
  · refine ⟨[], refills, fun bytes => ?_⟩
    rw [List.append_nil, prepend]
    exact fun more later he => h ⟨more, later, he⟩

theorem merged_prepend (bytes : Bytes) (refills : List Refill) :
    merged (prepend bytes refills) = prepend bytes (merged refills) := by
  fun_cases prepend bytes refills with
  | case1 more later => rw [merged, merged, prepend_prepend]
  | case2 h => rfl

theorem merged_merged (refills : List Refill) : merged (merged refills) = merged refills := by
  fun_induction merged refills with
  | case1 => rfl
  | case2 bytes later ih => rw [merged_prepend, ih]
  | case3 later ih => rw [merged, ih]
  | case4 message later ih => rw [merged, ih]
  | case5 later ih => exact ih

end Refill

theorem firstLine?_append_of_some {bytes line rest : Bytes}
    (h : firstLine? bytes = some (line, rest)) (more : Bytes) :
    firstLine? (bytes ++ more) = some (line, rest ++ more) := by
  obtain ⟨x, hx, rfl, rfl⟩ := firstLine?_eq_some_iff.mp h
  rw [List.append_assoc, List.cons_append, firstLine?_append hx]

theorem firstLine?_append_of_none {bytes : Bytes} (h : firstLine? bytes = none) (more : Bytes) :
    firstLine? (bytes ++ more) =
      (firstLine? more).map fun (line, rest) => (bytes ++ line, rest) := by
  have hb := firstLine?_eq_none_iff.mp h
  cases hm : firstLine? more with
  | none =>
    have hn := firstLine?_eq_none_iff.mp hm
    exact firstLine?_of_none fun b hmem => (List.mem_append.mp hmem).elim (hb b) (hn b)
  | some cut =>
    obtain ⟨line, rest⟩ := cut
    obtain ⟨x, hx, rfl, rfl⟩ := firstLine?_eq_some_iff.mp hm
    have hall : ∀ b ∈ bytes ++ x, (b == lineFeed) = false :=
      fun b hmem => (List.mem_append.mp hmem).elim (hb b) (hx b)
    rw [← List.append_assoc, firstLine?_append hall, List.append_assoc]
    rfl

namespace Reader

/-- What is left to read: the buffer and the refills, merged. -/
def outlook (r : Reader) : List Refill :=
  Refill.prepend r.buffer (Refill.merged r.refills)

theorem readRest_eq_readLine {taken : Bytes} (h : firstLine? taken = none) (buffer : Bytes)
    (refills : List Refill) :
    readRest taken buffer refills = readLine ⟨taken ++ buffer, refills⟩ := by
  have ha := firstLine?_append_of_none h buffer
  cases hb : firstLine? buffer with
  | some cut =>
    rw [hb] at ha
    rw [readLine, readRest_line hb, readRest_line ha, List.nil_append]
  | none =>
    rw [hb] at ha
    rw [readLine]
    cases refills with
    | nil => rw [readRest_nil hb, readRest_nil ha, List.nil_append]
    | cons refill later =>
      cases refill with
      | chunk bytes => rw [readRest_chunk hb, readRest_chunk ha, List.nil_append]
      | endOfInput => rw [readRest_endOfInput hb, readRest_endOfInput ha, List.nil_append]
      | failure message => rw [readRest_failure hb, readRest_failure ha]
      | interruption =>
        rw [readRest_interruption hb, readRest_interruption ha, List.nil_append]

theorem outlook_merged (bytes : Bytes) (refills : List Refill) :
    outlook ⟨bytes, Refill.merged refills⟩ = outlook ⟨bytes, refills⟩ := by
  rw [outlook, outlook, Refill.merged_merged]

def reading (r : Reader) : LineRead × List Refill :=
  (r.readLine.1, r.readLine.2.outlook)

theorem reading_outlook_of_line {buffer line rest : Bytes}
    (h : firstLine? buffer = some (line, rest)) (refills : List Refill) :
    (ofRefills (outlook ⟨buffer, refills⟩)).reading = reading ⟨buffer, refills⟩ := by
  obtain ⟨more, later, hp⟩ := Refill.exists_prepend_eq (Refill.merged refills)
  have hm := Refill.merged_prepend rest (Refill.merged refills)
  rw [hp] at hm
  have ho : outlook ⟨rest ++ more, later⟩ = outlook ⟨rest, refills⟩ :=
    hm.trans (outlook_merged rest refills)
  rw [outlook, hp, reading, reading, readLine_chunk, readLine, readLine, readRest_line h,
    readRest_line (firstLine?_append_of_some h more), ho]

theorem reading_outlook (r : Reader) : (ofRefills r.outlook).reading = r.reading := by
  obtain ⟨buffer, refills⟩ := r
  induction refills generalizing buffer with
  | nil =>
    have ho : outlook ⟨buffer, []⟩ = [.chunk buffer] := rfl
    rw [ho, reading, readLine_chunk, reading]
  | cons refill later ih =>
    cases h : firstLine? buffer with
    | some cut => exact reading_outlook_of_line h (refill :: later)
    | none =>
      cases refill with
      -- A chunk moves into the buffer, which changes neither the line nor the outlook.
      | chunk bytes =>
        have hr : readLine ⟨buffer, .chunk bytes :: later⟩ = readLine ⟨buffer ++ bytes, later⟩ :=
          (readRest_chunk h).trans (readRest_eq_readLine h bytes later)
        have ho : outlook ⟨buffer, .chunk bytes :: later⟩ = outlook ⟨buffer ++ bytes, later⟩ :=
          Refill.prepend_prepend buffer bytes (Refill.merged later)
        rw [ho, ih, reading, reading, hr]
      | endOfInput =>
        have ho : outlook ⟨buffer, .endOfInput :: later⟩ =
            .chunk buffer :: .endOfInput :: Refill.merged later := rfl
        rw [ho, reading, reading, readLine_chunk, readLine, readLine, readRest_endOfInput h,
          readRest_endOfInput h, outlook_merged]
      | failure message =>
        have ho : outlook ⟨buffer, .failure message :: later⟩ =
            .chunk buffer :: .failure message :: Refill.merged later := rfl
        rw [ho, reading, reading, readLine_chunk, readLine, readLine, readRest_failure h,
          readRest_failure h, outlook_merged]
      | interruption =>
        have hr : readLine ⟨buffer, .interruption :: later⟩ = readLine ⟨buffer ++ [], later⟩ :=
          (readRest_interruption h).trans (readRest_eq_readLine h [] later)
        have ho : outlook ⟨buffer, .interruption :: later⟩ = outlook ⟨buffer, later⟩ := rfl
        rw [ho, ih, reading, reading, hr, List.append_nil]

theorem reading_eq_of_outlook_eq {r r' : Reader} (h : r.outlook = r'.outlook) :
    r.reading = r'.reading := by
  rw [← reading_outlook r, h, reading_outlook]

end Reader

namespace ReportStream

structure Alike (s s' : ReportStream) : Prop where
  outlook : s.reader.outlook = s'.reader.outlook
  line : s.line = s'.line
  failed : s.failed = s'.failed

theorem Alike.next {s s' : ReportStream} (h : Alike s s') :
    s.next.1 = s'.next.1 ∧ Alike s.next.2 s'.next.2 := by
  obtain ⟨reader, line, failed⟩ := s
  obtain ⟨reader', line', failed'⟩ := s'
  obtain ⟨ho, rfl, rfl⟩ := h
  cases failed with
  | true => exact ⟨rfl, ho, rfl, rfl⟩
  | false =>
    have hr := Reader.reading_eq_of_outlook_eq ho
    simp only [Reader.reading, Prod.mk.injEq] at hr
    cases hc : reader.readLine with
    | mk read later =>
      cases hc' : reader'.readLine with
      | mk read' later' =>
        rw [hc, hc'] at hr
        obtain ⟨rfl, hl⟩ := hr
        cases read with
        | line bytes =>
          rw [next_of_line rfl hc, next_of_line rfl hc']
          exact ⟨rfl, hl, rfl, rfl⟩
        | ended =>
          rw [next_of_ended rfl hc, next_of_ended rfl hc']
          exact ⟨rfl, hl, rfl, rfl⟩
        | failed fault =>
          rw [next_of_failed rfl hc, next_of_failed rfl hc']
          exact ⟨rfl, hl, rfl, rfl⟩

theorem Alike.items_eq {s s' : ReportStream} (h : Alike s s') (n : Nat) :
    s.items n = s'.items n := by
  induction n generalizing s s' with
  | zero => rfl
  | succ n ih => rw [items, items, h.next.1, ih h.next.2]

theorem Alike.untilEnd_eq {s s' : ReportStream} (h : Alike s s') : s.untilEnd = s'.untilEnd := by
  induction hn : s.reader.size using Nat.strongRecOn generalizing s s' with
  | ind n ih =>
    cases hs : s.next.1 with
    | none => rw [untilEnd_of_none hs, untilEnd_of_none (h.next.1.symm.trans hs)]
    | some item =>
      have hlt : s.next.2.reader.size < n := hn ▸ size_next_lt (by simp [hs])
      rw [untilEnd_of_some hs, untilEnd_of_some (h.next.1.symm.trans hs), ih _ hlt h.next.2 rfl]

theorem alike_ofRefills {a b : List Refill} (h : Refill.merged a = Refill.merged b) :
    Alike (ofRefills a) (ofRefills b) :=
  ⟨congrArg (Refill.prepend []) h, rfl, rfl⟩

end ReportStream

/-- A stream is read alike however it is cut into chunks and wherever it is interrupted. -/
theorem ofRefills_eq_of_merged_eq {a b : List Refill} (h : Refill.merged a = Refill.merged b) :
    (∀ n, (ReportStream.ofRefills a).items n = (ReportStream.ofRefills b).items n) ∧
      ∀ sink, Session.ofRefills a sink = Session.ofRefills b sink := by
  have hs := ReportStream.alike_ofRefills h
  refine ⟨hs.items_eq, fun sink => ?_⟩
  rw [Session.ofRefills, Session.ofRefills, hs.untilEnd_eq]

theorem ofRefills_eq_of_cut_character :
    Refill.merged [.chunk [0xC3], .interruption, .chunk [0xA9, 13], .chunk [10], .endOfInput] =
      Refill.merged [.chunk [0xC3, 0xA9, 13, 10], .interruption, .endOfInput] ∧
    (∀ n, (ReportStream.ofRefills
        [.chunk [0xC3], .interruption, .chunk [0xA9, 13], .chunk [10], .endOfInput]).items n =
      (ReportStream.ofRefills
        [.chunk [0xC3, 0xA9, 13, 10], .interruption, .endOfInput]).items n) ∧
    ∀ sink, Session.ofRefills
        [.chunk [0xC3], .interruption, .chunk [0xA9, 13], .chunk [10], .endOfInput] sink =
      Session.ofRefills [.chunk [0xC3, 0xA9, 13, 10], .interruption, .endOfInput] sink :=
  ⟨by decide, ofRefills_eq_of_merged_eq (by decide)⟩

end LineGrammar
