import LineGrammar.Proofs.Pieces
import LineGrammar.Proofs.Tokens
import LineGrammar.Stream.Reports

/-! What a stream of reports hands out, one line after the other, and that bytes read line by
line give the reports on the text that they decode to. -/

namespace LineGrammar

namespace Reader

theorem readLine_chunk (bytes : Bytes) (later : List Refill) :
    (ofRefills (.chunk bytes :: later)).readLine = readLine ⟨bytes, later⟩ :=
  readRest_chunk rfl

theorem atEnd_ne_failed (bytes : Bytes) (fault : Fault) :
    LineRead.atEnd bytes ≠ .failed fault := by
  by_cases h : bytes = [] <;> simp [LineRead.atEnd, h]

theorem unreadable_of_readRest {taken buffer : Bytes} {refills : List Refill} {fault : Fault}
    (h : (readRest taken buffer refills).1 = .failed fault) :
    ∃ message, fault = .unreadable message := by
  fun_induction readRest taken buffer refills with
  | case1 => cases h
  | case2 => exact absurd h (atEnd_ne_failed _ _)
  | case3 _ _ _ _ _ ih => exact ih h
  | case4 => exact absurd h (atEnd_ne_failed _ _)
  | case5 _ _ _ message =>
    cases h
    exact ⟨message, rfl⟩
  | case6 _ _ _ _ ih => exact ih h

theorem size_lt_of_line {reader later : Reader} {bytes : Bytes}
    (h : reader.readLine = (.line bytes, later)) : later.size < reader.size := by
  have hlt := size_readLine_lt (r := reader) (by simp [h])
  rwa [h] at hlt

end Reader

namespace ReportStream

theorem next_of_line {s : ReportStream} {bytes : Bytes} {reader : Reader} (hf : s.failed = false)
    (h : s.reader.readLine = (.line bytes, reader)) :
    s.next = (some (.ok (Report.ofLine (s.line + 1) (lineText bytes))),
      ⟨reader, s.line + 1, false⟩) := by
  simp [next, hf, h]

theorem next_of_ended {s : ReportStream} {reader : Reader} (hf : s.failed = false)
    (h : s.reader.readLine = (.ended, reader)) : s.next = (none, ⟨reader, s.line, false⟩) := by
  simp [next, hf, h]

theorem next_of_failed {s : ReportStream} {fault : Fault} {reader : Reader}
    (hf : s.failed = false) (h : s.reader.readLine = (.failed fault, reader)) :
    s.next = (some (.error fault), ⟨reader, s.line, true⟩) := by
  simp [next, hf, h]

variable {reader later : Reader} {line : Nat}

theorem untilEnd_of_line {bytes : Bytes} (h : reader.readLine = (.line bytes, later)) :
    untilEnd ⟨reader, line, false⟩ =
      .ok (Report.ofLine (line + 1) (lineText bytes)) :: untilEnd ⟨later, line + 1, false⟩ := by
  have hn := next_of_line (s := ⟨reader, line, false⟩) rfl h
  rw [untilEnd_of_some (congrArg Prod.fst hn), hn]

theorem untilEnd_of_ended (h : reader.readLine = (.ended, later)) :
    untilEnd ⟨reader, line, false⟩ = [] := by
  have hn := next_of_ended (s := ⟨reader, line, false⟩) rfl h
  exact untilEnd_of_none (congrArg Prod.fst hn)

theorem untilEnd_of_failed {fault : Fault} (h : reader.readLine = (.failed fault, later)) :
    untilEnd ⟨reader, line, false⟩ = [.error fault] := by
  have hn := next_of_failed (s := ⟨reader, line, false⟩) rfl h
  rw [untilEnd_of_some (congrArg Prod.fst hn), hn, untilEnd_of_none rfl]

/-- Reports are handed out until an end of input or a failure to read. -/
theorem exists_untilEnd_eq (reader : Reader) (line : Nat) :
    ∃ handed : List Report, untilEnd ⟨reader, line, false⟩ = handed.map .ok ∨
      ∃ message, untilEnd ⟨reader, line, false⟩ =
        handed.map .ok ++ [.error (.unreadable message)] := by
  induction hn : reader.size using Nat.strongRecOn generalizing reader line with
  | ind n ih =>
    cases hr : reader.readLine with
    | mk read later =>
      cases read with
      | line bytes =>
        have hlt := hn ▸ Reader.size_lt_of_line hr
        obtain ⟨handed, he | ⟨message, he⟩⟩ := ih _ hlt later (line + 1) rfl
        · refine ⟨Report.ofLine (line + 1) (lineText bytes) :: handed, .inl ?_⟩
          rw [untilEnd_of_line hr, he, List.map_cons]
        · refine ⟨Report.ofLine (line + 1) (lineText bytes) :: handed, .inr ⟨message, ?_⟩⟩
          rw [untilEnd_of_line hr, he, List.map_cons, List.cons_append]
      | ended => exact ⟨[], .inl (untilEnd_of_ended hr)⟩
      | failed fault =>
        obtain ⟨message, rfl⟩ := Reader.unreadable_of_readRest (congrArg Prod.fst hr)
        exact ⟨[], .inr ⟨message, untilEnd_of_failed hr⟩⟩

end ReportStream

def reportsFrom (line : Nat) (texts : List Text) : List Report :=
  (texts.zipIdx line).map fun (text, line) => Report.ofLine line text

theorem ofText_eq (t : Text) : Report.ofText t = reportsFrom 1 t.lines :=
  rfl

theorem reportsFrom_cons (line : Nat) (text : Text) (texts : List Text) :
    reportsFrom line (text :: texts) =
      Report.ofLine line text :: reportsFrom (line + 1) texts :=
  rfl

theorem reportsFrom_append (line : Nat) (texts more : List Text) :
    reportsFrom line (texts ++ more) =
      reportsFrom line texts ++ reportsFrom (line + texts.length) more := by
  rw [reportsFrom, reportsFrom, reportsFrom, List.zipIdx_append, List.map_append]

theorem reportsFrom_concat (line : Nat) (texts : List Text) (last : Text) :
    reportsFrom line (texts ++ [last]) =
      reportsFrom line texts ++ [Report.ofLine (line + texts.length) last] :=
  reportsFrom_append line texts [last]

theorem length_reportsFrom (line : Nat) (texts : List Text) :
    (reportsFrom line texts).length = texts.length := by
  rw [reportsFrom, List.length_map, List.length_zipIdx]

theorem untilEnd_of_readLine_eq {reader : Reader} {bytes : Bytes}
    (h : reader.readLine = Reader.readLine ⟨bytes, []⟩) (line : Nat) :
    ReportStream.untilEnd ⟨reader, line, false⟩ =
      (reportsFrom (line + 1) ((cutAfter (· == lineFeed) bytes).map lineText)).map .ok := by
  -- Only the next line counts, so the first reader need not have its bytes in the buffer yet.
  induction bytes using cut_induction (p := (· == lineFeed)) generalizing reader line with
  | last x hx =>
    have hr : Reader.readLine ⟨x, []⟩ = (.atEnd x, ⟨[], []⟩) :=
      Reader.readRest_nil (firstLine?_of_none hx)
    rw [hr] at h
    by_cases hne : x = []
    · subst hne
      exact ReportStream.untilEnd_of_ended h
    · have hend : Reader.readLine ⟨[], []⟩ = (.ended, ⟨[], []⟩) := Reader.readRest_nil rfl
      rw [LineRead.atEnd, if_neg hne] at h
      rw [ReportStream.untilEnd_of_line h, ReportStream.untilEnd_of_ended hend,
        cutAfter_of_none hx hne]
      rfl
  | piece x a y hx ha ih =>
    obtain rfl : a = lineFeed := by simpa using ha
    have hr : Reader.readLine ⟨x ++ lineFeed :: y, []⟩ = (.line (x ++ [lineFeed]), ⟨y, []⟩) :=
      Reader.readRest_line (firstLine?_append hx y)
    rw [ReportStream.untilEnd_of_line (h.trans hr), ih rfl, cutAfter_append hx ha]
    rfl

theorem untilEnd_chunk (bytes : Bytes) :
    (ReportStream.ofRefills [.chunk bytes]).untilEnd =
      (reportsFrom 1 ((cutAfter (· == lineFeed) bytes).map lineText)).map .ok :=
  untilEnd_of_readLine_eq (Reader.readLine_chunk bytes []) 0

/-- Reports on the lines of a stream of bytes are the reports on the text of those bytes, but for
a carriage return at the very end, which only the text keeps. -/
theorem untilEnd_chunk_ofText_decode (bytes : Bytes) :
    ∃ reports : List Report, (ReportStream.ofRefills [.chunk bytes]).untilEnd = reports.map .ok ∧
      ((bytes.getLast? ≠ some carriageReturn ∧ Report.ofText (Utf8.decode bytes) = reports) ∨
        (bytes.getLast? = some carriageReturn ∧ ∃ earlier last, reports = earlier ++ [last] ∧
          Report.ofText (Utf8.decode bytes) =
            earlier ++ [{ last with text := last.text ++ ['\r'] }])) := by
  refine ⟨_, untilEnd_chunk bytes, ?_⟩
  rcases lines_decode bytes with ⟨hc, hl⟩ | ⟨hc, front, last, hf, hl⟩
  · exact .inl ⟨hc, by rw [ofText_eq, hl]⟩
  · have hb : ∀ c ∈ ['\r'], isBlank c = true := by
      intro c hm
      obtain rfl := List.mem_singleton.mp hm
      decide
    refine .inr ⟨hc, ?_⟩
    rw [ofText_eq, hl, hf, reportsFrom_concat, reportsFrom_concat, ofLine_append_blank hb]
    exact ⟨_, _, rfl, rfl⟩

end LineGrammar
