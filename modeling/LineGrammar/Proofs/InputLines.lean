import LineGrammar.Proofs.Progress

/-! The lines that are read before the first end of input or failure. The reports on them are all
that a stream hands out up to there, and no line holds a line feed but at its end. -/

namespace LineGrammar

namespace Refill

/-- The lines before the first end of input or failure, with their line feeds. The last one may be
without. -/
def inputLines (refills : List Refill) : List Bytes :=
  ((readsFrom [] (refills ++ [.endOfInput])).takeWhile LineRead.isLine).map LineRead.bytes

def reports (refills : List Refill) : List Report :=
  reportsFrom 1 ((inputLines refills).map lineText)

theorem readsFrom_append (pending : Bytes) (refills later : List Refill) :
    readsFrom pending (refills ++ later) =
      readsFrom pending refills ++ readsFrom (pendingFrom pending refills) later := by
  induction refills generalizing pending with
  | nil => rfl
  | cons refill refills ih =>
    rw [List.cons_append, readsFrom, readsFrom, ih, List.append_assoc]
    rfl

/-- Refills fail nowhere, or somewhere first. -/
theorem unfailing_or_split (refills : List Refill) :
    Unfailing refills ∨ ∃ front message later,
      refills = front ++ .failure message :: later ∧ Unfailing front := by
  induction refills with
  | nil => exact .inl fun message hm => by cases hm
  | cons refill refills ih =>
    by_cases hr : ∃ message, refill = .failure message
    · obtain ⟨message, rfl⟩ := hr
      exact .inr ⟨[], message, refills, rfl, fun _ hm => by cases hm⟩
    · have hcons {rest : List Refill} (hu : Unfailing rest) : Unfailing (refill :: rest) := by
        intro message hm
        rcases List.mem_cons.mp hm with he | hm
        · exact hr ⟨message, he.symm⟩
        · exact hu message hm
      rcases ih with hu | ⟨front, message, later, rfl, hu⟩
      · exact .inl (hcons hu)
      · exact .inr ⟨refill :: front, message, later, rfl, hcons hu⟩

end Refill

namespace ReportStream

theorem untilEnd_of_items {s : ReportStream} {n : Nat} {front : List (Except Fault Report)}
    {rest : List Item} (h : s.items n = front.map some ++ none :: rest) : s.untilEnd = front := by
  induction front generalizing s n with
  | nil =>
    cases n with
    | zero => cases h
    | succ n =>
      rw [items] at h
      exact untilEnd_of_none (List.cons.inj h).1
  | cons item front ih =>
    cases n with
    | zero => cases h
    | succ n =>
      rw [items] at h
      obtain ⟨hi, hl⟩ := List.cons.inj h
      rw [untilEnd_of_some hi, ih hl]

theorem itemsOf_lines {reads : List LineRead} (h : ∀ read ∈ reads, read.isLine = true)
    (line : Nat) :
    itemsOf line reads =
      ((reportsFrom (line + 1) ((reads.map LineRead.bytes).map lineText)).map .ok).map some := by
  induction reads generalizing line with
  | nil => rfl
  | cons read reads ih =>
    have hh := ih (fun r hr => h r (List.mem_cons_of_mem _ hr)) (line + 1)
    cases read with
    | line bytes => rw [itemsOf, hh]; rfl
    | ended => cases h _ List.mem_cons_self
    | failed fault => cases h _ List.mem_cons_self

/-- The reports on the lines that come first in a list of reads. -/
def reportsOf (reads : List LineRead) : List Report :=
  reportsFrom 1 (((reads.takeWhile LineRead.isLine).map LineRead.bytes).map lineText)

theorem reportsOf_append_of_line {reads later : List LineRead}
    (h : ∀ read ∈ reads, read.isLine = true) {read : LineRead} (hread : read.isLine = false) :
    reportsOf (reads ++ read :: later) = reportsOf reads := by
  rw [reportsOf, reportsOf, List.takeWhile_append_of_pos h,
    List.takeWhile_cons_of_neg (by simp [hread]), List.append_nil,
    List.takeWhile_eq_self_iff.mpr h]

/-- Items for reads without a failure are reports up to an end of input, or no end is among them. -/
theorem itemsOf_cases {reads : List LineRead} (h : ∀ read ∈ reads, read.isFailed = false) :
    (∃ rest, itemsOf 0 reads = ((reportsOf reads).map .ok).map some ++ none :: rest ∧
      ∀ more, reportsOf (reads ++ more) = reportsOf reads) ∨
    (itemsOf 0 reads = ((reportsOf reads).map .ok).map some ∧
      ∀ read ∈ reads, read.isLine = true) := by
  have hlines : ∀ read ∈ reads.takeWhile LineRead.isLine, read.isLine = true :=
    fun read hr => List.mem_takeWhile_imp hr
  have hreads := List.takeWhile_append_dropWhile (p := LineRead.isLine) (l := reads)
  cases hd : reads.dropWhile LineRead.isLine with
  | nil =>
    rw [hd, List.append_nil] at hreads
    have hall : ∀ read ∈ reads, read.isLine = true := hreads ▸ hlines
    refine .inr ⟨?_, hall⟩
    rw [itemsOf_lines hall, reportsOf, hreads]
  | cons read later =>
    rw [hd] at hreads
    have hread : (LineRead.isLine read) = false := by
      have hh := List.head?_dropWhile_not LineRead.isLine reads
      rwa [hd] at hh
    have happend := itemsOf_append 0 (reads.takeWhile LineRead.isLine) (read :: later)
    rw [hreads, itemsOf_lines hlines] at happend
    cases read with
    | line bytes => cases hread
    | failed fault =>
      have hmem : .failed fault ∈ reads := hreads ▸ List.mem_append_right _ List.mem_cons_self
      cases h _ hmem
    | ended =>
      refine .inl ⟨_, happend, fun more => ?_⟩
      rw [← hreads, List.append_assoc, List.cons_append, reportsOf_append_of_line hlines rfl,
        reportsOf_append_of_line hlines rfl]

/-- What is handed out before the first end of input: the reports on all lines that are read, and
then the failure that ended reading, if there was one. -/
theorem untilEnd_ofRefills (refills : List Refill) :
    (ofRefills refills).untilEnd = (Refill.reports refills).map .ok ∨
      ∃ message, (ofRefills refills).untilEnd =
        (Refill.reports refills).map .ok ++ [.error (.unreadable message)] := by
  rcases Refill.unfailing_or_split refills with hu | ⟨front, message, later, rfl, hu⟩
  · have hitems := items_of_unfailing hu 1
    have hreads : ∀ read ∈ Refill.readsFrom [] (refills ++ [.endOfInput]), read.isFailed = false :=
      fun _ => isFailed_of_mem_readsFrom hu.ended
    rw [handed] at hitems
    refine .inl ?_
    rcases itemsOf_cases hreads with ⟨rest, hi, _⟩ | ⟨hi, _⟩
    · rw [hi, List.append_assoc] at hitems
      exact untilEnd_of_items hitems
    · rw [hi] at hitems
      exact untilEnd_of_items hitems
  · have hitems := items_of_failure hu later 1 message
    have hreads : ∀ read ∈ Refill.readsFrom [] front, read.isFailed = false :=
      fun _ => isFailed_of_mem_readsFrom hu
    have hall : Refill.reports (front ++ .failure message :: later) =
        reportsOf (Refill.readsFrom [] front ++ (.failed (.unreadable message) ::
          Refill.readsFrom [] (later ++ [.endOfInput]))) := by
      rw [Refill.reports, Refill.inputLines, List.append_assoc, Refill.readsFrom_append]
      rfl
    rw [handed] at hitems
    rcases itemsOf_cases hreads with ⟨rest, hi, hr⟩ | ⟨hi, hlines⟩
    · rw [hi, List.append_assoc] at hitems
      rw [hall, hr]
      exact .inl (untilEnd_of_items hitems)
    · rw [hi] at hitems
      rw [hall, reportsOf_append_of_line hlines rfl]
      refine .inr ⟨message, untilEnd_of_items (hitems.trans (?_ : _ = _ ++ none :: []))⟩
      rw [List.map_append, List.append_assoc]
      rfl

end ReportStream

/-- The lines of one chunk are its pieces. -/
theorem cutAfter_eq_finishedLines (bytes : Bytes) :
    cutAfter (· == lineFeed) bytes =
      finishedLines bytes ++ if unfinishedLine bytes = [] then [] else [unfinishedLine bytes] := by
  induction bytes using cut_induction (p := (· == lineFeed)) with
  | last x hx =>
    rw [finishedLines_of_none hx, unfinishedLine_of_none hx, List.nil_append]
    split
    · next hn => rw [hn]; rfl
    · next hn => exact cutAfter_of_none hx hn
  | piece x a y hx ha ih =>
    obtain rfl : a = lineFeed := by simpa using ha
    rw [cutAfter_append hx rfl, finishedLines_append hx, unfinishedLine_append, ih,
      List.cons_append]

theorem inputLines_chunk (bytes : Bytes) :
    Refill.inputLines [.chunk bytes] = cutAfter (· == lineFeed) bytes := by
  have hlines : ∀ read ∈ (finishedLines bytes).map LineRead.line, read.isLine = true := by
    intro read hr
    obtain ⟨line, _, rfl⟩ := List.mem_map.mp hr
    rfl
  have hreads : Refill.readsFrom [] ([.chunk bytes] ++ [.endOfInput]) =
      (finishedLines bytes).map .line ++ [.atEnd (unfinishedLine bytes)] := rfl
  have hbytes : ((finishedLines bytes).map LineRead.line).map LineRead.bytes =
      finishedLines bytes := by
    rw [List.map_map]
    exact List.map_id _
  rw [Refill.inputLines, hreads, List.takeWhile_append_of_pos hlines, List.map_append, hbytes,
    cutAfter_eq_finishedLines]
  by_cases hn : unfinishedLine bytes = []
  · rw [LineRead.atEnd, if_pos hn, if_pos hn]
    rfl
  · rw [LineRead.atEnd, if_neg hn, if_neg hn]
    rfl

/-- A line holds no line feed, but for one at its end. -/
def IsLine (line : Bytes) : Prop :=
  ∃ x : Bytes, (∀ b ∈ x, (b == lineFeed) = false) ∧ (line = x ∨ line = x ++ [lineFeed])

theorem isLine_of_mem_finishedLines {line bytes : Bytes} (h : line ∈ finishedLines bytes) :
    IsLine line := by
  induction bytes using cut_induction (p := (· == lineFeed)) with
  | last x hx => rw [finishedLines_of_none hx] at h; cases h
  | piece x a y hx ha ih =>
    obtain rfl : a = lineFeed := by simpa using ha
    rw [finishedLines_append hx] at h
    rcases List.mem_cons.mp h with rfl | h
    · exact ⟨x, hx, .inr rfl⟩
    · exact ih h

theorem isLine_of_mem_readsFrom {pending : Bytes} (hp : firstLine? pending = none)
    {refills : List Refill} {line : Bytes} (h : .line line ∈ Refill.readsFrom pending refills) :
    IsLine line := by
  induction refills generalizing pending with
  | nil => cases h
  | cons refill later ih =>
    rcases List.mem_append.mp h with h | h
    · cases refill with
      | chunk bytes =>
        obtain ⟨found, hf, he⟩ := List.mem_map.mp h
        cases he
        exact isLine_of_mem_finishedLines hf
      | endOfInput =>
        have he := List.mem_singleton.mp h
        rw [LineRead.atEnd] at he
        split at he
        · cases he
        · cases he
          exact ⟨_, firstLine?_eq_none_iff.mp hp, .inl rfl⟩
      | failure message => cases List.mem_singleton.mp h
      | interruption => cases h
    · exact ih (ReportStream.firstLine?_leaves hp refill) h

theorem isLine_of_mem_inputLines {refills : List Refill} {line : Bytes}
    (h : line ∈ Refill.inputLines refills) : IsLine line := by
  obtain ⟨read, hr, rfl⟩ := List.mem_map.mp h
  have hline : read.isLine = true := List.mem_takeWhile_imp hr
  cases read with
  | line bytes => exact isLine_of_mem_readsFrom rfl (List.takeWhile_subset _ hr)
  | ended => cases hline
  | failed fault => cases hline

theorem newline_not_mem_lineText {line : Bytes} (h : IsLine line) : '\n' ∉ lineText line := by
  obtain ⟨x, hx, hline⟩ := h
  have htext : lineText line = Utf8.decode (dropFinal carriageReturn x) := by
    rcases hline with rfl | rfl
    · exact lineText_last hx
    · rw [lineText, dropFinal_concat]
  have hdrop : ∀ b ∈ dropFinal carriageReturn x, (b == lineFeed) = false := by
    intro b hb
    rw [dropFinal] at hb
    split at hb
    · exact hx b (List.dropLast_subset x hb)
    · exact hx b hb
  intro hm
  rw [htext] at hm
  simpa using lineFeed_not_mem_decode hdrop _ hm

end LineGrammar
