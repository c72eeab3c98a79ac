import LineGrammar.Report
import LineGrammar.Stream.Reader

/-! The reports on the lines of a reader, one at a time. An end of input is passed on as an
item of its own, and the reports behind it go on counting lines. A failure is an item too, and
nothing but ends come after it. -/

namespace LineGrammar

structure ReportStream where
  reader : Reader
  line : Nat
  failed : Bool
deriving DecidableEq, Repr

/-- An end of input is the item `none`. -/
abbrev ReportStream.Item := Option (Except Fault Report)

namespace ReportStream

def ofRefills (refills : List Refill) : ReportStream :=
  ⟨.ofRefills refills, 0, false⟩

def next (s : ReportStream) : Item × ReportStream :=
  if s.failed then (none, s)
  else
    match s.reader.readLine with
    | (.line bytes, reader) =>
      (some (.ok (Report.ofLine (s.line + 1) (lineText bytes))), ⟨reader, s.line + 1, false⟩)
    | (.ended, reader) => (none, ⟨reader, s.line, false⟩)
    | (.failed fault, reader) => (some (.error fault), ⟨reader, s.line, true⟩)

def items : Nat → ReportStream → List Item
  | 0, _ => []
  | n + 1, s => s.next.1 :: items n s.next.2

theorem size_next_lt {s : ReportStream} (h : s.next.1 ≠ none) :
    s.next.2.reader.size < s.reader.size := by
  have hr : s.reader.readLine.1 ≠ .ended → s.reader.readLine.2.size < s.reader.size :=
    Reader.size_readLine_lt
  unfold next at h ⊢
  split
  · next hf => simp [hf] at h
  · next hf =>
    simp only [hf] at h
    revert h hr
    cases s.reader.readLine with
    | mk read reader => cases read <;> simp

/-- The items before the first end of input. -/
def untilEnd (s : ReportStream) : List (Except Fault Report) :=
  match h : s.next.1 with
  | none => []
  | some item =>
    have : s.next.2.reader.size < s.reader.size := size_next_lt (by simp [h])
    item :: untilEnd s.next.2
termination_by s.reader.size

theorem untilEnd_of_none {s : ReportStream} (h : s.next.1 = none) : s.untilEnd = [] := by
  rw [untilEnd]
  split
  · rfl
  · next item hi => simp [hi] at h

theorem untilEnd_of_some {s : ReportStream} {item : Except Fault Report}
    (h : s.next.1 = some item) : s.untilEnd = item :: s.next.2.untilEnd := by
  rw [untilEnd]
  split
  · next hi => simp [hi] at h
  · next found hi => rw [h] at hi; cases hi; rfl

end ReportStream

end LineGrammar
