import LineGrammar.Stream.Fault
import LineGrammar.Text.Lines
import LineGrammar.Text.Utf8

/-! Reading lines from bytes that arrive in pieces. A line is read up to and including its line
feed, or up to the next end of input. Where the pieces are cut and how often reading is
interrupted makes no difference to a line; a failure loses the line that is being read. -/

namespace LineGrammar

/-- What one refill of a buffer yields. An end of input is seen once, and reading may go on
behind it. -/
inductive Refill where
  | chunk (bytes : Bytes)
  | endOfInput
  | failure (message : Text)
  | interruption
deriving DecidableEq, Repr

def Refill.size : Refill → Nat
  | .chunk bytes => bytes.length
  | .endOfInput | .interruption => 0
  | .failure _ => 1

/-- Bytes that are there already and the refills to come. Behind the last refill every read
finds the end of input. -/
structure Reader where
  buffer : Bytes
  refills : List Refill
deriving DecidableEq, Repr

inductive LineRead where
  | line (bytes : Bytes)
  | ended
  | failed (fault : Fault)
deriving DecidableEq, Repr

namespace LineRead

def atEnd (bytes : Bytes) : LineRead :=
  if bytes = [] then ended else line bytes

def size : LineRead → Nat
  | line bytes => bytes.length
  | ended => 0
  | failed _ => 1

end LineRead

def lineFeed : UInt8 := 10

def carriageReturn : UInt8 := 13

/-- The text of a line as it was read. One line feed and then one carriage return at its end
are not part of it. -/
def lineText (bytes : Bytes) : Text :=
  Utf8.decode (dropFinal carriageReturn (dropFinal lineFeed bytes))

def firstLine? (bytes : Bytes) : Option (Bytes × Bytes) :=
  match bytes.dropWhile (· != lineFeed) with
  | [] => none
  | feed :: rest => some (bytes.takeWhile (· != lineFeed) ++ [feed], rest)

theorem append_of_firstLine? {bytes line rest : Bytes} (h : firstLine? bytes = some (line, rest)) :
    line ++ rest = bytes := by
  have hb := List.takeWhile_append_dropWhile (p := (· != lineFeed)) (l := bytes)
  unfold firstLine? at h
  split at h
  · simp at h
  · next feed later hd =>
    simp only [Option.some.injEq, Prod.mk.injEq] at h
    obtain ⟨rfl, rfl⟩ := h
    rw [hd] at hb
    simpa using hb

theorem firstLine?_ne_nil {bytes line rest : Bytes} (h : firstLine? bytes = some (line, rest)) :
    line ≠ [] := by
  unfold firstLine? at h
  split at h
  · simp at h
  · simp only [Option.some.injEq, Prod.mk.injEq] at h
    simp [← h.1]

namespace Reader

def ofRefills (refills : List Refill) : Reader :=
  ⟨[], refills⟩

def readRest (taken buffer : Bytes) (refills : List Refill) : LineRead × Reader :=
  match firstLine? buffer with
  | some (line, rest) => (.line (taken ++ line), ⟨rest, refills⟩)
  | none =>
    match refills with
    | [] => (.atEnd (taken ++ buffer), ⟨[], []⟩)
    | .chunk bytes :: later => readRest (taken ++ buffer) bytes later
    | .endOfInput :: later => (.atEnd (taken ++ buffer), ⟨[], later⟩)
    | .failure message :: later => (.failed (.unreadable message), ⟨[], later⟩)
    | .interruption :: later => readRest (taken ++ buffer) [] later

def readLine (r : Reader) : LineRead × Reader :=
  readRest [] r.buffer r.refills

def size (r : Reader) : Nat :=
  r.buffer.length + r.refills.foldr (fun refill size => refill.size + size) 0

theorem readRest_line {taken buffer line rest : Bytes} {refills : List Refill}
    (h : firstLine? buffer = some (line, rest)) :
    readRest taken buffer refills = (.line (taken ++ line), ⟨rest, refills⟩) := by
  unfold readRest
  simp [h]

theorem readRest_nil {taken buffer : Bytes} (h : firstLine? buffer = none) :
    readRest taken buffer [] = (.atEnd (taken ++ buffer), ⟨[], []⟩) := by
  unfold readRest
  simp [h]

theorem readRest_chunk {taken buffer bytes : Bytes} {later : List Refill}
    (h : firstLine? buffer = none) :
    readRest taken buffer (.chunk bytes :: later) = readRest (taken ++ buffer) bytes later := by
  rw [readRest.eq_def]
  simp [h]

theorem readRest_endOfInput {taken buffer : Bytes} {later : List Refill}
    (h : firstLine? buffer = none) :
    readRest taken buffer (.endOfInput :: later) = (.atEnd (taken ++ buffer), ⟨[], later⟩) := by
  rw [readRest.eq_def]
  simp [h]

theorem readRest_failure {taken buffer : Bytes} {message : Text} {later : List Refill}
    (h : firstLine? buffer = none) :
    readRest taken buffer (.failure message :: later) =
      (.failed (.unreadable message), ⟨[], later⟩) := by
  rw [readRest.eq_def]
  simp [h]

theorem readRest_interruption {taken buffer : Bytes} {later : List Refill}
    (h : firstLine? buffer = none) :
    readRest taken buffer (.interruption :: later) = readRest (taken ++ buffer) [] later := by
  rw [readRest.eq_def]
  simp [h]

theorem size_atEnd (bytes : Bytes) : (LineRead.atEnd bytes).size = bytes.length := by
  unfold LineRead.atEnd
  split
  · next h => simp [h, LineRead.size]
  · rfl

theorem size_readRest (taken buffer : Bytes) (refills : List Refill) :
    (readRest taken buffer refills).1.size + (readRest taken buffer refills).2.size ≤
      taken.length + size ⟨buffer, refills⟩ := by
  fun_induction readRest taken buffer refills with
  | case1 taken buffer refills line rest hb =>
    have hlen := congrArg List.length (append_of_firstLine? hb)
    simp only [List.length_append] at hlen
    simp only [LineRead.size, size, List.length_append]
    omega
  | case2 taken buffer hb => simp [size_atEnd, size]
  | case3 taken buffer hb bytes later ih =>
    simp only [size, List.length_append, List.foldr_cons, Refill.size] at ih ⊢
    omega
  | case4 taken buffer hb later =>
    simp only [size_atEnd, size, List.length_append, List.foldr_cons, Refill.size, List.length_nil]
    omega
  | case5 taken buffer hb message later =>
    simp only [LineRead.size, size, List.foldr_cons, Refill.size, List.length_nil]
    omega
  | case6 taken buffer hb later ih =>
    simp only [size, List.length_append, List.foldr_cons, Refill.size, List.length_nil] at ih ⊢
    omega

theorem atEnd_ne_line_nil (bytes : Bytes) : LineRead.atEnd bytes ≠ .line [] := by
  unfold LineRead.atEnd
  split <;> simp_all

theorem readRest_ne_line_nil (taken buffer : Bytes) (refills : List Refill) :
    (readRest taken buffer refills).1 ≠ .line [] := by
  fun_induction readRest taken buffer refills with
  | case1 taken buffer refills line rest hb => simp [firstLine?_ne_nil hb]
  | case2 taken buffer hb => exact atEnd_ne_line_nil (taken ++ buffer)
  | case3 taken buffer hb bytes later ih => exact ih
  | case4 taken buffer hb later => exact atEnd_ne_line_nil (taken ++ buffer)
  | case5 => simp
  | case6 taken buffer hb later ih => exact ih

theorem size_readLine_lt {r : Reader} (h : r.readLine.1 ≠ .ended) :
    r.readLine.2.size < r.size := by
  have hs : r.readLine.1.size + r.readLine.2.size ≤ 0 + r.size :=
    size_readRest [] r.buffer r.refills
  have hn : r.readLine.1 ≠ .line [] := readRest_ne_line_nil [] r.buffer r.refills
  have hp : 0 < r.readLine.1.size := by
    cases hr : r.readLine.1 with
    | line bytes =>
      cases bytes with
      | nil => exact absurd hr hn
      | cons b bytes => simp [LineRead.size]
    | ended => exact absurd hr h
    | failed fault => simp [LineRead.size]
  omega

end Reader

end LineGrammar
