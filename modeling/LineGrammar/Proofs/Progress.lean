import Mathlib.Data.List.DropRight
import LineGrammar.Proofs.Merging

/-! What a stream of reports hands out, refill by refill. Each refill completes some reads and
leaves the bytes of a line that is not finished; an end of input finishes that line, a failure
loses it and ends the reports. -/

namespace LineGrammar

/-- The lines with their line feeds that begin a list of bytes. -/
def finishedLines (bytes : Bytes) : List Bytes :=
  (cutAfter (· == lineFeed) bytes).filter (·.getLast? = some lineFeed)

def unfinishedLine (bytes : Bytes) : Bytes :=
  bytes.rtakeWhile (· != lineFeed)

namespace Refill

def bytes : Refill → Bytes
  | chunk bytes => bytes
  | _ => []

/-- The reads that a refill completes behind the bytes of a line that is being read. -/
def completes (pending : Bytes) : Refill → List LineRead
  | chunk bytes => (finishedLines (pending ++ bytes)).map .line
  | endOfInput => [.atEnd pending]
  | failure message => [.failed (.unreadable message)]
  | interruption => []

/-- The bytes of the line that is being read behind a refill. -/
def leaves (pending : Bytes) : Refill → Bytes
  | chunk bytes => unfinishedLine (pending ++ bytes)
  | interruption => pending
  | _ => []

def readsFrom (pending : Bytes) : List Refill → List LineRead
  | [] => []
  | refill :: later => refill.completes pending ++ readsFrom (refill.leaves pending) later

def pendingFrom (pending : Bytes) (refills : List Refill) : Bytes :=
  refills.foldl leaves pending

def Unfailing (refills : List Refill) : Prop :=
  ∀ message, .failure message ∉ refills

theorem Unfailing.tail {refill : Refill} {later : List Refill} (h : Unfailing (refill :: later)) :
    Unfailing later :=
  fun message hm => h message (List.mem_cons_of_mem _ hm)

theorem Unfailing.ended {refills : List Refill} (h : Unfailing refills) :
    Unfailing (refills ++ [.endOfInput]) := by
  intro message hm
  rcases List.mem_append.mp hm with hm | hm
  · exact h message hm
  · cases List.mem_singleton.mp hm

end Refill

namespace LineRead

def bytes : LineRead → Bytes
  | line bytes => bytes
  | _ => []

def isLine : LineRead → Bool
  | line _ => true
  | _ => false

def isFailed : LineRead → Bool
  | failed _ => true
  | _ => false

end LineRead

section

variable {x : Bytes} (hx : ∀ b ∈ x, (b == lineFeed) = false)

include hx

theorem finishedLines_of_none : finishedLines x = [] := by
  by_cases hne : x = []
  · rw [hne]
    rfl
  · rw [finishedLines, cutAfter_of_none hx hne, List.filter_cons_of_neg, List.filter_nil]
    intro h
    have hl := of_decide_eq_true h
    simpa using hx lineFeed (List.mem_of_getLast? hl)

theorem unfinishedLine_of_none : unfinishedLine x = x := by
  rw [unfinishedLine, List.rtakeWhile_eq_self_iff]
  intro b hb
  simp [bne, hx b hb]

theorem finishedLines_append (y : Bytes) :
    finishedLines (x ++ lineFeed :: y) = (x ++ [lineFeed]) :: finishedLines y := by
  rw [finishedLines, cutAfter_append hx rfl, List.filter_cons_of_pos (by simp), finishedLines]

end

theorem unfinishedLine_append (x y : Bytes) :
    unfinishedLine (x ++ lineFeed :: y) = unfinishedLine y := by
  rw [unfinishedLine, unfinishedLine]
  induction y using List.reverseRecOn with
  | nil => rw [List.rtakeWhile_concat_neg _ _ _ (by simp), List.rtakeWhile_nil]
  | append_singleton y b ih =>
    rw [← List.cons_append, ← List.append_assoc, List.rtakeWhile_concat, List.rtakeWhile_concat, ih]

theorem flatten_finishedLines_append (bytes : Bytes) :
    (finishedLines bytes).flatten ++ unfinishedLine bytes = bytes := by
  induction bytes using cut_induction (p := (· == lineFeed)) with
  | last x hx => rw [finishedLines_of_none hx, unfinishedLine_of_none hx]; rfl
  | piece x a y hx ha ih =>
    obtain rfl : a = lineFeed := by simpa using ha
    rw [finishedLines_append hx, unfinishedLine_append, List.flatten_cons, List.append_assoc, ih,
      List.append_assoc, List.singleton_append]

theorem firstLine?_unfinishedLine (bytes : Bytes) : firstLine? (unfinishedLine bytes) = none := by
  refine firstLine?_of_none fun b hb => ?_
  simpa using List.mem_rtakeWhile_imp hb

theorem flatMap_bytes_lines (lines : List Bytes) :
    (lines.map LineRead.line).flatMap LineRead.bytes = lines.flatten := by
  rw [List.flatMap_map]
  exact List.flatMap_id

namespace Refill

/-- No byte is lost before a failure: each is part of a read or still pending. -/
theorem bytes_eq {refills : List Refill} (hu : Unfailing refills) (pending : Bytes) :
    pending ++ refills.flatMap bytes =
      (readsFrom pending refills).flatMap LineRead.bytes ++ pendingFrom pending refills := by
  induction refills generalizing pending with
  | nil => simp [readsFrom, pendingFrom]
  | cons refill later ih =>
    have hh := ih hu.tail (refill.leaves pending)
    rw [pendingFrom] at hh ⊢
    rw [List.flatMap_cons, readsFrom, List.flatMap_append, List.foldl_cons, List.append_assoc, ← hh]
    cases refill with
    | chunk bytes =>
      have hcut := flatten_finishedLines_append (pending ++ bytes)
      rw [completes, leaves, flatMap_bytes_lines, ← List.append_assoc, ← List.append_assoc, hcut]
      rfl
    | endOfInput =>
      by_cases hp : pending = [] <;>
        simp [completes, leaves, bytes, LineRead.atEnd, LineRead.bytes, hp]
    | failure message => exact absurd List.mem_cons_self (hu message)
    | interruption => rfl

end Refill

namespace ReportStream

/-- The items for reads, with the reports numbered on from a line. -/
def itemsOf (line : Nat) : List LineRead → List Item
  | [] => []
  | .line bytes :: later =>
    some (.ok (Report.ofLine (line + 1) (lineText bytes))) :: itemsOf (line + 1) later
  | .ended :: later => none :: itemsOf line later
  | .failed fault :: later => some (.error fault) :: itemsOf line later

theorem itemsOf_append (line : Nat) (reads later : List LineRead) :
    itemsOf line (reads ++ later) =
      itemsOf line reads ++ itemsOf (line + reads.countP LineRead.isLine) later := by
  induction reads generalizing line with
  | nil => rfl
  | cons read reads ih =>
    cases read with
    | line bytes =>
      have hcount : line + 1 + reads.countP LineRead.isLine =
          line + (reads.countP LineRead.isLine + 1) := by omega
      rw [List.cons_append, itemsOf, itemsOf, ih, List.countP_cons_of_pos rfl, hcount]
      rfl
    | ended => rw [List.cons_append, itemsOf, itemsOf, ih]; rfl
    | failed fault => rw [List.cons_append, itemsOf, itemsOf, ih]; rfl

/-- A stream hands out items and is then as good as another one. -/
def Yields (s : ReportStream) (handed : List Item) (later : ReportStream) : Prop :=
  ∀ n, s.items (handed.length + n) = handed ++ later.items n

theorem Yields.trans {s t u : ReportStream} {handed more : List Item} (h : s.Yields handed t)
    (h' : t.Yields more u) : s.Yields (handed ++ more) u := by
  intro n
  rw [List.length_append, Nat.add_assoc, h, h', List.append_assoc]

theorem Yields.of_next {s later : ReportStream} {item : Item} (h : s.next = (item, later)) :
    s.Yields [item] later := by
  intro n
  rw [List.length_singleton, Nat.add_comm, items, h]
  rfl

theorem items_eq_of_next_eq {s later : ReportStream} (h : s.next = later.next) (n : Nat) :
    s.items n = later.items n := by
  cases n with
  | zero => rfl
  | succ n => rw [items, items, h]

theorem Yields.of_next_eq {s later : ReportStream} (h : s.next = later.next) :
    s.Yields [] later := by
  intro n
  rw [List.length_nil, Nat.zero_add, List.nil_append, items_eq_of_next_eq h]

theorem next_of_readLine_eq {r r' : Reader} (h : r.readLine = r'.readLine) (line : Nat) :
    next ⟨r, line, false⟩ = next ⟨r', line, false⟩ := by
  simp only [next, h, Bool.false_eq_true, if_false]

theorem items_take (s : ReportStream) (m n : Nat) : (s.items (m + n)).take m = s.items m := by
  induction m generalizing s with
  | zero => rfl
  | succ m ih => rw [Nat.add_right_comm, items, items, List.take_succ_cons, ih]

theorem Yields.items_eq {s s' later later' : ReportStream} {handed : List Item}
    (h : s.Yields handed later) (h' : s'.Yields handed later')
    (he : ∀ n, later.items n = later'.items n) (n : Nat) : s.items n = s'.items n := by
  rw [← items_take s n handed.length, ← items_take s' n handed.length, Nat.add_comm, h, h', he]

theorem items_of_next_eq_self {s : ReportStream} (h : s.next = (none, s)) (n : Nat) :
    s.items n = List.replicate n none := by
  induction n with
  | zero => rfl
  | succ n ih => rw [items, h, ih, List.replicate_succ]

theorem items_of_failed {s : ReportStream} (h : s.failed = true) (n : Nat) :
    s.items n = List.replicate n none :=
  items_of_next_eq_self (by simp [next, h]) n

theorem yields_finishedLines (bytes : Bytes) (later : List Refill) (line : Nat) :
    Yields ⟨⟨bytes, later⟩, line, false⟩ (itemsOf line ((finishedLines bytes).map .line))
      ⟨⟨unfinishedLine bytes, later⟩,
        line + ((finishedLines bytes).map LineRead.line).countP LineRead.isLine, false⟩ := by
  induction bytes using cut_induction (p := (· == lineFeed)) generalizing line with
  | last x hx =>
    rw [finishedLines_of_none hx, unfinishedLine_of_none hx]
    exact .of_next_eq rfl
  | piece x a y hx ha ih =>
    obtain rfl : a = lineFeed := by simpa using ha
    have hread : Reader.readLine ⟨x ++ lineFeed :: y, later⟩ =
        (.line (x ++ [lineFeed]), ⟨y, later⟩) :=
      Reader.readRest_line (firstLine?_append hx y)
    have hnext := next_of_line (s := ⟨⟨x ++ lineFeed :: y, later⟩, line, false⟩) rfl hread
    have hh := (Yields.of_next hnext).trans (ih (line + 1))
    rw [finishedLines_append hx, unfinishedLine_append, List.map_cons,
      List.countP_cons_of_pos rfl, Nat.add_comm _ 1, ← Nat.add_assoc]
    exact hh

theorem firstLine?_leaves {pending : Bytes} (hp : firstLine? pending = none) (refill : Refill) :
    firstLine? (refill.leaves pending) = none := by
  cases refill with
  | chunk bytes => exact firstLine?_unfinishedLine (pending ++ bytes)
  | endOfInput => rfl
  | failure message => rfl
  | interruption => exact hp

theorem yields_refill {pending : Bytes} (hp : firstLine? pending = none) {refill : Refill}
    (hr : ∀ message, refill ≠ .failure message) (later : List Refill) (line : Nat) :
    Yields ⟨⟨pending, refill :: later⟩, line, false⟩ (itemsOf line (refill.completes pending))
      ⟨⟨refill.leaves pending, later⟩,
        line + (refill.completes pending).countP LineRead.isLine, false⟩ := by
  cases refill with
  | chunk bytes =>
    have hread : Reader.readLine ⟨pending, .chunk bytes :: later⟩ =
        Reader.readLine ⟨pending ++ bytes, later⟩ :=
      (Reader.readRest_chunk hp).trans (Reader.readRest_eq_readLine hp bytes later)
    exact (Yields.of_next_eq (next_of_readLine_eq hread line)).trans
      (yields_finishedLines (pending ++ bytes) later line)
  | endOfInput =>
    have hread : Reader.readLine ⟨pending, .endOfInput :: later⟩ = (.atEnd pending, ⟨[], later⟩) :=
      Reader.readRest_endOfInput hp
    by_cases he : pending = []
    · rw [LineRead.atEnd, if_pos he] at hread
      have hnext := next_of_ended (s := ⟨⟨pending, .endOfInput :: later⟩, line, false⟩) rfl hread
      rw [Refill.completes, LineRead.atEnd, if_pos he]
      exact .of_next hnext
    · rw [LineRead.atEnd, if_neg he] at hread
      have hnext := next_of_line (s := ⟨⟨pending, .endOfInput :: later⟩, line, false⟩) rfl hread
      rw [Refill.completes, LineRead.atEnd, if_neg he]
      exact .of_next hnext
  | failure message => exact absurd rfl (hr message)
  | interruption =>
    have hread : Reader.readLine ⟨pending, .interruption :: later⟩ =
        Reader.readLine ⟨pending ++ [], later⟩ :=
      (Reader.readRest_interruption hp).trans (Reader.readRest_eq_readLine hp [] later)
    rw [List.append_nil] at hread
    exact .of_next_eq (next_of_readLine_eq hread line)

/-- Refills without a failure hand out the items of the reads that they complete, and then the
stream goes on with the line that they leave. -/
theorem yields_of_unfailing {front : List Refill} (hu : Refill.Unfailing front) {pending : Bytes}
    (hp : firstLine? pending = none) (later : List Refill) (line : Nat) :
    Yields ⟨⟨pending, front ++ later⟩, line, false⟩ (itemsOf line (Refill.readsFrom pending front))
      ⟨⟨Refill.pendingFrom pending front, later⟩,
        line + (Refill.readsFrom pending front).countP LineRead.isLine, false⟩ := by
  induction front generalizing pending line with
  | nil => exact .of_next_eq rfl
  | cons refill front ih =>
    have hr : ∀ message, refill ≠ .failure message :=
      fun message he => hu message (he ▸ List.mem_cons_self)
    have hh := (yields_refill hp hr (front ++ later) line).trans
      (ih hu.tail (firstLine?_leaves hp refill) _)
    rw [Refill.readsFrom, itemsOf_append, List.countP_append, ← Nat.add_assoc]
    exact hh

theorem firstLine?_pendingFrom {pending : Bytes} (hp : firstLine? pending = none)
    (refills : List Refill) : firstLine? (Refill.pendingFrom pending refills) = none := by
  induction refills generalizing pending with
  | nil => exact hp
  | cons refill later ih => exact ih (firstLine?_leaves hp refill)

/-- The items that are handed out until all of the refills are used up. -/
def handed (refills : List Refill) : List Item :=
  itemsOf 0 (Refill.readsFrom [] refills)

def reportOf? : Item → Option Report
  | some (.ok report) => some report
  | _ => none

def isError : Item → Bool
  | some (.error _) => true
  | _ => false

/-- All that a pull can do. -/
theorem next_cases (s : ReportStream) :
    (s.next.1 = none ∧ s.next.2.line = s.line) ∨
    (∃ report : Report, s.next.1 = some (.ok report) ∧ report.line = s.line + 1 ∧
      s.next.2.line = s.line + 1) ∨
    (∃ fault, s.next.1 = some (.error fault) ∧ s.next.2.line = s.line ∧
      s.next.2.failed = true) := by
  obtain ⟨reader, line, failed⟩ := s
  cases failed with
  | true => exact .inl ⟨rfl, rfl⟩
  | false =>
    cases hr : reader.readLine with
    | mk read later =>
      cases read with
      | line bytes =>
        rw [next_of_line rfl hr]
        exact .inr (.inl ⟨_, rfl, rfl, rfl⟩)
      | ended =>
        rw [next_of_ended rfl hr]
        exact .inl ⟨rfl, rfl⟩
      | failed fault =>
        rw [next_of_failed rfl hr]
        exact .inr (.inr ⟨fault, rfl, rfl, rfl⟩)

theorem map_line_items (s : ReportStream) (n : Nat) :
    ((s.items n).filterMap reportOf?).map Report.line =
      List.range' (s.line + 1) ((s.items n).filterMap reportOf?).length := by
  induction n generalizing s with
  | zero => rfl
  | succ n ih =>
    have hh := ih s.next.2
    rw [items]
    rcases s.next_cases with ⟨hi, hl⟩ | ⟨report, hi, hr, hl⟩ | ⟨fault, hi, hl, _⟩
    · rw [hl] at hh
      rwa [hi, List.filterMap_cons_none rfl]
    · have hreport : reportOf? (some (.ok report)) = some report := rfl
      rw [hl] at hh
      rw [hi, List.filterMap_cons_some hreport, List.map_cons, List.length_cons, List.range'_succ,
        hh, hr]
    · rw [hl] at hh
      rwa [hi, List.filterMap_cons_none rfl]

theorem countP_isError_items_le (s : ReportStream) (n : Nat) : (s.items n).countP isError ≤ 1 := by
  induction n generalizing s with
  | zero => exact Nat.zero_le 1
  | succ n ih =>
    rw [items]
    rcases s.next_cases with ⟨hi, _⟩ | ⟨report, hi, _⟩ | ⟨fault, hi, _, hf⟩
    · rw [hi, List.countP_cons_of_neg (by decide)]
      exact ih s.next.2
    · rw [hi, List.countP_cons_of_neg (by simp [isError])]
      exact ih s.next.2
    · rw [hi, items_of_failed hf, List.countP_cons_of_pos rfl, List.countP_replicate]
      simp [isError]

theorem isFailed_of_mem_readsFrom {refills : List Refill} (hu : Refill.Unfailing refills)
    {pending : Bytes} {read : LineRead} (h : read ∈ Refill.readsFrom pending refills) :
    read.isFailed = false := by
  induction refills generalizing pending with
  | nil => cases h
  | cons refill later ih =>
    rcases List.mem_append.mp h with h | h
    · cases refill with
      | chunk bytes =>
        obtain ⟨line, _, rfl⟩ := List.mem_map.mp h
        rfl
      | endOfInput =>
        obtain rfl := List.mem_singleton.mp h
        by_cases he : pending = [] <;> simp [LineRead.atEnd, LineRead.isFailed, he]
      | failure message => exact absurd List.mem_cons_self (hu message)
      | interruption => cases h
    · exact ih hu.tail h

theorem countP_isError_itemsOf {reads : List LineRead}
    (h : ∀ read ∈ reads, read.isFailed = false) (line : Nat) :
    (itemsOf line reads).countP isError = 0 := by
  induction reads generalizing line with
  | nil => rfl
  | cons read reads ih =>
    have hh := ih fun r hr => h r (List.mem_cons_of_mem _ hr)
    cases read with
    | line bytes =>
      rw [itemsOf, List.countP_cons_of_neg (by simp [isError])]
      exact hh (line + 1)
    | ended =>
      rw [itemsOf, List.countP_cons_of_neg (by decide)]
      exact hh line
    | failed fault => exact absurd (h _ List.mem_cons_self) (by simp [LineRead.isFailed])

theorem countP_isError_handed {front : List Refill} (hu : Refill.Unfailing front) :
    (handed front).countP isError = 0 :=
  countP_isError_itemsOf (fun _ => isFailed_of_mem_readsFrom hu) 0

theorem yields_handed {front : List Refill} (hu : Refill.Unfailing front) (later : List Refill) :
    Yields (ofRefills (front ++ later)) (handed front)
      ⟨⟨Refill.pendingFrom [] front, later⟩,
        0 + (Refill.readsFrom [] front).countP LineRead.isLine, false⟩ :=
  yields_of_unfailing hu rfl later 0

theorem items_nil (line n : Nat) : items n ⟨⟨[], []⟩, line, false⟩ = List.replicate n none := by
  have hend : Reader.readLine ⟨[], []⟩ = (.ended, ⟨[], []⟩) := Reader.readRest_nil rfl
  exact items_of_next_eq_self (next_of_ended rfl hend) n

/-- Without a failure, the end of all refills is an end of input, and nothing comes behind it. -/
theorem items_of_unfailing {refills : List Refill} (hu : Refill.Unfailing refills) (n : Nat) :
    (ofRefills refills).items ((handed (refills ++ [.endOfInput])).length + n) =
      handed (refills ++ [.endOfInput]) ++ List.replicate n none := by
  have hp : firstLine? (Refill.pendingFrom [] refills) = none := firstLine?_pendingFrom rfl refills
  have hread : Reader.readLine ⟨Refill.pendingFrom [] refills, []⟩ =
      Reader.readLine ⟨Refill.pendingFrom [] refills, [.endOfInput]⟩ :=
    (Reader.readRest_nil hp).trans (Reader.readRest_endOfInput hp).symm
  have hplain := yields_handed hu []
  rw [List.append_nil] at hplain
  have hsame := hplain.items_eq (yields_handed hu [.endOfInput])
    (items_eq_of_next_eq (next_of_readLine_eq hread _))
  have hnone : Refill.pendingFrom [] (refills ++ [.endOfInput]) = [] := by
    rw [Refill.pendingFrom, List.foldl_append]
    rfl
  have hall := yields_handed hu.ended []
  rw [List.append_nil, hnone] at hall
  rw [hsame, hall, items_nil]

theorem countP_isError_items {refills : List Refill} (hu : Refill.Unfailing refills) (n : Nat) :
    ((ofRefills refills).items n).countP isError = 0 := by
  have hsub : ((ofRefills refills).items n).Sublist
      (handed (refills ++ [.endOfInput]) ++ List.replicate n none) := by
    rw [← items_take _ n (handed (refills ++ [.endOfInput])).length, Nat.add_comm,
      items_of_unfailing hu]
    exact List.take_sublist _ _
  have hle : ((ofRefills refills).items n).countP isError ≤ _ := hsub.countP_le
  rw [List.countP_append, countP_isError_handed hu.ended, List.countP_replicate] at hle
  simpa [isError] using hle

section

variable {front : List Refill} (hu : Refill.Unfailing front) (later : List Refill) (n : Nat)

include hu

theorem items_of_failure (message : Text) :
    (ofRefills (front ++ .failure message :: later)).items ((handed front).length + 1 + n) =
      handed front ++ some (.error (.unreadable message)) :: List.replicate n none := by
  have hread : Reader.readLine ⟨Refill.pendingFrom [] front, .failure message :: later⟩ =
      (.failed (.unreadable message), ⟨[], later⟩) :=
    Reader.readRest_failure (firstLine?_pendingFrom rfl front)
  have hh := (yields_handed hu (.failure message :: later)).trans
    (Yields.of_next (next_of_failed rfl hread)) n
  rw [List.length_append, List.append_assoc,
    items_of_failed (s := ⟨⟨[], later⟩, _, true⟩) rfl] at hh
  exact hh

theorem items_of_ended (hp : Refill.pendingFrom [] front = []) :
    ∃ rest, (ofRefills (front ++ .endOfInput :: later)).items ((handed front).length + 1 + n) =
        handed front ++ none :: rest ∧
      (ofRefills (front ++ later)).items ((handed front).length + n) = handed front ++ rest := by
  have hread : Reader.readLine ⟨Refill.pendingFrom [] front, .endOfInput :: later⟩ =
      (.ended, ⟨[], later⟩) := by
    rw [hp]
    exact Reader.readRest_endOfInput rfl
  have hh := (yields_handed hu (.endOfInput :: later)).trans
    (Yields.of_next (next_of_ended rfl hread)) n
  have hdeleted := yields_handed hu later n
  rw [List.length_append, List.append_assoc] at hh
  rw [hp] at hdeleted
  exact ⟨_, hh, hdeleted⟩

theorem items_of_finished (hp : Refill.pendingFrom [] front ≠ []) :
    (ofRefills (front ++ .endOfInput :: later)).items n =
      (ofRefills (front ++ .chunk [lineFeed] :: later)).items n := by
  have hnone : firstLine? (Refill.pendingFrom [] front) = none := firstLine?_pendingFrom rfl front
  have hx := firstLine?_eq_none_iff.mp hnone
  have hended : Reader.readLine ⟨Refill.pendingFrom [] front, .endOfInput :: later⟩ =
      (.line (Refill.pendingFrom [] front), ⟨[], later⟩) := by
    rw [Reader.readLine, Reader.readRest_endOfInput hnone, List.nil_append, LineRead.atEnd,
      if_neg hp]
  have hfed : Reader.readLine ⟨Refill.pendingFrom [] front, .chunk [lineFeed] :: later⟩ =
      (.line (Refill.pendingFrom [] front ++ [lineFeed]), ⟨[], later⟩) := by
    rw [Reader.readLine, Reader.readRest_chunk hnone, List.nil_append,
      Reader.readRest_eq_readLine hnone]
    exact Reader.readRest_line (firstLine?_append hx [])
  have htext : lineText (Refill.pendingFrom [] front ++ [lineFeed]) =
      lineText (Refill.pendingFrom [] front) := by
    rw [lineText_last hx, lineText, dropFinal_concat]
  refine (yields_handed hu (.endOfInput :: later)).items_eq
    (yields_handed hu (.chunk [lineFeed] :: later)) (items_eq_of_next_eq ?_) n
  rw [next_of_line rfl hended, next_of_line rfl hfed, htext]

end

end ReportStream

/-- What every pull hands out, for all refills. Reports count lines, whatever lies between them.
The first failure is the only error: it comes behind the items of the reads that were completed,
takes the pending bytes along, and has only ends behind it. An end of input is a line feed where
bytes are pending, and is an item of its own, and nothing more, where none are. -/
theorem items_ofRefills (refills : List Refill) (n : Nat) :
    let items (count : Nat) := (ReportStream.ofRefills refills).items count
    let reports := (items n).filterMap ReportStream.reportOf?
    reports.map Report.line = List.range' 1 reports.length ∧
    (items n).countP ReportStream.isError ≤ 1 ∧
    (Refill.Unfailing refills → (items n).countP ReportStream.isError = 0) ∧
    ∀ front later, Refill.Unfailing front →
      let before := ReportStream.handed front
      (before.countP ReportStream.isError = 0 ∧ front.flatMap Refill.bytes =
        (Refill.readsFrom [] front).flatMap LineRead.bytes ++ Refill.pendingFrom [] front) ∧
      (∀ message, refills = front ++ .failure message :: later →
        items (before.length + 1 + n) =
          before ++ some (.error (.unreadable message)) :: List.replicate n none) ∧
      (refills = front ++ .endOfInput :: later → Refill.pendingFrom [] front ≠ [] →
        items n = (ReportStream.ofRefills (front ++ .chunk [lineFeed] :: later)).items n) ∧
      (refills = front ++ .endOfInput :: later → Refill.pendingFrom [] front = [] →
        ∃ rest, items (before.length + 1 + n) = before ++ none :: rest ∧
          (ReportStream.ofRefills (front ++ later)).items (before.length + n) = before ++ rest) := by
  refine ⟨ReportStream.map_line_items _ n, ReportStream.countP_isError_items_le _ n,
    fun hu => ReportStream.countP_isError_items hu n, fun front later hu => ?_⟩
  refine ⟨⟨ReportStream.countP_isError_handed hu, Refill.bytes_eq hu []⟩, ?_, ?_, ?_⟩
  · rintro message rfl
    exact ReportStream.items_of_failure hu later n message
  · rintro rfl hp
    exact ReportStream.items_of_finished hu later n hp
  · rintro rfl hp
    exact ReportStream.items_of_ended hu later n hp

theorem items_ofRefills_of_pauses :
    let begun : List Refill := [.chunk [97, 10, 98]]
    let closed : List Refill := [.chunk [97, 10, 98], .endOfInput]
    let lost : List Refill := [.chunk [97, 10, 98], .endOfInput, .endOfInput, .chunk [99]]
    let refills := lost ++ [.failure ['x'], .chunk [100, 10]]
    let items (count : Nat) := (ReportStream.ofRefills refills).items count
    (Refill.Unfailing begun ∧ Refill.pendingFrom [] begun ≠ [] ∧ Refill.Unfailing closed ∧
      Refill.pendingFrom [] closed = [] ∧ Refill.Unfailing lost) ∧
    ((ReportStream.ofRefills lost).items 3).countP ReportStream.isError = 0 ∧
    items 3 = (ReportStream.ofRefills (begun ++ .chunk [lineFeed] ::
      [.endOfInput, .chunk [99], .failure ['x'], .chunk [100, 10]])).items 3 ∧
    (∃ rest, items ((ReportStream.handed closed).length + 1 + 3) =
        ReportStream.handed closed ++ none :: rest ∧
      (ReportStream.ofRefills (closed ++ [.chunk [99], .failure ['x'], .chunk [100, 10]])).items
        ((ReportStream.handed closed).length + 3) = ReportStream.handed closed ++ rest) ∧
    items ((ReportStream.handed lost).length + 1 + 3) =
      ReportStream.handed lost ++ some (.error (.unreadable ['x'])) :: List.replicate 3 none := by
  intro begun closed lost refills items
  have hopen : Refill.Unfailing begun := by simp [Refill.Unfailing, begun]
  have hclosed : Refill.Unfailing closed := by simp [Refill.Unfailing, closed]
  have hlost : Refill.Unfailing lost := by simp [Refill.Unfailing, lost]
  have hpending : Refill.pendingFrom [] begun ≠ [] := by decide
  have hnone : Refill.pendingFrom [] closed = [] := by decide
  obtain ⟨_, _, _, hsplit⟩ := items_ofRefills refills 3
  exact ⟨⟨hopen, hpending, hclosed, hnone, hlost⟩, (items_ofRefills lost 3).2.2.1 hlost,
    (hsplit begun _ hopen).2.2.1 rfl hpending, (hsplit closed _ hclosed).2.2.2 rfl hnone,
    (hsplit lost _ hlost).2.1 _ rfl⟩

end LineGrammar
