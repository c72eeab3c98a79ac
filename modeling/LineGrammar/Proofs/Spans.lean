import Mathlib.Data.List.Pairwise
import LineGrammar.Proofs.Coverage

/-! The spans of the words of a text. They are the maximal runs of characters that are not blank, and
no other list of spans is in order, keeps a blank between any two of them and covers all such
characters. -/

namespace LineGrammar

/-- A range of bytes. -/
structure Span where
  start : Nat
  stop : Nat
deriving DecidableEq, Repr

/-- One of two spans ends before the other begins. -/
def Span.Apart (p q : Span) : Prop :=
  p.stop < q.start ∨ q.stop < p.start

instance : Std.Symm Span.Apart :=
  ⟨fun _ _ h => h.symm⟩

def Word.span (w : Word) : Span :=
  ⟨w.start, w.stop⟩

/-- The code points with the property `White_Space`, one by one. -/
def whiteSpace : List Nat :=
  [0x0009, 0x000A, 0x000B, 0x000C, 0x000D, 0x0020, 0x0085, 0x00A0, 0x1680, 0x2000, 0x2001, 0x2002,
    0x2003, 0x2004, 0x2005, 0x2006, 0x2007, 0x2008, 0x2009, 0x200A, 0x2028, 0x2029, 0x202F, 0x205F,
    0x3000]

theorem isBlank_iff (c : Char) : isBlank c = true ↔ c.toNat ∈ whiteSpace := by
  have hranges : whiteSpace =
      blankRanges.flatMap fun range => List.range' range.1 (range.2 + 1 - range.1) := by decide
  rw [hranges, isBlank, List.any_eq_true]
  simp only [List.mem_flatMap, List.mem_range'_1, Bool.and_eq_true, decide_eq_true_eq]
  exact exists_congr fun range => and_congr_right fun _ => by omega

theorem isBlank_eq_false_iff (c : Char) : isBlank c = false ↔ c.toNat ∉ whiteSpace := by
  rw [← isBlank_iff, Bool.not_eq_true]

/-- A longest run of characters that are not blank. -/
structure MaximalRun (before run after : Text) : Prop extends LastWord before run where
  ahead : ∀ c ∈ after.head?, isBlank c = true

namespace Text

def spans (t : Text) : List Span :=
  t.words.map Word.span

/-- A piece of a text stands at a span. -/
def Holds (t piece : Text) (p : Span) : Prop :=
  ∃ before after, t = before ++ piece ++ after ∧
    p = ⟨before.byteSize, before.byteSize + piece.byteSize⟩

def HoldsRun (t : Text) (p : Span) : Prop :=
  ∃ before run after, t = before ++ run ++ after ∧ MaximalRun before run after ∧
    p = ⟨before.byteSize, before.byteSize + run.byteSize⟩

/-- Spans that are not empty, stand one behind the other with white space between any two of them,
and hold whole characters that are no white space, all of those in the text. -/
structure Splits (t : Text) (spans : List Span) : Prop where
  nonempty : ∀ p ∈ spans, p.start < p.stop
  solid : ∀ p ∈ spans, ∃ piece, t.Holds piece p ∧ ∀ c ∈ piece, c.toNat ∉ whiteSpace
  separated : spans.Pairwise fun p q => ∃ c r, t.Holds [c] r ∧ c.toNat ∈ whiteSpace ∧
    p.stop ≤ r.start ∧ r.stop ≤ q.start
  covering : ∀ c r, t.Holds [c] r → c.toNat ∉ whiteSpace →
    ∃ p ∈ spans, p.start ≤ r.start ∧ r.stop ≤ p.stop

theorem byteSize_eq_zero_iff {t : Text} : t.byteSize = 0 ↔ t = [] := by
  cases t with
  | nil => simp
  | cons c t => simp [Nat.ne_of_gt (Char.utf8Size_pos c)]

/-- Of two texts that begin a third, the one with fewer bytes begins the other. -/
theorem exists_append_of_byteSize_le {a b c d : Text} (h : a ++ b = c ++ d)
    (hle : a.byteSize ≤ c.byteSize) : ∃ x, c = a ++ x ∧ b = x ++ d := by
  rcases List.append_eq_append_iff.mp h with ⟨x, hc, hb⟩ | ⟨x, rfl, rfl⟩
  · exact ⟨x, hc, hb⟩
  · rw [byteSize_append] at hle
    have hx : x = [] := byteSize_eq_zero_iff.mp (by omega)
    exact ⟨[], by simp [hx], by simp [hx]⟩

theorem Holds.start_lt_stop {t : Text} {c : Char} {r : Span} (h : t.Holds [c] r) :
    r.start < r.stop := by
  obtain ⟨front, later, -, rfl⟩ := h
  simpa using Char.utf8Size_pos c

/-- A character that begins inside a piece ends inside it. -/
theorem Holds.char_mem {t piece : Text} {p r : Span} {c : Char} (hp : t.Holds piece p)
    (hc : t.Holds [c] r) (hle : p.start ≤ r.start) (hlt : r.start < p.stop) :
    c ∈ piece ∧ r.stop ≤ p.stop := by
  obtain ⟨before, after, ht, rfl⟩ := hp
  obtain ⟨front, later, ht', rfl⟩ := hc
  dsimp only at hle hlt ⊢
  rw [ht, List.append_assoc, List.append_assoc] at ht'
  obtain ⟨x, rfl, hx⟩ := exists_append_of_byteSize_le ht' hle
  rw [byteSize_append] at hlt ⊢
  obtain ⟨y, rfl, hy⟩ := exists_append_of_byteSize_le hx.symm (by omega)
  cases y with
  | nil =>
    rw [List.append_nil] at hlt
    omega
  | cons d y =>
    obtain ⟨rfl, -⟩ := List.cons.inj hy
    refine ⟨by simp, ?_⟩
    simp only [byteSize_append, byteSize_cons, byteSize_nil]
    omega

end Text

theorem MaximalRun.takeWhile_append {before run after : Text} (h : MaximalRun before run after) :
    (run ++ after).takeWhile (!isBlank ·) = run := by
  rw [List.takeWhile_append_of_pos fun c hc => by simp [h.solid c hc]]
  cases after with
  | nil => simp
  | cons c after => simp [h.ahead c rfl]

/-- A run that begins inside another one is that other one. -/
theorem MaximalRun.eq_of_inside {before run after before' run' after' : Text}
    (h : MaximalRun before run after) (h' : MaximalRun before' run' after')
    (ht : before ++ run ++ after = before' ++ run' ++ after')
    (hle : before.byteSize ≤ before'.byteSize)
    (hlt : before'.byteSize < before.byteSize + run.byteSize) : before' = before ∧ run' = run := by
  rw [List.append_assoc, List.append_assoc] at ht
  obtain ⟨x, rfl, hx⟩ := Text.exists_append_of_byteSize_le ht hle
  rw [Text.byteSize_append] at hlt
  obtain ⟨y, rfl, -⟩ := Text.exists_append_of_byteSize_le hx.symm (by omega)
  have hnil : x = [] := by
    by_contra hne
    have hlast := List.getLast?_eq_some_getLast hne
    have hblank := h'.behind (x.getLast hne) (by
      rw [List.getLast?_append_of_ne_nil _ hne, hlast]
      rfl)
    rw [h.solid _ (List.mem_append_left _ (List.getLast_mem hne))] at hblank
    cases hblank
  have hrun := congrArg (List.takeWhile (!isBlank ·)) hx
  rw [h.takeWhile_append, hnil, List.nil_append, List.nil_append, h'.takeWhile_append] at hrun
  exact ⟨by rw [hnil, List.append_nil], by rw [hnil, List.nil_append, hrun]⟩

namespace Text

variable {t : Text} {p q : Span} {spans spans' : List Span}

theorem HoldsRun.eq_of_overlap (hp : t.HoldsRun p) (hq : t.HoldsRun q) (h : p.start < q.stop)
    (h' : q.start < p.stop) : p = q := by
  obtain ⟨before, run, after, ht, hr, rfl⟩ := hp
  obtain ⟨before', run', after', ht', hr', rfl⟩ := hq
  rcases Nat.le_total before.byteSize before'.byteSize with hle | hle
  · obtain ⟨rfl, rfl⟩ := hr.eq_of_inside hr' (ht.symm.trans ht') hle h'
    rfl
  · obtain ⟨rfl, rfl⟩ := hr'.eq_of_inside hr (ht'.symm.trans ht) hle h
    rfl

namespace Splits

theorem ordered (h : t.Splits spans) : spans.Pairwise fun p q => p.stop < q.start := by
  refine h.separated.imp fun {p q} hpq => ?_
  obtain ⟨c, r, hc, -, hle, hle'⟩ := hpq
  have hlt := hc.start_lt_stop
  omega

theorem apart (h : t.Splits spans) (hp : p ∈ spans) (hq : q ∈ spans) (hne : p ≠ q) :
    p.Apart q :=
  (h.ordered.imp .inl).forall hp hq hne

/-- Nothing but white space touches a span. -/
theorem mem_whiteSpace_of_touches (h : t.Splits spans) (hp : p ∈ spans) {c : Char} {r : Span}
    (hc : t.Holds [c] r) (ht : r.stop = p.start ∨ r.start = p.stop) : c.toNat ∈ whiteSpace := by
  by_contra hw
  obtain ⟨q, hq, hle, hle'⟩ := h.covering c r hc hw
  have hne := h.nonempty p hp
  have hlt := hc.start_lt_stop
  have hpq : p ≠ q := by
    rintro rfl
    omega
  rcases h.apart hp hq hpq with hlt | hlt <;> omega

theorem holdsRun (h : t.Splits spans) (hp : p ∈ spans) : t.HoldsRun p := by
  obtain ⟨run, ⟨before, after, rfl, rfl⟩, hsolid⟩ := h.solid p hp
  refine ⟨before, run, after, rfl, ⟨⟨fun c hc => ?_, ?_, fun c hc => ?_⟩, fun c hc => ?_⟩, rfl⟩
  · obtain ⟨front, rfl⟩ := List.getLast?_eq_some_iff.mp hc
    have hlast : Text.Holds (front ++ [c] ++ run ++ after) [c]
        ⟨byteSize front, byteSize (front ++ [c])⟩ := ⟨front, run ++ after, by simp, by simp⟩
    exact (isBlank_iff c).mpr (h.mem_whiteSpace_of_touches hp hlast (.inl rfl))
  · rintro rfl
    have hne := h.nonempty _ hp
    simp at hne
  · exact (isBlank_eq_false_iff c).mpr (hsolid c hc)
  · obtain ⟨later, rfl⟩ := List.head?_eq_some_iff.mp hc
    have hnext : Text.Holds (before ++ run ++ c :: later) [c]
        ⟨before.byteSize + run.byteSize, before.byteSize + run.byteSize + byteSize [c]⟩ :=
      ⟨before ++ run, later, by simp, by simp⟩
    exact (isBlank_iff c).mpr (h.mem_whiteSpace_of_touches hp hnext (.inr rfl))

theorem mem_iff (h : t.Splits spans) : p ∈ spans ↔ t.HoldsRun p := by
  refine ⟨h.holdsRun, fun hp => ?_⟩
  obtain ⟨before, run, after, ht, hr, rfl⟩ := id hp
  obtain ⟨c, later, rfl⟩ := List.exists_cons_of_ne_nil hr.nonempty
  have hc : t.Holds [c] ⟨before.byteSize, before.byteSize + byteSize [c]⟩ :=
    ⟨before, later ++ after, by simp [ht], rfl⟩
  have hw := (isBlank_eq_false_iff c).mp (hr.solid c List.mem_cons_self)
  obtain ⟨q, hq, hle, hle'⟩ := h.covering c _ hc hw
  have hlt := hc.start_lt_stop
  have hsize : byteSize (c :: later) = byteSize [c] + byteSize later := by simp
  dsimp only at hle hle' hlt
  rw [hp.eq_of_overlap (h.holdsRun hq) (by dsimp only; omega) (by dsimp only; omega)]
  exact hq

theorem nodup (h : t.Splits spans) : spans.Nodup := by
  refine h.ordered.imp_of_mem fun {p q} hp _ hlt heq => ?_
  have hne := h.nonempty p hp
  rw [← heq] at hlt
  omega

theorem eq (h : t.Splits spans) (h' : t.Splits spans') : spans = spans' := by
  have hperm : spans.Perm spans' :=
    (List.perm_ext_iff_of_nodup h.nodup h'.nodup).mpr fun p => h.mem_iff.trans h'.mem_iff.symm
  refine hperm.eq_of_pairwise (fun p q hp hq hpq hqp => ?_) h.ordered h'.ordered
  have hne := h.nonempty p hp
  have hne' := h'.nonempty q hq
  omega

end Splits

end Text

/-- A blank of a text at an offset stands between two positions. -/
def Text.BlankBetween (t : Text) (offset a b : Nat) : Prop :=
  ∃ (before : Text) (c : Char) (after : Text), t = before ++ c :: after ∧ isBlank c = true ∧
    a ≤ offset + before.byteSize ∧ offset + before.byteSize + c.utf8Size ≤ b

theorem Text.BlankBetween.behind {front t : Text} {offset a b : Nat}
    (h : t.BlankBetween (offset + front.byteSize) a b) :
    Text.BlankBetween (front ++ t) offset a b := by
  obtain ⟨before, c, after, rfl, hc, hle⟩ := h
  refine ⟨front ++ before, c, after, by simp, hc, ?_⟩
  rwa [Text.byteSize_append, ← Nat.add_assoc]

theorem blankBetween_wordsFrom (offset : Nat) (t : Text) :
    (t.wordsFrom offset).Pairwise fun w v => t.BlankBetween offset w.stop v.start := by
  induction t using Text.run_induction generalizing offset with
  | nil => exact List.Pairwise.nil
  | blank c t hc ih =>
    rw [wordsFrom_cons_blank hc]
    exact (ih _).imp fun h => @Text.BlankBetween.behind [c] t offset _ _ (by simpa using h)
  | run w t hne hw ht ih =>
    rw [wordsFrom_run hne hw ht, List.pairwise_cons]
    refine ⟨fun v hv => ?_, (ih _).imp Text.BlankBetween.behind⟩
    -- the blank right behind the run stands between it and every later one
    cases t with
    | nil => cases hv
    | cons c t =>
      have hc := ht c rfl
      rw [wordsFrom_cons_blank hc] at hv
      exact ⟨w, c, t, rfl, hc, le_rfl, le_start_of_mem_wordsFrom hv⟩

theorem Word.StandsIn.holds {w : Word} {t : Text} (h : w.StandsIn 0 t) : t.Holds w.text w.span := by
  obtain ⟨before, after, ht, hs⟩ := h.placed
  rw [Nat.zero_add] at hs
  exact ⟨before, after, ht, by rw [Word.span, Word.stop, hs]⟩

theorem splits_spans (t : Text) : t.Splits t.spans := by
  have hstands {w : Word} (hw : w ∈ t.words) : w.StandsIn 0 t := standsIn_of_mem_wordsFrom hw
  constructor
  case nonempty =>
    intro p hp
    obtain ⟨w, hw, rfl⟩ := List.mem_map.mp hp
    exact (hstands hw).start_lt_stop
  case solid =>
    intro p hp
    obtain ⟨w, hw, rfl⟩ := List.mem_map.mp hp
    exact ⟨w.text, (hstands hw).holds,
      fun c hc => (isBlank_eq_false_iff c).mp ((hstands hw).solid c hc)⟩
  case separated =>
    refine List.Pairwise.map _ (fun w v hwv => ?_) (blankBetween_wordsFrom 0 t)
    obtain ⟨before, c, after, ht, hc, hle, hle'⟩ := hwv
    rw [Nat.zero_add] at hle hle'
    exact ⟨c, _, ⟨before, after, by simpa using ht, rfl⟩, (isBlank_iff c).mp hc, hle, hle'⟩
  case covering =>
    intro c r hc hw
    have hsolid := (isBlank_eq_false_iff c).mpr hw
    obtain ⟨before, after, ht, hr⟩ := id hc
    have hbyte : t.HasByte 0 r.start c := by
      refine ⟨before, after, by simpa using ht, ?_⟩
      have hpos := Char.utf8Size_pos c
      simp only [hr]
      omega
    rcases isBlank_or_mem_wordsFrom hbyte with hblank | ⟨w, hm, hle, hlt⟩
    · rw [hsolid] at hblank
      cases hblank
    · exact ⟨w.span, List.mem_map_of_mem hm, hle, ((hstands hm).holds.char_mem hc hle hlt).2⟩

/-- The spans of words are the only ones that split a text, and they are its maximal runs. -/
theorem splits_iff_eq_spans (t : Text) :
    (∀ spans, t.Splits spans ↔ spans = t.spans) ∧ ∀ p, p ∈ t.spans ↔ t.HoldsRun p := by
  refine ⟨fun spans => ⟨fun h => h.eq (splits_spans t), ?_⟩, fun p => (splits_spans t).mem_iff⟩
  rintro rfl
  exact splits_spans t

example : Text.spans " é\u2003b\n".toList = [⟨1, 3⟩, ⟨6, 7⟩] := by decide

end LineGrammar
