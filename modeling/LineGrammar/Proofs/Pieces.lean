import Mathlib.Data.List.TakeWhile
import LineGrammar.Proofs.Decoding
import LineGrammar.Stream.Reader

/-! The pieces into which a list is cut behind its separators, and that decoding bytes and cutting
them behind line feeds may be done in either order. -/

namespace LineGrammar

theorem dropFinal_concat {α : Type} [DecidableEq α] (a : α) (l : List α) :
    dropFinal a (l ++ [a]) = l := by
  simp [dropFinal]

section

variable {α : Type} {p : α → Bool}

theorem cutAfter_append {x : List α} (hx : ∀ b ∈ x, p b = false) {a : α} (ha : p a = true)
    (y : List α) : cutAfter p (x ++ a :: y) = (x ++ [a]) :: cutAfter p y := by
  induction x with
  | nil => simp [cutAfter, ha]
  | cons b x ih =>
    rw [List.cons_append, cutAfter, hx b (by simp), ih fun c hc => hx c (by simp [hc])]
    rfl

theorem cutAfter_of_none {x : List α} (hx : ∀ b ∈ x, p b = false) (hne : x ≠ []) :
    cutAfter p x = [x] := by
  induction x with
  | nil => exact absurd rfl hne
  | cons b x ih =>
    cases x with
    | nil => simp [cutAfter]
    | cons c x =>
      rw [cutAfter, hx b (by simp), ih (fun d hd => hx d (by simp [hd])) (by simp)]

/-- A list has no separator, or a first one, with a shorter list behind it. -/
theorem cut_induction {motive : List α → Prop}
    (last : ∀ x, (∀ b ∈ x, p b = false) → motive x)
    (piece : ∀ x a y, (∀ b ∈ x, p b = false) → p a = true → motive y → motive (x ++ a :: y))
    (l : List α) : motive l := by
  induction hn : l.length using Nat.strongRecOn generalizing l with
  | ind n ih =>
    have hx : ∀ b ∈ l.takeWhile (!p ·), p b = false :=
      fun b hb => by simpa using List.mem_takeWhile_imp hb
    have hl := List.takeWhile_append_dropWhile (p := (!p ·)) (l := l)
    cases hd : l.dropWhile (!p ·) with
    | nil =>
      rw [hd, List.append_nil] at hl
      exact last l (hl ▸ hx)
    | cons a y =>
      have ha := List.head?_dropWhile_not (!p ·) l
      simp only [hd, List.head?_cons] at ha
      rw [hd] at hl
      have hlen := congrArg List.length hl
      simp only [List.length_append, List.length_cons] at hlen
      rw [← hl]
      exact piece _ a y hx (by simpa using ha) (ih y.length (by omega) y rfl)

theorem cutAfter_append_of_getLast? {front : List α} (h : ∀ a ∈ front.getLast?, p a = true)
    (later : List α) : cutAfter p (front ++ later) = cutAfter p front ++ cutAfter p later := by
  induction front using cut_induction (p := p) with
  | last x hx =>
    cases hl : x.getLast? with
    | none =>
      obtain rfl := List.getLast?_eq_none_iff.mp hl
      rfl
    | some a =>
      have ha := hx a (List.mem_of_getLast? hl)
      rw [h a hl] at ha
      cases ha
  | piece x a y hx ha ih =>
    have hy : ∀ b ∈ y.getLast?, p b = true := by
      intro b hb
      refine h b ?_
      rw [List.getLast?_append, List.getLast?_cons, show y.getLast? = some b from hb]
      rfl
    rw [List.append_assoc, List.cons_append, cutAfter_append hx ha, cutAfter_append hx ha, ih hy,
      List.cons_append]

end

theorem firstLine?_of_none {x : Bytes} (hx : ∀ b ∈ x, (b == lineFeed) = false) :
    firstLine? x = none := by
  have hd : x.dropWhile (· != lineFeed) = [] :=
    List.dropWhile_eq_nil_iff.mpr fun b hb => by simp [bne, hx b hb]
  rw [firstLine?, hd]

theorem firstLine?_append {x : Bytes} (hx : ∀ b ∈ x, (b == lineFeed) = false) (y : Bytes) :
    firstLine? (x ++ lineFeed :: y) = some (x ++ [lineFeed], y) := by
  have hp : ∀ b ∈ x, (b != lineFeed) = true := fun b hb => by simp [bne, hx b hb]
  rw [firstLine?, List.dropWhile_append_of_pos hp, List.takeWhile_append_of_pos hp]
  simp

theorem firstLine?_eq_none_iff {bytes : Bytes} :
    firstLine? bytes = none ↔ ∀ b ∈ bytes, (b == lineFeed) = false := by
  refine ⟨fun h => ?_, firstLine?_of_none⟩
  cases bytes using cut_induction (p := (· == lineFeed)) with
  | last x hx => exact hx
  | piece x a y hx ha =>
    obtain rfl : a = lineFeed := by simpa using ha
    rw [firstLine?_append hx] at h
    cases h

theorem firstLine?_eq_some_iff {bytes line rest : Bytes} :
    firstLine? bytes = some (line, rest) ↔ ∃ x, (∀ b ∈ x, (b == lineFeed) = false) ∧
      line = x ++ [lineFeed] ∧ bytes = x ++ lineFeed :: rest := by
  constructor
  · intro h
    cases bytes using cut_induction (p := (· == lineFeed)) with
    | last x hx =>
      rw [firstLine?_of_none hx] at h
      cases h
    | piece x a y hx ha =>
      obtain rfl : a = lineFeed := by simpa using ha
      rw [firstLine?_append hx] at h
      cases h
      exact ⟨x, hx, rfl, rfl⟩
  · rintro ⟨x, hx, rfl, rfl⟩
    exact firstLine?_append hx rest

theorem decode_lineFeed (xs ys : Bytes) :
    Utf8.decode (xs ++ lineFeed :: ys) = Utf8.decode xs ++ '\n' :: Utf8.decode ys :=
  decode_append_ascii (by decide) xs ys

theorem decode_carriageReturn (xs : Bytes) :
    Utf8.decode (xs ++ [carriageReturn]) = Utf8.decode xs ++ ['\r'] :=
  decode_append_ascii (by decide) xs []

theorem lineFeed_not_mem_decode {xs : Bytes} (h : ∀ b ∈ xs, (b == lineFeed) = false) :
    ∀ c ∈ Utf8.decode xs, (c == '\n') = false := by
  intro c hc
  apply beq_eq_false_iff_ne.mpr
  rintro rfl
  have hm : lineFeed ∈ xs := mem_of_mem_decode (by decide) (by decide) hc
  simpa using h lineFeed hm

theorem cutAfter_decode (bytes : Bytes) :
    cutAfter (· == '\n') (Utf8.decode bytes) =
      (cutAfter (· == lineFeed) bytes).map Utf8.decode := by
  induction bytes using cut_induction (p := (· == lineFeed)) with
  | last x hx =>
    by_cases hne : x = []
    · simp [hne, cutAfter, Utf8.decode, Utf8.decodeFrom]
    · rw [cutAfter_of_none hx hne, cutAfter_of_none (lineFeed_not_mem_decode hx)
        (mt (decode_eq_nil_iff x).mp hne), List.map_singleton]
  | piece x a y hx ha ih =>
    obtain rfl : a = lineFeed := by simpa using ha
    rw [cutAfter_append hx ha, decode_lineFeed, cutAfter_append (lineFeed_not_mem_decode hx) rfl,
      ih, List.map_cons, decode_lineFeed]
    rfl

theorem getLast?_decode_eq_iff (xs : Bytes) :
    (Utf8.decode xs).getLast? = some '\r' ↔ xs.getLast? = some carriageReturn := by
  induction xs using cut_induction (p := (· == carriageReturn)) with
  | last x hx =>
    have hn : carriageReturn ∉ x := fun hm => by simpa using hx _ hm
    constructor
    · intro h
      exact absurd (mem_of_mem_decode (by decide) (by decide) (List.mem_of_getLast? h)) hn
    · intro h
      exact absurd (List.mem_of_getLast? h) hn
  | piece x a y hx ha ih =>
    obtain rfl : a = carriageReturn := by simpa using ha
    have hd : Utf8.decode (x ++ carriageReturn :: y) = Utf8.decode x ++ '\r' :: Utf8.decode y :=
      decode_append_ascii (by decide) x y
    rw [hd]
    by_cases hy : y = []
    · simp [hy, Utf8.decode, Utf8.decodeFrom]
    · obtain ⟨b, later, rfl⟩ := List.exists_cons_of_ne_nil hy
      obtain ⟨c, text, ht⟩ := List.exists_cons_of_ne_nil (mt (decode_eq_nil_iff _).mp hy)
      rw [ht] at ih ⊢
      simpa using ih

theorem decode_dropFinal (xs : Bytes) :
    Utf8.decode (dropFinal carriageReturn xs) = dropFinal '\r' (Utf8.decode xs) := by
  by_cases h : xs.getLast? = some carriageReturn
  · obtain ⟨front, rfl⟩ := List.getLast?_eq_some_iff.mp h
    rw [dropFinal_concat, decode_carriageReturn, dropFinal_concat]
  · rw [dropFinal, if_neg h, dropFinal, if_neg (mt (getLast?_decode_eq_iff xs).mp h)]

theorem withoutLineEnding_decode_piece (x : Bytes) :
    Text.withoutLineEnding (Utf8.decode (x ++ [lineFeed])) = lineText (x ++ [lineFeed]) := by
  have hd : Utf8.decode (x ++ [lineFeed]) = Utf8.decode x ++ ['\n'] := decode_lineFeed x []
  rw [lineText, dropFinal_concat, decode_dropFinal, hd, Text.withoutLineEnding, if_pos (by simp),
    List.dropLast_concat]

theorem withoutLineEnding_decode_last {x : Bytes} (hx : ∀ b ∈ x, (b == lineFeed) = false) :
    Text.withoutLineEnding (Utf8.decode x) = Utf8.decode x := by
  rw [Text.withoutLineEnding, if_neg]
  intro h
  simpa using lineFeed_not_mem_decode hx '\n' (List.mem_of_getLast? h)

theorem lineText_last {x : Bytes} (hx : ∀ b ∈ x, (b == lineFeed) = false) :
    lineText x = Utf8.decode (dropFinal carriageReturn x) := by
  rw [lineText, show dropFinal lineFeed x = x from if_neg fun h => by
    simpa using hx lineFeed (List.mem_of_getLast? h)]

/-- Cutting first and decoding each piece gives the lines of the whole decoded text, but for a
carriage return at the very end, which is dropped with the piece and kept with the text. -/
theorem lines_decode (bytes : Bytes) :
    (bytes.getLast? ≠ some carriageReturn ∧
      (Utf8.decode bytes).lines = (cutAfter (· == lineFeed) bytes).map lineText) ∨
    (bytes.getLast? = some carriageReturn ∧ ∃ front last,
      (cutAfter (· == lineFeed) bytes).map lineText = front ++ [last] ∧
      (Utf8.decode bytes).lines = front ++ [last ++ ['\r']]) := by
  rw [Text.lines, cutAfter_decode, List.map_map]
  induction bytes using cut_induction (p := (· == lineFeed)) with
  | last x hx =>
    by_cases hne : x = []
    · simp [hne, cutAfter]
    · have hw := withoutLineEnding_decode_last hx
      rw [cutAfter_of_none hx hne, List.map_singleton, List.map_singleton, Function.comp_apply,
        hw, lineText_last hx]
      by_cases hc : x.getLast? = some carriageReturn
      · obtain ⟨front, rfl⟩ := List.getLast?_eq_some_iff.mp hc
        refine .inr ⟨hc, [], _, rfl, ?_⟩
        rw [dropFinal_concat, decode_carriageReturn, List.nil_append]
      · exact .inl ⟨hc, by rw [dropFinal, if_neg hc]⟩
  | piece x a y hx ha ih =>
    obtain rfl : a = lineFeed := by simpa using ha
    rw [cutAfter_append hx ha, List.map_cons, List.map_cons, Function.comp_apply,
      withoutLineEnding_decode_piece]
    -- Behind a line feed the bytes end with a carriage return of the rest or not at all.
    have hlast : (x ++ lineFeed :: y).getLast? = some carriageReturn ↔
        y.getLast? = some carriageReturn := by
      rw [List.getLast?_append, List.getLast?_cons]
      cases y.getLast? <;> simp [lineFeed, carriageReturn]
    rw [hlast, Ne, hlast]
    rcases ih with ⟨hc, hl⟩ | ⟨hc, front, last, hf, hl⟩
    · exact .inl ⟨hc, by rw [hl]⟩
    · exact .inr ⟨hc, _ :: front, last, by rw [hf, List.cons_append], by rw [hl, List.cons_append]⟩

end LineGrammar
