import LineGrammar.Proofs.Invocations

/-! How lines end. A carriage return in front of each line feed makes no difference to a session, and
neither does a line ending behind the last line. -/

namespace LineGrammar

/-- Refills that hold these bytes before the end of input, in whatever pieces. -/
def Refill.Bring (refills : List Refill) (bytes : Bytes) : Prop :=
  (Reader.ofRefills refills).outlook = [.chunk bytes]

namespace Bytes

/-- Sessions over either of two byte strings write the same and end with the same result. -/
def RunLike (x y : Bytes) : Prop :=
  ∀ a b, Refill.Bring a x → Refill.Bring b y →
    ∀ sink, Session.ofRefills a sink = Session.ofRefills b sink

def lineTexts (bytes : Bytes) : List Text :=
  (cutAfter (· == lineFeed) bytes).map lineText

def withCarriageReturns (bytes : Bytes) : Bytes :=
  bytes.flatMap fun b => if b = lineFeed then [carriageReturn, lineFeed] else [b]

variable {bytes x y : Bytes}

/-- Nothing counts but the texts of the lines. -/
theorem RunLike.of_lineTexts_eq (h : lineTexts x = lineTexts y) : RunLike x y := by
  have hend {refills : List Refill} {bytes : Bytes} (hb : Refill.Bring refills bytes) :
      (ReportStream.ofRefills refills).untilEnd = (reportsFrom 1 (lineTexts bytes)).map .ok := by
    have halike : ReportStream.Alike (.ofRefills refills) (.ofRefills [.chunk bytes]) :=
      ⟨Eq.trans hb (outlook_chunk bytes).symm, rfl, rfl⟩
    exact halike.untilEnd_eq.trans (untilEnd_chunk bytes)
  intro a b ha hb sink
  rw [Session.ofRefills, Session.ofRefills, hend ha, hend hb, h]

theorem withCarriageReturns_of_none (hx : ∀ b ∈ x, (b == lineFeed) = false) :
    withCarriageReturns x = x := by
  induction x with
  | nil => rfl
  | cons b x ih =>
    have hb : b ≠ lineFeed := by simpa using hx b List.mem_cons_self
    have hh := ih fun c hc => hx c (List.mem_cons_of_mem _ hc)
    rw [withCarriageReturns] at hh ⊢
    rw [List.flatMap_cons, if_neg hb, hh]
    rfl

theorem withCarriageReturns_append (hx : ∀ b ∈ x, (b == lineFeed) = false) (y : Bytes) :
    withCarriageReturns (x ++ lineFeed :: y) =
      x ++ [carriageReturn] ++ lineFeed :: withCarriageReturns y := by
  have hh := withCarriageReturns_of_none hx
  rw [withCarriageReturns] at hh ⊢
  rw [List.flatMap_append, hh, List.flatMap_cons, if_pos rfl, List.append_assoc]
  rfl

theorem lineTexts_of_none (hx : ∀ b ∈ x, (b == lineFeed) = false) (hne : x ≠ []) :
    lineTexts x = [Utf8.decode (dropFinal carriageReturn x)] := by
  rw [lineTexts, cutAfter_of_none hx hne, List.map_singleton, lineText_last hx]

theorem lineTexts_append (hx : ∀ b ∈ x, (b == lineFeed) = false) (y : Bytes) :
    lineTexts (x ++ lineFeed :: y) =
      Utf8.decode (dropFinal carriageReturn x) :: lineTexts y := by
  rw [lineTexts, cutAfter_append hx rfl, List.map_cons, lineText, dropFinal_concat]
  rfl

theorem not_lineFeed_of_concat (hx : ∀ b ∈ x, (b == lineFeed) = false) :
    ∀ b ∈ x ++ [carriageReturn], (b == lineFeed) = false := by
  intro b hb
  rcases List.mem_append.mp hb with hb | hb
  · exact hx b hb
  · obtain rfl := List.mem_singleton.mp hb
    decide

theorem dropFinal_of_ne (hx : x.getLast? ≠ some carriageReturn) :
    dropFinal carriageReturn x = x := by
  rw [dropFinal, if_neg hx]

theorem lineTexts_withCarriageReturns
    (h : ¬ [carriageReturn, lineFeed] <:+: bytes) :
    lineTexts (withCarriageReturns bytes) = lineTexts bytes := by
  induction bytes using cut_induction (p := (· == lineFeed)) with
  | last x hx => rw [withCarriageReturns_of_none hx]
  | piece x a y hx ha ih =>
    obtain rfl : a = lineFeed := by simpa using ha
    have hlast : x.getLast? ≠ some carriageReturn := by
      intro hl
      obtain ⟨front, rfl⟩ := List.getLast?_eq_some_iff.mp hl
      exact h ⟨front, y, by simp⟩
    have hsuffix : y <:+ x ++ lineFeed :: y := ⟨x ++ [lineFeed], by simp⟩
    have hy := ih fun hi => h (hi.trans hsuffix.isInfix)
    rw [withCarriageReturns_append hx, lineTexts_append (not_lineFeed_of_concat hx),
      lineTexts_append hx, hy, dropFinal_concat, dropFinal_of_ne hlast]

/-- What stands behind the bytes is seen by the last line alone. -/
theorem lineTexts_append_ending {ending : Bytes} (hne : bytes ≠ [])
    (hlast : bytes.getLast? ≠ some lineFeed)
    (h : ∀ x : Bytes, (∀ b ∈ x, (b == lineFeed) = false) → x ≠ [] → x.getLast? = bytes.getLast? →
      lineTexts (x ++ ending) = lineTexts x) :
    lineTexts (bytes ++ ending) = lineTexts bytes := by
  induction bytes using cut_induction (p := (· == lineFeed)) with
  | last x hx => exact h x hx hne rfl
  | piece x a y hx ha ih =>
    obtain rfl : a = lineFeed := by simpa using ha
    have hy : y ≠ [] := by
      rintro rfl
      exact hlast (by simp)
    have hl : (x ++ lineFeed :: y).getLast? = y.getLast? := by
      rw [List.append_cons, List.getLast?_append_of_ne_nil _ hy]
    rw [hl] at hlast h
    rw [List.append_assoc, List.cons_append, lineTexts_append hx, lineTexts_append hx,
      ih hy hlast h]

theorem lineTexts_append_lineFeed (hne : bytes ≠ []) (hlast : bytes.getLast? ≠ some lineFeed) :
    lineTexts (bytes ++ [lineFeed]) = lineTexts bytes := by
  refine lineTexts_append_ending hne hlast fun x hx hn _ => ?_
  rw [lineTexts_append hx, lineTexts_of_none hx hn]
  rfl

theorem lineTexts_append_carriageReturn_lineFeed (hne : bytes ≠ [])
    (hlast : bytes.getLast? ≠ some lineFeed) (hreturn : bytes.getLast? ≠ some carriageReturn) :
    lineTexts (bytes ++ [carriageReturn, lineFeed]) = lineTexts bytes := by
  refine lineTexts_append_ending hne hlast fun x hx hn hl => ?_
  have he := lineTexts_append (not_lineFeed_of_concat hx) []
  rw [List.append_assoc, dropFinal_concat] at he
  rw [lineTexts_of_none hx hn, dropFinal_of_ne (hl ▸ hreturn)]
  exact he

end Bytes

/-- Sessions do not tell the two styles of line endings apart, nor whether the last line has one.
Carriage returns that stand in front of a line feed already, or at the very end, are kept out, since
only one is taken off. -/
theorem runLike_of_lineEndings (bytes : Bytes) :
    (¬ [carriageReturn, lineFeed] <:+: bytes → bytes.withCarriageReturns.RunLike bytes) ∧
    (bytes ≠ [] → bytes.getLast? ≠ some lineFeed →
      (bytes ++ [lineFeed] : Bytes).RunLike bytes ∧
      (bytes.getLast? ≠ some carriageReturn →
        (bytes ++ [carriageReturn, lineFeed] : Bytes).RunLike bytes)) := by
  refine ⟨fun h => ?_, fun hne hlast => ⟨?_, fun hreturn => ?_⟩⟩
  · exact .of_lineTexts_eq (Bytes.lineTexts_withCarriageReturns h)
  · exact .of_lineTexts_eq (Bytes.lineTexts_append_lineFeed hne hlast)
  · exact .of_lineTexts_eq (Bytes.lineTexts_append_carriageReturn_lineFeed hne hlast hreturn)

/-- Carriage returns inside a line and in an empty one, and a character cut in the middle. -/
theorem runLike_of_lineEndings_of_inner_returns :
    let bytes : Bytes := [120, 32, 61, 13, 49, 59, 10, 10, 13, 195, 169]
    (¬ [carriageReturn, lineFeed] <:+: bytes ∧ bytes ≠ [] ∧
      bytes.getLast? ≠ some lineFeed ∧ bytes.getLast? ≠ some carriageReturn) ∧
    bytes.withCarriageReturns = [120, 32, 61, 13, 49, 59, 13, 10, 13, 10, 13, 195, 169] ∧
    ∀ sink, let session := Session.ofRefills [.chunk (bytes.take 10), .chunk (bytes.drop 10)] sink
      Session.ofRefills [.chunk bytes.withCarriageReturns] sink = session ∧
      Session.ofRefills [.chunk bytes, .interruption, .chunk [lineFeed]] sink = session ∧
      Session.ofRefills [.chunk (bytes ++ [carriageReturn]), .chunk [lineFeed]] sink = session := by
  intro bytes
  have hreturn : ¬ [carriageReturn, lineFeed] <:+: bytes := by decide
  have hlast : bytes.getLast? ≠ some lineFeed := by decide
  have hlast' : bytes.getLast? ≠ some carriageReturn := by decide
  obtain ⟨hstyle, hending⟩ := runLike_of_lineEndings bytes
  obtain ⟨hfeed, hboth⟩ := hending (by decide) hlast
  refine ⟨⟨hreturn, by decide, hlast, hlast'⟩, by decide, fun sink => ⟨?_, ?_, ?_⟩⟩
  · exact hstyle hreturn _ _ (by rfl) (by rfl) sink
  · exact hfeed _ _ (by rfl) (by rfl) sink
  · exact hboth hlast' _ _ (by rfl) (by rfl) sink

end LineGrammar
