import Mathlib.Data.Nat.PSub
import LineGrammar.Proofs.Diagnoses
import LineGrammar.Proofs.Spans

/-! Checking a line by slices. A slice of a text may be missing: its ends must lie in order, inside
the text, and between characters. Here each step takes what it looks at from the text by a span, or
from a list by a place, and no position may fall below zero; all slices are there, and the report is
the same. -/

namespace LineGrammar

/-- What a list holds before a place, which must not lie beyond its end. -/
def elementsBefore? {α : Type} (place : Nat) (l : List α) : Option (List α) :=
  if place ≤ l.length then some (l.take place) else none

def elementsFrom? {α : Type} (place : Nat) (l : List α) : Option (List α) :=
  if place ≤ l.length then some (l.drop place) else none

namespace Text

/-- Splits a text at an offset, unless that lies inside a character or beyond the end. -/
def splitAt? : Nat → Text → Option (Text × Text)
  | 0, t => some ([], t)
  | _ + 1, [] => none
  | n + 1, c :: t =>
    if c.utf8Size ≤ n + 1 then (splitAt? (n + 1 - c.utf8Size) t).map fun (front, later) =>
      (c :: front, later)
    else none

def slice? (t : Text) (p : Span) : Option Text :=
  if p.stop < p.start then none
  else do
    let (_, rest) ← t.splitAt? p.start
    let (piece, _) ← rest.splitAt? (p.stop - p.start)
    return piece

/-- An offset between two characters, or at an end of the text. -/
def IsBoundary (t : Text) (offset : Nat) : Prop :=
  ∃ front later, t = front ++ later ∧ offset = front.byteSize

structure Sliceable (t : Text) (p : Span) : Prop where
  ordered : p.start ≤ p.stop
  start : t.IsBoundary p.start
  stop : t.IsBoundary p.stop

def tokenAt? (t : Text) (p : Span) : Option Token := do
  let word ← t.slice? p
  return ⟨word, Category.ofWord word, p.start⟩

/-- What is left of the last word, as long as it is without its marks. -/
def bodyAt? (t : Text) (last : Span) (size : Nat) : Option (List Token) :=
  if size = 0 then some []
  else (t.tokenAt? ⟨last.start, last.start + size⟩).map fun token => [token]

/-- The last byte of the last word. -/
def signAt? (t : Text) (mark : EndMark) (last : Span) : Option (List Token) := do
  let start ← last.stop.ppred
  let sign ← t.slice? ⟨start, last.stop⟩
  return [⟨sign, .endMark mark, start⟩]

def closingTokensAt? (t : Text) (mark : EndMark) (last : Span) : Option (List Token) := do
  let word ← t.slice? last
  let size := Text.byteSize (dropTrailing (· == mark.char) word)
  let body ← t.bodyAt? last size
  if size < word.byteSize then return body ++ (← t.signAt? mark last) else return body

def headAt? (t : Text) (leading : List Span) (last : Span) : Option Category :=
  match leading with
  | first :: _ => (t.slice? first).map Category.ofWord
  | [] => (t.slice? last).map fun word => Category.ofWord (dropTrailing isAnyMark word)

end Text

namespace Statement

/-- Nothing if a slice is missing, and no statement if the line is blank. -/
def ofSlices? (line : Nat) (text : Text) : Option (Option Statement) :=
  match text.spans.getLast? with
  | none => return none
  | some last => do
    let leading := text.spans.dropLast
    let head ← text.headAt? leading last
    let front ← leading.mapM text.tokenAt?
    let closing ← text.closingTokensAt? head.requiredMark last
    return some ⟨line, text, head, front ++ closing⟩

/-- The operands of a guard are cut at the first comparison. Neither cut may lie beyond the end. -/
def checkGuardSlices? (cs : List Category) : Option (Except Defect Unit) :=
  let inner := cs.tail.dropLast
  match inner.findIdx? (· == .comparison) with
  | none => return .error .noComparison
  | some place =>
    if 1 < inner.count .comparison then
      return .error (.manyComparisons (inner.count .comparison))
    else do
      let left ← elementsBefore? place inner
      let right ← elementsFrom? (place + 1) inner
      return Operand.check left >>= fun _ => Operand.check right

def ruleSlices? (head : Category) (cs : List Category) : Option (Except Defect Kind) :=
  match head with
  | .conditional => (checkGuardSlices? cs).map (·.map fun _ => .conditional)
  | .loop => (checkGuardSlices? cs).map (·.map fun _ => .loop)
  | _ => return rule head cs

def judgeSlices? (s : Statement) : Option (Except Defect Kind) :=
  if s.endMark? ≠ some s.head.requiredMark then
    return .error (.missingEndMark s.head.requiredMark)
  else
    match s.tokens.find? (·.category == .unknown) with
    | some t => do
      let before ← s.text.slice? ⟨0, t.start⟩
      return .error (.unknownToken t.text (before.length + 1))
    | none => ruleSlices? s.head s.categories

end Statement

def Report.ofSlices? (line : Nat) (text : Text) : Option Report := do
  match ← Statement.ofSlices? line text with
  | none => return ⟨line, text, .blank⟩
  | some s =>
    match ← s.judgeSlices? with
    | .ok kind => return ⟨line, text, .accepted kind⟩
    | .error defect => return ⟨line, text, .rejected defect⟩

namespace Text

variable {t piece : Text} {p : Span}

theorem splitAt?_eq_some_iff {offset : Nat} {front later : Text} :
    splitAt? offset t = some (front, later) ↔ t = front ++ later ∧ offset = front.byteSize := by
  constructor
  · intro h
    fun_induction splitAt? offset t generalizing front with
    | case1 t =>
      cases h
      exact ⟨rfl, rfl⟩
    | case2 => cases h
    | case3 n c t hc ih =>
      obtain ⟨⟨rest, _⟩, hr, he⟩ := Option.map_eq_some_iff.mp h
      cases he
      obtain ⟨rfl, hn⟩ := ih hr
      refine ⟨rfl, ?_⟩
      rw [byteSize_cons]
      omega
    | case4 => cases h
  · rintro ⟨rfl, rfl⟩
    induction front with
    | nil => simp [splitAt?]
    | cons c front ih =>
      have hpos := Char.utf8Size_pos c
      obtain ⟨n, hn⟩ : ∃ n, byteSize (c :: front) = n + 1 :=
        ⟨byteSize (c :: front) - 1, by rw [byteSize_cons]; omega⟩
      have hrest : n + 1 - c.utf8Size = byteSize front := by
        rw [byteSize_cons] at hn
        omega
      have hle : c.utf8Size ≤ n + 1 := by
        rw [byteSize_cons] at hn
        omega
      rw [hn, List.cons_append, splitAt?, if_pos hle, hrest, ih]
      rfl

/-- A slice is what stands at its span. -/
theorem slice?_eq_some_iff : t.slice? p = some piece ↔ t.Holds piece p := by
  rw [slice?]
  constructor
  · intro h
    split at h
    · cases h
    · next hp =>
      obtain ⟨⟨before, rest⟩, hb, h⟩ := Option.bind_eq_some_iff.mp h
      obtain ⟨⟨found, after⟩, hf, h⟩ := Option.bind_eq_some_iff.mp h
      cases h
      obtain ⟨rfl, hstart⟩ := splitAt?_eq_some_iff.mp hb
      obtain ⟨rfl, hsize⟩ := splitAt?_eq_some_iff.mp hf
      refine ⟨before, after, by simp, ?_⟩
      cases p
      dsimp only at hp hstart hsize
      rw [← hstart, ← hsize, Nat.add_sub_cancel' (by omega)]
  · rintro ⟨before, after, rfl, rfl⟩
    have hb : splitAt? before.byteSize (before ++ piece ++ after) =
        some (before, piece ++ after) := splitAt?_eq_some_iff.mpr ⟨by simp, rfl⟩
    have hp : splitAt? piece.byteSize (piece ++ after) = some (piece, after) :=
      splitAt?_eq_some_iff.mpr ⟨rfl, rfl⟩
    rw [if_neg (by simp)]
    simp only [hb, Nat.add_sub_cancel_left, Option.bind_eq_bind, Option.bind_some, hp]
    rfl

theorem Holds.sliceable (h : t.Holds piece p) : t.Sliceable p := by
  obtain ⟨before, after, rfl, rfl⟩ := h
  exact ⟨Nat.le_add_right _ _, ⟨before, piece ++ after, by simp, rfl⟩,
    ⟨before ++ piece, after, rfl, by simp⟩⟩

theorem exists_slice?_iff : (∃ piece, t.slice? p = some piece) ↔ t.Sliceable p := by
  simp only [slice?_eq_some_iff]
  refine ⟨fun ⟨piece, h⟩ => h.sliceable, ?_⟩
  rintro ⟨ho, ⟨before, rest, hb, hs⟩, ⟨front, after, hf, he⟩⟩
  obtain ⟨piece, rfl, -⟩ := exists_append_of_byteSize_le (hb.symm.trans hf) (by omega)
  refine ⟨piece, before, after, hf, ?_⟩
  cases p
  rw [byteSize_append] at he
  simp_all

example : slice? ['é', '5'] ⟨0, 1⟩ = none ∧ slice? ['é', '5'] ⟨0, 2⟩ = some ['é'] := by decide

theorem slice?_span {w : Word} (hw : w ∈ t.words) : t.slice? w.span = some w.text :=
  slice?_eq_some_iff.mpr (standsIn_of_mem_wordsFrom hw).holds

theorem tokenAt?_of_holds (h : t.Holds piece p) :
    t.tokenAt? p = some (Word.token ⟨p.start, piece⟩) := by
  rw [tokenAt?, slice?_eq_some_iff.mpr h]
  rfl

theorem Holds.append {x y : Text} (h : t.Holds (x ++ y) p) :
    t.Holds x ⟨p.start, p.start + x.byteSize⟩ ∧ t.Holds y ⟨p.start + x.byteSize, p.stop⟩ := by
  obtain ⟨before, after, rfl, rfl⟩ := h
  refine ⟨⟨before, y ++ after, by simp, rfl⟩, ⟨before ++ x, after, by simp, ?_⟩⟩
  simp only [byteSize_append, Nat.add_assoc]

/-- A word without its marks begins where the word does. -/
theorem Holds.body (h : t.Holds piece p) (mark : EndMark) :
    t.Holds (dropTrailing (· == mark.char) piece)
      ⟨p.start, p.start + byteSize (dropTrailing (· == mark.char) piece)⟩ := by
  obtain ⟨k, hk⟩ := exists_dropTrailing_append_replicate mark.char piece
  rw [← hk] at h
  exact h.append.1

/-- A word that marks are taken off has one as its last byte. -/
theorem Holds.sign (h : t.Holds piece p) {mark : EndMark}
    (hd : dropTrailing (· == mark.char) piece ≠ piece) :
    ∃ start, p.stop = start + 1 ∧ t.Holds [mark.char] ⟨start, p.stop⟩ := by
  obtain ⟨front, rfl⟩ := List.getLast?_eq_some_iff.mp (dropTrailing_ne_self_iff.mp hd)
  have hsize : byteSize [mark.char] = 1 := byteSize_replicate mark 1
  refine ⟨p.start + byteSize front, ?_, h.append.2⟩
  obtain ⟨before, after, -, rfl⟩ := h
  dsimp only
  rw [byteSize_append, hsize, Nat.add_assoc]

theorem byteSize_dropTrailing_lt {mark : EndMark}
    (hd : dropTrailing (· == mark.char) piece ≠ piece) :
    byteSize (dropTrailing (· == mark.char) piece) < byteSize piece := by
  obtain ⟨k, hk⟩ := exists_dropTrailing_append_replicate mark.char piece
  have hsize := congrArg byteSize hk
  rw [byteSize_append, byteSize_replicate] at hsize
  have hpos : k ≠ 0 := by
    rintro rfl
    rw [List.replicate_zero, List.append_nil] at hk
    exact hd hk
  omega

theorem bodyAt?_of_holds {w : Word} (h : t.Holds w.text w.span) (mark : EndMark) :
    t.bodyAt? w.span (byteSize (dropTrailing (· == mark.char) w.text)) =
      some (if (w.body mark).text = [] then [] else [(w.body mark).token]) := by
  have hbody : (w.body mark).text = dropTrailing (· == mark.char) w.text := rfl
  rw [bodyAt?, tokenAt?_of_holds (h.body mark), hbody]
  by_cases hd : dropTrailing (· == mark.char) w.text = []
  · rw [if_pos (byteSize_eq_zero_iff.mpr hd), if_pos hd]
  · rw [if_neg (mt byteSize_eq_zero_iff.mp hd), if_neg hd]
    rfl

theorem signAt?_of_holds {w : Word} {mark : EndMark} (h : t.Holds w.text w.span)
    (hd : dropTrailing (· == mark.char) w.text ≠ w.text) :
    t.signAt? mark w.span = some [⟨[mark.char], .endMark mark, w.stop - 1⟩] := by
  obtain ⟨start, hstop, hsign⟩ := h.sign hd
  have hstart : w.stop - 1 = start := by
    rw [show w.stop = start + 1 from hstop, Nat.add_sub_cancel]
  have hpred : w.span.stop.ppred = some start := by
    rw [hstop, Nat.ppred_succ]
  rw [signAt?, hpred, hstart]
  simp only [Option.bind_eq_bind, Option.bind_some, slice?_eq_some_iff.mpr hsign]
  rfl

theorem closingTokensAt?_of_holds {w : Word} (h : t.Holds w.text w.span) (mark : EndMark) :
    t.closingTokensAt? mark w.span = some (w.closingTokens mark) := by
  rw [closingTokensAt?, slice?_eq_some_iff.mpr h, Word.closingTokens]
  simp only [Option.bind_eq_bind, Option.bind_some, bodyAt?_of_holds h]
  by_cases hd : dropTrailing (· == mark.char) w.text = w.text
  · rw [if_neg (by rw [hd]; exact lt_irrefl _), if_pos ((body_eq_iff mark w).mpr hd),
      List.append_nil]
    rfl
  · rw [if_pos (byteSize_dropTrailing_lt hd), if_neg (mt (body_eq_iff mark w).mp hd),
      signAt?_of_holds h hd]
    rfl

theorem mapM_tokenAt?_spans {ws : List Word} (h : ∀ w ∈ ws, w ∈ t.words) :
    (ws.map Word.span).mapM t.tokenAt? = some (ws.map Word.token) := by
  induction ws with
  | nil => rfl
  | cons w ws ih =>
    have hw : t.tokenAt? w.span = some w.token :=
      tokenAt?_of_holds (standsIn_of_mem_wordsFrom (h w List.mem_cons_self)).holds
    rw [List.map_cons, List.mapM_cons, hw, ih fun v hv => h v (List.mem_cons_of_mem _ hv)]
    rfl

theorem headAt?_spans {front : List Word} {last first : Word} {later : List Word}
    (hw : t.words = front ++ [last]) (hfirst : front ++ [last] = first :: later) :
    t.headAt? (front.map Word.span) last.span = some (Statement.headOf first later) := by
  cases front with
  | nil =>
    obtain ⟨rfl, rfl⟩ := List.cons.inj hfirst
    rw [List.map_nil, headAt?, slice?_span (hw ▸ List.mem_singleton_self last)]
    rfl
  | cons w front =>
    obtain ⟨rfl, rfl⟩ := List.cons.inj hfirst
    rw [List.map_cons, headAt?, slice?_span (hw ▸ List.mem_cons_self), Statement.headOf, if_neg]
    · rfl
    · exact List.append_ne_nil_of_right_ne_nil _ (List.cons_ne_nil _ _)

end Text

theorem Statement.ofSlices?_eq (line : Nat) (text : Text) :
    ofSlices? line text = some (ofLine? line text) := by
  rw [ofSlices?, ofLine?, Text.spans]
  rcases List.eq_nil_or_concat' text.words with hw | ⟨front, last, hw⟩
  · rw [hw]
    rfl
  · have hne : front ++ [last] ≠ [] := by simp
    obtain ⟨first, later, hfirst⟩ := List.exists_cons_of_ne_nil hne
    have hmem : ∀ w ∈ front, w ∈ text.words := fun w hm => hw ▸ List.mem_append_left _ hm
    have hlast : last ∈ text.words := hw ▸ List.mem_append_right _ (List.mem_singleton_self last)
    have hclosing := Text.closingTokensAt?_of_holds (standsIn_of_mem_wordsFrom hlast).holds
      (headOf first later).requiredMark
    rw [hw, List.map_append, List.map_singleton, List.getLast?_concat]
    simp only [List.dropLast_concat, Text.headAt?_spans hw hfirst, Text.mapM_tokenAt?_spans hmem,
      Option.bind_eq_bind, Option.bind_some, hclosing]
    rw [hfirst]
    simp only [← hfirst, tokensOf_concat]
    rfl

theorem findIdx?_comparison_of_not_mem {cs : List Category} (h : .comparison ∉ cs) :
    cs.findIdx? (· == .comparison) = none := by
  rw [List.findIdx?_eq_none_iff]
  exact fun c hc => beq_eq_false_iff_ne.mpr fun he => h (he ▸ hc)

theorem Statement.checkGuardSlices?_eq (cs : List Category) :
    checkGuardSlices? cs = some (checkGuard cs) := by
  simp only [checkGuardSlices?, checkGuard]
  generalize cs.tail.dropLast = inner
  by_cases hm : .comparison ∈ inner
  · have hcount := List.count_pos_iff.mpr hm
    obtain ⟨left, right, rfl, hleft⟩ := List.eq_append_cons_of_mem hm
    have hplace :
        (left ++ .comparison :: right).findIdx? (· == .comparison) = some left.length := by
      rw [List.findIdx?_append, findIdx?_comparison_of_not_mem hleft, List.findIdx?_cons]
      simp
    rw [hplace, takeWhile_ne_append hleft, dropWhile_ne_append hleft]
    generalize (left ++ Category.comparison :: right).count .comparison = count at hcount ⊢
    rcases count with _ | _ | count
    · cases hcount
    · simp [elementsBefore?, elementsFrom?]
    · simp
  · rw [findIdx?_comparison_of_not_mem hm, List.count_eq_zero.mpr hm]
    rfl

theorem Statement.ruleSlices?_eq (head : Category) (cs : List Category) :
    ruleSlices? head cs = some (rule head cs) := by
  cases head <;> simp [ruleSlices?, rule, checkGuardSlices?_eq]

theorem Statement.judgeSlices?_eq {s : Statement}
    (h : ∀ t ∈ s.tokens, s.text.IsBoundary t.start) :
    s.judgeSlices? = some s.judge := by
  rw [judgeSlices?, judge]
  split
  · rfl
  · cases hf : s.tokens.find? (·.category == .unknown) with
    | none => exact ruleSlices?_eq s.head s.categories
    | some t =>
      obtain ⟨before, after, hs, ht⟩ := h t (List.mem_of_find?_eq_some hf)
      have hcolumn : s.text.column t.start = before.length + 1 := by
        rw [hs, ht, column_byteSize]
      have hslice : s.text.slice? ⟨0, t.start⟩ = some before :=
        Text.slice?_eq_some_iff.mpr ⟨[], after, hs, by rw [ht]; simp⟩
      simp only [hslice, hcolumn]
      rfl

theorem Token.StandsIn.holds {t : Token} {text : Text} (h : t.StandsIn 0 text) :
    text.Holds t.text ⟨t.start, t.stop⟩ :=
  Word.StandsIn.holds h

theorem holds_of_mem_tokens {line : Nat} {text : Text} {s : Statement}
    (h : Statement.ofLine? line text = some s) {t : Token} (ht : t ∈ s.tokens) :
    text.Holds t.text ⟨t.start, t.stop⟩ := by
  obtain ⟨rfl, before, word, after, ts, hparts⟩ := Statement.exists_parts h
  exact (hparts.standsIn ht).holds

theorem Report.ofSlices?_eq (line : Nat) (text : Text) :
    ofSlices? line text = some (ofLine line text) := by
  rw [ofSlices?, Statement.ofSlices?_eq, ofLine]
  cases hs : Statement.ofLine? line text with
  | none => rfl
  | some s =>
    have hboundary : ∀ t ∈ s.tokens, s.text.IsBoundary t.start := by
      rw [(start_le_of_mem_ofLine? hs).1]
      exact fun t ht => (holds_of_mem_tokens hs ht).sliceable.start
    simp only [Option.bind_eq_bind, Option.bind_some, Statement.judgeSlices?_eq hboundary,
      Option.map_some, Option.getD_some, Verdict.ofStatement]
    cases s.judge <;> rfl

/-- No step of checking a line lacks its slice, and what the slices give is the report. Words and
tokens have both ends between characters of the line, as has the place where a word without its
marks ends; a word that marks are taken off ends with one that is a byte of its own; and so has the
text in front of each token. -/
theorem ofSlices?_eq_ofLine (line : Nat) (text : Text) :
    Report.ofSlices? line text = some (Report.ofLine line text) ∧
      (∀ p ∈ text.spans, text.Sliceable p) ∧
      (∀ w ∈ text.words, ∀ mark : EndMark,
        text.Sliceable ⟨w.start, w.start + Text.byteSize (dropTrailing (· == mark.char) w.text)⟩ ∧
        (dropTrailing (· == mark.char) w.text ≠ w.text →
          w.text.getLast? = some mark.char ∧ mark.char.utf8Size = 1 ∧
            ∃ start, w.stop = start + 1 ∧ text.Sliceable ⟨start, w.stop⟩)) ∧
      ∀ s, Statement.ofLine? line text = some s → ∀ t ∈ s.tokens,
        text.Sliceable ⟨t.start, t.stop⟩ ∧ text.Sliceable ⟨0, t.start⟩ := by
  have hholds {w : Word} (hw : w ∈ text.words) : text.Holds w.text w.span :=
    (standsIn_of_mem_wordsFrom hw).holds
  refine ⟨Report.ofSlices?_eq line text, fun p hp => ?_, fun w hw mark => ⟨?_, fun hd => ?_⟩,
    fun s hs t ht => ?_⟩
  · obtain ⟨w, hw, rfl⟩ := List.mem_map.mp hp
    exact (hholds hw).sliceable
  · exact ((hholds hw).body mark).sliceable
  · obtain ⟨start, hstop, hsign⟩ := (hholds hw).sign hd
    exact ⟨dropTrailing_ne_self_iff.mp hd, byteSize_replicate mark 1, start, hstop, hsign.sliceable⟩
  · have hslice := (holds_of_mem_tokens hs ht).sliceable
    exact ⟨hslice, Nat.zero_le _, ⟨[], text, rfl, rfl⟩, hslice.start⟩

/-- Wide characters in words and between them. The first word is unknown, so its column is read from
the text in front of it. -/
theorem ofSlices?_eq_ofLine_of_wide_text :
    let text : Text := "\u3000é = 7é:;;\u3000".toList
    let last : Word := ⟨8, "7é:;;".toList⟩
    let number : Token := ⟨"7é:".toList, .number, 8⟩
    (last ∈ text.words ∧ last.span ∈ text.spans ∧
      dropTrailing (· == EndMark.semicolon.char) last.text ≠ last.text ∧
      ∃ s, Statement.ofLine? 1 text = some s ∧ number ∈ s.tokens) ∧
    Report.ofSlices? 1 text = some (Report.ofLine 1 text) ∧
    (Report.ofLine 1 text).verdict = .rejected (.unknownToken ['é'] 2) ∧
    text.Sliceable ⟨8, 14⟩ ∧ text.Sliceable ⟨8, 12⟩ ∧ text.Sliceable ⟨13, 14⟩ ∧
    text.Sliceable ⟨0, 8⟩ := by
  intro text last number
  obtain ⟨hreport, hspans, hwords, htokens⟩ := ofSlices?_eq_ofLine 1 text
  have hlast : last ∈ text.words := by decide
  have hspan : last.span ∈ text.spans := by decide
  have hdrop : dropTrailing (· == EndMark.semicolon.char) last.text ≠ last.text := by decide
  have hstatement : ∃ s, Statement.ofLine? 1 text = some s ∧ number ∈ s.tokens := by
    refine ⟨⟨1, text, .unknown, [⟨['é'], .unknown, 3⟩, ⟨['='], .assignment, 6⟩, number,
      ⟨[';'], .endMark .semicolon, 13⟩]⟩, by decide, by decide⟩
  refine ⟨⟨hlast, hspan, hdrop, hstatement⟩, hreport, by decide, hspans _ hspan, ?_, ?_, ?_⟩
  · exact (hwords last hlast .semicolon).1
  · obtain ⟨-, -, start, hstop, hsign⟩ := (hwords last hlast .semicolon).2 hdrop
    obtain rfl : start = 13 := (Nat.succ.inj hstop).symm
    exact hsign
  · obtain ⟨s, hs, ht⟩ := hstatement
    exact (htokens s hs number ht).2

end LineGrammar
