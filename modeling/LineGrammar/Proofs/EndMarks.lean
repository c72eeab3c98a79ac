import LineGrammar.Proofs.Rendering
import LineGrammar.Proofs.Spelling

/-! How a line is closed. Whether the mark at the end of a line is attached to the last word or
stands behind blanks, and whether it is written once or repeatedly, makes no difference to what is
found, also where it is the wrong mark. -/

namespace LineGrammar

/-- A last word without marks at its end. -/
structure PlainWord (p w : Text) : Prop extends LastWord p w where
  unmarked : ∀ c ∈ w.getLast?, isAnyMark c = false

/-- A mark, written once or more, perhaps behind blanks, with blanks behind it. -/
def Closes (mark : EndMark) (z : Text) : Prop :=
  ∃ x k y, (∀ c ∈ x, isBlank c = true) ∧ (∀ c ∈ y, isBlank c = true) ∧
    z = x ++ List.replicate (k + 1) mark.char ++ y

theorem isBlank_char (mark : EndMark) : isBlank mark.char = false := by
  cases mark <;> decide

theorem EndMark.char_inj {mark mark' : EndMark} (h : mark.char = mark'.char) : mark = mark' := by
  cases mark <;> cases mark' <;> first | rfl | exact absurd h (by decide)

theorem getLast?_append_replicate (w : Text) (k : Nat) (mark : Char) :
    (w ++ List.replicate (k + 1) mark).getLast? = some mark := by
  rw [List.replicate_succ', ← List.append_assoc, List.getLast?_concat]

theorem solid_replicate (mark : EndMark) (k : Nat) :
    ∀ c ∈ List.replicate k mark.char, isBlank c = false := by
  intro c hc
  rw [List.eq_of_mem_replicate hc]
  exact isBlank_char mark

namespace PlainWord

variable {p w z z' : Text} {mark : EndMark} {line line' : Nat} {s s' : Statement}

/-- A mark is attached to the word in front of it, or is a word of its own. -/
theorem words_cases (hw : PlainWord p w) (hz : Closes mark z) :
    ∃ k, Text.words (p ++ w ++ z) =
          p.words ++ [⟨p.byteSize, w ++ List.replicate (k + 1) mark.char⟩] ∨
      ∃ offset, Text.words (p ++ w ++ z) =
          p.words ++ [⟨p.byteSize, w⟩] ++ [⟨offset, List.replicate (k + 1) mark.char⟩] := by
  obtain ⟨x, k, y, hx, hy, rfl⟩ := hz
  refine ⟨k, ?_⟩
  by_cases hne : x = []
  · have hlast : LastWord p (w ++ List.replicate (k + 1) mark.char) := by
      refine ⟨hw.behind, List.append_ne_nil_of_left_ne_nil hw.nonempty _, fun c hc => ?_⟩
      rcases List.mem_append.mp hc with hc | hc
      · exact hw.solid c hc
      · exact solid_replicate mark _ c hc
    have h := hlast.words_append hy
    exact .inl (by simpa [hne] using h)
  · have hlast : LastWord (p ++ w ++ x) (List.replicate (k + 1) mark.char) := by
      refine ⟨?_, List.cons_ne_nil _ _, solid_replicate mark _⟩
      rw [List.getLast?_append_of_ne_nil _ hne]
      exact fun c hc => hx c (List.mem_of_getLast? hc)
    have h := hlast.words_append hy
    rw [hw.words_append hx] at h
    refine .inr ⟨Text.byteSize (p ++ w ++ x), ?_⟩
    simpa only [List.append_assoc] using h

theorem headCategory?_eq (hw : PlainWord p w) (hz : Closes mark z)
    (hs : Statement.ofLine? line (p ++ w ++ z) = some s) :
    some s.head = headCategory? (p.runs ++ [w]) := by
  have hplain : dropTrailing isAnyMark w = w := by
    simpa using @dropTrailing_append_marks w [] hw.unmarked (by simp)
  rw [← headCategory?_runs hs, (start_le_of_mem_ofLine? hs).1, ← map_text_words, ← map_text_words p]
  obtain ⟨k, h | ⟨offset, h⟩⟩ := hw.words_cases hz
  · have hmarks : ∀ c ∈ List.replicate (k + 1) mark.char, isAnyMark c = true := by
      intro c hc
      rw [List.eq_of_mem_replicate hc]
      exact isAnyMark_char mark
    rw [h, List.map_append, List.map_singleton, headCategory?_concat, headCategory?_concat,
      dropTrailing_append_marks hw.unmarked hmarks, hplain]
  · rw [h, List.map_append, List.map_append, List.map_singleton, List.map_singleton,
      headCategory?_concat, headCategory?_concat, hplain]
    cases p.words <;> rfl

theorem tokens_eq (hw : PlainWord p w) (hz : Closes mark z)
    (hs : Statement.ofLine? line (p ++ w ++ z) = some s) (hmark : s.head.requiredMark = mark) :
    ∃ start, s.tokens = (Text.words (p ++ w)).map Word.token ++
      [⟨[mark.char], .endMark mark, start⟩] := by
  have hwords : Text.words (p ++ w) = p.words ++ [⟨p.byteSize, w⟩] := by
    simpa using @LastWord.words_append p w [] hw.toLastWord (by simp)
  have htokens : s.tokens = Statement.tokensOf mark (Text.words (p ++ w ++ z)) := by
    obtain ⟨first, later, h, rfl⟩ := Statement.ofLine?_eq_some hs
    rw [h, ← hmark]
  rw [htokens, hwords]
  obtain ⟨k, h | ⟨offset, h⟩⟩ := hw.words_cases hz
  · have hlast := getLast?_ne_mark hw.unmarked mark
    refine ⟨p.byteSize + w.byteSize + k, ?_⟩
    rw [h, tokensOf_concat, closingTokens_attached hw.nonempty hlast, List.map_append,
      List.append_assoc]
    rfl
  · refine ⟨offset + k, ?_⟩
    rw [h, tokensOf_concat, closingTokens_detached]

theorem exists_runs (hw : PlainWord p w) (hz : Closes mark z) :
    ∃ front last, Text.runs (p ++ w ++ z) = front ++ [last] ∧
      last.getLast? = some mark.char := by
  rw [← map_text_words]
  obtain ⟨k, h | ⟨offset, h⟩⟩ := hw.words_cases hz
  · rw [h, List.map_append, List.map_singleton]
    exact ⟨_, _, rfl, getLast?_append_replicate w k mark.char⟩
  · rw [h, List.map_append, List.map_singleton]
    exact ⟨_, _, rfl, getLast?_append_replicate [] k mark.char⟩

theorem eq_of_endsIn (hw : PlainWord p w) (hz : Closes mark z) {expected : EndMark}
    (h : EndsIn (Text.runs (p ++ w ++ z)) expected) : expected = mark := by
  obtain ⟨front, last, hr, hmark⟩ := hw.exists_runs hz
  obtain ⟨found, hl, hc⟩ := h
  rw [hr, List.getLast?_concat] at hl
  obtain rfl := Option.some.inj hl
  exact EndMark.char_inj (Option.some.inj (hc.symm.trans hmark))

theorem ofStatement_eq_of_required (hw : PlainWord p w) (hz : Closes mark z) (hz' : Closes mark z')
    (hs : Statement.ofLine? line (p ++ w ++ z) = some s)
    (hs' : Statement.ofLine? line' (p ++ w ++ z') = some s') (hhead : s.head = s'.head)
    (hmark : s.head.requiredMark = mark) : Verdict.ofStatement s = Verdict.ofStatement s' := by
  obtain ⟨start, ht⟩ := hw.tokens_eq hz hs hmark
  obtain ⟨start', ht'⟩ := hw.tokens_eq hz' hs' (hhead ▸ hmark)
  have hc : s.categories = s'.categories := by
    rw [Statement.categories, Statement.categories, ht, ht', List.map_append, List.map_append]
    rfl
  have hcolumn (b : Text) {t : Token} (hm : t ∈ (Text.words (p ++ w)).map Word.token) :
      Text.column (p ++ w ++ b) t.start = Text.column (p ++ w) t.start := by
    obtain ⟨v, hv, rfl⟩ := List.mem_map.mp hm
    have hstop := stop_le_of_mem_wordsFrom hv
    rw [Nat.zero_add] at hstop
    exact column_append ((Nat.le_add_right _ _).trans hstop) b
  have halike := Statement.alike_of_categories_eq hhead hc
  generalize Verdict.ofStatement s = v, Verdict.ofStatement s' = v' at halike
  cases halike with
  | same => rfl
  | @unknown i t t' hi hu hi' hu' =>
    rw [ht] at hi
    rw [ht'] at hi'
    -- both statements share the tokens of `p ++ w`, and what follows is the mark
    by_cases hlt : i < ((Text.words (p ++ w)).map Word.token).length
    · rw [List.getElem?_append_left hlt] at hi hi'
      obtain rfl := Option.some.inj (hi.symm.trans hi')
      have hm := List.mem_of_getElem? hi
      rw [(start_le_of_mem_ofLine? hs).1, (start_le_of_mem_ofLine? hs').1, hcolumn z hm,
        hcolumn z' hm]
    · rw [List.getElem?_append_right (Nat.le_of_not_lt hlt)] at hi
      obtain rfl := List.mem_singleton.mp (List.mem_of_getElem? hi)
      cases hu

theorem verdict_eq (hw : PlainWord p w) (hz : Closes mark z) (hz' : Closes mark z')
    (line line' : Nat) :
    (Report.ofLine line (p ++ w ++ z)).verdict = (Report.ofLine line' (p ++ w ++ z')).verdict := by
  obtain ⟨front, last, hr, -⟩ := hw.exists_runs hz
  obtain ⟨front', last', hr', -⟩ := hw.exists_runs hz'
  obtain ⟨s, hs⟩ := exists_ofLine?_of_runs hr line
  obtain ⟨s', hs'⟩ := exists_ofLine?_of_runs hr' line'
  have hhead : s.head = s'.head :=
    Option.some.inj ((hw.headCategory?_eq hz hs).trans (hw.headCategory?_eq hz' hs').symm)
  rw [Report.ofLine, Report.ofLine, hs, hs']
  by_cases hmark : s.head.requiredMark = mark
  · exact hw.ofStatement_eq_of_required hz hz' hs hs' hhead hmark
  -- the last word ends in `mark` each time, so the mark that the head needs is missing
  · have hnot {b : Text} {n : Nat} {u : Statement} (hb : Closes mark b)
        (hu : Statement.ofLine? n (p ++ w ++ b) = some u) (hh : u.head = s.head) :
        u.judge = .error (.missingEndMark s.head.requiredMark) := by
      rw [← hh]
      refine Statement.judge_of_not_marked fun hm => hmark ?_
      have hends := (endMark?_iff_endsIn hu).mp hm
      rw [(start_le_of_mem_ofLine? hu).1, hh] at hends
      exact hw.eq_of_endsIn hb hends
    have hv := Verdict.ofStatement_eq_rejected_iff.mpr (hnot hz hs rfl)
    have hv' := Verdict.ofStatement_eq_rejected_iff.mpr (hnot hz' hs' hhead.symm)
    exact hv.trans hv'.symm

end PlainWord

/-- A mark means the same attached, repeated and detached, be it the one that is needed or not. -/
theorem verdict_eq_of_marks {p w x y : Text} (hp : ∀ c ∈ p.getLast?, isBlank c = true)
    (hne : w ≠ []) (hsolid : ∀ c ∈ w, isBlank c = false)
    (hlast : ∀ c ∈ w.getLast?, c ≠ ';' ∧ c ≠ ':') (mark : EndMark) {k : Nat} (hk : 1 ≤ k)
    (hx : ∀ c ∈ x, isBlank c = true) (hy : ∀ c ∈ y, isBlank c = true) (line : Nat) :
    (Report.ofLine line (p ++ w ++ List.replicate k mark.char ++ y)).verdict =
        (Report.ofLine line (p ++ w ++ [mark.char])).verdict ∧
      (Report.ofLine line (p ++ w ++ x ++ List.replicate k mark.char ++ y)).verdict =
        (Report.ofLine line (p ++ w ++ [mark.char])).verdict := by
  obtain ⟨n, rfl⟩ := Nat.exists_eq_add_of_le' hk
  have hw : PlainWord p w := by
    refine ⟨⟨hp, hne, hsolid⟩, fun c hc => ?_⟩
    obtain ⟨hs, hc⟩ := hlast c hc
    simp [isAnyMark, hs, hc]
  have hone : Closes mark [mark.char] := ⟨[], 0, [], by simp, by simp, rfl⟩
  have hattached : Closes mark (List.replicate (n + 1) mark.char ++ y) :=
    ⟨[], n, y, by simp, hy, rfl⟩
  have hdetached : Closes mark (x ++ List.replicate (n + 1) mark.char ++ y) :=
    ⟨x, n, y, hx, hy, rfl⟩
  have ha := hw.verdict_eq hattached hone line line
  have hd := hw.verdict_eq hdetached hone line line
  simp only [List.append_assoc] at ha hd ⊢
  exact ⟨ha, hd⟩

/-- A word that is unknown stands in the same column each time, and a wrong mark hides it. -/
theorem verdict_eq_of_marks_of_unknown :
    let p : Text := "x = ".toList
    let w : Text := "é".toList
    (Report.ofLine 1 (p ++ w ++ [' ', '\t'] ++ [';', ';', ';'] ++ ['\u3000'])).verdict =
        .rejected (.unknownToken w 5) ∧
      (Report.ofLine 1 (p ++ w ++ [' ', '\t'] ++ [':', ':', ':'] ++ ['\u3000'])).verdict =
        .rejected (.missingEndMark .semicolon) := by
  intro p w
  have hp : ∀ c ∈ p.getLast?, isBlank c = true := by
    intro c hc
    obtain rfl : ' ' = c := Option.some.inj hc
    rfl
  have hlast : ∀ c ∈ w.getLast?, c ≠ ';' ∧ c ≠ ':' := by
    intro c hc
    obtain rfl : 'é' = c := Option.some.inj hc
    decide
  have hsolid : ∀ c ∈ w, isBlank c = false := by
    intro c hc
    rw [List.mem_singleton.mp hc]
    decide
  have hx : ∀ c ∈ [' ', '\t'], isBlank c = true := List.all_eq_true.mp rfl
  have hy : ∀ c ∈ ['\u3000'], isBlank c = true := List.all_eq_true.mp rfl
  have h (mark : EndMark) :=
    @verdict_eq_of_marks p w [' ', '\t'] ['\u3000'] hp (by decide) hsolid hlast mark 3 (by decide)
      hx hy 1
  exact ⟨(h .semicolon).2.trans (by decide), (h .colon).2.trans (by decide)⟩

end LineGrammar
