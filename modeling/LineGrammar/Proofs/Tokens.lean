import LineGrammar.Proofs.Closing
import LineGrammar.Proofs.Words
import LineGrammar.Report

/-! Where the tokens of a line stand, and that blanks at the end of a line change nothing but its
text. -/

namespace LineGrammar

/-- A token stands in a text at an offset, is not empty and holds no blank. -/
def Token.StandsIn (t : Token) (offset : Nat) (text : Text) : Prop :=
  Word.StandsIn ⟨t.start, t.text⟩ offset text

/-- What the last word of a line is made into: one token, with one for the mark behind it if copies
of the mark are taken off, or the mark's alone if nothing is left. -/
inductive ClosingWord (mark : EndMark) (offset : Nat) : Text → List Token → Prop where
  | plain {w : Text} (hne : w ≠ []) (hlast : w.getLast? ≠ some mark.char) :
      ClosingWord mark offset w [Word.token ⟨offset, w⟩]
  | attached {w : Text} {k : Nat} (hne : w ≠ []) :
      ClosingWord mark offset (w ++ List.replicate (k + 1) mark.char)
        [Word.token ⟨offset, w⟩, ⟨[mark.char], .endMark mark, offset + w.byteSize + k⟩]
  | detached {k : Nat} :
      ClosingWord mark offset (List.replicate (k + 1) mark.char)
        [⟨[mark.char], .endMark mark, offset + k⟩]

/-- A line taken apart at its last word, and its tokens with it. -/
structure Statement.Parts (s : Statement) (before word after : Text) (ts : List Token) : Prop where
  text_eq : s.text = before ++ word ++ after
  lastWord : LastWord before word
  blank : ∀ c ∈ after, isBlank c = true
  tokens_eq : s.tokens = before.words.map Word.token ++ ts
  closing : ClosingWord s.head.requiredMark before.byteSize word ts

theorem closingWord_closingTokens (mark : EndMark) {w : Text} (hw : w ≠ []) (offset : Nat) :
    ClosingWord mark offset w (Word.closingTokens mark ⟨offset, w⟩) := by
  have hlast := getLast?_dropTrailing mark.char w
  obtain ⟨k, hk⟩ := exists_dropTrailing_append_replicate mark.char w
  generalize dropTrailing (· == mark.char) w = body at hk hlast
  subst hk
  cases k with
  | zero =>
    rw [List.replicate_zero, List.append_nil] at hw ⊢
    rw [closingTokens_plain hw hlast]
    exact .plain hw hlast
  | succ k =>
    by_cases hne : body = []
    · subst hne
      rw [List.nil_append, closingTokens_detached]
      exact .detached
    · rw [closingTokens_attached hne hlast]
      exact .attached hne

namespace ClosingWord

variable {mark : EndMark} {offset : Nat} {w : Text} {ts : List Token}

theorem ne_nil (h : ClosingWord mark offset w ts) : ts ≠ [] := by
  cases h <;> exact List.cons_ne_nil _ _

theorem standsIn (h : ClosingWord mark offset w ts) (hsolid : ∀ c ∈ w, isBlank c = false)
    {t : Token} (ht : t ∈ ts) : t.StandsIn offset w := by
  have hfront {v : Text} (hne : v ≠ []) (hv : ∀ c ∈ v, isBlank c = false) :
      (Word.token ⟨offset, v⟩).StandsIn offset v :=
    ⟨hne, hv, [], [], by simp [Word.token], rfl⟩
  have hmark {front : Text} {start : Nat} (he : w = front ++ [mark.char])
      (hs : offset + front.byteSize = start) :
      Token.StandsIn ⟨[mark.char], .endMark mark, start⟩ offset w := by
    refine ⟨List.cons_ne_nil _ _, fun c hc => hsolid c ?_, front, [], by simpa using he, hs⟩
    rw [he]
    exact List.mem_append_right _ hc
  cases h with
  | plain hne hlast =>
    obtain rfl := List.mem_singleton.mp ht
    exact hfront hne hsolid
  | @attached body k hne =>
    rcases List.mem_cons.mp ht with rfl | ht
    · exact (hfront hne fun c hc => hsolid c (List.mem_append_left _ hc)).append _
    · obtain rfl := List.mem_singleton.mp ht
      apply @hmark (body ++ List.replicate k mark.char)
      · rw [List.replicate_succ', List.append_assoc]
      · rw [Text.byteSize_append, byteSize_replicate, Nat.add_assoc]
  | @detached k =>
    obtain rfl := List.mem_singleton.mp ht
    apply @hmark (List.replicate k mark.char)
    · rw [List.replicate_succ']
    · rw [byteSize_replicate]

theorem pairwise (h : ClosingWord mark offset w ts) :
    ts.Pairwise fun t u => t.stop ≤ u.start := by
  cases h with
  | plain => exact List.pairwise_singleton _ _
  | attached => exact List.pairwise_pair.mpr (Nat.le_add_right _ _)
  | detached => exact List.pairwise_singleton _ _

theorem category_eq (h : ClosingWord mark offset w ts) {t : Token} (ht : t ∈ ts)
    (hm : t.isMark = false) : t.category = Category.ofWord t.text := by
  cases h with
  | plain =>
    obtain rfl := List.mem_singleton.mp ht
    rfl
  | attached =>
    rcases List.mem_cons.mp ht with rfl | ht
    · rfl
    · obtain rfl := List.mem_singleton.mp ht
      cases hm
  | detached =>
    obtain rfl := List.mem_singleton.mp ht
    cases hm

theorem isMark_of_mem_dropLast (h : ClosingWord mark offset w ts) {t : Token}
    (ht : t ∈ ts.dropLast) : t.isMark = false := by
  cases h with
  | plain => cases ht
  | attached =>
    obtain rfl := List.mem_singleton.mp ht
    exact isMark_token _
  | detached => cases ht

theorem of_isMark (h : ClosingWord mark offset w ts) {t : Token} (ht : t ∈ ts)
    (hm : t.isMark = true) :
    t.text = [mark.char] ∧ t.category = .endMark mark ∧ t.stop = offset + w.byteSize := by
  have hsize : Text.byteSize [mark.char] = 1 := byteSize_replicate mark 1
  have hfront (v : Text) : (Word.token ⟨offset, v⟩).isMark ≠ true := by
    rw [isMark_token]
    exact Bool.false_ne_true
  cases h with
  | plain =>
    obtain rfl := List.mem_singleton.mp ht
    exact absurd hm (hfront w)
  | attached =>
    rcases List.mem_cons.mp ht with rfl | ht
    · exact absurd hm (hfront _)
    · obtain rfl := List.mem_singleton.mp ht
      rw [Token.stop, hsize, Text.byteSize_append, byteSize_replicate, ← Nat.add_assoc]
      exact ⟨rfl, rfl, rfl⟩
  | detached =>
    obtain rfl := List.mem_singleton.mp ht
    rw [Token.stop, hsize, byteSize_replicate]
    exact ⟨rfl, rfl, rfl⟩

theorem exists_isMark_iff (h : ClosingWord mark offset w ts) :
    (∃ t ∈ ts, t.isMark = true) ↔ w.getLast? = some mark.char := by
  cases h with
  | plain hne hlast => simp [hlast, isMark_token]
  | attached =>
    rw [List.replicate_succ', ← List.append_assoc, List.getLast?_concat]
    simp [Token.isMark]
  | detached =>
    rw [List.replicate_succ', List.getLast?_concat]
    simp [Token.isMark]

end ClosingWord

namespace Statement

variable {line : Nat} {text before word after : Text} {s : Statement} {ts : List Token} {t : Token}

theorem ofLine?_eq_none_iff :
    ofLine? line text = none ↔ ∀ c ∈ text, isBlank c = true := by
  have hnone : ofLine? line text = none ↔ text.words = [] := by
    rw [ofLine?]
    cases text.words <;> simp
  rw [hnone]
  constructor
  · intro hw c hm
    by_contra hc
    obtain ⟨v, hv, -⟩ := exists_mem_runs hm (Bool.eq_false_iff.mpr hc)
    rw [← map_text_words, hw] at hv
    cases hv
  · intro h
    exact wordsFrom_blank h 0

theorem exists_parts (h : ofLine? line text = some s) :
    s.text = text ∧ ∃ before word after ts, s.Parts before word after ts := by
  obtain ⟨c, hm, hc⟩ : ∃ c ∈ text, isBlank c = false := by
    by_contra hblank
    have hnone : ofLine? line text = none := by
      apply ofLine?_eq_none_iff.mpr
      simpa using hblank
    rw [h] at hnone
    cases hnone
  obtain ⟨before, word, after, rfl, hw, hafter⟩ := exists_lastWord hm hc
  obtain ⟨first, later, hwords, rfl⟩ := ofLine?_eq_some h
  let mark := (headOf first later).requiredMark
  have htokens : tokensOf mark (first :: later) =
      before.words.map Word.token ++ Word.closingTokens mark ⟨before.byteSize, word⟩ := by
    rw [← hwords, hw.words_append hafter, tokensOf_concat]
  have hclosing := closingWord_closingTokens mark hw.nonempty before.byteSize
  exact ⟨rfl, before, word, after, _, rfl, hw, hafter, htokens, hclosing⟩

namespace Parts

theorem standsIn_of_mem_front (ht : t ∈ before.words.map Word.token) : t.StandsIn 0 before := by
  obtain ⟨w, hm, rfl⟩ := List.mem_map.mp ht
  exact standsIn_of_mem_wordsFrom hm

theorem stop_le_of_mem_front (ht : t ∈ before.words.map Word.token) : t.stop ≤ before.byteSize := by
  have hle := (Word.StandsIn.bounds (standsIn_of_mem_front ht)).2
  rwa [Nat.zero_add] at hle

theorem isMark_of_mem_front (ht : t ∈ before.words.map Word.token) : t.isMark = false := by
  obtain ⟨w, -, rfl⟩ := List.mem_map.mp ht
  exact isMark_token w

theorem mem_closing (h : s.Parts before word after ts) (ht : t ∈ s.tokens) (hm : t.isMark = true) :
    t ∈ ts := by
  rw [h.tokens_eq] at ht
  refine (List.mem_append.mp ht).resolve_left fun hfront => ?_
  rw [isMark_of_mem_front hfront] at hm
  cases hm

theorem category_eq (h : s.Parts before word after ts) (ht : t ∈ s.tokens)
    (hm : t.isMark = false) : t.category = Category.ofWord t.text := by
  rw [h.tokens_eq] at ht
  rcases List.mem_append.mp ht with ht | ht
  · obtain ⟨w, -, rfl⟩ := List.mem_map.mp ht
    rfl
  · exact h.closing.category_eq ht hm

theorem standsIn (h : s.Parts before word after ts) (ht : t ∈ s.tokens) :
    t.StandsIn 0 s.text := by
  rw [h.tokens_eq] at ht
  rw [h.text_eq, List.append_assoc]
  rcases List.mem_append.mp ht with ht | ht
  · exact (standsIn_of_mem_front ht).append _
  · have hstands : Word.StandsIn ⟨t.start, t.text⟩ (0 + before.byteSize) word := by
      rw [Nat.zero_add]
      exact h.closing.standsIn h.lastWord.solid ht
    exact (hstands.append after).behind

theorem pairwise (h : s.Parts before word after ts) :
    s.tokens.Pairwise fun t u => t.stop ≤ u.start := by
  have hfront : (before.words.map Word.token).Pairwise fun t u => t.stop ≤ u.start :=
    List.Pairwise.map _ (fun _ _ h => h) (pairwise_wordsFrom 0 before)
  rw [h.tokens_eq]
  refine List.pairwise_append.mpr ⟨hfront, h.closing.pairwise, fun t ht u hu => ?_⟩
  have hstart := (Word.StandsIn.bounds (h.closing.standsIn h.lastWord.solid hu)).1
  exact (stop_le_of_mem_front ht).trans hstart

end Parts

end Statement

theorem column_byteSize (before rest : Text) :
    Text.column (before ++ rest) before.byteSize = before.length + 1 := by
  rw [Text.column, Text.fitting_byteSize]

theorem fitting_append {offset : Nat} {t : Text} (h : offset ≤ t.byteSize) (b : Text) :
    Text.fitting offset (t ++ b) = Text.fitting offset t := by
  induction t generalizing offset with
  | nil =>
    obtain rfl : offset = 0 := by simpa using h
    exact Text.fitting_byteSize [] b
  | cons c t ih =>
    simp only [List.cons_append, Text.fitting]
    split
    · next hc => rw [ih (by rw [Text.byteSize_cons] at h; omega)]
    · rfl

theorem column_append {offset : Nat} {t : Text} (h : offset ≤ t.byteSize) (b : Text) :
    Text.column (t ++ b) offset = Text.column t offset := by
  rw [Text.column, Text.column, fitting_append h]

/-- The text of a statement only tells the columns of its tokens. -/
theorem judge_append_text {s : Statement} (h : ∀ t ∈ s.tokens, t.start ≤ s.text.byteSize)
    (b : Text) : { s with text := s.text ++ b }.judge = s.judge := by
  rw [Statement.judge, Statement.judge]
  cases hf : s.tokens.find? (·.category == .unknown) with
  | none => simp [Statement.endMark?, Statement.categories]
  | some t =>
    have ht := column_append (h t (List.mem_of_find?_eq_some hf)) b
    simp [Statement.endMark?, Statement.categories, ht]

theorem ofLine?_append_blank {b : Text} (hb : ∀ c ∈ b, isBlank c = true) (line : Nat) (t : Text) :
    Statement.ofLine? line (t ++ b) =
      (Statement.ofLine? line t).map fun s => { s with text := s.text ++ b } := by
  have hw : Text.words (t ++ b) = t.words := wordsFrom_append_blank hb 0 t
  rw [Statement.ofLine?, Statement.ofLine?, hw]
  cases t.words <;> rfl

theorem start_le_of_mem_ofLine? {line : Nat} {text : Text} {s : Statement}
    (h : Statement.ofLine? line text = some s) :
    s.text = text ∧ ∀ t ∈ s.tokens, t.start ≤ text.byteSize := by
  obtain ⟨rfl, before, word, after, ts, hparts⟩ := Statement.exists_parts h
  refine ⟨rfl, fun t ht => ?_⟩
  have hle := (Word.StandsIn.bounds (hparts.standsIn ht)).2
  rw [Nat.zero_add] at hle
  exact (Nat.le_add_right _ _).trans hle

theorem ofLine_append_blank {b : Text} (hb : ∀ c ∈ b, isBlank c = true) (line : Nat) (t : Text) :
    Report.ofLine line (t ++ b) = { Report.ofLine line t with text := t ++ b } := by
  rw [Report.ofLine, Report.ofLine, ofLine?_append_blank hb]
  cases hs : Statement.ofLine? line t with
  | none => rfl
  | some s =>
    obtain ⟨rfl, ht⟩ := start_le_of_mem_ofLine? hs
    simp [Verdict.ofStatement, judge_append_text ht]

/-- A carriage return behind a line is only there to be shown. -/
theorem ofLine_append_carriageReturn (line : Nat) (t : Text) :
    Report.ofLine line (t ++ ['\r']) = { Report.ofLine line t with text := t ++ ['\r'] } := by
  apply ofLine_append_blank
  intro c hm
  obtain rfl := List.mem_singleton.mp hm
  decide

end LineGrammar
