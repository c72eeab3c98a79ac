import LineGrammar.Proofs.Tokens

/-! What the tokens of a line leave out. They stand in the line one behind the other, and each byte
between them is of a blank or of a spare copy of the mark that ends the line. -/

namespace LineGrammar

/-- A byte of a text at an offset is one of a character. -/
def Text.HasByte (t : Text) (offset b : Nat) (c : Char) : Prop :=
  ∃ before after, t = before ++ c :: after ∧
    offset + before.byteSize ≤ b ∧ b < offset + before.byteSize + c.utf8Size

def Token.HasByte (t : Token) (b : Nat) : Prop :=
  t.start ≤ b ∧ b < t.stop

/-- What the tokens of a statement say about its text, whose last word stands behind `before`. -/
structure Statement.Covers (s : Statement) (text before word : Text) : Prop where
  nonempty : s.tokens ≠ []
  placed : ∀ t ∈ s.tokens, t.start < t.stop ∧
    ∃ front later, text = front ++ t.text ++ later ∧ front.byteSize = t.start
  ordered : s.tokens.Pairwise fun t u => t.stop ≤ u.start
  classified : ∀ t ∈ s.tokens, t.isMark = false → t.category = Category.ofWord t.text
  inner : ∀ t ∈ s.tokens.dropLast, t.isMark = false
  closed : ∀ t ∈ s.tokens, t.isMark = true → t.category = .endMark s.head.requiredMark ∧
    t.start + 1 = t.stop ∧ t.stop = before.byteSize + word.byteSize
  marked : (∃ t ∈ s.tokens, t.isMark = true) ↔ word.getLast? = some s.head.requiredMark.char
  covered : ∀ b < text.byteSize, (∀ t ∈ s.tokens, ¬ t.HasByte b) →
    ∃ c, text.HasByte 0 b c ∧ (isBlank c = true ∨ c = s.head.requiredMark.char ∧
      before.byteSize ≤ b ∧ b < before.byteSize + word.byteSize ∧
      ∀ t ∈ s.tokens, t.isMark = false → t.stop ≤ b)

section

variable {s t : Text} {offset b : Nat} {c : Char}

theorem Text.HasByte.bounds (h : t.HasByte offset b c) :
    c ∈ t ∧ offset ≤ b ∧ b < offset + t.byteSize := by
  obtain ⟨before, after, rfl, hb, hc⟩ := h
  refine ⟨by simp, by omega, ?_⟩
  rw [Text.byteSize_append, Text.byteSize_cons]
  omega

theorem Text.HasByte.of_append (h : Text.HasByte (s ++ t) offset b c) :
    s.HasByte offset b c ∨ t.HasByte (offset + s.byteSize) b c := by
  obtain ⟨before, after, he, hb, hc⟩ := h
  rcases List.append_eq_append_iff.mp he with ⟨rest, rfl, ht⟩ | ⟨rest, rfl, ht⟩
  · refine .inr ⟨rest, after, ht, ?_⟩
    rw [Text.byteSize_append] at hb hc
    omega
  · cases rest with
    | nil =>
      refine .inr ⟨[], after, by simpa using ht.symm, ?_⟩
      simp only [List.append_nil, Text.byteSize_nil] at hb hc ⊢
      omega
    | cons d rest =>
      obtain ⟨rfl, -⟩ := List.cons.inj ht
      exact .inl ⟨before, rest, rfl, hb, hc⟩

theorem Text.exists_hasByte (hle : offset ≤ b) (hlt : b < offset + t.byteSize) :
    ∃ c, t.HasByte offset b c := by
  induction t generalizing offset with
  | nil =>
    rw [Text.byteSize_nil] at hlt
    omega
  | cons c t ih =>
    by_cases hc : b < offset + c.utf8Size
    · exact ⟨c, [], t, rfl, hle, hc⟩
    · rw [Text.byteSize_cons, ← Nat.add_assoc] at hlt
      obtain ⟨d, before, after, rfl, hd⟩ := ih (Nat.le_of_not_lt hc) hlt
      refine ⟨d, c :: before, after, rfl, ?_⟩
      rwa [Text.byteSize_cons, ← Nat.add_assoc]

theorem isBlank_or_mem_wordsFrom (h : t.HasByte offset b c) :
    isBlank c = true ∨ ∃ w ∈ t.wordsFrom offset, w.start ≤ b ∧ b < w.stop := by
  induction t using Text.run_induction generalizing offset with
  | nil =>
    have hm := h.bounds.1
    cases hm
  | blank d t hd ih =>
    rw [wordsFrom_cons_blank hd]
    rcases Text.HasByte.of_append (s := [d]) h with h | h
    · obtain rfl := List.mem_singleton.mp h.bounds.1
      exact .inl hd
    · exact ih h
  | run w t hne hw ht ih =>
    rw [wordsFrom_run hne hw ht]
    rcases h.of_append with h | h
    · exact .inr ⟨_, List.mem_cons_self, h.bounds.2⟩
    · refine (ih h).imp_right ?_
      rintro ⟨v, hv, hb⟩
      exact ⟨v, List.mem_cons_of_mem _ hv, hb⟩

end

theorem ClosingWord.eq_char_of_hasByte {mark : EndMark} {offset b : Nat} {w : Text}
    {ts : List Token} {c : Char} (h : ClosingWord mark offset w ts) (hb : w.HasByte offset b c)
    (hout : ∀ t ∈ ts, ¬ t.HasByte b) :
    c = mark.char ∧ ∀ t ∈ ts, t.isMark = false → t.stop ≤ b := by
  cases h with
  | plain => exact absurd hb.bounds.2 (hout _ List.mem_cons_self)
  | attached =>
    rcases hb.of_append with hb | hb
    · exact absurd hb.bounds.2 (hout _ List.mem_cons_self)
    · obtain ⟨hc, hle, -⟩ := hb.bounds
      refine ⟨List.eq_of_mem_replicate hc, fun t ht hm => ?_⟩
      rcases List.mem_cons.mp ht with rfl | ht
      · exact hle
      · obtain rfl := List.mem_singleton.mp ht
        cases hm
  | detached =>
    refine ⟨List.eq_of_mem_replicate hb.bounds.1, fun t ht hm => ?_⟩
    obtain rfl := List.mem_singleton.mp ht
    cases hm

namespace Statement.Parts

variable {s : Statement} {before word after : Text} {ts : List Token}

theorem covered (h : s.Parts before word after ts) {b : Nat} {c : Char}
    (hc : s.text.HasByte 0 b c) (hout : ∀ t ∈ s.tokens, ¬ t.HasByte b) :
    isBlank c = true ∨ c = s.head.requiredMark.char ∧ before.byteSize ≤ b ∧
      b < before.byteSize + word.byteSize ∧ ∀ t ∈ s.tokens, t.isMark = false → t.stop ≤ b := by
  rw [h.text_eq] at hc
  rw [h.tokens_eq] at hout ⊢
  rcases hc.of_append with hc | hc
  · rcases hc.of_append with hc | hc
    · refine .inl ((isBlank_or_mem_wordsFrom hc).resolve_right ?_)
      rintro ⟨w, hm, hb⟩
      exact hout w.token (List.mem_append_left _ (List.mem_map_of_mem hm)) hb
    · rw [Nat.zero_add] at hc
      obtain ⟨-, hle, hlt⟩ := hc.bounds
      have hclosing : ∀ t ∈ ts, ¬ t.HasByte b := fun t ht => hout t (List.mem_append_right _ ht)
      obtain ⟨hmark, hstop⟩ := h.closing.eq_char_of_hasByte hc hclosing
      refine .inr ⟨hmark, hle, hlt, fun t ht hm => ?_⟩
      rcases List.mem_append.mp ht with ht | ht
      · exact (stop_le_of_mem_front ht).trans hle
      · exact hstop t ht hm
  · exact .inl (h.blank c hc.bounds.1)

theorem covers (h : s.Parts before word after ts) : s.Covers s.text before word := by
  constructor
  case nonempty =>
    rw [h.tokens_eq]
    exact List.append_ne_nil_of_right_ne_nil _ h.closing.ne_nil
  case placed =>
    intro t ht
    have hstands := h.standsIn ht
    obtain ⟨front, later, htext, hstart⟩ := Word.StandsIn.placed hstands
    rw [Nat.zero_add] at hstart
    exact ⟨Word.StandsIn.start_lt_stop hstands, front, later, htext, hstart⟩
  case ordered => exact h.pairwise
  case classified => exact fun t ht hm => h.category_eq ht hm
  case inner =>
    intro t ht
    rw [h.tokens_eq, List.dropLast_append_of_ne_nil h.closing.ne_nil] at ht
    rcases List.mem_append.mp ht with ht | ht
    · exact isMark_of_mem_front ht
    · exact h.closing.isMark_of_mem_dropLast ht
  case closed =>
    intro t ht hm
    obtain ⟨htext, hc, hstop⟩ := h.closing.of_isMark (h.mem_closing ht hm) hm
    have hsize : t.stop = t.start + 1 := by
      rw [Token.stop, htext]
      exact congrArg _ (byteSize_replicate s.head.requiredMark 1)
    exact ⟨hc, hsize.symm, hstop⟩
  case marked =>
    rw [← h.closing.exists_isMark_iff]
    constructor
    · rintro ⟨t, ht, hm⟩
      exact ⟨t, h.mem_closing ht hm, hm⟩
    · rintro ⟨t, ht, hm⟩
      rw [h.tokens_eq]
      exact ⟨t, List.mem_append_right _ ht, hm⟩
  case covered =>
    intro b hb hout
    obtain ⟨c, hc⟩ := Text.exists_hasByte (Nat.zero_le b) (by rwa [Nat.zero_add])
    exact ⟨c, hc, h.covered hc hout⟩

end Statement.Parts

/-- The tokens of a line leave nothing out but blanks and spare copies of its mark. -/
theorem tokens_cover (line : Nat) (text : Text) :
    (Statement.ofLine? line text = none ↔ ∀ c ∈ text, isBlank c = true) ∧
      ∀ s, Statement.ofLine? line text = some s → ∃ before word after,
        text = before ++ word ++ after ∧ LastWord before word ∧ (∀ c ∈ after, isBlank c = true) ∧
          s.Covers text before word := by
  refine ⟨Statement.ofLine?_eq_none_iff, fun s hs => ?_⟩
  obtain ⟨rfl, before, word, after, ts, h⟩ := Statement.exists_parts hs
  exact ⟨before, word, after, h.text_eq, h.lastWord, h.blank, h.covers⟩

/-- Characters of several bytes, and copies of the mark that are spare. -/
theorem tokens_cover_of_spare_marks :
    let text : Text := " é = 5;;;\u3000".toList
    ∃ s, Statement.ofLine? 1 text = some s ∧
      s.tokens.map (fun t => (t.start, t.stop)) = [(1, 3), (4, 5), (6, 7), (9, 10)] ∧
      ∃ before word after, text = before ++ word ++ after ∧ LastWord before word ∧
        (∀ c ∈ after, isBlank c = true) ∧ s.Covers text before word := by
  intro text
  exact ⟨_, rfl, by decide, (tokens_cover 1 text).2 _ rfl⟩

end LineGrammar
