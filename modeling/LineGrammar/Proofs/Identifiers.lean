import LineGrammar.Proofs.Spelling

/-! Words that are no keywords, by their characters. The bound on the bytes of an identifier is one
on its characters, since each of them takes a single byte; and no identifier and no keyword holds a
mark, so a word with marks behind it is a number or unknown. -/

namespace LineGrammar

theorem isAlpha_iff_toNat {c : Char} : c.isAlpha = true ↔
    (65 ≤ c.toNat ∧ c.toNat ≤ 90) ∨ (97 ≤ c.toNat ∧ c.toNat ≤ 122) := by
  have hupper : c.isUpper = true ↔ 65 ≤ c.toNat ∧ c.toNat ≤ 90 := decide_eq_true_iff
  have hlower : c.isLower = true ↔ 97 ≤ c.toNat ∧ c.toNat ≤ 122 :=
    Bool.and_eq_true_iff.trans (and_congr decide_eq_true_iff decide_eq_true_iff)
  rw [← hupper, ← hlower]
  exact Bool.or_eq_true_iff

theorem utf8Size_eq_one_iff_toNat {c : Char} : c.utf8Size = 1 ↔ c.toNat ≤ 127 := by
  rw [Char.utf8Size_eq_one_iff, UInt32.le_iff_toNat_le]
  rfl

theorem isDigit_eq_false_of_isAlpha {c : Char} (h : c.isAlpha = true) : c.isDigit = false := by
  rw [isAlpha_iff_toNat] at h
  rw [← Bool.not_eq_true, Char.isDigit_iff_toNat]
  simp only [Char.reduceToNat]
  omega

theorem Text.byteSize_eq_length {t : Text} (h : ∀ c ∈ t, c.utf8Size = 1) :
    t.byteSize = t.length := by
  induction t with
  | nil => rfl
  | cons c t ih =>
    rw [byteSize_cons, h c List.mem_cons_self, ih fun d hd => h d (List.mem_cons_of_mem _ hd),
      List.length_cons, Nat.add_comm]

namespace Category

/-- The words that have a category of their own. -/
def reserved : List String :=
  ["tiny", "small", "medium", "large", "LST", "GRT", "LSTE", "GRTE", "EQ", "NEQU", "OPENPAREN",
    "CLOSEPAREN", "ADD", "SUB", "MUL", "DIV", "MODULUS", "COND", "REPEAT", "="]

theorem map_fst_keywords : keywords.map Prod.fst = reserved.map String.toList :=
  rfl

/-- Stands in identifiers. -/
def Plain (c : Char) : Prop :=
  c.isAlpha = true ∨ c.isDigit = true ∨ c = '_' ∨ c = '-'

/-- What an identifier looks like, counted in characters. -/
structure IsName (w : Text) : Prop where
  short : w.length < 10
  begins : w.head?.any Char.isAlpha = true
  plain : ∀ c ∈ w, Plain c

theorem isNumber_eq (w : Text) : isNumber w = w.head?.any Char.isDigit := by
  cases w <;> rfl

theorem isIdentifier_cons_iff {c : Char} {rest : Text} :
    isIdentifier (c :: rest) = true ↔ c.isAlpha = true ∧ (∀ d ∈ rest, Plain d) ∧
      Text.byteSize (c :: rest) < identifierBound := by
  simp only [isIdentifier, Plain, Bool.and_eq_true, List.all_eq_true, Bool.or_eq_true,
    Char.isAlphanum, beq_iff_eq, decide_eq_true_eq, or_assoc, and_assoc]

theorem utf8Size_of_plain {c : Char} (h : Plain c) : c.utf8Size = 1 := by
  rw [utf8Size_eq_one_iff_toNat]
  rcases h with h | h | rfl | rfl
  · rw [isAlpha_iff_toNat] at h
    omega
  · rw [Char.isDigit_iff_toNat] at h
    simp only [Char.reduceToNat] at h
    omega
  · decide
  · decide

/-- Counting bytes or characters makes no difference to identifiers. -/
theorem isIdentifier_iff_isName (w : Text) : isIdentifier w = true ↔ IsName w := by
  cases w with
  | nil =>
    constructor
    · intro h
      cases h
    · rintro ⟨_, hbegins, _⟩
      cases hbegins
  | cons c rest =>
    rw [isIdentifier_cons_iff]
    constructor
    · rintro ⟨hc, hrest, hsize⟩
      have hplain : ∀ d ∈ c :: rest, Plain d := List.forall_mem_cons.mpr ⟨.inl hc, hrest⟩
      rw [Text.byteSize_eq_length fun d hd => utf8Size_of_plain (hplain d hd)] at hsize
      exact ⟨hsize, hc, hplain⟩
    · rintro ⟨hshort, hc, hplain⟩
      have hsize := Text.byteSize_eq_length fun d hd => utf8Size_of_plain (hplain d hd)
      exact ⟨hc, fun d hd => hplain d (List.mem_cons_of_mem _ hd), hsize.trans_lt hshort⟩

instance (w : Text) : Decidable (IsName w) :=
  decidable_of_iff (isIdentifier w = true) (isIdentifier_iff_isName w)

theorem IsName.isNumber {w : Text} (h : IsName w) : isNumber w = false := by
  cases w with
  | nil => rfl
  | cons c rest => exact isDigit_eq_false_of_isAlpha h.begins

theorem ofWord_of_not_reserved {w : Text} (h : w ∉ reserved.map String.toList) :
    ofWord w = if isNumber w then number else if isIdentifier w then identifier else unknown := by
  have hl : keywords.lookup w = none := by
    cases hl : keywords.lookup w with
    | none => rfl
    | some category =>
      have hm := List.mem_map_of_mem (f := Prod.fst) (mem_of_lookup_eq_some hl)
      rw [map_fst_keywords] at hm
      exact absurd hm h
  rw [ofWord, hl]

end Category

/-- A word that is no keyword is a number if it begins with a digit, an identifier if it looks like
one in fewer than ten characters, and unknown if it is neither; and marks behind any word make it
unknown, unless it begins with a digit. -/
theorem ofWord_iff_characters :
    (∀ w : Text, w ∉ Category.reserved.map String.toList →
      (Category.ofWord w = .number ↔ w.head?.any Char.isDigit = true) ∧
      (Category.ofWord w = .identifier ↔ Category.IsName w) ∧
      (Category.ofWord w = .unknown ↔
        w.head?.any Char.isDigit = false ∧ ¬ Category.IsName w)) ∧
    ∀ w marks : Text, marks ≠ [] → (∀ c ∈ marks, c = ';' ∨ c = ':') →
      Category.ofWord (w ++ marks) = if w.head?.any Char.isDigit then .number else .unknown := by
  refine ⟨fun w hw => ?_, fun w marks hne hmarks => ?_⟩
  · have hexclusive : Category.isIdentifier w = true → Category.isNumber w = false :=
      fun hi => ((Category.isIdentifier_iff_isName w).mp hi).isNumber
    rw [← Category.isNumber_eq, ← Category.isIdentifier_iff_isName,
      Category.ofWord_of_not_reserved hw]
    cases hn : Category.isNumber w with
    | true =>
      have hi : Category.isIdentifier w ≠ true := fun hi => by simp [hexclusive hi] at hn
      simp [hi]
    | false => cases Category.isIdentifier w <;> simp
  · have hany : ∀ c ∈ marks, isAnyMark c = true := by
      intro c hc
      simpa [isAnyMark] using hmarks c hc
    rw [ofWord_append_marks hany hne, ← Category.isNumber_eq]
    simp only [Category.isNumber_iff]

/-- Nine characters that take fourteen bytes, nine that take nine, and a keyword with marks. -/
theorem ofWord_iff_characters_of_wide_word :
    let wide : Text := "größe-äöü".toList
    let narrow : Text := "a_b-c9XYZ".toList
    (wide ∉ Category.reserved.map String.toList ∧ narrow ∉ Category.reserved.map String.toList ∧
      wide.length = narrow.length ∧ ∀ c ∈ [':', ';', ':'], c = ';' ∨ c = ':') ∧
    Category.ofWord wide = .unknown ∧ Category.ofWord narrow = .identifier ∧
    Category.ofWord ("COND".toList ++ [':', ';', ':']) = .unknown := by
  intro wide narrow
  obtain ⟨hcharacters, hmarks⟩ := ofWord_iff_characters
  have hwide : wide ∉ Category.reserved.map String.toList := by decide
  have hnarrow : narrow ∉ Category.reserved.map String.toList := by decide
  have hlength : wide.length = narrow.length := by decide
  have hany : ∀ c ∈ [':', ';', ':'], c = ';' ∨ c = ':' := by simp
  have hunknown : wide.head?.any Char.isDigit = false ∧ ¬ Category.IsName wide := by decide
  have hname : Category.IsName narrow := by decide
  exact ⟨⟨hwide, hnarrow, hlength, hany⟩, (hcharacters wide hwide).2.2.mpr hunknown,
    (hcharacters narrow hnarrow).2.1.mpr hname, hmarks "COND".toList _ (by decide) hany⟩

end LineGrammar
