import Mathlib.Data.List.DropRight
import LineGrammar.Category
import LineGrammar.Text.Lines

/-! What single characters say about the category of a word. A word that begins with a digit is a
number, and no other word is known if it holds a character that stands in no keyword and in no
identifier. -/

namespace LineGrammar

theorem mem_of_lookup_eq_some {α β : Type} [BEq α] [LawfulBEq α] {l : List (α × β)} {a : α} {b : β}
    (h : l.lookup a = some b) : (a, b) ∈ l := by
  obtain ⟨_, _, rfl, _⟩ := List.lookup_eq_some_iff.mp h
  simp

namespace Category

/-- Stands in no keyword and in no identifier. -/
def isStray (c : Char) : Bool :=
  !(c.isAlphanum || c == '_' || c == '-' || c == '=')

theorem isStray_of_mem_keywords : ∀ entry ∈ keywords, ∀ c ∈ entry.1, isStray c = false := by
  intro entry he c hc
  have hall : keywords.all (fun entry => entry.1.all (!isStray ·)) = true := by decide
  simpa using List.all_eq_true.mp (List.all_eq_true.mp hall entry he) c hc

theorem isNumber_of_mem_keywords : ∀ entry ∈ keywords, isNumber entry.1 = false := by
  decide

theorem ofWord_of_isNumber {w : Text} (h : isNumber w = true) : ofWord w = .number := by
  rw [ofWord]
  split
  · next category hl =>
    have hn := isNumber_of_mem_keywords _ (mem_of_lookup_eq_some hl)
    rw [h] at hn
    cases hn
  · rw [if_pos h]

theorem isNumber_iff (w : Text) : isNumber w = true ↔ ofWord w = .number := by
  refine ⟨ofWord_of_isNumber, fun h => ?_⟩
  by_contra hn
  have hl : keywords.lookup w ≠ some .number := by
    intro hl
    have hkeys : ∀ entry ∈ keywords, entry.2 ≠ .number := by decide
    exact hkeys _ (mem_of_lookup_eq_some hl) rfl
  rw [ofWord] at h
  split at h
  · next hk => exact hl (h ▸ hk)
  · rw [if_neg hn] at h
    split at h <;> cases h

theorem isIdentifier_of_isStray {w : Text} {c : Char} (hc : c ∈ w) (hs : isStray c = true) :
    isIdentifier w = false := by
  simp only [isStray, Bool.not_eq_true', Bool.or_eq_false_iff] at hs
  obtain ⟨⟨⟨ha, hu⟩, hd⟩, _⟩ := hs
  cases w with
  | nil => simp at hc
  | cons first rest =>
    rw [isIdentifier]
    rcases List.mem_cons.mp hc with rfl | hc
    · have hn : c.isAlpha = false := by
        simp only [Char.isAlphanum, Bool.or_eq_false_iff] at ha
        exact ha.1
      rw [hn, Bool.false_and, Bool.false_and]
    · have hr : rest.all (fun d => d.isAlphanum || d == '_' || d == '-') = false :=
        List.all_eq_false.mpr ⟨c, hc, by simp [ha, hu, hd]⟩
      rw [hr, Bool.and_false, Bool.false_and]

theorem ofWord_of_isStray {w : Text} {c : Char} (hc : c ∈ w) (hs : isStray c = true) :
    ofWord w = if isNumber w then .number else .unknown := by
  have hk : keywords.lookup w = none := by
    cases hl : keywords.lookup w with
    | none => rfl
    | some category =>
      have hn := isStray_of_mem_keywords _ (mem_of_lookup_eq_some hl) c hc
      rw [hs] at hn
      cases hn
  simp [ofWord, hk, isIdentifier_of_isStray hc hs]

theorem ofWord_eq_assignment_iff (w : Text) : ofWord w = .assignment ↔ w = ['='] := by
  constructor
  · intro h
    rw [ofWord] at h
    split at h
    · next category hl =>
      subst h
      have hm := mem_of_lookup_eq_some hl
      simpa [keywords] using hm
    · repeat' split at h
      all_goals cases h
  · rintro rfl
    rfl

theorem isNumber_of_isPrefix {v w : Text} (h : v <+: w) (hv : isNumber v = true) :
    isNumber w = true := by
  obtain ⟨rest, rfl⟩ := h
  cases v with
  | nil => cases hv
  | cons c v => exact hv

/-- What is dropped behind a digit leaves a number. -/
theorem isNumber_dropTrailing {p : Char → Bool} (hp : ∀ c, c.isDigit = true → p c = false)
    (w : Text) : isNumber (dropTrailing p w) = isNumber w := by
  obtain ⟨rest, hr⟩ : dropTrailing p w <+: w := List.rdropWhile_prefix p w
  cases hd : dropTrailing p w with
  | cons c front => rw [← hr, hd]; rfl
  | nil =>
    have hall : ∀ c ∈ w, p c = true := List.rdropWhile_eq_nil_iff.mp hd
    cases w with
    | nil => rfl
    | cons c w =>
      by_cases hc : c.isDigit = true
      · have hh := hall c (by simp)
        rw [hp c hc] at hh
        cases hh
      · simp [isNumber, hc]

end Category

end LineGrammar
