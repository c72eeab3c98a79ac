import Mathlib.Algebra.Ring.Nat
import LineGrammar.Text.Utf8

/-! Decoding around ASCII bytes. Such a byte ends whatever character was being read and becomes a
character of its own, so the bytes before it and those behind it are decoded independently; and an
ASCII character comes from nothing but its byte. -/

namespace LineGrammar

/-- A character that is being read waits for a byte that is not ASCII, and will not be ASCII
itself even if its remaining bytes are the least possible. -/
structure Utf8.Unfinished.BeyondAscii (u : Utf8.Unfinished) : Prop where
  owed : 1 ≤ u.owed
  low : 0x80 ≤ u.low
  bits : 0x80 ≤ (u.bits * 0x40 + (u.low - 0x80)) * 0x40 ^ (u.owed - 1)

theorem leading_ascii {b : Nat} (hb : b < 0x80) : Utf8.leading b = ([Char.ofNat b], none) := by
  rw [Utf8.leading, if_pos hb]

theorem leading_cases (b : Nat) :
    (b < 0x80 ∧ Utf8.leading b = ([Char.ofNat b], none)) ∨
    Utf8.leading b = ([Utf8.replacement], none) ∨
    ∃ u : Utf8.Unfinished, u.BeyondAscii ∧ Utf8.leading b = ([], some u) := by
  fun_cases Utf8.leading b
  case case1 hb => exact .inl ⟨hb, rfl⟩
  case case2 => exact .inr (.inl rfl)
  case case10 => exact .inr (.inl rfl)
  all_goals exact .inr (.inr ⟨_, ⟨by simp, by simp, by simp <;> omega⟩, rfl⟩)

/-- A byte inside a character ends it, goes on with it, or is read again behind a replacement. -/
theorem following_cases {u : Utf8.Unfinished} (hu : u.BeyondAscii) (b : Nat) :
    (∃ bits, 0x80 ≤ bits ∧ Utf8.following u b = ([Char.ofNat bits], none)) ∨
    (∃ v : Utf8.Unfinished, v.BeyondAscii ∧ Utf8.following u b = ([], some v)) ∨
    Utf8.following u b = (Utf8.replacement :: (Utf8.leading b).1, (Utf8.leading b).2) := by
  fun_cases Utf8.following u b with
  | case1 hb bits hone =>
    have hbits := hu.bits
    simp only [hone, Nat.sub_self, Nat.pow_zero, Nat.mul_one] at hbits
    exact .inl ⟨_, by omega, rfl⟩
  | case2 hb bits hmore =>
    obtain ⟨more, hm⟩ : ∃ more, u.owed = more + 2 := ⟨u.owed - 2, by have := hu.owed; omega⟩
    refine .inr (.inl ⟨_, ⟨by simp only [hm]; omega, by simp, ?_⟩, rfl⟩)
    calc 0x80 ≤ (u.bits * 0x40 + (u.low - 0x80)) * 0x40 ^ (u.owed - 1) := hu.bits
      _ ≤ (u.bits * 0x40 + (b - 0x80)) * 0x40 ^ (u.owed - 1) := Nat.mul_le_mul_right _ (by omega)
      _ = (bits * 0x40 + (0x80 - 0x80)) * 0x40 ^ (u.owed - 1 - 1) := by
        rw [Nat.sub_self, Nat.add_zero, Nat.mul_assoc, ← Nat.pow_succ', hm]
        rfl
  | case3 => exact .inr (.inr rfl)

theorem leading_beyondAscii (b : Nat) : ∀ u ∈ (Utf8.leading b).2, u.BeyondAscii := by
  rcases leading_cases b with ⟨_, h⟩ | h | ⟨v, hv, h⟩
  · simp [h]
  · simp [h]
  · simpa [h] using hv

theorem step_beyondAscii {state : Option Utf8.Unfinished} (hs : ∀ u ∈ state, u.BeyondAscii)
    (b : Nat) : ∀ u ∈ (Utf8.step state b).2, u.BeyondAscii := by
  cases state with
  | none => exact leading_beyondAscii b
  | some u =>
    rcases following_cases (hs u rfl) b with ⟨bits, _, h⟩ | ⟨v, hv, h⟩ | h
    · simp [Utf8.step, h]
    · simpa [Utf8.step, h] using hv
    · simpa [Utf8.step, h] using leading_beyondAscii b

theorem step_ascii {state : Option Utf8.Unfinished} (hs : ∀ u ∈ state, u.BeyondAscii) {b : Nat}
    (hb : b < 0x80) :
    Utf8.step state b = (Utf8.decodeFrom state [] ++ [Char.ofNat b], none) := by
  cases state with
  | none => exact leading_ascii hb
  | some u =>
    have hlow := (hs u rfl).low
    rw [Utf8.step, Utf8.following, if_neg (by omega), leading_ascii hb]
    rfl

theorem decodeFrom_append_ascii {state : Option Utf8.Unfinished} (hs : ∀ u ∈ state, u.BeyondAscii)
    {b : UInt8} (hb : b.toNat < 0x80) (xs ys : Bytes) :
    Utf8.decodeFrom state (xs ++ b :: ys) =
      Utf8.decodeFrom state xs ++ Char.ofNat b.toNat :: Utf8.decode ys := by
  induction xs generalizing state with
  | nil =>
    rw [List.nil_append, Utf8.decodeFrom, step_ascii hs hb, List.append_assoc]
    rfl
  | cons x xs ih =>
    rw [List.cons_append, Utf8.decodeFrom, Utf8.decodeFrom, ih (step_beyondAscii hs x.toNat),
      List.append_assoc]

theorem decode_append_ascii {b : UInt8} (hb : b.toNat < 0x80) (xs ys : Bytes) :
    Utf8.decode (xs ++ b :: ys) = Utf8.decode xs ++ Char.ofNat b.toNat :: Utf8.decode ys :=
  decodeFrom_append_ascii (by simp) hb xs ys

theorem toNat_ofNat (n : Nat) : (Char.ofNat n).toNat = n ∨ (Char.ofNat n).toNat = 0 := by
  by_cases h : n.isValidChar
  · exact .inl (by rw [Char.ofNat, dif_pos h]; rfl)
  · exact .inr (by rw [Char.ofNat, dif_neg h]; rfl)

theorem toNat_ofNat_ascii {n : Nat} (h : n < 0x80) : (Char.ofNat n).toNat = n := by
  rw [Char.ofNat, dif_pos (Or.inl (by omega))]
  rfl

theorem toNat_of_mem_leading {b : Nat} {c : Char} (hc : c ∈ (Utf8.leading b).1)
    (hlt : c.toNat < 0x80) : c.toNat = b := by
  rcases leading_cases b with ⟨hb, h⟩ | h | ⟨v, _, h⟩
  · rw [h, List.mem_singleton] at hc
    rw [hc, toNat_ofNat_ascii hb]
  · rw [h, List.mem_singleton] at hc
    rw [hc] at hlt
    exact absurd hlt (by decide)
  · simp [h] at hc

theorem toNat_of_mem_step {state : Option Utf8.Unfinished} (hs : ∀ u ∈ state, u.BeyondAscii)
    {b : Nat} {c : Char} (hc : c ∈ (Utf8.step state b).1) (hpos : 0 < c.toNat)
    (hlt : c.toNat < 0x80) : c.toNat = b := by
  cases state with
  | none => exact toNat_of_mem_leading hc hlt
  | some u =>
    rcases following_cases (hs u rfl) b with ⟨bits, hbits, h⟩ | ⟨v, _, h⟩ | h
    · rw [Utf8.step, h, List.mem_singleton] at hc
      have hh := toNat_ofNat bits
      rw [← hc] at hh
      omega
    · simp [Utf8.step, h] at hc
    · rw [Utf8.step, h, List.mem_cons] at hc
      rcases hc with rfl | hc
      · exact absurd hlt (by decide)
      · exact toNat_of_mem_leading hc hlt

theorem exists_byte_of_mem_decodeFrom {state : Option Utf8.Unfinished}
    (hs : ∀ u ∈ state, u.BeyondAscii) {c : Char} {bytes : Bytes}
    (hc : c ∈ Utf8.decodeFrom state bytes) (hpos : 0 < c.toNat) (hlt : c.toNat < 0x80) :
    ∃ b ∈ bytes, b.toNat = c.toNat := by
  induction bytes generalizing state with
  | nil =>
    cases state with
    | none => simp [Utf8.decodeFrom] at hc
    | some u =>
      obtain rfl := List.mem_singleton.mp (show c ∈ [Utf8.replacement] from hc)
      exact absurd hlt (by decide)
  | cons b bytes ih =>
    rw [Utf8.decodeFrom] at hc
    rcases List.mem_append.mp hc with hc | hc
    · exact ⟨b, by simp, (toNat_of_mem_step hs hc hpos hlt).symm⟩
    · obtain ⟨d, hd, he⟩ := ih (step_beyondAscii hs b.toNat) hc
      exact ⟨d, by simp [hd], he⟩

theorem mem_of_mem_decode {b : UInt8} {bytes : Bytes} (hpos : 0 < b.toNat) (hlt : b.toNat < 0x80)
    (h : Char.ofNat b.toNat ∈ Utf8.decode bytes) : b ∈ bytes := by
  have hb := toNat_ofNat_ascii hlt
  obtain ⟨d, hd, he⟩ := exists_byte_of_mem_decodeFrom (by simp) h (by omega) (by omega)
  exact UInt8.toNat_inj.mp (he.trans hb) ▸ hd

theorem step_ne_nil_or_isSome {state : Option Utf8.Unfinished} (hs : ∀ u ∈ state, u.BeyondAscii)
    (b : Nat) : (Utf8.step state b).1 ≠ [] ∨ (Utf8.step state b).2.isSome = true := by
  cases state with
  | none => rcases leading_cases b with ⟨_, h⟩ | h | ⟨v, _, h⟩ <;> simp [Utf8.step, h]
  | some u =>
    rcases following_cases (hs u rfl) b with ⟨bits, _, h⟩ | ⟨v, _, h⟩ | h <;>
      simp [Utf8.step, h]

theorem decodeFrom_eq_nil_iff {state : Option Utf8.Unfinished} (hs : ∀ u ∈ state, u.BeyondAscii)
    (bytes : Bytes) : Utf8.decodeFrom state bytes = [] ↔ state = none ∧ bytes = [] := by
  induction bytes generalizing state with
  | nil => cases state <;> simp [Utf8.decodeFrom]
  | cons b bytes ih =>
    rw [Utf8.decodeFrom, List.append_eq_nil_iff, ih (step_beyondAscii hs b.toNat)]
    simp only [List.cons_ne_nil, and_false, iff_false, not_and]
    intro hn he
    rcases step_ne_nil_or_isSome hs b.toNat with h | h
    · exact absurd hn h
    · simp [he] at h

theorem decode_eq_nil_iff (bytes : Bytes) : Utf8.decode bytes = [] ↔ bytes = [] := by
  simp [Utf8.decode, decodeFrom_eq_nil_iff]

end LineGrammar
