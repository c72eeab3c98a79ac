import LineGrammar.Proofs.Decoding

/-! Encoding and decoding undo each other. The bytes of a character that is being read, and bytes
for the bits still owed, are the encoding of every code point that the character may become. So a
text is read back from its bytes, and bytes that no text encodes leave a replacement behind. -/

namespace LineGrammar

namespace Utf8

/-- Bytes are valid if they are the encoding of a text. -/
def IsValid (bytes : Bytes) : Prop :=
  ∃ t, encode t = bytes

/-- The last bytes of the encoding of a code point, with six of its bits each. -/
def trailing (n : Nat) : Nat → Bytes
  | 0 => []
  | count + 1 => UInt8.ofNat (n / 0x40 ^ count % 0x40 + 0x80) :: trailing n count

/-- A byte takes the first bits of a code point beyond ASCII and says how many bytes follow. -/
def Leads (b n owed : Nat) : Prop :=
  owed = 1 ∧ 0x80 ≤ n ∧ n < 0x800 ∧ b = n / 0x40 + 0xC0 ∨
  owed = 2 ∧ 0x800 ≤ n ∧ n < 0x10000 ∧ b = n / 0x1000 + 0xE0 ∨
  owed = 3 ∧ 0x10000 ≤ n ∧ n < 0x110000 ∧ b = n / 0x40000 + 0xF0

namespace Unfinished

/-- A code point that a character being read may still become. -/
structure Awaits (u : Unfinished) (n : Nat) : Prop where
  bits : n / 0x40 ^ u.owed = u.bits
  low : u.low ≤ n / 0x40 ^ (u.owed - 1) % 0x40 + 0x80
  high : n / 0x40 ^ (u.owed - 1) % 0x40 + 0x80 ≤ u.high

/-- The bytes with which a character being read began. -/
structure Begun (u : Unfinished) (bytes : Bytes) : Prop where
  owed : 1 ≤ u.owed
  low : 0x80 ≤ u.low
  high : u.high ≤ 0xBF
  spells : ∀ n, u.Awaits n → n.isValidChar ∧
    String.utf8EncodeChar (Char.ofNat n) = bytes ++ trailing n u.owed

end Unfinished

/-- The bytes of which no character has come yet. -/
inductive Pending : Option Unfinished → Bytes → Prop where
  | between : Pending none []
  | inside {u : Unfinished} {bytes : Bytes} (h : u.Begun bytes) : Pending (some u) bytes

end Utf8

theorem toNat_ofNat_of_isValidChar {n : Nat} (h : n.isValidChar) : (Char.ofNat n).toNat = n := by
  rw [Char.ofNat, dif_pos h]
  rfl

theorem utf8EncodeChar_of_lt {n : Nat} (h : n < 0x80) :
    String.utf8EncodeChar (Char.ofNat n) = [UInt8.ofNat n] := by
  have hn : (Char.ofNat n).val.toNat = n := toNat_ofNat_ascii h
  rw [String.utf8EncodeChar]
  simp only [hn]
  rw [if_pos (by omega)]

theorem utf8EncodeChar_of_leads {b n owed : Nat} (hv : n.isValidChar) (h : Utf8.Leads b n owed) :
    String.utf8EncodeChar (Char.ofNat n) = UInt8.ofNat b :: Utf8.trailing n owed := by
  have hn : (Char.ofNat n).val.toNat = n := toNat_ofNat_of_isValidChar hv
  rw [String.utf8EncodeChar]
  simp only [hn]
  rcases h with ⟨rfl, hl, hu, rfl⟩ | ⟨rfl, hl, hu, rfl⟩ | ⟨rfl, hl, hu, rfl⟩
  · rw [if_neg (by omega), if_pos (by omega), Nat.mod_eq_of_lt (show n / 64 < 32 by omega)]
    simp [Utf8.trailing]
  · rw [if_neg (by omega), if_neg (by omega), if_pos (by omega),
      Nat.mod_eq_of_lt (show n / 4096 < 16 by omega)]
    simp [Utf8.trailing]
  · rw [if_neg (by omega), if_neg (by omega), if_neg (by omega),
      Nat.mod_eq_of_lt (show n / 262144 < 8 by omega)]
    simp [Utf8.trailing]

theorem begun_of_leading {b : Nat} {u : Utf8.Unfinished} (h : Utf8.leading b = ([], some u)) :
    u.Begun [UInt8.ofNat b] := by
  revert h
  fun_cases Utf8.leading b
  case case1 => simp
  case case2 => simp
  case case10 => simp
  all_goals
    intro h
    obtain rfl := Option.some.inj (congrArg Prod.snd h)
    refine ⟨by simp, by simp, by simp, fun n hn => ?_⟩
    obtain ⟨hbits, hlow, hhigh⟩ := hn
    simp only [Nat.reducePow, Nat.reduceSub, Nat.div_one] at hbits hlow hhigh
    -- The bounds of the second byte keep out surrogates and what lies beyond the last code point.
    have hv : n.isValidChar := by
      rw [Nat.isValidChar]
      omega
    exact ⟨hv, utf8EncodeChar_of_leads hv (by dsimp only [Utf8.Leads]; omega)⟩

/-- A code point is awaited before a byte if it is what the byte leaves to await. -/
theorem awaits_of_div_eq {u : Utf8.Unfinished} {bytes : Bytes} (hu : u.Begun bytes) {b n : Nat}
    (hb : u.low ≤ b ∧ b ≤ u.high)
    (hn : n / 0x40 ^ (u.owed - 1) = u.bits * 0x40 + (b - 0x80)) :
    u.Awaits n ∧ Utf8.trailing n u.owed = UInt8.ofNat b :: Utf8.trailing n (u.owed - 1) := by
  obtain ⟨more, hm⟩ : ∃ more, u.owed = more + 1 := ⟨u.owed - 1, by have := hu.owed; omega⟩
  have hlow := hu.low
  have hhigh := hu.high
  have hdiv : n / 0x40 ^ u.owed = n / 0x40 ^ (u.owed - 1) / 0x40 := by
    rw [hm, Nat.pow_succ, Nat.div_div_eq_div_mul, Nat.add_sub_cancel]
  have hmod : n / 0x40 ^ (u.owed - 1) % 0x40 + 0x80 = b := by omega
  refine ⟨⟨by omega, by omega, by omega⟩, ?_⟩
  rw [hm, Nat.add_sub_cancel] at hmod ⊢
  rw [Utf8.trailing, hmod]

/-- A byte that leaves no replacement is kept, in a character that is complete or still pending. -/
theorem step_pending {state : Option Utf8.Unfinished} {bytes : Bytes}
    (h : Utf8.Pending state bytes) (b : UInt8)
    (hr : Utf8.replacement ∉ (Utf8.step state b.toNat).1) :
    ∃ later, Utf8.Pending (Utf8.step state b.toNat).2 later ∧
      Utf8.encode (Utf8.step state b.toNat).1 ++ later = bytes ++ [b] := by
  cases h with
  | between =>
    rw [Utf8.step] at hr ⊢
    rcases leading_cases b.toNat with ⟨hb, he⟩ | he | ⟨u, _, he⟩
    · exact ⟨[], he ▸ .between, by simp [he, Utf8.encode, utf8EncodeChar_of_lt hb]⟩
    · simp [he] at hr
    · have hu := begun_of_leading he
      rw [UInt8.ofNat_toNat] at hu
      rw [he]
      exact ⟨[b], .inside hu, rfl⟩
  | @inside u _ hu =>
    rw [Utf8.step] at hr ⊢
    unfold Utf8.following at hr ⊢
    split at hr
    · next hb =>
      rw [if_pos hb]
      dsimp only
      split
      · next hone =>
        have hn : (u.bits * 0x40 + (b.toNat - 0x80)) / 0x40 ^ (u.owed - 1) =
            u.bits * 0x40 + (b.toNat - 0x80) := by simp [hone]
        obtain ⟨ha, ht⟩ := awaits_of_div_eq hu hb hn
        rw [UInt8.ofNat_toNat, hone, Nat.sub_self, Utf8.trailing] at ht
        refine ⟨[], .between, ?_⟩
        rw [List.append_nil, Utf8.encode, List.flatMap_singleton, (hu.spells _ ha).2, hone, ht]
      · next hmore =>
        have howed := hu.owed
        refine ⟨bytes ++ [b], .inside ⟨by dsimp only; omega, le_rfl, le_rfl, fun n hn => ?_⟩, rfl⟩
        obtain ⟨ha, ht⟩ := awaits_of_div_eq hu hb hn.bits
        obtain ⟨hv, hs⟩ := hu.spells n ha
        exact ⟨hv, by simp [hs, ht]⟩
    · exact absurd List.mem_cons_self hr

theorem encode_decodeFrom {state : Option Utf8.Unfinished} {pending bytes : Bytes}
    (h : Utf8.Pending state pending) (hr : Utf8.replacement ∉ Utf8.decodeFrom state bytes) :
    Utf8.encode (Utf8.decodeFrom state bytes) = pending ++ bytes := by
  induction bytes generalizing state pending with
  | nil =>
    cases h with
    | between => rfl
    | inside hu => exact absurd List.mem_cons_self hr
  | cons b bytes ih =>
    rw [Utf8.decodeFrom, List.mem_append, not_or] at hr
    obtain ⟨later, hp, he⟩ := step_pending h b hr.1
    have hh := ih hp hr.2
    rw [Utf8.encode] at he hh
    rw [Utf8.decodeFrom, Utf8.encode, List.flatMap_append, hh, ← List.append_assoc, he,
      List.append_assoc, List.singleton_append]

theorem encode_decode {bytes : Bytes} (h : Utf8.replacement ∉ Utf8.decode bytes) :
    Utf8.encode (Utf8.decode bytes) = bytes :=
  encode_decodeFrom .between h

theorem exists_leads {n : Nat} (hv : n.isValidChar) (hn : 0x80 ≤ n) :
    ∃ b owed, b < 0x100 ∧ Utf8.Leads b n owed := by
  have hlt : n < 0x110000 := by rcases hv with h | h <;> omega
  by_cases h2 : n < 0x800
  · exact ⟨_, 1, by omega, .inl ⟨rfl, hn, h2, rfl⟩⟩
  · by_cases h3 : n < 0x10000
    · exact ⟨_, 2, by omega, .inr (.inl ⟨rfl, by omega, h3, rfl⟩)⟩
    · exact ⟨_, 3, by omega, .inr (.inr ⟨rfl, by omega, hlt, rfl⟩)⟩

theorem leading_of_leads {b n owed : Nat} (hv : n.isValidChar) (h : Utf8.Leads b n owed) :
    ∃ u : Utf8.Unfinished, Utf8.leading b = ([], some u) ∧ u.owed = owed ∧ u.Awaits n := by
  rw [Utf8.Leads] at h
  rw [Nat.isValidChar] at hv
  fun_cases Utf8.leading b
  case case1 => omega
  case case2 => omega
  case case10 => omega
  all_goals
    refine ⟨_, rfl, by dsimp only; omega, ?_⟩
    constructor <;> simp only [Nat.reducePow, Nat.reduceSub, Nat.div_one] <;> omega

theorem decodeFrom_trailing {u : Utf8.Unfinished} {n : Nat} (ho : 1 ≤ u.owed) (ha : u.Awaits n)
    (rest : Bytes) :
    Utf8.decodeFrom (some u) (Utf8.trailing n u.owed ++ rest) =
      Char.ofNat n :: Utf8.decode rest := by
  obtain ⟨bits, owed, low, high⟩ := u
  induction owed generalizing bits low high with
  | zero => simp at ho
  | succ more ih =>
    obtain ⟨hbits, hlow, hhigh⟩ := ha
    simp only [Nat.add_sub_cancel] at hbits hlow hhigh
    have hmod := Nat.mod_lt (n / 0x40 ^ more) (show 0 < 0x40 by omega)
    have hb : (UInt8.ofNat (n / 0x40 ^ more % 0x40 + 0x80)).toNat =
        n / 0x40 ^ more % 0x40 + 0x80 := UInt8.toNat_ofNat_of_lt' (by rw [UInt8.size]; omega)
    have hnext : bits * 0x40 + (n / 0x40 ^ more % 0x40 + 0x80 - 0x80) = n / 0x40 ^ more := by
      rw [← hbits, Nat.pow_succ, ← Nat.div_div_eq_div_mul]
      omega
    rw [Utf8.trailing, List.cons_append, Utf8.decodeFrom, hb, Utf8.step, Utf8.following,
      if_pos ⟨hlow, hhigh⟩]
    simp only [hnext]
    -- The last byte makes the character; behind any other byte the bounds are the usual ones.
    cases more with
    | zero => simp [Utf8.trailing, Utf8.decode]
    | succ more =>
      refine ih (n / 0x40 ^ (more + 1)) 0x80 0xBF (by dsimp only; omega) ⟨rfl, ?_, ?_⟩
      all_goals
        simp only [Nat.add_sub_cancel]
        omega

theorem decode_utf8EncodeChar (c : Char) (rest : Bytes) :
    Utf8.decode (String.utf8EncodeChar c ++ rest) = c :: Utf8.decode rest := by
  have hv : c.toNat.isValidChar := c.valid
  have hc : Char.ofNat c.toNat = c := Char.ofNat_toNat c
  by_cases hlt : c.toNat < 0x80
  · have hb : (UInt8.ofNat c.toNat).toNat = c.toNat :=
      UInt8.toNat_ofNat_of_lt' (by rw [UInt8.size]; omega)
    have hh := decode_append_ascii (b := UInt8.ofNat c.toNat) (by omega) [] rest
    rw [hb, hc] at hh
    rw [← hc, utf8EncodeChar_of_lt hlt, hc]
    exact hh
  · obtain ⟨b, owed, hsize, hl⟩ := exists_leads hv (by omega)
    obtain ⟨u, hu, rfl, ha⟩ := leading_of_leads hv hl
    have hb : (UInt8.ofNat b).toNat = b := UInt8.toNat_ofNat_of_lt' hsize
    have hs := utf8EncodeChar_of_leads hv hl
    rw [hc] at hs
    rw [hs, List.cons_append, Utf8.decode, Utf8.decodeFrom, hb, Utf8.step, hu,
      decodeFrom_trailing (begun_of_leading hu).owed ha, hc, List.nil_append]

/-- A text is read back from its bytes. -/
theorem decode_encode (t : Text) : Utf8.decode (Utf8.encode t) = t := by
  induction t with
  | nil => rfl
  | cons c t ih =>
    rw [Utf8.encode] at ih ⊢
    rw [List.flatMap_cons, decode_utf8EncodeChar, ih]

theorem isValid_iff (bytes : Bytes) :
    Utf8.IsValid bytes ↔ Utf8.encode (Utf8.decode bytes) = bytes := by
  constructor
  · rintro ⟨t, rfl⟩
    rw [decode_encode]
  · intro h
    exact ⟨_, h⟩

instance (bytes : Bytes) : Decidable (Utf8.IsValid bytes) :=
  decidable_of_iff _ (isValid_iff bytes).symm

theorem replacement_mem_decode {bytes : Bytes} (h : ¬ Utf8.IsValid bytes) :
    Utf8.replacement ∈ Utf8.decode bytes :=
  Decidable.by_contra fun hr => h ⟨_, encode_decode hr⟩

end LineGrammar
