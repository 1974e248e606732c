import AstraKernel.Vfs.Utf8
import Mathlib.Tactic

/-!
# What the UTF-8 validator accepts

Exactly the encodings of lists of Unicode scalar values other than NUL
(`astraUtf8Validate_iff`): no overlong form, no surrogate, nothing past U+10FFFF.
-/

namespace Astra

open List

theorem toNat_lowBits (byte : UInt8) {mask : UInt8} (k : ℕ) (hm : mask.toNat = 2 ^ k - 1) :
    (lowBits byte mask).toNat = byte.toNat % 2 ^ k := by
  simp only [lowBits, UInt8.toNat_toUInt32, UInt8.toNat_and, hm, Nat.and_two_pow_sub_one_eq_mod]

theorem continues_iff (b : UInt8) : continues b = true ↔ 128 ≤ b.toNat ∧ b.toNat < 192 := by
  have h : ∀ n : Fin 256, (n.val &&& 192 == 128) = decide (128 ≤ n.val ∧ n.val < 192) := by
    decide +kernel
  have hb := h ⟨b.toNat, b.toNat_lt⟩
  have he : continues b = (b.toNat &&& 192 == 128) := by
    rw [continues, Bool.eq_iff_iff, beq_iff_eq, beq_iff_eq, ← UInt8.toNat_inj, UInt8.toNat_and]
    rfl
  rw [he, hb, decide_eq_true_eq]

theorem toNat_shift {x : UInt32} {k : UInt32} (hk : k.toNat < 32)
    (hx : 2 ^ k.toNat * x.toNat < 2 ^ 32) : (x <<< k).toNat = 2 ^ k.toNat * x.toNat := by
  rw [UInt32.toNat_shiftLeft, Nat.mod_eq_of_lt hk, Nat.shiftLeft_eq, Nat.mul_comm,
    Nat.mod_eq_of_lt hx]

theorem toNat_lowBits_shift (byte : UInt8) {mask : UInt8} {shift : UInt32} (k : ℕ)
    (hm : mask.toNat = 2 ^ k - 1) (hk : shift.toNat < 32) (hle : shift.toNat + k ≤ 32) :
    (lowBits byte mask <<< shift).toNat = 2 ^ shift.toNat * (byte.toNat % 2 ^ k) := by
  have hb := toNat_lowBits byte k hm
  rw [toNat_shift hk, hb]
  calc 2 ^ shift.toNat * (lowBits byte mask).toNat
      < 2 ^ shift.toNat * 2 ^ k :=
        Nat.mul_lt_mul_of_pos_left (hb ▸ Nat.mod_lt _ (Nat.two_pow_pos k)) (Nat.two_pow_pos _)
    _ ≤ 2 ^ 32 := by
        rw [← Nat.pow_add]
        exact Nat.pow_le_pow_right two_pos hle

theorem toNat_or {x y : UInt32} {a : ℕ} (k : ℕ) (hx : x.toNat = 2 ^ k * a) (hy : y.toNat < 2 ^ k) :
    (x ||| y).toNat = 2 ^ k * a + y.toNat := by
  rw [UInt32.toNat_or, hx, Nat.two_pow_add_eq_or_of_lt hy]

theorem toNat_two (b0 b1 : UInt8) : (lowBits b0 0x1f <<< 6 ||| lowBits b1 0x3f).toNat
    = 2 ^ 6 * (b0.toNat % 2 ^ 5) + b1.toNat % 2 ^ 6 := by
  have h1 : (lowBits b1 0x3f).toNat = b1.toNat % 2 ^ 6 := toNat_lowBits b1 6 rfl
  have hs : (lowBits b0 0x1f <<< 6).toNat = 2 ^ 6 * (b0.toNat % 2 ^ 5) :=
    toNat_lowBits_shift b0 5 rfl (by decide) (by decide)
  rw [toNat_or 6 hs (by rw [h1]; omega), h1]

theorem toNat_three (b0 b1 b2 : UInt8) :
    (lowBits b0 0x0f <<< 12 ||| lowBits b1 0x3f <<< 6 ||| lowBits b2 0x3f).toNat
      = 2 ^ 12 * (b0.toNat % 2 ^ 4) + 2 ^ 6 * (b1.toNat % 2 ^ 6) + b2.toNat % 2 ^ 6 := by
  have h2 : (lowBits b2 0x3f).toNat = b2.toNat % 2 ^ 6 := toNat_lowBits b2 6 rfl
  have hs0 : (lowBits b0 0x0f <<< 12).toNat = 2 ^ 12 * (b0.toNat % 2 ^ 4) :=
    toNat_lowBits_shift b0 4 rfl (by decide) (by decide)
  have hs1 : (lowBits b1 0x3f <<< 6).toNat = 2 ^ 6 * (b1.toNat % 2 ^ 6) :=
    toNat_lowBits_shift b1 6 rfl (by decide) (by decide)
  have hs : (lowBits b0 0x0f <<< 12 ||| lowBits b1 0x3f <<< 6).toNat
      = 2 ^ 6 * (2 ^ 6 * (b0.toNat % 2 ^ 4) + b1.toNat % 2 ^ 6) := by
    rw [toNat_or 12 hs0 (by rw [hs1]; omega), hs1]
    ring
  rw [toNat_or 6 hs (by rw [h2]; omega), h2]
  ring

theorem toNat_four (b0 b1 b2 b3 : UInt8) :
    (lowBits b0 0x07 <<< 18 ||| lowBits b1 0x3f <<< 12 ||| lowBits b2 0x3f <<< 6 |||
      lowBits b3 0x3f).toNat = 2 ^ 18 * (b0.toNat % 2 ^ 3) + 2 ^ 12 * (b1.toNat % 2 ^ 6)
        + 2 ^ 6 * (b2.toNat % 2 ^ 6) + b3.toNat % 2 ^ 6 := by
  have h3 : (lowBits b3 0x3f).toNat = b3.toNat % 2 ^ 6 := toNat_lowBits b3 6 rfl
  have hs0 : (lowBits b0 0x07 <<< 18).toNat = 2 ^ 18 * (b0.toNat % 2 ^ 3) :=
    toNat_lowBits_shift b0 3 rfl (by decide) (by decide)
  have hs1 : (lowBits b1 0x3f <<< 12).toNat = 2 ^ 12 * (b1.toNat % 2 ^ 6) :=
    toNat_lowBits_shift b1 6 rfl (by decide) (by decide)
  have hs2 : (lowBits b2 0x3f <<< 6).toNat = 2 ^ 6 * (b2.toNat % 2 ^ 6) :=
    toNat_lowBits_shift b2 6 rfl (by decide) (by decide)
  have hs01 : (lowBits b0 0x07 <<< 18 ||| lowBits b1 0x3f <<< 12).toNat
      = 2 ^ 12 * (2 ^ 6 * (b0.toNat % 2 ^ 3) + b1.toNat % 2 ^ 6) := by
    rw [toNat_or 18 hs0 (by rw [hs1]; omega), hs1]
    ring
  have hs : (lowBits b0 0x07 <<< 18 ||| lowBits b1 0x3f <<< 12 ||| lowBits b2 0x3f <<< 6).toNat
      = 2 ^ 6 * (2 ^ 6 * (2 ^ 6 * (b0.toNat % 2 ^ 3) + b1.toNat % 2 ^ 6) + b2.toNat % 2 ^ 6) := by
    rw [toNat_or 12 hs01 (by rw [hs2]; omega), hs2]
    ring
  rw [toNat_or 6 hs (by rw [h3]; omega), h3]
  ring

/-! ## The four lengths -/

/-- The scalar that the bytes start with, and how many of them it takes: the four rows of the
table of well formed byte sequences. -/
inductive Spelled : List UInt8 → ℕ → ℕ → Prop
  | one {b0 rest} (h0 : b0.toNat < 128) : Spelled (b0 :: rest) b0.toNat 1
  | two {b0 b1 rest} (h0 : 194 ≤ b0.toNat ∧ b0.toNat < 224)
      (h1 : 128 ≤ b1.toNat ∧ b1.toNat < 192) :
      Spelled (b0 :: b1 :: rest) (2 ^ 6 * (b0.toNat % 2 ^ 5) + b1.toNat % 2 ^ 6) 2
  | three {b0 b1 b2 rest} (h0 : 224 ≤ b0.toNat ∧ b0.toNat < 240)
      (h1 : 128 ≤ b1.toNat ∧ b1.toNat < 192) (h2 : 128 ≤ b2.toNat ∧ b2.toNat < 192)
      (ho : b0.toNat = 224 → 160 ≤ b1.toNat) (hs : b0.toNat = 237 → b1.toNat < 160) :
      Spelled (b0 :: b1 :: b2 :: rest)
        (2 ^ 12 * (b0.toNat % 2 ^ 4) + 2 ^ 6 * (b1.toNat % 2 ^ 6) + b2.toNat % 2 ^ 6) 3
  | four {b0 b1 b2 b3 rest} (h0 : 240 ≤ b0.toNat ∧ b0.toNat < 245)
      (h1 : 128 ≤ b1.toNat ∧ b1.toNat < 192) (h2 : 128 ≤ b2.toNat ∧ b2.toNat < 192)
      (h3 : 128 ≤ b3.toNat ∧ b3.toNat < 192) (ho : b0.toNat = 240 → 144 ≤ b1.toNat)
      (hm : b0.toNat = 244 → b1.toNat < 144) :
      Spelled (b0 :: b1 :: b2 :: b3 :: rest)
        (2 ^ 18 * (b0.toNat % 2 ^ 3) + 2 ^ 12 * (b1.toNat % 2 ^ 6) + 2 ^ 6 * (b2.toNat % 2 ^ 6)
          + b3.toNat % 2 ^ 6) 4

variable {bytes : List UInt8} {b : UInt8} {v w : ℕ}

theorem Spelled.decode (h : Spelled bytes v w) :
    (astraUtf8Decode bytes).1.toNat = v ∧ (astraUtf8Decode bytes).2 = w := by
  cases h with
  | one h0 =>
    have hlt : _ < (0x80 : UInt8) := UInt8.lt_iff_toNat_lt.2 h0
    simp only [astraUtf8Decode, if_pos hlt]
    exact ⟨rfl, trivial⟩
  | @two b0 b1 rest h0 h1 =>
    simp only [astraUtf8Decode, ge_iff_le, UInt8.lt_iff_toNat_lt, UInt8.le_iff_toNat_le,
      UInt8.reduceToNat]
    rw [if_neg (by omega), if_pos (by omega), if_pos ((continues_iff b1).2 h1)]
    exact ⟨toNat_two b0 b1, rfl⟩
  | @three b0 b1 b2 rest h0 h1 h2 ho hs =>
    simp only [astraUtf8Decode, ge_iff_le, UInt8.lt_iff_toNat_lt, UInt8.le_iff_toNat_le,
      ← UInt8.toNat_inj, UInt8.reduceToNat]
    rw [if_neg (by omega), if_neg (by omega), if_pos (by omega), if_pos ⟨(continues_iff b1).2 h1,
      (continues_iff b2).2 h2, by omega, by omega⟩]
    exact ⟨toNat_three b0 b1 b2, rfl⟩
  | @four b0 b1 b2 b3 rest h0 h1 h2 h3 ho hm =>
    simp only [astraUtf8Decode, ge_iff_le, UInt8.lt_iff_toNat_lt, UInt8.le_iff_toNat_le,
      ← UInt8.toNat_inj, UInt8.reduceToNat]
    rw [if_neg (by omega), if_neg (by omega), if_neg (by omega), if_pos (by omega),
      if_pos ⟨(continues_iff b1).2 h1, (continues_iff b2).2 h2, (continues_iff b3).2 h3, by omega,
        by omega⟩]
    exact ⟨toNat_four b0 b1 b2 b3, rfl⟩

theorem decode_cases (b0 : UInt8) (rest : List UInt8) :
    (∃ v w, Spelled (b0 :: rest) v w) ∨
      astraUtf8Decode (b0 :: rest) = (astraUtf8Replacement, 1) := by
  simp only [astraUtf8Decode, ge_iff_le, UInt8.lt_iff_toNat_lt, UInt8.le_iff_toNat_le,
    ← UInt8.toNat_inj, UInt8.reduceToNat]
  split_ifs with hlt hr hr' hq
  · exact .inl ⟨_, _, .one hlt⟩
  · rcases rest with _ | ⟨b1, rest⟩
    · exact .inr rfl
    dsimp only
    split_ifs with hc
    · exact .inl ⟨_, _, .two ⟨hr.1, by omega⟩ ((continues_iff b1).1 hc)⟩
    · exact .inr rfl
  · rcases rest with _ | ⟨b1, _ | ⟨b2, rest⟩⟩
    · exact .inr rfl
    · exact .inr rfl
    dsimp only
    split_ifs with hc
    · obtain ⟨h1, h2, ho, hs⟩ := hc
      exact .inl ⟨_, _, .three ⟨hr'.1, by omega⟩ ((continues_iff b1).1 h1)
        ((continues_iff b2).1 h2) (by omega) (by omega)⟩
    · exact .inr rfl
  · rcases rest with _ | ⟨b1, _ | ⟨b2, _ | ⟨b3, rest⟩⟩⟩
    · exact .inr rfl
    · exact .inr rfl
    · exact .inr rfl
    dsimp only
    split_ifs with hc
    · obtain ⟨h1, h2, h3, ho, hm⟩ := hc
      exact .inl ⟨_, _, .four ⟨hq.1, by omega⟩ ((continues_iff b1).1 h1) ((continues_iff b2).1 h2)
        ((continues_iff b3).1 h3) (by omega) (by omega)⟩
    · exact .inr rfl
  · exact .inr rfl

theorem Spelled.char (h : Spelled bytes v w) :
    ∃ c : Char, c.val.toNat = v ∧ bytes = String.utf8EncodeChar c ++ bytes.drop w ∧
      (String.utf8EncodeChar c).length = w := by
  have hchar : ∀ v, v < 0xd800 ∨ (0xdfff < v ∧ v < 0x110000) → ∃ c : Char, c.val.toNat = v := by
    intro v hv
    have hm : (UInt32.ofNat v).toNat = v := by
      rw [UInt32.toNat_ofNat']
      omega
    exact ⟨⟨UInt32.ofNat v, by unfold UInt32.isValidChar Nat.isValidChar; omega⟩, hm⟩
  have hbyte : ∀ {n : ℕ} {b : UInt8}, n = b.toNat → UInt8.ofNat n = b := by
    rintro n b rfl
    exact UInt8.ofNat_toNat
  cases h with
  | @one b0 rest h0 =>
    obtain ⟨c, hc⟩ := hchar b0.toNat (by omega)
    have he : String.utf8EncodeChar c = [b0] := by
      simp only [String.utf8EncodeChar]
      rw [hc, if_pos (by omega), hbyte rfl]
    exact ⟨c, hc, by simp [he], by simp [he]⟩
  | @two b0 b1 rest h0 h1 =>
    obtain ⟨c, hc⟩ := hchar (2 ^ 6 * (b0.toNat % 2 ^ 5) + b1.toNat % 2 ^ 6) (by omega)
    have he : String.utf8EncodeChar c = [b0, b1] := by
      simp only [String.utf8EncodeChar]
      rw [hc, if_neg (by omega), if_pos (by omega), hbyte (b := b0) (by omega),
        hbyte (b := b1) (by omega)]
    exact ⟨c, hc, by simp [he], by simp [he]⟩
  | @three b0 b1 b2 rest h0 h1 h2 ho hs =>
    obtain ⟨c, hc⟩ := hchar
      (2 ^ 12 * (b0.toNat % 2 ^ 4) + 2 ^ 6 * (b1.toNat % 2 ^ 6) + b2.toNat % 2 ^ 6) (by omega)
    have he : String.utf8EncodeChar c = [b0, b1, b2] := by
      simp only [String.utf8EncodeChar]
      rw [hc, if_neg (by omega), if_neg (by omega), if_pos (by omega), hbyte (b := b0) (by omega),
        hbyte (b := b1) (by omega), hbyte (b := b2) (by omega)]
    exact ⟨c, hc, by simp [he], by simp [he]⟩
  | @four b0 b1 b2 b3 rest h0 h1 h2 h3 ho hm =>
    obtain ⟨c, hc⟩ := hchar (2 ^ 18 * (b0.toNat % 2 ^ 3) + 2 ^ 12 * (b1.toNat % 2 ^ 6)
      + 2 ^ 6 * (b2.toNat % 2 ^ 6) + b3.toNat % 2 ^ 6) (by omega)
    have he : String.utf8EncodeChar c = [b0, b1, b2, b3] := by
      simp only [String.utf8EncodeChar]
      rw [hc, if_neg (by omega), if_neg (by omega), if_neg (by omega), hbyte (b := b0) (by omega),
        hbyte (b := b1) (by omega), hbyte (b := b2) (by omega), hbyte (b := b3) (by omega)]
    exact ⟨c, hc, by simp [he], by simp [he]⟩

theorem spelled_char (c : Char) (rest : List UInt8) : Spelled (String.utf8EncodeChar c ++ rest)
    c.val.toNat (String.utf8EncodeChar c).length := by
  have hv : c.val.toNat < 0xd800 ∨ (0xdfff < c.val.toNat ∧ c.val.toNat < 0x110000) := c.valid
  have hb : ∀ n, n < 256 → (UInt8.ofNat n).toNat = n := by
    intro n hn
    rw [UInt8.toNat_ofNat']
    omega
  generalize hn : c.val.toNat = v at hv
  simp only [String.utf8EncodeChar, hn]
  split_ifs with h1 h2 h3
  · have h0 := hb v (by omega)
    have : Spelled (UInt8.ofNat v :: rest) (UInt8.ofNat v).toNat 1 := .one (by omega)
    rwa [h0] at this
  · have h0 := hb (v / 64 % 32 + 192) (by omega)
    have h1 := hb (v % 64 + 128) (by omega)
    have : Spelled (UInt8.ofNat (v / 64 % 32 + 192) :: UInt8.ofNat (v % 64 + 128) ::
        rest) _ 2 :=
      .two (by omega) (by omega)
    rw [h0, h1] at this
    have hsum : 2 ^ 6 * ((v / 64 % 32 + 192) % 2 ^ 5) + (v % 64 + 128) % 2 ^ 6 = v := by
      omega
    rw [hsum] at this
    exact this
  · have h0 := hb (v / 4096 % 16 + 224) (by omega)
    have h1 := hb (v / 64 % 64 + 128) (by omega)
    have h2 := hb (v % 64 + 128) (by omega)
    have : Spelled (UInt8.ofNat (v / 4096 % 16 + 224) ::
        UInt8.ofNat (v / 64 % 64 + 128) ::
        UInt8.ofNat (v % 64 + 128) ::
        rest) _ 3 :=
      .three (by omega) (by omega) (by omega) (by omega) (by omega)
    rw [h0, h1, h2] at this
    have hsum : 2 ^ 12 * ((v / 4096 % 16 + 224) % 2 ^ 4) + 2 ^ 6 * ((v / 64 % 64 + 128) % 2 ^ 6)
        + (v % 64 + 128) % 2 ^ 6 = v := by
      omega
    rw [hsum] at this
    exact this
  · have h0 := hb (v / 262144 % 8 + 240) (by omega)
    have h1 := hb (v / 4096 % 64 + 128) (by omega)
    have h2 := hb (v / 64 % 64 + 128) (by omega)
    have h3 := hb (v % 64 + 128) (by omega)
    have : Spelled (UInt8.ofNat (v / 262144 % 8 + 240) ::
        UInt8.ofNat (v / 4096 % 64 + 128) ::
        UInt8.ofNat (v / 64 % 64 + 128) ::
        UInt8.ofNat (v % 64 + 128) ::
        rest) _ 4 :=
      .four (by omega) (by omega) (by omega) (by omega) (by omega) (by omega)
    rw [h0, h1, h2, h3] at this
    have hsum : 2 ^ 18 * ((v / 262144 % 8 + 240) % 2 ^ 3) + 2 ^ 12 * ((v / 4096 % 64 + 128) % 2 ^ 6)
        + 2 ^ 6 * ((v / 64 % 64 + 128) % 2 ^ 6) + (v % 64 + 128) % 2 ^ 6 = v := by
      omega
    rw [hsum] at this
    exact this

theorem scalarAt_iff (bytes : List UInt8) (w : ℕ) :
    scalarAt bytes = some w ↔ ∃ v, Spelled bytes v w := by
  rcases bytes with _ | ⟨b0, rest⟩
  · have hn : scalarAt [] = none := rfl
    rw [hn]
    exact ⟨fun h => absurd h (by simp), fun ⟨v, h⟩ => nomatch h⟩
  rcases decode_cases b0 rest with ⟨v, w', hs⟩ | hr
  · obtain ⟨hv, hw⟩ := hs.decode
    have hw0 : w' ≠ 0 := by cases hs <;> decide
    -- only the three bytes that spell it decode to the replacement scalar
    have hf : ¬((astraUtf8Decode (b0 :: rest)).1 = astraUtf8Replacement ∧
        ¬((astraUtf8Decode (b0 :: rest)).2 = 3 ∧ (b0 :: rest).take 3 = [0xef, 0xbf, 0xbd])) := by
      rintro ⟨hr, hn⟩
      have hv' : v = 65533 := by rw [← hv, hr]; rfl
      cases hs with
      | one h0 => omega
      | two h0 h1 => omega
      | @three _ b1 b2 _ h0 h1 h2 ho hs =>
        refine hn ⟨hw, ?_⟩
        have e0 : b0 = 0xef := UInt8.toNat_inj.1 (show b0.toNat = 239 by omega)
        have e1 : b1 = 0xbf := UInt8.toNat_inj.1 (show b1.toNat = 191 by omega)
        have e2 : b2 = 0xbd := UInt8.toNat_inj.1 (show b2.toNat = 189 by omega)
        rw [e0, e1, e2]
        rfl
      | four h0 h1 h2 h3 ho hm => omega
    have hsc : scalarAt (b0 :: rest) = some w' := by
      unfold scalarAt
      simp only [hw]
      rw [hw] at hf
      rw [if_neg (not_or.2 ⟨hw0, hf⟩)]
    rw [hsc]
    constructor
    · rintro h
      cases h
      exact ⟨v, hs⟩
    · rintro ⟨v2, hs2⟩
      rw [← hw, hs2.decode.2]
  · have hn : scalarAt (b0 :: rest) = none := by
      unfold scalarAt
      rw [hr]
      rfl
    rw [hn]
    refine ⟨fun h => absurd h (by simp), fun ⟨v, hs⟩ => ?_⟩
    obtain ⟨hv, hw⟩ := hs.decode
    rw [hr] at hv hw
    have hv' : v = 65533 := hv.symm
    have hw' : w = 1 := hw.symm
    cases hs with
    | one h0 => omega
    | two | three | four => omega

theorem utf8Validate_iff : ∀ (fuel : ℕ) (bytes : List UInt8), bytes.length ≤ fuel →
    (utf8Validate fuel bytes = true ↔
      ∃ l : List Char, (∀ c ∈ l, c.val ≠ 0) ∧ bytes = l.flatMap String.utf8EncodeChar)
  | fuel, [], _ => by
    refine ⟨fun _ => ⟨[], by simp, rfl⟩, fun _ => ?_⟩
    cases fuel <;> rfl
  | 0, _ :: _, h => by simp at h
  | fuel + 1, b :: bytes, h => by
    simp only [utf8Validate]
    split_ifs with hb
    · -- a NUL is no part of the encoding of another character
      refine ⟨fun h => absurd h (by simp), ?_⟩
      rintro ⟨l, hl, he⟩
      rcases l with _ | ⟨c, l⟩
      · simp at he
      have hs := spelled_char c (l.flatMap String.utf8EncodeChar)
      rw [flatMap_cons] at he
      rw [← he] at hs
      have h0 : b.toNat = 0 := by rw [hb]; rfl
      have hc : c.val.toNat = 0 := by
        generalize c.val.toNat = v at hs
        generalize (String.utf8EncodeChar c).length = w at hs
        cases hs <;> omega
      exact absurd (UInt32.toNat_inj.1 hc) (hl c mem_cons_self)
    have hlen : ∀ w, 0 < w → ((b :: bytes).drop w).length ≤ fuel := by
      intro w hw
      simp only [length_drop, length_cons] at h ⊢
      omega
    rcases hs : scalarAt (b :: bytes) with _ | w
    · refine ⟨fun h => absurd h (by simp), ?_⟩
      rintro ⟨l, hl, he⟩
      rcases l with _ | ⟨c, l⟩
      · simp at he
      rw [flatMap_cons] at he
      have := (scalarAt_iff _ _).2 ⟨_, spelled_char c (l.flatMap String.utf8EncodeChar)⟩
      rw [← he, hs] at this
      simp at this
    · obtain ⟨v, hv⟩ := (scalarAt_iff _ _).1 hs
      obtain ⟨c, hcv, hc, hcw⟩ := hv.char
      have hw : 0 < w := by cases hv <;> decide
      rw [utf8Validate_iff fuel _ (hlen w hw)]
      constructor
      · rintro ⟨l, hl, he⟩
        refine ⟨c :: l, ?_, by rw [flatMap_cons, ← he]; exact hc⟩
        rintro d hd
        rcases mem_cons.1 hd with rfl | hd
        · intro h0
          have hv0 : v = 0 := by rw [← hcv, h0]; rfl
          have hb0 : b.toNat ≠ 0 := fun hn => hb (UInt8.toNat_inj.1 hn)
          cases hv <;> omega
        · exact hl d hd
      · rintro ⟨l, hl, he⟩
        rcases l with _ | ⟨d, l⟩
        · simp at he
        refine ⟨l, fun e he => hl e (mem_cons_of_mem _ he), ?_⟩
        rw [flatMap_cons] at he
        have hd := spelled_char d (l.flatMap String.utf8EncodeChar)
        rw [← he] at hd
        have hwd : w = (String.utf8EncodeChar d).length := by
          rw [← hv.decode.2, hd.decode.2]
        rw [he, hwd, drop_left]

theorem astraUtf8Validate_iff (bytes : List UInt8) : astraUtf8Validate bytes = true ↔
    ∃ l : List Char, (∀ c ∈ l, c.val ≠ 0) ∧ bytes = l.flatMap String.utf8EncodeChar :=
  utf8Validate_iff _ bytes le_rfl

/-- A character is read back from its encoding, and bytes that start none are one replacement. -/
theorem utf8_decode_exact : (∀ (c : Char) (rest : List UInt8), astraUtf8Decode
      (String.utf8EncodeChar c ++ rest) = (c.val, (String.utf8EncodeChar c).length)) ∧
    ∀ b rest, (∃ c behind, b :: rest = String.utf8EncodeChar c ++ behind) ∨
      astraUtf8Decode (b :: rest) = (astraUtf8Replacement, 1) := by
  refine ⟨fun c rest => ?_, fun b rest => (decode_cases b rest).imp_left fun ⟨v, w, h⟩ => ?_⟩
  · obtain ⟨hscalar, hwidth⟩ := (spelled_char c rest).decode
    exact Prod.ext (UInt32.toNat_inj.1 hscalar) hwidth
  · obtain ⟨c, -, hc, -⟩ := h.char
    exact ⟨c, _, hc⟩

/-! ## Taking a text apart at an ASCII byte -/

def Utf8 (text : List UInt8) : Prop := ∃ l : List Char, text = l.flatMap String.utf8EncodeChar

theorem encode_ascii {c : Char} (hb : b ∈ String.utf8EncodeChar c)
    (h : b.toNat < 128) : String.utf8EncodeChar c = [b] := by
  have hs := spelled_char c []
  rw [append_nil] at hs
  generalize String.utf8EncodeChar c = bytes at hs hb
  generalize hw : bytes.length = w at hs
  generalize c.val.toNat = v at hs
  cases hs with
  | one h0 =>
    obtain rfl := eq_nil_of_length_eq_zero (Nat.succ.inj hw)
    rw [mem_singleton.1 hb]
  | two h0 h1 =>
    obtain rfl := eq_nil_of_length_eq_zero (Nat.succ.inj (Nat.succ.inj hw))
    rcases mem_pair.1 hb with rfl | rfl <;> omega
  | three h0 h1 h2 =>
    obtain rfl := eq_nil_of_length_eq_zero (Nat.succ.inj (Nat.succ.inj (Nat.succ.inj hw)))
    simp only [mem_cons, not_mem_nil, or_false] at hb
    rcases hb with rfl | rfl | rfl <;> omega
  | four h0 h1 h2 h3 =>
    obtain rfl := eq_nil_of_length_eq_zero
      (Nat.succ.inj (Nat.succ.inj (Nat.succ.inj (Nat.succ.inj hw))))
    simp only [mem_cons, not_mem_nil, or_false] at hb
    rcases hb with rfl | rfl | rfl | rfl <;> omega

theorem utf8_nil : Utf8 [] := ⟨[], rfl⟩

theorem utf8_ascii (h : b.toNat < 128) : Utf8 [b] := by
  refine ⟨[Char.ofNat b.toNat], ?_⟩
  have hv : (Char.ofNat b.toNat).val.toNat = b.toNat := by
    rw [Char.ofNat, dif_pos (show b.toNat.isValidChar from .inl (by omega))]
    rfl
  have hs := spelled_char (Char.ofNat b.toNat) []
  rw [hv, append_nil] at hs
  rw [flatMap_cons, flatMap_nil, append_nil]
  generalize String.utf8EncodeChar (Char.ofNat b.toNat) = bytes at hs
  generalize hw : bytes.length = w at hs
  generalize hn : b.toNat = n at hs h
  cases hs with
  | one h0 =>
    obtain rfl := eq_nil_of_length_eq_zero (Nat.succ.inj hw)
    rw [UInt8.toNat_inj.1 hn]
  | two | three | four => omega

theorem Utf8.append {a b : List UInt8} (ha : Utf8 a) (hb : Utf8 b) : Utf8 (a ++ b) := by
  obtain ⟨l, rfl⟩ := ha
  obtain ⟨m, rfl⟩ := hb
  exact ⟨l ++ m, (flatMap_append ..).symm⟩

theorem Utf8.split (h : b.toNat < 128) : ∀ {before behind : List UInt8},
    Utf8 (before ++ b :: behind) → Utf8 before ∧ Utf8 behind := by
  rintro before behind ⟨l, hl⟩
  induction l generalizing before with
  | nil => simp at hl
  | cons c l ih =>
    rw [flatMap_cons, append_eq_append_iff] at hl
    rcases hl with ⟨as, hc, hb⟩ | ⟨cs, rfl, hl⟩
    · rcases as with _ | ⟨a, as⟩
      · -- the character ends where the byte stands
        have hb' : [] ++ b :: behind = l.flatMap String.utf8EncodeChar := hb
        exact ⟨⟨[c], by simpa using hc.symm⟩, (ih hb').2⟩
      · obtain ⟨rfl, rfl⟩ := List.cons.inj hb
        have he := encode_ascii (hc ▸ mem_append_right _ mem_cons_self) h
        rw [he] at hc
        have hlen := congrArg List.length hc
        simp only [length_append, length_cons, length_nil] at hlen
        obtain rfl := eq_nil_of_length_eq_zero (show before.length = 0 by omega)
        obtain rfl := eq_nil_of_length_eq_zero (show as.length = 0 by omega)
        exact ⟨utf8_nil, ⟨l, rfl⟩⟩
    · obtain ⟨hcs, hbehind⟩ := ih hl.symm
      exact ⟨Utf8.append ⟨[c], by simp⟩ hcs, hbehind⟩

theorem Utf8.join (h : b.toNat < 128) {before behind : List UInt8} (hb : Utf8 before)
    (hd : Utf8 behind) : Utf8 (before ++ b :: behind) := by
  rw [show before ++ b :: behind = before ++ ([b] ++ behind) by simp]
  exact hb.append ((utf8_ascii h).append hd)

theorem nul_mem_encode (c : Char) : (0 : UInt8) ∈ String.utf8EncodeChar c ↔ c.val = 0 := by
  constructor
  · intro h
    have hspelled := spelled_char c []
    rw [encode_ascii h (by decide)] at hspelled
    rw [← UInt32.toNat_inj, ← hspelled.decode.1]
    rfl
  · intro h
    obtain rfl : c = Char.ofNat 0 := Char.ext h
    decide

theorem astraUtf8Validate_text :
    astraUtf8Validate bytes = true ↔ Utf8 bytes ∧ (0 : UInt8) ∉ bytes := by
  rw [astraUtf8Validate_iff]
  constructor
  · rintro ⟨l, hl, rfl⟩
    refine ⟨⟨l, rfl⟩, fun h => ?_⟩
    obtain ⟨c, hc, h⟩ := mem_flatMap.1 h
    exact hl c hc ((nul_mem_encode c).1 h)
  · rintro ⟨⟨l, rfl⟩, h⟩
    exact ⟨l, fun c hc h0 => h (mem_flatMap.2 ⟨c, hc, (nul_mem_encode c).2 h0⟩), rfl⟩

end Astra
