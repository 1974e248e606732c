import Mathlib.Data.UInt
import Mathlib.Tactic.Ring

/-!
# Big-endian records

Numbers as big-endian bytes of a given width, and records of such fields one behind the other. A
field is read from a stretch of bytes only where the stretch has it.
-/

namespace Astra

open List

/-- The low `width` bytes of a number, the highest first. -/
def bigEndian : ℕ → ℕ → List UInt8
  | 0, _ => []
  | width + 1, value => bigEndian width (value / 256) ++ [UInt8.ofNat value]

def ofBigEndian (bytes : List UInt8) : ℕ := bytes.foldl (fun value b => 256 * value + b.toNat) 0

@[simp] theorem length_bigEndian : ∀ width value : ℕ, (bigEndian width value).length = width
  | 0, _ => rfl
  | width + 1, value => by simp [bigEndian, length_bigEndian width]

variable (bytes : List UInt8)

theorem ofBigEndian_concat (b : UInt8) :
    ofBigEndian (bytes ++ [b]) = 256 * ofBigEndian bytes + b.toNat := by
  simp [ofBigEndian]

theorem ofBigEndian_lt : ofBigEndian bytes < 256 ^ bytes.length := by
  induction bytes using List.reverseRecOn with
  | nil => simp [ofBigEndian]
  | append_singleton bytes b ih =>
    rw [ofBigEndian_concat, length_append, length_singleton, Nat.pow_succ]
    have := b.toNat_lt
    omega

theorem ofBigEndian_bigEndian : ∀ {width value : ℕ}, value < 256 ^ width →
    ofBigEndian (bigEndian width value) = value
  | 0, value, h => by
    obtain rfl : value = 0 := by simpa using h
    rfl
  | width + 1, value, h => by
    have hlt : value / 256 < 256 ^ width := by
      rw [Nat.pow_succ] at h
      exact Nat.div_lt_of_lt_mul (by rwa [Nat.mul_comm] at h)
    rw [bigEndian, ofBigEndian_concat, ofBigEndian_bigEndian hlt, UInt8.toNat_ofNat']
    omega

theorem bigEndian_ofBigEndian : bigEndian bytes.length (ofBigEndian bytes) = bytes := by
  induction bytes using List.reverseRecOn with
  | nil => rfl
  | append_singleton bytes b ih =>
    have hb := b.toNat_lt
    have hdiv : (256 * ofBigEndian bytes + b.toNat) / 256 = ofBigEndian bytes := by omega
    have hmod : UInt8.ofNat (256 * ofBigEndian bytes + b.toNat) = b := by
      rw [← UInt8.toNat_inj, UInt8.toNat_ofNat']
      omega
    rw [length_append, length_singleton, bigEndian, ofBigEndian_concat, hdiv, ih, hmod]

/-- The bytes of a stretch, where it has them. -/
def loadBytes (bytes : List UInt8) (offset width : ℕ) : Option (List UInt8) :=
  if offset + width ≤ bytes.length then some ((bytes.drop offset).take width) else none

def loadBe (bytes : List UInt8) (offset width : ℕ) : Option ℕ :=
  (loadBytes bytes offset width).map ofBigEndian

/-- Fields of the given widths, one behind the other. -/
def loadFields (bytes : List UInt8) : ℕ → List ℕ → Option (List ℕ)
  | _, [] => some []
  | offset, width :: widths =>
    match loadBe bytes offset width, loadFields bytes (offset + width) widths with
    | some value, some values => some (value :: values)
    | _, _ => none

def storeFields (widths values : List ℕ) : List UInt8 :=
  (List.zipWith bigEndian widths values).flatten

theorem loadBytes_append (before bytes behind : List UInt8) :
    loadBytes (before ++ bytes ++ behind) before.length bytes.length = some bytes := by
  unfold loadBytes
  rw [if_pos (by simp), append_assoc, drop_left, take_left]

theorem loadBytes_eq_some {bytes part : List UInt8} {offset width : ℕ} :
    loadBytes bytes offset width = some part ↔
      ∃ before behind, bytes = before ++ part ++ behind ∧ before.length = offset ∧
        part.length = width := by
  constructor
  · intro h
    unfold loadBytes at h
    split_ifs at h with hw
    cases h
    refine ⟨bytes.take offset, (bytes.drop offset).drop width, ?_, ?_, ?_⟩
    · rw [append_assoc, take_append_drop, take_append_drop]
    · rw [length_take]
      omega
    · rw [length_take, length_drop]
      omega
  · rintro ⟨before, behind, rfl, rfl, rfl⟩
    exact loadBytes_append before part behind

theorem loadFields_store : ∀ {widths values : List ℕ} (before behind : List UInt8),
    List.Forall₂ (fun width value => value < 256 ^ width) widths values →
    loadFields (before ++ storeFields widths values ++ behind) before.length widths = some values
  | [], [], _, _, _ => rfl
  | width :: widths, value :: values, before, behind, h => by
    obtain ⟨hv, hvs⟩ := forall₂_cons.1 h
    have hsplit : before ++ storeFields (width :: widths) (value :: values) ++ behind =
        before ++ bigEndian width value ++ storeFields widths values ++ behind := by
      simp [storeFields]
    have hfirst : loadBe (before ++ bigEndian width value ++ storeFields widths values ++ behind)
        before.length width = some value := by
      unfold loadBe
      rw [append_assoc _ _ behind]
      conv_lhs =>
        rw [← length_bigEndian width value]
      rw [length_bigEndian, loadBytes_eq_some.2 ⟨before, _, rfl, rfl, length_bigEndian width value⟩,
        Option.map_some, ofBigEndian_bigEndian hv]
    have hrest := loadFields_store (before ++ bigEndian width value) behind hvs
    rw [length_append, length_bigEndian] at hrest
    rw [loadFields, hsplit, hfirst, hrest]

theorem loadBytes_add {bytes part part' : List UInt8} {offset width width' : ℕ}
    (h : loadBytes bytes offset width = some part)
    (h' : loadBytes bytes (offset + width) width' = some part') :
    loadBytes bytes offset (width + width') = some (part ++ part') := by
  obtain ⟨before, behind, rfl, rfl, rfl⟩ := loadBytes_eq_some.1 h
  obtain ⟨before', behind', he, hl, rfl⟩ := loadBytes_eq_some.1 h'
  rw [← length_append] at hl
  obtain ⟨rfl, hb⟩ := append_inj (he.trans (append_assoc ..)) hl.symm
  rw [loadBytes_eq_some]
  exact ⟨before, behind', by rw [hb]; simp, rfl, length_append⟩

theorem loadFields_some : ∀ {widths : List ℕ} {bytes : List UInt8} {offset : ℕ} {values : List ℕ},
    loadFields bytes offset widths = some values → offset ≤ bytes.length →
    List.Forall₂ (fun width value => value < 256 ^ width) widths values ∧
      loadBytes bytes offset widths.sum = some (storeFields widths values)
  | [], bytes, offset, values, h, ho => by
    cases h
    refine ⟨.nil, ?_⟩
    unfold loadBytes
    rw [if_pos (by simpa using ho)]
    simp [storeFields]
  | width :: widths, bytes, offset, values, h, ho => by
    rw [loadFields] at h
    rcases hv : loadBe bytes offset width with _ | value <;> rw [hv] at h
    · cases h
    rcases hvs : loadFields bytes (offset + width) widths with _ | values' <;> rw [hvs] at h
    · cases h
    cases h
    obtain ⟨part, hpart, rfl⟩ := Option.map_eq_some_iff.1 hv
    obtain ⟨before, behind, hb, hlen, rfl⟩ := loadBytes_eq_some.1 hpart
    obtain ⟨hall, hrest⟩ := loadFields_some hvs (by
      rw [hb, length_append, length_append]
      omega)
    refine ⟨.cons (ofBigEndian_lt part) hall, ?_⟩
    rw [sum_cons, loadBytes_add hpart hrest]
    simp [storeFields, bigEndian_ofBigEndian]

/-- Only bytes that are not there are not read. -/
theorem loadFields_isSome : ∀ {widths : List ℕ} {bytes : List UInt8} {offset : ℕ},
    offset + widths.sum ≤ bytes.length → (loadFields bytes offset widths).isSome
  | [], _, _, _ => rfl
  | width :: widths, bytes, offset, h => by
    rw [sum_cons] at h
    obtain ⟨values, hvs⟩ := Option.isSome_iff_exists.1
      (show (loadFields bytes (offset + width) widths).isSome from
        loadFields_isSome (by omega))
    rw [loadFields, hvs]
    unfold loadBe loadBytes
    rw [if_pos (by omega)]
    rfl

theorem length_storeFields : ∀ {widths values : List ℕ}, widths.length = values.length →
    (storeFields widths values).length = widths.sum
  | [], [], _ => rfl
  | width :: widths, value :: values, h => by
    have ih := length_storeFields (Nat.succ.inj h)
    unfold storeFields at ih ⊢
    rw [zipWith_cons_cons, flatten_cons, length_append, length_bigEndian, ih,
      sum_cons]

end Astra
