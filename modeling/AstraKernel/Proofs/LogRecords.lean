import AstraKernel.Log.Step
import AstraKernel.Spans

/-!
# Records in slots

A record is copied out piece by piece (`Copied`), each piece into bytes of its own (`Copied.next`,
`Copied.frame`). Once all is there, the consumer gets the header that was written (`Copied.header`)
and the text up to its capacity (`Copied.text`).
-/

namespace Astra

open Function List

/-! ## Slots of a record -/

theorem astraLogRecordSlots_eq (length : ℕ) : astraLogRecordSlots length =
    if min length 1944 ≤ 208 then 1 else 1 + (min length 1944 - 208 + 248 - 1) / 248 := rfl

variable (f : AstraLogRecordFields) (index : ℕ)

theorem textStart_eq : textStart index = if index = 0 then 0 else 208 + (index - 1) * 248 := rfl

theorem textRoom_eq : textRoom index = if index = 0 then 208 else 248 := rfl

theorem astraLogRecordSlots_pos (length : ℕ) : 0 < astraLogRecordSlots length := by
  rw [astraLogRecordSlots_eq]
  split_ifs <;> omega

theorem astraLogRecordSlots_le (length : ℕ) : astraLogRecordSlots length ≤ 8 := by
  rw [astraLogRecordSlots_eq]
  split_ifs <;> omega

theorem textStart_succ : textStart (index + 1) = textStart index + textRoom index := by
  simp only [textStart_eq, textRoom_eq]
  split_ifs <;> omega

namespace LogWrite

variable (w : LogWrite)

theorem slots_pos : 0 < w.slots := astraLogRecordSlots_pos _

theorem slots_le : w.slots ≤ 8 := astraLogRecordSlots_le _

theorem kept_length : w.kept.length = min 1944 w.text.length := length_take

theorem kept_length_le : w.kept.length ≤ 1944 := by
  rw [kept_length]
  exact Nat.min_le_left _ _

theorem slots_kept : astraLogRecordSlots w.kept.length = w.slots := by
  rw [slots, kept_length]
  simp [astraLogRecordSlots_eq, Nat.min_comm]

theorem textStart_le {index : ℕ} (h : index < w.slots) : textStart index ≤ w.kept.length := by
  have hle := w.kept_length_le
  rw [← slots_kept, astraLogRecordSlots_eq, Nat.min_eq_left hle] at h
  rw [textStart_eq]
  split_ifs at h ⊢ <;> omega

theorem kept_length_le_textStart : w.kept.length ≤ textStart w.slots := by
  have hle := w.kept_length_le
  have hslots := w.slots_kept
  rw [astraLogRecordSlots_eq, Nat.min_eq_left hle] at hslots
  rw [textStart_eq]
  split_ifs at hslots ⊢ <;> omega

end LogWrite

/-! ## Headers -/

theorem length_bytes : f.bytes.length = astraLogRecordHeaderSize :=
  length_storeFields rfl

theorem recordFields_bytes : recordFields f.bytes = f := by
  have hfit : List.Forall₂ (fun width value => value < 256 ^ width) fieldWidths
      [f.sequence.toNat, f.monotonicHigh.toNat, f.monotonicLow.toNat, f.wallHigh.toNat,
        f.wallLow.toNat, f.utcOffset.toNat, f.zone.toNat, f.dropped.toNat, f.textLength.toNat,
        f.level.toNat, f.stream.toNat, f.slots.toNat, f.flags.toNat, f.reserved.toNat] := by
    have h32 (n : UInt32) : n.toNat < 256 ^ 4 := n.toNat_lt
    have h16 (n : UInt16) : n.toNat < 256 ^ 2 := n.toNat_lt
    have h8 (n : UInt8) : n.toNat < 256 ^ 1 := n.toNat_lt
    simp only [fieldWidths, forall₂_cons, h32, h16, h8, List.Forall₂.nil, and_self]
  have hload := loadFields_store [] [] hfit
  rw [nil_append, append_nil, length_nil] at hload
  unfold recordFields AstraLogRecordFields.bytes
  rw [hload]
  simp

theorem header_slots (w : LogWrite) (first dropped : ℕ) :
    (w.header first dropped).slots.toNat = w.slots := by
  have := w.slots_le
  simp only [LogWrite.header, UInt8.toNat_ofNat']
  omega

theorem header_textLength (w : LogWrite) (first dropped : ℕ) :
    (w.header first dropped).textLength.toNat = w.kept.length := by
  have := w.kept_length_le
  simp only [LogWrite.header, UInt16.toNat_ofNat']
  omega

theorem recordValid_header (w : LogWrite) (first dropped available : ℕ) :
    recordValid (w.header first dropped) available = decide (w.slots ≤ available) := by
  have hpos := w.slots_pos
  have hle := w.slots_le
  have hlength := w.kept_length_le
  have hlevel : (w.header first dropped).level.toNat ≤ astraEventLevelError := w.level_le
  have hstream : (w.header first dropped).stream.toNat ≤ astraLogStreamMax := w.stream_le
  unfold recordValid
  rw [header_slots, header_textLength, w.slots_kept, decide_eq_decide]
  dsimp only [astraLogRecordSlotsMax, astraLogTextMax, astraLogFirstText, astraLogSlotPayload,
    astraLogRecordHeaderSize]
  omega

/-! ## Bytes of a payload -/

@[simp] theorem length_getBytes (payload : ℕ → UInt8) (offset length : ℕ) :
    (getBytes payload offset length).length = length := by
  simp [getBytes]

variable {i length offset pieces : ℕ} {payload : ℕ → UInt8}

theorem getBytes_take {k : ℕ} (h : k ≤ length) :
    (getBytes payload offset length).take k = getBytes payload offset k := by
  rw [getBytes, ← map_take, take_range, Nat.min_eq_left h, getBytes]

theorem getBytes_congr {payload' : ℕ → UInt8}
    (h : ∀ i < length, payload' (offset + i) = payload (offset + i)) :
    getBytes payload' offset length = getBytes payload offset length :=
  map_congr_left fun i hi => h i (mem_range.1 hi)

theorem getBytes_putBytes (payload : ℕ → UInt8) (offset : ℕ) (bytes : List UInt8) :
    getBytes (putBytes payload offset bytes) offset bytes.length = bytes := by
  refine ext_getElem (by simp) fun i _ hi => ?_
  simp [getBytes, putBytes, hi]

theorem putBytes_of_outside {bytes : List UInt8}
    (h : i < offset ∨ offset + bytes.length ≤ i) : putBytes payload offset bytes i = payload i :=
  if_neg (by omega)

/-! ## Copies -/

variable {r : LogRing}

def InPlace (r : LogRing) (c : CopyOut) : Prop :=
  getBytes (r.payload c.slot) c.offset c.bytes.length = c.bytes

theorem inPlace_copyOut (r : LogRing) (c : CopyOut) : InPlace (r.copyOut c) c := by
  unfold InPlace LogRing.payload LogRing.copyOut
  dsimp only
  rw [update_self]
  exact getBytes_putBytes _ _ _

theorem InPlace.frame {c c' : CopyOut} (h : InPlace r c)
    (hc : c.slot % astraLogRingCapacity = c'.slot % astraLogRingCapacity →
      c.offset + c.bytes.length ≤ c'.offset ∨ c'.offset + c'.bytes.length ≤ c.offset) :
    InPlace (r.copyOut c') c := by
  refine Eq.trans (getBytes_congr fun i hi => ?_) h
  unfold LogRing.payload LogRing.copyOut
  dsimp only
  by_cases hslot : c.slot % astraLogRingCapacity = c'.slot % astraLogRingCapacity
  · rw [hslot, update_self]
    exact putBytes_of_outside (by have := hc hslot; omega)
  · rw [update_of_ne hslot]

def Copied (r : LogRing) (w : LogWrite) (first dropped pieces : ℕ) : Prop :=
  ∀ i < pieces, InPlace r (w.copyOut first dropped i)

theorem copyOut_slot (w : LogWrite) (first dropped : ℕ) (h : i ≤ w.slots) :
    first ≤ (w.copyOut first dropped i).slot ∧
      (w.copyOut first dropped i).slot < first + w.slots := by
  have := w.slots_pos
  cases i <;> simp only [LogWrite.copyOut] <;> omega

theorem Copied.next {w : LogWrite} {first dropped : ℕ} (h : Copied r w first dropped pieces)
    (hp : pieces ≤ w.slots) :
    Copied (r.copyOut (w.copyOut first dropped pieces)) w first dropped (pieces + 1) := by
  intro i hi
  rcases Nat.lt_succ_iff_lt_or_eq.1 hi with hi | rfl
  · refine (h i hi).frame fun hslot => ?_
    have hle := w.slots_le
    obtain ⟨piece, rfl⟩ := Nat.exists_eq_succ_of_ne_zero (show pieces ≠ 0 by omega)
    cases i with
    | zero =>
      -- The header and the text of the first slot share it.
      by_cases hpiece : piece = 0
      · subst hpiece
        left
        simp [LogWrite.copyOut, length_bytes, textOffset]
      · exact absurd hslot
          (mod_ne_of_lt (show first < first + piece by omega) (by
            show first + piece < first + 1024
            omega))
    | succ i =>
      exact absurd hslot (mod_ne_of_lt (show first + i < first + piece by omega) (by
        show first + piece < first + i + 1024
        omega))
  · exact inPlace_copyOut r _

theorem Copied.frame {w : LogWrite} {first dropped : ℕ} {c : CopyOut}
    (h : Copied r w first dropped pieces) (hp : pieces ≤ w.slots + 1)
    (hc : ∀ p, first ≤ p → p < first + w.slots →
      p % astraLogRingCapacity ≠ c.slot % astraLogRingCapacity) :
    Copied (r.copyOut c) w first dropped pieces := by
  intro i hi
  obtain ⟨hge, hlt⟩ := copyOut_slot w first dropped (show i ≤ w.slots by omega)
  exact (h i hi).frame fun hslot => absurd hslot (hc _ hge hlt)

/-! ## Reading a record back -/

variable {w : LogWrite} {first dropped : ℕ}

theorem Copied.header (h : Copied r w first dropped (w.slots + 1)) :
    recordFields (getBytes (r.payload first) 0 astraLogRecordHeaderSize) =
      w.header first dropped := by
  have hplace : getBytes (r.payload first) 0 (w.header first dropped).bytes.length =
      (w.header first dropped).bytes := h 0 (Nat.succ_pos _)
  rw [length_bytes] at hplace
  rw [hplace, recordFields_bytes]

def textBefore (w : LogWrite) (capacity index : ℕ) : List UInt8 :=
  (w.kept.take (textStart index)).take capacity

theorem Copied.text (h : Copied r w first dropped (w.slots + 1)) {index : ℕ}
    (hi : index < w.slots) (capacity : ℕ) :
    textBefore w capacity index ++ getBytes (r.payload (first + index)) (textOffset index)
        (copyChunk w.kept.length capacity index (textBefore w capacity index).length) =
      textBefore w capacity (index + 1) := by
  have hplace : getBytes (r.payload (first + index)) (textOffset index)
      ((w.kept.drop (textStart index)).take (textRoom index)).length =
        (w.kept.drop (textStart index)).take (textRoom index) := h (index + 1) (by omega)
  have hstart := w.textStart_le hi
  have hnext := textStart_succ index
  generalize hchunk : copyChunk w.kept.length capacity index (textBefore w capacity index).length =
    chunk
  have hlength : (textBefore w capacity index).length = min (textStart index) capacity := by
    simp only [textBefore, length_take]
    omega
  rw [hlength] at hchunk
  unfold copyChunk at hchunk
  dsimp only at hchunk
  have hread : getBytes (r.payload (first + index)) (textOffset index) chunk =
      (w.kept.drop (textStart index)).take chunk := by
    have hfits : chunk ≤ ((w.kept.drop (textStart index)).take (textRoom index)).length := by
      rw [length_take, length_drop]
      split_ifs at hchunk <;> omega
    rw [← getBytes_take hfits, hplace, take_take, Nat.min_eq_left]
    rw [length_take] at hfits
    omega
  rw [hread]
  unfold textBefore
  rw [take_take, take_take]
  by_cases hcap : capacity < textStart index
  · obtain rfl : chunk = 0 := by
      rw [Nat.min_eq_right (by omega)] at hchunk
      split_ifs at hchunk <;> omega
    rw [take_zero, append_nil, Nat.min_eq_left (by omega), Nat.min_eq_left (by omega)]
  · rw [Nat.min_eq_left (by omega)] at hchunk
    rw [Nat.min_eq_right (by omega), ← take_add, take_eq_take_iff]
    split_ifs at hchunk <;> omega

theorem textBefore_slots (w : LogWrite) (capacity : ℕ) :
    textBefore w capacity w.slots = w.kept.take capacity := by
  rw [textBefore, take_of_length_le w.kept_length_le_textStart]

end Astra
