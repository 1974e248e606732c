import AstraKernel.Proofs.LogRecords

/-!
# The shared ring

The records lie end to end from 0 to the next position to be reserved (`RingLayout`). From the
consumer's position on, each is filled or is being filled by one writer (`LogSound`); a slot that is
not committed has the commit word of the lap before. A filled record at the producer's position has
a writer still publishing it (`LogSound.watched`), as long as none leaves off before a committed
record.
-/

namespace Astra

open Function List

/-! ## Positions and words -/

/-- Where the record with the index starts. -/
def firstOf (records : List LogWrite) (k : ℕ) : ℕ := spanStart (records.map LogWrite.slots) k

theorem slots_mem_pos (records : List LogWrite) : ∀ n ∈ records.map LogWrite.slots, 0 < n := by
  intro n hn
  obtain ⟨w, -, rfl⟩ := mem_map.1 hn
  exact w.slots_pos

variable {records : List LogWrite} {k : ℕ} {w : LogWrite}

theorem firstOf_succ (h : records[k]? = some w) :
    firstOf records (k + 1) = firstOf records k + w.slots :=
  spanStart_succ (by simp [h])

theorem firstOf_append (h : k ≤ records.length) (more : List LogWrite) :
    firstOf (records ++ more) k = firstOf records k := by
  rw [firstOf, map_append]
  exact spanStart_append (by simpa using h)

variable {w' : LogWrite} {α : Type*} {a j q stop : ℕ}

theorem firstOf_mono (records : List LogWrite) (h : j ≤ k) :
    firstOf records j ≤ firstOf records k :=
  spanStart_mono h

theorem firstOf_lt (records : List LogWrite) (h : j < k) (hj : j < records.length) :
    firstOf records j < firstOf records k :=
  spanStart_lt (slots_mem_pos records) h (by simpa using hj)

theorem firstOf_inj (hj : j ≤ records.length) (hk : k ≤ records.length)
    (h : firstOf records j = firstOf records k) : j = k :=
  spanStart_inj (slots_mem_pos records) (by simpa using hj) (by simpa using hk) h

theorem exists_record {p : ℕ} (h : p < firstOf records records.length) :
    ∃ k w, records[k]? = some w ∧ firstOf records k ≤ p ∧ p < firstOf records k + w.slots := by
  have hlength : firstOf records records.length = (records.map LogWrite.slots).sum := by
    rw [← spanStart_length, length_map, firstOf]
  rw [hlength] at h
  obtain ⟨k, n, hk, hle, hlt⟩ := exists_span h
  rw [List.getElem?_map, Option.map_eq_some_iff] at hk
  obtain ⟨w, hw, rfl⟩ := hk
  exact ⟨k, w, hw, hle, hlt⟩

def Boundary (r : LogRing) (p : ℕ) : Prop := ∃ k ≤ r.accepted.length, p = firstOf r.accepted k

def SlotCommitted (r : LogRing) (p : ℕ) : Prop := r.words (p % 1024) = p + 1

def SlotStale (r : LogRing) (p : ℕ) : Prop :=
  r.words (p % 1024) = if p < 1024 then 0 else p - 1023

variable {r : LogRing} {p : ℕ}

theorem SlotCommitted.committed (h : SlotCommitted r p) : r.committed p = true := by
  unfold LogRing.committed
  rw [show r.words (p % astraLogRingCapacity) = p + 1 from h]
  simp

theorem SlotStale.committed (h : SlotStale r p) : r.committed p = false := by
  unfold LogRing.committed
  rw [show r.words (p % astraLogRingCapacity) = if p < 1024 then 0 else p - 1023 from h]
  simp only [decide_eq_false_iff_not]
  split_ifs <;> omega

theorem SlotStale.not_committed (h : SlotStale r p) : ¬SlotCommitted r p := fun hc => by
  rw [SlotCommitted, h] at hc
  split_ifs at hc
  all_goals omega

/-! ## Records -/

structure RingLayout (r : LogRing) (position n : ℕ) : Prop where
  delivered : n ≤ r.accepted.length
  position_eq : position = firstOf r.accepted n
  producer : Boundary r r.producerPosition
  reserved_eq : r.reserved = firstOf r.accepted r.accepted.length
  consumer_le : r.consumerPosition ≤ position
  position_le : position ≤ r.producerPosition
  producer_le : r.producerPosition ≤ r.reserved
  room : r.reserved ≤ r.consumerPosition + 1024

structure Filling (r : LogRing) (w : LogWrite) (first left : ℕ) : Prop where
  accepted : ∃ k, r.accepted[k]? = some w ∧ first = firstOf r.accepted k
  unpublished : r.producerPosition ≤ first
  left_pos : 0 < left
  left_le : left ≤ w.slots
  stale : ∀ p, first ≤ p → p < first + left → SlotStale r p
  committed : ∀ p, first + left ≤ p → p < first + w.slots → SlotCommitted r p

structure Filled (r : LogRing) (w : LogWrite) (first : ℕ) : Prop where
  committed : ∀ p, first ≤ p → p < first + w.slots → SlotCommitted r p
  copied : ∃ dropped, Copied r w first dropped (w.slots + 1)

def WriterOk (r : LogRing) : LogWriter → Prop
  | .reserving _ consumer => consumer ≤ r.consumerPosition
  | .claiming w first => first + w.slots ≤ r.consumerPosition + 1024
  | .counting w first => Filling r w first w.slots
  | .copying w first dropped copied => Filling r w first w.slots ∧ copied ≤ w.slots ∧
      Copied r w first dropped copied
  | .committing w first left => Filling r w first left ∧
      ∃ dropped, Copied r w first dropped (w.slots + 1)
  | .bounding _ start => start ≤ r.producerPosition
  | .scanning _ start reserved stop => start ≤ r.producerPosition ∧
      (start = r.producerPosition → start ≤ stop ∧ stop ≤ reserved ∧ reserved ≤ r.reserved ∧
        Boundary r reserved ∧ ∀ p, start ≤ p → p < stop → SlotCommitted r p)
  | .advancing _ start stop => start ≤ r.producerPosition ∧
      (start = r.producerPosition → start < stop ∧ stop ≤ r.reserved ∧ Boundary r stop ∧
        ∀ p, start ≤ p → p < stop → SlotCommitted r p)
  | _ => True

def LogWriter.fills : LogWriter → Option (LogWrite × ℕ)
  | .counting w first | .copying w first _ _ | .committing w first _ => some (w, first)
  | _ => none

def LogWriter.Watches (position : ℕ) : LogWriter → Prop
  | .publishing first => first = position
  | .bounding first start => first = position ∧ start = position
  | .scanning first start reserved _ => first = position ∧ start = position ∧ position < reserved
  | .advancing first start _ => first = position ∧ start = position
  | _ => False

structure LogSound (r : LogRing) (writers : List LogWriter) (position n : ℕ) : Prop where
  layout : RingLayout r position n
  stale : ∀ p, r.reserved ≤ p → p < position + 1024 → SlotStale r p
  records : ∀ k w, n ≤ k → r.accepted[k]? = some w → Filled r w (firstOf r.accepted k) ∨
    ∃ (i : ℕ) (pc : LogWriter), writers[i]? = some pc ∧ pc.fills = some (w, firstOf r.accepted k)
  threads : ∀ (i : ℕ) (pc : LogWriter), writers[i]? = some pc → WriterOk r pc
  apart : ∀ (i j : ℕ) (pc pc' : LogWriter) (w w' : LogWrite) (first : ℕ), writers[i]? = some pc →
    writers[j]? = some pc' → pc.fills = some (w, first) → pc'.fills = some (w', first) → i = j
  watched : r.producerPosition < r.reserved → SlotCommitted r r.producerPosition →
    ∃ (i : ℕ) (pc : LogWriter), writers[i]? = some pc ∧ pc.Watches r.producerPosition

/-! ## What a step leaves as it is -/

theorem mod_ne_of_window {p : ℕ} (hne : p ≠ q) (hp : a ≤ p) (hp' : p < a + 1024) (hq : a ≤ q)
    (hq' : q < a + 1024) : p % 1024 ≠ q % 1024 := by
  rcases Nat.lt_or_gt_of_ne hne with hlt | hlt
  · exact mod_ne_of_lt hlt (by omega)
  · exact (mod_ne_of_lt hlt (by omega)).symm

theorem SlotCommitted.commit (h : SlotCommitted r p) (hp : p % 1024 = q % 1024 → p = q) :
    SlotCommitted (r.commit q) p := by
  unfold SlotCommitted LogRing.commit at *
  by_cases hmod : p % 1024 = q % 1024
  · obtain rfl := hp hmod
    exact update_self ..
  · rw [← h]
    exact update_of_ne hmod ..

theorem slotCommitted_commit (r : LogRing) (p : ℕ) : SlotCommitted (r.commit p) p :=
  update_self ..

theorem SlotStale.commit (h : SlotStale r p) (hp : p % 1024 ≠ q % 1024) :
    SlotStale (r.commit q) p :=
  (update_of_ne hp ..).trans h

theorem Filling.of_eq {r' : LogRing} {first left : ℕ} (h : Filling r w first left)
    (ha : r'.accepted = r.accepted) (hp : r'.producerPosition = r.producerPosition)
    (hw : r'.words = r.words) : Filling r' w first left := by
  obtain ⟨h1, h2, h3, h4, h5, h6⟩ := h
  refine ⟨by rw [ha]; exact h1, by rw [hp]; exact h2, h3, h4, ?_, ?_⟩
  · simpa only [SlotStale, hw] using h5
  · simpa only [SlotCommitted, hw] using h6

theorem records_apart {k : ℕ} {w : LogWrite} (hj : records[j]? = some w)
    (hk : records[k]? = some w') (hne : firstOf records j ≠ firstOf records k) :
    firstOf records j + w.slots ≤ firstOf records k ∨
      firstOf records k + w'.slots ≤ firstOf records j := by
  rcases lt_trichotomy j k with hlt | rfl | hlt
  · rw [← firstOf_succ hj]
    exact .inl (firstOf_mono _ hlt)
  · exact absurd rfl hne
  · rw [← firstOf_succ hk]
    exact .inr (firstOf_mono _ hlt)

theorem record_le (h : records[k]? = some w) :
    firstOf records k + w.slots ≤ firstOf records records.length := by
  rw [← firstOf_succ h]
  exact firstOf_mono _ (List.getElem?_eq_some_iff.1 h).1

theorem getElem?_set_cases {l : List α} {i : ℕ} {a x : α}
    (h : (l.set i a)[j]? = some x) : j = i ∧ x = a ∨ j ≠ i ∧ l[j]? = some x := by
  rw [List.getElem?_set] at h
  split_ifs at h with hij hlt
  · exact .inl ⟨hij.symm, (Option.some.inj h).symm⟩
  · exact .inr ⟨fun hji => hij hji.symm, h⟩

theorem getElem?_set_other {l : List α} {i : ℕ} {a x : α} (h : l[j]? = some x)
    (hj : j ≠ i) : (l.set i a)[j]? = some x := by
  rw [List.getElem?_set_ne hj.symm, h]

theorem getElem?_set_same {l : List α} {i : ℕ} {a b : α} (h : l[i]? = some a) :
    (l.set i b)[i]? = some b :=
  List.getElem?_set_self (List.getElem?_eq_some_iff.1 h).1

variable {writers : List LogWriter} {position n i : ℕ} {pc pc' : LogWriter}

theorem LogSound.load (h : LogSound r writers position n) (hi : writers[i]? = some pc)
    (hown : WriterOk r pc') (hfills : pc'.fills = pc.fills)
    (hwatch : r.producerPosition < r.reserved → SlotCommitted r r.producerPosition →
      pc.Watches r.producerPosition → pc'.Watches r.producerPosition) :
    LogSound r (writers.set i pc') position n := by
  have hback : ∀ {j : ℕ} {q : LogWriter} {filled : LogWrite × ℕ},
      (writers.set i pc')[j]? = some q → q.fills = some filled →
      ∃ q', writers[j]? = some q' ∧ q'.fills = some filled := by
    intro j q filled hq hfirst
    rcases getElem?_set_cases hq with ⟨rfl, rfl⟩ | ⟨-, hq⟩
    · exact ⟨pc, hi, hfills.symm.trans hfirst⟩
    · exact ⟨q, hq, hfirst⟩
  refine ⟨h.layout, h.stale, ?_, ?_, ?_, ?_⟩
  · intro k w hk hw
    refine (h.records k w hk hw).imp_right ?_
    rintro ⟨j, q, hq, hfirst⟩
    by_cases hj : j = i
    · subst hj
      cases hi.symm.trans hq
      exact ⟨j, pc', getElem?_set_same hi, hfills.trans hfirst⟩
    · exact ⟨j, q, getElem?_set_other hq hj, hfirst⟩
  · intro j q hq
    rcases getElem?_set_cases hq with ⟨-, rfl⟩ | ⟨-, hq⟩
    · exact hown
    · exact h.threads j q hq
  · intro j j' q q' w w' first hq hq' hfirst hfirst'
    obtain ⟨q₁, hq₁, hfirst₁⟩ := hback hq hfirst
    obtain ⟨q₂, hq₂, hfirst₂⟩ := hback hq' hfirst'
    exact h.apart j j' q₁ q₂ w w' first hq₁ hq₂ hfirst₁ hfirst₂
  · intro hlt hcommitted
    obtain ⟨j, q, hq, hwatches⟩ := h.watched hlt hcommitted
    by_cases hj : j = i
    · subst hj
      cases hi.symm.trans hq
      exact ⟨j, pc', getElem?_set_same hi, hwatch hlt hcommitted hwatches⟩
    · exact ⟨j, q, getElem?_set_other hq hj, hwatches⟩

theorem WriterOk.filling {first : ℕ} (h : WriterOk r pc) (hf : pc.fills = some (w, first)) :
    ∃ left, Filling r w first left := by
  cases pc with
  | counting w' first' =>
    cases hf
    exact ⟨_, h⟩
  | copying w' first' dropped copied =>
    cases hf
    exact ⟨_, h.1⟩
  | committing w' first' left =>
    cases hf
    exact ⟨_, h.1⟩
  | _ => cases hf

theorem Filling.le_reserved {first left : ℕ} (h : Filling r w first left)
    (hr : r.reserved = firstOf r.accepted r.accepted.length) : first + w.slots ≤ r.reserved := by
  obtain ⟨k, hk, rfl⟩ := h.accepted
  rw [hr]
  exact record_le hk

/-! ## Reserving -/

def LogRing.reserve (r : LogRing) (w : LogWrite) : LogRing :=
  { r with reserved := r.reserved + w.slots, accepted := r.accepted ++ [w] }

theorem Boundary.reserve (h : Boundary r p) (w : LogWrite) : Boundary (r.reserve w) p := by
  obtain ⟨k, hk, rfl⟩ := h
  refine ⟨k, ?_, (firstOf_append hk [w]).symm⟩
  rw [LogRing.reserve, length_append]
  exact Nat.le_add_right_of_le hk

theorem Filling.reserve {first left : ℕ} (h : Filling r w' first left)
    (w : LogWrite) : Filling (r.reserve w) w' first left := by
  obtain ⟨k, hk, hfirst⟩ := h.accepted
  have hlt := (List.getElem?_eq_some_iff.1 hk).1
  refine ⟨⟨k, ?_, ?_⟩, h.unpublished, h.left_pos, h.left_le, h.stale, h.committed⟩
  · exact (List.getElem?_append_left hlt).trans hk
  · exact hfirst.trans (firstOf_append hlt.le [w]).symm

theorem WriterOk.reserve (h : WriterOk r pc) (w : LogWrite) : WriterOk (r.reserve w) pc := by
  cases pc with
  | counting w' first => exact Filling.reserve h w
  | copying w' first dropped copied => exact ⟨h.1.reserve w, h.2⟩
  | committing w' first left => exact ⟨h.1.reserve w, h.2⟩
  | scanning first start reserved stop =>
    refine ⟨h.1, fun hstart => ?_⟩
    obtain ⟨h1, h2, h3, h4, h5⟩ := h.2 hstart
    exact ⟨h1, h2, h3.trans (Nat.le_add_right _ _), h4.reserve w, h5⟩
  | advancing first start stop =>
    refine ⟨h.1, fun hstart => ?_⟩
    obtain ⟨h1, h2, h3, h4⟩ := h.2 hstart
    exact ⟨h1, h2.trans (Nat.le_add_right _ _), h3.reserve w, h4⟩
  | _ => exact h

theorem LogSound.reserve (h : LogSound r writers position n)
    (hi : writers[i]? = some (.claiming w r.reserved)) :
    LogSound (r.reserve w) (writers.set i (.counting w r.reserved)) position n := by
  have hroom : r.reserved + w.slots ≤ r.consumerPosition + 1024 := h.threads i _ hi
  have hpos := w.slots_pos
  have hl := h.layout
  have hconsumer := hl.consumer_le
  have hother : ∀ {j : ℕ} {q : LogWriter} {filled : LogWrite × ℕ}, writers[j]? = some q →
      q.fills = some filled → j ≠ i := by
    rintro j q filled hq hfills rfl
    cases hi.symm.trans hq
    cases hfills
  have hlast : (r.accepted ++ [w])[r.accepted.length]? = some w := by
    simp
  have hreserved : firstOf (r.accepted ++ [w]) r.accepted.length = r.reserved := by
    rw [firstOf_append le_rfl, hl.reserved_eq]
  refine ⟨⟨?_, ?_, hl.producer.reserve w, ?_, hconsumer, hl.position_le, ?_, hroom⟩, ?_, ?_, ?_, ?_,
    ?_⟩
  · simpa [LogRing.reserve] using Nat.le_succ_of_le hl.delivered
  · exact hl.position_eq.trans (firstOf_append hl.delivered [w]).symm
  · show r.reserved + w.slots = firstOf (r.accepted ++ [w]) (r.accepted ++ [w]).length
    rw [length_append, length_singleton, firstOf_succ hlast, hreserved]
  · exact hl.producer_le.trans (Nat.le_add_right _ _)
  · intro p hp hp'
    exact h.stale p ((Nat.le_add_right _ _).trans hp) hp'
  · intro k w' hk hw
    by_cases hlt : k < r.accepted.length
    · have hold : r.accepted[k]? = some w' := (List.getElem?_append_left hlt).symm.trans hw
      have hfirst : firstOf (r.reserve w).accepted k = firstOf r.accepted k :=
        firstOf_append hlt.le [w]
      rw [hfirst]
      rcases h.records k w' hk hold with hfilled | ⟨j, q, hq, hfills⟩
      · exact .inl ⟨hfilled.committed, hfilled.copied⟩
      · exact .inr ⟨j, q, getElem?_set_other hq (hother hq hfills), hfills⟩
    · obtain ⟨hk', rfl⟩ : k = r.accepted.length ∧ w' = w := by
        have hlen := (List.getElem?_eq_some_iff.1 hw).1
        simp only [LogRing.reserve, length_append, length_singleton] at hlen
        obtain rfl : k = r.accepted.length := by omega
        exact ⟨rfl, Option.some.inj (hw.symm.trans hlast)⟩
      refine .inr ⟨i, _, getElem?_set_same hi, ?_⟩
      rw [hk']
      exact congrArg (fun first => some (w', first)) hreserved.symm
  · intro j q hq
    rcases getElem?_set_cases hq with ⟨-, rfl⟩ | ⟨-, hq⟩
    · refine ⟨⟨r.accepted.length, hlast, hreserved.symm⟩, hl.producer_le, hpos, le_rfl, ?_, ?_⟩
      · intro p hp hp'
        exact h.stale p hp (by omega)
      · intro p hp hp'
        exact absurd hp (by omega)
    · exact (h.threads j q hq).reserve w
  · -- The records that are being filled end where the new one starts.
    have hold : ∀ {j : ℕ} {q : LogWriter} {w' : LogWrite}, writers[j]? = some q →
        q.fills ≠ some (w', r.reserved) := by
      intro j q w' hq hfills
      obtain ⟨left, hfilling⟩ := (h.threads j q hq).filling hfills
      have := hfilling.le_reserved hl.reserved_eq
      have := w'.slots_pos
      omega
    intro j j' q q' v v' first hq hq' hfills hfills'
    rcases getElem?_set_cases hq with ⟨rfl, rfl⟩ | ⟨hj, hat⟩ <;>
      rcases getElem?_set_cases hq' with ⟨rfl, rfl⟩ | ⟨hj', hat'⟩
    · rfl
    · cases hfills
      exact absurd hfills' (hold hat')
    · cases hfills'
      exact absurd hfills (hold hat)
    · exact h.apart j j' q q' v v' first hat hat' hfills hfills'
  · intro hlt hcommitted
    rcases Nat.lt_or_ge r.producerPosition r.reserved with hlt' | hge
    · obtain ⟨j, q, hq, hwatches⟩ := h.watched hlt' hcommitted
      have hj : j ≠ i := by
        rintro rfl
        cases hi.symm.trans hq
        exact hwatches
      exact ⟨j, q, getElem?_set_other hq hj, hwatches⟩
    · exact absurd hcommitted (h.stale _ hge (by
        have := hl.producer_le
        omega)).not_committed

/-! ## Filling -/

theorem slots_ne {k : ℕ} {w : LogWrite} (hj : records[j]? = some w)
    (hk : records[k]? = some w') (hne : firstOf records j ≠ firstOf records k)
    (ha : a ≤ firstOf records j) (ha' : a ≤ firstOf records k)
    (hlap : firstOf records records.length ≤ a + 1024) {p : ℕ} (hp : firstOf records j ≤ p)
    (hp' : p < firstOf records j + w.slots) (hq : firstOf records k ≤ q)
    (hq' : q < firstOf records k + w'.slots) : p % 1024 ≠ q % 1024 := by
  have := record_le hj
  have := record_le hk
  have happart := records_apart hj hk hne
  exact mod_ne_of_window (a := a) (by omega) (by omega) (by omega) (by omega) (by omega)

variable {first left : ℕ}

section

variable (h : LogSound r writers position n)
include h

theorem LogSound.threads_ne
    {first' : ℕ} (hi : writers[i]? = some pc) (hj : writers[j]? = some pc') (hne : j ≠ i)
    (hf : pc.fills = some (w, first)) (hf' : pc'.fills = some (w', first')) {p : ℕ}
    (hp : first' ≤ p) (hp' : p < first' + w'.slots) (hq : first ≤ q) (hq' : q < first + w.slots) :
    p % 1024 ≠ q % 1024 := by
  obtain ⟨left, hfilling⟩ := (h.threads i pc hi).filling hf
  obtain ⟨left', hfilling'⟩ := (h.threads j pc' hj).filling hf'
  have hfirst : first' ≠ first := by
    rintro rfl
    exact hne (h.apart j i pc' pc w' w first' hj hi hf' hf)
  obtain ⟨k, hk, rfl⟩ := hfilling.accepted
  obtain ⟨k', hk', rfl⟩ := hfilling'.accepted
  have hl := h.layout
  have hlap : firstOf r.accepted r.accepted.length ≤ r.producerPosition + 1024 := by
    rw [← hl.reserved_eq]
    have := hl.room
    have := hl.consumer_le
    have := hl.position_le
    omega
  exact slots_ne hk' hk hfirst hfilling'.unpublished hfilling.unpublished hlap hp hp' hq hq'

theorem LogSound.lap : firstOf r.accepted r.accepted.length ≤ position + 1024 := by
  rw [← h.layout.reserved_eq]
  have := h.layout.room
  have := h.layout.consumer_le
  omega

theorem LogSound.filled_ne
    (hfilling : Filling r w first left) (hk : r.accepted[k]? = some w') (hn : n ≤ k)
    (hfilled : Filled r w' (firstOf r.accepted k)) {p : ℕ} (hp : firstOf r.accepted k ≤ p)
    (hp' : p < firstOf r.accepted k + w'.slots) (hq : first ≤ q) (hq' : q < first + w.slots) :
    p % 1024 ≠ q % 1024 := by
  have hstale := hfilling.stale first le_rfl (Nat.lt_add_of_pos_right hfilling.left_pos)
  have hposition : position ≤ first := h.layout.position_le.trans hfilling.unpublished
  obtain ⟨j, hj, rfl⟩ := hfilling.accepted
  have hfirst : firstOf r.accepted k ≠ firstOf r.accepted j := by
    intro heq
    rw [← heq] at hstale
    exact hstale.not_committed
      (hfilled.committed _ le_rfl (Nat.lt_add_of_pos_right w'.slots_pos))
  have hle : position ≤ firstOf r.accepted k := by
    rw [h.layout.position_eq]
    exact firstOf_mono _ hn
  exact slots_ne hk hj hfirst hle hposition h.lap hp hp' hq hq'

end

theorem WriterOk.copyOut {c : CopyOut} (h : WriterOk r pc)
    (hc : ∀ w first, pc.fills = some (w, first) → ∀ p, first ≤ p → p < first + w.slots →
      p % 1024 ≠ c.slot % 1024) : WriterOk (r.copyOut c) pc := by
  cases pc with
  | counting w first => exact Filling.of_eq h rfl rfl rfl
  | copying w first dropped copied =>
    exact ⟨h.1.of_eq rfl rfl rfl, h.2.1, h.2.2.frame (Nat.le_succ_of_le h.2.1) (hc w first rfl)⟩
  | committing w first left =>
    obtain ⟨hfilling, dropped, hcopied⟩ := h
    exact ⟨hfilling.of_eq rfl rfl rfl, dropped, hcopied.frame le_rfl (hc w first rfl)⟩
  | _ => exact h

theorem LogSound.copy {dropped copied : ℕ} (h : LogSound r writers position n)
    (hi : writers[i]? = some (.copying w first dropped copied)) :
    LogSound (r.copyOut (w.copyOut first dropped copied))
      (writers.set i (if copied = w.slots then .committing w first w.slots
        else .copying w first dropped (copied + 1))) position n := by
  obtain ⟨hfilling, hle, hcopied⟩ := h.threads i _ hi
  have hl := h.layout
  obtain ⟨hslot, hslot'⟩ := copyOut_slot w first dropped hle
  have hnext := hcopied.next hle
  have hfills : (if copied = w.slots then LogWriter.committing w first w.slots
      else .copying w first dropped (copied + 1)).fills = some (w, first) := by
    split_ifs <;> rfl
  have hback : ∀ {j : ℕ} {q : LogWriter} {filled : LogWrite × ℕ},
      (writers.set i (if copied = w.slots then LogWriter.committing w first w.slots
        else .copying w first dropped (copied + 1)))[j]? = some q → q.fills = some filled →
      ∃ q', writers[j]? = some q' ∧ q'.fills = some filled := by
    intro j q filled hq hfilled
    rcases getElem?_set_cases hq with ⟨rfl, rfl⟩ | ⟨-, hq⟩
    · exact ⟨_, hi, hfills.symm.trans hfilled⟩
    · exact ⟨q, hq, hfilled⟩
  refine ⟨⟨hl.delivered, hl.position_eq, hl.producer, hl.reserved_eq, hl.consumer_le,
    hl.position_le, hl.producer_le, hl.room⟩, h.stale, ?_, ?_, ?_, ?_⟩
  · intro k w' hn hk
    rcases h.records k w' hn hk with hfilled | ⟨j, q, hq, hqf⟩
    · obtain ⟨dropped', hcopied'⟩ := hfilled.copied
      refine .inl ⟨hfilled.committed, dropped', hcopied'.frame le_rfl fun p hp hp' => ?_⟩
      exact h.filled_ne hfilling hk hn hfilled hp hp' hslot hslot'
    · by_cases hj : j = i
      · subst hj
        cases hi.symm.trans hq
        exact .inr ⟨j, _, getElem?_set_same hi, hfills.trans hqf⟩
      · exact .inr ⟨j, q, getElem?_set_other hq hj, hqf⟩
  · intro j q hq
    rcases getElem?_set_cases hq with ⟨-, rfl⟩ | ⟨hj, hq⟩
    · split_ifs with hlast
      · subst hlast
        exact ⟨hfilling.of_eq rfl rfl rfl, dropped, hnext⟩
      · exact ⟨hfilling.of_eq rfl rfl rfl, by omega, hnext⟩
    · refine (h.threads j q hq).copyOut fun w' first' hf p hp hp' => ?_
      exact h.threads_ne hi hq hj rfl hf hp hp' hslot hslot'
  · intro j j' q q' v v' start hq hq' hf hf'
    obtain ⟨q₁, hq₁, hf₁⟩ := hback hq hf
    obtain ⟨q₂, hq₂, hf₂⟩ := hback hq' hf'
    exact h.apart j j' q₁ q₂ v v' start hq₁ hq₂ hf₁ hf₂
  · intro hlt hcommitted
    obtain ⟨j, q, hq, hwatches⟩ := h.watched hlt hcommitted
    have hj : j ≠ i := by
      rintro rfl
      cases hi.symm.trans hq
      exact hwatches
    exact ⟨j, q, getElem?_set_other hq hj, hwatches⟩

/-! ## Committing -/

section

variable (h : Filling r w first left)
include h

theorem Filling.commit (hq : ∀ p, first ≤ p → p < first + w.slots → p % 1024 ≠ q % 1024) :
    Filling (r.commit q) w first left := by
  have hle := h.left_le
  have hpos := h.left_pos
  refine ⟨h.accepted, h.unpublished, hpos, hle, fun p hp hp' => ?_, fun p hp hp' => ?_⟩
  · exact (h.stale p hp hp').commit (hq p hp (by omega))
  · exact (h.committed p hp hp').commit fun hmod => absurd hmod (hq p (by omega) hp')

theorem Filling.commit_last (hleft : left - 1 ≠ 0) :
    Filling (r.commit (first + (left - 1))) w first (left - 1) := by
  have hle := h.left_le
  have hslots := w.slots_le
  have hne : ∀ p, first ≤ p → p < first + w.slots → p ≠ first + (left - 1) →
      p % 1024 ≠ (first + (left - 1)) % 1024 := fun p hp hp' hne =>
    mod_ne_of_window (a := first) hne hp (by omega) (by omega) (by omega)
  refine ⟨h.accepted, h.unpublished, by omega, by omega, fun p hp hp' => ?_, fun p hp hp' => ?_⟩
  · exact (h.stale p hp (by omega)).commit (hne p hp (by omega) (by omega))
  · by_cases hlast : p = first + (left - 1)
    · subst hlast
      exact slotCommitted_commit r _
    · exact (h.committed p (by omega) hp').commit fun hmod =>
        absurd hmod (hne p (by omega) hp' hlast)

theorem Filling.commit_first (hleft : left - 1 = 0) :
    ∀ p, first ≤ p → p < first + w.slots → SlotCommitted (r.commit (first + (left - 1))) p := by
  have hpos := h.left_pos
  have hslots := w.slots_le
  intro p hp hp'
  by_cases hfirst : p = first + (left - 1)
  · subst hfirst
    exact slotCommitted_commit r _
  · refine (h.committed p (by omega) hp').commit fun hmod => absurd hmod ?_
    exact mod_ne_of_window (a := first) hfirst hp (by omega) (by omega) (by omega)

end

theorem WriterOk.commit (h : WriterOk r pc)
    (hq : ∀ w first, pc.fills = some (w, first) → ∀ p, first ≤ p → p < first + w.slots →
      p % 1024 ≠ q % 1024)
    (hlap : ∀ p, r.producerPosition ≤ p → p < r.reserved → p % 1024 = q % 1024 → p = q) :
    WriterOk (r.commit q) pc := by
  cases pc with
  | counting w first => exact Filling.commit h (hq w first rfl)
  | copying w first dropped copied => exact ⟨h.1.commit (hq w first rfl), h.2⟩
  | committing w first left => exact ⟨h.1.commit (hq w first rfl), h.2⟩
  | scanning first start reserved stop =>
    refine ⟨h.1, fun hstart => ?_⟩
    obtain ⟨h1, h2, h3, h4, h5⟩ := h.2 hstart
    exact ⟨h1, h2, h3, h4, fun p hp hp' => (h5 p hp hp').commit
      (hlap p (hstart ▸ hp) (by omega))⟩
  | advancing first start stop =>
    refine ⟨h.1, fun hstart => ?_⟩
    obtain ⟨h1, h2, h3, h4⟩ := h.2 hstart
    exact ⟨h1, h2, h3, fun p hp hp' => (h4 p hp hp').commit (hlap p (hstart ▸ hp) (by omega))⟩
  | _ => exact h

section

variable (h : LogSound r writers position n)
include h

theorem LogSound.commit (hi : writers[i]? = some (.committing w first left)) :
    LogSound (r.commit (first + (left - 1)))
      (writers.set i (if left - 1 = 0 then .publishing first else .committing w first (left - 1)))
      position n := by
  obtain ⟨hfilling, dropped, hcopied⟩ := h.threads i _ hi
  have hl := h.layout
  have hpos := hfilling.left_pos
  have hle := hfilling.left_le
  have hunpublished := hfilling.unpublished
  have hreserved := hfilling.le_reserved hl.reserved_eq
  have hlap := h.lap
  rw [← hl.reserved_eq] at hlap
  have hposition := hl.position_le
  have hin : ∀ p, position ≤ p → p < position + 1024 → p % 1024 = (first + (left - 1)) % 1024 →
      p = first + (left - 1) := by
    intro p hp hp' hmod
    by_contra hne
    exact mod_ne_of_window (a := position) hne hp hp' (by omega) (by omega) hmod
  generalize hpc : (if left - 1 = 0 then LogWriter.publishing first
    else .committing w first (left - 1)) = pc'
  have hback : ∀ {j : ℕ} {q : LogWriter} {filled : LogWrite × ℕ},
      (writers.set i pc')[j]? = some q → q.fills = some filled →
      ∃ q', writers[j]? = some q' ∧ q'.fills = some filled := by
    intro j q filled hq hfilled
    rcases getElem?_set_cases hq with ⟨rfl, rfl⟩ | ⟨-, hq⟩
    · refine ⟨_, hi, ?_⟩
      split_ifs at hpc <;> subst hpc
      · cases hfilled
      · exact hfilled
    · exact ⟨q, hq, hfilled⟩
  refine ⟨⟨hl.delivered, hl.position_eq, hl.producer, hl.reserved_eq, hl.consumer_le,
    hl.position_le, hl.producer_le, hl.room⟩, ?_, ?_, ?_, ?_, ?_⟩
  · intro p hp hp'
    refine (h.stale p hp hp').commit ?_
    exact mod_ne_of_window (a := position) (by show p ≠ _; have : r.reserved ≤ p := hp; omega)
      (by have : r.reserved ≤ p := hp; omega) hp' (by omega) (by omega)
  · intro k w' hn hk
    rcases h.records k w' hn hk with hfilled | ⟨j, q, hq, hqf⟩
    · refine .inl ⟨fun p hp hp' => (hfilled.committed p hp hp').commit fun hmod => ?_, hfilled.copied⟩
      exact absurd hmod (h.filled_ne hfilling hk hn hfilled hp hp' (by omega) (by omega))
    · by_cases hj : j = i
      · subst hj
        cases hi.symm.trans hq
        obtain ⟨rfl, hfirst⟩ := Prod.mk.inj (Option.some.inj hqf)
        split_ifs at hpc with hlast
        · left
          rw [show firstOf (r.commit (first + (left - 1))).accepted k = first from hfirst.symm]
          exact ⟨hfilling.commit_first hlast, dropped, hcopied⟩
        · subst hpc
          exact .inr ⟨j, _, getElem?_set_same hi, hqf⟩
      · exact .inr ⟨j, q, getElem?_set_other hq hj, hqf⟩
  · intro j q hq
    rcases getElem?_set_cases hq with ⟨-, rfl⟩ | ⟨hj, hq⟩
    · split_ifs at hpc with hlast <;> subst hpc
      · trivial
      · exact ⟨hfilling.commit_last hlast, dropped, hcopied⟩
    · refine (h.threads j q hq).commit (fun w' first' hf p hp hp' => ?_) fun p hp hp' => ?_
      · exact h.threads_ne hi hq hj rfl hf hp hp' (by omega) (by omega)
      · exact hin p (by omega) (by omega)
  · intro j j' q q' v v' start hq hq' hf hf'
    obtain ⟨q₁, hq₁, hf₁⟩ := hback hq hf
    obtain ⟨q₂, hq₂, hf₂⟩ := hback hq' hf'
    exact h.apart j j' q₁ q₂ v v' start hq₁ hq₂ hf₁ hf₂
  · intro hlt hcommitted
    by_cases hfirst : r.producerPosition = first + (left - 1)
    · -- The record at the producer's position is filled now, and its writer publishes it.
      refine ⟨i, pc', getElem?_set_same hi, ?_⟩
      rw [if_pos (by omega)] at hpc
      subst hpc
      show first = r.producerPosition
      omega
    · have hold : SlotCommitted r r.producerPosition := by
        have hmod : r.producerPosition % 1024 ≠ (first + (left - 1)) % 1024 := fun hmod =>
          hfirst (hin _ hl.position_le (by
            have : r.producerPosition < r.reserved := hlt
            omega) hmod)
        exact (update_of_ne hmod ..).symm.trans hcommitted
      obtain ⟨j, q, hq, hwatches⟩ := h.watched hlt hold
      have hj : j ≠ i := by
        rintro rfl
        cases hi.symm.trans hq
        exact hwatches
      exact ⟨j, q, getElem?_set_other hq hj, hwatches⟩

/-! ## Publishing -/

theorem LogSound.slot_cases (hp : position ≤ p)
    (hp' : p < r.reserved) : SlotCommitted r p ∨ SlotStale r p := by
  rw [h.layout.reserved_eq] at hp'
  obtain ⟨k, w, hk, hle, hlt⟩ := exists_record hp'
  have hn : n ≤ k := by
    by_contra hkn
    have := firstOf_mono r.accepted (show k + 1 ≤ n by omega)
    rw [firstOf_succ hk, ← h.layout.position_eq] at this
    omega
  rcases h.records k w hn hk with hfilled | ⟨i, pc, hi, hf⟩
  · exact .inl (hfilled.committed p hle hlt)
  · obtain ⟨left, hfilling⟩ := (h.threads i pc hi).filling hf
    rcases Nat.lt_or_ge p (firstOf r.accepted k + left) with hstale | hcommitted
    · exact .inr (hfilling.stale p hle hstale)
    · exact .inl (hfilling.committed p hcommitted hlt)

theorem LogSound.of_committed (hp : position ≤ p)
    (hp' : p < r.reserved) (hc : r.committed p = true) : SlotCommitted r p :=
  (h.slot_cases hp hp').resolve_right fun hstale => by
    rw [hstale.committed] at hc
    cases hc

theorem LogSound.boundary (hp : r.producerPosition ≤ p)
    (hp' : p < r.reserved) (hbefore : ∀ q, r.producerPosition ≤ q → q < p → SlotCommitted r q)
    (hc : r.committed p = false) : Boundary r p := by
  have hl := h.layout
  have hlt := hp'
  rw [hl.reserved_eq] at hlt
  obtain ⟨k, w, hk, hle, hin⟩ := exists_record hlt
  have hk' := (List.getElem?_eq_some_iff.1 hk).1
  rcases Nat.eq_or_lt_of_le hle with heq | hinside
  · exact ⟨k, hk'.le, heq.symm⟩
  exfalso
  have hproducer : r.producerPosition ≤ firstOf r.accepted k := by
    obtain ⟨m, -, hm⟩ := hl.producer
    by_contra hlater
    have hkm : k + 1 ≤ m := by
      by_contra hmk
      have := firstOf_mono r.accepted (show m ≤ k by omega)
      omega
    have := firstOf_mono r.accepted hkm
    rw [firstOf_succ hk] at this
    omega
  have hfirst := hbefore _ hproducer hinside
  have hn : n ≤ k := by
    by_contra hkn
    have := firstOf_lt r.accepted (show k < n by omega) hk'
    have := hl.position_eq
    have := hl.position_le
    omega
  rcases h.records k w hn hk with hfilled | ⟨i, pc, hi, hf⟩
  · rw [(hfilled.committed p hle hin).committed] at hc
    cases hc
  · obtain ⟨left, hfilling⟩ := (h.threads i pc hi).filling hf
    exact (hfilling.stale _ le_rfl (Nat.lt_add_of_pos_right hfilling.left_pos)).not_committed hfirst

theorem LogSound.scan {start reserved : ℕ}
    (hi : writers[i]? = some (.scanning first start reserved stop)) :
    LogSound r (writers.set i (if ¬SameWord stop reserved ∧ r.committed stop then
        .scanning first start reserved (stop + 1)
      else if SameWord stop start then .notifying first else .advancing first start stop))
      position n := by
  obtain ⟨hstart, hok⟩ := h.threads i _ hi
  have hl := h.layout
  have hlap := h.lap
  rw [← hl.reserved_eq] at hlap
  have hposition := hl.position_le
  split
  · rename_i hnext
    refine h.load hi ⟨hstart, fun hs => ?_⟩ rfl fun _ _ => id
    obtain ⟨h1, h2, h3, h4, h5⟩ := hok hs
    have hne : stop ≠ reserved := fun he => hnext.1 (by rw [he])
    refine ⟨by omega, by omega, h3, h4, fun p hp hp' => ?_⟩
    rcases Nat.lt_succ_iff_lt_or_eq.1 hp' with hlt | rfl
    · exact h5 p hp hlt
    · exact h.of_committed (by omega) (by omega) hnext.2
  rename_i hnext
  rw [not_and_or, not_not] at hnext
  split
  · rename_i hsame
    refine h.load hi trivial rfl fun hlt hcommitted hwatch => ?_
    obtain ⟨rfl, hs, hreserved⟩ := hwatch
    obtain ⟨h1, h2, h3, -, -⟩ := hok hs
    obtain rfl : stop = start := by
      have : stop % 2 ^ 32 = start % 2 ^ 32 := hsame
      omega
    rcases hnext with hend | huncommitted
    · have : stop % 2 ^ 32 = reserved % 2 ^ 32 := hend
      omega
    · rw [hs, hcommitted.committed] at huncommitted
      exact absurd rfl huncommitted
  · rename_i hsame
    refine h.load hi ⟨hstart, fun hs => ?_⟩ rfl fun _ _ hwatch => ⟨hwatch.1, hwatch.2.1⟩
    obtain ⟨h1, h2, h3, h4, h5⟩ := hok hs
    have hne : stop ≠ start := fun he => hsame (by rw [he])
    refine ⟨by omega, by omega, ?_, h5⟩
    rcases hnext with hend | huncommitted
    · obtain rfl : stop = reserved := by
        have : stop % 2 ^ 32 = reserved % 2 ^ 32 := hend
        omega
      exact h4
    · by_cases hreserved : stop = reserved
      · rw [hreserved]
        exact h4
      · exact h.boundary (by omega) (by omega) (hs ▸ h5) (by simpa using huncommitted)

theorem LogSound.advance (hi : writers[i]? = some (.advancing first r.producerPosition stop))
    (hstop : stop = r.reserved ∨ r.committed stop = false) :
    LogSound { r with producerPosition := stop } (writers.set i (.publishing first))
      position n := by
  obtain ⟨-, hok⟩ := h.threads i _ hi
  obtain ⟨hlt, hle, hboundary, hcommitted⟩ := hok rfl
  have hl := h.layout
  have hother : ∀ {j : ℕ} {q : LogWriter} {filled : LogWrite × ℕ}, writers[j]? = some q →
      q.fills = some filled → j ≠ i := by
    rintro j q filled hq hfills rfl
    cases hi.symm.trans hq
    cases hfills
  have hfilling : ∀ {w : LogWrite} {first left : ℕ}, Filling r w first left →
      Filling { r with producerPosition := stop } w first left := by
    intro w first left hf
    refine ⟨hf.accepted, ?_, hf.left_pos, hf.left_le, hf.stale, hf.committed⟩
    by_contra hbefore
    exact (hf.stale first le_rfl (Nat.lt_add_of_pos_right hf.left_pos)).not_committed
      (hcommitted first hf.unpublished (not_le.1 hbefore))
  refine ⟨⟨hl.delivered, hl.position_eq, hboundary, hl.reserved_eq, hl.consumer_le,
    hl.position_le.trans hlt.le, hle, hl.room⟩, h.stale, ?_, ?_, ?_, ?_⟩
  · intro k w hn hk
    rcases h.records k w hn hk with hfilled | ⟨j, q, hq, hf⟩
    · exact .inl ⟨hfilled.committed, hfilled.copied⟩
    · exact .inr ⟨j, q, getElem?_set_other hq (hother hq hf), hf⟩
  · intro j q hq
    rcases getElem?_set_cases hq with ⟨-, rfl⟩ | ⟨-, hq⟩
    · trivial
    have hq' := h.threads j q hq
    cases q with
    | counting w first => exact hfilling hq'
    | copying w first dropped copied => exact ⟨hfilling hq'.1, hq'.2⟩
    | committing w first left => exact ⟨hfilling hq'.1, hq'.2⟩
    | bounding first start => exact le_trans hq' hlt.le
    | scanning first start reserved stop' =>
      exact ⟨hq'.1.trans hlt.le, fun hs => absurd (hs.symm.le.trans hq'.1) (not_le.2 hlt)⟩
    | advancing first start stop' =>
      exact ⟨hq'.1.trans hlt.le, fun hs => absurd (hs.symm.le.trans hq'.1) (not_le.2 hlt)⟩
    | _ => exact hq'
  · intro j j' q q' v v' start hq hq' hf hf'
    rcases getElem?_set_cases hq with ⟨-, rfl⟩ | ⟨-, hat⟩
    · cases hf
    rcases getElem?_set_cases hq' with ⟨-, rfl⟩ | ⟨-, hat'⟩
    · cases hf'
    exact h.apart j j' q q' v v' start hat hat' hf hf'
  · intro hbehind hstuck
    exfalso
    rcases hstop with hall | hnot
    · exact absurd hbehind (by rw [hall]; exact lt_irrefl _)
    · exact Bool.false_ne_true (hnot.symm.trans (SlotCommitted.committed (r := r) hstuck))

end

/-! ## A step of a writer -/

/-- A position that a thread has read is not older than the words of the code can tell, and it does
not leave off in front of a committed record. -/
def WriterSteady (r : LogRing) : LogWriter → Prop
  | .reserving w consumer => r.reserved + w.slots < consumer + 2 ^ 32
  | .claiming _ first => SameWord r.reserved first → r.reserved = first
  | .advancing _ start stop => SameWord r.producerPosition start →
      r.producerPosition = start ∧ (stop = r.reserved ∨ r.committed stop = false)
  | _ => True

theorem LogSound.step {s : LogState} (h : LogSound s.ring s.writers position n)
    (hi : s.writers[i]? = some pc) (hs : WriterSteady s.ring pc) (gone : Bool) :
    LogSound (writerStep s gone pc).1.ring (s.writers.set i (writerStep s gone pc).2) position n := by
  cases pc with
  | returned status => exact h.load hi trivial rfl fun _ _ => id
  | started w =>
    dsimp only [writerStep]
    split_ifs <;> exact h.load hi trivial rfl fun _ _ => nofun
  | room w => exact h.load hi le_rfl rfl fun _ _ => nofun
  | reserving w consumer =>
    dsimp only [writerStep]
    split
    · exact h.load hi trivial rfl fun _ _ => nofun
    · rename_i hfull
      refine h.load hi ?_ rfl fun _ _ => nofun
      have hconsumer : consumer ≤ s.ring.consumerPosition := h.threads i _ hi
      have hsteady : s.ring.reserved + w.slots < consumer + 2 ^ 32 := hs
      have hl := h.layout
      have := hl.consumer_le
      have := hl.position_le
      have := hl.producer_le
      have hroom : (s.ring.reserved + w.slots) % 2 ^ 32 + 2 ^ 32 - consumer % 2 ^ 32 < 2 ^ 32 ∨
          2 ^ 32 ≤ (s.ring.reserved + w.slots) % 2 ^ 32 + 2 ^ 32 - consumer % 2 ^ 32 := by omega
      have hle : ((s.ring.reserved + w.slots) % 2 ^ 32 + 2 ^ 32 - consumer % 2 ^ 32) % 2 ^ 32 ≤
          1024 := not_lt.1 hfull
      show s.ring.reserved + w.slots ≤ s.ring.consumerPosition + 1024
      omega
  | claiming w first =>
    dsimp only [writerStep]
    split
    · rename_i hclaim
      obtain rfl : s.ring.reserved = first := hs hclaim
      exact h.reserve hi
    · exact h.load hi trivial rfl fun _ _ => nofun
  | counting w first =>
    have hfilling : Filling s.ring w first w.slots := h.threads i _ hi
    refine h.load hi ⟨hfilling, Nat.zero_le _, ?_⟩ rfl fun _ _ => nofun
    exact fun piece hpiece => absurd hpiece (Nat.not_lt_zero _)
  | copying w first dropped copied => exact h.copy hi
  | committing w first left => exact h.commit hi
  | publishing first => exact h.load hi le_rfl rfl fun _ _ hwatch => ⟨hwatch, rfl⟩
  | bounding first start =>
    refine h.load hi ⟨h.threads i _ hi, fun hstart => ?_⟩ rfl fun hlt _ hwatch =>
      ⟨hwatch.1, hwatch.2, hlt⟩
    refine ⟨le_rfl, hstart.le.trans h.layout.producer_le, le_rfl,
      ⟨_, le_rfl, h.layout.reserved_eq⟩, fun p hp hp' => absurd hp (not_le.2 hp')⟩
  | scanning first start reserved stop => exact h.scan hi
  | advancing first start stop =>
    dsimp only [writerStep]
    split
    · rename_i hsame
      obtain ⟨rfl, hstop⟩ := hs hsame
      exact h.advance hi hstop
    · rename_i hsame
      refine h.load hi trivial rfl fun _ _ hwatch => absurd ?_ hsame
      rw [hwatch.2]
  | notifying first =>
    dsimp only [writerStep]
    split_ifs <;> exact h.load hi trivial rfl fun _ _ => nofun
  | ringing first =>
    dsimp only [writerStep]
    split_ifs <;> exact h.load hi trivial rfl fun _ _ => nofun
  | burying dropping =>
    dsimp only [writerStep]
    split_ifs <;> exact h.load hi trivial rfl fun _ _ => nofun
  | dropping => exact h.load hi trivial rfl fun _ _ => nofun
  | counted seen =>
    dsimp only [writerStep]
    split_ifs <;> exact h.load hi trivial rfl fun _ _ => nofun
  | dropRinging =>
    dsimp only [writerStep]
    split_ifs <;> exact h.load hi trivial rfl fun _ _ => nofun
  | checking => exact h.load hi trivial rfl fun _ _ => nofun
  | probing length =>
    dsimp only [writerStep]
    split_ifs <;> exact h.load hi trivial rfl fun _ _ => nofun
  | probeRoom slots => exact h.load hi trivial rfl fun _ _ => nofun
  | probeCheck slots reserved =>
    dsimp only [writerStep]
    split_ifs <;> exact h.load hi trivial rfl fun _ _ => nofun

end Astra
