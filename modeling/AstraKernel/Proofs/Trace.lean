import AstraKernel.Trace.State
import Mathlib.Data.List.ReduceOption
import Mathlib.Tactic

/-!
# Draining the trace ring

`RingHolds s H` says that the ring holds the last slots of everything written, `H`, under their
sequences. A drain examines the slots written since the last one, or those the ring still has; then
it says that something was lost.
-/

namespace Astra

open Function List

def traceSequence (p : ℕ) : BitVec 32 := BitVec.ofNat 32 (p % (2 ^ 32 - 1) + 1)

theorem toNat_traceSequence (p : ℕ) : (traceSequence p).toNat = p % 4294967295 + 1 := by
  rw [traceSequence, BitVec.toNat_ofNat]
  omega

theorem traceSequence_ne_zero (p : ℕ) : traceSequence p ≠ 0 := by
  intro h
  have := congrArg BitVec.toNat h
  rw [toNat_traceSequence] at this
  simp at this

theorem nextTraceSequence_eq (p : ℕ) :
    nextTraceSequence (traceSequence p) = traceSequence (p + 1) := by
  have h := toNat_traceSequence p
  have h1 := toNat_traceSequence (p + 1)
  have ha : (traceSequence p + 1).toNat = ((traceSequence p).toNat + 1) % 4294967296 :=
    BitVec.toNat_add _ _
  have hone : (1 : BitVec 32).toNat = 1 := rfl
  unfold nextTraceSequence
  split_ifs with h0
  · have hz : (traceSequence p + 1).toNat = 0 := congrArg BitVec.toNat h0
    apply BitVec.eq_of_toNat_eq
    omega
  · have hz : (traceSequence p + 1).toNat ≠ 0 := fun hz => h0 (BitVec.eq_of_toNat_eq hz)
    apply BitVec.eq_of_toNat_eq
    omega

variable {b : KernelTraceBody} {W : List (Option AstraEventDrained)} {H : List KernelTraceBody}
  {readings : List TraceReading} {s : TraceState} {e : TraceUserEvent} {α : Type*}
  {capacity n p q seen start upTo : ℕ}

theorem sequenceBefore_eq {d : ℕ} (hd : d ≤ n) (hs : d < 2 ^ 31) :
    sequenceBefore (traceSequence n) (BitVec.ofNat 32 d) = traceSequence (n - d) := by
  have hn := toNat_traceSequence n
  have hnd := toNat_traceSequence (n - d)
  have hdn : (BitVec.ofNat 32 d).toNat = d := by
    rw [BitVec.toNat_ofNat]
    omega
  have ho : (BitVec.allOnes 32).toNat = 4294967295 := rfl
  unfold sequenceBefore
  split_ifs with h
  · apply BitVec.eq_of_toNat_eq
    have hlt : (BitVec.ofNat 32 d).toNat < (traceSequence n).toNat := h
    rw [BitVec.toNat_sub_of_le (BitVec.le_of_lt h)]
    omega
  · apply BitVec.eq_of_toNat_eq
    have hle : (traceSequence n).toNat ≤ (BitVec.ofNat 32 d).toNat := by
      have : ¬(BitVec.ofNat 32 d).toNat < (traceSequence n).toNat := h
      omega
    have h1 : (BitVec.ofNat 32 d - traceSequence n).toNat = d - (n % 4294967295 + 1) := by
      rw [BitVec.toNat_sub_of_le hle]
      omega
    rw [BitVec.toNat_sub_of_le (by rw [BitVec.le_def, h1, ho]; omega), h1, ho]
    omega

theorem toNat_traceSequence_sub (p q : ℕ) : (traceSequence p - traceSequence q).toNat
    = (4294967296 + p % 4294967295 - q % 4294967295) % 4294967296 := by
  have hq : q % 4294967295 < 4294967295 := Nat.mod_lt _ (by decide)
  have h := BitVec.toNat_sub (traceSequence p) (traceSequence q)
  rw [toNat_traceSequence, toNat_traceSequence] at h
  rw [h, show (2 : ℕ) ^ 32 = 4294967296 from rfl]
  congr 1
  omega

theorem mod_apart (h : q ≤ p) (hpq : p - q < 4294967295) :
    p % 4294967295 = q % 4294967295 + (p - q) ∨
      p % 4294967295 + 4294967295 = q % 4294967295 + (p - q) := by
  omega

theorem sequenceAfter_iff (h1 : p < q + 2147483647) (h2 : q < p + 2147483647) :
    sequenceAfter (traceSequence p) (traceSequence q) = true ↔ q < p := by
  have hd := toNat_traceSequence_sub p q
  have hp : p % 4294967295 < 4294967295 := Nat.mod_lt _ (by decide)
  have hq : q % 4294967295 < 4294967295 := Nat.mod_lt _ (by decide)
  have he : sequenceAfter (traceSequence p) (traceSequence q) = true ↔
      (traceSequence p - traceSequence q).toNat ≠ 0 ∧
        (traceSequence p - traceSequence q).toNat < 2147483648 := by
    unfold sequenceAfter
    rw [decide_eq_true_eq, ne_eq, ne_eq, ← BitVec.toNat_inj, BitVec.lt_def]
    rfl
  rw [he, hd]
  rcases Nat.lt_or_ge q p with hqp | hpq
  · have := mod_apart (Nat.le_of_lt hqp) (by omega)
    omega
  · have := mod_apart hpq (by omega)
    omega

theorem between_ne_zero (h1 : q + 1 < p) (h2 : p < q + 2147483647) :
    traceSequence p - traceSequence q - 1 ≠ 0 := by
  intro h
  have hd := toNat_traceSequence_sub p q
  have hp : p % 4294967295 < 4294967295 := Nat.mod_lt _ (by decide)
  have hq : q % 4294967295 < 4294967295 := Nat.mod_lt _ (by decide)
  have heq : traceSequence p - traceSequence q = 1 := by
    rw [← BitVec.sub_add_cancel (traceSequence p - traceSequence q) 1, h]
    rfl
  have hone : (traceSequence p - traceSequence q).toNat = 1 := congrArg BitVec.toNat heq
  omega

structure RingHolds (s : TraceState) (H : List KernelTraceBody) : Prop where
  next : s.nextSequence = traceSequence H.length
  index : s.writeIndex = H.length % 2047
  wrap : s.wrapCount = 0 ↔ H.length < 2047
  holds : ∀ (p : ℕ) (b : KernelTraceBody), H[p]? = some b → H.length ≤ p + 2047 →
    s.records (p % 2047) = ⟨traceSequence p, b⟩

variable (records : ℕ → KernelTraceSlot)

theorem RingHolds.init : RingHolds (.init records) [] where
  next := rfl
  index := rfl
  wrap := by simp [TraceState.init]
  holds p b h := by simp at h

section

variable (h : RingHolds s H)
include h

theorem RingHolds.headerValid : s.headerValid = true := by
  have hlt : H.length % 2047 < 2047 := Nat.mod_lt _ (by decide)
  simp only [TraceState.headerValid, h.next, h.index, decide_eq_true_eq]
  exact ⟨traceSequence_ne_zero _, hlt⟩

theorem RingHolds.committedCount : s.committedCount = min H.length 2047 := by
  unfold TraceState.committedCount
  have hw := h.wrap
  rw [show kernelTraceCapacity = 2047 from rfl]
  split_ifs with h0
  · have hlt : H.length < 2047 := hw.1 h0
    rw [h.index]
    omega
  · have hge : ¬H.length < 2047 := fun hc => h0 (hw.2 hc)
    omega

theorem RingHolds.writeSlot
    (body : KernelTraceBody) : RingHolds (s.writeSlot body) (H ++ [body]) := by
  have hindex : s.writeIndex = H.length % 2047 := h.index
  refine ⟨?_, ?_, ?_, ?_⟩
  · rw [length_append, length_singleton, ← nextTraceSequence_eq, ← h.next]
    rfl
  · rw [length_append, length_singleton]
    dsimp only [TraceState.writeSlot, kernelTraceCapacity]
    split_ifs with hc
    · omega
    · omega
  · rw [length_append, length_singleton]
    dsimp only [TraceState.writeSlot, kernelTraceCapacity]
    have hw := h.wrap
    split
    · omega
    · rename_i hc
      have hn : s.writeIndex + 1 = 2047 → s.wrapCount = 2 ^ 32 - 1 := by
        intro h1
        by_contra h2
        exact hc ⟨h1, h2⟩
      omega
  · intro p b hb hp
    rw [length_append, length_singleton] at hp
    show update s.records s.writeIndex _ (p % 2047) = _
    have hlt : p < H.length + 1 := by
      simpa using (List.getElem?_eq_some_iff.1 hb).1
    rcases Nat.lt_or_ge p H.length with hpn | hpn
    · rw [List.getElem?_append_left hpn] at hb
      rw [update_of_ne (by omega)]
      exact h.holds p b hb (by omega)
    · have hpe : p = H.length := by omega
      subst hpe
      rw [← hindex, update_self, h.next]
      simp at hb
      rw [hb]

theorem RingHolds.writeUser (e : TraceUserEvent) :
    RingHolds (if e.payload = [] then s.writeSlot (.user e.record)
        else (s.writeSlot (.user e.record)).writeSlot (.arguments e.arguments))
      (H ++ .user e.record :: if e.payload = [] then [] else [.arguments e.arguments]) := by
  have h1 := h.writeSlot (.user e.record)
  split_ifs
  · exact h1
  · have h2 := h1.writeSlot (.arguments e.arguments)
    rw [append_assoc] at h2
    exact h2

end

/-- The slots written tell the story of `W`: which user event each one starts. No other slot has
the user event's number where a reader looks for it. -/
structure Spells (H : List KernelTraceBody) (W : List (Option AstraEventDrained)) : Prop where
  length : W.length = H.length
  other : ∀ (p : ℕ) (b : KernelTraceBody), H[p]? = some b → W[p]? = some none → b.asUser.event ≠ kernelTraceEventUser
  user : ∀ (p : ℕ) (d : AstraEventDrained), W[p]? = some (some d) → ∃ e : TraceUserEvent,
    e.payload.length ≤ kernelTraceArgumentBytes ∧ d = e.drained (traceSequence p) ∧
      H[p]? = some (.user e.record) ∧
        (e.payload ≠ [] → H[p + 1]? = some (.arguments e.arguments))

theorem getElem?_snoc {l : List α} {x y : α} (h : (l ++ [x])[p]? = some y) :
    l[p]? = some y ∨ (p = l.length ∧ y = x) := by
  have hlt := (List.getElem?_eq_some_iff.1 h).1
  rw [length_append, length_singleton] at hlt
  rcases Nat.lt_or_ge p l.length with hp | hp
  · rw [List.getElem?_append_left hp] at h
    exact .inl h
  · have hpe : p = l.length := by omega
    subst hpe
    rw [List.getElem?_concat_length] at h
    exact .inr ⟨rfl, (Option.some.inj h).symm⟩

theorem getElem?_append_of_some {l : List α} {y : α} (h : l[p]? = some y)
    (l' : List α) : (l ++ l')[p]? = some y := by
  rw [List.getElem?_append_left (List.getElem?_eq_some_iff.1 h).1, h]

theorem Spells.init : Spells [] [] where
  length := rfl
  other p b h := by simp at h
  user p d h := by simp at h

theorem Spells.append (h : Spells H W) (hb : b.asUser.event ≠ kernelTraceEventUser) :
    Spells (H ++ [b]) (W ++ [none]) := by
  refine ⟨by simp [h.length], ?_, ?_⟩
  · intro p b' hH hW
    rcases getElem?_snoc hH with hH | ⟨rfl, rfl⟩
    · rcases getElem?_snoc hW with hW | ⟨rfl, -⟩
      · exact h.other p b' hH hW
      · have := (List.getElem?_eq_some_iff.1 hH).1
        have := h.length
        omega
    · exact hb
  · intro p d hW
    rcases getElem?_snoc hW with hW | ⟨-, hd⟩
    · obtain ⟨e, hlen, hd, hH, hargs⟩ := h.user p d hW
      exact ⟨e, hlen, hd, getElem?_append_of_some hH _,
        fun hne => getElem?_append_of_some (hargs hne) _⟩
    · cases hd

theorem arguments_event (e : TraceUserEvent) :
    (KernelTraceBody.arguments e.arguments).asUser.event = e.arguments.half 4 := rfl

theorem Spells.appendUser (h : Spells H W) (hlen : e.payload.length ≤ kernelTraceArgumentBytes)
    (hplain : e.arguments.half 4 ≠ kernelTraceEventUser) :
    Spells (H ++ .user e.record :: if e.payload = [] then [] else [.arguments e.arguments])
      (W ++ some (e.drained (traceSequence H.length)) :: if e.payload = [] then [] else [none]) := by
  have hl := h.length
  refine ⟨?_, ?_, ?_⟩
  · split_ifs
    · simp [hl]
    · simp [hl]
  · intro p b hH hW
    rcases Nat.lt_trichotomy p H.length with hp | rfl | hp
    · rw [List.getElem?_append_left hp] at hH
      rw [List.getElem?_append_left (by omega)] at hW
      exact h.other p b hH hW
    · rw [List.getElem?_append_right (by omega), hl, Nat.sub_self] at hW
      cases hW
    · split_ifs at hH hW with hpay
      · have := (List.getElem?_eq_some_iff.1 hH).1
        simp at this
        omega
      · have hp1 : p = H.length + 1 := by
          have := (List.getElem?_eq_some_iff.1 hH).1
          simp at this
          omega
        subst hp1
        rw [List.getElem?_append_right (by omega)] at hH
        simp at hH
        subst hH
        rw [arguments_event]
        exact hplain
  · intro p d hW
    rcases Nat.lt_trichotomy p H.length with hp | rfl | hp
    · rw [List.getElem?_append_left (by omega)] at hW
      obtain ⟨e, hlen, hd, hH, hargs⟩ := h.user p d hW
      exact ⟨e, hlen, hd, getElem?_append_of_some hH _,
        fun hne => getElem?_append_of_some (hargs hne) _⟩
    · rw [List.getElem?_append_right (by omega), hl, Nat.sub_self] at hW
      refine ⟨e, hlen, (Option.some.inj (Option.some.inj hW)).symm, by simp, ?_⟩
      intro hne
      rw [if_neg hne, List.getElem?_append_right (by omega)]
      simp
    · split_ifs at hW with hpay
      · have := (List.getElem?_eq_some_iff.1 hW).1
        simp at this
        omega
      · rw [List.getElem?_append_right (by omega)] at hW
        obtain ⟨k, hk⟩ : ∃ k, p - W.length = k + 1 := ⟨p - W.length - 1, by omega⟩
        rw [hk] at hW
        cases k with
        | zero => simp at hW
        | succ k => simp at hW

theorem RingHolds.readSlot (h : RingHolds s H) (hb : H[p]? = some b) (hp : H.length ≤ p + 2047) :
    kernelTraceReadSlot s (p % 2047) = some (traceSequence p, b.asRecord) := by
  have hlt : p % 2047 < 2047 := Nat.mod_lt _ (by decide)
  have hrec := h.holds p b hb hp
  unfold kernelTraceReadSlot
  rw [if_neg (by simp [h.headerValid]; exact hlt), hrec, if_neg (traceSequence_ne_zero p)]

theorem RingHolds.readUser_other (h : RingHolds s H)
    (hb : H[p]? = some b) (hp : H.length ≤ p + 2047)
    (hne : b.asUser.event ≠ kernelTraceEventUser) (capacity : ℕ) :
    kernelTraceReadUser s (p % 2047) capacity = none := by
  have hrec := h.holds p b hb hp
  have hlt : p % 2047 < 2047 := Nat.mod_lt _ (by decide)
  unfold kernelTraceReadUser
  rw [if_neg (by simp [h.headerValid]; exact hlt), hrec]
  exact if_pos (.inr hne)

theorem argumentPayload_take {l : List (BitVec 8)} (hl : l.length ≤ kernelTraceArgumentBytes) :
    (argumentPayload l).take l.length = l := by
  apply ext_getElem?
  intro i
  rw [List.getElem?_take]
  split_ifs with hi
  · rw [argumentPayload, List.getElem?_map, List.getElem?_range (by omega)]
    simp [List.getD, List.getElem?_eq_getElem hi]
  · rw [List.getElem?_eq_none (by omega)]

theorem RingHolds.readUser_event (h : RingHolds s H)
    (hlen : e.payload.length ≤ kernelTraceArgumentBytes)
    (hb : H[p]? = some (.user e.record)) (hp : H.length ≤ p + 2047)
    (hargs : e.payload ≠ [] → H[p + 1]? = some (.arguments e.arguments)) :
    kernelTraceReadUser s (p % 2047) kernelTraceArgumentBytes
      = some (traceSequence p, e.record, e.payload) := by
  have hlt : p % 2047 < 2047 := Nat.mod_lt _ (by decide)
  have hrec := h.holds p _ hb hp
  have hl24 : e.payload.length ≤ 24 := hlen
  have hto : e.record.payloadLength.toNat = e.payload.length := by
    show (BitVec.ofNat 16 e.payload.length).toNat = _
    rw [BitVec.toNat_ofNat]
    omega
  unfold kernelTraceReadUser
  rw [if_neg (by simp [h.headerValid]; exact hlt), hrec]
  dsimp only [KernelTraceBody.asUser]
  rw [if_neg (by rintro (h0 | h0); exacts [traceSequence_ne_zero p h0, h0 rfl])]
  by_cases hpay : e.payload = []
  · rw [if_pos (by rw [TraceUserEvent.record, hpay]; rfl), hpay]
  · have hpos : 0 < e.payload.length := length_pos_of_ne_nil hpay
    have hne : e.record.payloadLength ≠ 0 := by
      intro h0
      have : e.record.payloadLength.toNat = 0 := congrArg BitVec.toNat h0
      omega
    have hslot : (if p % 2047 + 1 = kernelTraceCapacity then 0 else p % 2047 + 1)
        = (p + 1) % 2047 := by
      dsimp only [kernelTraceCapacity]
      split_ifs <;> omega
    have hnext := h.holds (p + 1) _ (hargs hpay) (by omega)
    rw [if_neg hne, if_neg (by rw [hto]; simp [hl24]), hslot, hnext]
    have hok : ¬(traceSequence (p + 1) ≠ nextTraceSequence (traceSequence p) ∨
        e.arguments.event ≠ kernelTraceEventUserArguments) := by
      rw [nextTraceSequence_eq]
      simp [TraceUserEvent.arguments]
    refine (if_neg hok).trans ?_
    rw [hto]
    exact congrArg (fun l => some (traceSequence p, e.record, l)) (argumentPayload_take hlen)

/-- The entries from one slot up to another. -/
def stretch {α : Type*} (W : List α) (start upTo : ℕ) : List α := (W.take upTo).drop start

@[simp] theorem stretch_self (W : List α) (p : ℕ) : stretch W p p = [] := by
  rw [stretch, drop_eq_nil_iff, length_take]
  omega

theorem stretch_cons {W : List α} {w : α} (hw : W[start]? = some w)
    (h : start < upTo) : stretch W start upTo = w :: stretch W (start + 1) upTo := by
  have hlt := (List.getElem?_eq_some_iff.1 hw).1
  have hlen : start < (W.take upTo).length := by
    rw [length_take]
    omega
  rw [stretch, drop_eq_getElem_cons hlen, getElem_take, stretch,
    (List.getElem?_eq_some_iff.1 hw).2]

theorem take_append_stretch (W : List α) (h : start ≤ upTo) :
    W.take upTo = W.take start ++ stretch W start upTo := by
  have := take_append_drop start (W.take upTo)
  rw [take_take, Nat.min_eq_left h] at this
  exact this.symm

theorem stretch_append {W W' : List α} (h : upTo ≤ W.length) :
    stretch (W ++ W') start upTo = stretch W start upTo := by
  rw [stretch, take_append_of_le_length h, stretch]

def cursorAt (seen : ℕ) : BitVec 32 := if seen = 0 then 0 else traceSequence (seen - 1)

theorem cursorAt_succ (p : ℕ) : cursorAt (p + 1) = traceSequence p := rfl

theorem cursorAt_eq_zero : cursorAt seen = 0 ↔ seen = 0 := by
  unfold cursorAt
  split_ifs with h
  · simp [h]
  · exact iff_of_false (traceSequence_ne_zero _) h

theorem cursorAt_skips (hp : p < n) (hn : n ≤ p + 2047) (hseen : seen ≤ n)
    (hnear : seen ≠ 0 → n < seen + 2147483647) :
    (cursorAt seen ≠ 0 ∧ sequenceAfter (traceSequence p) (cursorAt seen) = false) ↔ p < seen := by
  rw [ne_eq, cursorAt_eq_zero]
  rcases Nat.eq_zero_or_pos seen with h0 | h0
  · simp [h0]
  · obtain ⟨q, rfl⟩ : ∃ q, seen = q + 1 := ⟨seen - 1, by omega⟩
    have hnq := hnear (by omega)
    rw [cursorAt_succ, ← Bool.not_eq_true, sequenceAfter_iff (by omega) (by omega)]
    omega

/-- What examining the slots from `start` on does to an answer: the cursor stands behind them, their
user events are added, and a page that has room left means that all were examined. -/
structure Examines (W : List (Option AstraEventDrained)) (capacity start upTo : ℕ)
    (d d' : TraceDrained) : Prop where
  le : start ≤ upTo
  bound : upTo ≤ W.length
  cursor : d'.cursor = if upTo = start then d.cursor else cursorAt upTo
  lost : d'.lost = d.lost
  events : d'.events = d.events ++ (stretch W start upTo).reduceOption
  room : d'.events.length < capacity → upTo = W.length

theorem Examines.full (d : TraceDrained)
    (h : start ≤ W.length) (hfull : ¬d.events.length < capacity ∨ start = W.length) :
    Examines W capacity start start d d where
  le := le_rfl
  bound := h
  cursor := by simp
  lost := rfl
  events := by simp
  room hlt := hfull.resolve_left (fun hn => hn hlt)

theorem Examines.cons {w : Option AstraEventDrained} {d d' : TraceDrained} (hw : W[start]? = some w)
    (h : Examines W capacity (start + 1) upTo
      ⟨traceSequence start, d.lost, d.events ++ [w].reduceOption⟩ d') :
    Examines W capacity start upTo d d' where
  le := by have := h.le; omega
  bound := h.bound
  cursor := by
    have := h.le
    rw [h.cursor, if_neg (show ¬upTo = start by omega)]
    split_ifs with hu
    · rw [hu, cursorAt_succ]
    · rfl
  lost := h.lost
  events := by
    have := h.le
    rw [h.events, stretch_cons hw (by omega), append_assoc, ← reduceOption_append]
    rfl
  room := h.room

theorem drainSlots_spec (hR : RingHolds s H) (hS : Spells H W)
    (hseen : seen ≤ H.length) (hnear : seen ≠ 0 → H.length < seen + 2147483647) (capacity : ℕ) :
    ∀ (offset : ℕ) (d : TraceDrained), offset ≤ H.length → offset ≤ 2047 →
      ∃ upTo, Examines W capacity (max (H.length - offset) seen) upTo d
        (drainSlots s (cursorAt seen) capacity offset d) := by
  have hlen := hS.length
  intro offset
  induction offset with
  | zero =>
    intro d _ _
    refine ⟨max (H.length - 0) seen, ?_⟩
    rw [drainSlots]
    exact .full d (by omega) (.inr (by omega))
  | succ k ih =>
    intro d hk hk2
    rw [drainSlots]
    split
    · exact ⟨_, .full d (by omega) (.inl (by omega))⟩
    have hexp : sequenceBefore s.nextSequence (BitVec.ofNat 32 (k + 1))
        = traceSequence (H.length - (k + 1)) := by
      rw [hR.next]
      exact sequenceBefore_eq hk (by omega)
    have hslot : (s.writeIndex + kernelTraceCapacity - 1 - k) % kernelTraceCapacity
        = (H.length - (k + 1)) % 2047 := by
      rw [hR.index]
      dsimp only [kernelTraceCapacity]
      omega
    simp only [hexp, hslot]
    generalize hp : H.length - (k + 1) = p
    have hskip : (cursorAt seen ≠ 0 ∧ sequenceAfter (traceSequence p) (cursorAt seen) = false) ↔
        p < seen := cursorAt_skips (n := H.length) (by omega) (by omega) hseen hnear
    by_cases hps : p < seen
    · rw [if_pos (hskip.2 hps)]
      have hmax : max p seen = max (H.length - k) seen := by omega
      rw [hmax]
      exact ih d (by omega) (by omega)
    rw [if_neg (fun hc => hps (hskip.1 hc))]
    have hmax : max p seen = p := by omega
    have hmax' : max (H.length - k) seen = p + 1 := by omega
    rw [hmax]
    rw [hmax'] at ih
    have hb : ∃ b, H[p]? = some b := ⟨_, List.getElem?_eq_getElem (by omega)⟩
    have hw : ∃ w, W[p]? = some w := ⟨_, List.getElem?_eq_getElem (by omega)⟩
    obtain ⟨b, hb⟩ := hb
    obtain ⟨w, hw⟩ := hw
    cases w with
    | none =>
      have hne := hS.other p b hb hw
      have hmiss : ((b.asRecord).event == kernelTraceEventUser) = false := by
        rw [beq_eq_false_iff_ne]
        exact hne
      rw [hR.readUser_other hb (by omega) hne, hR.readSlot hb (by omega)]
      simp only [hmiss, Bool.false_eq_true, if_false]
      obtain ⟨upTo, h⟩ := ih ⟨traceSequence p, d.lost, d.events⟩ (by omega) (by omega)
      refine ⟨upTo, .cons hw ?_⟩
      simpa using h
    | some a =>
      obtain ⟨e, he, hd, hH, hargs⟩ := hS.user p a hw
      rw [hR.readUser_event he hH (by omega) hargs]
      dsimp only
      rw [if_neg (by simp)]
      subst hd
      obtain ⟨upTo, h⟩ := ih ⟨traceSequence p, d.lost,
        d.events ++ [e.drained (traceSequence p)]⟩ (by omega) (by omega)
      exact ⟨upTo, .cons hw h⟩

/-- A reading of what has been written: it examines the slots from `start` up to `upTo`. Where it
starts behind the end of the one before it says that something was lost. -/
structure Answers (W : List (Option AstraEventDrained)) (seen start upTo : ℕ) (r : TraceReading) :
    Prop where
  from_seen : seen ≤ start
  le : start ≤ upTo
  bound : upTo ≤ r.slots
  written : r.slots ≤ W.length
  events : r.events = (stretch W start upTo).reduceOption
  lost : seen ≠ 0 → r.lost = 0 → start = seen
  room : r.events.length < r.capacity → upTo = r.slots

theorem kernelTraceDrainUser_spec (hR : RingHolds s H) (hS : Spells H W)
    (hseen : seen ≤ H.length) (hnear : seen ≠ 0 → H.length < seen + 2147483647) (capacity : ℕ) :
    ∃ start upTo, (kernelTraceDrainUser s (cursorAt seen) capacity).cursor = cursorAt upTo ∧
      (upTo = seen ∨ H.length ≤ start + 2047) ∧ Answers W seen start upTo ⟨(kernelTraceDrainUser s (cursorAt seen) capacity).events,
        (kernelTraceDrainUser s (cursorAt seen) capacity).lost, capacity, W.length⟩ := by
  have hlen := hS.length
  have hcount := hR.committedCount
  unfold kernelTraceDrainUser
  split
  · rename_i hnone
    have hbound : seen ≤ W.length := by omega
    refine ⟨seen, seen, rfl, .inl rfl, le_rfl, le_rfl, hbound, le_rfl, by simp, fun _ _ => rfl, ?_⟩
    intro hroom
    rcases hnone with h0 | hv | h0
    · simp [h0] at hroom
    · simp [hR.headerValid] at hv
    · show seen = W.length
      omega
  rename_i hnone
  have hcommitted : s.committedCount ≠ 0 := fun h0 => hnone (.inr (.inr h0))
  have holdest : sequenceBefore s.nextSequence (BitVec.ofNat 32 s.committedCount)
      = traceSequence (H.length - s.committedCount) := by
    rw [hR.next]
    exact sequenceBefore_eq (by omega) (by omega)
  simp only [holdest]
  generalize hm : (if cursorAt seen ≠ 0 ∧
    sequenceAfter (traceSequence (H.length - s.committedCount)) (cursorAt seen) = true then
      traceSequence (H.length - s.committedCount) - cursorAt seen - 1 else 0) = missed
  obtain ⟨upTo, h⟩ := drainSlots_spec hR hS hseen hnear capacity s.committedCount
    ⟨cursorAt seen, missed, []⟩ (by omega) (by omega)
  refine ⟨max (H.length - s.committedCount) seen, upTo, ?_, .inr (by omega), by omega, h.le, h.bound, le_rfl, ?_,
    ?_, h.room⟩
  · rw [h.cursor]
    split_ifs with hu
    · -- a page that begins empty has room: nothing examined means nothing new
      have hempty : (drainSlots s (cursorAt seen) capacity s.committedCount
          ⟨cursorAt seen, missed, []⟩).events.length = 0 := by
        rw [h.events, hu, stretch_self]
        rfl
      have hcap : capacity ≠ 0 := fun h0 => hnone (.inl h0)
      have hend := h.room (by omega)
      have : upTo = seen := by omega
      rw [this]
    · rfl
  · rw [h.events]
    rfl
  · intro h0 hl
    rw [h.lost] at hl
    change missed = 0 at hl
    by_contra hne
    obtain ⟨q, rfl⟩ : ∃ q, seen = q + 1 := ⟨seen - 1, by omega⟩
    have hq := hnear h0
    rw [cursorAt_succ, if_pos ⟨traceSequence_ne_zero q,
      (sequenceAfter_iff (by omega) (by omega)).2 (by omega)⟩] at hm
    exact between_ne_zero (by omega) (by omega) (hm.trans hl)

/-- The readings so far, each taking up where the one before it stopped, up to the last slot
examined. -/
inductive Answered (W : List (Option AstraEventDrained)) : List TraceReading → ℕ → Prop
  | none : Answered W [] 0
  | drain {readings : List TraceReading} {r : TraceReading} {seen start upTo : ℕ}
      (h : Answered W readings seen) (hr : Answers W seen start upTo r) (hpos : upTo ≠ 0) :
      Answered W (readings ++ [r]) upTo

theorem Answers.append
    {r : TraceReading} (h : Answers W seen start upTo r) (W' : List (Option AstraEventDrained)) :
    Answers (W ++ W') seen start upTo r where
  from_seen := h.from_seen
  le := h.le
  bound := h.bound
  written := by
    have := h.written
    rw [length_append]
    omega
  events := by rw [stretch_append (h.bound.trans h.written), h.events]
  lost := h.lost
  room := h.room

section

variable (h : Answered W readings seen)
include h

theorem Answered.append (W' : List (Option AstraEventDrained)) :
    Answered (W ++ W') readings seen := by
  induction h with
  | none => exact .none
  | drain _ hr hpos ih => exact .drain ih (hr.append W') hpos

theorem Answered.sublist : (readings.flatMap (·.events)).Sublist (W.take seen).reduceOption := by
  induction h with
  | none => simp
  | @drain readings r seen start upTo _ hr _ ih =>
    rw [flatMap_append, take_append_stretch W hr.le, reduceOption_append]
    refine List.Sublist.append ?_ ?_
    · rw [take_append_stretch W hr.from_seen, reduceOption_append]
      exact ih.trans (sublist_append_left _ _)
    · simp [hr.events]

theorem Answered.ne_zero (hne : readings ≠ []) : seen ≠ 0 := by
  cases h with
  | none => exact absurd rfl hne
  | drain _ _ hpos => exact hpos

end

theorem mem_stretch {W : List α} {w : α} (hw : W[p]? = some w)
    (h1 : start ≤ p) (h2 : p < upTo) : w ∈ stretch W start upTo := by
  apply mem_of_getElem? (i := p - start)
  rw [stretch, List.getElem?_drop, List.getElem?_take, Nat.add_sub_cancel' h1, if_pos h2, hw]

theorem Answered.covered (h : Answered W readings seen) {first : TraceReading} {later : List TraceReading}
    (hfirst : readings = first :: later) {d : AstraEventDrained}
    (hd : W[p]? = some (some d)) (hafter : first.slots ≤ p) (hp : p < seen) :
    ∃ r ∈ later, p < r.slots ∧ (d ∈ r.events ∨ r.lost ≠ 0) := by
  induction h generalizing later with
  | none => cases hfirst
  | @drain readings r seen start upTo h hr hpos ih =>
    have hb := hr.bound
    cases readings with
    | nil =>
      obtain ⟨rfl, rfl⟩ : r = first ∧ later = [] := by simpa [eq_comm] using hfirst
      omega
    | cons x rest =>
      obtain ⟨rfl, rfl⟩ : x = first ∧ rest ++ [r] = later := by simpa using hfirst
      rcases Nat.lt_or_ge p seen with hps | hps
      · obtain ⟨r', hr', hx⟩ := ih rfl hps
        exact ⟨r', mem_append_left _ hr', hx⟩
      refine ⟨r, mem_append_right _ (mem_singleton_self r), by omega, ?_⟩
      by_cases hl : r.lost = 0
      · have hstart := hr.lost (h.ne_zero (by simp)) hl
        rw [hr.events]
        exact .inl (reduceOption_mem_iff.2 (mem_stretch hd (by omega) hp))
      · exact .inr hl

/-- A user event's bytes do not look like a user record where its argument slot is read as one. -/
def TraceUserEvent.plain (e : TraceUserEvent) : Bool :=
  e.refused || e.arguments.half 4 != kernelTraceEventUser

/-- The first drain of a reader finds a slot and has room; a later one comes before half the
sequence space has been written since the slot its cursor names. -/
def TraceRun.prompt (r : TraceRun) : TraceCall → Prop
  | .kernel .. => True
  | .user e => e.plain = true
  | .drain capacity =>
    if r.readings = [] then 0 < capacity ∧ r.trace.committedCount ≠ 0
    else r.behind + 1 < 2 ^ 31

structure TraceRunSound (r : TraceRun) (H : List KernelTraceBody) (seen : ℕ) : Prop where
  ring : RingHolds r.trace H
  spells : Spells H r.written
  seen_le : seen ≤ H.length
  cursor : r.cursor = cursorAt seen
  behind : seen ≠ 0 → r.behind = H.length - seen
  started : r.readings = [] ↔ seen = 0
  answered : Answered r.written r.readings seen

theorem KernelTraceEvent.value_ne_user (event : KernelTraceEvent) :
    event.value ≠ kernelTraceEventUser := by
  cases event <;> decide

theorem TraceRunSound.wrote {r : TraceRun}
    (h : TraceRunSound r H seen) {bodies : List KernelTraceBody}
    {entries : List (Option AstraEventDrained)} (hs : RingHolds s (H ++ bodies))
    (he : Spells (H ++ bodies) (r.written ++ entries)) :
    TraceRunSound (r.wrote s entries) (H ++ bodies) seen where
  ring := hs
  spells := he
  seen_le := by
    have := h.seen_le
    rw [length_append]
    omega
  cursor := h.cursor
  behind h0 := by
    have h1 := h.behind h0
    have h2 := he.length
    have h3 := h.spells.length
    have h4 := h.seen_le
    show r.behind + entries.length = _
    rw [length_append, length_append] at *
    omega
  started := h.started
  answered := h.answered.append entries

theorem slotsSince_eq (h : p < n) (hn : n - p < 4294967295) :
    slotsSince (traceSequence n) (traceSequence p) = n - (p + 1) := by
  have h1 := toNat_traceSequence n
  have h2 := toNat_traceSequence p
  have hapart := mod_apart (Nat.le_of_lt h) hn
  unfold slotsSince
  split_ifs with hlt
  · have : (traceSequence p).toNat < (traceSequence n).toNat := hlt
    omega
  · have : ¬(traceSequence p).toNat < (traceSequence n).toNat := hlt
    omega

theorem cursorAt_inj {a b : ℕ} (h : cursorAt a = cursorAt b) (ha : a ≠ 0) (hab : a ≤ b)
    (hb : b - a < 4294967295) : a = b := by
  obtain ⟨p, rfl⟩ : ∃ p, a = p + 1 := ⟨a - 1, by omega⟩
  obtain ⟨q, rfl⟩ : ∃ q, b = q + 1 := ⟨b - 1, by omega⟩
  rw [cursorAt_succ, cursorAt_succ] at h
  have := congrArg BitVec.toNat h
  rw [toNat_traceSequence, toNat_traceSequence] at this
  have := mod_apart (p := q) (q := p) (by omega) (by omega)
  omega

theorem TraceRunSound.drain {r : TraceRun} {H : List KernelTraceBody} {seen : ℕ}
    (h : TraceRunSound r H seen) {capacity : ℕ} (hp : r.prompt (.drain capacity)) :
    ∃ seen', TraceRunSound (r.step (.drain capacity)) H seen' := by
  have hlen := h.spells.length
  have hle := h.seen_le
  have hnear : seen ≠ 0 → H.length < seen + 2147483647 := by
    intro h0
    have hb := h.behind h0
    rw [TraceRun.prompt, if_neg (fun hc => h0 (h.started.1 hc))] at hp
    omega
  obtain ⟨start, upTo, hcur, hstart, ha⟩ := kernelTraceDrainUser_spec h.ring h.spells hle hnear capacity
  rw [← h.cursor] at hcur ha
  have h1 := ha.from_seen
  have h2 := ha.le
  have h3 : upTo ≤ r.written.length := ha.bound
  have hpos : upTo ≠ 0 := by
    rcases Nat.eq_zero_or_pos seen with h0 | h0
    · intro hz
      rw [TraceRun.prompt, if_pos (h.started.2 h0)] at hp
      have hc := h.ring.committedCount
      have hroom : (stretch r.written start upTo).reduceOption.length < capacity := by
        have : start = 0 := by omega
        rw [this, hz, stretch_self]
        exact hp.1
      have hfull : upTo = r.written.length := by
        apply ha.room
        rw [ha.events]
        exact hroom
      omega
    · omega
  refine ⟨upTo, h.ring, h.spells, by omega, hcur, ?_, ?_, .drain h.answered ha hpos⟩
  · intro _
    dsimp only [TraceRun.step]
    split_ifs with hsame
    · have hz : seen ≠ 0 := by
        intro hz
        rw [hsame, h.cursor, cursorAt_eq_zero.2 hz] at hcur
        exact hpos (cursorAt_eq_zero.1 hcur.symm)
      have heq : seen = upTo := by
        apply cursorAt_inj _ hz (by omega)
        · have := hnear hz
          omega
        · rw [← hcur, hsame, h.cursor]
      rw [h.behind hz, heq]
    · obtain ⟨p, rfl⟩ : ∃ p, upTo = p + 1 := ⟨upTo - 1, by omega⟩
      rw [hcur, cursorAt_succ, h.ring.next]
      rcases Nat.eq_zero_or_pos seen with h0 | h0
      · exact slotsSince_eq (by omega) (by omega)
      · have := hnear (by omega)
        exact slotsSince_eq (by omega) (by omega)
  · simp [TraceRun.step, hpos]

theorem TraceRunSound.step {r : TraceRun} {H : List KernelTraceBody} {seen : ℕ}
    (h : TraceRunSound r H seen) {c : TraceCall} (hp : r.prompt c) :
    ∃ H' seen', TraceRunSound (r.step c) H' seen' := by
  cases c with
  | kernel event flags timestampHigh timestampLow argument0 argument1 argument2 argument3 =>
    refine ⟨H ++ [.record ⟨timestampHigh, timestampLow, event.value, flags, argument0, argument1,
      argument2, argument3⟩], seen, ?_⟩
    have hv : ¬r.trace.headerValid = false := by simp [h.ring.headerValid]
    simp only [TraceRun.step, kernelTraceWriteAt, if_neg hv, if_true]
    exact h.wrote (h.ring.writeSlot _) (h.spells.append event.value_ne_user)
  | user e =>
    simp only [TraceRun.step, kernelTraceWriteUser]
    by_cases hr : e.refused = true
    · rw [if_pos hr]
      exact ⟨H, seen, h⟩
    have hv : ¬r.trace.headerValid = false := by simp [h.ring.headerValid]
    rw [if_neg hr, if_neg hv]
    have hlen : e.payload.length ≤ kernelTraceArgumentBytes := by
      by_contra hl
      refine hr ?_
      simp only [TraceUserEvent.refused, decide_eq_true_eq]
      exact .inr (.inr (.inr (by omega)))
    have hplain : e.arguments.half 4 ≠ kernelTraceEventUser := by
      have he : e.plain = true := hp
      simpa [TraceUserEvent.plain, hr] using he
    have hs := h.spells.appendUser hlen hplain
    rw [← h.ring.next] at hs
    exact ⟨_, seen, h.wrote (h.ring.writeUser e) hs⟩
  | drain capacity =>
    obtain ⟨seen', h'⟩ := h.drain hp
    exact ⟨H, seen', h'⟩

theorem TraceRunSound.run {r : TraceRun} {H : List KernelTraceBody} {seen : ℕ}
    (h : TraceRunSound r H seen) : ∀ {calls : List TraceCall}, r.Along TraceRun.prompt calls →
      ∃ H' seen', TraceRunSound (r.run calls) H' seen'
  | [], _ => ⟨H, seen, h⟩
  | c :: calls, hc => by
    obtain ⟨H', seen', h'⟩ := h.step hc.1
    exact h'.run hc.2

theorem TraceRunSound.init : TraceRunSound (.init records) [] 0 where
  ring := .init records
  spells := .init
  seen_le := le_rfl
  cursor := rfl
  behind h := absurd rfl h
  started := iff_of_true rfl rfl
  answered := .none

/-- No event is returned twice, the pages are in write order with the payloads as written, and what
a later drain passes over without returning it is announced by the drain that does so. -/
theorem kernelTraceDrainUser_faithful (records : ℕ → KernelTraceSlot) (calls : List TraceCall)
    (hc : (TraceRun.init records).Along TraceRun.prompt calls) :
    ∃ seen, Answered ((TraceRun.init records).run calls).written
        ((TraceRun.init records).run calls).readings seen ∧
      (((TraceRun.init records).run calls).readings.flatMap (·.events)).Sublist
        ((TraceRun.init records).run calls).written.reduceOption ∧
      ∀ first later, ((TraceRun.init records).run calls).readings = first :: later →
        ∀ p d, ((TraceRun.init records).run calls).written[p]? = some (some d) →
          first.slots ≤ p → p < seen →
            ∃ r ∈ later, p < r.slots ∧ (d ∈ r.events ∨ r.lost ≠ 0) := by
  obtain ⟨H, seen, h⟩ := (TraceRunSound.init records).run hc
  refine ⟨seen, h.answered, ?_, fun first later hf p d hd => h.answered.covered hf hd⟩
  refine h.answered.sublist.trans ?_
  exact (take_sublist _ _).filterMap _

instance (r : TraceRun) (c : TraceCall) : Decidable (r.prompt c) :=
  match c with
  | .kernel .. => .isTrue trivial
  | .user e => inferInstanceAs (Decidable (e.plain = true))
  | .drain capacity => inferInstanceAs (Decidable (if r.readings = [] then
      0 < capacity ∧ r.trace.committedCount ≠ 0 else r.behind + 1 < 2 ^ 31))

def blankRecords (_ : ℕ) : KernelTraceSlot := ⟨0, .record ⟨0, 0, 0, 0, 0, 0, 0, 0⟩⟩

def greetingEvent : TraceUserEvent := ⟨0, 7, 3, 0x1234, 0, 1, 0, [72, 105]⟩

/-- A page of one event, which stops the drain at the event behind it. -/
theorem kernelTraceDrainUser_faithful_greeting :
    ∃ seen, Answered ((TraceRun.init blankRecords).run [.kernel .boot 0 0 0 0 0 0 0,
        .user greetingEvent, .user greetingEvent, .drain 1, .drain 1]).written
        ((TraceRun.init blankRecords).run [.kernel .boot 0 0 0 0 0 0 0,
          .user greetingEvent, .user greetingEvent, .drain 1, .drain 1]).readings seen :=
  (kernelTraceDrainUser_faithful blankRecords [.kernel .boot 0 0 0 0 0 0 0,
    .user greetingEvent, .user greetingEvent, .drain 1, .drain 1]
    ⟨by decide, by decide, by decide, by decide +kernel, by decide +kernel, trivial⟩).imp
      fun _ h => h.1

def disguisedEvent : TraceUserEvent :=
  ⟨0, 0, 3, 0x1234, 0, 1, 0,
    [0, 0, 0, 0, 0xe0, 0, 0, 0, 0, 0, 0, 9, 0, 0, 0, 1, 0, 0, 0, 0, 0, 0, 0, 0]⟩

/-- One event is written, and its argument slot is returned as a second one. -/
theorem kernelTraceDrainUser_forged :
    ¬∀ (records : ℕ → KernelTraceSlot) (calls : List TraceCall),
      (((TraceRun.init records).run calls).readings.flatMap (·.events)).Sublist
        ((TraceRun.init records).run calls).written.reduceOption := by
  intro h
  have hlen := (h blankRecords [.user disguisedEvent, .drain 8]).length_le
  revert hlen
  decide +kernel

end Astra
