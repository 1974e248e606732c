import AstraKernel.Proofs.LogRing

/-!
# Runs of a log ring

While the steps of a run are steady, the consumer gets the records in the order in which they were
reserved, as they were written (`LogRunSound`), and one that rests has heard a doorbell or has
before it only records of threads that have yet to look at the consumer's position.
-/

namespace Astra

open List

variable {s : LogState} {r : LogRing} {c : LogConsumer} {pc : LogWriter} {i : ℕ}

/-! ## What a run keeps -/

/-- Where the record starts that the thread has reserved and not yet rung for. -/
def LogWriter.due : LogWriter → Option ℕ
  | .counting _ first | .copying _ first _ _ | .committing _ first _ | .publishing first
  | .bounding first _ | .scanning first _ _ _ | .advancing first _ _ | .notifying first
  | .ringing first => some first
  | _ => none

/-- The thread has been refused, and has not been counted yet. -/
def LogWriter.refusing : LogWriter → Bool
  | .dropping | .counted _ => true
  | _ => false

def LogReader.Rests : LogReader → Prop
  | .settled | .asleep => True
  | _ => False

/-- The delivery is that of the record, with the number of drops that the writer has read. -/
def Delivers (w : LogWrite) (first : ℕ) (d : LogDelivery) : Prop :=
  (∃ dropped, d.fields = w.header first dropped) ∧ d.text = w.kept.take d.capacity

/-- The deliveries are those of the first records that were accepted. -/
def Delivered (accepted : List LogWrite) (delivered : List LogDelivery) : Prop :=
  ∀ (k : ℕ) (d : LogDelivery), delivered[k]? = some d →
    ∃ w, accepted[k]? = some w ∧ Delivers w (firstOf accepted k) d

def ReaderOk (r : LogRing) (c : LogConsumer) : Prop :=
  match c.reader with
  | .fields _ produced => c.position < produced ∧ produced ≤ r.producerPosition ∧ Boundary r produced
  | .text capacity f index copied => c.position < r.producerPosition ∧
      ∃ w dropped, r.accepted[c.delivered.length]? = some w ∧ f = w.header c.position dropped ∧
        index < w.slots ∧ copied = textBefore w capacity index
  | _ => True

def WakeDue (r : LogRing) (writers : List LogWriter) (position : ℕ) : Prop :=
  r.consumerPosition = position ∧ (position < r.reserved →
    ∃ (i : ℕ) (pc : LogWriter), writers[i]? = some pc ∧ pc.due = some position)

structure LogRunSound (s : LogState) : Prop where
  sound : LogSound s.ring s.writers s.consumer.position s.consumer.delivered.length
  delivered : Delivered s.ring.accepted s.consumer.delivered
  reader : ReaderOk s.ring s.consumer
  published : s.consumer.published = true → s.ring.consumerPosition = s.consumer.position
  wake : s.consumer.reader.Rests → s.bell = false → WakeDue s.ring s.writers s.consumer.position
  status : s.consumer.status ≠ astraLogReadCorrupt
  dropped_lt : s.dropped < 2 ^ 32
  counted : SameWord (s.dropped + s.writers.countP LogWriter.refusing) s.refused

/-! ## Steps of the threads -/

theorem countP_refusing_set {l : List LogWriter} (hi : l[i]? = some pc) (pc' : LogWriter) :
    (l.set i pc').countP LogWriter.refusing + (if pc.refusing then 1 else 0) =
      l.countP LogWriter.refusing + (if pc'.refusing then 1 else 0) := by
  obtain ⟨hlt, rfl⟩ := List.getElem?_eq_some_iff.1 hi
  have hpos : (if l[i].refusing then 1 else 0) ≤ l.countP LogWriter.refusing := by
    split_ifs with hr
    · exact countP_pos_iff.2 ⟨_, getElem_mem hlt, hr⟩
    · exact Nat.zero_le _
  rw [countP_set hlt]
  omega

structure WriterMoves (s : LogState) (pc : LogWriter) (next : LogState × LogWriter) : Prop where
  consumer : next.1.consumer = s.consumer
  consumerPosition : next.1.ring.consumerPosition = s.ring.consumerPosition
  bell : next.1.bell = false → s.bell = false
  accepted : s.ring.accepted <+: next.1.ring.accepted
  due : ∀ first, pc.due = some first → s.ring.consumerPosition = first → next.1.bell = false →
    next.2.due = some first
  reserved : next.1.ring.reserved ≠ s.ring.reserved → next.2.due = some s.ring.reserved
  dropped_lt : s.dropped < 2 ^ 32 → next.1.dropped < 2 ^ 32
  counted : ∀ m, SameWord (s.dropped + (m + if pc.refusing then 1 else 0)) s.refused →
    SameWord (next.1.dropped + (m + if next.2.refusing then 1 else 0)) next.1.refused

variable {a b : List LogWrite} {writers : List LogWriter} {w : LogWrite} {pc' : LogWriter} {p : ℕ}

theorem WriterMoves.keep {s' : LogState} (hconsumer : s'.consumer = s.consumer)
    (hposition : s'.ring.consumerPosition = s.ring.consumerPosition)
    (hbell : s'.bell = false → s.bell = false)
    (haccepted : s'.ring.accepted = s.ring.accepted ∧ s'.ring.reserved = s.ring.reserved)
    (hdue : ∀ first, pc.due = some first → s'.bell = false → pc'.due = some first)
    (hcounts : s'.dropped = s.dropped ∧ s'.refused = s.refused)
    (hrefusing : pc'.refusing = pc.refusing) : WriterMoves s pc (s', pc') := by
  refine ⟨hconsumer, hposition, hbell, by rw [haccepted.1], fun first hf _ hb => hdue first hf hb,
    fun hne => absurd haccepted.2 hne, fun hlt => by rw [hcounts.1]; exact hlt, fun m hm => ?_⟩
  rw [hcounts.1, hcounts.2, hrefusing]
  exact hm

theorem WriterMoves.load (hdue : ∀ first, pc.due = some first →
      s.ring.consumerPosition = first → pc'.due = some first)
    (hrefusing : pc'.refusing = pc.refusing) : WriterMoves s pc (s, pc') :=
  ⟨rfl, rfl, id, prefix_refl _, fun first hf hk _ => hdue first hf hk,
    fun hne => absurd rfl hne, id, fun m hm => by rw [hrefusing]; exact hm⟩

theorem writerMoves (hs : WriterSteady s.ring pc) (gone : Bool) :
    WriterMoves s pc (writerStep s gone pc) := by
  cases pc with
  | returned status => exact .load (fun _ hf _ => hf) rfl
  | started w =>
    dsimp only [writerStep]
    split_ifs <;> exact .load nofun rfl
  | room w => exact .load nofun rfl
  | reserving w consumer =>
    dsimp only [writerStep]
    split_ifs
    · refine ⟨rfl, rfl, id, prefix_refl _, nofun, fun hne => absurd rfl hne, id, ?_⟩
      intro m hm
      simp only [LogWriter.refusing, SameWord, if_true, Bool.false_eq_true, if_false] at hm ⊢
      omega
    · exact .load nofun rfl
  | claiming w first =>
    dsimp only [writerStep]
    split_ifs with hclaim
    · obtain rfl : s.ring.reserved = first := hs hclaim
      exact ⟨rfl, rfl, id, prefix_append _ _, nofun, fun _ => rfl, id, fun m hm => hm⟩
    · exact .load nofun rfl
  | counting w first => exact .load (fun _ hf _ => hf) rfl
  | copying w first dropped copied =>
    dsimp only [writerStep]
    split_ifs <;> exact .keep rfl rfl id ⟨rfl, rfl⟩ (fun _ hf _ => hf) ⟨rfl, rfl⟩ rfl
  | committing w first left =>
    dsimp only [writerStep]
    split_ifs <;> exact .keep rfl rfl id ⟨rfl, rfl⟩ (fun _ hf _ => hf) ⟨rfl, rfl⟩ rfl
  | publishing first => exact .load (fun _ hf _ => hf) rfl
  | bounding first start => exact .load (fun _ hf _ => hf) rfl
  | scanning first start reserved stop =>
    dsimp only [writerStep]
    split_ifs <;> exact .load (fun _ hf _ => hf) rfl
  | advancing first start stop =>
    dsimp only [writerStep]
    split_ifs
    · exact ⟨rfl, rfl, id, prefix_refl _, fun _ hf _ _ => hf, fun hne => absurd rfl hne, id,
        fun m hm => hm⟩
    · exact .load (fun _ hf _ => hf) rfl
  | notifying first =>
    dsimp only [writerStep]
    split_ifs with hsame
    · exact .load (fun _ hf _ => hf) rfl
    · refine .load (fun first' hf hk => absurd ?_ hsame) rfl
      rw [hk, Option.some.inj hf]
  | ringing first =>
    dsimp only [writerStep]
    split_ifs <;> exact .keep rfl rfl nofun ⟨rfl, rfl⟩ (fun _ _ => nofun) ⟨rfl, rfl⟩ rfl
  | burying dropping =>
    dsimp only [writerStep]
    split_ifs <;> exact .keep rfl rfl id ⟨rfl, rfl⟩ nofun ⟨rfl, rfl⟩ rfl
  | dropping => exact .load nofun rfl
  | counted seen =>
    dsimp only [writerStep]
    split_ifs with hseen hbell
    · refine ⟨rfl, rfl, id, prefix_refl _, nofun, fun hne => absurd rfl hne,
        fun _ => Nat.mod_lt _ (by omega), fun m hm => ?_⟩
      simp only [LogWriter.refusing, SameWord, if_true, Bool.false_eq_true, if_false] at hm ⊢
      omega
    · refine ⟨rfl, rfl, id, prefix_refl _, nofun, fun hne => absurd rfl hne,
        fun _ => Nat.mod_lt _ (by omega), fun m hm => ?_⟩
      simp only [LogWriter.refusing, SameWord, if_true, Bool.false_eq_true, if_false] at hm ⊢
      omega
    · exact .load nofun rfl
  | dropRinging =>
    dsimp only [writerStep]
    split_ifs <;> exact .keep rfl rfl nofun ⟨rfl, rfl⟩ nofun ⟨rfl, rfl⟩ rfl
  | checking => exact .load nofun rfl
  | probing length =>
    dsimp only [writerStep]
    split_ifs <;> exact .load nofun rfl
  | probeRoom slots => exact .load nofun rfl
  | probeCheck slots reserved =>
    dsimp only [writerStep]
    split_ifs
    · exact .load nofun rfl
    · refine ⟨rfl, rfl, id, prefix_refl _, nofun, fun hne => absurd rfl hne, id, ?_⟩
      intro m hm
      simp only [LogWriter.refusing, SameWord, if_true, Bool.false_eq_true, if_false] at hm ⊢
      omega

variable {position n : ℕ}

theorem writerStep_producer (h : LogSound s.ring s.writers position n) (hi : s.writers[i]? = some pc)
    (hs : WriterSteady s.ring pc) (gone : Bool) :
    s.ring.producerPosition ≤ (writerStep s gone pc).1.ring.producerPosition := by
  cases pc with
  | advancing first start stop =>
    dsimp only [writerStep]
    split_ifs with hsame
    · obtain ⟨rfl, -⟩ := hs hsame
      exact ((h.threads i _ hi).2 rfl).1.le
    · exact le_rfl
  | _ =>
    dsimp only [writerStep]
    first
    | exact le_rfl
    | split_ifs <;> exact le_rfl

theorem getElem?_of_accepted {k : ℕ} (h : a <+: b)
    (hk : a[k]? = some w) : b[k]? = some w ∧ firstOf b k = firstOf a k := by
  obtain ⟨more, rfl⟩ := h
  have hlt := (List.getElem?_eq_some_iff.1 hk).1
  exact ⟨(List.getElem?_append_left hlt).trans hk, firstOf_append hlt.le more⟩

theorem Delivered.grow {l : List LogDelivery} (h : Delivered a l)
    (hab : a <+: b) : Delivered b l := by
  intro k d hd
  obtain ⟨w, hw, hdelivers⟩ := h k d hd
  obtain ⟨hw', hfirst⟩ := getElem?_of_accepted hab hw
  exact ⟨w, hw', by rw [hfirst]; exact hdelivers⟩

theorem ReaderOk.grow {r' : LogRing} (h : ReaderOk r c) (ha : r.accepted <+: r'.accepted)
    (hp : r.producerPosition ≤ r'.producerPosition) : ReaderOk r' c := by
  unfold ReaderOk at h ⊢
  split at h
  · obtain ⟨h1, h2, k, hk, hproduced⟩ := h
    obtain ⟨more, hmore⟩ := ha
    refine ⟨h1, h2.trans hp, k, ?_, ?_⟩
    · rw [← hmore, length_append]
      exact Nat.le_add_right_of_le hk
    · rw [hproduced, ← hmore, firstOf_append hk]
  · obtain ⟨h1, w, dropped, hw, h2⟩ := h
    exact ⟨h1.trans_le hp, w, dropped, (getElem?_of_accepted ha hw).1, h2⟩
  · trivial

theorem LogRunSound.thread (h : LogRunSound s) (hi : s.writers[i]? = some pc)
    (hs : WriterSteady s.ring pc) (gone : Bool) :
    LogRunSound { (writerStep s gone pc).1 with
      writers := s.writers.set i (writerStep s gone pc).2 } := by
  have hsound := h.sound.step hi hs gone
  have hproducer := writerStep_producer h.sound hi hs gone
  have hmoves := writerMoves hs gone
  generalize writerStep s gone pc = next at hsound hproducer hmoves ⊢
  obtain ⟨s', pc'⟩ := next
  obtain ⟨hconsumer, hposition, hbell, haccepted, hdue, hreserved, hlt, hcounted⟩ := hmoves
  have hcount := countP_refusing_set hi pc'
  refine ⟨?_, ?_, ?_, ?_, ?_, ?_, hlt h.dropped_lt, ?_⟩
  · rw [hconsumer]
    exact hsound
  · rw [hconsumer]
    exact h.delivered.grow haccepted
  · rw [hconsumer]
    exact h.reader.grow haccepted hproducer
  · rw [hconsumer, hposition]
    exact h.published
  · intro hrests hquiet
    rw [hconsumer] at hrests ⊢
    obtain ⟨hk, hwake⟩ := h.wake hrests (hbell hquiet)
    refine ⟨hposition.trans hk, fun hbehind => ?_⟩
    by_cases hgrown : s'.ring.reserved = s.ring.reserved
    · rw [hgrown] at hbehind
      obtain ⟨j, q, hq, hqdue⟩ := hwake hbehind
      by_cases hj : j = i
      · subst hj
        cases hi.symm.trans hq
        exact ⟨j, pc', getElem?_set_same hi, hdue _ hqdue hk hquiet⟩
      · exact ⟨j, q, getElem?_set_other hq hj, hqdue⟩
    · by_cases hold : s.consumer.position < s.ring.reserved
      · obtain ⟨j, q, hq, hqdue⟩ := hwake hold
        by_cases hj : j = i
        · subst hj
          cases hi.symm.trans hq
          exact ⟨j, pc', getElem?_set_same hi, hdue _ hqdue hk hquiet⟩
        · exact ⟨j, q, getElem?_set_other hq hj, hqdue⟩
      · have hl := h.sound.layout
        have hall : s.ring.reserved = s.consumer.position := by
          have := hl.position_le
          have := hl.producer_le
          omega
        exact ⟨i, pc', getElem?_set_same hi, hall ▸ hreserved hgrown⟩
  · rw [hconsumer]
    exact h.status
  · obtain ⟨m, hm⟩ : ∃ m, s.writers.countP LogWriter.refusing =
        m + if pc.refusing then 1 else 0 := by
      refine ⟨s.writers.countP LogWriter.refusing - if pc.refusing then 1 else 0, ?_⟩
      obtain ⟨hlt, rfl⟩ := List.getElem?_eq_some_iff.1 hi
      split_ifs with hr
      · have := countP_pos_iff.2 ⟨_, getElem_mem hlt, hr⟩
        omega
      · omega
    have hcounted' := h.counted
    rw [hm] at hcounted' hcount
    have hnext := hcounted m hcounted'
    rwa [show (s.writers.set i pc').countP LogWriter.refusing =
      m + if pc'.refusing then 1 else 0 by omega]

theorem LogRunSound.call {status : ℕ} (h : LogRunSound s)
    (hi : s.writers[i]? = some (.returned status)) (hown : WriterOk s.ring pc')
    (hfills : pc'.fills = none) (hrefusing : pc'.refusing = false) :
    LogRunSound { s with writers := s.writers.set i pc' } := by
  have hcount := countP_refusing_set hi pc'
  rw [hrefusing] at hcount
  refine ⟨h.sound.load hi hown hfills fun _ _ => nofun, h.delivered, h.reader, h.published, ?_,
    h.status, h.dropped_lt, ?_⟩
  · intro hrests hquiet
    obtain ⟨hk, hwake⟩ := h.wake hrests hquiet
    refine ⟨hk, fun hbehind => ?_⟩
    obtain ⟨j, q, hq, hdue⟩ := hwake hbehind
    refine ⟨j, q, getElem?_set_other hq ?_, hdue⟩
    rintro rfl
    cases hi.symm.trans hq
    cases hdue
  · have hcounted := h.counted
    rwa [show (s.writers.set i pc').countP LogWriter.refusing =
      s.writers.countP LogWriter.refusing from hcount]

/-! ## Steps of the consumer -/

theorem boundary_after {b : ℕ} (hw : r.accepted[n]? = some w) (hb : Boundary r b)
    (hlt : firstOf r.accepted n < b) : firstOf r.accepted n + w.slots ≤ b := by
  obtain ⟨k, -, rfl⟩ := hb
  rw [← firstOf_succ hw]
  refine firstOf_mono _ ?_
  by_contra hk
  have := firstOf_mono r.accepted (show k ≤ n by omega)
  omega

section

variable (h : LogSound r writers position n)
include h

theorem LogSound.published (hlt : position < r.producerPosition) : ∃ w, r.accepted[n]? = some w ∧
      Filled r w position ∧ position + w.slots ≤ r.producerPosition := by
  have hl := h.layout
  have hn : n < r.accepted.length := by
    by_contra hn
    have := hl.delivered
    have := hl.producer_le
    have := hl.position_eq
    have := hl.reserved_eq
    obtain rfl : n = r.accepted.length := by omega
    omega
  have hw := List.getElem?_eq_getElem hn
  refine ⟨_, hw, ?_, ?_⟩
  · rw [hl.position_eq]
    refine (h.records n _ le_rfl hw).resolve_right ?_
    rintro ⟨i, pc, hi, hf⟩
    obtain ⟨left, hfilling⟩ := (h.threads i pc hi).filling hf
    have := hfilling.unpublished
    rw [← hl.position_eq] at this
    omega
  · rw [hl.position_eq] at hlt ⊢
    exact boundary_after hw hl.producer hlt

theorem LogSound.publish : LogSound { r with consumerPosition := position } writers position n := by
  have hl := h.layout
  have hroom := hl.room
  have hconsumer := hl.consumer_le
  refine ⟨⟨hl.delivered, hl.position_eq, hl.producer, hl.reserved_eq, le_rfl, hl.position_le,
    hl.producer_le, hroom.trans (Nat.add_le_add_right hconsumer 1024)⟩, h.stale, ?_, ?_, h.apart, h.watched⟩
  · intro k w hn hw
    exact (h.records k w hn hw).imp_left fun hfilled => ⟨hfilled.committed, hfilled.copied⟩
  · intro i pc hi
    have hok := h.threads i pc hi
    have hfilling : ∀ {w : LogWrite} {first left : ℕ}, Filling r w first left →
        Filling { r with consumerPosition := position } w first left := fun hf =>
      hf.of_eq rfl rfl rfl
    cases pc with
    | reserving w consumer => exact le_trans hok hconsumer
    | claiming w first => exact le_trans hok (Nat.add_le_add_right hconsumer 1024)
    | counting w first => exact hfilling hok
    | copying w first dropped copied => exact ⟨hfilling hok.1, hok.2⟩
    | committing w first left => exact ⟨hfilling hok.1, hok.2⟩
    | _ => exact hok

theorem LogSound.deliver (hw : r.accepted[n]? = some w)
    (hfilled : Filled r w position) (hle : position + w.slots ≤ r.producerPosition) :
    LogSound r writers (position + w.slots) (n + 1) := by
  have hl := h.layout
  refine ⟨⟨(List.getElem?_eq_some_iff.1 hw).1, ?_, hl.producer, hl.reserved_eq,
    hl.consumer_le.trans (Nat.le_add_right _ _), hle, hl.producer_le, hl.room⟩, ?_, ?_, h.threads,
    h.apart, h.watched⟩
  · rw [firstOf_succ hw, hl.position_eq]
  · intro p hp hp'
    by_cases hold : p < position + 1024
    · exact h.stale p hp hold
    · have hcommitted := hfilled.committed (p - 1024) (by omega) (by omega)
      unfold SlotStale
      rw [if_neg (by omega), show p % 1024 = (p - 1024) % 1024 by omega, hcommitted]
      omega
  · exact fun k w' hn hw' => h.records k w' (by omega) hw'

end

section

variable (h : LogRunSound s)
include h

theorem LogRunSound.next (capacity : ℕ) :
    LogRunSound { s with consumer := consumerNext s.ring s.consumer capacity } := by
  have hl := h.sound.layout
  have hlap := h.sound.lap
  rw [← hl.reserved_eq] at hlap
  have hposition := hl.position_le
  have hproducer := hl.producer_le
  have hsub : wordSub s.ring.producerPosition s.consumer.position ≤ 1024 := by
    unfold wordSub
    omega
  unfold consumerNext
  rw [if_neg (not_lt.2 hsub)]
  split
  · rename_i hempty
    have hend : s.ring.producerPosition = s.consumer.position := by
      have : s.ring.producerPosition % 2 ^ 32 = s.consumer.position % 2 ^ 32 := hempty
      omega
    refine ⟨h.sound, h.delivered, ?_, h.published, ?_, by show astraLogReadEmpty ≠ _; decide,
      h.dropped_lt, h.counted⟩
    · unfold ReaderOk
      cases s.consumer.published <;> exact trivial
    · intro hrests _
      have hpublished : s.consumer.published = true := by
        by_contra hp
        rw [Bool.not_eq_true] at hp
        rw [hp] at hrests
        exact hrests
      refine ⟨h.published hpublished, fun hbehind => ?_⟩
      -- The record is being filled, or its writer has still to publish it.
      have hbehind' := hbehind
      rw [hl.position_eq, hl.reserved_eq] at hbehind'
      have hn : s.consumer.delivered.length < s.ring.accepted.length := by
        by_contra hn
        have := firstOf_mono s.ring.accepted (not_lt.1 hn)
        omega
      have hw := List.getElem?_eq_getElem hn
      rcases h.sound.records _ _ le_rfl hw with hfilled | ⟨j, q, hq, hf⟩
      · rw [← hl.position_eq] at hfilled
        have hcommitted := hfilled.committed _ le_rfl (Nat.lt_add_of_pos_right (LogWrite.slots_pos _))
        rw [← hend] at hcommitted hbehind
        obtain ⟨j, q, hq, hwatches⟩ := h.sound.watched hbehind hcommitted
        refine ⟨j, q, hq, ?_⟩
        rw [hend] at hwatches
        cases q with
        | publishing first => exact congrArg some hwatches
        | bounding first start => exact congrArg some hwatches.1
        | scanning first start reserved stop => exact congrArg some hwatches.1
        | advancing first start stop => exact congrArg some hwatches.1
        | _ => exact hwatches.elim
      · rw [← hl.position_eq] at hf
        refine ⟨j, q, hq, ?_⟩
        cases q with
        | counting w first => exact congrArg some (Prod.mk.inj (Option.some.inj hf)).2
        | copying w first dropped copied =>
          exact congrArg some (Prod.mk.inj (Option.some.inj hf)).2
        | committing w first left => exact congrArg some (Prod.mk.inj (Option.some.inj hf)).2
        | _ => cases hf
  · rename_i hempty
    refine ⟨h.sound, h.delivered, ⟨?_, le_rfl, hl.producer⟩, h.published, nofun, h.status,
      h.dropped_lt, h.counted⟩
    have hne : s.ring.producerPosition ≠ s.consumer.position := fun he => hempty (by rw [he])
    show s.consumer.position < s.ring.producerPosition
    omega

theorem LogRunSound.read : LogRunSound { s with consumer := consumerStep s.ring s.consumer } := by
  have hl := h.sound.layout
  have hlap := h.sound.lap
  rw [← hl.reserved_eq] at hlap
  have hproducer := hl.producer_le
  have hreader := h.reader
  unfold ReaderOk at hreader
  unfold consumerStep
  cases hr : s.consumer.reader with
  | fields capacity produced =>
    rw [hr] at hreader
    obtain ⟨hlt, hle, hboundary⟩ := hreader
    obtain ⟨w, hw, hfilled, hend⟩ := h.sound.published (hlt.trans_le hle)
    obtain ⟨dropped, hcopied⟩ := hfilled.copied
    have hslots : w.slots ≤ wordSub produced s.consumer.position := by
      rw [hl.position_eq] at hlt
      have := boundary_after hw hboundary hlt
      rw [← hl.position_eq] at this
      unfold wordSub
      omega
    dsimp only
    rw [hcopied.header, recordValid_header, decide_eq_true hslots, if_pos rfl]
    exact ⟨h.sound, h.delivered, ⟨hlt.trans_le hle, w, dropped, hw, rfl, w.slots_pos,
      by simp [textBefore, textStart_eq]⟩, h.published, fun hrests => hrests.elim, h.status,
      h.dropped_lt, h.counted⟩
  | text capacity f index copied =>
    rw [hr] at hreader
    obtain ⟨hlt, w, dropped, hw, rfl, hindex, rfl⟩ := hreader
    obtain ⟨w', hw', hfilled, hend⟩ := h.sound.published hlt
    cases hw.symm.trans hw'
    obtain ⟨dropped', hcopied⟩ := hfilled.copied
    have htext := hcopied.text hindex capacity
    dsimp only
    rw [header_textLength, header_slots, htext]
    split
    · rename_i hmore
      exact ⟨h.sound, h.delivered, ⟨hlt, w, dropped, hw, rfl, hmore, rfl⟩, h.published,
        fun hrests => hrests.elim, h.status, h.dropped_lt, h.counted⟩
    · obtain hlast : index + 1 = w.slots := by omega
      rw [hlast, textBefore_slots]
      refine ⟨?_, ?_, trivial, fun hp => Bool.noConfusion hp, fun hrests => hrests.elim,
        by show astraLogReadOk ≠ _; decide, h.dropped_lt, h.counted⟩
      · rw [length_append, length_singleton]
        exact h.sound.deliver hw hfilled hend
      · intro k d hd
        by_cases hk : k < s.consumer.delivered.length
        · exact h.delivered k d ((List.getElem?_append_left hk).symm.trans hd)
        · have hlen := (List.getElem?_eq_some_iff.1 hd).1
          rw [length_append, length_singleton] at hlen
          obtain rfl : k = s.consumer.delivered.length := by omega
          rw [List.getElem?_concat_length] at hd
          cases hd
          refine ⟨w, hw, ⟨dropped, ?_⟩, rfl⟩
          rw [← hl.position_eq]
  | _ => exact h

theorem LogRunSound.publish : LogRunSound { s with
      ring := { s.ring with consumerPosition := s.consumer.position }
      consumer := { s.consumer with published := true, reader := .running } } :=
  ⟨h.sound.publish, h.delivered, trivial, fun _ => rfl, nofun, h.status, h.dropped_lt, h.counted⟩

theorem LogRunSound.turn {reader : LogReader} {bell : Bool}
    (hreader : ReaderOk s.ring { s.consumer with reader := reader })
    (hrests : reader.Rests → s.consumer.reader.Rests ∧ bell = s.bell) :
    LogRunSound { s with bell := bell, consumer := { s.consumer with reader := reader } } := by
  refine ⟨h.sound, h.delivered, hreader, h.published, fun hr hquiet => ?_, h.status, h.dropped_lt,
    h.counted⟩
  obtain ⟨hold, rfl⟩ := hrests hr
  exact h.wake hold hquiet

/-! ## Runs -/

def StepSteady (s : LogState) : LogStep → Prop
  | .thread i _ => match s.writers[i]? with
    | some pc => WriterSteady s.ring pc
    | none => True
  | _ => True

/-- Every step of the run is steady in the state it starts from. -/
def RunSteady : LogState → List LogStep → Prop
  | _, [] => True
  | s, step :: steps => StepSteady s step ∧ RunSteady (logStep s step) steps

instance (r : LogRing) (pc : LogWriter) : Decidable (WriterSteady r pc) := by
  cases pc <;> unfold WriterSteady <;> infer_instance

instance (s : LogState) (step : LogStep) : Decidable (StepSteady s step) := by
  unfold StepSteady
  split <;> first | infer_instance | (split <;> infer_instance)

instance decidableRunSteady : ∀ (s : LogState) (steps : List LogStep), Decidable (RunSteady s steps)
  | _, [] => .isTrue trivial
  | s, step :: steps =>
    have := decidableRunSteady (logStep s step) steps
    inferInstanceAs (Decidable (_ ∧ _))

theorem logStep_sound {step : LogStep} (hs : StepSteady s step) : LogRunSound (logStep s step) := by
  cases step with
  | write i w =>
    dsimp only [logStep]
    split
    · next status hi => exact h.call hi trivial rfl rfl
    · exact h
  | probe i length =>
    dsimp only [logStep]
    split
    · next status hi => exact h.call hi trivial rfl rfl
    · exact h
  | thread i gone =>
    dsimp only [logStep]
    dsimp only [StepSteady] at hs
    split
    · next pc hi =>
      rw [hi] at hs
      exact h.thread hi hs gone
    · exact h
  | next capacity =>
    dsimp only [logStep]
    split
    · exact h.next capacity
    · exact h.next capacity
    · exact h
  | read => exact h.read
  | publish =>
    dsimp only [logStep]
    split
    · exact h.publish
    · exact h.publish
    · exact h
  | sleep =>
    dsimp only [logStep]
    split
    · next hr => exact h.turn trivial fun _ => ⟨by rw [hr]; trivial, rfl⟩
    · exact h
  | hear =>
    dsimp only [logStep]
    split
    · split_ifs
      · exact h.turn trivial fun hrests => hrests.elim
      · exact h
    · split_ifs
      · exact h.turn trivial fun hrests => hrests.elim
      · exact h
    · split_ifs
      · exact h.turn trivial fun hrests => hrests.elim
      · exact h
    · exact h

end

theorem start_sound (threads : ℕ) : LogRunSound (.start threads) := by
  have hreturned : ∀ {i : ℕ} {pc : LogWriter}, (LogState.start threads).writers[i]? = some pc →
      pc = .returned astraLogWriteOk := by
    intro i pc hi
    exact (mem_replicate.1 (mem_of_getElem? hi)).2
  refine ⟨⟨⟨le_rfl, rfl, ⟨0, le_rfl, rfl⟩, rfl, le_rfl, le_rfl, le_rfl, Nat.zero_le _⟩, ?_, nofun,
    ?_, ?_, ?_⟩, nofun, trivial, nofun, nofun, by show astraLogReadEmpty ≠ _; decide,
    Nat.two_pow_pos 32, ?_⟩
  · intro p _ hp
    exact (if_pos (by simpa [LogState.start] using hp)).symm
  · intro i pc hi
    rw [hreturned hi]
    trivial
  · intro i j pc pc' w w' first hi _ hf
    rw [hreturned hi] at hf
    cases hf
  · exact fun hlt => absurd hlt (lt_irrefl _)
  · show SameWord (0 + (LogState.start threads).writers.countP LogWriter.refusing) 0
    rw [countP_eq_zero.2]
    intro pc hpc
    obtain ⟨i, hi⟩ := mem_iff_getElem?.1 hpc
    rw [hreturned hi]
    decide

theorem logRun_sound : ∀ {steps : List LogStep} {s : LogState}, LogRunSound s → RunSteady s steps →
    LogRunSound (logRun s steps)
  | [], _, h, _ => h
  | step :: _, s, h, hs => logRun_sound (s := logStep s step) (logStep_sound h hs.1) hs.2

/-- No thread is in a call. -/
def LogState.Idle (s : LogState) : Prop :=
  ∀ (i : ℕ) (pc : LogWriter), s.writers[i]? = some pc → ∃ status, pc = .returned status

theorem LogSound.record_at (h : LogSound r writers position n)
    (hp : position ≤ p) (hp' : p < r.reserved) : ∃ k w, n ≤ k ∧ r.accepted[k]? = some w ∧
      firstOf r.accepted k ≤ p ∧ p < firstOf r.accepted k + w.slots := by
  rw [h.layout.reserved_eq] at hp'
  obtain ⟨k, w, hk, hle, hlt⟩ := exists_record hp'
  refine ⟨k, w, ?_, hk, hle, hlt⟩
  by_contra hn
  have := firstOf_mono r.accepted (show k + 1 ≤ n by omega)
  rw [firstOf_succ hk, ← h.layout.position_eq] at this
  omega

theorem LogSound.committed_before
    (h : LogSound r writers position n) (hp : position ≤ p) (hp' : p < r.producerPosition) :
    SlotCommitted r p := by
  obtain ⟨k, w, hn, hk, hle, hlt⟩ := h.record_at hp (hp'.trans_le h.layout.producer_le)
  rcases h.records k w hn hk with hfilled | ⟨i, pc, hi, hf⟩
  · exact hfilled.committed p hle hlt
  · obtain ⟨left, hfilling⟩ := (h.threads i pc hi).filling hf
    exact absurd hfilling.unpublished (not_le.2 (hle.trans_lt hp'))

theorem LogSound.idle (h : LogSound s.ring s.writers position n) (hidle : s.Idle) :
    s.ring.producerPosition = s.ring.reserved := by
  have hl := h.layout
  by_contra hne
  have hlt := lt_of_le_of_ne hl.producer_le hne
  obtain ⟨k, w, hn, hk, hle, hin⟩ := h.record_at hl.position_le hlt
  rcases h.records k w hn hk with hfilled | ⟨i, pc, hi, hf⟩
  · obtain ⟨i, pc, hi, hwatches⟩ := h.watched hlt (hfilled.committed _ hle hin)
    obtain ⟨status, rfl⟩ := hidle i pc hi
    exact hwatches
  · obtain ⟨status, rfl⟩ := hidle i pc hi
    cases hf

/-- The records are delivered in the order of their reservations, each once and as it was written;
refusals are counted; a consumer that sleeps unheard has no record before it but one whose thread
has still to ring. -/
theorem log_ring_delivers (threads : ℕ) (steps : List LogStep)
    (h : RunSteady (.start threads) steps) :
    let s := logRun (.start threads) steps
    Delivered s.ring.accepted s.consumer.delivered ∧
      s.consumer.delivered.length ≤ s.ring.accepted.length ∧
      (s.consumer.position = s.ring.reserved →
        s.consumer.delivered.length = s.ring.accepted.length) ∧
      s.consumer.status ≠ astraLogReadCorrupt ∧
      (∀ p, s.consumer.position ≤ p → p < s.ring.producerPosition → s.ring.committed p = true) ∧
      SameWord (s.dropped + s.writers.countP LogWriter.refusing) s.refused ∧
      (s.consumer.reader.Rests → s.bell = false → s.consumer.position < s.ring.reserved →
        ∃ (i : ℕ) (pc : LogWriter), s.writers[i]? = some pc ∧ pc.due = some s.consumer.position) ∧
      (s.Idle → s.ring.producerPosition = s.ring.reserved ∧
        (s.consumer.reader.Rests → s.bell = false →
          s.consumer.delivered.length = s.ring.accepted.length)) := by
  intro s
  have hsound := logRun_sound (start_sound threads) h
  have hl := hsound.sound.layout
  have hall : s.consumer.position = s.ring.reserved →
      s.consumer.delivered.length = s.ring.accepted.length := by
    intro he
    refine firstOf_inj hl.delivered le_rfl ?_
    rw [← hl.position_eq, ← hl.reserved_eq]
    exact he
  refine ⟨hsound.delivered, hl.delivered, hall, hsound.status,
    fun p hp hp' => (hsound.sound.committed_before hp hp').committed, hsound.counted,
    fun hr hb => (hsound.wake hr hb).2,
    fun hidle => ⟨hsound.sound.idle hidle, fun hr hb => hall ?_⟩⟩
  · by_contra hne
    have hlt : s.consumer.position < s.ring.reserved :=
      lt_of_le_of_ne (hl.position_le.trans hl.producer_le) hne
    obtain ⟨i, pc, hi, hdue⟩ := (hsound.wake hr hb).2 hlt
    obtain ⟨status, rfl⟩ := hidle i pc hi
    cases hdue

/-- `hi`, written at the level of a notice. -/
def greetingLine : LogWrite where
  fields := ⟨0, 0, 0, 0, 0, 0, 0, 0, 0, 2, 0, 0, 0, 0⟩
  text := [104, 105]
  level_le := by decide
  stream_le := by decide

def threadSteps (thread count : ℕ) : List LogStep := List.replicate count (.thread thread false)

/-- Two threads write a line each, the one while the other fills its slot; the consumer gets both. -/
theorem log_ring_delivers_two :
    let s := logRun (.start 2) ([.write 0 greetingLine, .write 1 greetingLine] ++ threadSteps 0 6 ++
      threadSteps 1 13 ++ threadSteps 0 14 ++ [.next 2, .read, .read, .next 2, .read, .read])
    Delivered s.ring.accepted s.consumer.delivered ∧ s.consumer.delivered.length = 2 :=
  ⟨(log_ring_delivers 2 _ (by decide +kernel)).1, by decide +kernel⟩

/-! ## A doorbell that is not rung -/

section Lost

/-- The thread 2 publishes the record of the thread 1, but with a view of what is reserved from
before the thread 0 had its record; the consumer goes to sleep in front of that one. -/
def lostSteps : List LogStep :=
  [.write 2 greetingLine] ++ threadSteps 2 8 ++ [.write 1 greetingLine] ++ threadSteps 1 7 ++
    threadSteps 2 7 ++ [.write 0 greetingLine] ++ threadSteps 0 13 ++ threadSteps 1 1 ++
    threadSteps 2 3 ++ [.next 2, .read, .read, .next 2, .read, .read, .publish, .next 2, .sleep] ++
    threadSteps 2 9 ++ threadSteps 1 6

def LogWriter.isReturned : LogWriter → Bool
  | .returned _ => true
  | _ => false

def LogReader.isAsleep : LogReader → Bool
  | .asleep => true
  | _ => false

/-- Every thread has returned, a record is published, and the consumer sleeps in front of it with no
doorbell rung. -/
theorem doorbell_lost :
    let s := logRun (.start 3) lostSteps
    s.writers.all LogWriter.isReturned = true ∧ s.consumer.reader.isAsleep = true ∧
      s.bell = false ∧ s.consumer.position = 2 ∧ s.ring.producerPosition = 3 ∧
      s.consumer.delivered.length = 2 ∧ s.ring.accepted.length = 3 := by
  decide +kernel

end Lost

end Astra