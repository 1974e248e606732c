import AstraKernel.Proofs.InputRuns

/-!
# Input loss is announced

What is proved of each call, over a whole run; and what a tick does for a client that takes events
again.
-/

namespace Astra

open List

namespace AstraInputService

variable {s s' : AstraInputService} {i j : Fin astraInputClientMax}

/-! ## A tick, for one client -/

variable {f : AstraInputService → Fin astraInputClientMax → AstraInputService}
  {l : List (Fin astraInputClientMax)}

theorem foldl_client_of_forall_ne
    (hother : ∀ s' k, k ≠ i → (f s' k).client i = s'.client i)
    (hl : ∀ k ∈ l, k ≠ i) : (l.foldl f s).client i = s.client i := by
  induction l generalizing s with
  | nil => rfl
  | cons k l ih =>
    rw [foldl_cons, ih fun k hk => hl k (mem_cons_of_mem _ hk)]
    exact hother s k (hl k mem_cons_self)

theorem foldl_client (htold : ∀ s' k, Named s' → Told s' (f s' k))
    (hother : ∀ s' k, k ≠ i → (f s' k).client i = s'.client i) (hs : Named s)
    (hnodup : l.Nodup) (hi : i ∈ l) :
    ∃ s', Told s s' ∧ s'.client i = s.client i ∧
      (l.foldl f s).client i = (f s' i).client i := by
  induction l generalizing s with
  | nil => simp at hi
  | cons k l ih =>
    obtain ⟨hk, hnodup⟩ := nodup_cons.mp hnodup
    by_cases hki : k = i
    · subst hki
      refine ⟨s, .refl s, rfl, ?_⟩
      exact foldl_client_of_forall_ne hother fun j hj hjk => hk (hjk ▸ hj)
    · have hstep := htold s k hs
      obtain ⟨s', hs', hclient, hfold⟩ := ih (hstep.named hs) hnodup
        ((mem_cons.mp hi).resolve_left fun h => hki h.symm)
      exact ⟨s', hstep.trans hs', hclient.trans (hother s k hki), hfold⟩

variable (t : ℕ)

theorem tickReset_other (hji : j ≠ i) : (tickReset t s i).client j = s.client j := by
  unfold tickReset
  split
  · dsimp only
    split
    · rw [client_modifyClient_of_ne hji, rawDeliver_other hji, client_makeEvent]
    · rw [rawDeliver_other hji, client_makeEvent]
  · rfl

theorem tickMotion_other (hji : j ≠ i) : (tickMotion t s i).client j = s.client j := by
  have hmade : (s.motionEvent 0 t).1.client j = s.client j := rfl
  unfold tickMotion
  split
  · dsimp only
    split
    · rw [client_modifyClient_of_ne hji, deliver_other hji, hmade]
    · rw [deliver_other hji, hmade]
  · rfl

structure TakesMotion (c : AstraInputClient) : Prop where
  active : c.active = true
  pending : c.motionPending = true
  mark : c.desynchronized = false
  takes : c.deliver c.offered.length = .ok

theorem tickReset_takes (hactive : (s.client i).active = true)
    (hpending : (s.client i).motionPending = true)
    (htakes : (s.client i).deliver (s.client i).offered.length = .ok)
    (htakes' : (s.client i).deliver ((s.client i).offered.length + 1) = .ok) :
    TakesMotion ((tickReset t s i).client i) := by
  unfold tickReset
  split
  · dsimp only
    have hclient : (s.makeEvent .stateReset
      (astraInputLogicalSynthetic ||| astraInputLogicalLoss) t).1.client i = s.client i := rfl
    generalize s.makeEvent .stateReset
      (astraInputLogicalSynthetic ||| astraInputLogicalLoss) t = made at *
    have hok : (made.1.rawDeliver i made.2).2 = .ok := by rw [rawDeliver_result, hclient, htakes]
    rw [if_pos hok, client_modifyClient, rawDeliver_self, hclient, hok]
    exact ⟨by simp [hactive], hpending, rfl, htakes'⟩
  · next hmark =>
    exact ⟨hactive, hpending, by simpa [hactive] using hmark, htakes⟩

theorem tickMotion_offered (h : TakesMotion (s.client i)) : ((tickMotion t s i).client i).offered =
      ((s.motionEvent 0 t).2, .ok) :: (s.client i).offered := by
  have hclient : (s.motionEvent 0 t).1.client i = s.client i := rfl
  unfold tickMotion
  rw [if_pos ⟨h.active, h.pending⟩]
  dsimp only
  generalize s.motionEvent 0 t = made at *
  have hdirect : made.1.deliver i made.2 = made.1.rawDeliver i made.2 := by
    unfold deliver
    rw [hclient, if_neg (by simp [h.active]), if_neg (by simp [h.mark])]
  have hok : (made.1.rawDeliver i made.2).2 = .ok := by rw [rawDeliver_result, hclient, h.takes]
  rw [hdirect, if_pos hok, client_modifyClient, rawDeliver_self, hclient, hok]

theorem tickLoop_takes (hs : Named s) (t : ℕ)
    (hnodup : l.Nodup) (hi : i ∈ l) (hactive : (s.client i).active = true)
    (hpending : (s.client i).motionPending = true)
    (htakes : (s.client i).deliver (s.client i).offered.length = .ok)
    (htakes' : (s.client i).deliver ((s.client i).offered.length + 1) = .ok) :
    TakesMotion ((l.foldl (tickReset t) s).client i) := by
  obtain ⟨s', -, hclient, hfold⟩ := foldl_client (fun _ _ hs => tickReset_told hs t)
    (fun _ _ hk => tickReset_other t hk.symm) hs hnodup hi
  rw [hfold]
  rw [← hclient] at hactive hpending htakes htakes'
  exact tickReset_takes t hactive hpending htakes htakes'

theorem tickLoop_offered (hs : Named s) (t : ℕ)
    (hnodup : l.Nodup) (hi : i ∈ l) (h : TakesMotion (s.client i)) :
    ∃ motion, ((l.foldl (tickMotion t) s).client i).offered =
      (motion, .ok) :: (s.client i).offered ∧
      motion.type = .pointerMotion ∧ motion.motionPlace = s.motionPlace := by
  obtain ⟨s', hs', hclient, hfold⟩ := foldl_client (fun _ _ hs => tickMotion_told hs t)
    (fun _ _ hk => tickMotion_other t hk.symm) hs hnodup hi
  rw [← hclient] at h
  refine ⟨(s'.motionEvent 0 t).2, ?_, rfl, hs'.seat.place⟩
  rw [hfold, tickMotion_offered t h, hclient]

theorem tickRepeat_grows (h : Rested s) (t : ℕ) :
    (s.client i).offered <:+ ((s.tickRepeat t).client i).offered ∧
      (s.tickRepeat t).motionPlace = s.motionPlace := by
  have htold := emitKey_told h.1.named s.repeatUsage true true t
  unfold tickRepeat
  split
  · exact ⟨(htold.client i).grows, htold.seat.place⟩
  · exact ⟨suffix_rfl, rfl⟩

theorem tick_tells_motion (h : Rested s) (t : ℕ) (hactive : (s.client i).active = true)
    (hpending : (s.client i).motionPending = true)
    (htakes : (s.client i).deliver (s.client i).offered.length = .ok)
    (htakes' : (s.client i).deliver ((s.client i).offered.length + 1) = .ok) :
    ∃ newer motion, ((s.tick t).client i).offered = newer ++ (s.client i).offered ∧
      (motion, .ok) ∈ newer ∧ motion.type = .pointerMotion ∧
      motion.motionPlace = (s.tick t).motionPlace := by
  have hfin := nodup_finRange astraInputClientMax
  have hi := mem_finRange i
  have hreset : Told s ((List.finRange astraInputClientMax).foldl (tickReset t) s) :=
    .foldl (fun _ hs' _ _ => tickReset_told hs' t) h.1.named _
  have hready := tickLoop_takes h.1.named t hfin hi hactive hpending htakes htakes'
  obtain ⟨motion, hoffered, htype, hplace⟩ := tickLoop_offered (hreset.named h.1.named) t hfin hi
    hready
  have hloops := h.of_told (tickLoops_told h.1.named t)
  have hsame := (tickLoops_told h.1.named t).seat.place
  have hrepeat := tickRepeat_grows (i := i) hloops t
  obtain ⟨older, holder⟩ := (hreset.client i).grows
  obtain ⟨newer, hnewer⟩ := hrepeat.1
  refine ⟨newer ++ (motion, .ok) :: older, motion, ?_, ?_, htype, ?_⟩
  · rw [tick, ← hnewer, hoffered, ← holder, append_assoc, cons_append]
  · exact mem_append_right _ mem_cons_self
  · exact (hplace.trans hreset.seat.place).trans (hrepeat.2.trans hsame).symm

/-! ## Runs -/

/-- No snapshot is refused, and no client dies of an ordinary key that goes down. -/
def CallSpared (s : AstraInputService) : InputCall → Prop
  | .subscribe clientId subscriptions t => SnapshotSpared s clientId subscriptions t
  | .ingest event physicalOverflow => IngestSpared s event physicalOverflow
  | .ingestBatch events physicalOverflow => BatchSpared events physicalOverflow none s
  | _ => True

inductive InputRun : AstraInputService → Prop
  | init (config : AstraInputServiceConfig) {start : AstraInputService}
      (hinit : init config = some start) : InputRun start
  | call {before : AstraInputService} (hrun : InputRun before) (c : InputCall)
      (hspared : CallSpared before c) : InputRun (before.call c)

theorem InputRun.rested (h : InputRun s) : Rested s := by
  induction h with
  | init config hinit => exact init_rested hinit
  | call _ c hspared ih =>
    cases c with
    | attach clientId delivery => exact attach_rested ih clientId delivery
    | subscribe clientId subscriptions t =>
      exact subscribe_rested ih clientId subscriptions t hspared
    | detach clientId => exact detach_rested ih clientId
    | setFocus clientId t => exact setFocus_rested ih clientId t
    | pointerControl control t => exact pointerControl_rested ih control t
    | ingest event physicalOverflow =>
      have hone := ingestOne_sound ih.1 event physicalOverflow true hspared
      exact ⟨hone.1, hone.2 rfl ih.2⟩
    | ingestBatch events physicalOverflow => exact ingestLoop_rested ih.1 (fun _ => ih.2) hspared
    | tick t => exact tick_rested ih t

/-- What is promised of a state of the service, over the history of each client. -/
structure LossAnnounced (s : AstraInputService) : Prop where
  /-- What is accepted first after a refusal is the reset that tells of the loss. -/
  loss : ∀ i newer accepted between refused older,
    (s.client i).offered = newer ++ (accepted, .ok) :: (between ++ (refused, .full) :: older) →
      refused.type ≠ .pointerMotion → (∀ p ∈ between, p.2 ≠ .ok) → LossReset accepted
  /-- A motion that is refused is pending until one is accepted. -/
  motion : ∀ i newer refused older, (s.client i).offered = newer ++ (refused, .full) :: older →
    refused.type = .pointerMotion → (∀ p ∈ newer, p.2 = .ok → p.1.type ≠ .pointerMotion) →
      (s.client i).motionPending = true
  /-- Without one pending, the motion that was accepted last tells where the pointer is. -/
  newest : ∀ i newer motion older, (s.client i).active = true →
    (s.client i).subscriptions &&& astraInputSubscribePointerMotion ≠ 0 →
      (s.client i).motionPending = false →
        (s.client i).offered = newer ++ (motion, .ok) :: older → motion.type = .pointerMotion →
          (∀ p ∈ newer, p.2 = .ok → p.1.type ≠ .pointerMotion) →
            motion.motionPlace = s.motionPlace
  modifiers : ModifiersHeld s.held s.modifiers
  repeating : s.repeatUsage ≠ 0 → s.held.getLsbD s.repeatUsage = true
  pointer : PointerInside s.motionPlace s.seatBounds

theorem newestMotion_eq {newer older : InputHistory} {motion : AstraLogicalInputEvent}
    (hmotion : motion.type = .pointerMotion)
    (hnewer : ∀ p ∈ newer, p.2 = .ok → p.1.type ≠ .pointerMotion) :
    InputHistory.newestMotion (newer ++ (motion, .ok) :: older) = some motion := by
  induction newer with
  | nil => simp [InputHistory.newestMotion, hmotion]
  | cons p newer ih =>
    have hp := hnewer p mem_cons_self
    rw [cons_append, InputHistory.newestMotion, if_neg fun h => hp h.1 h.2]
    exact ih fun q hq => hnewer q (mem_cons_of_mem _ hq)

theorem Rested.lossAnnounced (h : Rested s) : LossAnnounced s where
  loss i newer accepted between refused older hoffered hloss hbetween := by
    have hannounced := (h.1.marked i).announced
    rw [hoffered] at hannounced
    exact hannounced.lossReset hloss hbetween
  motion i newer refused older hoffered hmotion hnewer := by
    refine (h.1.marked i).motion ?_
    rw [hoffered]
    exact InputHistory.motionOwed_of_refused hmotion hnewer
  newest i newer motion older hactive hsub hpending hoffered hmotion hnewer := by
    refine h.2 i hactive hsub hpending motion ?_
    rw [hoffered, newestMotion_eq hmotion hnewer]
    rfl
  modifiers := h.1.keys.modifiers
  repeating := h.1.keys.repeating
  pointer := h.1.pointer

theorem held_ingestKey_of_up (hs : InputSound s) {usage : ℕ} (husage : usage < 256) (t : ℕ) :
    (s.ingestKey usage false t).held.getLsbD usage = false := by
  unfold ingestKey
  split
  · next hsame => exact hsame.symm
  · have hturned : SeatSound (s.turnKey usage false) := hs.toSeatSound.of_keys rfl rfl rfl
    have hseat := (emitKey_told hturned.named usage false false t).seat
    have hheld : ((s.turnKey usage false).emitKey usage false false t).held.getLsbD usage =
        false := by
      rcases hseat.keys with ⟨-, hkeys⟩ | ⟨-, -, hkeys⟩
      · refine (congrArg (fun k => k.1.getLsbD usage) hkeys).trans ?_
        exact (getLsbD_setHeld usage false husage).trans (if_pos rfl)
      · refine (congrArg (fun k => k.1.getLsbD usage) hkeys).trans ?_
        simp
    dsimp only
    split
    · exact hheld
    · split
      · exact hheld
      · exact hheld

theorem held_ingest_of_up (hs : Rested s) {event : AstraInputEvent} (hkey : isKeyEvent event = true)
    (hup : event.down = false) (physicalOverflow : Bool) :
    (s.ingest event physicalOverflow).held.getLsbD event.value = false := by
  have hrepaired := (repaired_sound hs.1 event physicalOverflow).1
  have hparts := hkey
  rw [isKeyEvent, Bool.and_eq_true, Bool.and_eq_true] at hparts
  have hclass : event.eventClass = astraInputClassKeyboard := of_decide_eq_true hparts.1.1
  unfold ingest ingestOne
  rw [if_neg (by rw [hclass]; decide), if_pos hkey, hup]
  exact held_ingestKey_of_up hrepaired (of_decide_eq_true hparts.2) event.timestampMs

/-- Input that is lost is announced: in every run, the promises hold of every state, a tick tells a
client that takes events again of the motion it has pending, and a key that is released stops
repeating. -/
theorem input_loss_announced (h : InputRun s) :
    LossAnnounced s ∧
      (∀ i t, (s.client i).active = true → (s.client i).motionPending = true →
        (s.client i).deliver (s.client i).offered.length = .ok →
          (s.client i).deliver ((s.client i).offered.length + 1) = .ok →
            ∃ newer motion, ((s.tick t).client i).offered = newer ++ (s.client i).offered ∧
              (motion, .ok) ∈ newer ∧ motion.type = .pointerMotion ∧
              motion.motionPlace = (s.tick t).motionPlace) ∧
      (∀ event physicalOverflow, isKeyEvent event = true → event.down = false →
        (s.ingest event physicalOverflow).repeatUsage ≠ 0 →
          (s.ingest event physicalOverflow).repeatUsage ≠ event.value) := by
  have hrested := h.rested
  refine ⟨hrested.lossAnnounced, fun i t => tick_tells_motion hrested t, ?_⟩
  intro event physicalOverflow hkey hup hrepeat heq
  have hspared : IngestSpared s event physicalOverflow := fun _ hdown => by simp [hup] at hdown
  have hnext := (h.call (.ingest event physicalOverflow) hspared).rested.1.keys.repeating hrepeat
  have hheld := held_ingest_of_up hrested hkey hup physicalOverflow
  rw [← heq] at hheld
  exact absurd (hnext.symm.trans hheld) (by simp)

/-! ## Runs on a display -/

def displayConfig : AstraInputServiceConfig := ⟨1024, 768, 500, 40, 4, 2, 1, 0, none⟩

/-- A left button that goes down. -/
def buttonDown : AstraInputEvent := ⟨0x2030001, 1, 10, 0, 1⟩

def keyDown : AstraInputEvent := ⟨0x1010001, 4, 10, 0, 1⟩

def padPresent : AstraInputEvent := ⟨0x3010001, 7, 10, 0x1000000, 1⟩

def callAll (calls : List InputCall) (s : AstraInputService) : AstraInputService :=
  calls.foldl call s

def buttonRefused : List InputCall :=
  [.attach 1 fun n => if n = 0 then .full else .ok, .ingest buttonDown false, .tick 20]

/-- The client with the focus dies of the key it is told. -/
def keyDies : List InputCall :=
  [.attach 1 fun n => if n = 0 then .ok else .dead, .setFocus 1 10, .ingest keyDown false]

/-- A snapshot is refused, and the button that comes next is taken. -/
def snapshotRefused : List InputCall :=
  [.ingest padPresent false, .attach 1 fun n => if n = 1 then .full else .ok,
    .subscribe 1 astraInputSubscribeAll 10, .ingest buttonDown false]

def answers (s : AstraInputService) (i : Fin astraInputClientMax) :
    List (AstraInputEventType × AstraInputDeliveryResult) :=
  (s.client i).offered.map fun p => (p.1.type, p.2)

set_option maxRecDepth 100000 in
theorem answers_buttonRefused :
    (init displayConfig).map (fun s => (callAll buttonRefused s).answers 0) =
      some [(.stateReset, .ok), (.pointerButton, .full)] := by decide +kernel

set_option maxRecDepth 100000 in
theorem repeating_keyDies : (init displayConfig).map (fun s =>
    ((callAll keyDies s).repeatUsage, (callAll keyDies s).held.getLsbD 4)) = some (4, false) := by
  decide +kernel

set_option maxRecDepth 100000 in
theorem answers_snapshotRefused :
    (init displayConfig).map (fun s => (callAll snapshotRefused s).answers 0) =
      some [(.pointerButton, .ok), (.gamepadDevice, .full), (.pointerMotion, .ok)] := by
  decide +kernel

theorem ingestSpared_buttonDown (s : AstraInputService) : IngestSpared s buttonDown false :=
  fun hkey => absurd hkey (by decide)

theorem run_buttonRefused (h : init displayConfig = some s) :
    InputRun (callAll buttonRefused s) := by
  rw [callAll, buttonRefused, foldl_cons, foldl_cons, foldl_cons, foldl_nil]
  refine .call (.call (.call (.init displayConfig h) _ ?_) _ ?_) _ ?_
  · trivial
  · exact ingestSpared_buttonDown _
  · trivial

theorem offered_of_answers {accepted refused : AstraInputEventType}
    (h : s.answers 0 = [(accepted, .ok), (refused, .full)]) : ∃ first second,
    (s.client 0).offered = [(first, .ok), (second, .full)] ∧ second.type = refused := by
  obtain ⟨⟨first, _⟩, rest, hoffered, hfirst, hrest⟩ := map_eq_cons_iff.mp h
  obtain ⟨⟨second, _⟩, last, rfl, hsecond, hlast⟩ := map_eq_cons_iff.mp hrest
  cases hfirst
  obtain ⟨htype, rfl⟩ := Prod.mk.inj hsecond
  rw [map_eq_nil_iff.mp hlast] at hoffered
  exact ⟨first, second, hoffered, htype⟩

theorem input_loss_announced_button : ∃ s accepted refused, InputRun s ∧
    (s.client 0).offered = [(accepted, .ok), (refused, .full)] ∧ LossReset accepted := by
  obtain ⟨s, hinit, hanswers⟩ := Option.map_eq_some_iff.mp answers_buttonRefused
  have hrun := run_buttonRefused hinit
  obtain ⟨accepted, refused, hoffered, htype⟩ := offered_of_answers hanswers
  have hmotion : refused.type ≠ .pointerMotion := by
    rw [htype]
    decide
  refine ⟨callAll buttonRefused s, accepted, refused, hrun, hoffered, ?_⟩
  exact (input_loss_announced hrun).1.loss 0 [] accepted [] refused [] hoffered hmotion (by simp)

theorem not_lossAnnounced_of_repeat
    (h : (s.repeatUsage, s.held.getLsbD 4) = (4, false)) : ¬LossAnnounced s := by
  intro hs
  obtain ⟨hrepeat, hheld⟩ := Prod.mk.inj h
  have hrepeating := hs.repeating (by simp [hrepeat])
  rw [hrepeat, hheld] at hrepeating
  exact Bool.false_ne_true hrepeating

theorem not_lossAnnounced_of_answers
    (h : s.answers 0 = [(.pointerButton, .ok), (.gamepadDevice, .full), (.pointerMotion, .ok)]) :
    ¬LossAnnounced s := by
  intro hs
  obtain ⟨⟨accepted, _⟩, rest, hoffered, haccepted, hrest⟩ := map_eq_cons_iff.mp h
  obtain ⟨⟨refused, _⟩, last, rfl, hrefused, -⟩ := map_eq_cons_iff.mp hrest
  obtain ⟨htaken, rfl⟩ := Prod.mk.inj haccepted
  obtain ⟨htype, rfl⟩ := Prod.mk.inj hrefused
  have hmotion : refused.type ≠ .pointerMotion := by
    rw [htype]
    decide
  have hreset := hs.loss 0 [] accepted [] refused last hoffered hmotion (by simp)
  have hbutton : accepted.type = .pointerButton := htaken
  rw [hreset.1] at hbutton
  exact absurd hbutton (by decide)

theorem input_loss_unannounced : ∃ s, init displayConfig = some s ∧
    ¬LossAnnounced (callAll keyDies s) ∧ ¬LossAnnounced (callAll snapshotRefused s) := by
  obtain ⟨s, hinit, hkeys⟩ := Option.map_eq_some_iff.mp repeating_keyDies
  obtain ⟨s', hinit', hanswers⟩ := Option.map_eq_some_iff.mp answers_snapshotRefused
  obtain rfl : s = s' := Option.some.inj (hinit.symm.trans hinit')
  exact ⟨s, hinit, not_lossAnnounced_of_repeat hkeys, not_lossAnnounced_of_answers hanswers⟩

end AstraInputService

end Astra
