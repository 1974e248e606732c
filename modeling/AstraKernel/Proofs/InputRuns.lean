import AstraKernel.Proofs.InputCalls

/-!
# Runs of the input service

Input that is lost is announced, in every run in which no snapshot of the gamepads is refused and no
client dies of an ordinary key it is told.
-/

namespace Astra

open List

namespace AstraInputService

variable {s s' : AstraInputService} {i : Fin astraInputClientMax}

/-! ## A key -/

/-- A key that repeats when it goes down. -/
def OrdinaryKey (usage : ℕ) : Prop := modifierForUsage usage = 0 ∧ usage ≠ hidCapsLock

/-- The client with the focus does not die of an ordinary key that goes down. -/
def KeySpared (s : AstraInputService) (usage : ℕ) (down : Bool) (t : ℕ) : Prop :=
  down = true → s.held.getLsbD usage = false → OrdinaryKey usage →
    ((s.turnKey usage down).emitKey usage down false t).focusId = s.focusId

theorem keysSound_released {held : BitVec 256} {modifiers : BitVec 32}
    (h : ModifiersHeld held modifiers) : KeysSound (held, modifiers, 0) :=
  ⟨h, fun hzero => absurd rfl hzero⟩

variable {f : AstraInputClient → AstraInputClient} {down : Bool} {pending : Option ℕ} {t usage : ℕ}

theorem repeating_turnKey (h : KeysSound s.keys)
    (hheld : ¬(¬down = true ∧ s.repeatUsage = usage)) (hrepeat : s.repeatUsage ≠ 0) :
    (s.turnKey usage down).held.getLsbD s.repeatUsage = true := by
  have hold : s.held.getLsbD s.repeatUsage = true := h.repeating hrepeat
  have hset := getLsbD_setHeld (s := s) usage down (BitVec.lt_of_getLsbD hold)
  refine hset.trans ?_
  split
  · next heq =>
    by_contra hdown
    exact hheld ⟨hdown, heq⟩
  · exact hold

theorem keysSound_ingestKey (h : KeysSound s.keys) (husage : usage < 256) (hspared : KeySpared s usage down t)
    (hchange : ¬down = s.held.getLsbD usage)
    (hseat : SeatKept (s.turnKey usage down) ((s.turnKey usage down).emitKey usage down false t)) :
    KeysSound (s.ingestKey usage down t).keys := by
  have hmodifiers := modifiersHeld_turnKey h.modifiers usage down
  unfold ingestKey
  rw [if_neg hchange]
  dsimp only
  rcases hseat.keys with ⟨-, hkeys⟩ | ⟨hfocus, hnone, hkeys⟩
  · rw [keys, keys, Prod.mk.injEq, Prod.mk.injEq] at hkeys
    obtain ⟨hheld, hmods, hrepeat⟩ := hkeys
    split
    · next hdown =>
      rw [← hheld, ← hmods] at hmodifiers
      refine ⟨hmodifiers, fun _ => ?_⟩
      refine (congrArg (BitVec.getLsbD · usage) hheld).trans ?_
      exact (getLsbD_setHeld usage down husage).trans (by rw [if_pos rfl]; exact hdown.1)
    · rw [← hheld, ← hmods] at hmodifiers
      split
      · exact keysSound_released hmodifiers
      · next hheld' =>
        refine ⟨hmodifiers, fun hzero => ?_⟩
        have hsame : ((s.turnKey usage down).emitKey usage down false t).repeatUsage =
            s.repeatUsage := hrepeat
        rw [hsame] at hheld'
        have hold := repeating_turnKey h hheld' (hsame ▸ hzero)
        exact (congrArg₂ BitVec.getLsbD hheld hsame).trans hold
  · split
    · next hdown =>
      have hup : s.held.getLsbD usage = false := by
        rw [hdown.1] at hchange
        simpa using hchange
      exact absurd ((hspared hdown.1 hup hdown.2).symm.trans hnone) hfocus
    · rw [keys, Prod.mk.injEq, Prod.mk.injEq] at hkeys
      split
      · refine keysSound_released ?_
        rw [hkeys.1, hkeys.2.1]
        exact keysSound_none.modifiers
      · rw [keys, hkeys.1, hkeys.2.1, hkeys.2.2]
        exact keysSound_none

section

variable (h : InputSound s)
include h

theorem ingestKey_sound (husage : usage < 256) (down : Bool) (t : ℕ)
    (hspared : KeySpared s usage down t) :
    InputSound (s.ingestKey usage down t) ∧ (AllTold s → AllTold (s.ingestKey usage down t)) := by
  have hturned : SeatSound (s.turnKey usage down) := h.toSeatSound.of_keys rfl rfl rfl
  have htold := emitKey_told hturned.named usage down false t
  by_cases hchange : down = s.held.getLsbD usage
  · rw [ingestKey, if_pos hchange]
    exact ⟨h, id⟩
  · have hkeys := keysSound_ingestKey h.keys husage hspared hchange htold.seat
    have hemitted := hturned.of_told htold
    have hall : AllTold s → AllTold ((s.turnKey usage down).emitKey usage down false t) := by
      intro ha
      have hturnedTold : AllTold (s.turnKey usage down) := ha.of_clients rfl rfl
      exact hturnedTold.of_told htold
    unfold ingestKey at hkeys ⊢
    rw [if_neg hchange] at hkeys ⊢
    dsimp only at hkeys ⊢
    generalize (s.turnKey usage down).emitKey usage down false t = emitted at *
    split
    · next hdown =>
      rw [if_pos hdown] at hkeys
      exact ⟨⟨hemitted.of_keys rfl rfl rfl, hkeys⟩, fun ha => (hall ha).of_clients rfl rfl⟩
    · next hdown =>
      rw [if_neg hdown] at hkeys
      split
      · next hup =>
        rw [if_pos hup] at hkeys
        exact ⟨⟨hemitted.of_keys rfl rfl rfl, hkeys⟩, fun ha => (hall ha).of_clients rfl rfl⟩
      · next hup =>
        rw [if_neg hup] at hkeys
        exact ⟨⟨hemitted, hkeys⟩, hall⟩

/-! ## The pointer -/

variable (event : AstraInputEvent)

theorem moveRelative_sound : InputSound (s.moveRelative event) := by
  obtain ⟨hx, hy, hcx, hcy, hleft, hright, htop, hbottom⟩ := h.pointer
  unfold moveRelative
  split
  · exact ⟨h.toSeatSound.of_clients rfl ⟨hx, clampCoordinate_display htop hbottom hy, hcx,
      clampCoordinate_inRange _ _ _ _, hleft, hright, htop, hbottom⟩, h.keys⟩
  · exact ⟨h.toSeatSound.of_clients rfl ⟨clampCoordinate_display hleft hright hx, hy,
      clampCoordinate_inRange _ _ _ _, hcy, hleft, hright, htop, hbottom⟩, h.keys⟩

theorem moveAbsolute_sound : InputSound (s.moveAbsolute event) := by
  obtain ⟨hx, hy, hcx, hcy, hleft, hright, htop, hbottom⟩ := h.pointer
  unfold moveAbsolute
  split
  · exact ⟨h.toSeatSound.of_clients rfl ⟨hx, clampCoordinate_display htop hbottom hy, hcx,
      clampCoordinate_inRange _ _ _ _, hleft, hright, htop, hbottom⟩, h.keys⟩
  · exact ⟨h.toSeatSound.of_clients rfl ⟨clampCoordinate_display hleft hright hx, hy,
      clampCoordinate_inRange _ _ _ _, hcy, hleft, hright, htop, hbottom⟩, h.keys⟩

theorem tellMotion_rested (flags : BitVec 16) (t : ℕ) :
    Rested ((s.motionEvent flags t).1.deliverPointer (s.motionEvent flags t).2) := by
  have htold := tellMotion_told h.named flags t
  exact ⟨h.of_told htold.1, htold.2⟩

theorem emitMotion_rested (t : ℕ) : Rested (s.emitMotion t) :=
  tellMotion_rested h 0 t

theorem ingestPointer_sound (emit : Bool) : InputSound (s.ingestPointer event emit) ∧
      (emit = true → AllTold s → AllTold (s.ingestPointer event emit)) := by
  have hrelative := moveRelative_sound h event
  have habsolute := moveAbsolute_sound h event
  unfold ingestPointer
  split
  · dsimp only
    split
    · have hrested := emitMotion_rested hrelative event.timestampMs
      exact ⟨hrested.1, fun _ _ => hrested.2⟩
    · next hemit => exact ⟨hrelative, fun h => absurd h hemit⟩
  split
  · dsimp only
    split
    · have hrested := emitMotion_rested habsolute event.timestampMs
      exact ⟨hrested.1, fun _ _ => hrested.2⟩
    · next hemit => exact ⟨habsolute, fun h => absurd h hemit⟩
  split
  · dsimp only
    have hmade : Told s (s.buttonEvent event).1 :=
      ⟨⟨rfl, rfl, .inl ⟨rfl, rfl⟩⟩, fun _ => .refl _⟩
    have hmotion : (s.buttonEvent event).2.type ≠ .pointerMotion := by simp [buttonEvent, makeEvent]
    have hreset : (s.buttonEvent event).2.type ≠ .stateReset := by simp [buttonEvent, makeEvent]
    have htold := hmade.trans (deliverPointer_told (hmade.named h.named) hmotion hreset)
    exact ⟨h.of_told htold, fun _ ha => ha.of_told htold⟩
  · exact ⟨h, fun _ ha => ha⟩

/-! ## Raw events -/

def IngestSpared (s : AstraInputService) (event : AstraInputEvent) (physicalOverflow : Bool) :
    Prop :=
  isKeyEvent event = true →
    KeySpared (s.repaired event physicalOverflow) event.value event.down event.timestampMs

theorem ingestOne_sound (physicalOverflow emit : Bool)
    (hspared : IngestSpared s event physicalOverflow) :
    InputSound (s.ingestOne event physicalOverflow emit) ∧
      (emit = true → AllTold s → AllTold (s.ingestOne event physicalOverflow emit)) := by
  obtain ⟨hrepaired, htold⟩ := repaired_sound h event physicalOverflow
  unfold IngestSpared at hspared
  unfold ingestOne
  generalize s.repaired event physicalOverflow = repaired at *
  split
  · have hpad := ingestGamepad_told hrepaired.named event
    exact ⟨hrepaired.of_told hpad, fun _ ha => (htold ha).of_told hpad⟩
  split
  · next hkey =>
    have husage : event.value < 256 := by
      rw [isKeyEvent, Bool.and_eq_true] at hkey
      exact of_decide_eq_true hkey.2
    have hingested := ingestKey_sound hrepaired husage event.down event.timestampMs (hspared hkey)
    exact ⟨hingested.1, fun _ ha => hingested.2 (htold ha)⟩
  split
  · have hingested := ingestPointer_sound hrepaired event emit
    exact ⟨hingested.1, fun hemit ha => hingested.2 hemit (htold ha)⟩
  · exact ⟨hrepaired, fun _ ha => htold ha⟩

/-- No key of the batch is one that its client dies of. -/
def BatchSpared : List AstraInputEvent → Bool → Option ℕ → AstraInputService → Prop
  | [], _, _, _ => True
  | event :: events, physicalOverflow, pending, s =>
    IngestSpared (s.batchBefore event pending) event physicalOverflow ∧
      BatchSpared events false
        (if pointerMotionEvent event then some event.timestampMs else none)
        ((s.batchBefore event pending).ingestOne event physicalOverflow !pointerMotionEvent event)

theorem batchBefore_sound (ha : pending = none → AllTold s) (event : AstraInputEvent) :
    InputSound (s.batchBefore event pending) ∧
      (pointerMotionEvent event = false → AllTold (s.batchBefore event pending)) := by
  cases pending with
  | none => exact ⟨h, fun _ => ha rfl⟩
  | some timestampMs =>
    have hrested := emitMotion_rested h timestampMs
    unfold batchBefore
    dsimp only
    split
    · next hmotion => exact ⟨h, fun hno => absurd hmotion (by simp [hno])⟩
    · exact ⟨hrested.1, fun _ => hrested.2⟩

theorem ingestLoop_rested {events : List AstraInputEvent} {physicalOverflow : Bool}
    (ha : pending = none → AllTold s)
    (hspared : BatchSpared events physicalOverflow pending s) :
    Rested (ingestLoop events physicalOverflow pending s) := by
  induction events generalizing s physicalOverflow pending with
  | nil =>
    cases pending with
    | none => exact ⟨h, ha rfl⟩
    | some timestampMs => exact emitMotion_rested h timestampMs
  | cons event events ih =>
    obtain ⟨hbefore, htold⟩ := batchBefore_sound h ha event
    have hone := ingestOne_sound hbefore event physicalOverflow (!pointerMotionEvent event)
      hspared.1
    refine ih hone.1 (fun hnone => ?_) hspared.2
    cases hmotion : pointerMotionEvent event with
    | true => simp [hmotion] at hnone
    | false =>
      rw [hmotion] at hone
      exact hone.2 rfl (htold hmotion)

end

/-! ## Calls -/

theorem init_rested {config : AstraInputServiceConfig} (h : init config = some s) : Rested s := by
  unfold init at h
  split at h
  · simp at h
  · next hconfig =>
    push Not at hconfig
    obtain ⟨hwidth, -, hheight, -⟩ := hconfig
    rw [Option.some.injEq] at h
    subst h
    refine ⟨⟨⟨fun i => ?_, fun i => ?_, ?_⟩, ?_⟩, fun i => ?_⟩
    · exact fun h => absurd h Bool.false_ne_true
    · exact ⟨trivial, False.elim, False.elim⟩
    · refine ⟨⟨?_, ?_⟩, ⟨?_, ?_⟩, fun _ => ⟨?_, ?_⟩, fun _ => ⟨?_, ?_⟩, ?_, ?_, ?_, ?_⟩
      all_goals
        simp only [motionPlace, seatBounds]
        omega
    · exact keysSound_none
    · exact fun h => absurd h Bool.false_ne_true

theorem forall_modifyClient {P : AstraInputClient → Prop}
    (hi : P (f (s.client i))) (hall : ∀ j, j ≠ i → P (s.client j)) (j : Fin astraInputClientMax) :
    P ((s.modifyClient i f).client j) := by
  by_cases hji : j = i
  · rw [hji, client_modifyClient]
    exact hi
  · rw [client_modifyClient_of_ne hji]
    exact hall j hji

theorem InputSound.modifyClient (h : InputSound s)
    (hname : (f (s.client i)).active = true → (f (s.client i)).id ≠ 0)
    (hmarked : ClientMarked (f (s.client i))) : InputSound (s.modifyClient i f) :=
  ⟨⟨forall_modifyClient (P := fun c => c.active = true → c.id ≠ 0) hname fun j _ => h.named j,
    forall_modifyClient hmarked fun j _ => h.marked j, h.pointer⟩, h.keys⟩

theorem Rested.modifyClient (h : Rested s)
    (hname : (f (s.client i)).active = true → (f (s.client i)).id ≠ 0)
    (hmarked : ClientMarked (f (s.client i))) (htold : ToldPlace s.motionPlace (f (s.client i))) :
    Rested (s.modifyClient i f) :=
  ⟨h.1.modifyClient hname hmarked,
    forall_modifyClient (P := ToldPlace s.motionPlace) htold fun j _ => h.2 j⟩

theorem attach_rested (h : Rested s) (clientId : ℕ) (delivery : ℕ → AstraInputDeliveryResult) :
    Rested (s.attach clientId delivery).1 := by
  unfold attach
  split
  · exact h
  · next hid =>
    push Not at hid
    split
    · exact h
    · dsimp only
      refine h.modifyClient ?_ ?_ ?_
      · exact fun _ => hid.1
      · exact ⟨trivial, False.elim, False.elim⟩
      · exact fun _ _ _ motion hmotion => by simp [InputHistory.newestMotion] at hmotion

theorem detach_rested (h : Rested s) (clientId : ℕ) : Rested (s.detach clientId).1 := by
  unfold detach
  split
  · exact h
  · dsimp only
    have hlost : Rested (if s.focusId = clientId then s.loseFocus else s) := by
      split
      · exact h.of_keys rfl keysSound_none rfl rfl
      · exact h
    refine hlost.modifyClient (fun h => absurd h Bool.false_ne_true) ?_
      fun h => absurd h Bool.false_ne_true
    have hm := hlost.1.marked
    exact ⟨(hm _).announced, (hm _).loss, (hm _).motion⟩

theorem tellFocus_told (hs : Named s) (flags : BitVec 16) (t : ℕ) :
    Told s (s.tellFocus i flags t) := by
  unfold tellFocus
  split
  · exact Told.makeEvent.trans (deliverOrDesynchronize_told (Told.makeEvent.named hs)
      (by simp [makeEvent]) (by simp [makeEvent]))
  · exact .refl s

theorem moveFocus_rested (h : Rested s) (clientId t : ℕ) :
    Rested ((s.tellFocusLost t).moveFocus clientId) := by
  have hlost : Rested (s.tellFocusLost t) := by
    unfold tellFocusLost
    split
    · exact h
    · exact h.of_told (tellFocus_told h.1.named _ _)
  exact hlost.of_keys rfl keysSound_none rfl rfl

theorem setFocus_rested (h : Rested s) (clientId t : ℕ) : Rested (s.setFocus clientId t).1 := by
  unfold setFocus
  split
  · exact h
  split
  · exact moveFocus_rested h 0 t
  split
  · exact h
  · have hmoved := moveFocus_rested h clientId t
    exact hmoved.of_told (tellFocus_told hmoved.1.named _ _)

theorem applyControl_sound (h : InputSound s) (control : AstraInputPointerControl) :
    InputSound (s.applyControl control) := by
  obtain ⟨hx, hy, -, -, -, -, -, -⟩ := h.pointer
  have hwidth : ∀ value, 0 ≤ clip value 0 s.config.pointerWidth ∧
      clip value 0 s.config.pointerWidth ≤ s.config.pointerWidth := fun value =>
    clip_mem (Int.natCast_nonneg _)
  have hheight : ∀ value, 0 ≤ clip value 0 s.config.pointerHeight ∧
      clip value 0 s.config.pointerHeight ≤ s.config.pointerHeight := fun value =>
    clip_mem (Int.natCast_nonneg _)
  refine ⟨h.toSeatSound.of_clients rfl ?_, h.keys⟩
  exact ⟨clampCoordinate_display (hwidth _).1 (hwidth _).2 hx,
    clampCoordinate_display (hheight _).1 (hheight _).2 hy, clampCoordinate_inRange _ _ _ _,
    clampCoordinate_inRange _ _ _ _, (hwidth _).1, (hwidth _).2, (hheight _).1, (hheight _).2⟩

theorem pointerControl_rested (h : Rested s) (control : AstraInputPointerControl) (t : ℕ) :
    Rested (s.pointerControl control t) := by
  have happlied := applyControl_sound h.1 control
  unfold pointerControl
  split
  · exact h
  · exact tellMotion_rested happlied _ _

/-- The reports of a `subscribe` that can be refused: the client is told of the loss before. -/
def SnapshotSpared (s : AstraInputService) (clientId : ℕ) (subscriptions : BitVec 32) (t : ℕ) :
    Prop :=
  ∀ i, s.findClient clientId = some i → subscriptions &&& astraInputSubscribeGamepad ≠ 0 →
    let seat := s.subscribeSeat i subscriptions t
    let snapshot := deliverSnapshot i t seat seat.gamepadSnapshot
    snapshot.2 = .full → (snapshot.1.client i).desynchronized = true

theorem gamepadSnapshot_type {report : GamepadReport} (h : report ∈ s.gamepadSnapshot) :
    report.type ≠ .pointerMotion ∧ report.type ≠ .stateReset := by
  obtain ⟨slot, -, h⟩ := mem_flatMap.mp h
  dsimp only at h
  split at h
  · simp at h
  · simp only [append_assoc, cons_append, nil_append, mem_cons, mem_append,
      mem_map] at h
    rcases h with rfl | ⟨axis, -, rfl⟩ | h | ⟨button, -, rfl⟩
    · simp [gamepadDeviceReport]
    · simp [gamepadAxisReport]
    · split at h
      · rw [mem_singleton.mp h]
        simp [gamepadHatReport]
      · simp at h
    · simp [gamepadButtonReport]

theorem deliver_report_told (hs : Named s) {event : AstraLogicalInputEvent}
    (hmotion : event.type ≠ .pointerMotion) (hreset : event.type ≠ .stateReset)
    (hspared : (s.deliver i event).2 = .full →
      ((s.deliver i event).1.client i).desynchronized = true) : Told s (s.deliver i event).1 :=
  .of_one (deliver_seat (hs.client i)) (deliver_handed.kept_of_report hmotion hreset hspared)
    fun _ hj => deliver_other hj

theorem deliverSnapshot_told (hs : Named s) {reports : List GamepadReport}
    (htype : ∀ report ∈ reports, report.type ≠ .pointerMotion ∧ report.type ≠ .stateReset)
    (hspared : (deliverSnapshot i t s reports).2 = .full →
      ((deliverSnapshot i t s reports).1.client i).desynchronized = true) :
    Told s (deliverSnapshot i t s reports).1 := by
  induction reports generalizing s with
  | nil => exact .refl s
  | cons report reports ih =>
    have hmade : Told s (s.gamepadEvent report t).1 :=
      ⟨⟨rfl, rfl, .inl ⟨rfl, rfl⟩⟩, fun _ => .refl _⟩
    have hmotion : (s.gamepadEvent report t).2.type ≠ .pointerMotion :=
      (htype report mem_cons_self).1
    have hreset : (s.gamepadEvent report t).2.type ≠ .stateReset :=
      (htype report mem_cons_self).2
    have hreport := fun hspared =>
      hmade.trans (deliver_report_told (i := i) (hmade.named hs) hmotion hreset hspared)
    rw [deliverSnapshot] at hspared ⊢
    split
    · next hlast =>
      rw [if_pos hlast] at hspared
      exact hreport hspared
    · next hlast =>
      rw [if_neg hlast] at hspared
      have hone := hreport fun hfull => by simp [hfull] at hlast
      exact hone.trans
        (ih (hone.named hs) (fun r hr => htype r (mem_cons_of_mem _ hr)) hspared)

theorem active_of_findClient {clientId : ℕ} (h : s.findClient clientId = some i) :
    (s.client i).active = true := by
  have hfound := List.find?_some h
  rw [Bool.and_eq_true] at hfound
  exact hfound.1

theorem subscribeMotion_rested (h : InputSound s) (hactive : (s.client i).active = true)
    (hother : ∀ j, j ≠ i → ToldPlace s.motionPlace (s.client j)) (t : ℕ) :
    Rested (s.subscribeMotion i t) := by
  have hmade : Told s (s.motionEvent astraInputLogicalSynthetic t).1 := motionEvent_told
  have hclient : (s.motionEvent astraInputLogicalSynthetic t).1.client i = s.client i := rfl
  have hmotion : (s.motionEvent astraInputLogicalSynthetic t).2.type = .pointerMotion := rfl
  have hplace : (s.motionEvent astraInputLogicalSynthetic t).2.motionPlace =
    (s.motionEvent astraInputLogicalSynthetic t).1.motionPlace := rfl
  unfold subscribeMotion
  dsimp only
  generalize s.motionEvent astraInputLogicalSynthetic t = made at *
  have hhanded : (made.1.client i).Handed made.2 (made.1.deliver i made.2).2
    ((made.1.deliver i made.2).1.client i) := deliver_handed
  -- the client itself has been told, whatever it answered
  have hrested : ∀ s', Told s s' → ToldPlace s.motionPlace (s'.client i) → Rested s' := by
    refine fun s' htold hi => ⟨h.of_told htold, fun j => ?_⟩
    rw [htold.seat.place]
    by_cases hji : j = i
    · rw [hji]
      exact hi
    · exact (htold.client j).told (hother j hji)
  have hsame : made.2.motionPlace = s.motionPlace := hplace.trans hmade.seat.place
  split
  · next hfull =>
    refine hrested _ (hmade.trans (motion_told (hmade.named h.named) hmotion hplace (fun _ => rfl)
      fun hdead => by simp [hfull] at hdead)) ?_
    rw [client_modifyClient]
    exact hhanded.told_of_motion hmotion hsame (hclient ▸ hactive) fun _ => rfl
  · next hfull =>
    refine hrested _ (hmade.trans (motion_told_of_mark (hmade.named h.named) hmotion hplace
      fun h => absurd h hfull)) ?_
    exact hhanded.told_of_motion hmotion hsame (hclient ▸ hactive) fun h => absurd h hfull

theorem subscribe_rested (h : Rested s) (clientId : ℕ) (subscriptions : BitVec 32) (t : ℕ)
    (hspared : SnapshotSpared s clientId subscriptions t) :
    Rested (s.subscribe clientId subscriptions t).1 := by
  unfold subscribe
  split
  · exact h
  split
  · exact h
  · next i hi =>
    have hactive := active_of_findClient hi
    have hm := h.1.marked i
    have hseat : Rested (s.subscribeSeat i subscriptions t) := by
      unfold subscribeSeat
      split
      · refine subscribeMotion_rested (h.1.modifyClient (h.1.named i)
          ⟨hm.announced, hm.loss, hm.motion⟩) ?_ (fun j hj => ?_) t
        · rw [client_modifyClient]
          exact hactive
        · rw [client_modifyClient_of_ne hj]
          exact h.2 j
      · next hno =>
        exact h.modifyClient (h.1.named i) ⟨hm.announced, hm.loss, hm.motion⟩
          fun _ hsub => absurd hsub hno
    split
    · next hgamepad =>
      exact hseat.of_told (deliverSnapshot_told hseat.1.named (fun _ => gamepadSnapshot_type)
        (hspared i hi hgamepad))
    · exact hseat

/-! ## Time -/

theorem tickReset_told (hs : Named s) (t : ℕ) : Told s (tickReset t s i) := by
  unfold tickReset
  split
  · next hactive =>
    dsimp only
    have hloss := lossReset_makeEvent (s := s) (t := t)
    have hmade : Told s (s.makeEvent .stateReset
      (astraInputLogicalSynthetic ||| astraInputLogicalLoss) t).1 := Told.makeEvent
    have hclient : (s.makeEvent .stateReset
      (astraInputLogicalSynthetic ||| astraInputLogicalLoss) t).1.client i = s.client i := rfl
    generalize s.makeEvent .stateReset
      (astraInputLogicalSynthetic ||| astraInputLogicalLoss) t = made at *
    have hname : (made.1.client i).id ≠ 0 := hclient ▸ hs i hactive.1
    have hraw : (made.1.rawDeliver i made.2).1.client i = _ := rawDeliver_self
    have hkept : ClientKept made.1.motionPlace (made.1.client i) _ :=
      ClientKept.reset hloss (hclient ▸ hactive.1) (made.1.rawDeliver i made.2).2
    have hmark : (made.1.client i).desynchronized = true := hclient ▸ hactive.2
    have hisactive : (made.1.client i).active = true := hclient ▸ hactive.1
    refine hmade.trans ?_
    split
    · next hok =>
      refine .of_one (i := i) ((rawDeliver_seat hname).trans modifyClient_seat) ?_ fun j hj => ?_
      · rw [client_modifyClient, hraw]
        simpa [hok, hisactive] using hkept
      · rw [client_modifyClient_of_ne hj, rawDeliver_other hj]
    · next hno =>
      refine .of_one (i := i) (rawDeliver_seat hname) ?_ fun j hj => rawDeliver_other hj
      rw [hraw]
      simpa [hno, hisactive, hmark] using hkept
  · exact .refl s

theorem tickMotion_told (hs : Named s) (t : ℕ) : Told s (tickMotion t s i) := by
  unfold tickMotion
  split
  · next hactive =>
    dsimp only
    have hmade : Told s (s.motionEvent 0 t).1 := motionEvent_told
    have hclient : (s.motionEvent 0 t).1.client i = s.client i := rfl
    have hmotion : (s.motionEvent 0 t).2.type = .pointerMotion := rfl
    have hplace : (s.motionEvent 0 t).2.motionPlace = (s.motionEvent 0 t).1.motionPlace := rfl
    generalize s.motionEvent 0 t = made at *
    refine hmade.trans ?_
    split
    · next hok =>
      exact motion_told (hmade.named hs) hmotion hplace (fun h => by simp [hok] at h)
        fun h => by simp [hok] at h
    · exact motion_told_of_mark (hmade.named hs) hmotion hplace fun _ => hclient ▸ hactive.2
  · exact .refl s

theorem tickLoops_told (hs : Named s) (t : ℕ) :
    Told s ((List.finRange astraInputClientMax).foldl (tickMotion t)
      ((List.finRange astraInputClientMax).foldl (tickReset t) s)) := by
  have hreset : Told s ((List.finRange astraInputClientMax).foldl (tickReset t) s) :=
    .foldl (fun s' hs' _ i => tickReset_told hs' t) hs _
  exact hreset.trans (.foldl (fun s' hs' _ i => tickMotion_told hs' t) (hreset.named hs) _)

theorem tickRepeat_rested (h : Rested s) (t : ℕ) : Rested (s.tickRepeat t) := by
  unfold tickRepeat
  split
  · have hemitted := h.of_told (emitKey_told h.1.named s.repeatUsage true true t)
    exact hemitted.of_keys rfl hemitted.1.keys rfl rfl
  · exact h

theorem tick_rested (h : Rested s) (t : ℕ) : Rested (s.tick t) :=
  tickRepeat_rested (h.of_told (tickLoops_told h.1.named t)) t

end AstraInputService

end Astra
