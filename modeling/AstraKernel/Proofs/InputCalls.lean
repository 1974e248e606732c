import AstraKernel.Proofs.InputDelivery

/-!
# What a call of the input service keeps

The modifier bits are the modifier keys that are held, a key that repeats is held, and the pointer
is inside the display and the confinement. Only two steps can go wrong: a refused snapshot of a
`subscribe`, and an ordinary key whose client dies of it.
-/

namespace Astra

namespace AstraInputService

variable {s s' : AstraInputService} {i : Fin astraInputClientMax}

/-! ## The keys -/

/-- The modifier bits but caps lock, which is a state of its own. -/
def ModifiersHeld (held : BitVec 256) (modifiers : BitVec 32) : Prop :=
  ∀ i, i ≠ 8 → modifiers.getLsbD i = (decide (i < 8) && held.getLsbD (0xe0 + i))

structure KeysSound (keys : BitVec 256 × BitVec 32 × ℕ) : Prop where
  modifiers : ModifiersHeld keys.1 keys.2.1
  repeating : keys.2.2 ≠ 0 → keys.1.getLsbD keys.2.2 = true

theorem keysSound_none : KeysSound (0, 0, 0) := ⟨fun i _ => by simp, fun h => absurd rfl h⟩

theorem SeatKept.keysSound (h : SeatKept s s') (hs : KeysSound s.keys) : KeysSound s'.keys := by
  rcases h.keys with ⟨-, hkeys⟩ | ⟨-, -, hkeys⟩
  · rwa [hkeys]
  · rw [hkeys]
    exact keysSound_none

theorem getLsbD_bit {w : ℕ} (n k : ℕ) (hk : k < w) :
    (1#w <<< n).getLsbD k = decide (k = n) := by
  rw [BitVec.getLsbD_shiftLeft, BitVec.getLsbD_one, Bool.eq_iff_iff]
  simp only [Bool.and_eq_true, Bool.not_eq_true', decide_eq_true_eq, decide_eq_false_iff_not]
  omega

theorem getLsbD_setHeld (usage : ℕ) (down : Bool) {k : ℕ} (hk : k < 256) :
    (s.setHeld usage down).held.getLsbD k = if k = usage then down else s.held.getLsbD k := by
  unfold setHeld
  cases down
  · rw [if_neg Bool.false_ne_true, BitVec.getLsbD_and, BitVec.getLsbD_not, getLsbD_bit usage k hk]
    by_cases h : k = usage <;> simp [h, hk]
  · rw [if_pos rfl, BitVec.getLsbD_or, getLsbD_bit usage k hk]
    by_cases h : k = usage <;> simp [h]

theorem getLsbD_capsLock {i : ℕ} (hi : i < 32) :
    astraInputModCapsLock.getLsbD i = decide (i = 8) :=
  (congrArg (BitVec.getLsbD · i) (by decide : astraInputModCapsLock = 1#32 <<< 8)).trans
    (getLsbD_bit 8 i hi)

theorem modifierForUsage_eq_zero {usage : ℕ} :
    modifierForUsage usage = 0 ↔ usage < 0xe0 ∨ 0xe7 < usage := by
  unfold modifierForUsage
  by_cases h : usage < 0xe0 ∨ 0xe7 < usage
  · exact ⟨fun _ => h, fun _ => if_pos h⟩
  · rw [if_neg h]
    refine ⟨fun hzero => ?_, fun h' => absurd h' h⟩
    have hbit := getLsbD_bit (usage - 0xe0) (usage - 0xe0) (by omega : usage - 0xe0 < 32)
    rw [hzero] at hbit
    simp at hbit

theorem getLsbD_turnKey (usage : ℕ) (down : Bool) {i : ℕ} (hi : i < 32) (hcaps : i ≠ 8) :
    (s.turnKey usage down).modifiers.getLsbD i =
      if i < 8 ∧ 0xe0 + i = usage then down else s.modifiers.getLsbD i := by
  simp only [turnKey]
  by_cases hmodifier : modifierForUsage usage = 0
  · have hnot : ¬(i < 8 ∧ 0xe0 + i = usage) := by
      have := modifierForUsage_eq_zero.mp hmodifier
      omega
    rw [if_neg (not_not.mpr hmodifier), if_neg hnot]
    split
    · rw [BitVec.getLsbD_xor, getLsbD_capsLock hi]
      simp [hcaps]
    · rfl
  · have hrange : ¬(usage < 0xe0 ∨ 0xe7 < usage) := fun h =>
      hmodifier (modifierForUsage_eq_zero.mpr h)
    have hbit : (modifierForUsage usage).getLsbD i = decide (i < 8 ∧ 0xe0 + i = usage) := by
      rw [modifierForUsage, if_neg hrange, getLsbD_bit _ i hi, decide_eq_decide]
      change i = usage - 0xe0 ↔ _
      omega
    rw [if_pos hmodifier]
    cases down
    · rw [if_neg Bool.false_ne_true, BitVec.getLsbD_and, BitVec.getLsbD_not, hbit]
      by_cases h : i < 8 ∧ 0xe0 + i = usage
      · simp [h]
      · simp [h, hi]
    · rw [if_pos rfl, BitVec.getLsbD_or, hbit]
      by_cases h : i < 8 ∧ 0xe0 + i = usage
      · simp [h]
      · simp [h]

theorem modifiersHeld_turnKey (h : ModifiersHeld s.held s.modifiers) (usage : ℕ) (down : Bool) :
    ModifiersHeld (s.turnKey usage down).held (s.turnKey usage down).modifiers := by
  intro i hcaps
  by_cases hi : i < 32
  · rw [getLsbD_turnKey usage down hi hcaps, h i hcaps]
    by_cases hlow : i < 8
    · have hheld := getLsbD_setHeld (s := s) usage down (by omega : 0xe0 + i < 256)
      simp only [hlow, decide_true, Bool.true_and, true_and]
      exact hheld.symm
    · simp [hlow]
  · have hlow : ¬i < 8 := by omega
    rw [BitVec.getLsbD_of_ge _ _ (by omega)]
    simp [hlow]

/-! ## The pointer -/

def InRange (low high value : ℤ) : Prop := low < high → low ≤ value ∧ value < high

structure PointerInside (place : MotionPlace)
    (bounds : AstraInputServiceConfig × ℤ × ℤ × ℤ × ℤ) : Prop where
  displayX : 0 ≤ place.1 ∧ place.1 < bounds.1.pointerWidth
  displayY : 0 ≤ place.2.1 ∧ place.2.1 < bounds.1.pointerHeight
  confinedX : InRange bounds.2.1 bounds.2.2.2.1 place.1
  confinedY : InRange bounds.2.2.1 bounds.2.2.2.2 place.2.1
  left : 0 ≤ bounds.2.1
  right : bounds.2.2.2.1 ≤ bounds.1.pointerWidth
  top : 0 ≤ bounds.2.2.1
  bottom : bounds.2.2.2.2 ≤ bounds.1.pointerHeight

theorem clampCoordinate_inRange (value low high current : ℤ) :
    InRange low high (clampCoordinate value low high current) := by
  intro h
  unfold clampCoordinate
  split_ifs <;> omega

theorem clampCoordinate_display {value low high current size : ℤ} (hlow : 0 ≤ low)
    (hhigh : high ≤ size) (hcurrent : 0 ≤ current ∧ current < size) :
    0 ≤ clampCoordinate value low high current ∧ clampCoordinate value low high current < size := by
  unfold clampCoordinate
  split_ifs <;> omega

theorem clip_mem {value low high : ℤ} (h : low ≤ high) :
    low ≤ clip value low high ∧ clip value low high ≤ high := by
  unfold clip
  split_ifs <;> omega

/-! ## The service -/

structure SeatSound (s : AstraInputService) : Prop where
  named : Named s
  marked : ∀ i, ClientMarked (s.client i)
  pointer : PointerInside s.motionPlace s.seatBounds

structure InputSound (s : AstraInputService) : Prop extends SeatSound s where
  keys : KeysSound s.keys

theorem SeatSound.of_told (h : SeatSound s) (hs : Told s s') : SeatSound s' where
  named := hs.named h.named
  marked i := (hs.client i).marked (h.marked i)
  pointer := by
    rw [hs.seat.place, hs.seat.bounds]
    exact h.pointer

theorem SeatSound.of_clients (h : SeatSound s) (hclients : s'.clients = s.clients)
    (hpointer : PointerInside s'.motionPlace s'.seatBounds) : SeatSound s' := by
  have hclient : ∀ i, s'.client i = s.client i := fun i => by rw [client, client, hclients]
  refine ⟨fun i => ?_, fun i => ?_, hpointer⟩
  · have hname := h.named i
    rwa [← hclient i] at hname
  · rw [hclient i]
    exact h.marked i

theorem SeatSound.of_keys (h : SeatSound s) (hclients : s'.clients = s.clients)
    (hplace : s'.motionPlace = s.motionPlace) (hbounds : s'.seatBounds = s.seatBounds) :
    SeatSound s' := by
  refine h.of_clients hclients ?_
  rw [hplace, hbounds]
  exact h.pointer

theorem InputSound.of_told (h : InputSound s) (hs : Told s s') : InputSound s' :=
  ⟨h.toSeatSound.of_told hs, hs.seat.keysSound h.keys⟩

theorem InputSound.of_keys (h : InputSound s) (hclients : s'.clients = s.clients)
    (hkeys : KeysSound s'.keys) (hplace : s'.motionPlace = s.motionPlace)
    (hbounds : s'.seatBounds = s.seatBounds) : InputSound s' :=
  ⟨h.toSeatSound.of_keys hclients hplace hbounds, hkeys⟩

theorem AllTold.of_clients (h : AllTold s) (hclients : s'.clients = s.clients)
    (hplace : s'.motionPlace = s.motionPlace) : AllTold s' := by
  intro i
  have hclient : s'.client i = s.client i := by rw [client, client, hclients]
  rw [hplace, hclient]
  exact h i

def Rested (s : AstraInputService) : Prop := InputSound s ∧ AllTold s

theorem Rested.of_told (h : Rested s) (hs : Told s s') : Rested s' :=
  ⟨h.1.of_told hs, h.2.of_told hs⟩

theorem Rested.of_keys (h : Rested s) (hclients : s'.clients = s.clients)
    (hkeys : KeysSound s'.keys) (hplace : s'.motionPlace = s.motionPlace)
    (hbounds : s'.seatBounds = s.seatBounds) : Rested s' :=
  ⟨h.1.of_keys hclients hkeys hplace hbounds, h.2.of_clients hclients hplace⟩

/-! ## Deliveries -/

theorem told_critical (hs : Named s) {type : AstraInputEventType} {flags : BitVec 16} {t : ℕ}
    {event : AstraLogicalInputEvent} (hevent : event.type ≠ .pointerMotion)
    (hreset : event.type ≠ .stateReset) :
    Told s ((s.makeEvent type flags t).1.deliverCritical event) :=
  Told.makeEvent.trans (deliverCritical_told (Told.makeEvent.named hs) hevent hreset)

theorem emitKey_told (hs : Named s) (usage : ℕ) (down again : Bool) (t : ℕ) :
    Told s (s.emitKey usage down again t) := by
  have hkey : Told s (s.tellKey usage down again t) :=
    told_critical hs (by simp [makeEvent]) (by simp [makeEvent])
  simp only [emitKey]
  split
  · exact hkey.trans (told_critical (hkey.named hs) (by simp [makeEvent]) (by simp [makeEvent]))
  · exact hkey

theorem setPad_told (slot : Fin astraInputGamepadLimit) (pad : AstraInputGamepadState) :
    Told s (s.setPad slot pad) := ⟨⟨rfl, rfl, .inl ⟨rfl, rfl⟩⟩, fun _ => .refl _⟩

theorem reportPad_told (hs : Named s) (slot : Fin astraInputGamepadLimit)
    (pad : AstraInputGamepadState) (report : GamepadReport) (t : ℕ)
    (hmotion : report.type ≠ .pointerMotion) (hreset : report.type ≠ .stateReset) :
    Told s (s.reportPad slot pad report t) := by
  have hpad : Told s (s.setPad slot pad) := setPad_told slot pad
  have hmade : Told s ((s.setPad slot pad).gamepadEvent report t).1 :=
    ⟨⟨rfl, rfl, .inl ⟨rfl, rfl⟩⟩, fun _ => .refl _⟩
  exact hmade.trans (deliverGamepad_told (hmade.named hs) hmotion hreset)

theorem ingestGamepadDevice_told (hs : Named s) (slot : Fin astraInputGamepadLimit)
    (raw : AstraInputEvent) : Told s (s.ingestGamepadDevice slot raw) := by
  have hreport := fun pad : AstraInputGamepadState =>
    reportPad_told hs slot pad (gamepadDeviceReport slot pad) raw.timestampMs
      (by simp [gamepadDeviceReport]) (by simp [gamepadDeviceReport])
  unfold ingestGamepadDevice
  dsimp only
  split
  · exact .refl s
  · split
    · exact .refl s
    · split
      · exact hreport _
      · exact (hreport _).trans (setPad_told _ _)

theorem ingestGamepad_told (hs : Named s) (raw : AstraInputEvent) :
    Told s (s.ingestGamepad raw) := by
  have hreport := fun slot pad report hmotion hreset =>
    reportPad_told hs slot pad report raw.timestampMs hmotion hreset
  unfold ingestGamepad
  split
  · dsimp only
    split
    · exact setPad_told _ _
    split
    · unfold ingestGamepadConfig
      split
      · exact setPad_told _ _
      · exact .refl s
    split
    · exact ingestGamepadDevice_told hs _ raw
    split
    · exact .refl s
    split
    · unfold ingestGamepadAxis
      dsimp only
      split
      · exact .refl s
      · exact hreport _ _ _ (by simp [gamepadAxisReport]) (by simp [gamepadAxisReport])
    split
    · unfold ingestGamepadButton
      dsimp only
      split
      · exact .refl s
      · split
        · exact .refl s
        · exact hreport _ _ _ (by simp [gamepadButtonReport]) (by simp [gamepadButtonReport])
    split
    · unfold ingestGamepadHat
      dsimp only
      split
      · exact .refl s
      · exact hreport _ _ _ (by simp [gamepadHatReport]) (by simp [gamepadHatReport])
    · exact .refl s
  · exact .refl s

theorem repairState_told (hs : Named s.releaseAll) (t : ℕ) :
    Told s.releaseAll (s.repairState t) := by
  unfold repairState
  exact Told.makeEvent.trans (repairLoop_told (Told.makeEvent.named hs) lossReset_makeEvent)

theorem repairState_sound (h : InputSound s) (t : ℕ) :
    InputSound (s.repairState t) ∧ (AllTold s → AllTold (s.repairState t)) := by
  have hreleased : InputSound s.releaseAll := h.of_keys rfl keysSound_none rfl rfl
  have htold := repairState_told hreleased.named t
  refine ⟨hreleased.of_told htold, fun ha => ?_⟩
  have hall : AllTold s.releaseAll := ha.of_clients rfl rfl
  exact hall.of_told htold

theorem repairGeneration_sound (h : InputSound s) (event : AstraInputEvent) :
    InputSound (s.repairGeneration event) ∧ (AllTold s → AllTold (s.repairGeneration event)) := by
  have hgeneration : ∀ {s : AstraInputService} g, Told s { s with physicalGeneration := g } :=
    fun g => ⟨⟨rfl, rfl, .inl ⟨rfl, rfl⟩⟩, fun _ => .refl _⟩
  unfold repairGeneration
  split
  · have hrepair := repairState_sound h event.timestampMs
    exact ⟨hrepair.1.of_told (hgeneration _), fun ha => (hrepair.2 ha).of_told (hgeneration _)⟩
  · exact ⟨h.of_told (hgeneration _), fun ha => ha.of_told (hgeneration _)⟩

theorem repaired_sound (h : InputSound s) (event : AstraInputEvent) (physicalOverflow : Bool) :
    InputSound (s.repaired event physicalOverflow) ∧
      (AllTold s → AllTold (s.repaired event physicalOverflow)) := by
  have hgeneration := repairGeneration_sound h event
  unfold repaired
  split
  · have hrepair := repairState_sound hgeneration.1 event.timestampMs
    exact ⟨hrepair.1, fun ha => hrepair.2 (hgeneration.2 ha)⟩
  · exact hgeneration

end AstraInputService

end Astra
