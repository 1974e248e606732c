import AstraKernel.Input.Service

/-!
# The input service: events and calls

`input_service_core.c` and the keymap it uses (`keymap.c`): what the service makes of a raw event,
and its calls.
-/

namespace Astra

abbrev astraInputClassKeyboard : ℕ := 1
abbrev astraInputClassPointer : ℕ := 2
abbrev astraInputClassGamepad : ℕ := 3

abbrev astraInputKeyPhysical : ℕ := 1

abbrev astraInputPointerRelative : ℕ := 1
abbrev astraInputPointerAbsolute : ℕ := 2
abbrev astraInputPointerButton : ℕ := 3

abbrev astraInputGamepadDevice : ℕ := 1
abbrev astraInputGamepadAxis : ℕ := 2
abbrev astraInputGamepadButton : ℕ := 3
abbrev astraInputGamepadHat : ℕ := 4
abbrev astraInputGamepadId : ℕ := 5
abbrev astraInputGamepadConfig : ℕ := 6
abbrev astraInputGamepadDeviceBase : ℕ := 0x100

abbrev astraInputFlagDown : ℕ := 1
abbrev astraInputFlagAxisY : ℕ := 2

structure AstraInputEvent where
  header : ℕ
  value : ℕ
  timestampMs : ℕ
  deviceSequence : ℕ
  hostGeneration : ℕ

structure AstraInputPointerControl where
  sequence : ℕ
  left : ℤ
  top : ℤ
  right : ℤ
  bottom : ℤ
  warp : ℕ
  warpX : ℤ
  warpY : ℤ

def AstraInputEvent.eventClass (event : AstraInputEvent) : ℕ := event.header >>> 24 &&& 0xff

def AstraInputEvent.kind (event : AstraInputEvent) : ℕ := event.header >>> 16 &&& 0xff

def AstraInputEvent.flags (event : AstraInputEvent) : ℕ := event.header &&& 0xffff

def AstraInputEvent.device (event : AstraInputEvent) : ℕ := event.deviceSequence >>> 16 &&& 0xffff

def AstraInputEvent.down (event : AstraInputEvent) : Bool := event.flags &&& astraInputFlagDown ≠ 0

def AstraInputEvent.axisY (event : AstraInputEvent) : Bool :=
  event.flags &&& astraInputFlagAxisY ≠ 0

def gamepadAxisIndex (flags : ℕ) : ℕ := flags >>> 8 &&& 0xff

/-! ## The keymap -/

abbrev astraKeymapModShift : BitVec 32 := 1
abbrev astraKeymapModControl : BitVec 32 := 2
abbrev astraKeymapModCaps : BitVec 32 := 4

abbrev astraKeymapEnter : ℕ := 0x110000
abbrev astraKeymapTab : ℕ := 0x110009

def punctuation : List (Char × Char) :=
  [(' ', ' '), ('-', '_'), ('=', '+'), ('[', '\x7b'), (']', '\x7d'), ('\\', '|'), ('\\', '|'),
    (';', ':'), ('\'', '"'), ('\x60', '~'), (',', '<'), ('.', '>'), ('/', '?')]

def digitShifted : List Char := ['!', '@', '#', '$', '%', '^', '&', '*', '(', ')']

/-- The keys with an editing code instead of a character. -/
def editingKeys : List (ℕ × ℕ) :=
  [(0x28, 0x110000), (0x29, 0x11000a), (0x2a, 0x110001), (0x2b, 0x110009), (0x4a, 0x110007),
    (0x4c, 0x110002), (0x4d, 0x110008), (0x4f, 0x110004), (0x50, 0x110003), (0x51, 0x110006),
    (0x52, 0x110005), (0x58, 0x110000)]

def astraKeymapTranslate (usage : ℕ) (modifiers : BitVec 32) : ℕ :=
  let shift : Bool := modifiers &&& astraKeymapModShift ≠ 0
  let caps : Bool := modifiers &&& astraKeymapModCaps ≠ 0
  if 0x04 ≤ usage ∧ usage ≤ 0x1d then
    if modifiers &&& astraKeymapModControl ≠ 0 then usage - 0x04 + 1
    else (if shift ^^ caps then 'A'.toNat else 'a'.toNat) + (usage - 0x04)
  else if 0x1e ≤ usage ∧ usage ≤ 0x27 then
    if shift then (digitShifted.getD (usage - 0x1e) ' ').toNat
    else if usage - 0x1e = 9 then '0'.toNat
    else '1'.toNat + (usage - 0x1e)
  else if 0x2c ≤ usage ∧ usage ≤ 0x38 then
    let entry := punctuation.getD (usage - 0x2c) (' ', ' ')
    if shift then entry.2.toNat else entry.1.toNat
  else (editingKeys.lookup usage).getD 0

def keymapModifiers (modifiers : BitVec 32) : BitVec 32 :=
  (if modifiers &&& astraInputModShift ≠ 0 then astraKeymapModShift else 0) |||
    (if modifiers &&& astraInputModCtrl ≠ 0 then astraKeymapModControl else 0) |||
    if modifiers &&& astraInputModCapsLock ≠ 0 then astraKeymapModCaps else 0

def defaultKeyCodepoint (usage : ℕ) (modifiers : BitVec 32) : ℕ :=
  let translated := astraKeymapTranslate usage (keymapModifiers modifiers)
  if translated = astraKeymapEnter then '\n'.toNat
  else if translated = astraKeymapTab then '\t'.toNat
  else if translated ≤ 255 then translated
  else 0

namespace AstraInputService

/-! ## Keys -/

def modifierForUsage (usage : ℕ) : BitVec 32 :=
  if usage < hidLeftCtrl ∨ hidRightGui < usage then 0 else 1#32 <<< (usage - hidLeftCtrl)

def setHeld (service : AstraInputService) (usage : ℕ) (down : Bool) : AstraInputService :=
  { service with
    held :=
      if down then service.held ||| 1#256 <<< usage else service.held &&& ~~~(1#256 <<< usage) }

def keyCodepoint (config : AstraInputServiceConfig) (usage : ℕ) (modifiers : BitVec 32) : ℕ :=
  match config.translate with
  | some translate => translate usage modifiers
  | none => defaultKeyCodepoint usage modifiers

def tellKey (service : AstraInputService) (usage : ℕ) (down again : Bool) (timestampMs : ℕ) :
    AstraInputService :=
  let flags := (if down then astraInputLogicalDown else 0) |||
    if again then astraInputLogicalRepeat else 0
  let key := service.makeEvent .key flags timestampMs
  key.1.deliverCritical { key.2 with code := usage, modifiers := service.logicalModifiers }

def tellText (service : AstraInputService) (codepoint : ℕ) (modifiers : BitVec 32) (again : Bool)
    (timestampMs : ℕ) : AstraInputService :=
  let text := service.makeEvent .text (if again then astraInputLogicalRepeat else 0) timestampMs
  text.1.deliverCritical { text.2 with code := codepoint, modifiers := modifiers }

/-- The text is made with the modifiers from before the key was told. -/
def emitKey (service : AstraInputService) (usage : ℕ) (down again : Bool) (timestampMs : ℕ) :
    AstraInputService :=
  let modifiers := service.logicalModifiers
  let codepoint := keyCodepoint service.config usage modifiers
  let service := service.tellKey usage down again timestampMs
  if down ∧ codepoint ≠ 0 ∧
      modifiers &&& (astraInputModCtrl ||| astraInputModAlt ||| astraInputModGui) = 0 then
    service.tellText codepoint modifiers again timestampMs
  else service

/-! ## The pointer -/

def accelerate (config : AstraInputServiceConfig) (delta : ℤ) : ℤ :=
  if delta.natAbs ≤ config.accelerationThreshold then delta
  else
    let scaled := min (2 ^ 31 - 1) (config.accelerationThreshold +
      (delta.natAbs - config.accelerationThreshold) * config.accelerationNumerator /
        config.accelerationDenominator)
    if delta < 0 then -(scaled : ℤ) else scaled

def clampCoordinate (value low high current : ℤ) : ℤ :=
  if high ≤ low then current
  else if value < low then low
  else if high ≤ value then high - 1
  else value

def clampX (service : AstraInputService) (value : ℤ) : ℤ :=
  clampCoordinate value service.confineLeft service.confineRight service.pointerX

def clampY (service : AstraInputService) (value : ℤ) : ℤ :=
  clampCoordinate value service.confineTop service.confineBottom service.pointerY

def emitMotion (service : AstraInputService) (timestampMs : ℕ) : AstraInputService :=
  let motion := service.motionEvent 0 timestampMs
  motion.1.deliverPointer motion.2

def clip (value low high : ℤ) : ℤ :=
  if value < low then low else if high < value then high else value

/-! ## Gamepads -/

/-- What `subscribe` and `ingest` say of a gamepad, before it is made an event. -/
structure GamepadReport where
  type : AstraInputEventType
  flags : BitVec 16
  code : ℕ
  valueX : ℤ
  valueY : ℤ
  totalX : ℤ

def gamepadEvent (service : AstraInputService) (report : GamepadReport) (timestampMs : ℕ) :
    AstraInputService × AstraLogicalInputEvent :=
  let event := service.makeEvent report.type report.flags timestampMs
  (event.1, { event.2 with
    code := report.code
    valueX := report.valueX
    valueY := report.valueY
    totalX := report.totalX })

def gamepadDeviceReport (slot : ℕ) (pad : AstraInputGamepadState) : GamepadReport :=
  ⟨.gamepadDevice, if pad.present then astraInputLogicalDown else 0, slot,
    toInt32 pad.vendorProduct, toInt32 pad.identity, toInt32 pad.configuration⟩

def gamepadAxisReport (flags : BitVec 16) (slot axis : ℕ) (pad : AstraInputGamepadState) :
    GamepadReport :=
  ⟨.gamepadAxis, flags, slot <<< 8 ||| axis, pad.axes.getD axis 0, 0, 0⟩

def gamepadHatReport (flags : BitVec 16) (slot : ℕ) (pad : AstraInputGamepadState) :
    GamepadReport :=
  ⟨.gamepadHat, flags, slot <<< 8, pad.hat, 0, 0⟩

def gamepadButtonReport (flags : BitVec 16) (slot button : ℕ) : GamepadReport :=
  ⟨.gamepadButton, flags, slot <<< 8 ||| button, 0, 0, 0⟩

def gamepadAxes (configuration : ℕ) : ℕ := configuration &&& 0xff

def gamepadButtons (configuration : ℕ) : ℕ := configuration >>> 8 &&& 0xff

def gamepadHats (configuration : ℕ) : ℕ := configuration >>> 16 &&& 0xff

def setPad (service : AstraInputService) (slot : Fin astraInputGamepadLimit)
    (pad : AstraInputGamepadState) : AstraInputService :=
  { service with gamepads := service.gamepads.set slot pad }

/-- A pad that has changed, and what the clients are told of it. -/
def reportPad (service : AstraInputService) (slot : Fin astraInputGamepadLimit)
    (pad : AstraInputGamepadState) (report : GamepadReport) (timestampMs : ℕ) :
    AstraInputService :=
  let event := (service.setPad slot pad).gamepadEvent report timestampMs
  event.1.deliverGamepad event.2

def ingestGamepadConfig (service : AstraInputService) (slot : Fin astraInputGamepadLimit)
    (raw : AstraInputEvent) : AstraInputService :=
  if gamepadAxes raw.value ≤ 8 ∧ gamepadButtons raw.value ≤ 32 ∧ gamepadHats raw.value ≤ 1 ∧
      raw.value >>> 24 = 0 then
    service.setPad slot { service.gamepads[slot] with configuration := raw.value }
  else service

def ingestGamepadDevice (service : AstraInputService) (slot : Fin astraInputGamepadLimit)
    (raw : AstraInputEvent) : AstraInputService :=
  let pad := service.gamepads[slot]
  if raw.down ∧ pad.present ∧ pad.vendorProduct = raw.value then service
  else if ¬raw.down ∧ ¬pad.present then service
  else
    let pad := { pad with
      present := raw.down
      vendorProduct := if raw.down then raw.value else pad.vendorProduct }
    let service := service.reportPad slot pad (gamepadDeviceReport slot pad) raw.timestampMs
    if raw.down then service else service.setPad slot .zero

def ingestGamepadAxis (service : AstraInputService) (slot : Fin astraInputGamepadLimit)
    (raw : AstraInputEvent) : AstraInputService :=
  let pad := service.gamepads[slot]
  let index := gamepadAxisIndex raw.flags
  if gamepadAxes pad.configuration ≤ index then service
  else
    let pad := { pad with axes := pad.axes.set index ((raw.value : ℤ).bmod (2 ^ 16)) }
    service.reportPad slot pad (gamepadAxisReport 0 slot index pad) raw.timestampMs

def ingestGamepadButton (service : AstraInputService) (slot : Fin astraInputGamepadLimit)
    (raw : AstraInputEvent) : AstraInputService :=
  let pad := service.gamepads[slot]
  let index := raw.value
  if gamepadButtons pad.configuration ≤ index then service
  else if raw.down = pad.downButtons.getLsbD index then service
  else
    let bit := 1#32 <<< index
    let pad := { pad with
      downButtons := if raw.down then pad.downButtons ||| bit else pad.downButtons &&& ~~~bit }
    let flags := if raw.down then astraInputLogicalDown else 0
    service.reportPad slot pad (gamepadButtonReport flags slot index) raw.timestampMs

def ingestGamepadHat (service : AstraInputService) (slot : Fin astraInputGamepadLimit)
    (raw : AstraInputEvent) : AstraInputService :=
  let pad := service.gamepads[slot]
  if gamepadHats pad.configuration = 0 ∨ 15 < raw.value ∨ pad.hat = raw.value then service
  else
    let pad := { pad with hat := raw.value }
    service.reportPad slot pad (gamepadHatReport 0 slot pad) raw.timestampMs

def ingestGamepad (service : AstraInputService) (raw : AstraInputEvent) : AstraInputService :=
  if h : astraInputGamepadDeviceBase ≤ raw.device ∧
      raw.device < astraInputGamepadDeviceBase + astraInputGamepadLimit then
    let slot : Fin astraInputGamepadLimit := ⟨raw.device - astraInputGamepadDeviceBase, by omega⟩
    if raw.kind = astraInputGamepadId then
      service.setPad slot { service.gamepads[slot] with identity := raw.value }
    else if raw.kind = astraInputGamepadConfig then service.ingestGamepadConfig slot raw
    else if raw.kind = astraInputGamepadDevice then service.ingestGamepadDevice slot raw
    else if ¬service.gamepads[slot].present then service
    else if raw.kind = astraInputGamepadAxis then service.ingestGamepadAxis slot raw
    else if raw.kind = astraInputGamepadButton then service.ingestGamepadButton slot raw
    else if raw.kind = astraInputGamepadHat then service.ingestGamepadHat slot raw
    else service
  else service

/-- What `subscribe` tells a client of the gamepads that are there. -/
def gamepadSnapshot (service : AstraInputService) : List GamepadReport :=
  (List.finRange astraInputGamepadLimit).flatMap fun (slot : Fin astraInputGamepadLimit) =>
    let pad := service.gamepads[slot]
    if ¬pad.present then []
    else
      let device := gamepadDeviceReport slot pad
      [{ device with flags := device.flags ||| astraInputLogicalSynthetic }] ++
        (List.range (gamepadAxes pad.configuration)).map
          (gamepadAxisReport astraInputLogicalSynthetic slot · pad) ++
        (if gamepadHats pad.configuration ≠ 0 then
          [gamepadHatReport astraInputLogicalSynthetic slot pad] else []) ++
        ((List.range 32).filter pad.downButtons.getLsbD).map
          (gamepadButtonReport (astraInputLogicalSynthetic ||| astraInputLogicalDown) slot)

/-- The first report that is not taken ends the snapshot. -/
def deliverSnapshot (i : Fin astraInputClientMax) (timestampMs : ℕ) :
    AstraInputService → List GamepadReport → AstraInputService × AstraInputDeliveryResult
  | service, [] => (service, .ok)
  | service, report :: reports =>
    let event := service.gamepadEvent report timestampMs
    let handed := event.1.deliver i event.2
    if handed.2 ≠ .ok then handed else deliverSnapshot i timestampMs handed.1 reports

/-! ## Calls -/

def init (config : AstraInputServiceConfig) : Option AstraInputService :=
  if config.pointerWidth = 0 ∨ 2 ^ 31 - 1 < config.pointerWidth ∨ config.pointerHeight = 0 ∨
      2 ^ 31 - 1 < config.pointerHeight ∨ config.repeatIntervalMs = 0 ∨
      config.accelerationDenominator = 0 ∨ config.accelerationNumerator = 0 ∨
      config.metaModifier ≠ 0 ∧ config.metaModifier ≠ astraInputModLeftAlt ∧
        config.metaModifier ≠ astraInputModLeftGui then
    none
  else
    some {
      config := { config with
        metaModifier :=
          if config.metaModifier = 0 then astraInputModLeftAlt else config.metaModifier }
      clients := fun _ => .zero
      gamepads := Vector.replicate _ .zero
      held := 0
      modifiers := 0
      physicalGeneration := 0
      focusId := 0
      focusGeneration := 1
      logicalSequence := 0
      repeatDeadlineMs := astraInputRepeatDisabled
      pointerX := config.pointerWidth / 2
      pointerY := config.pointerHeight / 2
      totalX := 0
      totalY := 0
      absoluteX := 0
      absoluteY := 0
      absoluteSeenX := false
      absoluteSeenY := false
      confineLeft := 0
      confineTop := 0
      confineRight := config.pointerWidth
      confineBottom := config.pointerHeight
      controlApplied := 0
      warpApplied := 0
      repeatUsage := 0 }

def attach (service : AstraInputService) (clientId : ℕ) (delivery : ℕ → AstraInputDeliveryResult) :
    AstraInputService × Bool :=
  if clientId = 0 ∨ (service.findClient clientId).isSome then (service, false)
  else
    match (List.finRange astraInputClientMax).find? fun i => ¬(service.client i).active with
    | none => (service, false)
    | some i =>
      (service.modifyClient i fun c =>
        { deliver := delivery
          offered := []
          id := clientId
          generation := nextSequence c.generation
          subscriptions := astraInputSubscribeAll
          active := true
          desynchronized := false
          motionPending := false }, true)

def subscribeMotion (service : AstraInputService) (i : Fin astraInputClientMax)
    (timestampMs : ℕ) : AstraInputService :=
  let motion := service.motionEvent astraInputLogicalSynthetic timestampMs
  let handed := motion.1.deliver i motion.2
  if handed.2 = .full then handed.1.modifyClient i fun c => { c with motionPending := true }
  else handed.1

/-- What a client subscribes to; motion it is told at once. -/
def subscribeSeat (service : AstraInputService) (i : Fin astraInputClientMax)
    (subscriptions : BitVec 32) (timestampMs : ℕ) : AstraInputService :=
  let service := service.modifyClient i fun c => { c with subscriptions := subscriptions }
  if subscriptions &&& astraInputSubscribePointerMotion ≠ 0 then
    service.subscribeMotion i timestampMs
  else service

def subscribe (service : AstraInputService) (clientId : ℕ) (subscriptions : BitVec 32)
    (timestampMs : ℕ) : AstraInputService × Bool :=
  if subscriptions = 0 ∨ subscriptions &&& ~~~astraInputSubscribeAll ≠ 0 then (service, false)
  else
    match service.findClient clientId with
    | none => (service, false)
    | some i =>
      let service := service.subscribeSeat i subscriptions timestampMs
      if subscriptions &&& astraInputSubscribeGamepad ≠ 0 then
        let snapshot := deliverSnapshot i timestampMs service service.gamepadSnapshot
        (snapshot.1, snapshot.2 = .ok)
      else (service, true)

def detach (service : AstraInputService) (clientId : ℕ) : AstraInputService × Bool :=
  match service.findClient clientId with
  | none => (service, false)
  | some i =>
    let service := if service.focusId = clientId then service.loseFocus else service
    (service.modifyClient i fun c => { c with active := false }, true)

/-- The client is told that it has lost or gained the focus, if it asked for that. -/
def tellFocus (service : AstraInputService) (i : Fin astraInputClientMax) (flags : BitVec 16)
    (timestampMs : ℕ) : AstraInputService :=
  if (service.client i).subscriptions &&& astraInputSubscribeFocus ≠ 0 then
    let focus := service.makeEvent .focus flags timestampMs
    focus.1.deliverOrDesynchronize i { focus.2 with code := (service.client i).id }
  else service

def tellFocusLost (service : AstraInputService) (timestampMs : ℕ) : AstraInputService :=
  match service.findClient service.focusId with
  | none => service
  | some i => service.tellFocus i astraInputLogicalSynthetic timestampMs

def moveFocus (service : AstraInputService) (clientId : ℕ) : AstraInputService :=
  { service.clearKeys with
    focusId := clientId
    focusGeneration := (service.focusGeneration + 1) % 2 ^ 32 }

def setFocus (service : AstraInputService) (clientId timestampMs : ℕ) :
    AstraInputService × Bool :=
  if clientId = service.focusId then (service, true)
  else if clientId = 0 then ((service.tellFocusLost timestampMs).moveFocus 0, true)
  else
    match service.findClient clientId with
    | none => (service, false)
    | some i =>
      (((service.tellFocusLost timestampMs).moveFocus clientId).tellFocus i
        (astraInputLogicalSynthetic ||| astraInputLogicalFocused) timestampMs, true)

/-- The confinement of a control, and where it leaves the pointer. -/
def applyControl (service : AstraInputService) (control : AstraInputPointerControl) :
    AstraInputService :=
  let service := { service with
    confineLeft := clip control.left 0 service.config.pointerWidth
    confineRight := clip control.right 0 service.config.pointerWidth
    confineTop := clip control.top 0 service.config.pointerHeight
    confineBottom := clip control.bottom 0 service.config.pointerHeight }
  let warped := control.warp ≠ service.warpApplied
  { service with
    warpApplied := control.warp
    pointerX := service.clampX (if warped then control.warpX else service.pointerX)
    pointerY := service.clampY (if warped then control.warpY else service.pointerY)
    controlApplied := control.sequence }

def pointerControl (service : AstraInputService) (control : AstraInputPointerControl)
    (timestampMs : ℕ) : AstraInputService :=
  if control.sequence = service.controlApplied then service
  else
    let motion := (service.applyControl control).motionEvent astraInputLogicalSynthetic timestampMs
    motion.1.deliverPointer motion.2

/-! ## Raw events -/

/-- A new generation of the host's devices voids what is held. -/
def repairGeneration (service : AstraInputService) (event : AstraInputEvent) : AstraInputService :=
  let service :=
    if service.physicalGeneration ≠ 0 ∧ service.physicalGeneration ≠ event.hostGeneration then
      service.repairState event.timestampMs
    else service
  { service with physicalGeneration := event.hostGeneration }

/-- So do events the host has dropped. -/
def repaired (service : AstraInputService) (event : AstraInputEvent) (physicalOverflow : Bool) :
    AstraInputService :=
  let service := service.repairGeneration event
  if physicalOverflow then service.repairState event.timestampMs else service

/-- The key is down or up, and so is the modifier it is. -/
def turnKey (service : AstraInputService) (usage : ℕ) (down : Bool) : AstraInputService :=
  let modifier := modifierForUsage usage
  { service.setHeld usage down with
    modifiers :=
      if modifier ≠ 0 then
        if down then service.modifiers ||| modifier else service.modifiers &&& ~~~modifier
      else if usage = hidCapsLock ∧ down then service.modifiers ^^^ astraInputModCapsLock
      else service.modifiers }

def ingestKey (service : AstraInputService) (usage : ℕ) (down : Bool) (timestampMs : ℕ) :
    AstraInputService :=
  if down = service.held.getLsbD usage then service
  else
    let service := (service.turnKey usage down).emitKey usage down false timestampMs
    if down ∧ modifierForUsage usage = 0 ∧ usage ≠ hidCapsLock then
      { service with
        repeatUsage := usage
        repeatDeadlineMs := (timestampMs + service.config.repeatDelayMs) % 2 ^ 32 }
    else if ¬down ∧ service.repeatUsage = usage then
      { service with
        repeatUsage := 0
        repeatDeadlineMs := astraInputRepeatDisabled }
    else service

/-- The totals take the device's motion as it came. -/
def moveRelative (service : AstraInputService) (event : AstraInputEvent) : AstraInputService :=
  let delta := accelerate service.config (toInt32 event.value)
  if event.axisY then
    { service with
      totalY := toInt32 (service.totalY + event.value)
      pointerY := service.clampY (service.pointerY + delta) }
  else
    { service with
      totalX := toInt32 (service.totalX + event.value)
      pointerX := service.clampX (service.pointerX + delta) }

/-- An absolute device's motion is how far it moved. -/
def moveAbsolute (service : AstraInputService) (event : AstraInputEvent) : AstraInputService :=
  if event.axisY then
    { service with
      totalY :=
        if service.absoluteSeenY then toInt32 (service.totalY + (event.value - service.absoluteY))
        else service.totalY
      absoluteY := toInt32 event.value
      absoluteSeenY := true
      pointerY := service.clampY (toInt32 event.value) }
  else
    { service with
      totalX :=
        if service.absoluteSeenX then toInt32 (service.totalX + (event.value - service.absoluteX))
        else service.totalX
      absoluteX := toInt32 event.value
      absoluteSeenX := true
      pointerX := service.clampX (toInt32 event.value) }

def buttonEvent (service : AstraInputService) (event : AstraInputEvent) :
    AstraInputService × AstraLogicalInputEvent :=
  let button := service.makeEvent .pointerButton
    (if event.down then astraInputLogicalDown else 0) event.timestampMs
  (button.1, { button.2 with
    code := event.value
    valueX := service.pointerX
    valueY := service.pointerY })

def ingestPointer (service : AstraInputService) (event : AstraInputEvent)
    (emitPointerMotion : Bool) : AstraInputService :=
  if event.kind = astraInputPointerRelative then
    let service := service.moveRelative event
    if emitPointerMotion then service.emitMotion event.timestampMs else service
  else if event.kind = astraInputPointerAbsolute then
    let service := service.moveAbsolute event
    if emitPointerMotion then service.emitMotion event.timestampMs else service
  else if event.kind = astraInputPointerButton then
    let button := service.buttonEvent event
    button.1.deliverPointer button.2
  else service

def isKeyEvent (event : AstraInputEvent) : Bool :=
  event.eventClass = astraInputClassKeyboard && event.kind = astraInputKeyPhysical &&
    event.value < 256

def ingestOne (service : AstraInputService) (event : AstraInputEvent)
    (physicalOverflow emitPointerMotion : Bool) : AstraInputService :=
  let service := service.repaired event physicalOverflow
  if event.eventClass = astraInputClassGamepad then service.ingestGamepad event
  else if isKeyEvent event then service.ingestKey event.value event.down event.timestampMs
  else if event.eventClass = astraInputClassPointer then
    service.ingestPointer event emitPointerMotion
  else service

def ingest (service : AstraInputService) (event : AstraInputEvent) (physicalOverflow : Bool) :
    AstraInputService :=
  service.ingestOne event physicalOverflow true

def pointerMotionEvent (event : AstraInputEvent) : Bool :=
  event.eventClass = astraInputClassPointer &&
    (event.kind = astraInputPointerRelative || event.kind = astraInputPointerAbsolute)

/-- What a batch holds back before the event is taken. -/
def batchBefore (service : AstraInputService) (event : AstraInputEvent) (pending : Option ℕ) :
    AstraInputService :=
  match pending with
  | some timestampMs =>
    if pointerMotionEvent event then service else service.emitMotion timestampMs
  | none => service

/-- The loop of a batch; `pending` is the time of the motion that is still to be told. -/
def ingestLoop : List AstraInputEvent → Bool → Option ℕ → AstraInputService → AstraInputService
  | [], _, some timestampMs, service => service.emitMotion timestampMs
  | [], _, none, service => service
  | event :: events, physicalOverflow, pending, service =>
    let motion := pointerMotionEvent event
    ingestLoop events false (if motion then some event.timestampMs else none)
      ((service.batchBefore event pending).ingestOne event physicalOverflow !motion)

def ingestBatch (service : AstraInputService) (events : List AstraInputEvent)
    (physicalOverflow : Bool) : AstraInputService :=
  ingestLoop events physicalOverflow none service

/-! ## Time -/

def tickReset (timestampMs : ℕ) (service : AstraInputService) (i : Fin astraInputClientMax) :
    AstraInputService :=
  if (service.client i).active ∧ (service.client i).desynchronized then
    let reset := service.makeEvent .stateReset
      (astraInputLogicalSynthetic ||| astraInputLogicalLoss) timestampMs
    let handed := reset.1.rawDeliver i reset.2
    if handed.2 = .ok then handed.1.modifyClient i fun c => { c with desynchronized := false }
    else handed.1
  else service

def tickMotion (timestampMs : ℕ) (service : AstraInputService) (i : Fin astraInputClientMax) :
    AstraInputService :=
  if (service.client i).active ∧ (service.client i).motionPending then
    let motion := service.motionEvent 0 timestampMs
    let handed := motion.1.deliver i motion.2
    if handed.2 = .ok then handed.1.modifyClient i fun c => { c with motionPending := false }
    else handed.1
  else service

def tickRepeat (service : AstraInputService) (timestampMs : ℕ) : AstraInputService :=
  if service.repeatUsage ≠ 0 ∧ service.repeatDeadlineMs ≠ astraInputRepeatDisabled ∧
      0 ≤ toInt32 (timestampMs - service.repeatDeadlineMs) then
    let service := service.emitKey service.repeatUsage true true timestampMs
    { service with
      repeatDeadlineMs := (timestampMs + service.config.repeatIntervalMs) % 2 ^ 32 }
  else service

def tick (service : AstraInputService) (timestampMs : ℕ) : AstraInputService :=
  let service := (List.finRange astraInputClientMax).foldl (tickReset timestampMs) service
  let service := (List.finRange astraInputClientMax).foldl (tickMotion timestampMs) service
  service.tickRepeat timestampMs

end AstraInputService

/-! ## Runs -/

inductive InputCall
  | attach (clientId : ℕ) (delivery : ℕ → AstraInputDeliveryResult)
  | subscribe (clientId : ℕ) (subscriptions : BitVec 32) (timestampMs : ℕ)
  | detach (clientId : ℕ)
  | setFocus (clientId timestampMs : ℕ)
  | pointerControl (control : AstraInputPointerControl) (timestampMs : ℕ)
  | ingest (event : AstraInputEvent) (physicalOverflow : Bool)
  | ingestBatch (events : List AstraInputEvent) (physicalOverflow : Bool)
  | tick (timestampMs : ℕ)

def AstraInputService.call (service : AstraInputService) : InputCall → AstraInputService
  | .attach clientId delivery => (service.attach clientId delivery).1
  | .subscribe clientId subscriptions timestampMs =>
    (service.subscribe clientId subscriptions timestampMs).1
  | .detach clientId => (service.detach clientId).1
  | .setFocus clientId timestampMs => (service.setFocus clientId timestampMs).1
  | .pointerControl control timestampMs => service.pointerControl control timestampMs
  | .ingest event physicalOverflow => service.ingest event physicalOverflow
  | .ingestBatch events physicalOverflow => service.ingestBatch events physicalOverflow
  | .tick timestampMs => service.tick timestampMs

end Astra
