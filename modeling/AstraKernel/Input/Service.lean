import Mathlib.Algebra.Group.Nat.Defs
import Mathlib.Data.Int.Init
import Mathlib.Data.List.Basic

/-!
# The input service: clients and deliveries

`input_service_core.c`: the state of the service, what it makes of a key, and the one way an event
reaches a client. A client's queue answers what it is handed with OK, FULL or DEAD; `deliver` gives
the answers in order, and `offered` remembers, newest first, each event with its answer. An event
held back behind a refused reset has the answer of the reset.
-/

namespace Astra

abbrev astraInputClientMax : ℕ := 250
abbrev astraInputGamepadLimit : ℕ := 4
abbrev astraInputRepeatDisabled : ℕ := 2 ^ 32 - 1

inductive AstraInputDeliveryResult
  | ok
  | full
  | dead
  deriving DecidableEq

inductive AstraInputEventType
  | key
  | text
  | pointerMotion
  | pointerButton
  | focus
  | stateReset
  | gamepadDevice
  | gamepadAxis
  | gamepadButton
  | gamepadHat
  deriving DecidableEq

abbrev astraInputLogicalDown : BitVec 16 := 1
abbrev astraInputLogicalRepeat : BitVec 16 := 2
abbrev astraInputLogicalSynthetic : BitVec 16 := 4
abbrev astraInputLogicalFocused : BitVec 16 := 8
abbrev astraInputLogicalLoss : BitVec 16 := 16

abbrev astraInputSubscribePointerMotion : BitVec 32 := 1
abbrev astraInputSubscribePointerButton : BitVec 32 := 2
abbrev astraInputSubscribePointerWheel : BitVec 32 := 4
abbrev astraInputSubscribeKey : BitVec 32 := 8
abbrev astraInputSubscribeText : BitVec 32 := 16
abbrev astraInputSubscribeFocus : BitVec 32 := 32
abbrev astraInputSubscribeGamepad : BitVec 32 := 64
abbrev astraInputSubscribeAll : BitVec 32 := 127

abbrev astraInputModLeftAlt : BitVec 32 := 4
abbrev astraInputModLeftGui : BitVec 32 := 8
abbrev astraInputModCapsLock : BitVec 32 := 0x100
abbrev astraInputModMeta : BitVec 32 := 0x200
abbrev astraInputModCtrl : BitVec 32 := 0x11
abbrev astraInputModShift : BitVec 32 := 0x22
abbrev astraInputModAlt : BitVec 32 := 0x44
abbrev astraInputModGui : BitVec 32 := 0x88

abbrev astraInputButtonWheelUp : ℕ := 4
abbrev astraInputButtonWheelRight : ℕ := 9

abbrev hidCapsLock : ℕ := 0x39
abbrev hidLeftCtrl : ℕ := 0xe0
abbrev hidRightGui : ℕ := 0xe7

structure AstraLogicalInputEvent where
  type : AstraInputEventType
  flags : BitVec 16
  timestampMs : ℕ
  sequence : ℕ
  focusGeneration : ℕ
  code : ℕ
  modifiers : BitVec 32
  valueX : ℤ
  valueY : ℤ
  totalX : ℤ
  totalY : ℤ
  deriving DecidableEq

structure AstraInputServiceConfig where
  pointerWidth : ℕ
  pointerHeight : ℕ
  repeatDelayMs : ℕ
  repeatIntervalMs : ℕ
  accelerationThreshold : ℕ
  accelerationNumerator : ℕ
  accelerationDenominator : ℕ
  metaModifier : BitVec 32
  translate : Option (ℕ → BitVec 32 → ℕ)

structure AstraInputClient where
  deliver : ℕ → AstraInputDeliveryResult
  offered : List (AstraLogicalInputEvent × AstraInputDeliveryResult)
  id : ℕ
  generation : ℕ
  subscriptions : BitVec 32
  active : Bool
  desynchronized : Bool
  motionPending : Bool

structure AstraInputGamepadState where
  identity : ℕ
  configuration : ℕ
  vendorProduct : ℕ
  downButtons : BitVec 32
  axes : List ℤ
  hat : ℕ
  present : Bool

/-- The eight words of held keys are one vector of 256 bits. -/
structure AstraInputService where
  config : AstraInputServiceConfig
  clients : Fin astraInputClientMax → AstraInputClient
  gamepads : Vector AstraInputGamepadState astraInputGamepadLimit
  held : BitVec 256
  modifiers : BitVec 32
  physicalGeneration : ℕ
  focusId : ℕ
  focusGeneration : ℕ
  logicalSequence : ℕ
  repeatDeadlineMs : ℕ
  pointerX : ℤ
  pointerY : ℤ
  totalX : ℤ
  totalY : ℤ
  absoluteX : ℤ
  absoluteY : ℤ
  absoluteSeenX : Bool
  absoluteSeenY : Bool
  confineLeft : ℤ
  confineTop : ℤ
  confineRight : ℤ
  confineBottom : ℤ
  controlApplied : ℕ
  warpApplied : ℕ
  repeatUsage : ℕ

def AstraInputClient.zero : AstraInputClient :=
  ⟨fun _ => .dead, [], 0, 0, 0, false, false, false⟩

def AstraInputGamepadState.zero : AstraInputGamepadState :=
  ⟨0, 0, 0, 0, List.replicate 8 0, 0, false⟩

/-- The conversion of an unsigned word to `int32_t`. -/
def toInt32 (word : ℤ) : ℤ := word.bmod (2 ^ 32)

namespace AstraInputService

def client (service : AstraInputService) (i : Fin astraInputClientMax) : AstraInputClient :=
  service.clients i

def modifyClient (service : AstraInputService) (i : Fin astraInputClientMax)
    (f : AstraInputClient → AstraInputClient) : AstraInputService :=
  { service with clients := Function.update service.clients i (f (service.client i)) }

def findClient (service : AstraInputService) (clientId : ℕ) : Option (Fin astraInputClientMax) :=
  (List.finRange astraInputClientMax).find? fun i =>
    (service.client i).active && (service.client i).id = clientId

def clearKeys (service : AstraInputService) : AstraInputService :=
  { service with
    held := 0
    modifiers := 0
    repeatUsage := 0
    repeatDeadlineMs := astraInputRepeatDisabled }

def logicalModifiers (service : AstraInputService) : BitVec 32 :=
  if service.modifiers &&& service.config.metaModifier ≠ 0 then
    service.modifiers ||| astraInputModMeta
  else service.modifiers

/-- The sequence number after this one; zero is skipped. -/
def nextSequence (sequence : ℕ) : ℕ :=
  if (sequence + 1) % 2 ^ 32 = 0 then 1 else (sequence + 1) % 2 ^ 32

def makeEvent (service : AstraInputService) (type : AstraInputEventType) (flags : BitVec 16)
    (timestampMs : ℕ) : AstraInputService × AstraLogicalInputEvent :=
  let sequence := nextSequence service.logicalSequence
  ({ service with logicalSequence := sequence },
    ⟨type, flags, timestampMs, sequence, service.focusGeneration, 0, service.logicalModifiers,
      0, 0, 0, 0⟩)

def loseFocus (service : AstraInputService) : AstraInputService :=
  clearKeys { service with
    focusId := 0
    focusGeneration := (service.focusGeneration + 1) % 2 ^ 32 }

/-- A client that is dead loses its place, and with it the focus and the keys. -/
def rawDeliver (service : AstraInputService) (i : Fin astraInputClientMax)
    (event : AstraLogicalInputEvent) : AstraInputService × AstraInputDeliveryResult :=
  let client := service.client i
  let result := client.deliver client.offered.length
  let service := service.modifyClient i fun c => { c with offered := (event, result) :: c.offered }
  if result = .dead then
    let service := service.modifyClient i fun c => { c with active := false }
    (if service.focusId = client.id then service.loseFocus else service, result)
  else (service, result)

def deliver (service : AstraInputService) (i : Fin astraInputClientMax)
    (event : AstraLogicalInputEvent) : AstraInputService × AstraInputDeliveryResult :=
  if (service.client i).active = false then (service, .dead)
  else if (service.client i).desynchronized ∧ event.type ≠ .stateReset then
    let reset := service.makeEvent .stateReset
      (astraInputLogicalSynthetic ||| astraInputLogicalLoss) event.timestampMs
    let handed := reset.1.rawDeliver i reset.2
    if handed.2 ≠ .ok then
      (handed.1.modifyClient i fun c => { c with offered := (event, handed.2) :: c.offered },
        handed.2)
    else (handed.1.modifyClient i fun c => { c with desynchronized := false }).rawDeliver i event
  else service.rawDeliver i event

/-- What every delivery of a key, a button, a reset or a focus change does with its answer. -/
def deliverOrDesynchronize (service : AstraInputService) (i : Fin astraInputClientMax)
    (event : AstraLogicalInputEvent) : AstraInputService :=
  let handed := service.deliver i event
  if handed.2 = .full then handed.1.modifyClient i fun c => { c with desynchronized := true }
  else handed.1

def motionEvent (service : AstraInputService) (flags : BitVec 16) (timestampMs : ℕ) :
    AstraInputService × AstraLogicalInputEvent :=
  let motion := service.makeEvent .pointerMotion flags timestampMs
  (motion.1, { motion.2 with
    code := service.controlApplied
    valueX := service.pointerX
    valueY := service.pointerY
    totalX := service.totalX
    totalY := service.totalY })

end AstraInputService

def pointerButtonIsWheel (code : ℕ) : Bool :=
  astraInputButtonWheelUp ≤ code && code ≤ astraInputButtonWheelRight

def subscriptionFor (event : AstraLogicalInputEvent) : BitVec 32 :=
  match event.type with
  | .pointerMotion => astraInputSubscribePointerMotion
  | .pointerButton =>
    if pointerButtonIsWheel event.code then astraInputSubscribePointerWheel
    else astraInputSubscribePointerButton
  | .key => astraInputSubscribeKey
  | .text => astraInputSubscribeText
  | .focus => astraInputSubscribeFocus
  | _ => 0

namespace AstraInputService

def deliverCritical (service : AstraInputService) (event : AstraLogicalInputEvent) :
    AstraInputService :=
  match service.findClient service.focusId with
  | none => service
  | some i =>
    if (service.client i).subscriptions &&& subscriptionFor event ≠ 0 then
      service.deliverOrDesynchronize i event
    else service

/-- One client of `deliverPointer`'s loop. -/
def deliverPointerTo (event : AstraLogicalInputEvent) (service : AstraInputService)
    (i : Fin astraInputClientMax) : AstraInputService :=
  if (service.client i).active ∧
      (service.client i).subscriptions &&& subscriptionFor event ≠ 0 then
    let handed := service.deliver i event
    if handed.2 = .full then
      if event.type = .pointerMotion then
        handed.1.modifyClient i fun c => { c with motionPending := true }
      else handed.1.modifyClient i fun c => { c with desynchronized := true }
    else if (handed.1.client i).active ∧ event.type = .pointerMotion then
      handed.1.modifyClient i fun c => { c with motionPending := false }
    else handed.1
  else service

def deliverPointer (service : AstraInputService) (event : AstraLogicalInputEvent) :
    AstraInputService :=
  (List.finRange astraInputClientMax).foldl (deliverPointerTo event) service

def deliverGamepadTo (event : AstraLogicalInputEvent) (service : AstraInputService)
    (i : Fin astraInputClientMax) : AstraInputService :=
  if (service.client i).active ∧
      (service.client i).subscriptions &&& astraInputSubscribeGamepad ≠ 0 then
    service.deliverOrDesynchronize i event
  else service

def deliverGamepad (service : AstraInputService) (event : AstraLogicalInputEvent) :
    AstraInputService :=
  (List.finRange astraInputClientMax).foldl (deliverGamepadTo event) service

def repairStateOf (reset : AstraLogicalInputEvent) (service : AstraInputService)
    (i : Fin astraInputClientMax) : AstraInputService :=
  if (service.client i).active then service.deliverOrDesynchronize i reset else service

/-- Nothing is held any more, on any device. -/
def releaseAll (service : AstraInputService) : AstraInputService :=
  { service.clearKeys with gamepads := Vector.replicate _ .zero }

def repairState (service : AstraInputService) (timestampMs : ℕ) : AstraInputService :=
  let service := service.releaseAll
  let reset := service.makeEvent .stateReset
    (astraInputLogicalSynthetic ||| astraInputLogicalLoss) timestampMs
  (List.finRange astraInputClientMax).foldl (repairStateOf reset.2) reset.1

end AstraInputService

end Astra
