import AstraKernel.Input.Ingest

/-!
# What a client has been told

The rules of loss, over the history of one client. A refusal is owed an announcement: the next event
the client accepts has to be the reset; a refused motion is owed until a motion is accepted. The
marks of the client say at least what is owed.
-/

namespace Astra

open List

/-- The reset that tells a client it has lost events. -/
def LossReset (event : AstraLogicalInputEvent) : Prop :=
  event.type = .stateReset ∧ event.flags &&& astraInputLogicalLoss ≠ 0

abbrev InputHistory := List (AstraLogicalInputEvent × AstraInputDeliveryResult)

namespace InputHistory

def LossOwed : InputHistory → Prop
  | [] => False
  | (_, .ok) :: _ => False
  | (event, .full) :: history => event.type ≠ .pointerMotion ∨ LossOwed history
  | (_, .dead) :: history => LossOwed history

def Announced : InputHistory → Prop
  | [] => True
  | (event, .ok) :: history => (LossOwed history → LossReset event) ∧ Announced history
  | (_, .full) :: history => Announced history
  | (_, .dead) :: history => Announced history

def MotionOwed : InputHistory → Prop
  | [] => False
  | (event, .ok) :: history => event.type ≠ .pointerMotion ∧ MotionOwed history
  | (event, .full) :: history => event.type = .pointerMotion ∨ MotionOwed history
  | (_, .dead) :: history => MotionOwed history

def newestMotion : InputHistory → Option AstraLogicalInputEvent
  | [] => none
  | (event, result) :: history =>
    if result = .ok ∧ event.type = .pointerMotion then some event else newestMotion history

variable {refused : AstraLogicalInputEvent} {between newer older : InputHistory}

theorem lossOwed_of_refused
    (hloss : refused.type ≠ .pointerMotion) (hbetween : ∀ p ∈ between, p.2 ≠ .ok) :
    LossOwed (between ++ (refused, .full) :: older) := by
  induction between with
  | nil => exact .inl hloss
  | cons p between ih =>
    have hrest := ih fun p hp => hbetween p (mem_cons_of_mem _ hp)
    obtain ⟨event, result⟩ := p
    cases result with
    | ok => exact absurd rfl (hbetween (event, .ok) mem_cons_self)
    | full => exact .inr hrest
    | dead => exact hrest

theorem Announced.tail {event : AstraLogicalInputEvent × AstraInputDeliveryResult}
    {history : InputHistory} (h : Announced (event :: history)) : Announced history := by
  obtain ⟨event, result⟩ := event
  cases result
  · exact h.2
  · exact h
  · exact h

theorem Announced.lossReset {accepted : AstraLogicalInputEvent}
    (h : Announced (newer ++ (accepted, .ok) :: (between ++ (refused, .full) :: older)))
    (hloss : refused.type ≠ .pointerMotion) (hbetween : ∀ p ∈ between, p.2 ≠ .ok) :
    LossReset accepted := by
  induction newer with
  | nil => exact h.1 (lossOwed_of_refused hloss hbetween)
  | cons p newer ih => exact ih h.tail

theorem motionOwed_of_refused (hmotion : refused.type = .pointerMotion)
    (hnewer : ∀ p ∈ newer, p.2 = .ok → p.1.type ≠ .pointerMotion) :
    MotionOwed (newer ++ (refused, .full) :: older) := by
  induction newer with
  | nil => exact .inl hmotion
  | cons p newer ih =>
    have hrest := ih fun p hp => hnewer p (mem_cons_of_mem _ hp)
    obtain ⟨event, result⟩ := p
    cases result with
    | ok => exact ⟨hnewer (event, .ok) mem_cons_self rfl, hrest⟩
    | full => exact .inr hrest
    | dead => exact hrest

end InputHistory

open InputHistory

/-- The position and the totals a motion tells. -/
abbrev MotionPlace := ℤ × ℤ × ℤ × ℤ

def AstraLogicalInputEvent.motionPlace (event : AstraLogicalInputEvent) : MotionPlace :=
  (event.valueX, event.valueY, event.totalX, event.totalY)

structure ClientMarked (c : AstraInputClient) : Prop where
  announced : Announced c.offered
  loss : LossOwed c.offered → c.desynchronized = true
  motion : MotionOwed c.offered → c.motionPending = true

def ToldPlace (place : MotionPlace) (c : AstraInputClient) : Prop :=
  c.active = true → c.subscriptions &&& astraInputSubscribePointerMotion ≠ 0 →
    c.motionPending = false → ∀ motion ∈ newestMotion c.offered, motion.motionPlace = place

structure ClientKept (place : MotionPlace) (c c' : AstraInputClient) : Prop where
  id : c'.id = c.id
  subscriptions : c'.subscriptions = c.subscriptions
  active : c'.active = true → c.active = true
  grows : c.offered <:+ c'.offered
  marked : ClientMarked c → ClientMarked c'
  told : ToldPlace place c → ToldPlace place c'

namespace ClientKept

variable {place : MotionPlace} {c c' c'' : AstraInputClient}

theorem refl (c : AstraInputClient) : ClientKept place c c :=
  ⟨rfl, rfl, fun h => h, suffix_rfl, fun h => h, fun h => h⟩

theorem trans (h : ClientKept place c c') (h' : ClientKept place c' c'') :
    ClientKept place c c'' where
  id := h'.id.trans h.id
  subscriptions := h'.subscriptions.trans h.subscriptions
  active ha := h.active (h'.active ha)
  grows := h.grows.trans h'.grows
  marked hm := h'.marked (h.marked hm)
  told ht := h'.told (h.told ht)

end ClientKept

inductive AstraInputClient.Handed (event : AstraLogicalInputEvent) (c : AstraInputClient) :
    AstraInputDeliveryResult → AstraInputClient → Prop
  | inactive (hactive : c.active = false) : Handed event c .dead c
  | direct (result : AstraInputDeliveryResult) (hactive : c.active = true)
      (hdirect : c.desynchronized = false ∨ event.type = .stateReset) :
      Handed event c result { c with
        offered := (event, result) :: c.offered
        active := result ≠ .dead }
  | heldBack (reset : AstraLogicalInputEvent) (result : AstraInputDeliveryResult)
      (hactive : c.active = true) (hmark : c.desynchronized = true)
      (htype : event.type ≠ .stateReset) (hreset : LossReset reset) (hresult : result ≠ .ok) :
      Handed event c result { c with
        offered := (event, result) :: (reset, result) :: c.offered
        active := result ≠ .dead }
  | announced (reset : AstraLogicalInputEvent) (result : AstraInputDeliveryResult)
      (hactive : c.active = true) (hmark : c.desynchronized = true)
      (htype : event.type ≠ .stateReset) (hreset : LossReset reset) :
      Handed event c result { c with
        offered := (event, result) :: (reset, .ok) :: c.offered
        desynchronized := false
        active := result ≠ .dead }

namespace AstraInputClient.Handed

variable {place : MotionPlace} {event : AstraLogicalInputEvent} {c c' : AstraInputClient}
  {result : AstraInputDeliveryResult}

section

variable (h : Handed event c result c')
include h

theorem grows : c.offered <:+ c'.offered := by
  cases h with
  | inactive => exact suffix_rfl
  | direct => exact suffix_cons _ _
  | heldBack => exact (suffix_cons _ _).trans (suffix_cons _ _)
  | announced => exact (suffix_cons _ _).trans (suffix_cons _ _)

theorem kept_of_loss (hevent : event.type ≠ .pointerMotion)
    (hreset : event.type = .stateReset → LossReset event) :
    ClientKept place c (if result = .full then { c' with desynchronized := true } else c') := by
  have hgrows := h.grows
  cases h with
  | inactive hactive => exact .refl c
  | direct _ hactive hdirect =>
    refine ⟨by split <;> rfl, by split <;> rfl, fun _ => hactive, by split <;> exact hgrows,
      fun hm => ?_, fun ht => ?_⟩
    · cases result with
      | ok =>
        refine ⟨⟨fun howed => ?_, hm.announced⟩, False.elim, fun howed => hm.motion howed.2⟩
        exact hreset (hdirect.resolve_left (by simp [hm.loss howed]))
      | full =>
        exact ⟨hm.announced, fun _ => rfl, fun howed => hm.motion (howed.resolve_left hevent)⟩
      | dead => exact ⟨hm.announced, hm.loss, hm.motion⟩
    · cases result with
      | ok => simpa [ToldPlace, newestMotion, hevent, hactive] using ht
      | full => simpa [ToldPlace, newestMotion, hactive] using ht
      | dead => simp [ToldPlace]
  | heldBack reset _ hactive hmark htype hloss hresult =>
    have hmotion : reset.type ≠ .pointerMotion := by simp [hloss.1]
    refine ⟨by split <;> rfl, by split <;> rfl, fun _ => hactive, by split <;> exact hgrows,
      fun hm => ?_, fun ht => ?_⟩
    · cases result with
      | ok => exact absurd rfl hresult
      | full => exact ⟨hm.announced, fun _ => rfl,
          fun howed => hm.motion ((howed.resolve_left hevent).resolve_left hmotion)⟩
      | dead => exact ⟨hm.announced, hm.loss, hm.motion⟩
    · cases result with
      | ok => exact absurd rfl hresult
      | full => simpa [ToldPlace, newestMotion, hactive] using ht
      | dead => simp [ToldPlace]
  | announced reset _ hactive hmark htype hloss =>
    have hmotion : reset.type ≠ .pointerMotion := by simp [hloss.1]
    refine ⟨by split <;> rfl, by split <;> rfl, fun _ => hactive, by split <;> exact hgrows,
      fun hm => ?_, fun ht => ?_⟩
    · cases result with
      | ok => exact ⟨⟨False.elim, fun _ => hloss, hm.announced⟩, False.elim,
          fun howed => hm.motion howed.2.2⟩
      | full => exact ⟨⟨fun _ => hloss, hm.announced⟩, fun _ => rfl,
          fun howed => hm.motion (howed.resolve_left hevent).2⟩
      | dead => exact ⟨⟨fun _ => hloss, hm.announced⟩, False.elim, fun howed => hm.motion howed.2⟩
    · cases result with
      | ok => simpa [ToldPlace, newestMotion, hactive, hevent, hmotion] using ht
      | full => simpa [ToldPlace, newestMotion, hactive, hmotion] using ht
      | dead => simp [ToldPlace]

theorem motionPending_eq : c'.motionPending = c.motionPending := by
  cases h <;> rfl

theorem result_ne_dead (hactive : c'.active = true) : result ≠ .dead := by
  cases h with
  | inactive h => simp [h] at hactive
  | direct => simpa using hactive
  | heldBack => simpa using hactive
  | announced => simpa using hactive

theorem eq_of_inactive (hactive : c.active = false) : c' = c := by
  cases h with
  | inactive => rfl
  | direct _ h => simp [hactive] at h
  | heldBack _ _ h => simp [hactive] at h
  | announced _ _ h => simp [hactive] at h

end

variable {pending : Bool}

section

variable (h : Handed event c result c')
include h

section

variable (hmotion : event.type = .pointerMotion)
include hmotion

theorem marked_of_motion (hfull : result = .full → pending = true)
    (hdead : result = .dead → pending = c.motionPending) (hm : ClientMarked c) :
    ClientMarked { c' with motionPending := pending } := by
  have hevent : event.type ≠ .stateReset := by simp [hmotion]
  cases h with
  | inactive hactive =>
    exact ⟨hm.announced, hm.loss, fun howed => (hdead rfl).trans (hm.motion howed)⟩
  | direct _ hactive hdirect =>
    have hnone : ¬LossOwed c.offered := by
      intro howed
      rw [hm.loss howed] at hdirect
      exact hevent (hdirect.resolve_left (by simp))
    cases result with
    | ok => exact ⟨⟨fun howed => absurd howed hnone, hm.announced⟩, False.elim,
        fun howed => absurd hmotion howed.1⟩
    | full => exact ⟨hm.announced, fun howed => hm.loss (howed.resolve_left (absurd hmotion)),
        fun _ => hfull rfl⟩
    | dead => exact ⟨hm.announced, hm.loss, fun howed => (hdead rfl).trans (hm.motion howed)⟩
  | heldBack reset _ hactive hmark htype hloss hresult =>
    cases result with
    | ok => exact absurd rfl hresult
    | full => exact ⟨hm.announced, fun _ => hmark, fun _ => hfull rfl⟩
    | dead => exact ⟨hm.announced, hm.loss, fun howed => (hdead rfl).trans (hm.motion howed)⟩
  | announced reset _ hactive hmark htype hloss =>
    cases result with
    | ok => exact ⟨⟨False.elim, fun _ => hloss, hm.announced⟩, False.elim,
        fun howed => absurd hmotion howed.1⟩
    | full => exact ⟨⟨fun _ => hloss, hm.announced⟩,
        fun howed => False.elim (howed.resolve_left (absurd hmotion)), fun _ => hfull rfl⟩
    | dead => exact ⟨⟨fun _ => hloss, hm.announced⟩, False.elim,
        fun howed => (hdead rfl).trans (hm.motion howed.2)⟩

theorem told_of_motion (hplace : event.motionPlace = place) (hactive : c.active = true)
    (hfull : result = .full → pending = true) :
    ToldPlace place { c' with motionPending := pending } := by
  intro ha _ hpending motion hnewest
  have hnotfull : result ≠ .full := fun hr => by simp [hfull hr] at hpending
  cases h with
  | inactive h => simp [hactive] at h
  | direct _ _ _ =>
    cases result with
    | ok =>
      have heq : event = motion := by simpa [newestMotion, hmotion] using hnewest
      rw [← heq, hplace]
    | full => exact absurd rfl hnotfull
    | dead => simp at ha
  | heldBack _ _ _ _ _ _ hresult =>
    cases result with
    | ok => exact absurd rfl hresult
    | full => exact absurd rfl hnotfull
    | dead => simp at ha
  | announced _ _ _ _ _ _ =>
    cases result with
    | ok =>
      have heq : event = motion := by simpa [newestMotion, hmotion] using hnewest
      rw [← heq, hplace]
    | full => exact absurd rfl hnotfull
    | dead => simp at ha

theorem kept_of_motion
    (hplace : event.motionPlace = place) (hfull : result = .full → pending = true)
    (hdead : result = .dead → pending = c.motionPending) :
    ClientKept place c { c' with motionPending := pending } where
  id := by cases h <;> rfl
  subscriptions := by cases h <;> rfl
  active ha := by
    by_contra hc
    rw [h.eq_of_inactive (by simpa using hc)] at ha
    exact hc ha
  grows := h.grows
  marked := h.marked_of_motion hmotion hfull hdead
  told ht := by
    by_cases hactive : c.active = true
    · exact h.told_of_motion hmotion hplace hactive hfull
    · intro ha
      rw [h.eq_of_inactive (by simpa using hactive)] at ha
      exact absurd ha hactive

end

theorem kept_of_report (hevent : event.type ≠ .pointerMotion)
    (hreset : event.type ≠ .stateReset) (hfull : result = .full → c'.desynchronized = true) :
    ClientKept place c c' := by
  have hkept : ClientKept place c _ := h.kept_of_loss hevent fun ht => absurd ht hreset
  by_cases hr : result = .full
  · have hsame : { c' with desynchronized := true } = c' := by rw [← hfull hr]
    rwa [if_pos hr, hsame] at hkept
  · rwa [if_neg hr] at hkept

end

end AstraInputClient.Handed

theorem ClientKept.reset {place : MotionPlace} {c : AstraInputClient}
    {reset : AstraLogicalInputEvent} (hreset : LossReset reset) (hactive : c.active = true)
    (result : AstraInputDeliveryResult) :
    ClientKept place c { c with
      offered := (reset, result) :: c.offered
      active := result ≠ .dead
      desynchronized := result ≠ .ok } := by
  have hmotion : reset.type ≠ .pointerMotion := by simp [hreset.1]
  refine ⟨rfl, rfl, fun _ => hactive, suffix_cons _ _, fun hm => ?_, fun ht => ?_⟩
  · cases result with
    | ok => exact ⟨⟨fun _ => hreset, hm.announced⟩, False.elim, fun howed => hm.motion howed.2⟩
    | full =>
      exact ⟨hm.announced, fun _ => rfl, fun howed => hm.motion (howed.resolve_left hmotion)⟩
    | dead => exact ⟨hm.announced, fun _ => rfl, hm.motion⟩
  · cases result with
    | ok => simpa [ToldPlace, newestMotion, hmotion, hactive] using ht
    | full => simpa [ToldPlace, newestMotion, hactive] using ht
    | dead => simp [ToldPlace]

end Astra
