import AstraKernel.Proofs.InputClients

/-!
# What a delivery changes

A delivery changes the client it is for, and takes the keys with the focus when that client is dead.
`Told` is what every loop over the clients keeps.
-/

namespace Astra

namespace AstraInputService

variable {s s' s'' : AstraInputService} {i j : Fin astraInputClientMax}
  {event : AstraLogicalInputEvent}

def motionPlace (s : AstraInputService) : MotionPlace :=
  (s.pointerX, s.pointerY, s.totalX, s.totalY)

/-- Where the pointer may go. -/
def seatBounds (s : AstraInputService) : AstraInputServiceConfig × ℤ × ℤ × ℤ × ℤ :=
  (s.config, s.confineLeft, s.confineTop, s.confineRight, s.confineBottom)

def keys (s : AstraInputService) : BitVec 256 × BitVec 32 × ℕ :=
  (s.held, s.modifiers, s.repeatUsage)

def Named (s : AstraInputService) : Prop :=
  ∀ i : Fin astraInputClientMax, (s.client i).active = true → (s.client i).id ≠ 0

structure SeatKept (s s' : AstraInputService) : Prop where
  place : s'.motionPlace = s.motionPlace
  bounds : s'.seatBounds = s.seatBounds
  keys : s'.focusId = s.focusId ∧ s'.keys = s.keys ∨
    s.focusId ≠ 0 ∧ s'.focusId = 0 ∧ s'.keys = (0, 0, 0)

namespace SeatKept

theorem refl (s : AstraInputService) : SeatKept s s := ⟨rfl, rfl, .inl ⟨rfl, rfl⟩⟩

theorem trans (h : SeatKept s s') (h' : SeatKept s' s'') : SeatKept s s'' := by
  refine ⟨h'.place.trans h.place, h'.bounds.trans h.bounds, ?_⟩
  rcases h.keys with ⟨hfocus, hkeys⟩ | ⟨hfocus, hnone, hkeys⟩
  · rcases h'.keys with ⟨hfocus', hkeys'⟩ | ⟨hfocus', hnone', hkeys'⟩
    · exact .inl ⟨hfocus'.trans hfocus, hkeys'.trans hkeys⟩
    · exact .inr ⟨hfocus ▸ hfocus', hnone', hkeys'⟩
  · rcases h'.keys with ⟨hfocus', hkeys'⟩ | ⟨hfocus', hnone', hkeys'⟩
    · exact .inr ⟨hfocus, hfocus'.trans hnone, hkeys'.trans hkeys⟩
    · exact absurd hnone hfocus'

end SeatKept

/-! ## One client -/

section Client

variable {f : AstraInputClient → AstraInputClient}

@[simp] theorem client_modifyClient : (s.modifyClient i f).client i = f (s.client i) :=
  Function.update_self i _ s.clients

theorem client_modifyClient_of_ne (h : j ≠ i) : (s.modifyClient i f).client j = s.client j :=
  Function.update_of_ne h _ s.clients

theorem modifyClient_seat : SeatKept s (s.modifyClient i f) := ⟨rfl, rfl, .inl ⟨rfl, rfl⟩⟩

@[simp] theorem client_loseFocus : s.loseFocus.client j = s.client j := rfl

variable {type : AstraInputEventType} {flags : BitVec 16} {t : ℕ}

@[simp] theorem client_makeEvent : (s.makeEvent type flags t).1.client j = s.client j := rfl

theorem makeEvent_seat : SeatKept s (s.makeEvent type flags t).1 := ⟨rfl, rfl, .inl ⟨rfl, rfl⟩⟩

theorem loseFocus_seat (h : s.focusId ≠ 0) : SeatKept s s.loseFocus :=
  ⟨rfl, rfl, .inr ⟨h, rfl, rfl⟩⟩

theorem rawDeliver_result :
    (s.rawDeliver i event).2 = (s.client i).deliver (s.client i).offered.length := by
  simp only [rawDeliver]
  split <;> rfl

theorem rawDeliver_self : (s.rawDeliver i event).1.client i = { s.client i with
    offered := (event, (s.rawDeliver i event).2) :: (s.client i).offered
    active := (s.client i).active && (s.rawDeliver i event).2 ≠ .dead } := by
  rw [rawDeliver_result]
  simp only [rawDeliver]
  split
  · next h =>
    split <;> simp [h]
  · next h => simp [h]

theorem rawDeliver_other (hij : j ≠ i) :
    (s.rawDeliver i event).1.client j = s.client j := by
  simp only [rawDeliver]
  split
  · split <;> simp [client_modifyClient_of_ne hij]
  · dsimp only
    exact client_modifyClient_of_ne hij

theorem rawDeliver_seat (hid : (s.client i).id ≠ 0) : SeatKept s (s.rawDeliver i event).1 := by
  simp only [rawDeliver]
  split
  · split
    · next hfocus =>
      exact (modifyClient_seat.trans modifyClient_seat).trans
        (loseFocus_seat fun hzero => hid (hfocus.symm.trans hzero))
    · dsimp only
      exact modifyClient_seat.trans modifyClient_seat
  · dsimp only
    exact modifyClient_seat

theorem lossReset_makeEvent : LossReset (s.makeEvent .stateReset
    (astraInputLogicalSynthetic ||| astraInputLogicalLoss) t).2 := by
  simp [LossReset, makeEvent]

theorem deliver_handed :
    AstraInputClient.Handed event (s.client i) (s.deliver i event).2
      ((s.deliver i event).1.client i) := by
  unfold deliver
  split
  · rename_i hactive
    exact .inactive hactive
  · rename_i hactive
    rw [Bool.not_eq_false] at hactive
    split
    · rename_i hmark
      simp only
      split
      · next hresult =>
        rw [client_modifyClient, rawDeliver_self]
        simpa [hactive] using AstraInputClient.Handed.heldBack _ _ hactive hmark.1 hmark.2
          lossReset_makeEvent hresult
      · next hresult =>
        rw [not_not] at hresult
        rw [rawDeliver_self, client_modifyClient, rawDeliver_self, hresult]
        simpa [hactive] using AstraInputClient.Handed.announced _ _ hactive hmark.1 hmark.2
          lossReset_makeEvent
    · rename_i hmark
      rw [rawDeliver_self]
      have hdirect : (s.client i).desynchronized = false ∨ event.type = .stateReset := by
        by_contra h
        push Not at h
        exact hmark ⟨by simpa using h.1, h.2⟩
      simpa [hactive] using AstraInputClient.Handed.direct (s.rawDeliver i event).2 hactive hdirect

theorem deliver_other (hij : j ≠ i) : (s.deliver i event).1.client j = s.client j := by
  simp only [deliver]
  split
  · rfl
  · split
    · split
      · rw [client_modifyClient_of_ne hij, rawDeliver_other hij, client_makeEvent]
      · rw [rawDeliver_other hij, client_modifyClient_of_ne hij, rawDeliver_other hij,
          client_makeEvent]
    · exact rawDeliver_other hij

theorem deliver_seat (hid : (s.client i).active = true → (s.client i).id ≠ 0) :
    SeatKept s (s.deliver i event).1 := by
  simp only [deliver]
  split
  · exact .refl s
  · next hactive =>
    have hname := hid (by simpa using hactive)
    split
    · generalize hmade : s.makeEvent .stateReset
        (astraInputLogicalSynthetic ||| astraInputLogicalLoss) event.timestampMs = made
      have hclient : made.1.client i = s.client i := by rw [← hmade, client_makeEvent]
      have hreset : SeatKept s (made.1.rawDeliver i made.2).1 := by
        rw [← hmade]
        exact makeEvent_seat.trans (rawDeliver_seat hname)
      split
      · dsimp only
        exact hreset.trans modifyClient_seat
      · refine (hreset.trans modifyClient_seat).trans (rawDeliver_seat ?_)
        rw [client_modifyClient, rawDeliver_self, hclient]
        exact hname
    · exact rawDeliver_seat hname

end Client

/-! ## All clients -/

structure Told (s s' : AstraInputService) : Prop where
  seat : SeatKept s s'
  client : ∀ i, ClientKept s.motionPlace (s.client i) (s'.client i)

theorem Named.client (h : Named s) (i : Fin astraInputClientMax) :
    (s.client i).active = true → (s.client i).id ≠ 0 := h i

namespace Told

theorem refl (s : AstraInputService) : Told s s := ⟨.refl s, fun _ => .refl _⟩

theorem trans (h : Told s s') (h' : Told s' s'') : Told s s'' :=
  ⟨h.seat.trans h'.seat, fun i => (h.client i).trans (h.seat.place ▸ h'.client i)⟩

theorem named (h : Told s s') (hs : Named s) : Named s' := by
  intro i hi
  have hid := (h.client i).id
  have hactive := (h.client i).active
  exact fun hzero => hs i (hactive hi) (hid.symm.trans hzero)

theorem makeEvent {type : AstraInputEventType} {flags : BitVec 16} {t : ℕ} :
    Told s (s.makeEvent type flags t).1 := ⟨makeEvent_seat, fun _ => .refl _⟩

theorem of_one (hseat : SeatKept s s') (hself : ClientKept s.motionPlace (s.client i) (s'.client i))
    (hother : ∀ j, j ≠ i → s'.client j = s.client j) : Told s s' := by
  refine ⟨hseat, fun j => ?_⟩
  by_cases hji : j = i
  · rw [hji]
    exact hself
  · rw [hother j hji]
    exact .refl _

theorem foldl {f : AstraInputService → Fin astraInputClientMax → AstraInputService}
    (hf : ∀ s', Named s' → s'.motionPlace = s.motionPlace → ∀ i, Told s' (f s' i)) (hs : Named s)
    (l : List (Fin astraInputClientMax)) : Told s (l.foldl f s) := by
  suffices h : ∀ s', Told s s' → Told s (l.foldl f s') from h s (.refl s)
  induction l with
  | nil => exact fun s' h => h
  | cons i l ih => exact fun s' h => ih (f s' i) (h.trans (hf s' (h.named hs) h.seat.place i))

end Told

section

variable (hs : Named s)
include hs

section

variable (hevent : event.type ≠ .pointerMotion)
include hevent

theorem deliverOrDesynchronize_told (hreset : event.type = .stateReset → LossReset event) :
    Told s (s.deliverOrDesynchronize i event) := by
  have hhanded : (s.client i).Handed event (s.deliver i event).2 ((s.deliver i event).1.client i) :=
    deliver_handed
  have hkept : ClientKept s.motionPlace (s.client i) _ := hhanded.kept_of_loss hevent hreset
  have hseat : SeatKept s (s.deliver i event).1 := deliver_seat (hs.client i)
  simp only [deliverOrDesynchronize]
  split
  · next hfull =>
    rw [if_pos hfull] at hkept
    refine .of_one (i := i) (hseat.trans modifyClient_seat) ?_ fun j hj => ?_
    · rwa [client_modifyClient]
    · rw [client_modifyClient_of_ne hj, deliver_other hj]
  · next hfull =>
    rw [if_neg hfull] at hkept
    exact .of_one hseat hkept fun j hj => deliver_other hj

theorem deliverCritical_told
    (hreset : event.type ≠ .stateReset) : Told s (s.deliverCritical event) := by
  unfold deliverCritical
  split
  · exact .refl s
  · split
    · exact deliverOrDesynchronize_told hs hevent fun h => absurd h hreset
    · exact .refl s

theorem deliverGamepad_told
    (hreset : event.type ≠ .stateReset) : Told s (s.deliverGamepad event) := by
  refine .foldl (fun s' hs' _ i => ?_) hs _
  unfold deliverGamepadTo
  split
  · exact deliverOrDesynchronize_told hs' hevent fun h => absurd h hreset
  · exact .refl s'

end

theorem repairLoop_told (hreset : LossReset event) :
    Told s ((List.finRange astraInputClientMax).foldl (repairStateOf event) s) := by
  refine .foldl (fun s' hs' _ i => ?_) hs _
  unfold repairStateOf
  split
  · exact deliverOrDesynchronize_told hs' (by simp [hreset.1]) fun _ => hreset
  · exact .refl s'

theorem deliverPointer_told (hevent : event.type ≠ .pointerMotion)
    (hreset : event.type ≠ .stateReset) : Told s (s.deliverPointer event) := by
  refine .foldl (fun s' hs' _ i => ?_) hs _
  have h := deliverOrDesynchronize_told (i := i) hs' hevent fun h => absurd h hreset
  unfold deliverOrDesynchronize at h
  unfold deliverPointerTo
  split
  · simpa [hevent] using h
  · exact .refl s'

end

/-! ## Motions -/

variable {flags : BitVec 16} {t : ℕ}

theorem motionEvent_type : (s.motionEvent flags t).2.type = .pointerMotion := rfl

theorem motionEvent_told : Told s (s.motionEvent flags t).1 :=
  ⟨⟨rfl, rfl, .inl ⟨rfl, rfl⟩⟩, fun _ => .refl _⟩

theorem motion_told (hs : Named s) (hmotion : event.type = .pointerMotion)
    (hplace : event.motionPlace = s.motionPlace) {pending : Bool}
    (hfull : (s.deliver i event).2 = .full → pending = true)
    (hdead : (s.deliver i event).2 = .dead → pending = (s.client i).motionPending) :
    Told s ((s.deliver i event).1.modifyClient i fun c => { c with motionPending := pending }) := by
  refine .of_one (i := i) ((deliver_seat (hs.client i)).trans modifyClient_seat) ?_ fun j hj => ?_
  · rw [client_modifyClient]
    exact deliver_handed.kept_of_motion hmotion hplace hfull hdead
  · rw [client_modifyClient_of_ne hj, deliver_other hj]

theorem motion_told_of_mark (hs : Named s) (hmotion : event.type = .pointerMotion)
    (hplace : event.motionPlace = s.motionPlace)
    (hfull : (s.deliver i event).2 = .full → (s.client i).motionPending = true) :
    Told s (s.deliver i event).1 := by
  refine .of_one (i := i) (deliver_seat (hs.client i)) ?_ fun j hj => deliver_other hj
  have hhanded : (s.client i).Handed event (s.deliver i event).2 ((s.deliver i event).1.client i) :=
    deliver_handed
  have hmark := hhanded.motionPending_eq
  exact hhanded.kept_of_motion hmotion hplace (fun h => hmark.trans (hfull h)) fun _ => hmark

theorem foldl_toldPlace {f : AstraInputService → Fin astraInputClientMax → AstraInputService}
    (hf : ∀ s', Named s' → s'.motionPlace = s.motionPlace → ∀ i,
      Told s' (f s' i) ∧ ToldPlace s.motionPlace ((f s' i).client i))
    (hs : Named s) {l : List (Fin astraInputClientMax)} (hi : i ∈ l) :
    ToldPlace s.motionPlace ((l.foldl f s).client i) := by
  have htold : ∀ s', Told s s' → ∀ l, Told s' (List.foldl f s' l) := fun s' h l =>
    .foldl (fun s'' hs'' hplace i => (hf s'' hs'' (hplace.trans h.seat.place) i).1) (h.named hs) l
  suffices h : ∀ s', Told s s' → ToldPlace s.motionPlace ((l.foldl f s').client i) from
    h s (.refl s)
  induction l with
  | nil => simp at hi
  | cons k l ih =>
    intro s' hs'
    have hstep := hf s' (hs'.named hs) hs'.seat.place
    have hnext : Told s (f s' k) := hs'.trans (hstep k).1
    by_cases hil : i ∈ l
    · exact ih hil (f s' k) hnext
    · obtain rfl : i = k := by simpa [hil] using hi
      have hkept := ((htold (f s' i) hnext l).client i).told
      rw [hnext.seat.place] at hkept
      exact hkept (hstep i).2

def AllTold (s : AstraInputService) : Prop := ∀ i, ToldPlace s.motionPlace (s.client i)

theorem AllTold.of_told (h : AllTold s) (hs : Told s s') : AllTold s' := by
  intro i
  rw [hs.seat.place]
  exact (hs.client i).told (h i)

theorem deliverPointerTo_motion (hs : Named s) (hmotion : event.type = .pointerMotion)
    (hplace : event.motionPlace = s.motionPlace) :
    Told s (deliverPointerTo event s i) ∧
      ToldPlace s.motionPlace ((deliverPointerTo event s i).client i) := by
  have hhanded : (s.client i).Handed event (s.deliver i event).2 ((s.deliver i event).1.client i) :=
    deliver_handed
  have hsub : subscriptionFor event = astraInputSubscribePointerMotion := by
    simp [subscriptionFor, hmotion]
  unfold deliverPointerTo
  rw [hsub]
  split
  · next hactive =>
    simp only [hmotion, and_true]
    split
    · rename_i hfull
      refine ⟨motion_told hs hmotion hplace (fun _ => rfl) fun h => by simp [hfull] at h, ?_⟩
      rw [client_modifyClient]
      exact hhanded.told_of_motion hmotion hplace hactive.1 fun _ => rfl
    · rename_i hfull
      by_cases hdead : ((s.deliver i event).1.client i).active = true
      · have hnotdead : (s.deliver i event).2 ≠ .dead :=
          hhanded.result_ne_dead hdead
        rw [if_pos hdead]
        refine ⟨motion_told hs hmotion hplace (fun h => absurd h hfull)
          fun h => absurd h hnotdead, ?_⟩
        rw [client_modifyClient]
        exact hhanded.told_of_motion hmotion hplace hactive.1 fun h => absurd h hfull
      · rw [if_neg hdead]
        exact ⟨motion_told_of_mark hs hmotion hplace fun h => absurd h hfull,
          fun h => absurd h hdead⟩
  · next hactive =>
    refine ⟨.refl s, fun ha hsub' => absurd ⟨ha, hsub'⟩ hactive⟩

theorem deliverPointer_motion (hs : Named s) (hmotion : event.type = .pointerMotion)
    (hplace : event.motionPlace = s.motionPlace) :
    Told s (s.deliverPointer event) ∧ AllTold (s.deliverPointer event) := by
  have hstep : ∀ s', Named s' → s'.motionPlace = s.motionPlace → ∀ i,
      Told s' (deliverPointerTo event s' i) ∧
        ToldPlace s.motionPlace ((deliverPointerTo event s' i).client i) := by
    intro s' hs' hsame i
    rw [← hsame]
    exact deliverPointerTo_motion hs' hmotion (hplace.trans hsame.symm)
  have htold : Told s (s.deliverPointer event) :=
    .foldl (fun s' hs' hsame i => (hstep s' hs' hsame i).1) hs _
  refine ⟨htold, fun i => ?_⟩
  rw [htold.seat.place]
  exact foldl_toldPlace hstep hs (List.mem_finRange i)

theorem tellMotion_told (hs : Named s) (flags : BitVec 16) (t : ℕ) :
    Told s ((s.motionEvent flags t).1.deliverPointer (s.motionEvent flags t).2) ∧
      AllTold ((s.motionEvent flags t).1.deliverPointer (s.motionEvent flags t).2) := by
  have hmade : Told s (s.motionEvent flags t).1 := motionEvent_told
  have hplace : (s.motionEvent flags t).2.motionPlace = (s.motionEvent flags t).1.motionPlace :=
    rfl
  have h := deliverPointer_motion (hmade.named hs) motionEvent_type hplace
  exact ⟨hmade.trans h.1, h.2⟩

end AstraInputService

end Astra
