import AstraKernel.Port.Step
import AstraKernel.Proofs.HandleShape

/-!
# What a send finds

In every state of a run the pool of detached handles has its shape, and the search for a free message
starts at a slot of a message.
-/

namespace Astra

open Function

def PortState.room (s : PortState) : HandleState × ℕ := (s.handles, s.nextMessageSlot)

structure PortRoom (s : PortState) : Prop where
  shape : PoolShape s.handles
  next : s.nextMessageSlot < kernelPortMessageMax

section room

variable {s s' : PortState} (F : KernelHandleImportRights)

theorem PortRoom.of_room (h : PortRoom s) (he : s'.room = s.room) : PortRoom s' := by
  unfold PortState.room at he
  rw [Prod.mk.injEq] at he
  exact ⟨he.1 ▸ h.shape, he.2 ▸ h.next⟩

variable {handles : HandleState}

theorem PortRoom.withHandles (h : PortRoom s) (hh : PoolShape handles) :
    PortRoom (s.withHandles handles) := ⟨hh, h.next⟩

theorem PortRoom.setPort (h : PortRoom s) (n : ℕ) (f : KernelPort → KernelPort) :
    PortRoom (s.setPort n f) := ⟨h.shape, h.next⟩

theorem PortRoom.withFrames (h : PortRoom s) (frames : List PortFrame) :
    PortRoom { s with frames := frames } := ⟨h.shape, h.next⟩

section

variable (s) (queue : QueueRef) (n result : ℕ)

theorem room_wakeOne : (s.wakeOne queue result).2.1.room = s.room := by
  unfold PortState.wakeOne
  split <;> rfl

theorem room_wakeAll : (s.wakeAll queue result).2.1.room = s.room := by
  unfold PortState.wakeAll
  split <;> rfl

theorem room_wakeBoth (queue queue' : QueueRef) (result result' : ℕ) :
    (s.wakeBoth queue queue' result result').2.1.room = s.room := by
  unfold PortState.wakeBoth
  have h₁ := room_wakeAll s queue result
  generalize s.wakeAll queue result = r at h₁ ⊢
  rcases r with ⟨_ | _, s₁, woken⟩
  · exact h₁
  · have h₂ := room_wakeAll s₁ queue' result'
    exact h₂.trans h₁

theorem room_maybeFreePort : (maybeFreePort s n).room = s.room := by
  unfold maybeFreePort
  dsimp only
  split_ifs <;> rfl

theorem room_retain (endpoint : KernelPortEndpoint) :
    (kernelPortHandleRetain s n endpoint).2.room = s.room := by
  unfold kernelPortHandleRetain
  dsimp only
  split_ifs <;> rfl

end

theorem room_retainEach : ∀ (grants : List HandleGrant) (s : PortState),
    (retainEach grants s).2.room = s.room
  | [], _ => rfl
  | g :: grants, s => by
    rw [retainEach]
    split
    · exact room_retainEach grants s
    · rename_i n endpoint _
      have h₁ := room_retain s n endpoint
      split
      · rename_i heq
        rw [heq] at h₁
        exact (room_retainEach grants _).trans h₁
      · rename_i heq
        rw [heq] at h₁
        exact h₁

theorem room_claimPortSlot (memory : Bool) : ∀ (fuel : ℕ) (s : PortState) (offset : ℕ),
    (claimPortSlot memory fuel s offset).2.room = s.room
  | 0, _, _ => rfl
  | fuel + 1, s, offset => by
    rw [claimPortSlot]
    generalize (if kernelPortMax ≤ s.nextPortSlot + offset then
      s.nextPortSlot + offset - kernelPortMax else s.nextPortSlot + offset) = slot
    have h₁ : (s.ensurePortLeaf slot memory).2.room = s.room := by
      unfold PortState.ensurePortLeaf
      dsimp only
      split_ifs <;> rfl
    generalize s.ensurePortLeaf slot memory = r at h₁ ⊢
    rcases r with ⟨_ | _, s₁⟩
    · exact h₁
    · dsimp only at h₁ ⊢
      split
      · exact h₁
      · exact (room_claimPortSlot memory fuel s₁ _).trans h₁

theorem room_create (s : PortState) (owner maximumMessages maximumBytes : ℕ) (grant : RecordGrant) :
    (kernelPortCreate s owner maximumMessages maximumBytes grant).2.1.room = s.room := by
  unfold kernelPortCreate
  split
  · rfl
  split
  · rfl
  have h₁ := room_claimPortSlot grant.leaf kernelPortMax s 0
  generalize claimPortSlot grant.leaf kernelPortMax s 0 = r at h₁ ⊢
  rcases r with ⟨_ | n, s₁⟩
  · exact h₁
  · dsimp only at h₁ ⊢
    split <;> exact h₁

theorem PortRoom.freeMessage (h : PortRoom s) (m : ℕ) : PortRoom (freeMessage s m) := by
  unfold Astra.freeMessage
  have hnext : (if m < s.nextMessageSlot then m else s.nextMessageSlot) < kernelPortMessageMax := by
    have := h.next
    split_ifs <;> omega
  split
  · exact h.of_room rfl
  show PortRoom (if s.messageUnits = 0 then _ else _)
  split
  · exact ⟨h.shape, hnext⟩
  · exact ⟨h.shape, hnext⟩

theorem detachedRelease_shape (h : PoolShape handles) (detached : List ℕ) :
    PoolShape (kernelHandleDetachedRelease handles detached).2 :=
  perform_poolShape (fun _ _ rights => rights) h (.detachedRelease detached)

theorem discardLoop_room (n : ℕ) : ∀ (k : ℕ) (s : PortState), PortRoom s →
    PortRoom (discardLoop n k s).2
  | 0, s, h => by
    rw [discardLoop]
    split
    · exact h
    · exact h.of_room rfl
  | k + 1, s, h => by
    rw [discardLoop]
    split
    · exact h
    · rename_i m hm
      split
      · exact h.of_room rfl
      have h₀ : PortRoom (takeHead s n m) := h.of_room rfl
      have h₁ := h₀.freeMessage m
      dsimp only
      split
      · exact discardLoop_room n k _ (h₁.of_room rfl)
      have hrel := detachedRelease_shape h₁.shape (s.message m).detached
      have h₂ := h₁.withHandles hrel
      split
      · exact h₂.of_room rfl
      split
      · exact h₂.of_room rfl
      · exact discardLoop_room n k _ (h₂.of_room rfl)

theorem closeRest_room (h : PortRoom s) (n woken : ℕ) : PortRoom (closeRest s n woken).2 := by
  unfold closeRest
  have h₁ := discardLoop_room n (s.port n).queuedMessages s h
  generalize discardLoop n (s.port n).queuedMessages s = r at h₁ ⊢
  rcases r with ⟨_ | g, s₁⟩
  · dsimp only at h₁ ⊢
    split
    · exact h₁.of_room rfl
    · exact h₁.of_room (room_maybeFreePort _ n)
  · exact h₁

theorem closePort_room (h : PortRoom s) (n receiveResult sendResult : ℕ) :
    PortRoom (closePort s n receiveResult sendResult).2 := by
  unfold closePort
  split
  · exact h
  split
  · exact h
  split
  · exact h
  dsimp only
  generalize hs₁ : ({ s.setPort n fun r => { r with
    state := .closing, receiveTerminal := receiveResult, sendTerminal := sendResult } with
    activePorts := (s.setPort n fun r => { r with
    state := .closing, receiveTerminal := receiveResult, sendTerminal := sendResult }).activePorts - 1 } :
      PortState) = s₁
  have h₁ : PortRoom s₁ := h.of_room (hs₁ ▸ rfl)
  have hw := room_wakeBoth s₁ (portReadable n) (portWritable n) receiveResult sendResult
  generalize s₁.wakeBoth (portReadable n) (portWritable n) receiveResult sendResult = r at hw ⊢
  rcases r with ⟨_ | _, s₂, woken⟩
  · exact h₁.of_room hw
  · dsimp only at hw ⊢
    split
    · exact h₁.of_room hw
    · exact closeRest_room ((h₁.of_room hw).setPort n _) n woken

theorem ownerDiedFrom_room (owner : ℕ) : ∀ (fuel slot closed woken : ℕ) (s : PortState),
    PortRoom s → PortRoom (ownerDiedFrom owner fuel slot closed woken s)
  | 0, _, _, _, _, h => h.of_room rfl
  | fuel + 1, slot, closed, woken, s, h => by
    rw [ownerDiedFrom]
    split
    · exact h.of_room rfl
    split
    · exact ownerDiedFrom_room owner fuel _ _ _ s h
    have h₁ := closePort_room h slot astraSyscallPeerDead astraSyscallPeerDead
    split
    · rename_i heq
      rw [heq] at h₁
      exact ownerDiedFrom_room owner fuel _ _ _ _ h₁
    · rename_i heq
      rw [heq] at h₁
      exact h₁.of_room rfl
    · rename_i heq
      rw [heq] at h₁
      exact h₁.of_room rfl

theorem afterClose_room (n : ℕ) (caller : CloseCaller) {r : CloseEnd × PortState}
    (h : PortRoom r.2) : PortRoom (afterClose n caller r) := by
  rcases r with ⟨⟨status, portWoken⟩ | ⟨g, woken⟩, s⟩
  · rcases caller with _ | ⟨owner, closed, woken⟩
    · show PortRoom (if status = .ok then s else s.corrupted)
      split
      · exact h
      · exact h.of_room rfl
    · show PortRoom (if status = .ok then ownerDiedFrom owner (kernelPortMax - (n + 1)) (n + 1)
        (closed + 1) (woken + portWoken) s else { s with ownerDeath := some (.corrupt, 0, 0) })
      split
      · exact ownerDiedFrom_room _ _ _ _ _ s h
      · exact h.of_room rfl
  · exact h.of_room rfl

theorem abandon_room (h : PortRoom s) (n : ℕ) : PortRoom (kernelPortAbandonUnpublished s n) := by
  unfold kernelPortAbandonUnpublished
  dsimp only
  split
  · exact h.of_room rfl
  · exact afterClose_room n .release (closePort_room (h.setPort n _) n _ _)

theorem release_room (h : PortRoom s) (n : ℕ) (endpoint : KernelPortEndpoint) :
    PortRoom (kernelPortHandleRelease s n endpoint) := by
  unfold kernelPortHandleRelease
  split
  · exact h.of_room rfl
  have h₁ : PortRoom (s.setPort n fun r => r.dropReference endpoint) := h.of_room rfl
  generalize (s.setPort n fun r => r.dropReference endpoint) = s₁ at h₁ ⊢
  dsimp only
  split
  · exact afterClose_room n .release (closePort_room h₁ n _ _)
  split
  · have hm : (markSenderClosed s₁ n).2.1.room = s₁.room := by
      unfold markSenderClosed
      split
      · rfl
      dsimp only
      generalize hs₂ : (s₁.setPort n fun r => { r with
        state := .peerClosed, receiveTerminal := astraSyscallPeerDead,
        sendTerminal := astraSyscallPeerDead }) = s₂
      have hw := room_wakeBoth s₂ (portReadable n) (portWritable n)
        (if (s₂.port n).queuedMessages = 0 then astraSyscallPeerDead else astraSyscallOk)
        astraSyscallPeerDead
      have hr : s₂.room = s₁.room := hs₂ ▸ rfl
      split
      · rename_i heq
        rw [heq] at hw
        exact hw.trans hr
      · rename_i heq
        rw [heq] at hw
        exact hw.trans hr
    split
    · rename_i heq
      rw [heq] at hm
      exact h₁.of_room hm
    · rename_i heq
      rw [heq] at hm
      exact h₁.of_room hm
  split
  · exact h₁.of_room (room_maybeFreePort s₁ n)
  · exact h₁

/-! ## Sending and receiving -/

theorem ensureMessageLeaf_room (s : PortState) (slot : ℕ) (memory : Bool) :
    (s.ensureMessageLeaf slot memory).2.room = s.room := by
  unfold PortState.ensureMessageLeaf
  dsimp only
  split
  · rfl
  split
  · rfl
  · rfl

theorem claimMessageSlot_room (memory : Bool) : ∀ (fuel : ℕ) (s : PortState) (offset : ℕ),
    PortRoom s → fuel + offset = kernelPortMessageMax →
    PortRoom (claimMessageSlot memory fuel s offset).2
  | 0, _, _, h, _ => h
  | fuel + 1, s, offset, h, hf => by
    rw [claimMessageSlot]
    have hslot : (if kernelPortMessageMax ≤ s.nextMessageSlot + offset then
        s.nextMessageSlot + offset - kernelPortMessageMax else s.nextMessageSlot + offset) <
          kernelPortMessageMax := by
      have := h.next
      split_ifs <;> omega
    generalize (if kernelPortMessageMax ≤ s.nextMessageSlot + offset then
      s.nextMessageSlot + offset - kernelPortMessageMax else s.nextMessageSlot + offset) = slot at hslot ⊢
    have h₁ := h.of_room (ensureMessageLeaf_room s slot memory)
    generalize s.ensureMessageLeaf slot memory = r at h₁ ⊢
    rcases r with ⟨_ | _, s₁⟩
    · exact h₁
    dsimp only at h₁ ⊢
    split
    · refine ⟨h₁.shape, ?_⟩
      show (if slot + 1 = kernelPortMessageMax then 0 else slot + 1) < kernelPortMessageMax
      split_ifs with hend
      · decide
      · omega
    · exact claimMessageSlot_room memory fuel s₁ (offset + 1) h₁ (by omega)

theorem allocateMessage_room (h : PortRoom s) (grant : RecordGrant) :
    PortRoom (allocateMessage s grant).2.1 := by
  unfold allocateMessage
  split
  · exact h
  have h₁ := claimMessageSlot_room grant.leaf kernelPortMessageMax s 0 h rfl
  generalize claimMessageSlot grant.leaf kernelPortMessageMax s 0 = r at h₁ ⊢
  rcases r with ⟨_ | m, s₁⟩
  · exact h₁
  dsimp only at h₁ ⊢
  split
  · exact h₁.of_room rfl
  · exact h₁.of_room rfl

theorem exportHandles_shape (h : PoolShape handles) (τ : ℕ) (list : List ℕ)
    (masks : Option (ℕ → HandleRights)) (grant : SendGrant) :
    PoolShape (exportHandles F handles τ list masks grant).2.2 := by
  unfold exportHandles
  have h₁ : PoolShape (kernelHandleTransferPrepare F handles τ list handleRightTransfer grant.batch
      grant.detached).2 := perform_poolShape F h (.transferPrepare τ list _ _ _)
  generalize kernelHandleTransferPrepare F handles τ list handleRightTransfer grant.batch
    grant.detached = r at h₁ ⊢
  rcases r with ⟨status, s₁⟩
  have hroll : ∀ {s : HandleState}, PoolShape s → PoolShape (kernelHandleTransferRollback s grant.batch).2 :=
    fun hs => perform_poolShape F hs (.transferRollback grant.batch)
  cases status with
  | ok =>
    have h₂ : PoolShape (narrowHandles F s₁ masks grant.batch).2 := by
      rcases masks with _ | masks
      · exact h₁
      · exact perform_poolShape F h₁ (.transferNarrow grant.batch masks)
    dsimp only
    generalize narrowHandles F s₁ masks grant.batch = r at h₂ ⊢
    rcases r with ⟨status, s₂⟩
    cases status with
    | ok =>
      have h₃ : PoolShape (kernelHandleTransferCommitExport s₂ τ grant.batch).2 :=
        perform_poolShape F h₂ (.transferCommitExport τ grant.batch)
      dsimp only
      generalize kernelHandleTransferCommitExport s₂ τ grant.batch = r at h₃ ⊢
      rcases r with ⟨status, s₃⟩
      cases status with
      | ok => exact h₃
      | _ => exact hroll h₃
    | _ => exact hroll h₂
  | _ => exact h₁

theorem room_enqueueMessage (s : PortState) (n m : ℕ) : (enqueueMessage s n m).room = s.room := by
  unfold enqueueMessage
  dsimp only
  split <;> rfl

section

variable (h : PortRoom s)
include h

theorem sendMessage_room (n τ : ℕ) (rawMessage : List (BitVec 8)) (handles : List ℕ)
    (masks : Option (ℕ → HandleRights)) (grant : SendGrant) :
    PortRoom (sendMessage F s n τ rawMessage handles masks grant).2.1 := by
  unfold sendMessage
  have h₁ := allocateMessage_room h grant.record
  split
  · rename_i s₁ m heq
    rw [heq] at h₁
    dsimp only at h₁ ⊢
    generalize hs₂ : (s₁.setMessage m fun message => { message with
      data := rawMessage, sender := (s₁.handles.tables τ).processId, portSlot := some n }) = s₂
    have h₂ : PortRoom s₂ := hs₂ ▸ h₁.of_room rfl
    have hr : PoolShape (if handles = [] then ((.ok, true, s₂.handles) :
        KernelPortStatus × Bool × HandleState)
      else exportHandles F s₂.handles τ handles masks grant).2.2 := by
      split
      · exact h₂.shape
      · exact exportHandles_shape F h₂.shape τ handles masks grant
    generalize (if handles = [] then ((.ok, true, s₂.handles) : KernelPortStatus × Bool × HandleState)
      else exportHandles F s₂.handles τ handles masks grant) = r at hr ⊢
    have h₃ : PortRoom (if r.2.1 = true then s₂.withHandles r.2.2
        else (s₂.withHandles r.2.2).corrupted) := by
      split
      · exact h₂.withHandles hr
      · exact (h₂.withHandles hr).of_room rfl
    generalize (if r.2.1 = true then s₂.withHandles r.2.2
      else (s₂.withHandles r.2.2).corrupted) = s₃ at h₃ ⊢
    split
    · exact h₃.freeMessage m
    generalize hs₄ : ({ enqueueMessage (s₃.setMessage m fun message => { message with
      detached := if handles = [] then [] else (s₃.handles.batches grant.batch).detached }) n m with
      sent := _ } : PortState) = s₄
    have h₄ : PortRoom s₄ := by
      rw [← hs₄]
      exact h₃.of_room (room_enqueueMessage _ n m)
    have hw := room_wakeOne s₄ (portReadable n) astraSyscallOk
    split
    · rename_i heq
      rw [heq] at hw
      exact h₄.of_room hw
    · rename_i heq
      rw [heq] at hw
      exact h₄.of_room hw
  · rename_i heq
    rw [heq] at h₁
    exact h₁

theorem send_room (n τ : ℕ) (rawMessage : List (BitVec 8)) (handles : List ℕ)
    (masks : Option (ℕ → HandleRights)) (grant : SendGrant) :
    PortRoom (kernelPortSendNarrowed F s n τ rawMessage handles masks grant).2.1 := by
  unfold kernelPortSendNarrowed
  dsimp only
  split
  · exact h
  split
  · exact h
  split
  · exact h
  split
  · exact h
  split
  · exact h
  split
  · exact sendMessage_room F h n τ rawMessage handles masks grant
  have hv : PoolShape
      (kernelHandleTransferValidate F s.handles τ handles handleRightTransfer).2 :=
    perform_poolShape F h.shape (.transferValidate τ handles handleRightTransfer)
  split
  · exact h.withHandles hv
  · exact sendMessage_room F (h.withHandles hv) n τ rawMessage handles masks grant

theorem prepare_room (n τ messageCapacity handleCapacity r : ℕ) (grants : ℕ → SlotGrant) :
    PortRoom (kernelPortReceivePrepare s n τ messageCapacity handleCapacity r grants).2.1 := by
  unfold kernelPortReceivePrepare
  split
  · exact h
  dsimp only
  generalize hs₁ : (s.setReceipt r emptyReceipt).withHandles
    ((s.setReceipt r emptyReceipt).handles.setReservation r emptyImportReservation) = s₁
  have h₁ : PortRoom s₁ := by
    rw [← hs₁]
    exact ⟨h.shape.of_shape rfl, h.next⟩
  split
  · exact h₁
  split
  · exact h₁
  split
  · split
    · exact h₁
    split
    · exact h₁
    · exact h₁
  split
  · exact h₁
  rename_i m heq
  split
  · exact h₁
  split
  · exact h₁
  split
  · exact h₁
  split
  · exact h₁
  have hr : PoolShape
      (kernelHandleImportReserve s₁.handles τ (s₁.message m).detached r grants).2 :=
    perform_poolShape (fun _ _ rights => rights) h₁.shape (.importReserve τ _ r grants)
  split
  · rename_i hres
    rw [hres] at hr
    exact (h₁.withHandles hr).of_room rfl
  · rename_i hres
    rw [hres] at hr
    exact h₁.withHandles hr

theorem commitWake_room (n : ℕ) : PortRoom (commitWake s n).2.1 := by
  unfold commitWake
  have h₁ := h.of_room (room_wakeAll s (portWritable n) astraSyscallOk)
  generalize s.wakeAll (portWritable n) astraSyscallOk = r at h₁ ⊢
  rcases r with ⟨_ | _, s₁, woken⟩
  · exact h₁.of_room rfl
  dsimp only at h₁ ⊢
  split
  · have h₂ := h₁.of_room (room_wakeOne s₁ (portReadable n) astraSyscallOk)
    generalize s₁.wakeOne (portReadable n) astraSyscallOk = r at h₂ ⊢
    rcases r with ⟨_ | _, s₂, woken⟩
    · exact h₂.of_room rfl
    · exact h₂
  split
  · have h₂ := h₁.of_room (room_wakeAll s₁ (portReadable n) astraSyscallPeerDead)
    generalize s₁.wakeAll (portReadable n) astraSyscallPeerDead = r at h₂ ⊢
    rcases r with ⟨_ | _, s₂, woken⟩
    · exact h₂.of_room rfl
    · exact h₂
  · exact h₁

theorem commit_room (r : ℕ) : PortRoom (kernelPortReceiveCommit F s r).2.1 := by
  unfold kernelPortReceiveCommit
  dsimp only
  split
  · rename_i n m hn hm
    split
    · exact h
    split
    · exact h
    split
    · exact h
    have hc : PoolShape (kernelHandleImportCommit F s.handles (s.receipts r).table r
        (s.message m).detached).2 :=
      perform_poolShape F h.shape (.importCommit (s.receipts r).table r (s.message m).detached)
    split
    · rename_i handles hres
      rw [hres] at hc
      have h₁ : PortRoom (takeHead (s.withHandles handles) n m) := (h.withHandles hc).of_room rfl
      have h₂ := ((h₁.setPort n fun p => { p with
        tail := if p.head = none then none else p.tail }).freeMessage m)
      refine commitWake_room ?_ n
      exact h₂.of_room rfl
    · rename_i hres
      rw [hres] at hc
      exact h.withHandles hc
  · exact h

theorem cancel_room (r : ℕ) : PortRoom (kernelPortReceiveCancel s r).2.1 := by
  unfold kernelPortReceiveCancel
  dsimp only
  split
  · rename_i n m hn hm
    split
    · exact h
    have hc : PoolShape (kernelHandleImportCancel s.handles (s.receipts r).table r).2 :=
      perform_poolShape (fun _ _ rights => rights) h.shape (.importCancel (s.receipts r).table r)
    split
    · rename_i handles hres
      rw [hres] at hc
      have h₁ := h.withHandles hc
      generalize hs₂ : ((s.withHandles handles).setMessage m fun message =>
        { message with state := .queued }).setReceipt r emptyReceipt = s₂
      have h₂ : PortRoom s₂ := hs₂ ▸ h₁.of_room rfl
      have hw := h₂.of_room (room_wakeOne s₂ (portReadable n) astraSyscallOk)
      split
      · rename_i heq
        rw [heq] at hw
        exact hw
      · rename_i heq
        rw [heq] at hw
        exact hw.of_room rfl
    · rename_i hres
      rw [hres] at hc
      exact h.withHandles hc
  · exact h

/-! ## Runs -/

theorem handled_room (hh : PoolShape handles) : PortRoom (s.handled handles) := by
  unfold PortState.handled
  split
  · exact h.withHandles hh
  · exact (h.withHandles hh).of_room rfl

theorem advance_room : PortRoom s.advance := by
  unfold PortState.advance
  split
  · split
    · exact release_room (h.withFrames _) _ _
    · exact h.of_room rfl
  · dsimp only
    have hr := resume_poolShape h.shape
    split
    · exact (h.withFrames _).withHandles hr
    · exact ((h.withFrames _).withHandles hr).of_room rfl
  · exact afterClose_room _ _ (closeRest_room (h.withFrames _) _ _)
  · exact h
  · exact h

theorem step_room (ev : PortEvent) : PortRoom (s.step F ev) := by
  cases ev with
  | thread op => exact h.of_room rfl
  | handle c =>
    have hp := perform_poolShape F h.shape c
    refine handled_room ?_ hp
    split
    · exact h
    · exact h.of_room (room_retainEach _ s)
  | create owner maximumMessages maximumBytes grant =>
    exact h.of_room (room_create s owner maximumMessages maximumBytes grant)
  | abandon n => exact abandon_room h n
  | retain n endpoint => exact h.of_room (room_retain s n endpoint)
  | release n endpoint => exact release_room h n endpoint
  | send n τ rawMessage handles masks grant => exact send_room F h n τ rawMessage handles masks grant
  | prepare n τ messageCapacity handleCapacity r grants =>
    exact prepare_room h n τ messageCapacity handleCapacity r grants
  | commit r => exact commit_room F h r
  | cancel r => exact cancel_room h r
  | ownerDied owner =>
    dsimp only [PortState.step]
    unfold kernelPortOwnerDied
    split
    · exact h.of_room rfl
    · exact ownerDiedFrom_room owner _ _ _ _ s h
  | waitSet t members multiple now deadline rowMemory heapMemory =>
    dsimp only [PortState.step]
    unfold waitPortSet
    split
    · exact h.of_room rfl
    · dsimp only
      split
      · exact h.of_room rfl
      · exact h
  | advance => exact advance_room h
  | returned => exact h.of_room rfl

end

theorem run_room : ∀ (evs : List PortEvent) (s : PortState), PortRoom s → PortRoom (s.run F evs)
  | [], _, h => h
  | ev :: evs, s, h => run_room evs (s.step F ev) (step_room F h ev)

end room

end Astra
