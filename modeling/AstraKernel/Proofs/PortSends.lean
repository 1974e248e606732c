import AstraKernel.Proofs.PortRoom
import AstraKernel.Proofs.HandleUndone

/-!
# Sends that fail

A send that cannot be made gives its message's record back and undoes the export of the handles, so
that the ports, their queues, the sender's table and the detached handles are as they were.
-/

namespace Astra

open Function

/-- The ports with their queues, the messages in use, the counts, the handles and the threads are as
they were. -/
structure SendUndone (s s' : PortState) : Prop where
  port : s'.port = s.port
  messages : ∀ m, messageBacked s m → (s.message m).state ≠ .free → s'.message m = s.message m
  queuedMessages : s'.queuedMessages = s.queuedMessages
  queuedBytes : s'.queuedBytes = s.queuedBytes
  queuedHandles : s'.queuedHandles = s.queuedHandles
  messageUnits : s'.messageUnits = s.messageUnits
  handles : Undone s.handles s'.handles
  pool : s'.pool = s.pool
  poolCorrupt : s'.poolCorrupt = s.poolCorrupt

structure LeavesAdded (s s' : PortState) : Prop where
  port : s'.port = s.port
  messages : ∀ m, messageBacked s m → s'.message m = s.message m
  backed : ∀ m, messageBacked s m → messageBacked s' m
  queuedMessages : s'.queuedMessages = s.queuedMessages
  queuedBytes : s'.queuedBytes = s.queuedBytes
  queuedHandles : s'.queuedHandles = s.queuedHandles
  messageUnits : s'.messageUnits = s.messageUnits
  handles : s'.handles = s.handles
  pool : s'.pool = s.pool
  poolCorrupt : s'.poolCorrupt = s.poolCorrupt

section send

variable {s s' s₁ : PortState}

theorem LeavesAdded.refl (s : PortState) : LeavesAdded s s :=
  ⟨rfl, fun _ _ => rfl, fun _ h => h, rfl, rfl, rfl, rfl, rfl, rfl, rfl⟩

theorem LeavesAdded.trans (h : LeavesAdded s s₁) (h' : LeavesAdded s₁ s') : LeavesAdded s s' where
  port := h'.port.trans h.port
  messages m hm := (h'.messages m (h.backed m hm)).trans (h.messages m hm)
  backed m hm := h'.backed m (h.backed m hm)
  queuedMessages := h'.queuedMessages.trans h.queuedMessages
  queuedBytes := h'.queuedBytes.trans h.queuedBytes
  queuedHandles := h'.queuedHandles.trans h.queuedHandles
  messageUnits := h'.messageUnits.trans h.messageUnits
  handles := h'.handles.trans h.handles
  pool := h'.pool.trans h.pool
  poolCorrupt := h'.poolCorrupt.trans h.poolCorrupt

theorem LeavesAdded.undone (h : LeavesAdded s s') (hp : kernelHandleTransferPoolValid s.handles) :
    SendUndone s s' :=
  ⟨h.port, fun m hm _ => h.messages m hm, h.queuedMessages, h.queuedBytes, h.queuedHandles,
    h.messageUnits, by
      rw [h.handles]
      exact .of_tables rfl rfl (fun _ _ _ => Iff.rfl) hp, h.pool, h.poolCorrupt⟩

theorem ensureMessageLeaf_added (s : PortState) {slot : ℕ} (memory : Bool)
    (hslot : slot < kernelPortMessageMax) :
    LeavesAdded s (s.ensureMessageLeaf slot memory).2 ∧
      ((s.ensureMessageLeaf slot memory).1 = true →
        messageBacked (s.ensureMessageLeaf slot memory).2 slot) := by
  unfold PortState.ensureMessageLeaf
  dsimp only
  split
  · rename_i hb
    exact ⟨.refl s, fun _ => ⟨hslot, hb⟩⟩
  rename_i hb
  split
  · refine ⟨⟨rfl, fun m hm => ?_, fun m hm => ⟨hm.1, ?_⟩, rfl, rfl, rfl, rfl, rfl, rfl, rfl⟩,
      fun _ => ⟨hslot, ?_⟩⟩
    · -- a message that is there is in another leaf
      have hne : m / messageLeafEntries ≠ slot / messageLeafEntries := fun h1 => hb (h1 ▸ hm.2)
      simp [PortState.addMessageLeaf, hne]
    · show update s.messageDirectory (slot / messageLeafEntries) true (m / messageLeafEntries) = true
      by_cases h1 : m / messageLeafEntries = slot / messageLeafEntries
      · rw [h1, update_self]
      · rw [update_of_ne h1]
        exact hm.2
    · exact update_self _ _ _
  · exact ⟨.refl s, fun h1 => by simp at h1⟩

theorem claimMessageSlot_added (memory : Bool) : ∀ (fuel : ℕ) (s : PortState) (offset : ℕ),
    s.nextMessageSlot < kernelPortMessageMax → fuel + offset = kernelPortMessageMax →
    LeavesAdded s (claimMessageSlot memory fuel s offset).2 ∧
      ∀ m, (claimMessageSlot memory fuel s offset).1 = some m →
        messageBacked (claimMessageSlot memory fuel s offset).2 m ∧
          ((claimMessageSlot memory fuel s offset).2.message m).state = .free
  | 0, s, _, _, _ => ⟨.refl s, fun m hm => by simp [claimMessageSlot] at hm⟩
  | fuel + 1, s, offset, hnext, hf => by
    rw [claimMessageSlot]
    have hslot : (if kernelPortMessageMax ≤ s.nextMessageSlot + offset then
        s.nextMessageSlot + offset - kernelPortMessageMax else s.nextMessageSlot + offset) <
          kernelPortMessageMax := by
      split_ifs <;> omega
    generalize (if kernelPortMessageMax ≤ s.nextMessageSlot + offset then
      s.nextMessageSlot + offset - kernelPortMessageMax else s.nextMessageSlot + offset) = slot at hslot ⊢
    obtain ⟨h₁, hb⟩ := ensureMessageLeaf_added s memory hslot
    have hroom := ensureMessageLeaf_room s slot memory
    generalize s.ensureMessageLeaf slot memory = r at h₁ hb hroom ⊢
    rcases r with ⟨_ | _, s₁⟩
    · exact ⟨h₁, fun m hm => by simp at hm⟩
    dsimp only at h₁ hb hroom ⊢
    split
    · rename_i hfree
      refine ⟨⟨h₁.1, h₁.2, h₁.3, h₁.4, h₁.5, h₁.6, h₁.7, h₁.8, h₁.9, h₁.10⟩, fun m hm => ?_⟩
      cases hm
      exact ⟨hb rfl, hfree⟩
    · have hnext₁ : s₁.nextMessageSlot < kernelPortMessageMax := by
        have hsame := congrArg Prod.snd hroom
        exact lt_of_eq_of_lt hsame hnext
      obtain ⟨h₂, hm⟩ := claimMessageSlot_added memory fuel s₁ (offset + 1) hnext₁ (by omega)
      exact ⟨h₁.trans h₂, hm⟩

theorem allocateMessage_added (hnext : s.nextMessageSlot < kernelPortMessageMax)
    (grant : RecordGrant) :
    (allocateMessage s grant).1 = .corrupt ∨
    (∃ s₁, allocateMessage s grant = (.noSlot, s₁, none) ∧ LeavesAdded s s₁) ∨
    ∃ s₁ m generation, LeavesAdded s s₁ ∧ messageBacked s₁ m ∧ (s₁.message m).state = .free ∧
      allocateMessage s grant = (.ok, { s₁.setMessage m fun _ =>
        resetMessageMetadata generation .reserved with messageUnits := s₁.messageUnits + 1 },
        some m) := by
  unfold allocateMessage
  split
  · exact .inr (.inl ⟨s, rfl, .refl s⟩)
  obtain ⟨h₁, hm⟩ := claimMessageSlot_added grant.leaf kernelPortMessageMax s 0 hnext rfl
  generalize claimMessageSlot grant.leaf kernelPortMessageMax s 0 = r at h₁ hm ⊢
  rcases r with ⟨_ | m, s₁⟩
  · exact .inr (.inl ⟨s₁, rfl, h₁⟩)
  obtain ⟨hb, hfree⟩ := hm m rfl
  dsimp only
  split
  · exact .inl rfl
  · exact .inr (.inr ⟨s₁, m, _, h₁, hb, hfree, rfl⟩)

theorem freeMessage_eq {m : ℕ} (hb : messageBacked s m) (hst : (s.message m).state ≠ .free)
    (hu : s.messageUnits ≠ 0) : freeMessage s m =
      { s.setMessage m fun message => resetMessageMetadata message.generation .free with
        nextMessageSlot := if m < s.nextMessageSlot then m else s.nextMessageSlot
        messageUnits := s.messageUnits - 1 } := by
  unfold freeMessage
  rw [if_neg fun h => h.elim (fun h1 => h1 hb) hst]
  show (if s.messageUnits = 0 then _ else _) = _
  rw [if_neg hu]
  rfl

variable (F : KernelHandleImportRights) {τ : ℕ}

theorem exportHandles_undone {handles : HandleState} (hs : PoolShape handles)
    (hp : kernelHandleTransferPoolValid handles) (ht : kernelHandleTableValid handles τ = true)
    (list : List ℕ) (masks : Option (ℕ → HandleRights)) (grant : SendGrant)
    (hok : (exportHandles F handles τ list masks grant).1 ≠ .ok)
    (hcorrupt : (exportHandles F handles τ list masks grant).1 ≠ .corrupt) :
    (exportHandles F handles τ list masks grant).2.1 = true ∧
      Undone handles (exportHandles F handles τ list masks grant).2.2 := by
  unfold exportHandles at hok hcorrupt ⊢
  obtain ⟨hc, -⟩ | ⟨hfail, hundone⟩ | ⟨made, s₁, hne, h, hres⟩ :=
    prepare_held F hs hp ht list handleRightTransfer grant.batch grant.detached
  · generalize kernelHandleTransferPrepare F handles τ list handleRightTransfer grant.batch
      grant.detached = r at hc hok hcorrupt ⊢
    rcases r with ⟨status, s₁⟩
    subst hc
    exact absurd rfl hcorrupt
  · generalize kernelHandleTransferPrepare F handles τ list handleRightTransfer grant.batch
      grant.detached = r at hfail hundone hok hcorrupt ⊢
    rcases r with ⟨status, s₁⟩
    cases status with
    | ok => exact absurd rfl hfail
    | _ => exact ⟨rfl, hundone⟩
  · obtain ⟨q, hq⟩ : ∃ q, q = (s₁.setBatch grant.batch
      { entries := made, state := .prepared }).setStats { s₁.transferStats with
        reservedDetached := s₁.transferStats.reservedDetached + made.length
        preparedExports := s₁.transferStats.preparedExports + 1 } := ⟨_, rfl⟩
    have hundone := (prepared_undone (F := F) hs hp hne h hq).2
    rw [hres, ← hq] at hok hcorrupt ⊢
    rcases masks with _ | masks
    · -- nothing to narrow, so only the commit can fail
      dsimp only [narrowHandles] at hok hcorrupt ⊢
      generalize kernelHandleTransferCommitExport q τ grant.batch = r at hok hcorrupt ⊢
      rcases r with ⟨status, s₂⟩
      cases status with
      | ok => exact absurd rfl hok
      | _ => exact absurd rfl hcorrupt
    · obtain ⟨-, hroll, hback⟩ := hundone masks
      dsimp only [narrowHandles] at hok hcorrupt ⊢
      generalize kernelHandleTransferNarrow F q grant.batch masks = r at hroll hback hok hcorrupt ⊢
      rcases r with ⟨status, s₂⟩
      cases status with
      | ok =>
        dsimp only at hok hcorrupt ⊢
        generalize kernelHandleTransferCommitExport s₂ τ grant.batch = r at hok hcorrupt ⊢
        rcases r with ⟨status, s₃⟩
        cases status with
        | ok => exact absurd rfl hok
        | _ => exact absurd rfl hcorrupt
      | _ => exact ⟨decide_eq_true hroll, hback⟩

theorem sendMessage_undone (h : PortRoom s) (hp : kernelHandleTransferPoolValid s.handles)
    (ht : kernelHandleTableValid s.handles τ = true) (n : ℕ) (rawMessage : List (BitVec 8))
    (handles : List ℕ) (masks : Option (ℕ → HandleRights)) (grant : SendGrant)
    (hok : (sendMessage F s n τ rawMessage handles masks grant).1 ≠ .ok)
    (hcorrupt : (sendMessage F s n τ rawMessage handles masks grant).1 ≠ .corrupt) :
    SendUndone s (sendMessage F s n τ rawMessage handles masks grant).2.1 ∧
      (sendMessage F s n τ rawMessage handles masks grant).2.2 = none := by
  unfold sendMessage at hok hcorrupt ⊢
  obtain hc | ⟨s₁, heq, h₁⟩ | ⟨s₁, m, generation, h₁, hb, hfree, heq⟩ :=
    allocateMessage_added h.next grant.record
  · generalize allocateMessage s grant.record = r at hc hok hcorrupt ⊢
    rcases r with ⟨status, s₁, o⟩
    subst hc
    exact absurd rfl hcorrupt
  · rw [heq]
    exact ⟨h₁.undone hp, rfl⟩
  obtain ⟨s₀, hs₀⟩ : ∃ s₀ : PortState, s₀ = { s₁.setMessage m fun _ =>
    resetMessageMetadata generation .reserved with messageUnits := s₁.messageUnits + 1 } := ⟨_, rfl⟩
  rw [← hs₀] at heq
  rw [heq] at hok hcorrupt ⊢
  dsimp only at hok hcorrupt ⊢
  generalize hs₂ : (s₀.setMessage m fun message => { message with
    data := rawMessage, sender := (s₀.handles.tables τ).processId, portSlot := some n }) = s₂
    at hok hcorrupt ⊢
  have hhandles : s₂.handles = s.handles := by
    rw [← hs₂, hs₀]
    exact h₁.handles
  have hrest : ∀ i, i ≠ m → s₂.message i = s₁.message i := by
    intro i hi
    rw [← hs₂, hs₀]
    simp [PortState.setMessage, hi]
  have hmessage : messageBacked s₂ m ∧ (s₂.message m).state ≠ .free := by
    rw [← hs₂, hs₀]
    exact ⟨hb, by simp [PortState.setMessage, resetMessageMetadata]⟩
  have hunits : s₂.messageUnits = s.messageUnits + 1 := by
    rw [← h₁.messageUnits, ← hs₂, hs₀]
    rfl
  have hsame : s₂.port = s.port ∧ s₂.queuedMessages = s.queuedMessages ∧
      s₂.queuedBytes = s.queuedBytes ∧ s₂.queuedHandles = s.queuedHandles ∧ s₂.pool = s.pool ∧
      s₂.poolCorrupt = s.poolCorrupt := by
    rw [← hs₂, hs₀]
    exact ⟨h₁.port, h₁.queuedMessages, h₁.queuedBytes, h₁.queuedHandles, h₁.pool, h₁.poolCorrupt⟩
  have hr : (if handles = [] then ((.ok, true, s₂.handles) :
        KernelPortStatus × Bool × HandleState)
      else exportHandles F s₂.handles τ handles masks grant).1 ≠ .ok →
      (if handles = [] then ((.ok, true, s₂.handles) : KernelPortStatus × Bool × HandleState)
      else exportHandles F s₂.handles τ handles masks grant).1 ≠ .corrupt →
      (if handles = [] then ((.ok, true, s₂.handles) : KernelPortStatus × Bool × HandleState)
      else exportHandles F s₂.handles τ handles masks grant).2.1 = true ∧
      Undone s.handles
        (if handles = [] then ((.ok, true, s₂.handles) : KernelPortStatus × Bool × HandleState)
        else exportHandles F s₂.handles τ handles masks grant).2.2 := by
    rw [hhandles]
    split
    · exact fun hne => absurd rfl hne
    · exact exportHandles_undone F h.shape hp ht handles masks grant
  generalize (if handles = [] then ((.ok, true, s₂.handles) : KernelPortStatus × Bool × HandleState)
    else exportHandles F s₂.handles τ handles masks grant) = r at hr hok hcorrupt ⊢
  by_cases hrok : r.1 = .ok
  · -- the message is queued: only the wake-up is left
    exfalso
    rw [if_neg (not_not.2 hrok)] at hok hcorrupt
    split at hok
    · exact hok rfl
    · rename_i hwake
      rw [hwake] at hcorrupt
      exact hcorrupt rfl
  · rw [if_pos hrok] at hcorrupt ⊢
    obtain ⟨hrolled, hundone⟩ := hr hrok hcorrupt
    rw [if_pos hrolled, freeMessage_eq (s := s₂.withHandles r.2.2) hmessage.1 hmessage.2
      (by show s₂.messageUnits ≠ 0; omega)]
    refine ⟨⟨hsame.1, fun i hi hst => ?_, hsame.2.1, hsame.2.2.1, hsame.2.2.2.1, ?_, hundone,
      hsame.2.2.2.2.1, hsame.2.2.2.2.2⟩, rfl⟩
    · have hne : i ≠ m := by
        rintro rfl
        rw [h₁.messages i hi] at hfree
        exact hst hfree
      rw [← h₁.messages i hi, ← hrest i hne]
      simp [PortState.setMessage, PortState.withHandles, hne]
    · show s₂.messageUnits - 1 = s.messageUnits
      omega

/-- A send that fails, other than by finding the kernel's own records inconsistent, changes nothing
and wakes no thread. -/
theorem send_undone (p : Pool) (evs : List PortEvent)
    (hs : s = (kernelPortPoolInit p kernelHandleTransferPoolInit).run F evs)
    (hp : kernelHandleTransferPoolValid s.handles)
    (ht : kernelHandleTableValid s.handles τ = true) (n : ℕ) (rawMessage : List (BitVec 8))
    (handles : List ℕ) (masks : Option (ℕ → HandleRights)) (grant : SendGrant)
    (hok : (kernelPortSendNarrowed F s n τ rawMessage handles masks grant).1 ≠ .ok)
    (hcorrupt : (kernelPortSendNarrowed F s n τ rawMessage handles masks grant).1 ≠ .corrupt) :
    SendUndone s (kernelPortSendNarrowed F s n τ rawMessage handles masks grant).2.1 ∧
      (kernelPortSendNarrowed F s n τ rawMessage handles masks grant).2.2 = none := by
  have hroom : PortRoom s := by
    rw [hs]
    exact run_room F evs _ ⟨poolShape_init, Nat.zero_lt_succ _⟩
  have hsame : SendUndone s s := (LeavesAdded.refl s).undone hp
  unfold kernelPortSendNarrowed at hok hcorrupt ⊢
  dsimp only at hok hcorrupt ⊢
  split at hok
  · rename_i hc
    rw [if_pos hc]
    exact ⟨hsame, rfl⟩
  rename_i hc
  rw [if_neg hc] at hcorrupt ⊢
  split at hok
  · rename_i hc
    rw [if_pos hc]
    exact ⟨hsame, rfl⟩
  rename_i hc
  rw [if_neg hc] at hcorrupt ⊢
  split at hok
  · rename_i hc
    rw [if_pos hc]
    exact ⟨hsame, rfl⟩
  rename_i hc
  rw [if_neg hc] at hcorrupt ⊢
  split at hok
  · rename_i hc
    rw [if_pos hc]
    exact ⟨hsame, rfl⟩
  rename_i hc
  rw [if_neg hc] at hcorrupt ⊢
  split at hok
  · rename_i hc
    rw [if_pos hc]
    exact ⟨hsame, rfl⟩
  rename_i hc
  rw [if_neg hc] at hcorrupt ⊢
  split at hok
  · rename_i hc
    rw [if_pos hc] at hcorrupt ⊢
    exact sendMessage_undone F hroom hp ht n rawMessage handles masks grant hok hcorrupt
  rename_i hc
  rw [if_neg hc] at hcorrupt ⊢
  have hv : s.withHandles (kernelHandleTransferValidate F s.handles τ handles handleRightTransfer).2 =
      s := by
    unfold kernelHandleTransferValidate
    rw [(validateTransferSources_valid F ht handles handleRightTransfer).1]
    rfl
  rw [hv] at hok hcorrupt ⊢
  split at hok
  · rename_i hc
    rw [if_pos hc]
    exact ⟨hsame, rfl⟩
  · rename_i hc
    rw [if_neg hc] at hcorrupt ⊢
    exact sendMessage_undone F hroom hp ht n rawMessage handles masks grant hok hcorrupt

/-- A port is created, and a handle that may be sent is installed. -/
def portAndSendable : List PortEvent :=
  [.create 1 1 1048 ⟨true, true, true⟩,
    .handle (.install 0 .sync (handleRightTransfer ||| 1#32) 1 (some 7) 0 ⟨true, true, true⟩)]

def portWithSendable : PortState :=
  (kernelPortPoolInit (kernelThreadPoolInit true) kernelHandleTransferPoolInit).run
    (fun _ _ rights => rights) portAndSendable

/-- The handle is sent with no right left. -/
def rightlessSend : KernelPortStatus × PortState × Option Slot :=
  kernelPortSendNarrowed (fun _ _ rights => rights) portWithSendable 0 0 (List.replicate 24 0#8)
    [makeHandle 0 1] (some fun _ => 0#32)
    ⟨⟨true, true, true⟩, fun _ => ⟨true, fun _ => true, true⟩, 0⟩

theorem send_undone_rightless : rightlessSend.1 = .invalidArgument ∧
    SendUndone portWithSendable rightlessSend.2.1 ∧ rightlessSend.2.2 = none := by
  have hr : rightlessSend.1 = .invalidArgument := by decide +kernel
  have hsame : SameTransfer kernelHandleTransferPoolInit portWithSendable.handles :=
    ⟨rfl, rfl, rfl, rfl, rfl, rfl, rfl, rfl⟩
  have ht : kernelHandleTableValid portWithSendable.handles 0 = true := by decide +kernel
  refine ⟨hr, ?_⟩
  exact send_undone (s := portWithSendable) _ _ _ rfl (hsame.valid rfl transferPoolValid_init)
    ht _ _ _ _ _ (fun h => by cases hr.symm.trans h) fun h => by cases hr.symm.trans h

end send

end Astra
