import AstraKernel.Handle.Step
import AstraKernel.Ledger

/-!
# What a call does to the handle tables

What the tables and the detached pool hold is the state's view. A call changes it by a sequence of
updates (`HandleUpdate`), each guarded by what the code has just checked; what every update keeps,
every run keeps.
-/

namespace Astra

open Function HandleState

/-- The entry's reference is still to be released: by a close, or by the one under way. -/
def KernelHandleEntry.holds (e : KernelHandleEntry) : Prop :=
  e.occupied = true ∨ e.reserved = .closing

instance (e : KernelHandleEntry) : Decidable e.holds := inferInstanceAs (Decidable (_ ∨ _))

def KernelHandleEntry.retired (e : KernelHandleEntry) : KernelHandleEntry :=
  { freeHandleEntry with
    generation := kernelGenerationNextMasked e.generation kernelHandleGenerationMask
    retirements := e.retirements + 1 }

structure HandleView where
  entry : ℕ → ℕ → KernelHandleEntry
  free : ℕ → ℕ → Bool
  detached : ℕ → Option KernelDetachedEntry
  acquired : List HandleGrant
  dropped : List (ℕ × HandleGrant)
  frames : List ReleaseFrame
  reservations : ℕ → KernelHandleImportReservation

def HandleState.view (s : HandleState) : HandleView :=
  { entry := s.entry, free := s.slotFree, detached := s.detachedEntryAt, acquired := s.acquired,
    dropped := s.dropped, frames := s.frames, reservations := s.reservations }

namespace HandleView

def setEntry (v : HandleView) (τ i : ℕ) (e : KernelHandleEntry) : HandleView :=
  { v with entry := fun τ' j => if τ' = τ ∧ j = i then e else v.entry τ' j }

def setFree (v : HandleView) (τ i : ℕ) (b : Bool) : HandleView :=
  { v with free := fun τ' j => if τ' = τ ∧ j = i then b else v.free τ' j }

def setDetached (v : HandleView) (d : ℕ) (e : KernelDetachedEntry) : HandleView :=
  { v with detached := fun d' => if d' = d then some e else v.detached d' }

def acquire (v : HandleView) (g : HandleGrant) : HandleView :=
  { v with acquired := v.acquired ++ [g] }

def drop (v : HandleView) (reference : ℕ) (g : HandleGrant) : HandleView :=
  { v with dropped := v.dropped ++ [(reference, g)] }

def pending (v : HandleView) : List ℕ := v.frames.flatMap ReleaseFrame.pending

section fields

variable (v : HandleView) (τ i d t : ℕ) (e : KernelHandleEntry) (b : Bool)
  (e' : KernelDetachedEntry) (g : HandleGrant)

@[simp] theorem setEntry_free : (v.setEntry τ i e).free = v.free := rfl
@[simp] theorem setEntry_detached : (v.setEntry τ i e).detached = v.detached := rfl
@[simp] theorem setEntry_acquired : (v.setEntry τ i e).acquired = v.acquired := rfl
@[simp] theorem setEntry_dropped : (v.setEntry τ i e).dropped = v.dropped := rfl
@[simp] theorem setEntry_pending : (v.setEntry τ i e).pending = v.pending := rfl
@[simp] theorem setEntry_reservations : (v.setEntry τ i e).reservations = v.reservations := rfl
@[simp] theorem setFree_entry : (v.setFree τ i b).entry = v.entry := rfl
@[simp] theorem setFree_detached : (v.setFree τ i b).detached = v.detached := rfl
@[simp] theorem setFree_pending : (v.setFree τ i b).pending = v.pending := rfl
@[simp] theorem setFree_reservations : (v.setFree τ i b).reservations = v.reservations := rfl
@[simp] theorem setDetached_entry : (v.setDetached d e').entry = v.entry := rfl
@[simp] theorem setDetached_free : (v.setDetached d e').free = v.free := rfl
@[simp] theorem setDetached_acquired : (v.setDetached d e').acquired = v.acquired := rfl
@[simp] theorem setDetached_dropped : (v.setDetached d e').dropped = v.dropped := rfl
@[simp] theorem setDetached_pending : (v.setDetached d e').pending = v.pending := rfl
@[simp] theorem setDetached_reservations :
    (v.setDetached d e').reservations = v.reservations := rfl
@[simp] theorem acquire_entry : (v.acquire g).entry = v.entry := rfl
@[simp] theorem acquire_free : (v.acquire g).free = v.free := rfl
@[simp] theorem acquire_detached : (v.acquire g).detached = v.detached := rfl
@[simp] theorem acquire_pending : (v.acquire g).pending = v.pending := rfl
@[simp] theorem acquire_reservations : (v.acquire g).reservations = v.reservations := rfl
@[simp] theorem drop_entry : (v.drop t g).entry = v.entry := rfl
@[simp] theorem drop_free : (v.drop t g).free = v.free := rfl
@[simp] theorem drop_detached : (v.drop t g).detached = v.detached := rfl
@[simp] theorem drop_pending : (v.drop t g).pending = v.pending := rfl
@[simp] theorem drop_reservations : (v.drop t g).reservations = v.reservations := rfl

@[simp] theorem setEntry_entry (τ' j : ℕ) :
    (v.setEntry τ i e).entry τ' j = if τ' = τ ∧ j = i then e else v.entry τ' j := rfl

@[simp] theorem setFree_free (τ' j : ℕ) :
    (v.setFree τ i b).free τ' j = if τ' = τ ∧ j = i then b else v.free τ' j := rfl

@[simp] theorem setDetached_at (d' : ℕ) :
    (v.setDetached d e').detached d' = if d' = d then some e' else v.detached d' := rfl

end fields

end HandleView

section view

variable (s : HandleState)

@[simp] theorem view_entry : s.view.entry = s.entry := rfl
@[simp] theorem view_free : s.view.free = s.slotFree := rfl
@[simp] theorem view_detached : s.view.detached = s.detachedEntryAt := rfl
@[simp] theorem view_acquired : s.view.acquired = s.acquired := rfl
@[simp] theorem view_dropped : s.view.dropped = s.dropped := rfl
@[simp] theorem view_frames : s.view.frames = s.frames := rfl
@[simp] theorem view_reservations : s.view.reservations = s.reservations := rfl
@[simp] theorem view_pending : s.view.pending = s.pending := rfl

theorem entry_setEntry (τ i : ℕ) (e : KernelHandleEntry) (τ' j : ℕ) :
    (s.setEntry τ i e).entry τ' j = if τ' = τ ∧ j = i then e else s.entry τ' j := by
  by_cases hτ : τ' = τ
  · subst hτ
    by_cases hj : j = i
    · subst hj
      simp [entry, setEntry]
    · simp [entry, setEntry, hj]
  · simp [entry, setEntry, hτ]

theorem slotFree_setEntry (τ i : ℕ) (e : KernelHandleEntry) :
    (s.setEntry τ i e).slotFree = s.slotFree := by
  funext τ' j
  by_cases hτ : τ' = τ
  · subst hτ
    simp [slotFree, setEntry]
  · simp [slotFree, setEntry, hτ]

theorem entry_setSlotFree (τ i : ℕ) (b : Bool) : (s.setSlotFree τ i b).entry = s.entry := by
  funext τ' j
  by_cases hτ : τ' = τ
  · subst hτ
    simp [entry, setSlotFree]
  · simp [entry, setSlotFree, hτ]

theorem slotFree_setSlotFree (τ i : ℕ) (b : Bool) (τ' j : ℕ) :
    (s.setSlotFree τ i b).slotFree τ' j = if τ' = τ ∧ j = i then b else s.slotFree τ' j := by
  by_cases hτ : τ' = τ
  · subst hτ
    by_cases hj : j = i
    · subst hj
      simp [slotFree, setSlotFree]
    · simp [slotFree, setSlotFree, hj]
  · simp [slotFree, setSlotFree, hτ]

@[simp] theorem view_setEntry (τ i : ℕ) (e : KernelHandleEntry) :
    (s.setEntry τ i e).view = s.view.setEntry τ i e := by
  have he : (s.setEntry τ i e).entry = fun τ' j => if τ' = τ ∧ j = i then e else s.entry τ' j :=
    funext fun _ => funext fun _ => entry_setEntry s τ i e _ _
  simp only [HandleState.view, HandleView.setEntry, he, slotFree_setEntry]
  rfl

@[simp] theorem view_setSlotFree (τ i : ℕ) (b : Bool) :
    (s.setSlotFree τ i b).view = s.view.setFree τ i b := by
  have hf : (s.setSlotFree τ i b).slotFree =
      fun τ' j => if τ' = τ ∧ j = i then b else s.slotFree τ' j :=
    funext fun _ => funext fun _ => slotFree_setSlotFree s τ i b _ _
  simp only [HandleState.view, HandleView.setFree, hf, entry_setSlotFree]
  rfl

theorem detachedEntryAt_setDetached {d : ℕ} {e e' : KernelDetachedEntry}
    (h : s.detachedEntryAt d = some e') (d' : ℕ) :
    (s.setDetached d e).detachedEntryAt d' = if d' = d then some e else s.detachedEntryAt d' := by
  unfold detachedEntryAt at h
  split_ifs at h with hd
  obtain ⟨leaf, hl, -⟩ := Option.map_eq_some_iff.1 h
  by_cases hdd : d' = d
  · subst hdd
    simp [detachedEntryAt, setDetached, hd, hl]
  · by_cases hleaf : d' / detachedLeafEntries = d / detachedLeafEntries
    · have hne : d' % detachedLeafEntries ≠ d % detachedLeafEntries := by
        intro he
        exact hdd (by rw [← Nat.div_add_mod d' detachedLeafEntries, hleaf, he, Nat.div_add_mod])
      simp [detachedEntryAt, setDetached, hleaf, hl, hdd, update_of_ne hne]
    · simp [detachedEntryAt, setDetached, hdd, update_of_ne hleaf]

theorem view_setDetached {d : ℕ} {e e' : KernelDetachedEntry}
    (h : s.detachedEntryAt d = some e') : (s.setDetached d e).view = s.view.setDetached d e := by
  have hd : (s.setDetached d e).detachedEntryAt =
      fun d' => if d' = d then some e else s.detachedEntryAt d' :=
    funext (detachedEntryAt_setDetached s h)
  simp only [HandleState.view, HandleView.setDetached, hd]
  rfl

@[simp] theorem view_flag : s.flag.view = s.view := rfl

@[simp] theorem view_flagUnless (r : Bool × HandleState) : (flagUnless r).view = r.2.view := by
  obtain ⟨b, s⟩ := r
  cases b <;> rfl

@[simp] theorem view_noting (status : KernelHandleStatus) : (s.noting status).view = s.view := by
  cases status <;> rfl

@[simp] theorem view_slotCommit : s.slotCommit.view = s.view := rfl

@[simp] theorem view_slotRelease : s.slotRelease.2.view = s.view := by
  unfold slotRelease
  split_ifs <;> rfl

@[simp] theorem view_acquire (g : HandleGrant) : (s.acquire g).view = s.view.acquire g := rfl

@[simp] theorem view_drop (t : ℕ) (g : HandleGrant) : (s.drop t g).view = s.view.drop t g := rfl

@[simp] theorem view_lose (g : HandleGrant) :
    (s.lose g).view = (s.view.acquire g).drop s.acquired.length g := rfl

@[simp] theorem view_pushFrame (f : ReleaseFrame) :
    (s.pushFrame f).view = { s.view with frames := f :: s.frames } := rfl

@[simp] theorem view_setBatch (b : ℕ) (batch : KernelHandleTransferBatch) :
    (s.setBatch b batch).view = s.view := rfl

@[simp] theorem view_setStats (stats : KernelHandleTransferStats) :
    (s.setStats stats).view = s.view := rfl

@[simp] theorem view_setReservation (r : ℕ) (reservation : KernelHandleImportReservation) :
    (s.setReservation r reservation).view =
      { s.view with reservations := update s.reservations r reservation } := rfl

theorem view_releaseFreeSlot (τ i : ℕ) : (s.releaseFreeSlot τ i).2.view =
    if (s.entry τ i).occupied ∨ (s.entry τ i).reserved ≠ .none ∨ s.slotFree τ i then s.view
    else s.view.setFree τ i true := by
  unfold releaseFreeSlot
  split_ifs <;> simp

@[simp] theorem view_detachedUnitRelease : s.detachedUnitRelease.2.view = s.view := by
  unfold detachedUnitRelease
  split_ifs <;> rfl

theorem view_freeDetachedEntry {d : ℕ} {e e' : KernelDetachedEntry}
    (h : s.detachedEntryAt d = some e') :
    (s.freeDetachedEntry d e).view = s.view.setDetached d (clearDetachedEntry e.slot
      (kernelGenerationNextMasked e.generation kernelDetachedGenerationMask)) := by
  unfold freeDetachedEntry
  rw [view_flagUnless, view_detachedUnitRelease, ← view_setDetached s h]
  rfl

end view

theorem findEntry_ok {s : HandleState} {τ h i : ℕ} (hf : findEntry s τ h = .ok i) :
    i < kernelHandleMaxEntries ∧ (s.entry τ i).occupied = true ∧ (s.entry τ i).reserved = .none ∧
      s.slotFree τ i = false ∧ h = makeHandle i (s.entry τ i).generation ∧
      (s.entry τ i).generation ≠ 0 ∧ i = h % 256 - 1 := by
  unfold findEntry at hf
  simp only at hf
  split_ifs at hf with h1 h2 h3
  obtain rfl : h % 256 - 1 = i := by simpa using hf
  push Not at h1 h2 h3
  obtain ⟨ho, hr, hg⟩ := h3
  have hocc : (s.entry τ (h % 256 - 1)).occupied = true := by simpa using ho
  refine ⟨by omega, hocc, hr, ?_, ?_, ?_, rfl⟩
  · simpa using h2 hocc
  · rw [makeHandle, hg]
    omega
  · rw [hg]
    exact h1.2.2

theorem findEntry_ne_ok (s : HandleState) (τ h : ℕ) : findEntry s τ h ≠ .error .ok := by
  unfold findEntry
  simp only
  split_ifs <;> simp

theorem findDetachedEntry_some {s : HandleState} {h d : ℕ} {st : KernelDetachedState}
    {e : KernelDetachedEntry} (hf : s.findDetachedEntry h st = some (d, e)) :
    s.detachedEntryAt d = some e ∧ e.state = st ∧ d = detachedSlot h ∧
      h = makeDetachedHandle d e.generation := by
  unfold findDetachedEntry at hf
  simp only at hf
  split_ifs at hf with h1
  obtain ⟨c, hc, hd⟩ := Option.bind_eq_some_iff.1 hf
  split_ifs at hd with h2
  obtain ⟨rfl, rfl⟩ : h % 65536 - 1 = d ∧ c = e := by simpa using hd
  push Not at h1 h2
  refine ⟨hc, h2.2, rfl, ?_⟩
  rw [makeDetachedHandle, h2.1]
  omega

/-- The calls that install a reference into `τ`, as far as authority goes. -/
def HandleEvent.Installs (ev : HandleEvent) (τ object : ℕ) (rights : HandleRights) : Prop :=
  (∃ type release context grant,
    ev = .call (.install τ type rights object release context grant)) ∨
  ∃ type retain release context grant,
    ev = .call (.installCloneable τ type rights object retain release context grant)

/-- The calls that copy a handle of `σ` into `τ`. -/
def HandleEvent.Duplicates (ev : HandleEvent) (σ τ : ℕ) (rights : HandleRights) : Prop :=
  (∃ source grant, ev = .call (.duplicateInto σ source rights τ grant)) ∨
  σ = τ ∧ ∃ source grant, ev = .call (.duplicate τ source rights grant)

/-- The events that close all of `τ`: by a call, by a clone that fails, or when a callback returns
to such a clone. -/
def HandleEvent.Marks (ev : HandleEvent) (τ : ℕ) : Prop :=
  ev = .call (.closeAll τ) ∨ (∃ σ grants, ev = .call (.cloneTable σ τ grants)) ∨ ev = .returned

variable (F : KernelHandleImportRights)

/-- The event is a call that succeeds. -/
def HandleEvent.Succeeds (ev : HandleEvent) (s : HandleState) : Prop :=
  ∃ c, ev = .call c ∧ (s.perform F c).1.1 = .ok

inductive HandleUpdate (s : HandleState) (ev : HandleEvent) : HandleView → HandleView → Prop
  | claimed (v : HandleView) (τ i : ℕ) : HandleUpdate s ev v (v.setFree τ i false)
  | freed (v : HandleView) (τ i : ℕ) :
    (v.entry τ i).occupied = false → (v.entry τ i).reserved = .none →
    HandleUpdate s ev v (v.setFree τ i true)
  /-- An entry that holds nothing before and after: reserved for an import, given back, or left
  over where the allocator failed. -/
  | idle (v : HandleView) (τ i : ℕ) (e : KernelHandleEntry) :
    ¬ (v.entry τ i).holds → ¬ e.holds → (e.reserved ≠ .none → v.free τ i = false) →
    e.retirements = (v.entry τ i).retirements →
    e.generation = (v.entry τ i).generation ∨
      e.generation = normalGeneration (v.entry τ i).generation kernelHandleGenerationMask →
    HandleUpdate s ev v (v.setEntry τ i e)
  /-- A clone's slot follows the source's generation. -/
  | adopted (v : HandleView) (σ τ i : ℕ) (grants : ℕ → SlotGrant) (e : KernelHandleEntry) :
    ev = .call (.cloneTable σ τ grants) → v.entry τ i = freeHandleEntry →
    e.occupied = false → e.reserved = .none →
    e.generation = (v.entry σ i).generation ∧ e.retirements = (v.entry σ i).retirements ∨
      e.generation = (v.entry σ i).retired.generation ∧
        e.retirements = (v.entry σ i).retired.retirements →
    HandleUpdate s ev v (v.setEntry τ i e)
  | installed (v : HandleView) (τ i : ℕ) (e : KernelHandleEntry) :
    ev.Installs τ e.object e.rights → ev.Succeeds F s → ¬ (v.entry τ i).holds →
    v.free τ i = false →
    e.occupied = true → e.reserved = .none → e.reference = v.acquired.length →
    e.retirements = (v.entry τ i).retirements →
    e.generation = normalGeneration (v.entry τ i).generation kernelHandleGenerationMask →
    HandleUpdate s ev v ((v.setEntry τ i e).acquire e.grant)
  | copied (v : HandleView) (σ j τ i : ℕ) (e : KernelHandleEntry) :
    ev.Duplicates σ τ e.rights → v.entry σ j = s.entry σ j → (v.entry σ j).occupied = true →
    (v.entry σ j).rights &&& handleRightTransfer ≠ 0 → e.rights &&& ~~~(v.entry σ j).rights = 0 →
    e.object = (v.entry σ j).object → ¬ (v.entry τ i).holds → v.free τ i = false →
    e.occupied = true → e.reserved = .none → e.reference = v.acquired.length →
    e.retirements = (v.entry τ i).retirements →
    e.generation = normalGeneration (v.entry τ i).generation kernelHandleGenerationMask →
    HandleUpdate s ev v ((v.setEntry τ i e).acquire e.grant)
  | cloned (v : HandleView) (σ τ i : ℕ) (grants : ℕ → SlotGrant) (e : KernelHandleEntry) :
    ev = .call (.cloneTable σ τ grants) → v.entry τ i = freeHandleEntry → v.free τ i = false →
    v.entry σ i = e → s.entry σ i = e → e.occupied = true →
    HandleUpdate s ev v ((v.setEntry τ i { e with
      occupied := true, reserved := .none, reference := v.acquired.length }).acquire e.grant)
  /-- A retained reference is given back at once. -/
  | lost (v : HandleView) (g : HandleGrant) :
    HandleUpdate s ev v ((v.acquire g).drop v.acquired.length g)
  | marked (v : HandleView) (τ i : ℕ) : ev.Marks τ → (v.entry τ i).occupied = true →
    HandleUpdate s ev v
      (v.setEntry τ i { v.entry τ i with occupied := false, reserved := .closing })
  | retired (v : HandleView) (τ i : ℕ) : (v.entry τ i).holds →
    HandleUpdate s ev v ((v.setEntry τ i (v.entry τ i).retired).drop
      (v.entry τ i).reference (v.entry τ i).grant)
  | context (v : HandleView) (τ i c : ℕ) : (v.entry τ i).occupied = true →
    HandleUpdate s ev v (v.setEntry τ i { v.entry τ i with releaseContext := c })
  | exported (v : HandleView) (τ i d : ℕ) (e : KernelDetachedEntry) :
    (v.entry τ i).occupied = true → v.detached d = some e → e.state = .reserved →
    e.grant = (v.entry τ i).grant →
    HandleUpdate s ev v ((v.setEntry τ i (v.entry τ i).retired).setDetached d
      { e with state := .live, reference := (v.entry τ i).reference })
  | imported (v : HandleView) (d τ i r g : ℕ) (hs : List ℕ) (e : KernelDetachedEntry)
      (e' : KernelHandleEntry) :
    ev = .call (.importCommit τ r hs) → ¬ (v.entry τ i).holds → v.free τ i = false →
    v.detached d = some e → s.detachedEntryAt d = some e → e.state = .live → d ∉ v.pending →
    e'.grant = e.grant → e'.reference = e.reference →
    e'.occupied = true → e'.reserved = .none →
    e'.retirements = (v.entry τ i).retirements → e'.generation = (v.entry τ i).generation →
    e'.rights = F e.type e.object e.rights →
    HandleUpdate s ev v ((v.setEntry τ i e').setDetached d (clearDetachedEntry e.slot g))
  | backed (v : HandleView) (detached : ℕ → Option KernelDetachedEntry) :
    (∀ d e, v.detached d = some e → detached d = some e) →
    (∀ d e, v.detached d = none → detached d = some e → e.state = .free) →
    HandleUpdate s ev v { v with detached := detached }
  | prepared (v : HandleView) (τ i d : ℕ) (e e' : KernelDetachedEntry) :
    (v.entry τ i).occupied = true → v.entry τ i = s.entry τ i →
    (v.entry τ i).rights &&& handleRightTransfer = handleRightTransfer →
    v.detached d = some e → e.state = .free → e'.state = .reserved →
    e'.grant = (v.entry τ i).grant → e'.release ≠ none → e'.rights = (v.entry τ i).rights →
    HandleUpdate s ev v (v.setDetached d e')
  | narrowed (v : HandleView) (d : ℕ) (e : KernelDetachedEntry) (mask : HandleRights) :
    v.detached d = some e → e.state = .reserved →
    HandleUpdate s ev v (v.setDetached d { e with rights := e.rights &&& mask })
  | unprepared (v : HandleView) (d g : ℕ) (e : KernelDetachedEntry) :
    v.detached d = some e → e.state = .reserved →
    HandleUpdate s ev v (v.setDetached d (clearDetachedEntry e.slot g))
  | released (v : HandleView) (d g : ℕ) (e : KernelDetachedEntry) :
    v.detached d = some e → e.state = .live → d ∉ v.pending →
    HandleUpdate s ev v ((v.setDetached d (clearDetachedEntry e.slot g)).drop e.reference e.grant)
  | interrupted (v : HandleView) (f : ReleaseFrame) :
    f.pending.Nodup → (∀ d ∈ f.pending, d ∉ v.pending) →
    (∀ d ∈ f.pending, ∃ e, v.detached d = some e ∧ e.state = .live) →
    HandleUpdate s ev v { v with frames := f :: v.frames }
  | returned (v : HandleView) (f : ReleaseFrame) (fs : List ReleaseFrame) :
    ev = .returned → v.frames = f :: fs → HandleUpdate s ev v { v with frames := fs }
  | reserved (v : HandleView) (r : ℕ) (reservation : KernelHandleImportReservation) :
    reservation.slots.Nodup →
    HandleUpdate s ev v
      { v with reservations := Function.update v.reservations r reservation }

end Astra
