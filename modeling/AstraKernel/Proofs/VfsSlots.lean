import AstraKernel.Proofs.VfsOwned
import AstraKernel.Ledger

/-!
# Changes of one slot

Each change the service makes to its tables touches one slot of the file table, or one session, and
what one call owns of it.
-/

namespace Astra

open Function List

namespace VfsOwned

variable (R : VfsOwned) (f : ℕ)

variable {h : HeldFile} {t : ℕ}

theorem at_hold_self (hf : h.f = f) : (R.hold h).at_ f = (R.at_ f).hold h := by
  simp [at_, hold, hf]

theorem at_hold_ne (hf : h.f ≠ f) : (R.hold h).at_ f = R.at_ f := by
  simp [at_, hold, hf]

theorem at_open_self {e : OpeningFile} (hf : e.f = f) : (R.open_ e).at_ f = (R.at_ f).open_ e := by
  simp [at_, open_, hf]

theorem at_open_ne {e : OpeningFile} (hf : e.f ≠ f) : (R.open_ e).at_ f = R.at_ f := by
  simp [at_, open_, hf]

theorem at_close_self {e : ClosingFile} (hf : e.f = f) :
    (R.close e).at_ f = (R.at_ f).close e := by
  simp [at_, close, hf]

theorem at_close_ne {e : ClosingFile} (hf : e.f ≠ f) : (R.close e).at_ f = R.at_ f := by
  simp [at_, close, hf]

theorem at_wait_self {e : WaitedFile} (hf : e.f = f) : (R.wait e).at_ f = (R.at_ f).wait e := by
  simp [at_, wait, hf]

theorem at_wait_ne {e : WaitedFile} (hf : e.f ≠ f) : (R.wait e).at_ f = R.at_ f := by
  simp [at_, wait, hf]

theorem at_token_self (hf : handleSlot t = f) : (R.token t).at_ f = (R.at_ f).token t := by
  simp [at_, token, hf]

theorem at_token_ne (hf : handleSlot t ≠ f) : (R.token t).at_ f = R.at_ f := by
  simp [at_, token, hf]

end VfsOwned

section

variable (s : AstraVfsService)

@[simp] theorem setFile_self (f : ℕ) (file : AstraVfsOpenFile) :
    (s.setFile f file).files f = file :=
  update_self ..

theorem setFile_ne {f g : ℕ} (file : AstraVfsOpenFile) (hg : g ≠ f) :
    (s.setFile f file).files g = s.files g :=
  update_of_ne hg ..

@[simp] theorem setSession_self (i : ℕ) (slot : AstraVfsSessionSlot) :
    (s.setSession i slot).sessions i = slot :=
  update_self ..

theorem setSession_ne {i j : ℕ} (slot : AstraVfsSessionSlot) (hj : j ≠ i) :
    (s.setSession i slot).sessions j = s.sessions j :=
  update_of_ne hj ..

end

section

variable {s s' : AstraVfsService} {T T' : VfsOwned} {f : ℕ} {e : HeldFile}

variable {file : AstraVfsOpenFile} {crew : VfsOwned} {i session : ℕ}

theorem Current.congr {o : BackendOpen}
    (h : Current s crew f file o) (ho : s'.opens[s'.opening f]? = s.opens[s.opening f]?)
    (hr : s'.reuses f = s.reuses f) : Current s' crew f file o :=
  ⟨ho.trans h.1, h.2.1, h.2.2.1, h.2.2.2.1.trans hr.symm, h.2.2.2.2⟩

section

variable (h : SlotSound s crew f file)
include h

theorem SlotSound.not_held
    (hactive : file.active = false) : crew.held = 0 :=
  Multiset.card_eq_zero.1 (by simpa [hactive] using h.held)

theorem SlotSound.not_opening
    (hstate : file.state ≠ .opening) : crew.opening = 0 := by
  have := h.opening
  rw [if_neg hstate] at this
  exact Multiset.card_eq_zero.1 this

theorem SlotSound.not_closing
    (hstate : file.state ≠ .closing) : crew.closing = 0 := by
  have := h.closing
  rw [if_neg hstate] at this
  exact Multiset.card_eq_zero.1 this

theorem SlotSound.congr
    (hr : s'.reuses f = s.reuses f) (hhigh : f < s'.fileHighWater ↔ f < s.fileHighWater)
    (ho : file.Live → s'.opens[s'.opening f]? = s.opens[s.opening f]?)
    (hids : file.session ≠ 0 → ∀ i < s.sessionCapacity, (s.sessions i).id = file.session →
      i < s'.sessionCapacity ∧ (s'.sessions i).id = file.session) :
    SlotSound s' crew f file :=
  { h with
    beyond := fun hf => hr ▸ h.beyond (by omega)
    generation := fun hf => by rw [hr]; exact h.generation (hhigh.1 hf)
    session := fun hs => by
      obtain ⟨i, hi, hid⟩ := h.session hs
      exact ⟨i, hids hs i hi hid⟩
    current := fun hl => by
      obtain ⟨o, hcur⟩ := h.current hl
      exact ⟨o, hcur.congr (ho hl) hr⟩
    opens := fun e he => by
      obtain ⟨hc, hid, hse⟩ := h.opens e he
      have hs := h.owned (.inr (by_contra fun hn => by simp [h.not_opening hn] at he))
      exact ⟨(hids hs _ hc hid).1, (hids hs _ hc hid).2, hse⟩
    waits := fun e he => by
      obtain ⟨hf, ha, hn, hg, use, hu, hgen, hlive⟩ := h.waits e he
      exact ⟨hhigh.2 hf, ha, hn, hg, use, hr.symm ▸ hu, hgen, fun hru => hlive (hr ▸ hru)⟩ }

end

structure SameSessions (s s' : AstraVfsService) : Prop where
  capacity : s'.sessionCapacity = s.sessionCapacity
  id : ∀ i, (s'.sessions i).id = (s.sessions i).id
  inflight : ∀ i, (s'.sessions i).inflight = (s.sessions i).inflight
  closing : ∀ i, (s'.sessions i).closing = (s.sessions i).closing
  sessionsOpened : s'.sessionsOpened = s.sessionsOpened
  nextSession : s'.nextSession = s.nextSession
  openSessions : s'.openSessions = s.openSessions

theorem SameSessions.setFile (s : AstraVfsService) (f : ℕ) (file : AstraVfsOpenFile) :
    SameSessions s (s.setFile f file) :=
  ⟨rfl, fun _ => rfl, fun _ => rfl, fun _ => rfl, rfl, rfl, rfl⟩

theorem SessionTable.congr (h : SessionTable s) (hs : SameSessions s s') : SessionTable s' where
  ids i hi j hj := by
    rw [hs.id i, hs.id j]
    exact h.ids i (hs.capacity ▸ hi) j (hs.capacity ▸ hj)
  issued i hi := by
    rw [hs.id i, hs.sessionsOpened]
    exact h.issued i (hs.capacity ▸ hi)
  next hn := by
    rw [hs.nextSession, hs.sessionsOpened]
    exact h.next (hs.sessionsOpened ▸ hn)
  live := by
    rw [hs.openSessions, hs.capacity, h.live]
    exact congrArg Finset.card (Finset.filter_congr fun i _ => by rw [hs.id i])

theorem Reaping.congr (h : Reaping s i session) (hs : SameSessions s s') :
    Reaping s' i session := by
  rwa [Reaping, hs.capacity, hs.id i, hs.closing i, hs.inflight i]

theorem VfsSound.change (h : VfsSound s T) {x : AstraVfsOpenFile} (hf : f < s.fileHighWater)
    (hsame : SameSessions s s') (hfiles : s'.files = update s.files f x)
    (hhigh : s'.fileHighWater = s.fileHighWater) (hcap : s'.fileCapacity = s.fileCapacity)
    (hopen : s'.openFiles + (if (s.files f).state ≠ .free then 1 else 0) =
      s.openFiles + if x.state ≠ .free then 1 else 0)
    (hcount : ∀ i < s.sessionCapacity, (s.sessions i).id ≠ 0 →
      (s'.sessions i).openFiles + (if (s.files f).session = (s.sessions i).id then 1 else 0) =
        (s.sessions i).openFiles + if x.session = (s.sessions i).id then 1 else 0)
    (hslots : T'.slots = T.slots) (hat : ∀ g ≠ f, T'.at_ g = T.at_ g)
    (hreaps : ∀ e ∈ T'.closing, ∀ i session after, e.closer = .reap i session after →
      Reaping s i session)
    (hothers : ∀ g ≠ f, s'.reuses g = s.reuses g ∧
      ((s.files g).Live → s'.opens[s'.opening g]? = s.opens[s.opening g]?))
    (hslot : SlotSound s' (T'.at_ f) f x) (hopens : OpensSound s') : VfsSound s' T' where
  slot g := by
    by_cases hg : g = f
    · rw [hfiles, hg, update_self]
      exact hslot
    · rw [hfiles, update_of_ne hg, hat g hg]
      exact (h.slot g).congr (hothers g hg).1 (by rw [hhigh]) (hothers g hg).2
        fun _ i hi hid => ⟨hsame.capacity ▸ hi, (hsame.id i).trans hid⟩
  inflight i := by rw [hsame.inflight, hslots, h.inflight]
  reserved i hi := by
    rw [hsame.capacity, hsame.id]
    exact h.reserved i (hslots ▸ hi)
  reaps e he i session after hc := (hreaps e he i session after hc).congr hsame
  sessions := h.sessions.congr hsame
  openFiles := by
    have hc := card_filter_change (P := fun g => (s.files g).state ≠ .free)
      (Q := fun g => (s'.files g).state ≠ .free) (Finset.mem_range.2 hf)
      fun g _ hg => by rw [hfiles, update_of_ne hg]
    have := h.openFiles
    rw [hfiles, update_self, ← hfiles] at hc
    rw [hhigh]
    omega
  sessionFiles i hi hid := by
    rw [hsame.capacity] at hi
    rw [hsame.id] at hid ⊢
    have hc := card_filter_change (P := fun g => (s.files g).session = (s.sessions i).id)
      (Q := fun g => (s'.files g).session = (s.sessions i).id) (Finset.mem_range.2 hf)
      fun g _ hg => by rw [hfiles, update_of_ne hg]
    have := h.sessionFiles i hi hid
    have := hcount i hi hid
    rw [hfiles, update_self, ← hfiles] at hc
    rw [hhigh]
    omega
  opens := hopens
  capacity := by rw [hhigh, hcap]; exact h.capacity

theorem OpensSound.setFile (h : OpensSound s)
    (hlive : file.Live ↔ (s.files f).Live) : OpensSound (s.setFile f file) :=
  { h with
    settled := fun k o hk => by
      refine (h.settled k o hk).imp_left fun ⟨ho, hl, hu⟩ => ⟨ho, ?_, hu⟩
      by_cases hf : o.slot = f
      · rw [hf, setFile_self]
        exact hlive.2 (hf ▸ hl)
      · rwa [setFile_ne _ _ hf] }

theorem SlotSound.lt (h : SlotSound s crew f file)
    (hf : file.state ≠ .free) : f < s.fileHighWater := by
  by_contra hn
  exact hf (h.beyond (not_lt.1 hn)).1

theorem VfsSound.setFile (h : VfsSound s T)
    (hstate : (s.files f).state ≠ .free) (hlive : file.Live ↔ (s.files f).Live)
    (hfree : file.state ≠ .free) (hsession : file.session = (s.files f).session)
    (hslots : T'.slots = T.slots) (hat : ∀ g ≠ f, T'.at_ g = T.at_ g)
    (hreaps : ∀ e ∈ T'.closing, ∀ i session after, e.closer = .reap i session after →
      Reaping s i session)
    (hslot : SlotSound (s.setFile f file) (T'.at_ f) f file) : VfsSound (s.setFile f file) T' :=
  h.change ((h.slot f).lt hstate) (.setFile s f file) rfl rfl rfl
    (by rw [if_pos hstate, if_pos hfree]; rfl) (fun i _ _ => by rw [hsession]; rfl) hslots hat hreaps
    (fun _ _ => ⟨rfl, fun _ => rfl⟩) hslot (h.opens.setFile hlive)

theorem VfsSound.own (h : VfsSound s T) (hslots : T'.slots = T.slots)
    (hat : ∀ g ≠ f, T'.at_ g = T.at_ g)
    (hreaps : ∀ e ∈ T'.closing, ∀ i session after, e.closer = .reap i session after →
      Reaping s i session)
    (hslot : SlotSound s (T'.at_ f) f (s.files f)) : VfsSound s T' :=
  { h with
    slot := fun g => by
      by_cases hg : g = f
      · exact hg ▸ hslot
      · exact hat g hg ▸ h.slot g
    inflight := fun i => hslots ▸ h.inflight i
    reserved := fun i hi => h.reserved i (hslots ▸ hi)
    reaps := hreaps }

theorem VfsSound.take (h : VfsSound s T) (he : e.f = f)
    (hactive : (s.files f).active = false) (hstate : (s.files f).state ≠ .closing)
    (hholds : Holds (s.files f) f e) :
    VfsSound (s.setFile f { s.files f with active := true }) (T.hold e) := by
  have hs := h.slot f
  have hheld : (T.at_ f).held.card = 0 := by simpa [hactive] using hs.held
  refine h.setFile hholds.1.1 Iff.rfl hholds.1.1 rfl rfl
    (fun g hg => T.at_hold_ne _ (he ▸ hg.symm)) h.reaps ?_
  rw [T.at_hold_self f he]
  exact { hs with
    held := by simp [VfsOwned.hold, hheld]
    idle := fun hl => absurd hholds.1 hl
    holds := fun e' he' => by
      rcases Multiset.mem_cons.1 he' with rfl | hm
      · exact hholds
      · exact absurd hm (by simp [Multiset.card_eq_zero.1 hheld])
    closes := fun e' he' => by simp [VfsOwned.hold, hs.not_closing hstate] at he' }

theorem VfsSound.holds (h : VfsSound s (T.hold e)) (he : e.f = f) :
    Holds (s.files f) f e ∧ (T.at_ f).held = 0 ∧ (s.files f).active = true := by
  have hs := h.slot f
  rw [T.at_hold_self f he] at hs
  have hcard := hs.held
  rw [VfsOwned.hold, Multiset.card_cons] at hcard
  cases hactive : (s.files f).active with
  | false => simp [hactive] at hcard
  | true =>
    have h0 : (T.at_ f).held.card = 0 := by simpa [hactive] using hcard
    exact ⟨hs.holds e (Multiset.mem_cons_self _ _), Multiset.card_eq_zero.1 h0, rfl⟩

theorem VfsSound.fileRelease (h : VfsSound s (T.hold e)) (he : e.f = f) :
    VfsSound (Astra.fileRelease s f) T := by
  obtain ⟨hholds, hheld, _⟩ := h.holds he
  have hs := h.slot f
  rw [T.at_hold_self f he] at hs
  exact h.setFile hholds.1.1 Iff.rfl hholds.1.1 rfl rfl
    (fun g hg => (T.at_hold_ne _ (he ▸ hg.symm)).symm) h.reaps
    { hs with
      held := by simp [hheld]
      idle := fun hl => absurd hholds.1 hl
      holds := fun e' he' => by simp [hheld] at he'
      closes := fun e' he' => ⟨fun node hn => ⟨rfl, ((hs.closes e' he').1 node hn).2⟩,
        (hs.closes e' he').2⟩ }

theorem VfsSound.setWaiters (h : VfsSound s T) (hf : f < s.fileHighWater) (n : ℕ) :
    VfsSound (s.setFile f { s.files f with waiters := n }) T :=
  h.change hf (.setFile s f _) rfl rfl rfl rfl (fun _ _ _ => rfl) rfl (fun _ _ => rfl) h.reaps
    (fun _ _ => ⟨rfl, fun _ => rfl⟩) { h.slot f with } (h.opens.setFile Iff.rfl)

theorem FileWaits.congr {file' : AstraVfsOpenFile} {e : WaitedFile}
    (h : FileWaits s f file e) (hlive : file.Live → file'.Live)
    (hsession : file'.session = file.session ∨ file'.session = 0) : FileWaits s f file' e := by
  obtain ⟨hf, ha, hn, hg, use, hu, hgen, hl⟩ := h
  refine ⟨hf, ha, hn, hg, use, hu, hgen, fun hr => ⟨hlive (hl hr).1, fun session handle hname => ?_⟩⟩
  rcases hsession with hs | hs
  · rw [hs]
    exact (hl hr).2 session handle hname
  · exact .inr hs

theorem VfsSound.wait (h : VfsSound s T) {e : WaitedFile} (he : e.f = f)
    (hw : FileWaits s f (s.files f) e) : VfsSound s (T.wait e) := by
  refine h.own (f := f) rfl (fun g hg => T.at_wait_ne _ (he ▸ hg.symm)) h.reaps ?_
  rw [T.at_wait_self f he]
  exact { h.slot f with
    waits := fun e' he' => by
      rcases Multiset.mem_cons.1 he' with rfl | hm
      · exact hw
      · exact (h.slot f).waits e' hm }

theorem VfsSound.unwait {e : WaitedFile} (h : VfsSound s (T.wait e)) (he : e.f = f) :
    VfsSound s T ∧ FileWaits s f (s.files f) e := by
  have hs := h.slot f
  rw [T.at_wait_self f he] at hs
  exact ⟨h.own (f := f) rfl (fun g hg => (T.at_wait_ne _ (he ▸ hg.symm)).symm) h.reaps
    { hs with waits := fun e' he' => hs.waits e' (Multiset.mem_cons_of_mem he') },
    hs.waits e (Multiset.mem_cons_self _ _)⟩

theorem VfsSound.beginClose (h : VfsSound s T) {e : ClosingFile} (he : e.f = f)
    (hb : e.backend = none) (hlive : (s.files f).Live) (hstate : (s.files f).state ≠ .closing)
    (hcloses : Closes (s.files f) f e)
    (hreap : ∀ i session after, e.closer = .reap i session after → Reaping s i session) :
    VfsSound (s.setFile f { s.files f with state := .closing }) (T.close e) := by
  have hs := h.slot f
  have hnone := hs.not_closing hstate
  have hlive' : ({ s.files f with state := .closing } : AstraVfsOpenFile).Live := by
    constructor <;> simp
  refine h.setFile hlive.1 (iff_of_true hlive' hlive) hlive'.1 rfl rfl
    (fun g hg => T.at_close_ne _ (he ▸ hg.symm)) ?_ ?_
  · intro e' he' i session after hc
    rcases Multiset.mem_cons.1 he' with rfl | hm
    · exact hreap i session after hc
    · exact h.reaps e' hm i session after hc
  · rw [T.at_close_self f he]
    exact { hs with
      opening := by simpa [VfsOwned.close, hlive.2] using hs.opening
      closing := by simp [VfsOwned.close, hnone]
      idle := fun hl => absurd hlive' hl
      free := fun hf => absurd hf hlive'.1
      owned := by simp
      detached := by simp
      beyond := fun hf => absurd (hs.beyond hf).1 hlive.1
      current := fun _ => by
        obtain ⟨o, h1, h2, h3, h4, h5, h6⟩ := hs.current hlive
        refine ⟨o, h1, h2, h3, h4, h5, ?_⟩
        rw [VfsOwned.close, Multiset.countP_cons_of_neg _ (by simp [hb])]
        exact h6
      holds := fun e' he' => ⟨hlive', (hs.holds e' he').2⟩
      closes := fun e' he' => by
        rcases Multiset.mem_cons.1 he' with rfl | hm
        · exact hcloses
        · simp [hnone] at hm
      waits := fun e' he' => (hs.waits e' he').congr (fun _ => hlive') (.inl rfl) }

theorem VfsSound.closesFile {e : ClosingFile} (h : VfsSound s (T.close e)) (he : e.f = f) :
    Closes (s.files f) f e ∧ (T.at_ f).closing = 0 ∧ (s.files f).state = .closing := by
  have hs := h.slot f
  rw [T.at_close_self f he] at hs
  have hcard := hs.closing
  rw [VfsOwned.close, Multiset.card_cons] at hcard
  split at hcard
  · rename_i hstate
    exact ⟨hs.closes e (Multiset.mem_cons_self _ _), Multiset.card_eq_zero.1 (by omega), hstate⟩
  · omega

theorem VfsSound.reaping {e : ClosingFile} (h : VfsSound s (T.close e))
    {after : After} (hc : e.closer = .reap i session after) : Reaping s i session :=
  h.reaps e (Multiset.mem_cons_self _ _) i session after hc

theorem VfsSound.closingSlot {e : ClosingFile} (h : VfsSound s (T.close e)) (he : e.f = f) :
    SlotSound s ((T.at_ f).close e) f (s.files f) :=
  T.at_close_self f he ▸ h.slot f

theorem VfsSound.endClose {e : ClosingFile} (h : VfsSound s (T.close e)) (he : e.f = f)
    (hb : e.backend = none) {state : AstraVfsFileState}
    (hstate : state = .isOpen ∧ (s.files f).session ≠ 0 ∨
      state = .detached ∧ (s.files f).session = 0 ∧ (s.files f).retained = true) :
    VfsSound (s.setFile f { s.files f with state := state }) T := by
  obtain ⟨_, hnone, hclosing⟩ := h.closesFile he
  have hs := h.closingSlot he
  have hlive : (s.files f).Live := by constructor <;> simp [hclosing]
  have hlive' : ({ s.files f with state := state } : AstraVfsOpenFile).Live := by
    rcases hstate with ⟨rfl, _⟩ | ⟨rfl, _⟩ <;> constructor <;> simp
  have hne : state ≠ .closing := by rcases hstate with ⟨rfl, _⟩ | ⟨rfl, _⟩ <;> simp
  refine h.setFile hlive.1 (iff_of_true hlive' hlive) hlive'.1 rfl rfl
    (fun g hg => (T.at_close_ne _ (he ▸ hg.symm)).symm)
    (fun e' he' => h.reaps e' (Multiset.mem_cons_of_mem he')) ?_
  exact { hs with
    opening := by
      have := hs.opening
      rw [if_neg hlive.2] at this
      exact this.trans (if_neg hlive'.2).symm
    closing := by simp [hnone, hne]
    idle := fun hl => absurd hlive' hl
    free := fun hf => absurd hf hlive'.1
    owned := fun ho => by
      rcases hstate with ⟨rfl, hs0⟩ | ⟨rfl, _⟩
      · exact hs0
      · simp at ho
    detached := fun hd => by
      rcases hstate with ⟨rfl, _⟩ | ⟨rfl, hs0⟩
      · simp at hd
      · exact hs0
    beyond := fun hf => absurd (hs.beyond hf).1 hlive.1
    current := fun _ => by
      obtain ⟨o, h1, h2, h3, h4, h5, h6⟩ := hs.current hlive
      rw [VfsOwned.close, Multiset.countP_cons_of_neg _ (by simp [hb])] at h6
      exact ⟨o, h1, h2, h3, h4, h5, h6⟩
    holds := fun e' he' => ⟨hlive', (hs.holds e' he').2⟩
    closes := fun e' he' => by simp [hnone] at he'
    waits := fun e' he' => (hs.waits e' he').congr (fun _ => hlive') (.inl rfl) }

theorem findSession_eq (h : findSession s session = some i) :
    i < s.sessionCapacity ∧ (s.sessions i).id = session ∧ session ≠ 0 := by
  rw [findSession] at h
  split_ifs at h with h0
  have hm := mem_range.1 (mem_of_find?_eq_some h)
  have hp := List.find?_some h
  exact ⟨hm, by simpa using hp, h0⟩

theorem VfsSound.findSession (h : VfsSound s T) (hi : i < s.sessionCapacity)
    (hid : (s.sessions i).id ≠ 0) : Astra.findSession s (s.sessions i).id = some i := by
  cases hf : Astra.findSession s (s.sessions i).id with
  | none =>
    rw [Astra.findSession, if_neg hid, List.find?_eq_none] at hf
    exact absurd (hf i (mem_range.2 hi)) (by simp)
  | some j =>
    obtain ⟨hj, hjd, _⟩ := findSession_eq hf
    rw [h.sessions.ids j hj i hi hjd (hjd ▸ hid)]

theorem VfsSound.fileSession (h : VfsSound s T) (hsession : (s.files f).session ≠ 0) :
    ∃ i < s.sessionCapacity, (s.sessions i).id = (s.files f).session ∧
      Astra.findSession s (s.files f).session = some i ∧
      (f < s.fileHighWater → 0 < (s.sessions i).openFiles) := by
  obtain ⟨i, hi, hid⟩ := (h.slot f).session hsession
  refine ⟨i, hi, hid, hid ▸ h.findSession hi (hid ▸ hsession), fun hf => ?_⟩
  rw [h.sessionFiles i hi (hid ▸ hsession)]
  exact Finset.card_pos.2 ⟨f, by simp [hf, hid]⟩

theorem VfsSound.sessionSlot (h : VfsSound s T) {j : ℕ} (hi : i < s.sessionCapacity)
    (hj : j < s.sessionCapacity) (hid : (s.sessions i).id ≠ 0) :
    (s.sessions i).id = (s.sessions j).id ↔ i = j :=
  ⟨fun he => h.sessions.ids i hi j hj he hid, fun he => by rw [he]⟩

end

end Astra
