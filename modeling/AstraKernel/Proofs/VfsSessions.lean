import AstraKernel.Proofs.VfsOpens

/-!
# Changes of the sessions

A session is opened, reserved by calls, closed to new ones and retired when it has no files.
-/

namespace Astra

open Finset Function

variable {s s' : AstraVfsService} {T T' : VfsOwned} {i : ℕ}

structure SameFiles (s s' : AstraVfsService) : Prop where
  files : s'.files = s.files
  high : s'.fileHighWater = s.fileHighWater
  fileCapacity : s'.fileCapacity = s.fileCapacity
  opens : s'.opens = s.opens
  opening : s'.opening = s.opening
  reuses : s'.reuses = s.reuses
  openFiles : s'.openFiles = s.openFiles
  capacity : s'.sessionCapacity = s.sessionCapacity

theorem SameFiles.setSession (s : AstraVfsService) (i : ℕ) (slot : AstraVfsSessionSlot) :
    SameFiles s (s.setSession i slot) :=
  ⟨rfl, rfl, rfl, rfl, rfl, rfl, rfl, rfl⟩

theorem OpensSound.congr (h : OpensSound s) (hs : SameFiles s s') : OpensSound s' where
  settled k o ho := by
    have := h.settled k o (hs.opens ▸ ho)
    rwa [OpenSettled, hs.opening, hs.files, hs.reuses]
  distinct k k' o o' ho ho' := h.distinct k k' o o' (hs.opens ▸ ho) (hs.opens ▸ ho')
  handles k o ho := by
    rw [hs.high]
    exact h.handles k o (hs.opens ▸ ho)

theorem VfsSound.changeSessions (h : VfsSound s T) (hs : SameFiles s s')
    (hids : ∀ f, (s.files f).session ≠ 0 → ∀ j < s.sessionCapacity,
      (s.sessions j).id = (s.files f).session → (s'.sessions j).id = (s.files f).session)
    (hat : ∀ f, T'.at_ f = T.at_ f) (hinflight : ∀ j, (s'.sessions j).inflight = T'.slots.count j)
    (hreserved : ∀ j ∈ T'.slots, j < s.sessionCapacity ∧ (s'.sessions j).id ≠ 0)
    (hreaps : ∀ e ∈ T'.closing, ∀ j session after, e.closer = .reap j session after →
      Reaping s' j session)
    (hsessions : SessionTable s')
    (hcount : ∀ j < s.sessionCapacity, (s'.sessions j).id ≠ 0 → (s'.sessions j).openFiles =
      ((Finset.range s.fileHighWater).filter
        fun f => (s.files f).session = (s'.sessions j).id).card) : VfsSound s' T' where
  slot f := by
    rw [hs.files, hat f]
    exact (h.slot f).congr (by rw [hs.reuses]) (by rw [hs.high])
      (fun _ => by rw [hs.opens, hs.opening])
      fun h0 j hj hid => ⟨hs.capacity ▸ hj, hids f h0 j hj hid⟩
  inflight := hinflight
  reserved j hj := hs.capacity ▸ hreserved j hj
  reaps := hreaps
  sessions := hsessions
  openFiles := by rw [hs.openFiles, hs.high, hs.files, h.openFiles]
  sessionFiles j hj hid := by
    rw [hs.high, hs.files]
    exact hcount j (hs.capacity ▸ hj) hid
  opens := h.opens.congr hs
  capacity := by
    rw [hs.high, hs.fileCapacity]
    exact h.capacity

theorem VfsSound.setSession (h : VfsSound s T) {slot : AstraVfsSessionSlot}
    (hid : slot.id = (s.sessions i).id) (hopen : slot.openFiles = (s.sessions i).openFiles)
    (hat : ∀ f, T'.at_ f = T.at_ f) (hclosing : T'.closing = T.closing)
    (hin : slot.inflight = T'.slots.count i) (hcount : ∀ j ≠ i, T'.slots.count j = T.slots.count j)
    (hmem : ∀ j ∈ T'.slots, j ∈ T.slots ∨ j = i ∧ i < s.sessionCapacity ∧ (s.sessions i).id ≠ 0)
    (hreap : ∀ session, Reaping s i session → slot.closing = true ∧ slot.inflight = 0) :
    VfsSound (s.setSession i slot) T' := by
  have hids : ∀ j, ((s.setSession i slot).sessions j).id = (s.sessions j).id := by
    intro j
    by_cases hj : j = i
    · rw [hj, setSession_self, hid]
    · rw [setSession_ne _ _ hj]
  have hfiles : ∀ j, ((s.setSession i slot).sessions j).openFiles = (s.sessions j).openFiles := by
    intro j
    by_cases hj : j = i
    · rw [hj, setSession_self, hopen]
    · rw [setSession_ne _ _ hj]
  refine h.changeSessions (.setSession s i slot) (fun f _ j _ hj => (hids j).trans hj) hat ?_ ?_ ?_
    ?_ ?_
  · intro j
    by_cases hj : j = i
    · rw [hj, setSession_self, hin]
    · rw [setSession_ne _ _ hj, hcount j hj, h.inflight]
  · intro j hj
    rw [hids j]
    rcases hmem j hj with hm | ⟨rfl, hm⟩
    · exact h.reserved j hm
    · exact hm
  · intro e he j session after hc
    have hr := h.reaps e (hclosing ▸ he) j session after hc
    by_cases hj : j = i
    · subst hj
      refine ⟨hr.1, (hids j).trans hr.2.1, ?_⟩
      rw [setSession_self]
      exact hreap session hr
    · refine ⟨hr.1, (hids j).trans hr.2.1, ?_⟩
      rw [setSession_ne _ _ hj]
      exact hr.2.2
  · refine ⟨fun j hj k hk => ?_, fun j hj => ?_, h.sessions.next, ?_⟩
    · rw [hids j, hids k]
      exact h.sessions.ids j hj k hk
    · rw [hids j]
      exact h.sessions.issued j hj
    · exact h.sessions.live.trans (congrArg Finset.card (filter_congr fun j _ => by rw [hids j]))
  · intro j hj hjd
    rw [hfiles j, hids j] at *
    exact h.sessionFiles j hj hjd

theorem VfsSound.reserve (h : VfsSound s T) (hi : i < s.sessionCapacity)
    (hid : (s.sessions i).id ≠ 0) (hclosing : (s.sessions i).closing = false) :
    VfsSound (s.setSession i { s.sessions i with inflight := (s.sessions i).inflight + 1 })
      (T.reserve i) := by
  refine h.setSession rfl rfl (fun _ => rfl) rfl ?_ (fun j hj => ?_) (fun j hj => ?_) fun _ hr => ?_
  · rw [VfsOwned.reserve, Multiset.count_cons_self, h.inflight]
  · rw [VfsOwned.reserve, Multiset.count_cons_of_ne hj]
  · rcases Multiset.mem_cons.1 hj with rfl | hm
    · exact .inr ⟨rfl, hi, hid⟩
    · exact .inl hm
  · exact absurd hr.2.2.1 (by simp [hclosing])

theorem VfsSound.reserved_slot (h : VfsSound s (T.reserve i)) :
    i < s.sessionCapacity ∧ (s.sessions i).id ≠ 0 ∧ 0 < (s.sessions i).inflight := by
  obtain ⟨hi, hid⟩ := h.reserved i (Multiset.mem_cons_self _ _)
  refine ⟨hi, hid, ?_⟩
  rw [h.inflight, VfsOwned.reserve, Multiset.count_cons_self]
  omega

theorem VfsSound.unreserve (h : VfsSound s (T.reserve i)) :
    VfsSound (s.setSession i { s.sessions i with inflight := (s.sessions i).inflight - 1 }) T := by
  obtain ⟨hi, hid, hpos⟩ := h.reserved_slot
  refine h.setSession rfl rfl (fun _ => rfl) rfl ?_ (fun j hj => ?_) (fun j hj => ?_) fun _ hr => ?_
  · have hc := h.inflight i
    rw [VfsOwned.reserve, Multiset.count_cons_self] at hc
    change (s.sessions i).inflight - 1 = _
    omega
  · rw [VfsOwned.reserve, Multiset.count_cons_of_ne hj]
  · exact .inl (Multiset.mem_cons_of_mem hj)
  · have := hr.2.2.2
    omega

section

variable (h : VfsSound s T)
include h

theorem VfsSound.setClosing : VfsSound (s.setSession i { s.sessions i with closing := true }) T :=
  h.setSession rfl rfl (fun _ => rfl) rfl (h.inflight i) (fun _ _ => rfl) (fun _ hj => .inl hj)
    fun _ hr => ⟨rfl, hr.2.2.2⟩

theorem VfsSound.setChanges (changes : AstraVfsChangeSnapshot) :
    VfsSound { s with changes := changes } T :=
  h.changeSessions ⟨rfl, rfl, rfl, rfl, rfl, rfl, rfl, rfl⟩ (fun _ _ _ _ hid => hid) (fun _ => rfl)
    h.inflight h.reserved h.reaps
    (h.sessions.congr ⟨rfl, fun _ => rfl, fun _ => rfl, fun _ => rfl, rfl, rfl, rfl⟩) h.sessionFiles

theorem VfsSound.retireSession {session : ℕ} (hr : Reaping s i session)
    (hid : session ≠ 0) (hfiles : (s.sessions i).openFiles = 0) :
    VfsSound (Astra.retireSession s i) T := by
  obtain ⟨hi, rfl, _, hin⟩ := hr
  have hself : (Astra.retireSession s i).sessions i = { s.sessions i with
      id := 0, owner := 0, grant := 0, openFiles := 0, inflight := 0, closing := false } :=
    update_self ..
  have hne : ∀ j ≠ i, (Astra.retireSession s i).sessions j = s.sessions j := fun j hj =>
    update_of_ne hj ..
  have hnofile : ∀ f, (s.files f).session ≠ (s.sessions i).id := by
    intro f hf
    obtain ⟨j, hj, hjd, _, hpos⟩ := h.fileSession (f := f) (hf ▸ hid)
    have hst : (s.files f).state ≠ .free := fun hfree => hid (hf ▸ (h.slot f).free hfree)
    have := hpos ((h.slot f).lt hst)
    rw [(h.sessionSlot hj hi (by rw [hjd, hf]; exact hid)).1 (hjd.trans hf)] at this
    omega
  refine h.changeSessions ⟨rfl, rfl, rfl, rfl, rfl, rfl, rfl, rfl⟩ (fun f _ j _ hj => ?_)
    (fun _ => rfl) (fun j => ?_) (fun j hj => ?_) (fun e he j session after hc => ?_) ?_
    fun j hj hjd => ?_
  · have hji : j ≠ i := by
      rintro rfl
      exact hnofile f hj.symm
    rw [hne j hji, hj]
  · by_cases hj : j = i
    · rw [hj, hself, ← h.inflight i, hin]
    · rw [hne j hj, h.inflight]
  · have hji : j ≠ i := by
      rintro rfl
      have := Multiset.count_pos.2 hj
      rw [← h.inflight j, hin] at this
      omega
    rw [hne j hji]
    exact h.reserved j hj
  · obtain ⟨hj, hjd, hrest⟩ := h.reaps e he j session after hc
    have hcl := (h.slot e.f).closes e (by simp [VfsOwned.at_, he])
    have hse : session ≠ 0 ∧ (s.files e.f).session = session := by
      have := hcl.2
      rw [hc] at this
      exact ⟨this.1, this.2.1⟩
    have hji : j ≠ i := by
      rintro rfl
      exact hnofile e.f (hse.2.trans hjd.symm)
    rw [Reaping, hne j hji]
    exact ⟨hj, hjd, hrest⟩
  · refine ⟨fun j hj k hk he hn => ?_, fun j hj => ?_, h.sessions.next, ?_⟩
    · have hid' : ∀ l, ((Astra.retireSession s i).sessions l).id ≠ 0 → l ≠ i := by
        rintro l hl rfl
        exact hl (by rw [hself])
      have hji := hid' j hn
      have hki := hid' k (he ▸ hn)
      rw [hne j hji, hne k hki] at he
      rw [hne j hji] at hn
      exact h.sessions.ids j hj k hk he hn
    · by_cases hji : j = i
      · rw [hji, hself]
        exact Nat.zero_le _
      · rw [hne j hji]
        exact h.sessions.issued j hj
    · have hc := card_filter_change (P := fun j => (s.sessions j).id ≠ 0)
        (Q := fun j => ((Astra.retireSession s i).sessions j).id ≠ 0) (mem_range.2 hi)
        fun j _ hj => by rw [hne j hj]
      rw [if_pos hid, hself, if_neg (by simp)] at hc
      have := h.sessions.live
      change s.openSessions - 1 = ((Finset.range s.sessionCapacity).filter fun j =>
        ((Astra.retireSession s i).sessions j).id ≠ 0).card
      omega
  · have hji : j ≠ i := by
      rintro rfl
      exact hjd (by rw [hself])
    rw [hne j hji] at hjd ⊢
    exact h.sessionFiles j hj hjd

theorem VfsSound.openSession (hi : i < s.sessionCapacity)
    (hfree : (s.sessions i).id = 0) (hmany : s.sessionsOpened < 2 ^ 32 - 1) (owner grant version : ℕ) :
    VfsSound { s.setSession i { s.sessions i with
        id := s.nextSession, owner := owner, grant := grant, openFiles := 0, version := version,
        inflight := 0, closing := false } with
      nextSession := if (s.nextSession + 1) % 2 ^ 32 = 0 then 1 else (s.nextSession + 1) % 2 ^ 32
      openSessions := s.openSessions + 1
      sessionsOpened := s.sessionsOpened + 1 } T := by
  set s' : AstraVfsService := { s.setSession i { s.sessions i with
        id := s.nextSession, owner := owner, grant := grant, openFiles := 0, version := version,
        inflight := 0, closing := false } with
      nextSession := if (s.nextSession + 1) % 2 ^ 32 = 0 then 1 else (s.nextSession + 1) % 2 ^ 32
      openSessions := s.openSessions + 1
      sessionsOpened := s.sessionsOpened + 1 } with hs'
  have hself : s'.sessions i = { s.sessions i with
        id := s.nextSession, owner := owner, grant := grant, openFiles := 0, version := version,
        inflight := 0, closing := false } := update_self ..
  have hne : ∀ j ≠ i, s'.sessions j = s.sessions j := fun j hj => update_of_ne hj ..
  have hnext := h.sessions.next hmany
  have hnew : ∀ j < s.sessionCapacity, (s.sessions j).id ≠ s.nextSession := fun j hj he => by
    have := h.sessions.issued j hj
    omega
  have hunused : i ∉ T.slots := fun hm => (h.reserved i hm).2 hfree
  have hin : (s.sessions i).inflight = 0 :=
    (h.inflight i).trans (Multiset.count_eq_zero.2 hunused)
  refine h.changeSessions ⟨rfl, rfl, rfl, rfl, rfl, rfl, rfl, rfl⟩ (fun f hf j _ hj => ?_)
    (fun _ => rfl) (fun j => ?_) (fun j hj => ?_) (fun e he j session after hc => ?_) ?_
    fun j hj hjd => ?_
  · have hji : j ≠ i := by
      rintro rfl
      exact hf (hj.symm.trans hfree)
    rw [hne j hji, hj]
  · by_cases hj : j = i
    · rw [hj, hself, ← h.inflight i, hin]
    · rw [hne j hj, h.inflight]
  · have hji : j ≠ i := fun he => hunused (he ▸ hj)
    rw [hne j hji]
    exact h.reserved j hj
  · obtain ⟨hj, hjd, hrest⟩ := h.reaps e he j session after hc
    have hcl := ((h.slot e.f).closes e (by simp [VfsOwned.at_, he])).2
    rw [hc] at hcl
    have hji : j ≠ i := by
      rintro rfl
      exact hcl.1 (hjd.symm.trans hfree)
    rw [Reaping, hne j hji]
    exact ⟨hj, hjd, hrest⟩
  · refine ⟨fun j hj k hk he hn => ?_, fun j hj => ?_, fun hm => ?_, ?_⟩
    · by_cases hji : j = i <;> by_cases hki : k = i
      · rw [hji, hki]
      · rw [hji, hself, hne k hki] at he
        exact absurd he.symm (hnew k hk)
      · rw [hki, hself, hne j hji] at he
        exact absurd he (hnew j hj)
      · rw [hne j hji, hne k hki] at he
        rw [hne j hji] at hn
        exact h.sessions.ids j hj k hk he hn
    · by_cases hji : j = i
      · rw [hji, hself]
        exact hnext.le
      · rw [hne j hji]
        exact (h.sessions.issued j hj).trans (Nat.le_succ _)
    · have hlt : s.nextSession + 1 < 2 ^ 32 := by
        change s.sessionsOpened + 1 < _ at hm
        omega
      change (if (s.nextSession + 1) % 2 ^ 32 = 0 then 1 else (s.nextSession + 1) % 2 ^ 32) =
        s.sessionsOpened + 1 + 1
      rw [Nat.mod_eq_of_lt hlt, if_neg (by omega), hnext]
    · have hc := card_filter_change (P := fun j => (s.sessions j).id ≠ 0)
        (Q := fun j => (s'.sessions j).id ≠ 0) (mem_range.2 hi)
        fun j _ hj => by rw [hne j hj]
      rw [if_neg (by simp [hfree]), hself, if_pos (by dsimp only; omega)] at hc
      have := h.sessions.live
      change s.openSessions + 1 = ((Finset.range s.sessionCapacity).filter fun j =>
        (s'.sessions j).id ≠ 0).card
      omega
  · by_cases hji : j = i
    · rw [hji, hself]
      refine (card_eq_zero.2 (filter_eq_empty_iff.2 fun f _ hf => ?_)).symm
      obtain ⟨k, hk, hkd⟩ := (h.slot f).session (by rw [hf]; dsimp only; omega)
      exact hnew k hk (hkd.trans hf)
    · rw [hne j hji] at hjd ⊢
      exact h.sessionFiles j hj hjd

end

end Astra
