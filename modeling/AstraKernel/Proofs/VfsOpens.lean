import AstraKernel.Proofs.VfsFiles

/-!
# Slots reserved for an open

`handle_open` reserves a slot before it asks the backend, and either frees it again or publishes the
file there.
-/

namespace Astra

open Finset Function

variable {s s' : AstraVfsService} {T : VfsOwned} {f i : ℕ}

theorem SlotSound.crew_free {crew : VfsOwned} {file : AstraVfsOpenFile} (h : SlotSound s crew f file)
    (hfree : file.state = .free) :
    crew.held = 0 ∧ crew.opening = 0 ∧ crew.closing = 0 ∧ crew.tokens = 0 ∧
      file.session = 0 ∧ file.active = false ∧ file.retained = false := by
  have hnl : ¬ file.Live := fun hl => hl.1 hfree
  obtain ⟨ha, hr⟩ := h.idle hnl
  refine ⟨h.not_held ha, h.not_opening (by simp [hfree]), h.not_closing (by simp [hfree]), ?_,
    h.free hfree, ha, hr⟩
  have := h.tokens
  rwa [hr, if_neg (by simp)] at this

theorem FileWaits.not_live {file file' : AstraVfsOpenFile} {e : WaitedFile}
    (h : FileWaits s f file e) (hl : ¬ file.Live) : FileWaits s f file' e := by
  obtain ⟨hf, ha, hn, hg, use, hu, hgen, hlive⟩ := h
  exact ⟨hf, ha, hn, hg, use, hu, hgen, fun hr => absurd (hlive hr).1 hl⟩

def freshFile (file : AstraVfsOpenFile) : AstraVfsOpenFile :=
  { file with node := 0, session := 0, flags := 0, sequence := 0, generation := 1, kind := .unknown,
              state := .free, active := false, retained := false }

def grownFiles (s : AstraVfsService) : AstraVfsService :=
  { s.setFile s.fileHighWater (freshFile (s.files s.fileHighWater)) with
    fileHighWater := s.fileHighWater + 1 }

theorem VfsSound.grownFiles (h : VfsSound s T) (hcap : s.fileHighWater ≠ s.fileCapacity) :
    VfsSound (Astra.grownFiles s) T := by
  have hF := h.slot s.fileHighWater
  obtain ⟨hfree, hreuse⟩ := hF.beyond le_rfl
  obtain ⟨hheld, hopening, hclosing, htokens, hsession, _, _⟩ := hF.crew_free hfree
  have hfile : ∀ g, g ≠ s.fileHighWater → (Astra.grownFiles s).files g = s.files g :=
    fun g hg => setFile_ne _ _ hg
  have hself : (Astra.grownFiles s).files s.fileHighWater = freshFile (s.files s.fileHighWater) :=
    setFile_self ..
  have hold : ∀ g ∈ Finset.range s.fileHighWater, g ≠ s.fileHighWater := fun g hg =>
    (mem_range.1 hg).ne
  exact { h with
    slot := fun g => by
      by_cases hg : g = s.fileHighWater
      · rw [hg, hself]
        exact { hF with
          held := by simp [hheld, freshFile]
          opening := by simp [hopening, freshFile]
          closing := by simp [hclosing, freshFile]
          tokens := by simp [htokens, freshFile]
          idle := fun _ => ⟨rfl, rfl⟩
          free := fun _ => rfl
          owned := by simp [freshFile]
          detached := by simp [freshFile]
          beyond := fun _ => ⟨rfl, hreuse⟩
          generation := fun _ => by
            change 1 = generationAfter (s.reuses s.fileHighWater)
            rw [hreuse]
            rfl
          session := fun h0 => absurd rfl h0
          current := fun hl => absurd rfl hl.1
          holds := fun e he => by simp [hheld] at he
          opens := fun e he => by simp [hopening] at he
          closes := fun e he => by simp [hclosing] at he
          waits := fun e he => absurd (hF.waits e he).1 (lt_irrefl _) }
      · rw [hfile g hg]
        refine (h.slot g).congr rfl ?_ (fun _ => rfl) fun _ j hj hid => ⟨hj, hid⟩
        change g < s.fileHighWater + 1 ↔ _
        omega
    sessions := h.sessions.congr ⟨rfl, fun _ => rfl, fun _ => rfl, fun _ => rfl, rfl, rfl, rfl⟩
    openFiles := by
      change s.openFiles = ((Finset.range (s.fileHighWater + 1)).filter _).card
      rw [range_add_one, filter_insert, hself, if_neg (by simp [freshFile]), h.openFiles]
      exact congrArg Finset.card (filter_congr fun g hg => by rw [hfile g (hold g hg)])
    sessionFiles := fun j hj hid => by
      change (s.sessions j).openFiles = ((Finset.range (s.fileHighWater + 1)).filter _).card
      rw [range_add_one, filter_insert, hself, if_neg (by simpa [freshFile] using Ne.symm hid),
        h.sessionFiles j hj hid]
      exact congrArg Finset.card (filter_congr fun g hg => by rw [hfile g (hold g hg)]; rfl)
    opens :=
      { h.opens with
        settled := fun k o ho => by
          have hlt := (h.opens.handles k o ho).1
          rw [OpenSettled, hfile _ hlt.ne]
          exact h.opens.settled k o ho
        handles := fun k o ho => by
          obtain ⟨hlt, hrest⟩ := h.opens.handles k o ho
          exact ⟨Nat.lt_succ_of_lt hlt, hrest⟩ }
    capacity := ⟨by
      have := h.capacity.1
      change s.fileHighWater + 1 ≤ s.fileCapacity
      omega, h.capacity.2⟩ }

theorem openSlot_cases (s : AstraVfsService) :
    openSlot s = (none, s) ∨
      (∃ f, openSlot s = (some f, s) ∧ f < s.fileHighWater ∧ (s.files f).state = .free) ∨
      (openSlot s = (none, grownFiles s) ∨ openSlot s = (some s.fileHighWater, grownFiles s)) ∧
        s.fileHighWater ≠ s.fileCapacity := by
  unfold openSlot
  cases hf : (List.range s.fileHighWater).find? fun f => (s.files f).state = .free with
  | some f =>
    have hm := List.mem_range.1 (List.mem_of_find?_eq_some hf)
    have hp := List.find?_some hf
    by_cases hc : f ≥ s.fileCapacity
    · simp [hc]
    · exact .inr (.inl ⟨f, by simp [hc], hm, by simpa using hp⟩)
  | none =>
    dsimp only
    by_cases hc : s.fileHighWater = s.fileCapacity
    · simp [hc]
    · rw [if_neg hc]
      refine .inr (.inr ⟨?_, hc⟩)
      by_cases hge : s.fileHighWater ≥ s.fileCapacity
      · exact .inl (by rw [if_pos hge]; rfl)
      · exact .inr (by rw [if_neg hge]; rfl)

theorem VfsSound.openSlot (h : VfsSound s T) :
    VfsSound (Astra.openSlot s).2 T ∧ (Astra.openSlot s).2.sessions = s.sessions ∧
      (Astra.openSlot s).2.sessionCapacity = s.sessionCapacity ∧
      ∀ f, (Astra.openSlot s).1 = some f → f < (Astra.openSlot s).2.fileHighWater ∧
        ((Astra.openSlot s).2.files f).state = .free := by
  rcases openSlot_cases s with he | ⟨f, he, hf, hfree⟩ | ⟨he | he, hcap⟩ <;> rw [he]
  · exact ⟨h, rfl, rfl, fun _ hf => by simp at hf⟩
  · refine ⟨h, rfl, rfl, fun g hg => ?_⟩
    cases hg
    exact ⟨hf, hfree⟩
  · exact ⟨h.grownFiles hcap, rfl, rfl, fun _ hf => by simp at hf⟩
  · refine ⟨h.grownFiles hcap, rfl, rfl, fun g hg => ?_⟩
    cases hg
    refine ⟨Nat.lt_succ_self _, ?_⟩
    change ((s.setFile _ _).files _).state = _
    rw [setFile_self]
    rfl

theorem OpensSound.setIdle (h : OpensSound s) (hnl : ¬ (s.files f).Live)
    (file : AstraVfsOpenFile) : OpensSound (s.setFile f file) :=
  { h with
    settled := fun k o ho => by
      rcases h.settled k o ho with ⟨hk, hl, hu⟩ | hr
      · have hne : o.slot ≠ f := fun he => hnl (he ▸ hl)
        exact .inl ⟨hk, by rwa [setFile_ne _ _ hne], hu⟩
      · exact .inr hr }

theorem VfsSound.reserveFile (h : VfsSound s T) (hf : f < s.fileHighWater)
    (hfree : (s.files f).state = .free) (hi : i < s.sessionCapacity) (hid : (s.sessions i).id ≠ 0) :
    VfsSound { (s.setFile f { s.files f with session := (s.sessions i).id, state := .opening }
        |>.setSession i { s.sessions i with openFiles := (s.sessions i).openFiles + 1 }) with
        openFiles := s.openFiles + 1 }
      (T.open_ ⟨f, i, (s.sessions i).id⟩) := by
  have hs := h.slot f
  obtain ⟨hheld, hopening, hclosing, _, hsession, hactive, hretained⟩ := hs.crew_free hfree
  have hnl : ¬ (s.files f).Live := fun hl => hl.1 hfree
  refine h.change (x := { s.files f with session := (s.sessions i).id, state := .opening }) hf
    (.update rfl rfl rfl rfl rfl rfl rfl rfl) rfl rfl rfl (by simp [hfree])
    (h.count_enter hi hid hsession rfl) rfl (fun g hg => T.at_open_ne _ (Ne.symm hg)) h.reaps
    (fun _ _ => ⟨rfl, fun _ => rfl⟩) ?_ { h.opens.setIdle hnl _ with }
  · rw [T.at_open_self f rfl]
    exact { hs with
      opening := by simp [VfsOwned.open_, hopening]
      closing := by simp [VfsOwned.open_, hclosing]
      idle := fun _ => ⟨hactive, hretained⟩
      free := by simp
      owned := fun _ => hid
      detached := by simp
      beyond := fun hn => by
        have : s.fileHighWater ≤ f := hn
        omega
      session := fun _ => ⟨i, hi, by simp⟩
      current := fun hl => absurd rfl hl.2
      holds := fun e he => by
        have : e ∈ (T.at_ f).held := he
        simp [hheld] at this
      opens := fun e he => by
        rcases Multiset.mem_cons.1 he with rfl | hm
        · exact ⟨hi, by simp, rfl⟩
        · simp [hopening] at hm
      closes := fun e he => by
        have : e ∈ (T.at_ f).closing := he
        simp [hclosing] at this
      waits := fun e he => ((hs.waits e he).not_live hnl : FileWaits s f _ e) }

variable {e : OpeningFile} {session : ℕ}

section

variable (h : VfsSound s (T.open_ e))
include h

theorem VfsSound.openingFile (he : e.f = f) :
    (s.files f).state = .opening ∧ (T.at_ f).opening = 0 ∧ e.slot < s.sessionCapacity ∧
      (s.sessions e.slot).id = (s.files f).session ∧ e.session = (s.files f).session ∧
      (s.files f).session ≠ 0 := by
  have hs := h.slot f
  rw [T.at_open_self f he] at hs
  have hcard := hs.opening
  rw [VfsOwned.open_, Multiset.card_cons] at hcard
  split at hcard
  · rename_i hstate
    obtain ⟨hi, hid, hse⟩ := hs.opens e (Multiset.mem_cons_self _ _)
    exact ⟨hstate, Multiset.card_eq_zero.1 (by omega), hi, hid, hse, hs.owned (.inr hstate)⟩
  · omega

theorem VfsSound.openingSlot (he : e.f = f) : SlotSound s ((T.at_ f).open_ e) f (s.files f) :=
  T.at_open_self f he ▸ h.slot f

theorem VfsSound.openingCrew (he : e.f = f) :
    ¬ (s.files f).Live ∧ f < s.fileHighWater ∧ (T.at_ f).held = 0 ∧ (T.at_ f).closing = 0 ∧
      (s.files f).active = false ∧ (s.files f).retained = false := by
  have hopen := (h.openingFile he).1
  have hs := h.openingSlot he
  have hnl : ¬ (s.files f).Live := fun hl => hl.2 hopen
  obtain ⟨hactive, hretained⟩ := hs.idle hnl
  exact ⟨hnl, hs.lt (by simp [hopen]), hs.not_held hactive, hs.not_closing (by simp [hopen]),
    hactive, hretained⟩

end

section

variable (h : VfsSound s (T.open_ ⟨f, i, session⟩))
include h

theorem VfsSound.openFailed :
    VfsSound { (s.setFile f { s.files f with session := 0, state := .free }
        |>.setSession i { s.sessions i with openFiles := (s.sessions i).openFiles - 1 }) with
        openFiles := s.openFiles - 1 } T := by
  obtain ⟨hopen, hnone, hi, hid, _, hsession⟩ := h.openingFile (f := f) rfl
  obtain ⟨hnl, hf, hheld, hclosing, hactive, hretained⟩ := h.openingCrew (f := f) rfl
  have hs := h.openingSlot (f := f) rfl
  have hpos := h.openFiles_pos (f := f) (by simp [hopen])
  refine h.change (x := { s.files f with session := 0, state := .free }) hf
    (.update rfl rfl rfl rfl rfl rfl rfl rfl) rfl rfl rfl ?_
    (h.count_leave hf hi hid hsession rfl) rfl (fun g hg => (T.at_open_ne _ hg.symm).symm) h.reaps
    (fun _ _ => ⟨rfl, fun _ => rfl⟩) ?_ { h.opens.setIdle hnl _ with }
  · change s.openFiles - 1 + _ = _
    simp only [hopen]
    simp
    omega
  · exact { hs with
      opening := by simp [hnone]
      closing := by simp [hclosing]
      idle := fun _ => ⟨hactive, hretained⟩
      free := fun _ => rfl
      owned := by simp
      detached := by simp
      beyond := fun hn => absurd hf (not_lt.2 hn)
      session := fun h0 => absurd rfl h0
      current := fun hl => absurd rfl hl.1
      holds := fun e he => by simp [hheld] at he
      opens := fun e he => by simp [hnone] at he
      closes := fun e he => by simp [hclosing] at he
      waits := fun e he => ((hs.waits e he).not_live hnl : FileWaits s f _ e) }

theorem VfsSound.openPublished {node : ℕ} (flags : BitVec 32) (kind : AstraVfsKind) :
    VfsSound { s.setFile f { s.files f with node := node, session := session, flags := flags,
                                            kind := kind, state := .isOpen } with
        opens := s.opens ++
          [⟨f, session, node, s.reuses f, handleMake f (s.files f).generation, 0⟩]
        opening := update s.opening f s.opens.length } T := by
  obtain ⟨hopen, hnone, hi, hid, hse, hsession⟩ := h.openingFile (f := f) rfl
  obtain ⟨hnl, hf, hheld, hclosing, hactive, hretained⟩ := h.openingCrew (f := f) rfl
  have hs := h.openingSlot (f := f) rfl
  dsimp only at hi hid hse
  let o₀ : BackendOpen := ⟨f, session, node, s.reuses f, handleMake f (s.files f).generation, 0⟩
  have hget : ∀ (k : ℕ) (o : BackendOpen), (s.opens ++ [o₀])[k]? = some o →
      s.opens[k]? = some o ∨ k = s.opens.length ∧ o = o₀ := by
    intro k o ho
    rw [List.getElem?_append] at ho
    split_ifs at ho with hk
    · exact .inl ho
    · refine .inr ?_
      cases hd : k - s.opens.length with
      | zero =>
        rw [hd] at ho
        exact ⟨by omega, (Option.some.inj ho).symm⟩
      | succ n => simp [hd] at ho
  refine h.change (x := { s.files f with node := node, session := session, flags := flags,
                                            kind := kind, state := .isOpen }) hf
    ⟨rfl, fun _ => rfl, fun _ => rfl, fun _ => rfl, rfl, rfl, rfl⟩ rfl rfl rfl (by simp [hopen]; rfl)
    (fun j _ _ => by rw [hse]; rfl) rfl (fun g hg => (T.at_open_ne _ hg.symm).symm) h.reaps ?_ ?_ ?_
  · intro g hg
    refine ⟨rfl, fun hl => ?_⟩
    obtain ⟨o, hcur⟩ := (h.slot g).current hl
    have hlt := (List.getElem?_eq_some_iff.1 hcur.1).1
    change (s.opens ++ _)[update s.opening f _ g]? = _
    rw [update_of_ne hg, List.getElem?_append_left hlt]
  · exact { hs with
      opening := by simp [hnone]
      closing := by simp [hclosing]
      idle := fun _ => ⟨hactive, hretained⟩
      free := by simp
      owned := fun _ => hse ▸ hsession
      detached := by simp
      beyond := fun hn => absurd hf (not_lt.2 hn)
      session := fun _ => ⟨i, hi, hid.trans hse.symm⟩
      current := fun _ => by
        refine ⟨o₀, ?_, rfl, rfl, rfl, fun _ => rfl, by simp [hclosing, o₀]⟩
        change (s.opens ++ _)[update s.opening f s.opens.length f]? = _
        rw [update_self, List.getElem?_concat_length]
      holds := fun e he => by simp [hheld] at he
      opens := fun e he => by simp [hnone] at he
      closes := fun e he => by simp [hclosing] at he
      waits := fun e he => ((hs.waits e he).not_live hnl : FileWaits s f _ e) }
  · have hpast : ∀ (k : ℕ) (o : BackendOpen), s.opens[k]? = some o → o.slot = f →
        o.use < s.reuses f := by
      intro k o ho hof
      rcases h.opens.settled k o ho with ⟨_, hl, _⟩ | ⟨_, hu⟩
      · exact absurd (hof ▸ hl) hnl
      · exact hof ▸ hu
    refine ⟨fun k o ho => ?_, fun k k' o o' ho ho' hslot huse => ?_, fun k o ho => ?_⟩
    · rcases hget k o ho with hold | ⟨rfl, rfl⟩
      · rcases h.opens.settled k o hold with ⟨hk, hl, hu⟩ | hr
        · have hne : o.slot ≠ f := fun he => hnl (he ▸ hl)
          refine .inl ⟨(update_of_ne hne ..).trans hk, ?_, hu⟩
          change ((s.setFile f _).files o.slot).Live
          rwa [setFile_ne _ _ hne]
        · exact .inr hr
      · refine .inl ⟨update_self .., ?_, rfl⟩
        change ((s.setFile f _).files f).Live
        rw [setFile_self]
        constructor <;> simp
    · rcases hget k o ho with hold | ⟨rfl, rfl⟩ <;> rcases hget k' o' ho' with hold' | ⟨rfl, rfl⟩
      · exact h.opens.distinct k k' o o' hold hold' hslot huse
      · have : o.use < s.reuses f := hpast k o hold hslot
        exact absurd huse this.ne
      · have : o'.use < s.reuses f := hpast k' o' hold' hslot.symm
        exact absurd huse this.ne'
      · rfl
    · rcases hget k o ho with hold | ⟨rfl, rfl⟩
      · exact h.opens.handles k o hold
      · exact ⟨hf, fun h0 => hsession (hse.symm.trans h0), congrArg (handleMake f) (hs.generation hf)⟩

theorem VfsSound.handleOpenDone (flags : BitVec 32) (a : BackendAnswer) :
    VfsSound (Astra.handleOpenDone s session i f flags a).2.2 T := by
  unfold Astra.handleOpenDone
  split
  · exact h.openFailed
  · exact h.openPublished flags a.kind

end

end Astra
