import AstraKernel.Proofs.VfsSlots

/-!
# Slots given out and given up

A slot is reserved for an open, holds the node of the open that succeeded, is detached from its
session or closed, and is given up.
-/

namespace Astra

open Function

variable {s s' : AstraVfsService} {T T' : VfsOwned} {f : ℕ}

section

variable {i : ℕ} {slot : AstraVfsSessionSlot}

theorem SameSessions.update (hcap : s'.sessionCapacity = s.sessionCapacity)
    (hsess : s'.sessions = update s.sessions i slot) (hid : slot.id = (s.sessions i).id)
    (hin : slot.inflight = (s.sessions i).inflight) (hcl : slot.closing = (s.sessions i).closing)
    (hopened : s'.sessionsOpened = s.sessionsOpened) (hnext : s'.nextSession = s.nextSession)
    (hopen : s'.openSessions = s.openSessions) : SameSessions s s' := by
  refine ⟨hcap, fun j => ?_, fun j => ?_, fun j => ?_, hopened, hnext, hopen⟩ <;>
    by_cases hj : j = i <;> simp [hsess, hj, hid, hin, hcl]

theorem VfsSound.count_leave (h : VfsSound s T) (hf : f < s.fileHighWater)
    (hi : i < s.sessionCapacity) (hid : (s.sessions i).id = (s.files f).session)
    (hsession : (s.files f).session ≠ 0)
    (hsess : s'.sessions =
      update s.sessions i { s.sessions i with openFiles := (s.sessions i).openFiles - 1 }) :
    ∀ j < s.sessionCapacity, (s.sessions j).id ≠ 0 →
      (s'.sessions j).openFiles + (if (s.files f).session = (s.sessions j).id then 1 else 0) =
        (s.sessions j).openFiles + if 0 = (s.sessions j).id then 1 else 0 := by
  intro j hj hjd
  have hpos : 0 < (s.sessions i).openFiles := by
    rw [h.sessionFiles i hi (hid ▸ hsession)]
    exact Finset.card_pos.2 ⟨f, by simp [hf, hid]⟩
  rw [if_neg hjd.symm, ← hid]
  by_cases hji : j = i
  · subst hji
    simp only [hsess, update_self, if_true]
    omega
  · rw [if_neg fun he => hji ((h.sessionSlot hi hj (hid ▸ hsession)).1 he).symm, hsess,
      update_of_ne hji]

theorem VfsSound.count_enter (h : VfsSound s T) (hi : i < s.sessionCapacity)
    (hid : (s.sessions i).id ≠ 0) (hfree : (s.files f).session = 0)
    (hsess : s'.sessions =
      update s.sessions i { s.sessions i with openFiles := (s.sessions i).openFiles + 1 }) :
    ∀ j < s.sessionCapacity, (s.sessions j).id ≠ 0 →
      (s'.sessions j).openFiles + (if (s.files f).session = (s.sessions j).id then 1 else 0) =
        (s.sessions j).openFiles + if (s.sessions i).id = (s.sessions j).id then 1 else 0 := by
  intro j hj hjd
  rw [hfree, if_neg hjd.symm]
  by_cases hji : j = i
  · subst hji
    simp [hsess]
  · rw [if_neg fun he => hji ((h.sessionSlot hi hj hid).1 he).symm, hsess, update_of_ne hji]

end

theorem VfsSound.openFiles_pos (h : VfsSound s T) (hf : (s.files f).state ≠ .free) :
    0 < s.openFiles := by
  rw [h.openFiles]
  exact Finset.card_pos.2 ⟨f, by simp [(h.slot f).lt hf, hf]⟩

theorem VfsSound.dropOpenFile_eq (h : VfsSound s T) (hf : f < s.fileHighWater)
    (hsession : (s.files f).session ≠ 0) :
    ∃ i < s.sessionCapacity, (s.sessions i).id = (s.files f).session ∧
      ∀ s₁ : AstraVfsService, s₁.sessions = s.sessions →
        dropOpenFile s₁ (Astra.findSession s (s.files f).session) = s₁.setSession i
          { s.sessions i with openFiles := (s.sessions i).openFiles - 1 } := by
  obtain ⟨i, hi, hid, hfind, hpos⟩ := h.fileSession hsession
  refine ⟨i, hi, hid, fun s₁ hs₁ => ?_⟩
  have := hpos hf
  simp only [hfind, dropOpenFile, hs₁]
  rw [if_neg (by omega)]

theorem VfsSound.closeDetach {e : ClosingFile} (h : VfsSound s (T.close e)) (he : e.f = f)
    (hb : e.backend = none) (hactive : (s.files f).active = false)
    (hretained : (s.files f).retained = true) (hsession : (s.files f).session ≠ 0) :
    VfsSound (Astra.closeDetach s f) T := by
  obtain ⟨_, hnone, hclosing⟩ := h.closesFile he
  have hs := h.closingSlot he
  have hlive : (s.files f).Live := by constructor <;> simp [hclosing]
  have hlive' : ({ s.files f with session := 0, state := .detached } : AstraVfsOpenFile).Live := by
    constructor <;> simp
  have hf := hs.lt hlive.1
  obtain ⟨i, hi, hid, hdrop⟩ := h.dropOpenFile_eq hf hsession
  rw [Astra.closeDetach, hdrop]
  swap
  · rfl
  refine h.change (x := { s.files f with session := 0, state := .detached }) hf
    (.update rfl rfl rfl rfl rfl rfl rfl rfl) rfl rfl rfl (by simp [hclosing]; rfl)
    (h.count_leave hf hi hid hsession rfl) rfl
    (fun g hg => (T.at_close_ne _ (he ▸ hg.symm)).symm)
    (fun e' he' => h.reaps e' (Multiset.mem_cons_of_mem he')) (fun _ _ => ⟨rfl, fun _ => rfl⟩) ?_
    { h.opens.setFile (iff_of_true hlive' hlive) with }
  have hheld : (T.at_ f).held = 0 := hs.not_held hactive
  have hopening : (T.at_ f).opening = 0 := hs.not_opening hlive.2
  exact { hs with
    opening := by simp [hopening]
    closing := by simp [hnone]
    idle := fun hl => absurd hlive' hl
    free := fun hf => absurd hf hlive'.1
    owned := by simp
    detached := fun _ => ⟨rfl, hretained⟩
    beyond := fun hf => absurd (hs.beyond hf).1 hlive.1
    session := fun h0 => absurd rfl h0
    current := fun _ => by
      obtain ⟨o, h1, h2, h3, h4, _, h6⟩ := hs.current hlive
      rw [VfsOwned.close, Multiset.countP_cons_of_neg _ (by simp [hb])] at h6
      exact ⟨o, h1, h2, h3, h4, fun h0 => absurd rfl h0, h6⟩
    holds := fun e' he' => by simp [hheld] at he'
    opens := fun e' he' => by simp [hopening] at he'
    closes := fun e' he' => by simp [hnone] at he'
    waits := fun e' he' => (hs.waits e' he').congr (fun _ => hlive') (.inr rfl) }

theorem current_ne {crew : VfsOwned} {file : AstraVfsOpenFile}
    {o : BackendOpen} (hc : Current s crew f file o) {g : ℕ} (hg : g ≠ f) {o' : BackendOpen}
    {crew' : VfsOwned} {file' : AstraVfsOpenFile} (hc' : Current s crew' g file' o') :
    s.opening g ≠ s.opening f := by
  intro heq
  have := hc'.1
  rw [heq, hc.1] at this
  exact hg (hc'.2.1.symm.trans ((Option.some.inj this) ▸ hc.2.1))

theorem VfsSound.backendClose {c : Closer} (h : VfsSound s (T.close ⟨f, c, none⟩))
    (hactive : (s.files f).active = false)
    (hretained : (∃ token, c = .release token) ∨ (s.files f).retained = false) :
    VfsSound (Astra.backendClose s f) (T.close ⟨f, c, some (s.files f).node⟩) := by
  obtain ⟨hcloses, hnone, hclosing⟩ := h.closesFile (f := f) rfl
  have hs := h.closingSlot (f := f) rfl
  have hlive : (s.files f).Live := by constructor <;> simp [hclosing]
  obtain ⟨o, hcur⟩ := hs.current hlive
  have hcloses' : Closes (s.files f) f ⟨f, c, some (s.files f).node⟩ := by
    refine ⟨fun node hn => ⟨hactive, Option.some.inj hn⟩, ?_⟩
    cases c with
    | release token => exact hcloses.2
    | request frame => exact ⟨hcloses.2.1, fun _ => by simpa using hretained⟩
    | reap i session after =>
      exact ⟨hcloses.2.1, hcloses.2.2.1, fun _ => by simpa using hretained⟩
  have hget : ∀ k, (Astra.backendClose s f).opens[k]? = if s.opening f = k then
      some { o with closes := o.closes + 1 } else s.opens[k]? := by
    intro k
    simp only [Astra.backendClose, List.getElem?_modify]
    by_cases hk : s.opening f = k
    · simp [← hk, hcur.1]
    · simp [hk]
  refine h.change (x := s.files f) (hs.lt hlive.1)
    ⟨rfl, fun _ => rfl, fun _ => rfl, fun _ => rfl, rfl, rfl, rfl⟩ (update_eq_self f s.files).symm
    rfl rfl rfl (fun _ _ _ => rfl) rfl ?_ ?_ ?_ ?_ ?_
  · intro g hg
    rw [T.at_close_ne (e := ⟨f, c, none⟩) _ hg.symm,
      T.at_close_ne (e := ⟨f, c, some (s.files f).node⟩) _ hg.symm]
  · intro e he i session after hc
    rcases Multiset.mem_cons.1 he with rfl | hm
    · exact h.reaping hc
    · exact h.reaps e (Multiset.mem_cons_of_mem hm) i session after hc
  · intro g hg
    refine ⟨rfl, fun hl => ?_⟩
    obtain ⟨o', hcur'⟩ := (h.slot g).current hl
    exact (hget _).trans (if_neg (current_ne hcur hg hcur').symm)
  · rw [T.at_close_self (e := ⟨f, c, some (s.files f).node⟩) f rfl]
    exact { hs with
      closing := by simpa [VfsOwned.close] using hs.closing
      current := fun _ => by
        obtain ⟨_, h2, h3, h4, h5, h6⟩ := hcur
        refine ⟨{ o with closes := o.closes + 1 }, (hget _).trans (if_pos rfl), h2, h3, h4, h5, ?_⟩
        rw [VfsOwned.close, Multiset.countP_cons_of_neg _ (by simp), hnone] at h6
        rw [VfsOwned.close, Multiset.countP_cons_of_pos _ (by simp), hnone]
        exact congrArg (· + 1) h6
      closes := fun e he => by
        rcases Multiset.mem_cons.1 he with rfl | hm
        · exact hcloses'
        · simp [hnone] at hm }
  · have hback : ∀ (k : ℕ) (o' : BackendOpen), (Astra.backendClose s f).opens[k]? = some o' →
        ∃ o'', s.opens[k]? = some o'' ∧ o''.slot = o'.slot ∧ o''.use = o'.use ∧
          o''.session = o'.session ∧ o''.handle = o'.handle := by
      intro k o' ho'
      rw [hget] at ho'
      split_ifs at ho' with hk
      · cases ho'
        exact ⟨o, hk ▸ hcur.1, rfl, rfl, rfl, rfl⟩
      · exact ⟨o', ho', rfl, rfl, rfl, rfl⟩
    refine ⟨fun k o' ho' => ?_, fun k k' o₁ o₂ h₁ h₂ hslot huse => ?_, fun k o' ho' => ?_⟩
    · rw [hget] at ho'
      split_ifs at ho' with hk
      · cases ho'
        exact .inl ⟨(congrArg s.opening hcur.2.1).trans hk,
          (congrArg (fun g => (s.files g).Live) hcur.2.1).mpr hlive,
          hcur.2.2.2.1.trans (congrArg s.reuses hcur.2.1.symm)⟩
      · exact h.opens.settled k o' ho'
    · obtain ⟨o₁', h₁', hs₁, hu₁, _⟩ := hback k o₁ h₁
      obtain ⟨o₂', h₂', hs₂, hu₂, _⟩ := hback k' o₂ h₂
      exact h.opens.distinct k k' o₁' o₂' h₁' h₂' (by rw [hs₁, hs₂, hslot]) (by rw [hu₁, hu₂, huse])
    · obtain ⟨o'', h'', hs'', hu'', hse'', hh''⟩ := hback k o' ho'
      have := h.opens.handles k o'' h''
      rwa [hs'', hu'', hse'', hh''] at this

def givenUp (file : AstraVfsOpenFile) : AstraVfsOpenFile :=
  { file with node := 0, session := 0, flags := 0, kind := .unknown, state := .free, active := false,
              retained := false, sequence := file.sequence + 1,
              generation := nextGeneration file.generation }

section

variable (hfiles : s'.files = update s.files f (givenUp (s.files f)))
  (hreuses : s'.reuses = update s.reuses f (s.reuses f + 1))
  (hhigh : s'.fileHighWater = s.fileHighWater)

include hreuses hhigh

theorem SlotSound.givenUp {crew crew' : VfsOwned} {file : AstraVfsOpenFile}
    (h : SlotSound s crew f file) (hf : f < s.fileHighWater) (hheld : crew'.held = 0)
    (hopening : crew'.opening = 0) (hclosing : crew'.closing = 0) (htokens : crew'.tokens = 0)
    (hwaits : crew'.waits = crew.waits) : SlotSound s' crew' f (Astra.givenUp file) where
  held := by simp [hheld, Astra.givenUp]
  opening := by simp [hopening, Astra.givenUp]
  closing := by simp [hclosing, Astra.givenUp]
  tokens := by simp [htokens, Astra.givenUp]
  idle _ := ⟨rfl, rfl⟩
  free _ := rfl
  owned ho := by simp [Astra.givenUp] at ho
  detached hd := by simp [Astra.givenUp] at hd
  beyond hn := by omega
  generation _ := by
    rw [hreuses, update_self, generationAfter, ← h.generation hf]
    rfl
  session h0 := absurd rfl h0
  current hl := absurd rfl hl.1
  holds e he := by simp [hheld] at he
  opens e he := by simp [hopening] at he
  closes e he := by simp [hclosing] at he
  waits e he := by
    obtain ⟨hf, ha, hn, hg, use, hu, hgen, _⟩ := h.waits e (hwaits ▸ he)
    refine ⟨hhigh ▸ hf, ha, hn, hg, use, ?_, hgen, fun hr => ?_⟩ <;>
      rw [hreuses, update_self] at * <;> omega

include hfiles

theorem OpensSound.givenUp (h : OpensSound s) {crew : VfsOwned} {o : BackendOpen}
    (hcur : Current s crew f (s.files f) o) (hcloses : o.closes = 1)
    (hopens : s'.opens = s.opens) (hopening : s'.opening = s.opening) : OpensSound s' where
  settled k o' ho' := by
    rw [hopens] at ho'
    rw [OpenSettled, hopening, hfiles, hreuses]
    by_cases hf : o'.slot = f
    · rw [hf, update_self, update_self]
      rcases h.settled k o' ho' with ⟨hk, _, hu⟩ | ⟨hc, hu⟩
      · rw [hf] at hk hu
        have : o = o' := Option.some.inj (hcur.1.symm.trans (hk ▸ ho'))
        exact .inr ⟨this ▸ hcloses, by omega⟩
      · rw [hf] at hu
        exact .inr ⟨hc, by omega⟩
    · rw [update_of_ne hf, update_of_ne hf]
      exact h.settled k o' ho'
  distinct k k' o₁ o₂ h₁ h₂ := h.distinct k k' o₁ o₂ (hopens ▸ h₁) (hopens ▸ h₂)
  handles k o' ho' := by
    rw [hhigh]
    exact h.handles k o' (hopens ▸ ho')

end

theorem VfsSound.finishFileClose {c : Closer} {node : ℕ} {detached : Bool}
    (h : VfsSound s (T.close ⟨f, c, some node⟩)) (hslots : T'.slots = T.slots)
    (hat : ∀ g ≠ f, T'.at_ g = T.at_ g) (hclosings : T'.closing = T.closing)
    (hheld : (T'.at_ f).held = (T.at_ f).held) (hopening : (T'.at_ f).opening = (T.at_ f).opening)
    (hwaits : (T'.at_ f).waits = (T.at_ f).waits) (htokens : (T'.at_ f).tokens = 0)
    (hdet : detached = true ↔ ∃ token, c = .release token) :
    VfsSound (Astra.finishFileClose s f detached) T' := by
  obtain ⟨hcloses, hnone, hclosing⟩ := h.closesFile (f := f) rfl
  have hs := h.closingSlot (f := f) rfl
  have hlive : (s.files f).Live := by constructor <;> simp [hclosing]
  have hf := hs.lt hlive.1
  have hactive := (hcloses.1 node rfl).1
  obtain ⟨o, hcur⟩ := hs.current hlive
  have hone : o.closes = 1 := by
    have := hcur.2.2.2.2.2
    rwa [VfsOwned.close, Multiset.countP_cons_of_pos _ (by simp), hnone] at this
  have hslot : ∀ s' : AstraVfsService, s'.reuses = update s.reuses f (s.reuses f + 1) →
      s'.fileHighWater = s.fileHighWater → SlotSound s' (T'.at_ f) f (givenUp (s.files f)) :=
    fun s' hr hh => hs.givenUp hr hh hf (hheld.trans (hs.not_held hactive))
      (hopening.trans (hs.not_opening hlive.2))
      ((congrArg (Multiset.filter fun e : ClosingFile => e.f = f) hclosings).trans hnone) htokens hwaits
  have hpos := h.openFiles_pos hlive.1
  have hopen : s.openFiles - 1 + (if (s.files f).state ≠ .free then 1 else 0) =
      s.openFiles + if (givenUp (s.files f)).state ≠ .free then 1 else 0 := by
    simp only [hlive.1, givenUp, ne_eq, not_true_eq_false, not_false_eq_true, if_true, if_false]
    omega
  have hreaps : ∀ e ∈ T'.closing, ∀ i session after, e.closer = .reap i session after →
      Reaping s i session := fun e he => h.reaps e (Multiset.mem_cons_of_mem (hclosings ▸ he))
  have hat' : ∀ g ≠ f, T'.at_ g = (T.close ⟨f, c, some node⟩).at_ g := fun g hg =>
    (hat g hg).trans (T.at_close_ne _ hg.symm).symm
  have hothers : ∀ g ≠ f, update s.reuses f (s.reuses f + 1) g = s.reuses g ∧
      ((s.files g).Live → s.opens[s.opening g]? = s.opens[s.opening g]?) :=
    fun g hg => ⟨update_of_ne hg .., fun _ => rfl⟩
  rw [Astra.finishFileClose]
  cases detached with
  | true =>
    obtain ⟨token, rfl⟩ := hdet.1 rfl
    have hsession : (s.files f).session = 0 := hcloses.2.1
    exact h.change hf ⟨rfl, fun _ => rfl, fun _ => rfl, fun _ => rfl, rfl, rfl, rfl⟩ rfl rfl rfl
      hopen (fun i _ _ => by rw [hsession]; rfl) hslots hat' hreaps hothers
      (hslot _ rfl rfl) (h.opens.givenUp rfl rfl rfl hcur hone rfl rfl)
  | false =>
    have hsession : (s.files f).session ≠ 0 := by
      cases c with
      | release token => simp at hdet
      | request frame => exact hcloses.2.1
      | reap i session after => exact hcloses.2.2.1 ▸ hcloses.2.1
    obtain ⟨i, hi, hid, hdrop⟩ := h.dropOpenFile_eq hf hsession
    rw [if_neg (by simp), hdrop]
    swap
    · rfl
    exact h.change hf (.update rfl rfl rfl rfl rfl rfl rfl rfl) rfl rfl rfl
      hopen (h.count_leave hf hi hid hsession rfl) hslots hat' hreaps hothers
      (hslot _ rfl rfl) (h.opens.givenUp rfl rfl rfl hcur hone rfl rfl)

end Astra
