import AstraKernel.Proofs.VfsSessions

/-!
# Closing files and reaping sessions

What a call has reserved and taken goes with it from stretch to stretch. Each stretch that closes a
file, ends a request or reaps a session leaves the tables sound with what it ends at.
-/

namespace Astra

open Function

variable {s s' : AstraVfsService} {R T : VfsOwned} {f i : ℕ}

def VfsPoint.Named (R : VfsOwned) : VfsPoint → Prop
  | .fileCall _ (.token token) _ _ _ => token ∈ R.tokens
  | _ => True

/-- What a stretch of a call leaves, where `R` is what the other calls own. A call that never comes
to an end keeps the session slots it has reserved. -/
def VfsKept (R : VfsOwned) (r : AstraVfsService × VfsOutcome) : Prop :=
  match r.2 with
  | .reply _ => VfsSound r.1 R
  | .park p => VfsSound r.1 (p.over R) ∧ p.Named R
  | .spins => ∃ n : Multiset ℕ, VfsSound r.1 { R with slots := n + R.slots }

theorem VfsKept.ite {c : Prop} [Decidable c] {a b : AstraVfsService × VfsOutcome}
    (ht : c → VfsKept R a) (he : ¬ c → VfsKept R b) : VfsKept R (if c then a else b) := by
  split
  · rename_i hc
    exact ht hc
  · rename_i hc
    exact he hc

namespace VfsOwned

theorem hold_comm (R : VfsOwned) (a b : HeldFile) : (R.hold a).hold b = (R.hold b).hold a := by
  simp [hold, Multiset.cons_swap]

theorem holdAll_hold (R : VfsOwned) (l : List HeldFile) (a : HeldFile) :
    (R.hold a).holdAll l = (R.holdAll l).hold a := by
  induction l with
  | nil => rfl
  | cons b l ih =>
    change ((R.hold a).holdAll l).hold b = ((R.holdAll l).hold b).hold a
    rw [ih, hold_comm]

theorem holdAll_append (R : VfsOwned) (l m : List HeldFile) :
    R.holdAll (l ++ m) = (R.holdAll m).holdAll l :=
  List.foldr_append ..

end VfsOwned

theorem VfsSound.releaseAll {l : List HeldFile} (h : VfsSound s (R.holdAll l)) :
    VfsSound (Astra.releaseAll s (l.map HeldFile.f)) R := by
  induction l generalizing s with
  | nil => exact h
  | cons a l ih => exact ih (VfsSound.fileRelease (T := R.holdAll l) (e := a) h rfl)

@[simp] theorem baseFile_map (session handle : ℕ) (base : Option (ℕ × ℕ)) :
    (baseFile session handle base).map HeldFile.f = base.toList.map Prod.fst := by
  cases base <;> rfl

theorem After.over_slots (after : After) (R : VfsOwned) :
    ∃ n : Multiset ℕ, after.over R = { R with slots := n + R.slots } := by
  cases after with
  | reply r => exact ⟨0, by simp [After.over]⟩
  | batch frame status => exact ⟨{frame.slot}, rfl⟩
  | grant index g => exact ⟨0, by simp [After.over]⟩

variable {after : After} {node session token : ℕ}

theorem VfsSound.afterRun (h : VfsSound s (after.over R)) : VfsKept R (after.run s) := by
  cases after with
  | reply r => exact h
  | batch frame status => exact ⟨h, trivial⟩
  | grant index g => exact ⟨h, trivial⟩

section

theorem SameSessions.refl (s : AstraVfsService) : SameSessions s s :=
  ⟨rfl, fun _ => rfl, fun _ => rfl, fun _ => rfl, rfl, rfl, rfl⟩

theorem SameSessions.trans {s'' : AstraVfsService} (h : SameSessions s s')
    (h' : SameSessions s' s'') : SameSessions s s'' :=
  ⟨h'.capacity.trans h.capacity, fun i => (h'.id i).trans (h.id i),
    fun i => (h'.inflight i).trans (h.inflight i), fun i => (h'.closing i).trans (h.closing i),
    h'.sessionsOpened.trans h.sessionsOpened, h'.nextSession.trans h.nextSession,
    h'.openSessions.trans h.openSessions⟩

section

variable (s)

theorem dropOpenFile_same (slot : Option ℕ) : SameSessions s (dropOpenFile s slot) := by
  cases slot with
  | none => exact .refl s
  | some i =>
    by_cases h0 : (s.sessions i).openFiles = 0
    · rw [dropOpenFile, if_pos h0]
      exact .refl s
    · rw [dropOpenFile, if_neg h0]
      exact .update rfl rfl rfl rfl rfl rfl rfl rfl

section

variable (f)

theorem closeDetach_same : SameSessions s (closeDetach s f) :=
  (SameSessions.setFile s f _).trans (dropOpenFile_same _ _)

theorem finishFileClose_same (detached : Bool) : SameSessions s (finishFileClose s f detached) := by
  unfold finishFileClose
  cases detached with
  | true => exact ⟨rfl, fun _ => rfl, fun _ => rfl, fun _ => rfl, rfl, rfl, rfl⟩
  | false =>
    rw [if_neg (by simp)]
    refine SameSessions.trans ?_ (dropOpenFile_same _ _)
    exact ⟨rfl, fun _ => rfl, fun _ => rfl, fun _ => rfl, rfl, rfl, rfl⟩

@[simp] theorem setFile_setFile (file file' : AstraVfsOpenFile) :
    (s.setFile f file).setFile f file' = s.setFile f file' := by
  simp [AstraVfsService.setFile]

theorem setFile_eq_self : s.setFile f (s.files f) = s := by
  simp [AstraVfsService.setFile]

def Idled (s : AstraVfsService) (f : ℕ) (r : Acquired × AstraVfsService) : Prop :=
  (∃ n, r.2 = s.setFile f { s.files f with waiters := n }) ∧
    (r.1 = .taken → (s.files f).active = false)

theorem fileWaitIdle_idled : Idled s f (fileWaitIdle s f) := by
  unfold fileWaitIdle
  dsimp only
  split
  · by_cases hw : s.stateWait = false ∨ (s.files f).waiters = astraVfsWaitersMax
    · rw [if_pos hw]
      exact ⟨⟨(s.files f).waiters, (setFile_eq_self s f).symm⟩, by simp⟩
    · rw [if_neg hw]
      exact ⟨⟨(s.files f).waiters + 1, rfl⟩, by simp⟩
  · rename_i hactive
    exact ⟨⟨(s.files f).waiters, (setFile_eq_self s f).symm⟩, fun _ => by simpa using hactive⟩

theorem fileWaitIdleWoken_idled (waited : Bool) : Idled s f (fileWaitIdleWoken s f waited) := by
  unfold fileWaitIdleWoken
  split
  · exact ⟨⟨_, rfl⟩, by simp⟩
  · obtain ⟨⟨n, hn⟩, hidle⟩ := fileWaitIdle_idled
      (s.setFile f { s.files f with waiters := (s.files f).waiters - 1 }) f
    exact ⟨⟨n, by rw [hn]; simp⟩, fun ht => by simpa using hidle ht⟩

end

end

def CloseKept (R : VfsOwned) (closer : Closer) (f : ℕ) (r : Closed × AstraVfsService) : Prop :=
  match r.1 with
  | .done _ => VfsSound r.2 R
  | .waits => VfsSound r.2 (R.close ⟨f, closer, none⟩)
  | .backend => VfsSound r.2 (R.close ⟨f, closer, some (r.2.files f).node⟩)

variable {r : Acquired × AstraVfsService}

theorem VfsSound.closeFileAt {closer : Closer} (h : VfsSound s (R.close ⟨f, closer, none⟩))
    (hc : ∀ token, closer ≠ .release token) (hr : Idled s f r) :
    CloseKept R closer f (Astra.closeFileAt r f) ∧ SameSessions s (Astra.closeFileAt r f).2 := by
  obtain ⟨a, s₁⟩ := r
  obtain ⟨⟨n, hn⟩, hidle⟩ := hr
  dsimp only at hn hidle
  obtain ⟨hcloses, _, hclosing⟩ := h.closesFile (f := f) rfl
  have h₁ : VfsSound s₁ (R.close ⟨f, closer, none⟩) := hn ▸ h.setWaiters ((h.slot f).lt (by simp [hclosing])) n
  have hsame : SameSessions s s₁ := hn ▸ .setFile s f _
  have hfile : s₁.files f = { s.files f with waiters := n } := by rw [hn, setFile_self]
  have hsession : (s₁.files f).session ≠ 0 := by
    rw [hfile]
    cases closer with
    | request frame => exact hcloses.2.1
    | reap i session after => exact hcloses.2.2.1 ▸ hcloses.2.1
    | release token => exact absurd rfl (hc token)
  cases a with
  | waits => exact ⟨h₁, hsame⟩
  | refused =>
    exact ⟨h₁.endClose (f := f) rfl rfl (.inl ⟨rfl, hsession⟩), hsame.trans (.setFile s₁ f _)⟩
  | taken =>
    have hactive : (s₁.files f).active = false := by
      rw [hfile]
      exact hidle rfl
    unfold Astra.closeFileAt
    dsimp only
    split
    · rename_i hret
      exact ⟨h₁.closeDetach (f := f) rfl rfl hactive hret hsession,
        hsame.trans (closeDetach_same s₁ f)⟩
    · rename_i hret
      exact ⟨h₁.backendClose hactive (.inr (by simpa using hret)),
        hsame.trans ⟨rfl, fun _ => rfl, fun _ => rfl, fun _ => rfl, rfl, rfl, rfl⟩⟩

theorem VfsSound.releaseRetainedAt {token : ℕ}
    (h : VfsSound s (R.close ⟨f, .release token, none⟩))
    (hr : Idled s f r) : CloseKept R (.release token) f (Astra.releaseRetainedAt r f) := by
  obtain ⟨a, s₁⟩ := r
  obtain ⟨⟨n, hn⟩, hidle⟩ := hr
  dsimp only at hn hidle
  obtain ⟨hcloses, _, hclosing⟩ := h.closesFile (f := f) rfl
  have h₁ : VfsSound s₁ (R.close ⟨f, .release token, none⟩) :=
    hn ▸ h.setWaiters ((h.slot f).lt (by simp [hclosing])) n
  have hfile : s₁.files f = { s.files f with waiters := n } := by rw [hn, setFile_self]
  cases a with
  | waits => exact h₁
  | refused =>
    refine h₁.endClose (f := f) rfl rfl (.inr ⟨rfl, ?_⟩)
    rw [hfile]
    exact ⟨hcloses.2.1, hcloses.2.2.1⟩
  | taken =>
    refine h₁.backendClose ?_ (.inl ⟨token, rfl⟩)
    rw [hfile]
    exact hidle rfl

end

variable (closer : Closer)

theorem VfsSound.closeFile (h : VfsSound s R) (hopen : (s.files f).state = .isOpen)
    (hreap : ∀ i session after, closer = .reap i session after →
      Reaping s i session ∧ (s.files f).session = session)
    (hc : ∀ token, closer ≠ .release token) :
    CloseKept R closer f (Astra.closeFile s f) ∧ SameSessions s (Astra.closeFile s f).2 := by
  have hs := h.slot f
  have hsession : (s.files f).session ≠ 0 := hs.owned (.inl hopen)
  have hcloses : Closes (s.files f) f ⟨f, closer, none⟩ := by
    refine ⟨by simp, ?_⟩
    cases closer with
    | request frame => exact ⟨hsession, by simp⟩
    | reap i session after =>
      have he := (hreap i session after rfl).2
      exact ⟨he ▸ hsession, he, by simp⟩
    | release token => exact absurd rfl (hc token)
  have h₁ := h.beginClose (e := ⟨f, closer, none⟩) (f := f) rfl rfl
    (by constructor <;> simp [hopen]) (by simp [hopen]) hcloses
    fun i session after he => (hreap i session after he).1
  obtain ⟨hk, hsame⟩ := h₁.closeFileAt hc (fileWaitIdle_idled _ f)
  rw [Astra.closeFile, if_neg (by simp [hopen])]
  exact ⟨hk, (SameSessions.setFile s f _).trans hsame⟩

theorem VfsSound.reapLoop (turns : ℕ) (h : VfsSound s (after.over R))
    (hr : Reaping s i session) (hid : session ≠ 0) :
    VfsKept R (Astra.reapLoop i session after turns s) := by
  induction turns generalizing s with
  | zero =>
    obtain ⟨n, hn⟩ := after.over_slots R
    exact ⟨n, hn ▸ h⟩
  | succ turns ih =>
    unfold Astra.reapLoop
    cases hfind : (List.range s.fileHighWater).find? fun f =>
        (s.files f).session = session ∧ (s.files f).state = .isOpen with
    | none =>
      by_cases h0 : (s.sessions i).openFiles = 0
      · rw [if_neg (by simp [h0])]
        exact (h.retireSession hr hid h0).afterRun
      · rw [if_pos h0]
        exact h.afterRun
    | some f =>
      have hp : (s.files f).session = session ∧ (s.files f).state = .isOpen := by
        simpa using List.find?_some hfind
      obtain ⟨hk, hsame⟩ := h.closeFile (.reap i session after) hp.2
        (fun _ _ _ he => by cases he; exact ⟨hr, hp.1⟩) (by simp)
      dsimp only
      unfold CloseKept at hk
      cases hclosed : (Astra.closeFile s f).1 with
      | done status =>
        rw [hclosed] at hk
        exact ih hk (hr.congr hsame)
      | waits =>
        rw [hclosed] at hk
        exact ⟨hk, trivial⟩
      | backend =>
        rw [hclosed] at hk
        exact ⟨hk, trivial⟩

theorem VfsSound.reapOn (h : VfsSound s (after.over R))
    (hr : Reaping s i session) (hid : session ≠ 0) : VfsKept R (Astra.reapOn s i session after) :=
  h.reapLoop _ hr hid

theorem VfsSound.finishSessionRequest (after : After) (h : VfsSound s ((after.over R).reserve i)) :
    VfsKept R (Astra.finishSessionRequest s i after) := by
  obtain ⟨hi, hid, _⟩ := h.reserved_slot
  refine .ite (fun hc => ?_) fun _ => h.unreserve.afterRun
  refine h.unreserve.reapOn ⟨hi, rfl, hc.1, hc.2⟩ ?_
  rw [setSession_self]
  exact hid

theorem VfsSound.recordChange (h : VfsSound s R) (operation : ℕ) (flags : BitVec 32) :
    VfsSound (Astra.recordChange s operation flags) R := by
  unfold Astra.recordChange
  split
  · exact h.setChanges _
  split
  · exact h.setChanges _
  · split
    · exact h.setChanges _
    · exact h

theorem VfsSound.finishRequest {frame : RequestFrame} {reply : AstraVfsReply}
    (h : VfsSound s (R.reserve frame.slot)) : VfsKept R (Astra.finishRequest s frame reply) := by
  unfold Astra.finishRequest
  split
  · exact (h.recordChange frame.operation frame.flags).finishSessionRequest (.reply reply)
  · exact h.finishSessionRequest (.reply reply)

theorem VfsSound.finish (frame : Frame) (h : VfsSound s (frame.over R)) (r : FileResult) :
    VfsKept R (frame.finish s r) := by
  cases frame with
  | request frame => exact h.finishRequest
  | direct i => exact h.finishSessionRequest (.reply _)
  | batch i frame => exact h.finishSessionRequest (.batch frame r.status)
  | retained => exact h

theorem CloseKept.goes {r : Closed × AstraVfsService} (h : CloseKept (closer.over R) closer f r)
    (hreap : ∀ i session after, closer = .reap i session after →
      Reaping r.2 i session ∧ session ≠ 0) : VfsKept R (closerGoes r closer f) := by
  obtain ⟨c, s₁⟩ := r
  cases c with
  | waits => exact ⟨h, trivial⟩
  | backend => exact ⟨h, trivial⟩
  | done status =>
    cases closer with
    | request frame => exact VfsSound.finish (.request frame) h _
    | reap i session after =>
      obtain ⟨hr, hid⟩ := hreap i session after rfl
      exact VfsSound.reapOn h hr hid
    | release token => exact VfsSound.finish .retained h _

theorem VfsSound.closerWoken {expected : BitVec 32} (waited : Bool)
    (h : VfsSound s ((VfsPoint.waitIdle closer f expected).over R)) :
    VfsKept R (Astra.closerWoken s closer f waited) := by
  have hidled := fileWaitIdleWoken_idled s f waited
  have hcloses := (VfsSound.closesFile (f := f) h rfl).1
  cases closer with
  | request frame =>
    exact (h.closeFileAt (by simp) hidled).1.goes (.request frame) (by simp)
  | reap i session after =>
    obtain ⟨hk, hsame⟩ := h.closeFileAt (by simp) hidled
    refine hk.goes (.reap i session after) fun _ _ _ he => ?_
    cases he
    exact ⟨(h.reaping rfl).congr hsame, hcloses.2.1⟩
  | release token =>
    exact CloseKept.goes (.release token) (h.releaseRetainedAt hidled) (by simp)

theorem VfsSound.handle_lt (h : VfsSound s R) (hf : f < s.fileHighWater) : f + 1 < 65536 := by
  obtain ⟨h₁, h₂⟩ := h.capacity
  unfold astraVfsFileHandleMax at h₂
  omega

theorem VfsSound.closedFile {closer : Closer}
    (h : VfsSound s (R.close ⟨f, closer, some node⟩)) (hc : ∀ token, closer ≠ .release token) :
    VfsSound (Astra.finishFileClose s f false) R := by
  have hcloses := (h.closesFile (f := f) rfl).1.2
  have htokens := (h.closingSlot (f := f) rfl).tokens
  have hret : (s.files f).retained = false := by
    cases closer with
    | request frame => exact hcloses.2 (by simp)
    | reap i session after => exact hcloses.2.2 (by simp)
    | release token => exact absurd rfl (hc token)
  refine h.finishFileClose rfl (fun _ _ => rfl) rfl rfl rfl rfl ?_ ⟨by simp, ?_⟩
  · rw [hret, if_neg (by simp)] at htokens
    exact htokens
  · rintro ⟨token, rfl⟩
    exact absurd rfl (hc token)

theorem VfsSound.closerDone (status : AstraVfsStatus)
    (h : VfsSound s ((VfsPoint.closeCall closer f node).over R))
    (hc : ∀ token, closer ≠ .release token) : VfsKept R (Astra.closerDone s f status closer) := by
  have hcloses := (VfsSound.closesFile (f := f) h rfl).1.2
  have h₁ := h.closedFile hc
  cases closer with
  | request frame => exact h₁.finish (.request frame) _
  | reap i session after =>
    exact h₁.reapOn ((h.reaping rfl).congr (finishFileClose_same s f false)) hcloses.1
  | release token => exact absurd rfl (hc token)

theorem SlotSound.token_eq {crew : VfsOwned} {file : AstraVfsOpenFile}
    (h : SlotSound s (crew.token token) f file) :
    crew.tokens = 0 ∧ file.retained = true ∧ token = handleMake f file.generation := by
  have ht := h.tokens
  rw [VfsOwned.token] at ht
  split at ht
  · rename_i hret
    have h0 := congrArg Multiset.card ht
    rw [Multiset.card_cons, Multiset.card_singleton] at h0
    have hz : crew.tokens = 0 := Multiset.card_eq_zero.1 (by omega)
    refine ⟨hz, hret, ?_⟩
    rw [hz] at ht
    simpa using ht
  · simp at ht

theorem VfsSound.releasedFile
    (h : VfsSound s ((R.token token).close ⟨f, .release token, some node⟩)) :
    VfsSound (Astra.finishFileClose s f true) R := by
  obtain ⟨⟨_, hcloses⟩, _, hclosing⟩ := h.closesFile (f := f) rfl
  have hs := h.closingSlot (f := f) rfl
  have hf : handleSlot token = f := by
    rw [hcloses.2.2]
    exact handleSlot_make (h.handle_lt (hs.lt (by simp [hclosing]))) _
  refine h.finishFileClose rfl (fun g hg => ((R.at_token_ne g (hf ▸ hg.symm)).symm)) rfl rfl rfl rfl
    ?_ ⟨fun _ => ⟨token, rfl⟩, fun _ => rfl⟩
  rw [R.at_token_self f hf] at hs
  exact (SlotSound.token_eq hs : ((R.at_ f).close _).tokens = 0 ∧ _).1

theorem VfsSound.retain (h : VfsSound s R) (hlive : (s.files f).Live)
    (hstate : (s.files f).state ≠ .closing) (hret : (s.files f).retained = false) :
    VfsSound (s.setFile f { s.files f with retained := true })
      (R.token (handleMake f (s.files f).generation)) := by
  have hs := h.slot f
  have hf := handleSlot_make (h.handle_lt (hs.lt hlive.1)) (s.files f).generation
  have htokens : (R.at_ f).tokens = 0 := by simpa [hret] using hs.tokens
  refine h.setFile hlive.1 Iff.rfl hlive.1 rfl rfl
    (fun g hg => R.at_token_ne _ (by rw [hf]; exact hg.symm)) h.reaps ?_
  rw [R.at_token_self f hf]
  exact { hs with
    tokens := by simp [VfsOwned.token, htokens]
    idle := fun hl => absurd hlive hl
    detached := fun hd => ⟨(hs.detached hd).1, rfl⟩
    closes := fun e he => by
      rw [VfsOwned.token, hs.not_closing hstate] at he
      simp at he }

theorem VfsSound.unretain (h : VfsSound s (R.token token)) (hf : handleSlot token = f)
    (hopen : (s.files f).state = .isOpen) :
    VfsSound (s.setFile f { s.files f with retained := false }) R := by
  have hs := h.slot f
  rw [R.at_token_self f hf] at hs
  have hclosing : (R.at_ f).closing = 0 := hs.not_closing (by simp [hopen])
  refine h.setFile (by simp [hopen]) Iff.rfl (by simp [hopen]) rfl rfl
    (fun g hg => (R.at_token_ne _ (hf ▸ hg.symm)).symm) h.reaps
    { hs with
      tokens := by simp [hs.token_eq.1]
      idle := fun hl => absurd (by constructor <;> simp [hopen]) hl
      detached := by simp [hopen]
      closes := fun e he => by simp [hclosing] at he }

end Astra
