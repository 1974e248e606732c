import AstraKernel.Proofs.VfsIsolation
import Mathlib.Tactic.IntervalCases

/-!
# Retained files

A retention keeps its file: the slot is not given up, and its node not closed, before the holder
releases it. The holder is served unless it comes while a close of the file waits for the file to be
idle.
-/

namespace Astra

open Function List

variable {s : AstraVfsService} {R : VfsOwned} {w : VfsWorld} {f : ℕ}

variable {allowed : AstraVfsFileState} {work : FileWork} {generation token : ℕ}

theorem VfsSound.token_slot (h : VfsSound s R) (ht : token ∈ R.tokens) :
    (s.files (handleSlot token)).retained = true ∧ (s.files (handleSlot token)).Live ∧
      token = handleMake (handleSlot token) (s.files (handleSlot token)).generation := by
  have hs := h.slot (handleSlot token)
  have hmem : token ∈ (R.at_ (handleSlot token)).tokens := Multiset.mem_filter.2 ⟨ht, rfl⟩
  rw [hs.tokens] at hmem
  by_cases hret : (s.files (handleSlot token)).retained = true
  · rw [if_pos hret, Multiset.mem_singleton] at hmem
    refine ⟨hret, by_contra fun hn => ?_, hmem⟩
    simp [(hs.idle hn).2] at hret
  · simp [hret] at hmem

theorem findRetained_make {f : ℕ} (hf : f + 1 < 65536) (hlt : f < s.fileHighWater)
    (hret : (s.files f).retained = true)
    (hstate : (s.files f).state = .isOpen ∨ (s.files f).state = .detached) :
    findRetained s (handleMake f (s.files f).generation) = some f := by
  have hslot := handleSlot_make hf (s.files f).generation
  have hgen := handleGeneration_make hf (s.files f).generation
  have hand : handleMake f (s.files f).generation &&& 0xffff ≠ 0 := by
    rw [handle_and, handleMake_eq hf]
    omega
  have hne : handleMake f (s.files f).generation ≠ astraVfsFileInvalid := by
    intro he
    simp [he, astraVfsFileInvalid] at hand
  unfold findRetained
  rw [if_neg (by simp [hand, hne]), hslot, if_neg (not_le.2 hlt), hgen]
  rw [if_neg]
  rcases hstate with hs | hs <;> simp [hret, hs]

theorem VfsSound.findRetained_iff (h : VfsSound s R) (ht : token ∈ R.tokens) :
    Astra.findRetained s token = some (handleSlot token) ↔
      (s.files (handleSlot token)).state ≠ .closing := by
  obtain ⟨hret, hlive, htoken⟩ := h.token_slot ht
  have hlt := (h.slot (handleSlot token)).lt hlive.1
  constructor
  · intro hfind
    rcases (findRetained_eq hfind).2.2.1 with hs | hs <;> simp [hs]
  · intro hne
    have := findRetained_make (h.handle_lt hlt) hlt hret (by
      cases hs : (s.files (handleSlot token)).state with
      | free => exact absurd hs hlive.1
      | opening => exact absurd hs hlive.2
      | isOpen => exact .inl rfl
      | closing => exact absurd hs hne
      | detached => exact .inr rfl)
    rwa [← htoken] at this

/-- The call of a holder is at the node that was opened for its token, or waits for its file. -/
def ReachesFile (r : Option (AstraVfsService × VfsOutcome)) (token : ℕ) : Prop :=
  ∃ s p, r = some (s, .park p) ∧
    ((∃ frame work f node, p = .fileCall frame (.token token) work f node ∧
        ∃ o ∈ s.opens, o.handle = token ∧ o.node = node ∧ o.closes = 0) ∨
      ∃ frame work f generation allowed expected,
        p = .waitFile (.work frame (.token token) work) f generation allowed expected)

/-- The holder of a retention is served: its read comes to the open node or waits for it, and its
release succeeds or goes on to close the node. -/
def HolderServed (w : VfsWorld) : VfsEvent → Prop
  | .start (.readRetained token length) =>
    token ∈ w.tokens → length ≠ 0 → ReachesFile (w.stretch (.start (.readRetained token length))) token
  | .start (.releaseRetained token) =>
    token ∈ w.tokens → ∀ s reply,
      w.stretch (.start (.releaseRetained token)) = some (s, .reply reply) → reply.status = .ok
  | .start _ => True
  | .resume k a =>
    (∀ work token f generation allowed expected,
      w.points[k]? = some
        (.waitFile (.work .retained (.token token) work) f generation allowed expected) →
      token ∈ w.tokens → ReachesFile (w.stretch (.resume k a)) token) ∧
    ∀ token f expected, w.points[k]? = some (.waitIdle (.release token) f expected) →
      ∃ s p, w.stretch (.resume k a) = some (s, .park p)

/-- The file of the holder is not being closed when its call comes, and is what it was when its call
is woken. -/
def HolderUndisturbed (w : VfsWorld) : VfsEvent → Prop
  | .start (.readRetained token length) =>
    token ∈ w.tokens → length ≠ 0 → (w.service.files (handleSlot token)).state ≠ .closing
  | .start (.releaseRetained token) =>
    token ∈ w.tokens → (w.service.files (handleSlot token)).state ≠ .closing
  | .start _ => True
  | .resume k _ => ∀ work token f generation allowed expected,
    w.points[k]? = some
      (.waitFile (.work .retained (.token token) work) f generation allowed expected) →
    token ∈ w.tokens → (w.service.files f).state = allowed

/-- The service takes calls, the wait hook is set and works, and there is room for one more call to
wait for each file. -/
def Roomy (w : VfsWorld) (ev : VfsEvent) : Prop :=
  w.spinning = false ∧ w.service.stateWait = true ∧ (∀ f, (w.service.files f).waiters < astraVfsWaitersMax) ∧
    ∀ k a, ev = .resume k a → a.waited = true

theorem fileAcquireLoop_roomy (hwait : s.stateWait = true)
    (hroom : (s.files f).waiters < astraVfsWaitersMax) :
    fileAcquireLoop s f = (.taken, s.setFile f { s.files f with active := true }) ∨
      fileAcquireLoop s f =
        (.waits, s.setFile f { s.files f with waiters := (s.files f).waiters + 1 }) := by
  unfold fileAcquireLoop
  by_cases hactive : (s.files f).active = true
  · rw [if_pos hactive, if_neg (by simp [hwait, hroom.ne])]
    exact .inr rfl
  · rw [if_neg hactive]
    exact .inl rfl

theorem VfsSound.acquired_reaches (h : VfsSound s R) (ht : token ∈ R.tokens)
    (hstate : (s.files (handleSlot token)).state ≠ .closing) {frame : Frame} (hwait : s.stateWait = true)
    (hroom : (s.files (handleSlot token)).waiters < astraVfsWaitersMax) :
    ReachesFile (some (acquiredFile (Astra.fileAcquireLoop s (handleSlot token))
      (.work frame (.token token) work) (handleSlot token) generation allowed)) token := by
  obtain ⟨hret, hlive, htoken⟩ := h.token_slot ht
  have hfind := (h.findRetained_iff ht).2 hstate
  have hlt := (h.slot (handleSlot token)).lt hlive.1
  rcases fileAcquireLoop_roomy hwait hroom with he | he <;> rw [he]
  · -- The file is taken; it is still the file of the token.
    have hfind' : Astra.findRetained (s.setFile (handleSlot token)
        { s.files (handleSlot token) with active := true }) token = some (handleSlot token) := by
      have hmake := findRetained_make (s := s.setFile (handleSlot token)
        { s.files (handleSlot token) with active := true }) (f := handleSlot token)
        (h.handle_lt hlt) hlt
      rw [setFile_self] at hmake
      rw [← htoken] at hmake
      exact hmake hret (findRetained_eq hfind).2.2.1
    obtain ⟨o, hcur⟩ := (h.slot (handleSlot token)).current hlive
    have hidle : (R.at_ (handleSlot token)).closing = 0 :=
      (h.slot (handleSlot token)).not_closing hstate
    refine ⟨s.setFile (handleSlot token) { s.files (handleSlot token) with active := true },
      .fileCall frame (.token token) work (handleSlot token) (s.files (handleSlot token)).node, ?_,
      .inl ⟨frame, work, handleSlot token, _, rfl, o, mem_of_getElem? hcur.1, ?_,
        hcur.2.2.1, ?_⟩⟩
    · refine (congrArg some (if_pos hfind')).trans ?_
      rw [setFile_self]
    · rw [h.current_handle hlive hcur, ← htoken]
    · rw [hcur.2.2.2.2.2, hidle, Multiset.countP_zero]
  · exact ⟨_, _, rfl, .inr ⟨frame, work, _, _, _, _, rfl⟩⟩

theorem findRetained_slot (h : findRetained s token = some f) : f = handleSlot token := by
  unfold findRetained at h
  dsimp only at h
  split_ifs at h
  exact (Option.some.inj h).symm

theorem not_reaches_reply (s : AstraVfsService) (reply : AstraVfsReply) (token : ℕ) :
    ¬ ReachesFile (some (s, .reply reply)) token := by
  rintro ⟨s', p, he, _⟩
  cases he

theorem VfsSound.readRetained_iff (h : VfsSound s R) {length : ℕ} (ht : token ∈ R.tokens)
    (hlength : length ≠ 0) (hwait : s.stateWait = true)
    (hroom : (s.files (handleSlot token)).waiters < astraVfsWaitersMax) :
    ReachesFile (some (astraVfsServiceReadRetained s token length)) token ↔
      (s.files (handleSlot token)).state ≠ .closing := by
  rw [astraVfsServiceReadRetained, if_neg hlength, ← h.findRetained_iff ht]
  unfold Astra.retainedFile
  constructor
  · intro hr
    cases hfind : Astra.findRetained s token with
    | none =>
      rw [hfind] at hr
      exact absurd hr (not_reaches_reply _ _ _)
    | some f => rw [findRetained_slot hfind]
  · intro hfind
    rw [hfind]
    dsimp only
    rw [if_neg (by simp [anyFile]), Astra.fileAcquireFor, if_neg (by simp)]
    exact h.acquired_reaches ht ((h.findRetained_iff ht).1 hfind) hwait hroom

theorem fileWaitIdle_roomy (hwait : s.stateWait = true)
    (hroom : (s.files f).waiters < astraVfsWaitersMax) : (fileWaitIdle s f).1 ≠ .refused := by
  unfold fileWaitIdle
  dsimp only
  split_ifs with hactive hfull
  · simp [hwait, hroom.ne] at hfull
  · simp
  · simp

theorem releaseRetainedAt_parks {r : Acquired × AstraVfsService} (hr : r.1 ≠ .refused)
    (token : ℕ) : ∃ p, (closerGoes (releaseRetainedAt r f) (.release token) f).2 = .park p := by
  obtain ⟨a, s₁⟩ := r
  cases a with
  | waits => exact ⟨_, rfl⟩
  | taken => exact ⟨_, rfl⟩
  | refused => exact absurd rfl hr

theorem VfsSound.releaseRetained_iff (h : VfsSound s R) (ht : token ∈ R.tokens)
    (hwait : s.stateWait = true)
    (hroom : (s.files (handleSlot token)).waiters < astraVfsWaitersMax) :
    (∀ reply, (retainedCloses s token).2 = .reply reply → reply.status = .ok) ↔
      (s.files (handleSlot token)).state ≠ .closing := by
  rw [← h.findRetained_iff ht, retainedCloses]
  unfold Astra.astraVfsServiceReleaseRetained
  constructor
  · intro hr
    cases hfind : Astra.findRetained s token with
    | none =>
      rw [hfind] at hr
      have := hr _ rfl
      simp [AstraVfsReply.withResult, failed] at this
    | some f => rw [findRetained_slot hfind]
  · intro hfind reply hreply
    rw [hfind] at hreply
    dsimp only at hreply
    split at hreply
    · cases hreply
      rfl
    · obtain ⟨p, hp⟩ := releaseRetainedAt_parks (f := handleSlot token)
        (fileWaitIdle_roomy (s := s.setFile (handleSlot token)
          { s.files (handleSlot token) with state := .closing }) hwait
          (by rw [setFile_self]; exact hroom)) token
      rw [hp] at hreply
      cases hreply

theorem VfsSound.wokenRetained_iff (h : VfsSound s (R.wait ⟨f, generation, allowed, .token token⟩))
    (ht : token ∈ R.tokens) (hwait : s.stateWait = true)
    (hroom : (s.files f).waiters < astraVfsWaitersMax) :
    ReachesFile (some (acquiredFile (Astra.fileAcquireWoken s f generation allowed true)
      (.work .retained (.token token) work) f generation allowed)) token ↔
      (s.files f).state = allowed := by
  obtain ⟨h₁, hlt, hallowed, _, hname, _⟩ := h.unwait (f := f) rfl
  dsimp only at hallowed hname
  obtain ⟨_, _, htoken⟩ := h₁.token_slot ht
  have hf := h₁.handle_lt hlt
  change token = handleMake f generation at hname
  have hslot : handleSlot token = f := by rw [hname, handleSlot_make hf]
  have hgen : (s.files f).generation = generation := by
    rw [hslot] at htoken
    rw [← handleGeneration_make hf (s.files f).generation, ← htoken, hname,
      handleGeneration_make hf]
  have h₂ := h₁.setWaiters hlt ((s.files f).waiters - 1)
  unfold Astra.fileAcquireWoken
  rw [if_neg (by simp), setFile_self]
  by_cases hstate : (s.files f).state = allowed
  · rw [if_neg (by simp [hstate, hgen])]
    refine iff_of_true ?_ hstate
    subst hslot
    refine h₂.acquired_reaches ht ?_ hwait ?_
    · rw [setFile_self]
      rw [hstate]
      rcases hallowed with ha | ha <;> simp [ha]
    · rw [setFile_self]
      dsimp only
      omega
  · rw [if_pos (.inl hstate)]
    exact iff_of_false (not_reaches_reply _ _ _) hstate

theorem WorldSound.served_iff (h : WorldSound w) {ev : VfsEvent} (hroom : Roomy w ev) :
    HolderServed w ev ↔ HolderUndisturbed w ev := by
  obtain ⟨hspin, hwait, hwaiters, hwoken⟩ := hroom
  have hs := h.sound hspin
  have hmem : ∀ token, token ∈ w.tokens → token ∈ (ownedBy w.tokens w.points).tokens := by
    intro token ht
    rw [ownedBy_tokens]
    exact ht
  cases ev with
  | start call =>
    have hstretch : w.stretch (.start call) = some (call.start w.service) := by
      simp [VfsWorld.stretch, hspin]
    cases call with
    | readRetained token length =>
      refine forall_congr' fun ht => forall_congr' fun hlength => ?_
      rw [hstretch]
      exact hs.readRetained_iff (hmem token ht) hlength hwait (hwaiters _)
    | releaseRetained token =>
      refine forall_congr' fun ht => ?_
      rw [hstretch, ← hs.releaseRetained_iff (hmem token ht) hwait (hwaiters _)]
      change (∀ s reply, some (retainedCloses w.service token) = some (s, .reply reply) → _) ↔ _
      exact ⟨fun hr reply he => hr (retainedCloses w.service token).1 reply (by rw [← he]),
        fun hr s reply he => hr reply (by rw [Option.some.inj he])⟩
    | _ => exact Iff.rfl
  | resume k a =>
    have ha : a.waited = true := hwoken k a rfl
    have hpoint : ∀ p, w.points[k]? = some p →
        w.stretch (.resume k a) = some (p.resume w.service a) ∧
          VfsSound w.service (p.over (ownedBy w.tokens (w.points.eraseIdx k))) := by
      intro p hk
      exact ⟨by simp [VfsWorld.stretch, hspin, hk], by rw [← ownedBy_eraseIdx w.tokens hk]; exact hs⟩
    have hidle : ∀ token f expected, w.points[k]? = some (.waitIdle (.release token) f expected) →
        ∃ s p, w.stretch (.resume k a) = some (s, .park p) := by
      intro token f expected hk
      rw [(hpoint _ hk).1]
      have hr : (fileWaitIdleWoken w.service f a.waited).1 ≠ .refused := by
        rw [fileWaitIdleWoken, if_neg (by simp [ha])]
        refine fileWaitIdle_roomy hwait ?_
        rw [setFile_self]
        exact (Nat.sub_le _ _).trans_lt (hwaiters f)
      obtain ⟨p, hp⟩ := releaseRetainedAt_parks (f := f) hr token
      exact ⟨_, p, congrArg some (Prod.ext rfl hp)⟩
    have hread : ∀ work token f generation allowed expected, w.points[k]? = some
        (.waitFile (.work .retained (.token token) work) f generation allowed expected) →
        token ∈ w.tokens → (ReachesFile (w.stretch (.resume k a)) token ↔
          (w.service.files f).state = allowed) := by
      intro work token f generation allowed expected hk ht
      obtain ⟨hstretch, hown⟩ := hpoint _ hk
      rw [hstretch]
      change ReachesFile (some (acquiredFile (fileAcquireWoken w.service f generation allowed a.waited)
        _ _ _ _)) token ↔ _
      rw [ha]
      refine VfsSound.wokenRetained_iff hown ?_ hwait (hwaiters f)
      rw [Purpose.over, Frame.over, ownedBy_tokens]
      exact ht
    constructor
    · rintro ⟨hserved, _⟩ work token f generation allowed expected hk ht
      exact (hread work token f generation allowed expected hk ht).1
        (hserved work token f generation allowed expected hk ht)
    · intro hund
      exact ⟨fun work token f generation allowed expected hk ht =>
        (hread work token f generation allowed expected hk ht).2
          (hund work token f generation allowed expected hk ht), hidle⟩

/-- What a retention keeps. An open is closed once at most, and not while its retention is held, but
by the release; one that is not closed has a handle of its session, a retention, or a call that closes
it; and a file that is detached has a holder who can release it. -/
structure RetentionKept (w : VfsWorld) : Prop where
  kept : ∀ token ∈ w.tokens, ∃ o ∈ w.service.opens, o.handle = token ∧
    (o.closes = 0 ∨ ∃ f node, VfsPoint.closeCall (.release token) f node ∈ w.points)
  once : ∀ o ∈ w.service.opens, o.closes ≤ 1
  closed : ∀ o ∈ w.service.opens, o.closes = 0 → (w.service.files o.slot).state = .isOpen ∨
    o.handle ∈ w.tokens ∨ ∃ closer expected, VfsPoint.waitIdle closer o.slot expected ∈ w.points
  detached : ∀ f, (w.service.files f).state = .detached →
    handleMake f (w.service.files f).generation ∈ w.tokens

theorem ownedBy_closing {tokens : List ℕ} {points : List VfsPoint} {e : ClosingFile}
    (he : e ∈ (ownedBy tokens points).closing) :
    (e.backend = none ∧ ∃ expected, VfsPoint.waitIdle e.closer e.f expected ∈ points) ∨
      ∃ node, e.backend = some node ∧ VfsPoint.closeCall e.closer e.f node ∈ points := by
  have hholdAll : ∀ (R : VfsOwned) (l : List HeldFile), (R.holdAll l).closing = R.closing := by
    intro R l
    induction l with
    | nil => rfl
    | cons h l ih => exact ih
  have hframe : ∀ (R : VfsOwned) (frame : Frame), (frame.over R).closing = R.closing := by
    intro R frame
    cases frame <;> rfl
  have hcloser : ∀ (R : VfsOwned) (closer : Closer), (closer.over R).closing = R.closing := by
    intro R closer
    rcases closer with _ | ⟨_, _, after⟩ | _ <;> try rfl
    cases after <;> rfl
  induction points with
  | nil => simp [ownedBy] at he
  | cons p points ih =>
    have htail : e ∈ (ownedBy tokens points).closing →
        (e.backend = none ∧ ∃ expected, VfsPoint.waitIdle e.closer e.f expected ∈ p :: points) ∨
          ∃ node, e.backend = some node ∧ VfsPoint.closeCall e.closer e.f node ∈ p :: points := by
      intro hm
      obtain ⟨hb, expected, hx⟩ | ⟨node, hb, hx⟩ := ih hm
      · exact .inl ⟨hb, expected, mem_cons_of_mem _ hx⟩
      · exact .inr ⟨node, hb, mem_cons_of_mem _ hx⟩
    change e ∈ (p.over (ownedBy tokens points)).closing at he
    cases p with
    | waitFile purpose f generation allowed expected =>
      refine htail ?_
      cases purpose with
      | work frame name work => exact hframe _ frame ▸ he
      | secondBase frame session request first =>
        simpa [VfsPoint.over, Purpose.over, VfsOwned.wait, hholdAll, VfsOwned.reserve] using he
      | _ => exact he
    | fileCall frame name work f node => exact htail (hframe _ frame ▸ he)
    | openCall frame session request i f directory =>
      exact htail (by simpa [VfsPoint.over, VfsOwned.open_, hholdAll, VfsOwned.reserve] using he)
    | pathCall frame session request bases =>
      exact htail (by simpa [VfsPoint.over, hholdAll, VfsOwned.reserve] using he)
    | waitIdle closer f expected =>
      rcases Multiset.mem_cons.1 he with rfl | hm
      · exact .inl ⟨rfl, expected, mem_cons_self ..⟩
      · exact htail (hcloser _ closer ▸ hm)
    | closeCall closer f node =>
      rcases Multiset.mem_cons.1 he with rfl | hm
      · exact .inr ⟨node, rfl, mem_cons_self ..⟩
      · exact htail (hcloser _ closer ▸ hm)
    | _ => exact htail he

theorem WorldSound.retention (h : WorldSound w) : RetentionKept w := by
  obtain ⟨n, -, hs⟩ := h
  have htokens : (⟨n, 0, 0, 0, 0, 0⟩ + ownedBy w.tokens w.points : VfsOwned).tokens = w.tokens := by
    rw [VfsOwned.slots_add]
    exact ownedBy_tokens _ _
  have hclosings : (⟨n, 0, 0, 0, 0, 0⟩ + ownedBy w.tokens w.points : VfsOwned).closing =
      (ownedBy w.tokens w.points).closing := by
    rw [VfsOwned.slots_add]
  generalize hT : (⟨n, 0, 0, 0, 0, 0⟩ + ownedBy w.tokens w.points : VfsOwned) = T at *
  have hmemT : ∀ t, t ∈ T.tokens → t ∈ w.tokens := by
    intro t ht
    rw [htokens] at ht
    exact ht
  refine ⟨fun token ht => ?_, fun o ho => hs.closes_le ho, fun o ho h0 => ?_, fun f hdet => ?_⟩
  · have hm : token ∈ T.tokens := by
      rw [htokens]
      exact ht
    obtain ⟨hret, hlive, htoken⟩ := hs.token_slot hm
    have hslot := hs.slot (handleSlot token)
    obtain ⟨o, hcur⟩ := hslot.current hlive
    refine ⟨o, mem_of_getElem? hcur.1, (hs.current_handle hlive hcur).trans htoken.symm, ?_⟩
    by_cases hc : (T.at_ (handleSlot token)).closing.countP (·.backend ≠ none) = 0
    · exact .inl (hcur.2.2.2.2.2.trans hc)
    · obtain ⟨e, he, hb⟩ := Multiset.countP_pos.1 (Nat.pos_of_ne_zero hc)
      have hcloses := (hslot.closes e he).2
      rcases ownedBy_closing (hclosings ▸ (Multiset.mem_filter.1 he).1) with ⟨hn, _⟩ | ⟨node, _, hp⟩
      · exact absurd hn hb
      refine .inr ⟨e.f, node, ?_⟩
      cases hcloser : e.closer with
      | request frame =>
        rw [hcloser] at hcloses
        simp [hcloses.2 hb] at hret
      | reap i session after =>
        rw [hcloser] at hcloses
        simp [hcloses.2.2 hb] at hret
      | release token' =>
        rw [hcloser] at hcloses hp
        rwa [hcloses.2.2, ← htoken] at hp
  · obtain ⟨k, hk⟩ := mem_iff_getElem?.1 ho
    rcases hs.open_cases hk with ⟨hc, _⟩ | ⟨hlive, hcur⟩
    · omega
    have hslot := hs.slot o.slot
    cases hstate : (w.service.files o.slot).state with
    | free => exact absurd hstate hlive.1
    | opening => exact absurd hstate hlive.2
    | isOpen => exact .inl rfl
    | detached =>
      refine .inr (.inl ?_)
      rw [hs.current_handle hlive hcur]
      exact hmemT _ (hs.token_mem (hslot.detached hstate).2)
    | closing =>
      have hcard := hslot.closing
      rw [if_pos hstate] at hcard
      obtain ⟨e, he⟩ := Multiset.card_eq_one.1 hcard
      have hm : e ∈ (T.at_ o.slot).closing := he ▸ Multiset.mem_singleton_self e
      obtain ⟨hmem, hf⟩ := Multiset.mem_filter.1 hm
      have hb : e.backend = none := by
        by_contra hb
        have hpos : 0 < (T.at_ o.slot).closing.countP (·.backend ≠ none) :=
          Multiset.countP_pos.2 ⟨e, hm, hb⟩
        rw [← hcur.2.2.2.2.2] at hpos
        omega
      rcases ownedBy_closing (hclosings ▸ hmem) with ⟨_, expected, hp⟩ | ⟨node, hn, _⟩
      · exact .inr (.inr ⟨e.closer, expected, hf ▸ hp⟩)
      · simp [hn] at hb
  · exact hmemT _ (hs.token_mem ((hs.slot f).detached hdet).2)

/-- A file is opened and retained, and read by its token while its handle is closed. -/
def vfsClosing : List VfsEvent :=
  [vfsHello, vfsOpen 1, vfsAnswer 0 10 .file, .start (.retain 1 0x10001),
    .start (.readRetained 0x10001 1),
    .start (.dispatch 1 0 0 astraVfsOpClose (vfsRequest 1 0 0x10001 0 ⟨0, 0, 0, 0⟩) none)]

/-- The file is read by its token, the read ends, and the handle and the retention are given back. -/
def vfsRetaining : List VfsEvent :=
  [vfsHello, vfsOpen 1, vfsAnswer 0 10 .file, .start (.retain 1 0x10001),
    .start (.readRetained 0x10001 1)]

theorem vfsRetaining_calm (n : ℕ) :
    NoWrap ((vfsBoot 2 2 0 true false).run (vfsRetaining.take n)).service ∧
      ((vfsBoot 2 2 0 true false).run (vfsRetaining.take n)).spinning = false ∧
      ((vfsBoot 2 2 0 true false).run (vfsRetaining.take n)).service.stateWait = true ∧
      ∀ f, (((vfsBoot 2 2 0 true false).run (vfsRetaining.take n)).service.files f).waiters <
        astraVfsWaitersMax := by
  have hstep : ∀ n < 6, NoWrap ((vfsBoot 2 2 0 true false).run (vfsRetaining.take n)).service ∧
      ((vfsBoot 2 2 0 true false).run (vfsRetaining.take n)).spinning = false ∧
      ((vfsBoot 2 2 0 true false).run (vfsRetaining.take n)).service.stateWait = true ∧
      ∀ f, (((vfsBoot 2 2 0 true false).run (vfsRetaining.take n)).service.files f).waiters <
        astraVfsWaitersMax := by
    intro n hn
    interval_cases n <;>
      refine ⟨⟨fun f => ?_, by decide +kernel⟩, by decide +kernel, by decide +kernel, fun f => ?_⟩
    all_goals cases f <;> change 0 < 65535 <;> decide
  rcases lt_or_ge n 6 with hn | hn
  · exact hstep n hn
  · have hall : vfsRetaining.take n = vfsRetaining.take 5 := by
      have hlength : vfsRetaining.length = 5 := rfl
      rw [take_of_length_le (by omega), take_of_length_le (by omega)]
    rw [hall]
    exact hstep 5 (by decide)

end Astra
