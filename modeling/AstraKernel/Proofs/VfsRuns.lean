import AstraKernel.Proofs.VfsCalls
import Mathlib.Algebra.BigOperators.Group.List.Basic

/-!
# Runs of the service

The calls under way own what they own in any order, so each can be taken up wherever it stands. The
tables are sound along every run in which neither the session ids nor the generations of the slots
come round.
-/

namespace Astra

open Function List

variable {s : AstraVfsService} {R S : VfsOwned} {f i : ℕ}

namespace VfsOwned

instance : Zero VfsOwned := ⟨⟨0, 0, 0, 0, 0, 0⟩⟩

instance : Add VfsOwned where
  add R S := ⟨R.slots + S.slots, R.held + S.held, R.opening + S.opening, R.closing + S.closing,
    R.waits + S.waits, R.tokens + S.tokens⟩

theorem add_def (R S : VfsOwned) : R + S = ⟨R.slots + S.slots, R.held + S.held,
    R.opening + S.opening, R.closing + S.closing, R.waits + S.waits, R.tokens + S.tokens⟩ :=
  rfl

theorem zero_def : (0 : VfsOwned) = ⟨0, 0, 0, 0, 0, 0⟩ :=
  rfl

instance : AddCommMonoid VfsOwned where
  add_assoc R S T := by simp [add_def, Multiset.add_assoc]
  zero_add R := by simp [add_def, zero_def]
  add_zero R := by simp [add_def, zero_def]
  add_comm R S := by simp [add_def, Multiset.add_comm]
  nsmul := nsmulRec

@[simp] theorem reserve_add (i : ℕ) : (R + S).reserve i = R.reserve i + S := by
  simp [reserve, add_def]

@[simp] theorem hold_add (h : HeldFile) : (R + S).hold h = R.hold h + S := by
  simp [hold, add_def]

@[simp] theorem open_add (e : OpeningFile) : (R + S).open_ e = R.open_ e + S := by
  simp [open_, add_def]

@[simp] theorem close_add (e : ClosingFile) : (R + S).close e = R.close e + S := by
  simp [close, add_def]

@[simp] theorem wait_add (e : WaitedFile) : (R + S).wait e = R.wait e + S := by
  simp [wait, add_def]

@[simp] theorem token_add (t : ℕ) : (R + S).token t = R.token t + S := by
  simp [token, add_def]

@[simp] theorem holdAll_add (l : List HeldFile) : (R + S).holdAll l = R.holdAll l + S := by
  induction l with
  | nil => rfl
  | cons h l ih =>
    change ((R + S).holdAll l).hold h = (R.holdAll l).hold h + S
    rw [ih, hold_add]

end VfsOwned

@[simp] theorem Frame.over_add (frame : Frame) : frame.over (R + S) = frame.over R + S := by
  cases frame <;> simp [Frame.over]

@[simp] theorem After.over_add (after : After) : after.over (R + S) = after.over R + S := by
  cases after <;> simp [After.over]

@[simp] theorem Closer.over_add (closer : Closer) : closer.over (R + S) = closer.over R + S := by
  cases closer <;> simp [Closer.over]

@[simp] theorem Purpose.over_add (purpose : Purpose) :
    purpose.over (R + S) = purpose.over R + S := by
  cases purpose <;> simp [Purpose.over]

variable (p : VfsPoint) (tokens : List ℕ) (points : List VfsPoint)

theorem VfsPoint.over_add : p.over (R + S) = p.over R + S := by
  cases p <;> simp [VfsPoint.over]

theorem VfsPoint.over_eq (R : VfsOwned) : p.over R = p.over 0 + R := by
  rw [← p.over_add, zero_add]

theorem ownedBy_eq : ownedBy tokens points =
      (points.map fun p => p.over 0).sum + ⟨0, 0, 0, 0, 0, tokens⟩ := by
  induction points with
  | nil => exact (zero_add _).symm
  | cons p points ih =>
    change p.over (ownedBy tokens points) = _
    rw [p.over_eq, ih, map_cons, sum_cons, add_assoc]

variable {r : AstraVfsService × VfsOutcome} {ev : VfsEvent} {w : VfsWorld} {k token : ℕ}

theorem ownedBy_eraseIdx {points : List VfsPoint} {p : VfsPoint} (hk : points[k]? = some p) :
    ownedBy tokens points = p.over (ownedBy tokens (points.eraseIdx k)) := by
  obtain ⟨hlt, rfl⟩ := List.getElem?_eq_some_iff.1 hk
  rw [VfsPoint.over_eq, ownedBy_eq, ownedBy_eq, ← add_assoc]
  congr 1
  exact ((getElem_cons_eraseIdx_perm hlt).map fun p : VfsPoint => p.over 0).sum_eq.symm

theorem ownedBy_token (t : ℕ) (tokens : List ℕ) (points : List VfsPoint) :
    ownedBy (t :: tokens) points = (ownedBy tokens points).token t := by
  rw [ownedBy_eq, ownedBy_eq, add_comm, add_comm _ (⟨0, 0, 0, 0, 0, tokens⟩ : VfsOwned),
    VfsOwned.token_add]
  rfl

@[simp] theorem VfsOwned.holdAll_tokens (R : VfsOwned) (l : List HeldFile) :
    (R.holdAll l).tokens = R.tokens := by
  induction l with
  | nil => rfl
  | cons h l ih => exact ih

theorem VfsPoint.over_tokens (R : VfsOwned) : (p.over R).tokens = R.tokens := by
  have hcloser : ∀ closer : Closer, (closer.over R).tokens = R.tokens := by
    intro closer
    rcases closer with _ | ⟨_, _, after⟩ | _ <;> try rfl
    cases after <;> rfl
  cases p with
  | waitFile purpose f generation allowed expected =>
    cases purpose with
    | work frame name work => exact frame.over_tokens R
    | secondBase frame session request first => exact VfsOwned.holdAll_tokens _ _
    | _ => rfl
  | fileCall frame name work f node => exact frame.over_tokens R
  | openCall frame session request i f directory => exact VfsOwned.holdAll_tokens _ _
  | pathCall frame session request bases => exact VfsOwned.holdAll_tokens _ _
  | waitIdle closer f expected => exact hcloser closer
  | closeCall closer f node => exact hcloser closer
  | _ => rfl

theorem ownedBy_tokens : (ownedBy tokens points).tokens = tokens := by
  induction points with
  | nil => rfl
  | cons p points ih => exact (p.over_tokens _).trans ih

/-- Neither the ids of the sessions nor the generations of the slots have come round. -/
def NoWrap (s : AstraVfsService) : Prop :=
  (∀ f, s.reuses f < 65535) ∧ s.sessionsOpened < 2 ^ 32 - 1

/-- The tables are sound with what the calls under way own, and with the session slots that a call
which never ends keeps. -/
def WorldSound (w : VfsWorld) : Prop :=
  ∃ n : Multiset ℕ, (w.spinning = false → n = 0) ∧
    VfsSound w.service (⟨n, 0, 0, 0, 0, 0⟩ + ownedBy w.tokens w.points)

theorem VfsOwned.slots_add (n : Multiset ℕ) (R : VfsOwned) :
    (⟨n, 0, 0, 0, 0, 0⟩ + R : VfsOwned) = { R with slots := n + R.slots } := by
  simp [add_def]

theorem WorldSound.sound (h : WorldSound w) (hw : w.spinning = false) :
    VfsSound w.service (ownedBy w.tokens w.points) := by
  obtain ⟨n, hn, hs⟩ := h
  rw [hn hw] at hs
  rwa [← VfsOwned.zero_def, zero_add] at hs

theorem WorldSound.of_sound (h : VfsSound w.service (ownedBy w.tokens w.points)) : WorldSound w :=
  ⟨0, fun _ => rfl, by rwa [← VfsOwned.zero_def, zero_add]⟩

def StretchKept (w : VfsWorld) (ev : VfsEvent) (r : AstraVfsService × VfsOutcome) : Prop :=
  match r.2 with
  | .reply reply => VfsSound r.1 (ownedBy (w.tokensAfter ev reply) (w.others ev))
  | .park p => VfsSound r.1 (p.over (ownedBy w.tokens (w.others ev))) ∧
      p.Named (ownedBy w.tokens (w.others ev))
  | .spins => ∃ n : Multiset ℕ, VfsSound r.1 (⟨n, 0, 0, 0, 0, 0⟩ + ownedBy w.tokens (w.others ev))

theorem VfsKept.stretch (hk : VfsKept (ownedBy w.tokens (w.others ev)) r)
    (ht : ∀ reply, r.2 = .reply reply → w.tokensAfter ev reply = w.tokens) :
    StretchKept w ev r := by
  obtain ⟨s, outcome⟩ := r
  cases outcome with
  | reply reply =>
    change VfsSound s (ownedBy (w.tokensAfter ev reply) _)
    rw [ht reply rfl]
    exact hk
  | park p => exact hk
  | spins =>
    obtain ⟨n, hn⟩ := hk
    refine ⟨n, ?_⟩
    rw [VfsOwned.slots_add]
    exact hn

theorem ownedBy_erase {tokens : List ℕ} (hm : token ∈ tokens) :
    ownedBy tokens points = (ownedBy (tokens.erase token) points).token token := by
  rw [← ownedBy_token, ownedBy_eq, ownedBy_eq,
    Multiset.coe_eq_coe.2 (perm_cons_erase hm)]

theorem findFile_ok (s : AstraVfsService) (session handle : ℕ) :
    (findFile s session handle).2 = .ok ↔ (findFile s session handle).1 ≠ none := by
  unfold findFile
  dsimp only
  split_ifs <;> simp

def RetainKept (R : VfsOwned) (r : AstraVfsStatus × ℕ × AstraVfsService) : Prop :=
  (r.1 = .ok → VfsSound r.2.2 (R.token r.2.1)) ∧ (r.1 ≠ .ok → VfsSound r.2.2 R)

theorem VfsSound.astraVfsServiceRetainFile (h : VfsSound s R) (session handle : ℕ) :
    RetainKept R (Astra.astraVfsServiceRetainFile s session handle) := by
  have hok := findFile_ok s session handle
  have hrefused : ∀ status, status ≠ .ok → RetainKept R (status, astraVfsFileInvalid, s) :=
    fun status hne => ⟨fun he => absurd he hne, fun _ => h⟩
  unfold Astra.astraVfsServiceRetainFile
  cases hfind : Astra.findFile s session handle with
  | mk found status =>
    rw [hfind] at hok
    cases found with
    | none => exact hrefused status fun he => hok.1 he rfl
    | some f =>
      obtain ⟨_, hopen, _, hh⟩ := findFile_eq (s := s) (f := f) (by rw [hfind])
      dsimp only
      split
      · exact hrefused _ (by simp)
      split
      · exact hrefused _ (by simp)
      rename_i hret
      have hstatus : status = .ok := hok.2 (by simp)
      refine ⟨fun _ => ?_, fun hne => absurd hstatus hne⟩
      have := h.retain (f := f) (by constructor <;> simp [hopen]) (by simp [hopen])
        (by simpa using hret)
      rwa [← hh] at this

theorem VfsSound.astraVfsServiceReleaseRetained (h : VfsSound s R) (token : ℕ) :
    (Astra.astraVfsServiceReleaseRetained s token).1 = .done .ok ∧ token ∈ R.tokens ∧
        (∀ R', R = R'.token token →
          VfsSound (Astra.astraVfsServiceReleaseRetained s token).2 R') ∨
      (Astra.astraVfsServiceReleaseRetained s token).1 ≠ .done .ok ∧
        CloseKept R (.release token) (handleSlot token)
          (Astra.astraVfsServiceReleaseRetained s token) := by
  unfold Astra.astraVfsServiceReleaseRetained
  cases hfind : Astra.findRetained s token with
  | none => exact .inr ⟨by simp, h⟩
  | some f =>
    obtain ⟨hlt, hret, hstate, htoken⟩ := findRetained_eq hfind
    have hslot : handleSlot token = f := by
      rw [htoken]
      exact handleSlot_make (h.handle_lt hlt) _
    dsimp only
    split
    · rename_i hopen
      refine .inl ⟨rfl, htoken ▸ h.token_mem hret, fun R' hR => ?_⟩
      subst hR
      exact h.unretain hslot hopen
    · rename_i hopen
      have hdet := hstate.resolve_left hopen
      have hs := (h.slot f).detached hdet
      have hbegin := h.beginClose (e := ⟨f, .release token, none⟩) (f := f) rfl rfl
        (by constructor <;> simp [hdet]) (by simp [hdet]) ⟨by simp, hs.1, hs.2, htoken⟩ (by simp)
      refine .inr ⟨?_, hslot.symm ▸ hbegin.releaseRetainedAt (fileWaitIdle_idled _ f)⟩
      unfold Astra.releaseRetainedAt
      cases (Astra.fileWaitIdle (s.setFile f { s.files f with state := .closing }) f).1 <;> simp

theorem VfsSound.start (h : VfsSound s R) (hmany : s.sessionsOpened < 2 ^ 32 - 1) {call : VfsCall}
    (hretain : ∀ session handle, call ≠ .retain session handle)
    (hrelease : ∀ token, call ≠ .releaseRetained token) :
    VfsKept R (call.start s) := by
  have hfail : ∀ status, VfsKept R (Frame.retained.finish s (failed status)) := fun status =>
    VfsSound.finish .retained h (failed status)
  cases call with
  | dispatch owner grant features operation request area =>
    exact h.astraVfsServiceDispatchGrant hmany owner grant features operation request area
  | readdirFile session directory => exact VfsSound.directFile none h session directory _ _ _
  | readInto session handle length => exact VfsSound.directFile none h session handle _ _ _
  | writePosition session handle flags length =>
    exact VfsSound.directFile none h session handle _ _ _
  | retain session handle => exact absurd rfl (hretain session handle)
  | readRetained token length => exact .ite (fun _ => hfail _) fun _ => h.retainedFile token _ _
  | statRetained token => exact h.retainedFile token _ _
  | writeRetained token length => exact .ite (fun _ => hfail _) fun _ => h.retainedFile token _ _
  | syncRetained token => exact h.retainedFile token _ _
  | releaseRetained token => exact absurd rfl (hrelease token)
  | releaseSession session => exact VfsSound.astraVfsServiceReleaseSession (.reply _) h session
  | releaseGrant grant => exact .ite (fun _ => h) fun _ => ⟨h, trivial⟩

theorem WorldSound.retain (hs : VfsSound w.service (ownedBy w.tokens w.points))
    (session handle : ℕ) : StretchKept w (.start (.retain session handle))
      (retainReply (Astra.astraVfsServiceRetainFile w.service session handle)) := by
  have hk := hs.astraVfsServiceRetainFile session handle
  generalize Astra.astraVfsServiceRetainFile w.service session handle = r at hk
  obtain ⟨status, file, s₁⟩ := r
  change VfsSound s₁ (ownedBy (if status = .ok then file :: w.tokens else w.tokens) w.points)
  split
  · rename_i hok
    rw [ownedBy_token]
    exact hk.1 hok
  · rename_i hok
    exact hk.2 hok

theorem WorldSound.release (hs : VfsSound w.service (ownedBy w.tokens w.points)) (token : ℕ) :
    StretchKept w (.start (.releaseRetained token)) (retainedCloses w.service token) := by
  rcases hs.astraVfsServiceReleaseRetained token with ⟨hdone, hm, hk⟩ | ⟨hne, hk⟩
  · rw [ownedBy_tokens] at hm
    have := hk _ (ownedBy_erase w.points hm)
    unfold retainedCloses closerGoes
    rw [hdone]
    exact this
  · have hgoes : VfsKept (ownedBy w.tokens w.points) (retainedCloses w.service token) :=
      hk.goes (.release token) (by simp)
    refine VfsKept.stretch hgoes fun reply hreply => if_neg ?_
    unfold retainedCloses closerGoes at hreply
    cases hdone : (Astra.astraVfsServiceReleaseRetained w.service token).1 with
    | done status =>
      rw [hdone] at hreply
      cases hreply
      exact fun he => hne (hdone.trans (congrArg Closed.done he))
    | waits => simp [hdone] at hreply
    | backend => simp [hdone] at hreply

theorem WorldSound.released {f node : ℕ}
    (hs : VfsSound w.service ((VfsPoint.closeCall (.release token) f node).over
      (ownedBy w.tokens (w.points.eraseIdx k))))
    (hk : w.points[k]? = some (.closeCall (.release token) f node)) (a : VfsAnswer) :
    StretchKept w (.resume k a)
      ((VfsPoint.closeCall (.release token) f node).resume w.service a) := by
  have hcloses := (VfsSound.closesFile (f := f) hs rfl).1.2
  have hm : token ∈ w.tokens := by
    have := hs.token_mem hcloses.2.1
    rw [← hcloses.2.2, VfsPoint.over_tokens, ownedBy_tokens] at this
    exact this
  rw [ownedBy_erase _ hm] at hs
  have := VfsSound.releasedFile hs
  change VfsSound _ (ownedBy (w.tokensAfter (.resume k a) (clearReply astraVfsVersion)) _)
  rw [VfsWorld.tokensAfter, hk]
  exact this

theorem WorldSound.stretch (h : WorldSound w) (hw : NoWrap w.service) (hr : w.stretch ev = some r) :
    StretchKept w ev r := by
  have hspin : w.spinning = false := by
    by_contra hn
    cases ev <;> simp [VfsWorld.stretch, hn] at hr
  have hs := h.sound hspin
  cases ev with
  | start call =>
    obtain rfl : call.start w.service = r := by simpa [VfsWorld.stretch, hspin] using hr
    cases hcall : call with
    | retain session handle => exact WorldSound.retain hs session handle
    | releaseRetained token => exact WorldSound.release hs token
    | _ =>
      rw [← hcall]
      exact (hs.start hw.2 (by simp [hcall]) (by simp [hcall])).stretch
        fun reply _ => by simp [hcall, VfsWorld.tokensAfter]
  | resume k a =>
    cases hk : w.points[k]? with
    | none => simp [VfsWorld.stretch, hspin, hk] at hr
    | some p =>
      rw [ownedBy_eraseIdx w.tokens hk] at hs
      obtain rfl : p.resume w.service a = r := by simpa [VfsWorld.stretch, hspin, hk] using hr
      by_cases hp : ∀ token f node, p ≠ .closeCall (.release token) f node
      · refine (hs.resume a hw.1 hp).stretch fun reply _ => ?_
        rw [VfsWorld.tokensAfter, hk]
        rcases p with _ | _ | _ | _ | _ | _ | ⟨closer, f, node⟩ | _ | _ | _ | _ <;> try rfl
        cases closer with
        | release token => exact absurd rfl (hp token f node)
        | _ => rfl
      · push Not at hp
        obtain ⟨token, f, node, rfl⟩ := hp
        exact WorldSound.released hs hk a

theorem WorldSound.step {w : VfsWorld} (h : WorldSound w) (hw : NoWrap w.service) (ev : VfsEvent) :
    WorldSound (w.step ev) := by
  cases hr : w.stretch ev with
  | none =>
    rw [VfsWorld.step, hr]
    exact h
  | some r =>
    have hk := h.stretch hw hr
    obtain ⟨s, outcome⟩ := r
    rw [VfsWorld.step, hr]
    cases outcome with
    | reply reply => exact .of_sound hk
    | park p => exact .of_sound hk.1
    | spins =>
      obtain ⟨n, hn⟩ := hk
      exact ⟨n, by simp, hn⟩

theorem WorldSound.run {evs : List VfsEvent} (h : WorldSound w)
    (hw : VfsWorld.Along (fun w _ => NoWrap w.service) w evs) : WorldSound (w.run evs) := by
  induction evs generalizing w with
  | nil => exact h
  | cons ev evs ih => exact ih (h.step hw.1 ev) hw.2

theorem vfsBoot_sound {sessionCapacity fileCapacity : ℕ} (hf : fileCapacity ≤ astraVfsFileHandleMax)
    (limit : ℕ) (stateWait tryLock : Bool) :
    WorldSound (vfsBoot sessionCapacity fileCapacity limit stateWait tryLock) := by
  refine .of_sound ?_
  have hnl : ¬ noFile.Live := fun hl => hl.1 rfl
  exact {
    slot := fun f =>
      { held := rfl
        opening := rfl
        closing := rfl
        tokens := rfl
        idle := fun _ => ⟨rfl, rfl⟩
        free := fun _ => rfl
        owned := fun ho => by simp [vfsBoot, astraVfsServiceInit, noFile] at ho
        detached := fun hd => by simp [vfsBoot, astraVfsServiceInit, noFile] at hd
        beyond := fun _ => ⟨rfl, rfl⟩
        generation := fun hlt => absurd hlt (Nat.not_lt_zero _)
        session := fun h0 => absurd rfl h0
        current := fun hl => absurd hl hnl
        holds := fun e he => by simp [VfsOwned.at_, vfsBoot, ownedBy] at he
        opens := fun e he => by simp [VfsOwned.at_, vfsBoot, ownedBy] at he
        closes := fun e he => by simp [VfsOwned.at_, vfsBoot, ownedBy] at he
        waits := fun e he => by simp [VfsOwned.at_, vfsBoot, ownedBy] at he }
    inflight := fun i => rfl
    reserved := fun i hi => by simp [vfsBoot, ownedBy] at hi
    reaps := fun e he => by simp [vfsBoot, ownedBy] at he
    sessions :=
      { ids := fun i _ j _ _ h0 => absurd rfl h0
        issued := fun i _ => le_rfl
        next := fun _ => rfl
        live := by simp [vfsBoot, astraVfsServiceInit, noSession] }
    openFiles := rfl
    sessionFiles := fun i _ h0 => absurd rfl h0
    opens :=
      { settled := fun k o ho => by simp [vfsBoot, astraVfsServiceInit] at ho
        distinct := fun k k' o o' ho => by simp [vfsBoot, astraVfsServiceInit] at ho
        handles := fun k o ho => by simp [vfsBoot, astraVfsServiceInit] at ho }
    capacity := ⟨Nat.zero_le _, hf⟩ }

end Astra
