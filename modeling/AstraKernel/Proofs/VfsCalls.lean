import AstraKernel.Proofs.VfsAcquire

/-!
# The calls of the service keep its tables

Each call, from its start or a point to its next one, leaves the tables sound with what it owns
there, while no session id or generation has come round.
-/

namespace Astra

open Function List

variable {s : AstraVfsService} {R : VfsOwned} {f i : ℕ}

section

variable {frame : RequestFrame} {session : ℕ} {request : AstraVfsRequest}

section

variable (h : VfsSound s (R.reserve frame.slot))
include h

theorem VfsSound.handlePathOperation (session : ℕ)
    (request : AstraVfsRequest) : VfsKept R (Astra.handlePathOperation s frame session request) := by
  refine .ite (fun _ => VfsSound.pathSecond h) fun _ => ?_
  exact VfsSound.requestFile (.firstBase frame session request) h rfl rfl _

theorem VfsSound.checkedFile (session handle : ℕ)
    (invalid : Bool) (check : AstraVfsOpenFile → AstraVfsStatus) (work : FileWork) :
    VfsKept R (Astra.checkedFile s frame session handle invalid check work) :=
  .ite (fun _ => VfsSound.finish (.request frame) h _) fun _ =>
    VfsSound.workFile (.request frame) h session handle check work

theorem VfsSound.handleOpenAt (session : ℕ) (request : AstraVfsRequest) (absolute : Bool) :
    VfsKept R (Astra.handleOpenAt s frame session request absolute) :=
  .ite (fun _ => VfsSound.finish (.request frame) h _) fun _ =>
    VfsSound.requestFile (.openAt frame session request) h rfl rfl _

theorem VfsSound.checkedPlain (invalid : Bool) : VfsKept R (Astra.checkedPlain s frame invalid) :=
  .ite (fun _ => VfsSound.finish (.request frame) h _) fun _ => ⟨h, trivial⟩

theorem VfsSound.handleClose (session handle : ℕ) :
    VfsKept R (Astra.handleClose s frame session handle) := by
  unfold Astra.handleClose
  cases hfind : Astra.findFile s session handle with
  | mk found status =>
    cases found with
    | none => exact VfsSound.finish (.request frame) h _
    | some f =>
      obtain ⟨_, hopen, _⟩ := findFile_eq (s := s) (f := f) (by rw [hfind])
      exact (VfsSound.closeFile (.request frame) h hopen (by simp) (by simp)).1.goes
        (.request frame) (by simp)

theorem VfsSound.handleBye : VfsKept R (Astra.handleBye s frame) :=
  h.setClosing.finishRequest

theorem VfsSound.dispatchReserved (session : ℕ)
    (request : AstraVfsRequest) (area : Option (List UInt8)) (paths : AstraVfsPathOperands) :
    VfsKept R (Astra.dispatchReserved s frame session request area paths) := by
  have hwork : ∀ check work, VfsKept R (Astra.workFile s (.request frame) session request.file check work) := fun check work =>
    VfsSound.workFile (.request frame) h session request.file check work
  have hchecked : ∀ invalid check work, VfsKept R (Astra.checkedFile s frame session request.file invalid check work) :=
    fun invalid check work => h.checkedFile session request.file invalid check work
  have hplain : ∀ invalid, VfsKept R (Astra.checkedPlain s frame invalid) := h.checkedPlain
  have hfail : ∀ status, VfsKept R ((Frame.request frame).finish s (failed status)) := fun status =>
    VfsSound.finish (.request frame) h (failed status)
  exact .ite (fun _ => h.handleBye) fun _ =>
    .ite (fun _ => VfsSound.openBeneath h) fun _ =>
    .ite (fun _ => h.handleOpenAt session request _) fun _ =>
    .ite (fun _ => h.handleClose session request.file) fun _ =>
    .ite (fun _ => hwork _ _) fun _ => .ite (fun _ => hwork _ _) fun _ =>
    .ite (fun _ => hwork _ _) fun _ => .ite (fun _ => hwork _ _) fun _ =>
    .ite (fun _ => hwork _ _) fun _ =>
    .ite (fun _ => h.handlePathOperation session request) fun _ =>
    .ite (fun _ => hplain _) fun _ => .ite (fun _ => hchecked _ _ _) fun _ =>
    .ite (fun _ => hchecked _ _ _) fun _ =>
    .ite (fun _ => .ite (fun _ => ⟨h, trivial⟩) fun _ => hplain _) fun _ =>
    .ite (fun _ => hplain _) fun _ => .ite (fun _ => hplain _) fun _ =>
    .ite (fun _ => hchecked _ _ _) fun _ => .ite (fun _ => hchecked _ _ _) fun _ =>
    .ite (fun _ => hchecked _ _ _) fun _ =>
    .ite (fun _ => .ite (fun _ => hplain _) fun _ => hwork _ _) fun _ =>
    .ite (fun _ => hfail _) fun _ => hfail _

end

end

theorem VfsSound.handleHello (h : VfsSound s R) (hmany : s.sessionsOpened < 2 ^ 32 - 1)
    (owner grant features : ℕ) (request : AstraVfsRequest) :
    VfsSound (Astra.handleHello s owner grant features request).2 R := by
  unfold Astra.handleHello
  split
  · cases Astra.findSession s request.session with
    | none => exact h
    | some i =>
      dsimp only
      split_ifs <;> exact h
  split
  · exact h
  cases hfind : (List.range s.sessionCapacity).find? fun i => (s.sessions i).id = 0 with
  | none => exact h
  | some i =>
    have hi := mem_range.1 (mem_of_find?_eq_some hfind)
    have hfree : (s.sessions i).id = 0 := by simpa using List.find?_some hfind
    exact h.openSession hi hfree hmany owner grant astraVfsVersion

theorem VfsSound.astraVfsServiceDispatchGrant (h : VfsSound s R)
    (hmany : s.sessionsOpened < 2 ^ 32 - 1) (owner grant features operation : ℕ)
    (request : AstraVfsRequest) (area : Option (List UInt8)) :
    VfsKept R (Astra.astraVfsServiceDispatchGrant s owner grant features operation request area) := by
  refine .ite (fun _ => h) fun _ => .ite (fun _ => h) fun _ => .ite (fun _ => ?_) fun _ => ?_
  · exact h.handleHello hmany owner grant features request
  · cases hfind : Astra.findSession s request.session with
    | none => exact h
    | some i =>
      obtain ⟨hi, hid, h0⟩ := findSession_eq hfind
      refine .ite (fun _ => h) fun _ => .ite (fun _ => h) fun hbusy => ?_
      push Not at hbusy
      exact VfsSound.dispatchReserved (h.reserve hi (by rw [hid]; exact h0) (by simpa using hbusy.1))
        _ request area _

theorem VfsSound.beginSessionRequest (h : VfsSound s R) (session : ℕ) :
    match Astra.beginSessionRequest s session with
    | (.inl _, s') => VfsSound s' R
    | (.inr i, s') => VfsSound s' (R.reserve i) := by
  unfold Astra.beginSessionRequest
  cases hfind : Astra.findSession s session with
  | none => exact h
  | some i =>
    obtain ⟨hi, hid, h0⟩ := findSession_eq hfind
    dsimp only
    by_cases hbusy : (s.sessions i).closing ∨ (s.sessions i).inflight = 65535
    · rw [if_pos hbusy]
      exact h
    · rw [if_neg hbusy]
      push Not at hbusy
      exact h.reserve hi (by rw [hid]; exact h0) (by simpa using hbusy.1)

def outerOver (R : VfsOwned) : Option RequestFrame → VfsOwned
  | none => R
  | some frame => R.reserve frame.slot

theorem VfsSound.directFile (outer : Option RequestFrame) (h : VfsSound s (outerOver R outer))
    (session handle : ℕ) (invalid : Bool) (check : AstraVfsOpenFile → AstraVfsStatus)
    (work : FileWork) : VfsKept R (Astra.directFile s outer session handle invalid check work) := by
  have hk := h.beginSessionRequest session
  unfold Astra.directFile
  cases hbegin : Astra.beginSessionRequest s session with
  | mk answer s₁ =>
    rw [hbegin] at hk
    cases answer with
    | inl status =>
      cases outer with
      | none => exact hk
      | some frame => exact ⟨hk, trivial⟩
    | inr i =>
      cases outer with
      | none =>
        exact .ite (fun _ => VfsSound.finish (.direct i) hk _) fun _ =>
          VfsSound.workFile (.direct i) hk session handle check work
      | some frame =>
        exact .ite (fun _ => VfsSound.finish (.batch i frame) hk _) fun _ =>
          VfsSound.workFile (.batch i frame) hk session handle check work

theorem VfsSound.astraVfsServiceReleaseSession (after : After) (h : VfsSound s (after.over R))
    (session : ℕ) : VfsKept R (Astra.astraVfsServiceReleaseSession s session after) := by
  unfold Astra.astraVfsServiceReleaseSession
  cases hfind : Astra.findSession s session with
  | none => exact h.afterRun
  | some i =>
    obtain ⟨hi, hid, h0⟩ := findSession_eq hfind
    refine .ite (fun hin => ?_) fun _ => h.setClosing.afterRun
    refine h.setClosing.reapOn ⟨hi, rfl, ?_, hin⟩ ?_
    · rw [setSession_self]
    · rw [setSession_self]
      exact hid ▸ h0

theorem VfsSound.astraVfsServiceReleaseGrant (h : VfsSound s R) (index grant : ℕ) :
    VfsKept R (Astra.astraVfsServiceReleaseGrant s index grant) :=
  .ite (fun _ => VfsSound.finish .retained h _) fun _ =>
    .ite (fun _ => ⟨h, trivial⟩) fun _ => ⟨h, trivial⟩

theorem VfsSound.fileCallDone {frame : Frame} {e : HeldFile}
    (h : VfsSound s ((frame.over R).hold e)) (work : FileWork) (a : BackendAnswer) :
    VfsKept R (Astra.fileCallDone s frame work e.f a) := by
  have h₁ : VfsSound (Astra.fileRelease s e.f) (frame.over R) := h.fileRelease rfl
  have hend : ∀ r, VfsKept R (frame.finish (Astra.fileRelease s e.f) r) := fun r =>
    VfsSound.finish frame h₁ r
  unfold Astra.fileCallDone
  cases work with
  | read length => exact .ite (fun _ => hend _) fun _ => hend _
  | write length =>
    dsimp only
    by_cases hm : a.moved ≠ 0
    · rw [if_pos hm]
      exact .ite (fun _ => VfsSound.finish frame (h₁.setChanges _) _) fun _ =>
        VfsSound.finish frame (h₁.setChanges _) _
    · rw [if_neg hm]
      exact .ite (fun _ => hend _) fun _ => hend _
  | _ => exact hend _

theorem VfsSound.resume {p : VfsPoint} (h : VfsSound s (p.over R)) (a : VfsAnswer)
    (hreuse : ∀ f, s.reuses f < 65535)
    (hp : ∀ token f node, p ≠ .closeCall (.release token) f node) :
    VfsKept R (p.resume s a) := by
  cases p with
  | waitFile purpose f generation allowed expected =>
    exact AcquireKept.goes (VfsSound.fileAcquireWoken h (hreuse f) a.waited)
  | fileCall frame name work f node =>
    exact VfsSound.fileCallDone (e := ⟨f, node, name⟩) h work a.backend
  | openCall frame session request i f directory =>
    exact VfsSound.finish (.request frame) (VfsSound.handleOpenDone h _ _).releaseBase _
  | pathCall frame session request bases =>
    refine VfsSound.finish (.request frame) ?_ _
    have := VfsSound.releaseAll h
    rwa [PathBases.files, map_append, baseFile_map, baseFile_map, ← map_append] at this
  | plainCall frame => exact VfsSound.finish (.request frame) h _
  | waitIdle closer f expected => exact VfsSound.closerWoken closer a.waited h
  | closeCall closer f node =>
    exact VfsSound.closerDone closer _ h fun token he => hp token f node (by rw [he])
  | batchEnter frame session directory =>
    exact VfsSound.directFile (some frame) h session directory _ _ _
  | batchLeave frame status => exact VfsSound.finish (.request frame) h _
  | grant index g => exact h.astraVfsServiceReleaseGrant index g
  | grantSession index g session =>
    exact VfsSound.astraVfsServiceReleaseSession (.grant index g) h session

end Astra
