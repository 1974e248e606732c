import AstraKernel.Proofs.VfsIsolation
import AstraKernel.Chains
import Mathlib.Data.Finset.Union

/-!
# Waiting for files

Only a path operation over two directories waits for one file while it has another: it takes them in
the order its client names them. As long as these orders fit together nobody waits for ever; two
that name two directories the other way round may.
-/

namespace Astra

open Function List

/-- The file a call waits for, in `file_acquire_for` or in `file_wait_idle`. -/
def VfsPoint.awaits : VfsPoint → Option ℕ
  | .waitFile _ f _ _ _ => some f
  | .waitIdle _ f _ => some f
  | _ => none

/-- The files a call has taken. -/
def VfsPoint.taken : VfsPoint → List ℕ
  | .waitFile purpose _ _ _ _ => purpose.held
  | .fileCall _ _ _ f _ => [f]
  | .openCall _ _ _ _ _ directory => directory.toList.map Prod.fst
  | .pathCall _ _ _ bases => bases.held
  | _ => []

/-- The calls at these points wait for files that calls among them have taken. -/
structure Deadlocked (w : VfsWorld) (D : Finset ℕ) : Prop where
  nonempty : D.Nonempty
  waits : ∀ k ∈ D, ∃ p f, w.points[k]? = some p ∧ p.awaits = some f ∧
    (w.service.files f).active = true ∧ ∃ j ∈ D, ∃ q, w.points[j]? = some q ∧ f ∈ q.taken

/-- The slots of the two directories that a path operation takes one after the other. -/
def twoBases (operation : ℕ) (request : AstraVfsRequest) : Option (ℕ × ℕ) :=
  if request.file = 0 ∨ secondId operation request = 0 ∨
      secondId operation request = request.file then none
  else some (handleSlot request.file, handleSlot (secondId operation request))

/-- The two directories that a new call may have to take. -/
def VfsCall.bases : VfsCall → Option (ℕ × ℕ)
  | .dispatch _ _ _ operation request _ => twoBases operation request
  | _ => none

/-- The two directories of a call that still waits for one of them. -/
def VfsPoint.bases : VfsPoint → Option (ℕ × ℕ)
  | .waitFile (.firstBase frame _ request) _ _ _ _ => twoBases frame.operation request
  | .waitFile (.secondBase frame _ request _) _ _ _ _ => twoBases frame.operation request
  | _ => none

/-- A call under way waits for one of the directories `a` and `b`, and takes `a` first. -/
def TakesBases (w : VfsWorld) (a b : ℕ) : Prop :=
  ∃ p ∈ w.points, p.bases = some (a, b)

def Ordered (w : VfsWorld) : Prop :=
  ∀ a, ¬ Relation.TransGen (TakesBases w) a a

/-- A new operation takes its two directories in an order that goes with those of the operations
that are waiting. -/
def InOrder (w : VfsWorld) (ev : VfsEvent) : Prop :=
  ∀ call, ev = .start call →
    ∀ a, ¬ Relation.TransGen (fun x y => TakesBases w x y ∨ call.bases = some (x, y)) a a

/-- A call that waits for a directory of the two in `E` and has taken the first waits for the
second. -/
def VfsPoint.Based (E : Option (ℕ × ℕ)) : VfsPoint → Prop
  | .waitFile (.firstBase frame _ request) f _ _ _ =>
    twoBases frame.operation request = E ∧ request.file ≠ 0 ∧ f = handleSlot request.file
  | .waitFile (.secondBase frame _ request first) f _ _ _ =>
    twoBases frame.operation request = E ∧ ∀ b, first = some b → E = some (b.1, f)
  | _ => True

def Parks (E : Option (ℕ × ℕ)) (r : AstraVfsService × VfsOutcome) : Prop :=
  ∀ p, r.2 = .park p → p.Based E

section

variable {s : AstraVfsService} {E : Option (ℕ × ℕ)}

theorem Parks.reply (s : AstraVfsService) (reply : AstraVfsReply) : Parks E (s, .reply reply) := by
  intro p hp
  cases hp

variable {allowed : AstraVfsFileState} {purpose : Purpose} {p : VfsPoint}
  {f generation handle session : ℕ}

theorem Parks.park (hp : p.Based E) : Parks E (s, .park p) := by
  intro q hq
  cases hq
  exact hp

theorem Parks.ite {c : Prop} [Decidable c] {a b : AstraVfsService × VfsOutcome}
    (ht : c → Parks E a) (he : ¬ c → Parks E b) : Parks E (if c then a else b) := by
  split
  · rename_i hc
    exact ht hc
  · rename_i hc
    exact he hc

theorem After.run_parks (s : AstraVfsService) (after : After) : Parks E (after.run s) := by
  cases after with
  | reply r => exact .reply s r
  | batch frame status => exact .park trivial
  | grant index g => exact .park trivial

theorem reapLoop_parks (i session : ℕ) (after : After) (turns : ℕ) (s : AstraVfsService) :
    Parks E (reapLoop i session after turns s) := by
  induction turns generalizing s with
  | zero =>
    intro p hp
    cases hp
  | succ turns ih =>
    unfold reapLoop
    split
    · exact After.run_parks _ after
    · dsimp only
      split
      · exact ih _
      · exact .park trivial
      · exact .park trivial

theorem finishSessionRequest_parks (s : AstraVfsService) (i : ℕ) (after : After) :
    Parks E (finishSessionRequest s i after) :=
  .ite (fun _ => reapLoop_parks i _ after _ _) fun _ => After.run_parks _ after

theorem Frame.finish_parks (s : AstraVfsService) (r : FileResult) (frame : Frame) :
    Parks E (frame.finish s r) := by
  cases frame with
  | request frame => exact finishSessionRequest_parks _ _ _
  | direct i => exact finishSessionRequest_parks _ _ _
  | batch i frame => exact finishSessionRequest_parks _ _ _
  | retained => exact .reply _ _

theorem closerGoes_parks (r : Closed × AstraVfsService) (closer : Closer) (f : ℕ) :
    Parks E (closerGoes r closer f) := by
  unfold closerGoes
  split
  · exact .park trivial
  · exact .park trivial
  · cases closer with
    | request frame => exact Frame.finish_parks _ _ _
    | reap i session after => exact reapLoop_parks _ _ _ _ _
    | release token => exact Frame.finish_parks _ _ _

section

variable (s)

theorem closerDone_parks (f : ℕ) (status : AstraVfsStatus) (closer : Closer) :
    Parks E (closerDone s f status closer) := by
  cases closer with
  | request frame => exact Frame.finish_parks _ _ _
  | reap i session after => exact reapLoop_parks _ _ _ _ _
  | release token => exact Frame.finish_parks _ _ _

theorem closerWoken_parks (closer : Closer) (f : ℕ) (waited : Bool) :
    Parks E (closerWoken s closer f waited) := by
  cases closer <;> exact closerGoes_parks _ _ _

theorem refusedFile_parks (purpose : Purpose) : Parks E (refusedFile s purpose) :=
  Frame.finish_parks _ _ _

end

theorem findFile_slot (h : (findFile s session handle).1 = some f) :
    handle ≠ 0 ∧ f = handleSlot handle := by
  unfold findFile at h
  dsimp only at h
  split_ifs at h with h0
  push Not at h0
  exact ⟨h0.1, by simpa using h.symm⟩

theorem pathSecond_parks {frame : RequestFrame} {request : AstraVfsRequest} {first : Option (ℕ × ℕ)}
    (hfirst : ∀ b, first = some b → request.file ≠ 0 ∧ b.1 = handleSlot request.file) :
    Parks (twoBases frame.operation request)
      (pathSecond s frame session request first) := by
  refine .ite (fun _ => .park trivial) fun h0 => .ite (fun _ => .park trivial) fun hne => ?_
  cases hfind : findFile s session (secondId frame.operation request) with
  | mk found status =>
    cases found with
    | none => exact Frame.finish_parks _ _ _
    | some f =>
      refine .ite (fun _ => Frame.finish_parks _ _ _) fun _ => ?_
      dsimp only
      split
      · exact .park trivial
      · refine .park ⟨rfl, fun b hb => ?_⟩
        obtain ⟨hfile, hslot⟩ := hfirst b hb
        obtain ⟨_, rfl⟩ := findFile_slot (f := f) (congrArg Prod.fst hfind)
        simp [twoBases, hfile, h0, hne, hslot]
      · exact refusedFile_parks _ _

theorem openBeneath_parks (s : AstraVfsService) (frame : RequestFrame) (session : ℕ)
    (request : AstraVfsRequest) (directory : Option (ℕ × ℕ)) :
    Parks E (openBeneath s frame session request directory) := by
  unfold openBeneath
  split
  · exact Frame.finish_parks _ _ _
  · exact .park trivial

theorem takenFile_parks
    {expected : BitVec 32} (hb : (VfsPoint.waitFile purpose f generation allowed expected).Based E) :
    Parks E (takenFile s f purpose) := by
  cases purpose with
  | work frame name work =>
    cases name with
    | handle session handle => exact .park trivial
    | token token => exact .ite (fun _ => .park trivial) fun _ => Frame.finish_parks _ _ _
  | openAt frame session request => exact openBeneath_parks _ _ _ _ _
  | firstBase frame session request =>
    obtain ⟨rfl, hf⟩ := hb
    refine pathSecond_parks fun b hbase => ?_
    cases hbase
    exact hf
  | secondBase frame session request first => exact .park trivial

theorem acquiredFile_parks {r : Acquired × AstraVfsService}
    (hb : ∀ expected, (VfsPoint.waitFile purpose f generation allowed expected).Based E) :
    Parks E (acquiredFile r purpose f generation allowed) := by
  unfold acquiredFile
  split
  · exact takenFile_parks (hb 0)
  · exact .park (hb _)
  · exact refusedFile_parks _ _

theorem requestFile_parks {check : AstraVfsOpenFile → AstraVfsStatus}
    (hb : ∀ f generation allowed expected,
      (findFile s session handle).1 = some f →
        (VfsPoint.waitFile purpose f generation allowed expected).Based E) :
    Parks E (requestFile s session handle check purpose) := by
  unfold requestFile
  cases hfind : findFile s session handle with
  | mk found status =>
    cases found with
    | none => exact Frame.finish_parks _ _ _
    | some f =>
      refine .ite (fun _ => Frame.finish_parks _ _ _) fun _ => acquiredFile_parks fun expected => ?_
      exact hb f _ _ expected (by rw [hfind])

section

variable (s)

theorem workFile_parks (frame : Frame) (session handle : ℕ)
    (check : AstraVfsOpenFile → AstraVfsStatus) (work : FileWork) :
    Parks E (workFile s frame session handle check work) :=
  requestFile_parks fun _ _ _ _ _ => trivial

theorem retainedFile_parks (token : ℕ)
    (check : AstraVfsOpenFile → AstraVfsStatus) (work : FileWork) :
    Parks E (retainedFile s token check work) := by
  unfold retainedFile
  split
  · exact Frame.finish_parks _ _ _
  · exact .ite (fun _ => Frame.finish_parks _ _ _) fun _ => acquiredFile_parks fun _ => trivial

theorem handlePathOperation_parks (frame : RequestFrame) (session : ℕ) (request : AstraVfsRequest) :
    Parks (twoBases frame.operation request) (handlePathOperation s frame session request) := by
  refine .ite (fun _ => pathSecond_parks (by simp)) fun _ => requestFile_parks ?_
  intro f generation allowed expected hfind
  exact ⟨rfl, findFile_slot hfind⟩

theorem dispatchReserved_parks (frame : RequestFrame) (session : ℕ)
    (request : AstraVfsRequest) (area : Option (List UInt8)) (paths : AstraVfsPathOperands) :
    Parks (twoBases frame.operation request)
      (dispatchReserved s frame session request area paths) := by
  have hfail : ∀ r, Parks (twoBases frame.operation request) ((Frame.request frame).finish s r) :=
    fun r => Frame.finish_parks _ _ _
  have hwork : ∀ check work, Parks (twoBases frame.operation request)
      (workFile s (.request frame) session request.file check work) :=
    fun check work => workFile_parks _ _ _ _ _ _
  have hchecked : ∀ invalid check work, Parks (twoBases frame.operation request)
      (checkedFile s frame session request.file invalid check work) :=
    fun invalid check work => .ite (fun _ => hfail _) fun _ => hwork _ _
  have hplain : ∀ invalid, Parks (twoBases frame.operation request)
      (checkedPlain s frame invalid) :=
    fun invalid => .ite (fun _ => hfail _) fun _ => .park trivial
  have hopenAt : ∀ absolute, Parks (twoBases frame.operation request)
      (handleOpenAt s frame session request absolute) :=
    fun absolute => .ite (fun _ => hfail _) fun _ => requestFile_parks fun _ _ _ _ _ => trivial
  have hclose : Parks (twoBases frame.operation request)
      (handleClose s frame session request.file) := by
    unfold handleClose
    split
    · exact hfail _
    · exact closerGoes_parks _ _ _
  exact .ite (fun _ => finishSessionRequest_parks _ _ _) fun _ =>
    .ite (fun _ => openBeneath_parks _ _ _ _ _) fun _ => .ite (fun _ => hopenAt _) fun _ =>
    .ite (fun _ => hclose) fun _ =>
    .ite (fun _ => hwork _ _) fun _ => .ite (fun _ => hwork _ _) fun _ =>
    .ite (fun _ => hwork _ _) fun _ => .ite (fun _ => hwork _ _) fun _ =>
    .ite (fun _ => hwork _ _) fun _ =>
    .ite (fun _ => handlePathOperation_parks s frame session request) fun _ =>
    .ite (fun _ => hplain _) fun _ => .ite (fun _ => hchecked _ _ _) fun _ =>
    .ite (fun _ => hchecked _ _ _) fun _ =>
    .ite (fun _ => .ite (fun _ => .park trivial) fun _ => hplain _) fun _ =>
    .ite (fun _ => hplain _) fun _ => .ite (fun _ => hplain _) fun _ =>
    .ite (fun _ => hchecked _ _ _) fun _ => .ite (fun _ => hchecked _ _ _) fun _ =>
    .ite (fun _ => hchecked _ _ _) fun _ =>
    .ite (fun _ => .ite (fun _ => hplain _) fun _ => hwork _ _) fun _ =>
    .ite (fun _ => hfail _) fun _ => hfail _

theorem dispatch_parks (owner grant features operation : ℕ)
    (request : AstraVfsRequest) (area : Option (List UInt8)) :
    Parks (twoBases operation request)
      (astraVfsServiceDispatchGrant s owner grant features operation request area) := by
  refine .ite (fun _ => .reply _ _) fun _ => .ite (fun _ => .reply _ _) fun _ =>
    .ite (fun _ => .reply _ _) fun _ => ?_
  split
  · exact .reply _ _
  · exact .ite (fun _ => .reply _ _) fun _ => .ite (fun _ => .reply _ _) fun _ =>
      dispatchReserved_parks _ _ _ request area _

theorem directFile_parks (outer : Option RequestFrame) (session handle : ℕ)
    (invalid : Bool) (check : AstraVfsOpenFile → AstraVfsStatus) (work : FileWork) :
    Parks E (directFile s outer session handle invalid check work) := by
  unfold directFile
  split
  · cases outer with
    | none => exact .reply _ _
    | some frame => exact .park trivial
  · exact .ite (fun _ => Frame.finish_parks _ _ _) fun _ => workFile_parks _ _ _ _ _ _

theorem releaseSession_parks (session : ℕ) (after : After) :
    Parks E (astraVfsServiceReleaseSession s session after) := by
  unfold astraVfsServiceReleaseSession
  split
  · exact After.run_parks _ after
  · exact .ite (fun _ => reapLoop_parks _ _ after _ _) fun _ => After.run_parks _ after

theorem fileCallDone_parks (frame : Frame) (work : FileWork) (f : ℕ)
    (a : BackendAnswer) : Parks E (fileCallDone s frame work f a) := by
  cases work with
  | read length => exact .ite (fun _ => Frame.finish_parks _ _ _) fun _ => Frame.finish_parks _ _ _
  | write length => exact .ite (fun _ => Frame.finish_parks _ _ _) fun _ => Frame.finish_parks _ _ _
  | _ => exact Frame.finish_parks _ _ _

end

theorem VfsPoint.resume_parks (hp : p.Based E) (s : AstraVfsService) (a : VfsAnswer) :
    Parks E (p.resume s a) := by
  cases p with
  | waitFile purpose f generation allowed expected =>
    exact acquiredFile_parks fun _ => by cases purpose <;> exact hp
  | fileCall frame name work f node => exact fileCallDone_parks _ _ _ _ _
  | openCall frame session request i f directory => exact Frame.finish_parks _ _ _
  | pathCall frame session request bases => exact Frame.finish_parks _ _ _
  | plainCall frame => exact Frame.finish_parks _ _ _
  | waitIdle closer f expected => exact closerWoken_parks _ _ _ _
  | closeCall closer f node => exact closerDone_parks _ _ _ _
  | batchEnter frame session directory => exact directFile_parks _ _ _ _ _ _ _
  | batchLeave frame status => exact Frame.finish_parks _ _ _
  | grant index g =>
    exact .ite (fun _ => Frame.finish_parks _ _ _) fun _ =>
      .ite (fun _ => .park trivial) fun _ => .park trivial
  | grantSession index g session => exact releaseSession_parks _ _ _

theorem VfsCall.start_parks (s : AstraVfsService) (call : VfsCall) :
    Parks call.bases (call.start s) := by
  cases call with
  | dispatch owner grant features operation request area => exact dispatch_parks _ _ _ _ _ _ _
  | readdirFile session directory => exact directFile_parks _ _ _ _ _ _ _
  | readInto session handle length => exact directFile_parks _ _ _ _ _ _ _
  | writePosition session handle flags length => exact directFile_parks _ _ _ _ _ _ _
  | retain session handle => exact .reply _ _
  | readRetained token length =>
    exact .ite (fun _ => Frame.finish_parks _ _ _) fun _ => retainedFile_parks _ _ _ _
  | statRetained token => exact retainedFile_parks _ _ _ _
  | writeRetained token length =>
    exact .ite (fun _ => Frame.finish_parks _ _ _) fun _ => retainedFile_parks _ _ _ _
  | syncRetained token => exact retainedFile_parks _ _ _ _
  | releaseRetained token => exact closerGoes_parks _ _ _
  | releaseSession session => exact releaseSession_parks _ _ _
  | releaseGrant grant => exact .ite (fun _ => .reply _ _) fun _ => .park trivial

end

variable {evs : List VfsEvent} {p : VfsPoint}

theorem VfsPoint.Based.cases {E : Option (ℕ × ℕ)} (h : p.Based E) :
    p.bases = none ∨ p.bases = E := by
  cases p with
  | waitFile purpose f generation allowed expected =>
    cases purpose with
    | firstBase frame session request => exact .inr h.1
    | secondBase frame session request first => exact .inr h.1
    | _ => exact .inl rfl
  | _ => exact .inl rfl

theorem VfsPoint.Based.self {E : Option (ℕ × ℕ)} (h : p.Based E) : p.Based p.bases := by
  cases p with
  | waitFile purpose f generation allowed expected =>
    cases purpose with
    | firstBase frame session request => exact ⟨rfl, h.2⟩
    | secondBase frame session request first =>
      obtain ⟨rfl, hfirst⟩ := h
      exact ⟨rfl, hfirst⟩
    | _ => trivial
  | _ => trivial

section

variable {w : VfsWorld}

theorem step_point (hb : ∀ p ∈ w.points, p.Based p.bases) {ev : VfsEvent} {p : VfsPoint}
    (hp : p ∈ (w.step ev).points) : p ∈ w.points ∨ ∃ E, p.Based E ∧
      ((∃ call, ev = .start call ∧ E = call.bases) ∨ ∃ q ∈ w.points, E = q.bases) := by
  have hothers : w.others ev ⊆ w.points := by
    cases ev with
    | start call => exact List.Subset.refl _
    | resume k a => exact (eraseIdx_sublist _ _).subset
  rw [VfsWorld.step] at hp
  cases hr : w.stretch ev with
  | none =>
    rw [hr] at hp
    exact .inl hp
  | some r =>
    obtain ⟨s, outcome⟩ := r
    rw [hr] at hp
    cases outcome with
    | reply reply => exact .inl (hothers hp)
    | spins => exact .inl (hothers hp)
    | park q =>
      rcases mem_cons.1 hp with rfl | hm
      swap
      · exact .inl (hothers hm)
      refine .inr ?_
      cases ev with
      | start call =>
        obtain ⟨_, he⟩ : w.spinning = false ∧ call.start w.service = (s, .park p) := by
          simpa [VfsWorld.stretch] using hr
        exact ⟨call.bases, VfsCall.start_parks w.service call p (by rw [he]), .inl ⟨call, rfl, rfl⟩⟩
      | resume k a =>
        obtain ⟨_, q, hq, he⟩ : w.spinning = false ∧ ∃ q, w.points[k]? = some q ∧
            q.resume w.service a = (s, .park p) := by
          simpa [VfsWorld.stretch] using hr
        have hm := mem_of_getElem? hq
        exact ⟨q.bases, VfsPoint.resume_parks (hb q hm) w.service a p (by rw [he]), .inr ⟨q, hm, rfl⟩⟩

theorem step_based (hb : ∀ p ∈ w.points, p.Based p.bases) (ev : VfsEvent) :
    ∀ p ∈ (w.step ev).points, p.Based p.bases := by
  intro p hp
  rcases step_point hb hp with hm | ⟨E, hE, _⟩
  · exact hb p hm
  · exact hE.self

theorem Ordered.step (h : Ordered w) (hb : ∀ p ∈ w.points, p.Based p.bases) {ev : VfsEvent}
    (hin : InOrder w ev) : Ordered (w.step ev) := by
  intro a ha
  have hnew : ∀ x y, TakesBases (w.step ev) x y →
      TakesBases w x y ∨ ∃ call, ev = .start call ∧ call.bases = some (x, y) := by
    rintro x y ⟨p, hp, hxy⟩
    rcases step_point hb hp with hm | ⟨E, hE, hev⟩
    · exact .inl ⟨p, hm, hxy⟩
    · have he : E = some (x, y) := by
        rcases hE.cases with hn | hs
        · simp [hn] at hxy
        · exact hs.symm.trans hxy
      rcases hev with ⟨call, rfl, hc⟩ | ⟨q, hq, hbq⟩
      · exact .inr ⟨call, rfl, hc.symm.trans he⟩
      · exact .inl ⟨q, hq, hbq.symm.trans he⟩
  cases ev with
  | start call =>
    refine hin call rfl a (Relation.TransGen.mono (fun x y hxy => (hnew x y hxy).imp_right ?_) _ _ ha)
    rintro ⟨call', he, hc⟩
    cases he
    exact hc
  | resume k ans =>
    refine h a (Relation.TransGen.mono (fun x y hxy => (hnew x y hxy).resolve_right ?_) _ _ ha)
    rintro ⟨call', he, _⟩
    cases he

theorem Ordered.not_deadlocked (h : Ordered w) (hb : ∀ p ∈ w.points, p.Based p.bases)
    (D : Finset ℕ) : ¬ Deadlocked w D := by
  rintro ⟨⟨k, hk⟩, hwaits⟩
  -- The files that calls of the set have taken; a call that waits has taken one for its first base.
  let S := D.biUnion fun j => ((w.points[j]?.map VfsPoint.taken).getD []).toFinset
  have hmem : ∀ {f j : ℕ} {q : VfsPoint}, j ∈ D → w.points[j]? = some q → f ∈ q.taken → f ∈ S := by
    intro f j q hj hq hf
    exact Finset.mem_biUnion.2 ⟨j, hj, by simpa [hq] using hf⟩
  have hnext : ∀ f ∈ S, ∃ g ∈ S, TakesBases w f g := by
    intro f hf
    obtain ⟨j, hj, hfj⟩ := Finset.mem_biUnion.1 hf
    obtain ⟨q, g, hq, hg, _, j', hj', q', hq', hgq'⟩ := hwaits j hj
    have hfq : f ∈ q.taken := by simpa [hq] using hfj
    refine ⟨g, hmem hj' hq' hgq', q, mem_of_getElem? hq, ?_⟩
    have hbased := hb q (mem_of_getElem? hq)
    cases q with
    | waitFile purpose g' generation allowed expected =>
      obtain rfl : g' = g := by simpa [VfsPoint.awaits] using hg
      cases purpose with
      | secondBase frame session request first =>
        obtain ⟨b, hfirst, rfl⟩ : ∃ b, first = some b ∧ b.1 = f := by
          simpa [VfsPoint.taken, Purpose.held] using hfq
        exact hbased.2 b hfirst
      | _ => simp [VfsPoint.taken, Purpose.held] at hfq
    | waitIdle closer g' expected => simp [VfsPoint.taken] at hfq
    | _ => simp [VfsPoint.awaits] at hg
  obtain ⟨p, f, _, _, _, j, hj, q, hq, hf⟩ := hwaits k hk
  obtain ⟨a, ha⟩ := exists_cycle S ⟨f, hmem hj hq hf⟩ hnext
  exact h a ha

end

theorem Ordered.run {w : VfsWorld} (h : Ordered w)
    (hb : ∀ p ∈ w.points, p.Based p.bases) (hin : VfsWorld.Along InOrder w evs) :
    Ordered (w.run evs) ∧ ∀ p ∈ (w.run evs).points, p.Based p.bases := by
  induction evs generalizing w with
  | nil => exact ⟨h, hb⟩
  | cons ev evs ih => exact ih (h.step hb hin.1) (step_based hb ev) hin.2

/-- In every run in which each new operation over two directories takes them in an order that goes
with those of the operations that are waiting, no set of calls ever waits for files among
themselves. -/
theorem vfsService_no_deadlock (sessionCapacity fileCapacity limit : ℕ) (stateWait tryLock : Bool)
    (evs : List VfsEvent)
    (hin : VfsWorld.Along InOrder
      (vfsBoot sessionCapacity fileCapacity limit stateWait tryLock) evs) (D : Finset ℕ) :
    ¬ Deadlocked ((vfsBoot sessionCapacity fileCapacity limit stateWait tryLock).run evs) D := by
  have hb : ∀ p ∈ (vfsBoot sessionCapacity fileCapacity limit stateWait tryLock).points,
      p.Based p.bases := by simp [vfsBoot]
  have h : Ordered (vfsBoot sessionCapacity fileCapacity limit stateWait tryLock) := by
    intro a ha
    obtain ⟨y, _, hy⟩ := Relation.TransGen.tail'_iff.1 ha
    obtain ⟨p, hp, _⟩ := hy
    simp [vfsBoot] at hp
  obtain ⟨ho, hb'⟩ := h.run hb hin
  exact ho.not_deadlocked hb' D

/-- A session opens two directories and renames between them. -/
def vfsRename (first second : ℕ) : VfsEvent :=
  .start (.dispatch 1 0 0 astraVfsOpRename (vfsRequest 1 0 first second ⟨0, 2, 2, 2⟩)
    (some [97, 0, 98, 0]))

def vfsTwoDirectories : List VfsEvent :=
  [vfsHello, vfsOpen 1, vfsAnswer 0 10 .directory, vfsOpen 1, vfsAnswer 0 11 .directory]

/-- While the second directory is in use, one rename takes the first directory and waits for the
second, and the other waits to take them the other way round. -/
def vfsCrossing : List VfsEvent :=
  vfsTwoDirectories ++
    [.start (.dispatch 1 0 0 astraVfsOpStatFile (vfsRequest 1 0 0x10002 0 ⟨0, 0, 0, 0⟩) none),
      vfsRename 0x10001 0x10002, vfsRename 0x10002 0x10001, vfsAnswer 2 0 .unknown,
      vfsAnswer 0 0 .unknown, vfsAnswer 1 0 .unknown]

theorem vfsCrossing_deadlocked : Deadlocked ((vfsBoot 2 2 0 true false).run vfsCrossing) {0, 1} := by
  generalize hw : (vfsBoot 2 2 0 true false).run vfsCrossing = w
  have hawaits : w.points[0]?.bind VfsPoint.awaits = some 1 ∧
      w.points[1]?.bind VfsPoint.awaits = some 0 := by
    subst hw
    decide +kernel
  have htaken : w.points[0]?.map VfsPoint.taken = some [0] ∧
      w.points[1]?.map VfsPoint.taken = some [1] := by
    subst hw
    decide +kernel
  have hactive : (w.service.files 0).active = true ∧ (w.service.files 1).active = true := by
    subst hw
    decide +kernel
  obtain ⟨p, hp, hp'⟩ := Option.bind_eq_some_iff.1 hawaits.1
  obtain ⟨q, hq, hq'⟩ := Option.bind_eq_some_iff.1 hawaits.2
  have hpt : p.taken = [0] := by simpa [hp] using htaken.1
  have hqt : q.taken = [1] := by simpa [hq] using htaken.2
  refine ⟨⟨0, by decide⟩, fun k hk => ?_⟩
  rcases Finset.mem_insert.1 hk with rfl | hk
  · exact ⟨p, 1, hp, hp', hactive.2, 1, by decide, q, hq, by simp [hqt]⟩
  · obtain rfl := Finset.mem_singleton.1 hk
    exact ⟨q, 0, hq, hq', hactive.1, 0, by decide, p, hp, by simp [hpt]⟩

/-- Two renames that name the directories the same way round, with the second directory in use. -/
def vfsAgreeing : List VfsEvent :=
  vfsTwoDirectories ++
    [.start (.dispatch 1 0 0 astraVfsOpStatFile (vfsRequest 1 0 0x10002 0 ⟨0, 0, 0, 0⟩) none),
      vfsRename 0x10001 0x10002, vfsRename 0x10001 0x10002]

def Ascending : VfsEvent → Prop
  | .start call => ∀ e ∈ call.bases, e.1 < e.2
  | .resume _ _ => True

theorem along_ascending {w : VfsWorld}
    (hb : ∀ p ∈ w.points, p.Based p.bases) (hold : ∀ p ∈ w.points, ∀ e ∈ p.bases, e.1 < e.2)
    (hev : ∀ ev ∈ evs, Ascending ev) : VfsWorld.Along InOrder w evs := by
  induction evs generalizing w with
  | nil => trivial
  | cons ev evs ih =>
    have hhead := hev ev (mem_cons_self ..)
    refine ⟨?_, ih (step_based hb ev) (fun p hp e he => ?_) fun ev' h' =>
      hev ev' (mem_cons_of_mem _ h')⟩
    · rintro call rfl a ha
      have hlt : ∀ x y, (TakesBases w x y ∨ call.bases = some (x, y)) → x < y := by
        rintro x y (⟨p, hp, he⟩ | he)
        · exact hold p hp (x, y) he
        · exact hhead (x, y) he
      have : Relation.TransGen (· < ·) a a := Relation.TransGen.mono hlt _ _ ha
      rw [Relation.transGen_eq_self] at this
      exact lt_irrefl a this
    · rcases step_point hb hp with hm | ⟨E, hE, hcall⟩
      · exact hold p hm e he
      · have hEe : e ∈ E := by
          rcases hE.cases with hn | hs
          · simp [hn] at he
          · exact hs ▸ he
        rcases hcall with ⟨call, rfl, rfl⟩ | ⟨q, hq, rfl⟩
        · exact hhead e hEe
        · exact hold q hq e hEe

theorem vfsAgreeing_not_deadlocked :
    ¬ Deadlocked ((vfsBoot 2 2 0 true false).run vfsAgreeing) {0, 1} := by
  refine vfsService_no_deadlock 2 2 0 true false vfsAgreeing ?_ {0, 1}
  refine along_ascending (by simp [vfsBoot]) (by simp [vfsBoot]) fun ev hev => ?_
  simp only [vfsAgreeing, vfsTwoDirectories, cons_append, nil_append, mem_cons,
    not_mem_nil, or_false] at hev
  rcases hev with rfl | rfl | rfl | rfl | rfl | rfl | rfl | rfl <;> try trivial
  all_goals
    change ∀ e ∈ VfsCall.bases _, e.1 < e.2
    decide

end Astra
