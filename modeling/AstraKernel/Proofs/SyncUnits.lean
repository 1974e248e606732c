import AstraKernel.Proofs.SyncObjects

/-!
# The units of an object

A wait that finds an object signalled takes a unit of it, and a signal hands units to its waiters
and leaves the rest. No other call changes what a semaphore counts.
-/

namespace Astra

open Function List

section

variable {s s' s₁ : SyncState} {n : ℕ} {t : Slot} {p : Pool} {o : KernelSyncObject}

section

variable (h : SyncSound s)
include h

theorem kernelSyncRetain_quiet (n : ℕ) : SyncQuiet s (kernelSyncRetain s n).2 := by
  unfold kernelSyncRetain
  split
  · exact .refl h
  split_ifs
  · exact .refl h
  · exact h.setObject (f := fun o => { o with references := o.references + 1 })
      ⟨rfl, rfl, rfl, rfl, rfl⟩

theorem kernelSyncHandleRelease_quiet (n : ℕ) : SyncQuiet s (kernelSyncHandleRelease s n) := by
  unfold kernelSyncHandleRelease
  split
  · exact .corrupted h
  rename_i hbad
  push Not at hbad
  split
  · exact h.setObject ⟨rfl, rfl, rfl, rfl, rfl⟩
  split
  · have hq := closeObject_quiet h hbad.2.2 astraSyscallClosed
    generalize closeObject s n astraSyscallClosed = r at hq
    obtain ⟨status, s₁, woken⟩ := r
    have hc : SyncQuiet s s₁.corrupted := SyncQuiet.trans hq (.corrupted hq.sound)
    cases status
    case ok =>
      dsimp only
      split_ifs with hgone
      · exact hc
      · push Not at hgone
        refine SyncQuiet.trans hq (releaseLast_quiet hq.sound ?_)
        simp [hgone.2.2]
    all_goals exact hc
  · exact releaseLast_quiet h hbad.2.2

theorem kernelSyncReset_quiet (n : ℕ) : SyncQuiet s (kernelSyncReset s n).2 := by
  unfold kernelSyncReset
  split
  · exact .refl h
  split
  · exact .refl h
  split
  · exact .refl h
  rename_i hl
  split
  · exact .refl h
  rename_i ht
  have hlive : (s.object n).state = .live := (not_not.1 hl).2.1
  refine SyncQuiet.of_change (h.change (n := n) h.healthy (Iff.rfl) (Nat.zero_le _) ?_ ?_ ?_) ?_
  · exact h.unit n
  · exact fun _ _ => ⟨hlive, rfl⟩
  · exact fun _ _ _ _ hw => hw
  · refine ⟨fun h1 => by simp [hlive] at h1, fun _ => rfl, fun _ => rfl, fun _ h1 => ?_,
      fun _ _ => Nat.zero_le _⟩
    rw [h1] at ht
    exact absurd ht (by simp)

theorem kernelSyncPrepareWait_spec (n : ℕ) :
    (∃ s₁, kernelSyncPrepareWait s n = (.ok, s₁, ⟨none, 0⟩) ∧
        SyncMoves s s₁ (fun _ => 0) fun m => if m = n then 1 else 0) ∨
      (∃ spec, kernelSyncPrepareWait s n = (.blocked, s, spec) ∧ spec.queue = some (syncQueue n) ∧
        n < kernelSyncObjectMax ∧ (s.object n).state = .live ∧ (s.object n).count = 0) ∨
      ∃ status spec, kernelSyncPrepareWait s n = (status, s, spec) ∧ status ≠ .ok ∧
        status ≠ .blocked := by
  unfold kernelSyncPrepareWait
  by_cases hv : ¬ validObjectPointer s n
  · exact .inr (.inr ⟨_, _, if_pos hv, by simp, by simp⟩)
  rw [if_neg hv]
  by_cases hc : (s.object n).state = .closing
  · exact .inr (.inr ⟨_, _, if_pos hc, by simp, by simp⟩)
  rw [if_neg hc]
  by_cases hl : ¬ validLiveObject s n
  · exact .inr (.inr ⟨_, _, if_pos hl, by simp, by simp⟩)
  rw [if_neg hl]
  have hlive : (s.object n).state = .live := (not_not.1 hl).2.1
  split
  · rename_i hz
    left
    split_ifs with ht
    · have hs := h.change (n := n) (o := { s.object n with count := (s.object n).count - 1 })
        h.healthy Iff.rfl ((Nat.sub_le _ _).trans (h.count n)) (h.unit n)
        (fun t hw => absurd (h.unserved n (not_not.1 hv).1 t hw).2 hz) fun _ _ _ _ hw => hw
      have ha : Account (s.object n) { s.object n with count := (s.object n).count - 1 } 0 1 := by
        refine ⟨fun h1 => by simp [hlive] at h1, fun _ => rfl, fun _ => rfl, fun _ _ => ?_,
          fun _ _ => ?_⟩ <;> dsimp only <;> omega
      have hm := SyncMoves.of_change hs ha
      simp only [ite_self] at hm
      exact ⟨_, rfl, hm⟩
    · refine ⟨s, rfl, h, fun m => ?_⟩
      rcases eq_or_ne m n with rfl | hm
      · rw [if_pos rfl]
        refine ⟨id, fun _ => rfl, fun _ => rfl, fun _ h1 => ?_, fun _ h1 => ?_⟩ <;>
          simp [h1] at ht
      · rw [if_neg hm]
        exact .refl _
  rename_i hz
  by_cases hcount : kernelThreadWaitQueueCount s.pool (syncQueue n) = uint32Max
  · exact .inr (.inr ⟨_, _, if_pos hcount, by simp, by simp⟩)
  rw [if_neg hcount]
  by_cases hseq : kernelThreadWaitQueueSequence s.pool (syncQueue n) = 0
  · exact .inr (.inr ⟨_, _, if_pos hseq, by simp, by simp⟩)
  · exact .inr (.inl ⟨_, if_neg hseq, rfl, (not_not.1 hv).1, hlive, not_not.1 hz⟩)

theorem SyncSound.block (hp : Healthy p)
    (hw : ∀ n < kernelSyncObjectMax, ∀ t, Waits p t (syncQueue n) →
      Waits s.pool t (syncQueue n) ∨ (s.object n).state = .live ∧ (s.object n).count = 0) :
    SyncQuiet s (s.withPool p) :=
  ⟨{ h with
      healthy := hp
      unserved := fun n hn t ht => (hw n hn t ht).elim (h.unserved n hn t) id }, fun _ => .refl _⟩

end

theorem SyncQuiet.moves {f g : ℕ → ℕ} (h : SyncQuiet s s') (hf : ∀ m, f m = 0)
    (hg : ∀ m, g m = 0) : SyncMoves s s' f g := by
  obtain rfl : f = fun _ => 0 := funext hf
  obtain rfl : g = fun _ => 0 := funext hg
  exact h

theorem kernelThreadBlockUntil_waits (h : Healthy p) (spec : KernelThreadWaitSpec)
    (ho : outerQueue p spec.queue) (now deadline timeoutResult : ℕ) (rowMemory heapMemory : Bool) :
    Healthy (kernelThreadBlockUntil p t spec.queue spec.sequence now deadline timeoutResult rowMemory
      heapMemory).2 ∧
    ∀ x q, Waits (kernelThreadBlockUntil p t spec.queue spec.sequence now deadline timeoutResult
      rowMemory heapMemory).2 x q → Waits p x q ∨ x = t ∧ spec.queue = some q := by
  have hwait : Waitable p t [⟨spec.queue, spec.sequence⟩] .one :=
    waitable_of_outer fun spec' hspec => by
      rw [mem_singleton.1 hspec]
      exact ho
  refine ⟨(blockWaitSet_effect h _ now deadline timeoutResult .one rowMemory heapMemory hwait
    (C := fun _ => False) (W := fun _ _ => False)).1, fun x q hw => ?_⟩
  rcases blockWaitSet_waits h now deadline timeoutResult rowMemory heapMemory hwait hw with
    h1 | ⟨h1, spec', hspec, hq⟩
  · exact .inl h1
  · rw [mem_singleton.1 hspec] at hq
    exact .inr ⟨h1, hq⟩

theorem kernelSyncWait_spec (h : SyncSound s) (n : ℕ) (t : Slot) (now deadline timeoutResult : ℕ)
    (rowMemory heapMemory : Bool) : ∃ status s₁,
      kernelSyncWait s n t now deadline timeoutResult rowMemory heapMemory = (status, s₁) ∧
        SyncMoves s s₁ (fun _ => 0) fun m => if m = n ∧ status = .ok then 1 else 0 := by
  have hquiet : ∀ {status s₁}, SyncQuiet s s₁ → status ≠ .ok →
      SyncMoves s s₁ (fun _ => 0) fun m => if m = n ∧ status = KernelSyncStatus.ok then 1 else 0 :=
    fun hq hne => hq.moves (fun _ => rfl) fun m => if_neg fun h1 => hne h1.2
  unfold kernelSyncWait
  by_cases hr : timeoutResult = astraSyscallOk
  · exact ⟨_, _, if_pos hr, hquiet (.refl h) (by simp)⟩
  rw [if_neg hr]
  rcases kernelSyncPrepareWait_spec h n with ⟨s₁, he, hm⟩ | ⟨spec, he, hq, hlt, hlive, hz⟩ |
    ⟨status, spec, he, hok, hblocked⟩
  · rw [he]
    exact ⟨.ok, s₁, rfl, by simpa using hm⟩
  · rw [he]
    dsimp only
    obtain ⟨hp, hw⟩ := kernelThreadBlockUntil_waits h.healthy (t := t) spec
      (by rw [hq]; trivial) now deadline timeoutResult rowMemory heapMemory
    generalize kernelThreadBlockUntil s.pool t spec.queue spec.sequence now deadline timeoutResult
      rowMemory heapMemory = r at hp hw ⊢
    obtain ⟨status, p⟩ := r
    have hb : SyncQuiet s (s.withPool p) := h.block hp fun m hm x hx => by
      refine (hw x _ hx).imp id fun ⟨_, h1⟩ => ?_
      rw [hq, Option.some.injEq, syncQueue_inj] at h1
      rw [← h1]
      exact ⟨hlive, hz⟩
    cases status
    case ok =>
      refine ⟨_, _, rfl, hquiet hb ?_⟩
      split_ifs <;> simp
    all_goals exact ⟨_, _, rfl, hquiet hb (by simp [syncWaitRefused])⟩
  · rw [he]
    cases status
    case ok => exact absurd rfl hok
    case blocked => exact absurd rfl hblocked
    all_goals exact ⟨_, _, rfl, hquiet (.refl h) hok⟩

def Probed (s : SyncState) (members : List WaitMember) (spec : KernelThreadWaitSpec) : Prop :=
  .pending spec ∈ members ∨ ∃ n < kernelSyncObjectMax, spec.queue = some (syncQueue n) ∧
    (s.object n).state = .live ∧ (s.object n).count = 0

/-- The object a set of probes was satisfied by. -/
def satisfiedBy (members : List WaitMember) (n : ℕ) : WaitProbe → Prop
  | .satisfied index => members[index]? = some (.sync n)
  | _ => False

instance (members : List WaitMember) (n : ℕ) (probe : WaitProbe) :
    Decidable (satisfiedBy members n probe) :=
  match probe with
  | .satisfied _ => inferInstanceAs (Decidable (_ = _))
  | .specs _ | .closed _ | .refused _ => .isFalse id

theorem waitProbes_spec (h : SyncSound s) : ∀ (rest done : List WaitMember)
    (specs : List KernelThreadWaitSpec), (∀ spec ∈ specs, Probed s (done ++ rest) spec) →
      SyncMoves s (waitProbes s done.length specs rest).2 (fun _ => 0)
          (fun m => if satisfiedBy (done ++ rest) m (waitProbes s done.length specs rest).1
            then 1 else 0) ∧
        ∀ specs', (waitProbes s done.length specs rest).1 = .specs specs' →
          (waitProbes s done.length specs rest).2 = s ∧ ∀ spec ∈ specs', Probed s (done ++ rest) spec
  | [], done, specs, hs => by
    refine ⟨(SyncQuiet.refl h).moves (fun _ => rfl) fun m => if_neg id, fun specs' he => ⟨rfl, ?_⟩⟩
    obtain rfl := WaitProbe.specs.inj he
    exact fun spec hspec => hs spec (mem_reverse.1 hspec)
  | member :: rest, done, specs, hs => by
    have happ : done ++ member :: rest = (done ++ [member]) ++ rest := by simp
    have hlen : (done ++ [member]).length = done.length + 1 := by simp
    cases member with
    | sync n =>
      unfold waitProbes
      rcases kernelSyncPrepareWait_spec h n with ⟨s₁, he, hm⟩ | ⟨spec, he, hq, hlt, hlive, hz⟩ |
        ⟨status, spec, he, hok, hblocked⟩
      · rw [he]
        refine ⟨?_, fun specs' he' => by simp at he'⟩
        convert hm using 3 with m
        simp [satisfiedBy, eq_comm]
      · rw [he]
        have ih := waitProbes_spec h rest (done ++ [.sync n]) (spec :: specs) (by
          rw [← happ]
          intro spec' hspec
          rcases mem_cons.1 hspec with rfl | hspec
          · exact .inr ⟨n, hlt, hq, hlive, hz⟩
          · exact hs spec' hspec)
        rwa [hlen, ← happ] at ih
      · rw [he]
        cases status
        case ok => exact absurd rfl hok
        case blocked => exact absurd rfl hblocked
        all_goals exact ⟨(SyncQuiet.refl h).moves (fun _ => rfl) fun m => if_neg id,
          fun specs' he' => by simp at he'⟩
    | pending spec =>
      have ih := waitProbes_spec h rest (done ++ [.pending spec]) (spec :: specs) (by
        rw [← happ]
        intro spec' hspec
        rcases mem_cons.1 hspec with rfl | hspec
        · exact .inl (by simp)
        · exact hs spec' hspec)
      rwa [hlen, ← happ] at ih
    | ready =>
      unfold waitProbes
      refine ⟨(SyncQuiet.refl h).moves (fun _ => rfl) fun m => if_neg ?_,
        fun specs' he' => by simp at he'⟩
      simp [satisfiedBy]

theorem Healthy.setWaitOutputs (h : Healthy p) (t : Slot) (multiple : Bool) (index detail : ℕ) :
    Healthy (setWaitOutputs p t multiple index detail) := by
  obtain ⟨R, Q, S, D, h⟩ := h
  unfold Astra.setWaitOutputs
  split_ifs
  · exact ⟨R, Q, S, D, (h.setData _).setData _⟩
  · exact ⟨R, Q, S, D, h.setData _⟩

theorem setWaitOutputs_waits {multiple : Bool} {index detail : ℕ} {x : Slot} {q : QueueRef} :
    Waits (setWaitOutputs p t multiple index detail) x q ↔ Waits p x q := by
  unfold setWaitOutputs
  split_ifs <;> exact Iff.rfl

theorem waitBlock_waits (h : Healthy p) {specs : List KernelThreadWaitSpec}
    (ho : ∀ spec ∈ specs, outerQueue p spec.queue) (multiple : Bool) (now deadline : ℕ)
    (rowMemory heapMemory : Bool) :
    Healthy (waitBlock p t specs multiple now deadline rowMemory heapMemory).2 ∧
      ∀ x q, Waits (waitBlock p t specs multiple now deadline rowMemory heapMemory).2 x q →
        Waits p x q ∨ ∃ spec ∈ specs, spec.queue = some q := by
  unfold waitBlock
  split
  · have hh := h.setWaitOutputs t true astraWaitIndexNone 0
    have hwait : Waitable (setWaitOutputs p t true astraWaitIndexNone 0) t specs .multiple :=
      waitable_of_outer ho
    refine ⟨(blockWaitSet_effect hh specs now deadline astraSyscallTimedOut .multiple rowMemory
      heapMemory hwait (C := fun _ => False) (W := fun _ _ => False)).1, fun x q hw => ?_⟩
    exact (blockWaitSet_waits hh now deadline _ rowMemory heapMemory hwait hw).imp
      setWaitOutputs_waits.1 And.right
  · rcases specs with _ | ⟨spec, specs⟩
    · obtain ⟨h1, h2⟩ := kernelThreadBlockUntil_waits h (t := t) ⟨none, 0⟩ trivial now
        deadline astraSyscallTimedOut rowMemory heapMemory
      exact ⟨h1, fun x q hw => .inl ((h2 x q hw).resolve_right (by simp))⟩
    · obtain ⟨h1, h2⟩ := kernelThreadBlockUntil_waits h (t := t) spec
        (ho spec mem_cons_self) now deadline astraSyscallTimedOut rowMemory heapMemory
      exact ⟨h1, fun x q hw => (h2 x q hw).imp id fun h3 => ⟨spec, mem_cons_self, h3.2⟩⟩

theorem waitHandleSet_moves (h : SyncSound s) {t : Slot} {members : List WaitMember}
    (hm : ∀ spec, .pending spec ∈ members →
      outerQueue s.pool spec.queue ∧ ∀ q ∈ spec.queue, foreignQueue q)
    (multiple : Bool) (now deadline : ℕ) (rowMemory heapMemory : Bool) :
    SyncMoves s (waitHandleSet s t members multiple now deadline rowMemory heapMemory).2.2
      (fun _ => 0) fun n => if satisfiedBy members n
        (waitHandleSet s t members multiple now deadline rowMemory heapMemory).1 then 1 else 0 := by
  obtain ⟨h1, h2⟩ := waitProbes_spec h members [] [] (by simp)
  rw [nil_append, length_nil] at h1 h2
  unfold waitHandleSet
  have hout : ∀ (s₁ : SyncState) (index : ℕ), SyncSound s₁ → SyncQuiet s₁
      (if multiple then s₁.withPool (setWaitOutputs s₁.pool t true index 0) else s₁) := by
    intro s₁ index hs₁
    split_ifs
    · exact hs₁.withPool (hs₁.healthy.setWaitOutputs t true index 0)
        fun n _ x hx => setWaitOutputs_waits.1 hx
    · exact .refl hs₁
  generalize waitProbes s 0 [] members = r at h1 h2
  obtain ⟨probe, s₁⟩ := r
  cases probe with
  | specs specs =>
    obtain ⟨rfl, hspecs⟩ := h2 specs rfl
    have houter : ∀ spec ∈ specs, outerQueue s₁.pool spec.queue := by
      intro spec hspec
      rcases hspecs spec hspec with hp | ⟨n, -, hq, -⟩
      · exact (hm spec hp).1
      · rw [hq]
        trivial
    obtain ⟨hp, hw⟩ := waitBlock_waits h.healthy (t := t) houter multiple now deadline rowMemory
      heapMemory
    refine (h.block hp fun n hn x hx => ?_).moves (fun _ => rfl) fun m => if_neg id
    refine (hw x _ hx).imp id fun ⟨spec, hspec, hq⟩ => ?_
    rcases hspecs spec hspec with hp | ⟨m, -, hq', hlive⟩
    · have := (hm spec hp).2 _ hq
      exact absurd hn (Nat.not_lt.2 this)
    · rw [hq', Option.some.injEq, syncQueue_inj] at hq
      exact hq ▸ hlive
  | satisfied index =>
    have := h1.trans (hout s₁ index h1.sound)
    simpa only [Nat.add_zero] using this
  | closed index =>
    have := h1.trans (hout s₁ index h1.sound)
    simpa only [Nat.add_zero] using this
  | refused status => exact h1

/-- The threads whose waits on an object a step has satisfied: they waited on it, and are ready. -/
def servedThreads (s s' : SyncState) (n : ℕ) : Finset Slot :=
  (waitersOf s.pool (syncQueue n)).filter fun t => s'.pool.state t = .ready

theorem WokeSome.servedThreads {W : Finset Slot} (h : SyncSound s)
    (hw : WokeSome s.pool s'.pool (syncQueue n) W) : servedThreads s s' n = W :=
  hw.filter_ready h.healthy

theorem signalWakes_spec {q : QueueRef} (hp : Healthy p) (result : ℕ) :
    ∀ (k : ℕ) {p₁ : Pool} {W : Finset Slot} (woken : ℕ), WokeSome p p₁ q W →
      W.card + k ≤ (waitersOf p q).card → ∃ p' W', signalWakes q result k p₁ woken
        = (true, p', woken + k) ∧ WokeSome p p' q W' ∧ W'.card = W.card + k
  | 0, p₁, W, woken, h, _ => ⟨p₁, W, rfl, h, rfl⟩
  | k + 1, p₁, W, woken, h, hle => by
    obtain ⟨t, p₂, he, ht, hw⟩ := h.wakeOne hp result (by omega)
    have hcard := Finset.card_insert_of_notMem ht
    obtain ⟨p', W', he', hw', hc⟩ := signalWakes_spec hp result k (woken + 1) hw (by omega)
    refine ⟨p', W', ?_, hw', by omega⟩
    rw [signalWakes, he]
    dsimp only
    rw [he', Nat.add_assoc, Nat.add_comm 1]

section

variable (h : SyncSound s)
include h

theorem SyncSound.serve {W : Finset Slot} (hw : WokeSome s.pool p (syncQueue n) W)
    {o : KernelSyncObject} {r : ℕ} (hfree : o.state = .free ↔ (s.object n).state = .free)
    (hcount : o.count ≤ o.maximum)
    (hunit : o.state ≠ .free → o.type ≠ .semaphore → o.maximum = 1)
    (hn : ∀ t, Waits p t (syncQueue n) → o.state = .live ∧ o.count = 0)
    (ha : Account (s.object n) o r W.card) :
    SyncMoves s { s with pool := p, object := update s.object n o }
      (fun m => if m = n then r else 0) fun m => if m = n
        then (servedThreads s { s with pool := p, object := update s.object n o } n).card else 0 := by
  have hs := h.change hw.healthy hfree hcount hunit hn fun m _ _ t ht => (hw.waits_of ht).2
  have hW : servedThreads s { s with pool := p, object := update s.object n o } n = W :=
    WokeSome.servedThreads h hw
  rw [hW]
  exact .of_change hs ha

theorem signalSemaphore_spec (hv : n < kernelSyncObjectMax)
    (hl : (s.object n).state = .live) (ht : (s.object n).type = .semaphore)
    (releaseCount wakeResult : ℕ) :
    (∃ status, status ≠ .ok ∧ signalSemaphore s n releaseCount wakeResult = (status, s, 0)) ∨
      ∃ s₁ woken, signalSemaphore s n releaseCount wakeResult = (.ok, s₁, woken) ∧
        SyncMoves s s₁ (fun m => if m = n then releaseCount else 0)
          fun m => if m = n then (servedThreads s s₁ n).card else 0 := by
  unfold signalSemaphore
  rw [waiterCount_eq h.healthy]
  by_cases hmany : (waitersOf s.pool (syncQueue n)).card = uint32Max
  · exact .inl ⟨_, by simp, if_pos hmany⟩
  rw [if_neg hmany]
  by_cases hlimit : (s.object n).maximum - (s.object n).count
      < releaseCount - min releaseCount (waitersOf s.pool (syncQueue n)).card
  · exact .inl ⟨_, by simp, if_pos hlimit⟩
  rw [if_neg hlimit]
  obtain ⟨p, W, he, hw, hcard⟩ := signalWakes_spec h.healthy wakeResult
    (min releaseCount (waitersOf s.pool (syncQueue n)).card) 0
    (WokeSome.refl h.healthy (syncQueue n)) (by simp)
  rw [Finset.card_empty, Nat.zero_add] at hcard
  rw [he]
  have hle := h.count n
  refine .inr ⟨_, _, rfl, h.serve hw (o := { s.object n with count := (s.object n).count
    + (releaseCount - min releaseCount (waitersOf s.pool (syncQueue n)).card) }) Iff.rfl ?_ ?_ ?_ ?_⟩
  · dsimp only
    omega
  · exact h.unit n
  · -- a thread still waits only when every unit has gone to another one
    intro t hwait
    obtain ⟨htW, hold⟩ := hw.waits_of hwait
    have hz := (h.unserved n hv t hold).2
    have hlt : W.card < (waitersOf s.pool (syncQueue n)).card := by
      refine Finset.card_lt_card ((Finset.ssubset_iff_of_subset fun x hx =>
        h.healthy.mem_waitersOf.2 (hw.waited x hx)).2 ⟨t, h.healthy.mem_waitersOf.2 hold, htW⟩)
    refine ⟨hl, ?_⟩
    dsimp only
    omega
  · refine ⟨fun h1 => by simp [hl] at h1, fun _ => rfl, fun _ => rfl, fun _ _ => ?_,
      fun _ h1 => by simp [ht] at h1⟩
    dsimp only
    omega

theorem signalEventAuto_spec (hl : (s.object n).state = .live)
    (ht : (s.object n).type = .eventAuto) (wakeResult : ℕ) :
    ∃ s₁ woken, signalEventAuto s n wakeResult = (.ok, s₁, woken) ∧
      (servedThreads s s₁ n).card + (s₁.object n).count ≤ 1 ∧
      SyncMoves s s₁ (fun m => if m = n then 1 else 0)
        fun m => if m = n then (servedThreads s s₁ n).card else 0 := by
  have hmax : (s.object n).maximum = 1 := h.unit n (by simp [hl]) (by simp [ht])
  have haccount : ∀ c v, c + v ≤ (s.object n).count + 1 →
      Account (s.object n) { s.object n with count := c } 1 v := fun c v hle =>
    ⟨fun h1 => by simp [hl] at h1, fun _ => rfl, fun _ => rfl, fun _ h1 => by simp [ht] at h1,
      fun _ _ => hle⟩
  unfold signalEventAuto
  by_cases hnone : (waitersOf s.pool (syncQueue n)).card = 0
  · have hempty : ∀ x, ¬ Waits s.pool x (syncQueue n) := by
      intro x hx
      have := h.healthy.mem_waitersOf.2 hx
      simp [Finset.card_eq_zero.1 hnone] at this
    rcases wakeOne_waits h.healthy (syncQueue n) wakeResult with ⟨-, he⟩ | ⟨x, p, -, hx, -⟩
    · rw [he]
      have hw : WokeSome s.pool { s.pool with waits := s.pool.waits.advance (syncQueue n) }
          (syncQueue n) ∅ := by
        refine ⟨?_, by simp, by simp, by simp, fun _ _ => rfl, fun _ _ _ => Iff.rfl⟩
        obtain ⟨R, Q, S, D, hs⟩ := h.healthy
        exact ⟨R, Q, S, D, hs.advance _⟩
      refine ⟨_, _, rfl, ?_, h.serve hw (o := { s.object n with count := 1 }) Iff.rfl ?_ (h.unit n)
        (fun x hx => absurd (hw.waits_of hx).2 (hempty x)) (haccount 1 0 (by omega))⟩
      · rw [WokeSome.servedThreads h hw]
        simp [SyncState.setObject]
      · exact hmax.ge
    · exact absurd hx (hempty x)
  · obtain ⟨x, p, he, -, hw⟩ := (WokeSome.refl h.healthy (syncQueue n)).wakeOne h.healthy wakeResult
      (by rw [Finset.card_empty]; omega)
    rw [he]
    refine ⟨_, _, rfl, ?_, h.serve hw (o := { s.object n with count := 0 }) Iff.rfl (Nat.zero_le _)
      (h.unit n) (fun _ _ => ⟨hl, rfl⟩) (haccount 0 _ (by simp))⟩
    rw [WokeSome.servedThreads h hw]
    simp [SyncState.setObject]

theorem signalEventManual_spec (hl : (s.object n).state = .live)
    (ht : (s.object n).type = .eventManual) (wakeResult : ℕ) :
    ∃ s₁ woken, signalEventManual s n wakeResult = (.ok, s₁, woken) ∧
      SyncMoves s s₁ (fun m => if m = n then 1 else 0)
        fun m => if m = n then (servedThreads s s₁ n).card else 0 := by
  have hmax : (s.object n).maximum = 1 := h.unit n (by simp [hl]) (by simp [ht])
  obtain ⟨p, woken, he, hp, hempty, hw⟩ := wakeAll_waits h.healthy (syncQueue n) wakeResult
  have he' : kernelThreadWakeAll (s.setObject n fun o => { o with count := 1 }).pool (syncQueue n)
      wakeResult = ((.ok, p), woken) := he
  unfold signalEventManual
  dsimp only
  rw [he']
  have hs := h.change (n := n) (o := { s.object n with count := 1 }) hp Iff.rfl hmax.ge (h.unit n)
    (fun x hx => absurd hx (hempty x)) fun m _ _ x hx => hw x _ hx
  exact ⟨_, _, rfl, .of_change hs ⟨fun h1 => by simp [hl] at h1, fun _ => rfl, fun _ => rfl,
    fun _ h1 => by simp [ht] at h1, fun _ h1 => by simp [ht] at h1⟩⟩

theorem kernelSyncSignal_spec (n releaseCount wakeResult : ℕ) :
    (∃ status, status ≠ .ok ∧ kernelSyncSignal s n releaseCount wakeResult = (status, s, 0)) ∨
      ∃ s₁ woken, kernelSyncSignal s n releaseCount wakeResult = (.ok, s₁, woken) ∧
        ((s.object n).type = .eventAuto →
          (servedThreads s s₁ n).card + (s₁.object n).count ≤ 1) ∧
        SyncMoves s s₁ (fun m => if m = n then releaseCount else 0)
          fun m => if m = n then (servedThreads s s₁ n).card else 0 := by
  unfold kernelSyncSignal
  by_cases hargs : releaseCount = 0 ∨ wakeResult ≠ astraSyscallOk ∨ ¬ validObjectPointer s n
  · exact .inl ⟨_, by simp, if_pos hargs⟩
  rw [if_neg hargs]
  push Not at hargs
  by_cases hc : (s.object n).state = .closing
  · exact .inl ⟨_, by simp, if_pos hc⟩
  rw [if_neg hc]
  by_cases hl : ¬ validLiveObject s n
  · exact .inl ⟨_, by simp, if_pos hl⟩
  rw [if_neg hl]
  have hlive : (s.object n).state = .live := (not_not.1 hl).2.1
  cases ht : (s.object n).type with
  | none => exact .inl ⟨_, by simp, rfl⟩
  | timer => exact .inl ⟨_, by simp, rfl⟩
  | semaphore =>
    rcases signalSemaphore_spec h hargs.2.2.1 hlive ht releaseCount wakeResult with
      h1 | ⟨s₁, woken, he, hm⟩
    · exact .inl h1
    · exact .inr ⟨s₁, woken, he, fun h1 => by simp at h1, hm⟩
  | eventAuto =>
    by_cases hone : releaseCount ≠ 1
    · exact .inl ⟨_, by simp, if_pos hone⟩
    obtain ⟨s₁, woken, he, hle, hm⟩ := signalEventAuto_spec h hlive ht wakeResult
    rw [if_neg hone]
    rw [not_not.1 hone]
    exact .inr ⟨s₁, woken, he, fun _ => hle, hm⟩
  | eventManual =>
    by_cases hone : releaseCount ≠ 1
    · exact .inl ⟨_, by simp, if_pos hone⟩
    obtain ⟨s₁, woken, he, hm⟩ := signalEventManual_spec h hlive ht wakeResult
    rw [if_neg hone]
    rw [not_not.1 hone]
    exact .inr ⟨s₁, woken, he, fun h1 => by simp at h1, hm⟩

theorem SyncSound.timerClear (hl : (s.object n).state = .live)
    (ht : (s.object n).type = .timer) : SyncQuiet s (s.setObject n fun o => { o with count := 0 }) :=
  .of_change (h.change (o := { s.object n with count := 0 }) h.healthy Iff.rfl (Nat.zero_le _)
    (h.unit n) (fun _ _ => ⟨hl, rfl⟩) fun _ _ _ _ hw => hw)
    ⟨fun h1 => by simp [hl] at h1, fun _ => rfl, fun _ => rfl, fun _ h1 => by simp [ht] at h1,
      fun _ h1 => by simp [ht] at h1⟩

theorem SyncSound.timerWake (hl : (s.object n).state = .live)
    (ht : (s.object n).type = .timer) {c : ℕ} (hc : c ≤ 1) (result : ℕ) :
    ∃ p woken, kernelThreadWakeAll (s.setObject n fun o => { o with count := c }).pool (syncQueue n)
        result = ((.ok, p), woken) ∧
      SyncQuiet s ((s.setObject n fun o => { o with count := c }).withPool p) := by
  have hmax : (s.object n).maximum = 1 := h.unit n (by simp [hl]) (by simp [ht])
  exact h.wakeAll (n := n) (o := { s.object n with count := c }) result Iff.rfl (hc.trans hmax.ge)
    (h.unit n) ⟨fun h1 => by simp [hl] at h1, fun _ => rfl, fun _ => rfl,
      fun _ h1 => by simp [ht] at h1, fun _ h1 => by simp [ht] at h1⟩

end

theorem timerRemove_live (s : SyncState) (hl : (s.object n).state = .live)
    (ht : (s.object n).type = .timer) : ((timerRemove s n).2.object n).state = .live ∧
      ((timerRemove s n).2.object n).type = .timer := by
  have hsame := (timerRemove_step s n).object n
  exact ⟨hsame.state.trans hl, hsame.type.trans ht⟩

theorem kernelSyncTimerSet_quiet (h : SyncSound s) (n now deadline : ℕ) (memory : Bool) :
    SyncQuiet s (kernelSyncTimerSet s n now deadline memory).2.1 := by
  unfold kernelSyncTimerSet
  split
  · exact .refl h
  split
  · exact .refl h
  split
  · exact .refl h
  rename_i hl
  split
  · exact .refl h
  rename_i ht
  have hrem := (timerRemove_step s n).quiet h
  obtain ⟨hl₁, ht₁⟩ := timerRemove_live s (not_not.1 hl).2.1 (not_not.1 ht)
  generalize timerRemove s n = r at hrem hl₁ ht₁
  obtain ⟨_ | _, s₁⟩ := r
  · exact hrem
  dsimp only at hrem hl₁ ht₁ ⊢
  have hz := hrem.trans (hrem.sound.timerClear hl₁ ht₁)
  split
  · obtain ⟨p, woken, he, hq⟩ := hz.sound.timerWake (n := n) (c := 1)
      (by simpa [SyncState.setObject] using hl₁) (by simpa [SyncState.setObject] using ht₁) le_rfl
      astraSyscallOk
    rw [he]
    exact hz.trans hq
  · exact hz.trans ((timerInsert_step _ n deadline memory).quiet hz.sound)

theorem kernelSyncTimerCancel_quiet (h : SyncSound s) (n wakeResult : ℕ) :
    SyncQuiet s (kernelSyncTimerCancel s n wakeResult).2.1 := by
  unfold kernelSyncTimerCancel
  split
  · exact .refl h
  split
  · exact .refl h
  split
  · exact .refl h
  rename_i hl
  split
  · exact .refl h
  rename_i ht
  have hrem := (timerRemove_step s n).quiet h
  obtain ⟨hl₁, ht₁⟩ := timerRemove_live s (not_not.1 hl).2.1 (not_not.1 ht)
  generalize timerRemove s n = r at hrem hl₁ ht₁
  obtain ⟨_ | _, s₁⟩ := r
  · exact hrem
  dsimp only at hrem hl₁ ht₁ ⊢
  obtain ⟨p, woken, he, hq⟩ := hrem.sound.timerWake hl₁ ht₁ (Nat.zero_le 1) wakeResult
  rw [he]
  exact hrem.trans hq

theorem expireTimers_quiet (now : ℕ) : ∀ (fuel : ℕ) {s : SyncState} (expired woken : ℕ),
    SyncSound s → SyncQuiet s (expireTimers now fuel s expired woken).2.1
  | 0, s, expired, woken, h => by
    unfold expireTimers
    rcases s.timerHeap.head? with _ | n <;> exact .refl h
  | fuel + 1, s, expired, woken, h => by
    unfold expireTimers
    rcases s.timerHeap.head? with _ | n
    · exact .refl h
    dsimp only
    split
    · exact .refl h
    split
    · exact .refl h
    rename_i hbad
    push Not at hbad
    have hrem := (timerRemove_step s n).quiet h
    obtain ⟨hl₁, ht₁⟩ := timerRemove_live s hbad.1.2.1 hbad.2.1
    generalize timerRemove s n = r at hrem hl₁ ht₁
    obtain ⟨_ | _, s₁⟩ := r
    · exact hrem
    dsimp only at hrem hl₁ ht₁ ⊢
    obtain ⟨p, objectWoken, he, hq⟩ := hrem.sound.timerWake hl₁ ht₁ le_rfl astraSyscallOk
    rw [he]
    exact (hrem.trans hq).trans (expireTimers_quiet now fuel _ _ (hrem.trans hq).sound)

theorem ownerDiedSlots_quiet (owner wakeResult : ℕ) : ∀ (slots : List ℕ) {s : SyncState}
    (closed woken : ℕ), SyncSound s →
      SyncQuiet s (ownerDiedSlots owner wakeResult s slots closed woken).2.1
  | [], _, _, _, h => .refl h
  | n :: slots, s, closed, woken, h => by
    unfold ownerDiedSlots
    split
    · exact ownerDiedSlots_quiet owner wakeResult slots _ _ h
    rename_i hskip
    push Not at hskip
    have hq := closeObject_quiet h (n := n) (by simp [hskip.1]) wakeResult
    generalize closeObject s n wakeResult = r at hq
    obtain ⟨status, s₁, objectWoken⟩ := r
    cases status
    case ok => exact hq.trans (ownerDiedSlots_quiet owner wakeResult slots _ _ hq.sound)
    all_goals exact hq

end

end Astra
