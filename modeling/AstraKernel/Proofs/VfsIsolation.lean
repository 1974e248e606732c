import AstraKernel.Proofs.VfsRuns

/-!
# Sessions and files are kept apart

What the tables say of the calls that are in the backend: each works on the node of an open that its
session, or the holder of a retention, has under the handle it named, and that was not closed.
-/

namespace Astra

open Function List

/-- The nodes a call has the backend work on, by the names it was given for them. -/
def VfsPoint.nodeCalls : VfsPoint → List (FileName × ℕ)
  | .fileCall _ name _ _ node => [(name, node)]
  | .openCall _ session request _ _ directory =>
    (baseFile session request.file directory).map fun h => (h.name, h.node)
  | .pathCall frame session request bases =>
    (bases.files session request.file (secondId frame.operation request)).map
      fun h => (h.name, h.node)
  | _ => []

/-- The backend works for this caller on the node of this open. -/
def WorksOn (s : AstraVfsService) (name : FileName) (node : ℕ) (o : BackendOpen) : Prop :=
  o.node = node ∧ o.closes = 0 ∧ o.handle = name.id ∧
    ∀ session handle, name = .handle session handle →
      o.session = session ∧ ∃ i < s.sessionCapacity, (s.sessions i).id = session

/-- The isolation of sessions and files, in a world. -/
structure Isolated (w : VfsWorld) : Prop where
  calls : ∀ p ∈ w.points, ∀ c ∈ p.nodeCalls, ∃ o ∈ w.service.opens, WorksOn w.service c.1 c.2 o
  handles : ∀ (k k' : ℕ) (o o' : BackendOpen), w.service.opens[k]? = some o →
    w.service.opens[k']? = some o' → o.handle = o'.handle → k = k'
  closings : ∀ closer f node, VfsPoint.closeCall closer f node ∈ w.points →
    ∃ o ∈ w.service.opens, o.node = node ∧ o.closes = 1
  closes : ∀ o ∈ w.service.opens, o.closes ≤ 1
  gone : ∀ o ∈ w.service.opens, (∀ i < w.service.sessionCapacity,
    (w.service.sessions i).id ≠ o.session) → o.handle ∉ w.tokens → o.closes = 1
  openFiles : w.service.openFiles =
    ((Finset.range w.service.fileHighWater).filter fun f => (w.service.files f).state ≠ .free).card
  sessionFiles : ∀ i < w.service.sessionCapacity, (w.service.sessions i).id ≠ 0 →
    (w.service.sessions i).openFiles = ((Finset.range w.service.fileHighWater).filter
      fun f => (w.service.files f).session = (w.service.sessions i).id).card
  openSessions : w.service.openSessions = ((Finset.range w.service.sessionCapacity).filter
    fun i => (w.service.sessions i).id ≠ 0).card

section

variable {s : AstraVfsService} {R : VfsOwned} {f : ℕ}

namespace VfsOwned

@[simp] theorem mem_holdAll (R : VfsOwned) (l : List HeldFile) (h : HeldFile) :
    h ∈ (R.holdAll l).held ↔ h ∈ l ∨ h ∈ R.held := by
  induction l with
  | nil => simp [holdAll]
  | cons a l ih =>
    change h ∈ a ::ₘ (R.holdAll l).held ↔ _
    rw [Multiset.mem_cons, ih, mem_cons, or_assoc]

end VfsOwned

theorem VfsPoint.nodeCalls_held {p : VfsPoint} {c : FileName × ℕ} (hc : c ∈ p.nodeCalls) :
    ∃ h : HeldFile, (h.name, h.node) = c ∧ ∀ R, h ∈ (p.over R).held := by
  cases p with
  | fileCall frame name work f node =>
    obtain rfl : c = (name, node) := by simpa [VfsPoint.nodeCalls] using hc
    exact ⟨⟨f, node, name⟩, rfl, fun _ => Multiset.mem_cons_self _ _⟩
  | openCall frame session request i f directory =>
    obtain ⟨h, hh, rfl⟩ := mem_map.1 hc
    exact ⟨h, rfl, fun _ => (VfsOwned.mem_holdAll _ _ _).2 (.inl hh)⟩
  | pathCall frame session request bases =>
    obtain ⟨h, hh, rfl⟩ := mem_map.1 hc
    exact ⟨h, rfl, fun _ => (VfsOwned.mem_holdAll _ _ _).2 (.inl hh)⟩
  | _ => simp [VfsPoint.nodeCalls] at hc

variable {o : BackendOpen}

section

variable (h : VfsSound s R)
include h

theorem VfsSound.current_handle {crew : VfsOwned}
    (hlive : (s.files f).Live) (hcur : Current s crew f (s.files f) o) :
    o.handle = handleMake f (s.files f).generation := by
  obtain ⟨hget, hslot, _, huse, _⟩ := hcur
  have hf := (h.slot f).lt hlive.1
  rw [(h.opens.handles _ o hget).2.2, hslot, huse, (h.slot f).generation hf]

theorem VfsSound.held_works {e : HeldFile} (he : e ∈ R.held) :
    ∃ o ∈ s.opens, WorksOn s e.name e.node o := by
  have hs := h.slot e.f
  have hmem : e ∈ (R.at_ e.f).held := Multiset.mem_filter.2 ⟨he, rfl⟩
  obtain ⟨hlive, hnode, hname, hsession⟩ := hs.holds e hmem
  have hactive : (s.files e.f).active = true := by
    by_contra hn
    simp [hs.not_held (by simpa using hn)] at hmem
  obtain ⟨o, hcur⟩ := hs.current hlive
  have hidle : (R.at_ e.f).closing.countP (·.backend ≠ none) = 0 := by
    refine Multiset.countP_eq_zero.2 fun c hc hb => ?_
    obtain ⟨node, hnode⟩ := Option.ne_none_iff_exists'.1 hb
    simp [((hs.closes c hc).1 node hnode).1] at hactive
  refine ⟨o, mem_of_getElem? hcur.1, hcur.2.2.1.trans hnode, hcur.2.2.2.2.2.trans hidle,
    (h.current_handle hlive hcur).trans hname.symm, fun session handle hn => ?_⟩
  obtain ⟨hse, h0⟩ := hsession session handle hn
  rw [← hse] at h0
  exact ⟨(hcur.2.2.2.2.1 h0).trans hse, hse ▸ hs.session h0⟩

theorem VfsSound.open_cases {k : ℕ} (ho : s.opens[k]? = some o) :
    o.closes = 1 ∧ o.use < s.reuses o.slot ∨
      (s.files o.slot).Live ∧ Current s (R.at_ o.slot) o.slot (s.files o.slot) o := by
  rcases h.opens.settled k o ho with ⟨hk, hlive, _⟩ | hdone
  · refine .inr ⟨hlive, ?_⟩
    obtain ⟨o', hcur⟩ := (h.slot o.slot).current hlive
    have : o' = o := Option.some.inj (hcur.1.symm.trans (hk ▸ ho))
    exact this ▸ hcur
  · exact .inl hdone

theorem VfsSound.closes_le (ho : o ∈ s.opens) : o.closes ≤ 1 := by
  obtain ⟨k, hk⟩ := mem_iff_getElem?.1 ho
  rcases h.open_cases hk with ⟨hc, _⟩ | ⟨_, hcur⟩
  · exact hc.le
  · rw [hcur.2.2.2.2.2]
    refine (Multiset.countP_le_card _ _).trans ?_
    rw [(h.slot o.slot).closing]
    split_ifs <;> omega

theorem VfsSound.gone_closed (ho : o ∈ s.opens)
    (hsession : ∀ i < s.sessionCapacity, (s.sessions i).id ≠ o.session)
    (htoken : o.handle ∉ R.tokens) : o.closes = 1 := by
  obtain ⟨k, hk⟩ := mem_iff_getElem?.1 ho
  rcases h.open_cases hk with ⟨hc, _⟩ | ⟨hlive, hcur⟩
  · exact hc
  have hs := h.slot o.slot
  have hnot : (s.files o.slot).retained = false := by
    by_contra hret
    rw [Bool.not_eq_false] at hret
    exact htoken (h.current_handle hlive hcur ▸ h.token_mem hret)
  have h0 : (s.files o.slot).session = 0 := by
    by_contra hse
    obtain ⟨i, hi, hid⟩ := hs.session hse
    exact hsession i hi (hid.trans (hcur.2.2.2.2.1 hse).symm)
  -- A file without a session is detached or has its retention released: it is retained.
  exfalso
  cases hstate : (s.files o.slot).state with
  | free => exact hlive.1 hstate
  | opening => exact hlive.2 hstate
  | isOpen => exact hs.owned (.inl hstate) h0
  | detached => simp [(hs.detached hstate).2] at hnot
  | closing =>
    have hcard := hs.closing
    rw [if_pos hstate] at hcard
    obtain ⟨e, he⟩ := Multiset.card_eq_one.1 hcard
    have hcloses := (hs.closes e (he ▸ Multiset.mem_singleton_self e)).2
    cases hcloser : e.closer with
    | request frame =>
      rw [hcloser] at hcloses
      exact hcloses.1 h0
    | reap i session after =>
      rw [hcloser] at hcloses
      exact hcloses.1 (hcloses.2.1.symm.trans h0)
    | release token =>
      rw [hcloser] at hcloses
      simp [hcloses.2.1] at hnot

end

theorem VfsSound.closing_open {closer : Closer} {node : ℕ}
    (h : VfsSound s (R.close ⟨f, closer, some node⟩)) : ∃ o ∈ s.opens, o.node = node ∧ o.closes = 1 := by
  obtain ⟨hcloses, hnone, hclosing⟩ := h.closesFile (f := f) rfl
  obtain ⟨o, hcur⟩ := (h.closingSlot (f := f) rfl).current (by constructor <;> simp [hclosing])
  refine ⟨o, mem_of_getElem? hcur.1, hcur.2.2.1.trans (hcloses.1 node rfl).2, ?_⟩
  have := hcur.2.2.2.2.2
  rwa [VfsOwned.close, Multiset.countP_cons_of_pos _ (by simp), hnone] at this

theorem VfsSound.handles_inj (h : VfsSound s R) (hreuse : ∀ f, s.reuses f < 65535) {k k' : ℕ}
    {o' : BackendOpen} (ho : s.opens[k]? = some o) (ho' : s.opens[k']? = some o')
    (he : o.handle = o'.handle) : k = k' := by
  have huse : ∀ (j : ℕ) (b : BackendOpen), s.opens[j]? = some b → b.use < 65535 := by
    intro j b hb
    have hf := hreuse b.slot
    rcases h.open_cases hb with ⟨_, hu⟩ | ⟨_, hcur⟩
    · omega
    · exact hcur.2.2.2.1 ▸ hf
  obtain ⟨hf, _, hh⟩ := h.opens.handles k o ho
  obtain ⟨hf', _, hh'⟩ := h.opens.handles k' o' ho'
  have h₁ := h.handle_lt hf
  have h₂ := h.handle_lt hf'
  have hslot : o.slot = o'.slot := by
    rw [← handleSlot_make h₁ (generationAfter o.use), ← handleSlot_make h₂ (generationAfter o'.use),
      ← hh, ← hh', he]
  have hgen : generationAfter o.use = generationAfter o'.use := by
    rw [← handleGeneration_make h₁ (generationAfter o.use), ← hh, he, hh',
      handleGeneration_make h₂]
  exact h.opens.distinct k k' o o' ho ho' hslot
    (generationAfter_inj (huse k o ho) (huse k' o' ho') hgen)

end

variable {w : VfsWorld}

theorem WorldSound.isolated (h : WorldSound w) (hw : NoWrap w.service) : Isolated w := by
  obtain ⟨n, -, hs⟩ := h
  -- What one call owns, beside the rest.
  have hpoint : ∀ p ∈ w.points, ∃ R, (⟨n, 0, 0, 0, 0, 0⟩ + ownedBy w.tokens w.points : VfsOwned) =
      p.over R := by
    intro p hp
    obtain ⟨k, hk⟩ := mem_iff_getElem?.1 hp
    refine ⟨ownedBy w.tokens (w.points.eraseIdx k) + ⟨n, 0, 0, 0, 0, 0⟩, ?_⟩
    rw [VfsPoint.over_add, ← ownedBy_eraseIdx w.tokens hk, add_comm]
  have htokens : (⟨n, 0, 0, 0, 0, 0⟩ + ownedBy w.tokens w.points : VfsOwned).tokens = w.tokens := by
    rw [VfsOwned.slots_add]
    exact ownedBy_tokens _ _
  refine ⟨fun p hp c hc => ?_, fun k k' o o' ho ho' he => hs.handles_inj hw.1 ho ho' he,
    fun closer f node hp => ?_, fun o ho => hs.closes_le ho, fun o ho hse ht => ?_, hs.openFiles,
    hs.sessionFiles, hs.sessions.live⟩
  · obtain ⟨R, hR⟩ := hpoint p hp
    obtain ⟨h, rfl, hh⟩ := VfsPoint.nodeCalls_held hc
    exact hs.held_works (hR ▸ hh R)
  · obtain ⟨R, hR⟩ := hpoint _ hp
    rw [hR] at hs
    exact hs.closing_open
  · refine hs.gone_closed ho hse fun hm => ht ?_
    rw [htokens] at hm
    exact hm

theorem along_take {P : VfsWorld → Prop} {evs : List VfsEvent}
    (h : ∀ n, P (w.run (evs.take n))) : VfsWorld.Along (fun w _ => P w) w evs := by
  induction evs generalizing w with
  | nil => trivial
  | cons ev evs ih => exact ⟨h 0, ih fun n => h (n + 1)⟩

theorem WorldSound.token_live (h : WorldSound w) (hw : NoWrap w.service)
    {ev : VfsEvent} {s : AstraVfsService} {frame : Frame} {token f node : ℕ} {work : FileWork}
    (hr : w.stretch ev = some (s, .park (.fileCall frame (.token token) work f node))) :
    token ∈ w.tokens := by
  have hm := (h.stretch hw hr).2
  change token ∈ (ownedBy w.tokens (w.others ev)).tokens at hm
  rw [ownedBy_tokens] at hm
  exact hm

/-- Along every run of the service in which neither the ids of the sessions nor the generations of
the slots come round, sessions and files are isolated, and a retention lets its holder work on a file
as long as the holder has it. -/
theorem vfsService_isolation {sessionCapacity fileCapacity : ℕ}
    (hf : fileCapacity ≤ astraVfsFileHandleMax) (limit : ℕ) (stateWait tryLock : Bool)
    (evs : List VfsEvent)
    (hw : ∀ n, NoWrap
      ((vfsBoot sessionCapacity fileCapacity limit stateWait tryLock).run (evs.take n)).service) :
    Isolated ((vfsBoot sessionCapacity fileCapacity limit stateWait tryLock).run evs) ∧
      ∀ ev s frame token work f node,
        ((vfsBoot sessionCapacity fileCapacity limit stateWait tryLock).run evs).stretch ev =
            some (s, .park (.fileCall frame (.token token) work f node)) →
          token ∈ ((vfsBoot sessionCapacity fileCapacity limit stateWait tryLock).run evs).tokens := by
  have hend := hw evs.length
  rw [take_length] at hend
  have hs := (vfsBoot_sound hf limit stateWait tryLock).run (along_take hw)
  exact ⟨hs.isolated hend, fun _ _ _ _ _ _ _ hr => hs.token_live hend hr⟩

/-- A request with its paths in the first bytes of the transfer area. -/
def vfsRequest (session : ℕ) (flags : BitVec 32) (file secondFile : ℕ)
    (paths : AstraVfsPathFields) : AstraVfsRequest :=
  ⟨⟨256, file, secondFile, 0, paths⟩, astraVfsVersion, session, flags, 0, 0⟩

def vfsHello : VfsEvent :=
  .start (.dispatch 1 0 0 astraVfsOpHello (vfsRequest 0 0 0 0 ⟨0, 0, 0, 0⟩) none)

def vfsOpen (session : ℕ) : VfsEvent :=
  .start (.dispatch 1 0 0 astraVfsOpOpen (vfsRequest session astraVfsOpenRead 0 0 ⟨0, 2, 0, 0⟩)
    (some [97, 0]))

/-- The backend answers the call at a point with this node. -/
def vfsAnswer (k node : ℕ) (kind : AstraVfsKind) : VfsEvent :=
  .resume k ⟨true, .ok, node, kind, 0⟩

/-- A session opens a file and reads its node. -/
def vfsReading : List VfsEvent :=
  [vfsHello, vfsOpen 1, vfsAnswer 0 10 .file, .start (.readInto 1 0x10001 1)]

theorem vfsReading_noWrap (n : ℕ) :
    NoWrap ((vfsBoot 2 2 0 true false).run (vfsReading.take n)).service := by
  match n with
  | 0 => exact ⟨fun f => by change 0 < 65535; decide, by decide⟩
  | 1 => exact ⟨fun f => by change 0 < 65535; decide, by decide⟩
  | 2 => exact ⟨fun f => by change 0 < 65535; decide, by decide⟩
  | 3 => exact ⟨fun f => by change 0 < 65535; decide, by decide +kernel⟩
  | n + 4 =>
    rw [take_of_length_le (by simp [vfsReading])]
    exact ⟨fun f => by change 0 < 65535; decide, by decide +kernel⟩

example : ((vfsBoot 2 2 0 true false).run vfsReading).points =
    [.fileCall (.direct 0) (.handle 1 0x10001) (.read 1) 0 10] := by
  decide +kernel

theorem vfsService_isolation_reading :
    Isolated ((vfsBoot 2 2 0 true false).run vfsReading) :=
  (vfsService_isolation (by decide) 0 true false vfsReading vfsReading_noWrap).1

end Astra
