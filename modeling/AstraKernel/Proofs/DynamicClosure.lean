import AstraKernel.Proofs.DynamicTokens

/-!
# The closure of a program

Opening the closure keeps one image for each identity (`Opened`) and an edge for each entry that was
looked at (`LinkedImages`). It ends, since there are less than `2 ^ 32` images; the lifecycle
follows the edges, and there is none exactly where they have a cycle (`prepare_spec`).
-/

namespace Astra

open List

variable {Token : Type} {answers : DynamicAnswers Token}

/-! ## Growing arrays -/

theorem doubleTo_le {limit minimum : ℕ} : ∀ {fuel capacity c : ℕ},
    doubleTo limit fuel capacity minimum = some c → c ≤ max capacity (2 * limit)
  | 0, _, _, h => by simp [doubleTo] at h
  | fuel + 1, capacity, c, h => by
    rw [doubleTo] at h
    split_ifs at h with h1 h2
    · cases h
      exact le_max_left _ _
    · have := doubleTo_le h
      omega

structure Allocated (trace trace' : DynamicTrace Token) : Prop where
  opened : trace'.opened = trace.opened
  obtained : trace'.obtained = trace.obtained
  finished : trace'.finished = trace.finished

theorem Allocated.refl (trace : DynamicTrace Token) : Allocated trace trace := ⟨rfl, rfl, rfl⟩

theorem Allocated.trans {trace trace' trace'' : DynamicTrace Token} (h : Allocated trace trace')
    (h' : Allocated trace' trace'') : Allocated trace trace'' :=
  ⟨h'.opened.trans h.opened, h'.obtained.trans h.obtained, h'.finished.trans h.finished⟩

theorem growArray_spec (answers : DynamicAnswers Token) (trace : DynamicTrace Token)
    {capacity : ℕ} (needed : ℕ) (hc : capacity < 2 ^ 32) :
    Allocated trace (growArray answers trace capacity needed).2 ∧
      ∀ next, (growArray answers trace capacity needed).1 = some next →
        needed ≤ next ∧ next < 2 ^ 32 := by
  unfold growArray
  split
  · rename_i hn
    refine ⟨.refl trace, ?_⟩
    rintro next hnext
    cases hnext
    exact ⟨hn, hc⟩
  rcases hd : doubleTo ((2 ^ 32 - 1) / 2) 34 (if capacity ≠ 0 then capacity else 4) needed with _ | next
  · exact ⟨.refl trace, nofun⟩
  · refine ⟨⟨rfl, rfl, rfl⟩, ?_⟩
    rintro next' hnext
    split_ifs at hnext
    cases hnext
    refine ⟨doubleTo_ge hd, (doubleTo_le hd).trans_lt ?_⟩
    split_ifs
    · omega
    · simp

theorem growImages_spec (answers : DynamicAnswers Token) (trace : DynamicTrace Token)
    (process : AstraDynamicProcess Token) (needed : ℕ) (hi : process.imageCapacity < 2 ^ 32)
    (hd : process.identityCapacity < 2 ^ 32) (ht : process.tokenCapacity < 2 ^ 32) :
    Allocated trace (growImages answers trace process needed).2 ∧
      ∀ process', (growImages answers trace process needed).1 = some process' →
        ∃ i d t, process' = { process with
            imageCapacity := i, identityCapacity := d, tokenCapacity := t } ∧
          needed ≤ i ∧ i < 2 ^ 32 ∧ d < 2 ^ 32 ∧ t < 2 ^ 32 := by
  unfold growImages
  obtain ⟨ha, hroom⟩ := growArray_spec answers trace needed hi
  rcases hg : growArray answers trace process.imageCapacity needed with ⟨_ | i, trace₁⟩ <;>
    rw [hg] at ha hroom
  · exact ⟨ha, nofun⟩
  obtain ⟨ha₁, hroom₁⟩ := growArray_spec answers trace₁ needed hd
  dsimp only
  rcases hg₁ : growArray answers trace₁ process.identityCapacity needed with ⟨_ | d, trace₂⟩ <;>
    rw [hg₁] at ha₁ hroom₁
  · exact ⟨ha.trans ha₁, nofun⟩
  obtain ⟨ha₂, hroom₂⟩ := growArray_spec answers trace₂ needed ht
  dsimp only
  rcases hg₂ : growArray answers trace₂ process.tokenCapacity needed with ⟨_ | t, trace₃⟩ <;>
    rw [hg₂] at ha₂ hroom₂
  · exact ⟨(ha.trans ha₁).trans ha₂, nofun⟩
  refine ⟨(ha.trans ha₁).trans ha₂, ?_⟩
  rintro process' hp
  cases hp
  exact ⟨i, d, t, rfl, (hroom i rfl).1, (hroom i rfl).2, (hroom₁ d rfl).2, (hroom₂ t rfl).2⟩

/-! ## Opening -/

variable {program : AstraDynamicImage} {process : AstraDynamicProcess Token}
  {trace : DynamicTrace Token}

structure Opened (program : AstraDynamicImage) (process : AstraDynamicProcess Token)
    (trace : DynamicTrace Token) : Prop where
  program : process.images.head? = some program
  identities : process.identities = none :: trace.opened.map some
  sonames : process.images.tail.map AstraDynamicImage.soname = trace.opened.map some
  tokens : process.tokens = none :: trace.obtained.map some
  nodup : trace.opened.Nodup
  finished : trace.finished = []
  committed : process.committed = false
  room : process.images.length ≤ process.imageCapacity
  imageCapacity : process.imageCapacity < 2 ^ 32
  identityCapacity : process.identityCapacity < 2 ^ 32
  tokenCapacity : process.tokenCapacity < 2 ^ 32
  edgeCapacity : process.edgeCapacity < 2 ^ 32

structure Abandoned (process : AstraDynamicProcess Token) (trace : DynamicTrace Token) : Prop where
  nodup : trace.opened.Nodup
  committed : process.committed = false
  account : trace.obtained.Perm ((process.tokens.drop 1).filterMap id ++ finishedTokens trace)
  rolled : ∀ event ∈ trace.finished, event.commit = false

def Outcome (goes : AstraDynamicProcess Token → DynamicTrace Token → Prop)
    (preparation : Preparation Token) : Prop :=
  match preparation with
  | (some status, process, trace) => status ≠ astraSyscallOk ∧ Abandoned process trace
  | (none, process, trace) => goes process trace

section

variable (h : Opened program process trace)
include h

theorem Opened.length : process.images.length = trace.opened.length + 1 := by
  have hlength := congrArg List.length h.sonames
  obtain ⟨libraries, hl⟩ := List.head?_eq_some_iff.1 h.program
  rw [hl] at hlength ⊢
  simpa using hlength

theorem Opened.abandoned : Abandoned process trace := by
  refine ⟨h.nodup, h.committed, ?_, by simp [h.finished]⟩
  simp [h.tokens, finishedTokens, h.finished]

theorem Abandoned.finish {trace' : DynamicTrace Token}
    {token : Option Token} (hnodup : trace'.opened.Nodup)
    (ho : trace'.obtained = trace.obtained ++ token.toList) (hf : trace'.finished = trace.finished) :
    Abandoned process (finishToken answers trace' token false).2 := by
  rw [finishToken_eq]
  refine ⟨hnodup, h.committed, ?_, by simp [hf, h.finished]⟩
  rw [DynamicTrace.finish_obtained, ho, finishedTokens_finish, finishedTokens, hf, h.finished, h.tokens]
  cases token <;> simp

end

variable {image : AstraDynamicImage} {identity : CString} {i owner : ℕ}

theorem findIdentity_some {dependency : ℕ} (h : findIdentity process identity = some dependency) :
    1 ≤ dependency ∧ dependency < process.images.length ∧
      process.identities[dependency]? = some (some identity) := by
  have hfound := List.find?_some h
  have hmem := mem_of_find?_eq_some h
  simp only [decide_eq_true_eq] at hfound
  exact ⟨hfound.1, mem_range.1 hmem, hfound.2⟩

theorem Opened.new (h : Opened program process trace)
    (hn : findIdentity process identity = none) : identity ∉ trace.opened := by
  intro hmem
  obtain ⟨i, hi, hat⟩ := getElem_of_mem hmem
  have hlength := h.length
  have hno := List.find?_eq_none.1 hn (i + 1) (mem_range.2 (by omega))
  simp [h.identities, hi, hat] at hno

theorem openDependency_spec (answers : DynamicAnswers Token) (h : Opened program process trace)
    (hnew : identity ∉ trace.opened) :
    Outcome (fun process' trace' => Opened program process' trace' ∧
        trace'.opened = trace.opened ++ [identity] ∧ process'.edges = process.edges ∧
        ∃ image, process'.images = process.images ++ [image])
      (openDependency answers trace process identity) := by
  have hnodup : (trace.opened ++ [identity]).Nodup := by
    rw [nodup_append]
    refine ⟨h.nodup, nodup_singleton _, ?_⟩
    rintro a ha b hb rfl
    rw [mem_singleton.1 hb] at ha
    exact hnew ha
  unfold openDependency
  generalize answers.openImage trace.opened.length identity = answer
  obtain ⟨status, image, token⟩ := answer
  dsimp only
  split
  · rename_i hstatus
    refine ⟨hstatus, ⟨hnodup, h.committed, ?_, by simp [h.finished]⟩⟩
    simp [h.tokens, finishedTokens, h.finished]
  split
  · exact ⟨by decide, .finish h hnodup rfl rfl⟩
  rename_i hbad
  push Not at hbad
  obtain ⟨htoken, hsoname⟩ := hbad
  obtain ⟨token, rfl⟩ := Option.ne_none_iff_exists'.1 htoken
  obtain ⟨hallocated, hroom⟩ := growImages_spec answers
    { trace with
      opened := trace.opened ++ [identity]
      obtained := trace.obtained ++ (some token).toList }
    process (process.images.length + 1) h.imageCapacity h.identityCapacity h.tokenCapacity
  split
  · next trace' hg =>
    rw [hg] at hallocated
    exact ⟨by decide, .finish h (by rw [hallocated.opened]; exact hnodup) hallocated.obtained
      hallocated.finished⟩
  · next process' trace' hg =>
    rw [hg] at hallocated hroom
    obtain ⟨i, d, t, rfl, hi, hi', hd, ht⟩ := hroom process' rfl
    have hopened : trace'.opened = trace.opened ++ [identity] := hallocated.opened
    have hobtained : trace'.obtained = trace.obtained ++ [token] := hallocated.obtained
    obtain ⟨libraries, hl⟩ := List.head?_eq_some_iff.1 h.program
    refine ⟨⟨?_, ?_, ?_, ?_, ?_, hallocated.finished.trans h.finished, h.committed, ?_, hi', hd, ht,
      h.edgeCapacity⟩, hopened, rfl, image, rfl⟩
    · simp [hl]
    · simp [h.identities, hopened, hsoname]
    · have hsonames := h.sonames
      rw [hl] at hsonames
      simpa [hl, hopened, hsoname] using hsonames
    · simp [h.tokens, hobtained]
    · rw [hopened]
      exact hnodup
    · simpa using hi

/-! ## Edges -/

/-- An entry of an image has an edge to the image with its identity. -/
def Needs (process : AstraDynamicProcess Token) (owner : ℕ) (need : Option CString) : Prop :=
  ∃ identity dependency, need = some identity ∧ (owner, dependency) ∈ process.edges ∧
    process.identities[dependency]? = some (some identity)

def ReachesImage (process : AstraDynamicProcess Token) : ℕ → ℕ → Prop :=
  Relation.ReflTransGen fun owner dependency => (owner, dependency) ∈ process.edges

/-- Every edge is that of an entry, and every image is reached from the program. -/
structure LinkedImages (process : AstraDynamicProcess Token) : Prop where
  edges : ∀ edge ∈ process.edges, edge.1 < process.images.length ∧
    edge.2 < process.images.length ∧ ∃ image identity, process.images[edge.1]? = some image ∧
      some identity ∈ image.needed ∧ process.identities[edge.2]? = some (some identity)
  reached : ∀ i < process.images.length, ReachesImage process 0 i

structure Extends (process process' : AstraDynamicProcess Token) : Prop where
  images : process.images <+: process'.images
  identities : process.identities <+: process'.identities
  edges : process.edges ⊆ process'.edges

theorem Extends.refl (process : AstraDynamicProcess Token) : Extends process process :=
  ⟨prefix_refl _, prefix_refl _, List.Subset.refl _⟩

theorem Extends.trans {process' process'' : AstraDynamicProcess Token} (h : Extends process process')
    (h' : Extends process' process'') : Extends process process'' :=
  ⟨h.images.trans h'.images, h.identities.trans h'.identities,
    List.Subset.trans h.edges h'.edges⟩

theorem extends_getElem {α : Type*} {l l' : List α} {a : α} (h : l <+: l')
    (hi : l[i]? = some a) : l'[i]? = some a := by
  obtain ⟨rest, rfl⟩ := h
  rw [List.getElem?_append_left (List.getElem?_eq_some_iff.1 hi).1, hi]

theorem Needs.extends {process' : AstraDynamicProcess Token} {need : Option CString}
    (h : Needs process owner need) (he : Extends process process') : Needs process' owner need := by
  obtain ⟨identity, dependency, hneed, hedge, hidentity⟩ := h
  exact ⟨identity, dependency, hneed, he.edges hedge, extends_getElem he.identities hidentity⟩

theorem ReachesImage.extends {process' : AstraDynamicProcess Token} {j : ℕ} (h : ReachesImage process i j)
    (he : Extends process process') : ReachesImage process' i j :=
  Relation.ReflTransGen.mono (fun _ _ hedge => he.edges hedge) _ _ h

theorem appendEdge_spec (answers : DynamicAnswers Token) (h : Opened program process trace)
    (owner dependency : ℕ) :
    ((appendEdge answers trace process owner dependency).1 = none →
      Abandoned process (appendEdge answers trace process owner dependency).2) ∧
    ∀ process', (appendEdge answers trace process owner dependency).1 = some process' →
      Opened program process' (appendEdge answers trace process owner dependency).2 ∧
      process'.images = process.images ∧ process'.identities = process.identities ∧
      ∀ edge, edge ∈ process'.edges ↔ edge ∈ process.edges ∨ edge = (owner, dependency) := by
  unfold appendEdge
  split
  · rename_i hmem
    refine ⟨fun hn => (Option.some_ne_none _ hn).elim, ?_⟩
    rintro process' hp
    cases hp
    exact ⟨h, rfl, rfl, fun edge => ⟨.inl, fun he => he.elim id fun he => he ▸ hmem⟩⟩
  obtain ⟨hallocated, hroom⟩ := growArray_spec answers trace (process.edges.length + 1)
    h.edgeCapacity
  rcases hg : growArray answers trace process.edgeCapacity (process.edges.length + 1) with
    ⟨_ | capacity, trace'⟩ <;> rw [hg] at hallocated hroom
  · refine ⟨fun _ => ?_, fun _ hp => by cases hp⟩
    have ho := hallocated.obtained
    have hn := hallocated.opened
    have hf := hallocated.finished
    have habandoned := h.abandoned
    refine ⟨by rw [hn]; exact h.nodup, h.committed, ?_, by rw [hf]; simp [h.finished]⟩
    rw [ho, finishedTokens, hf]
    exact habandoned.account
  · refine ⟨fun hn => (Option.some_ne_none _ hn).elim, ?_⟩
    rintro process' hp
    cases hp
    refine ⟨⟨h.program, ?_, ?_, ?_, ?_, hallocated.finished.trans h.finished, h.committed, h.room,
      h.imageCapacity, h.identityCapacity, h.tokenCapacity, (hroom capacity rfl).2⟩, rfl, rfl,
      fun edge => by simp⟩
    · rw [hallocated.opened]
      exact h.identities
    · rw [hallocated.opened]
      exact h.sonames
    · rw [hallocated.obtained]
      exact h.tokens
    · rw [hallocated.opened]
      exact h.nodup

theorem needDependency_spec (answers : DynamicAnswers Token) (h : Opened program process trace)
    (hl : LinkedImages process)
    (ho : process.images[owner]? = some image) (hi : some identity ∈ image.needed) :
    Outcome (fun process' trace' => Opened program process' trace' ∧ LinkedImages process' ∧
        Extends process process' ∧ Needs process' owner (some identity))
      (needDependency answers trace process owner identity) := by
  have howner := (List.getElem?_eq_some_iff.1 ho).1
  -- What follows where the dependency is among the images, the last of which may have no edge yet.
  have hconnect : ∀ {opened : AstraDynamicProcess Token} {trace₁ : DynamicTrace Token}
      {dependency : ℕ}, Opened program opened trace₁ → Extends process opened →
      opened.edges = process.edges → dependency < opened.images.length →
      opened.identities[dependency]? = some (some identity) →
      (∀ i < opened.images.length, i < process.images.length ∨ i = dependency) →
      ∀ {answer}, appendEdge answers trace₁ opened owner dependency = answer →
      Outcome (fun process' trace' => Opened program process' trace' ∧ LinkedImages process' ∧
          Extends process process' ∧ Needs process' owner (some identity))
        (answer.1.elim (some astraSyscallOutOfMemory, opened, answer.2) fun process =>
          (none, process, answer.2)) := by
    intro opened trace₁ dependency hopened hext hedges hdependency hidentity hlast answer ha
    obtain ⟨hnone, hsome⟩ := appendEdge_spec answers hopened owner dependency
    rcases answer with ⟨_ | process', trace'⟩ <;> rw [ha] at hnone hsome
    · exact ⟨by decide, hnone rfl⟩
    · obtain ⟨hopened', himages, hidentities, hedges'⟩ := hsome process' rfl
      have hext' : Extends opened process' :=
        ⟨by rw [himages], by rw [hidentities], fun edge he => (hedges' edge).2 (.inl he)⟩
      have hedge := (hedges' (owner, dependency)).2 (.inr rfl)
      have hext'' := hext.trans hext'
      refine ⟨hopened', ⟨?_, ?_⟩, hext'', ⟨identity, dependency, rfl, hedge, ?_⟩⟩
      · intro edge he
        have hlength := hext''.images.length_le
        rcases (hedges' edge).1 he with he | rfl
        · rw [hedges] at he
          obtain ⟨hfrom, hto, image', identity', hat, hneed, hid⟩ := hl.edges edge he
          exact ⟨by omega, by omega, image', identity', extends_getElem hext''.images hat, hneed,
            extends_getElem hext''.identities hid⟩
        · exact ⟨by dsimp only; omega, by rw [himages]; exact hdependency, image, identity,
            extends_getElem hext''.images ho, hi, by rw [hidentities]; exact hidentity⟩
      · intro i hlt
        rw [himages] at hlt
        rcases hlast i hlt with hold | rfl
        · exact (hl.reached i hold).extends hext''
        · exact ((hl.reached owner howner).extends hext'').tail hedge
      · rw [hidentities]
        exact hidentity
  unfold needDependency
  rcases hf : findIdentity process identity with _ | dependency
  · have hnew := h.new hf
    have hspec := openDependency_spec answers h hnew
    rcases hopen : openDependency answers trace process identity with ⟨_ | status, opened, trace₁⟩ <;>
      rw [hopen] at hspec
    · obtain ⟨hopened, hn, hedges, image', himages⟩ := hspec
      have hlength := h.length
      have hlength' : opened.images.length = process.images.length + 1 := by
        simp [himages]
      have hidentities : opened.identities = process.identities ++ [some identity] := by
        simp [hopened.identities, h.identities, hn]
      have hidentity : opened.identities[opened.images.length - 1]? = some (some identity) := by
        rw [hidentities, List.getElem?_append_right (by rw [h.identities]; simp; omega)]
        simp [hlength', h.identities, hlength]
      have hconnected := hconnect hopened ⟨by rw [himages]; exact prefix_append _ _,
        by rw [hidentities]; exact prefix_append _ _, by rw [hedges]; exact List.Subset.refl _⟩
        hedges (by omega) hidentity (fun i hlt => by omega) rfl
      revert hconnected
      dsimp only
      rcases appendEdge answers trace₁ opened owner (opened.images.length - 1) with ⟨_ | _, _⟩ <;>
        exact id
    · exact hspec
  · obtain ⟨-, hdependency, hidentity⟩ := findIdentity_some hf
    have hconnected := hconnect h (.refl process) rfl hdependency hidentity
      (fun i hlt => .inl hlt) rfl
    revert hconnected
    dsimp only
    rcases appendEdge answers trace process owner dependency with ⟨_ | _, _⟩ <;> exact id

theorem needAll_spec (answers : DynamicAnswers Token) :
    ∀ (needed : List (Option CString)) {process : AstraDynamicProcess Token}
      {trace : DynamicTrace Token}, Opened program process trace → LinkedImages process →
    process.images[owner]? = some image → needed ⊆ image.needed →
    Outcome (fun process' trace' => Opened program process' trace' ∧ LinkedImages process' ∧
        Extends process process' ∧ ∀ need ∈ needed, Needs process' owner need)
      (needAll answers owner needed trace process)
  | [], process, trace, h, hl, _, _ => ⟨h, hl, .refl process, by simp⟩
  | none :: needed, process, trace, h, _, _, _ => ⟨by decide, h.abandoned⟩
  | some identity :: needed, process, trace, h, hl, ho, hsub => by
    rw [cons_subset] at hsub
    have hneed := needDependency_spec answers h hl ho hsub.1
    rw [needAll]
    rcases hn : needDependency answers trace process owner identity with
      ⟨_ | status, process', trace'⟩ <;> rw [hn] at hneed
    · obtain ⟨h', hl', hext, hneeds⟩ := hneed
      have hrest := needAll_spec answers needed h' hl' (extends_getElem hext.images ho) hsub.2
      dsimp only
      rcases ha : needAll answers owner needed trace' process' with
        ⟨_ | status, process'', trace''⟩ <;> rw [ha] at hrest
      · obtain ⟨h'', hl'', hext', hall⟩ := hrest
        refine ⟨h'', hl'', hext.trans hext', ?_⟩
        intro need hmem
        rcases mem_cons.1 hmem with rfl | hmem
        · exact hneeds.extends hext'
        · exact hall need hmem
      · exact hrest
    · exact hneed

/-- Every entry of every image has its edge. -/
def Complete (process : AstraDynamicProcess Token) (owners : ℕ) : Prop :=
  ∀ owner < owners, ∀ image, process.images[owner]? = some image →
    ∀ need ∈ image.needed, Needs process owner need

theorem closeFrom_spec (answers : DynamicAnswers Token) : ∀ {fuel owner : ℕ}
    {process : AstraDynamicProcess Token} {trace : DynamicTrace Token},
    Opened program process trace → LinkedImages process → Complete process owner →
    owner ≤ process.images.length → 2 ^ 32 ≤ owner + fuel →
    ∃ preparation, closeFrom answers fuel owner trace process = some preparation ∧
      Outcome (fun process' trace' => Opened program process' trace' ∧ LinkedImages process' ∧
        Complete process' process'.images.length) preparation
  | 0, owner, process, trace, h, _, _, hle, hfuel => by
    have := h.room
    have := h.imageCapacity
    omega
  | fuel + 1, owner, process, trace, h, hl, hc, hle, hfuel => by
    rw [closeFrom]
    rcases hi : process.images[owner]? with _ | image
    · obtain rfl : owner = process.images.length :=
        le_antisymm hle (List.getElem?_eq_none_iff.1 hi)
      exact ⟨_, rfl, h, hl, hc⟩
    · have hall := needAll_spec answers image.needed h hl hi (List.Subset.refl _)
      dsimp only
      rcases ha : needAll answers owner image.needed trace process with
        ⟨_ | status, process', trace'⟩ <;> rw [ha] at hall
      · obtain ⟨h', hl', hext, hneeds⟩ := hall
        have howner := (List.getElem?_eq_some_iff.1 hi).1
        have hlength := hext.images.length_le
        refine closeFrom_spec answers h' hl' ?_ (by omega) (by omega)
        intro o hlt image' hat need hmem
        rcases Nat.lt_succ_iff_lt_or_eq.1 hlt with hlt | rfl
        · have hold : o < process.images.length := by omega
          have hat' := extends_getElem hext.images (List.getElem?_eq_getElem hold)
          cases hat'.symm.trans hat
          exact (hc o hlt _ (List.getElem?_eq_getElem hold) need hmem).extends hext
        · cases (extends_getElem hext.images hi).symm.trans hat
          exact hneeds need hmem
      · exact ⟨_, rfl, hall⟩

/-! ## Preparing -/

/-- The images are the program and, once each, the libraries that it reaches. -/
structure ClosureOf (program : AstraDynamicImage) (process : AstraDynamicProcess Token) : Prop where
  program : process.images.head? = some program
  identities : process.identities = none :: process.images.tail.map AstraDynamicImage.soname
  distinct : process.identities.Nodup
  complete : Complete process process.images.length
  linked : LinkedImages process

/-- The lifecycle has every image once, behind all that it needs. -/
structure LifecycleOf (process : AstraDynamicProcess Token) : Prop where
  once : process.lifecycle.Perm (List.range process.images.length)
  ordered : ∀ edge ∈ process.edges,
    process.lifecycle.idxOf edge.2 < process.lifecycle.idxOf edge.1

def Cyclic (process : AstraDynamicProcess Token) : Prop :=
  ∃ image, Relation.TransGen (fun owner dependency => (owner, dependency) ∈ process.edges) image image

theorem Opened.closure (h : Opened program process trace) (hl : LinkedImages process)
    (hc : Complete process process.images.length) : ClosureOf program process := by
  refine ⟨h.program, by rw [h.identities, h.sonames], ?_, hc, hl⟩
  rw [h.identities, nodup_cons]
  exact ⟨by simp, h.nodup.map (Option.some_injective _)⟩

theorem openClosure_spec (answers : DynamicAnswers Token) (program : AstraDynamicImage)
    (trace : DynamicTrace Token) (hopened : trace.opened = []) (hobtained : trace.obtained = [])
    (hfinished : trace.finished = []) :
    ∃ preparation, openClosure answers trace program = some preparation ∧
      Outcome (fun process' trace' => Opened program process' trace' ∧ LinkedImages process' ∧
        Complete process' process'.images.length) preparation := by
  unfold openClosure
  dsimp only
  obtain ⟨hallocated, hroom⟩ := growImages_spec answers trace
    ⟨[], [], [], [], [], 0, 0, 0, 0, false⟩ 1 (by simp) (by simp) (by simp)
  have ho := hallocated.opened
  have hb := hallocated.obtained
  have hf := hallocated.finished
  rcases hg : growImages answers trace ⟨[], [], [], [], [], 0, 0, 0, 0, false⟩ 1 with
    ⟨_ | process, trace'⟩ <;> rw [hg] at ho hb hf hroom
  · dsimp only at ho hb hf
    refine ⟨_, rfl, by decide, ?_, rfl, ?_, ?_⟩
    · simp [ho, hopened]
    · simp [hb, hobtained, finishedTokens, hf, hfinished]
    · simp [hf, hfinished]
  · obtain ⟨i, d, t, rfl, hi, hi', hd, ht⟩ := hroom process rfl
    dsimp only at ho hb hf
    refine closeFrom_spec answers ⟨rfl, ?_, ?_, ?_, ?_, ?_, rfl, hi, hi', hd, ht, ?_⟩ ⟨by simp, ?_⟩
      (fun owner hlt => absurd hlt (Nat.not_lt_zero _)) (Nat.zero_le _) (by simp)
    · simp [ho, hopened]
    · simp [ho, hopened]
    · simp [hb, hobtained]
    · simp [ho, hopened]
    · simp [hf, hfinished]
    · simp
    · intro i hlt
      obtain rfl : i = 0 := by simpa using hlt
      exact .refl

theorem lifecycle_spec (hl : LinkedImages process) :
    (∀ order, takeReady (List.range process.images.length) process.edges process.images.length [] =
        some order → LifecycleOf { process with lifecycle := order } ∧ ¬Cyclic process) ∧
      (takeReady (List.range process.images.length) process.edges process.images.length [] = none →
        Cyclic process) := by
  constructor
  · intro order horder
    obtain ⟨hprecedes, hperm⟩ := takeReady_spec .nil horder
    have hall : ∀ edge ∈ process.edges, edge.1 ∈ order := fun edge he =>
      hperm.mem_iff.2 (mem_range.2 (hl.edges edge he).1)
    refine ⟨⟨hperm, fun edge he => (hprecedes.before edge he (hall edge he)).2⟩, ?_⟩
    rintro ⟨image, hcycle⟩
    exact hprecedes.acyclic hall image hcycle
  · intro hnone
    refine takeReady_none nodup_range ?_ .nil (by simp) hnone
    exact fun edge he => mem_range.2 (hl.edges edge he).2.1

theorem Abandoned.discard (h : Abandoned process trace) :
    (astraDynamicProcessDiscard answers trace process).opened.Nodup ∧
      FinishedOnce false (astraDynamicProcessDiscard answers trace process) := by
  refine ⟨by rw [discard_opened]; exact h.nodup, ?_⟩
  obtain ⟨events, hrun, htokens, hcommit⟩ :=
    rollbackTokens_spec answers trace (process.tokens.drop 1)
  unfold astraDynamicProcessDiscard
  rw [if_pos h.committed, rollback, hrun]
  constructor
  · rw [finishedTokens_finish, htokens, DynamicTrace.finish_obtained]
    exact (perm_append_comm.trans ((reverse_perm _).append_right _)).trans h.account.symm
  · intro event he _
    have hno : event.commit = false := by
      rcases mem_append.1 he with he | he
      · exact h.rolled event he
      · exact hcommit event he
    exact ⟨fun hyes => absurd (hno.symm.trans hyes) Bool.false_ne_true, fun hyes => by cases hyes⟩

theorem Opened.held (h : Opened program process trace) : Held process trace := by
  refine ⟨h.abandoned.account, fun hc => ?_, fun _ => ⟨h.finished, ?_⟩⟩
  · rw [h.committed] at hc
    cases hc
  · simp [h.tokens]

theorem prepare_spec (answers : DynamicAnswers Token) (program : AstraDynamicImage) :
    ∃ status out trace, astraDynamicProcessPrepare answers program = some (status, out, trace) ∧
      trace.opened.Nodup ∧
      (out = none → status ≠ astraSyscallOk ∧ FinishedOnce false trace) ∧
      ∀ process, out = some process → status = astraSyscallOk ∧ Held process trace ∧
        process.committed = false ∧ ClosureOf program process ∧ LifecycleOf process ∧
        ¬Cyclic process := by
  have hempty : FinishedOnce false (DynamicTrace.empty : DynamicTrace Token) := ⟨.nil, nofun⟩
  unfold astraDynamicProcessPrepare
  dsimp only
  split
  · exact ⟨_, _, _, rfl, nodup_nil, fun _ => ⟨by decide, hempty⟩, nofun⟩
  split
  · exact ⟨_, _, _, rfl, nodup_nil, fun _ => ⟨by decide, ⟨.nil, nofun⟩⟩, nofun⟩
  generalize htrace : ({ DynamicTrace.empty with
    allocations := (DynamicTrace.empty : DynamicTrace Token).allocations + 1 } :
      DynamicTrace Token) = start
  obtain ⟨⟨_ | status, process, trace⟩, hopen, hout⟩ := openClosure_spec answers program start
    (by rw [← htrace]; rfl) (by rw [← htrace]; rfl) (by rw [← htrace]; rfl)
  · rw [hopen]
    obtain ⟨hopened, hlinked, hcomplete⟩ := hout
    obtain ⟨hsome, -⟩ := lifecycle_spec hlinked
    have habandoned : Abandoned process { trace with allocations := trace.allocations + 2 } :=
      ⟨hopened.nodup, hopened.committed, hopened.abandoned.account, hopened.abandoned.rolled⟩
    unfold lifecycleBuild
    dsimp only
    by_cases hfails : answers.allocates trace.allocations = false ∨
        answers.allocates (trace.allocations + 1) = false
    · rw [if_pos hfails]
      exact ⟨_, _, _, rfl, habandoned.discard.1, fun _ => ⟨by decide, habandoned.discard.2⟩, nofun⟩
    rw [if_neg hfails]
    rcases ht : takeReady (List.range process.images.length) process.edges process.images.length []
      with _ | order
    · exact ⟨_, _, _, rfl, habandoned.discard.1, fun _ => ⟨by decide, habandoned.discard.2⟩, nofun⟩
    · obtain ⟨hlifecycle, hacyclic⟩ := hsome order ht
      refine ⟨_, _, _, rfl, hopened.nodup, nofun, ?_⟩
      rintro process' hp
      cases hp
      have hheld := hopened.held
      have hclosure := hopened.closure hlinked hcomplete
      exact ⟨rfl, ⟨hheld.account, hheld.committed, hheld.uncommitted⟩, hopened.committed,
        ⟨hclosure.program, hclosure.identities, hclosure.distinct, hclosure.complete,
          ⟨hclosure.linked.edges, hclosure.linked.reached⟩⟩, hlifecycle, hacyclic⟩
  · rw [hopen]
    exact ⟨_, _, _, rfl, hout.2.discard.1, fun _ => ⟨hout.1, hout.2.discard.2⟩, nofun⟩

/-! ## Runs -/

/-- Every library is opened at most once, and what is prepared is the closure with its order. Every
token is finished once exactly when no commit of the run fails at an image. -/
theorem dynamic_process_once (answers : DynamicAnswers Token) (program : AstraDynamicImage)
    (calls : List DynamicCall) :
    ∃ status out prepared ended trace,
      astraDynamicProcessPrepare answers program = some (status, out, prepared) ∧
      dynamicRun answers program calls = some (ended, trace) ∧ trace.opened.Nodup ∧
      (∀ process, out = some process →
        ClosureOf program process ∧ LifecycleOf process ∧ ¬Cyclic process) ∧
      (FinishedOnce (ended.elim false AstraDynamicProcess.committed) trace ↔
        ∀ process, out = some process → CommitsAnswered answers (process, prepared) calls) ∧
      (∀ process, out = some process → CommitsAnswered answers (process, prepared) calls →
        (ended.elim false AstraDynamicProcess.committed = true ↔ .commit ∈ calls)) := by
  obtain ⟨status, out, prepared, hprepare, hnodup, hnone, hsome⟩ := prepare_spec answers program
  unfold dynamicRun
  rw [hprepare]
  rcases out with _ | process
  · exact ⟨status, none, prepared, none, prepared, rfl, rfl, hnodup, nofun,
      ⟨fun _ => nofun, fun _ => (hnone rfl).2⟩, nofun⟩
  obtain ⟨-, hheld, huncommitted, hclosure, hlifecycle, hacyclic⟩ := hsome process rfl
  refine ⟨status, some process, prepared, _, _, rfl, rfl, ?_, ?_, ?_, ?_⟩
  · rw [discard_opened, run_opened]
    exact hnodup
  · rintro process' hp
    cases hp
    exact ⟨hclosure, hlifecycle, hacyclic⟩
  · rw [Option.elim_some, run_finishedOnce calls hheld]
    simp
  · rintro process' hp hanswered
    cases hp
    rw [Option.elim_some, run_committed calls hanswered]
    simp [huncommitted]

/-- A program with one library, whose commit fails. -/
theorem commit_finishes_twice :
    let library : AstraDynamicImage := ⟨3, [], some ⟨[97], by decide⟩⟩
    let program : AstraDynamicImage := ⟨2, [library.soname], none⟩
    let answers : DynamicAnswers ℕ := ⟨fun _ _ => ⟨astraSyscallOk, library, some 7⟩,
      fun _ _ commit => if commit then 5 else astraSyscallOk, fun _ => true,
      fun _ => astraDynamicOk, fun _ => astraDynamicOk, fun _ => astraDynamicOk⟩
    ∃ ended trace, dynamicRun answers program [.relocate, .commit] = some (ended, trace) ∧
      trace.obtained = [7] ∧ finishedTokens trace = [7, 7] ∧
      ¬FinishedOnce (ended.elim false AstraDynamicProcess.committed) trace := by
  intro library program answers
  have hrun : (dynamicRun answers program [.relocate, .commit]).map
      (fun run => (run.2.obtained, finishedTokens run.2)) = some ([7], [7, 7]) := by
    decide +kernel
  obtain ⟨⟨ended, trace⟩, hended, htokens⟩ := Option.map_eq_some_iff.1 hrun
  obtain ⟨hobtained, htwice⟩ := Prod.mk.inj htokens
  dsimp only at hobtained htwice
  refine ⟨ended, trace, hended, hobtained, htwice, fun hfinished => ?_⟩
  have hlength := hfinished.once.length_eq
  simp [hobtained, htwice] at hlength

end Astra
