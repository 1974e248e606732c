import AstraKernel.Loader.Elf

/-!
# Every block is given back once

At any time a block has been given back, or one plan that owns its chain has it. So a chain is given
back as a whole, by its owner.
-/

namespace Astra

open Function List

/-! ## Chains and their owners -/

section chains

variable {ι : Type*} [DecidableEq ι] {owned : ι → List ℕ} {next : ℕ} {releases : ℕ → ℕ} {x y : ι}

structure ChainsHeld (owned : ι → List ℕ) (next : ℕ) (releases : ℕ → ℕ) : Prop where
  live : ∀ x, ∀ b ∈ owned x, b < next ∧ releases b = 0
  nodup : ∀ x, (owned x).Nodup
  apart : ∀ x y, x ≠ y → ∀ b ∈ owned x, b ∉ owned y
  once : ∀ b < next, releases b = 1 ∨ ∃ x, b ∈ owned x

section

variable (h : ChainsHeld owned next releases)
include h

theorem ChainsHeld.given (x : ι) :
    ChainsHeld (update owned x []) next fun b => if b ∈ owned x then 1 else releases b := by
  have hne : ∀ {y b}, b ∈ update owned x [] y → y ≠ x ∧ b ∈ owned y := by
    intro y b hb
    rcases eq_or_ne y x with rfl | hne
    · simp at hb
    · exact ⟨hne, by rwa [update_of_ne hne] at hb⟩
  refine ⟨fun y b hb => ?_, fun y => ?_, fun y z hyz b hb hb' => ?_, fun b hb => ?_⟩
  · obtain ⟨hy, hb⟩ := hne hb
    exact ⟨(h.live y b hb).1, (if_neg (h.apart y x hy b hb)).trans (h.live y b hb).2⟩
  · rcases eq_or_ne y x with rfl | hy
    · simp
    · rw [update_of_ne hy]
      exact h.nodup y
  · exact h.apart y z hyz b (hne hb).2 (hne hb').2
  · by_cases hx : b ∈ owned x
    · exact .inl (if_pos hx)
    · refine (h.once b hb).imp (fun hone => (if_neg hx).trans hone) fun ⟨y, hy⟩ => ⟨y, ?_⟩
      have hyx : y ≠ x := fun heq => hx (heq ▸ hy)
      rwa [update_of_ne hyx]

theorem ChainsHeld.moved (hxy : x ≠ y) (hx : owned x = []) :
    ChainsHeld (update (update owned x (owned y)) y []) next releases := by
  -- The owners are the same but for `x`, which has what `y` had.
  have hback : ∀ {z b}, b ∈ update (update owned x (owned y)) y [] z →
      b ∈ owned (if z = x then y else z) ∧ z ≠ y := by
    intro z b hb
    rcases eq_or_ne z y with rfl | hzy
    · simp at hb
    rw [update_of_ne hzy] at hb
    rcases eq_or_ne z x with rfl | hzx
    · rw [update_self] at hb
      exact ⟨by rwa [if_pos rfl], hzy⟩
    · rw [update_of_ne hzx] at hb
      exact ⟨by rwa [if_neg hzx], hzy⟩
  refine ⟨fun z b hb => h.live _ b (hback hb).1, fun z => ?_, fun z u hzu b hb hb' => ?_,
    fun b hb => (h.once b hb).imp_right fun ⟨z, hz⟩ => ?_⟩
  · rcases eq_or_ne z y with rfl | hzy
    · simp
    rw [update_of_ne hzy]
    rcases eq_or_ne z x with rfl | hzx
    · rw [update_self]
      exact h.nodup y
    · rw [update_of_ne hzx]
      exact h.nodup z
  · obtain ⟨hb, hzy⟩ := hback hb
    obtain ⟨hb', huy⟩ := hback hb'
    refine h.apart _ _ ?_ b hb hb'
    split_ifs with h1 h2 h2
    · exact fun _ => hzu (h1.trans h2.symm)
    · exact huy.symm
    · exact hzy
    · exact hzu
  · rcases eq_or_ne z y with rfl | hzy
    · exact ⟨x, by rwa [update_of_ne hxy, update_self]⟩
    · refine ⟨z, ?_⟩
      have hzx : z ≠ x := by
        rintro rfl
        simp [hx] at hz
      rwa [update_of_ne hzy, update_of_ne hzx]

theorem ChainsHeld.grown (x : ι) :
    ChainsHeld (update owned x (owned x ++ [next])) (next + 1) (update releases next 0) := by
  have hold : ∀ {y b}, b ∈ owned y → b ≠ next := fun hb => Nat.ne_of_lt (h.live _ _ hb).1
  have hcases : ∀ {y b}, b ∈ update owned x (owned x ++ [next]) y →
      b ∈ owned y ∨ y = x ∧ b = next := by
    intro y b hb
    rcases eq_or_ne y x with rfl | hne
    · simpa using hb
    · exact .inl (by rwa [update_of_ne hne] at hb)
  refine ⟨fun y b hb => ?_, fun y => ?_, fun y z hyz b hb hb' => ?_, fun b hb => ?_⟩
  · obtain hb | ⟨-, rfl⟩ := hcases hb
    · rw [update_of_ne (hold hb)]
      exact ⟨Nat.lt_succ_of_lt (h.live y b hb).1, (h.live y b hb).2⟩
    · exact ⟨Nat.lt_succ_self _, update_self ..⟩
  · rcases eq_or_ne y x with rfl | hne
    · rw [update_self]
      exact nodup_append.2 ⟨h.nodup y, nodup_singleton _,
        fun b hb c hc heq => hold hb (heq.trans (mem_singleton.1 hc))⟩
    · rw [update_of_ne hne]
      exact h.nodup y
  · obtain hy | ⟨hyx, hnew⟩ := hcases hb
    · obtain hz | ⟨-, hnew⟩ := hcases hb'
      · exact h.apart y z hyz b hy hz
      · exact hold hy hnew
    · obtain hz | ⟨hzx, -⟩ := hcases hb'
      · exact hold hz hnew
      · exact hyz (hyx.trans hzx.symm)
  · rcases eq_or_ne b next with rfl | hne
    · exact .inr ⟨x, by simp⟩
    · rw [update_of_ne hne]
      refine (h.once b (by omega)).imp_right fun ⟨y, hy⟩ => ⟨y, ?_⟩
      rcases eq_or_ne y x with rfl | hyx
      · rw [update_self]
        exact mem_append_left _ hy
      · rwa [update_of_ne hyx]

end

end chains

/-! ## The calls -/

variable {m : ElfBlocks} {x : Option ℕ} {w : ElfWorld} {call : ElfCall} {calls : List ElfCall}

def KernelElfImage.owned (plan : KernelElfImage) : List ℕ :=
  if plan.ownsSegmentBlocks then plan.segmentBlocks else []

def ElfWorld.owned (w : ElfWorld) : Option ℕ → List ℕ := KernelElfImage.owned ∘ w.image

theorem holds_iff (w : ElfWorld) (x : Option ℕ) : w.Holds x ↔ w.owned x ≠ [] := by
  unfold ElfWorld.Holds ElfWorld.owned KernelElfImage.owned
  by_cases h : (w.image x).ownsSegmentBlocks = true <;> simp [h]

theorem releaseChain_spec {chain : List ℕ} (hnodup : chain.Nodup)
    (hlive : ∀ b ∈ chain, m.releases b = 0) : (releaseChain m chain).2 = true ∧
      (releaseChain m chain).1.next = m.next ∧
      (releaseChain m chain).1.releases = fun b => if b ∈ chain then 1 else m.releases b := by
  induction chain generalizing m with
  | nil => exact ⟨rfl, rfl, by simp [releaseChain]⟩
  | cons b chain ih =>
    obtain ⟨hb, hrest⟩ := nodup_cons.1 hnodup
    have hb0 := hlive b mem_cons_self
    unfold releaseChain
    rw [if_pos hb0]
    obtain ⟨hok, hnext, hreleases⟩ := ih
      (m := { m with releases := update m.releases b (m.releases b + 1) }) hrest fun c hc => by
        have hne : c ≠ b := fun heq => hb (heq ▸ hc)
        exact (update_of_ne hne ..).trans (hlive c (mem_cons_of_mem _ hc))
    refine ⟨hok, hnext, hreleases.trans (funext fun c => ?_)⟩
    rcases eq_or_ne c b with rfl | hne
    · simp [hb, hb0]
    · simp [hne]

structure ElfSound (w : ElfWorld) : Prop where
  held : ChainsHeld w.owned w.blocks.next w.blocks.releases
  failed : w.failed = true → w.image none = .clear
  owns : w.begun = true → w.failed = false → w.complete = false →
    (w.image none).ownsSegmentBlocks = true

theorem imageDiscard_image (w : ElfWorld) (x : Option ℕ) :
    (w.imageDiscard x).1.image = update w.image x .clear := rfl

theorem ElfSound.discard (h : ElfSound w) (x : Option ℕ) : (w.imageDiscard x).2 = true ∧
    ChainsHeld (w.imageDiscard x).1.owned (w.imageDiscard x).1.blocks.next
      (w.imageDiscard x).1.blocks.releases := by
  have hgiven := h.held.given x
  have howned : (w.imageDiscard x).1.owned = update w.owned x [] := comp_update ..
  rw [howned]
  by_cases ho : (w.image x).ownsSegmentBlocks = true
  · have hchain : w.owned x = (w.image x).segmentBlocks := if_pos ho
    rw [hchain] at hgiven
    obtain ⟨hok, hnext, hreleases⟩ := releaseChain_spec (hchain ▸ h.held.nodup x)
      fun b hb => (h.held.live x b (hchain ▸ hb)).2
    unfold ElfWorld.imageDiscard
    rw [if_pos ho]
    exact ⟨hok, by rw [hnext, hreleases]; exact hgiven⟩
  · have hchain : w.owned x = [] := if_neg ho
    rw [hchain] at hgiven
    unfold ElfWorld.imageDiscard
    rw [if_neg ho]
    exact ⟨rfl, by simpa using hgiven⟩

theorem ElfSound.streamFail (h : ElfSound w) : ElfSound w.streamFail :=
  ⟨(h.discard none).2,
    fun _ => (congrFun (imageDiscard_image w none) none).trans (update_self ..),
    fun _ hf => by cases hf⟩

theorem owned_setImage {plan : KernelElfImage} (hx : w.owned x = [])
    (hplan : plan.owned = []) : (w.setImage x plan).owned = w.owned := by
  refine (comp_update ..).trans ?_
  rw [hplan]
  exact update_eq_self_iff.2 hx.symm

theorem ElfSound.streamBegin (h : ElfSound w) (hallowed : ¬w.Holds none) (check : BeginCheck) :
    ElfSound (w.streamBegin check) := by
  rw [holds_iff, not_not] at hallowed
  have hbegun : ∀ headerCount, ElfSound { w.setImage none ⟨0, [], true⟩ with
      headerCount := headerCount, headerIndex := 0, failed := false, complete := false
      begun := true } := by
    intro headerCount
    refine ⟨?_, (fun hf => by cases hf), fun _ _ _ => ?_⟩
    · change ChainsHeld (w.setImage none ⟨0, [], true⟩).owned _ _
      rw [owned_setImage hallowed rfl]
      exact h.held
    · change (update w.image none ⟨0, [], true⟩ none).ownsSegmentBlocks = true
      rw [update_self]
  cases check with
  | invalidArgument => exact h
  | refused => exact (hbegun 0).streamFail
  | accepted headerCount => exact hbegun headerCount

theorem appendSegment_spec {plan plan' : KernelElfImage} {m' : ElfBlocks} {granted : Bool}
    (hplan : plan.ownsSegmentBlocks = true) (h : appendSegment m plan granted = some (plan', m')) :
    plan'.ownsSegmentBlocks = true ∧ (plan'.owned = plan.owned ∧ m'.next = m.next ∧
        m'.releases = m.releases ∨
      plan'.owned = plan.owned ++ [m.next] ∧ m'.next = m.next + 1 ∧
        m'.releases = update m.releases m.next 0) := by
  have howned : ∀ plan : KernelElfImage, plan.ownsSegmentBlocks = true →
      plan.owned = plan.segmentBlocks := fun plan ho => if_pos ho
  unfold appendSegment at h
  split_ifs at h
  · cases h
    exact ⟨hplan, .inl ⟨rfl, rfl, rfl⟩⟩
  · cases h
    exact ⟨hplan, .inr ⟨by rw [howned plan hplan]; exact if_pos hplan, rfl, rfl⟩⟩
  · cases h
    exact ⟨hplan, .inl ⟨rfl, rfl, rfl⟩⟩

theorem ElfSound.addHeader (h : ElfSound w) (hallowed : w.begun = true) (check : HeaderCheck)
    (granted : Bool) : ElfSound (w.addHeader check granted) := by
  unfold ElfWorld.addHeader
  split_ifs with hrefused
  · exact h
  simp only [not_or, Bool.not_eq_true] at hrefused
  obtain ⟨hfailed, hcomplete, -⟩ := hrefused
  have howns := h.owns hallowed hfailed hcomplete
  cases check with
  | refused => exact h.streamFail
  | passed => exact ⟨h.held, h.failed, h.owns⟩
  | load =>
    rcases happend : appendSegment w.blocks (w.image none) granted with _ | ⟨plan, m⟩
    · exact h.streamFail
    obtain ⟨hplan, hchain⟩ := appendSegment_spec howns happend
    refine ⟨?_, fun hf => absurd hf (by simp [ElfWorld.setImage, hfailed]), fun _ _ _ => ?_⟩
    · change ChainsHeld (KernelElfImage.owned ∘ update w.image none _) m.next m.releases
      rw [comp_update]
      change ChainsHeld (update w.owned none plan.owned) _ _
      obtain ⟨hsame, hnext, hreleases⟩ | ⟨hgrown, hnext, hreleases⟩ := hchain
      · rw [hsame, hnext, hreleases]
        change ChainsHeld (update w.owned none (w.owned none)) _ _
        rw [update_eq_self]
        exact h.held
      · rw [hgrown, hnext, hreleases]
        exact h.held.grown none
    · change (update w.image none _ none).ownsSegmentBlocks = true
      rw [update_self]
      exact hplan

theorem ElfSound.finish (h : ElfSound w) {p : ℕ} (hallowed : ¬w.Holds (some p)) (passes : Bool) :
    ElfSound (w.finish p passes) := by
  rw [holds_iff, not_not] at hallowed
  have hcopy : ∀ plan : KernelElfImage, plan.owned = [] →
      ElfSound (w.setImage (some p) plan) := by
    intro plan hplan
    have hstream : (w.setImage (some p) plan).image none = w.image none :=
      update_of_ne (Option.some_ne_none p).symm plan w.image
    refine ⟨?_, fun hf => hstream.trans (h.failed hf), fun hb hf hc => ?_⟩
    · rw [owned_setImage hallowed hplan]
      exact h.held
    · rw [hstream]
      exact h.owns hb hf hc
  have hclear := hcopy .clear rfl
  unfold ElfWorld.finish
  dsimp only
  split_ifs
  · exact hclear
  · exact hclear.streamFail
  · have hlast : (w.setImage (some p) .clear).setImage (some p)
        { (w.setImage (some p) .clear).image none with ownsSegmentBlocks := false } =
          w.setImage (some p) { (w.setImage (some p) .clear).image none with
            ownsSegmentBlocks := false } := by
      unfold ElfWorld.setImage
      rw [update_idem]
    have hdone := hcopy { (w.setImage (some p) .clear).image none with
      ownsSegmentBlocks := false } rfl
    rw [← hlast] at hdone
    exact ⟨hdone.held, hdone.failed, fun _ _ hc => by cases hc⟩

theorem ElfSound.move (h : ElfSound w) {destination : ℕ} {source : Option ℕ}
    (hallowed : w.Allowed (.imageMove destination source)) :
    ElfSound (w.imageMove (some destination) source) := by
  unfold ElfWorld.imageMove
  split_ifs with hne
  · exact h
  obtain ⟨hempty, hsource⟩ := hallowed hne
  rw [holds_iff, not_not] at hempty
  have howned : ((w.setImage (some destination) (w.image source)).setImage source
      ⟨0, [], false⟩).owned =
        update (update w.owned (some destination) (w.owned source)) source [] := by
    refine (comp_update ..).trans ?_
    congr 1
    exact comp_update ..
  refine ⟨?_, fun hf => ?_, fun hb hf hc => ?_⟩
  · rw [howned]
    exact h.held.moved hne hempty
  · change update (update w.image (some destination) (w.image source)) source ⟨0, [], false⟩ none = _
    rcases eq_or_ne source none with rfl | hs
    · rw [update_self]
      rfl
    · rw [update_of_ne hs.symm, update_of_ne (Option.some_ne_none _).symm]
      exact h.failed hf
  · change (update (update w.image (some destination) (w.image source)) source ⟨0, [], false⟩
      none).ownsSegmentBlocks = true
    have hs : source ≠ none := fun heq => by
      have hcomplete : w.complete = false := hc
      rw [hsource heq] at hcomplete
      cases hcomplete
    rw [update_of_ne hs.symm, update_of_ne (Option.some_ne_none _).symm]
    exact h.owns hb hf hc

theorem ElfSound.step (h : ElfSound w) (hallowed : w.Allowed call) : ElfSound (w.step call) := by
  cases call with
  | streamBegin check => exact h.streamBegin hallowed check
  | addHeader check granted => exact h.addHeader hallowed check granted
  | finish p passes => exact h.finish hallowed passes
  | imageMove destination source => exact h.move hallowed
  | imageDiscard p =>
    have hstream : (w.imageDiscard (some p)).1.image none = w.image none := by
      rw [imageDiscard_image]
      exact update_of_ne (Option.some_ne_none p).symm ..
    refine ⟨(h.discard _).2, fun hf => hstream.trans (h.failed hf), fun hb hf hc => ?_⟩
    rw [ElfWorld.step, hstream]
    exact h.owns hb hf hc
  | streamDiscard =>
    refine ⟨(h.discard _).2, fun _ => ?_, fun hb => by cases hb⟩
    exact (congrFun (imageDiscard_image w none) none).trans (update_self ..)

theorem ElfSound.run (h : ElfSound w) (hallowed : w.AllAllowed calls) : ElfSound (w.run calls) := by
  induction calls generalizing w with
  | nil => exact h
  | cons call calls ih => exact ih (h.step hallowed.1) hallowed.2

theorem elfSound_start : ElfSound .start where
  held := ⟨fun _ _ hb => absurd hb not_mem_nil, fun _ => nodup_nil,
    fun _ _ _ _ hb => absurd hb not_mem_nil, fun _ hb => absurd hb (Nat.not_lt_zero _)⟩
  failed _ := rfl
  owns hb := by cases hb

/-- No block for a fifth segment, and one for it in a second stream, whose plan is moved. -/
def twoStreams : List ElfCall :=
  .streamBegin (.accepted 5) :: List.replicate 4 (.addHeader .load true) ++
    [.addHeader .load false, .streamBegin (.accepted 5)] ++
    List.replicate 5 (.addHeader .load true) ++
    [.finish 0 true, .imageMove 1 none, .imageDiscard 0, .streamDiscard, .imageDiscard 1]

end Astra
