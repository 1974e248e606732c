import AstraKernel.Loader.Tls

/-!
# The blocks of a TLS layout

The layout takes its places by exact arithmetic as long as that stays in 32 bits (`tlsPlace_iff`),
and fails where it does not. What it has placed the initialisation accepts, one block behind the
other.
-/

namespace Astra

open List

variable {image : AstraTlsImage} {images placed : List AstraTlsImage}
  {layout : AstraDynamicTlsLayout} {cursor alignment modules : ℕ} {bytes : ℕ → UInt8}

/-- The next multiple. -/
def roundUp (n alignment : ℕ) : ℕ := n + (alignment - 1) - (n + (alignment - 1)) % alignment

theorem roundUp_spec (n : ℕ) {a : ℕ} (ha : a ≠ 0) :
    n ≤ roundUp n a ∧ a ∣ roundUp n a ∧ roundUp n a ≤ n + (a - 1) := by
  have hlt := Nat.mod_lt (n + (a - 1)) (Nat.pos_of_ne_zero ha)
  have hdvd : a ∣ roundUp n a := Nat.dvd_sub_mod _
  unfold roundUp at hdvd ⊢
  exact ⟨by omega, hdvd, Nat.sub_le _ _⟩

section

variable (h : image.TemplateOk)
include h

theorem AstraTlsImage.TemplateOk.alignment_ne :
    image.tlsAlignment.toNat ≠ 0 := fun h0 => h.2.1 (UInt32.toNat_inj.1 h0)

theorem AstraTlsImage.TemplateOk.mask (n : ℕ) :
    n &&& (image.tlsAlignment.toNat - 1) = n % image.tlsAlignment.toNat :=
  and_sub_one_eq_mod h.alignment_ne h.2.2 n

theorem AstraTlsImage.TemplateOk.power : ∃ k ≤ 31, image.tlsAlignment.toNat = 2 ^ k := by
  obtain ⟨k, hk⟩ := (Nat.and_sub_one_eq_zero_iff_isPowerOfTwo h.alignment_ne).1 h.2.2
  have hlt : 2 ^ k < 2 ^ 32 := hk ▸ image.tlsAlignment.toNat_lt
  exact ⟨k, Nat.le_of_lt_succ ((Nat.pow_lt_pow_iff_right (by omega)).1 hlt), hk⟩

end

/-- The block of the image behind `cursor` is within what 32 bits and the offset can say. -/
structure TlsRoom (image : AstraTlsImage) (cursor : ℕ) : Prop where
  template : image.TemplateOk
  start : roundUp cursor image.tlsAlignment.toNat ≤ int32Max + astraM68kTlsThreadPointerBias
  stop : roundUp cursor image.tlsAlignment.toNat + image.tlsMemorySize.toNat ≤ uint32Max

theorem tlsPlace_iff (hsize : image.tlsMemorySize ≠ 0) (offset : ℕ) :
    image.tlsPlace cursor = .ok offset ↔
      TlsRoom image cursor ∧ offset = roundUp cursor image.tlsAlignment.toNat := by
  have hpos : image.tlsMemorySize.toNat ≠ 0 := fun h0 => hsize (UInt32.toNat_inj.1 h0)
  unfold AstraTlsImage.tlsPlace
  by_cases htemplate : image.TemplateOk
  swap
  · rw [if_pos htemplate]
    exact iff_of_false (by simp) fun h => htemplate h.1.template
  have hround : cursor + (image.tlsAlignment.toNat - 1) -
      (cursor + (image.tlsAlignment.toNat - 1)) % image.tlsAlignment.toNat =
        roundUp cursor image.tlsAlignment.toNat := rfl
  have hmax : uint32Max = 2 ^ 32 - 1 := rfl
  rw [if_neg (not_not.2 htemplate)]
  dsimp only
  rw [htemplate.mask, hround]
  obtain ⟨k, hk, ha⟩ := htemplate.power
  obtain ⟨hle, hdvd, hup⟩ := roundUp_spec cursor htemplate.alignment_ne
  have hlt := image.tlsMemorySize.toNat_lt
  split
  · refine iff_of_false (by simp) fun h => ?_
    -- The next multiple is at least 2 ^ 32, which is a multiple itself.
    have hstop := h.1.stop
    have htop : image.tlsAlignment.toNat ∣ 2 ^ 32 := ha ▸ pow_dvd_pow 2 (by omega)
    have hgap := Nat.le_of_dvd (by omega) (Nat.dvd_sub htop hdvd)
    omega
  split
  · refine iff_of_false (by simp) fun h => ?_
    have hstart := h.1.start
    have hstop := h.1.stop
    omega
  · refine ⟨fun h => ⟨⟨htemplate, by omega, by omega⟩, (Except.ok.inj h).symm⟩, fun h => h.2 ▸ rfl⟩

/-- Every block behind the ones before it is within what 32 bits and the offset can say. -/
def TlsFits : ℕ → List AstraTlsImage → Prop
  | _, [] => True
  | cursor, image :: images =>
    if image.tlsMemorySize = 0 then TlsFits cursor images
    else TlsRoom image cursor ∧
      TlsFits (roundUp cursor image.tlsAlignment.toNat + image.tlsMemorySize.toNat) images

/-! ## What has been placed -/

/-- The part of an image that the layout does not write. -/
def AstraTlsImage.template (image : AstraTlsImage) : AstraTlsImage :=
  { image with tlsModule := 0, tlsTpOffset := 0 }

def AstraTlsImage.offset (image : AstraTlsImage) : ℕ :=
  (image.tlsTpOffset + astraM68kTlsThreadPointerBias).toNat

/-- The block of an image in an allocation of the layout. -/
structure TlsBlock (layout : AstraDynamicTlsLayout) (image : AstraTlsImage) : Prop where
  template : image.TemplateOk
  offset : image.tlsTpOffset = image.offset - astraM68kTlsThreadPointerBias
  start : image.offset ≤ int32Max + astraM68kTlsThreadPointerBias
  stop : image.offset + image.tlsMemorySize.toNat ≤ layout.memorySize
  aligned : image.tlsAlignment.toNat ∣ image.offset
  alignment : image.tlsAlignment.toNat ∣ layout.alignment

theorem map_eq_ok {ε α β : Type*} {f : α → β} {x : Except ε α} {y : β} (h : x.map f = .ok y) :
    ∃ a, x = .ok a ∧ f a = y := by
  rcases x with status | a
  · cases h
  · exact ⟨a, rfl, Except.ok.inj h⟩

theorem tlsLayoutFrom_cons
    (h : tlsLayoutFrom (image :: images) cursor alignment modules = .ok (placed, layout)) :
    (image.tlsMemorySize = 0 ∧ ∃ rest, placed = image.template :: rest ∧
      tlsLayoutFrom images cursor alignment modules = .ok (rest, layout)) ∨
    (image.tlsMemorySize ≠ 0 ∧ TlsRoom image cursor ∧
      ∃ rest, placed =
        { image with
          tlsModule := modules + 1
          tlsTpOffset := roundUp cursor image.tlsAlignment.toNat - astraM68kTlsThreadPointerBias } ::
            rest ∧
      tlsLayoutFrom images (roundUp cursor image.tlsAlignment.toNat + image.tlsMemorySize.toNat)
        (max alignment image.tlsAlignment.toNat) (modules + 1) = .ok (rest, layout)) := by
  unfold tlsLayoutFrom at h
  split at h
  · rename_i h0
    obtain ⟨⟨rest, layout'⟩, hrest, h⟩ := map_eq_ok h
    cases h
    exact .inl ⟨h0, rest, rfl, hrest⟩
  rename_i h0
  rcases hplace : image.tlsPlace cursor with status | offset <;> rw [hplace] at h
  · cases h
  obtain ⟨hroom, rfl⟩ := (tlsPlace_iff h0 offset).1 hplace
  split_ifs at h
  obtain ⟨⟨rest, layout'⟩, hrest, h⟩ := map_eq_ok h
  cases h
  exact .inr ⟨h0, hroom, rest, rfl, hrest⟩

theorem tlsLayoutFrom_iff (hmodules : modules ≤ cursor) :
    (∃ r, tlsLayoutFrom images cursor alignment modules = .ok r) ↔ TlsFits cursor images := by
  induction images generalizing cursor alignment modules with
  | nil => exact iff_of_true ⟨_, rfl⟩ trivial
  | cons image images ih =>
    unfold TlsFits
    by_cases h0 : image.tlsMemorySize = 0
    · rw [if_pos h0, ← @ih cursor alignment modules hmodules]
      constructor
      · rintro ⟨⟨placed, layout⟩, h⟩
        obtain ⟨-, rest, -, h⟩ | ⟨hne, -⟩ := tlsLayoutFrom_cons h
        · exact ⟨_, h⟩
        · exact absurd h0 hne
      · rintro ⟨r, h⟩
        exact ⟨_, by rw [tlsLayoutFrom, if_pos h0, h]; rfl⟩
    have hpos : image.tlsMemorySize.toNat ≠ 0 := fun h => h0 (UInt32.toNat_inj.1 h)
    rw [if_neg h0]
    constructor
    · rintro ⟨⟨placed, layout⟩, h⟩
      obtain ⟨h0', -⟩ | ⟨-, hroom, rest, -, h⟩ := tlsLayoutFrom_cons h
      · exact absurd h0' h0
      · have hle := (roundUp_spec cursor hroom.template.alignment_ne).1
        exact ⟨hroom, (ih (by omega)).1 ⟨_, h⟩⟩
    · rintro ⟨hroom, hfits⟩
      have hle := (roundUp_spec cursor hroom.template.alignment_ne).1
      have hstop := hroom.stop
      obtain ⟨r, h⟩ := (@ih _ (max alignment image.tlsAlignment.toNat) (modules + 1)
        (by omega)).2 hfits
      have hplace := (tlsPlace_iff h0 _).2 ⟨hroom, rfl⟩
      unfold tlsLayoutFrom
      rw [if_neg h0, hplace]
      dsimp only
      rw [if_neg (by omega), h]
      exact ⟨_, rfl⟩

structure TlsPlaced (placed : List AstraTlsImage) (layout : AstraDynamicTlsLayout)
    (cursor : ℕ) : Prop where
  le : cursor ≤ layout.memorySize
  blocks : ∀ image ∈ placed, image.tlsMemorySize ≠ 0 → TlsBlock layout image ∧ cursor ≤ image.offset
  apart : placed.Pairwise fun a b => a.tlsMemorySize ≠ 0 → b.tlsMemorySize ≠ 0 →
    a.offset + a.tlsMemorySize.toNat ≤ b.offset

theorem tlsLayoutFrom_placed (halign : ∃ k, alignment = 2 ^ k)
    (h : tlsLayoutFrom images cursor alignment modules = .ok (placed, layout)) :
    TlsPlaced placed layout cursor ∧ placed.map AstraTlsImage.template =
      images.map AstraTlsImage.template ∧ alignment ∣ layout.alignment ∧
      ∃ k, layout.alignment = 2 ^ k := by
  induction images generalizing cursor alignment modules placed with
  | nil =>
    cases h
    exact ⟨⟨le_rfl, by simp, .nil⟩, rfl, dvd_rfl, halign⟩
  | cons image images ih =>
    obtain ⟨h0, rest, rfl, hrest⟩ | ⟨h0, hroom, rest, rfl, hrest⟩ := tlsLayoutFrom_cons h
    · obtain ⟨hplaced, htemplates, hdvd, hpower⟩ := ih halign hrest
      refine ⟨⟨hplaced.le, ?_, pairwise_cons.2 ⟨fun _ _ hne => absurd h0 hne, hplaced.apart⟩⟩,
        by rw [map_cons, map_cons, htemplates]; rfl, hdvd, hpower⟩
      exact forall_mem_cons.2 ⟨fun hne => absurd h0 hne, hplaced.blocks⟩
    obtain ⟨k, hk⟩ := halign
    obtain ⟨j, -, hj⟩ := hroom.template.power
    have hmax : ∃ i, max alignment image.tlsAlignment.toNat = 2 ^ i ∧ k ≤ i ∧ j ≤ i := by
      rw [hk, hj]
      rcases le_total k j with hle | hle
      · exact ⟨j, max_eq_right (Nat.pow_le_pow_right (by omega) hle), hle, le_rfl⟩
      · exact ⟨k, max_eq_left (Nat.pow_le_pow_right (by omega) hle), le_rfl, hle⟩
    obtain ⟨i, hi, hki, hji⟩ := hmax
    obtain ⟨hplaced, htemplates, hdvd, hpower⟩ := ih ⟨i, hi⟩ hrest
    rw [hi] at hdvd
    have halign : image.tlsAlignment.toNat ∣ layout.alignment :=
      (hj ▸ pow_dvd_pow 2 hji : image.tlsAlignment.toNat ∣ 2 ^ i).trans hdvd
    obtain ⟨hle, haligned, -⟩ := roundUp_spec cursor hroom.template.alignment_ne
    have hend := hplaced.le
    have hoffset : ∀ n m : ℕ, ({ image with
        tlsModule := m, tlsTpOffset := (n : ℤ) - astraM68kTlsThreadPointerBias } :
          AstraTlsImage).offset = n := by
      intro n m
      unfold AstraTlsImage.offset
      simp
    refine ⟨⟨by omega, forall_mem_cons.2 ⟨fun _ => ⟨⟨hroom.template, ?_, ?_, ?_, ?_, halign⟩, ?_⟩,
      fun b hb hne => ?_⟩, pairwise_cons.2 ⟨fun b hb _ hne => ?_, hplaced.apart⟩⟩,
      by rw [map_cons, map_cons, htemplates]; rfl,
      (hk ▸ pow_dvd_pow 2 hki : alignment ∣ 2 ^ i).trans hdvd, hpower⟩
    · rw [hoffset]
    · rw [hoffset]
      exact hroom.start
    · rw [hoffset]
      exact hend
    · rw [hoffset]
      exact haligned
    · rw [hoffset]
      exact hle
    · obtain ⟨hblock, hlow⟩ := hplaced.blocks b hb hne
      exact ⟨hblock, by omega⟩
    · rw [hoffset]
      exact (hplaced.blocks b hb hne).2

/-! ## Filling an allocation -/

/-- The bytes of the template of an image; none of them where it has no bytes in the file. -/
def AstraTlsImage.fileBytes (image : AstraTlsImage) : List UInt8 :=
  (image.mapping.drop image.tlsAddress.toNat).take image.tlsFileSize.toNat

/-- The template is within the mapping of its image. -/
def AstraTlsImage.Readable (image : AstraTlsImage) : Prop :=
  image.tlsAddress.toNat + image.tlsFileSize.toNat ≤ image.mapping.length

/-- The bytes of the file and then zeros. -/
def TlsFilled (bytes : ℕ → UInt8) (image : AstraTlsImage) : Prop :=
  ∀ i < image.tlsMemorySize.toNat, bytes (image.offset + i) = image.fileBytes.getD i 0

theorem length_fileBytes (h : image.Readable) :
    image.fileBytes.length = image.tlsFileSize.toNat := by
  unfold AstraTlsImage.Readable at h
  rw [AstraTlsImage.fileBytes, length_take, length_drop]
  omega

theorem tlsFill_spec (hblock : TlsBlock layout image) (hmap : image.Readable)
    (hmodule : image.tlsModule = modules) :
    tlsFill layout image modules bytes = .ok (tlsCopy bytes image.offset image.fileBytes) := by
  have hstart := hblock.start
  have hstop := hblock.stop
  have hmax : int32Max + astraM68kTlsThreadPointerBias < uint32Max := by decide
  have hoffset : image.tlsTpOffset + astraM68kTlsThreadPointerBias = image.offset := by
    rw [hblock.offset, Int.sub_add_cancel]
  have hmapped : image.mapped image.tlsAddress.toNat image.tlsFileSize.toNat =
      some image.fileBytes := by
    unfold AstraTlsImage.mapped AstraTlsImage.Readable at *
    exact if_neg (by omega)
  unfold tlsFill
  rw [if_neg (not_or.2 ⟨not_not.2 hmodule, not_not.2 hblock.template⟩)]
  dsimp only
  rw [hoffset, Int.toNat_natCast, hblock.template.mask, Nat.mod_eq_zero_of_dvd hblock.aligned,
    hmapped, if_neg (by omega), if_neg (by omega)]

theorem tlsInitializeFrom_spec (halign : ∃ k, alignment = 2 ^ k)
    (h : tlsLayoutFrom images cursor alignment modules = .ok (placed, layout))
    (hmap : ∀ image ∈ placed, image.tlsMemorySize ≠ 0 → image.Readable)
    (hzero : ∀ i, cursor ≤ i → i < layout.memorySize → bytes i = 0) :
    ∃ bytes', tlsInitializeFrom layout placed modules bytes = .ok bytes' ∧
      (∀ i < cursor, bytes' i = bytes i) ∧
      ∀ image ∈ placed, image.tlsMemorySize ≠ 0 → TlsFilled bytes' image := by
  have hplaced := (tlsLayoutFrom_placed halign h).1
  induction images generalizing cursor alignment modules placed bytes with
  | nil =>
    cases h
    exact ⟨bytes, if_neg (not_not.2 rfl), fun _ _ => rfl, by simp⟩
  | cons image images ih =>
    obtain ⟨h0, rest, rfl, hrest⟩ | ⟨h0, hroom, rest, rfl, hrest⟩ := tlsLayoutFrom_cons h
    · obtain ⟨bytes', hbytes, hlow, hfilled⟩ := ih halign hrest
        (fun b hb => hmap b (mem_cons_of_mem _ hb)) hzero (tlsLayoutFrom_placed halign hrest).1
      refine ⟨bytes', ?_, hlow, forall_mem_cons.2 ⟨fun hne => absurd h0 hne, hfilled⟩⟩
      rw [tlsInitializeFrom, if_pos (show image.template.tlsMemorySize = 0 from h0),
        if_neg (by simp [AstraTlsImage.template])]
      exact hbytes
    have halign' : ∃ k, max alignment image.tlsAlignment.toNat = 2 ^ k := by
      obtain ⟨k, hk⟩ := halign
      obtain ⟨j, -, hj⟩ := hroom.template.power
      rcases max_choice alignment image.tlsAlignment.toNat with hm | hm <;> rw [hm]
      exacts [⟨k, hk⟩, ⟨j, hj⟩]
    obtain ⟨hblock, hcursor⟩ := hplaced.blocks _ mem_cons_self h0
    have hread := hmap _ mem_cons_self h0
    have hlength := length_fileBytes hread
    have hfile : image.tlsFileSize.toNat ≤ image.tlsMemorySize.toNat := hroom.template.1
    generalize hhead : ({ image with
      tlsModule := modules + 1
      tlsTpOffset := roundUp cursor image.tlsAlignment.toNat - astraM68kTlsThreadPointerBias } :
        AstraTlsImage) = head at *
    have hmemory : head.tlsMemorySize = image.tlsMemorySize := by rw [← hhead]
    have hsize : head.tlsFileSize = image.tlsFileSize := by rw [← hhead]
    have hmodule : head.tlsModule = modules + 1 := by rw [← hhead]
    have hoffset : head.offset = roundUp cursor image.tlsAlignment.toNat := by
      rw [← hhead, AstraTlsImage.offset]
      simp
    have hplaced' := (tlsLayoutFrom_placed halign' hrest).1
    have hend := hplaced'.le
    have hzero' : ∀ i, roundUp cursor image.tlsAlignment.toNat + image.tlsMemorySize.toNat ≤ i →
        i < layout.memorySize → tlsCopy bytes head.offset head.fileBytes i = 0 := by
      intro i hi hi'
      unfold tlsCopy
      rw [if_neg (by rw [hsize] at hlength; omega)]
      exact hzero i (by omega) hi'
    obtain ⟨bytes', hbytes, hlow, hfilled⟩ := ih halign' hrest
      (fun b hb => hmap b (mem_cons_of_mem _ hb)) hzero' hplaced'
    refine ⟨bytes', ?_, fun i hi => ?_, forall_mem_cons.2 ⟨fun _ i hi => ?_, hfilled⟩⟩
    · rw [tlsInitializeFrom, if_neg (hmemory.symm ▸ h0), tlsFill_spec hblock hread hmodule]
      exact hbytes
    · rw [hlow i (by omega)]
      exact if_neg (by omega)
    · rw [hmemory] at hi
      rw [hlow _ (by omega)]
      unfold tlsCopy
      by_cases hin : i < head.fileBytes.length
      · rw [if_pos (by omega), Nat.add_sub_cancel_left]
      · rw [if_neg (by omega), hzero _ (by omega) (by omega),
          getD_eq_getElem?_getD, List.getElem?_eq_none (by omega), Option.getD_none]

/-! ## The layout and the initialisation -/

/-- What the layout answers: the blocks, within the allocation, apart from each other and aligned
there; and an allocation of its size that is initialised from them has the templates in the blocks. -/
structure TlsAgrees (images placed : List AstraTlsImage) (layout : AstraDynamicTlsLayout) : Prop where
  templates : placed.map AstraTlsImage.template = images.map AstraTlsImage.template
  blocks : ∀ image ∈ placed, image.tlsMemorySize ≠ 0 → TlsBlock layout image
  apart : placed.Pairwise fun a b => a.tlsMemorySize ≠ 0 → b.tlsMemorySize ≠ 0 →
    a.offset + a.tlsMemorySize.toNat ≤ b.offset
  filled : (∀ image ∈ images, image.tlsMemorySize ≠ 0 → image.Readable) →
    ∀ destination capacity, layout.memorySize ≤ capacity →
      ∃ bytes, astraDynamicTlsInitialize placed layout (some destination) capacity = .ok bytes ∧
        ∀ image ∈ placed, image.tlsMemorySize ≠ 0 → TlsFilled bytes image

/-- A template of four bytes, aligned to more than the bias is. -/
def wideTemplate : AstraTlsImage := ⟨[1, 2, 3, 4], 0, 4, 8, 0x2000, 0, 0⟩

end Astra
