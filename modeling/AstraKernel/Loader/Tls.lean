import AstraKernel.Bitmap
import AstraKernel.Thread.Pool

/-!
# Thread-local storage of an image closure

`dynamic_loader.c`: each image with a TLS template gets a block behind the one before it, and a
fresh allocation is filled from the templates. The thread pointer is a bias above its start.
-/

namespace Astra

abbrev astraM68kTlsThreadPointerBias : ℕ := 0x7000
abbrev int32Max : ℕ := 2 ^ 31 - 1

inductive AstraDynamicStatus
  | ok | invalidArgument | badElf | tlsUnavailable
  deriving DecidableEq

/-- What the layout reads and writes of an image; `mapping` are the bytes of its mapping. -/
structure AstraTlsImage where
  mapping : List UInt8
  tlsAddress : UInt32
  tlsFileSize : UInt32
  tlsMemorySize : UInt32
  tlsAlignment : UInt32
  tlsTpOffset : ℤ
  tlsModule : ℕ
  deriving DecidableEq

structure AstraDynamicTlsLayout where
  memorySize : ℕ
  alignment : ℕ
  moduleCount : ℕ
  deriving DecidableEq

namespace AstraTlsImage

variable (image : AstraTlsImage)

/-- The file size is within the memory size, and the alignment a power of two. -/
def TemplateOk : Prop :=
  image.tlsFileSize ≤ image.tlsMemorySize ∧ image.tlsAlignment ≠ 0 ∧
    image.tlsAlignment.toNat &&& (image.tlsAlignment.toNat - 1) = 0

instance : Decidable image.TemplateOk := inferInstanceAs (Decidable (_ ∧ _ ∧ _))

def mapped (address size : ℕ) : Option (List UInt8) :=
  if size > image.mapping.length ∨ address > image.mapping.length - size then none
  else some ((image.mapping.drop address).take size)

/-- Where the block of the image starts behind `cursor`. -/
def tlsPlace (cursor : ℕ) : Except AstraDynamicStatus ℕ :=
  if ¬image.TemplateOk then .error .badElf
  else
    let mask := image.tlsAlignment.toNat - 1
    if cursor > uint32Max - mask then .error .tlsUnavailable
    else
      -- `aligned &= ~mask`
      let aligned := cursor + mask - ((cursor + mask) &&& mask)
      if aligned > uint32Max - image.tlsMemorySize.toNat ∨
          aligned > int32Max + astraM68kTlsThreadPointerBias then .error .tlsUnavailable
      else .ok aligned

end AstraTlsImage

/-- The images with their places; `cursor`, `alignment` and `modules` are what those before came to. -/
def tlsLayoutFrom : List AstraTlsImage → ℕ → ℕ → ℕ →
    Except AstraDynamicStatus (List AstraTlsImage × AstraDynamicTlsLayout)
  | [], cursor, alignment, modules => .ok ([], ⟨cursor, alignment, modules⟩)
  | image :: images, cursor, alignment, modules =>
    if image.tlsMemorySize = 0 then
      (tlsLayoutFrom images cursor alignment modules).map fun r =>
        ({ image with tlsModule := 0, tlsTpOffset := 0 } :: r.1, r.2)
    else match image.tlsPlace cursor with
    | .error status => .error status
    | .ok aligned =>
      if modules = uint32Max then .error .tlsUnavailable
      else
        (tlsLayoutFrom images (aligned + image.tlsMemorySize.toNat)
          (max alignment image.tlsAlignment.toNat) (modules + 1)).map fun r =>
            ({ image with tlsModule := modules + 1
                          tlsTpOffset := aligned - astraM68kTlsThreadPointerBias } :: r.1, r.2)

def astraDynamicTlsLayout (images : List AstraTlsImage) :
    Except AstraDynamicStatus (List AstraTlsImage × AstraDynamicTlsLayout) :=
  tlsLayoutFrom images 0 1 0

/-- `source` at an offset of the destination. -/
def tlsCopy (bytes : ℕ → UInt8) (offset : ℕ) (source : List UInt8) : ℕ → UInt8 :=
  fun i => if offset ≤ i ∧ i < offset + source.length then source.getD (i - offset) 0 else bytes i

/-- One turn of `astra_dynamic_tls_initialize`, for an image that has a template. -/
def tlsFill (layout : AstraDynamicTlsLayout) (image : AstraTlsImage) (expected : ℕ)
    (bytes : ℕ → UInt8) : Except AstraDynamicStatus (ℕ → UInt8) :=
  if image.tlsModule ≠ expected ∨ ¬image.TemplateOk then .error .tlsUnavailable
  else
    let signed := image.tlsTpOffset + astraM68kTlsThreadPointerBias
    if signed < 0 ∨ signed > uint32Max then .error .tlsUnavailable
    else
      let offset := signed.toNat
      if offset &&& (image.tlsAlignment.toNat - 1) ≠ 0 ∨
          image.tlsMemorySize.toNat > layout.memorySize ∨
          offset > layout.memorySize - image.tlsMemorySize.toNat then .error .tlsUnavailable
      else match image.mapped image.tlsAddress.toNat image.tlsFileSize.toNat with
      | none => if image.tlsFileSize ≠ 0 then .error .badElf else .ok bytes
      | some source => .ok (tlsCopy bytes offset source)

def tlsInitializeFrom (layout : AstraDynamicTlsLayout) :
    List AstraTlsImage → ℕ → (ℕ → UInt8) → Except AstraDynamicStatus (ℕ → UInt8)
  | [], expected, bytes =>
    if expected ≠ layout.moduleCount then .error .tlsUnavailable else .ok bytes
  | image :: images, expected, bytes =>
    if image.tlsMemorySize = 0 then
      if image.tlsModule ≠ 0 ∨ image.tlsTpOffset ≠ 0 then .error .tlsUnavailable
      else tlsInitializeFrom layout images expected bytes
    else match tlsFill layout image (expected + 1) bytes with
    | .error status => .error status
    | .ok bytes => tlsInitializeFrom layout images (expected + 1) bytes

/-- The allocation with its first bytes cleared and filled; `none` is a null pointer. -/
def astraDynamicTlsInitialize (images : List AstraTlsImage) (layout : AstraDynamicTlsLayout)
    (destination : Option (ℕ → UInt8)) (capacity : ℕ) : Except AstraDynamicStatus (ℕ → UInt8) :=
  if layout.alignment = 0 ∨ layout.alignment &&& (layout.alignment - 1) ≠ 0 ∨
      layout.memorySize > capacity ∨ (layout.memorySize ≠ 0 ∧ destination = none) then
    .error .invalidArgument
  else
    tlsInitializeFrom layout images 0 fun i =>
      if i < layout.memorySize then 0 else destination.elim 0 (· i)

end Astra
