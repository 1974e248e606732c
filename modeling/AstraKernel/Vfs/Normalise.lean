import AstraKernel.Vfs.Path
import Mathlib.Data.List.TakeWhile

/-!
# Normalising a path

`vfs_path.c`: a path is measured before anything is made of it. Normalising writes its components
with slashes between them, drops `.` and empty ones, and takes the last one back at `..`. Collapsing
only drops the slashes behind a slash.
-/

namespace Astra

abbrev slash : UInt8 := 0x2f
abbrev dot : UInt8 := 0x2e

/-- The string that starts where the bytes do. -/
def CString.ofBytes (bytes : List UInt8) : CString :=
  ⟨bytes.takeWhile (· ≠ 0), fun h => by simpa using List.mem_takeWhile_imp h⟩

/-- The status, and the length without the terminator. -/
def astraVfsPathMeasure (path : Option CString) : AstraVfsStatus × ℕ :=
  let (status, bytes) := pathOperandLength path
  (status, if status = .ok then bytes - 1 else 0)

def outputOverflow (capacity : ℕ) : AstraVfsStatus :=
  if capacity ≥ astraVfsPathMax then .nameTooLong else .bufferTooSmall

def isParent (component : List UInt8) : Bool := component = [dot, dot]

def isCurrent (component : List UInt8) : Bool := component = [dot]

/-- `out` back to where its last component starts, and without the separator before it. -/
def dropComponent (out : List UInt8) : List UInt8 :=
  ((out.reverse.dropWhile (· ≠ slash)).drop 1).reverse

/-- One round of the loop, for what stands between two slashes. -/
def normaliseComponent (capacity : ℕ) (out component : List UInt8) :
    Except AstraVfsStatus (List UInt8) :=
  if component = [] then .ok out
  else if isCurrent component then .ok out
  else if isParent component then
    if out = [] then .error .notFound else .ok (dropComponent out)
  else
    let longer := if out = [] then component else out ++ slash :: component
    if longer.length ≥ capacity then .error (outputOverflow capacity) else .ok longer

def astraPathNormalise (rest : CString) (capacity : ℕ) : Except AstraVfsStatus (List UInt8) :=
  if (astraVfsPathMeasure (some rest)).1 ≠ .ok then .error (astraVfsPathMeasure (some rest)).1
  else if capacity = 0 then .error .invalid
  else (rest.bytes.splitOn slash).foldlM (normaliseComponent capacity) []

/-- One byte; a slash behind a slash is passed. -/
def collapseByte (capacity : ℕ) (out : List UInt8) (c : UInt8) :
    Except AstraVfsStatus (List UInt8) :=
  if c = slash ∧ out.getLast? = some slash then .ok out
  else if out.length + 1 ≥ capacity then .error (outputOverflow capacity)
  else .ok (out ++ [c])

def astraPathCollapse (path : CString) (capacity : ℕ) : Except AstraVfsStatus (List UInt8) :=
  if (astraVfsPathMeasure (some path)).1 ≠ .ok then .error (astraVfsPathMeasure (some path)).1
  else if capacity = 0 then .error .invalid
  else path.bytes.foldlM (collapseByte capacity) []

end Astra
