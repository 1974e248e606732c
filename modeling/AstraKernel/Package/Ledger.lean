import AstraKernel.Vfs.Normalise
import AstraKernel.Vfs.Utf8

/-!
# The ledger of a package

A package lists what it installs, one entry a line (`parse_ledger`). Every path is in the bundle, a
directory comes before what it holds, and a link may not lead out of the bundle, which is checked
for each link by counting how deep its target is. The hash and what the allocator answers are
parameters. What only the making of a package uses is left out.
-/

namespace Astra

abbrev packageEntriesMax : ℕ := 65536

inductive PackageKind
  | directory | file | symlink
  deriving DecidableEq

structure PackageEntry where
  path : List UInt8
  link : Option (List UInt8)
  length : ℕ
  mode : ℕ
  kind : PackageKind
  digest : List UInt8
  deriving DecidableEq

abbrev backslash : UInt8 := 0x5c
abbrev colon : UInt8 := 0x3a
abbrev newline : UInt8 := 0x0a
abbrev tab : UInt8 := 0x09

/-- A control character, or the one that deletes. -/
def isControl (byte : UInt8) : Bool := byte < 0x20 ∨ byte = 0x7f

def validComponent (name : List UInt8) : Bool :=
  name ≠ [] ∧ ¬ isCurrent name ∧ ¬ isParent name ∧
    name.all (fun byte => ¬ isControl byte ∧ byte ≠ slash ∧ byte ≠ backslash ∧ byte ≠ colon) ∧
    astraUtf8Validate name

/-- The loop of `safe_link` over the components of a target. -/
def linkStays : ℕ → List (List UInt8) → Bool
  | _, [] => true
  | depth, part :: parts =>
    if part = [] ∨ backslash ∈ part ∨ colon ∈ part then false
    else if isCurrent part then linkStays depth parts
    else if isParent part then if depth ≤ 1 then false else linkStays (depth - 1) parts
    else if part.any isControl then false
    else linkStays (depth + 1) parts

/-- `relative` is where the link is, the name of the bundle first. -/
def safeLink (relative target : List UInt8) : Bool :=
  if target = [] ∨ target.head? = some slash ∨ astraVfsPathMax ≤ target.length
      ∨ ¬ astraUtf8Validate target then false
  else if relative.count slash = 0 then false
  else linkStays (relative.count slash) (target.splitOn slash)

def ledgerMode (text : List UInt8) : Option ℕ :=
  if text.length ≠ 4 ∨ text.any (fun c => c < 0x30 ∨ 0x37 < c) then none
  else some (text.foldl (fun value c => 8 * value + (c.toNat - 0x30)) 0)

/-- The loop of `ledger_length`, from `value` on. -/
def ledgerDigits : ℕ → List UInt8 → Option ℕ
  | value, [] => some value
  | value, c :: text =>
    if c < 0x30 ∨ 0x39 < c ∨ (2 ^ 32 - 1 - (c.toNat - 0x30)) / 10 < value then none
    else ledgerDigits (10 * value + (c.toNat - 0x30)) text

def ledgerLength (text : List UInt8) : Option ℕ :=
  if text = [] then none else ledgerDigits 0 text

def digestDigit (c : UInt8) : Option UInt8 :=
  if 0x30 ≤ c ∧ c ≤ 0x39 then some (c - 0x30)
  else if 0x61 ≤ c ∧ c ≤ 0x66 then some (c - 0x61 + 10)
  else none

def hexPairs : List UInt8 → Option (List UInt8)
  | [] => some []
  | high :: low :: text =>
    match digestDigit high, digestDigit low, hexPairs text with
    | some h, some l, some digest => some ((16 * h + l) :: digest)
    | _, _, _ => none
  | [_] => none

def hexDigest (text : List UInt8) : Option (List UInt8) :=
  if text.length ≠ 64 then none else hexPairs text

/-- `payload/` -/
def payloadPrefix : List UInt8 := [0x70, 0x61, 0x79, 0x6c, 0x6f, 0x61, 0x64, 0x2f]

/-- What of a path is behind `payload/`. -/
def relativePath (path : List UInt8) : List UInt8 := path.drop payloadPrefix.length

def payloadPath (path bundle : List UInt8) : Bool :=
  let at_ := relativePath path
  payloadPrefix <+: path ∧ bundle <+: at_ ∧
    (at_.length = bundle.length ∨ at_[bundle.length]? = some slash) ∧
    (at_ = [] ∨ ∀ name ∈ at_.splitOn slash, name.length < astraVfsNameMax ∧ validComponent name)

/-- The search for a path in the entries there are, which are in order. -/
def lowerBound (entries : List PackageEntry) (path : List UInt8) : ℕ → ℕ → ℕ → ℕ
  | 0, low, _ => low
  | fuel + 1, low, high =>
    if low < high then
      let middle := low + (high - low) / 2
      match entries[middle]? with
      | some e =>
        if e.path < path then lowerBound entries path fuel (middle + 1) high
        else lowerBound entries path fuel low middle
      | none => low
    else low

/-- The directory a path is in is among the entries. -/
def parentListed (entries : List PackageEntry) (path : List UInt8) : Bool :=
  let parent := dropComponent path
  match entries[lowerBound entries parent entries.length 0 entries.length]? with
  | some e => e.path = parent ∧ e.kind = .directory
  | none => false

def kindOf (field : List UInt8) : Option PackageKind :=
  if field = [0x64] then some .directory
  else if field = [0x6c] then some .symlink
  else if field = [0x66] then some .file
  else none

/-- What an entry of a kind has to be. -/
def entryFits (kind : PackageKind) (mode length : ℕ) (path : List UInt8)
    (link : Option (List UInt8)) : Bool :=
  match kind, link with
  | .directory, none => mode = 0o755 ∧ length = 0
  | .file, none => mode = 0o644 ∨ mode = 0o755
  | .symlink, some target => mode = 0o777 ∧ length = 0 ∧ safeLink (relativePath path) target
  | _, _ => false

/-- One round of the loop of `parse_ledger`, for the fields of a line. -/
def ledgerEntry (sha256 : List UInt8 → List UInt8) (bundle : List UInt8)
    (entries : List PackageEntry) : List (List UInt8) → Option PackageEntry
  | kind :: mode :: length :: digest :: path :: links =>
    match kindOf kind, ledgerMode mode, ledgerLength length, hexDigest digest with
    | some kind, some mode, some length, some digest =>
      if links.length ≤ 1 ∧ payloadPath path bundle ∧ (∀ e ∈ entries.getLast?, e.path < path) ∧
          entryFits kind mode length path links.head? ∧
          (if entries = [] then kind = .directory ∧ relativePath path = bundle
            else parentListed entries path) ∧
          (kind = .file ∨ sha256 (links.head?.getD []) = digest) then
        some ⟨path, links.head?, length, mode, kind, digest⟩
      else none
    | _, _, _, _ => none
  | _ => none

/-- The fields of the line the text starts with; what is behind a NUL is not read. -/
def ledgerFields (text : List UInt8) : List (List UInt8) :=
  ((text.takeWhile (· ≠ newline)).takeWhile (· ≠ 0)).splitOn tab

/-- `memory` tells for each entry whether there is room for it; the fuel is the number of bytes. -/
def parseLedger (sha256 : List UInt8 → List UInt8) (memory : ℕ → Bool) (bundle : List UInt8) :
    ℕ → List PackageEntry → List UInt8 → Except AstraVfsStatus (List PackageEntry)
  | _, entries, [] => if entries = [] then .error .protocol else .ok entries
  | 0, _, _ :: _ => .error .protocol
  | fuel + 1, entries, c :: text =>
    if packageEntriesMax ≤ entries.length then .error .limit
    else if newline ∉ c :: text then .error .protocol
    else
      match ledgerEntry sha256 bundle entries (ledgerFields (c :: text)) with
      | none => .error .protocol
      | some e =>
        if memory entries.length = false then .error .limit
        else
          parseLedger sha256 memory bundle fuel (entries ++ [e])
            (((c :: text).dropWhile (· ≠ newline)).drop 1)

end Astra
