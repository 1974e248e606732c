import AstraKernel.Config.Document

/-!
# The edits of the configuration library

What `config_library.c` makes of a document in memory: a set, an append, a remove or a list of
changes, each a new text or a status. Memory and the sealing of sensitive values are given.
-/

namespace Astra

inductive AstraConfigLibraryStatus
  | ok | invalid | notFound | access | io | noMemory | malformed | unsupportedVersion
  | bufferTooSmall | closed | authFailed | busy | conflict
  deriving DecidableEq

def ofDocument : AstraConfigStatus → AstraConfigLibraryStatus
  | .ok => .ok
  | .invalid => .invalid
  | .notFound => .notFound
  | .malformed => .malformed
  | .unsupportedVersion => .unsupportedVersion
  | .bufferTooSmall => .bufferTooSmall

/-- `map_status`. -/
def ofVfs : AstraVfsStatus → AstraConfigLibraryStatus
  | .ok => .ok
  | .notFound => .notFound
  | .access => .access
  | .busy => .busy
  | .limit => .noMemory
  | .noSpace => .noMemory
  | _ => .io

structure AstraConfigField where
  key : CString
  sensitive : Bool

structure AstraConfigSchema where
  version : ℕ
  fields : List AstraConfigField

def schemaField (schema : AstraConfigSchema) (key : CString) : Option AstraConfigField :=
  schema.fields.find? fun field => field.key = key

inductive AstraConfigChangeOperation
  | set
  | append
  | remove
  deriving DecidableEq

structure AstraConfigChange where
  key : CString
  value : Option CString
  index : ℕ
  operation : AstraConfigChangeOperation

/-- The calls that change a document. -/
inductive ConfigRequest
  | setString (key : CString) (index : ℕ) (value : CString)
  | appendString (key value : CString)
  | remove (key : CString) (index : ℕ)
  | apply (changes : List AstraConfigChange)

/-- Why a value was not sealed. -/
structure ConfigFailure where
  status : AstraConfigLibraryStatus
  failed : status ≠ .ok

/-- What the system answers to the edit at each place of a list: that there is memory for the text,
and the sealed value. -/
structure ConfigAnswers where
  memory : ℕ → Bool
  sealed : ℕ → Except ConfigFailure (List UInt8)

abbrev configSecretMax : ℕ := 1024
abbrev configSecretOverhead : ℕ := 44
abbrev configSecretEnvelope : ℕ := configSecretMax + configSecretOverhead

/-- `initial`. -/
def initialDocument (version : ℕ) : List UInt8 :=
  headerNames 0 ++ [0x20, 0x31, configLf] ++ headerNames 1 ++ [0x20] ++
    (Nat.toDigits 10 version).map (fun digit => UInt8.ofNat digit.toNat) ++ [configLf]

def astraConfigDocumentCount (text : List UInt8) (key : CString) :
    Option (Except AstraConfigLibraryStatus ℕ) :=
  (findLine text key 0).map fun
    | .error status => .error (ofDocument status)
    | .ok (_, count) => .ok count

/-- The bytes that a successful edit leaves in an area of the size it asked for; no result where it
writes past the area. -/
def areaText (required : ℕ) (written : Option (List UInt8)) : Option (List UInt8) :=
  match written with
  | none => none
  | some bytes => if bytes.length = required then some bytes.dropLast else none

/-- `transform`, of which `value` is none for a remove. -/
def transform (schema : AstraConfigSchema) (source : List UInt8) (key : CString) (index : ℕ)
    (value : Option CString) (memory : Bool) :
    Option (Except AstraConfigLibraryStatus (List UInt8)) :=
  if (schemaField schema key).isNone then some (.error .invalid)
  else do
    let edit := fun capacity => match value with
      | none => astraConfigDocumentRemove source key index capacity
      | some value => astraConfigDocumentReplace source key index value capacity
    let probe ← edit none
    if probe.status ≠ .bufferTooSmall then some (.error (ofDocument probe.status))
    else if memory = false then some (.error .noMemory)
    else do
      let required := probe.size.getD 0
      let answer ← edit (some required)
      if answer.status ≠ .ok then some (.error (ofDocument answer.status))
      else (areaText required answer.written).map .ok

def hexDigit (value : ℕ) : UInt8 := if value < 10 then UInt8.ofNat (0x30 + value) else
  UInt8.ofNat (0x61 + value - 10)

def hexText (bytes : List UInt8) : List UInt8 :=
  bytes.flatMap fun byte => [hexDigit (byte.toNat / 16), hexDigit (byte.toNat % 16)]

theorem hexDigit_ne {value : ℕ} (h : value < 16) : hexDigit value ≠ 0 := by
  revert value
  decide

theorem hexText_noNul (bytes : List UInt8) : (0 : UInt8) ∉ hexText bytes := by
  intro hmem
  obtain ⟨byte, -, hbyte⟩ := List.mem_flatMap.1 hmem
  have hlt := byte.toNat_lt
  simp only [List.mem_cons, List.not_mem_nil, or_false] at hbyte
  rcases hbyte with h | h
  · exact hexDigit_ne (by omega) h.symm
  · exact hexDigit_ne (by omega) h.symm

/-- The value of a sensitive field as it is stored. -/
def sensitiveEncode (value : CString)
    (sealed : Except ConfigFailure (List UInt8)) :
    Except AstraConfigLibraryStatus CString :=
  if value.bytes.length = 0 ∨ value.bytes.length > configSecretMax then .error .invalid
  else
    match sealed with
    | .error failure => .error failure.status
    | .ok bytes =>
      if bytes.length = 0 ∨ bytes.length > configSecretEnvelope then .error .io
      else .ok ⟨hexText bytes, hexText_noNul bytes⟩

/-- The value that is put, for the field of the key. -/
def storedValue (field : AstraConfigField) (value : CString)
    (sealed : Except ConfigFailure (List UInt8)) :
    Except AstraConfigLibraryStatus CString :=
  if field.sensitive then sensitiveEncode value sealed else .ok value

/-- `set_unlocked`, as far as the new text. -/
def setUnlocked (schema : AstraConfigSchema) (answers : ConfigAnswers) (place : ℕ)
    (source : List UInt8) (key : CString) (index : ℕ) (value : CString) :
    Option (Except AstraConfigLibraryStatus (List UInt8)) :=
  match schemaField schema key with
  | none => some (.error .invalid)
  | some field =>
    match storedValue field value (answers.sealed place) with
    | .error status => some (.error status)
    | .ok stored => transform schema source key index (some stored) (answers.memory place)

/-- Behind the last value of the key. -/
def appendUnlocked (schema : AstraConfigSchema) (answers : ConfigAnswers) (place : ℕ)
    (source : List UInt8) (key value : CString) :
    Option (Except AstraConfigLibraryStatus (List UInt8)) := do
  match ← astraConfigDocumentCount source key with
  | .error status => some (.error status)
  | .ok count => setUnlocked schema answers place source key count value

def applyChange (schema : AstraConfigSchema) (answers : ConfigAnswers) (place : ℕ)
    (source : List UInt8) (item : AstraConfigChange) :
    Option (Except AstraConfigLibraryStatus (List UInt8)) :=
  match item.operation, item.value with
  | .set, some value => setUnlocked schema answers place source item.key item.index value
  | .append, some value => appendUnlocked schema answers place source item.key value
  | _, _ => transform schema source item.key item.index none (answers.memory place)

/-- The changes from the given place on, each made in what the one before has left. -/
def applyChangesFrom (schema : AstraConfigSchema) (answers : ConfigAnswers) :
    List AstraConfigChange → ℕ → List UInt8 →
    Option (Except AstraConfigLibraryStatus (List UInt8))
  | [], _, text => some (.ok text)
  | item :: changes, place, text => do
    match ← applyChange schema answers place text item with
    | .error status => some (.error status)
    | .ok next => applyChangesFrom schema answers changes (place + 1) next

def changeValid (schema : AstraConfigSchema) (item : AstraConfigChange) : Bool :=
  (schemaField schema item.key).isSome &&
    (if item.operation = .remove then item.value.isNone else item.value.isSome) &&
    (item.operation ≠ .append || item.index = 0)

namespace ConfigRequest

/-- What is checked before the lock is taken. -/
def valid (schema : AstraConfigSchema) : ConfigRequest → Bool
  | .setString key _ _ => (schemaField schema key).isSome
  | .appendString key _ => (schemaField schema key).isSome
  | .remove key _ => (schemaField schema key).isSome
  | .apply changes => 0 < changes.length && changes.length ≤ 64 && changes.all (changeValid schema)

/-- The new text for the one that is given, or a status. -/
def edited (schema : AstraConfigSchema) (answers : ConfigAnswers) (text : List UInt8) :
    ConfigRequest → Option (Except AstraConfigLibraryStatus (List UInt8))
  | .setString key index value => setUnlocked schema answers 0 text key index value
  | .appendString key value => appendUnlocked schema answers 0 text key value
  | .remove key index => transform schema text key index none (answers.memory 0)
  | .apply changes => applyChangesFrom schema answers changes 0 text

end ConfigRequest

end Astra
