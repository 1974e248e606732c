import AstraKernel.Vfs.Normalise
import Mathlib.Data.List.DropRight

/-!
# Configuration documents

A document is lines of settings, `key = value` with the value plain or quoted, and comments; its
first two settings name the format and the schema (`config_document.c`). A setting is read, replaced
or removed by its key and its index among the settings of that key behind the first two.
-/

namespace Astra

abbrev configTab : UInt8 := 0x09
abbrev configLf : UInt8 := 0x0a
abbrev configCr : UInt8 := 0x0d
abbrev configQuote : UInt8 := 0x22
abbrev configHash : UInt8 := 0x23
abbrev configEqual : UInt8 := 0x3d
abbrev configBackslash : UInt8 := 0x5c

inductive AstraConfigStatus
  | ok
  | invalid
  | notFound
  | malformed
  | unsupportedVersion
  | bufferTooSmall
  deriving DecidableEq

def configSpace (b : UInt8) : Bool := b = 0x20 ∨ b = configTab

def keyCharacter (b : UInt8) : Bool :=
  (0x61 ≤ b ∧ b ≤ 0x7a) ∨ (0x41 ≤ b ∧ b ≤ 0x5a) ∨ (0x30 ≤ b ∧ b ≤ 0x39) ∨ b = 0x2d ∨ b = 0x5f ∨
    b = 0x2e

/-- `none`: a key of `2^32` key characters is never at its end, as the index comes round. -/
def astraConfigDocumentKeyValid (key : CString) : Option Bool :=
  if key.bytes = [] ∨ (key.bytes.take (2 ^ 32)).all keyCharacter = false then some false
  else if key.bytes.length < 2 ^ 32 then some true
  else none

/-- A line without its end, and its end: LF, CR, CR LF, or nothing at the end of the document. -/
structure CutLine where
  content : List UInt8
  ending : List UInt8
  deriving DecidableEq

def CutLine.bytes (line : CutLine) : List UInt8 := line.content ++ line.ending

def lineCharacter (b : UInt8) : Bool := b ≠ configLf ∧ b ≠ configCr

def lineEnding : List UInt8 → List UInt8
  | [] => []
  | b :: behind => if b = configCr ∧ behind.head? = some configLf then [configCr, configLf] else [b]

/-- Where `line_parse` puts the end of the line that starts the bytes. -/
def cutLine (rest : List UInt8) : CutLine where
  content := rest.takeWhile lineCharacter
  ending := lineEnding (rest.dropWhile lineCharacter)

/-- The lines that the loops over a document go through; every line takes a byte at least. -/
def configLines : ℕ → List UInt8 → List CutLine
  | _, [] => []
  | 0, _ :: _ => []
  | fuel + 1, b :: rest =>
    let line := cutLine (b :: rest)
    line :: configLines fuel ((b :: rest).drop line.bytes.length)

def documentLines (text : List UInt8) : List CutLine := configLines text.length text

/-- `value` is as it stands in the document, without its quotes. -/
structure ConfigSetting where
  key : List UInt8
  value : List UInt8
  quoted : Bool
  deriving DecidableEq

def escapable (b : UInt8) : Bool :=
  b = configBackslash ∨ b = configQuote ∨ b = 0x6e ∨ b = 0x72 ∨ b = 0x74

/-- Up to the closing quote, and what is behind it. -/
def quotedValue : List UInt8 → Option (List UInt8 × List UInt8)
  | [] => none
  | [b] => if b = configQuote then some ([], []) else none
  | b :: e :: rest =>
    if b = configQuote then some ([], e :: rest)
    else if b = configBackslash then
      if escapable e then (quotedValue rest).map fun found => (b :: e :: found.1, found.2) else none
    else (quotedValue (e :: rest)).map fun found => (b :: found.1, found.2)

/-- Up to a comment: a hash at the start or behind a blank. -/
def plainValue : Bool → List UInt8 → List UInt8
  | _, [] => []
  | blank, b :: rest =>
    if b = configHash ∧ blank then [] else b :: plainValue (configSpace b) rest

/-- What `line_parse` makes of a line. -/
def lineParse (content : List UInt8) : Except AstraConfigStatus (Option ConfigSetting) :=
  let body := content.dropWhile configSpace
  if body = [] ∨ body.head? = some configHash then .ok none
  else
    let key := body.takeWhile keyCharacter
    let behind := body.dropWhile keyCharacter
    if key = [] then .error .malformed
    else if behind.head?.any (fun b => !configSpace b && b != configEqual) then .error .malformed
    else
      let separated := behind.head?.any configSpace
      let behind := behind.dropWhile configSpace
      let equal := behind.head? == some configEqual
      let behind := if equal then behind.tail.dropWhile configSpace else behind
      if separated = false ∧ equal = false then .error .malformed
      else if behind = [] ∨ behind.head? = some configHash then
        if equal = false then .error .malformed else .ok (some ⟨key, [], false⟩)
      else if behind.head? = some configQuote then
        match quotedValue behind.tail with
        | none => .error .malformed
        | some (value, after) =>
          if (after.dropWhile configSpace).head?.any (· != configHash) then .error .malformed
          else .ok (some ⟨key, value, true⟩)
      else .ok (some ⟨key, (plainValue true behind).rdropWhile configSpace, false⟩)

/-- In a quoted value that was parsed a backslash is never the last byte. -/
def decodedLength (quoted : Bool) : List UInt8 → ℕ
  | [] => 0
  | [_] => 1
  | b :: e :: rest =>
    if quoted ∧ b = configBackslash then decodedLength quoted rest + 1
    else decodedLength quoted (e :: rest) + 1

def unescaped (e : UInt8) : UInt8 :=
  if e = 0x6e then configLf else if e = 0x72 then configCr else if e = 0x74 then configTab else e

def decode (quoted : Bool) : List UInt8 → List UInt8
  | [] => []
  | [b] => [b]
  | b :: e :: rest =>
    if quoted ∧ b = configBackslash then unescaped e :: decode quoted rest
    else b :: decode quoted (e :: rest)

/-- Digits only, at most `UINT32_MAX` and not zero. -/
def decimalFrom : ℕ → List UInt8 → Option ℕ
  | result, [] => if result = 0 then none else some result
  | result, b :: rest =>
    if b < 0x30 ∨ b > 0x39 then none
    else
      let digit := b.toNat - 0x30
      if result > (2 ^ 32 - 1 - digit) / 10 then none else decimalFrom (result * 10 + digit) rest

def decimal (setting : ConfigSetting) : Option ℕ :=
  if setting.quoted ∨ setting.value = [] then none else decimalFrom 0 setting.value

structure AstraConfigDocumentError where
  line : UInt32
  version : UInt32
  deriving DecidableEq

/-- "astra-config" and "schema". -/
def headerNames : ℕ → List UInt8
  | 0 => [0x61, 0x73, 0x74, 0x72, 0x61, 0x2d, 0x63, 0x6f, 0x6e, 0x66, 0x69, 0x67]
  | _ => [0x73, 0x63, 0x68, 0x65, 0x6d, 0x61]

/-- The loop of `astra_config_document_validate`. -/
def validateFrom (schemaVersion : ℕ) :
    List CutLine → UInt32 → ℕ → AstraConfigStatus × AstraConfigDocumentError
  | [], lineNumber, header =>
    if header ≠ 2 then (.malformed, ⟨lineNumber, 0⟩) else (.ok, ⟨0, 0⟩)
  | line :: lines, lineNumber, header =>
    match lineParse line.content with
    | .error status => (status, ⟨lineNumber, 0⟩)
    | .ok none => validateFrom schemaVersion lines (lineNumber + 1) header
    | .ok (some setting) =>
      if header < 2 then
        let wanted := if header = 0 then 1 else schemaVersion
        match if setting.key = headerNames header then decimal setting else none with
        | none => (.malformed, ⟨lineNumber, 0⟩)
        | some found =>
          if found ≠ wanted then (.unsupportedVersion, ⟨lineNumber, UInt32.ofNat found⟩)
          else validateFrom schemaVersion lines (lineNumber + 1) (header + 1)
      else validateFrom schemaVersion lines (lineNumber + 1) header

def astraConfigDocumentValidate (text : List UInt8) (schemaVersion : ℕ) :
    AstraConfigStatus × AstraConfigDocumentError :=
  if schemaVersion = 0 ∨ astraUtf8Validate text = false then (.invalid, ⟨0, 0⟩)
  else validateFrom schemaVersion (documentLines text) 1 0

structure ConfigLine where
  start : ℕ
  stop : ℕ
  setting : ConfigSetting

/-- The loop of `find`: the line found and the settings of the key. -/
def findFrom (key : List UInt8) (wanted : ℕ) :
    List CutLine → ℕ → ℕ → ℕ → Option ConfigLine → Except AstraConfigStatus (Option ConfigLine × ℕ)
  | [], _, _, count, found => .ok (found, count)
  | line :: lines, cursor, effective, count, found =>
    let stop := cursor + line.bytes.length
    match lineParse line.content with
    | .error status => .error status
    | .ok none => findFrom key wanted lines stop effective count found
    | .ok (some setting) =>
      if effective < 2 ∨ setting.key ≠ key then
        findFrom key wanted lines stop (effective + 1) count found
      else findFrom key wanted lines stop (effective + 1) (count + 1)
        (if count = wanted then some ⟨cursor, stop, setting⟩ else found)

/-- `none` while the key is not at its end; `NOT_FOUND` is that there is no line. -/
def findLine (text : List UInt8) (key : CString) (wanted : ℕ) :
    Option (Except AstraConfigStatus (Option ConfigLine × ℕ)) :=
  match astraConfigDocumentKeyValid key with
  | none => none
  | some false => some (.error .invalid)
  | some true =>
    if astraUtf8Validate text = false then some (.error .invalid)
    else some (findFrom key.bytes wanted (documentLines text) 0 0 0 none)

/-- What a call leaves: `size` where it was written, and the bytes put at `out`. -/
structure ConfigAnswer where
  status : AstraConfigStatus
  size : Option ℕ
  written : Option (List UInt8)
  deriving DecidableEq

/-- `capacity` is none where there is no buffer. -/
def astraConfigDocumentGet (text : List UInt8) (key : CString) (index : ℕ) (capacity : Option ℕ) :
    Option ConfigAnswer :=
  match findLine text key index with
  | none => none
  | some (.error status) => some ⟨status, some 0, none⟩
  | some (.ok (none, _)) => some ⟨.notFound, some 0, none⟩
  | some (.ok (some line, _)) =>
    let decoded := decodedLength line.setting.quoted line.setting.value
    if capacity.all (· ≤ decoded) then some ⟨.bufferTooSmall, some decoded, none⟩
    else some ⟨.ok, some decoded, some (decode line.setting.quoted line.setting.value ++ [0])⟩

def escaped (b : UInt8) : Bool :=
  b = configBackslash ∨ b = configQuote ∨ b = configLf ∨ b = configCr ∨ b = configTab

def encodedCount : List UInt8 → ℕ
  | [] => 0
  | b :: rest => encodedCount rest + if escaped b then 2 else 1

/-- The count is 32 bits wide. -/
def encodedLength (value : List UInt8) : ℕ := encodedCount value % 2 ^ 32

def escapeLetter (b : UInt8) : UInt8 :=
  if b = configLf then 0x6e else if b = configCr then 0x72 else if b = configTab then 0x74 else b

def encode : List UInt8 → List UInt8
  | [] => []
  | b :: rest => (if escaped b then [configBackslash, escapeLetter b] else [b]) ++ encode rest

/-- `key = "value"` and the end of the line. -/
def settingLine (key value : List UInt8) : CutLine :=
  ⟨key ++ [0x20, configEqual, 0x20, configQuote] ++ encode value ++ [configQuote], [configLf]⟩

/-- The range of the line that a replacement is put for; the end of the document for a new one. -/
def replacedRange (text : List UInt8) (index : ℕ) :
    Except AstraConfigStatus (Option ConfigLine × ℕ) → Except AstraConfigStatus (ℕ × ℕ)
  | .error status => .error status
  | .ok (some line, _) => .ok (line.start, line.stop)
  | .ok (none, count) =>
    if index = count then .ok (text.length, text.length) else .error .notFound

/-- The end of the last line, where it has none. -/
def missingEnd (text : List UInt8) (start : ℕ) : List UInt8 :=
  if start = text.length ∧ text.getLast?.any lineCharacter then [configLf] else []

def astraConfigDocumentReplace (text : List UInt8) (key : CString) (index : ℕ) (value : CString)
    (capacity : Option ℕ) : Option ConfigAnswer :=
  match astraConfigDocumentKeyValid key with
  | none => none
  | some false => some ⟨.invalid, none, none⟩
  | some true =>
    if value.bytes.length ≥ 2 ^ 32 ∨ astraUtf8Validate value.bytes = false then
      some ⟨.invalid, none, none⟩
    else (findLine text key index).map fun found =>
      match replacedRange text index found with
      | .error status => ⟨status, some 0, none⟩
      | .ok (start, stop) =>
        let newline := missingEnd text start
        let total := key.bytes.length + encodedLength value.bytes
        let whole := total + (text.length - stop) + start
        -- The four guards of the sum.
        if total ≥ 2 ^ 32 ∨ total + (text.length - stop) ≥ 2 ^ 32 ∨ whole ≥ 2 ^ 32 ∨
            whole > 2 ^ 32 - 1 - 7 - newline.length then ⟨.invalid, some 0, none⟩
        else
          let total := whole + 6 + newline.length
          if capacity.all (· ≤ total) then ⟨.bufferTooSmall, some (total + 1), none⟩
          else ⟨.ok, some (total + 1), some (text.take start ++ newline ++
            (settingLine key.bytes value.bytes).bytes ++ text.drop stop ++ [0])⟩

def astraConfigDocumentRemove (text : List UInt8) (key : CString) (index : ℕ)
    (capacity : Option ℕ) : Option ConfigAnswer :=
  match findLine text key index with
  | none => none
  | some (.error status) => some ⟨status, some 0, none⟩
  | some (.ok (none, _)) => some ⟨.notFound, some 0, none⟩
  | some (.ok (some line, _)) =>
    let total := text.length - (line.stop - line.start)
    if capacity.all (· ≤ total) then some ⟨.bufferTooSmall, some (total + 1), none⟩
    else some ⟨.ok, some (total + 1), some (text.take line.start ++ text.drop line.stop ++ [0])⟩

end Astra
