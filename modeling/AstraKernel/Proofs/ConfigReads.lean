import AstraKernel.Proofs.ConfigValues

/-!
# Reading a document

A document is accepted when it is a text, its lines parse and the first two settings are the headers
(`validate_iff`); a value is read from the settings behind these (`get_eq`), and `find` gives the
line that one stands on (`findLine_spec`).
-/

namespace Astra

open List

def settingOf (content : List UInt8) : Option ConfigSetting :=
  match lineParse content with
  | .ok setting => setting
  | .error _ => none

def settingsOf (contents : List (List UInt8)) : List ConfigSetting := contents.filterMap settingOf

def Parsed (contents : List (List UInt8)) : Prop :=
  ∀ content ∈ contents, ∃ setting, lineParse content = .ok setting

def valuesOf (key : List UInt8) (settings : List ConfigSetting) : List ConfigSetting :=
  (settings.drop 2).filter fun setting => setting.key = key

def contentsOf (text : List UInt8) : List (List UInt8) := (documentLines text).map CutLine.content

@[simp] theorem settingsOf_append (contents contents' : List (List UInt8)) :
    settingsOf (contents ++ contents') = settingsOf contents ++ settingsOf contents' :=
  filterMap_append

@[simp] theorem settingsOf_nil : settingsOf [] = [] := rfl

variable {found : ConfigLine} {setting : ConfigSetting} {contents : List (List UInt8)}
  {settings : List ConfigSetting} {before behind : List CutLine} {content : List UInt8}
  {effective schemaVersion wanted : ℕ}

theorem settingsOf_cons_some
    (h : lineParse content = .ok (some setting)) (contents : List (List UInt8)) :
    settingsOf (content :: contents) = setting :: settingsOf contents := by
  simp [settingsOf, settingOf, h]

theorem settingsOf_cons_none (h : lineParse content = .ok none)
    (contents : List (List UInt8)) : settingsOf (content :: contents) = settingsOf contents := by
  simp [settingsOf, settingOf, h]

theorem parsed_append {contents' : List (List UInt8)} :
    Parsed (contents ++ contents') ↔ Parsed contents ∧ Parsed contents' := by
  simp only [Parsed, mem_append, or_imp, forall_and]

theorem parsed_cons :
    Parsed (content :: contents) ↔ (∃ setting, lineParse content = .ok setting) ∧ Parsed contents := by
  simp only [Parsed, forall_mem_cons]

theorem lineParse_error {status : AstraConfigStatus}
    (h : lineParse content = .error status) : status = .malformed := by
  unfold lineParse at h
  dsimp only at h
  split_ifs at h <;> try exact (Except.error.inj h).symm
  all_goals
    split at h
    · exact (Except.error.inj h).symm
    · split_ifs at h
      exact (Except.error.inj h).symm

def headed (schemaVersion : ℕ) : ℕ → List ConfigSetting → Prop
  | header, [] => header = 2
  | header, setting :: settings =>
    if header < 2 then
      setting.key = headerNames header ∧
        decimal setting = some (if header = 0 then 1 else schemaVersion) ∧
        headed schemaVersion (header + 1) settings
    else headed schemaVersion header settings

theorem headed_two (schemaVersion : ℕ) (settings : List ConfigSetting) :
    headed schemaVersion 2 settings := by
  induction settings with
  | nil => rfl
  | cons setting settings ih => simpa [headed] using ih

theorem headed_zero :
    headed schemaVersion 0 settings ↔ ∃ first second rest, settings = first :: second :: rest ∧
      first.key = headerNames 0 ∧ decimal first = some 1 ∧
      second.key = headerNames 1 ∧ decimal second = some schemaVersion := by
  match settings with
  | [] => simp [headed]
  | [first] => simp [headed]
  | first :: second :: rest =>
    constructor
    · rintro ⟨hkey, hdec, hkey', hdec', -⟩
      exact ⟨first, second, rest, rfl, hkey, hdec, hkey', hdec'⟩
    · rintro ⟨first', second', rest', he, hkey, hdec, hkey', hdec'⟩
      obtain ⟨rfl, rfl, rfl⟩ := he
      exact ⟨hkey, hdec, hkey', hdec', headed_two schemaVersion _⟩

theorem validateFrom_iff (schemaVersion : ℕ) : ∀ (lines : List CutLine) (lineNumber : UInt32)
    (header : ℕ), (validateFrom schemaVersion lines lineNumber header).1 = .ok ↔
      Parsed (lines.map CutLine.content) ∧
        headed schemaVersion header (settingsOf (lines.map CutLine.content))
  | [], lineNumber, header => by
    by_cases hh : header = 2 <;> simp [validateFrom, headed, Parsed, hh]
  | line :: lines, lineNumber, header => by
    rw [map_cons, parsed_cons, validateFrom]
    rcases hp : lineParse line.content with status | _ | setting
    · simp [lineParse_error hp]
    · simp [settingsOf_cons_none hp, validateFrom_iff schemaVersion lines]
    · rw [settingsOf_cons_some hp, headed]
      by_cases hh : header < 2
      · rw [if_pos hh]
        simp only [if_pos hh]
        by_cases hkey : setting.key = headerNames header
        · rw [if_pos hkey]
          rcases hd : decimal setting with _ | found
          · simp [hkey]
          · by_cases hw : found = if header = 0 then 1 else schemaVersion
            · simp [hw, hkey, validateFrom_iff schemaVersion lines]
            · simp [hw, hkey]
        · simp [hkey]
      · simp only [if_neg hh, validateFrom_iff schemaVersion lines]
        simp

theorem validate_iff {text : List UInt8} :
    (astraConfigDocumentValidate text schemaVersion).1 = .ok ↔
      schemaVersion ≠ 0 ∧ astraUtf8Validate text = true ∧ Parsed (contentsOf text) ∧
        headed schemaVersion 0 (settingsOf (contentsOf text)) := by
  unfold astraConfigDocumentValidate
  split
  · rename_i h0
    rcases h0 with h0 | h0 <;> simp [h0]
  · rename_i h0
    rw [validateFrom_iff]
    rw [not_or, Bool.not_eq_false] at h0
    exact ⟨fun h => ⟨h0.1, h0.2, h⟩, fun h => h.2.2⟩

/-! ## Finding -/

def matching (key : List UInt8) (effective : ℕ) (settings : List ConfigSetting) :
    List ConfigSetting :=
  (settings.drop (2 - effective)).filter fun setting => setting.key = key

theorem matching_cons_of_skip {key : List UInt8}
    (h : effective < 2 ∨ setting.key ≠ key) (settings : List ConfigSetting) :
    matching key effective (setting :: settings) = matching key (effective + 1) settings := by
  unfold matching
  by_cases he : effective < 2
  · rw [show 2 - effective = (2 - (effective + 1)) + 1 by omega, drop_succ_cons]
  · rw [show 2 - effective = 0 by omega, show 2 - (effective + 1) = 0 by omega]
    simp [h.resolve_left he]

theorem matching_cons {key : List UInt8}
    (he : ¬effective < 2) (hk : setting.key = key) (settings : List ConfigSetting) :
    matching key effective (setting :: settings) = setting :: matching key (effective + 1) settings := by
  unfold matching
  rw [show 2 - effective = 0 by omega, show 2 - (effective + 1) = 0 by omega]
  simp [hk]

/-- A line that stands for the value `wanted` of a key, with the settings before the lines and the
key's values among them counted. -/
structure Stands (key : List UInt8) (wanted : ℕ) (lines : List CutLine) (cursor effective count : ℕ)
    (found : ConfigLine) (before : List CutLine) (line : CutLine) (behind : List CutLine) : Prop where
  cut : lines = before ++ line :: behind
  start : found.start = cursor + (documentOf before).length
  stop : found.stop = found.start + line.bytes.length
  parsed : lineParse line.content = .ok (some found.setting)
  sameKey : found.setting.key = key
  headers : 2 ≤ effective + (settingsOf (before.map CutLine.content)).length
  counted : count + (matching key effective (settingsOf (before.map CutLine.content))).length = wanted

theorem Stands.cons {key : List UInt8} {lines : List CutLine}
    {cursor effective' count count' : ℕ} {line line' : CutLine}
    (h : Stands key wanted lines (cursor + line.bytes.length) effective' count' found before line'
      behind)
    (hcount : ∀ contents, count' + (matching key effective' (settingsOf contents)).length =
      count + (matching key effective (settingsOf (line.content :: contents))).length)
    (heffective : ∀ contents, effective' + (settingsOf contents).length ≤
      effective + (settingsOf (line.content :: contents)).length) :
    Stands key wanted (line :: lines) cursor effective count found (line :: before) line' behind where
  cut := by rw [h.cut, cons_append]
  start := by
    rw [h.start, documentOf_cons, length_append]
    omega
  stop := h.stop
  parsed := h.parsed
  sameKey := h.sameKey
  headers := h.headers.trans (heffective _)
  counted := (hcount _).symm.trans h.counted

theorem findFrom_spec (key : List UInt8) (wanted : ℕ) : ∀ {lines : List CutLine}
    (cursor effective : ℕ) {count : ℕ} {found : Option ConfigLine}, Parsed (lines.map CutLine.content) →
    (count ≤ wanted → found = none) →
    ∃ found', findFrom key wanted lines cursor effective count found = .ok (found',
        count + (matching key effective (settingsOf (lines.map CutLine.content))).length) ∧
      (wanted < count → found' = found) ∧
      (count + (matching key effective (settingsOf (lines.map CutLine.content))).length ≤ wanted →
        found' = none) ∧
      (count ≤ wanted →
        wanted < count + (matching key effective (settingsOf (lines.map CutLine.content))).length →
        ∃ line before at' behind, found' = some line ∧
          Stands key wanted lines cursor effective count line before at' behind)
  | [], cursor, effective, count, found, _, hfound => by
    refine ⟨found, ?_, fun _ => rfl, fun h => hfound ?_, fun h h' => ?_⟩
    · simp [findFrom, matching]
    · simpa [matching] using h
    · simp [matching] at h'
      omega
  | line :: lines, cursor, effective, count, found, hparsed, hfound => by
    rw [map_cons, parsed_cons] at hparsed
    obtain ⟨⟨setting, hp⟩, hparsed⟩ := hparsed
    rw [map_cons, findFrom, hp]
    have hon : ∀ {effective' count' : ℕ} {next : Option ConfigLine},
        (∀ contents, count' + (matching key effective' (settingsOf contents)).length =
          count + (matching key effective (settingsOf (line.content :: contents))).length) →
        (∀ contents, effective' + (settingsOf contents).length ≤
          effective + (settingsOf (line.content :: contents)).length) →
        (count' ≤ wanted → next = none) → count ≤ count' →
        (wanted < count → next = found) →
        (count ≤ wanted → wanted < count' → ∃ line' before at' behind, next = some line' ∧
          Stands key wanted (line :: lines) cursor effective count line' before at' behind) →
        ∃ found', findFrom key wanted lines (cursor + line.bytes.length) effective' count' next =
            .ok (found', count + (matching key effective
              (settingsOf (line.content :: lines.map CutLine.content))).length) ∧
          (wanted < count → found' = found) ∧
          (count + (matching key effective
              (settingsOf (line.content :: lines.map CutLine.content))).length ≤ wanted →
            found' = none) ∧
          (count ≤ wanted → wanted < count + (matching key effective
              (settingsOf (line.content :: lines.map CutLine.content))).length →
            ∃ line' before at' behind, found' = some line' ∧
              Stands key wanted (line :: lines) cursor effective count line' before at' behind) := by
      intro effective' count' next hcount heffective hnext hle hpast hhere
      obtain ⟨found', hrun, hkept, hnone, hsome⟩ := findFrom_spec key wanted
        (cursor + line.bytes.length) effective' hparsed hnext
      rw [hcount] at hrun hnone hsome
      refine ⟨found', hrun, fun h => (hkept (by omega)).trans (hpast h), hnone, fun h h' => ?_⟩
      by_cases hw : count' ≤ wanted
      · obtain ⟨at', before, line', behind, he, hstands⟩ := hsome hw h'
        exact ⟨at', line :: before, line', behind, he, hstands.cons hcount heffective⟩
      · obtain ⟨at', before, line', behind, he, hstands⟩ := hhere h (by omega)
        exact ⟨at', before, line', behind, (hkept (by omega)).trans he, hstands⟩
    rcases setting with _ | setting
    · refine hon ?_ ?_ hfound (Nat.le_refl _) (fun _ => rfl) (fun h h' => by omega)
      · simp [settingsOf_cons_none hp]
      · simp [settingsOf_cons_none hp]
    · have hlength : ∀ contents, effective + 1 + (settingsOf contents).length ≤
          effective + (settingsOf (line.content :: contents)).length := by
        intro contents
        rw [settingsOf_cons_some hp, length_cons]
        omega
      by_cases hskip : effective < 2 ∨ setting.key ≠ key
      · simp only [if_pos hskip]
        refine hon ?_ hlength hfound (Nat.le_refl _) (fun _ => rfl) (fun h h' => by omega)
        intro contents
        rw [settingsOf_cons_some hp, matching_cons_of_skip hskip]
      · simp only [if_neg hskip]
        rw [not_or, not_not] at hskip
        refine hon ?_ hlength ?_ (Nat.le_succ _) ?_ ?_
        · intro contents
          rw [settingsOf_cons_some hp, matching_cons hskip.1 hskip.2, length_cons]
          omega
        · intro h
          rw [if_neg (by omega)]
          exact hfound (by omega)
        · intro h
          exact if_neg (by omega)
        · intro h h'
          obtain rfl : count = wanted := by omega
          refine ⟨_, [], line, lines, if_pos rfl, rfl, rfl, rfl, hp, hskip.2, ?_, ?_⟩
          · simpa using not_lt.1 hskip.1
          · simp [matching]

theorem valuesOf_append (h : 2 ≤ settings.length) (key : List UInt8)
    (settings' : List ConfigSetting) : valuesOf key (settings ++ settings') =
      valuesOf key settings ++ settings'.filter fun setting => setting.key = key := by
  unfold valuesOf
  rw [drop_append_of_le_length h, filter_append]

structure FoundAt (text : List UInt8) (key : List UInt8) (wanted : ℕ) (found : ConfigLine)
    (before : List CutLine) (line : CutLine) (behind : List CutLine) : Prop where
  cut : documentLines text = before ++ line :: behind
  start : found.start = (documentOf before).length
  stop : found.stop = found.start + line.bytes.length
  parsed : lineParse line.content = .ok (some found.setting)
  sameKey : found.setting.key = key
  headers : 2 ≤ (settingsOf (before.map CutLine.content)).length
  counted : (valuesOf key (settingsOf (before.map CutLine.content))).length = wanted

variable {text : List UInt8} {key : CString}

theorem findLine_spec (hkey : astraConfigDocumentKeyValid key = some true)
    (hutf : astraUtf8Validate text = true) (hparsed : Parsed (contentsOf text)) (wanted : ℕ) :
    ∃ found, findLine text key wanted =
        some (.ok (found, (valuesOf key.bytes (settingsOf (contentsOf text))).length)) ∧
      ((valuesOf key.bytes (settingsOf (contentsOf text))).length ≤ wanted → found = none) ∧
      (wanted < (valuesOf key.bytes (settingsOf (contentsOf text))).length →
        ∃ line before at' behind, found = some line ∧
          FoundAt text key.bytes wanted line before at' behind) := by
  obtain ⟨found, hrun, -, hnone, hsome⟩ := findFrom_spec key.bytes wanted 0 0 hparsed
    (show 0 ≤ wanted → none = none from fun _ => rfl)
  rw [Nat.zero_add] at hrun hnone hsome
  refine ⟨found, ?_, hnone, fun h => ?_⟩
  · unfold findLine
    simp only [hkey, hutf, Bool.true_eq_false, if_false]
    exact congrArg some hrun
  · obtain ⟨line, before, at', behind, he, hstands⟩ := hsome (Nat.zero_le _) h
    refine ⟨line, before, at', behind, he, ⟨hstands.cut, ?_, hstands.stop, hstands.parsed,
      hstands.sameKey, ?_, ?_⟩⟩
    · rw [hstands.start, Nat.zero_add]
    · simpa using hstands.headers
    · simpa [matching, valuesOf] using hstands.counted

theorem FoundAt.value {keyBytes : List UInt8} {line : CutLine}
    (h : FoundAt text keyBytes wanted found before line behind) :
    (valuesOf keyBytes (settingsOf (contentsOf text)))[wanted]? = some found.setting := by
  unfold contentsOf
  rw [h.cut, map_append, map_cons, settingsOf_append, settingsOf_cons_some h.parsed,
    valuesOf_append h.headers, List.getElem?_append_right h.counted.le, h.counted]
  simp [h.sameKey]

/-! ## Reading -/

/-- What a read answers where it finds a value. -/
def readingOf (value : List UInt8) (capacity : Option ℕ) : ConfigAnswer :=
  if capacity.all (· ≤ value.length) then ⟨.bufferTooSmall, some value.length, none⟩
  else ⟨.ok, some value.length, some (value ++ [0])⟩

theorem get_eq (hkey : astraConfigDocumentKeyValid key = some true)
    (hutf : astraUtf8Validate text = true) (hparsed : Parsed (contentsOf text)) (index : ℕ)
    (capacity : Option ℕ) : astraConfigDocumentGet text key index capacity =
      some (match (valuesOf key.bytes (settingsOf (contentsOf text)))[index]? with
        | none => ⟨.notFound, some 0, none⟩
        | some setting => readingOf (decode setting.quoted setting.value) capacity) := by
  obtain ⟨found, hfind, hnone, hsome⟩ := findLine_spec hkey hutf hparsed index
  unfold astraConfigDocumentGet
  rw [hfind]
  by_cases hi : (valuesOf key.bytes (settingsOf (contentsOf text))).length ≤ index
  · rw [hnone hi, List.getElem?_eq_none hi]
  · obtain ⟨line, before, at', behind, rfl, hfound⟩ := hsome (not_le.1 hi)
    rw [hfound.value]
    simp only [decodedLength_eq, readingOf]
    split_ifs <;> rfl

theorem get_of_not_valid (hkey : astraConfigDocumentKeyValid key ≠ some true)
    (text' : List UInt8) (index index' : ℕ) (capacity : Option ℕ) :
    astraConfigDocumentGet text' key index' capacity =
      astraConfigDocumentGet text key index capacity := by
  unfold astraConfigDocumentGet findLine
  rcases hk : astraConfigDocumentKeyValid key with _ | _ | _
  · rfl
  · rfl
  · exact absurd hk hkey

theorem get_congr {text' : List UInt8} {index index' : ℕ} (hutf : astraUtf8Validate text = true)
    (hparsed : Parsed (contentsOf text)) (hutf' : astraUtf8Validate text' = true)
    (hparsed' : Parsed (contentsOf text'))
    (h : (valuesOf key.bytes (settingsOf (contentsOf text')))[index']? =
      (valuesOf key.bytes (settingsOf (contentsOf text)))[index]?) (capacity : Option ℕ) :
    astraConfigDocumentGet text' key index' capacity =
      astraConfigDocumentGet text key index capacity := by
  by_cases hkey : astraConfigDocumentKeyValid key = some true
  · rw [get_eq hkey hutf hparsed, get_eq hkey hutf' hparsed', h]
  · exact get_of_not_valid hkey text' index index' capacity

end Astra
