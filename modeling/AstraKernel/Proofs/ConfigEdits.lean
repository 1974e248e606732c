import AstraKernel.Proofs.ConfigReads

/-!
# Editing a document

An edit is refused, or it has one new document: every buffer that is too small is told its size, and
every other gets it whole (`EditsTo`). Removing, replacing or appending a value is such an edit
(`document_edits`), unless the escaped value has more than the `2 ^ 32 - 1` bytes that its length
can count.
-/

namespace Astra

open List

/-! ## Texts -/

theorem validText_append {a b : List UInt8} (ha : astraUtf8Validate a = true)
    (hb : astraUtf8Validate b = true) : astraUtf8Validate (a ++ b) = true := by
  rw [astraUtf8Validate_text] at ha hb ⊢
  exact ⟨ha.1.append hb.1, by simp [ha.2, hb.2]⟩

variable {line : CutLine} {before settings : List ConfigSetting} {behind : List UInt8}
  {start stop : ℕ}

theorem Ends.validText (h : Ends line behind)
    (hv : astraUtf8Validate (line.bytes ++ behind) = true) :
    astraUtf8Validate line.bytes = true ∧ astraUtf8Validate behind = true := by
  rw [astraUtf8Validate_text, mem_append, not_or] at hv
  simp only [astraUtf8Validate_text, hv.2.1, hv.2.2, not_false_eq_true, and_true]
  obtain ⟨content, ending⟩ := line
  have hsplit : ∀ {b : UInt8} {before : List UInt8}, b.toNat < 128 → ending = before ++ [b] →
      Utf8 (CutLine.mk content ending).bytes ∧ Utf8 behind := by
    rintro b before hb rfl
    have hu := hv.1
    simp only [CutLine.bytes, append_assoc, singleton_append] at hu ⊢
    rw [← append_assoc] at hu
    obtain ⟨hbefore, hbehind⟩ := Utf8.split hb hu
    rw [← append_assoc]
    exact ⟨hbefore.append (utf8_ascii hb), hbehind⟩
  rcases h.ending with he | he | ⟨he, -⟩ | ⟨-, rfl, -⟩
  · exact hsplit (by decide) (show ending = [] ++ [configLf] from he)
  · exact hsplit (by decide) (show ending = [configCr] ++ [configLf] from he)
  · exact hsplit (by decide) (show ending = [] ++ [configCr] from he)
  · exact ⟨by simpa using hv.1, utf8_nil⟩

theorem Cut.validText : ∀ {lines : List CutLine}, Cut lines behind →
    astraUtf8Validate (documentOf lines ++ behind) = true →
    astraUtf8Validate (documentOf lines) = true ∧ astraUtf8Validate behind = true
  | [], _, hv => ⟨rfl, hv⟩
  | line :: lines, h, hv => by
    rw [documentOf_cons, append_assoc] at hv
    obtain ⟨hline, hrest⟩ := h.1.validText hv
    obtain ⟨hlines, hbehind⟩ := h.2.validText hrest
    exact ⟨validText_append hline hlines, hbehind⟩

theorem ascii_validText {bytes : List UInt8} (hb : ∀ b ∈ bytes, b.toNat < 128 ∧ b ≠ 0) :
    astraUtf8Validate bytes = true := by
  rw [astraUtf8Validate_text]
  refine ⟨?_, fun h0 => (hb 0 h0).2 rfl⟩
  induction bytes with
  | nil => exact utf8_nil
  | cons b bytes ih =>
    exact Utf8.append (utf8_ascii (hb b mem_cons_self).1)
      (ih fun c hc => hb c (mem_cons_of_mem _ hc))

theorem settingLine_validText {key value : List UInt8} (hkey : ∀ b ∈ key, keyCharacter b)
    (hv : astraUtf8Validate value = true) : astraUtf8Validate (settingLine key value).bytes = true := by
  have hencoded : astraUtf8Validate (encode value) = true := by
    rw [astraUtf8Validate_text] at hv ⊢
    exact ⟨hv.1.encode, encode_noNul hv.2⟩
  have hplain : astraUtf8Validate key = true := ascii_validText fun b hb =>
    ⟨(keyCharacter_plain (hkey b hb)).2.2.2.1, (keyCharacter_plain (hkey b hb)).2.2.2.2⟩
  unfold settingLine CutLine.bytes
  refine validText_append (validText_append (validText_append (validText_append hplain ?_)
    hencoded) ?_) ?_
  all_goals
    refine ascii_validText ?_
    simp [configEqual, configQuote, configLf]

/-! ## Settings -/

theorem headed_append {schemaVersion : ℕ}
    (h : 2 ≤ settings.length) (settings' : List ConfigSetting) :
    headed schemaVersion 0 (settings ++ settings') ↔ headed schemaVersion 0 settings := by
  match settings, h with
  | first :: second :: rest, _ => simp [headed, headed_two]

theorem length_of_headed {schemaVersion : ℕ}
    (h : headed schemaVersion 0 settings) : 2 ≤ settings.length := by
  obtain ⟨first, second, rest, rfl, -⟩ := headed_zero.1 h
  simp

variable (n : ℕ) (setting : ConfigSetting)

theorem values_replaced {old behind : List ConfigSetting}
    (hb : 2 ≤ before.length) (hlen : old.length ≤ 1) (hold : ∀ s ∈ old, s.key = setting.key)
    (hlast : old = [] → behind = []) :
    (valuesOf setting.key (before ++ setting :: behind))[(valuesOf setting.key before).length]? =
        some setting ∧
      ∀ (key : List UInt8) (i : ℕ), key ≠ setting.key ∨ i ≠ (valuesOf setting.key before).length →
        (valuesOf key (before ++ setting :: behind))[i]? =
          (valuesOf key (before ++ (old ++ behind)))[i]? := by
  simp only [valuesOf_append hb]
  constructor
  · rw [List.getElem?_append_right (Nat.le_refl _)]
    simp
  · intro key i h
    by_cases hk : key = setting.key
    · subst hk
      have hi := h.resolve_left (not_not.2 rfl)
      rcases lt_or_gt_of_ne hi with hi | hi
      · rw [List.getElem?_append_left hi, List.getElem?_append_left hi]
      · rw [List.getElem?_append_right hi.le, List.getElem?_append_right hi.le]
        obtain ⟨j, hj⟩ := Nat.exists_eq_succ_of_ne_zero (Nat.sub_ne_zero_of_lt hi)
        rw [hj]
        match old, hlen with
        | [], _ => simp [hlast rfl]
        | [s], _ => simp [hold s mem_cons_self]
    · have hfilter : old.filter (fun s => s.key = key) = [] := by
        rw [filter_eq_nil_iff]
        intro s hs
        simp [hold s hs, Ne.symm hk]
      simp [filter_append, hfilter, Ne.symm hk]

theorem values_removed (behind : List ConfigSetting) (hb : 2 ≤ before.length) :
    (∀ i, (valuesOf setting.key (before ++ behind))[i]? =
      (valuesOf setting.key (before ++ setting :: behind))[
        if i < (valuesOf setting.key before).length then i else i + 1]?) ∧
      ∀ key ≠ setting.key,
        valuesOf key (before ++ behind) = valuesOf key (before ++ setting :: behind) := by
  simp only [valuesOf_append hb]
  constructor
  · intro i
    by_cases hi : i < (valuesOf setting.key before).length
    · rw [if_pos hi, List.getElem?_append_left hi, List.getElem?_append_left hi]
    · rw [if_neg hi, List.getElem?_append_right (not_lt.1 hi),
        List.getElem?_append_right (by omega), show i + 1 - _ = (i - _) + 1 from
          Nat.succ_sub (not_lt.1 hi)]
      simp
  · intro key hk
    simp [Ne.symm hk]

/-! ## Edits -/

/-- What a call answers that writes a new document. -/
def writing (new : List UInt8) (capacity : Option ℕ) : ConfigAnswer :=
  if capacity.all (· ≤ new.length) then ⟨.bufferTooSmall, some (new.length + 1), none⟩
  else ⟨.ok, some (new.length + 1), some (new ++ [0])⟩

/-- An edit writes nothing, whatever the buffer, or it writes the new document where that fits and
answers its size in any case. -/
def EditsTo (answer : Option ℕ → Option ConfigAnswer) (P : List UInt8 → Prop) : Prop :=
  (∃ refusal, (∀ capacity, answer capacity = refusal) ∧
    ∀ r, refusal = some r → r.status ≠ .ok ∧ r.written = none) ∨
  ∃ new, P new ∧ ∀ capacity, answer capacity = some (writing new capacity)

/-- The new document after a value was put. -/
structure Replaced (text : List UInt8) (schemaVersion : ℕ) (key : CString) (index : ℕ)
    (value : CString) (new : List UInt8) : Prop where
  valid : (astraConfigDocumentValidate new schemaVersion).1 = .ok
  reads : ∀ capacity, astraConfigDocumentGet new key index capacity =
    some (readingOf value.bytes capacity)
  others : ∀ (key' : CString) (index' : ℕ), key' ≠ key ∨ index' ≠ index → ∀ capacity,
    astraConfigDocumentGet new key' index' capacity =
      astraConfigDocumentGet text key' index' capacity
  lines : ∃ before old behind, old.length ≤ 1 ∧ contentsOf text = before ++ (old ++ behind) ∧
    contentsOf new = before ++ (settingLine key.bytes value.bytes).content :: behind
  bytes : ∃ front old behind newline, text = front ++ (old ++ behind) ∧
    new = front ++ newline ++ (settingLine key.bytes value.bytes).bytes ++ behind ∧
    (newline = [] ∨ newline = [configLf] ∧ old ++ behind = [] ∧ front.getLast?.any lineCharacter)

/-- The new document after a value was taken out. -/
structure Removed (text : List UInt8) (schemaVersion : ℕ) (key : CString) (index : ℕ)
    (new : List UInt8) : Prop where
  valid : (astraConfigDocumentValidate new schemaVersion).1 = .ok
  moved : ∀ (index' : ℕ) capacity, astraConfigDocumentGet new key index' capacity =
    astraConfigDocumentGet text key (if index' < index then index' else index' + 1) capacity
  others : ∀ key' ≠ key, ∀ (index' : ℕ) capacity,
    astraConfigDocumentGet new key' index' capacity =
      astraConfigDocumentGet text key' index' capacity
  bytes : ∃ before line behind, documentLines text = before ++ line :: behind ∧
    new = documentOf before ++ documentOf behind

/-- The escaped value is counted in 32 bits, and with the short count no guard refuses it. -/
def Overruns (text : List UInt8) (key : CString) (index : ℕ) (value : CString) : Prop :=
  2 ^ 32 ≤ encodedCount value.bytes ∧ value.bytes.length < 2 ^ 32 ∧
    astraUtf8Validate value.bytes = true ∧
    ∃ start stop, (findLine text key index).map (replacedRange text index) =
        some (.ok (start, stop)) ∧
      start + (text.length - stop) + key.bytes.length + encodedLength value.bytes +
        (missingEnd text start).length + 7 < 2 ^ 32

variable {text : List UInt8} {schemaVersion : ℕ} {key : CString} {index : ℕ} {value : CString}

theorem keyValid_true (h : astraConfigDocumentKeyValid key = some true) :
    key.bytes ≠ [] ∧ ∀ b ∈ key.bytes, keyCharacter b := by
  unfold astraConfigDocumentKeyValid at h
  split_ifs at h with hbad hshort
  · simp at h
  rw [not_or] at hbad
  refine ⟨hbad.1, ?_⟩
  have hall := hbad.2
  rw [take_of_length_le hshort.le, Bool.not_eq_false, all_eq_true] at hall
  exact hall

theorem bytes_ne {key key' : CString} (h : key' ≠ key) : key'.bytes ≠ key.bytes := by
  intro he
  obtain ⟨bytes, hn⟩ := key
  obtain ⟨bytes', hn'⟩ := key'
  obtain rfl : bytes' = bytes := he
  exact h rfl

theorem replaced_of_lines {new : List UInt8} (lines lines' : List CutLine) (old : List (List UInt8))
    (hvalid : (astraConfigDocumentValidate text schemaVersion).1 = .ok)
    (hkey : astraConfigDocumentKeyValid key = some true)
    (hcut : Cut (lines ++ settingLine key.bytes value.bytes :: lines') [])
    (hnew : new = documentOf (lines ++ settingLine key.bytes value.bytes :: lines'))
    (hutf : astraUtf8Validate new = true)
    (htext : contentsOf text = lines.map CutLine.content ++ (old ++ lines'.map CutLine.content))
    (hlen : old.length ≤ 1) (hold : ∀ s ∈ settingsOf old, s.key = key.bytes)
    (hlast : settingsOf old = [] → lines' = [])
    (hheaders : 2 ≤ (settingsOf (lines.map CutLine.content)).length)
    (hcount : (valuesOf key.bytes (settingsOf (lines.map CutLine.content))).length = index)
    (hbytes : ∃ front old behind newline, text = front ++ (old ++ behind) ∧
      new = front ++ newline ++ (settingLine key.bytes value.bytes).bytes ++ behind ∧
      (newline = [] ∨
        newline = [configLf] ∧ old ++ behind = [] ∧ front.getLast?.any lineCharacter)) :
    Replaced text schemaVersion key index value new := by
  obtain ⟨hne, hchars⟩ := keyValid_true hkey
  obtain ⟨hschema, hutfText, hparsed, hheaded⟩ := validate_iff.1 hvalid
  have hline := lineParse_settingLine value.bytes hne hchars
  have hcontents : contentsOf new = lines.map CutLine.content ++
      (settingLine key.bytes value.bytes).content :: lines'.map CutLine.content := by
    unfold contentsOf
    rw [documentLines_iff.2 ⟨hnew.symm, hcut⟩, map_append, map_cons]
  have hsettings : settingsOf (contentsOf new) = settingsOf (lines.map CutLine.content) ++
      ⟨key.bytes, encode value.bytes, true⟩ :: settingsOf (lines'.map CutLine.content) := by
    rw [hcontents, settingsOf_append, settingsOf_cons_some hline]
  have hsettingsText : settingsOf (contentsOf text) = settingsOf (lines.map CutLine.content) ++
      (settingsOf old ++ settingsOf (lines'.map CutLine.content)) := by
    rw [htext, settingsOf_append, settingsOf_append]
  have hparsedNew : Parsed (contentsOf new) := by
    rw [htext, parsed_append, parsed_append] at hparsed
    rw [hcontents, parsed_append, parsed_cons]
    exact ⟨hparsed.1, ⟨_, hline⟩, hparsed.2.2⟩
  have hheadedNew : headed schemaVersion 0 (settingsOf (contentsOf new)) := by
    rw [hsettingsText, headed_append hheaders] at hheaded
    rw [hsettings, headed_append hheaders]
    exact hheaded
  have hone : (settingsOf old).length ≤ 1 := (length_filterMap_le _ _).trans hlen
  obtain ⟨hvalueAt, hothers⟩ := values_replaced ⟨key.bytes, encode value.bytes, true⟩ hheaders hone
    hold (show settingsOf old = [] → settingsOf (lines'.map CutLine.content) = [] from
      fun h => by rw [hlast h]; rfl)
  refine ⟨validate_iff.2 ⟨hschema, hutf, hparsedNew, hheadedNew⟩, ?_, ?_,
    ⟨_, old, _, hlen, htext, hcontents⟩, hbytes⟩
  · intro capacity
    rw [get_eq hkey hutf hparsedNew, hsettings, ← hcount, hvalueAt]
    simp only [decode_encode]
  · intro key' index' h capacity
    refine get_congr hutfText hparsed hutf hparsedNew ?_ capacity
    rw [hsettings, hsettingsText]
    exact hothers _ _ (h.imp bytes_ne fun hi => by rwa [hcount])

theorem documentLines_take {before behind : List CutLine}
    (h : documentLines text = before ++ line :: behind) :
    text.take (documentOf before).length = documentOf before ∧
      text.drop ((documentOf before).length + line.bytes.length) = documentOf behind := by
  obtain ⟨hdoc, -⟩ := documentLines_iff.1 h
  rw [documentOf_append, documentOf_cons] at hdoc
  rw [← hdoc]
  constructor
  · exact take_left
  · rw [← append_assoc, ← length_append]
    exact drop_left

theorem replaced_spec (hvalid : (astraConfigDocumentValidate text schemaVersion).1 = .ok)
    (hkey : astraConfigDocumentKeyValid key = some true)
    (hvalue : astraUtf8Validate value.bytes = true)
    (hrange : (findLine text key index).map (replacedRange text index) = some (.ok (start, stop))) :
    start ≤ text.length ∧ Replaced text schemaVersion key index value (text.take start ++
      missingEnd text start ++ (settingLine key.bytes value.bytes).bytes ++ text.drop stop) := by
  obtain ⟨hne, hchars⟩ := keyValid_true hkey
  obtain ⟨hschema, hutf, hparsed, hheaded⟩ := validate_iff.1 hvalid
  obtain ⟨hdoc, hcut⟩ := documentLines_iff.1 (rfl : documentLines text = _)
  have hhead := settingLine_head value.bytes hne hchars
  have hlineText := settingLine_validText hchars hvalue
  obtain ⟨found, hfind, hnone, hsome⟩ := findLine_spec hkey hutf hparsed index
  rw [hfind, Option.map_some, Option.some_inj] at hrange
  by_cases hi : (valuesOf key.bytes (settingsOf (contentsOf text))).length ≤ index
  · -- A value behind the last one goes behind the last line.
    rw [hnone hi] at hrange
    simp only [replacedRange] at hrange
    split_ifs at hrange with hcount
    cases hrange
    obtain ⟨lines, hlines, hsame, hnew⟩ := hcut.append
      (settingLine_ends value.bytes hchars []) hhead
    rw [hdoc] at hlines
    refine ⟨Nat.le_refl _, replaced_of_lines lines [] [] hvalid hkey
      hnew ?_ ?_ ?_ (by simp) (by simp) (fun _ => rfl) ?_ ?_ ?_⟩
    · simp [hlines]
    · rw [take_length, drop_length, append_nil]
      refine validText_append (validText_append hutf ?_) hlineText
      unfold missingEnd
      split_ifs <;> decide
    · rw [hsame]
      simp [contentsOf]
    · rw [hsame]
      exact length_of_headed hheaded
    · rw [hsame]
      exact hcount.symm
    · refine ⟨text, [], [], missingEnd text text.length, by simp, by simp, ?_⟩
      unfold missingEnd
      split_ifs with hopen
      · exact .inr ⟨rfl, rfl, hopen.2⟩
      · exact .inl rfl
  · obtain ⟨line, before, at', behind, rfl, hfound⟩ := hsome (not_le.1 hi)
    cases hrange
    obtain ⟨htake, hdrop⟩ := documentLines_take hfound.cut
    have htext : text = documentOf before ++ (at'.bytes ++ documentOf behind) := by
      rw [← hdoc, hfound.cut, documentOf_append, documentOf_cons]
    rw [hfound.cut] at hcut
    have hat := (cut_append.1 hcut).2.1
    have hpos := length_pos_iff.2 hat.bytes_ne_nil
    have hlength := congrArg List.length htext
    simp only [length_append] at hlength
    have hnotEnd : missingEnd text line.start = [] := by
      unfold missingEnd
      rw [if_neg]
      rintro ⟨he, -⟩
      rw [hfound.start] at he
      omega
    rw [hfound.stop, hfound.start, htake, hdrop]
    rw [hfound.start] at hnotEnd
    rw [hnotEnd, append_nil]
    obtain ⟨hbeforeText, hrestText⟩ := (cut_append.1 hcut).1.validText
      (by rw [append_nil, documentOf_cons, ← htext]; exact hutf)
    rw [documentOf_cons, append_nil] at hrestText
    rw [append_nil] at hat
    have hbehindText := (hat.validText hrestText).2
    refine ⟨by omega, replaced_of_lines before behind [at'.content]
      hvalid hkey (hcut.replace (settingLine_ends value.bytes hchars _) hhead) ?_ ?_ ?_ (by simp) ?_ ?_
      hfound.headers hfound.counted ?_⟩
    · simp
    · exact validText_append (validText_append hbeforeText hlineText) hbehindText
    · unfold contentsOf
      rw [hfound.cut]
      simp
    · simp [settingsOf_cons_some hfound.parsed, hfound.sameKey]
    · simp [settingsOf_cons_some hfound.parsed]
    · exact ⟨documentOf before, at'.bytes, documentOf behind, [], htext, by simp, .inl rfl⟩

theorem length_missingEnd (text : List UInt8) (start : ℕ) : (missingEnd text start).length ≤ 1 := by
  unfold missingEnd
  split_ifs <;> simp

theorem replace_in_range (hkey : astraConfigDocumentKeyValid key = some true)
    (hlen : value.bytes.length < 2 ^ 32) (hvalue : astraUtf8Validate value.bytes = true)
    (hrange : (findLine text key index).map (replacedRange text index) = some (.ok (start, stop)))
    (capacity : Option ℕ) :
    let total := start + (text.length - stop) + key.bytes.length + encodedLength value.bytes +
      (missingEnd text start).length + 6
    astraConfigDocumentReplace text key index value capacity = some (
      if 2 ^ 32 ≤ total + 1 then ⟨.invalid, some 0, none⟩
      else if capacity.all (· ≤ total) then ⟨.bufferTooSmall, some (total + 1), none⟩
      else ⟨.ok, some (total + 1), some (text.take start ++ missingEnd text start ++
        (settingLine key.bytes value.bytes).bytes ++ text.drop stop ++ [0])⟩) := by
  intro total
  obtain ⟨found, hfind, hfound⟩ := Option.map_eq_some_iff.1 hrange
  unfold astraConfigDocumentReplace
  simp only [hkey]
  rw [if_neg (by simp [hvalue]; omega), hfind, Option.map_some, hfound]
  dsimp only
  have hsum : key.bytes.length + encodedLength value.bytes + (text.length - stop) + start + 6 +
      (missingEnd text start).length = total := by
    omega
  have hnewline := length_missingEnd text start
  by_cases hguard : 2 ^ 32 ≤ total + 1
  · rw [if_pos hguard, if_pos (by omega)]
  · rw [if_neg hguard, if_neg (by omega), hsum]

theorem replacedRange_error {found : Option ConfigLine × ℕ}
    {status : AstraConfigStatus} (h : replacedRange text index (.ok found) = .error status) :
    status ≠ .ok := by
  obtain ⟨_ | line, count⟩ := found
  · simp only [replacedRange] at h
    split_ifs at h
    simp [← Except.error.inj h]
  · cases h

theorem length_replaced (key value : CString) (stop : ℕ) (hstart : start ≤ text.length) :
    (text.take start ++ missingEnd text start ++ (settingLine key.bytes value.bytes).bytes ++
      text.drop stop).length = start + (text.length - stop) + key.bytes.length +
        encodedCount value.bytes + (missingEnd text start).length + 6 := by
  simp only [length_append, length_take, length_drop, length_settingLine,
    Nat.min_eq_left hstart]
  omega

section

variable (hvalid : (astraConfigDocumentValidate text schemaVersion).1 = .ok)
include hvalid

theorem replace_edits : EditsTo (astraConfigDocumentReplace text key index value)
      (Replaced text schemaVersion key index value) ↔ ¬Overruns text key index value := by
  have hconstant : ∀ refusal : Option ConfigAnswer,
      (∀ capacity, astraConfigDocumentReplace text key index value capacity = refusal) →
      (∀ r, refusal = some r → r.status ≠ .ok ∧ r.written = none) →
      ¬Overruns text key index value →
      (EditsTo (astraConfigDocumentReplace text key index value)
        (Replaced text schemaVersion key index value) ↔ ¬Overruns text key index value) :=
    fun _ hall hr hno => ⟨fun _ => hno, fun _ => .inl ⟨_, hall, hr⟩⟩
  have hunfound : astraConfigDocumentKeyValid key ≠ some true → ¬Overruns text key index value := by
    rintro hkey ⟨-, -, -, start, stop, hrange, -⟩
    obtain ⟨found, hfind, hfound⟩ := Option.map_eq_some_iff.1 hrange
    unfold findLine at hfind
    rcases hk : astraConfigDocumentKeyValid key with _ | _ | _ <;> rw [hk] at hfind
    · cases hfind
    · cases hfind
      cases hfound
    · exact hkey hk
  by_cases hkey : astraConfigDocumentKeyValid key = some true
  swap
  · rcases hk : astraConfigDocumentKeyValid key with _ | _ | _
    · refine hconstant none (fun capacity => ?_) nofun (hunfound hkey)
      simp only [astraConfigDocumentReplace, hk]
    · refine hconstant (some ⟨.invalid, none, none⟩) (fun capacity => ?_) (by simp)
        (hunfound hkey)
      simp only [astraConfigDocumentReplace, hk]
    · exact absurd hk hkey
  by_cases hbad : value.bytes.length ≥ 2 ^ 32 ∨ astraUtf8Validate value.bytes = false
  · refine hconstant (some ⟨.invalid, none, none⟩) (fun capacity => ?_) (by simp) ?_
    · simp only [astraConfigDocumentReplace, hkey]
      rw [if_pos hbad]
    · rintro ⟨-, hlen, hutf, -⟩
      rcases hbad with hbad | hbad
      · omega
      · rw [hutf] at hbad
        cases hbad
  rw [not_or, Bool.not_eq_false] at hbad
  obtain ⟨hlen, hvalue⟩ := hbad
  obtain ⟨-, hutf, hparsed, -⟩ := validate_iff.1 hvalid
  obtain ⟨found, hfind, -⟩ := findLine_spec hkey hutf hparsed index
  generalize (valuesOf key.bytes (settingsOf (contentsOf text))).length = count at hfind
  rcases hrange : replacedRange text index (.ok (found, count)) with status | ⟨start, stop⟩
  · refine hconstant (some ⟨status, some 0, none⟩) (fun capacity => ?_) ?_ ?_
    · simp only [astraConfigDocumentReplace, hkey]
      rw [if_neg (by simp [hvalue]; omega), hfind, Option.map_some, hrange]
    · rintro r hr
      cases hr
      exact ⟨replacedRange_error hrange, rfl⟩
    · rintro ⟨-, -, -, start, stop, hok, -⟩
      rw [hfind, Option.map_some, hrange] at hok
      cases hok
  have hmapped : (findLine text key index).map (replacedRange text index) =
      some (.ok (start, stop)) := by
    rw [hfind, Option.map_some, hrange]
  have hanswer := fun capacity => replace_in_range hkey (not_le.1 hlen) hvalue hmapped capacity
  obtain ⟨hstart, hreplaced⟩ := replaced_spec hvalid hkey hvalue hmapped
  have hlength := length_replaced key value stop hstart
  generalize text.take start ++ missingEnd text start ++ (settingLine key.bytes value.bytes).bytes ++
    text.drop stop = new at hanswer hreplaced hlength
  by_cases hguard : 2 ^ 32 ≤ start + (text.length - stop) + key.bytes.length +
      encodedLength value.bytes + (missingEnd text start).length + 6 + 1
  · simp only [if_pos hguard] at hanswer
    refine hconstant _ hanswer (by simp) ?_
    rintro ⟨-, -, -, start', stop', hok, hfits⟩
    rw [hmapped] at hok
    obtain ⟨rfl, rfl⟩ := Prod.mk.inj (Except.ok.inj (Option.some.inj hok))
    omega
  simp only [if_neg hguard] at hanswer
  by_cases hcount : encodedCount value.bytes < 2 ^ 32
  · have htotal : start + (text.length - stop) + key.bytes.length + encodedLength value.bytes +
        (missingEnd text start).length + 6 = new.length := by
      rw [hlength, encodedLength, Nat.mod_eq_of_lt hcount]
    rw [htotal] at hanswer
    exact ⟨fun _ h => absurd h.1 (not_le.2 hcount), fun _ => .inr ⟨new, hreplaced, hanswer⟩⟩
  · -- The count has come round, and more is written than the answer says.
    have hmod : encodedLength value.bytes < encodedCount value.bytes :=
      (Nat.mod_lt _ (by simp)).trans_le (not_lt.1 hcount)
    generalize htotal : start + (text.length - stop) + key.bytes.length +
      encodedLength value.bytes + (missingEnd text start).length + 6 = total at hanswer hguard
    have hwritten := hanswer (some (total + 1))
    rw [if_neg (by simp)] at hwritten
    refine ⟨fun hedits => ?_, fun hno => absurd ⟨not_lt.1 hcount, not_le.1 hlen, hvalue, start, stop,
      hmapped, by omega⟩ hno⟩
    rcases hedits with ⟨refusal, hall, hr⟩ | ⟨new', -, hall⟩
    · rw [hall] at hwritten
      exact absurd rfl (hr _ hwritten).1
    · rw [hall, Option.some_inj, writing] at hwritten
      split_ifs at hwritten
      · cases hwritten
      · simp only [ConfigAnswer.mk.injEq, Option.some.injEq, true_and] at hwritten
        obtain ⟨hsize, hbytes⟩ := hwritten
        have hsame := congrArg List.length hbytes
        simp only [length_append] at hsame
        omega

theorem remove_edits :
    EditsTo (astraConfigDocumentRemove text key index) (Removed text schemaVersion key index) := by
  obtain ⟨hschema, hutf, hparsed, hheaded⟩ := validate_iff.1 hvalid
  rcases hk : astraConfigDocumentKeyValid key with _ | _ | _
  · refine .inl ⟨none, fun capacity => ?_, nofun⟩
    simp only [astraConfigDocumentRemove, findLine, hk]
  · refine .inl ⟨some ⟨.invalid, some 0, none⟩, fun capacity => ?_, by simp⟩
    simp only [astraConfigDocumentRemove, findLine, hk]
  obtain ⟨found, hfind, hnone, hsome⟩ := findLine_spec hk hutf hparsed index
  by_cases hi : (valuesOf key.bytes (settingsOf (contentsOf text))).length ≤ index
  · refine .inl ⟨some ⟨.notFound, some 0, none⟩, fun capacity => ?_, by simp⟩
    simp only [astraConfigDocumentRemove, hfind, hnone hi]
  obtain ⟨line, before, at', behind, rfl, hfound⟩ := hsome (not_le.1 hi)
  obtain ⟨hdoc, hcut⟩ := documentLines_iff.1 hfound.cut
  obtain ⟨htake, hdrop⟩ := documentLines_take hfound.cut
  obtain ⟨left, hleft, hleftCut, hsame⟩ := hcut.remove
  rw [documentOf_append] at hleft
  have hlength := congrArg List.length hdoc
  simp only [documentOf_append, documentOf_cons, length_append] at hlength
  -- An empty line that is gone was no setting.
  have hsettings : settingsOf (left.map CutLine.content) =
      settingsOf (before.map CutLine.content) ++ settingsOf (behind.map CutLine.content) ∧
      Parsed (left.map CutLine.content) := by
    have hparsed' := hparsed
    unfold contentsOf at hparsed'
    rw [hfound.cut, map_append, map_cons, parsed_append, parsed_cons] at hparsed'
    rcases hsame with hsame | ⟨rest, hrest, hsame⟩
    · rw [hsame, map_append, settingsOf_append]
      exact ⟨rfl, parsed_append.2 ⟨hparsed'.1, hparsed'.2.2⟩⟩
    · have hempty : lineParse [] = .ok none := rfl
      rw [hsame, hrest, settingsOf_append, settingsOf_cons_none hempty]
      rw [hrest, parsed_cons] at hparsed'
      exact ⟨rfl, parsed_append.2 ⟨hparsed'.1, hparsed'.2.2.2⟩⟩
  have hcontents : contentsOf (documentOf before ++ documentOf behind) =
      left.map CutLine.content := by
    unfold contentsOf
    rw [documentLines_iff.2 ⟨hleft, hleftCut⟩]
  rw [← hcontents] at hsettings
  obtain ⟨hbeforeText, hrestText⟩ := (cut_append.1 hcut).1.validText
    (by rw [append_nil, ← documentOf_append, hdoc]; exact hutf)
  have hbehindText : astraUtf8Validate (documentOf behind) = true := by
    have hat := (cut_append.1 hcut).2.1
    rw [append_nil] at hat hrestText
    exact (hat.validText hrestText).2
  have hutfNew := validText_append hbeforeText hbehindText
  have hsettingsText : settingsOf (contentsOf text) = settingsOf (before.map CutLine.content) ++
      line.setting :: settingsOf (behind.map CutLine.content) := by
    unfold contentsOf
    rw [hfound.cut, map_append, map_cons, settingsOf_append,
      settingsOf_cons_some hfound.parsed]
  have hmoved := values_removed line.setting (settingsOf (behind.map CutLine.content)) hfound.headers
  rw [← hsettings.1, ← hsettingsText, hfound.sameKey, hfound.counted] at hmoved
  refine .inr ⟨documentOf before ++ documentOf behind, ⟨validate_iff.2 ⟨hschema, hutfNew, hsettings.2,
    ?_⟩, ?_, ?_, ⟨before, at', behind, hfound.cut, rfl⟩⟩, fun capacity => ?_⟩
  · rw [hsettings.1, headed_append hfound.headers]
    rwa [hsettingsText, headed_append hfound.headers] at hheaded
  · intro index' capacity
    exact get_congr hutf hparsed hutfNew hsettings.2 (hmoved.1 index') capacity
  · intro key' hne index' capacity
    refine get_congr hutf hparsed hutfNew hsettings.2 ?_ capacity
    rw [hmoved.2 _ (bytes_ne hne)]
  · have htotal : text.length - (line.stop - line.start) =
        (documentOf before ++ documentOf behind).length := by
      rw [hfound.stop, length_append]
      omega
    simp only [astraConfigDocumentRemove, hfind, htotal, writing]
    rw [hfound.stop, hfound.start, htake, hdrop]
    split_ifs <;> rfl

end

/-- An edit of an accepted document changes one value, and for a replacement that is so exactly where
the length of the escaped value does not come round. -/
theorem document_edits (hvalid : (astraConfigDocumentValidate text schemaVersion).1 = .ok) :
    (EditsTo (astraConfigDocumentReplace text key index value)
        (Replaced text schemaVersion key index value) ↔ ¬Overruns text key index value) ∧
      EditsTo (astraConfigDocumentRemove text key index) (Removed text schemaVersion key index) :=
  ⟨replace_edits hvalid, remove_edits hvalid⟩

/-- "astra-config 1", "schema 3", "a = 5", without an end of the last line. -/
def shortDocument : List UInt8 :=
  [0x61, 0x73, 0x74, 0x72, 0x61, 0x2d, 0x63, 0x6f, 0x6e, 0x66, 0x69, 0x67, 0x20, 0x31, 0x0a,
    0x73, 0x63, 0x68, 0x65, 0x6d, 0x61, 0x20, 0x33, 0x0d, 0x61, 0x20, 0x3d, 0x20, 0x35]

theorem shortDocument_valid : (astraConfigDocumentValidate shortDocument 3).1 = .ok := by
  decide +kernel

theorem document_edits_short :
    EditsTo (astraConfigDocumentReplace shortDocument (CString.ofBytes [0x61]) 1
        (CString.ofBytes [0x78, 0x0a]))
      (Replaced shortDocument 3 (CString.ofBytes [0x61]) 1 (CString.ofBytes [0x78, 0x0a])) :=
  (document_edits shortDocument_valid).1.2 fun h => absurd h.1 (by decide)

/-- As many quotes as are counted zero bytes when they are escaped. -/
def quotes : CString := ⟨List.replicate (2 ^ 31) configQuote, fun h =>
  absurd (List.eq_of_mem_replicate h) (by decide)⟩

theorem encodedCount_replicate : encodedCount (List.replicate n configQuote) = 2 * n := by
  induction n with
  | zero => rfl
  | succ n ih =>
    rw [replicate_succ, encodedCount, ih, if_pos (by decide)]
    omega

theorem utf8_replicate : Utf8 (List.replicate n configQuote) := by
  induction n with
  | zero => exact utf8_nil
  | succ n ih => exact (utf8_ascii (show configQuote.toNat < 128 by decide)).append ih

/-- Put for the value of "a", they are written behind the end of the buffer. -/
theorem quotes_overrun :
    ¬EditsTo (astraConfigDocumentReplace shortDocument (CString.ofBytes [0x61]) 0 quotes)
      (Replaced shortDocument 3 (CString.ofBytes [0x61]) 0 quotes) := by
  rw [replace_edits shortDocument_valid, not_not]
  have hrange : (findLine shortDocument (CString.ofBytes [0x61]) 0).map
      (replacedRange shortDocument 0) = some (.ok (24, 29)) := by
    decide +kernel
  refine ⟨?_, ?_, astraUtf8Validate_text.2 ⟨utf8_replicate _, quotes.noNul⟩, 24, 29, hrange, ?_⟩
  · rw [show quotes.bytes = List.replicate (2 ^ 31) configQuote from rfl, encodedCount_replicate]
    omega
  · rw [show quotes.bytes = List.replicate (2 ^ 31) configQuote from rfl, length_replicate]
    omega
  · rw [encodedLength, show quotes.bytes = List.replicate (2 ^ 31) configQuote from rfl,
      encodedCount_replicate]
    decide +kernel

end Astra
