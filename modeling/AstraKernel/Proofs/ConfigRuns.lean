import AstraKernel.Proofs.ConfigProcesses

/-!
# Runs of the writers and the readers

What a handle has was the document at one moment and is valid, a commit puts in place what the call
was asked for, and a call succeeds exactly where it has committed: in every run in which no close of
the lock file fails behind a commit.
-/

namespace Astra

open List

variable {schema : AstraConfigSchema} {p q : ℕ} {f f' : ConfigFiles} {c c' : ConfigProcess}
  {action : ConfigAction} {text source : List UInt8} {key : CString} {index place : ℕ}
  {answers : ConfigAnswers} {status : AstraConfigLibraryStatus} {s₀ s s' : ConfigSystem}

/-! ## The documents are valid -/

def DocumentValid (schema : AstraConfigSchema) (text : List UInt8) : Prop :=
  (astraConfigDocumentValidate text schema.version).1 = .ok

variable {value : CString} {a : ConfigAnswer} {w : ConfigWrite} {capacity : Option ℕ} {version : ℕ}

section

variable (hvalid : DocumentValid schema source)
include hvalid

theorem replace_valid
    (h : astraConfigDocumentReplace source key index value capacity = some a) (hok : a.status = .ok) :
    ∃ new, a.written = some (new ++ [0]) ∧ DocumentValid schema new := by
  unfold astraConfigDocumentReplace at h
  split at h
  · cases h
  · cases h
    cases hok
  · rename_i hkey
    split_ifs at h with hvalue
    · cases h
      cases hok
    rw [not_or, Bool.not_eq_false] at hvalue
    obtain ⟨found, hfind, ha⟩ := Option.map_eq_some_iff.1 h
    dsimp only at ha
    split at ha
    · rename_i hrange
      rw [← ha] at hok
      cases found with
      | error s =>
        cases hrange
        exact (findLine_error hfind hok).elim
      | ok found => exact (replacedRange_error hrange hok).elim
    · rename_i start stop hrange
      have hfound : (findLine source key index).map (replacedRange source index) =
          some (.ok (start, stop)) := by
        rw [hfind, Option.map_some, hrange]
      have hspec := (replaced_spec hvalid hkey hvalue.2 hfound).2.valid
      split_ifs at ha
      · rw [← ha] at hok
        cases hok
      · rw [← ha] at hok
        cases hok
      · rw [← ha]
        exact ⟨_, rfl, hspec⟩

theorem remove_valid
    (h : astraConfigDocumentRemove source key index capacity = some a) (hok : a.status = .ok) :
    ∃ new, a.written = some (new ++ [0]) ∧ DocumentValid schema new := by
  have hedits : EditsTo (astraConfigDocumentRemove source key index)
      (Removed source schema.version key index) := remove_edits hvalid
  rcases hedits with ⟨refusal, hall, hrefusal⟩ | ⟨new, hnew, hall⟩
  · exact ((hrefusal a (by rw [← hall capacity, h])).1 hok).elim
  · rw [hall capacity] at h
    cases h
    unfold writing at hok ⊢
    split_ifs at hok ⊢
    exact ⟨new, rfl, hnew.valid⟩

theorem transform_valid {value : Option CString}
    {memory : Bool} (h : transform schema source key index value memory = some (.ok text)) :
    DocumentValid schema text := by
  unfold transform at h
  split at h
  · cases h
  obtain ⟨probe, hprobe, h⟩ := Option.bind_eq_some_iff.1 h
  split at h
  · cases h
  split at h
  · cases h
  obtain ⟨answer, hanswer, h⟩ := Option.bind_eq_some_iff.1 h
  split at h
  · cases h
  rename_i hok
  rw [not_not] at hok
  have hnew : ∃ new, answer.written = some (new ++ [0]) ∧ DocumentValid schema new := by
    cases value with
    | none => exact remove_valid hvalid hanswer hok
    | some value => exact replace_valid hvalid hanswer hok
  obtain ⟨new, hwritten, hnew⟩ := hnew
  obtain ⟨bytes, hbytes, htext⟩ := Option.map_eq_some_iff.1 h
  obtain rfl := Except.ok.inj htext
  rw [hwritten] at hbytes
  unfold areaText at hbytes
  dsimp only at hbytes
  split_ifs at hbytes
  rw [dropLast_concat] at hbytes
  exact Option.some.inj hbytes ▸ hnew

theorem setUnlocked_valid
    (h : setUnlocked schema answers place source key index value = some (.ok text)) :
    DocumentValid schema text := by
  unfold setUnlocked at h
  split at h
  · cases h
  · split at h
    · cases h
    · exact transform_valid hvalid h

theorem appendUnlocked_valid
    (h : appendUnlocked schema answers place source key value = some (.ok text)) :
    DocumentValid schema text := by
  obtain ⟨count, -, h⟩ := Option.bind_eq_some_iff.1 h
  cases count with
  | error s => cases h
  | ok count => exact setUnlocked_valid hvalid h

theorem applyChange_valid {item : AstraConfigChange}
    (h : applyChange schema answers place source item = some (.ok text)) :
    DocumentValid schema text := by
  unfold applyChange at h
  split at h
  · exact setUnlocked_valid hvalid h
  · exact appendUnlocked_valid hvalid h
  · exact transform_valid hvalid h

end

theorem applyChangesFrom_valid : ∀ {changes : List AstraConfigChange} {place : ℕ}
    {source : List UInt8}, DocumentValid schema source →
    applyChangesFrom schema answers changes place source = some (.ok text) →
    DocumentValid schema text
  | [], _, _, hvalid, h => by
    obtain rfl : _ = text := by simpa [applyChangesFrom] using h
    exact hvalid
  | item :: changes, place, source, hvalid, h => by
    obtain ⟨r, hitem, h⟩ := Option.bind_eq_some_iff.1 h
    cases r with
    | error s => cases h
    | ok next => exact applyChangesFrom_valid (applyChange_valid hvalid hitem) h

theorem edited_valid (hvalid : DocumentValid schema source) {r : ConfigRequest}
    (h : r.edited schema answers source = some (.ok text)) : DocumentValid schema text := by
  cases r with
  | setString key index value => exact setUnlocked_valid hvalid h
  | appendString key value => exact appendUnlocked_valid hvalid h
  | remove key index =>
    simp only [ConfigRequest.edited] at h
    exact transform_valid hvalid h
  | apply changes => exact applyChangesFrom_valid hvalid h

/-! ## The document that a writer starts from -/

def versionDigits (version : ℕ) : List UInt8 :=
  (Nat.toDigits 10 version).map fun digit => UInt8.ofNat digit.toNat

theorem digit_byte {d : Char} (h : d.isDigit) : (UInt8.ofNat d.toNat).toNat = d.toNat ∧
    48 ≤ d.toNat ∧ d.toNat ≤ 57 := by
  have hd := Char.isDigit_iff_toNat.1 h
  have hlt : d.toNat < 2 ^ 8 := hd.2.trans_lt (by decide)
  exact ⟨UInt8.toNat_ofNat_of_lt' hlt, hd.1, hd.2⟩

theorem decimalFrom_digits : ∀ {digits : List Char} {result : ℕ}, (∀ d ∈ digits, d.isDigit) →
    0 < Nat.ofDigitChars 10 digits result → Nat.ofDigitChars 10 digits result < 2 ^ 32 →
    decimalFrom result (digits.map fun d => UInt8.ofNat d.toNat) =
      some (Nat.ofDigitChars 10 digits result)
  | [], result, _, hpos, _ => by
    rw [Nat.ofDigitChars_nil] at hpos ⊢
    rw [map_nil, decimalFrom, if_neg hpos.ne']
  | d :: digits, result, hdigits, hpos, hlt => by
    obtain ⟨hbyte, hlow, hhigh⟩ := digit_byte (hdigits d mem_cons_self)
    have hzero : '0'.toNat = 48 := rfl
    rw [Nat.ofDigitChars_cons, hzero] at hpos hlt ⊢
    have hle : 10 * result + (d.toNat - 48) ≤
        Nat.ofDigitChars 10 digits (10 * result + (d.toNat - 48)) := by
      rw [Nat.ofDigitChars_eq_ofDigitChars_zero]
      have := Nat.le_mul_of_pos_left (10 * result + (d.toNat - 48)) (Nat.pow_pos (n := digits.length)
        (show 0 < 10 by decide))
      omega
    rw [map_cons, decimalFrom, if_neg, hbyte]
    · dsimp only
      rw [if_neg (by omega), Nat.mul_comm result]
      exact decimalFrom_digits (fun d hd => hdigits d (mem_cons_of_mem _ hd)) hpos hlt
    · simp only [gt_iff_lt, UInt8.lt_iff_toNat_lt, hbyte, UInt8.reduceToNat]
      omega

theorem decimal_digits {name : List UInt8} (hpos : 0 < version)
    (hlt : version < 2 ^ 32) : decimal ⟨name, versionDigits version, false⟩ = some version := by
  have hvalue := Nat.ofDigitChars_toDigits (n := version) (show 1 < 10 by decide) le_rfl
  have hne : versionDigits version ≠ [] := by
    simp [versionDigits, Nat.toDigits_ne_nil]
  unfold decimal
  rw [if_neg (by simp [hne])]
  unfold versionDigits
  rw [decimalFrom_digits, hvalue]
  · exact fun d hd => Nat.isDigit_of_mem_toDigits (by decide) le_rfl hd
  · rwa [hvalue]
  · rwa [hvalue]

theorem versionDigits_plain : ∀ b ∈ versionDigits version, keyCharacter b ∧
    b.toNat < 128 ∧ b ≠ configQuote := by
  intro b hb
  obtain ⟨d, hd, rfl⟩ := mem_map.1 hb
  obtain ⟨hbyte, hlow, hhigh⟩ := digit_byte (Nat.isDigit_of_mem_toDigits (by decide) le_rfl hd)
  refine ⟨?_, by omega, fun he => ?_⟩
  · simp only [keyCharacter, UInt8.le_iff_toNat_le, hbyte, UInt8.reduceToNat, decide_eq_true_eq]
    omega
  · rw [he] at hbyte
    simp only [configQuote, UInt8.reduceToNat] at hbyte
    omega

theorem plainValue_plain : ∀ {value : List UInt8} {blank : Bool},
    (∀ b ∈ value, b ≠ configHash) → plainValue blank value = value
  | [], _, _ => rfl
  | b :: value, blank, h => by
    rw [plainValue, if_neg fun hb => h b mem_cons_self hb.1,
      plainValue_plain fun b hb => h b (mem_cons_of_mem _ hb)]

theorem lineParse_header {name value : List UInt8} (hname : name ≠ []) (hvalue : value ≠ [])
    (hkey : ∀ b ∈ name, keyCharacter b)
    (hplain : ∀ b ∈ value, keyCharacter b ∧ b.toNat < 128 ∧ b ≠ configQuote) :
    lineParse (name ++ 0x20 :: value) = .ok (some ⟨name, value, false⟩) := by
  obtain ⟨b, name', rfl⟩ := exists_cons_of_ne_nil hname
  obtain ⟨v, value', rfl⟩ := exists_cons_of_ne_nil hvalue
  have hb := keyCharacter_plain (hkey b mem_cons_self)
  have hv := keyCharacter_plain (hplain v mem_cons_self).1
  have hbody : ((b :: name') ++ 0x20 :: v :: value').dropWhile configSpace =
      (b :: name') ++ 0x20 :: v :: value' := by
    simp [hb.1]
  have htake : ((b :: name') ++ 0x20 :: v :: value').takeWhile keyCharacter = b :: name' := by
    rw [takeWhile_append_of_pos hkey]
    simp [keyCharacter]
  have hdrop : ((b :: name') ++ 0x20 :: v :: value').dropWhile keyCharacter =
      0x20 :: v :: value' := by
    rw [dropWhile_append_of_pos hkey]
    simp [keyCharacter]
  have hvalue' : plainValue true (v :: value') = v :: value' :=
    plainValue_plain fun b hb => (keyCharacter_plain (hplain b hb).1).2.1
  have htrim : (v :: value').rdropWhile configSpace = v :: value' :=
    rdropWhile_eq_self_iff.2 fun hne => by
      simp [(keyCharacter_plain (hplain _ (getLast_mem hne)).1).1]
  have hstart : (v :: value').dropWhile configSpace = v :: value' := by
    simp [hv.1]
  have hspace : configSpace 0x20 = true := rfl
  have hequal : v ≠ configEqual := by
    rintro rfl
    exact absurd (hplain _ mem_cons_self).1 (by decide)
  unfold lineParse
  simp only [hbody, htake, hdrop]
  rw [if_neg (by simp [hb.2.1]), if_neg (by simp), if_neg (by simp [configSpace])]
  simp [hspace, hstart, hv.2.1, hequal, (hplain v mem_cons_self).2.2, hvalue', htrim]

theorem headerNames_plain : ∀ header < 2, headerNames header ≠ [] ∧
    (∀ b ∈ headerNames header, keyCharacter b) := by
  intro header hheader
  rcases header with _ | _ | header
  · refine ⟨by simp [headerNames], ?_⟩
    simp [headerNames, keyCharacter]
  · refine ⟨by simp [headerNames], ?_⟩
    simp [headerNames, keyCharacter]
  · omega

def headerLine (header : ℕ) (value : List UInt8) : CutLine :=
  ⟨headerNames header ++ 0x20 :: value, [configLf]⟩

theorem headerLine_spec (header : ℕ) (value : List UInt8) (hheader : header < 2) (hne : value ≠ [])
    (hplain : ∀ b ∈ value, keyCharacter b ∧ b.toNat < 128 ∧ b ≠ configQuote) :
    lineParse (headerLine header value).content = .ok (some ⟨headerNames header, value, false⟩) ∧
      (∀ behind, Ends (headerLine header value) behind) ∧
      ∀ b ∈ (headerLine header value).bytes, b.toNat < 128 ∧ b ≠ 0 := by
  obtain ⟨hname, hkey⟩ := headerNames_plain header hheader
  refine ⟨lineParse_header hname hne hkey hplain, fun behind => ⟨fun b hb => ?_, .inl rfl⟩,
    fun b hb => ?_⟩
  · simp only [headerLine, mem_append, mem_cons] at hb
    rcases hb with hb | rfl | hb
    · exact (keyCharacter_plain (hkey b hb)).2.2.1
    · rfl
    · exact (keyCharacter_plain (hplain b hb).1).2.2.1
  · simp only [headerLine, CutLine.bytes, mem_append, mem_cons, not_mem_nil,
      or_false] at hb
    rcases hb with (hb | rfl | hb) | rfl
    · exact (keyCharacter_plain (hkey b hb)).2.2.2
    · decide
    · exact (keyCharacter_plain (hplain b hb).1).2.2.2
    · decide

theorem initialDocument_valid (hversion : 0 < schema.version ∧ schema.version < 2 ^ 32) :
    DocumentValid schema (initialDocument schema.version) := by
  obtain ⟨hparse, hends, hascii⟩ := headerLine_spec 0 [0x31] (by decide) (by decide)
    (by simp [keyCharacter, configQuote])
  obtain ⟨hparse', hends', hascii'⟩ := headerLine_spec 1 (versionDigits schema.version) (by decide)
    (by simp [versionDigits, Nat.toDigits_ne_nil]) versionDigits_plain
  have hdoc : initialDocument schema.version =
      documentOf [headerLine 0 [0x31], headerLine 1 (versionDigits schema.version)] := by
    simp [initialDocument, headerLine, CutLine.bytes, versionDigits]
  have hlines : documentLines (initialDocument schema.version) =
      [headerLine 0 [0x31], headerLine 1 (versionDigits schema.version)] :=
    documentLines_iff.2 ⟨hdoc.symm, hends _, hends' _, trivial⟩
  refine validate_iff.2 ⟨hversion.1.ne', ?_, ?_, ?_⟩
  · rw [hdoc, documentOf_cons, documentOf_cons, documentOf_nil, append_nil]
    exact validText_append (ascii_validText hascii) (ascii_validText hascii')
  · unfold contentsOf
    rw [hlines, map_cons, map_cons, parsed_cons, parsed_cons]
    exact ⟨⟨_, hparse⟩, ⟨_, hparse'⟩, fun _ hmem => absurd hmem not_mem_nil⟩
  · unfold contentsOf
    rw [hlines, map_cons, map_cons, settingsOf_cons_some hparse,
      settingsOf_cons_some hparse', headed_zero]
    exact ⟨_, _, _, rfl, rfl, rfl, rfl, decimal_digits hversion.1 hversion.2⟩

/-! ## What one step does to the texts -/

def PcValid (schema : AstraConfigSchema) (c : ConfigProcess) : ConfigPc → Prop
  | .closed => True
  | .load use => use = .opening ∨ DocumentValid schema c.text
  | .read use _ _ _ => use = .opening ∨ DocumentValid schema c.text
  | .closeFile use _ => use = .opening ∨ DocumentValid schema c.text
  | .unlink _ text => DocumentValid schema c.text ∧ DocumentValid schema text
  | .create _ text => DocumentValid schema c.text ∧ DocumentValid schema text
  | .write _ text _ _ => DocumentValid schema c.text ∧ DocumentValid schema text
  | .sync _ text => DocumentValid schema c.text ∧ DocumentValid schema text
  | .closeTemporary _ text _ => DocumentValid schema c.text ∧ DocumentValid schema text
  | .rename _ text => DocumentValid schema c.text ∧ DocumentValid schema text
  | _ => DocumentValid schema c.text

theorem refused_valid {use : ConfigUse} (h : use = .opening ∨ DocumentValid schema c.text) :
    PcValid schema (c.refused status use) (c.refused status use).pc := by
  cases use with
  | opening => trivial
  | reloading => exact h.resolve_left nofun
  | writing w => exact h.resolve_left nofun

theorem loaded_valid (h : DocumentValid schema text) (use : ConfigUse) :
    PcValid schema (c.loaded text use) (c.loaded text use).pc := by
  cases use with
  | opening => exact h
  | reloading => exact h
  | writing w =>
    unfold ConfigProcess.loaded
    dsimp only
    split_ifs
    · exact h
    · exact h

theorem step_valid (hversion : 0 < schema.version ∧ schema.version < 2 ^ 32)
    (h : PcValid schema c c.pc) (hs : c.step schema p f action = some (f', c')) :
    PcValid schema c' c'.pc := by
  unfold ConfigProcess.step at hs
  split at hs
  all_goals rename_i hpc
  all_goals try rw [hpc] at h
  all_goals try (cases hs; exact h)
  all_goals try (cases hs; exact h.1)
  all_goals try (cases hs; exact refused_valid h)
  · -- a handle is opened
    cases hs
    exact .inl rfl
  · cases hs
    exact .inr h
  · -- a request
    split_ifs at hs
    · cases hs
      rw [hpc]
      exact h
    · cases hs
      exact h
  · -- the document is opened
    split at hs
    · split_ifs at hs
      · cases hs
        exact loaded_valid (initialDocument_valid hversion) _
      · cases hs
        exact refused_valid h
    · dsimp only at hs
      split_ifs at hs <;> cases hs <;> exact h
  · split_ifs at hs
    · cases hs
      exact refused_valid h
    · cases hs
      exact h
  · split_ifs at hs
    cases hs
    exact refused_valid h
  · split_ifs at hs
    cases hs
    exact h
  · split_ifs at hs
    cases hs
    exact h
  · -- the text is checked
    cases hs
    unfold ConfigProcess.checked
    split
    · exact refused_valid h
    · dsimp only
      split_ifs with hok
      · exact loaded_valid hok _
      · exact refused_valid h
  · split_ifs at hs
    cases hs
    exact .inr h
  · cases hs
    split_ifs <;> exact h
  · cases hs
    split_ifs <;> exact h
  · -- the edit
    split at hs
    · cases hs
    · cases hs
      exact h
    · rename_i hedit
      cases hs
      exact ⟨h, edited_valid h hedit⟩
  · split_ifs at hs
    cases hs
    exact h
  · split_ifs at hs
    cases hs
    exact h
  · cases hs
    split_ifs
    · exact h
    · exact h.1
  · -- the rename
    split at hs
    · cases hs
    · cases hs
      exact h.2
  · cases hs
    trivial
  · cases hs

inductive NewText (schema : AstraConfigSchema) (f f' : ConfigFiles) (c : ConfigProcess)
    (text : List UInt8) : Prop
  | kept (h : text = c.text)
  | initial (hnone : f.settings = none) (h : text = initialDocument schema.version)
  | read (use : ConfigUse) (hpc : c.pc = .closeFile use (.ok text)) (h : DocumentValid schema text)
  | committed (w : ConfigWrite) (node : ℕ) (hpc : c.pc = .rename w text)
    (htemporary : f.temporary = some node) (hsettings : f'.settings = some node)
    (h : f'.contents = f.contents)

theorem refused_text (status : AstraConfigLibraryStatus) (use : ConfigUse) :
    (c.refused status use).text = c.text := by
  cases use <;> rfl

theorem loaded_text (text : List UInt8) (use : ConfigUse) : (c.loaded text use).text = text := by
  cases use <;> rfl

theorem step_text (hs : c.step schema p f action = some (f', c')) :
    NewText schema f f' c c'.text := by
  unfold ConfigProcess.step at hs
  split at hs
  all_goals rename_i hpc
  all_goals try (cases hs; exact .kept rfl)
  all_goals try (cases hs; exact .kept (refused_text _ _))
  all_goals try (split_ifs at hs <;> cases hs <;> exact .kept rfl)
  · -- there is no document
    split at hs
    · rename_i hnone
      split_ifs at hs
      · cases hs
        exact .initial hnone (loaded_text _ _)
      · cases hs
        exact .kept (refused_text _ _)
    · dsimp only at hs
      split_ifs at hs <;> cases hs <;> exact .kept rfl
  · split_ifs at hs
    · cases hs
      exact .kept (refused_text _ _)
    · cases hs
      exact .kept rfl
  · split_ifs at hs
    cases hs
    exact .kept (refused_text _ _)
  · -- a text is checked
    cases hs
    unfold ConfigProcess.checked
    split
    · exact .kept (refused_text _ _)
    · dsimp only
      split_ifs with hvalid
      · rw [loaded_text]
        exact .read _ hpc hvalid
      · exact .kept (refused_text _ _)
  · -- the edit
    split at hs <;> cases hs <;> exact .kept rfl
  · -- the rename
    split at hs
    · cases hs
    · rename_i node htemporary
      cases hs
      exact .committed _ node hpc htemporary rfl rfl
  · cases hs

def ConfigPc.Reads : ConfigPc → Prop
  | .read _ _ _ _ => True
  | .closeFile _ (.ok _) => True
  | _ => False

theorem refused_reads (status : AstraConfigLibraryStatus) (use : ConfigUse) :
    ¬(c.refused status use).pc.Reads := by
  cases use <;> exact id

theorem loaded_reads (text : List UInt8) (use : ConfigUse) : ¬(c.loaded text use).pc.Reads := by
  cases use with
  | opening => exact id
  | reloading => exact id
  | writing w =>
    unfold ConfigProcess.loaded
    dsimp only
    split_ifs <;> exact id

theorem step_reads (hs : c.step schema p f action = some (f', c')) (hreads : c'.pc.Reads) :
    c.pc.Reads ∧ c'.opened = c.opened ∨ c'.opened = f.document schema.version := by
  unfold ConfigProcess.step at hs
  split at hs
  all_goals rename_i hpc
  all_goals try (cases hs; exact hreads.elim)
  all_goals try (cases hs; exact (refused_reads _ _ hreads).elim)
  · -- a request
    split_ifs at hs <;> cases hs
    · exact absurd hreads (by rw [hpc]; exact id)
    · exact hreads.elim
  · -- the document is opened
    split at hs
    · split_ifs at hs <;> cases hs
      · exact (loaded_reads _ _ hreads).elim
      · exact (refused_reads _ _ hreads).elim
    · rename_i node hsettings
      have hdocument : f.document schema.version = f.contents node := by
        unfold ConfigFiles.document
        rw [hsettings]
      dsimp only at hs
      split_ifs at hs <;> cases hs
      · exact hreads.elim
      · exact .inr hdocument.symm
  · split_ifs at hs <;> cases hs
    · exact (refused_reads _ _ hreads).elim
    · exact hreads.elim
  · split_ifs at hs
    cases hs
    exact (refused_reads _ _ hreads).elim
  · -- a part of it is read
    split_ifs at hs
    cases hs
    exact .inl ⟨by rw [hpc]; trivial, rfl⟩
  · split_ifs at hs
    cases hs
    exact .inl ⟨by rw [hpc]; trivial, rfl⟩
  · -- its text is checked
    cases hs
    refine absurd hreads ?_
    unfold ConfigProcess.checked
    split
    · exact refused_reads _ _
    · dsimp only
      split_ifs
      · exact loaded_reads _ _
      · exact refused_reads _ _
  · split_ifs at hs
    cases hs
    exact hreads.elim
  · cases hs
    split_ifs at hreads <;> exact hreads.elim
  · cases hs
    split_ifs at hreads <;> exact hreads.elim
  · -- the edit
    split at hs <;> cases hs <;> exact hreads.elim
  · split_ifs at hs
    cases hs
    exact hreads.elim
  · split_ifs at hs
    cases hs
    exact hreads.elim
  · cases hs
    split_ifs at hreads <;> exact hreads.elim
  · split at hs <;> cases hs
    exact hreads.elim
  · cases hs

def ConfigUse.asked : ConfigUse → Option ConfigWrite
  | .writing w => some w
  | _ => none

/-- The write that is under way. -/
def ConfigPc.asked : ConfigPc → Option ConfigWrite
  | .load use => use.asked
  | .read use _ _ _ => use.asked
  | .closeFile use _ => use.asked
  | .openLock w => some w
  | .tryLock w _ => some w
  | .asleep w _ => some w
  | .edit w => some w
  | .unlink w _ => some w
  | .create w _ => some w
  | .write w _ _ _ => some w
  | .sync w _ => some w
  | .closeTemporary w _ _ => some w
  | .rename w _ => some w
  | _ => none

/-- The process calls for the write, with the text that its handle has. -/
structure Asked (schema : AstraConfigSchema) (c : ConfigProcess) (w : ConfigWrite) : Prop where
  idle : c.pc = .idle
  valid : w.request.valid schema = true
  writable : c.writable = true
  seen : w.seen = c.text

theorem refused_asked (status : AstraConfigLibraryStatus) (use : ConfigUse) :
    (c.refused status use).pc.asked ≠ some w := by
  cases use <;> nofun

theorem loaded_asked (text : List UInt8) (use : ConfigUse)
    (h : (c.loaded text use).pc.asked = some w) : use.asked = some w := by
  cases use with
  | opening => exact h
  | reloading => exact h
  | writing w =>
    unfold ConfigProcess.loaded at h
    dsimp only at h
    split_ifs at h
    · cases h
    · exact h

theorem step_asked (hs : c.step schema p f action = some (f', c'))
    (h : c'.pc.asked = some w) : c.pc.asked = some w ∨ Asked schema c w := by
  unfold ConfigProcess.step at hs
  split at hs
  all_goals rename_i hpc
  all_goals try (cases hs; exact .inl (by rw [hpc]; exact h))
  all_goals try (cases hs; exact (refused_asked _ _ h).elim)
  all_goals try (cases hs; cases h)
  · -- a request
    split_ifs at hs with hrefused <;> cases hs
    · rw [hpc] at h
      cases h
    · rw [not_or, Bool.not_eq_false, Bool.not_eq_false] at hrefused
      cases h
      exact .inr ⟨hpc, hrefused.1, hrefused.2, rfl⟩
  · -- the document is opened
    rw [hpc]
    split at hs
    · split_ifs at hs <;> cases hs
      · exact .inl (loaded_asked _ _ h)
      · exact (refused_asked _ _ h).elim
    · dsimp only at hs
      split_ifs at hs <;> cases hs <;> exact .inl h
  · rw [hpc]
    split_ifs at hs <;> cases hs
    · exact (refused_asked _ _ h).elim
    · exact .inl h
  · split_ifs at hs
    cases hs
    exact (refused_asked _ _ h).elim
  · split_ifs at hs
    cases hs
    exact .inl (by rw [hpc]; exact h)
  · split_ifs at hs
    cases hs
    exact .inl (by rw [hpc]; exact h)
  · -- its text is checked
    cases hs
    unfold ConfigProcess.checked at h
    split at h
    · exact (refused_asked _ _ h).elim
    · dsimp only at h
      split_ifs at h
      · exact .inl (by rw [hpc]; exact loaded_asked _ _ h)
      · exact (refused_asked _ _ h).elim
  · split_ifs at hs
    cases hs
    exact .inl (by rw [hpc]; exact h)
  · cases hs
    split_ifs at h
    · exact .inl (by rw [hpc]; exact h)
    · cases h
  · cases hs
    split_ifs at h
    · cases h
    · exact .inl (by rw [hpc]; exact h)
  · -- the edit
    split at hs <;> cases hs
    · cases h
    · exact .inl (by rw [hpc]; exact h)
  · split_ifs at hs
    cases hs
    exact .inl (by rw [hpc]; exact h)
  · split_ifs at hs
    cases hs
    exact .inl (by rw [hpc]; exact h)
  · cases hs
    split_ifs at h
    · exact .inl (by rw [hpc]; exact h)
    · cases h
  · split at hs <;> cases hs
    cases h
  · cases hs

/-! ## Runs -/

/-- Nobody is at work; whatever the files hold. -/
structure ConfigStart (s : ConfigSystem) : Prop where
  files : FilesSound s.files
  lock : s.files.lock = none
  closed : ∀ p, (s.processes p).pc = .closed

/-- The close of the lock file fails, behind a commit. -/
def ReleaseFails (s : ConfigSystem) (p : ℕ) (action : ConfigAction) : Prop :=
  (s.processes p).pc = .endWrite .ok ∧
    ∃ failure, action = .fail failure ∨ action = .failClosed failure

/-- A step of any process, in which that does not happen. -/
def ConfigTurn (schema : AstraConfigSchema) (s s' : ConfigSystem) : Prop :=
  ∃ p action, ¬ReleaseFails s p action ∧ s.step schema p action = some s'

/-- On the run from `s₀` to `s` there is a state like that. -/
def Once (schema : AstraConfigSchema) (s₀ s : ConfigSystem) (P : ConfigSystem → Prop) : Prop :=
  ∃ s₁, Relation.ReflTransGen (ConfigTurn schema) s₀ s₁ ∧
    Relation.ReflTransGen (ConfigTurn schema) s₁ s ∧ P s₁

def HasDocument (schema : AstraConfigSchema) (text : List UInt8) (s : ConfigSystem) : Prop :=
  s.files.document schema.version = text

def Asks (schema : AstraConfigSchema) (p : ℕ) (w : ConfigWrite) (s : ConfigSystem) : Prop :=
  Asked schema (s.processes p) w

structure ConfigRunSound (schema : AstraConfigSchema) (s₀ s : ConfigSystem) : Prop where
  files : FilesSound s.files
  pc : ∀ p, PcSound schema p s.files (s.processes p) (s.processes p).pc
  valid : ∀ p, PcValid schema (s.processes p) (s.processes p).pc
  opened : ∀ p, (s.processes p).pc.Reads →
    Once schema s₀ s (HasDocument schema (s.processes p).opened)
  asked : ∀ p w, (s.processes p).pc.asked = some w → Once schema s₀ s (Asks schema p w)

theorem Once.later {P : ConfigSystem → Prop} (h : Once schema s₀ s P) (ht : ConfigTurn schema s s') :
    Once schema s₀ s' P := by
  obtain ⟨s₁, hbefore, hbehind, hp⟩ := h
  exact ⟨s₁, hbefore, hbehind.tail ht, hp⟩

theorem Once.now {P : ConfigSystem → Prop}
    (hrun : Relation.ReflTransGen (ConfigTurn schema) s₀ s) (h : P s) : Once schema s₀ s P :=
  ⟨s, hrun, .refl, h⟩

theorem start_runSound (h : ConfigStart s) : ConfigRunSound schema s s := by
  refine ⟨h.files, fun p => ?_, fun p => ?_, fun p hreads => ?_, fun p w hasked => ?_⟩
  · rw [h.closed p]
    trivial
  · rw [h.closed p]
    trivial
  · rw [h.closed p] at hreads
    exact hreads.elim
  · rw [h.closed p] at hasked
    cases hasked

theorem ConfigSystem.step_eq (hs : s.step schema p action = some s') :
    (s.processes p).step schema p s.files action = some (s'.files, s'.processes p) ∧
      ∀ q ≠ p, s'.processes q = s.processes q := by
  obtain ⟨r, hr, rfl⟩ := Option.map_eq_some_iff.1 hs
  refine ⟨?_, fun q hq => Function.update_of_ne hq _ _⟩
  dsimp only
  rw [Function.update_self, hr]

theorem ConfigRunSound.turn (hversion : 0 < schema.version ∧ schema.version < 2 ^ 32)
    (hrun : Relation.ReflTransGen (ConfigTurn schema) s₀ s) (h : ConfigRunSound schema s₀ s)
    (ht : ConfigTurn schema s s') : ConfigRunSound schema s₀ s' := by
  obtain ⟨p, action, -, hs⟩ := id ht
  obtain ⟨hstep, hothers⟩ := ConfigSystem.step_eq hs
  have hsound := step_sound h.files (h.pc p) hstep
  refine ⟨hsound.files, fun q => ?_, fun q => ?_, fun q hreads => ?_, fun q w hasked => ?_⟩
  all_goals by_cases hq : q = p
  · subst q
    exact hsound.pc
  · rw [hothers q hq]
    exact (h.pc q).frame (hsound.others q hq)
  · subst q
    exact step_valid hversion (h.valid p) hstep
  · rw [hothers q hq]
    exact h.valid q
  · subst q
    rcases step_reads hstep hreads with ⟨hold, hsame⟩ | hnew
    · rw [hsame]
      exact (h.opened p hold).later ht
    · exact (Once.now hrun hnew.symm).later ht
  · rw [hothers q hq] at hreads ⊢
    exact (h.opened q hreads).later ht
  · subst q
    rcases step_asked hstep hasked with hold | hnew
    · exact (h.asked p w hold).later ht
    · exact (Once.now hrun hnew).later ht
  · rw [hothers q hq] at hasked
    exact (h.asked q w hasked).later ht

theorem run_sound (hversion : 0 < schema.version ∧ schema.version < 2 ^ 32) (hstart : ConfigStart s₀)
    (hrun : Relation.ReflTransGen (ConfigTurn schema) s₀ s) : ConfigRunSound schema s₀ s := by
  induction hrun with
  | refl => exact start_runSound hstart
  | tail hrun ht ih => exact ih.turn hversion hrun ht

theorem answer_committed (h : PcSound schema p f c c.pc)
    (hs : c.step schema p f action = some (f', c'))
    (hsafe : ¬(c.pc = .endWrite .ok ∧ ∃ failure, action = .fail failure ∨ action = .failClosed failure))
    (hanswer : c.answer schema c.pc action = some status) :
    status = .ok ↔ c'.committed = true := by
  have failed : ∀ {status : AstraConfigLibraryStatus} {committed : Bool}, status ≠ .ok →
      committed = false → (status = .ok ↔ committed = true) := by
    rintro status committed hne rfl
    exact ⟨fun he => (hne he).elim, nofun⟩
  unfold ConfigProcess.answer at hanswer
  split at hanswer
  · -- a request that is refused
    rename_i r unchanged hpc
    simp only [ConfigProcess.step, hpc] at hs
    have hrefused : r.valid schema = false ∨ c.writable = false := by
      by_contra hno
      rw [not_or] at hno
      rw [if_neg hno.1, if_neg hno.2] at hanswer
      cases hanswer
    rw [if_pos hrefused] at hs
    cases hs
    split_ifs at hanswer <;> cases hanswer <;> exact failed nofun rfl
  · -- the lock file is not opened
    rename_i w failure hpc
    rw [hpc] at h
    simp only [ConfigProcess.step, hpc] at hs
    cases hs
    cases hanswer
    exact failed (ofVfs_ne_ok failure.failed) h.1
  · rename_i hpc
    rw [hpc] at h
    simp only [ConfigProcess.step, hpc] at hs
    cases hs
    cases hanswer
    exact failed h.2.2 h.1
  · rename_i hpc
    rw [hpc] at h
    simp only [ConfigProcess.step, hpc] at hs
    cases hs
    cases hanswer
    exact failed h.2.2 h.1
  · rename_i hpc
    rw [hpc] at h
    simp only [ConfigProcess.step, hpc] at hs
    cases hs
    cases hanswer
    exact failed h.2.2 h.1
  · -- the write ends
    rename_i hpc
    rw [hpc] at h
    simp only [ConfigProcess.step, hpc] at hs
    cases hs
    cases hanswer
    exact h.2.symm
  · rename_i status' failure hpc
    rw [hpc] at h
    simp only [ConfigProcess.step, hpc] at hs
    cases hs
    have hne : status' ≠ .ok := fun he => hsafe ⟨hpc.trans (congrArg _ he), failure, .inl rfl⟩
    rw [if_neg hne] at hanswer
    cases hanswer
    exact h.2.symm
  · rename_i status' failure hpc
    rw [hpc] at h
    simp only [ConfigProcess.step, hpc] at hs
    cases hs
    have hne : status' ≠ .ok := fun he => hsafe ⟨hpc.trans (congrArg _ he), failure, .inr rfl⟩
    rw [if_neg hne] at hanswer
    cases hanswer
    exact h.2.symm
  · cases hanswer

/-- The actions of one process, one after the other. -/
def ConfigSystem.runOf (schema : AstraConfigSchema) (p : ℕ) :
    List ConfigAction → ConfigSystem → Option ConfigSystem
  | [], s => some s
  | action :: actions, s => (s.step schema p action).bind (runOf schema p actions)

theorem runOf_turns : ∀ {actions : List ConfigAction} {s : ConfigSystem},
    (∀ failure, ConfigAction.fail failure ∉ actions) →
    (∀ failure, ConfigAction.failClosed failure ∉ actions) →
    s.runOf schema p actions = some s' → Relation.ReflTransGen (ConfigTurn schema) s s'
  | [], s, _, _, h => by
    cases h
    exact .refl
  | action :: actions, s, hfail, hclosed, h => by
    obtain ⟨s₁, hs, hrest⟩ := Option.bind_eq_some_iff.1 h
    refine .head ⟨p, action, ?_, hs⟩ (runOf_turns
      (fun failure hmem => hfail failure (mem_cons_of_mem _ hmem))
      (fun failure hmem => hclosed failure (mem_cons_of_mem _ hmem)) hrest)
    rintro ⟨-, failure, rfl | rfl⟩
    · exact hfail failure mem_cons_self
    · exact hclosed failure mem_cons_self

def letterA : CString := CString.ofBytes [0x61]

def letterSchema : AstraConfigSchema := ⟨1, [⟨letterA, false⟩]⟩

/-- No document, and nobody at work. -/
def emptyFolder : ConfigSystem :=
  ⟨⟨fun _ => [], none, none, 0, none⟩, fun _ => ⟨.closed, [], false, [], false⟩⟩

theorem emptyFolder_start : ConfigStart emptyFolder :=
  ⟨⟨nofun, nofun, nofun⟩, rfl, fun _ => rfl⟩

/-- A handle is opened and "a" is set, as far as the close of the lock file. -/
def setLetter : List ConfigAction :=
  [.openHandle true, .ok, .request (.setString letterA 0 (CString.ofBytes [0x78])) false, .ok, .ok,
    .ok, .edited ⟨fun _ => true, fun _ => .error ⟨.io, nofun⟩⟩, .ok, .ok, .moved 32, .ok, .ok, .ok,
    .ok]

/-- The document with "a" set. -/
def letterDocument : List UInt8 :=
  initialDocument 1 ++ [0x61, 0x20, 0x3d, 0x20, 0x22, 0x78, 0x22, 0x0a]

theorem setLetter_commits : ((emptyFolder.runOf letterSchema 0 setLetter).bind fun s =>
    (s.step letterSchema 0 .ok).map fun s' =>
      (s'.files.document 1, (s'.processes 0).committed)) = some (letterDocument, true) := by
  decide +kernel

end Astra
