import AstraKernel.Config.Step
import AstraKernel.Proofs.ConfigEdits

/-!
# Concurrent writers lose nothing

Only the process that has the lock changes the files, a file that readers may have open is never
written, and a rename puts in place what the request makes of the document that it replaces.
-/

namespace Astra

open Function List

variable {schema : AstraConfigSchema} {p q : ℕ} {f f' : ConfigFiles} {c c' : ConfigProcess}
  {action : ConfigAction} {text source : List UInt8} {key : CString} {index place : ℕ}
  {answers : ConfigAnswers} {status : AstraConfigLibraryStatus}

/-! ## A refused edit has a status -/

variable {s : AstraConfigStatus} {value : CString} {a : ConfigAnswer} {use : ConfigUse}
  {w : ConfigWrite} {count node : ℕ}

theorem ofDocument_ne_ok (h : s ≠ .ok) : ofDocument s ≠ .ok := by
  cases s <;> simp [ofDocument] at h ⊢

theorem ofVfs_ne_ok {s : AstraVfsStatus} (h : s ≠ .ok) : ofVfs s ≠ .ok := by
  cases s <;> simp [ofVfs] at h ⊢

theorem findFrom_error (key : List UInt8) (wanted : ℕ) : ∀ {lines : List CutLine}
    {cursor effective count : ℕ} {found : Option ConfigLine} {s : AstraConfigStatus},
    findFrom key wanted lines cursor effective count found = .error s → s ≠ .ok
  | [], _, _, _, _, s, h => by simp [findFrom] at h
  | line :: lines, cursor, effective, count, found, s, h => by
    unfold findFrom at h
    split at h
    · rename_i hline
      cases h
      simp [lineParse_error hline]
    · exact findFrom_error key wanted h
    · rename_i setting _
      split at h
      · exact findFrom_error key wanted h
      · exact findFrom_error key wanted h

theorem findLine_error (h : findLine text key index = some (.error s)) : s ≠ .ok := by
  unfold findLine at h
  split at h
  · cases h
  · cases h
    nofun
  · split_ifs at h
    · cases h
      nofun
    · exact findFrom_error _ _ (Option.some.inj h)

theorem replace_probe
    (h : astraConfigDocumentReplace text key index value none = some a) : a.status ≠ .ok := by
  unfold astraConfigDocumentReplace at h
  split at h
  · cases h
  · cases h
    nofun
  · split_ifs at h
    · cases h
      nofun
    · obtain ⟨found, hfind, hrange⟩ := Option.map_eq_some_iff.1 h
      dsimp only at hrange
      split at hrange
      · rename_i s hs
        rw [← hrange]
        cases found with
        | error s' =>
          cases hs
          exact findLine_error hfind
        | ok found => exact replacedRange_error hs
      · split_ifs at hrange <;> rw [← hrange] <;> simp_all

theorem remove_probe
    (h : astraConfigDocumentRemove text key index none = some a) : a.status ≠ .ok := by
  unfold astraConfigDocumentRemove at h
  split at h
  · cases h
  · rename_i hfind
    cases h
    exact findLine_error hfind
  · cases h
    nofun
  · simp only [Option.all_none, if_true, Option.some.injEq] at h
    rw [← h]
    nofun

theorem transform_error {value : Option CString} {memory : Bool}
    (h : transform schema source key index value memory = some (.error status)) :
    status ≠ .ok := by
  unfold transform at h
  split at h
  · cases h
    nofun
  obtain ⟨probe, hprobe, h⟩ := Option.bind_eq_some_iff.1 h
  have hnone : probe.status ≠ .ok := by
    cases value with
    | none => exact remove_probe hprobe
    | some value => exact replace_probe hprobe
  split at h
  · cases h
    exact ofDocument_ne_ok hnone
  split at h
  · cases h
    nofun
  obtain ⟨answer, -, h⟩ := Option.bind_eq_some_iff.1 h
  split at h
  · rename_i hanswer
    cases h
    exact ofDocument_ne_ok hanswer
  · obtain ⟨_, -, h⟩ := Option.map_eq_some_iff.1 h
    cases h

theorem setUnlocked_error
    (h : setUnlocked schema answers place source key index value = some (.error status)) :
    status ≠ .ok := by
  unfold setUnlocked at h
  split at h
  · cases h
    nofun
  rename_i field _
  split at h
  · rename_i hstored
    cases h
    unfold storedValue sensitiveEncode at hstored
    split_ifs at hstored
    · cases hstored
      nofun
    · split at hstored
      · rename_i failure _
        cases hstored
        exact failure.failed
      · split_ifs at hstored
        cases hstored
        nofun
  · exact transform_error h

theorem appendUnlocked_error
    (h : appendUnlocked schema answers place source key value = some (.error status)) :
    status ≠ .ok := by
  obtain ⟨count, hcount, h⟩ := Option.bind_eq_some_iff.1 h
  cases count with
  | error s =>
    cases h
    obtain ⟨found, hfind, hfound⟩ := Option.map_eq_some_iff.1 hcount
    cases found with
    | error s' =>
      cases hfound
      exact ofDocument_ne_ok (findLine_error hfind)
    | ok found => cases hfound
  | ok count => exact setUnlocked_error h

theorem applyChange_error {item : AstraConfigChange}
    (h : applyChange schema answers place source item = some (.error status)) : status ≠ .ok := by
  unfold applyChange at h
  split at h
  · exact setUnlocked_error h
  · exact appendUnlocked_error h
  · exact transform_error h

theorem applyChangesFrom_error : ∀ {changes : List AstraConfigChange} {place : ℕ}
    {source : List UInt8}, applyChangesFrom schema answers changes place source =
      some (.error status) → status ≠ .ok
  | [], _, _, h => by simp [applyChangesFrom] at h
  | item :: changes, place, source, h => by
    obtain ⟨r, hitem, h⟩ := Option.bind_eq_some_iff.1 h
    cases r with
    | error s =>
      cases h
      exact applyChange_error hitem
    | ok next => exact applyChangesFrom_error h

theorem edited_error {r : ConfigRequest}
    (h : r.edited schema answers source = some (.error status)) : status ≠ .ok := by
  cases r with
  | setString key index value => exact setUnlocked_error h
  | appendString key value => exact appendUnlocked_error h
  | remove key index =>
    simp only [ConfigRequest.edited] at h
    exact transform_error h
  | apply changes => exact applyChangesFrom_error h

/-! ## What holds of the files -/

/-- Files have numbers that are not given out again, and the document is not the temporary file. -/
structure FilesSound (f : ConfigFiles) : Prop where
  settings_lt : ∀ node, f.settings = some node → node < f.next
  temporary_lt : ∀ node, f.temporary = some node → node < f.next
  apart : ∀ node, f.settings = some node → f.temporary ≠ some node

structure ConfigFrame (q : ℕ) (f f' : ConfigFiles) : Prop where
  held : f.lock = some q → f' = f
  kept : ∀ node < f.next, f.temporary ≠ some node → node < f'.next ∧ f'.temporary ≠ some node ∧
    f'.contents node = f.contents node

theorem ConfigFrame.refl (q : ℕ) (f : ConfigFiles) : ConfigFrame q f f :=
  ⟨fun _ => rfl, fun _ hlt hne => ⟨hlt, hne, rfl⟩⟩

theorem ConfigFrame.lock {lock : Option ℕ} (h : f.lock ≠ some q) :
    ConfigFrame q f { f with lock := lock } :=
  ⟨fun hq => (h hq).elim, fun _ hlt hne => ⟨hlt, hne, rfl⟩⟩

/-- The text is what the request makes of the document. -/
def Applied (schema : AstraConfigSchema) (f : ConfigFiles) (w : ConfigWrite)
    (text : List UInt8) : Prop :=
  (∃ answers, w.request.edited schema answers (f.document schema.version) = some (.ok text)) ∧
    (w.unchanged = true → w.seen = f.document schema.version)

def Writing (p : ℕ) (f : ConfigFiles) (c : ConfigProcess) : Prop :=
  f.lock = some p ∧ c.committed = false

def Ready (f : ConfigFiles) (text : List UInt8) : Prop :=
  ∃ node, f.temporary = some node ∧ f.contents node = text

def UseSound (p : ℕ) (f : ConfigFiles) (c : ConfigProcess) : ConfigUse → Prop
  | .writing w => Writing p f c ∧ w.seen = c.text
  | _ => True

def StillOpened (schema : AstraConfigSchema) (f : ConfigFiles) (c : ConfigProcess) :
    ConfigUse → Prop
  | .writing _ => c.opened = f.document schema.version
  | _ => True

def PcSound (schema : AstraConfigSchema) (p : ℕ) (f : ConfigFiles) (c : ConfigProcess) :
    ConfigPc → Prop
  | .closed => True
  | .idle => True
  | .load use => UseSound p f c use
  | .read use node size text => UseSound p f c use ∧ StillOpened schema f c use ∧ node < f.next ∧
      f.temporary ≠ some node ∧ f.contents node = c.opened ∧ size = c.opened.length ∧
      text.length ≤ size ∧ text = c.opened.take text.length
  | .closeFile use text => UseSound p f c use ∧
      (∀ t, text = .ok t → t = c.opened ∧ StillOpened schema f c use) ∧
      ∀ status, text = .error status → status ≠ .ok
  | .openLock w => c.committed = false ∧ w.seen = c.text
  | .tryLock w _ => c.committed = false ∧ w.seen = c.text
  | .asleep w _ => c.committed = false ∧ w.seen = c.text
  | .closeLock held status => c.committed = false ∧ (held = true → f.lock = some p) ∧ status ≠ .ok
  | .edit w => Writing p f c ∧ c.text = f.document schema.version ∧
      (w.unchanged = true → w.seen = f.document schema.version)
  | .unlink w text => Writing p f c ∧ Applied schema f w text
  | .create w text => Writing p f c ∧ Applied schema f w text ∧ f.temporary = none
  | .write w text node used => Writing p f c ∧ Applied schema f w text ∧
      f.temporary = some node ∧ f.contents node = text.take used ∧ used ≤ text.length
  | .sync w text => Writing p f c ∧ Applied schema f w text ∧ Ready f text
  | .closeTemporary w text status => Writing p f c ∧ Applied schema f w text ∧
      (status = .ok → Ready f text)
  | .rename w text => Writing p f c ∧ Applied schema f w text ∧ Ready f text
  | .clean status => Writing p f c ∧ status ≠ .ok
  | .endWrite status => f.lock = some p ∧ (c.committed = true ↔ status = .ok)

theorem PcSound.frame {pc : ConfigPc} (h : PcSound schema q f c pc) (hf : ConfigFrame q f f') :
    PcSound schema q f' c pc := by
  by_cases hlock : f.lock = some q
  · rw [hf.held hlock]
    exact h
  have hwriting : ¬Writing q f c := fun hw => hlock hw.1
  have huse : ∀ {use : ConfigUse}, UseSound q f c use → UseSound q f' c use ∧
      ∀ schema, StillOpened schema f c use → StillOpened schema f' c use := by
    rintro (_ | _ | w) hu
    · exact ⟨trivial, fun _ _ => trivial⟩
    · exact ⟨trivial, fun _ _ => trivial⟩
    · exact (hwriting hu.1).elim
  cases pc with
  | closed => trivial
  | idle => trivial
  | load use => exact (huse h).1
  | read use node size text =>
    obtain ⟨hu, hcurrent, hlt, hne, hcontents, hsize, hle, htext⟩ := h
    obtain ⟨hlt', hne', hsame⟩ := hf.kept node hlt hne
    exact ⟨(huse hu).1, (huse hu).2 schema hcurrent, hlt', hne', hsame.trans hcontents, hsize, hle,
      htext⟩
  | closeFile use text =>
    exact ⟨(huse h.1).1, fun t ht => ⟨(h.2.1 t ht).1, (huse h.1).2 schema (h.2.1 t ht).2⟩, h.2.2⟩
  | openLock w => exact h
  | tryLock w attempts => exact h
  | asleep w attempts => exact h
  | closeLock held status => exact ⟨h.1, fun hheld => (hlock (h.2.1 hheld)).elim, h.2.2⟩
  | endWrite status => exact (hlock h.1).elim
  | edit w => exact (hwriting h.1).elim
  | unlink w text => exact (hwriting h.1).elim
  | create w text => exact (hwriting h.1).elim
  | write w text node used => exact (hwriting h.1).elim
  | sync w text => exact (hwriting h.1).elim
  | closeTemporary w text status => exact (hwriting h.1).elim
  | rename w text => exact (hwriting h.1).elim
  | clean status => exact (hwriting h.1).elim

/-- A step that puts another document in place. -/
structure Commits (schema : AstraConfigSchema) (p : ℕ) (f f' : ConfigFiles)
    (c c' : ConfigProcess) : Prop where
  commit : ∃ w text, c.pc = .rename w text ∧ Applied schema f w text ∧
    f'.document schema.version = text
  once : c.committed = false ∧ c'.committed = true

structure ConfigStepSound (schema : AstraConfigSchema) (p : ℕ) (f f' : ConfigFiles)
    (c c' : ConfigProcess) : Prop where
  files : FilesSound f'
  pc : PcSound schema p f' c' c'.pc
  others : ∀ q ≠ p, ConfigFrame q f f'
  document : f'.document schema.version = f.document schema.version ∨ Commits schema p f f' c c'

theorem ConfigStepSound.same (hf : FilesSound f) (h : PcSound schema p f c' c'.pc) :
    ConfigStepSound schema p f f c c' :=
  ⟨hf, h, fun q _ => .refl q f, .inl rfl⟩

theorem ConfigStepSound.lock {lock : Option ℕ} (hf : FilesSound f)
    (hlock : ∀ q ≠ p, f.lock ≠ some q)
    (h : PcSound schema p { f with lock := lock } c' c'.pc) :
    ConfigStepSound schema p f { f with lock := lock } c c' :=
  ⟨⟨hf.settings_lt, hf.temporary_lt, hf.apart⟩, h, fun q hq => .lock (hlock q hq), .inl rfl⟩

theorem refused_sound (h : UseSound p f c use) (hstatus : status ≠ .ok) :
    PcSound schema p f (c.refused status use) (c.refused status use).pc := by
  cases use with
  | opening => trivial
  | reloading => trivial
  | writing w => exact ⟨h.1.2, fun _ => h.1.1, hstatus⟩

theorem loaded_sound (h : UseSound p f c use)
    (hcurrent : ∀ w, use = .writing w → text = f.document schema.version) :
    PcSound schema p f (c.loaded text use) (c.loaded text use).pc := by
  cases use with
  | opening => trivial
  | reloading => trivial
  | writing w =>
    unfold ConfigProcess.loaded
    dsimp only
    split_ifs with hchanged
    · exact ⟨h.1.2, fun _ => h.1.1, nofun⟩
    · refine ⟨h.1, hcurrent w rfl, fun hun => ?_⟩
      rw [h.2, ← hcurrent w rfl]
      exact not_not.1 fun hne => hchanged ⟨hun, hne⟩

theorem ConfigFrame.holder (hlock : f.lock = some p) (hq : q ≠ p)
    (hkept : ∀ node < f.next, f.temporary ≠ some node → node < f'.next ∧
      f'.temporary ≠ some node ∧ f'.contents node = f.contents node) : ConfigFrame q f f' :=
  ⟨fun h => (hq (Option.some.inj (h.symm.trans hlock))).elim, hkept⟩

theorem not_lock_of_ne (hlock : f.lock = some p) (hq : q ≠ p) : f.lock ≠ some q :=
  fun h => hq (Option.some.inj (h.symm.trans hlock))

variable (schema) in
theorem load_sound (hf : FilesSound f) (h : UseSound p f c use) :
    (∀ node, f.settings = some node → node < f.next ∧ f.temporary ≠ some node) ∧
      (f.settings = none → PcSound schema p f (c.loaded (initialDocument schema.version) use)
        (c.loaded (initialDocument schema.version) use).pc) := by
  refine ⟨fun node hnode => ⟨hf.settings_lt node hnode, hf.apart node hnode⟩, fun hnone => ?_⟩
  refine loaded_sound h fun w _ => ?_
  unfold ConfigFiles.document
  rw [hnone]

theorem stillOpened_of_settings (hnode : f.settings = some node) (use : ConfigUse) (pc : ConfigPc) :
    StillOpened schema f { c with pc := pc, opened := f.contents node } use := by
  cases use with
  | opening => trivial
  | reloading => trivial
  | writing w =>
    unfold StillOpened ConfigFiles.document
    rw [hnode]

theorem useSound_goto (h : UseSound p f c use) (pc : ConfigPc)
    (opened : List UInt8) : UseSound p f { c with pc := pc, opened := opened } use := by
  cases use with
  | opening => trivial
  | reloading => trivial
  | writing w => exact h

section

variable (hf : FilesSound f)
include hf

theorem removed_sound (hlock : f.lock = some p)
    (h : PcSound schema p { f with temporary := none } c' c'.pc) :
    ConfigStepSound schema p f { f with temporary := none } c c' :=
  ⟨⟨hf.settings_lt, nofun, nofun⟩, h, fun _ hq => .holder hlock hq fun _ hlt _ =>
    ⟨hlt, nofun, rfl⟩, .inl rfl⟩

theorem created_sound (h : Writing p f c ∧ Applied schema f w text ∧ f.temporary = none) :
    ConfigStepSound schema p f f.created.1 c (c.goto (.write w text f.created.2 0)) := by
  obtain ⟨hw, happlied, hnone⟩ := h
  have hcreated : f.created = ({ f with
      contents := update f.contents f.next [], temporary := some f.next,
      next := f.next + 1 }, f.next) := by
    unfold ConfigFiles.created
    rw [hnone]
  rw [hcreated]
  have hother : ∀ node < f.next, update f.contents f.next [] node = f.contents node :=
    fun node hlt => update_of_ne hlt.ne _ _
  have hdocument : ConfigFiles.document { f with
      contents := update f.contents f.next [], temporary := some f.next,
      next := f.next + 1 } schema.version = f.document schema.version := by
    unfold ConfigFiles.document
    dsimp only
    split
    · rfl
    · rename_i node hnode
      exact hother node (hf.settings_lt node hnode)
  refine ⟨⟨fun node hnode => (hf.settings_lt node hnode).trans (Nat.lt_succ_self _), ?_, ?_⟩,
    ⟨hw, ?_, rfl, update_self _ _ _, Nat.zero_le _⟩, fun q hq => .holder hw.1 hq ?_,
    .inl hdocument⟩
  · rintro node hnode
    cases hnode
    exact Nat.lt_succ_self _
  · rintro node hnode htemporary
    cases htemporary
    exact (hf.settings_lt _ hnode).ne rfl
  · unfold Applied
    rw [hdocument]
    exact happlied
  · intro node hlt _
    refine ⟨hlt.trans (Nat.lt_succ_self _), fun he => ?_, hother node hlt⟩
    cases he
    exact hlt.ne rfl

theorem written_sound {used : ℕ}
    (h : Writing p f c ∧ Applied schema f w text ∧ f.temporary = some node ∧
      f.contents node = text.take used ∧ used ≤ text.length)
    (hle : used + count ≤ text.length) :
    ConfigStepSound schema p f (f.written node used ((text.drop used).take count)) c
      (c.goto (.write w text node (used + count))) := by
  obtain ⟨hw, happlied, htemporary, hcontents, hused⟩ := h
  have hdocument : (f.written node used ((text.drop used).take count)).document schema.version =
      f.document schema.version := by
    unfold ConfigFiles.document ConfigFiles.written
    dsimp only
    split
    · rfl
    · rename_i node' hnode
      have hne : node' ≠ node :=
        fun he => hf.apart node' hnode (htemporary.trans (congrArg some he.symm))
      exact update_of_ne hne _ _
  refine ⟨⟨hf.settings_lt, hf.temporary_lt, hf.apart⟩, ⟨hw, ?_, htemporary, ?_, hle⟩,
    fun q hq => .holder hw.1 hq fun node' hlt hne => ⟨hlt, hne, ?_⟩, .inl hdocument⟩
  · unfold Applied
    rw [hdocument]
    exact happlied
  · unfold ConfigFiles.written
    dsimp only
    have hend : (text.take used).drop (used + ((text.drop used).take count).length) = [] :=
      drop_eq_nil_of_le (by simp only [length_take]; omega)
    rw [update_self, hcontents, take_take, Nat.min_self, hend, append_nil,
      take_add]
  · have hne' : node' ≠ node := fun he => hne (htemporary.trans (congrArg some he.symm))
    exact update_of_ne hne' _ _

theorem renamed_sound
    (hpc : c.pc = .rename w text) (hw : Writing p f c) (happlied : Applied schema f w text)
    (htemporary : f.temporary = some node) (hcontents : f.contents node = text) :
    ConfigStepSound schema p f { f with settings := some node, temporary := none } c
      { c with pc := .endWrite .ok, text := text, committed := true } := by
  refine ⟨⟨?_, nofun, nofun⟩, ⟨hw.1, by simp⟩, fun q hq => .holder hw.1 hq
    fun node' hlt _ => ⟨hlt, nofun, rfl⟩, .inr ⟨⟨w, text, hpc, happlied, hcontents⟩, hw.2, rfl⟩⟩
  rintro node' hnode'
  cases hnode'
  exact hf.temporary_lt node htemporary

end

theorem read_more {whole : List UInt8} (htext : text = whole.take text.length)
    (hle : text.length + count ≤ whole.length) :
    text ++ (whole.drop text.length).take count =
      whole.take (text ++ (whole.drop text.length).take count).length := by
  have hlen : ((whole.drop text.length).take count).length = count := by
    rw [length_take, length_drop]
    omega
  rw [length_append, hlen, take_add, ← htext]

theorem step_sound (hf : FilesSound f) (h : PcSound schema p f c c.pc)
    (hs : c.step schema p f action = some (f', c')) : ConfigStepSound schema p f f' c c' := by
  have hsame : ∀ {pc : ConfigPc}, some (f, c.goto pc) = some (f', c') →
      PcSound schema p f (c.goto pc) pc → ConfigStepSound schema p f f' c c' := by
    rintro pc heq hpc
    cases heq
    exact .same hf hpc
  have hrefused : ∀ {use : ConfigUse} {status : AstraConfigLibraryStatus},
      some (f, c.refused status use) = some (f', c') → UseSound p f c use → status ≠ .ok →
      ConfigStepSound schema p f f' c c' := by
    rintro use status heq huse hstatus
    cases heq
    exact .same hf (refused_sound huse hstatus)
  have hreleased : ∀ {held : Bool} {pc : ConfigPc},
      some (f.released held, c.goto pc) = some (f', c') → (held = true → f.lock = some p) →
      (∀ f, PcSound schema p f (c.goto pc) pc) → ConfigStepSound schema p f f' c c' := by
    rintro (_ | _) pc heq hheld hpc <;> cases heq
    · exact .same hf (hpc f)
    · exact .lock hf (fun q hq => not_lock_of_ne (hheld rfl) hq) (hpc _)
  unfold ConfigProcess.step at hs
  split at hs
  all_goals rename_i hpc
  all_goals try rw [hpc] at h
  · -- a handle is opened
    cases hs
    exact .same hf trivial
  · exact hsame hs trivial
  · -- a request
    split_ifs at hs
    · cases hs
      exact .same hf (by simp only [hpc, PcSound])
    · cases hs
      exact .same hf ⟨rfl, rfl⟩
  · -- the document is opened
    obtain ⟨hfile, hnone⟩ := load_sound schema hf h
    split at hs
    · rename_i hsettings
      split_ifs at hs
      · cases hs
        exact .same hf (hnone hsettings)
      · exact hrefused hs h nofun
    · rename_i node hsettings
      obtain ⟨hlt, hne⟩ := hfile node hsettings
      dsimp only at hs
      split_ifs at hs
      · cases hs
        exact .same hf ⟨useSound_goto h _ _, nofun, by simp⟩
      · cases hs
        exact .same hf ⟨useSound_goto h _ _, stillOpened_of_settings hsettings _ _, hlt, hne, rfl,
          rfl, Nat.zero_le _, rfl⟩
  · -- no memory for its text
    split_ifs at hs
    · exact hrefused hs h nofun
    · exact hsame hs ⟨useSound_goto h _ _, nofun, by simp⟩
  · rename_i failure
    split_ifs at hs
    exact hrefused hs h (ofVfs_ne_ok failure.failed)
  · -- a part of it is read
    obtain ⟨huse, hopened, hlt, hne, hcontents, hsize, hle, htext⟩ := h
    split_ifs at hs with hmoved
    refine hsame hs ⟨useSound_goto huse _ _, hopened, hlt, hne, hcontents, hsize, ?_, ?_⟩
    · simp only [length_append, length_take, length_drop]
      omega
    · rw [hcontents] at hmoved ⊢
      exact read_more htext hmoved.2.2.2
  · -- all of it has been read
    obtain ⟨huse, hopened, hlt, hne, hcontents, hsize, hle, htext⟩ := h
    split_ifs at hs with hall
    refine hsame hs ⟨useSound_goto huse _ _, ?_, nofun⟩
    rintro t ht
    cases ht
    rw [hall, hsize, take_length] at htext
    exact ⟨htext, hopened⟩
  · rename_i failure
    refine hsame hs ⟨useSound_goto h.1 _ _, nofun, ?_⟩
    rintro status hstatus
    cases hstatus
    exact ofVfs_ne_ok failure.failed
  · -- its file is closed
    cases hs
    unfold ConfigProcess.checked
    split
    · exact .same hf (refused_sound h.1 (h.2.2 _ rfl))
    · rename_i text
      dsimp only
      split_ifs with hvalid
      · refine .same hf (loaded_sound h.1 ?_)
        rintro w rfl
        obtain ⟨htext, hopened⟩ := h.2.1 text rfl
        exact htext.trans hopened
      · exact .same hf (refused_sound h.1 (ofDocument_ne_ok hvalid))
  · rename_i failure
    refine hrefused hs h.1 ?_
    split
    · exact h.2.2 _ rfl
    · exact ofVfs_ne_ok failure.failed
  · exact hsame hs h
  · exact hsame hs trivial
  · exact hsame hs ⟨h.1, nofun, nofun⟩
  · -- the lock is taken
    split_ifs at hs with hlock
    cases hs
    refine .lock hf (fun q _ => ?_) ⟨⟨rfl, h.1⟩, h.2⟩
    rw [hlock]
    nofun
  · rename_i failure
    cases hs
    split_ifs
    · exact .same hf h
    · exact .same hf ⟨h.1, nofun, ofVfs_ne_ok failure.failed⟩
  · cases hs
    split_ifs
    · exact .same hf ⟨h.1, nofun, nofun⟩
    · exact .same hf h
  · exact hreleased hs h.2.1 fun _ => trivial
  · exact hsame hs trivial
  · exact hreleased hs h.2.1 fun _ => trivial
  · -- the edit
    obtain ⟨hw, htext, hseen⟩ := h
    split at hs
    · cases hs
    · rename_i status hedit
      refine hsame hs ⟨hw.1, ?_⟩
      change c.committed = true ↔ status = .ok
      rw [hw.2]
      exact ⟨nofun, fun he => (edited_error hedit he).elim⟩
    · rename_i text hedit
      exact hsame hs ⟨hw, ⟨_, htext ▸ hedit⟩, hseen⟩
  · cases hs
    exact removed_sound hf h.1.1 ⟨h.1, h.2, rfl⟩
  · rename_i failure
    exact hsame hs ⟨h.1, ofVfs_ne_ok failure.failed⟩
  · cases hs
    exact created_sound hf h
  · rename_i failure
    exact hsame hs ⟨h.1, ofVfs_ne_ok failure.failed⟩
  · split_ifs at hs with hmoved
    cases hs
    exact written_sound hf h hmoved.2.2
  · -- all of it has been written
    obtain ⟨hw, happlied, htemporary, hcontents, -⟩ := h
    split_ifs at hs with hall
    refine hsame hs ⟨hw, happlied, _, htemporary, ?_⟩
    rw [hcontents, hall, take_length]
  · rename_i failure
    exact hsame hs ⟨h.1, h.2.1, fun he => (ofVfs_ne_ok failure.failed he).elim⟩
  · exact hsame hs ⟨h.1, h.2.1, fun _ => h.2.2⟩
  · rename_i failure
    exact hsame hs ⟨h.1, h.2.1, fun he => (ofVfs_ne_ok failure.failed he).elim⟩
  · -- the temporary file is closed
    cases hs
    split_ifs with hstatus
    · exact .same hf ⟨h.1, h.2.1, h.2.2 hstatus⟩
    · exact .same hf ⟨h.1, hstatus⟩
  · rename_i failure
    refine hsame hs ⟨h.1, ?_⟩
    split_ifs with hstatus
    · exact ofVfs_ne_ok failure.failed
    · exact hstatus
  · -- the rename
    obtain ⟨hw, happlied, node, htemporary, hcontents⟩ := h
    rw [htemporary] at hs
    cases hs
    exact renamed_sound hf hpc hw happlied htemporary hcontents
  · rename_i failure
    exact hsame hs ⟨h.1, ofVfs_ne_ok failure.failed⟩
  · cases hs
    refine removed_sound hf h.1.1 ⟨h.1.1, ?_⟩
    change c.committed = true ↔ _
    rw [h.1.2]
    exact ⟨nofun, fun he => (h.2 he).elim⟩
  · refine hsame hs ⟨h.1.1, ?_⟩
    change c.committed = true ↔ _
    rw [h.1.2]
    exact ⟨nofun, fun he => (h.2 he).elim⟩
  · exact hreleased hs (fun _ => h.1) fun _ => trivial
  · exact hsame hs trivial
  · exact hreleased hs (fun _ => h.1) fun _ => trivial
  · exact hreleased hs of_decide_eq_true fun _ => trivial
  · cases hs

end Astra
