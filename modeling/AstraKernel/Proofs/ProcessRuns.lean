import AstraKernel.Proofs.ProcessSound

/-!
# Runs of the POSIX process table

A call keeps the table consistent unless it numbers a group or a session with a process id that an
old group or session still carries (`PosixProcessTable.Steady`), and a call that fails leaves
nothing behind but free slots.
-/

namespace Astra

open List

namespace PosixProcessTable

variable {t t' u : PosixProcessTable} {reallocate : Reallocate} {i : ℕ} {n : Int32}

def numbers (t : PosixProcessTable) : List Int32 := t.sessions.map (·.session)

def Consistent (t : PosixProcessTable) : Prop := TableSound t.entries t.numbers

/-! ## The readers -/

theorem entry_eq (h : i < t.entries.length) : t.entry i = t.entries[i] := by
  simp [entry, h]

theorem session_eq (h : i < t.sessions.length) : t.session i = t.sessions[i] := by
  simp [session, h]

theorem find_some (h : t.find n = some i) :
    i < t.entries.length ∧ (t.entry i).process = n ∧ ¬n ≤ 0 := by
  unfold find at h
  split_ifs at h with hn
  obtain ⟨hi, heq, -⟩ := List.findIdx?_eq_some_iff_getElem.mp h
  exact ⟨hi, entry_eq hi ▸ eq_of_beq heq, hn⟩

theorem find_none (h : t.find n = none) (hn : ¬n ≤ 0) : ∀ e ∈ t.entries, e.process ≠ n := by
  rw [find, if_neg hn, List.findIdx?_eq_none_iff] at h
  exact fun e he heq => absurd (h e he) (by simp [heq])

theorem findSession_some (h : t.findSession n = some i) :
    i < t.sessions.length ∧ (t.session i).session = n := by
  unfold findSession at h
  split_ifs at h
  obtain ⟨hi, heq, -⟩ := List.findIdx?_eq_some_iff_getElem.mp h
  exact ⟨hi, session_eq hi ▸ eq_of_beq heq⟩

theorem findSession_none (h : t.findSession n = none) (hn : ¬n ≤ 0) : n ∉ t.numbers := by
  rw [findSession, if_neg hn, List.findIdx?_eq_none_iff] at h
  rw [numbers, mem_map]
  rintro ⟨s, hs, rfl⟩
  exact absurd (h s hs) (by simp)

theorem entry_mem (h : i < t.entries.length) : t.entry i ∈ t.entries :=
  entry_eq h ▸ getElem_mem h

section

variable (t)

theorem find_extend (k : ℕ) (n : Int32) : (t.extend k).find n = t.find n := by
  unfold find
  split_ifs with hn
  · rfl
  · have hzero : (List.replicate k PosixProcessEntry.zero).findIdx? (fun e => e.process == n) =
        none := by
      rw [List.findIdx?_eq_none_iff]
      intro e he
      rw [eq_of_mem_replicate he]
      simpa [PosixProcessEntry.zero] using (ne_zero_of_positive hn).symm
    rw [extend, List.findIdx?_append, hzero]
    cases t.entries.findIdx? _ <;> rfl

theorem extend_zero : t.extend 0 = t := by
  obtain ⟨entries, sessions, same⟩ := t
  simp [extend]

theorem extend_extend (k l : ℕ) : (t.extend k).extend l = t.extend (k + l) := by
  simp [extend]

end

theorem Consistent.extend (h : t.Consistent) (k : ℕ) : (t.extend k).Consistent := by
  have hext := TableSoundBut.extend h k
  rwa [Consistent, numbers, PosixProcessTable.extend, map_append, map_replicate]

/-! ## The slots -/

theorem slot_spec {f : PosixProcessTable → Option (PosixProcessTable × ℕ)}
    (hf : f = fun t => (t.entries.findIdx? fun e => e.process == 0).map fun i => (t, i))
    (h : f t = some (u, i)) : u = t ∧ i < u.entries.length ∧ (u.entry i).process = 0 := by
  subst hf
  obtain ⟨j, hj, heq⟩ := Option.map_eq_some_iff.mp h
  cases heq
  obtain ⟨hi, hz, -⟩ := List.findIdx?_eq_some_iff_getElem.mp hj
  exact ⟨rfl, hi, entry_eq hi ▸ eq_of_beq hz⟩

theorem newProcess_spec (h : t.newProcess reallocate = some (u, i)) :
    (∃ k, u = t.extend k) ∧ i < u.entries.length ∧ (u.entry i).process = 0 := by
  unfold newProcess at h
  dsimp only at h
  split at h
  next found hfound =>
    cases h
    obtain ⟨rfl, hi, hz⟩ := slot_spec rfl hfound
    exact ⟨⟨0, (extend_zero _).symm⟩, hi, hz⟩
  next =>
    obtain ⟨v, hv, hslot⟩ := Option.bind_eq_some_iff.mp h
    obtain ⟨k, -, rfl⟩ := grow_spec hv
    obtain ⟨rfl, hi, hz⟩ := slot_spec rfl hslot
    exact ⟨⟨k, rfl⟩, hi, hz⟩

theorem newProcess_of_free (reallocate : Reallocate) (h : ∃ e ∈ t.entries, e.process = 0) :
    ∃ i, t.newProcess reallocate = some (t, i) := by
  unfold newProcess
  dsimp only
  cases hfind : t.entries.findIdx? fun e => e.process == 0 with
  | some i => exact ⟨i, rfl⟩
  | none =>
    obtain ⟨e, he, hz⟩ := h
    rw [List.findIdx?_eq_none_iff] at hfind
    exact absurd (hfind e he) (by simp [hz])

theorem newSession_spec (h : t.newSession reallocate n = some u) :
    ∃ k j, j < (t.extend k).sessions.length ∧ ((t.extend k).session j).session = 0 ∧
      u = (t.extend k).setSession j { (t.extend k).session j with session := n } := by
  have htake : ∀ v : PosixProcessTable,
      ((v.sessions.findIdx? fun s => s.session == 0).map fun i =>
        v.setSession i { v.session i with session := n }) = some u →
      ∃ j, j < v.sessions.length ∧ (v.session j).session = 0 ∧
        u = v.setSession j { v.session j with session := n } := by
    intro v hv
    obtain ⟨j, hj, heq⟩ := Option.map_eq_some_iff.mp hv
    obtain ⟨hlt, hz, -⟩ := List.findIdx?_eq_some_iff_getElem.mp hj
    exact ⟨j, hlt, session_eq hlt ▸ eq_of_beq hz, heq.symm⟩
  unfold newSession at h
  dsimp only at h
  split at h
  next found hfound =>
    cases h
    obtain ⟨j, hj⟩ := htake t hfound
    exact ⟨0, j, by rwa [extend_zero]⟩
  next =>
    obtain ⟨v, hv, htaken⟩ := Option.bind_eq_some_iff.mp h
    obtain ⟨k, -, rfl⟩ := grow_spec hv
    obtain ⟨j, hj⟩ := htake _ htaken
    exact ⟨k, j, hj⟩

/-! ## A slot is written -/

theorem entries_perm (h : i < t.entries.length) (e : PosixProcessEntry) :
    (t.entry i :: t.entries.eraseIdx i).Perm t.entries ∧
      (t.setEntry i e).entries.Perm (e :: t.entries.eraseIdx i) := by
  rw [entry_eq h]
  exact ⟨getElem_cons_eraseIdx_perm h, set_perm_cons_eraseIdx h e⟩

theorem numbers_setSession (t : PosixProcessTable) (i : ℕ) (s : PosixSessionEntry) :
    (t.setSession i s).numbers = t.numbers.set i s.session := by
  simp [numbers, setSession, map_set]

theorem numbers_perm (h : i < t.sessions.length) (s : PosixSessionEntry) :
    ((t.session i).session :: t.numbers.eraseIdx i).Perm t.numbers ∧
      (t.setSession i s).numbers.Perm (s.session :: t.numbers.eraseIdx i) := by
  have hlen : i < t.numbers.length := by rwa [numbers, length_map]
  have hget : (t.session i).session = t.numbers[i] := by simp [session_eq h, numbers]
  rw [hget, numbers_setSession]
  exact ⟨getElem_cons_eraseIdx_perm hlen, set_perm_cons_eraseIdx hlen _⟩

theorem Consistent.setSession {s : PosixSessionEntry} (h : t.Consistent)
    (hs : s.session = (t.session i).session) : (t.setSession i s).Consistent := by
  have hnumbers : (t.setSession i s).numbers = t.numbers := by
    rw [numbers_setSession, hs]
    by_cases hi : i < t.sessions.length
    · have hlen : i < t.numbers.length := by rwa [numbers, length_map]
      have hget : (t.session i).session = t.numbers[i] := by simp [session_eq hi, numbers]
      rw [hget, set_getElem_self]
    · exact set_eq_of_length_le (by rw [numbers, length_map]; omega)
  rw [Consistent, hnumbers]
  exact h

theorem Consistent.alone (h : t.Consistent) (hi : i < t.entries.length) {n : Int32} (hn : n ≠ 0)
    (hx : (t.entry i).process = n) : ∀ q ∈ t.entries.eraseIdx i, q.process ≠ n := by
  have hperm := h.perm (entries_perm hi .zero).1.symm (.refl _)
  intro q hq heq
  exact hn (hx ▸ (pairwise_cons.mp hperm.processes).1 q hq (hx.trans heq.symm))

theorem removeEmptySession_spec {gone : Int32} (h : TableSoundBut gone t.entries t.numbers)
    (hgone : ¬gone ≤ 0) : (t.removeEmptySession gone).Consistent := by
  unfold removeEmptySession
  split_ifs with hany
  · obtain ⟨e, he, hlive⟩ := any_eq_true.mp hany
    rw [Bool.and_eq_true, bne_iff_ne, beq_iff_eq] at hlive
    exact h.occupied fun _ => ⟨e, he, hlive⟩
  · have hout : ∀ e ∈ t.entries, e.process ≠ 0 → e.session ≠ gone := by
      intro e he hl hs
      refine hany (any_eq_true.mpr ⟨e, he, ?_⟩)
      rw [Bool.and_eq_true, bne_iff_ne, beq_iff_eq]
      exact ⟨hl, hs⟩
    split
    next hfind => exact h.occupied fun hin => absurd hin (findSession_none hfind hgone)
    next j hfind =>
      obtain ⟨hj, heq⟩ := findSession_some hfind
      obtain ⟨hold, hnew⟩ := numbers_perm hj .zero
      rw [heq] at hold
      exact (TableSoundBut.vacant (h.perm (.refl _) hold.symm) hout).perm (.refl _) hnew.symm

variable {group process sender : Int32} {call : PosixCall} {r : PosixProcessTable × ℕ}
  {flags handle : UInt32} {k status : ℕ}

theorem mem_of_mem_extend {e : PosixProcessEntry} (he : e ∈ (t.extend k).entries)
    (hlive : e.process ≠ 0) : e ∈ t.entries := by
  rcases mem_append.mp he with he | he
  · exact he
  · rw [eq_of_mem_replicate he] at hlive
    exact absurd rfl hlive

/-! ## The calls -/

def Refused (t : PosixProcessTable) (r : PosixProcessTable × ℕ) : Prop :=
  r.2 ≠ astraStatusOk ∧ ∃ k, r.1 = t.extend k

theorem refused_same (h : status ≠ astraStatusOk) : t.Refused (t, status) :=
  ⟨h, 0, (extend_zero t).symm⟩

theorem refused_extend (h : status ≠ astraStatusOk) (k : ℕ) :
    t.Refused (t.extend k, status) := ⟨h, k, rfl⟩

theorem register_cases (hr : t.register reallocate sender process handle flags = r) : t.Refused r ∨
      ¬(sender ≤ 0 ∨ process ≤ 0 ∨ sender = process ∨ handle = 0 ∨
        flags &&& ~~~astraPosixProcessFlagMask ≠ 0) ∧ t.find process = none ∧ ∃ k i, i < (t.extend k).entries.length ∧
        ((t.extend k).entry i).process = 0 ∧
        (flags &&& astraPosixProcessNewSession = 0 ∧
            (∃ j, (t.extend k).find sender = some j ∧
              r = ((t.extend k).setEntry i ⟨handle, process, ((t.extend k).entry j).process,
                ((t.extend k).entry j).group, ((t.extend k).entry j).session⟩, astraStatusOk)) ∨
          flags &&& astraPosixProcessNewSession ≠ 0 ∧
            ((t.newProcess reallocate).bind fun slot =>
              slot.1.newSession reallocate process).isSome ∧
            ∃ j, j < (t.extend k).sessions.length ∧ ((t.extend k).session j).session = 0 ∧
              r = (((t.extend k).setSession j
                { (t.extend k).session j with session := process }).setEntry i
                  ⟨handle, process, 0, process, process⟩, astraStatusOk)) := by
  unfold register at hr
  split at hr
  · exact .inl (hr ▸ refused_same (by decide))
  rename_i hbad
  split at hr
  · exact .inl (hr ▸ refused_same (by decide))
  rename_i hfound
  have hnone : t.find process = none := by simpa using hfound
  split at hr
  · exact .inl (hr ▸ refused_same (by decide))
  next u i hslot =>
  obtain ⟨⟨k, rfl⟩, hi, hz⟩ := newProcess_spec hslot
  split at hr
  · rename_i hflag
    split at hr
    · exact .inl (hr ▸ refused_extend (by decide) k)
    next j hj =>
    dsimp only at hr
    split at hr
    · exact .inl (hr ▸ refused_extend (by decide) k)
    -- the first slot is still free, and is found again
    obtain ⟨i', hfree⟩ := newProcess_of_free reallocate ⟨_, entry_mem hi, hz⟩
    rw [hfree] at hr
    obtain ⟨-, hi', hz'⟩ := newProcess_spec hfree
    exact .inr ⟨hbad, hnone, k, i', hi', hz', .inl ⟨hflag, j, hj, hr.symm⟩⟩
  · rename_i hflag
    split at hr
    · exact .inl (hr ▸ refused_extend (by decide) k)
    next v hsession =>
    have hroom : ((t.newProcess reallocate).bind fun slot =>
        slot.1.newSession reallocate process).isSome := by
      rw [hslot, Option.bind_some, hsession]
      rfl
    obtain ⟨l, j, hj, hjz, rfl⟩ := newSession_spec hsession
    rw [extend_extend] at hr hj hjz
    have hfree : ∃ e ∈ (t.extend (k + l)).entries, e.process = 0 := by
      refine ⟨_, ?_, hz⟩
      rw [← extend_extend]
      exact mem_append_left _ (entry_mem hi)
    obtain ⟨i', hslot'⟩ := newProcess_of_free reallocate
      (t := (t.extend (k + l)).setSession j
        { (t.extend (k + l)).session j with session := process }) hfree
    rw [hslot'] at hr
    obtain ⟨-, hi', hz'⟩ := newProcess_spec hslot'
    exact .inr ⟨hbad, hnone, k + l, i', hi', hz', .inr ⟨hflag, hroom, j, hj, hjz, hr.symm⟩⟩

theorem setpgid_cases (hr : t.setpgid sender process group = r) :
    t.Refused r ∨ ∃ caller i, t.find sender = some caller ∧
      t.find (if process = 0 then sender else process) = some i ∧
      (i = caller ∨ (t.entry i).parent = sender) ∧
      (t.entry i).session = (t.entry caller).session ∧
      (t.entry i).session ≠ (t.entry i).process ∧
      let group := if group = 0 then (if process = 0 then sender else process) else group
      (group = (t.entry i).process ∨ t.groupInSession (t.entry i).session group = true) ∧
      r = (t.setEntry i { t.entry i with group := group }, astraStatusOk) := by
  unfold setpgid at hr
  split at hr
  · exact .inl (hr ▸ refused_same (by decide))
  next caller hcaller =>
  dsimp only at hr
  generalize (if process = 0 then sender else process) = process at hr ⊢
  generalize (if group = 0 then process else group) = group at hr ⊢
  split at hr
  · exact .inl (hr ▸ refused_same (by decide))
  split at hr
  · exact .inl (hr ▸ refused_same (by decide))
  next i hi =>
  split at hr
  · exact .inl (hr ▸ refused_same (by decide))
  rename_i hparent
  split at hr
  · exact .inl (hr ▸ refused_same (by decide))
  rename_i hsession
  by_cases hgroup : group = (t.entry i).process ∨
      t.groupInSession (t.entry i).session group = true
  · rw [if_neg (not_not.mpr hgroup)] at hr
    push Not at hparent hsession
    exact .inr ⟨caller, i, hcaller, hi, or_iff_not_imp_left.mpr hparent, hsession.1, hsession.2,
      hgroup, hr.symm⟩
  · rw [if_pos hgroup] at hr
    exact .inl (hr ▸ refused_same (by decide))

theorem setsid_cases (hr : t.setsid reallocate sender = r) :
    t.Refused r ∨ (∀ e ∈ t.entries, e.process ≠ 0 → e.group ≠ sender) ∧
      (t.newSession reallocate sender).isSome ∧ ∃ k i j,
      (t.extend k).find sender = some i ∧ j < (t.extend k).sessions.length ∧
      ((t.extend k).session j).session = 0 ∧
      let u := (t.extend k).setSession j { (t.extend k).session j with session := sender }
      r = ((u.setEntry i { u.entry i with group := sender, session := sender }).removeEmptySession
        ((t.extend k).entry i).session, astraStatusOk) := by
  unfold setsid at hr
  split at hr
  · exact .inl (hr ▸ refused_same (by decide))
  next i hi =>
  split at hr
  · exact .inl (hr ▸ refused_same (by decide))
  rename_i hany
  have hnone : ∀ e ∈ t.entries, e.process ≠ 0 → e.group ≠ sender := by
    intro e he hl hg
    refine hany (any_eq_true.mpr ⟨e, he, ?_⟩)
    rw [Bool.and_eq_true, bne_iff_ne, beq_iff_eq]
    exact ⟨hl, hg⟩
  split at hr
  · exact .inl (hr ▸ refused_same (by decide))
  next v hv =>
  obtain ⟨k, j, hj, hjz, rfl⟩ := newSession_spec hv
  -- the slot of the caller did not move
  have hagain : (t.extend k).find sender = some i := (find_extend t k sender).trans hi
  have hsame : ((t.extend k).setSession j
      { (t.extend k).session j with session := sender }).find sender = some i := hagain
  rw [hsame] at hr
  have hold : (t.extend k).entry i = t.entry i := by
    obtain ⟨hlt, -⟩ := find_some hi
    rw [entry_eq hlt, entry_eq (by simp [extend]; omega)]
    exact getElem_append_left hlt
  exact .inr ⟨hnone, by rw [hv]; rfl, k, i, j, hagain, hj, hjz, by rw [hold]; exact hr.symm⟩

theorem remove_cases (hr : t.remove process = r) :
    t.Refused r ∨ ∃ i, t.find process = some i ∧ ∃ u : PosixProcessTable,
      u.entries = (t.setEntry i .zero).entries.map (orphan process) ∧ u.sessions = t.sessions ∧
      r = (u.removeEmptySession (t.entry i).session, astraStatusOk) := by
  unfold remove at hr
  split at hr
  · exact .inl (hr ▸ refused_same (by decide))
  next i hi =>
  let u : PosixProcessTable :=
    ⟨(t.setEntry i .zero).entries.map (orphan process), t.sessions, by simp [setEntry, t.same]⟩
  exact .inr ⟨i, hi, u, rfl, rfl, hr.symm⟩

theorem tty_cases (hcall : (∃ sender, call = .ttyAttach sender) ∨ ∃ sender group,
      call = .ttySetForeground sender group) (hr : t.call reallocate call = r) :
    t.Refused r ∨ ∃ i s, s.session = (t.session i).session ∧
      r = (t.setSession i s, astraStatusOk) := by
  rcases hcall with ⟨sender, rfl⟩ | ⟨sender, group, rfl⟩
  · simp only [PosixProcessTable.call, ttyAttach] at hr
    split at hr
    · exact .inl (hr ▸ refused_same (by decide))
    split at hr
    · exact .inl (hr ▸ refused_same (by decide))
    split at hr
    · exact .inl (hr ▸ refused_same (by decide))
    split at hr
    · exact .inl (hr ▸ refused_same (by decide))
    · refine .inr ⟨_, _, ?_, hr.symm⟩
      rfl
  · simp only [PosixProcessTable.call, ttySetForeground] at hr
    split at hr
    · exact .inl (hr ▸ refused_same (by decide))
    split at hr
    · exact .inl (hr ▸ refused_same (by decide))
    split at hr
    · exact .inl (hr ▸ refused_same (by decide))
    split at hr
    · exact .inl (hr ▸ refused_same (by decide))
    split at hr
    · exact .inl (hr ▸ refused_same (by decide))
    · refine .inr ⟨_, _, ?_, hr.symm⟩
      rfl

theorem call_refused (h : (t.call reallocate call).2 ≠ astraStatusOk) :
    ∃ k, (t.call reallocate call).1 = t.extend k := by
  have hrefused : ∀ {r}, t.call reallocate call = r → t.Refused r ∨ r.2 = astraStatusOk →
      ∃ k, r.1 = t.extend k := by
    rintro r rfl (hr | hr)
    · exact hr.2
    · exact absurd hr h
  refine hrefused rfl ?_
  cases call with
  | register sender process handle flags =>
    obtain hr | ⟨-, -, k, i, -, -, ⟨-, j, -, hr⟩ | ⟨-, -, j, -, -, hr⟩⟩ :=
      register_cases (rfl : t.register reallocate sender process handle flags = _)
    · exact .inl hr
    · exact .inr (congrArg Prod.snd hr)
    · exact .inr (congrArg Prod.snd hr)
  | remove process =>
    obtain hr | ⟨i, -, u, -, -, hr⟩ := remove_cases (rfl : t.remove process = _)
    · exact .inl hr
    · exact .inr (congrArg Prod.snd hr)
  | setpgid sender process group =>
    obtain hr | ⟨caller, i, -, -, -, -, -, -, hr⟩ :=
      setpgid_cases (rfl : t.setpgid sender process group = _)
    · exact .inl hr
    · exact .inr (congrArg Prod.snd hr)
  | setsid sender =>
    obtain hr | ⟨-, -, k, i, j, -, -, -, hr⟩ :=
      setsid_cases (rfl : t.setsid reallocate sender = _)
    · exact .inl hr
    · exact .inr (congrArg Prod.snd hr)
  | ttyAttach sender =>
    obtain hr | ⟨i, s, -, hr⟩ := tty_cases (.inl ⟨sender, rfl⟩)
      (rfl : t.call reallocate (.ttyAttach sender) = _)
    · exact .inl hr
    · exact .inr (congrArg Prod.snd hr)
  | ttySetForeground sender group =>
    obtain hr | ⟨i, s, -, hr⟩ := tty_cases (.inr ⟨sender, group, rfl⟩)
      (rfl : t.call reallocate (.ttySetForeground sender group) = _)
    · exact .inl hr
    · exact .inr (congrArg Prod.snd hr)

/-! ## Runs -/

/-- No old group or session carries the number that the call would give: a new session is not
numbered like a group or a session with a process in it, and a process that leads a group of its own
finds no such group in another session. The call does not ask. -/
def Steady (reallocate : Reallocate) (t : PosixProcessTable) : PosixCall → Prop
  | .register sender process handle flags =>
    ¬(sender ≤ 0 ∨ process ≤ 0 ∨ sender = process ∨ handle = 0 ∨
      flags &&& ~~~astraPosixProcessFlagMask ≠ 0) → t.find process = none →
    flags &&& astraPosixProcessNewSession ≠ 0 →
    ((t.newProcess reallocate).bind fun slot => slot.1.newSession reallocate process).isSome →
    ∀ e ∈ t.entries, e.process ≠ 0 → e.group ≠ process ∧ e.session ≠ process
  | .setpgid sender process group =>
    ∀ caller i, t.find sender = some caller →
      t.find (if process = 0 then sender else process) = some i →
      (i = caller ∨ (t.entry i).parent = sender) →
      (t.entry i).session = (t.entry caller).session →
      (t.entry i).session ≠ (t.entry i).process →
      (if group = 0 then (if process = 0 then sender else process) else group) =
        (t.entry i).process →
      ∀ e ∈ t.entries, e.process ≠ 0 → e.group = (t.entry i).process →
        e.session = (t.entry i).session
  | .setsid sender =>
    (t.find sender).isSome → (∀ e ∈ t.entries, e.process ≠ 0 → e.group ≠ sender) →
    (t.newSession reallocate sender).isSome →
    ∀ e ∈ t.entries, e.process ≠ 0 → e.session ≠ sender
  | _ => True

theorem Consistent.refused (h : t.Consistent) (hr : t.Refused r) : r.1.Consistent := by
  obtain ⟨-, k, hk⟩ := hr
  exact hk ▸ h.extend k

theorem not_mem_extend (h : t.find n = none) (hn : ¬n ≤ 0) :
    ∀ e ∈ (t.extend k).entries, e.process ≠ n :=
  find_none ((find_extend t k n).trans h) hn

section

variable (h : t.Consistent)
include h

theorem register_consistent (hs : t.Steady reallocate (.register sender process handle flags)) :
    (t.register reallocate sender process handle flags).1.Consistent := by
  obtain hr | ⟨hbad, hnone, k, i, hi, hz, hcase⟩ :=
    register_cases (rfl : t.register reallocate sender process handle flags = _)
  · exact h.refused hr
  have hpos : ¬process ≤ 0 := fun h => hbad (.inr (.inl h))
  have hu := h.extend k
  have hother : ∀ q ∈ (t.extend k).entries.eraseIdx i, q.process ≠ process :=
    fun q hq => not_mem_extend hnone hpos q (mem_of_mem_eraseIdx hq)
  rcases hcase with ⟨-, j, hj, hr⟩ | ⟨hflag, hroom, j, hj, hjz, hr⟩
  · rw [hr]
    obtain ⟨hold, hnew⟩ := entries_perm hi ⟨handle, process, ((t.extend k).entry j).process,
      ((t.extend k).entry j).group, ((t.extend k).entry j).session⟩
    obtain ⟨hjlt, hjp, hjpos⟩ := find_some hj
    have hlive : ((t.extend k).entry j).process ≠ 0 := hjp ▸ ne_zero_of_positive hjpos
    have hmem : (t.extend k).entry j ∈ (t.extend k).entries.eraseIdx i := by
      rcases mem_cons.mp (hold.mem_iff.mpr (entry_mem hjlt)) with heq | hmem
      · exact absurd (heq ▸ hz) hlive
      · exact hmem
    refine TableSoundBut.perm ?_ hnew.symm (.refl _)
    exact TableSoundBut.child (hu.perm hold.symm (.refl _)) hz hmem hlive hpos hother rfl rfl rfl
  · rw [hr]
    obtain ⟨hold, hnew⟩ := entries_perm hi ⟨handle, process, 0, process, process⟩
    obtain ⟨hnold, hnnew⟩ := numbers_perm hj { (t.extend k).session j with session := process }
    rw [hjz] at hnold
    have halone := hs hbad hnone hflag hroom
    refine (TableSoundBut.lead (hu.perm hold.symm hnold.symm) hpos rfl rfl (.inl rfl) (.inl hz)
      hother fun q hq hl => ?_).perm hnew.symm hnnew.symm
    exact halone q (mem_of_mem_extend (mem_of_mem_eraseIdx hq) hl) hl

theorem setpgid_consistent (hs : t.Steady reallocate (.setpgid sender process group)) :
    (t.setpgid sender process group).1.Consistent := by
  obtain hr | ⟨caller, i, hcaller, hi, hparent, hsession, hleader, hgroup, hr⟩ :=
    setpgid_cases (rfl : t.setpgid sender process group = _)
  · exact h.refused hr
  rw [hr]
  obtain ⟨hlt, -, -⟩ := find_some hi
  obtain ⟨hold, hnew⟩ := entries_perm hlt { t.entry i with
    group := if group = 0 then (if process = 0 then sender else process) else group }
  refine (TableSoundBut.regroup (h.perm hold.symm (.refl _)) fun q hq hl heq => ?_).perm
    hnew.symm (.refl _)
  have hq' : q ∈ t.entries := mem_of_mem_eraseIdx hq
  rcases hgroup with hown | hthere
  · exact hs caller i hcaller hi hparent hsession hleader hown q hq' hl (heq.trans hown)
  · obtain ⟨e, he, hmatch⟩ := any_eq_true.mp hthere
    simp only [Bool.and_eq_true, bne_iff_ne, beq_iff_eq] at hmatch
    obtain ⟨⟨hel, hes⟩, heg⟩ := hmatch
    rw [h.groups q hq' e he hl hel (heq.trans heg.symm), hes]

theorem setsid_consistent (hs : t.Steady reallocate (.setsid sender)) :
    (t.setsid reallocate sender).1.Consistent := by
  obtain hr | ⟨hgroup, hroom, k, i, j, hi, hj, hjz, hr⟩ :=
    setsid_cases (rfl : t.setsid reallocate sender = _)
  · exact h.refused hr
  rw [hr]
  have hu := h.extend k
  have hfound : (t.find sender).isSome := by rw [← find_extend t k sender, hi]; rfl
  have hsession := hs hfound hgroup hroom
  obtain ⟨hlt, hproc, hpos⟩ := find_some hi
  have hne : ((t.extend k).entry i).process ≠ 0 := hproc ▸ ne_zero_of_positive hpos
  obtain ⟨hold, hnew⟩ := entries_perm hlt
    { (t.extend k).entry i with group := sender, session := sender }
  obtain ⟨hnold, hnnew⟩ := numbers_perm hj { (t.extend k).session j with session := sender }
  rw [hjz] at hnold
  have hlead : TableSoundBut ((t.extend k).entry i).session
      ({ (t.extend k).entry i with group := sender, session := sender } ::
        (t.extend k).entries.eraseIdx i) (sender :: (t.extend k).numbers.eraseIdx j) := by
    have hmine : sender = ((t.extend k).entry i).process := hproc.symm
    subst hmine
    have hperm := hu.perm hold.symm hnold.symm
    refine TableSoundBut.lead hperm hpos rfl rfl ?_ (.inr ⟨rfl, ?_, rfl⟩)
      (hu.alone hlt hne rfl) fun q hq hl => ?_
    · obtain h0 | ⟨q, hq, hql, hqp⟩ := hu.parents _ (entry_mem hlt)
      · exact .inl h0
      rcases mem_cons.mp (hold.mem_iff.mpr hq) with rfl | hq
      · exact .inr ⟨_, mem_cons_self, hql, hqp⟩
      · exact .inr ⟨q, mem_cons_of_mem _ hq, hql, hqp⟩
    · exact hsession _ (mem_of_mem_extend (entry_mem hlt) hne) hne
    · have hq' := mem_of_mem_extend (mem_of_mem_eraseIdx hq) hl
      exact ⟨hgroup q hq' hl, hsession q hq' hl⟩
  refine removeEmptySession_spec (hlead.perm hnew.symm hnnew.symm) ?_
  exact (hu.positive _ (entry_mem hlt) hne).2

theorem remove_consistent : (t.remove process).1.Consistent := by
  obtain hr | ⟨i, hi, u, hentries, hsessions, hr⟩ := remove_cases (rfl : t.remove process = _)
  · exact h.refused hr
  rw [hr]
  obtain ⟨hlt, hproc, hpos⟩ := find_some hi
  obtain ⟨hold, hnew⟩ := entries_perm hlt .zero
  have hleave := TableSoundBut.leave (h.perm hold.symm (.refl _))
  rw [hproc] at hleave
  refine removeEmptySession_spec ?_ (h.positive _ (entry_mem hlt)
    (hproc ▸ ne_zero_of_positive hpos)).2
  rw [hentries, numbers, hsessions]
  exact hleave.perm (hnew.symm.map _) (.refl _)

theorem call_consistent (hs : t.Steady reallocate call) :
    (t.call reallocate call).1.Consistent := by
  have htty : ∀ {r : PosixProcessTable × ℕ},
      (t.Refused r ∨ ∃ i s, s.session = (t.session i).session ∧
        r = (t.setSession i s, astraStatusOk)) → r.1.Consistent := by
    rintro r (hr | ⟨i, s, heq, rfl⟩)
    · exact h.refused hr
    · exact h.setSession heq
  cases call with
  | register sender process handle flags => exact register_consistent h hs
  | remove process => exact remove_consistent h
  | setpgid sender process group => exact setpgid_consistent h hs
  | setsid sender => exact setsid_consistent h hs
  | ttyAttach sender => exact htty (tty_cases (.inl ⟨sender, rfl⟩) rfl)
  | ttySetForeground sender group => exact htty (tty_cases (.inr ⟨sender, group, rfl⟩) rfl)

end

def SteadyStep (t t' : PosixProcessTable) : Prop :=
  ∃ reallocate call, t.Steady reallocate call ∧ (t.call reallocate call).1 = t'

/-- A run of steady calls keeps the table consistent. In any table, growing keeps every slot where
it is, and a call that fails leaves nothing behind but free slots, which no reader sees. -/
theorem call_run_consistent (h : Relation.ReflTransGen SteadyStep .init t) :
    t.Consistent ∧ ∀ (u : PosixProcessTable) (reallocate : Reallocate),
      (∀ u', u.grow reallocate = some u' → ∃ k, 0 < k ∧ u' = u.extend k) ∧
      ∀ call, (u.call reallocate call).2 ≠ astraStatusOk →
        ∃ k, (u.call reallocate call).1 = u.extend k := by
  refine ⟨?_, fun u reallocate => ⟨fun _ => grow_spec, fun _ => call_refused⟩⟩
  induction h with
  | refl => exact tableSound_nil
  | tail _ hstep ih =>
    obtain ⟨reallocate, call, hs, rfl⟩ := hstep
    exact call_consistent ih hs

/-- An allocator that always has room. -/
def plenty : Reallocate := fun _ => some fun _ => 0

def callAll (t : PosixProcessTable) (calls : List PosixCall) : PosixProcessTable :=
  calls.foldl (fun t call => (t.call plenty call).1) t

/-- A parent, its child, and the child in a session of its own. -/
theorem call_run_consistent_setsid :
    ((init.callAll [.register 1 10 5 1, .register 10 11 6 0, .setsid 11]).entries.any
      fun e => e.process == 11 && e.session == 11 && e.parent == 10) = true ∧
    (init.callAll [.register 1 10 5 1, .register 10 11 6 0, .setsid 11]).Consistent := by
  have hparent : init.Steady plenty (.register 1 10 5 1) :=
    fun _ _ _ _ e he => absurd he not_mem_nil
  have hchild : (init.callAll [.register 1 10 5 1]).Steady plenty (.register 10 11 6 0) :=
    fun _ _ hflag => absurd (by decide) hflag
  have hsetsid : (init.callAll [.register 1 10 5 1, .register 10 11 6 0]).Steady plenty
      (.setsid 11) := by
    have hall : ∀ e ∈ (init.callAll [.register 1 10 5 1, .register 10 11 6 0]).entries,
      e.process ≠ 0 → e.session ≠ 11 := by decide +kernel
    exact fun _ _ _ => hall
  exact ⟨by decide +kernel, (call_run_consistent (((Relation.ReflTransGen.refl.tail
    ⟨plenty, _, hparent, rfl⟩).tail ⟨plenty, _, hchild, rfl⟩).tail ⟨plenty, _, hsetsid, rfl⟩)).1⟩

/-- A process number is used again while an old group or session carries it: a new session gets a
second entry, `setsid` makes one, and `setpgid` lets a group span two sessions. -/
theorem call_run_inconsistent :
    ¬(init.callAll [.register 1 10 5 1, .register 10 11 6 0, .remove 10,
      .register 1 10 7 1]).Consistent ∧
    ¬(init.callAll [.register 1 10 5 1, .register 10 11 6 0, .remove 10, .setpgid 11 11 11,
      .register 1 20 7 1, .register 20 10 8 0, .setsid 10]).Consistent ∧
    ¬(init.callAll [.register 1 10 5 1, .register 10 11 6 0, .setpgid 11 11 11,
      .register 11 12 7 0, .remove 11, .register 1 20 8 1, .register 20 11 9 0,
      .setpgid 11 0 0]).Consistent := by
  refine ⟨fun h => absurd h.sessions ?_, fun h => absurd h.sessions ?_,
    fun h => absurd h.groups ?_⟩
  · decide +kernel
  · decide +kernel
  · decide +kernel

end PosixProcessTable

end Astra
