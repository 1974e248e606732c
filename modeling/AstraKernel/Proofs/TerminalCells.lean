import AstraKernel.Terminal.Stream

/-!
# What the terminal writes

Cells are written inside the arrays as long as these are as large as the terminal takes them to be
(`TerminalShaped`). `Writes R` says that a function has written only cells of the region `R`,
`Paints` that what it has changed is recorded as changed.
-/

namespace Astra

variable {t t' t'' : AstraTerminal} {row column row' column' : ℕ} {value : AstraTextCell}
  {R R' : ℕ → ℕ → Prop}

/-- The lengths of the arrays, the capacity and the size of the screen. -/
structure StorageShape (primary alternate first last echo capacityColumns capacityRows columns
    rows : ℕ) : Prop where
  primary_length : primary = capacityRows * capacityColumns
  alternate_length : alternate = capacityRows * capacityColumns
  first_length : first = capacityRows
  last_length : last = capacityRows
  echo_length : echo = capacityColumns * 4
  columns_pos : 0 < columns
  columns_le : columns ≤ capacityColumns
  columns_lt : capacityColumns < 2 ^ 32
  rows_pos : 0 < rows
  rows_le : rows ≤ capacityRows
  rows_lt : capacityRows < 2 ^ 32

abbrev TerminalShaped (t : AstraTerminal) : Prop :=
  StorageShape t.primaryCells.length t.alternateCells.length t.dirtyFirst.length t.dirtyLast.length
    t.echoLine.length t.capacityColumns t.capacityRows t.columns t.rows

def Drawn (t t' : AstraTerminal) : Prop :=
  ∃ (p a : List AstraTextCell) (f l : List ℕ), p.length = t.primaryCells.length ∧
    a.length = t.alternateCells.length ∧ f.length = t.dirtyFirst.length ∧
    l.length = t.dirtyLast.length ∧
    t' = { t with primaryCells := p, alternateCells := a, dirtyFirst := f, dirtyLast := l }

theorem Drawn.refl (t : AstraTerminal) : Drawn t t := ⟨_, _, _, _, rfl, rfl, rfl, rfl, rfl⟩

theorem Drawn.trans (h : Drawn t t') (h' : Drawn t' t'') : Drawn t t'' := by
  obtain ⟨p, a, f, l, hp, ha, hf, hl, rfl⟩ := h
  obtain ⟨p', a', f', l', hp', ha', hf', hl', rfl⟩ := h'
  exact ⟨p', a', f', l', hp'.trans hp, ha'.trans ha, hf'.trans hf, hl'.trans hl, rfl⟩

section

variable (h : Drawn t t')
include h

theorem Drawn.shaped (ht : TerminalShaped t) : TerminalShaped t' := by
  obtain ⟨p, a, f, l, hp, ha, hf, hl, rfl⟩ := h
  exact ⟨hp.trans ht.primary_length, ha.trans ht.alternate_length, hf.trans ht.first_length,
    hl.trans ht.last_length, ht.echo_length, ht.columns_pos, ht.columns_le, ht.columns_lt,
    ht.rows_pos, ht.rows_le, ht.rows_lt⟩

theorem Drawn.columns : t'.columns = t.columns := by
  obtain ⟨p, a, f, l, -, -, -, -, rfl⟩ := h
  rfl

theorem Drawn.rows : t'.rows = t.rows := by
  obtain ⟨p, a, f, l, -, -, -, -, rfl⟩ := h
  rfl

theorem Drawn.cell (row column : ℕ) : t'.cell row column = t.cell row column := by
  obtain ⟨p, a, f, l, -, -, -, -, rfl⟩ := h
  rfl

end

namespace TerminalShaped

variable (h : TerminalShaped t)

include h

theorem active_length : t.active.length = t.capacityRows * t.capacityColumns := by
  unfold AstraTerminal.active
  cases t.cells
  · exact h.primary_length
  · exact h.alternate_length

theorem cell_run (hr : row < t.rows) {count : ℕ} (hc : column + count ≤ t.columns) :
    t.cell row column + count ≤ t.active.length := by
  have hcolumns := h.columns_le
  have hrow : row + 1 ≤ t.capacityRows := hr.trans_le h.rows_le
  calc t.cell row column + count ≤ row * t.capacityColumns + t.capacityColumns := by
        unfold AstraTerminal.cell
        omega
    _ = (row + 1) * t.capacityColumns := (Nat.succ_mul row _).symm
    _ ≤ t.capacityRows * t.capacityColumns := Nat.mul_le_mul_right _ hrow
    _ = t.active.length := h.active_length.symm

theorem cell_lt (hr : row < t.rows) (hc : column < t.columns) :
    t.cell row column < t.active.length :=
  h.cell_run hr (show column + 1 ≤ t.columns from hc)

theorem cell_inj (hc : column < t.columns) (hc' : column' < t.columns) :
    t.cell row column = t.cell row' column' ↔ row = row' ∧ column = column' := by
  constructor
  · intro he
    have hlt := hc.trans_le h.columns_le
    have hlt' := hc'.trans_le h.columns_le
    unfold AstraTerminal.cell at he
    have hmod := congrArg (· % t.capacityColumns) he
    simp only [Nat.mul_add_mod_self_right, Nat.mod_eq_of_lt hlt, Nat.mod_eq_of_lt hlt'] at hmod
    subst hmod
    exact ⟨Nat.eq_of_mul_eq_mul_right (by omega) (Nat.add_right_cancel he), rfl⟩
  · rintro ⟨rfl, rfl⟩
    rfl

theorem loadCell (hr : row < t.rows) (hc : column < t.columns) :
    Yields (t.loadCell row column) fun v => t.loadCell row column = some v :=
  ⟨_, List.getElem?_eq_getElem (h.cell_lt hr hc), List.getElem?_eq_getElem (h.cell_lt hr hc)⟩

theorem dirty (hr : row < t.rows) : ∃ first last, t.dirtyFirst[row]? = some first ∧
    t.dirtyLast[row]? = some last := by
  have hrow := hr.trans_le h.rows_le
  exact ⟨_, _, List.getElem?_eq_getElem (by rwa [h.first_length]),
    List.getElem?_eq_getElem (by rwa [h.last_length])⟩

end TerminalShaped

/-! ## Writing cells -/

structure Writes (R : ℕ → ℕ → Prop) (t t' : AstraTerminal) : Prop where
  drawn : Drawn t t'
  first : t'.dirtyFirst = t.dirtyFirst
  last : t'.dirtyLast = t.dirtyLast
  keeps : ∀ row column, row < t.rows → column < t.columns → ¬R row column →
    t'.loadCell row column = t.loadCell row column

theorem Writes.refl (t : AstraTerminal) : Writes R t t := ⟨.refl t, rfl, rfl, fun _ _ _ _ _ => rfl⟩

theorem Writes.trans (h : Writes R t t') (h' : Writes R t' t'') : Writes R t t'' := by
  refine ⟨h.drawn.trans h'.drawn, h'.first.trans h.first, h'.last.trans h.last,
    fun row column hr hc hR => ?_⟩
  rw [h'.keeps row column (by rwa [h.drawn.rows]) (by rwa [h.drawn.columns]) hR,
    h.keeps row column hr hc hR]

theorem Writes.mono (h : Writes R t t') (hR : ∀ row column, R row column → R' row column) :
    Writes R' t t' :=
  ⟨h.drawn, h.first, h.last, fun row column hr hc hn =>
    h.keeps row column hr hc fun hx => hn (hR row column hx)⟩

variable (b : List AstraTextCell)

theorem active_withActive : (t.withActive b).active = b := by
  unfold AstraTerminal.withActive AstraTerminal.active
  cases h : t.cells <;> simp

theorem drawn_withActive {b : List AstraTextCell} (h : b.length = t.active.length) :
    Drawn t (t.withActive b) := by
  unfold AstraTerminal.withActive
  unfold AstraTerminal.active at h
  cases hc : t.cells
  · rw [hc] at h
    exact ⟨b, _, _, _, h, rfl, rfl, rfl, by simp [hc]⟩
  · rw [hc] at h
    exact ⟨_, b, _, _, rfl, h, rfl, rfl, by simp [hc]⟩

theorem withActive_dirty : (t.withActive b).dirtyFirst = t.dirtyFirst ∧
    (t.withActive b).dirtyLast = t.dirtyLast := by
  unfold AstraTerminal.withActive
  cases t.cells <;> exact ⟨rfl, rfl⟩

theorem storeCell_spec (h : TerminalShaped t) (hr : row < t.rows) (hc : column < t.columns)
    (value : AstraTextCell) : Yields (t.storeCell row column value) fun t' =>
      Writes (fun r c => r = row ∧ c = column) t t' ∧ t'.loadCell row column = some value := by
  have hlt := h.cell_lt hr hc
  have hdrawn : Drawn t (t.withActive (t.active.set (t.cell row column) value)) :=
    drawn_withActive (by simp)
  refine ⟨_, if_pos hlt, ⟨hdrawn, (withActive_dirty _).1, (withActive_dirty _).2, ?_⟩, ?_⟩
  · intro r c _ hc' hne
    unfold AstraTerminal.loadCell
    rw [hdrawn.cell, active_withActive, List.getElem?_set_ne fun he => hne ?_]
    obtain ⟨rfl, rfl⟩ := (h.cell_inj hc hc').1 he
    exact ⟨rfl, rfl⟩
  · unfold AstraTerminal.loadCell
    rw [hdrawn.cell, active_withActive, List.getElem?_set_self hlt]

theorem copyCell_spec (h : TerminalShaped t) (hr : row < t.rows) (hc : column < t.columns)
    (hr' : row' < t.rows) (hc' : column' < t.columns) :
    Yields (t.copyCell row column row' column') fun t' =>
      Writes (fun r c => r = row ∧ c = column) t t' ∧
        t'.loadCell row column = t.loadCell row' column' := by
  refine (h.loadCell hr' hc').bind fun v hv => (storeCell_spec h hr hc v).mono fun t' ht' => ?_
  exact ⟨ht'.1, ht'.2.trans hv.symm⟩

variable {first last : ℕ} {body : ℕ → AstraTerminal → Option AstraTerminal}

section

variable (h : TerminalShaped t)
include h

section

variable (hstep : ∀ i t', first ≤ i → i < last → TerminalShaped t' → Drawn t t' → Yields (body i t') (Writes R t'))
include hstep

theorem writes_forUp : Yields (forUp first last body t) (Writes R t) := by
  refine yields_forUp_const (.refl t) fun i t' hi hlt ht' => ?_
  exact (hstep i t' hi hlt (ht'.drawn.shaped h) ht'.drawn).mono fun t'' => ht'.trans

theorem writes_forDown : Yields (forDown first last body t) (Writes R t) := by
  rcases Nat.lt_or_ge last first with hlt | hle
  · rw [forDown, show last - first = 0 by omega]
    exact Yields.done (.refl t)
  · refine yields_forDown (P := fun _ => Writes R t) hle (.refl t) fun i t' hi hlt ht' => ?_
    exact (hstep i t' hi hlt (ht'.drawn.shaped h) ht'.drawn).mono fun t'' => ht'.trans

end

theorem blankRow_spec (hr : row < t.rows) :
    Yields (t.blankRow row) (Writes (fun r _ => r = row) t) := by
  refine writes_forUp h fun column t' _ hlt ht' hd => ?_
  refine (storeCell_spec ht' (by rwa [hd.rows]) (by rwa [hd.columns]) _).mono fun t'' ht'' => ?_
  exact ht''.1.mono fun r c hrc => hrc.1

theorem copyRow_spec (hr : row < t.rows) (hr' : row' < t.rows) :
    Yields (forUp 0 t.columns (fun column t => t.copyCell row column row' column) t) fun t' =>
      Writes (fun r _ => r = row) t t' ∧
        (row' ≠ row → ∀ column < t.columns, t'.loadCell row column = t.loadCell row' column) := by
  refine yields_forUp (P := fun i t' => Writes (fun r _ => r = row) t t' ∧
    (row' ≠ row → ∀ column < i, t'.loadCell row column = t.loadCell row' column)) (Nat.zero_le _)
    ⟨.refl t, fun _ _ hlt => absurd hlt (Nat.not_lt_zero _)⟩ fun i t' _ hi ht' => ?_
  obtain ⟨hw, hcopied⟩ := ht'
  have hd := hw.drawn
  have hi' : i < t'.columns := by rwa [hd.columns]
  refine (copyCell_spec (hd.shaped h) (by rwa [hd.rows]) hi' (by rwa [hd.rows]) hi').mono
    fun t'' ht'' => ⟨hw.trans (ht''.1.mono fun r c hrc => hrc.1), fun hne c hc => ?_⟩
  rcases Nat.lt_succ_iff_lt_or_eq.1 hc with hlt | rfl
  · rw [ht''.1.keeps row c (by rwa [hd.rows]) (by omega) fun hx => hlt.ne hx.2, hcopied hne c hlt]
  · rw [ht''.2, hw.keeps row' c hr' hi hne]

end

/-! ## Recording what has changed -/

def AstraTerminal.Dirty (t : AstraTerminal) (row column : ℕ) : Prop :=
  ∃ first last, t.dirtyFirst[row]? = some first ∧ t.dirtyLast[row]? = some last ∧
    first ≤ column ∧ column ≤ last

def DirtySound (t : AstraTerminal) : Prop :=
  ∀ (row first last : ℕ), row < t.rows → t.dirtyFirst[row]? = some first →
    t.dirtyLast[row]? = some last → first ≤ last → last < t.columns

structure Marks (R : ℕ → ℕ → Prop) (t t' : AstraTerminal) : Prop where
  drawn : Drawn t t'
  cells : ∀ row column, t'.loadCell row column = t.loadCell row column
  sound : DirtySound t'
  keeps : ∀ row column, row < t.rows → column < t.columns → t.Dirty row column →
    t'.Dirty row column
  region : ∀ row column, row < t.rows → column < t.columns → R row column → t'.Dirty row column

theorem Marks.refl (h : DirtySound t) : Marks (fun _ _ => False) t t :=
  ⟨.refl t, fun _ _ => rfl, h, fun _ _ _ _ hd => hd, fun _ _ _ _ hf => hf.elim⟩

theorem Marks.trans (h : Marks R t t') (h' : Marks R' t' t'') :
    Marks (fun r c => R r c ∨ R' r c) t t'' where
  drawn := h.drawn.trans h'.drawn
  cells row column := (h'.cells row column).trans (h.cells row column)
  sound := h'.sound
  keeps row column hr hc hd := h'.keeps row column (by rwa [h.drawn.rows])
    (by rwa [h.drawn.columns]) (h.keeps row column hr hc hd)
  region row column hr hc hx := by
    have hr' : row < t'.rows := by rwa [h.drawn.rows]
    have hc' : column < t'.columns := by rwa [h.drawn.columns]
    rcases hx with hx | hx
    · exact h'.keeps row column hr' hc' (h.region row column hr hc hx)
    · exact h'.region row column hr' hc' hx

theorem Marks.mono (h : Marks R t t') (hR : ∀ row column, row < t.rows → column < t.columns →
    R' row column → R row column) : Marks R' t t' :=
  ⟨h.drawn, h.cells, h.sound, h.keeps, fun row column hr hc hx =>
    h.region row column hr hc (hR row column hr hc hx)⟩

section

variable (h : TerminalShaped t)
include h

section

variable (hd : DirtySound t)
include hd

theorem storeDirty_spec (hr : row < t.rows) (hlast : first ≤ last → last < t.columns)
    (hwider : ∀ column, column < t.columns → t.Dirty row column → first ≤ column ∧ column ≤ last) :
    Yields (t.storeDirty row first last)
      (Marks (fun r c => r = row ∧ first ≤ c ∧ c ≤ last) t) := by
  have hrow := hr.trans_le h.rows_le
  have hset : ∀ r, (t.dirtyFirst.set row first)[r]? = if r = row then some first
      else t.dirtyFirst[r]? := by
    intro r
    rw [List.getElem?_set]
    by_cases he : row = r
    · rw [if_pos he, if_pos (by rw [h.first_length]; exact hrow), if_pos he.symm]
    · rw [if_neg he, if_neg (Ne.symm he)]
  have hset' : ∀ r, (t.dirtyLast.set row last)[r]? = if r = row then some last
      else t.dirtyLast[r]? := by
    intro r
    rw [List.getElem?_set]
    by_cases he : row = r
    · rw [if_pos he, if_pos (by rw [h.last_length]; exact hrow), if_pos he.symm]
    · rw [if_neg he, if_neg (Ne.symm he)]
  refine ⟨_, if_pos ⟨by rwa [h.first_length], by rwa [h.last_length]⟩,
    ⟨_, _, _, _, rfl, rfl, List.length_set, List.length_set, rfl⟩, fun _ _ => rfl, ?_, ?_, ?_⟩
  · intro r f l hr' hf hl hle
    simp only [hset, hset'] at hf hl
    by_cases he : r = row
    · rw [if_pos he] at hf hl
      cases hf
      cases hl
      exact hlast hle
    · rw [if_neg he] at hf hl
      exact hd r f l hr' hf hl hle
  · intro r c _ hc hdirty
    by_cases he : r = row
    · subst he
      exact ⟨first, last, by simp [hset], by simp [hset'], hwider c hc hdirty⟩
    · obtain ⟨f, l, hf, hl, hrange⟩ := hdirty
      exact ⟨f, l, by simpa [hset, he] using hf, by simpa [hset', he] using hl, hrange⟩
  · rintro r c _ _ ⟨rfl, hrange⟩
    exact ⟨first, last, by simp [hset], by simp [hset'], hrange⟩

theorem markRow_spec (hr : row < t.rows) :
    Yields (t.markRow row) (Marks (fun r _ => r = row) t) := by
  have hpos := h.columns_pos
  unfold AstraTerminal.markRow
  rw [sub32_of_le hpos]
  refine (storeDirty_spec h hd hr (fun _ => by omega) fun c hc _ => ⟨Nat.zero_le c, by omega⟩).mono
    fun t' ht' => ht'.mono fun r c _ hc hrc => ⟨hrc, Nat.zero_le c, by omega⟩

theorem mark_spec (hr : row < t.rows) (hc : column < t.columns) : Yields (t.mark row column)
      (Marks (fun r c => r = row ∧ c = column) t) := by
  obtain ⟨first, last, hf, hl⟩ := h.dirty hr
  have hsame : ∀ c, t.Dirty row c → first ≤ c ∧ c ≤ last := by
    rintro c ⟨f, l, hf', hl', hrange⟩
    rw [hf] at hf'
    rw [hl] at hl'
    cases hf'
    cases hl'
    exact hrange
  unfold AstraTerminal.mark
  rw [hf, hl]
  refine Yields.ite (fun hgt => ?_) fun hle => ?_
  · refine (storeDirty_spec h hd hr (fun _ => hc) fun c _ hdirty => ?_).mono fun t' ht' =>
      ht'.mono fun r c _ _ hrc => ⟨hrc.1, hrc.2.ge, hrc.2.le⟩
    have := hsame c hdirty
    omega
  · have hlast := hd row first last hr hf hl (by omega)
    refine (storeDirty_spec h hd hr (fun _ => ?_) fun c _ hdirty => ?_).mono fun t' ht' =>
      ht'.mono fun r c _ _ hrc => ⟨hrc.1, ?_, ?_⟩
    · split_ifs <;> omega
    · have := hsame c hdirty
      constructor <;> split_ifs <;> omega
    · rw [hrc.2]
      split_ifs <;> omega
    · rw [hrc.2]
      split_ifs <;> omega

theorem markRows_spec (hle : first ≤ last) (hlast : last ≤ t.rows) :
    Yields (t.markRows first last) (Marks (fun r _ => first ≤ r ∧ r < last) t) := by
  refine (yields_forUp (P := fun i => Marks (fun r _ => first ≤ r ∧ r < i) t) hle
    ((Marks.refl hd).mono fun r c _ _ hrc => by omega) fun i t' hi hlt ht' => ?_)
  refine (markRow_spec (ht'.drawn.shaped h) ht'.sound (by rw [ht'.drawn.rows]; omega)).mono
    fun t'' ht'' => (ht'.trans ht'').mono fun r c _ _ hrc => by omega

end

end

/-! ## Painting -/

structure Paints (t t' : AstraTerminal) : Prop where
  drawn : Drawn t t'
  sound : DirtySound t'
  keeps : ∀ row column, row < t.rows → column < t.columns → t.Dirty row column →
    t'.Dirty row column
  clean : ∀ row column, row < t.rows → column < t.columns → ¬t'.Dirty row column →
    t'.loadCell row column = t.loadCell row column

theorem Paints.refl (h : DirtySound t) : Paints t t :=
  ⟨.refl t, h, fun _ _ _ _ hd => hd, fun _ _ _ _ _ => rfl⟩

theorem Paints.trans (h : Paints t t') (h' : Paints t' t'') : Paints t t'' := by
  have hrow : ∀ {row}, row < t.rows → row < t'.rows := fun hr => by rwa [h.drawn.rows]
  have hcolumn : ∀ {column}, column < t.columns → column < t'.columns :=
    fun hc => by rwa [h.drawn.columns]
  refine ⟨h.drawn.trans h'.drawn, h'.sound, fun row column hr hc hd => ?_,
    fun row column hr hc hn => ?_⟩
  · exact h'.keeps row column (hrow hr) (hcolumn hc) (h.keeps row column hr hc hd)
  · have hn' : ¬t'.Dirty row column := fun hd => hn (h'.keeps row column (hrow hr) (hcolumn hc) hd)
    rw [h'.clean row column (hrow hr) (hcolumn hc) hn, h.clean row column hr hc hn']

theorem Writes.dirty (h : Writes R t t') : t'.Dirty row column ↔ t.Dirty row column := by
  unfold AstraTerminal.Dirty
  rw [h.first, h.last]

theorem Writes.sound (h : Writes R t t') (hd : DirtySound t) : DirtySound t' := by
  intro row first last hr hf hl
  rw [h.drawn.columns]
  exact hd row first last (by rwa [h.drawn.rows] at hr) (by rwa [h.first] at hf)
    (by rwa [h.last] at hl)

theorem Writes.marked (h : Writes R t t') (h' : Marks R' t' t'')
    (hR : ∀ row column, row < t.rows → column < t.columns → R row column → R' row column) :
    Paints t t'' := by
  have hrow : ∀ {row}, row < t.rows → row < t'.rows := fun hr => by rwa [h.drawn.rows]
  have hcolumn : ∀ {column}, column < t.columns → column < t'.columns :=
    fun hc => by rwa [h.drawn.columns]
  refine ⟨h.drawn.trans h'.drawn, h'.sound, fun row column hr hc hd => ?_,
    fun row column hr hc hn => ?_⟩
  · exact h'.keeps row column (hrow hr) (hcolumn hc) (h.dirty.2 hd)
  · rw [h'.cells, h.keeps row column hr hc fun hx => hn ?_]
    exact h'.region row column (hrow hr) (hcolumn hc) (hR row column hr hc hx)

theorem Marks.paints (h : Marks R t t') : Paints t t' :=
  ⟨h.drawn, h.sound, h.keeps, fun row column _ _ _ => h.cells row column⟩

theorem paints_forUp (h : TerminalShaped t) (hd : DirtySound t)
    (hstep : ∀ i t', first ≤ i → i < last → TerminalShaped t' → DirtySound t' → Drawn t t' →
      Yields (body i t') (Paints t')) : Yields (forUp first last body t) (Paints t) := by
  refine yields_forUp_const (.refl hd) fun i t' hi hlt ht' => ?_
  exact (hstep i t' hi hlt (ht'.drawn.shaped h) ht'.sound ht'.drawn).mono fun t'' => ht'.trans

theorem eraseCells_spec (h : TerminalShaped t) (hd : DirtySound t) (hr : row < t.rows)
    (hle : first < t.columns → first ≤ last) :
    Yields (t.eraseCells row first last) (Paints t) := by
  refine Yields.ite (fun _ => Yields.done (.refl hd)) fun hlt => ?_
  set last' := if last ≥ t.columns then t.columns - 1 else last with hlast'
  have hfirst : first < t.columns := by omega
  have hle' : first ≤ last' ∧ last' < t.columns := by
    have := hle hfirst
    rw [hlast']
    split_ifs <;> omega
  have hwrite : Yields (forUp first (last' + 1) (fun column t => t.storeCell row column t.blankCell) t)
      (Writes (fun r c => r = row ∧ first ≤ c ∧ c ≤ last') t) := by
    refine writes_forUp h fun column t' hi hlt' ht' hdr => ?_
    refine (storeCell_spec ht' (by rwa [hdr.rows]) (by rw [hdr.columns]; omega) _).mono
      fun t'' ht'' => ht''.1.mono fun r c hrc => by omega
  refine hwrite.bind fun t₁ h₁ => ?_
  have hsh₁ := h₁.drawn.shaped h
  have hr₁ : row < t₁.rows := by rwa [h₁.drawn.rows]
  refine (mark_spec hsh₁ (h₁.sound hd) hr₁ (by rwa [h₁.drawn.columns])).bind fun t₂ h₂ => ?_
  have hr₂ : row < t₂.rows := by rwa [h₂.drawn.rows]
  refine (mark_spec (h₂.drawn.shaped hsh₁) h₂.sound hr₂
    (by rw [h₂.drawn.columns, h₁.drawn.columns]; omega)).mono fun t₃ h₃ => ?_
  -- between the two marks everything is recorded, since the record of a row is an interval
  have hhull : Marks (fun r c => r = row ∧ first ≤ c ∧ c ≤ last') t₁ t₃ := by
    have hboth := h₂.trans h₃
    refine ⟨hboth.drawn, hboth.cells, hboth.sound, hboth.keeps, ?_⟩
    rintro r c hr' hc' ⟨rfl, hrange⟩
    obtain ⟨f, l, hf, hl, hf', -⟩ := hboth.region r first hr' (by rw [h₁.drawn.columns]; omega)
      (.inl ⟨rfl, rfl⟩)
    obtain ⟨f', l', hf₂, hl₂, -, hl'⟩ := hboth.region r last' hr' (by rw [h₁.drawn.columns]; omega)
      (.inr ⟨rfl, rfl⟩)
    rw [hf] at hf₂
    rw [hl] at hl₂
    cases hf₂
    cases hl₂
    exact ⟨f, l, hf, hl, hf'.trans hrange.1, hrange.2.trans hl'⟩
  exact h₁.marked hhull fun _ _ _ _ hrc => hrc

end Astra
