import AstraKernel.Proofs.TerminalBytes

/-!
# Storage and size

What a terminal is set up in, and what a resize leaves: the arrays lie inside the storage, as large
as the terminal takes them to be, and every row is drawn afresh.
-/

namespace Astra

open List

variable {t t' t'' : AstraTerminal} {columns rows storage storageSize : ℕ}

/-! ## The storage -/

theorem addSize_some {total count width size : ℕ} (h : addSize total count width = some size)
    (ht : total ≤ sizeMax) : size = total + count * width ∧ size ≤ sizeMax := by
  unfold addSize at h
  split_ifs at h with hbig
  cases h
  refine ⟨rfl, ?_⟩
  rcases Nat.eq_zero_or_pos count with rfl | hpos
  · simpa using ht
  · have hle : width ≤ (sizeMax - total) / count := by
      by_contra hgt
      exact hbig ⟨by omega, by omega⟩
    have := (Nat.le_div_iff_mul_le hpos).1 hle
    rw [Nat.mul_comm] at this
    omega

theorem storageSize_spec {bytes : ℕ} (h : astraTerminalStorageSize columns rows = .ok bytes) :
    0 < columns ∧ 0 < rows ∧ rows * columns ≤ sizeMax ∧
      bytes = astraTerminalStorageAlignment - 1 + rows * (2 * sizeofUint32) +
        rows * columns * sizeofTextCell + rows * columns * sizeofTextCell + columns * 4 := by
  unfold astraTerminalStorageSize at h
  split_ifs at h with hzero
  dsimp only at h
  split at h
  · rename_i total htotal
    cases h
    simp only [Option.bind_eq_bind, Option.bind_eq_some_iff] at htotal
    obtain ⟨cells, h₀, total₁, h₁, total₂, h₂, total₃, h₃, h₄⟩ := htotal
    obtain ⟨rfl, hle₀⟩ := addSize_some h₀ (Nat.zero_le _)
    obtain ⟨rfl, hle₁⟩ := addSize_some h₁ (by decide)
    obtain ⟨rfl, hle₂⟩ := addSize_some h₂ hle₁
    obtain ⟨rfl, hle₃⟩ := addSize_some h₃ hle₂
    obtain ⟨rfl, -⟩ := addSize_some h₄ hle₃
    rw [Nat.zero_add] at hle₀ ⊢
    exact ⟨by omega, by omega, hle₀, rfl⟩
  · cases h

/-- The arrays lie in the storage, one behind the other. -/
structure TerminalLayout.Within (l : TerminalLayout) (columns rows storage storageSize : ℕ) :
    Prop where
  start : storage ≤ l.dirtyFirst
  dirtyLast : l.dirtyFirst + rows * sizeofUint32 ≤ l.dirtyLast
  primaryCells : l.dirtyLast + rows * sizeofUint32 ≤ l.primaryCells
  alternateCells : l.primaryCells + rows * columns * sizeofTextCell ≤ l.alternateCells
  echoLine : l.alternateCells + rows * columns * sizeofTextCell ≤ l.echoLine
  stop : l.echoLine + columns * 4 ≤ storage + storageSize

theorem bindLayout_spec {l : TerminalLayout}
    (h : bindLayout columns rows storage storageSize = some l) :
    l.Within columns rows storage storageSize ∧ 0 < columns ∧ 0 < rows ∧
      rows * columns ≤ sizeMax := by
  unfold bindLayout at h
  cases hsize : astraTerminalStorageSize columns rows with
  | error status => simp [hsize] at h
  | ok bytes =>
    obtain ⟨hcolumns, hrows, hcells, hbytes⟩ := storageSize_spec hsize
    simp only [hsize] at h
    generalize (storage + astraTerminalStorageAlignment - 1) % 2 ^ 32 /
      astraTerminalStorageAlignment * astraTerminalStorageAlignment = aligned at h
    split_ifs at h with hstart hroom
    cases h
    rw [not_or, Nat.not_lt] at hstart
    refine ⟨⟨hstart.2, le_rfl, le_rfl, le_rfl, le_rfl, ?_⟩, hcolumns, hrows, hcells⟩
    dsimp only [sizeofUint32] at hbytes ⊢
    omega

theorem bindStorage_spec {b : AstraTerminal} (h : t.bindStorage columns rows storage storageSize =
    some b) : 0 < columns ∧ 0 < rows ∧ columns < 2 ^ 32 ∧ rows < 2 ^ 32 ∧ b = { t with
      dirtyFirst := List.replicate rows 0
      dirtyLast := List.replicate rows 0
      primaryCells := List.replicate (rows * columns) default
      alternateCells := List.replicate (rows * columns) default
      cells := .primary
      echoLine := List.replicate (columns * 4) 0
      capacityColumns := columns
      capacityRows := rows } := by
  unfold AstraTerminal.bindStorage at h
  cases hl : bindLayout columns rows storage storageSize with
  | none => simp [hl] at h
  | some l =>
    obtain ⟨-, hcolumns, hrows, hcells⟩ := bindLayout_spec hl
    simp only [hl, Option.bind_eq_bind, Option.bind_some, Option.some.injEq] at h
    have h₁ := Nat.le_mul_of_pos_left columns hrows
    have h₂ := Nat.le_mul_of_pos_right rows hcolumns
    have hmax : sizeMax < 2 ^ 32 := by decide
    exact ⟨hcolumns, hrows, (h₁.trans hcells).trans_lt hmax, (h₂.trans hcells).trans_lt hmax, h.symm⟩

variable {old : AstraTerminal} {o : Option AstraTerminal} {capacityColumns capacityRows : ℕ}

theorem shaped_replicate (hcolumns : 0 < columns)
    (hrows : 0 < rows) (hle : columns ≤ capacityColumns) (hle' : rows ≤ capacityRows)
    (hlt : capacityColumns < 2 ^ 32) (hlt' : capacityRows < 2 ^ 32) :
    StorageShape (List.replicate (capacityRows * capacityColumns) (default : AstraTextCell)).length
      (List.replicate (capacityRows * capacityColumns) (default : AstraTextCell)).length
      (List.replicate capacityRows 0).length (List.replicate capacityRows 0).length
      (List.replicate (capacityColumns * 4) (0 : UInt8)).length capacityColumns capacityRows columns
      rows := by
  simp only [length_replicate]
  exact ⟨rfl, rfl, rfl, rfl, rfl, hcolumns, hle, hlt, hrows, hle', hlt'⟩

/-! ## Setting up -/

theorem fresh_sound (hcolumns : 0 < columns) (hrows : 0 < rows)
    (hle : columns ≤ capacityColumns) (hle' : rows ≤ capacityRows)
    (hlt : capacityColumns < 2 ^ 32) (hlt' : capacityRows < 2 ^ 32) (render : Bool) :
    TerminalSound { AstraTerminal.fresh columns rows render with
      dirtyFirst := List.replicate capacityRows 0
      dirtyLast := List.replicate capacityRows 0
      primaryCells := List.replicate (capacityRows * capacityColumns) default
      alternateCells := List.replicate (capacityRows * capacityColumns) default
      cells := .primary
      echoLine := List.replicate (capacityColumns * 4) 0
      capacityColumns := capacityColumns
      capacityRows := capacityRows } := by
  refine ⟨shaped_replicate hcolumns hrows hle hle' hlt hlt', ?_, ?_, ⟨hrows, Nat.zero_le _,
    Nat.zero_le _, ?_⟩, ⟨rfl, Nat.zero_le _, nofun⟩, echoSound_zero _⟩
  · -- the record of a new terminal is taken to be that of its first column
    intro row first last _ _ hl _
    rw [List.getElem?_replicate] at hl
    split_ifs at hl
    cases hl
    exact hcolumns
  · exact ⟨Nat.zero_le _, fun hne => (hne rfl).elim, fun ho => (ho.1 rfl).elim⟩
  · change sub32 rows 1 < rows
    rw [sub32_of_le hrows]
    omega

theorem astraTerminalInitCapacity_spec {render : Bool}
    (h : astraTerminalInitCapacity columns rows capacityColumns
      capacityRows storage storageSize render = .ok o) :
    Yields o fun t => TerminalSound t ∧ t.render = render ∧ AllDirty t := by
  unfold astraTerminalInitCapacity at h
  split_ifs at h with hbad
  cases hb : (AstraTerminal.fresh columns rows render).bindStorage capacityColumns capacityRows
      storage storageSize with
  | none => simp [hb] at h
  | some b =>
    obtain ⟨-, -, hlt, hlt', rfl⟩ := bindStorage_spec hb
    simp only [hb, Except.ok.injEq] at h
    rw [← h]
    have hs := fresh_sound (show 0 < columns by omega) (show 0 < rows by omega) (by omega)
      (by omega) hlt hlt' render
    refine (clear_spec hs).bind fun t₁ ⟨h₁, _⟩ => ?_
    have hother := h₁.sound.select .alternate t₁.alternateScreen
    refine (clear_spec hother.sound).bind fun t₂ ⟨h₂, _⟩ => ?_
    have hback := h₂.sound.select .primary t₂.alternateScreen
    refine (clear_spec hback.sound).mono fun t₃ ⟨h₃, hall⟩ => ⟨h₃.sound, ?_, hall⟩
    exact h₃.render.trans (h₂.render.trans h₁.render)

/-! ## Cells out of view -/

def AstraTerminal.Sized (t : AstraTerminal) : Prop :=
  t.primaryCells.length = t.capacityRows * t.capacityColumns ∧
    t.alternateCells.length = t.capacityRows * t.capacityColumns

theorem TerminalShaped.sized (h : TerminalShaped t) : t.Sized :=
  ⟨h.primary_length, h.alternate_length⟩

theorem Drawn.sized (h : Drawn t t') (hs : t.Sized) : t'.Sized := by
  obtain ⟨p, a, f, l, hp, ha, -, -, rfl⟩ := h
  exact ⟨hp.trans hs.1, ha.trans hs.2⟩

theorem Drawn.capacity (h : Drawn t t') : t'.capacityRows = t.capacityRows ∧
    t'.capacityColumns = t.capacityColumns := by
  obtain ⟨p, a, f, l, -, -, -, -, rfl⟩ := h
  exact ⟨rfl, rfl⟩

theorem storeCell_within (h : t.Sized) {row column : ℕ} (hr : row < t.capacityRows)
    (hc : column < t.capacityColumns) (value : AstraTextCell) :
    Yields (t.storeCell row column value) (Drawn t) := by
  have hlen : t.active.length = t.capacityRows * t.capacityColumns := by
    unfold AstraTerminal.active
    cases t.cells
    · exact h.1
    · exact h.2
  have hlt : t.cell row column < t.active.length := by
    have := Nat.mul_le_mul_right t.capacityColumns (show row + 1 ≤ t.capacityRows from hr)
    rw [Nat.succ_mul] at this
    rw [hlen]
    unfold AstraTerminal.cell
    omega
  exact ⟨_, if_pos hlt, drawn_withActive (by simp)⟩

theorem drawn_rows {first last right : ℕ} {l : AstraTerminal → ℕ}
    {f : ℕ → ℕ → AstraTerminal → Option AstraTerminal} (h : t.Sized) (hr : last ≤ t.capacityRows) (hc : right ≤ t.capacityColumns)
    (hstep : ∀ row column t', row < last → column < right → t'.Sized → row < t'.capacityRows →
      column < t'.capacityColumns → Yields (f row column t') (Drawn t')) :
    Yields (forUp first last (fun row t =>
      forUp (l t) right (fun column t => f row column t) t) t) (Drawn t) := by
  refine yields_forUp_const (.refl t) fun row t₁ _ hlt h₁ => ?_
  refine yields_forUp_const h₁ fun column t₂ _ hlt' h₂ => ?_
  refine (hstep row column t₂ hlt hlt' (h₂.sized h) ?_ ?_).mono fun t₃ => h₂.trans
  · rw [h₂.capacity.1]
    omega
  · rw [h₂.capacity.2]
    omega

theorem uncover_spec (h : t.Sized) (hc : columns ≤ t.capacityColumns) (hr : rows ≤ t.capacityRows)
    (screen : TerminalScreen) :
    Yields (t.uncover columns rows screen) (Drawn (t.selectScreen screen)) := by
  have hblank : ∀ row column t', row < rows → column < columns → t'.Sized → row < t'.capacityRows →
      column < t'.capacityColumns → Yields (t'.storeCell row column t'.blankCell) (Drawn t') :=
    fun row column t' _ _ hs hr' hc' => storeCell_within hs hr' hc' _
  have hcolumns : Yields ((t.selectScreen screen).uncoverColumns columns rows)
      (Drawn (t.selectScreen screen)) := by
    refine Yields.ite (fun _ => ?_) fun _ => Yields.done (.refl _)
    exact drawn_rows (t := t.selectScreen screen) (l := AstraTerminal.columns) h
      ((Nat.min_le_right _ _).trans hr) hc
      fun row column t' hlt => hblank row column t' (hlt.trans_le (Nat.min_le_right _ _))
  refine hcolumns.bind fun t₁ h₁ => ?_
  refine Yields.ite (fun _ => ?_) fun _ => Yields.done h₁
  refine (drawn_rows (l := fun _ => 0) (h₁.sized h) ?_ ?_ hblank).mono fun t₂ => h₁.trans
  · rw [h₁.capacity.1]
    exact hr
  · rw [h₁.capacity.2]
    exact hc

/-! ## Resizing -/

structure Resizable (t : AstraTerminal) (columns rows : ℕ) : Prop where
  shaped : TerminalShaped { t with columns := columns, rows := rows }
  csi : CsiBounds t.csiParameters t.csiParameterCount t.parserState
  echo : EchoSound t.echoLine t.echoLength t.echoColumns

theorem resized_spec (h : Resizable t columns rows) : Yields (t.resized columns rows) fun t' =>
    TerminalSound t' ∧ AllDirty t' ∧ t'.render = t.render ∧ t'.columns = columns ∧
      t'.rows = rows := by
  have hrows : 0 < rows := h.shaped.rows_pos
  have hcolumns : 0 < columns := h.shaped.columns_pos
  have hcursor : CursorBounds rows columns (if t.cursorRow ≥ rows then rows - 1 else t.cursorRow)
      (if t.cursorColumn ≥ columns then columns - 1 else t.cursorColumn) 0 (rows - 1) :=
    ⟨by split_ifs <;> omega, by split_ifs <;> omega, Nat.zero_le _, by omega⟩
  unfold AstraTerminal.resized
  rw [sub32_of_le hrows, sub32_of_le hcolumns]
  refine (markAll_spec ?_).bind fun t₁ ⟨hd, hdirty, hall⟩ => Yields.done ?_
  · exact h.shaped
  have hsh := hd.shaped h.shaped
  obtain ⟨p, a, f, l, -, -, -, -, rfl⟩ := hd
  exact ⟨⟨hsh, hdirty, ⟨Nat.zero_le _, fun hne => (hne rfl).elim, fun ho => (ho.1 rfl).elim⟩,
    hcursor, h.csi, h.echo⟩, hall, rfl, rfl, rfl⟩

theorem copyScreen_spec (h : t.Sized) (hold : TerminalShaped old)
    (hc : columns ≤ t.capacityColumns) (hr : rows ≤ t.capacityRows) (screen : TerminalScreen) :
    Yields (t.copyScreen old columns rows screen) (Drawn (t.selectScreen screen)) := by
  have hshaped : TerminalShaped (old.selectScreen screen) := hold
  refine (drawn_rows (t := t.selectScreen screen) (l := fun _ => 0)
    (f := fun row column t => t.storeCell row column t.blankCell) h hr hc ?_).bind
    fun t₁ h₁ => ?_
  · exact fun row column t' _ _ hs hr' hc' => storeCell_within hs hr' hc' _
  refine (drawn_rows (l := fun _ => 0) (h₁.sized h) ?_ ?_ fun row column t' hlt hlt' hs hr' hc' =>
    ?_).mono fun t₂ => h₁.trans
  · rw [h₁.capacity.1]
    exact (Nat.min_le_right _ _).trans hr
  · rw [h₁.capacity.2]
    exact (Nat.min_le_right _ _).trans hc
  · refine (hshaped.loadCell (lt_of_lt_of_le hlt (Nat.min_le_left _ _))
      (lt_of_lt_of_le hlt' (Nat.min_le_left _ _))).bind fun v _ => storeCell_within hs hr' hc' v

theorem copyEcho_spec {n : ℕ} (hold : n ≤ old.echoLine.length) (hnew : n ≤ t.echoLine.length) :
    Yields (forUp 0 n (fun index t => t.copyEcho old index) t) fun t' => ∃ line : List UInt8,
      line.length = t.echoLine.length ∧ line.take n = old.echoLine.take n ∧
        t' = { t with echoLine := line } := by
  refine yields_forUp (P := fun i t' => ∃ line : List UInt8, line.length = t.echoLine.length ∧
    line.take i = old.echoLine.take i ∧ t' = { t with echoLine := line }) (Nat.zero_le _)
    ⟨t.echoLine, rfl, rfl, rfl⟩ fun i t' _ hi ht' => ?_
  obtain ⟨line, hlen, htake, rfl⟩ := ht'
  unfold AstraTerminal.copyEcho
  rw [List.getElem?_eq_getElem (show i < old.echoLine.length by omega), Option.bind_eq_bind,
    Option.bind_some]
  dsimp only
  rw [if_pos (show i < line.length by omega)]
  refine Yields.done ⟨_, by rw [length_set, hlen], ?_, rfl⟩
  rw [take_succ_eq_append_getElem (by rw [length_set]; omega),
    take_succ_eq_append_getElem (by omega), take_set_of_le le_rfl, htake,
    getElem_set_self]

theorem enlarge_spec (h : TerminalSound t)
    (ho : t.enlarge columns rows storage storageSize = some o) :
    Yields o fun t' => Resizable t' columns rows ∧ t'.render = t.render := by
  unfold AstraTerminal.enlarge at ho
  cases hb : t.bindStorage columns rows storage storageSize with
  | none => simp [hb] at ho
  | some b =>
    obtain ⟨hcolumns, hrows, hlt, hlt', rfl⟩ := bindStorage_spec hb
    simp only [hb, Option.some.injEq] at ho
    rw [← ho]
    have hshape := shaped_replicate hcolumns hrows le_rfl le_rfl hlt hlt'
    refine (copyScreen_spec ?_ h.shaped le_rfl le_rfl
      .primary).bind fun r₁ h₁ => ?_
    · exact ⟨hshape.primary_length, hshape.alternate_length⟩
    refine (copyScreen_spec (h₁.sized ⟨hshape.primary_length,
      hshape.alternate_length⟩) h.shaped h₁.capacity.2.ge h₁.capacity.1.ge .alternate).bind
      fun r₂ h₂ => ?_
    obtain ⟨p₁, a₁, f₁, l₁, hp₁, ha₁, hf₁, hl₁, rfl⟩ := h₁
    obtain ⟨p₂, a₂, f₂, l₂, hp₂, ha₂, hf₂, hl₂, rfl⟩ := h₂
    have hshape₂ : ∀ line : List UInt8, line.length = columns * 4 → StorageShape p₂.length a₂.length
        f₂.length l₂.length line.length columns rows columns rows := fun line hline => by
      rw [hp₂.trans hp₁, ha₂.trans ha₁, hf₂.trans hf₁, hl₂.trans hl₁, hline]
      exact length_replicate (n := columns * 4) (a := (0 : UInt8)) ▸ hshape
    have hlen := h.echo.length_le
    have hcolumns' := h.echo.length_le_columns
    dsimp only [AstraTerminal.selectScreen]
    by_cases hwide : t.echoColumns > columns
    · simp only [hwide, if_true]
      refine (copyEcho_spec (Nat.zero_le _) (Nat.zero_le _)).mono ?_
      rintro r ⟨line, hline, -, rfl⟩
      exact ⟨⟨hshape₂ line (hline.trans length_replicate), h.csi, echoSound_zero line⟩, rfl⟩
    · simp only [hwide, if_false]
      refine (copyEcho_spec hlen ?_).mono ?_
      · rw [length_replicate]
        omega
      rintro r ⟨line, hline, htake, rfl⟩
      have hroom := hline.trans length_replicate
      obtain ⟨scalars, hn, hspelled⟩ := h.echo.spelled
      exact ⟨⟨hshape₂ line hroom, h.csi, ⟨show t.echoLength ≤ line.length by omega, scalars, hn,
        htake.trans hspelled⟩⟩, rfl⟩

theorem astraTerminalResize_spec (h : TerminalSound t) (columns rows storage storageSize : ℕ) :
    Yields (astraTerminalResize t columns rows storage storageSize) fun r =>
      (r.1 = .ok → TerminalSound r.2 ∧ AllDirty r.2 ∧ r.2.render = t.render) ∧
        (r.1 ≠ .ok → r.2 = t) := by
  refine Yields.ite (fun _ => Yields.done ⟨nofun, fun _ => rfl⟩) fun hpos => ?_
  refine Yields.ite (fun _ => ?_) fun hfit => ?_
  · cases hlarger : t.enlarge columns rows storage storageSize with
    | none => exact Yields.done ⟨nofun, fun _ => rfl⟩
    | some o =>
      refine (enlarge_spec h hlarger).bind fun r₁ ⟨h₁, hrender⟩ => ?_
      refine (resized_spec h₁).bind fun r₂ ⟨h₂, hall, hrender₂, _⟩ => Yields.done
        ⟨fun _ => ⟨h₂, hall, hrender₂.trans hrender⟩, fun hne => (hne rfl).elim⟩
  · have hsized := h.shaped.sized
    have hc : columns ≤ t.capacityColumns := by omega
    have hr : rows ≤ t.capacityRows := by omega
    refine (uncover_spec hsized hc hr .primary).bind fun r₁ h₁ => ?_
    refine (uncover_spec (h₁.sized hsized) (hc.trans h₁.capacity.2.ge) (hr.trans h₁.capacity.1.ge)
      .alternate).bind fun r₂ h₂ => ?_
    obtain ⟨p₁, a₁, f₁, l₁, hp₁, ha₁, hf₁, hl₁, rfl⟩ := h₁
    obtain ⟨p₂, a₂, f₂, l₂, hp₂, ha₂, hf₂, hl₂, rfl⟩ := h₂
    refine (resized_spec ?_).bind fun r₃ ⟨h₃, hall, hrender, _⟩ => Yields.done
      ⟨fun _ => ⟨h₃, hall, hrender⟩, fun hne => (hne rfl).elim⟩
    exact ⟨⟨(hp₂.trans hp₁).trans hsized.1, (ha₂.trans ha₁).trans hsized.2,
      (hf₂.trans hf₁).trans h.shaped.first_length, (hl₂.trans hl₁).trans h.shaped.last_length,
      h.shaped.echo_length, show 0 < columns by omega, hc, h.shaped.columns_lt,
      show 0 < rows by omega, hr, h.shaped.rows_lt⟩, h.csi, h.echo⟩

end Astra
