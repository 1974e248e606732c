import AstraKernel.Proofs.TerminalCells

/-!
# Scrolling and what the display is owed

A scroll of the whole screen by one row is not drawn at once: it is counted, and the flush has the
display moved up by that many rows before it draws what is recorded as changed. `Matches D` says
that the cells not recorded as changed are what the display `D` shows once it has been moved.
-/

namespace Astra

variable {t t' t'' : AstraTerminal} {row column : ℕ} {c c' : Prop}

/-- What is on the display, by row and column. -/
abbrev TerminalDisplay : Type := ℕ → ℕ → AstraTextCell

/-- The flush will have the display moved. -/
def AstraTerminal.Owes (t : AstraTerminal) : Prop :=
  t.pendingScrolls ≠ 0 ∧ t.scrollRedrawFrom ≠ 0

instance : DecidablePred AstraTerminal.Owes := fun _ => inferInstanceAs (Decidable (_ ∧ _))

def AstraTerminal.moved (t : AstraTerminal) (D : TerminalDisplay) : TerminalDisplay :=
  fun row column => if t.Owes then D (row + t.pendingScrolls) column else D row column

def Matches (D : TerminalDisplay) (t : AstraTerminal) : Prop :=
  ∀ row column, row < t.rows → column < t.columns → ¬t.Dirty row column →
    t.loadCell row column = some (t.moved D row column)

structure Debt (pending redraw rows columns : ℕ) (dirty : ℕ → ℕ → Prop) : Prop where
  pending_le : pending ≤ rows
  redrawn : pending ≠ 0 → ∀ row column, redraw ≤ row → row < rows → column < columns →
    dirty row column
  covered : pending ≠ 0 ∧ redraw ≠ 0 → redraw + pending ≤ rows

abbrev DebtSound (t : AstraTerminal) : Prop :=
  Debt t.pendingScrolls t.scrollRedrawFrom t.rows t.columns t.Dirty

def AllDirty (t : AstraTerminal) : Prop :=
  ∀ row column, row < t.rows → column < t.columns → t.Dirty row column

theorem AllDirty.matches_any (h : AllDirty t) (D : TerminalDisplay) : Matches D t :=
  fun row column hr hc hn => absurd (h row column hr hc) hn

theorem Paints.matched (h : Paints t t') {D : TerminalDisplay} (hm : Matches D t) :
    Matches D t' := by
  have hp : t'.moved D = t.moved D := by
    obtain ⟨p, a, f, l, -, -, -, -, rfl⟩ := h.drawn
    rfl
  intro row column hr hc hn
  rw [h.drawn.rows] at hr
  rw [h.drawn.columns] at hc
  rw [h.clean row column hr hc hn, hp]
  exact hm row column hr hc fun hd => hn (h.keeps row column hr hc hd)

theorem Paints.debt (h : Paints t t') (hd : DebtSound t) : DebtSound t' := by
  have hkeeps := h.keeps
  obtain ⟨p, a, f, l, hp, ha, hf, hl, rfl⟩ := h.drawn
  exact ⟨hd.pending_le, fun hne row column hle hr hc =>
    hkeeps row column hr hc (hd.redrawn hne row column hle hr hc), hd.covered⟩

/-! ## The first row that has changed -/

structure FirstDirty (t : AstraTerminal) (start row : ℕ) : Prop where
  start_le : start ≤ row
  le : row ≤ t.rows
  clean : ∀ r column, start ≤ r → r < row → ¬t.Dirty r column
  dirty : row < t.rows → ∃ column, t.Dirty row column

theorem firstDirtyFrom_spec (h : TerminalShaped t) : ∀ (n start : ℕ), start + n = t.rows →
    Yields (t.firstDirtyFrom n start) (FirstDirty t start)
  | 0, start, hn => Yields.done ⟨by omega, le_rfl, fun r _ hs hr => by omega, fun hr => by omega⟩
  | n + 1, start, hn => by
    obtain ⟨first, last, hf, hl⟩ := h.dirty (show start < t.rows by omega)
    unfold AstraTerminal.firstDirtyFrom
    rw [hf, hl]
    refine Yields.ite (fun hle => ?_) fun hgt => ?_
    · exact Yields.done ⟨le_rfl, by omega, fun r _ hs hr => by omega,
        fun _ => ⟨first, first, last, hf, hl, le_rfl, hle⟩⟩
    · refine (firstDirtyFrom_spec h n (start + 1) (by omega)).mono fun row hrow => ?_
      refine ⟨by have := hrow.start_le; omega, hrow.le, fun r column hs hr => ?_, hrow.dirty⟩
      rcases Nat.eq_or_lt_of_le hs with rfl | hlt
      · rintro ⟨f, l, hf', hl', hrange⟩
        rw [hf] at hf'
        rw [hl] at hl'
        cases hf'
        cases hl'
        omega
      · exact hrow.clean r column hlt hr

theorem firstDirtyRow_spec (h : TerminalShaped t) : Yields t.firstDirtyRow (FirstDirty t 0) :=
  firstDirtyFrom_spec h t.rows 0 (Nat.zero_add _)

theorem clearDamage_spec (h : TerminalShaped t) : Yields t.clearDamage fun t' => Drawn t t' ∧
    DirtySound t' ∧ ∀ row column, t'.loadCell row column = t.loadCell row column := by
  refine (yields_forUp (P := fun i t' => Drawn t t' ∧
    (∀ row column, t'.loadCell row column = t.loadCell row column) ∧
    ∀ row < i, t'.dirtyFirst[row]? = some 1 ∧ t'.dirtyLast[row]? = some 0) (Nat.zero_le _)
    ⟨.refl t, fun _ _ => rfl, fun _ hlt => absurd hlt (Nat.not_lt_zero _)⟩
    fun i t' _ hi ht' => ?_).mono fun t' ht' => ⟨ht'.1, ?_, ht'.2.1⟩
  · obtain ⟨hd, hcells, hclear⟩ := ht'
    have hsh := hd.shaped h
    have hi' : i < t'.capacityRows := by
      have := hsh.rows_le
      rw [hd.rows] at this
      omega
    refine ⟨_, if_pos ⟨by rwa [hsh.first_length], by rwa [hsh.last_length]⟩,
      hd.trans ⟨_, _, _, _, rfl, rfl, List.length_set, List.length_set, rfl⟩, hcells,
      fun r hr => ?_⟩
    rcases Nat.lt_succ_iff_lt_or_eq.1 hr with hlt | rfl
    · rw [List.getElem?_set_ne hlt.ne', List.getElem?_set_ne hlt.ne']
      exact hclear r hlt
    · exact ⟨List.getElem?_set_self (by rwa [hsh.first_length]),
        List.getElem?_set_self (by rwa [hsh.last_length])⟩
  · intro row first last hr hf hl hle
    rw [ht'.1.rows] at hr
    obtain ⟨hf', hl'⟩ := ht'.2.2 row hr
    rw [hf] at hf'
    rw [hl] at hl'
    cases hf'
    cases hl'
    omega

/-! ## A scroll of the whole screen -/

def Rolled (t t' : AstraTerminal) : Prop :=
  ∃ (u : AstraTerminal) (pending redraw scrolls : ℕ) (outputs : List TerminalOutput),
    Drawn t u ∧ t' = { u with
      pendingScrolls := pending, scrollRedrawFrom := redraw, scrolls := scrolls,
      outputs := outputs }

theorem Drawn.rolled (h : Drawn t t') : Rolled t t' := ⟨t', _, _, _, _, h, rfl⟩

theorem Rolled.trans (h : Rolled t t') (h' : Rolled t' t'') : Rolled t t'' := by
  obtain ⟨u, pending, redraw, scrolls, outputs, hu, rfl⟩ := h
  obtain ⟨u', pending', redraw', scrolls', outputs', hu', rfl⟩ := h'
  obtain ⟨p, a, f, l, hp, ha, hf, hl, rfl⟩ := hu'
  exact ⟨{ u with primaryCells := p, alternateCells := a, dirtyFirst := f, dirtyLast := l },
    pending', redraw', scrolls', outputs', hu.trans ⟨p, a, f, l, hp, ha, hf, hl, rfl⟩, rfl⟩

theorem Rolled.shaped (h : Rolled t t') (ht : TerminalShaped t) : TerminalShaped t' := by
  obtain ⟨u, pending, redraw, scrolls, outputs, hu, rfl⟩ := h
  exact hu.shaped ht

/-- What a function has done to the screen: nothing is lost that the display needs, as long as the
condition holds. -/
structure Shifts (c : Prop) (t t' : AstraTerminal) : Prop where
  rolled : Rolled t t'
  dirty : DirtySound t'
  debt : DebtSound t'
  matched : c → ∀ D, Matches D t → Matches D t'

theorem Shifts.trans (h : Shifts c t t') (h' : Shifts c' t' t'') :
    Shifts (c ∧ c') t t'' :=
  ⟨h.rolled.trans h'.rolled, h'.dirty, h'.debt,
    fun hc D hm => h'.matched hc.2 D (h.matched hc.1 D hm)⟩

theorem Shifts.mono (h : Shifts c t t') (hc : c' → c) : Shifts c' t t' :=
  ⟨h.rolled, h.dirty, h.debt, fun hc' => h.matched (hc hc')⟩

theorem Paints.shifts (h : Paints t t') (hd : DebtSound t) : Shifts True t t' :=
  ⟨h.drawn.rolled, h.sound, h.debt hd, fun _ _ => h.matched⟩

theorem copyUp_spec (h : TerminalShaped t) :
    Yields (forUp 1 t.rows (fun row t =>
      forUp 0 t.columns (fun column t => t.copyCell (row - 1) column row column) t) t) fun t' =>
      Writes (fun _ _ => True) t t' ∧ ∀ row column, row + 1 < t.rows → column < t.columns →
        t'.loadCell row column = t.loadCell (row + 1) column := by
  refine (yields_forUp (P := fun i t' => Writes (fun _ _ => True) t t' ∧
    ∀ row column, row < t.rows → column < t.columns → t'.loadCell row column =
      if row + 1 < i then t.loadCell (row + 1) column else t.loadCell row column) h.rows_pos
    ⟨.refl t, fun row column _ _ => by rw [if_neg (by omega)]⟩ fun i t' hi hlt ht' => ?_).mono
    fun t' ht' => ⟨ht'.1, fun row column hr hc => by
      rw [ht'.2 row column (by omega) hc, if_pos hr]⟩
  obtain ⟨hw, hcells⟩ := ht'
  have hd := hw.drawn
  refine (copyRow_spec (hd.shaped h) (show i - 1 < t'.rows by rw [hd.rows]; omega)
    (show i < t'.rows by rwa [hd.rows])).mono fun t'' ht'' => ?_
  refine ⟨hw.trans (ht''.1.mono fun _ _ _ => trivial), fun row column hr hc => ?_⟩
  by_cases he : row = i - 1
  · subst he
    rw [ht''.2 (by omega) column (by rwa [hd.columns]), hcells i column hlt hc, if_neg (by omega),
      if_pos (by omega), show i - 1 + 1 = i by omega]
  · rw [ht''.1.keeps row column (by rwa [hd.rows]) (by rwa [hd.columns]) he,
      hcells row column hr hc]
    by_cases hlt' : row + 1 < i
    · rw [if_pos hlt', if_pos (by omega)]
    · rw [if_neg hlt', if_neg (by omega)]

def AstraTerminal.withDebt (t : AstraTerminal) (pending redraw : ℕ) : AstraTerminal :=
  { t with pendingScrolls := pending, scrollRedrawFrom := redraw }

theorem rolled_withDebt (t : AstraTerminal) (pending redraw : ℕ) :
    Rolled t (t.withDebt pending redraw) := ⟨t, _, _, _, _, .refl t, rfl⟩

theorem rolled_scrolls (t : AstraTerminal) (scrolls : ℕ) :
    Rolled t { t with scrolls := scrolls } := ⟨t, _, _, _, _, .refl t, rfl⟩

theorem oweScroll_eq (hb : t.pendingScrolls ≤ t.rows) {dirty : ℕ} (hd : dirty ≤ t.rows)
    (hpos : 0 < t.rows) : ∃ pending redraw, t.oweScroll dirty = t.withDebt pending redraw ∧
      pending ≤ t.rows ∧ redraw ≤ t.rows ∧ (redraw = 0 ∨ (pending = t.pendingScrolls + 1 ∧
        pending < t.rows ∧ redraw + 1 ≤ dirty ∧ redraw + 1 ≤ t.rows)) := by
  unfold AstraTerminal.oweScroll AstraTerminal.withDebt
  dsimp only
  rw [sub32_of_le (by split_ifs <;> exact hpos)]
  by_cases hlt : t.pendingScrolls < t.rows
  · simp only [if_pos hlt]
    refine ⟨t.pendingScrolls + 1, _, rfl, hlt, ?_, ?_⟩
    · split_ifs <;> omega
    · split_ifs <;> omega
  · simp only [if_neg hlt]
    refine ⟨t.pendingScrolls, _, rfl, hb, ?_, .inl ?_⟩
    · split_ifs <;> omega
    · rw [if_pos (.inl (by omega))]

theorem redraw_spec {redraw : ℕ} (h : TerminalShaped t) (hle : redraw ≤ t.rows)
    (hredraw : t.scrollRedrawFrom = redraw) :
    Yields (t.clearDamage >>= fun t => t.markRows t.scrollRedrawFrom t.rows) fun t' =>
      Drawn t t' ∧ DirtySound t' ∧
        (∀ row column, t'.loadCell row column = t.loadCell row column) ∧
        ∀ row column, redraw ≤ row → row < t.rows → column < t.columns → t'.Dirty row column := by
  refine (clearDamage_spec h).bind fun t₁ ⟨hd, hsound, hcells⟩ => ?_
  have hfrom : t₁.scrollRedrawFrom = redraw := by
    rw [← hredraw]
    obtain ⟨p, a, f, l, -, -, -, -, rfl⟩ := hd
    rfl
  rw [hfrom]
  refine (markRows_spec (hd.shaped h) hsound (by rwa [hd.rows]) le_rfl).mono fun t₂ hm => ?_
  refine ⟨hd.trans hm.drawn, hm.sound, fun row column => (hm.cells row column).trans
    (hcells row column), fun row column hle' hr hc => ?_⟩
  exact hm.region row column (by rwa [hd.rows]) (by rwa [hd.columns])
    ⟨hle', by rwa [hd.rows]⟩

theorem scrollFullOne_spec (h : TerminalShaped t) (hd : DirtySound t) (hb : DebtSound t) :
    Yields t.scrollFullOne (Shifts True t) := by
  have hpos := h.rows_pos
  have hcol := h.columns_pos
  refine (firstDirtyRow_spec h).bind fun dirty hdirty => ?_
  refine (copyUp_spec h).bind fun t₁ ⟨hw₁, hshift⟩ => ?_
  have hsh₁ := hw₁.drawn.shaped h
  have hrows₁ := hw₁.drawn.rows
  rw [sub32_of_le (show 1 ≤ t₁.rows by omega)]
  refine (blankRow_spec hsh₁ (show t₁.rows - 1 < t₁.rows by omega)).bind fun t₂ hw₂ => ?_
  have hd₂ := hw₁.drawn.trans hw₂.drawn
  have hsh₂ := hd₂.shaped h
  have hrows₂ := hd₂.rows
  have hcolumns₂ := hd₂.columns
  have hcells₂ : ∀ row column, row + 1 < t.rows → column < t.columns →
      t₂.loadCell row column = t.loadCell (row + 1) column := by
    intro row column hr hc
    have hcolumns₁ := hw₁.drawn.columns
    rw [hw₂.keeps row column (by omega) (by omega) (by omega), hshift row column hr hc]
  have hpending₂ : t₂.pendingScrolls = t.pendingScrolls ∧
      t₂.scrollRedrawFrom = t.scrollRedrawFrom := by
    obtain ⟨p, a, f, l, -, -, -, -, rfl⟩ := hd₂
    exact ⟨rfl, rfl⟩
  have hsound₂ : DirtySound t₂ := hw₂.sound (hw₁.sound hd)
  cases hs : t₂.scroll
  · -- nothing is moved on the display: every row is drawn
    rw [if_neg nofun]
    refine (markRows_spec hsh₂ hsound₂ (Nat.zero_le _) le_rfl).bind fun t₃ hm => Yields.done ?_
    have hd₃ := hd₂.trans hm.drawn
    have hall : AllDirty t₃ := fun row column hr hc => by
      rw [hm.drawn.rows] at hr
      rw [hm.drawn.columns] at hc
      exact hm.region row column hr hc ⟨Nat.zero_le _, hr⟩
    have hpend : t₃.pendingScrolls = t.pendingScrolls ∧
        t₃.scrollRedrawFrom = t.scrollRedrawFrom := by
      obtain ⟨p, a, f, l, -, -, -, -, rfl⟩ := hd₃
      exact ⟨rfl, rfl⟩
    refine ⟨hd₃.rolled.trans (rolled_scrolls t₃ _), hm.sound, ⟨?_, ?_, ?_⟩,
      fun _ D _ => hall.matches_any D⟩
    · exact (hpend.1.trans_le hb.pending_le).trans_eq hd₃.rows.symm
    · exact fun _ row column _ => hall row column
    · rintro ⟨hp, hr⟩
      have := hb.covered ⟨by rwa [← hpend.1], by rwa [← hpend.2]⟩
      have hrows := hd₃.rows
      change t₃.scrollRedrawFrom + t₃.pendingScrolls ≤ t₃.rows
      omega
  · rw [if_pos rfl]
    obtain ⟨pending, redraw, heq, hple, hrle, hcases⟩ := oweScroll_eq (t := t₂)
      (by rw [hpending₂.1, hrows₂]; exact hb.pending_le) (hdirty.le.trans_eq hrows₂.symm)
      (by omega)
    rw [heq]
    refine (redraw_spec ((rolled_withDebt t₂ pending redraw).shaped hsh₂) hrle rfl).bind₂
      fun t₃ ⟨hd₃, hsound₃, hcells₃, hregion⟩ => Yields.done ?_
    have hrows₃ : t₃.rows = t.rows := hd₃.rows.trans hrows₂
    have hcolumns₃ : t₃.columns = t.columns := hd₃.columns.trans hcolumns₂
    have hpend : t₃.pendingScrolls = pending ∧ t₃.scrollRedrawFrom = redraw := by
      obtain ⟨p, a, f, l, -, -, -, -, rfl⟩ := hd₃
      exact ⟨rfl, rfl⟩
    -- while something is owed, no row from where the flush draws to the last was clean
    have hroom : redraw ≠ 0 → redraw + pending ≤ t.rows ∧
        t.moved = fun D row column => D (row + t.pendingScrolls) column := by
      intro hne
      obtain ⟨rfl, hplt, hrd, hrr⟩ := hcases.resolve_left hne
      have hnone : t.pendingScrolls ≠ 0 → t.scrollRedrawFrom ≠ 0 := by
        intro hp hz
        have hzero := hb.redrawn hp 0 0 (by omega) hpos hcol
        exact hdirty.clean 0 0 le_rfl (by omega) hzero
      constructor
      · by_cases hp : t.pendingScrolls = 0
        · omega
        · have hcov := hb.covered ⟨hp, hnone hp⟩
          have hfirst : dirty ≤ t.scrollRedrawFrom := by
            by_contra hgt
            exact hdirty.clean t.scrollRedrawFrom 0 (Nat.zero_le _) (by omega)
              (hb.redrawn hp _ 0 le_rfl (by omega) hcol)
          omega
      · funext D row column
        unfold AstraTerminal.moved
        by_cases hp : t.pendingScrolls = 0
        · rw [if_neg fun ho => ho.1 hp, hp, Nat.add_zero]
        · rw [if_pos ⟨hp, hnone hp⟩]
    refine ⟨(hd₂.rolled.trans (rolled_withDebt t₂ pending redraw)).trans
      (hd₃.rolled.trans (rolled_scrolls t₃ _)), hsound₃, ⟨?_, ?_, ?_⟩, fun _ D hm => ?_⟩
    · change t₃.pendingScrolls ≤ t₃.rows
      omega
    · intro _ row column hle hr hc
      exact hregion row column (hpend.2.ge.trans hle) (hr.trans_eq hd₃.rows)
        (hc.trans_eq hd₃.columns)
    · rintro ⟨hp, hr⟩
      have := (hroom (by rwa [← hpend.2])).1
      change t₃.scrollRedrawFrom + t₃.pendingScrolls ≤ t₃.rows
      omega
    · intro row column hr hc hn
      change row < t₃.rows at hr
      change column < t₃.columns at hc
      have hlt : row < redraw := by
        by_contra hge
        exact hn (hregion row column (by omega) (hr.trans_eq hd₃.rows) (hc.trans_eq hd₃.columns))
      obtain ⟨hfit, hmoved⟩ := hroom (by omega)
      obtain ⟨hpe, hplt, hrd, hrr⟩ := hcases.resolve_left (by omega)
      have hold := hm (row + 1) column (by omega) (by omega)
        (hdirty.clean (row + 1) column (Nat.zero_le _) (by omega))
      have howes : t₃.Owes := ⟨by omega, by omega⟩
      change t₃.loadCell row column = some (if t₃.Owes then D (row + t₃.pendingScrolls) column
        else D row column)
      rw [if_pos howes, hcells₃]
      change t₂.loadCell row column = _
      rw [hcells₂ row column (by omega) (by omega), hold, hmoved]
      dsimp only
      rw [hpend.1, hpe, hpending₂.1, show row + 1 + t.pendingScrolls =
        row + (t.pendingScrolls + 1) by omega]

/-! ## A scroll of some rows -/

theorem moved_of_not_owes (h : ¬t.Owes) (D : TerminalDisplay) : t.moved D = D := by
  funext row column
  exact if_neg h

theorem forgive_shifts (hd : DirtySound t) :
    Shifts (¬t.Owes) t { t with pendingScrolls := 0 } := by
  refine ⟨rolled_withDebt t 0 t.scrollRedrawFrom, hd, ⟨Nat.zero_le _, fun hne => (hne rfl).elim,
    fun ho => (ho.1 rfl).elim⟩, fun hno D hm => ?_⟩
  intro row column hr hc hn
  rw [moved_of_not_owes (fun ho => ho.1 rfl)]
  rw [show D row column = t.moved D row column by rw [moved_of_not_owes hno]]
  exact hm row column hr hc hn

theorem Paints.allDirty (h : Paints { t with pendingScrolls := 0 } t') (hd : DirtySound t)
    (hall : c → AllDirty t') : Shifts (t.Owes → c) t t' := by
  have hforgive := forgive_shifts hd
  have hpaint := h.shifts hforgive.debt
  refine ⟨hforgive.rolled.trans hpaint.rolled, hpaint.dirty, hpaint.debt, fun hc D hm => ?_⟩
  by_cases ho : t.Owes
  · exact (hall (hc ho)).matches_any D
  · exact hpaint.matched trivial D (hforgive.matched ho D hm)

variable {bottom top : ℕ}

theorem region_shifts (h : TerminalShaped t) (hd : DirtySound t)
    (hle : top ≤ bottom) (hb : bottom < t.rows)
    (hw : Writes (fun r _ => top ≤ r ∧ r ≤ bottom) { t with pendingScrolls := 0 } t') :
    Yields (t'.markRows top (bottom + 1)) fun t'' =>
      Shifts (t.Owes → top = 0 ∧ bottom + 1 = t.rows) t t'' ∧ t''.pendingScrolls = 0 := by
  have hsh : TerminalShaped { t with pendingScrolls := 0 } :=
    (rolled_withDebt t 0 t.scrollRedrawFrom).shaped h
  have hrows : t'.rows = t.rows := hw.drawn.rows
  refine (markRows_spec (hw.drawn.shaped hsh) (hw.sound hd) (by omega)
    (by omega)).mono fun t'' hm => ?_
  have hpaint := hw.marked hm fun r c _ _ hr => ⟨hr.1, by omega⟩
  refine ⟨hpaint.allDirty hd fun hwhole row column hr hc => ?_, by
    obtain ⟨p, a, f, l, -, -, -, -, rfl⟩ := hpaint.drawn
    rfl⟩
  rw [hm.drawn.rows] at hr
  rw [hm.drawn.columns] at hc
  exact hm.region row column hr hc ⟨by omega, by omega⟩

theorem blankRows_spec {first last : ℕ} (h : TerminalShaped t) (hlast : last ≤ t.rows) :
    Yields (forUp first last (fun row t => t.blankRow row) t)
      (Writes (fun r _ => first ≤ r ∧ r < last) t) :=
  writes_forUp h fun i t' hi hlt ht' hdr =>
    (blankRow_spec ht' (by rw [hdr.rows]; omega)).mono fun t'' hw => hw.mono fun r c hr => by omega

theorem copyRow_writes {row' : ℕ} (h : TerminalShaped t) (hr : row < t.rows) (hr' : row' < t.rows) :
    Yields (forUp 0 t.columns (fun column t => t.copyCell row column row' column) t)
      (Writes (fun r _ => r = row) t) := (copyRow_spec h hr hr').mono fun _ ht' => ht'.1

theorem Shifts.scrolled (h : Shifts c t t') (scrolls : ℕ) :
    Shifts c t { t' with scrolls := scrolls } :=
  ⟨h.rolled.trans (rolled_scrolls t' scrolls), h.dirty, h.debt, h.matched⟩

theorem emitHistoryRows_spec (h : TerminalShaped t) {count : ℕ} (hc : count ≤ bottom - top + 1) :
    Yields (t.emitHistoryRows top bottom count) fun t' =>
      ∃ outputs, t' = { t with outputs := outputs } := by
  refine Yields.ite (fun hwhole => ?_) fun _ => Yields.done ⟨t.outputs, rfl⟩
  refine yields_forUp_const ⟨t.outputs, rfl⟩ fun row t' _ hlt ⟨outputs, ht'⟩ => ?_
  subst ht'
  have hrun := h.cell_run (show row < t.rows by omega) (show 0 + t.columns ≤ t.columns by omega)
  refine Yields.bind (P := fun _ => True) ⟨_, if_pos hrun, trivial⟩ fun cells _ => ?_
  exact Yields.done ⟨_, rfl⟩

theorem scrollUp_spec (count : ℕ) (h : TerminalShaped t) (hd : DirtySound t)
    (hb : DebtSound t) (hle : top ≤ bottom) (hbottom : bottom < t.rows) :
    Yields (t.scrollUp top bottom count) fun t' =>
      Shifts (t.Owes → top = 0 ∧ bottom + 1 = t.rows) t t' ∧
        (¬(top = 0 ∧ bottom + 1 = t.rows) → t'.pendingScrolls = 0) := by
  unfold AstraTerminal.scrollUp
  rw [sub32_of_le hle]
  dsimp only
  generalize hn : (if count > bottom - top + 1 then bottom - top + 1 else count) = n
  have hnle : n ≤ bottom - top + 1 := by
    rw [← hn]
    split_ifs <;> omega
  refine (emitHistoryRows_spec h hnle).bind fun t₁ ⟨outputs, ht₁⟩ => ?_
  have hrolled : Rolled t { t with outputs := outputs } := ⟨t, _, _, _, _, .refl t, rfl⟩
  have hsh := hrolled.shaped h
  have hsame : Shifts True t { t with outputs := outputs } :=
    ⟨hrolled, hd, hb, fun _ D hm => hm⟩
  subst ht₁
  refine Yields.ite (fun hone => ?_) fun _ => ?_
  · refine (scrollFullOne_spec hsh hd hsame.debt).mono fun t' ht' => ?_
    exact ⟨(hsame.trans ht').mono fun _ => ⟨trivial, trivial⟩,
      fun hn => absurd ⟨hone.1, hone.2.1⟩ hn⟩
  · have hpend := (rolled_withDebt { t with outputs := outputs } 0 t.scrollRedrawFrom).shaped hsh
    refine (writes_forUp (R := fun r _ => top ≤ r ∧ r ≤ bottom) hpend
      fun row t' hi hlt ht' hdr => ?_).bind fun t₂ hw₂ => ?_
    · have hrows : t'.rows = t.rows := hdr.rows
      refine (copyRow_writes ht' (by omega) (by omega)).mono
        fun t'' hw => hw.mono fun r c hr => by omega
    · have hrows : t₂.rows = t.rows := hw₂.drawn.rows
      refine (blankRows_spec (hw₂.drawn.shaped hpend) (by omega)).bind fun t₃ hw₃ => ?_
      have hw := hw₂.trans (hw₃.mono fun r c hr => by omega)
      refine (region_shifts hsh hd hle hbottom hw).bind fun t₄ ⟨ht₄, hzero⟩ => Yields.done ?_
      exact ⟨((hsame.trans ht₄).mono fun hc => ⟨trivial, hc⟩).scrolled _, fun _ => hzero⟩

theorem scrollDown_spec (count : ℕ) (h : TerminalShaped t) (hd : DirtySound t)
    (hle : top ≤ bottom) (hbottom : bottom < t.rows) :
    Yields (t.scrollDown top bottom count)
      (Shifts (t.Owes → top = 0 ∧ bottom + 1 = t.rows) t) := by
  unfold AstraTerminal.scrollDown
  rw [sub32_of_le hle]
  generalize hn : (if count > bottom - top + 1 then bottom - top + 1 else count) = n
  have hnle : n ≤ bottom - top + 1 := by
    rw [← hn]
    split_ifs <;> omega
  have hpend := (rolled_withDebt t 0 t.scrollRedrawFrom).shaped h
  refine (writes_forDown (R := fun r _ => top ≤ r ∧ r ≤ bottom) hpend
    fun row t' hi hlt ht' hdr => ?_).bind fun t₂ hw₂ => ?_
  · have hrows : t'.rows = t.rows := hdr.rows
    refine (copyRow_writes ht' (by omega) (by omega)).mono
      fun t'' hw => hw.mono fun r c hr => by omega
  · have hrows : t₂.rows = t.rows := hw₂.drawn.rows
    refine (blankRows_spec (hw₂.drawn.shaped hpend) (by omega)).bind fun t₃ hw₃ => ?_
    exact (region_shifts h hd hle hbottom (hw₂.trans (hw₃.mono fun r c hr => by omega))).mono
      fun t' ht' => ht'.1

end Astra
