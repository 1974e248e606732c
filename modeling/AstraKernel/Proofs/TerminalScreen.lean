import AstraKernel.Proofs.TerminalScroll
import AstraKernel.Proofs.Utf8

/-!
# The screen stays within its bounds

`TerminalSound` is what holds between any two bytes. A function of the screen keeps it, and keeps
what the display is owed as long as its condition holds (`Acts`).
-/

namespace Astra

open List

variable {t t' t'' : AstraTerminal} {row column count : ℕ} {c c' : Prop} {R R' : ℕ → ℕ → Prop}

structure CursorBounds (rows columns row column top bottom : ℕ) : Prop where
  row_lt : row < rows
  column_le : column ≤ columns
  top_le : top ≤ bottom
  bottom_lt : bottom < rows

structure CsiBounds (parameters : List ℕ) (count : ℕ) (state : TerminalParser) : Prop where
  length : parameters.length = astraTerminalCsiParameters
  count_le : count ≤ astraTerminalCsiParameters
  pos : state = .csi → 0 < count

structure EchoSound (line : List UInt8) (length columns : ℕ) : Prop where
  length_le : length ≤ line.length
  spelled : ∃ scalars : List UInt32, scalars.length = columns ∧
    line.take length = (scalars.map astraUtf8Encode).flatten

structure TerminalSound (t : AstraTerminal) : Prop where
  shaped : TerminalShaped t
  dirty : DirtySound t
  debt : DebtSound t
  cursor : CursorBounds t.rows t.columns t.cursorRow t.cursorColumn t.scrollTop t.scrollBottom
  csi : CsiBounds t.csiParameters t.csiParameterCount t.parserState
  echo : EchoSound t.echoLine t.echoLength t.echoColumns

/-- What a byte does to a terminal: it stays in bounds, and the display loses nothing as long as
the condition holds. -/
structure Keeps (c : Prop) (t t' : AstraTerminal) : Prop where
  sound : TerminalSound t'
  columns : t'.columns = t.columns
  rows : t'.rows = t.rows
  render : t'.render = t.render
  scroll : t'.scroll = t.scroll
  matched : c → ∀ D, Matches D t → Matches D t'

structure Acts (c : Prop) (t t' : AstraTerminal) : Prop extends Keeps c t t' where
  parserState : t'.parserState = t.parserState
  utf8Remaining : t'.utf8Remaining = t.utf8Remaining
  scrollTop : t'.scrollTop = t.scrollTop
  scrollBottom : t'.scrollBottom = t.scrollBottom

theorem Keeps.trans (h : Keeps c t t') (h' : Keeps c' t' t'') : Keeps (c ∧ c') t t'' :=
  ⟨h'.sound, h'.columns.trans h.columns, h'.rows.trans h.rows, h'.render.trans h.render,
    h'.scroll.trans h.scroll, fun hc D hm => h'.matched hc.2 D (h.matched hc.1 D hm)⟩

theorem Keeps.mono (h : Keeps c t t') (hc : c' → c) : Keeps c' t t' :=
  ⟨h.sound, h.columns, h.rows, h.render, h.scroll, fun hc' => h.matched (hc hc')⟩

theorem Acts.trans (h : Acts c t t') (h' : Acts c' t' t'') : Acts (c ∧ c') t t'' :=
  ⟨h.toKeeps.trans h'.toKeeps, h'.parserState.trans h.parserState,
    h'.utf8Remaining.trans h.utf8Remaining, h'.scrollTop.trans h.scrollTop,
    h'.scrollBottom.trans h.scrollBottom⟩

theorem Acts.mono (h : Acts c t t') (hc : c' → c) : Acts c' t t' :=
  ⟨h.toKeeps.mono hc, h.parserState, h.utf8Remaining, h.scrollTop, h.scrollBottom⟩

theorem Acts.refl (h : TerminalSound t) : Acts True t t :=
  ⟨⟨h, rfl, rfl, rfl, rfl, fun _ _ hm => hm⟩, rfl, rfl, rfl, rfl⟩

theorem Shifts.acts (h : Shifts c t t') (ht : TerminalSound t) : Acts c t t' ∧
    t'.cursorRow = t.cursorRow ∧ t'.cursorColumn = t.cursorColumn := by
  have hsh := h.rolled.shaped ht.shaped
  have hdirty := h.dirty
  have hdebt := h.debt
  have hmatched := h.matched
  obtain ⟨u, pending, redraw, scrolls, outputs, ⟨p, a, f, l, -, -, -, -, rfl⟩, rfl⟩ := h.rolled
  exact ⟨⟨⟨⟨hsh, hdirty, hdebt, ht.cursor, ht.csi, ht.echo⟩, rfl, rfl, rfl, rfl, hmatched⟩, rfl, rfl,
    rfl, rfl⟩, rfl, rfl⟩

theorem Paints.acts (h : Paints t t') (ht : TerminalSound t) : Acts True t t' ∧
    t'.cursorRow = t.cursorRow ∧ t'.cursorColumn = t.cursorColumn :=
  (h.shifts ht.debt).acts ht

section

variable (h : TerminalSound t)
include h

theorem TerminalSound.moveCursor (hr : row < t.rows) (hc : column ≤ t.columns) :
    Acts True t { t with cursorRow := row, cursorColumn := column } :=
  ⟨⟨⟨h.shaped, h.dirty, h.debt, ⟨hr, hc, h.cursor.top_le, h.cursor.bottom_lt⟩, h.csi, h.echo⟩,
    rfl, rfl, rfl, rfl, fun _ _ hm => hm⟩, rfl, rfl, rfl, rfl⟩

theorem cursorTo_acts (row column : ℕ) : Acts True t (t.cursorTo row column) := by
  have hr := h.shaped.rows_pos
  have hc := h.shaped.columns_pos
  unfold AstraTerminal.cursorTo
  rw [sub32_of_le hr, sub32_of_le hc]
  exact h.moveCursor (by split_ifs <;> omega) (by split_ifs <;> omega)

theorem saveCursor_acts : Acts True t t.saveCursor :=
  ⟨⟨⟨h.shaped, h.dirty, h.debt, h.cursor, h.csi, h.echo⟩, rfl, rfl, rfl, rfl, fun _ _ hm => hm⟩,
    rfl, rfl, rfl, rfl⟩

/-! ## Lines -/

/-- The scroll region is the whole screen. -/
def AstraTerminal.WholeRegion (t : AstraTerminal) : Prop :=
  t.scrollTop = 0 ∧ t.scrollBottom + 1 = t.rows

/-- The row that a new line is counted from. -/
def AstraTerminal.lineRow (t : AstraTerminal) (row : ℕ) : ℕ :=
  if row < t.scrollTop then t.scrollTop else row

/-- A new line from the row scrolls nothing, or the whole screen. -/
def AstraTerminal.LineSafe (t : AstraTerminal) (row : ℕ) : Prop :=
  t.lineRow row = t.scrollBottom → t.WholeRegion

/-- The row of the new line. -/
def AstraTerminal.nextRow (t : AstraTerminal) (row : ℕ) : ℕ :=
  if t.lineRow row < t.scrollBottom then t.lineRow row + 1 else t.lineRow row

structure Lands (t t' : AstraTerminal) (row column : ℕ) : Prop where
  cursorRow : t'.cursorRow = row
  cursorColumn : t'.cursorColumn = column
  owes : ¬t.WholeRegion → t'.Owes → t.Owes

theorem newline_spec : Yields t.newline fun t' =>
    Acts (t.Owes → t.LineSafe t.cursorRow) t t' ∧ Lands t t' (t.nextRow t.cursorRow) 0 := by
  obtain ⟨hrow, hcolumn, htop, hbottom⟩ := h.cursor
  set row := t.lineRow t.cursorRow with hlineRow
  have hline : row < t.rows := by
    rw [hlineRow]
    unfold AstraTerminal.lineRow
    split_ifs <;> omega
  have hmove := h.moveCursor hline (Nat.zero_le t.columns)
  have heq : t.newline = if row < t.scrollBottom then
      some { t with cursorRow := row + 1, cursorColumn := 0 }
      else if row = t.scrollBottom then
        { t with cursorRow := row, cursorColumn := 0 }.scrollUp t.scrollTop t.scrollBottom 1
      else some { t with cursorRow := row, cursorColumn := 0 } := by
    rw [hlineRow]
    unfold AstraTerminal.newline AstraTerminal.lineRow
    by_cases hlt : t.cursorRow < t.scrollTop <;> simp only [hlt, if_true, if_false]
  rw [heq]
  unfold AstraTerminal.nextRow
  rw [← hlineRow]
  by_cases hlt : row < t.scrollBottom
  · rw [if_pos hlt, if_pos hlt]
    exact Yields.done ⟨(h.moveCursor (show row + 1 < t.rows by omega)
      (Nat.zero_le _)).mono fun _ => trivial, rfl, rfl, fun _ ho => ho⟩
  · rw [if_neg hlt, if_neg hlt]
    refine Yields.ite (fun hat => ?_) fun _ =>
      Yields.done ⟨hmove.mono fun _ => trivial, rfl, rfl, fun _ ho => ho⟩
    refine (scrollUp_spec 1 hmove.sound.shaped hmove.sound.dirty hmove.sound.debt htop
      hbottom).mono fun t' ⟨ht', hpart⟩ => ?_
    obtain ⟨hacts, hr, hc⟩ := ht'.acts hmove.sound
    exact ⟨(hmove.trans hacts).mono fun hc => ⟨trivial, fun ho => hc ho hat⟩, hr, hc,
      fun hn ho => (ho.1 (hpart hn)).elim⟩

theorem reverseIndex_spec : Yields t.reverseIndex
    (Acts (t.Owes → t.cursorRow = t.scrollTop → t.WholeRegion) t) := by
  obtain ⟨hrow, hcolumn, htop, hbottom⟩ := h.cursor
  refine Yields.ite (fun hat => ?_) fun _ => Yields.ite (fun _ => ?_) fun _ => ?_
  · refine (scrollDown_spec 1 h.shaped h.dirty htop hbottom).mono fun t' ht' => ?_
    exact (ht'.acts h).1.mono fun hc ho => hc ho hat
  · exact Yields.done ((h.moveCursor (by omega) hcolumn).mono fun _ => trivial)
  · exact Yields.done ((Acts.refl h).mono fun _ => trivial)

end

/-! ## Erasing -/

theorem eraseRows_spec (h : TerminalShaped t) (hd : DirtySound t) {first last : ℕ}
    (hlast : last ≤ t.rows) :
    Yields (forUp first last (fun row t => t.eraseCells row 0 (sub32 t.columns 1)) t)
      (Paints t) :=
  paints_forUp h hd fun _ _ _ hlt ht' hd' hdr =>
    eraseCells_spec ht' hd' (by rw [hdr.rows]; omega) fun _ => Nat.zero_le _

theorem eraseDisplay_spec (h : TerminalSound t) (mode : ℕ) :
    Yields (t.eraseDisplay mode) (Acts True t) := by
  have hrow := h.cursor.row_lt
  have hpos := h.shaped.columns_pos
  have hpaint : Yields (t.eraseDisplay mode) (Paints t) := by
    refine Yields.ite (fun _ => eraseRows_spec h.shaped h.dirty le_rfl) fun _ =>
      Yields.ite (fun _ => ?_) fun _ => ?_
    · refine (eraseRows_spec h.shaped h.dirty hrow.le).bind fun t₁ h₁ => ?_
      have hc₁ := (h₁.acts h).2
      rw [hc₁.1, hc₁.2]
      exact (eraseCells_spec (h₁.drawn.shaped h.shaped) h₁.sound (by rwa [h₁.drawn.rows])
        fun _ => Nat.zero_le _).mono fun t₂ h₂ => h₁.trans h₂
    · rw [sub32_of_le hpos]
      refine (eraseCells_spec h.shaped h.dirty hrow fun hlt => by omega).bind fun t₁ h₁ => ?_
      rw [(h₁.acts h).2.1]
      exact (eraseRows_spec (h₁.drawn.shaped h.shaped) h₁.sound le_rfl).mono
        fun t₂ h₂ => h₁.trans h₂
  exact hpaint.mono fun t' ht' => (ht'.acts h).1

theorem eraseLine_spec (h : TerminalSound t) (mode : ℕ) :
    Yields (t.eraseLine mode) (Acts True t) := by
  have hrow := h.cursor.row_lt
  have hpos := h.shaped.columns_pos
  have hpaint : Yields (t.eraseLine mode) (Paints t) := by
    unfold AstraTerminal.eraseLine
    rw [sub32_of_le hpos]
    exact Yields.ite (fun _ => eraseCells_spec h.shaped h.dirty hrow fun _ => Nat.zero_le _)
      fun _ => Yields.ite (fun _ => eraseCells_spec h.shaped h.dirty hrow fun _ => Nat.zero_le _)
      fun _ => eraseCells_spec h.shaped h.dirty hrow fun hlt => by omega
  exact hpaint.mono fun t' ht' => (ht'.acts h).1

theorem Writes.painted {t₁ t₂ t₃ : AstraTerminal} (h : Writes R t t₁) (h' : Paints t₁ t₂)
    (h'' : Marks R' t₂ t₃)
    (hR : ∀ row column, row < t.rows → column < t.columns → R row column → R' row column) :
    Paints t t₃ := by
  have hp := h'.trans h''.paints
  have hrow : ∀ {row}, row < t.rows → row < t₁.rows := fun hr => by rwa [h.drawn.rows]
  have hcolumn : ∀ {column}, column < t.columns → column < t₁.columns :=
    fun hc => by rwa [h.drawn.columns]
  refine ⟨h.drawn.trans hp.drawn, hp.sound, fun row column hr hc hd => ?_,
    fun row column hr hc hn => ?_⟩
  · exact hp.keeps row column (hrow hr) (hcolumn hc) (h.dirty.2 hd)
  · rw [hp.clean row column (hrow hr) (hcolumn hc) hn, h.keeps row column hr hc fun hx => hn ?_]
    exact h''.region row column (by rw [h'.drawn.rows]; exact hrow hr)
      (by rw [h'.drawn.columns]; exact hcolumn hc) (hR row column hr hc hx)

theorem insertCharacters_spec (h : TerminalSound t) (hpos : 0 < count) :
    Yields (t.insertCharacters count) (Acts True t) := by
  have hrow := h.cursor.row_lt
  have hcolumn := h.cursor.column_le
  have hcols := h.shaped.columns_pos
  unfold AstraTerminal.insertCharacters
  rw [sub32_of_le hcolumn]
  generalize hn : (if count > t.columns - t.cursorColumn then t.columns - t.cursorColumn
    else count) = n
  have hnle : n ≤ t.columns - t.cursorColumn ∧ (t.cursorColumn < t.columns → 0 < n) := by
    rw [← hn]
    split_ifs <;> omega
  refine (writes_forDown (R := fun r _ => r = t.cursorRow) h.shaped
    fun i t' hi hlt ht' hdr => ?_).bind fun t₁ h₁ => ?_
  · rw [show t'.cursorRow = t.cursorRow by
      obtain ⟨p, a, f, l, -, -, -, -, rfl⟩ := hdr
      rfl]
    refine (copyCell_spec ht' (by rwa [hdr.rows]) (by rwa [hdr.columns]) (by rwa [hdr.rows])
      (by rw [hdr.columns]; omega)).mono fun t'' hw => hw.1.mono fun r c hrc => hrc.1
  · have hcursor : t₁.cursorRow = t.cursorRow ∧ t₁.cursorColumn = t.cursorColumn := by
      obtain ⟨p, a, f, l, -, -, -, -, rfl⟩ := h₁.drawn
      exact ⟨rfl, rfl⟩
    have hsh₁ := h₁.drawn.shaped h.shaped
    have hrow₁ : t.cursorRow < t₁.rows := by rwa [h₁.drawn.rows]
    rw [hcursor.1, hcursor.2, sub32_of_le (by omega)]
    refine (eraseCells_spec hsh₁ (h₁.sound h.dirty) hrow₁ fun hlt => by
      rw [h₁.drawn.columns] at hlt
      omega).bind fun t₂ h₂ => ?_
    have hcursor₂ : t₂.cursorRow = t.cursorRow := by
      rw [← hcursor.1]
      obtain ⟨p, a, f, l, -, -, -, -, rfl⟩ := h₂.drawn
      rfl
    rw [hcursor₂]
    refine (markRow_spec (h₂.drawn.shaped hsh₁) h₂.sound (by rwa [h₂.drawn.rows])).mono
      fun t₃ h₃ => ?_
    exact ((h₁.painted h₂ h₃ fun _ _ _ _ hr => hr).acts h).1

theorem deleteCharacters_spec (h : TerminalSound t) :
    Yields (t.deleteCharacters count) (Acts True t) := by
  have hrow := h.cursor.row_lt
  have hcolumn := h.cursor.column_le
  have hcols := h.shaped.columns_pos
  unfold AstraTerminal.deleteCharacters
  rw [sub32_of_le hcolumn]
  generalize hn : (if count > t.columns - t.cursorColumn then t.columns - t.cursorColumn
    else count) = n
  have hnle : n ≤ t.columns - t.cursorColumn := by
    rw [← hn]
    split_ifs <;> omega
  refine (writes_forUp (R := fun r _ => r = t.cursorRow) h.shaped
    fun i t' hi hlt ht' hdr => ?_).bind fun t₁ h₁ => ?_
  · rw [show t'.cursorRow = t.cursorRow by
      obtain ⟨p, a, f, l, -, -, -, -, rfl⟩ := hdr
      rfl]
    refine (copyCell_spec ht' (by rwa [hdr.rows]) (by rw [hdr.columns]; omega) (by rwa [hdr.rows])
      (by rw [hdr.columns]; omega)).mono fun t'' hw => hw.1.mono fun r c hrc => hrc.1
  · have hcursor : t₁.cursorRow = t.cursorRow := by
      obtain ⟨p, a, f, l, -, -, -, -, rfl⟩ := h₁.drawn
      rfl
    have hsh₁ := h₁.drawn.shaped h.shaped
    rw [hcursor, h₁.drawn.columns, sub32_of_le (by omega), sub32_of_le hcols]
    refine (eraseCells_spec hsh₁ (h₁.sound h.dirty) (by rwa [h₁.drawn.rows]) fun hlt => by
      rw [h₁.drawn.columns] at hlt
      omega).bind fun t₂ h₂ => ?_
    have hcursor₂ : t₂.cursorRow = t.cursorRow := by
      rw [← hcursor]
      obtain ⟨p, a, f, l, -, -, -, -, rfl⟩ := h₂.drawn
      rfl
    rw [hcursor₂]
    refine (markRow_spec (h₂.drawn.shaped hsh₁) h₂.sound
      (by rwa [h₂.drawn.rows, h₁.drawn.rows])).mono fun t₃ h₃ => ?_
    exact ((h₁.painted h₂ h₃ fun _ _ _ _ hr => hr).acts h).1

/-! ## Whole screens -/

theorem markAll_spec (h : TerminalShaped t) : Yields (t.markRows 0 t.rows) fun t' =>
    Drawn t t' ∧ DirtySound t' ∧ AllDirty t' := by
  have hpos := h.columns_pos
  refine (yields_forUp (P := fun i t' => Drawn t t' ∧ ∀ row < i,
    t'.dirtyFirst[row]? = some 0 ∧ t'.dirtyLast[row]? = some (t.columns - 1)) (Nat.zero_le _)
    ⟨.refl t, fun _ hlt => absurd hlt (Nat.not_lt_zero _)⟩ fun i t' _ hi ht' => ?_).mono
    fun t' ht' => ⟨ht'.1, ?_, ?_⟩
  · obtain ⟨hd, hmarked⟩ := ht'
    have hsh := hd.shaped h
    have hi' : i < t'.capacityRows := by
      have := hsh.rows_le
      rw [hd.rows] at this
      omega
    unfold AstraTerminal.markRow
    rw [hd.columns, sub32_of_le hpos]
    refine ⟨_, if_pos ⟨by rwa [hsh.first_length], by rwa [hsh.last_length]⟩,
      hd.trans ⟨_, _, _, _, rfl, rfl, length_set, length_set, rfl⟩, fun r hr => ?_⟩
    rcases Nat.lt_succ_iff_lt_or_eq.1 hr with hlt | rfl
    · rw [List.getElem?_set_ne hlt.ne', List.getElem?_set_ne hlt.ne']
      exact hmarked r hlt
    · exact ⟨List.getElem?_set_self (by rwa [hsh.first_length]),
        List.getElem?_set_self (by rwa [hsh.last_length])⟩
  · intro row first last hr _ hl _
    rw [ht'.1.rows] at hr
    rw [(ht'.2 row hr).2] at hl
    cases hl
    rw [ht'.1.columns]
    omega
  · intro row column hr hc
    rw [ht'.1.rows] at hr
    rw [ht'.1.columns] at hc
    exact ⟨0, t.columns - 1, (ht'.2 row hr).1, (ht'.2 row hr).2, Nat.zero_le _, by omega⟩

theorem TerminalSound.afresh (h : TerminalSound t) (hd : Drawn t t') (hdirty : DirtySound t')
    (hall : AllDirty t') : Acts True t { t' with pendingScrolls := 0 } := by
  have hsh := hd.shaped h.shaped
  obtain ⟨p, a, f, l, -, -, -, -, rfl⟩ := hd
  exact ⟨⟨⟨hsh, hdirty, ⟨Nat.zero_le _, fun hne => (hne rfl).elim, fun ho => (ho.1 rfl).elim⟩,
    h.cursor, h.csi, h.echo⟩, rfl, rfl, rfl, rfl,
    fun _ _ _ row column hr hc hn => absurd (hall row column hr hc) hn⟩, rfl, rfl, rfl, rfl⟩

theorem Acts.redrawn (h : Acts c t t') (hall : AllDirty t') :
    Acts True t { t' with pendingScrolls := 0 } :=
  ⟨⟨⟨h.sound.shaped, h.sound.dirty, ⟨Nat.zero_le _, fun hne => (hne rfl).elim,
    fun ho => (ho.1 rfl).elim⟩, h.sound.cursor, h.sound.csi, h.sound.echo⟩, h.columns, h.rows,
    h.render, h.scroll, fun _ _ _ row column hr hc hn => absurd (hall row column hr hc) hn⟩,
    h.parserState, h.utf8Remaining, h.scrollTop, h.scrollBottom⟩

section

variable (h : TerminalSound t)
include h

theorem clear_spec : Yields t.clear fun t' => Acts True t t' ∧ AllDirty t' := by
  refine (yields_forUp (P := fun i t' => Drawn t t' ∧ DirtySound t' ∧
    ∀ row column, row < i → column < t.columns → t'.Dirty row column) (Nat.zero_le _)
    ⟨.refl t, h.dirty, fun _ _ hlt => absurd hlt (Nat.not_lt_zero _)⟩
    fun i t' _ hi ⟨hd, hdirty, hmarked⟩ => ?_).bind fun t' ⟨hd, hdirty, hmarked⟩ => Yields.done ?_
  · have hsh := hd.shaped h.shaped
    refine (blankRow_spec hsh (by rwa [hd.rows])).bind fun t₁ h₁ => ?_
    refine (markRow_spec (h₁.drawn.shaped hsh) (h₁.sound hdirty)
      (by rwa [h₁.drawn.rows, hd.rows])).mono fun t₂ h₂ => ?_
    have hr₁ : t₁.rows = t.rows := h₁.drawn.rows.trans hd.rows
    have hc₁ : t₁.columns = t.columns := h₁.drawn.columns.trans hd.columns
    refine ⟨(hd.trans h₁.drawn).trans h₂.drawn, h₂.sound, fun row column hr hc => ?_⟩
    rcases Nat.lt_succ_iff_lt_or_eq.1 hr with hlt | rfl
    · exact h₂.keeps row column (by omega) (by omega) (h₁.dirty.2 (hmarked row column hlt hc))
    · exact h₂.region row column (by omega) (by omega) rfl
  · have hall : AllDirty t' := fun row column hr hc =>
      hmarked row column (by rwa [hd.rows] at hr) (by rwa [hd.columns] at hc)
    have hfresh := h.afresh hd hdirty hall
    exact ⟨(hfresh.trans (hfresh.sound.moveCursor hfresh.sound.shaped.rows_pos
      (Nat.zero_le _))).mono fun _ => ⟨trivial, trivial⟩, hall⟩

theorem TerminalSound.select (screen : TerminalScreen) (alternate : Bool) :
    Acts False t { t with cells := screen, alternateScreen := alternate } :=
  ⟨⟨⟨h.shaped, h.dirty, h.debt, h.cursor, h.csi, h.echo⟩, rfl, rfl, rfl, rfl, nofun⟩, rfl, rfl,
    rfl, rfl⟩

theorem switchScreen_spec (enabled : Bool) :
    Yields (t.switchScreen enabled) fun t' => Acts False t t' ∧ AllDirty t' := by
  unfold AstraTerminal.switchScreen
  cases enabled
  · rw [if_neg nofun]
    have hback := h.select .primary false
    have hto := cursorTo_acts hback.sound t.savedCursorRow t.savedCursorColumn
    refine (markAll_spec hto.sound.shaped).mono fun t' ⟨hd, hdirty, hall⟩ => ⟨?_, hall⟩
    have hpaint : Paints _ t' := ⟨hd, hdirty, fun row column hr hc _ =>
      hall row column (by rwa [hd.rows]) (by rwa [hd.columns]), fun row column hr hc hn =>
      absurd (hall row column (by rwa [hd.rows]) (by rwa [hd.columns])) hn⟩
    exact ((hback.trans hto).trans (hpaint.acts hto.sound).1).mono nofun
  · rw [if_pos rfl]
    have hsaved := saveCursor_acts h
    have hout := hsaved.sound.select .alternate true
    refine (clear_spec hout.sound).mono fun t' ⟨hclear, hall⟩ => ⟨?_, hall⟩
    exact ((hsaved.trans hout).trans hclear).mono nofun

theorem alternate_spec (enabled : Bool) : Yields (t.alternate enabled) (Acts True t) := by
  refine Yields.ite (fun _ => Yields.done (.refl h)) fun _ => ?_
  refine (switchScreen_spec h enabled).bind fun t' ⟨hacts, hall⟩ => Yields.done ?_
  exact hacts.redrawn hall

end

/-! ## The encoder -/

theorem toNat_lead {base rest : UInt32} {a : ℕ} (k : ℕ) (hbase : base.toNat = 2 ^ k * a)
    (hrest : rest.toNat < 2 ^ k) (hlt : 2 ^ k * a + 2 ^ k ≤ 256) :
    (lowByte (base ||| rest)).toNat = 2 ^ k * a + rest.toNat := by
  have hor := toNat_or k hbase hrest
  unfold lowByte
  rw [UInt32.toNat_toUInt8, hor]
  omega

theorem toNat_continuation (word : UInt32) :
    (continuation word).toNat = 2 ^ 6 * 2 + word.toNat % 2 ^ 6 := by
  have hrest : (word &&& 0x3f).toNat = word.toNat % 2 ^ 6 := by
    rw [UInt32.toNat_and]
    exact Nat.and_two_pow_sub_one_eq_mod word.toNat 6
  unfold continuation
  rw [toNat_lead (a := 2) 6 rfl (by rw [hrest]; omega) (by decide), hrest]

theorem not_isValidChar_iff (scalar : UInt32) : ¬scalar.isValidChar ↔
    scalar > 0x10ffff ∨ (scalar ≥ 0xd800 ∧ scalar ≤ 0xdfff) := by
  simp only [UInt32.isValidChar, Nat.isValidChar, gt_iff_lt, ge_iff_le, UInt32.lt_iff_toNat_lt,
    UInt32.le_iff_toNat_le, UInt32.reduceToNat]
  omega

theorem astraUtf8Encode_char (c : Char) : astraUtf8Encode c.val = String.utf8EncodeChar c := by
  have hv : c.val.toNat < 0xd800 ∨ (0xdfff < c.val.toNat ∧ c.val.toNat < 0x110000) := c.valid
  have hbyte : ∀ {b : UInt8} {n m : ℕ}, b.toNat = n → n = m → b = UInt8.ofNat m := by
    rintro b n m rfl rfl
    exact UInt8.ofNat_toNat.symm
  unfold astraUtf8Encode String.utf8EncodeChar
  rw [if_neg ((not_isValidChar_iff _).not.1 (not_not.2 c.valid))]
  dsimp only
  generalize c.val = s at hv
  have hshift : ∀ k : UInt32, k.toNat < 32 → (s >>> k).toNat = s.toNat / 2 ^ k.toNat := by
    intro k hk
    rw [UInt32.toNat_shiftRight, Nat.mod_eq_of_lt hk, Nat.shiftRight_eq_div_pow]
  have h6 : (s >>> 6).toNat = s.toNat / 64 := hshift 6 (by decide)
  have h12 : (s >>> 12).toNat = s.toNat / 4096 := hshift 12 (by decide)
  have h18 : (s >>> 18).toNat = s.toNat / 262144 := hshift 18 (by decide)
  have hnext := toNat_continuation
  simp only [UInt32.le_iff_toNat_le, UInt32.reduceToNat]
  split_ifs with h₁ h₂ h₃ <;> simp only [cons.injEq, and_true]
  · exact hbyte (UInt32.toNat_toUInt8 s) (by omega)
  · exact ⟨hbyte (toNat_lead (a := 6) 5 rfl (by omega) (by decide)) (by omega),
      hbyte (hnext _) (by omega)⟩
  · exact ⟨hbyte (toNat_lead (a := 14) 4 rfl (by omega) (by decide)) (by omega),
      hbyte (hnext _) (by omega), hbyte (hnext _) (by omega)⟩
  · exact ⟨hbyte (toNat_lead (a := 30) 3 rfl (by omega) (by decide)) (by omega),
      hbyte (hnext _) (by omega), hbyte (hnext _) (by omega), hbyte (hnext _) (by omega)⟩

theorem astraUtf8Encode_cases (scalar : UInt32) : ∃ c : Char,
    c.val = (if scalar.isValidChar then scalar else astraUtf8Replacement) ∧
      astraUtf8Encode scalar = String.utf8EncodeChar c := by
  split_ifs with hvalid
  · exact ⟨⟨scalar, hvalid⟩, rfl, astraUtf8Encode_char ⟨scalar, hvalid⟩⟩
  · refine ⟨⟨astraUtf8Replacement, by decide⟩, rfl, Eq.trans ?_ (astraUtf8Encode_char _)⟩
    unfold astraUtf8Encode
    rw [if_pos ((not_isValidChar_iff scalar).1 hvalid)]
    rfl

theorem astraUtf8Encode_spec (scalar : UInt32) : ∃ first rest,
    astraUtf8Encode scalar = first :: rest ∧ continues first = false ∧
      (∀ b ∈ rest, continues b = true) ∧ rest.length ≤ 3 := by
  obtain ⟨c, -, he⟩ := astraUtf8Encode_cases scalar
  have hs := spelled_char c []
  rw [append_nil, ← he] at hs
  generalize astraUtf8Encode scalar = bytes at hs
  generalize hw : bytes.length = w at hs
  generalize c.val.toNat = v at hs
  simp only [← Bool.not_eq_true, continues_iff]
  cases hs with
  | one h0 =>
    obtain rfl : _ = [] := by simpa using hw
    exact ⟨_, [], rfl, by omega, nofun, Nat.zero_le _⟩
  | two h0 h1 =>
    obtain rfl : _ = [] := by simpa using hw
    exact ⟨_, [_], rfl, by omega, by simp [h1], by simp⟩
  | three h0 h1 h2 =>
    obtain rfl : _ = [] := by simpa using hw
    exact ⟨_, [_, _], rfl, by omega, by simp [h1, h2], by simp⟩
  | four h0 h1 h2 h3 =>
    obtain rfl : _ = [] := by simpa using hw
    exact ⟨_, [_, _, _], rfl, by omega, by simp [h1, h2, h3], by simp⟩

/-- A scalar that is written is read back, and another value is read as the replacement; what is
written for any values is text that the validator takes, unless one of them is NUL. -/
theorem utf8_round_trip : (∀ (scalar : UInt32) (rest : List UInt8),
      astraUtf8Decode (astraUtf8Encode scalar ++ rest) =
        (if scalar.isValidChar then scalar else astraUtf8Replacement,
          (astraUtf8Encode scalar).length)) ∧
    ∀ scalars : List UInt32,
      astraUtf8Validate (scalars.flatMap astraUtf8Encode) = true ↔ 0 ∉ scalars := by
  refine ⟨fun scalar rest => ?_, fun scalars => ?_⟩
  · obtain ⟨c, hc, he⟩ := astraUtf8Encode_cases scalar
    obtain ⟨hscalar, hwidth⟩ := (spelled_char c rest).decode
    rw [he, ← hc]
    exact Prod.ext (UInt32.toNat_inj.1 hscalar) hwidth
  have hnul : ∀ scalar, (0 : UInt8) ∈ astraUtf8Encode scalar ↔ 0 = scalar := by
    intro scalar
    obtain ⟨c, hc, he⟩ := astraUtf8Encode_cases scalar
    rw [he, nul_mem_encode, hc]
    split_ifs with hvalid
    · exact eq_comm
    · refine iff_of_false (by decide) ?_
      rintro rfl
      exact hvalid (by decide)
  have htext : Utf8 (scalars.flatMap astraUtf8Encode) := by
    induction scalars with
    | nil => exact utf8_nil
    | cons scalar scalars ih =>
      obtain ⟨c, -, he⟩ := astraUtf8Encode_cases scalar
      rw [flatMap_cons, he]
      exact Utf8.append ⟨[c], by simp⟩ ih
  simp [astraUtf8Validate_text, htext, hnul]

theorem length_encode_le (scalar : UInt32) : (astraUtf8Encode scalar).length ≤ 4 := by
  obtain ⟨first, rest, he, -, -, hlen⟩ := astraUtf8Encode_spec scalar
  rw [he]
  exact Nat.succ_le_succ hlen

theorem length_flatten_encode_le (scalars : List UInt32) :
    (scalars.map astraUtf8Encode).flatten.length ≤ 4 * scalars.length := by
  induction scalars with
  | nil => simp
  | cons scalar scalars ih =>
    have := length_encode_le scalar
    simp only [map_cons, flatten_cons, length_append, length_cons]
    omega

/-! ## The echo -/

variable {line : List UInt8} {columns length : ℕ}

theorem EchoSound.length_le_columns (h : EchoSound line length columns) : length ≤ 4 * columns := by
  obtain ⟨scalars, hn, hspelled⟩ := h.spelled
  have hlen := congrArg List.length hspelled
  rw [length_take, Nat.min_eq_left h.length_le] at hlen
  rw [hlen, ← hn]
  exact length_flatten_encode_le scalars

theorem echoSound_zero (line : List UInt8) : EchoSound line 0 0 := ⟨Nat.zero_le _, [], rfl, rfl⟩

theorem TerminalSound.withEcho (h : TerminalSound t)
    (hline : line.length = t.echoLine.length) (he : EchoSound line length columns)
    (carriage : Bool) (outputs : List TerminalOutput) :
    Acts True t { t with
      echoLine := line, echoLength := length, echoColumns := columns,
      echoCarriageReturn := carriage, outputs := outputs } := by
  have hsh := h.shaped
  unfold TerminalShaped at hsh
  rw [← hline] at hsh
  exact ⟨⟨⟨hsh, h.dirty, h.debt, h.cursor, h.csi, he⟩, rfl, rfl, rfl, rfl, fun _ _ hm => hm⟩, rfl,
    rfl, rfl, rfl⟩

structure Echoes (t t' : AstraTerminal) : Prop extends Acts True t t' where
  cursorRow : t'.cursorRow = t.cursorRow
  cursorColumn : t'.cursorColumn = t.cursorColumn
  pending : t'.pendingScrolls = t.pendingScrolls ∧ t'.scrollRedrawFrom = t.scrollRedrawFrom

theorem Echoes.trans (h : Echoes t t') (h' : Echoes t' t'') : Echoes t t'' :=
  ⟨(h.toActs.trans h'.toActs).mono fun _ => ⟨trivial, trivial⟩, h'.cursorRow.trans h.cursorRow,
    h'.cursorColumn.trans h.cursorColumn, h'.pending.1.trans h.pending.1,
    h'.pending.2.trans h.pending.2⟩

section

variable (h : TerminalSound t)
include h

theorem Echoes.refl : Echoes t t := ⟨.refl h, rfl, rfl, rfl, rfl⟩

theorem TerminalSound.echoes
    (hline : line.length = t.echoLine.length) (he : EchoSound line length columns)
    (carriage : Bool) (outputs : List TerminalOutput) :
    Echoes t { t with
      echoLine := line, echoLength := length, echoColumns := columns,
      echoCarriageReturn := carriage, outputs := outputs } :=
  ⟨h.withEcho hline he carriage outputs, rfl, rfl, rfl, rfl⟩

theorem echoFlush_spec : Yields t.echoFlush fun t' =>
    Echoes t t' ∧ t'.echoColumns = 0 := by
  refine Yields.ite (fun _ => ?_) fun _ => ?_
  · refine Yields.ite (fun _ => ?_) fun hgt => absurd h.echo.length_le hgt
    exact Yields.done ⟨h.echoes rfl (echoSound_zero _) false _, rfl⟩
  · exact Yields.done ⟨h.echoes rfl (echoSound_zero _) false t.outputs, rfl⟩

theorem echoRoom_spec : Yields t.echoRoom fun t' =>
    Echoes t t' ∧ t'.echoColumns < t'.columns := by
  have hstart : Echoes t (if t.echoCarriageReturn then
      { t with echoLength := 0, echoColumns := 0, echoCarriageReturn := false } else t) := by
    split_ifs
    · exact h.echoes rfl (echoSound_zero _) false t.outputs
    · exact .refl h
  refine Yields.ite (fun _ => ?_) fun hlt => Yields.done ⟨hstart, by omega⟩
  refine (echoFlush_spec hstart.sound).mono fun t' ht' => ⟨hstart.trans ht'.1, ?_⟩
  rw [ht'.2]
  exact ht'.1.sound.shaped.columns_pos

theorem echoScalar_spec (scalar : UInt32) : Yields (t.echoScalar scalar) (Echoes t) := by
  refine Yields.ite (fun _ => Yields.done (.refl h)) fun _ => ?_
  refine (echoRoom_spec h).bind fun t₁ ⟨h₁, hroom⟩ => ?_
  have hsh := h₁.sound.shaped
  have hlen := h₁.sound.echo.length_le_columns
  have hfour := length_encode_le scalar
  have hfit : t₁.echoLength + (astraUtf8Encode scalar).length ≤ t₁.echoLine.length := by
    have := hsh.columns_le
    rw [hsh.echo_length]
    omega
  rw [if_pos hfit]
  have hle := h₁.sound.echo.length_le
  refine Yields.done (h₁.trans (h₁.sound.echoes ?_ ⟨?_, ?_⟩ _ t₁.outputs))
  · simp only [length_append, length_take, length_drop]
    omega
  · simp only [length_append, length_take, length_drop]
    omega
  · obtain ⟨scalars, hn, hspelled⟩ := h₁.sound.echo.spelled
    refine ⟨scalars ++ [scalar], by simp [hn], ?_⟩
    have htake : (t₁.echoLine.take t₁.echoLength ++ astraUtf8Encode scalar).length =
        t₁.echoLength + (astraUtf8Encode scalar).length := by
      rw [length_append, length_take, Nat.min_eq_left hle]
    rw [← htake, take_left, hspelled]
    simp

end

theorem scalarBack_spec {before rest : List UInt8} {first : UInt8}
    (hline : ∀ i, i < before.length + (rest.length + 1) →
      t.echoLine[i]? = (before ++ first :: rest)[i]?) (hfirst : continues first = false)
    (hrest : ∀ b ∈ rest, continues b = true) : ∀ k ≤ rest.length,
    t.scalarBack (before.length + 1 + k) = some before.length
  | 0, _ => by
    rw [Nat.add_zero, AstraTerminal.scalarBack, hline _ (by omega)]
    simp [hfirst]
  | k + 1, hk => by
    have hbyte : (before ++ first :: rest)[before.length + 1 + k]? = rest[k]? := by
      rw [List.getElem?_append_right (by omega),
        show before.length + 1 + k - before.length = k + 1 by omega, List.getElem?_cons_succ]
    have hlt : k < rest.length := by omega
    rw [← Nat.add_assoc, AstraTerminal.scalarBack, hline _ (by omega), hbyte,
      List.getElem?_eq_getElem hlt]
    simp only [Option.bind_eq_bind, Option.bind_some]
    rw [if_pos ⟨by omega, hrest _ (getElem_mem hlt)⟩]
    exact scalarBack_spec hline hfirst hrest k (by omega)

theorem echoBackspace_spec (h : TerminalSound t) : Yields t.echoBackspace (Echoes t) := by
  refine Yields.ite (fun _ => Yields.done (.refl h)) fun hne => ?_
  obtain ⟨hle, scalars, hn, hspelled⟩ := h.echo
  rcases eq_nil_or_concat scalars with rfl | ⟨before, scalar, rfl⟩
  · have hlen := congrArg List.length hspelled
    rw [length_take, Nat.min_eq_left hle] at hlen
    exact absurd hlen hne
  obtain ⟨first, rest, henc, hfirst, hrest, -⟩ := astraUtf8Encode_spec scalar
  rw [concat_eq_append, map_append, map_singleton, flatten_append,
    flatten_singleton, henc] at hspelled
  set kept := (before.map astraUtf8Encode).flatten with hkept
  have hlen := congrArg List.length hspelled
  rw [length_take, Nat.min_eq_left hle, length_append, length_cons] at hlen
  have hline : ∀ i, i < kept.length + (rest.length + 1) →
      t.echoLine[i]? = (kept ++ first :: rest)[i]? := by
    intro i hi
    rw [← hspelled, List.getElem?_take_of_lt (by omega)]
  have hback := scalarBack_spec hline hfirst hrest rest.length le_rfl
  rw [show kept.length + 1 + rest.length = t.echoLength by omega] at hback
  rw [hback]
  have hcolumns : t.echoColumns = before.length + 1 := by
    rw [← hn]
    simp
  refine Yields.done (h.echoes rfl ⟨?_, before, ?_, ?_⟩ _ t.outputs)
  · omega
  · split_ifs <;> omega
  · have := congrArg (List.take kept.length) hspelled
    rw [take_take, Nat.min_eq_left (by omega), take_left] at this
    exact this

end Astra
