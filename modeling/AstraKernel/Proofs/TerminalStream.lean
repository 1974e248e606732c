import AstraKernel.Proofs.TerminalScreen

/-!
# Every byte keeps the terminal in bounds

Each function of the parser has a result, and the terminal it leaves is sound. The display keeps up
unless the byte scrolls a part of the screen while a scroll of the whole is owed (`ByteSafe`).
-/

namespace Astra

open List

variable {t t' : AstraTerminal} {value : UInt8} {c : Prop}

/-! ## Scalars -/

/-- A scalar put where the cursor is wraps to a line that scrolls nothing, or the whole screen. -/
def AstraTerminal.PutSafe (t : AstraTerminal) (row column : ℕ) : Prop :=
  t.columns ≤ column → t.LineSafe row

/-- Where the cursor is when a scalar has been put. -/
def AstraTerminal.afterPut (t : AstraTerminal) : ℕ × ℕ :=
  if t.columns ≤ t.cursorColumn then (t.nextRow t.cursorRow, 1) else (t.cursorRow, t.cursorColumn + 1)

theorem wrap_spec (h : TerminalSound t) : Yields t.wrap fun t' =>
    Acts (t.Owes → t.PutSafe t.cursorRow t.cursorColumn) t t' ∧
      Lands t t' t.afterPut.1 (t.afterPut.2 - 1) ∧ t'.cursorColumn < t'.columns := by
  unfold AstraTerminal.wrap AstraTerminal.afterPut
  by_cases hge : t.columns ≤ t.cursorColumn
  · rw [if_pos hge, if_pos hge]
    refine (newline_spec h).mono fun t' ⟨hacts, hlands⟩ => ⟨hacts.mono fun hc ho => hc ho hge, hlands,
      ?_⟩
    rw [hlands.cursorColumn]
    exact hacts.sound.shaped.columns_pos
  · rw [if_neg hge, if_neg hge]
    exact Yields.done ⟨(Acts.refl h).mono fun _ => trivial, ⟨rfl, rfl, fun _ ho => ho⟩, by omega⟩

theorem putScalar_spec (h : TerminalSound t) (scalar : UInt32) :
    Yields (t.putScalar scalar) fun t' =>
      Acts (t.Owes → t.PutSafe t.cursorRow t.cursorColumn) t t' ∧
        Lands t t' t.afterPut.1 t.afterPut.2 := by
  refine (echoScalar_spec h scalar).bind fun t₁ h₁ => ?_
  have howes : t₁.Owes ↔ t.Owes := by
    unfold AstraTerminal.Owes
    rw [h₁.pending.1, h₁.pending.2]
  have hwhole : t₁.WholeRegion ↔ t.WholeRegion := by
    unfold AstraTerminal.WholeRegion
    rw [h₁.scrollTop, h₁.scrollBottom, h₁.rows]
  have hline : ∀ row, t₁.lineRow row = t.lineRow row := fun row => by
    unfold AstraTerminal.lineRow
    rw [h₁.scrollTop]
  have hafter : t₁.afterPut = t.afterPut := by
    unfold AstraTerminal.afterPut AstraTerminal.nextRow
    simp only [hline, h₁.cursorRow, h₁.cursorColumn, h₁.columns, h₁.scrollBottom]
  have hsafe : t₁.PutSafe t₁.cursorRow t₁.cursorColumn ↔ t.PutSafe t.cursorRow t.cursorColumn := by
    unfold AstraTerminal.PutSafe AstraTerminal.LineSafe
    rw [h₁.cursorRow, h₁.cursorColumn, h₁.columns, hline, h₁.scrollBottom, hwhole]
  refine (wrap_spec h₁.sound).bind fun t₂ ⟨h₂, hlands, hlt⟩ => ?_
  rw [hafter] at hlands
  have hrow := h₂.sound.cursor.row_lt
  refine (storeCell_spec h₂.sound.shaped hrow hlt _).bind fun t₃ ⟨hw, _⟩ => ?_
  have hcursor₃ : t₃.cursorRow = t₂.cursorRow ∧ t₃.cursorColumn = t₂.cursorColumn := by
    obtain ⟨p, a, f, l, -, -, -, -, rfl⟩ := hw.drawn
    exact ⟨rfl, rfl⟩
  rw [hcursor₃.1, hcursor₃.2]
  refine (mark_spec (hw.drawn.shaped h₂.sound.shaped) (hw.sound h₂.sound.dirty)
    (by rwa [hw.drawn.rows]) (by rwa [hw.drawn.columns])).bind fun t₄ hm => Yields.done ?_
  have hpaint := hw.marked hm fun _ _ _ _ hrc => hrc
  obtain ⟨h₄, hr₄, hc₄⟩ := hpaint.acts h₂.sound
  have howes₄ : t₄.Owes ↔ t₂.Owes := by
    obtain ⟨p, a, f, l, -, -, -, -, rfl⟩ := hpaint.drawn
    exact Iff.rfl
  have hlast := h₄.sound.moveCursor h₄.sound.cursor.row_lt
    (show t₄.cursorColumn + 1 ≤ t₄.columns by rw [hc₄, h₄.columns]; omega)
  have hpos : 0 < t.afterPut.2 := by
    unfold AstraTerminal.afterPut
    split_ifs <;> exact Nat.succ_pos _
  refine ⟨(((h₁.toActs.trans h₂).trans h₄).trans hlast).mono fun hc =>
    ⟨⟨⟨trivial, fun ho => hsafe.2 (hc (howes.1 ho))⟩, trivial⟩, trivial⟩, ?_, ?_, ?_⟩
  · change t₄.cursorRow = _
    rw [hr₄, hlands.cursorRow]
  · change t₄.cursorColumn + 1 = _
    rw [hc₄, hlands.cursorColumn]
    omega
  · intro hn ho
    exact howes.1 (hlands.owes (fun hw' => hn (hwhole.1 hw')) (howes₄.1 ho))

theorem tabTo_spec (next : ℕ) : ∀ (n : ℕ) {t : AstraTerminal}, TerminalSound t →
    Yields (AstraTerminal.tabTo next n t) (Acts True t)
  | 0, t, h => Yields.done (.refl h)
  | n + 1, t, h => by
    refine Yields.ite (fun hlt => ?_) fun _ => Yields.done (.refl h)
    refine (putScalar_spec h 0x20).bind fun t₁ ⟨h₁, _⟩ => ?_
    refine (tabTo_spec next n h₁.sound).mono fun t₂ h₂ => (h₁.trans h₂).mono fun _ =>
      ⟨fun _ hge => absurd hge (by omega), trivial⟩

/-! ## Controls -/

def AstraTerminal.ControlSafe (t : AstraTerminal) (value : UInt8) : Prop :=
  value = 0x0a ∨ value = 0x0b ∨ value = 0x0c → t.LineSafe t.cursorRow

section

variable (h : TerminalSound t)
include h

theorem control_spec (value : UInt8) :
    Yields (t.control value) (Acts (t.Owes → t.ControlSafe value) t) := by
  have hcursor := h.cursor
  refine Yields.ite (fun hnew => ?_) fun _ => Yields.ite (fun _ => ?_) fun _ =>
    Yields.ite (fun _ => ?_) fun _ => Yields.ite (fun _ => ?_) fun _ => ?_
  · refine (echoFlush_spec h).bind fun t₁ ⟨h₁, _⟩ => ?_
    refine (newline_spec h₁.sound).mono fun t₂ ⟨h₂, _⟩ => (h₁.toActs.trans h₂).mono fun hc =>
      ⟨trivial, fun ho => ?_⟩
    have hsafe := hc (by
      unfold AstraTerminal.Owes at ho ⊢
      rwa [h₁.pending.1, h₁.pending.2] at ho) hnew
    unfold AstraTerminal.LineSafe AstraTerminal.lineRow AstraTerminal.WholeRegion at hsafe ⊢
    rwa [h₁.cursorRow, h₁.scrollTop, h₁.scrollBottom, h₁.rows]
  · have hecho := h.echoes rfl h.echo true t.outputs
    exact Yields.done ((hecho.toActs.trans (hecho.sound.moveCursor hcursor.row_lt
      (Nat.zero_le _))).mono fun _ => ⟨trivial, trivial⟩)
  · refine (echoBackspace_spec h).bind fun t₁ h₁ => ?_
    have hcursor₁ := h₁.sound.cursor
    refine Yields.ite (fun _ => ?_) fun _ => Yields.ite (fun _ => ?_) fun _ => ?_
    · have hle : t₁.cursorColumn - 1 ≤ t₁.columns := by
        have := hcursor₁.column_le
        omega
      exact Yields.done ((h₁.toActs.trans (h₁.sound.moveCursor hcursor₁.row_lt hle)).mono
        fun _ => ⟨trivial, trivial⟩)
    · have hpos := h₁.sound.shaped.columns_pos
      rw [sub32_of_le hpos]
      refine Yields.done ((h₁.toActs.trans (h₁.sound.moveCursor ?_ ?_)).mono
        fun _ => ⟨trivial, trivial⟩)
      · have := hcursor₁.row_lt
        omega
      · omega
    · exact Yields.done (h₁.toActs.mono fun _ => trivial)
  · exact (tabTo_spec _ _ h).mono fun t' ht' => ht'.mono fun _ => trivial
  · exact Yields.done ((Acts.refl h).mono fun _ => trivial)

/-! ## Control sequences -/

theorem parameter_spec (index fallback : ℕ) (zeroIsDefault : Bool) :
    Yields (t.parameter index fallback zeroIsDefault) fun v =>
      zeroIsDefault = true → fallback ≠ 0 → v ≠ 0 := by
  have hlen := h.csi.length
  have hcount := h.csi.count_le
  refine Yields.ite (fun _ => Yields.done fun _ hf => hf) fun hlt => ?_
  refine Yields.bind (P := fun _ => True)
    ⟨_, List.getElem?_eq_getElem (show index < t.csiParameters.length by omega), trivial⟩
    fun v _ => Yields.done fun hz hf => ?_
  subst hz
  by_cases hv : v = csiMissing ∨ (true = true ∧ v = 0)
  · rwa [if_pos hv]
  · rw [if_neg hv]
    exact fun hzero => hv (.inr ⟨rfl, hzero⟩)

theorem TerminalSound.styled (foreground background : UInt32) (attributes : UInt16) :
    Acts True t { t with
      foreground := foreground, background := background, attributes := attributes } :=
  ⟨⟨⟨h.shaped, h.dirty, h.debt, h.cursor, h.csi, h.echo⟩, rfl, rfl, rfl, rfl, fun _ _ hm => hm⟩,
    rfl, rfl, rfl, rfl⟩

theorem extendedColor_spec (index : ℕ) : Yields (t.extendedColor index) fun _ => True := by
  have hread : ∀ i, Yields (t.parameter i 0 false) fun _ => True := fun i =>
    (parameter_spec h i 0 false).mono fun _ _ => trivial
  refine (hread _).bind fun kind _ => Yields.ite (fun _ => ?_) fun _ =>
    Yields.ite (fun _ => ?_) fun _ => Yields.done trivial
  · exact (hread _).bind fun color _ => Yields.done trivial
  · exact (hread _).bind fun red _ => (hread _).bind fun green _ => (hread _).bind fun blue _ =>
      Yields.done trivial

theorem setGraphic_spec (index value : ℕ) :
    Yields (t.setGraphic index value) fun next => Acts True t next.1 := by
  have hstyle : ∀ (f b : UInt32) (a : UInt16) (n : ℕ), Yields (some ({ t with
      foreground := f, background := b, attributes := a }, n))
      fun next => Acts True t next.1 := fun f b a n => Yields.done (h.styled f b a)
  unfold AstraTerminal.setGraphic
  split
  all_goals try exact hstyle _ _ _ _
  refine Yields.ite (fun _ => hstyle _ _ _ _) fun _ => Yields.ite (fun _ => hstyle _ _ _ _) fun _ =>
    Yields.ite (fun _ => hstyle _ _ _ _) fun _ => Yields.ite (fun _ => hstyle _ _ _ _) fun _ =>
    Yields.ite (fun _ => ?_) fun _ => Yields.ite (fun _ => ?_) fun _ => hstyle _ _ _ _
  · exact (extendedColor_spec h index).bind fun color _ => hstyle _ _ _ _
  · exact (extendedColor_spec h index).bind fun color _ => hstyle _ _ _ _

end

theorem setGraphicsFrom_spec : ∀ (n index : ℕ) {t : AstraTerminal}, TerminalSound t →
    Yields (AstraTerminal.setGraphicsFrom n index t) (Acts True t)
  | 0, _, t, h => Yields.done (.refl h)
  | n + 1, index, t, h => by
    refine Yields.ite (fun _ => ?_) fun _ => Yields.done (.refl h)
    refine (parameter_spec h index 0 false).bind fun value _ => ?_
    refine (setGraphic_spec h index value).bind fun next h₁ => ?_
    exact (setGraphicsFrom_spec n _ h₁.sound).mono fun t₂ h₂ => (h₁.trans h₂).mono
      fun _ => ⟨trivial, trivial⟩

theorem setPrivateMode_spec (h : TerminalSound t) (enabled : Bool) :
    Yields (t.setPrivateMode enabled) (Acts True t) := by
  refine yields_forUp_const (.refl h) fun index t₁ _ _ h₁ => ?_
  have hgo : ∀ {t₂}, Acts True t₁ t₂ → Acts True t t₂ := fun h₂ =>
    (h₁.trans h₂).mono fun _ => ⟨trivial, trivial⟩
  refine (parameter_spec h₁.sound index 0 false).bind fun mode _ => ?_
  refine Yields.ite (fun _ => ?_) fun _ => Yields.ite (fun _ => ?_) fun _ => Yields.done h₁
  · refine Yields.done (hgo ⟨⟨⟨h₁.sound.shaped, h₁.sound.dirty, h₁.sound.debt, h₁.sound.cursor,
      h₁.sound.csi, h₁.sound.echo⟩, rfl, rfl, rfl, rfl, fun _ _ hm => hm⟩, rfl, rfl, rfl, rfl⟩)
  · exact (alternate_spec h₁.sound enabled).mono fun t₂ => hgo

theorem sendReply_acts (h : TerminalSound t) (bytes : List UInt8) : Acts True t (t.sendReply bytes) := by
  have hsame : ∀ (failures : ℕ) (outputs : List TerminalOutput), Acts True t { t with
      replyFailures := failures, outputs := outputs } := fun failures outputs =>
    ⟨⟨⟨h.shaped, h.dirty, h.debt, h.cursor, h.csi, h.echo⟩, rfl, rfl, rfl, rfl, fun _ _ hm => hm⟩,
      rfl, rfl, rfl, rfl⟩
  unfold AstraTerminal.sendReply AstraTerminal.emit
  split
  · exact hsame t.replyFailures t.outputs
  · dsimp only
    split_ifs <;> exact hsame _ _

theorem reverseDigits_spec : ∀ (room value : ℕ), 0 < room → value < 10 ^ room →
    Yields (AstraTerminal.reverseDigits room value) fun digits => digits.length ≤ room
  | room + 1, value, _, hlt => by
    unfold AstraTerminal.reverseDigits
    by_cases hmore : value / 10 ≠ 0
    · have hroom : 0 < room := by
        rcases Nat.eq_zero_or_pos room with rfl | hpos
        · omega
        · exact hpos
      rw [if_pos hmore]
      refine (reverseDigits_spec room (value / 10) hroom (by
        rw [pow_succ] at hlt
        omega)).bind fun rest hrest => Yields.done ?_
      simpa using hrest
    · rw [if_neg hmore]
      exact Yields.done (by simp)

theorem decimal_spec {value : ℕ} (hlt : value < 10 ^ 10) :
    Yields (AstraTerminal.decimal value) fun digits => digits.length ≤ 10 := by
  refine (reverseDigits_spec 10 value (by omega) hlt).bind fun digits hdigits => Yields.done ?_
  rwa [length_reverse]

theorem replyCursorPosition_spec (h : TerminalSound t) (isPrivate : Bool) :
    Yields (t.replyCursorPosition isPrivate) (Acts True t) := by
  have hrow := h.cursor.row_lt
  have hcolumn := h.cursor.column_le
  have hrows := h.shaped.rows_le
  have hcolumns := h.shaped.columns_le
  have hlt := h.shaped.rows_lt
  have hlt' := h.shaped.columns_lt
  refine (decimal_spec (show t.cursorRow + 1 < 10 ^ 10 by omega)).bind fun row hr => ?_
  refine (decimal_spec (show t.cursorColumn + 1 < 10 ^ 10 by omega)).bind fun column hc => ?_
  rw [if_pos (by
    simp only [length_append, length_cons, length_nil]
    split_ifs <;> simp only [length_cons, length_nil] <;> omega)]
  exact Yields.done (sendReply_acts h _)

/-- The sequence inserts, deletes or scrolls lines of the whole screen only, or none. -/
structure AstraTerminal.CsiSafe (t : AstraTerminal) (command : UInt8) : Prop where
  lines : command = 'L'.toUInt8 ∨ command = 'M'.toUInt8 → t.scrollTop ≤ t.cursorRow →
    t.cursorRow ≤ t.scrollBottom → t.cursorRow = 0 ∧ t.scrollBottom + 1 = t.rows
  region : command = 'S'.toUInt8 ∨ command = 'T'.toUInt8 → t.WholeRegion

theorem executeCsi_spec (h : TerminalSound t) (command : UInt8) :
    Yields (t.executeCsi command) (Keeps (t.Owes → t.CsiSafe command) t) := by
  obtain ⟨hrow, hcolumn, htop, hbottom⟩ := h.cursor
  have hcols := h.shaped.columns_pos
  have hany : ∀ {t'}, Acts True t t' → Keeps (t.Owes → t.CsiSafe command) t t' := fun ha =>
    ha.toKeeps.mono fun _ => trivial
  have hto : ∀ row column, Yields (some (t.cursorTo row column))
      (Keeps (t.Owes → t.CsiSafe command) t) := fun row column =>
    Yields.done (hany (cursorTo_acts h row column))
  have hup : ∀ count, t.rowsUp count < t.rows := fun count => by
    unfold AstraTerminal.rowsUp
    split_ifs <;> omega
  refine (parameter_spec h 0 1 true).bind fun count hpos => ?_
  replace hpos : 0 < count := Nat.pos_of_ne_zero (hpos rfl one_ne_zero)
  refine Yields.ite (fun _ => Yields.done (hany (h.moveCursor (hup count) hcolumn))) fun _ =>
    Yields.ite (fun _ => hto _ _) fun _ => Yields.ite (fun _ => hto _ _) fun _ =>
    Yields.ite (fun _ => Yields.done (hany (h.moveCursor hrow (by split_ifs <;> omega)))) fun _ =>
    Yields.ite (fun _ => hto _ _) fun _ =>
    Yields.ite (fun _ => Yields.done (hany (h.moveCursor (hup count) (Nat.zero_le _)))) fun _ =>
    Yields.ite (fun _ => hto _ _) fun _ => Yields.ite (fun _ => ?_) fun _ =>
    Yields.ite (fun _ => hto _ _) fun _ => Yields.ite (fun _ => ?_) fun _ =>
    Yields.ite (fun _ => ?_) fun _ => Yields.ite (fun _ => ?_) fun _ =>
    Yields.ite (fun _ => ?_) fun _ => Yields.ite (fun _ => ?_) fun _ =>
    Yields.ite (fun _ => ?_) fun _ => Yields.ite (fun _ => ?_) fun _ =>
    Yields.ite (fun _ => hto _ _) fun _ => Yields.ite (fun hL => ?_) fun _ =>
    Yields.ite (fun hM => ?_) fun _ => Yields.ite (fun _ => ?_) fun _ =>
    Yields.ite (fun _ => ?_) fun _ => Yields.ite (fun _ => ?_) fun _ =>
    Yields.ite (fun hS => ?_) fun _ => Yields.ite (fun hT => ?_) fun _ =>
    Yields.ite (fun _ => ?_) fun _ => Yields.done (hany (.refl h))
  · -- `H`
    exact (parameter_spec h 0 1 true).bind fun row _ => (parameter_spec h 1 1 true).bind
      fun column _ => hto _ _
  · -- `J`
    exact (parameter_spec h 0 0 false).bind fun mode _ => (eraseDisplay_spec h mode).mono
      fun t' => hany
  · -- `K`
    exact (parameter_spec h 0 0 false).bind fun mode _ => (eraseLine_spec h mode).mono
      fun t' => hany
  · exact (setGraphicsFrom_spec _ _ h).mono fun t' => hany
  · -- `n`
    exact Yields.ite (fun _ => Yields.done (hany (sendReply_acts h _))) fun _ =>
      Yields.ite (fun _ => (replyCursorPosition_spec h _).mono fun t' => hany) fun _ =>
      Yields.done (hany (.refl h))
  · -- `c`
    refine Yields.ite (fun _ => Yields.done (hany (sendReply_acts h _))) fun _ =>
      Yields.ite (fun _ => ?_) fun _ => Yields.done (hany (.refl h))
    exact (parameter_spec h 0 0 false).bind fun v _ => Yields.ite
      (fun _ => Yields.done (hany (sendReply_acts h _))) fun _ => Yields.done (hany (.refl h))
  · -- `r`
    refine (parameter_spec h 0 1 true).bind fun top htop' => ?_
    replace htop' : 0 < top := Nat.pos_of_ne_zero (htop' rfl one_ne_zero)
    refine (parameter_spec h 1 t.rows true).bind fun bottom _ => ?_
    refine Yields.ite (fun hr => ?_) fun _ => Yields.done (hany (.refl h))
    rw [sub32_of_le htop', sub32_of_le (show 1 ≤ bottom by omega)]
    have hsound : TerminalSound { t with scrollTop := top - 1, scrollBottom := bottom - 1 } :=
      ⟨h.shaped, h.dirty, h.debt, ⟨hrow, hcolumn, show top - 1 ≤ bottom - 1 by omega,
        show bottom - 1 < t.rows by omega⟩, h.csi, h.echo⟩
    have hregion : Keeps True t { t with scrollTop := top - 1, scrollBottom := bottom - 1 } :=
      ⟨hsound, rfl, rfl, rfl, rfl, fun _ _ hm => hm⟩
    exact Yields.done ((hregion.trans (cursorTo_acts hsound 0 0).toKeeps).mono
      fun _ => ⟨trivial, trivial⟩)
  · exact Yields.done (hany (saveCursor_acts h))
  · -- `L`
    refine Yields.ite (fun hin => ?_) fun _ => Yields.done (hany (.refl h))
    exact (scrollDown_spec count h.shaped h.dirty hin.2 hbottom).mono fun t' ht' =>
      (ht'.acts h).1.toKeeps.mono fun hc ho => (hc ho).lines (.inl hL) hin.1 hin.2
  · -- `M`
    refine Yields.ite (fun hin => ?_) fun _ => Yields.done (hany (.refl h))
    exact (scrollUp_spec count h.shaped h.dirty h.debt hin.2 hbottom).mono fun t' ht' =>
      (ht'.1.acts h).1.toKeeps.mono fun hc ho => (hc ho).lines (.inr hM) hin.1 hin.2
  · exact (insertCharacters_spec h hpos).mono fun t' => hany
  · exact (deleteCharacters_spec h).mono fun t' => hany
  · -- `X`
    rw [sub32_of_le hcolumn]
    dsimp only
    rw [sub32_of_le (by split_ifs <;> omega)]
    exact (eraseCells_spec h.shaped h.dirty hrow fun hlt => by split_ifs <;> omega).mono
      fun t' ht' => hany (ht'.acts h).1
  · -- `S`
    exact (scrollUp_spec count h.shaped h.dirty h.debt htop hbottom).mono fun t' ht' =>
      (ht'.1.acts h).1.toKeeps.mono fun hc ho => (hc ho).region (.inl hS)
  · -- `T`
    exact (scrollDown_spec count h.shaped h.dirty htop hbottom).mono fun t' ht' =>
      (ht'.acts h).1.toKeeps.mono fun hc ho => (hc ho).region (.inr hT)
  · exact Yields.ite (fun _ => (setPrivateMode_spec h _).mono fun t' => hany) fun _ =>
      Yields.done (hany (.refl h))

end Astra
