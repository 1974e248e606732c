import AstraKernel.Proofs.TerminalStream

/-!
# One byte

Whatever byte the terminal is given, it takes it and stays sound; `ByteSafe` is the condition for
the display to keep up.
-/

namespace Astra

variable {t t' : AstraTerminal} {c : Prop}

def AstraTerminal.Parsed (t t' : AstraTerminal) : Prop :=
  ∃ state parameters count isPrivate overflow codepoint remaining expected oscMatch,
    CsiBounds parameters count state ∧ t' = { t with
      parserState := state, csiParameters := parameters, csiParameterCount := count,
      csiPrivate := isPrivate, csiOverflow := overflow, utf8Codepoint := codepoint,
      utf8Remaining := remaining, utf8Expected := expected, oscPromptMatch := oscMatch }

theorem AstraTerminal.Parsed.keeps (h : t.Parsed t') (ht : TerminalSound t) : Keeps True t t' := by
  obtain ⟨state, parameters, count, isPrivate, overflow, codepoint, remaining, expected, oscMatch,
    hcsi, rfl⟩ := h
  exact ⟨⟨ht.shaped, ht.dirty, ht.debt, ht.cursor, hcsi, ht.echo⟩, rfl, rfl, rfl, rfl,
    fun _ _ hm => hm⟩

theorem TerminalSound.csi_of_ne (h : TerminalSound t) {state : TerminalParser}
    (hne : state ≠ .csi) : CsiBounds t.csiParameters t.csiParameterCount state :=
  ⟨h.csi.length, h.csi.count_le, fun he => (hne he).elim⟩

theorem TerminalSound.parse (h : TerminalSound t) (state : TerminalParser) (hne : state ≠ .csi)
    (codepoint : UInt32) (remaining expected oscMatch : ℕ) :
    Keeps True t { t with
      parserState := state, utf8Codepoint := codepoint, utf8Remaining := remaining,
      utf8Expected := expected, oscPromptMatch := oscMatch } :=
  AstraTerminal.Parsed.keeps ⟨state, _, _, _, _, codepoint, remaining, expected, oscMatch,
    h.csi_of_ne hne, rfl⟩ h

theorem Keeps.ground (h : Keeps c t t') : Keeps c t { t' with parserState := .ground } :=
  (h.trans (h.sound.parse .ground nofun t'.utf8Codepoint t'.utf8Remaining
    t'.utf8Expected t'.oscPromptMatch)).mono fun hc => ⟨hc, trivial⟩

/-! ## Control sequences -/

theorem storeParameter_spec (h : CsiBounds t.csiParameters t.csiParameterCount t.parserState)
    {index : ℕ} (hlt : index < astraTerminalCsiParameters) (value : ℕ) :
    Yields (t.storeParameter index value) t.Parsed := by
  unfold AstraTerminal.storeParameter
  rw [if_pos (by rwa [h.length])]
  exact Yields.done ⟨_, _, _, _, _, _, _, _, _,
    ⟨by rw [List.length_set, h.length], h.count_le, h.pos⟩, rfl⟩

section

variable (h : TerminalSound t)
include h

theorem beginCsi_spec : Yields t.beginCsi (Keeps True t) := by
  have hcsi : CsiBounds t.csiParameters 1 .csi := ⟨h.csi.length, by decide, fun _ => one_pos⟩
  have hbegin : Keeps True t { t with
      parserState := .csi, csiParameterCount := 1, csiPrivate := 0, csiOverflow := false } :=
    AstraTerminal.Parsed.keeps ⟨_, _, _, _, _, _, _, _, _, hcsi, rfl⟩ h
  refine (storeParameter_spec hbegin.sound.csi (by decide) csiMissing).mono fun t' ht' => ?_
  exact (hbegin.trans (ht'.keeps hbegin.sound)).mono fun _ => ⟨trivial, trivial⟩

/-- What a byte of a control sequence scrolls: the final byte by its command, a control by itself. -/
structure AstraTerminal.CsiByteSafe (t : AstraTerminal) (value : UInt8) : Prop where
  command : 0x40 ≤ value → value ≤ 0x7e → t.csiOverflow = false → t.CsiSafe value
  control : t.ControlSafe value

theorem csiByte_spec (hstate : t.parserState = .csi) (value : UInt8) :
    Yields (t.csiByte value) (Keeps (t.Owes → t.CsiByteSafe value) t) := by
  have hpos := h.csi.pos hstate
  have hlen := h.csi.length
  have hle := h.csi.count_le
  have hany : ∀ {t'}, t.Parsed t' → Keeps (t.Owes → t.CsiByteSafe value) t t' := fun hp =>
    (hp.keeps h).mono fun _ => trivial
  have hoverflow : ∀ isPrivate overflow, Yields (some { t with
      csiPrivate := isPrivate, csiOverflow := overflow })
      (Keeps (t.Owes → t.CsiByteSafe value) t) := fun isPrivate overflow =>
    Yields.done (hany ⟨_, _, _, isPrivate, overflow, _, _, _, _, h.csi, rfl⟩)
  unfold AstraTerminal.csiByte
  rw [sub32_of_le hpos]
  refine Yields.bind (P := fun _ => True) ⟨_, List.getElem?_eq_getElem (by omega), trivial⟩
    fun current _ => ?_
  refine Yields.ite (fun _ => hoverflow value t.csiOverflow) fun _ => Yields.ite (fun _ => ?_)
    fun _ => Yields.ite (fun _ => ?_) fun _ => Yields.ite (fun hfinal => ?_) fun _ =>
    Yields.ite (fun _ => ?_) fun _ => hoverflow t.csiPrivate t.csiOverflow
  · -- a digit
    refine Yields.ite (fun _ => hoverflow t.csiPrivate true) fun _ => ?_
    exact (storeParameter_spec h.csi (by omega) _).mono fun t' => hany
  · -- a separator
    refine Yields.ite (fun _ => hoverflow t.csiPrivate true) fun hlt => ?_
    have hcsi : CsiBounds t.csiParameters (t.csiParameterCount + 1) t.parserState :=
      ⟨hlen, by omega, fun _ => Nat.succ_pos _⟩
    refine (storeParameter_spec (t := { t with csiParameterCount := t.csiParameterCount + 1 }) hcsi
      (show t.csiParameterCount < astraTerminalCsiParameters by omega) csiMissing).mono
      fun t' ht' => ?_
    obtain ⟨state, parameters, count, isPrivate, overflow, codepoint, remaining, expected, oscMatch,
      hcsi', rfl⟩ := ht'
    exact hany ⟨state, parameters, count, isPrivate, overflow, codepoint, remaining, expected,
      oscMatch, hcsi', rfl⟩
  · -- the final byte
    have hfinish : Yields (t.finishCsi value) (Keeps (t.Owes → t.CsiByteSafe value) t) := by
      refine Yields.ite (fun hover => ?_) fun _ => Yields.done
        ((Acts.refl h).toKeeps.mono fun _ => trivial)
      exact (executeCsi_spec h value).mono fun t' ht' => ht'.mono fun hc ho =>
        (hc ho).command hfinal.1 hfinal.2 hover
    exact hfinish.bind fun t' ht' => Yields.done ht'.ground
  · exact (control_spec h value).mono fun t' ht' => ht'.toKeeps.mono fun hc ho => (hc ho).control

/-! ## Escapes -/

theorem resetTerminal_spec : Yields t.resetTerminal (Keeps True t) := by
  refine (alternate_spec h false).bind fun t₁ h₁ => ?_
  have hrows := h₁.sound.shaped.rows_pos
  rw [sub32_of_le hrows]
  have hreset : Keeps True t₁ { t₁ with
      foreground := astraTextColorDefault, background := astraTextColorDefault, attributes := 0,
      scrollTop := 0, scrollBottom := t₁.rows - 1, cursorVisible := true, parserState := .ground,
      utf8Remaining := 0 } :=
    ⟨⟨h₁.sound.shaped, h₁.sound.dirty, h₁.sound.debt, ⟨h₁.sound.cursor.row_lt,
      h₁.sound.cursor.column_le, Nat.zero_le _, show t₁.rows - 1 < t₁.rows by omega⟩,
      h₁.sound.csi_of_ne nofun, h₁.sound.echo⟩, rfl, rfl, rfl, rfl, fun _ _ hm => hm⟩
  exact (clear_spec hreset.sound).mono fun t₂ h₂ => ((h₁.toKeeps.trans hreset).trans
    h₂.1.toKeeps).mono fun _ => ⟨⟨trivial, trivial⟩, trivial⟩

/-- What an index, a new line or a reverse index scrolls. -/
structure AstraTerminal.EscapeSafe (t : AstraTerminal) (value : UInt8) : Prop where
  index : value = 'D'.toUInt8 → t.cursorRow = t.scrollBottom → t.WholeRegion
  line : value = 'E'.toUInt8 → t.LineSafe t.cursorRow
  reverse : value = 'M'.toUInt8 → t.cursorRow = t.scrollTop → t.WholeRegion

theorem escapeByte_spec (value : UInt8) :
    Yields (t.escapeByte value) (Keeps (t.Owes → t.EscapeSafe value) t) := by
  have hground := h.parse .ground nofun t.utf8Codepoint t.utf8Remaining t.utf8Expected
    t.oscPromptMatch
  have hs := hground.sound
  have hgo : ∀ {t' : AstraTerminal} {c : Prop}, ((t.Owes → t.EscapeSafe value) → c) →
      Keeps c { t with parserState := .ground } t' → Keeps (t.Owes → t.EscapeSafe value) t t' :=
    fun hc hk => (hground.trans hk).mono fun ho => ⟨trivial, hc ho⟩
  have hany : ∀ {t' : AstraTerminal}, Acts True { t with parserState := .ground } t' →
      Keeps (t.Owes → t.EscapeSafe value) t t' := fun ha => hgo (fun _ => trivial) ha.toKeeps
  have hparse : ∀ (state : TerminalParser) (oscMatch : ℕ), state ≠ .csi → Yields (some { t with
      parserState := state, oscPromptMatch := oscMatch })
      (Keeps (t.Owes → t.EscapeSafe value) t) := fun state oscMatch hne =>
    Yields.done ((h.parse state hne t.utf8Codepoint t.utf8Remaining t.utf8Expected oscMatch).mono
      fun _ => trivial)
  refine Yields.ite (fun _ => ?_) fun _ => Yields.ite (fun _ => hparse .osc 0 nofun) fun _ =>
    Yields.ite (fun _ => hparse .charset t.oscPromptMatch nofun) fun _ =>
    Yields.ite (fun _ => Yields.done (hany (saveCursor_acts hs))) fun _ =>
    Yields.ite (fun _ => Yields.done (hany (cursorTo_acts hs _ _))) fun _ =>
    Yields.ite (fun hD => ?_) fun _ => Yields.ite (fun hE => ?_) fun _ =>
    Yields.ite (fun hM => ?_) fun _ => Yields.ite (fun _ => ?_) fun _ =>
    hparse .ground t.oscPromptMatch nofun
  · exact (beginCsi_spec hs).mono fun t' => hgo fun _ => trivial
  · obtain ⟨hrow, hcolumn, htop, hbottom⟩ := h.cursor
    refine Yields.ite (fun hat => ?_) fun _ => Yields.ite (fun hlt => ?_) fun _ =>
      hparse .ground t.oscPromptMatch nofun
    · exact (scrollUp_spec 1 hs.shaped hs.dirty hs.debt htop hbottom).mono fun t' ht' =>
        hgo (fun hc ho => (hc ho).index hD hat) (ht'.1.acts hs).1.toKeeps
    · exact Yields.done (hany (hs.moveCursor hlt hcolumn))
  · exact (newline_spec hs).mono fun t' ht' => hgo (fun hc ho => (hc ho).line hE) ht'.1.toKeeps
  · exact (reverseIndex_spec hs).mono fun t' ht' =>
      hgo (fun hc ho => (hc ho).reverse hM) ht'.toKeeps
  · exact (resetTerminal_spec hs).mono fun t' => hgo fun _ => trivial

/-! ## Operating system commands -/

theorem oscByte_spec (hstate : t.parserState = .osc) (value : UInt8) :
    Yields (t.oscByte value) (Keeps True t) := by
  have hmatch : ∀ oscMatch, Yields (some { t with oscPromptMatch := oscMatch }) (Keeps True t) :=
    fun oscMatch => Yields.done (h.parse t.parserState (by simp [hstate])
      t.utf8Codepoint t.utf8Remaining t.utf8Expected oscMatch)
  refine Yields.ite (fun _ => hmatch _) fun hlt => ?_
  exact Yields.bind (P := fun _ => True) ⟨_, List.getElem?_eq_getElem (by omega), trivial⟩
    fun expected _ => hmatch _

theorem finishOsc_keeps : Keeps True t t.finishOsc := by
  have hout : ∀ outputs : List TerminalOutput, Keeps True t { t with
      parserState := .ground, outputs := outputs } := fun outputs =>
    ⟨⟨h.shaped, h.dirty, h.debt, h.cursor, h.csi_of_ne nofun, h.echo⟩, rfl, rfl, rfl, rfl,
      fun _ _ hm => hm⟩
  unfold AstraTerminal.finishOsc AstraTerminal.emit
  split_ifs
  · exact hout _
  · exact hout t.outputs

/-! ## Text -/

/-- The byte starts a sequence of several. -/
def Lead (value : UInt8) : Prop := 0xc2 ≤ value ∧ value ≤ 0xf4

/-- The scalars that the byte puts wrap to no part of the screen that is scrolled. A byte that cuts
a sequence short puts the replacement first. -/
def AstraTerminal.TextSafe (t : AstraTerminal) (value : UInt8) : Prop :=
  if t.utf8Remaining = 0 then ¬Lead value → t.PutSafe t.cursorRow t.cursorColumn
  else if continues value then t.utf8Remaining = 1 → t.PutSafe t.cursorRow t.cursorColumn
  else t.PutSafe t.cursorRow t.cursorColumn ∧
    (¬Lead value → t.PutSafe t.afterPut.1 t.afterPut.2)

/-- The byte scrolls no part of the screen other than the whole. -/
def AstraTerminal.ByteSafe (t : AstraTerminal) (value : UInt8) : Prop :=
  match t.parserState with
  | .ground => if value < 0x20 ∨ value = 0x7f then t.ControlSafe value else t.TextSafe value
  | .escape => t.EscapeSafe value
  | .csi => t.CsiByteSafe value
  | _ => True

theorem utf8Start_spec (hstate : t.parserState = .ground)
    (hnone : t.utf8Remaining = 0) (again : AstraTerminal → Option AstraTerminal) (value : UInt8) :
    Yields (t.utf8Byte again value)
      (Keeps (t.Owes → ¬Lead value → t.PutSafe t.cursorRow t.cursorColumn) t) := by
  have hput : ∀ scalar, ¬Lead value → Yields (t.putScalar scalar)
      (Keeps (t.Owes → ¬Lead value → t.PutSafe t.cursorRow t.cursorColumn) t) :=
    fun scalar hlead => (putScalar_spec h scalar).mono fun t' ht' =>
      ht'.1.toKeeps.mono fun hc ho => hc ho hlead
  have hbegin : ∀ codepoint remaining expected, Yields (some { t with
      utf8Codepoint := codepoint, utf8Remaining := remaining, utf8Expected := expected })
      (Keeps (t.Owes → ¬Lead value → t.PutSafe t.cursorRow t.cursorColumn) t) :=
    fun codepoint remaining expected => Yields.done ((h.parse t.parserState
      (by simp [hstate]) codepoint remaining expected t.oscPromptMatch).mono fun _ => trivial)
  unfold AstraTerminal.utf8Byte
  rw [if_neg (by simp [hnone])]
  refine Yields.ite (fun hlow => hput _ fun hlead => ?_) fun hhigh =>
    Yields.ite (fun _ => hbegin _ _ _) fun h₂ => Yields.ite (fun _ => hbegin _ _ _) fun h₃ =>
    Yields.ite (fun _ => hbegin _ _ _) fun h₄ => hput _ fun hlead => ?_
  · exact absurd (UInt8.lt_of_le_of_lt hlead.1 hlow) (by decide)
  · simp only [UInt8.le_iff_toNat_le, Lead, UInt8.reduceToNat] at h₂ h₃ h₄ hlead
    omega

end

theorem AstraTerminal.PutSafe.of_whole {row column : ℕ} (h : t.WholeRegion) :
    t.PutSafe row column := fun _ _ => h

theorem utf8Byte_spec (h : TerminalSound t) (hstate : t.parserState = .ground) {value : UInt8}
    {again : AstraTerminal → Option AstraTerminal}
    (hagain : ∀ t' : AstraTerminal, t'.parserState = .ground → t'.utf8Remaining = 0 →
      ∃ again', again t' = t'.utf8Byte again' value) :
    Yields (t.utf8Byte again value) (Keeps (t.Owes → t.TextSafe value) t) := by
  have hparse : ∀ codepoint remaining, Keeps True t { t with
      utf8Codepoint := codepoint, utf8Remaining := remaining } := fun codepoint remaining =>
    h.parse t.parserState (by simp [hstate]) codepoint remaining t.utf8Expected
      t.oscPromptMatch
  unfold AstraTerminal.TextSafe
  split
  · rename_i hnone
    exact utf8Start_spec h hstate hnone again value
  rename_i hnone
  unfold AstraTerminal.utf8Byte
  rw [if_pos hnone]
  refine Yields.ite (fun hcut => ?_) fun hcont => ?_
  · rw [if_neg (by simp [hcut])]
    have hdrop := hparse t.utf8Codepoint 0
    refine (putScalar_spec hdrop.sound astraUtf8Replacement).bind fun t₁ ⟨h₁, hlands⟩ => ?_
    obtain ⟨again', heq⟩ := hagain t₁ (h₁.parserState.trans hstate) h₁.utf8Remaining
    rw [heq]
    refine (utf8Start_spec h₁.sound (h₁.parserState.trans hstate) h₁.utf8Remaining again'
      value).mono fun t₂ h₂ => ((hdrop.trans h₁.toKeeps).trans h₂).mono fun hc =>
      ⟨⟨trivial, fun ho => (hc ho).1⟩, fun ho hlead => ?_⟩
    have hsame : t₁.PutSafe t₁.cursorRow t₁.cursorColumn ↔ t.PutSafe t.afterPut.1 t.afterPut.2 := by
      unfold AstraTerminal.PutSafe AstraTerminal.LineSafe AstraTerminal.lineRow
        AstraTerminal.WholeRegion
      rw [hlands.cursorRow, hlands.cursorColumn, h₁.columns, h₁.scrollTop, h₁.scrollBottom, h₁.rows]
      exact Iff.rfl
    rw [hsame]
    -- a debt that the replacement has made is one of the whole screen
    by_cases hwhole : t.WholeRegion
    · exact .of_whole hwhole
    · exact (hc (hlands.owes hwhole ho)).2 hlead
  · rw [if_pos (show continues value = true by simpa using hcont)]
    have hmore := hparse ((t.utf8Codepoint <<< 6) ||| lowBits value 0x3f) (t.utf8Remaining - 1)
    refine Yields.ite (fun hlast => ?_) fun _ => Yields.done (hmore.mono fun _ => trivial)
    refine (putScalar_spec hmore.sound _).mono fun t₁ ⟨h₁, _⟩ => (hmore.trans h₁.toKeeps).mono
      fun hc => ⟨trivial, fun ho => hc ho ?_⟩
    change t.utf8Remaining - 1 = 0 at hlast
    omega

/-! ## The stream -/

theorem putcWithin_ground {calls : ℕ} {value : UInt8} (hstate : t.parserState = .ground)
    (hescape : value ≠ 0x1b) (hcontrol : ¬(value < 0x20 ∨ value = 0x7f)) :
    AstraTerminal.putcWithin (calls + 1) value t =
      t.utf8Byte (AstraTerminal.putcWithin calls value) value := by
  simp only [AstraTerminal.putcWithin, hstate, if_neg hescape, if_neg hcontrol]

theorem astraTerminalPutc_spec (h : TerminalSound t) (value : UInt8) :
    Yields (astraTerminalPutc t value) (Keeps (t.Owes → t.ByteSafe value) t) := by
  have hparse : ∀ (state : TerminalParser) (remaining oscMatch : ℕ), state ≠ .csi →
      Yields (some { t with
        parserState := state, utf8Remaining := remaining, oscPromptMatch := oscMatch })
        (Keeps (t.Owes → t.ByteSafe value) t) := fun state remaining oscMatch hne =>
    Yields.done ((h.parse state hne t.utf8Codepoint remaining t.utf8Expected oscMatch).mono
      fun _ => trivial)
  have hosc : Yields (some t.finishOsc) (Keeps (t.Owes → t.ByteSafe value) t) :=
    Yields.done ((finishOsc_keeps h).mono fun _ => trivial)
  have hescaped : Yields (some { t with utf8Remaining := 0, parserState := .escape })
      (Keeps (t.Owes → t.ByteSafe value) t) := hparse .escape 0 t.oscPromptMatch nofun
  unfold astraTerminalPutc
  cases hstate : t.parserState with
  | osc =>
    simp only [AstraTerminal.putcWithin, hstate]
    refine Yields.ite (fun _ => hosc) fun _ => Yields.ite
      (fun _ => hparse .oscEscape t.utf8Remaining t.oscPromptMatch nofun) fun _ => ?_
    exact (oscByte_spec h hstate value).mono fun t' ht' => ht'.mono fun _ => trivial
  | oscEscape =>
    simp only [AstraTerminal.putcWithin, hstate]
    exact Yields.ite (fun _ => hosc) fun _ => hparse .osc t.utf8Remaining AstraTerminal.oscNoMatch nofun
  | ground =>
    by_cases hescape : value = 0x1b
    · simpa only [AstraTerminal.putcWithin, hstate, if_pos hescape] using hescaped
    by_cases hcontrol : value < 0x20 ∨ value = 0x7f
    · simp only [AstraTerminal.putcWithin, hstate, if_neg hescape, if_pos hcontrol]
      refine (control_spec h value).mono fun t' ht' => ht'.toKeeps.mono fun hc ho => ?_
      simpa only [AstraTerminal.ByteSafe, hstate, if_pos hcontrol] using hc ho
    · rw [putcWithin_ground hstate hescape hcontrol]
      refine (utf8Byte_spec h hstate fun t' hs _ => ⟨_, putcWithin_ground hs hescape
        hcontrol⟩).mono fun t' ht' => ht'.mono fun hc ho => ?_
      simpa only [AstraTerminal.ByteSafe, hstate, if_neg hcontrol] using hc ho
  | escape =>
    simp only [AstraTerminal.putcWithin, hstate]
    refine Yields.ite (fun _ => hescaped) fun _ => ?_
    refine (escapeByte_spec h value).mono fun t' ht' => ht'.mono fun hc ho => ?_
    simpa only [AstraTerminal.ByteSafe, hstate] using hc ho
  | csi =>
    simp only [AstraTerminal.putcWithin, hstate]
    refine Yields.ite (fun _ => hescaped) fun _ => ?_
    refine (csiByte_spec h hstate value).mono fun t' ht' => ht'.mono fun hc ho => ?_
    simpa only [AstraTerminal.ByteSafe, hstate] using hc ho
  | charset =>
    simp only [AstraTerminal.putcWithin, hstate]
    exact Yields.ite (fun _ => hescaped) fun _ => hparse .ground t.utf8Remaining t.oscPromptMatch
      nofun

end Astra
