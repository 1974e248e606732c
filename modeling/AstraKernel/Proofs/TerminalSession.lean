import AstraKernel.Proofs.TerminalFlush

/-!
# A session with a terminal

Every call keeps the terminal in its bounds. A flush that succeeds leaves the display as the cells
are, unless a part of the screen is scrolled while a scroll of the whole is owed.
-/

namespace Astra

variable {t : AstraTerminal} {call : TerminalCall}

/-- The call is not one that scrolls a part of the screen, or drops what the display is owed. -/
def TerminalCall.Safe (t : AstraTerminal) : TerminalCall → Prop
  | .putc value => t.ByteSafe value
  | .setScroll _ => False
  | _ => True

structure Called (t : AstraTerminal) (call : TerminalCall) (f : TerminalFlush) : Prop where
  sound : TerminalSound f.terminal
  render : f.terminal.render = t.render
  matched : t.render = true → (t.Owes → call.Safe t) → ∀ D D', Matches D t →
    Shown f.draws D D' → Matches D' f.terminal
  clean : t.render = true → call.Flushes → f.status = .ok →
    Clean f.terminal ∧ f.terminal.pendingScrolls = 0

variable {t' : AstraTerminal} {status : AstraTerminalStatus} {s s' : TerminalSession}

theorem Keeps.called (h : Keeps (t.Owes → call.Safe t) t t')
    (hcall : ¬call.Flushes) : Called t call ⟨.ok, t', []⟩ :=
  ⟨h.sound, h.render, fun _ hsafe D _ hm hs => hs ▸ h.matched hsafe D hm,
    fun _ hf => (hcall hf).elim⟩

theorem TerminalSound.called
    (h : TerminalSound t') (hrender : t'.render = t.render) (hall : AllDirty t')
    (hcall : ¬call.Flushes) : Called t call ⟨status, t', []⟩ :=
  ⟨h, hrender, fun _ _ _ D' _ _ => hall.matches_any D', fun _ hf => (hcall hf).elim⟩

section

variable (h : TerminalSound t)
include h

theorem astraTerminalFlush_called (scrolled : Bool) (drawn : ℕ → Bool) :
    Yields (astraTerminalFlush t scrolled drawn) (Called t (.flush scrolled drawn)) := by
  cases hrender : t.render with
  | false =>
    exact (astraTerminalFlush_blind h hrender scrolled drawn).mono fun f hf =>
      ⟨hf.1, hf.2, fun hr => by simp [hrender] at hr, fun hr => by simp [hrender] at hr⟩
  | true =>
    refine (astraTerminalFlush_spec h hrender scrolled drawn).mono fun f hf =>
      ⟨hf.sound, hf.render, fun _ _ D D' hm hs => ?_, fun _ _ hok => ⟨hf.clean hok, hf.pending⟩⟩
    obtain ⟨more, hmore, hmatched⟩ := hf.matched
    rw [List.nil_append] at hmore
    exact hmatched D D' hm (hmore ▸ hs)

theorem TerminalSound.configure (echo prompt history : Bool)
    (reply : Option (ℕ → Bool)) : Keeps True t { t with
      echo := echo, prompt := prompt, history := history, reply := reply } :=
  ⟨⟨h.shaped, h.dirty, h.debt, h.cursor, h.csi, h.echo⟩, rfl, rfl, rfl, rfl, fun _ _ hm => hm⟩

theorem astraTerminalSetEcho_spec (echo : Bool) :
    Yields (astraTerminalSetEcho t echo) (Keeps True t) := by
  refine (echoFlush_spec h).bind fun t₁ ⟨h₁, _⟩ => Yields.done ?_
  exact (h₁.toKeeps.trans (h₁.sound.configure echo t₁.prompt t₁.history t₁.reply)).mono
    fun _ => ⟨trivial, trivial⟩

theorem TerminalSound.forgiven (scroll : Bool) :
    TerminalSound { t with scroll := scroll, pendingScrolls := 0 } :=
  ⟨h.shaped, h.dirty, ⟨Nat.zero_le _, fun hne => (hne rfl).elim, fun ho => (ho.1 rfl).elim⟩,
    h.cursor, h.csi, h.echo⟩

theorem astraTerminalSetScroll_called (scroll : Bool) :
    Called t (.setScroll scroll) ⟨.ok, astraTerminalSetScroll t scroll, []⟩ := by
  refine ⟨h.forgiven scroll, rfl, fun _ hsafe D D' hm hs => ?_, fun _ hf => hf.elim⟩
  rw [hs]
  intro row column hr hc hn
  rw [moved_of_not_owes (not_owes rfl)]
  have hcell := hm row column hr hc hn
  rwa [moved_of_not_owes hsafe] at hcell

theorem astraTerminalRedraw_called (scrolled : Bool) (drawn : ℕ → Bool) :
    Yields (astraTerminalRedraw t scrolled drawn) (Called t (.redraw scrolled drawn)) := by
  have hforgiven := h.forgiven t.scroll
  refine (markAll_spec hforgiven.shaped).bind fun t₁ ⟨hd, hdirty, hall⟩ => ?_
  have h₁ := hforgiven.settled rfl hd hdirty
  have hrender : t₁.render = t.render := by
    obtain ⟨p, a, f, l, -, -, -, -, rfl⟩ := hd
    rfl
  refine (astraTerminalFlush_called h₁ scrolled drawn).mono fun f hf =>
    ⟨hf.sound, hf.render.trans hrender, fun hr _ D D' _ hs => ?_, fun hr _ hok => ?_⟩
  · exact hf.matched (hrender.trans hr) (fun _ => trivial) D D' (hall.matches_any D) hs
  · exact hf.clean (hrender.trans hr) trivial hok

theorem call_spec (call : TerminalCall) : Yields (call.run t) (Called t call) := by
  cases call with
  | putc value =>
    exact (astraTerminalPutc_spec h value).bind fun t' ht' => Yields.done (ht'.called nofun)
  | clear =>
    exact (clear_spec h).bind fun t' ht' =>
      Yields.done ((ht'.1.toKeeps.mono fun _ => trivial).called nofun)
  | resize columns rows storage storageSize =>
    refine (astraTerminalResize_spec h columns rows storage storageSize).bind
      fun r ⟨hok, hrefused⟩ => Yields.done ?_
    by_cases hstatus : r.1 = .ok
    · obtain ⟨hs, hall, hrender⟩ := hok hstatus
      exact hs.called hrender hall nofun
    · rw [hrefused hstatus]
      exact ⟨h, rfl, fun _ _ D D' hm hs => hs ▸ hm, fun _ hf => hf.elim⟩
  | setEcho echo =>
    exact (astraTerminalSetEcho_spec h echo).bind fun t' ht' =>
      Yields.done ((ht'.mono fun _ => trivial).called nofun)
  | setReply reply =>
    exact Yields.done (((h.configure t.echo t.prompt t.history reply).mono
      fun _ => trivial).called nofun)
  | setPrompt prompt =>
    exact Yields.done (((h.configure t.echo prompt t.history t.reply).mono
      fun _ => trivial).called nofun)
  | setHistory history =>
    exact Yields.done (((h.configure t.echo t.prompt history t.reply).mono
      fun _ => trivial).called nofun)
  | setScroll scroll => exact Yields.done (astraTerminalSetScroll_called h scroll)
  | flush scrolled drawn => exact astraTerminalFlush_called h scrolled drawn
  | redraw scrolled drawn => exact astraTerminalRedraw_called h scrolled drawn

end

theorem runAll_spec : ∀ (calls : List TerminalCall) {t : AstraTerminal}, TerminalSound t →
    Yields (TerminalCall.runAll calls t) TerminalSound
  | [], _, h => Yields.done h
  | call :: calls, t, h => by
    unfold TerminalCall.runAll
    rw [List.foldlM_cons]
    refine ((call_spec h call).bind fun f hf => Yields.done hf.sound).bind fun t' ht' => ?_
    exact runAll_spec calls ht'

/-- What holds of a terminal after any calls. -/
structure AstraTerminal.InBounds (t : AstraTerminal) : Prop where
  row_lt : t.cursorRow < t.rows
  column_le : t.cursorColumn ≤ t.columns
  top_le : t.scrollTop ≤ t.scrollBottom
  bottom_lt : t.scrollBottom < t.rows
  restored_row : t.restoreCursor.cursorRow < t.rows
  restored_column : t.restoreCursor.cursorColumn ≤ t.columns
  echo_le : t.echoLength ≤ t.echoLine.length

theorem TerminalSound.inBounds (h : TerminalSound t) : t.InBounds := by
  have hrestored := (cursorTo_acts h t.savedCursorRow t.savedCursorColumn).sound.cursor
  exact ⟨h.cursor.row_lt, h.cursor.column_le, h.cursor.top_le, h.cursor.bottom_lt,
    hrestored.row_lt, hrestored.column_le, h.echo.length_le⟩

theorem astraTerminalCellAt_spec (h : TerminalSound t) (row column : ℕ) :
    Yields (astraTerminalCellAt t row column) fun _ => True := by
  refine Yields.ite (fun _ => Yields.done trivial) fun hin => ?_
  exact (h.shaped.loadCell (by omega) (by omega)).bind fun v _ => Yields.done trivial

/-- Once a terminal is set up, no call reads or writes outside its arrays, which lie within the
storage that they were given, and the terminal is in bounds after each of them. -/
theorem terminal_stays_in_bounds {columns rows capacityColumns capacityRows storage storageSize : ℕ}
    {render : Bool} {o : Option AstraTerminal} (h : astraTerminalInitCapacity columns rows
      capacityColumns capacityRows storage storageSize render = .ok o)
    (calls : List TerminalCall) :
    (∀ columns rows storage storageSize l, bindLayout columns rows storage storageSize = some l →
      l.Within columns rows storage storageSize) ∧
    Yields (o >>= TerminalCall.runAll calls) fun t => t.InBounds ∧ TerminalShaped t ∧
      (∀ call : TerminalCall, Yields (call.run t) fun f => f.terminal.InBounds) ∧
      ∀ row column, Yields (astraTerminalCellAt t row column) fun _ => True := by
  refine ⟨fun _ _ _ _ l hl => (bindLayout_spec hl).1, ?_⟩
  refine (astraTerminalInitCapacity_spec h).bind fun t ⟨ht, _⟩ => ?_
  exact (runAll_spec calls ht).mono fun t' ht' => ⟨ht'.inBounds, ht'.shaped,
    fun call => (call_spec ht' call).mono fun f hf => hf.sound.inBounds,
    astraTerminalCellAt_spec ht'⟩

theorem terminal_stays_in_bounds_small :
    ∃ o, astraTerminalInitCapacity 2 2 2 2 4 200 false = .ok o ∧
      Yields (o >>= TerminalCall.runAll [.putc 0x41, .resize 1 2 0 0]) fun t => t.InBounds := by
  obtain ⟨o, ho⟩ : ∃ o, astraTerminalInitCapacity 2 2 2 2 4 200 false = .ok o := ⟨_, rfl⟩
  exact ⟨o, ho, (terminal_stays_in_bounds ho _).2.mono fun _ ht => ht.1⟩

/-! ## The display -/

/-- A terminal, its display and where the cursor is drawn. -/
structure TerminalSession where
  terminal : AstraTerminal
  display : TerminalDisplay
  cursor : Option (ℕ × ℕ)

/-- A call, and what the display may show after it. -/
def TerminalCall.Steps (call : TerminalCall) (status : AstraTerminalStatus)
    (s s' : TerminalSession) : Prop :=
  ∃ f, call.run s.terminal = some f ∧ f.status = status ∧ s'.terminal = f.terminal ∧
    Shown f.draws s.display s'.display ∧
    (call.Flushes → status = .ok → s'.cursor = windowPresent f.terminal)

def TerminalDraw.paint (D : TerminalDisplay) : TerminalDraw → TerminalDisplay
  | .scroll rows preserved drawn => fun row column =>
    if drawn ∧ row < preserved then D (row + rows) column else D row column
  | .render row first cells drawn => fun r c =>
    if drawn ∧ r = row ∧ first ≤ c then (cells[c - first]?).getD (D r c) else D r c

theorem shows_paint (D : TerminalDisplay) (draw : TerminalDraw) : draw.Shows D (draw.paint D) := by
  cases draw with
  | scroll rows preserved drawn =>
    intro hdrawn row column hlt
    exact if_pos ⟨hdrawn, hlt⟩
  | render row first cells drawn =>
    constructor
    · intro r c hout
      dsimp only [TerminalDraw.paint]
      by_cases hin : drawn = true ∧ r = row ∧ first ≤ c
      · rw [if_pos hin, List.getElem?_eq_none (by omega), Option.getD_none]
      · rw [if_neg hin]
    · intro hdrawn i value hvalue
      dsimp only [TerminalDraw.paint]
      rw [if_pos ⟨hdrawn, rfl, Nat.le_add_right first i⟩, Nat.add_sub_cancel_left, hvalue,
        Option.getD_some]

theorem shown_paint : ∀ (draws : List TerminalDraw) (D : TerminalDisplay),
    Shown draws D (draws.foldl TerminalDraw.paint D)
  | [], _ => rfl
  | draw :: draws, D => ⟨draw.paint D, shows_paint D draw, shown_paint draws (draw.paint D)⟩

def TerminalCall.play (call : TerminalCall) (s : TerminalSession) :
    Option (AstraTerminalStatus × TerminalSession) := do
  let f ← call.run s.terminal
  some (f.status, ⟨f.terminal, f.draws.foldl TerminalDraw.paint s.display,
    windowPresent f.terminal⟩)

theorem steps_play (h : call.play s = some (status, s')) : call.Steps status s s' := by
  unfold TerminalCall.play at h
  cases hrun : call.run s.terminal with
  | none => simp [hrun] at h
  | some f =>
    simp only [hrun, Option.bind_eq_bind, Option.bind_some, Option.some.injEq, Prod.mk.injEq] at h
    obtain ⟨hstatus, rfl⟩ := h
    exact ⟨f, hrun, hstatus, rfl, shown_paint _ _, fun _ _ => rfl⟩

def playAll (calls : List TerminalCall) (s : TerminalSession) : Option TerminalSession :=
  calls.foldlM (fun s call => (call.play s).map Prod.snd) s

theorem reaches_playAll : ∀ (calls : List TerminalCall) {s s' : TerminalSession},
    playAll calls s = some s' → Relation.ReflTransGen (fun s s' =>
      ∃ (call : TerminalCall) (status : AstraTerminalStatus), call.Steps status s s') s s'
  | [], s, s', h => by
    cases h
    exact .refl
  | call :: calls, s, s', h => by
    unfold playAll at h
    rw [List.foldlM_cons, Option.bind_eq_bind, Option.bind_eq_some_iff] at h
    obtain ⟨s₁, hfirst, hrest⟩ := h
    obtain ⟨⟨status, s₂⟩, hplay, rfl⟩ := Option.map_eq_some_iff.1 hfirst
    exact .head ⟨call, status, steps_play hplay⟩ (reaches_playAll calls hrest)

/-- A call that does not scroll a part of the screen while the display is owed a scroll. -/
def SafeStep (s s' : TerminalSession) : Prop :=
  ∃ (call : TerminalCall) (status : AstraTerminalStatus), call.Steps status s s' ∧
    (s.terminal.Owes → call.Safe s.terminal)

structure SessionSound (s : TerminalSession) : Prop where
  sound : TerminalSound s.terminal
  render : s.terminal.render = true
  matched : Matches s.display s.terminal

theorem SessionSound.step {s s' : TerminalSession} (h : SessionSound s) (hs : SafeStep s s') :
    SessionSound s' := by
  obtain ⟨call, status, ⟨f, hrun, -, hterminal, hshown, -⟩, hsafe⟩ := hs
  have hf := (call_spec h.sound call).of_some hrun
  obtain ⟨hsound, hrender, hmatched, -⟩ := hf
  rw [← hterminal] at hsound hrender hmatched
  exact ⟨hsound, hrender.trans h.render, hmatched h.render hsafe _ _ h.matched hshown⟩

theorem SessionSound.run (h : SessionSound s)
    (hrun : Relation.ReflTransGen SafeStep s s') : SessionSound s' := by
  induction hrun with
  | refl => exact h
  | tail _ hs ih => exact ih.step hs

/-- Three lines and a flush; a new line, which the display is owed, and a line inserted in the
second row. -/
def insertBehindDebt : List TerminalCall :=
  .setScroll true :: ([0x41, 0x0a, 0x42, 0x0a, 0x43].map .putc ++
    .flush true (fun _ => true) :: [0x0a, 0x1b, 0x5b, 0x32, 0x48, 0x1b, 0x5b, 0x4c].map .putc)

end Astra
