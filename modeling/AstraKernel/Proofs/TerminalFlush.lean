import AstraKernel.Proofs.TerminalResize

/-!
# The flush draws what has changed

What the display shows after the calls of a flush. A scroll moves the preserved rows up, and a row
is drawn as it is given; what a failed call leaves of its rows, and what is below the preserved
ones, can be anything.
-/

namespace Astra

open List

variable {t t' : AstraTerminal} {row column : ℕ} {D D' : TerminalDisplay}

/-- What the display may show after a call. -/
def TerminalDraw.Shows (D D' : TerminalDisplay) : TerminalDraw → Prop
  | .scroll rows preserved drawn => drawn = true → ∀ row column, row < preserved →
      D' row column = D (row + rows) column
  | .render row first cells drawn =>
      (∀ r c, ¬(r = row ∧ first ≤ c ∧ c < first + cells.length) → D' r c = D r c) ∧
        (drawn = true → ∀ i value, cells[i]? = some value → D' row (first + i) = value)

/-- What it may show after several. -/
def Shown : List TerminalDraw → TerminalDisplay → TerminalDisplay → Prop
  | [], D, D' => D' = D
  | draw :: draws, D, D'' => ∃ D', draw.Shows D D' ∧ Shown draws D' D''

theorem Shown.single {draw : TerminalDraw} (h : Shown [draw] D D') : draw.Shows D D' := by
  obtain ⟨D₁, h₁, rfl⟩ := h
  exact h₁

def Clean (t : AstraTerminal) : Prop :=
  ∀ row column, row < t.rows → column < t.columns → ¬t.Dirty row column

theorem cleanRow_spec (h : TerminalSound t) (hr : row < t.rows) :
    Yields (t.storeDirty row 1 0) fun t' => Drawn t t' ∧ DirtySound t' ∧
      (∀ r c, t'.loadCell r c = t.loadCell r c) ∧
      ∀ r c, t'.Dirty r c ↔ r ≠ row ∧ t.Dirty r c := by
  have hrow := hr.trans_le h.shaped.rows_le
  have hf : row < t.dirtyFirst.length := by rwa [h.shaped.first_length]
  have hl : row < t.dirtyLast.length := by rwa [h.shaped.last_length]
  have hdirty : ∀ r c, AstraTerminal.Dirty { t with
      dirtyFirst := t.dirtyFirst.set row 1, dirtyLast := t.dirtyLast.set row 0 } r c ↔
      r ≠ row ∧ t.Dirty r c := by
    intro r c
    unfold AstraTerminal.Dirty
    by_cases he : r = row
    · subst he
      rw [List.getElem?_set_self hf, List.getElem?_set_self hl]
      constructor
      · rintro ⟨first, last, hfirst, hlast, h₁, h₂⟩
        cases hfirst
        cases hlast
        omega
      · rintro ⟨hne, -⟩
        exact (hne rfl).elim
    · rw [List.getElem?_set_ne (Ne.symm he), List.getElem?_set_ne (Ne.symm he)]
      exact ⟨fun hd => ⟨he, hd⟩, fun hd => hd.2⟩
  refine ⟨_, if_pos ⟨hf, hl⟩, ⟨_, _, _, _, rfl, rfl, length_set, length_set, rfl⟩, ?_,
    fun _ _ => rfl, hdirty⟩
  intro r first last hr' hfirst hlast hle
  by_cases he : r = row
  · subst he
    rw [List.getElem?_set_self hf] at hfirst
    rw [List.getElem?_set_self hl] at hlast
    cases hfirst
    cases hlast
    omega
  · rw [List.getElem?_set_ne (Ne.symm he)] at hfirst hlast
    exact h.dirty r first last hr' hfirst hlast hle

structure Flushed (t : AstraTerminal) (draws : List TerminalDraw) (f : TerminalFlush) : Prop where
  sound : TerminalSound f.terminal
  render : f.terminal.render = t.render
  cursor : f.terminal.cursorRow = t.cursorRow ∧ f.terminal.cursorColumn = t.cursorColumn ∧
    f.terminal.cursorVisible = t.cursorVisible
  pending : f.terminal.pendingScrolls = 0
  clean : f.status = .ok → Clean f.terminal
  matched : ∃ more, f.draws = draws ++ more ∧
    ∀ D D', Matches D t → Shown more D D' → Matches D' f.terminal

theorem TerminalSound.settled (h : TerminalSound t) (hp : t.pendingScrolls = 0)
    (hd : Drawn t t') (hdirty : DirtySound t') : TerminalSound t' := by
  have hsh := hd.shaped h.shaped
  obtain ⟨p, a, f, l, -, -, -, -, rfl⟩ := hd
  exact ⟨hsh, hdirty, ⟨h.debt.pending_le, fun hne => (hne hp).elim, fun ho => (ho.1 hp).elim⟩,
    h.cursor, h.csi, h.echo⟩

theorem not_owes (hp : t.pendingScrolls = 0) : ¬t.Owes := fun ho => ho.1 hp

theorem flushRows_spec (drawn : ℕ → Bool) : ∀ (n row : ℕ) {t : AstraTerminal}
    (draws : List TerminalDraw), TerminalSound t → t.pendingScrolls = 0 → row + n = t.rows →
    (∀ r c, r < row → c < t.columns → ¬t.Dirty r c) →
    Yields (AstraTerminal.flushRows drawn n row t draws) (Flushed t draws)
  | 0, row, t, draws, h, hp, hn, hclean => Yields.done ⟨h, rfl, ⟨rfl, rfl, rfl⟩, hp,
      fun _ r c hr hc => hclean r c (hr.trans_eq hn.symm) hc, [], (append_nil draws).symm,
      fun D D' hm hs => hs ▸ hm⟩
  | n + 1, row, t, draws, h, hp, hn, hclean => by
    have hr : row < t.rows := by omega
    obtain ⟨first, last, hf, hl⟩ := h.shaped.dirty hr
    have hdirty : ∀ c, t.Dirty row c ↔ first ≤ c ∧ c ≤ last := by
      intro c
      constructor
      · rintro ⟨f, l, hf', hl', hrange⟩
        rw [hf] at hf'
        rw [hl] at hl'
        cases hf'
        cases hl'
        exact hrange
      · exact fun hrange => ⟨first, last, hf, hl, hrange⟩
    unfold AstraTerminal.flushRows
    rw [hf, hl]
    simp only [Option.bind_eq_bind, Option.bind_some]
    refine Yields.ite (fun hgt => ?_) fun hle => ?_
    · refine flushRows_spec drawn n (row + 1) draws h hp (by omega) fun r c hr' hc => ?_
      rcases Nat.lt_succ_iff_lt_or_eq.1 hr' with hlt | rfl
      · exact hclean r c hlt hc
      · rw [hdirty]
        omega
    have hlast := h.dirty row first last hr hf hl (by omega)
    set cells := (t.active.drop (t.cell row first)).take (last - first + 1) with hcells
    have hrun : t.loadRun row first (last - first + 1) = some cells :=
      if_pos (h.shaped.cell_run hr (by omega))
    have hlen : cells.length = last - first + 1 := by
      have := h.shaped.cell_run hr (show first + (last - first + 1) ≤ t.columns by omega)
      rw [hcells, length_take, length_drop]
      omega
    have hcell : ∀ i, i < last - first + 1 → cells[i]? = t.loadCell row (first + i) := by
      intro i hi
      rw [hcells, List.getElem?_take_of_lt hi, List.getElem?_drop]
      unfold AstraTerminal.loadCell AstraTerminal.cell
      rw [Nat.add_assoc]
    rw [hrun]
    simp only [Option.bind_some]
    have hkeep : ∀ {drew : Bool} {D D' : TerminalDisplay}, Matches D t →
        (TerminalDraw.render row first cells drew).Shows D D' → Matches D' t := by
      intro drew D D' hm hs r c hr' hc hclean'
      have := hm r c hr' hc hclean'
      rw [moved_of_not_owes (not_owes hp)] at this ⊢
      rw [this, hs.1 r c ?_]
      rintro ⟨rfl, hge, hlt⟩
      exact hclean' ((hdirty c).2 ⟨hge, by omega⟩)
    cases hdrawn : drawn row with
    | false =>
      rw [if_pos rfl]
      exact Yields.done ⟨h, rfl, ⟨rfl, rfl, rfl⟩, hp, nofun, _, rfl,
        fun D D' hm hs => hkeep hm hs.single⟩
    | true =>
      rw [if_neg nofun]
      refine (cleanRow_spec h hr).bind fun t₁ ⟨hd, hsound, hcells₁, hdirty₁⟩ => ?_
      have h₁ := h.settled hp hd hsound
      have hsame : t₁.rows = t.rows ∧ t₁.columns = t.columns ∧ t₁.render = t.render ∧
          (t₁.cursorRow = t.cursorRow ∧ t₁.cursorColumn = t.cursorColumn ∧
            t₁.cursorVisible = t.cursorVisible) ∧ t₁.pendingScrolls = 0 := by
        obtain ⟨p, a, f, l, -, -, -, -, rfl⟩ := hd
        exact ⟨rfl, rfl, rfl, ⟨rfl, rfl, rfl⟩, hp⟩
      obtain ⟨hrows, hcolumns, hrender, hcursor, hp₁⟩ := hsame
      refine (flushRows_spec drawn n (row + 1) _ h₁ hp₁ (by omega) fun r c hr' hc => ?_).mono
        fun f hflushed => ⟨hflushed.sound, hflushed.render.trans hrender,
          ⟨hflushed.cursor.1.trans hcursor.1, hflushed.cursor.2.1.trans hcursor.2.1,
            hflushed.cursor.2.2.trans hcursor.2.2⟩, hflushed.pending, hflushed.clean, ?_⟩
      · rw [hdirty₁]
        rcases Nat.lt_succ_iff_lt_or_eq.1 hr' with hlt | rfl
        · exact fun hx => hclean r c hlt (by rwa [hcolumns] at hc) hx.2
        · exact fun hx => hx.1 rfl
      · obtain ⟨more, hmore, hmatched⟩ := hflushed.matched
        refine ⟨_ :: more, by rw [hmore, append_assoc, singleton_append], ?_⟩
        rintro D D'' hm ⟨D', hs, hrest⟩
        refine hmatched D' D'' (fun r c hr' hc hclean' => ?_) hrest
        rw [hrows] at hr'
        rw [hcolumns] at hc
        rw [moved_of_not_owes (not_owes hp₁), hcells₁]
        rw [hdirty₁, not_and] at hclean'
        by_cases hwas : t.Dirty r c
        · -- the row that has just been drawn
          have he : r = row := not_not.1 fun hne => hclean' hne hwas
          subst he
          have hrange := (hdirty c).1 hwas
          have hi : c - first < last - first + 1 := by omega
          have hvalue := hcell (c - first) hi
          rw [show first + (c - first) = c by omega] at hvalue
          obtain ⟨v, hv, -⟩ := h.shaped.loadCell hr hc
          have := hs.2 rfl (c - first) v (hvalue.trans hv)
          rw [show first + (c - first) = c by omega] at this
          rw [hv, this]
        · have := hkeep hm hs r c hr' hc hwas
          rwa [moved_of_not_owes (not_owes hp)] at this

theorem astraTerminalFlush_spec (h : TerminalSound t) (hrender : t.render = true) (scrolled : Bool)
    (drawn : ℕ → Bool) : Yields (astraTerminalFlush t scrolled drawn) (Flushed t []) := by
  unfold astraTerminalFlush
  rw [if_neg (by simp [hrender])]
  have hforgiven : TerminalSound { t with pendingScrolls := 0 } :=
    ⟨h.shaped, h.dirty, ⟨Nat.zero_le _, fun hne => (hne rfl).elim, fun ho => (ho.1 rfl).elim⟩,
      h.cursor, h.csi, h.echo⟩
  by_cases howes : t.Owes
  · dsimp only
    rw [if_pos (show t.pendingScrolls ≠ 0 ∧ t.scrollRedrawFrom ≠ 0 from howes)]
    cases scrolled with
    | false =>
      rw [if_pos ⟨howes.1, howes.2, rfl⟩]
      refine (markAll_spec hforgiven.shaped).bind fun t₁ ⟨hd, hdirty, hall⟩ => Yields.done ?_
      have hs := hforgiven.settled rfl hd hdirty
      obtain ⟨p, a, f, l, -, -, -, -, rfl⟩ := hd
      exact ⟨hs, rfl, ⟨rfl, rfl, rfl⟩, rfl, nofun, _, rfl, fun D D' _ _ => hall.matches_any D'⟩
    | true =>
      rw [if_neg (by simp)]
      have hle := h.debt.pending_le
      rw [sub32_of_le hle]
      refine (flushRows_spec drawn t.rows 0 _ hforgiven rfl (Nat.zero_add _)
        fun r c hr => absurd hr (Nat.not_lt_zero _)).mono fun f hf => ⟨hf.sound, hf.render,
        hf.cursor, hf.pending, hf.clean, ?_⟩
      obtain ⟨more, hmore, hmatched⟩ := hf.matched
      refine ⟨_, hmore, ?_⟩
      rintro D D'' hm ⟨D', hs, hrest⟩
      refine hmatched D' D'' (fun r c hr hc hclean => ?_) hrest
      rw [moved_of_not_owes (not_owes rfl)]
      -- a row that is not recorded as changed is one that the scroll preserves
      have hlt : r < t.scrollRedrawFrom :=
        Nat.lt_of_not_le fun hge => hclean (h.debt.redrawn howes.1 r c hge hr hc)
      have hcovered := h.debt.covered howes
      have hcell := hm r c hr hc hclean
      unfold AstraTerminal.moved at hcell
      rw [if_pos howes] at hcell
      rw [hs rfl r c (by omega)]
      exact hcell
  · dsimp only
    rw [if_neg (show ¬(t.pendingScrolls ≠ 0 ∧ t.scrollRedrawFrom ≠ 0) from howes), if_neg fun hx => howes ⟨hx.1, hx.2.1⟩]
    refine (flushRows_spec drawn t.rows 0 [] hforgiven rfl (Nat.zero_add _)
      fun r c hr => absurd hr (Nat.not_lt_zero _)).mono fun f hf => ⟨hf.sound, hf.render,
      hf.cursor, hf.pending, hf.clean, ?_⟩
    obtain ⟨more, hmore, hmatched⟩ := hf.matched
    refine ⟨more, hmore, fun D D' hm hs => hmatched D D' (fun r c hr hc hclean => ?_) hs⟩
    rw [moved_of_not_owes (not_owes rfl)]
    have hcell := hm r c hr hc hclean
    rwa [moved_of_not_owes howes] at hcell

theorem astraTerminalFlush_blind (h : TerminalSound t) (hrender : t.render = false)
    (scrolled : Bool) (drawn : ℕ → Bool) :
    Yields (astraTerminalFlush t scrolled drawn) fun f => TerminalSound f.terminal ∧
      f.terminal.render = t.render := by
  unfold astraTerminalFlush
  rw [if_pos hrender]
  refine (clearDamage_spec h.shaped).bind fun t₁ ⟨hd, hdirty, _⟩ => Yields.done ?_
  have hsh := hd.shaped h.shaped
  obtain ⟨p, a, f, l, -, -, -, -, rfl⟩ := hd
  exact ⟨⟨hsh, hdirty, ⟨Nat.zero_le _, fun hne => (hne rfl).elim, fun ho => (ho.1 rfl).elim⟩,
    h.cursor, h.csi, h.echo⟩, rfl⟩

end Astra
