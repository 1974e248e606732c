import AstraKernel.Proofs.StreamRuns

/-!
# Sessions on a terminal stream

Whatever happens to a source, its replies are the ones of the line that was typed, while its steps
are steady (`TtyRun.SteadyMove`).
-/

namespace Astra

namespace LineStream

def items (reply : AstraStreamData) : List LineItem :=
  reply.bytes.map .byte ++ if reply.endOfFile then [.endOfFile] else []

end LineStream

namespace TtyRun

variable {σ : TtyRun} {s : AstraStreamSource} {l : LineStream}

/-- Bytes are offered where no line is unfinished and no mark pending. -/
def Offered (s : AstraStreamSource) (bytes : List UInt8) : Prop :=
  bytes ≠ [] → s.length < s.capacity → s.length = s.committed ∧ s.eofPending = false

def SteadyMove (σ : TtyRun) : TtyMove → Prop
  | .input bytes =>
    match σ.source.tty with
    | none => Offered σ.source bytes
    | some tty => tty.SteadyInput σ.source bytes
  | .offer bytes => Offered σ.source bytes
  | .rebind _ capacity => σ.source.length ≤ capacity → 0 < capacity ∧ capacity ≤ 2 ^ 31 ∧
    (σ.source.length = capacity → σ.source.committed ≠ 0)
  | .set _ | .read _ _ => True

def SteadyStep (σ σ' : TtyRun) : Prop := ∃ m, σ.SteadyMove m ∧ σ.move m = σ'

theorem keeps_start {storage : ℕ → UInt8} {capacity : ℕ} (tty : Option AstraTtyState)
    (hpos : 0 < capacity) (hsmall : capacity ≤ 2 ^ 31) :
    HoldsLine (start storage capacity tty).source (start storage capacity tty).line := by
  have hinit : HoldsLine (AstraStreamSource.initStorage storage capacity) .empty :=
    ⟨⟨hpos, hsmall, hpos, le_rfl, Nat.zero_le _⟩, rfl, rfl, rfl, fun h => absurd h.symm hpos.ne'⟩
  cases tty with
  | none => exact hinit
  | some tty => exact hinit.congr rfl rfl rfl rfl rfl rfl rfl

theorem keeps_set (h : HoldsLine s l) (request : AstraTtySet) :
    HoldsLine (s.ttySet request).1
      (if (s.ttySet request).2 = 0 ∧ request.action.any (·.flushesInput) then .empty else l) := by
  have hsettings : ∀ {s : AstraStreamSource} {l : LineStream} (tty : AstraTtyState),
      HoldsLine s l → HoldsLine { s with tty := some tty } l :=
    fun _ h => h.congr rfl rfl rfl rfl rfl rfl rfl
  unfold AstraStreamSource.ttySet
  split
  next tty action htty haction =>
    rw [haction]
    split_ifs with hvalid hflush hflush
    · cases action
      case applyDrainFlushInput => exact hsettings _ h.flush
      case flushInput | flushBoth => exact h.flush
      all_goals exact absurd hflush.2 Bool.false_ne_true
    · cases action
      case applyNow | applyDrain => exact hsettings _ h
      case flushOutput => exact h
      all_goals exact absurd ⟨rfl, rfl⟩ hflush
    · exact absurd hflush.1 (by decide)
    · exact h
  · rw [if_neg (by simp)]
    exact h

theorem move_keeps {m : TtyMove} (h : HoldsLine σ.source σ.line) (hreplies : σ.replies = σ.expected)
    (hm : σ.SteadyMove m) :
    HoldsLine (σ.move m).source (σ.move m).line ∧ (σ.move m).replies = (σ.move m).expected := by
  cases m with
  | input bytes =>
    refine ⟨?_, hreplies⟩
    unfold SteadyMove at hm
    unfold move AstraStreamSource.ttyInput
    cases htty : σ.source.tty with
    | none =>
      rw [htty] at hm
      exact h.offer bytes hm
    | some tty =>
      rw [htty] at hm
      exact ttyLoop_keeps h hm
  | offer bytes => exact ⟨h.offer bytes hm, hreplies⟩
  | set request => exact ⟨keeps_set h request, hreplies⟩
  | rebind storage capacity => exact ⟨h.rebind storage capacity hm, hreplies⟩
  | read capacity sent =>
    cases sent with
    | false => exact ⟨h, hreplies⟩
    | true =>
      obtain ⟨hspend, hreply⟩ := h.read capacity
      refine ⟨hspend, ?_⟩
      change σ.replies ++ [_] = σ.expected ++ [_]
      rw [hreplies, hreply]
      rfl

/-- The counters stay in bounds, the event is set where something can be read, the replies are the
line's, a full buffer has something to read, and it does not matter how the input is cut. -/
theorem line_stream_kept {storage : ℕ → UInt8} {capacity : ℕ} {tty : Option AstraTtyState}
    (hpos : 0 < capacity) (hsmall : capacity ≤ 2 ^ 31)
    (h : Relation.ReflTransGen SteadyStep (start storage capacity tty) σ) :
    (σ.source.head < σ.source.capacity ∧ σ.source.committed ≤ σ.source.length ∧
      σ.source.length ≤ σ.source.capacity) ∧
    (σ.source.readable = true ↔ σ.source.committed ≠ 0 ∨ σ.source.eofPending = true) ∧
    σ.replies = σ.expected ∧
    (σ.source.length = σ.source.capacity → σ.source.committed ≠ 0) ∧
    ∀ first second, (σ.source.ttyInput first).2 = first.length →
      (σ.source.ttyInput (first ++ second)).1.view =
          ((σ.source.ttyInput first).1.ttyInput second).1.view ∧
        (σ.source.ttyInput (first ++ second)).2 =
          first.length + ((σ.source.ttyInput first).1.ttyInput second).2 := by
  have hkeeps : HoldsLine σ.source σ.line ∧ σ.replies = σ.expected := by
    induction h with
    | refl => exact ⟨keeps_start tty hpos hsmall, rfl⟩
    | tail _ hstep ih =>
      obtain ⟨m, hm, rfl⟩ := hstep
      exact move_keeps ih.1 ih.2 hm
  obtain ⟨hk, hreplies⟩ := hkeeps
  refine ⟨⟨hk.bounded.head, hk.bounded.committed, hk.bounded.length⟩, ?_, hreplies, hk.flowing,
    fun first second hall => ttyInput_append hk.bounded hk.event second hall⟩
  rw [hk.event, AstraStreamSource.ready, Bool.or_eq_true, bne_iff_ne]

/-! ## One session -/

instance (tty : AstraTtyState) (s : AstraStreamSource) (byte : UInt8) :
    Decidable (tty.Steady s byte) := by
  unfold AstraTtyState.Steady
  split <;> infer_instance

instance decidableSteadyInput (tty : AstraTtyState) :
    ∀ (s : AstraStreamSource) (bytes : List UInt8), Decidable (tty.SteadyInput s bytes)
  | _, [] => isTrue trivial
  | s, byte :: bytes =>
    match h : AstraStreamSource.ttyByte tty s byte with
    | none => decidable_of_iff (tty.Steady s byte)
      ⟨fun hs => ⟨hs, fun s' hs' => by rw [h] at hs'; cases hs'⟩, And.left⟩
    | some s' =>
      have := decidableSteadyInput tty s' bytes
      decidable_of_iff (tty.Steady s byte ∧ tty.SteadyInput s' bytes)
        ⟨fun hs => ⟨hs.1, fun s'' hs' => by rw [h] at hs'; cases hs'; exact hs.2⟩,
          fun hs => ⟨hs.1, hs.2 s' h⟩⟩

instance (s : AstraStreamSource) (bytes : List UInt8) : Decidable (Offered s bytes) := by
  unfold Offered
  infer_instance

instance (σ : TtyRun) (m : TtyMove) : Decidable (σ.SteadyMove m) := by
  cases m <;> unfold SteadyMove
  case input bytes =>
    cases σ.source.tty with
    | none => exact inferInstanceAs (Decidable (Offered σ.source bytes))
    | some tty => exact inferInstanceAs (Decidable (tty.SteadyInput σ.source bytes))
  all_goals infer_instance

def playSteadily (σ : TtyRun) : List TtyMove → Option TtyRun
  | [] => some σ
  | m :: moves => if σ.SteadyMove m then (σ.move m).playSteadily moves else none

theorem reach_playSteadily : ∀ {moves : List TtyMove} {σ σ' : TtyRun},
    σ.playSteadily moves = some σ' → Relation.ReflTransGen SteadyStep σ σ'
  | [], _, _, h => Option.some.inj h ▸ .refl
  | m :: moves, σ, σ', h => by
    rw [playSteadily] at h
    split at h
    next hm => exact .head ⟨m, hm, rfl⟩ (reach_playSteadily h)
    next => cases h

def play (σ : TtyRun) (moves : List TtyMove) : TtyRun := moves.foldl move σ

/-- A terminal with the settings it starts with. -/
def terminal (capacity : ℕ) : TtyRun := start (fun _ => 0) capacity (some astraStreamTtyStateInit)

/-- An edited line, and an end of file behind it. -/
theorem line_stream_kept_edited :
    ∃ σ : TtyRun, σ.replies = [⟨[97, 99, 10], false⟩, ⟨[], true⟩] ∧ σ.replies = σ.expected := by
  have hrun : (((terminal 8).playSteadily [.input [97, 98, 0x7f], .input [99, 13, 4],
      .read 8 true, .read 8 true]).map fun σ => σ.replies) =
        some [⟨[97, 99, 10], false⟩, ⟨[], true⟩] := by decide +kernel
  obtain ⟨σ, hσ, heq⟩ := Option.map_eq_some_iff.mp hrun
  exact ⟨σ, heq, (line_stream_kept (by decide) (by decide) (reach_playSteadily hσ)).2.2.1⟩

/-- Bytes typed behind an end of file come before it; bytes offered behind an unfinished line give
its first bytes away; a line that fills the buffer can neither be read nor finished; and a source
without input takes a storage of no bytes. -/
theorem line_stream_broken :
    ((terminal 8).play [.input [4], .input [97, 10], .read 8 true]).replies =
        [⟨[97, 10], false⟩] ∧
    ((terminal 8).play [.input [4], .input [97, 10], .read 8 true]).expected = [⟨[], true⟩] ∧
    ((terminal 8).play [.input [120], .offer [113], .read 8 true]).replies = [⟨[120], false⟩] ∧
    ((terminal 8).play [.input [120], .offer [113], .read 8 true]).expected = [⟨[113], false⟩] ∧
    ((terminal 2).play [.input [97, 98], .read 8 true]).replies = [⟨[], false⟩] ∧
    (((terminal 2).play [.input [97, 98], .read 8 true]).source.ttyInput [13]).2 = 0 ∧
    ((terminal 8).play [.rebind (fun _ => 0) 0]).source.capacity = 0 := by
  decide +kernel

end TtyRun

end Astra
