import AstraKernel.Proofs.PortRoles

/-!
# Runs of a port client

Each step of a thread accounts for what it changes (`PortPc.move`), so every run whose steps find
what they rely on keeps the client sound (`port_client_lifecycle`). Other runs leave it failed for
good, tear it down under a caller, or let a close return early.
-/

namespace Astra

section Step

variable {w w' : PortWords} {n : PortRole → ℕ} {pc pc' : PortPc} {c : PortChoice}

def PortPc.SteadyAt (w : PortWords) (n : PortRole → ℕ) : PortPc → Prop
  | .undo _ => w.inflight = 1 → w.lifecycle = .failed → n .finishing ≠ 0
  | .leaveLoad => w.lifecycle = .failed → n .inside = 0
  | .closing _ => w.lifecycle ≠ .draining
  | .finish (.drain (.close _)) | .finishSwap (.drain (.close _)) _ => w.lifecycle ≠ .cleaning
  | _ => True

section

variable (h : PortSound w n)
include h

theorem PortSound.not_usable (hn : 1 ≤ n .settled) : ¬w.lifecycle.Usable :=
  fun hu => by
    have := h.settled hu
    omega

theorem PortSound.nobody_inside (hn : 1 ≤ n .quiet) : n .inside = 0 :=
  h.quiet.resolve_left (by omega)

theorem PortSound.nobody_quiet (hfit : RolesFit n) (hl : w.lifecycle = .opened) : n .quiet = 0 := by
  have h1 := h.settled (.inl hl)
  have h2 := h.opened hl
  have h3 := hfit.quiet
  omega

theorem PortSound.nobody_inside_idle (hfit : RolesFit n) (hw : w.inflight = 0) : n .inside = 0 := by
  have h1 := h.inflight
  have h2 := hfit.inside
  omega

theorem PortSound.nobody_asleep (hfit : RolesFit n)
    (hw : w.inflightWaiters = 0) : n .idleAsleep = 0 := by
  have h1 := h.waiters
  have h2 := hfit.idleAsleep
  omega

end

/-! ### In and out -/

variable {abandon hello : Bool} {d : PortDrain} {f : PortFailure} {l : PortLifecycle}

theorem enterWait_move (hle : ∀ r, (PortPc.enterWait hello).roles.count r ≤ n r)
    (hstep : (PortPc.enterWait hello).step w c = some (w', pc')) :
    PortMove w w' n (PortPc.enterWait hello).roles pc'.roles := by
  cases hstep
  split_ifs with hl
  · exact .read [.refreshAsleep] [] hle (fun r => by cases r <;> rfl) (by simpa [PortRole.Gains])
      (by simp) (by simp) (by simp)
  · exact .same

theorem entering_move (hstep : (PortPc.entering hello).step w c = some (w', pc')) :
    PortMove w w' n (PortPc.entering hello).roles pc'.roles := by
  cases hstep
  show PortMove w _ n [] [.counted]
  constructor <;> simp +contextual [SleepMove]

theorem entered_move (h : PortSound w n) (hfit : RolesFit n)
    (hle : ∀ r, (PortPc.entered hello).roles.count r ≤ n r)
    (hstep : (PortPc.entered hello).step w c = some (w', pc')) :
    PortMove w w' n (PortPc.entered hello).roles pc'.roles := by
  dsimp only [PortPc.step] at hstep
  by_cases hl : w.lifecycle = .opened
  · have hq := h.nobody_quiet hfit hl
    have hmove : PortMove w w n [.counted] [.counted, .inside] :=
      .read [.inside] [] hle (fun r => by cases r <;> rfl) (by simp [PortRole.Gains, hq, hl])
        (by simp) (by simp) (by simp)
    rw [if_pos hl] at hstep
    cases hello <;> cases hstep <;> exact hmove
  · rw [if_neg hl] at hstep
    cases hstep
    exact .same

theorem undo_move (h : PortSound w n) (hle : 1 ≤ n .counted)
    (hsteady : PortPc.SteadyAt w n (.undo hello))
    (hstep : (PortPc.undo hello).step w c = some (w', pc')) :
    PortMove w w' n (PortPc.undo hello).roles pc'.roles := by
  have hinflight := h.inflight
  cases hstep
  split
  · show PortMove w _ n [.counted] [.inflightWake]
    constructor
    case inflight =>
      simp
      omega
    case finishing =>
      intro hl
      have hn := hsteady (by omega) hl
      simp
      omega
    all_goals simp +contextual [SleepMove]
  · rename_i h0
    show PortMove w _ n [.counted] []
    constructor
    case inflight =>
      simp
      omega
    case finishing => exact fun _ => .inr (.inl h0)
    case idleAsleep => exact .inr (.inl h0)
    all_goals simp +contextual [SleepMove]

theorem undoWaiters_move (h : PortSound w n) (hfit : RolesFit n)
    (hle : ∀ r, (PortPc.undoWaiters hello).roles.count r ≤ n r)
    (hstep : (PortPc.undoWaiters hello).step w c = some (w', pc')) :
    PortMove w w' n (PortPc.undoWaiters hello).roles pc'.roles := by
  cases hstep
  split_ifs with hw
  · exact .same
  · have hasleep := h.nobody_asleep hfit (not_not.1 hw)
    exact .read [] [.inflightWake] hle (fun r => by cases r <;> rfl) (by simp)
      (by simpa [PortRole.Loses]) (by simp) (by simp)

theorem undoWake_move (hwoken : n .idleAsleep = 0)
    (hle : ∀ r, (PortPc.undoWake hello).roles.count r ≤ n r)
    (hstep : (PortPc.undoWake hello).step w c = some (w', pc')) :
    PortMove w w' n (PortPc.undoWake hello).roles pc'.roles := by
  cases hstep
  exact .read [] [.inflightWake] hle (fun r => by cases r <;> rfl) (by simp)
    (by simpa [PortRole.Loses]) (by simp) (by simp)

theorem leave_move (h : PortSound w n) (hle : 1 ≤ n .counted)
    (hstep : PortPc.leave.step w c = some (w', pc')) :
    PortMove w w' n PortPc.leave.roles pc'.roles := by
  have hinflight := h.inflight
  cases hstep
  split
  · show PortMove w _ n [.counted, .inside] [.finishing, .inflightWake]
    constructor
    case inflight =>
      simp
      omega
    all_goals simp +contextual [SleepMove]
  · rename_i h0
    show PortMove w _ n [.counted, .inside] []
    constructor
    case inflight =>
      simp
      omega
    case finishing => exact fun _ => .inr (.inl h0)
    case idleAsleep => exact .inr (.inl h0)
    all_goals simp +contextual [SleepMove]

theorem leaveWaiters_move (h : PortSound w n) (hfit : RolesFit n)
    (hle : ∀ r, PortPc.leaveWaiters.roles.count r ≤ n r)
    (hstep : PortPc.leaveWaiters.step w c = some (w', pc')) :
    PortMove w w' n PortPc.leaveWaiters.roles pc'.roles := by
  cases hstep
  split_ifs with hw
  · exact .same
  · have hasleep := h.nobody_asleep hfit (not_not.1 hw)
    exact .read [] [.inflightWake] hle (fun r => by cases r <;> rfl) (by simp)
      (by simpa [PortRole.Loses]) (by simp) (by simp)

theorem leaveWake_move (hwoken : n .idleAsleep = 0)
    (hle : ∀ r, PortPc.leaveWake.roles.count r ≤ n r)
    (hstep : PortPc.leaveWake.step w c = some (w', pc')) :
    PortMove w w' n PortPc.leaveWake.roles pc'.roles := by
  cases hstep
  exact .read [] [.inflightWake] hle (fun r => by cases r <;> rfl) (by simp)
    (by simpa [PortRole.Loses]) (by simp) (by simp)

theorem leaveLoad_move (hle : ∀ r, PortPc.leaveLoad.roles.count r ≤ n r)
    (hsteady : PortPc.SteadyAt w n .leaveLoad)
    (hstep : PortPc.leaveLoad.step w c = some (w', pc')) :
    PortMove w w' n PortPc.leaveLoad.roles pc'.roles := by
  cases hstep
  split
  · rename_i hl
    have hinside : n .inside = 0 := hsteady hl
    exact .read [.settled, .quiet] [] hle (fun r => by cases r <;> rfl)
      (by simp [PortRole.Gains, hl, hinside]) (by simp) (by simp) (fun _ => rfl)
  · rename_i hl
    exact .read [] [.finishing] hle (fun r => by cases r <;> rfl) (by simp)
      (by simp [PortRole.Loses, hl]) (by simp) (by simp)

theorem connectSwap_move (hstep : PortPc.connectSwap.step w c = some (w', pc')) :
    PortMove w w' n PortPc.connectSwap.roles pc'.roles := by
  dsimp only [PortPc.step] at hstep
  split_ifs at hstep <;> cases hstep
  · show PortMove w _ n [.counted, .inside] [.counted, .inside, .connecting]
    constructor <;> simp +contextual [SleepMove]
  · exact .same

theorem connectWait_move (hle : ∀ r, PortPc.connectWait.roles.count r ≤ n r)
    (hstep : PortPc.connectWait.step w c = some (w', pc')) :
    PortMove w w' n PortPc.connectWait.roles pc'.roles := by
  cases hstep
  split_ifs with hw
  · exact .read [.connectAsleep] [] hle (fun r => by cases r <;> rfl)
      (by simp [PortRole.Gains, hw]) (by simp) (by simp) (by simp)
  · exact .same

theorem done_move (hstep : PortPc.done.step w c = some (w', pc')) :
    PortMove w w' n PortPc.done.roles pc'.roles := by
  cases hstep
  show PortMove w _ n [.counted, .inside, .connecting] [.counted, .inside, .connectingWake]
  constructor <;> simp +contextual [SleepMove]

theorem connectWake_move (hwoken : n .connectAsleep = 0)
    (hle : ∀ r, PortPc.connectWake.roles.count r ≤ n r)
    (hstep : PortPc.connectWake.step w c = some (w', pc')) :
    PortMove w w' n PortPc.connectWake.roles pc'.roles := by
  cases hstep
  exact .read [] [.connectingWake] hle (fun r => by cases r <;> rfl) (by simp)
    (by simpa [PortRole.Loses]) (by simp) (by simp)

theorem exchange_move {ended here : PortPc}
    (hended : ended.roles = f.roles) (hhere : here.roles = f.roles)
    (hstep : w.exchange ended here f c = some (w', pc')) : PortMove w w' n f.roles pc'.roles := by
  cases c <;> cases hstep
  · rw [hended]
    exact .same
  · exact .same
  · rw [hhere]
    exact { PortMove.same with }

/-! ### Failures -/

theorem canFail_of_usable (h : l.Usable) : l.canFail = true := by
  rcases h with rfl | rfl <;> rfl

theorem failRead_move (hle : ∀ r, f.roles.count r ≤ n r) :
    PortMove w w n f.roles (w.failRead f).roles := by
  unfold PortWords.failRead
  split_ifs with hl
  · exact .same
  · cases f with
    | call =>
      have hnot : ¬w.lifecycle.Usable := fun hu => hl (canFail_of_usable hu)
      exact .read [.settled] [] hle (fun r => by cases r <;> rfl)
        (by simpa [PortRole.Gains] using hnot) (by simp) (by simp) (by simp)
    | inside | bye | refresh => exact .same

theorem PortSound.failure (h : PortSound w n) (hle : ∀ r, f.roles.count r ≤ n r) :
    w.inflight ≠ 0 ∨ n .finishing ≠ 0 := by
  have hinflight := h.inflight
  have hcounted := hle .counted
  have hfinishing := hle .finishing
  rcases f with (_ | _) | _ | _ | _ <;> simp at hcounted hfinishing <;> omega

theorem failSwap_move {state : { l : PortLifecycle // l.canFail }}
    (h : PortSound w n) (hle : ∀ r, f.roles.count r ≤ n r)
    (hstep : (PortPc.failSwap f state).step w c = some (w', pc')) :
    PortMove w w' n (PortPc.failSwap f state).roles pc'.roles := by
  have hfinishing := hle .finishing
  obtain ⟨l, hcan⟩ := state
  dsimp only [PortPc.step] at hstep
  split at hstep
  · rename_i hl
    cases hstep
    have hcleaning : w.lifecycle ≠ .cleaning := fun h0 => by
      simp [← hl, h0, PortLifecycle.canFail] at hcan
    have hclosed : w.lifecycle ≠ .closed := fun h0 => by
      simp [← hl, h0, PortLifecycle.canFail] at hcan
    show PortMove w _ n f.roles ([.settled, .lifecycleWake] ++ f.roles)
    generalize hroles : f.roles = roles at hfinishing
    constructor
    case finishing =>
      intro _
      rcases h.failure hle with h1 | h1
      · exact .inr (.inl h1)
      · refine .inr (.inr ?_)
        simp
        omega
    all_goals simp +contextual [SleepMove, hcleaning, hclosed]
  · cases hstep
    exact failRead_move hle

theorem failConnecting_move (hstep : (PortPc.failConnecting f).step w c = some (w', pc')) :
    PortMove w w' n (PortPc.failConnecting f).roles pc'.roles := by
  cases hstep
  show PortMove w _ n ([.settled, .lifecycleWake] ++ f.roles)
    ([.settled, .lifecycleWake, .connectingWake] ++ f.roles)
  generalize f.roles = roles
  constructor <;> simp +contextual [SleepMove]

theorem failConnectWake_move (hwoken : n .connectAsleep = 0)
    (hle : ∀ r, (PortPc.failConnectWake f).roles.count r ≤ n r)
    (hstep : (PortPc.failConnectWake f).step w c = some (w', pc')) :
    PortMove w w' n (PortPc.failConnectWake f).roles pc'.roles := by
  cases hstep
  have hcount : ∀ r, (PortPc.failWake f).roles.count r + [PortRole.connectingWake].count r =
      (PortPc.failConnectWake f).roles.count r + ([] : List PortRole).count r := fun r => by
    rcases f with (_ | _) | _ | _ | _ <;> cases r <;> rfl
  exact .read [] [.connectingWake] hle hcount (by simp) (by simpa [PortRole.Loses]) (by simp)
    (by simp)

theorem failWake_move (hrefresh : n .refreshAsleep = 0)
    (hclean : n .cleanAsleep = 0) (hle : ∀ r, (PortPc.failWake f).roles.count r ≤ n r)
    (hstep : (PortPc.failWake f).step w c = some (w', pc')) :
    PortMove w w' n (PortPc.failWake f).roles pc'.roles := by
  cases hstep
  cases f with
  | call =>
    exact .read [] [.lifecycleWake] hle (fun r => by cases r <;> rfl) (by simp)
      (by simp [PortRole.Loses, hrefresh, hclean]) (by simp) (by simp)
  | inside holds =>
    exact .read [] [.settled, .lifecycleWake] hle (fun r => by cases holds <;> cases r <;> rfl)
      (by simp) (by simp [PortRole.Loses, hrefresh, hclean]) (by simp) (by simp)
  | bye | refresh =>
    exact .read [] [.settled, .lifecycleWake] hle (fun r => by cases r <;> rfl)
      (by simp) (by simp [PortRole.Loses, hrefresh, hclean]) (by simp) (by simp)

theorem failInflight_move (h : PortSound w n) (hfit : RolesFit n)
    (hle : ∀ r, PortPc.failInflight.roles.count r ≤ n r)
    (hstep : PortPc.failInflight.step w c = some (w', pc')) :
    PortMove w w' n PortPc.failInflight.roles pc'.roles := by
  cases hstep
  split_ifs with hw
  · have hinside := h.nobody_inside_idle hfit hw
    exact .read [.quiet] [] hle (fun r => by cases r <;> rfl) (by simpa [PortRole.Gains])
      (by simp) (by simp) (fun _ => rfl)
  · exact .read [] [.settled, .finishing] hle (fun r => by cases r <;> rfl) (by simp)
      (by simp [PortRole.Loses, hw]) (by simp) (by simp)

/-! ### Draining and waiting -/

theorem drain_move (hle : ∀ r, (PortPc.drain d).roles.count r ≤ n r)
    (hstep : (PortPc.drain d).step w c = some (w', pc')) :
    PortMove w w' n (PortPc.drain d).roles pc'.roles := by
  by_cases hl : w.lifecycle = .opened
  · simp only [PortPc.step, hl, Option.some.injEq, Prod.mk.injEq] at hstep
    obtain ⟨rfl, rfl⟩ := hstep
    show PortMove w _ n d.roles [.settled, .draining, .finishing]
    cases d <;> constructor <;> simp +contextual [SleepMove, hl]
  · have hcases : (w' = w ∧ pc' = .drainWait d) ∨ ¬w.lifecycle.Usable ∧ w' = w ∧
        (∃ abandon, d = .close abandon ∧ pc' = .closing abandon ∨ d = .bye ∧ pc' = .out) := by
      cases hw : w.lifecycle <;> cases d <;> simp_all [PortPc.step]
    rcases hcases with ⟨rfl, rfl⟩ | ⟨hnot, rfl, abandon, ⟨rfl, rfl⟩ | ⟨rfl, rfl⟩⟩
    · exact .same
    · exact .read [.settled] [] hle (fun r => by cases r <;> rfl)
        (by simpa [PortRole.Gains] using hnot) (by simp) (by simp) (by simp)
    · exact .same

theorem drainWait_move (hle : ∀ r, (PortPc.drainWait d).roles.count r ≤ n r)
    (hstep : (PortPc.drainWait d).step w c = some (w', pc')) :
    PortMove w w' n (PortPc.drainWait d).roles pc'.roles := by
  cases hstep
  split_ifs with hl
  · exact .read [.refreshAsleep] [] hle (fun r => by cases d <;> cases r <;> rfl)
      (by simpa [PortRole.Gains]) (by simp) (by simp) (by simp)
  · exact .same

theorem idle_move {i : PortIdle} (h : PortSound w n) (hfit : RolesFit n)
    (hle : ∀ r, (PortPc.idle i).roles.count r ≤ n r)
    (hstep : (PortPc.idle i).step w c = some (w', pc')) :
    PortMove w w' n (PortPc.idle i).roles pc'.roles := by
  cases hstep
  split_ifs with hw
  · have hinside := h.nobody_inside_idle hfit hw
    rcases i with (_ | _) | _ | _
    case drain.bye =>
      exact .read [.quiet] [] hle (fun r => by cases r <;> rfl) (by simpa [PortRole.Gains])
        (by simp) (by simp) (fun _ => rfl)
    all_goals
      exact .read [.quiet] [] hle (fun r => by cases r <;> rfl) (by simpa [PortRole.Gains])
        (by simp) (by simp) (fun _ => rfl)
  · exact .same

theorem idleAdd_move {i : PortIdle} (hstep : (PortPc.idleAdd i).step w c = some (w', pc')) :
    PortMove w w' n (PortPc.idleAdd i).roles pc'.roles := by
  cases hstep
  show PortMove w _ n i.roles (.waiting :: i.roles)
  generalize i.roles = roles
  constructor
  case waiters =>
    simp
    omega
  all_goals simp +contextual [SleepMove]

theorem idleLoad_move {i : PortIdle} (hstep : (PortPc.idleLoad i).step w c = some (w', pc')) :
    PortMove w w' n (PortPc.idleLoad i).roles pc'.roles := by
  cases hstep
  split_ifs <;> exact .same

theorem idleWait_move {i : PortIdle} {active : ℕ+}
    (hle : ∀ r, (PortPc.idleWait i active).roles.count r ≤ n r)
    (hstep : (PortPc.idleWait i active).step w c = some (w', pc')) :
    PortMove w w' n (PortPc.idleWait i active).roles pc'.roles := by
  cases hstep
  split_ifs with hw
  · have hne : w.inflight ≠ 0 := by
      rw [hw]
      exact active.ne_zero
    exact .read [.idleAsleep] [] hle (fun r => by rcases i with (_ | _) | _ | _ <;> cases r <;> rfl)
      (by simpa [PortRole.Gains]) (by simp) (by simp) (by simp)
  · exact .same

theorem idleSub_move {i : PortIdle} (h : PortSound w n) (hle : 1 ≤ n .waiting)
    (hstep : (PortPc.idleSub i).step w c = some (w', pc')) :
    PortMove w w' n (PortPc.idleSub i).roles pc'.roles := by
  have hwaiters := h.waiters
  cases hstep
  show PortMove w _ n (.waiting :: i.roles) i.roles
  generalize i.roles = roles
  constructor
  case waiters =>
    simp
    omega
  all_goals simp +contextual [SleepMove]

/-! ### Refreshing -/

theorem refresh_move (h : PortSound w n) (hstep : PortPc.refresh.step w c = some (w', pc')) :
    PortMove w w' n PortPc.refresh.roles pc'.roles := by
  by_cases hl : w.lifecycle = .opened
  · have hnone := h.opened hl
    simp only [PortPc.step, hl, Option.some.injEq, Prod.mk.injEq] at hstep
    obtain ⟨rfl, rfl⟩ := hstep
    show PortMove w _ n [] [.refreshing]
    constructor <;> simp +contextual [SleepMove, hl, hnone]
  · have hcases : w' = w ∧ (pc' = .refreshWait ∨ pc' = .out) := by
      cases hw : w.lifecycle <;> simp_all [PortPc.step]
    obtain ⟨rfl, rfl | rfl⟩ := hcases <;> exact .same

theorem refreshWait_move (hle : ∀ r, PortPc.refreshWait.roles.count r ≤ n r)
    (hstep : PortPc.refreshWait.step w c = some (w', pc')) :
    PortMove w w' n PortPc.refreshWait.roles pc'.roles := by
  cases hstep
  split_ifs with hl
  · exact .read [.refreshAsleep] [] hle (fun r => by cases r <;> rfl) (by simpa [PortRole.Gains])
      (by simp) (by simp) (by simp)
  · exact .same

theorem refreshCheck_move (hle : ∀ r, PortPc.refreshCheck.roles.count r ≤ n r)
    (hstep : PortPc.refreshCheck.step w c = some (w', pc')) :
    PortMove w w' n PortPc.refreshCheck.roles pc'.roles := by
  cases hstep
  split_ifs with hl
  · exact .read [.finishing] [] hle (fun r => by cases r <;> rfl) (by simp [PortRole.Gains])
      (by simp) (by simp) (by simp)
  · exact .read [] [.refreshing, .quiet] hle (fun r => by cases r <;> rfl) (by simp)
      (by simp [PortRole.Loses, hl]) (by simp) (by simp)

theorem refreshReopen_move (h : PortSound w n)
    (hle : ∀ r, PortPc.refreshReopen.roles.count r ≤ n r)
    (hstep : PortPc.refreshReopen.step w c = some (w', pc')) :
    PortMove w w' n PortPc.refreshReopen.roles pc'.roles := by
  have hone := h.refreshing_le
  have hmine : 1 ≤ n .refreshing := hle .refreshing
  dsimp only [PortPc.step] at hstep
  split at hstep
  · rename_i hl
    cases hstep
    show PortMove w _ n [.refreshing, .quiet, .finishing] [.lifecycleWake]
    constructor
    case opened =>
      intro _
      right
      simp
      omega
    all_goals simp +contextual [SleepMove, hl]
  · rename_i hl
    cases hstep
    have hnot : ¬w.lifecycle.Usable := by
      rintro (h0 | h0)
      · have := h.opened h0
        omega
      · exact hl h0
    exact .read [.settled] [.refreshing] hle (fun r => by cases r <;> rfl)
      (by simpa [PortRole.Gains] using hnot) (by simpa [PortRole.Loses]) (by simp) (by simp)

theorem refreshWake_move (hrefresh : n .refreshAsleep = 0) (hclean : n .cleanAsleep = 0)
    (hle : ∀ r, PortPc.refreshWake.roles.count r ≤ n r)
    (hstep : PortPc.refreshWake.step w c = some (w', pc')) :
    PortMove w w' n PortPc.refreshWake.roles pc'.roles := by
  cases hstep
  exact .read [] [.lifecycleWake] hle (fun r => by cases r <;> rfl) (by simp)
    (by simp [PortRole.Loses, hrefresh, hclean]) (by simp) (by simp)

/-! ### The tear-down -/

theorem PortMove.closeReturns {a b : List PortRole} (hm : PortMove w w n a b)
    (hl : w.lifecycle = .closed) : PortMove w w.closeReturns n a b :=
  { hm with closes := .inr (by rw [PortWords.closeReturns, hl]) }

theorem finished_move {f : PortFinish} (hle : ∀ r, f.roles.count r ≤ n r)
    (hl : w.lifecycle.Ended) (hclose : ∀ abandon, f = .drain (.close abandon) →
      w.lifecycle ≠ .cleaning) :
    PortMove w (w.finished f).1 n f.roles (w.finished f).2.roles := by
  have hfailed : w.lifecycle ≠ .failed := by rcases hl with h | h <;> simp [h]
  have hdraining : w.lifecycle ≠ .draining := by rcases hl with h | h <;> simp [h]
  have hout : ∀ d, f = .drain d → PortMove w w n f.roles [] := by
    rintro d rfl
    exact .read [] [.settled, .draining, .quiet, .finishing] hle
      (fun r => by cases r <;> rfl) (by simp)
      (by simp [PortRole.Loses, hfailed, hdraining]) (by simp) (by simp)
  rcases f with _ | _ | (abandon | _) | abandon | _
  · exact .read [] [.settled, .quiet, .finishing] hle (fun r => by cases r <;> rfl) (by simp)
      (by simp [PortRole.Loses, hfailed]) (by simp) (by simp)
  · exact .read [] [.settled, .quiet, .finishing] hle (fun r => by cases r <;> rfl) (by simp)
      (by simp [PortRole.Loses, hfailed]) (by simp) (by simp)
  · exact (hout _ rfl).closeReturns (hl.resolve_left (hclose abandon rfl))
  · exact hout _ rfl
  · exact .read [] [.quiet] hle (fun r => by cases r <;> rfl) (by simp) (by simp [PortRole.Loses])
      (by simp) (by simp)
  · exact .read [.lifecycleWake] [.settled, .quiet, .finishing] hle
      (fun r => by cases r <;> rfl) (by simp [PortRole.Gains])
      (by simp [PortRole.Loses, hfailed]) (by simp) (by simp)

theorem ended_of_not (hnot : ¬l.Usable) (hfinish : ¬l.canFinish) : l.Ended := by
  cases l <;> simp [PortLifecycle.canFinish] at hnot hfinish ⊢

theorem finishRead_move {f : PortFinish} (h : PortSound w n) (hle : ∀ r, f.roles.count r ≤ n r)
    (hclose : ∀ abandon, f = .drain (.close abandon) → w.lifecycle ≠ .cleaning) :
    PortMove w (w.finishRead f).1 n f.roles (w.finishRead f).2.roles := by
  have hsettled : 1 ≤ n .settled := by
    have hs := hle .settled
    rcases f with _ | _ | _ | _ | _ <;> exact hs
  unfold PortWords.finishRead
  split_ifs with hfinish
  · exact .same
  · exact finished_move hle (ended_of_not (h.not_usable hsettled) hfinish) hclose

theorem finishSwap_move {f : PortFinish} {state : { l : PortLifecycle // l.canFinish }}
    (h : PortSound w n) (hle : ∀ r, f.roles.count r ≤ n r)
    (hclose : ∀ abandon, f = .drain (.close abandon) → w.lifecycle ≠ .cleaning)
    (hstep : (PortPc.finishSwap f state).step w c = some (w', pc')) :
    PortMove w w' n (PortPc.finishSwap f state).roles pc'.roles := by
  have hquiet : 1 ≤ n .quiet := by
    have hq := hle .quiet
    rcases f with _ | _ | _ | _ | _ <;> exact hq
  have hinside := h.nobody_inside hquiet
  obtain ⟨l, hcan⟩ := state
  dsimp only [PortPc.step] at hstep
  split at hstep
  · rename_i hl
    cases hstep
    have hcleaning : w.lifecycle ≠ .cleaning := fun h0 => by
      simp [← hl, h0, PortLifecycle.canFinish] at hcan
    have hclosed : w.lifecycle ≠ .closed := fun h0 => by
      simp [← hl, h0, PortLifecycle.canFinish] at hcan
    have hrefreshing : w.lifecycle ≠ .refreshing := fun h0 => by
      simp [← hl, h0, PortLifecycle.canFinish] at hcan
    have hf : f.roles = [.settled, .draining, .quiet, .finishing] ∨
        f.roles = [.settled, .quiet, .finishing] := by
      rcases f with _ | _ | _ | _ | _ <;> simp
    show PortMove w _ n f.roles [.settled, .quiet, .cleaning]
    rcases hf with hf | hf <;> rw [hf] <;> constructor <;>
      simp +contextual [SleepMove, hcleaning, hclosed, hrefreshing, hinside]
  · obtain ⟨rfl, rfl⟩ := Prod.mk.inj (Option.some.inj hstep).symm
    exact finishRead_move h hle hclose

theorem tearDown_move {f : PortFinish} (hstep : (PortPc.tearDown f).step w c = some (w', pc')) :
    PortMove w w' n (PortPc.tearDown f).roles pc'.roles := by
  cases hstep
  show PortMove w _ n [.settled, .quiet, .cleaning] [.settled, .quiet, .cleaning, .torn]
  constructor <;> simp +contextual [SleepMove]

theorem finishClosed_move {f : PortFinish} (h : PortSound w n)
    (hle : ∀ r, (PortPc.finishClosed f).roles.count r ≤ n r)
    (hstep : (PortPc.finishClosed f).step w c = some (w', pc')) :
    PortMove w w' n (PortPc.finishClosed f).roles pc'.roles := by
  have hmine : 1 ≤ n .cleaning := hle .cleaning
  have hcleaning := h.cleaning
  have hl : w.lifecycle = .cleaning := by
    by_contra hne
    rw [if_neg hne] at hcleaning
    omega
  cases hstep
  show PortMove w _ n [.settled, .quiet, .cleaning, .torn] [.settled, .published, .lifecycleWake]
  constructor <;> simp +contextual [SleepMove, hl]

theorem finishWake_move {f : PortFinish} (h : PortSound w n) (hrefresh : n .refreshAsleep = 0)
    (hclean : n .cleanAsleep = 0) (hle : ∀ r, (PortPc.finishWake f).roles.count r ≤ n r)
    (hstep : (PortPc.finishWake f).step w c = some (w', pc')) :
    PortMove w w' n (PortPc.finishWake f).roles pc'.roles := by
  have hmine : 1 ≤ n .published := hle .published
  have hl : w.lifecycle = .closed := h.published (by omega)
  have hout : PortMove w w n [.settled, .published, .lifecycleWake] [] :=
    .read [] [.settled, .published, .lifecycleWake] hle (fun r => by cases r <;> rfl) (by simp)
      (by simp [PortRole.Loses, hrefresh, hclean]) (by simp) (by simp)
  rcases f with _ | _ | (_ | _) | _ | _ <;> cases hstep
  · exact hout
  · exact hout
  · exact hout.closeReturns hl
  · exact hout
  · exact .read [.finishing] [.published, .lifecycleWake] hle (fun r => by cases r <;> rfl)
      (by simp [PortRole.Gains]) (by simp [PortRole.Loses, hrefresh, hclean]) (by simp) (by simp)
  · exact .read [] [.settled, .published] hle (fun r => by cases r <;> rfl) (by simp)
      (by simp [PortRole.Loses]) (by simp) (by simp)

theorem closing_move (h : PortSound w n) (hle : ∀ r, (PortPc.closing abandon).roles.count r ≤ n r)
    (hsteady : PortPc.SteadyAt w n (.closing abandon))
    (hstep : (PortPc.closing abandon).step w c = some (w', pc')) :
    PortMove w w' n (PortPc.closing abandon).roles pc'.roles := by
  have hsettled : 1 ≤ n .settled := hle .settled
  have hnot := h.not_usable hsettled
  have hdraining : w.lifecycle ≠ .draining := hsteady
  by_cases hl : w.lifecycle = .closed
  · simp only [PortPc.step, hl, Option.some.injEq, Prod.mk.injEq] at hstep
    obtain ⟨rfl, rfl⟩ := hstep
    refine PortMove.closeReturns ?_ hl
    exact .read [] [.settled, .finishing] hle (fun r => by cases r <;> rfl) (by simp)
      (by simp [PortRole.Loses, hl]) (by simp) (by simp)
  · have hcases : w' = w ∧ (pc' = .idle (.failed abandon) ∨ pc' = .closeWait abandon) := by
      cases hw : w.lifecycle <;> simp_all [PortPc.step]
    obtain ⟨rfl, rfl | rfl⟩ := hcases <;> exact .same

theorem closeWait_move (hle : ∀ r, (PortPc.closeWait abandon).roles.count r ≤ n r)
    (hstep : (PortPc.closeWait abandon).step w c = some (w', pc')) :
    PortMove w w' n (PortPc.closeWait abandon).roles pc'.roles := by
  cases hstep
  split_ifs with hl
  · exact .read [.cleanAsleep] [] hle (fun r => by cases r <;> rfl) (by simpa [PortRole.Gains])
      (by simp) (by simp) (by simp)
  · exact .same

/-! ### Any step -/

theorem PortPc.move (h : PortSound w n) (hfit : RolesFit n)
    (hle : ∀ r, pc.roles.count r ≤ n r) (hsteady : pc.SteadyAt w n)
    (hwoken : ∀ word, pc.wakes = some word → ∀ r, r.sleepsOn = some word → n r = 0)
    (hstep : pc.step w c = some (w', pc')) : PortMove w w' n pc.roles pc'.roles := by
  cases pc with
  | out =>
    cases c <;> cases hstep
    case fail.refl | close.refl =>
      exact .read [.finishing] [] hle (fun r => by cases r <;> rfl) (by simp [PortRole.Gains])
        (by simp) (by simp) (by simp)
    all_goals exact .same
  | enter hello =>
    dsimp only [PortPc.step] at hstep
    split at hstep <;> cases hstep <;> exact .same
  | enterWait hello => exact enterWait_move hle hstep
  | entering hello => exact entering_move hstep
  | entered hello => exact entered_move h hfit hle hstep
  | undo hello => exact undo_move h (hle .counted) hsteady hstep
  | undoWaiters hello => exact undoWaiters_move h hfit hle hstep
  | undoWake hello => exact undoWake_move (hwoken _ rfl .idleAsleep rfl) hle hstep
  | undone hello =>
    cases hstep
    split_ifs <;> exact .same
  | connect =>
    cases hstep
    split_ifs <;> exact .same
  | connectLoad =>
    cases hstep
    split_ifs <;> exact .same
  | connectSwap => exact connectSwap_move hstep
  | connectWait => exact connectWait_move hle hstep
  | inside holds => exact exchange_move (by cases holds <;> rfl) rfl hstep
  | done => exact done_move hstep
  | connectWake => exact connectWake_move (hwoken _ rfl .connectAsleep rfl) hle hstep
  | leave => exact leave_move h (hle .counted) hstep
  | leaveWaiters => exact leaveWaiters_move h hfit hle hstep
  | leaveWake => exact leaveWake_move (hwoken _ rfl .idleAsleep rfl) hle hstep
  | leaveLoad => exact leaveLoad_move hle hsteady hstep
  | fail f =>
    cases hstep
    exact failRead_move hle
  | failSwap f state => exact failSwap_move h hle hstep
  | failConnecting f => exact failConnecting_move hstep
  | failConnectWake f => exact failConnectWake_move (hwoken _ rfl .connectAsleep rfl) hle hstep
  | failWake f =>
    exact failWake_move (hwoken _ rfl .refreshAsleep rfl) (hwoken _ rfl .cleanAsleep rfl) hle hstep
  | failInflight => exact failInflight_move h hfit hle hstep
  | drain d => exact drain_move hle hstep
  | drainWait d => exact drainWait_move hle hstep
  | idle i => exact idle_move h hfit hle hstep
  | idleAdd i => exact idleAdd_move hstep
  | idleLoad i => exact idleLoad_move hstep
  | idleWait i active => exact idleWait_move hle hstep
  | idleSub i => exact idleSub_move h (by simpa using (hle .waiting).trans' (by simp)) hstep
  | byeExchange => exact exchange_move rfl rfl hstep
  | refresh => exact refresh_move h hstep
  | refreshWait => exact refreshWait_move hle hstep
  | refreshLoad =>
    cases hstep
    split_ifs <;> exact .same
  | refreshCheck => exact refreshCheck_move hle hstep
  | refreshExchange => exact exchange_move rfl rfl hstep
  | refreshReopen => exact refreshReopen_move h hle hstep
  | refreshWake =>
    exact refreshWake_move (hwoken _ rfl .refreshAsleep rfl) (hwoken _ rfl .cleanAsleep rfl) hle
      hstep
  | finish f =>
    obtain ⟨rfl, rfl⟩ := Prod.mk.inj (Option.some.inj hstep).symm
    exact finishRead_move h hle fun abandon hf => by
      subst hf
      exact hsteady
  | finishSwap f state =>
    exact finishSwap_move h hle (fun abandon hf => by
      subst hf
      exact hsteady) hstep
  | tearDown f => exact tearDown_move hstep
  | endSession f =>
    cases hstep
    exact { PortMove.same with }
  | finishClosed f => exact finishClosed_move h hle hstep
  | finishWake f =>
    exact finishWake_move h (hwoken _ rfl .refreshAsleep rfl) (hwoken _ rfl .cleanAsleep rfl) hle
      hstep
  | closing abandon => exact closing_move h hle hsteady hstep
  | closeWait abandon => exact closeWait_move hle hstep
  | enterAsleep | connectAsleep | drainAsleep | idleAsleep | refreshAsleep | closeAsleep =>
    cases hstep

end Step

/-! ## Runs -/

section Runs

variable {s s' : PortClient} {w : PortWords} {n n' : PortRole → ℕ} {i : ℕ} {c : PortChoice}

theorem Sleeps.wake {asleep wake : PortRole} {held : Prop} {word : PortWord}
    (h : Sleeps n asleep wake held) (hwake : wake.sleepsOn = none)
    (hzero : ∀ r, r.sleepsOn = some word → n' r = 0)
    (hsame : ∀ r, r.sleepsOn ≠ some word → n' r = n r) : Sleeps n' asleep wake held := by
  by_cases hs : asleep.sleepsOn = some word
  · exact .inl (hzero _ hs)
  · unfold Sleeps
    rw [hsame asleep hs, hsame wake (by simp [hwake])]
    exact h

theorem PortSound.wake {word : PortWord} (h : PortSound w n)
    (hzero : ∀ r, r.sleepsOn = some word → n' r = 0)
    (hsame : ∀ r, r.sleepsOn ≠ some word → n' r = n r) : PortSound w n' := by
  have hawake : ∀ r : PortRole, r.sleepsOn = none → n' r = n r := fun r hr =>
    hsame r (by simp [hr])
  exact {
    inflight := by rw [hawake _ rfl, h.inflight]
    waiters := by rw [hawake _ rfl, h.waiters]
    connecting := by
      rw [hawake .connecting rfl]
      exact h.connecting
    settled := by
      rw [hawake .settled rfl]
      exact h.settled
    refreshing_le := by
      rw [hawake .refreshing rfl]
      exact h.refreshing_le
    refreshing := by
      rw [hawake .refreshing rfl]
      exact h.refreshing
    opened := by
      rw [hawake .refreshing rfl]
      exact h.opened
    draining := by
      rw [hawake .draining rfl]
      exact h.draining
    quiet := by
      rw [hawake .quiet rfl, hawake .inside rfl]
      exact h.quiet
    ended := by
      rw [hawake .inside rfl]
      exact h.ended
    finishing := by
      rw [hawake .finishing rfl]
      exact h.finishing
    cleaning := by rw [hawake _ rfl, h.cleaning]
    torn := by rw [hawake _ rfl, h.torn]
    published := by
      rw [hawake .published rfl]
      exact h.published
    refreshAsleep := h.refreshAsleep.wake rfl hzero hsame
    cleanAsleep := h.cleanAsleep.wake rfl hzero hsame
    idleAsleep := h.idleAsleep.wake rfl hzero hsame
    connectAsleep := h.connectAsleep.wake rfl hzero hsame
    broken := h.broken
    failed := h.failed
    closes := h.closes }

def PortClient.Sound (s : PortClient) : Prop := PortSound s.words (roleCount s.threads)

/-- What the next step of the thread relies on. An enter that is undone after a failure, and leaves
nobody in flight, leaves somebody who goes on to the tear-down; a leave that left nobody in flight
does not find a failure with somebody inside again; a close that did not drain does not find that
another one drains, and one that drained does not find that another one tears down. -/
def PortClient.Steady (s : PortClient) : PortPc → Prop
  | .undo _ => s.words.inflight = 1 → s.words.lifecycle = .failed →
      ∃ pc ∈ s.threads, .finishing ∈ pc.roles
  | .leaveLoad => s.words.lifecycle = .failed → ∀ pc ∈ s.threads, .inside ∉ pc.roles
  | .closing _ => s.words.lifecycle ≠ .draining
  | .finish (.drain (.close _)) | .finishSwap (.drain (.close _)) _ =>
    s.words.lifecycle ≠ .cleaning
  | _ => True

/-- A step of one of the threads that finds what it relies on. -/
def PortClient.SteadyStep (s s' : PortClient) : Prop :=
  ∃ (i : ℕ) (c : PortChoice) (pc : PortPc), s.threads[i]? = some pc ∧ s.Steady pc ∧
    s.step i c = some s'

theorem PortClient.Steady.steadyAt {pc : PortPc} (h : s.Steady pc) :
    pc.SteadyAt s.words (roleCount s.threads) := by
  cases pc with
  | undo hello => exact fun h1 h2 => roleCount_ne_zero.2 (h h1 h2)
  | leaveLoad =>
    intro h1
    by_contra hne
    obtain ⟨pc, hpc, hr⟩ := roleCount_ne_zero.1 hne
    exact h h1 pc hpc hr
  | closing abandon => exact h
  | finish f =>
    rcases f with _ | _ | (_ | _) | _ | _ <;> exact h
  | finishSwap f state =>
    rcases f with _ | _ | (_ | _) | _ | _ <;> exact h
  | _ => trivial

variable {word : PortWord}

theorem PortPc.awake {pc : PortPc} (h : pc.wakes = some word) :
    (∀ w n, pc.SteadyAt w n) ∧ pc.woken word = pc := by
  cases pc <;> first | exact ⟨fun _ _ => trivial, rfl⟩ | cases h

theorem PortClient.step_sound (h : s.Sound) (hstep : s.SteadyStep s') : s'.Sound := by
  obtain ⟨i, c, pc, hi, hsteady, hstep⟩ := hstep
  simp only [PortClient.step, hi, Option.bind_eq_bind, Option.bind_some] at hstep
  obtain ⟨⟨words, next⟩, hpc, hs'⟩ := Option.bind_eq_some_iff.1 hstep
  obtain rfl := (Option.some.inj hs').symm
  cases hwakes : pc.wakes with
  | none =>
    have hle := count_le_roleCount hi
    have hmove := PortPc.move h (rolesFit _) hle hsteady.steadyAt
      (fun word hw => by rw [hwakes] at hw; cases hw) hpc
    exact PortSound.move h hle (fun r => roleCount_set r next hi) hmove
  | some word =>
    obtain ⟨hany, hself⟩ := PortPc.awake hwakes
    have hi' : (s.threads.map (PortPc.woken word))[i]? = some pc := by
      rw [List.getElem?_map, hi, Option.map_some, hself]
    have hzero : ∀ r, r.sleepsOn = some word →
        roleCount (s.threads.map (PortPc.woken word)) r = 0 := fun r hr => by
      rw [roleCount_woken, if_pos hr]
    have hsame : ∀ r, r.sleepsOn ≠ some word →
        roleCount (s.threads.map (PortPc.woken word)) r = roleCount s.threads r := fun r hr => by
      rw [roleCount_woken, if_neg hr]
    have hwoken := h.wake hzero hsame
    have hle := count_le_roleCount hi'
    have hmove := PortPc.move hwoken (rolesFit _) hle (hany _ _)
      (fun word' hw r hr => by
        obtain rfl : word = word' := Option.some.inj (hwakes.symm.trans hw)
        exact hzero r hr) hpc
    exact hwoken.move hle (fun r => roleCount_set r next hi') hmove

theorem PortClient.start_sound (threads session : ℕ) :
    (PortClient.start threads session).Sound := by
  have h0 : ∀ r, roleCount (List.replicate threads .out) r = 0 := fun r => by
    simp [roleCount]
  unfold PortClient.Sound PortClient.start
  constructor <;> simp [h0, Sleeps]

theorem PortClient.run_sound {threads session : ℕ}
    (hrun : Relation.ReflTransGen PortClient.SteadyStep (.start threads session) s) :
    s.Sound := by
  induction hrun with
  | refl => exact PortClient.start_sound threads session
  | tail _ hstep ih => exact PortClient.step_sound ih hstep

/-! ### What the threads can rely on -/

/-- The word that the thread sleeps on, where what it waits for has come. -/
def PortPc.overslept (w : PortWords) : PortPc → Option PortWord
  | .enterAsleep _ | .drainAsleep _ | .refreshAsleep =>
    if w.lifecycle = .refreshing then none else some .lifecycle
  | .closeAsleep _ => if w.lifecycle = .cleaning then none else some .lifecycle
  | .idleAsleep _ => if w.inflight = 0 then some .inflight else none
  | .connectAsleep => if w.connecting = 0 then some .connecting else none
  | _ => none

/-- The role of those who are about to wake the word. -/
def PortWord.waker : PortWord → PortRole
  | .lifecycle => .lifecycleWake
  | .inflight => .inflightWake
  | .connecting => .connectingWake

structure PortClient.Safe (s : PortClient) : Prop where
  -- torn down once, and with nobody inside
  once : s.words.teardowns.length ≤ 1
  torn : s.words.lifecycle = .closed → s.words.teardowns.length = 1
  alone : ∀ pc ∈ s.threads, .cleaning ∈ pc.roles → ∀ other ∈ s.threads, .inside ∉ other.roles
  -- after a failure
  taken : s.words.lifecycle = .failed → s.words.inflight = 0 →
    ∃ pc ∈ s.threads, .finishing ∈ pc.roles
  resting : (∀ pc ∈ s.threads, pc = .out) → s.words.lifecycle = .opened ∧ s.words.broken = false ∨
    s.words.lifecycle = .closed
  closes : ∀ l ∈ s.words.closes, l = .closed
  woken : ∀ pc ∈ s.threads, ∀ word, pc.overslept s.words = some word →
    ∃ other ∈ s.threads, word.waker ∈ other.roles

theorem roleCount_out (h : ∀ pc ∈ s.threads, pc = .out) (r : PortRole) :
    roleCount s.threads r = 0 := by
  by_contra hne
  obtain ⟨pc, hpc, hr⟩ := roleCount_ne_zero.1 hne
  rw [h pc hpc] at hr
  simp at hr

theorem PortSound.teardowns (h : PortSound w n) (hfit : RolesFit n) :
    w.teardowns.length ≤ 1 := by
  have h1 := h.torn
  have h2 := h.cleaning
  have h3 := hfit.torn
  cases hl : w.lifecycle <;> simp only [hl, reduceCtorEq, ↓reduceIte] at h1 h2 <;> omega

theorem PortSound.resting (h : PortSound w n) (h0 : ∀ r, n r = 0) :
    w.lifecycle = .opened ∧ w.broken = false ∨ w.lifecycle = .closed := by
  cases hl : w.lifecycle with
  | opened =>
    refine .inl ⟨rfl, Bool.eq_false_iff.2 fun hb => ?_⟩
    rcases h.broken hb with h1 | h1 | h1 <;> rw [hl] at h1 <;> cases h1
  | draining => exact absurd (h0 _) (h.draining hl)
  | failed =>
    rcases h.finishing hl with h1 | h1
    · exact absurd (h.inflight.trans (h0 _)) h1
    · exact absurd (h0 _) h1
  | cleaning =>
    have h1 := h.cleaning
    rw [if_pos hl, h0] at h1
    cases h1
  | closed => exact .inr rfl
  | refreshing => exact absurd (h0 _) (h.refreshing hl)

theorem overslept_cases {pc : PortPc} (h : pc.overslept w = some word) :
    word = .lifecycle ∧ (.refreshAsleep ∈ pc.roles ∧ w.lifecycle ≠ .refreshing ∨
        .cleanAsleep ∈ pc.roles ∧ w.lifecycle ≠ .cleaning) ∨
      word = .inflight ∧ .idleAsleep ∈ pc.roles ∧ w.inflight = 0 ∨
      word = .connecting ∧ .connectAsleep ∈ pc.roles ∧ w.connecting = 0 := by
  cases pc <;> simp only [PortPc.overslept, reduceCtorEq] at h <;> split_ifs at h with hw <;>
    obtain rfl := (Option.some.inj h).symm <;> simp [hw]

theorem Sleeps.woken {asleep wake : PortRole} {held : Prop} {threads : List PortPc}
    (h : Sleeps (roleCount threads) asleep wake held) {pc : PortPc} (hpc : pc ∈ threads)
    (hr : asleep ∈ pc.roles) (hheld : ¬held) : ∃ other ∈ threads, wake ∈ other.roles := by
  rcases h with h | h | h
  · exact absurd h (roleCount_ne_zero.2 ⟨pc, hpc, hr⟩)
  · exact absurd h hheld
  · exact roleCount_ne_zero.1 h

theorem port_client_lifecycle {threads session : ℕ}
    (hrun : Relation.ReflTransGen PortClient.SteadyStep (.start threads session) s) : s.Safe := by
  have h := PortClient.run_sound hrun
  have hfit := rolesFit s.threads
  refine ⟨h.teardowns hfit, fun hl => ?_, fun pc hpc hr other hother hin => ?_, fun hl h0 => ?_,
    fun hout => h.resting (roleCount_out hout), h.closes, fun pc hpc word hw => ?_⟩
  · have h1 := h.torn
    have h2 := h.cleaning
    have h3 := hfit.torn
    simp only [hl, reduceCtorEq, ↓reduceIte] at h1 h2
    omega
  · have hcleaning := roleCount_ne_zero.2 ⟨pc, hpc, hr⟩
    have hone := h.cleaning
    have hl : s.words.lifecycle = .cleaning := by
      by_contra hne
      exact hcleaning (hone.trans (if_neg hne))
    exact roleCount_ne_zero.2 ⟨other, hother, hin⟩ (h.ended (.inl hl))
  · exact roleCount_ne_zero.1 ((h.finishing hl).resolve_left (not_not.2 h0))
  · rcases overslept_cases hw with ⟨rfl, ⟨hr, hl⟩ | ⟨hr, hl⟩⟩ | ⟨rfl, hr, hl⟩ | ⟨rfl, hr, hl⟩
    · exact h.refreshAsleep.woken hpc hr hl
    · exact h.cleanAsleep.woken hpc hr hl
    · exact h.idleAsleep.woken hpc hr (not_not.2 hl)
    · exact h.connectAsleep.woken hpc hr (not_not.2 hl)

theorem close_run : Relation.ReflTransGen PortClient.SteadyStep (.start 1 7)
    ⟨⟨.closed, 0, 0, 0, 0, [false], [.closed], false⟩, [.out]⟩ :=
  .head ⟨0, .close false, .out, rfl, trivial, rfl⟩ <|
  .head ⟨0, .next, .drain (.close false), rfl, trivial, rfl⟩ <|
  .head ⟨0, .next, .idle (.drain (.close false)), rfl, trivial, rfl⟩ <|
  .head ⟨0, .next, .finish (.drain (.close false)), rfl, by simp [PortClient.Steady], rfl⟩ <|
  .head ⟨0, .next, .finishSwap (.drain (.close false)) ⟨.draining, rfl⟩, rfl,
      by simp [PortClient.Steady], rfl⟩ <|
  .head ⟨0, .next, .tearDown (.drain (.close false)), rfl, trivial, rfl⟩ <|
  .head ⟨0, .next, .endSession (.drain (.close false)), rfl, trivial, rfl⟩ <|
  .head ⟨0, .next, .finishClosed (.drain (.close false)), rfl, trivial, rfl⟩ <|
  .head ⟨0, .next, .finishWake (.drain (.close false)), rfl, trivial, rfl⟩ .refl

theorem port_client_lifecycle_close :
    PortClient.Safe ⟨⟨.closed, 0, 0, 0, 0, [false], [.closed], false⟩, [.out]⟩ :=
  port_client_lifecycle close_run

/-- The steps of a thread that takes no choice. -/
def goes (i steps : ℕ) : List (ℕ × PortChoice) := List.replicate steps (i, .next)

/-- A call of the thread, up to where it is inside. -/
def callsIn (i : ℕ) : List (ℕ × PortChoice) := (i, .call true) :: goes i 3

/-- The thread, inside, reports that the connection failed. -/
def reports (i : ℕ) : List (ℕ × PortChoice) := (i, .fail) :: goes i 5

/-- An enter that is undone last leaves the client failed for good; a leave that is late tears it
down under a caller; a close returns while another thread tears down. -/
theorem port_client_lifecycle_fails :
    ((PortClient.start 2 0).run (callsIn 0 ++ (1, .call true) :: goes 1 1 ++ reports 0 ++
      goes 1 1 ++ goes 0 2 ++ goes 1 4)).map (fun s => (s.words.lifecycle, s.threads)) =
        some (.failed, [.out, .out]) ∧
    ((PortClient.start 2 0).run (callsIn 0 ++ goes 0 3 ++ callsIn 1 ++ reports 1 ++
      goes 0 4)).map (fun s => (s.words.teardowns, s.threads)) =
        some ([false], [.endSession .leave, .inside false]) ∧
    ((PortClient.start 2 0).run (callsIn 0 ++ (1, .close false) :: goes 1 5 ++ reports 0 ++
      goes 0 7 ++ goes 1 3)).map (fun s => (s.words.lifecycle, s.words.closes)) =
        some (.cleaning, [.cleaning]) := by
  decide

end Runs

end Astra
