import AstraKernel.Vfs.PortClient
import Mathlib.Algebra.BigOperators.Group.List.Basic

/-!
# The lifecycle of a port client

What a thread does for the client is in its roles (`PortPc.roles`), and everything that the words of
a client say about its threads is in how many play each of them (`PortSound`). A step changes the
roles of one thread and a word or two, and `PortMove` is what it has to account for.
-/

namespace Astra

open List

def roleCount (threads : List PortPc) (r : PortRole) : ℕ :=
  (threads.map fun pc => pc.roles.count r).sum

def Sleeps (n : PortRole → ℕ) (asleep wake : PortRole) (held : Prop) : Prop :=
  n asleep = 0 ∨ held ∨ n wake ≠ 0

structure PortSound (w : PortWords) (n : PortRole → ℕ) : Prop where
  inflight : w.inflight = n .counted
  waiters : w.inflightWaiters = n .waiting
  connecting : w.connecting ≠ 0 → n .connecting ≠ 0
  settled : w.lifecycle.Usable → n .settled = 0
  refreshing_le : n .refreshing ≤ 1
  refreshing : w.lifecycle = .refreshing → n .refreshing ≠ 0
  opened : w.lifecycle = .opened → n .refreshing = 0
  draining : w.lifecycle = .draining → n .draining ≠ 0
  quiet : n .quiet = 0 ∨ n .inside = 0
  ended : w.lifecycle.Ended → n .inside = 0
  finishing : w.lifecycle = .failed → w.inflight ≠ 0 ∨ n .finishing ≠ 0
  cleaning : n .cleaning = if w.lifecycle = .cleaning then 1 else 0
  torn : w.teardowns.length = n .torn + if w.lifecycle = .closed then 1 else 0
  published : n .published ≠ 0 → w.lifecycle = .closed
  refreshAsleep : Sleeps n .refreshAsleep .lifecycleWake (w.lifecycle = .refreshing)
  cleanAsleep : Sleeps n .cleanAsleep .lifecycleWake (w.lifecycle = .cleaning)
  idleAsleep : Sleeps n .idleAsleep .inflightWake (w.inflight ≠ 0)
  connectAsleep : Sleeps n .connectAsleep .connectingWake (w.connecting ≠ 0)
  broken : w.broken = true → w.lifecycle = .failed ∨ w.lifecycle.Ended
  failed : w.lifecycle = .failed → w.broken = true
  closes : ∀ l ∈ w.closes, l = .closed

/-! ## The threads -/

section Threads

variable {w : PortWords} {threads : List PortPc} {pc : PortPc} {i : ℕ}

theorem roleCount_cons (pc : PortPc) (threads : List PortPc) (r : PortRole) :
    roleCount (pc :: threads) r = pc.roles.count r + roleCount threads r := by
  simp [roleCount]

theorem roleCount_set (r : PortRole) (next : PortPc) :
    ∀ {threads : List PortPc} {i : ℕ}, threads[i]? = some pc →
      roleCount (threads.set i next) r + pc.roles.count r =
        roleCount threads r + next.roles.count r
  | [], _, h => by simp at h
  | _ :: threads, 0, h => by
    cases h
    simp only [set_cons_zero, roleCount_cons]
    omega
  | other :: threads, i + 1, h => by
    have ih : roleCount (threads.set i next) r + pc.roles.count r =
        roleCount threads r + next.roles.count r := roleCount_set r next h
    simp only [set_cons_succ, roleCount_cons]
    omega

theorem count_le_roleCount (h : threads[i]? = some pc) (r : PortRole) :
    pc.roles.count r ≤ roleCount threads r := by
  have hset := roleCount_set r .out h
  have hout : PortPc.out.roles.count r = 0 := rfl
  omega

theorem roleCount_ne_zero {r : PortRole} :
    roleCount threads r ≠ 0 ↔ ∃ pc ∈ threads, r ∈ pc.roles := by
  induction threads with
  | nil => simp [roleCount]
  | cons pc threads ih =>
    rw [roleCount_cons, exists_mem_cons_iff, ← ih, ← count_pos_iff]
    omega

theorem woken_roles (word : PortWord) (pc : PortPc) :
    (pc.woken word).roles = pc.roles.filter (fun r => r.sleepsOn ≠ some word) := by
  cases pc
  case inside holds => cases holds <;> cases word <;> rfl
  case fail f | failSwap f _ | failConnecting f | failConnectWake f | failWake f =>
    obtain (_ | _) | _ | _ | _ := f <;> cases word <;> rfl
  case drain d | drainWait d | drainAsleep d => cases d <;> cases word <;> rfl
  case idle i | idleAdd i | idleLoad i | idleWait i _ | idleAsleep i | idleSub i => cases i <;> cases word <;> rfl
  case finish f | finishSwap f _ => cases f <;> cases word <;> rfl
  all_goals cases word <;> rfl

theorem roleCount_woken (word : PortWord) (r : PortRole) :
    roleCount (threads.map (PortPc.woken word)) r =
      if r.sleepsOn = some word then 0 else roleCount threads r := by
  have hcount : ∀ pc : PortPc, (pc.woken word).roles.count r =
      if r.sleepsOn = some word then 0 else pc.roles.count r := by
    intro pc
    rw [woken_roles]
    split_ifs with hr
    · exact count_eq_zero.2 fun hm => by simpa [hr] using of_mem_filter hm
    · exact count_filter (by simpa using hr)
  simp only [roleCount, map_map, Function.comp_def, hcount]
  split_ifs <;> simp

structure RolesFit (n : PortRole → ℕ) : Prop where
  quiet : n .quiet ≤ n .settled + n .refreshing
  inside : n .inside ≤ n .counted
  idleAsleep : n .idleAsleep ≤ n .waiting
  torn : n .torn ≤ n .cleaning

instance (l : List PortRole) : Decidable (RolesFit l.count) :=
  decidable_of_iff (l.count .quiet ≤ l.count .settled + l.count .refreshing ∧
    l.count .inside ≤ l.count .counted ∧ l.count .idleAsleep ≤ l.count .waiting ∧
    l.count .torn ≤ l.count .cleaning)
    ⟨fun h => ⟨h.1, h.2.1, h.2.2.1, h.2.2.2⟩,
      fun h => ⟨h.quiet, h.inside, h.idleAsleep, h.torn⟩⟩

theorem PortPc.rolesFit (pc : PortPc) : RolesFit pc.roles.count := by
  refine of_decide_eq_true ?_
  cases pc
  case inside holds => cases holds <;> rfl
  case fail f | failSwap f _ | failConnecting f | failConnectWake f | failWake f =>
    obtain (_ | _) | _ | _ | _ := f <;> rfl
  case drain d | drainWait d | drainAsleep d => cases d <;> rfl
  case idle i | idleAdd i | idleLoad i | idleWait i _ | idleAsleep i | idleSub i => cases i <;> rfl
  case finish f | finishSwap f _ => cases f <;> rfl
  all_goals rfl

theorem rolesFit : ∀ threads : List PortPc, RolesFit (roleCount threads)
  | [] => ⟨by simp [roleCount], by simp [roleCount], by simp [roleCount], by simp [roleCount]⟩
  | pc :: threads => by
    have hpc := pc.rolesFit
    have ih := rolesFit threads
    have h1 := hpc.quiet
    have h2 := hpc.inside
    have h3 := hpc.idleAsleep
    have h4 := ih.quiet
    have h5 := ih.inside
    have h6 := ih.idleAsleep
    have h7 := hpc.torn
    have h8 := ih.torn
    refine ⟨?_, ?_, ?_, ?_⟩ <;> simp only [roleCount_cons] <;> omega

end Threads

/-! ## One step -/

def SleepMove (n : PortRole → ℕ) (a b : List PortRole) (asleep wake : PortRole) (held held' : Prop) :
    Prop :=
  b.count asleep ≤ a.count asleep ∧ a.count wake ≤ b.count wake ∧ (held → held') ∨ held' ∨
    b.count wake ≠ 0 ∨ n asleep + b.count asleep = a.count asleep

/-- What one thread's step has to account for: the words before and after it, how often each role is
played before, and the roles of the thread before and after. -/
structure PortMove (w w' : PortWords) (n : PortRole → ℕ) (a b : List PortRole) : Prop where
  inflight : w'.inflight + a.count .counted = w.inflight + b.count .counted
  waiters : w'.inflightWaiters + a.count .waiting = w.inflightWaiters + b.count .waiting
  connecting : w'.connecting ≠ 0 → w.connecting ≠ 0 ∧ a.count .connecting ≤ b.count .connecting ∨
    b.count .connecting ≠ 0
  settled : w'.lifecycle.Usable → w.lifecycle.Usable ∧ b.count .settled ≤ a.count .settled
  refreshing_le : b.count .refreshing ≤ a.count .refreshing ∨
    n .refreshing + b.count .refreshing ≤ 1
  refreshing : w'.lifecycle = .refreshing → w.lifecycle = .refreshing ∧
    a.count .refreshing ≤ b.count .refreshing ∨ b.count .refreshing ≠ 0
  opened : w'.lifecycle = .opened → w.lifecycle = .opened ∧
    b.count .refreshing ≤ a.count .refreshing ∨
      n .refreshing + b.count .refreshing = a.count .refreshing
  draining : w'.lifecycle = .draining → w.lifecycle = .draining ∧
    a.count .draining ≤ b.count .draining ∨ b.count .draining ≠ 0
  quiet : b.count .quiet ≤ a.count .quiet ∧ b.count .inside ≤ a.count .inside ∨
    n .quiet + b.count .quiet = 0 ∨ n .inside + b.count .inside = 0
  ended : w'.lifecycle.Ended → w.lifecycle.Ended ∧ b.count .inside ≤ a.count .inside ∨
    n .inside + b.count .inside = 0
  finishing : w'.lifecycle = .failed → w.lifecycle = .failed ∧
      a.count .counted ≤ b.count .counted ∧ a.count .finishing ≤ b.count .finishing ∨
    w'.inflight ≠ 0 ∨ n .finishing + b.count .finishing > a.count .finishing
  cleaning : b.count .cleaning + (if w.lifecycle = .cleaning then 1 else 0) =
    a.count .cleaning + if w'.lifecycle = .cleaning then 1 else 0
  torn : w'.teardowns.length + a.count .torn + (if w.lifecycle = .closed then 1 else 0) =
    w.teardowns.length + b.count .torn + if w'.lifecycle = .closed then 1 else 0
  published : b.count .published ≤ a.count .published ∧
    (w.lifecycle = .closed → w'.lifecycle = .closed) ∨ w'.lifecycle = .closed
  refreshAsleep : SleepMove n a b .refreshAsleep .lifecycleWake (w.lifecycle = .refreshing)
    (w'.lifecycle = .refreshing)
  cleanAsleep : SleepMove n a b .cleanAsleep .lifecycleWake (w.lifecycle = .cleaning)
    (w'.lifecycle = .cleaning)
  idleAsleep : SleepMove n a b .idleAsleep .inflightWake (w.inflight ≠ 0) (w'.inflight ≠ 0)
  connectAsleep : SleepMove n a b .connectAsleep .connectingWake (w.connecting ≠ 0)
    (w'.connecting ≠ 0)
  broken : w'.broken = w.broken ∧ (w.lifecycle = .failed ↔ w'.lifecycle = .failed) ∧
      (w.lifecycle.Ended → w'.lifecycle.Ended) ∨
    w'.broken = true ∧ w'.lifecycle = .failed ∨ w'.lifecycle.Ended
  closes : w'.closes = w.closes ∨ w'.closes = w.closes ++ [.closed]

section Moves

variable {w w' : PortWords} {n n' : PortRole → ℕ} {a b : List PortRole}

theorem Sleeps.move {asleep wake : PortRole} {held held' : Prop} (h : Sleeps n asleep wake held)
    (hle : ∀ r, a.count r ≤ n r) (hn : ∀ r, n' r + a.count r = n r + b.count r)
    (hm : SleepMove n a b asleep wake held held') : Sleeps n' asleep wake held' := by
  have hasleep := hn asleep
  have hwake := hn wake
  have hle' := hle asleep
  have hlew := hle wake
  rcases hm with ⟨h1, h2, h3⟩ | hheld | hb | h0
  · rcases h with h | h | h
    · exact .inl (by omega)
    · exact .inr (.inl (h3 h))
    · exact .inr (.inr (by omega))
  · exact .inr (.inl hheld)
  · exact .inr (.inr (by omega))
  · exact .inl (by omega)

theorem PortSound.move (h : PortSound w n) (hle : ∀ r, a.count r ≤ n r)
    (hn : ∀ r, n' r + a.count r = n r + b.count r) (hm : PortMove w w' n a b) :
    PortSound w' n' where
  inflight := by
    have := hn .counted
    have := hm.inflight
    have := h.inflight
    omega
  waiters := by
    have := hn .waiting
    have := hm.waiters
    have := h.waiters
    omega
  connecting hc := by
    have := hn .connecting
    have := hle .connecting
    rcases hm.connecting hc with ⟨h1, h2⟩ | h1
    · have := h.connecting h1
      omega
    · omega
  settled hl := by
    obtain ⟨h1, h2⟩ := hm.settled hl
    have := h.settled h1
    have := hn .settled
    have := hle .settled
    omega
  refreshing_le := by
    have := h.refreshing_le
    have := hn .refreshing
    rcases hm.refreshing_le with h1 | h1 <;> omega
  refreshing hl := by
    have := hn .refreshing
    have := hle .refreshing
    rcases hm.refreshing hl with ⟨h1, h2⟩ | h1
    · have := h.refreshing h1
      omega
    · omega
  opened hl := by
    have := hn .refreshing
    have := hle .refreshing
    rcases hm.opened hl with ⟨h1, h2⟩ | h1
    · have := h.opened h1
      omega
    · omega
  draining hl := by
    have := hn .draining
    have := hle .draining
    rcases hm.draining hl with ⟨h1, h2⟩ | h1
    · have := h.draining h1
      omega
    · omega
  quiet := by
    have := hn .quiet
    have := hn .inside
    have := h.quiet
    rcases hm.quiet with ⟨h1, h2⟩ | h1 | h1 <;> omega
  ended hl := by
    have := hn .inside
    rcases hm.ended hl with ⟨h1, h2⟩ | h1
    · have := h.ended h1
      omega
    · omega
  finishing hl := by
    have hfinishing := hn .finishing
    have := hle .finishing
    rcases hm.finishing hl with ⟨h1, h2, h3⟩ | h1 | h1
    · have := hm.inflight
      rcases h.finishing h1 with h4 | h4
      · exact .inl (by omega)
      · exact .inr (by omega)
    · exact .inl h1
    · exact .inr (by omega)
  cleaning := by
    have := hn .cleaning
    have := hle .cleaning
    have := h.cleaning
    have := hm.cleaning
    omega
  torn := by
    have := hn .torn
    have := h.torn
    have := hm.torn
    omega
  published hp := by
    have := hn .published
    rcases hm.published with ⟨h1, h2⟩ | h1
    · exact h2 (h.published (by omega))
    · exact h1
  refreshAsleep := h.refreshAsleep.move hle hn hm.refreshAsleep
  cleanAsleep := h.cleanAsleep.move hle hn hm.cleanAsleep
  idleAsleep := h.idleAsleep.move hle hn hm.idleAsleep
  connectAsleep := h.connectAsleep.move hle hn hm.connectAsleep
  broken hb := by
    rcases hm.broken with ⟨h1, h2, h3⟩ | ⟨-, h1⟩ | h1
    · exact (h.broken (h1 ▸ hb)).imp h2.1 h3
    · exact .inl h1
    · exact .inr h1
  failed hl := by
    rcases hm.broken with ⟨h1, h2, -⟩ | ⟨h1, -⟩ | h1
    · rw [h1]
      exact h.failed (h2.2 hl)
    · exact h1
    · rcases h1 with h1 | h1 <;> rw [h1] at hl <;> cases hl
  closes l hl := by
    rcases hm.closes with h1 | h1 <;> rw [h1] at hl
    · exact h.closes l hl
    · rcases mem_append.1 hl with hl | hl
      · exact h.closes l hl
      · exact mem_singleton.1 hl

def PortRole.Gains (w : PortWords) (n : PortRole → ℕ) : PortRole → Prop
  | .counted | .waiting | .cleaning | .torn | .refreshing => False
  | .inside => n .quiet = 0 ∧ ¬w.lifecycle.Ended
  | .settled => ¬w.lifecycle.Usable
  | .quiet => n .inside = 0
  | .published => w.lifecycle = .closed
  | .refreshAsleep => w.lifecycle = .refreshing
  | .cleanAsleep => w.lifecycle = .cleaning
  | .idleAsleep => w.inflight ≠ 0
  | .connectAsleep => w.connecting ≠ 0
  | .connecting | .draining | .finishing | .lifecycleWake | .inflightWake | .connectingWake => True

def PortRole.Loses (w : PortWords) (n : PortRole → ℕ) : PortRole → Prop
  | .counted | .waiting | .cleaning | .torn => False
  | .connecting => w.connecting = 0
  | .refreshing => w.lifecycle ≠ .refreshing
  | .draining => w.lifecycle ≠ .draining
  | .finishing => w.lifecycle = .failed → w.inflight ≠ 0
  | .lifecycleWake => n .refreshAsleep = 0 ∧ n .cleanAsleep = 0
  | .inflightWake => n .idleAsleep = 0
  | .connectingWake => n .connectAsleep = 0
  | .inside | .settled | .quiet | .published | .refreshAsleep | .cleanAsleep | .idleAsleep
  | .connectAsleep => True

theorem PortMove.same : PortMove w w n a a where
  inflight := rfl
  waiters := rfl
  connecting hc := .inl ⟨hc, le_rfl⟩
  settled hl := ⟨hl, le_rfl⟩
  refreshing_le := .inl le_rfl
  refreshing hl := .inl ⟨hl, le_rfl⟩
  opened hl := .inl ⟨hl, le_rfl⟩
  draining hl := .inl ⟨hl, le_rfl⟩
  quiet := .inl ⟨le_rfl, le_rfl⟩
  ended hl := .inl ⟨hl, le_rfl⟩
  finishing hl := .inl ⟨hl, le_rfl, le_rfl⟩
  cleaning := rfl
  torn := rfl
  published := .inl ⟨le_rfl, id⟩
  refreshAsleep := .inl ⟨le_rfl, le_rfl, id⟩
  cleanAsleep := .inl ⟨le_rfl, le_rfl, id⟩
  idleAsleep := .inl ⟨le_rfl, le_rfl, id⟩
  connectAsleep := .inl ⟨le_rfl, le_rfl, id⟩
  broken := .inl ⟨rfl, Iff.rfl, id⟩
  closes := .inl rfl

theorem SleepMove.read {asleep wake : PortRole} {held : Prop} (hle : ∀ r, a.count r ≤ n r)
    (hgained : ¬held → b.count asleep ≤ a.count asleep)
    (hlost : n asleep ≠ 0 → a.count wake ≤ b.count wake) :
    SleepMove n a b asleep wake held held := by
  by_cases hheld : held
  · exact .inr (.inl hheld)
  · have hb := hgained hheld
    by_cases h0 : n asleep = 0
    · have ha := hle asleep
      exact .inr (.inr (.inr (by omega)))
    · exact .inl ⟨hb, hlost h0, id⟩

theorem PortMove.read (gained lost : List PortRole) (hle : ∀ r, a.count r ≤ n r)
    (hcount : ∀ r, b.count r + lost.count r = a.count r + gained.count r)
    (hgained : ∀ r ∈ gained, r.Gains w n) (hlost : ∀ r ∈ lost, r.Loses w n)
    (hinside : .inside ∈ gained → b.count .quiet = 0)
    (hquiet : .quiet ∈ gained → b.count .inside = 0) : PortMove w w n a b := by
  have hno : ∀ r, ¬r.Gains w n → b.count r ≤ a.count r := fun r hr => by
    have h0 := count_eq_zero.2 fun hm => hr (hgained r hm)
    have := hcount r
    omega
  have hkept : ∀ r, ¬r.Loses w n → a.count r ≤ b.count r := fun r hr => by
    have h0 := count_eq_zero.2 fun hm => hr (hlost r hm)
    have := hcount r
    omega
  have hsame : ∀ r, ¬r.Gains w n → ¬r.Loses w n → b.count r = a.count r := fun r h1 h2 =>
    le_antisymm (hno r h1) (hkept r h2)
  exact {
    inflight := by rw [hsame .counted id id]
    waiters := by rw [hsame .waiting id id]
    connecting := fun hc => .inl ⟨hc, hkept .connecting fun h => hc h⟩
    settled := fun hl => ⟨hl, hno .settled fun h => h hl⟩
    refreshing_le := .inl (hno .refreshing id)
    refreshing := fun hl => .inl ⟨hl, hkept .refreshing fun h => h hl⟩
    opened := fun hl => .inl ⟨hl, hno .refreshing id⟩
    draining := fun hl => .inl ⟨hl, hkept .draining fun h => h hl⟩
    quiet := by
      by_cases hi : .inside ∈ gained
      · exact .inr (.inl (by rw [(hgained _ hi).1, hinside hi]))
      · by_cases hq : .quiet ∈ gained
        · exact .inr (.inr (by rw [show n .inside = 0 from hgained _ hq, hquiet hq]))
        · have h1 := count_eq_zero.2 hi
          have h2 := count_eq_zero.2 hq
          have h3 := hcount .inside
          have h4 := hcount .quiet
          exact .inl (by omega)
    ended := fun hl => .inl ⟨hl, hno .inside fun h => h.2 hl⟩
    finishing := fun hl => by
      by_cases h0 : w.inflight = 0
      · exact .inl ⟨hl, hkept .counted id, hkept .finishing fun h => h hl h0⟩
      · exact .inr (.inl h0)
    cleaning := by rw [hsame .cleaning id id]
    torn := by rw [hsame .torn id id]
    published := by
      by_cases hl : w.lifecycle = .closed
      · exact .inr hl
      · exact .inl ⟨hno .published hl, id⟩
    refreshAsleep := .read hle (hno .refreshAsleep) fun h => hkept .lifecycleWake fun h' => h h'.1
    cleanAsleep := .read hle (hno .cleanAsleep) fun h => hkept .lifecycleWake fun h' => h h'.2
    idleAsleep := .read hle (hno .idleAsleep) fun h => hkept .inflightWake h
    connectAsleep := .read hle (hno .connectAsleep) fun h => hkept .connectingWake h
    broken := .inl ⟨rfl, Iff.rfl, id⟩
    closes := .inl rfl }

end Moves

end Astra
