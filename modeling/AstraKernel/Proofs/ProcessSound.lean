import AstraKernel.Proofs.ProcessTable
import Mathlib.Data.List.Perm.Basic

/-!
# What the process table keeps

The order of the slots does not matter (`TableSoundBut.perm`), so a call that writes one slot of an
array is a change at the head of a permuted list.
-/

namespace Astra

open List

/-- The processes `E` and the numbers `N` of the session slots are consistent, but for the session
`gone`, which may have lost its last process. -/
structure TableSoundBut (gone : Int32) (E : List PosixProcessEntry) (N : List Int32) : Prop where
  /-- A process occurs once. -/
  processes : E.Pairwise fun e e' => e.process = e'.process → e.process = 0
  positive : ∀ e ∈ E, e.process ≠ 0 → ¬e.process ≤ 0 ∧ ¬e.session ≤ 0
  /-- A session has one entry. -/
  sessions : N.Pairwise fun n n' => n = n' → n = 0
  entered : ∀ e ∈ E, e.process ≠ 0 → e.session ∈ N
  peopled : ∀ n ∈ N, n = 0 ∨ n = gone ∨ ∃ e ∈ E, e.process ≠ 0 ∧ e.session = n
  groups : ∀ e ∈ E, ∀ e' ∈ E, e.process ≠ 0 → e'.process ≠ 0 → e.group = e'.group →
    e.session = e'.session
  parents : ∀ e ∈ E, e.parent = 0 ∨ ∃ p ∈ E, p.process ≠ 0 ∧ p.process = e.parent

abbrev TableSound : List PosixProcessEntry → List Int32 → Prop := TableSoundBut 0

variable {E E' R : List PosixProcessEntry} {N N' M : List Int32} {x e p : PosixProcessEntry}
  {gone n : Int32}

theorem ne_zero_of_positive {n : Int32} (h : ¬n ≤ 0) : n ≠ 0 := by
  rintro rfl
  exact h (by decide)

theorem TableSoundBut.perm (h : TableSoundBut gone E N) (hE : E.Perm E') (hN : N.Perm N') :
    TableSoundBut gone E' N' where
  processes := h.processes.perm hE fun hab heq => heq ▸ hab heq.symm
  positive e he := h.positive e (hE.mem_iff.mpr he)
  sessions := h.sessions.perm hN fun hab heq => heq ▸ hab heq.symm
  entered e he hp := hN.mem_iff.mp (h.entered e (hE.mem_iff.mpr he) hp)
  peopled n hn := by
    obtain h0 | hg | ⟨e, he, hp⟩ := h.peopled n (hN.mem_iff.mpr hn)
    · exact .inl h0
    · exact .inr (.inl hg)
    · exact .inr (.inr ⟨e, hE.mem_iff.mp he, hp⟩)
  groups e he e' he' := h.groups e (hE.mem_iff.mpr he) e' (hE.mem_iff.mpr he')
  parents e he := by
    obtain h0 | ⟨p, hp, hlive⟩ := h.parents e (hE.mem_iff.mpr he)
    · exact .inl h0
    · exact .inr ⟨p, hE.mem_iff.mp hp, hlive⟩

theorem tableSound_nil : TableSound [] [] where
  processes := .nil
  positive := by simp
  sessions := .nil
  entered := by simp
  peopled := by simp
  groups := by simp
  parents := by simp

theorem TableSoundBut.extend (h : TableSoundBut gone E N) (k : ℕ) :
    TableSoundBut gone (E ++ List.replicate k .zero) (N ++ List.replicate k 0) := by
  have hmem : ∀ {e : PosixProcessEntry}, e ∈ E ++ List.replicate k .zero → e.process ≠ 0 → e ∈ E := by
    intro e he hp
    rcases mem_append.mp he with he | he
    · exact he
    · rw [eq_of_mem_replicate he] at hp
      exact absurd rfl hp
  constructor
  · rw [pairwise_append]
    refine ⟨h.processes, pairwise_replicate.mpr (.inr fun _ => rfl), fun a _ b hb hab => ?_⟩
    rw [hab, eq_of_mem_replicate hb, PosixProcessEntry.zero]
  · exact fun e he hp => h.positive e (hmem he hp) hp
  · rw [pairwise_append]
    refine ⟨h.sessions, pairwise_replicate.mpr (.inr fun _ => rfl), fun a _ b hb hab => ?_⟩
    rw [hab, eq_of_mem_replicate hb]
  · exact fun e he hp => mem_append_left _ (h.entered e (hmem he hp) hp)
  · intro n hn
    rcases mem_append.mp hn with hn | hn
    · obtain h0 | hg | ⟨e, he, hp⟩ := h.peopled n hn
      · exact .inl h0
      · exact .inr (.inl hg)
      · exact .inr (.inr ⟨e, mem_append_left _ he, hp⟩)
    · exact .inl (eq_of_mem_replicate hn)
  · exact fun e he e' he' hp hp' => h.groups e (hmem he hp) e' (hmem he' hp') hp hp'
  · intro e he
    rcases mem_append.mp he with he | he
    · obtain h0 | ⟨p, hp, hlive⟩ := h.parents e he
      · exact .inl h0
      · exact .inr ⟨p, mem_append_left _ hp, hlive⟩
    · rw [eq_of_mem_replicate he]
      exact .inl rfl

/-! ## One slot -/

theorem TableSoundBut.child (h : TableSoundBut gone (x :: R) N) (hx : x.process = 0)
    (hp : p ∈ R) (hlive : p.process ≠ 0) (he : ¬e.process ≤ 0)
    (hnew : ∀ q ∈ R, q.process ≠ e.process) (hparent : e.parent = p.process)
    (hgroup : e.group = p.group) (hsession : e.session = p.session) :
    TableSoundBut gone (e :: R) N := by
  have hpx : p ∈ x :: R := mem_cons_of_mem _ hp
  have hat : ∀ q ∈ R, q.process ≠ 0 → q.group = p.group → q.session = p.session :=
    fun q hq hql heq => h.groups q (mem_cons_of_mem _ hq) p hpx hql hlive heq
  constructor
  · rw [pairwise_cons]
    exact ⟨fun q hq heq => absurd heq.symm (hnew q hq), (pairwise_cons.mp h.processes).2⟩
  · rw [forall_mem_cons]
    exact ⟨fun _ => ⟨he, hsession ▸ (h.positive p hpx hlive).2⟩,
      fun q hq => h.positive q (mem_cons_of_mem _ hq)⟩
  · exact h.sessions
  · rw [forall_mem_cons]
    exact ⟨fun _ => hsession ▸ h.entered p hpx hlive,
      fun q hq => h.entered q (mem_cons_of_mem _ hq)⟩
  · intro n hn
    obtain h0 | hg | ⟨q, hq, hql, hqn⟩ := h.peopled n hn
    · exact .inl h0
    · exact .inr (.inl hg)
    · rcases mem_cons.mp hq with rfl | hq
      · exact absurd hx hql
      · exact .inr (.inr ⟨q, mem_cons_of_mem _ hq, hql, hqn⟩)
  · rw [forall_mem_cons]
    refine ⟨?_, fun q hq => ?_⟩
    · rw [forall_mem_cons]
      refine ⟨fun _ _ _ => rfl, fun q hq _ hql heq => ?_⟩
      rw [hsession, hat q hq hql (heq.symm.trans hgroup)]
    · rw [forall_mem_cons]
      refine ⟨fun hql _ heq => ?_, fun q' hq' =>
        h.groups q (mem_cons_of_mem _ hq) q' (mem_cons_of_mem _ hq')⟩
      rw [hsession, hat q hq hql (heq.trans hgroup)]
  · rw [forall_mem_cons]
    refine ⟨.inr ⟨p, mem_cons_of_mem _ hp, hlive, hparent.symm⟩, fun q hq => ?_⟩
    obtain h0 | ⟨r, hr, hrl, hrq⟩ := h.parents q (mem_cons_of_mem _ hq)
    · exact .inl h0
    · rcases mem_cons.mp hr with rfl | hr
      · exact absurd hx hrl
      · exact .inr ⟨r, mem_cons_of_mem _ hr, hrl, hrq⟩

theorem TableSoundBut.lead (h : TableSound (x :: R) (0 :: M)) (he : ¬e.process ≤ 0)
    (hgroup : e.group = e.process) (hsession : e.session = e.process)
    (hparent : e.parent = 0 ∨ ∃ q ∈ e :: R, q.process ≠ 0 ∧ q.process = e.parent)
    (hx : x.process = 0 ∨ x.process = e.process ∧ x.session ≠ e.process ∧ x.session = gone)
    (hnew : ∀ q ∈ R, q.process ≠ e.process)
    (halone : ∀ q ∈ R, q.process ≠ 0 → q.group ≠ e.process ∧ q.session ≠ e.process) :
    TableSoundBut gone (e :: R) (e.process :: M) := by
  have hfresh : e.process ∉ M := by
    intro hm
    obtain h0 | h0 | ⟨q, hq, hql, hqn⟩ := h.peopled _ (mem_cons_of_mem _ hm)
    · exact ne_zero_of_positive he h0
    · exact ne_zero_of_positive he h0
    · rcases mem_cons.mp hq with rfl | hq
      · rcases hx with hx | ⟨-, hx, -⟩
        · exact hql hx
        · exact hx hqn
      · exact (halone q hq hql).2 hqn
  constructor
  · rw [pairwise_cons]
    exact ⟨fun q hq heq => absurd heq.symm (hnew q hq), (pairwise_cons.mp h.processes).2⟩
  · rw [forall_mem_cons]
    exact ⟨fun _ => ⟨he, hsession ▸ he⟩, fun q hq => h.positive q (mem_cons_of_mem _ hq)⟩
  · rw [pairwise_cons]
    exact ⟨fun n hn heq => absurd (heq ▸ hn) hfresh, (pairwise_cons.mp h.sessions).2⟩
  · rw [forall_mem_cons]
    refine ⟨fun _ => hsession ▸ mem_cons_self, fun q hq hql => ?_⟩
    rcases mem_cons.mp (h.entered q (mem_cons_of_mem _ hq) hql) with h0 | hm
    · exact absurd h0 (ne_zero_of_positive (h.positive q (mem_cons_of_mem _ hq) hql).2)
    · exact mem_cons_of_mem _ hm
  · intro n hn
    rcases mem_cons.mp hn with rfl | hn
    · exact .inr (.inr ⟨e, mem_cons_self, ne_zero_of_positive he, hsession⟩)
    obtain h0 | h0 | ⟨q, hq, hql, hqn⟩ := h.peopled n (mem_cons_of_mem _ hn)
    · exact .inl h0
    · exact .inl h0
    rcases mem_cons.mp hq with rfl | hq
    · rcases hx with hx | ⟨-, -, hx⟩
      · exact absurd hx hql
      · exact .inr (.inl (hqn.symm.trans hx))
    · exact .inr (.inr ⟨q, mem_cons_of_mem _ hq, hql, hqn⟩)
  · rw [forall_mem_cons]
    refine ⟨?_, fun q hq => ?_⟩
    · rw [forall_mem_cons]
      exact ⟨fun _ _ _ => rfl, fun q hq _ hql heq =>
        absurd (heq.symm.trans hgroup) (halone q hq hql).1⟩
    · rw [forall_mem_cons]
      exact ⟨fun hql _ heq => absurd (heq.trans hgroup) (halone q hq hql).1, fun q' hq' =>
        h.groups q (mem_cons_of_mem _ hq) q' (mem_cons_of_mem _ hq')⟩
  · rw [forall_mem_cons]
    refine ⟨hparent, fun q hq => ?_⟩
    obtain h0 | ⟨r, hr, hrl, hrq⟩ := h.parents q (mem_cons_of_mem _ hq)
    · exact .inl h0
    rcases mem_cons.mp hr with rfl | hr
    · rcases hx with hx | ⟨hx, -⟩
      · exact absurd hx hrl
      · exact .inr ⟨e, mem_cons_self, hx ▸ hrl, hx.symm.trans hrq⟩
    · exact .inr ⟨r, mem_cons_of_mem _ hr, hrl, hrq⟩

theorem TableSoundBut.regroup {group : Int32} (h : TableSoundBut gone (x :: R) N)
    (hgroup : ∀ q ∈ R, q.process ≠ 0 → q.group = group → q.session = x.session) :
    TableSoundBut gone ({ x with group := group } :: R) N := by
  constructor
  · exact pairwise_cons.mpr (pairwise_cons.mp h.processes)
  · exact forall_mem_cons.mpr (forall_mem_cons.mp h.positive)
  · exact h.sessions
  · exact forall_mem_cons.mpr (forall_mem_cons.mp h.entered)
  · intro n hn
    obtain h0 | hg | ⟨q, hq, hql⟩ := h.peopled n hn
    · exact .inl h0
    · exact .inr (.inl hg)
    rcases mem_cons.mp hq with rfl | hq
    · exact .inr (.inr ⟨_, mem_cons_self, hql⟩)
    · exact .inr (.inr ⟨q, mem_cons_of_mem _ hq, hql⟩)
  · rw [forall_mem_cons]
    refine ⟨?_, fun q hq => ?_⟩
    · rw [forall_mem_cons]
      exact ⟨fun _ _ _ => rfl, fun q hq _ hql heq => (hgroup q hq hql heq.symm).symm⟩
    · rw [forall_mem_cons]
      exact ⟨fun hql _ heq => hgroup q hq hql heq, fun q' hq' =>
        h.groups q (mem_cons_of_mem _ hq) q' (mem_cons_of_mem _ hq')⟩
  · have hlive : ∀ n, (n = 0 ∨ ∃ q ∈ x :: R, q.process ≠ 0 ∧ q.process = n) →
        n = 0 ∨ ∃ q ∈ { x with group := group } :: R, q.process ≠ 0 ∧ q.process = n := by
      rintro n (h0 | ⟨q, hq, hql⟩)
      · exact .inl h0
      rcases mem_cons.mp hq with rfl | hq
      · exact .inr ⟨_, mem_cons_self, hql⟩
      · exact .inr ⟨q, mem_cons_of_mem _ hq, hql⟩
    rw [forall_mem_cons]
    exact ⟨hlive _ (h.parents x mem_cons_self),
      fun q hq => hlive _ (h.parents q (mem_cons_of_mem _ hq))⟩

def orphan (process : Int32) (e : PosixProcessEntry) : PosixProcessEntry :=
  if e.parent = process then { e with parent := 0 } else e

@[simp] theorem orphan_process (n : Int32) (e : PosixProcessEntry) :
    (orphan n e).process = e.process := by
  unfold orphan
  split_ifs <;> rfl

@[simp] theorem orphan_session (n : Int32) (e : PosixProcessEntry) :
    (orphan n e).session = e.session := by
  unfold orphan
  split_ifs <;> rfl

@[simp] theorem orphan_group (n : Int32) (e : PosixProcessEntry) :
    (orphan n e).group = e.group := by
  unfold orphan
  split_ifs <;> rfl

theorem orphan_parent (n : Int32) (e : PosixProcessEntry) :
    (orphan n e).parent = 0 ∨ (orphan n e).parent = e.parent ∧ e.parent ≠ n := by
  unfold orphan
  split_ifs with h
  · exact .inl rfl
  · exact .inr ⟨rfl, h⟩

theorem TableSoundBut.leave (h : TableSound (x :: R) N) :
    TableSoundBut x.session ((.zero :: R).map (orphan x.process)) N := by
  have hzero : (orphan x.process .zero).process = 0 := orphan_process _ _
  rw [map_cons]
  constructor
  · rw [pairwise_cons, pairwise_map]
    refine ⟨fun _ _ _ => hzero, (pairwise_cons.mp h.processes).2.imp ?_⟩
    simp only [orphan_process, imp_self, implies_true]
  · rw [forall_mem_cons, forall_mem_map]
    simp only [orphan_process, orphan_session]
    exact ⟨fun h0 => absurd rfl h0, fun q hq => h.positive q (mem_cons_of_mem _ hq)⟩
  · exact h.sessions
  · rw [forall_mem_cons, forall_mem_map]
    simp only [orphan_process, orphan_session]
    exact ⟨fun h0 => absurd rfl h0, fun q hq => h.entered q (mem_cons_of_mem _ hq)⟩
  · intro n hn
    obtain h0 | h0 | ⟨q, hq, hql⟩ := h.peopled n hn
    · exact .inl h0
    · exact .inl h0
    rcases mem_cons.mp hq with rfl | hq
    · exact .inr (.inl hql.2.symm)
    · refine .inr (.inr ⟨orphan x.process q, mem_cons_of_mem _ (mem_map_of_mem hq), ?_⟩)
      simpa only [orphan_process, orphan_session] using hql
  · rw [forall_mem_cons, forall_mem_map]
    simp only [orphan_process, orphan_session, orphan_group]
    refine ⟨fun _ _ h0 => absurd rfl h0, fun q hq => ?_⟩
    rw [forall_mem_cons, forall_mem_map]
    simp only [orphan_process, orphan_session, orphan_group]
    exact ⟨fun _ h0 => absurd rfl h0, fun q' hq' =>
      h.groups q (mem_cons_of_mem _ hq) q' (mem_cons_of_mem _ hq')⟩
  · rw [forall_mem_cons, forall_mem_map]
    refine ⟨.inl ?_, fun q hq => ?_⟩
    · unfold orphan
      split_ifs <;> rfl
    · obtain h0 | ⟨heq, hne⟩ := orphan_parent x.process q
      · exact .inl h0
      rw [heq]
      obtain h0 | ⟨r, hr, hrl, hrq⟩ := h.parents q (mem_cons_of_mem _ hq)
      · exact .inl h0
      -- the parent is another process, and so it stays
      rcases mem_cons.mp hr with rfl | hr
      · exact absurd hrq.symm hne
      · exact .inr ⟨orphan x.process r, mem_cons_of_mem _ (mem_map_of_mem hr),
          by simpa only [orphan_process] using ⟨hrl, hrq⟩⟩

theorem TableSoundBut.occupied (h : TableSoundBut gone E N)
    (hin : gone ∈ N → ∃ e ∈ E, e.process ≠ 0 ∧ e.session = gone) : TableSound E N :=
  { h with
    peopled := fun n hn => by
      obtain h0 | rfl | hlive := h.peopled n hn
      · exact .inl h0
      · exact .inr (.inr (hin hn))
      · exact .inr (.inr hlive) }

theorem TableSoundBut.vacant (h : TableSoundBut gone E (gone :: M))
    (hout : ∀ e ∈ E, e.process ≠ 0 → e.session ≠ gone) : TableSound E (0 :: M) where
  processes := h.processes
  positive := h.positive
  sessions := pairwise_cons.mpr ⟨fun _ _ _ => rfl, (pairwise_cons.mp h.sessions).2⟩
  entered e he hp := by
    rcases mem_cons.mp (h.entered e he hp) with hg | hm
    · exact absurd hg (hout e he hp)
    · exact mem_cons_of_mem _ hm
  peopled n hn := by
    rcases mem_cons.mp hn with rfl | hn
    · exact .inl rfl
    obtain h0 | rfl | hlive := h.peopled n (mem_cons_of_mem _ hn)
    · exact .inl h0
    · exact .inl ((pairwise_cons.mp h.sessions).1 _ hn rfl)
    · exact .inr (.inr hlive)
  groups := h.groups
  parents := h.parents

end Astra
