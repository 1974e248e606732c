import AstraKernel.Chains

/-!
# Orders that follow a graph

Nodes are taken one by one, always the first that has no edge to a node that is not taken. Where that
takes all of them, each comes behind every node it has an edge to (`takeReady_spec`); where it does
not, the edges have a cycle (`takeReady_none`).
-/

namespace Astra

open List

variable {K : Type*} [DecidableEq K]

/-- A node that is not taken and has no edge to one that is not. -/
def firstReady (nodes : List K) (edges : List (K × K)) (taken : List K) : Option K :=
  nodes.find? fun node => node ∉ taken ∧ ∀ edge ∈ edges, edge.1 = node → edge.2 ∈ taken

def takeReady (nodes : List K) (edges : List (K × K)) : ℕ → List K → Option (List K)
  | 0, taken => if taken.length < nodes.length then none else some taken
  | fuel + 1, taken =>
    if taken.length < nodes.length then
      match firstReady nodes edges taken with
      | none => none
      | some node => takeReady nodes edges fuel (taken ++ [node])
    else some taken

/-- Nodes, each behind all that it has an edge to. -/
structure Precedes (nodes : List K) (edges : List (K × K)) (order : List K) : Prop where
  nodup : order.Nodup
  subset : order ⊆ nodes
  before : ∀ edge ∈ edges, edge.1 ∈ order → edge.2 ∈ order ∧ order.idxOf edge.2 < order.idxOf edge.1

variable {nodes : List K} {edges : List (K × K)}

theorem Precedes.nil : Precedes nodes edges [] :=
  ⟨nodup_nil, nil_subset _, fun _ _ h => absurd h not_mem_nil⟩

theorem Precedes.take {taken : List K} {node : K} (h : Precedes nodes edges taken)
    (hn : firstReady nodes edges taken = some node) : Precedes nodes edges (taken ++ [node]) := by
  have hnode := List.find?_some hn
  have hmem := mem_of_find?_eq_some hn
  simp only [decide_eq_true_eq] at hnode
  obtain ⟨hnew, hready⟩ := hnode
  refine ⟨?_, ?_, ?_⟩
  · rw [nodup_append]
    refine ⟨h.nodup, nodup_singleton _, ?_⟩
    rintro a ha b hb rfl
    rw [mem_singleton.1 hb] at ha
    exact hnew ha
  · intro k hk
    rcases mem_append.1 hk with hk | hk
    · exact h.subset hk
    · rwa [mem_singleton.1 hk]
  · intro edge he hfrom
    by_cases hold : edge.1 ∈ taken
    · obtain ⟨hto, hlt⟩ := h.before edge he hold
      refine ⟨mem_append_left _ hto, ?_⟩
      rwa [idxOf_append_of_mem hto, idxOf_append_of_mem hold]
    · have hself : edge.1 = node := by
        simpa [hold] using hfrom
      have hto := hready edge he hself
      refine ⟨mem_append_left _ hto, ?_⟩
      rw [idxOf_append_of_mem hto, idxOf_append_of_notMem hold]
      exact (idxOf_lt_length_of_mem hto).trans_le (Nat.le_add_right _ _)

/-- All the nodes, each behind the ones it has an edge to. -/
theorem takeReady_spec : ∀ {fuel : ℕ} {taken order : List K},
    Precedes nodes edges taken → takeReady nodes edges fuel taken = some order →
    Precedes nodes edges order ∧ order.Perm nodes := by
  have hdone : ∀ {taken : List K}, Precedes nodes edges taken → ¬taken.length < nodes.length →
      Precedes nodes edges taken ∧ taken.Perm nodes := fun h hlen =>
    ⟨h, (h.nodup.subperm h.subset).perm_of_length_le (not_lt.1 hlen)⟩
  intro fuel
  induction fuel with
  | zero =>
    intro taken order h ht
    rw [takeReady] at ht
    split_ifs at ht with hlen
    cases ht
    exact hdone h hlen
  | succ fuel ih =>
    intro taken order h ht
    rw [takeReady] at ht
    split_ifs at ht with hlen
    · rcases hn : firstReady nodes edges taken with _ | node <;> rw [hn] at ht
      · cases ht
      · exact ih (h.take hn) ht
    · cases ht
      exact hdone h hlen

/-- Nodes that cannot all be taken have a cycle among them. -/
theorem takeReady_none (hnodes : nodes.Nodup) (hedges : ∀ edge ∈ edges, edge.2 ∈ nodes) :
    ∀ {fuel : ℕ} {taken : List K}, Precedes nodes edges taken →
    nodes.length ≤ taken.length + fuel → takeReady nodes edges fuel taken = none →
    ∃ node, Relation.TransGen (fun a b => (a, b) ∈ edges) node node := by
  intro fuel
  induction fuel with
  | zero =>
    intro taken h hfuel ht
    rw [takeReady, if_neg (by omega)] at ht
    cases ht
  | succ fuel ih =>
    intro taken h hfuel ht
    rw [takeReady] at ht
    split_ifs at ht with hlen
    rcases hn : firstReady nodes edges taken with _ | node <;> rw [hn] at ht
    · -- Every node that is left has an edge to one that is left.
      have hleft : ∃ node ∈ nodes, node ∉ taken := by
        by_contra hall
        push Not at hall
        have := (hnodes.subperm hall).length_le
        omega
      obtain ⟨first, hfirst, hfirst'⟩ := hleft
      refine exists_cycle (nodes.toFinset \ taken.toFinset) ⟨first, by simp [hfirst, hfirst']⟩ ?_
      intro node hnode
      simp only [Finset.mem_sdiff, mem_toFinset] at hnode
      have hblocked := List.find?_eq_none.1 hn node hnode.1
      simp only [decide_eq_true_eq, not_and, not_forall] at hblocked
      obtain ⟨edge, he, rfl, hto⟩ := hblocked hnode.2
      exact ⟨edge.2, by simp [hedges edge he, hto], he⟩
    · exact ih (h.take hn) (by simp; omega) ht

/-- An order leaves no cycle. -/
theorem Precedes.acyclic {order : List K} (h : Precedes nodes edges order)
    (hall : ∀ edge ∈ edges, edge.1 ∈ order) (node : K) :
    ¬Relation.TransGen (fun a b => (a, b) ∈ edges) node node := by
  have hlt : ∀ {a b : K}, Relation.TransGen (fun a b => (a, b) ∈ edges) a b →
      order.idxOf b < order.idxOf a := by
    intro a b hab
    induction hab with
    | single hab => exact (h.before _ hab (hall _ hab)).2
    | tail _ hbc ih => exact (h.before _ hbc (hall _ hbc)).2.trans ih
  intro hcycle
  exact Nat.lt_irrefl _ (hlt hcycle)

end Astra
