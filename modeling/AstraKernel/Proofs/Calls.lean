import AstraKernel.Proofs.Waits

/-!
# A reply completes the call it was issued for

Call numbers are handed out in order, so none is handed out twice in a run that begins fewer calls
than there are numbers. A thread was given its number when its call began, and has not left its slot
since.
-/

namespace Astra

open Function List

/-- The number that a call of the pool hands out. -/
def callBegun (p : Pool) : ThreadOp → List ℕ
  | .callBegin t rowMemory =>
    let r := kernelThreadCallBegin p t rowMemory
    if r.1.1 = .ok then [r.2] else []
  | _ => []

/-- The numbers that the port calls of a run are given. -/
def callsBegun (p : Pool) : List ThreadOp → List ℕ
  | [] => []
  | op :: ops => callBegun p op ++ callsBegun (p.step op).2 ops

section

variable {p p' : Pool} {t : Slot} {op : ThreadOp} {ops : List ThreadOp}

theorem callsBegun_append (ops ops' : List ThreadOp) :
    callsBegun p (ops ++ ops') = callsBegun p ops ++ callsBegun (p.run ops) ops' := by
  induction ops generalizing p with
  | nil => rfl
  | cons op ops ih => simp only [cons_append, callsBegun, Pool.run, ih, append_assoc]

section

variable (h : Healthy p)
include h

theorem step_nextCall (hs : Sane p op) : callBegun p op = [] ∧ (p.step op).2.nextCall = p.nextCall ∨
      callBegun p op = [kernelGenerationNext p.nextCall] ∧
        (p.step op).2.nextCall = kernelGenerationNext p.nextCall := by
  have heff := (step_effect h op hs).2
  have hother : (∀ t m, op ≠ .callBegin t m) → (p.step op).2.nextCall = p.nextCall := by
    intro hop
    generalize (p.step op).2 = p' at heff
    cases heff with
    | calm hc => exact hc.nextCall
    | aside x hx => exact hx.nextCall
    | began x hC hx =>
      cases op with
      | callBegin t m => exact absurd rfl (hop t m)
      | _ => exact hC.elim
    | started x data specs deadline timeoutResult mode hx hd hst =>
      obtain ⟨w, d, hp⟩ := hst.eq
      rw [hp]
    | observed x observer hx hn hp => rw [hp]
    | ended hx => exact hx.nextCall
    | reaped hx => exact hx.nextCall
  cases op with
  | callBegin t m =>
    rcases kernelThreadCallBegin_spec h t m with ⟨status, hne, he⟩ | ⟨p', he, -, hb⟩
    · left
      constructor
      · simp only [callBegun, he, if_neg hne]
      · show (kernelThreadCallBegin p t m).1.2.nextCall = p.nextCall
        rw [he]
    · right
      obtain ⟨rows, hp⟩ := hb.eq
      constructor
      · simp only [callBegun, he, if_true]
      · show (kernelThreadCallBegin p t m).1.2.nextCall = _
        rw [he, hp]
  | _ => exact .inl ⟨rfl, hother fun _ _ => by simp⟩

theorem callsBegun_eq (hs : p.Along Sane ops)
    (hn : p.nextCall + (callsBegun p ops).length < 2 ^ 32) :
    callsBegun p ops = List.range' (p.nextCall + 1) (callsBegun p ops).length := by
  induction ops generalizing p with
  | nil => rfl
  | cons op ops ih =>
    have h' := (step_effect h op hs.1).1
    unfold callsBegun at hn ⊢
    rcases step_nextCall h hs.1 with ⟨h1, h2⟩ | ⟨h1, h2⟩
    · rw [h1, nil_append] at hn ⊢
      rw [← h2] at hn ⊢
      exact ih h' hs.2 hn
    · have hnext : kernelGenerationNext p.nextCall = p.nextCall + 1 := by
        rw [h1] at hn
        simp only [length_append, length_singleton] at hn
        unfold kernelGenerationNext
        split_ifs <;> omega
      rw [hnext] at h1 h2
      rw [h1] at hn ⊢
      simp only [length_append, length_singleton] at hn
      have := ih h' hs.2 (by omega)
      rw [h2] at this
      rw [length_append, length_singleton, Nat.add_comm 1, range'_succ, ← this]
      rfl

theorem step_call (hs : Sane p op) (hv : validThread (p.step op).2 t)
    (hc : (p.step op).2.call t ≠ 0) :
    (validThread p t ∧ (p.step op).2.id t = p.id t ∧ (p.step op).2.call t = p.call t) ∨
      ∃ m, op = .callBegin t m ∧
        kernelThreadCallBegin p t m = ((.ok, (p.step op).2), (p.step op).2.call t) ∧
        (p.step op).2.state t = .running := by
  have heff := (step_effect h op hs).2
  by_cases hop : ∃ m, op = .callBegin t m
  · obtain ⟨m, rfl⟩ := hop
    have hstep : (p.step (.callBegin t m)) = (kernelThreadCallBegin p t m).1 := rfl
    rcases kernelThreadCallBegin_spec h t m with ⟨status, hne, he⟩ | ⟨p', he, -, hb⟩
    · rw [hstep, he] at hv ⊢
      exact .inl ⟨hv, rfl, rfl⟩
    · right
      obtain ⟨rows, hp⟩ := hb.eq
      refine ⟨m, rfl, ?_, ?_⟩
      · rw [hstep, he]
        simp only
        rw [hp]
        simp
      · rw [hstep, he, hp]
        exact hb.running
  · left
    generalize (p.step op).2 = p' at heff hv hc
    have hocc : p'.occupied t = p.occupied t → validThread p t := by
      intro ho
      have h1 : p'.occupied t = true := hv
      rw [ho] at h1
      exact h1
    cases heff with
    | calm hx => exact ⟨hocc (congrFun hx.occupied t), congrFun hx.id t, (hx.still t).call⟩
    | aside x hx =>
      rcases eq_or_ne t x with rfl | hne
      · rcases hx.call with ⟨h1, h2⟩ | h1
        · exact ⟨h1, (hx.kept h1).2, h2⟩
        · exact absurd h1 hc
      · exact ⟨hocc (hx.occupied t hne), hx.id t hne, (hx.still t hne).call⟩
    | began x hC hx =>
      cases op with
      | callBegin y m =>
        have hne : t ≠ x := by
          rintro rfl
          obtain rfl : t = y := hC
          exact hop ⟨m, rfl⟩
        obtain ⟨rows, rfl⟩ := hx.eq
        exact ⟨hv, rfl, update_of_ne hne _ _⟩
      | _ => exact hC.elim
    | started x data specs deadline timeoutResult mode hx hd hst =>
      obtain ⟨w, d, rfl⟩ := hst.eq
      exact ⟨hv, rfl, rfl⟩
    | observed x observer hx hn hp =>
      subst hp
      exact ⟨hv, rfl, rfl⟩
    | ended hx =>
      refine ⟨hocc (congrFun hx.occupied t), congrFun hx.id t, ?_⟩
      rcases hx.call t with h1 | h1
      · exact h1
      · exact absurd h1 hc
    | reaped hx => exact ⟨(hx.valid t hv).1, congrFun hx.id t, (hx.still t).call⟩

/-- The number `call` was handed to `slot` after `pre`, and the slot's thread has had it since,
through `mid`. -/
structure HasHad (p : Pool) (slot : Slot) (call : ℕ) (pre : List ThreadOp) (rowMemory : Bool)
    (mid : List ThreadOp) (p₁ : Pool) : Prop where
  begun : kernelThreadCallBegin (p.run pre) slot rowMemory = ((.ok, p₁), call)
  stepped : p₁ = ((p.run pre).step (.callBegin slot rowMemory)).2
  running : p₁.state slot = .running
  kept : ∀ before after, mid = before ++ after → validThread (p₁.run before) slot
    ∧ (p₁.run before).id slot = p₁.id slot ∧ (p₁.run before).call slot = call

theorem run_hasHad (h0 : ∀ x, ¬ validThread p x) (hs : p.Along Sane ops)
    (hv : validThread (p.run ops) t) (hc : (p.run ops).call t ≠ 0) :
    ∃ pre m mid p₁, ops = pre ++ .callBegin t m :: mid ∧
      HasHad p t ((p.run ops).call t) pre m mid p₁ := by
  induction ops using List.reverseRecOn with
  | nil => exact absurd hv (h0 t)
  | append_singleton ops op ih =>
    obtain ⟨hs', hop, -⟩ := Pool.Along.append.1 hs
    have hrun : p.run (ops ++ [op]) = ((p.run ops).step op).2 := Pool.run_append p ops [op]
    rw [hrun] at hv hc ⊢
    rcases step_call (run_healthy h hs') hop hv hc with ⟨h1, h2, h3⟩ | ⟨m, rfl, h1, h2⟩
    · obtain ⟨pre, m, mid, p₁, rfl, hb⟩ := ih hs' h1 (h3 ▸ hc)
      refine ⟨pre, m, mid ++ [op], p₁, by simp, ?_⟩
      rw [h3]
      refine ⟨hb.begun, hb.stepped, hb.running, fun before after hsplit => ?_⟩
      have hmid : p.run (pre ++ .callBegin t m :: mid) = p₁.run mid := by
        rw [Pool.run_append, hb.stepped]
        rfl
      rcases eq_nil_or_concat after with rfl | ⟨after, o, rfl⟩
      · rw [append_nil] at hsplit
        rw [← hsplit, Pool.run_append, ← hmid]
        obtain ⟨-, h5, -⟩ := hb.kept mid [] (by simp)
        rw [← hmid] at h5
        exact ⟨hv, h2.trans h5, h3⟩
      · rw [concat_eq_append, ← append_assoc] at hsplit
        exact hb.kept before after (append_inj' hsplit rfl).1
    · refine ⟨ops, m, [], _, rfl, h1, rfl, h2, fun before after hsplit => ?_⟩
      obtain ⟨rfl, rfl⟩ := append_eq_nil_iff.1 hsplit.symm
      exact ⟨hv, rfl, rfl⟩

theorem run_blocked_since (hs : p.Along Sane ops) (hn : p.state t ≠ .blocked)
    (hb : (p.run ops).state t = .blocked) :
    ∃ before op after, ops = before ++ op :: after ∧ op.blocks t ∧
      (p.run before).state t ≠ .blocked ∧
      ∀ b a, after = b ++ a → Waiting (p.run (before ++ [op])) (p.run (before ++ op :: b)) t := by
  induction ops using List.reverseRecOn with
  | nil => exact absurd hb hn
  | append_singleton ops op ih =>
    obtain ⟨hs', hop, -⟩ := Pool.Along.append.1 hs
    have hrun : p.run (ops ++ [op]) = ((p.run ops).step op).2 := Pool.run_append p ops [op]
    have hh := run_healthy h hs'
    by_cases hwas : (p.run ops).state t = .blocked
    · obtain ⟨before, o, after, rfl, h1, h2, h3⟩ := ih hs' hwas
      refine ⟨before, o, after ++ [op], by simp, h1, h2, fun b a hsplit => ?_⟩
      have hin := h3 after [] (by simp)
      rcases eq_nil_or_concat a with rfl | ⟨a, o', rfl⟩
      · rw [append_nil] at hsplit
        rw [← hsplit, ← cons_append, ← append_assoc, hrun]
        rcases step_waiting hh hop hin.inWait with h4 | ⟨e, -, h4⟩
        · exact hin.trans h4
        · rw [hrun] at hb
          rcases h4.after with h5 | h5 <;> simp [hb] at h5
      · rw [concat_eq_append, ← append_assoc] at hsplit
        exact h3 b a (append_inj' hsplit rfl).1
    · rw [hrun] at hb
      obtain ⟨h1, h2, -⟩ := step_starts hh hop hwas hb
      refine ⟨ops, op, [], rfl, h2, hwas, fun b a hsplit => ?_⟩
      obtain ⟨rfl, rfl⟩ := append_eq_nil_iff.1 hsplit.symm
      rw [hrun]
      exact .refl ⟨h1, hb⟩

end

theorem HasHad.mem {slot call : ℕ} {pre mid : List ThreadOp} {m : Bool} {p₁ : Pool}
    (h : HasHad p slot call pre m mid p₁) :
    call ∈ callsBegun p (pre ++ .callBegin slot m :: mid) := by
  rw [callsBegun_append]
  refine mem_append_right _ (mem_append_left _ ?_)
  simp [callBegun, h.begun]

/-- While there are numbers that have not been handed out, a number names the one call it was handed
to: a thread it finds is blocked in that call, and a reply to it ends no other wait. -/
theorem run_call_waiting (audit : Bool) (ops : List ThreadOp) (slot call : ℕ) (t : Slot)
    {p : Pool} (hp : p = (kernelThreadPoolInit audit).run ops)
    (hs : (kernelThreadPoolInit audit).Along Sane ops)
    (hn : (callsBegun (kernelThreadPoolInit audit) ops).length < 2 ^ 32 - 1)
    (hw : kernelThreadCallWaiting p slot call = some t) :
    t = slot ∧ (callsBegun (kernelThreadPoolInit audit) ops).count call = 1 ∧
      (∃ pre m mid p₁, ops = pre ++ .callBegin slot m :: mid ∧
        HasHad (kernelThreadPoolInit audit) slot call pre m mid p₁ ∧
        ∃ before op after, mid = before ++ op :: after ∧ op.blocks slot ∧
          (p₁.run before).state slot ≠ .blocked ∧
          ((p₁.run (before ++ [op])).waits.row (slot, 0)).queue = some (.call slot) ∧
          ∀ b a, after = b ++ a →
            Waiting (p₁.run (before ++ [op])) (p₁.run (before ++ op :: b)) slot) ∧
      ∀ result size handleCount replier x, x ≠ slot → InWait p x →
        Waiting p (p.step (.callComplete slot result size handleCount replier)).2 x := by
  have hinit := healthy_init audit
  have hh : Healthy p := hp ▸ run_healthy hinit hs
  obtain ⟨rfl, hc, hv, hcall, hb, hcount⟩ := kernelThreadCallWaiting_eq hw
  have hempty : ∀ x, ¬ validThread (kernelThreadPoolInit audit) x := by
    simp [validThread, kernelThreadPoolInit]
  obtain ⟨pre, m, mid, p₁, hsplit, hhad⟩ := run_hasHad hinit hempty hs (hp ▸ hv)
    (by rwa [← hp, hcall])
  rw [← hp, hcall] at hhad
  refine ⟨rfl, ?_, ⟨pre, m, mid, p₁, hsplit, hhad, ?_⟩,
    fun result size handleCount replier x hx hin => ?_⟩
  · have hlist := callsBegun_eq hinit hs (by show 0 + _ < _; omega)
    refine count_eq_one_of_mem ?_ (hsplit ▸ hhad.mem)
    rw [hlist]
    exact nodup_range'
  · rw [hsplit] at hs
    obtain ⟨hpre, hop, hmid⟩ := Pool.Along.append.1 hs
    rw [← hhad.stepped] at hmid
    have hrun : p₁.run mid = p := by
      rw [hp, hsplit, Pool.run_append, hhad.stepped]
      rfl
    have hh₁ : Healthy p₁ := hhad.stepped ▸ (step_effect (run_healthy hinit hpre) _ hop).1
    obtain ⟨before, op, after, hmid', h1, h2, h3⟩ := run_blocked_since hh₁ hmid
      (by simp [hhad.running]) (hrun ▸ hb)
    refine ⟨before, op, after, hmid', h1, h2, ?_, h3⟩
    have hlast := (h3 after [] (by simp)).row 0
    rw [← hmid', hrun] at hlast
    obtain ⟨R, Q, S, D, hp'⟩ := hh
    exact hlast.symm.trans (hp'.queued.row_of_call hcount).1
  · have hsane : Sane p (.callComplete t result size handleCount replier) := ⟨trivial, trivial⟩
    rcases step_waiting hh hsane hin with h1 | ⟨e, ⟨h1, -⟩, -⟩
    · exact h1
    · exact absurd h1 hx

theorem run_call_waiting_boosted :
    kernelThreadCallWaiting ((kernelThreadPoolInit false).run boostedOwner) 1 1 = some 1 ∧
      (callsBegun (kernelThreadPoolInit false) boostedOwner).count 1 = 1 :=
  ⟨by decide +kernel, (run_call_waiting false boostedOwner 1 1 1 rfl (boostedOwner_sane _)
    (by decide +kernel) (by decide +kernel)).2.1⟩

end

end Astra
