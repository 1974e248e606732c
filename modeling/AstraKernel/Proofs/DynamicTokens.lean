import AstraKernel.Loader.Process
import Mathlib.Data.List.ReduceOption

/-!
# The tokens of a process

While no commit has failed, a token is with the process or has been finished once (`Held`), and the
end of the process finishes those it still has (`Held.discard`). A commit that fails finishes the
image it failed at twice: to commit it and to roll it back.
-/

namespace Astra

open List

variable {Token : Type} {answers : DynamicAnswers Token}

/-- The tokens that were finished, as often as they were. -/
def finishedTokens (trace : DynamicTrace Token) : List Token :=
  trace.finished.filterMap DynamicFinish.token

def DynamicTrace.finish (trace : DynamicTrace Token) (events : List (DynamicFinish Token)) :
    DynamicTrace Token := { trace with finished := trace.finished ++ events }

section

variable (trace : DynamicTrace Token)

section

variable (events : List (DynamicFinish Token))

@[simp] theorem DynamicTrace.finish_opened : (trace.finish events).opened = trace.opened := rfl

@[simp] theorem DynamicTrace.finish_obtained : (trace.finish events).obtained = trace.obtained := rfl

@[simp] theorem DynamicTrace.finish_finished :
    (trace.finish events).finished = trace.finished ++ events := rfl

end

@[simp] theorem DynamicTrace.finish_finish (events events' : List (DynamicFinish Token)) :
    (trace.finish events).finish events' = trace.finish (events ++ events') := by
  simp [DynamicTrace.finish]

@[simp] theorem DynamicTrace.finish_nil : trace.finish [] = trace := by
  simp [DynamicTrace.finish]

@[simp] theorem finishedTokens_finish
    (events : List (DynamicFinish Token)) : finishedTokens (trace.finish events) =
      finishedTokens trace ++ events.filterMap DynamicFinish.token := by
  simp [finishedTokens]

theorem finishToken_eq (token : Option Token) (commit : Bool) :
    finishToken answers trace token commit =
      (answers.finishImage trace.finished.length token commit,
        trace.finish [⟨token, commit, answers.finishImage trace.finished.length token commit⟩]) := rfl

end

theorem rollbackTokens_spec (answers : DynamicAnswers Token) (trace : DynamicTrace Token) : ∀ tokens : List (Option Token),
    ∃ events, rollbackTokens answers trace tokens = trace.finish events ∧
      events.filterMap DynamicFinish.token = (tokens.filterMap id).reverse ∧
      ∀ event ∈ events, event.commit = false
  | [] => ⟨[], by simp [rollbackTokens], by simp, by simp⟩
  | token :: tokens => by
    obtain ⟨events, hrun, htokens, hcommit⟩ := rollbackTokens_spec answers trace tokens
    cases token with
    | none => exact ⟨events, by simpa [rollbackTokens] using hrun, by simpa using htokens, hcommit⟩
    | some token =>
      simp only [rollbackTokens, hrun, finishToken_eq, Option.isSome_some, if_true,
        DynamicTrace.finish_finish]
      refine ⟨_, rfl, ?_, ?_⟩
      · simp [htokens]
      · simpa [or_imp, forall_and] using hcommit

/-- Some image of the process is not committed when it is tried to. -/
def CommitFails (answers : DynamicAnswers Token) (tokens : List (Option Token))
    (trace : DynamicTrace Token) : Prop :=
  ∃ k token, tokens[k]? = some token ∧
    answers.finishImage (trace.finished.length + k) token true ≠ astraSyscallOk

theorem commitTokens_cons_of_ok {token : Option Token} {trace : DynamicTrace Token}
    (h : answers.finishImage trace.finished.length token true = astraSyscallOk)
    (tokens : List (Option Token)) : commitTokens answers (token :: tokens) trace =
      commitTokens answers tokens (trace.finish [⟨token, true, astraSyscallOk⟩]) := by
  simp [commitTokens, finishToken_eq, h]

theorem commitFails_cons_of_ok {token : Option Token} {trace : DynamicTrace Token}
    (h : answers.finishImage trace.finished.length token true = astraSyscallOk)
    {tokens : List (Option Token)} : CommitFails answers (token :: tokens) trace ↔
      CommitFails answers tokens (trace.finish [⟨token, true, astraSyscallOk⟩]) := by
  constructor
  · rintro ⟨k, token', htoken, hfail⟩
    cases k with
    | zero =>
      cases htoken
      exact absurd h hfail
    | succ k =>
      refine ⟨k, token', by simpa using htoken, ?_⟩
      simpa [Nat.add_assoc, Nat.add_comm 1 k] using hfail
  · rintro ⟨k, token', htoken, hfail⟩
    refine ⟨k + 1, token', by simpa using htoken, ?_⟩
    simpa [Nat.add_assoc, Nat.add_comm 1 k] using hfail

theorem commitTokens_ok : ∀ {tokens : List (Option Token)} {trace : DynamicTrace Token},
    ¬CommitFails answers tokens trace →
    ∃ events, commitTokens answers tokens trace = (astraSyscallOk, trace.finish events) ∧
      events.filterMap DynamicFinish.token = tokens.filterMap id ∧
      ∀ event ∈ events, event.commit = true ∧ event.status = astraSyscallOk
  | [], trace, _ => ⟨[], by simp [commitTokens], by simp, by simp⟩
  | token :: tokens, trace, h => by
    have hfirst : answers.finishImage trace.finished.length token true = astraSyscallOk := by
      by_contra hfirst
      exact h ⟨0, token, rfl, hfirst⟩
    rw [commitFails_cons_of_ok hfirst] at h
    obtain ⟨events, hrun, htokens, hall⟩ := commitTokens_ok h
    refine ⟨⟨token, true, astraSyscallOk⟩ :: events, ?_, ?_, ?_⟩
    · rw [commitTokens_cons_of_ok hfirst, hrun, DynamicTrace.finish_finish]
      rfl
    · cases token <;> simp [htokens]
    · simpa using hall

theorem filterMap_none {tokens : List (Option Token)} (h : ∀ token ∈ tokens, token = none) :
    tokens.filterMap id = [] :=
  filterMap_eq_nil_iff.2 h

theorem commitTokens_fails : ∀ {tokens : List (Option Token)} {trace : DynamicTrace Token},
    CommitFails answers tokens trace →
    ∃ status events, commitTokens answers tokens trace = (status, trace.finish events) ∧
      status ≠ astraSyscallOk ∧
      ((∀ token ∈ tokens, token.isSome) →
        (events.filterMap DynamicFinish.token).length = tokens.length + 1) ∧
      ((∀ token ∈ tokens, token = none) → events.filterMap DynamicFinish.token = [])
  | [], _, h => by
    obtain ⟨k, token, htoken, -⟩ := h
    simp at htoken
  | token :: tokens, trace, h => by
    by_cases hfirst : answers.finishImage trace.finished.length token true = astraSyscallOk
    · rw [commitFails_cons_of_ok hfirst] at h
      obtain ⟨status, events, hrun, hstatus, hsome, hnone⟩ := commitTokens_fails h
      refine ⟨status, ⟨token, true, astraSyscallOk⟩ :: events, ?_, hstatus, fun hall => ?_,
        fun hall => ?_⟩
      · rw [commitTokens_cons_of_ok hfirst, hrun, DynamicTrace.finish_finish]
        rfl
      · rw [forall_mem_cons] at hall
        obtain ⟨token, rfl⟩ := Option.isSome_iff_exists.1 hall.1
        simp [hsome hall.2]
      · rw [forall_mem_cons] at hall
        obtain ⟨rfl, hall⟩ := hall
        simpa using hnone hall
    · -- The rollback starts with the image that was not committed.
      generalize hanswer : answers.finishImage trace.finished.length token true = status at hfirst
      obtain ⟨events, hrun, htokens, -⟩ := rollbackTokens_spec answers
        (trace.finish [⟨token, true, status⟩]) (token :: tokens)
      refine ⟨status, ⟨token, true, status⟩ :: events, ?_, hfirst, fun hall => ?_, fun hall => ?_⟩
      · simp only [commitTokens, finishToken_eq, hanswer, ne_eq, hfirst, not_false_eq_true, if_true]
        rw [hrun, DynamicTrace.finish_finish]
        rfl
      · have hlength := congrArg List.length htokens
        rw [length_reverse, show ((token :: tokens).filterMap id).length =
          (token :: tokens).length from reduceOption_length_eq_iff.2 hall] at hlength
        obtain ⟨token, rfl⟩ := Option.isSome_iff_exists.1 (hall token mem_cons_self)
        simpa using hlength
      · have hnil := filterMap_none hall
        rw [hnil] at htokens
        obtain rfl := hall token mem_cons_self
        simpa using htokens

/-! ## Runs of a prepared process -/

structure Held (process : AstraDynamicProcess Token) (trace : DynamicTrace Token) : Prop where
  account : trace.obtained.Perm ((process.tokens.drop 1).filterMap id ++ finishedTokens trace)
  committed : process.committed = true → (∀ token ∈ process.tokens.drop 1, token = none) ∧
    ∀ event ∈ trace.finished, event.commit = true ∧ event.status = astraSyscallOk
  uncommitted : process.committed = false → trace.finished = [] ∧
    ∀ token ∈ process.tokens.drop 1, token.isSome

structure Doubled (process : AstraDynamicProcess Token) (trace : DynamicTrace Token) : Prop where
  tokens : ∀ token ∈ process.tokens.drop 1, token = none
  finished : (finishedTokens trace).length = trace.obtained.length + 1

/-- Every token that was handed out is finished once: committed, with success, or rolled back; no
token of a committed process is rolled back. -/
structure FinishedOnce (committed : Bool) (trace : DynamicTrace Token) : Prop where
  once : (finishedTokens trace).Perm trace.obtained
  kinds : ∀ event ∈ trace.finished, event.token.isSome →
    (event.commit = true → event.status = astraSyscallOk) ∧
    (committed = true → event.commit = true)

/-- The call is a commit, and of some image that fails. -/
def StepFails (answers : DynamicAnswers Token)
    (state : AstraDynamicProcess Token × DynamicTrace Token) (call : DynamicCall) : Prop :=
  call = .commit ∧ state.1.committed = false ∧
    CommitFails answers (state.1.tokens.drop 1) state.2

/-- No commit of the calls fails. -/
def CommitsAnswered (answers : DynamicAnswers Token) :
    AstraDynamicProcess Token × DynamicTrace Token → List DynamicCall → Prop
  | _, [] => True
  | state, call :: calls =>
    ¬StepFails answers state call ∧ CommitsAnswered answers (dynamicStep answers state call) calls

variable {process : AstraDynamicProcess Token} {trace : DynamicTrace Token}

theorem relocateFrom_trace (answers : DynamicAnswers Token) : ∀ (left index : ℕ) (trace : DynamicTrace Token),
    ∃ n, (relocateFrom answers left index trace).2.2 = { trace with relocations := n }
  | 0, _, trace => ⟨trace.relocations, rfl⟩
  | left + 1, index, trace => by
    rw [relocateFrom]
    split_ifs
    · exact ⟨_, rfl⟩
    · exact (relocateFrom_trace answers left (index + 1) _).imp fun n h => h

theorem relocate_trace (trace : DynamicTrace Token) (process : AstraDynamicProcess Token) :
    (astraDynamicProcessRelocate answers trace process).2.2.obtained = trace.obtained ∧
      (astraDynamicProcessRelocate answers trace process).2.2.finished = trace.finished ∧
      (astraDynamicProcessRelocate answers trace process).2.2.opened = trace.opened := by
  unfold astraDynamicProcessRelocate
  dsimp only
  split_ifs
  · simp
  · simp
  · obtain ⟨n, hn⟩ := relocateFrom_trace answers process.images.length 0
      { trace with layouts := trace.layouts + 1 }
    simp [hn]

theorem Held.congr {trace' : DynamicTrace Token} (h : Held process trace)
    (ho : trace'.obtained = trace.obtained) (hf : trace'.finished = trace.finished) :
    Held process trace' := by
  have hft : finishedTokens trace' = finishedTokens trace := by
    simp [finishedTokens, hf]
  exact ⟨by rw [ho, hft]; exact h.account, by rw [hf]; exact h.committed,
    by rw [hf]; exact h.uncommitted⟩

theorem Doubled.congr {trace' : DynamicTrace Token} (h : Doubled process trace)
    (ho : trace'.obtained = trace.obtained) (hf : trace'.finished = trace.finished) :
    Doubled process trace' := by
  have hft : finishedTokens trace' = finishedTokens trace := by
    simp [finishedTokens, hf]
  exact ⟨h.tokens, by rw [ho, hft]; exact h.finished⟩

theorem tokens_none (tokens : List (Option Token)) :
    ∀ token ∈ (tokens.map fun _ => (none : Option Token)).drop 1, token = none := by
  intro token htoken
  obtain ⟨-, -, rfl⟩ := mem_map.1 (mem_of_mem_drop htoken)
  rfl

theorem Held.commit (h : Held process trace)
    (hok : ¬StepFails answers (process, trace) .commit) :
    Held (dynamicStep answers (process, trace) .commit).1
      (dynamicStep answers (process, trace) .commit).2 := by
  simp only [dynamicStep, astraDynamicProcessCommit]
  by_cases hc : process.committed = true
  · simpa [hc] using h
  rw [Bool.not_eq_true] at hc
  have hanswered : ¬CommitFails answers (process.tokens.drop 1) trace := fun hf => hok ⟨rfl, hc, hf⟩
  obtain ⟨events, hrun, htokens, hall⟩ := commitTokens_ok hanswered
  have hnil := filterMap_none (tokens_none process.tokens)
  have hnone := (h.uncommitted hc).1
  have haccount := h.account
  simp only [hc, Bool.false_eq_true, if_false, hrun, ne_eq, not_true_eq_false]
  refine ⟨?_, fun _ => ⟨tokens_none _, ?_⟩, nofun⟩
  · rw [finishedTokens_finish, htokens, hnil, nil_append]
    simpa [finishedTokens, hnone] using haccount
  · simpa [hnone] using hall

theorem Held.fails (h : Held process trace) (hfails : StepFails answers (process, trace) .commit) :
    Doubled (dynamicStep answers (process, trace) .commit).1
      (dynamicStep answers (process, trace) .commit).2 := by
  obtain ⟨-, hc, hfails⟩ := hfails
  obtain ⟨status, events, hrun, hstatus, hsome, -⟩ := commitTokens_fails hfails
  obtain ⟨hnone, hheld⟩ := h.uncommitted hc
  have hlength := h.account.length_eq
  have hall : ((process.tokens.drop 1).filterMap id).length = (process.tokens.drop 1).length :=
    reduceOption_length_eq_iff.2 hheld
  rw [length_append, hall] at hlength
  dsimp only at hc hrun
  simp only [dynamicStep, astraDynamicProcessCommit, hc, Bool.false_eq_true, if_false, hrun, ne_eq,
    hstatus, not_false_eq_true, if_true]
  refine ⟨tokens_none _, ?_⟩
  rw [finishedTokens_finish, length_append, DynamicTrace.finish_obtained, hlength]
  dsimp only at hsome
  rw [hsome hheld]
  omega

theorem Held.step (h : Held process trace) {call : DynamicCall}
    (hok : ¬StepFails answers (process, trace) call) :
    Held (dynamicStep answers (process, trace) call).1
      (dynamicStep answers (process, trace) call).2 := by
  cases call with
  | relocate => exact h.congr (relocate_trace trace process).1 (relocate_trace trace process).2.1
  | tlsInitialize => exact h.congr rfl rfl
  | commit => exact h.commit hok

theorem Doubled.step (h : Doubled process trace) (call : DynamicCall) :
    Doubled (dynamicStep answers (process, trace) call).1
      (dynamicStep answers (process, trace) call).2 := by
  cases call with
  | relocate => exact h.congr (relocate_trace trace process).1 (relocate_trace trace process).2.1
  | tlsInitialize => exact h.congr rfl rfl
  | commit =>
    simp only [dynamicStep, astraDynamicProcessCommit]
    by_cases hc : process.committed = true
    · simpa [hc] using h
    rw [Bool.not_eq_true] at hc
    have hkeep : ∀ {events : List (DynamicFinish Token)},
        events.filterMap DynamicFinish.token = [] →
        (finishedTokens (trace.finish events)).length =
          (trace.finish events).obtained.length + 1 := by
      intro events hevents
      rw [finishedTokens_finish, hevents, append_nil]
      exact h.finished
    by_cases hfails : CommitFails answers (process.tokens.drop 1) trace
    · obtain ⟨status, events, hrun, hstatus, -, hnone⟩ := commitTokens_fails hfails
      simp only [hc, Bool.false_eq_true, if_false, hrun, ne_eq, hstatus, not_false_eq_true, if_true]
      exact ⟨tokens_none _, hkeep (hnone h.tokens)⟩
    · obtain ⟨events, hrun, htokens, -⟩ := commitTokens_ok hfails
      simp only [hc, Bool.false_eq_true, if_false, hrun, ne_eq, not_true_eq_false]
      exact ⟨tokens_none _, hkeep (htokens.trans (filterMap_none h.tokens))⟩

theorem Held.discard (h : Held process trace) :
    FinishedOnce process.committed (astraDynamicProcessDiscard answers trace process) := by
  have haccount := h.account
  unfold astraDynamicProcessDiscard
  by_cases hc : process.committed = false
  · obtain ⟨events, hrun, htokens, hcommit⟩ :=
      rollbackTokens_spec answers trace (process.tokens.drop 1)
    have hnone := (h.uncommitted hc).1
    rw [if_pos hc, rollback, hrun]
    constructor
    · rw [finishedTokens_finish, htokens, DynamicTrace.finish_obtained]
      simp only [finishedTokens, hnone, filterMap_nil, append_nil, nil_append]
        at haccount ⊢
      exact (reverse_perm _).trans haccount.symm
    · intro event he _
      rw [DynamicTrace.finish_finished, hnone, nil_append] at he
      have hno := hcommit event he
      exact ⟨fun hyes => absurd (hno.symm.trans hyes) nofun,
        fun hyes => absurd (hc.symm.trans hyes) nofun⟩
  · rw [Bool.not_eq_false] at hc
    obtain ⟨htokens, hall⟩ := h.committed hc
    rw [if_neg (by simp [hc])]
    constructor
    · rw [filterMap_none htokens, nil_append] at haccount
      exact haccount.symm
    · intro event he _
      exact ⟨fun _ => (hall event he).2, fun _ => (hall event he).1⟩

theorem Doubled.discard (h : Doubled process trace) (committed : Bool) :
    ¬FinishedOnce committed (astraDynamicProcessDiscard answers trace process) := by
  intro hfinished
  have hlength := hfinished.once.length_eq
  have hdoubled := h.finished
  unfold astraDynamicProcessDiscard at hlength
  split_ifs at hlength
  · obtain ⟨events, hrun, htokens, -⟩ :=
      rollbackTokens_spec answers trace (process.tokens.drop 1)
    rw [filterMap_none h.tokens] at htokens
    rw [rollback, hrun, finishedTokens_finish, htokens] at hlength
    simp at hlength
    omega
  · omega

theorem Doubled.run (answers : DynamicAnswers Token) : ∀ (calls : List DynamicCall) {process : AstraDynamicProcess Token}
    {trace : DynamicTrace Token}, Doubled process trace →
    Doubled (calls.foldl (dynamicStep answers) (process, trace)).1
      (calls.foldl (dynamicStep answers) (process, trace)).2
  | [], _, _, h => h
  | call :: calls, _, _, h => Doubled.run answers calls (h.step call)

theorem run_finishedOnce : ∀ (calls : List DynamicCall) {process : AstraDynamicProcess Token}
    {trace : DynamicTrace Token}, Held process trace →
    (FinishedOnce (calls.foldl (dynamicStep answers) (process, trace)).1.committed
        (astraDynamicProcessDiscard answers (calls.foldl (dynamicStep answers) (process, trace)).2
          (calls.foldl (dynamicStep answers) (process, trace)).1) ↔
      CommitsAnswered answers (process, trace) calls)
  | [], _, _, h => ⟨fun _ => trivial, fun _ => h.discard⟩
  | call :: calls, process, trace, h => by
    by_cases hfails : StepFails answers (process, trace) call
    · obtain rfl : call = .commit := hfails.1
      have hdoubled := Doubled.run answers calls (h.fails hfails)
      exact ⟨fun hfinished => absurd hfinished (hdoubled.discard _),
        fun hanswered => absurd hfails hanswered.1⟩
    · have hrest := run_finishedOnce calls (h.step hfails)
      exact ⟨fun hfinished => ⟨hfails, hrest.1 hfinished⟩, fun hanswered => hrest.2 hanswered.2⟩

theorem run_committed : ∀ (calls : List DynamicCall) {process : AstraDynamicProcess Token}
    {trace : DynamicTrace Token}, CommitsAnswered answers (process, trace) calls →
    ((calls.foldl (dynamicStep answers) (process, trace)).1.committed = true ↔
      process.committed = true ∨ .commit ∈ calls)
  | [], _, _, _ => by simp
  | call :: calls, process, trace, h => by
    have hstep : (dynamicStep answers (process, trace) call).1.committed = true ↔
        process.committed = true ∨ call = .commit := by
      cases call with
      | relocate => simp [dynamicStep]
      | tlsInitialize => simp [dynamicStep]
      | commit =>
        simp only [dynamicStep, astraDynamicProcessCommit]
        by_cases hc : process.committed = true
        · simp [hc]
        rw [Bool.not_eq_true] at hc
        have hanswered : ¬CommitFails answers (process.tokens.drop 1) trace := fun hf =>
          h.1 ⟨rfl, hc, hf⟩
        obtain ⟨events, hrun, -⟩ := commitTokens_ok hanswered
        simp only [hc, Bool.false_eq_true, if_false, hrun, ne_eq, not_true_eq_false]
        simp
    have hrest := run_committed calls h.2
    rw [foldl_cons, mem_cons, ← or_assoc, eq_comm (a := DynamicCall.commit), ← hstep]
    exact hrest

theorem step_opened (state : AstraDynamicProcess Token × DynamicTrace Token) (call : DynamicCall) :
    (dynamicStep answers state call).2.opened = state.2.opened := by
  obtain ⟨process, trace⟩ := state
  cases call with
  | relocate => exact (relocate_trace trace process).2.2
  | tlsInitialize => rfl
  | commit =>
    simp only [dynamicStep, astraDynamicProcessCommit]
    by_cases hc : process.committed = true
    · simp [hc]
    rw [if_neg hc]
    by_cases hfails : CommitFails answers (process.tokens.drop 1) trace
    · obtain ⟨status, events, hrun, hstatus, -⟩ := commitTokens_fails hfails
      rw [hrun]
      simp [hstatus]
    · obtain ⟨events, hrun, -⟩ := commitTokens_ok hfails
      rw [hrun]
      simp

theorem run_opened (calls : List DynamicCall)
    (state : AstraDynamicProcess Token × DynamicTrace Token) :
    (calls.foldl (dynamicStep answers) state).2.opened = state.2.opened := by
  induction calls generalizing state with
  | nil => rfl
  | cons call calls ih => rw [foldl_cons, ih, step_opened]

theorem discard_opened (trace : DynamicTrace Token) (process : AstraDynamicProcess Token) :
    (astraDynamicProcessDiscard answers trace process).opened = trace.opened := by
  unfold astraDynamicProcessDiscard
  split_ifs
  · obtain ⟨events, hrun, -⟩ := rollbackTokens_spec answers trace (process.tokens.drop 1)
    rw [rollback, hrun, DynamicTrace.finish_opened]
  · rfl

end Astra
