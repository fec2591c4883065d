import GoJob.Budget
/-!
# Redispatch — how often a row goes back to `ready`

An execution that no operator touches is handed out again after a failure it reported or an owner it lost.  The first
costs an attempt and needs another, the second costs a recovery and needs another, so both together are bounded.
-/
namespace GoJob

variable {env : Env} {c : Ctx} {a : Action}

def Action.isRetry : Action → Bool
  | .retry _ _ _ => true
  | _ => false

def Action.isResolve : Action → Bool
  | .resolve _ _ => true
  | _ => false

/-- An operator's call that names the execution or its job. -/
def Action.targets (a : Action) (e : ExecRow) : Bool :=
  match a with
  | .requestCancel i _ _ => decide (i = e.id)
  | .retire j _ _ => decide (j = e.jobName)
  | .authorizedRetry _ k _ _ => decide (k = e.executionKey)
  | _ => false

def targeted (i : Nat) (x : World × (Action × Ctx) × World) : Bool :=
  (x.1.db.exec? i).any (fun e => x.2.1.1.targets e)

/-- The step is one of the calls `p` and takes execution `i` from a held status to `ready`. -/
def returned (p : Action → Bool) (i : Nat) (x : World × (Action × Ctx) × World) : Bool :=
  p x.2.1.1 && (x.1.db.exec? i).any (fun e => e.status.held) &&
    (x.2.2.db.exec? i).any (fun e => decide (e.status = .ready))

/-- A row no operator touched, after `r` retries and `q` recoveries returned it. -/
structure Redispatched (r q : Nat) (e : ExecRow) : Prop where
  asked     : e.status ≠ .cancelRequested
  retried   : r < e.maxAttempts
  resolved  : q < e.maxRecoveries
  waiting   : e.status = .ready ∨ e.status = .dispatching → r ≤ e.attemptNo
  running   : e.status = .running → r < e.attemptNo
  recovered : e.status.terminal = false → q ≤ e.recoveryCount ∧ e.recoveryCount < e.maxRecoveries

namespace Redispatched

variable {r q : Nat} {e e' : ExecRow}

theorem created {d : DefinitionRow} {s s' : StateRow} (h : Creates env c d a s s' e) : Redispatched 0 0 e := by
  obtain ⟨hs, -, hn, hc, hm, hr, -⟩ := h.fresh
  have h₁ := d.checks.1.1
  have h₂ := d.checks.2.1.1
  refine ⟨by rw [hs]; decide, by omega, by omega, fun _ => Nat.zero_le _, fun hrun => ?_, fun _ => by omega⟩
  rw [hs] at hrun; cases hrun

/-- A row that has ended keeps what it used. -/
theorem ended (h : Redispatched r q e) (ht : e'.status.terminal = true) (ha : e'.maxAttempts = e.maxAttempts)
    (hr : e'.maxRecoveries = e.maxRecoveries) : Redispatched r q e' := by
  obtain ⟨h₁, h₂, h₃, h₄⟩ := Status.ne_of_terminal ht
  refine ⟨h₄, ha ▸ h.retried, hr ▸ h.resolved, fun hs => (hs.elim h₁ h₂).elim, fun hs => absurd hs h₃, fun hs => ?_⟩
  rw [hs] at ht; cases ht

/-- A row that stays as far as its status and counters go. -/
theorem same (h : Redispatched r q e) (hs : e'.status = e.status) (hn : e'.attemptNo = e.attemptNo)
    (hc : e'.recoveryCount = e.recoveryCount) (ha : e'.maxAttempts = e.maxAttempts)
    (hr : e'.maxRecoveries = e.maxRecoveries) : Redispatched r q e' :=
  ⟨hs ▸ h.asked, ha ▸ h.retried, hr ▸ h.resolved, by rw [hs, hn]; exact h.waiting, by rw [hs, hn]; exact h.running,
    by rw [hs, hc, hr]; exact h.recovered⟩

/-- An attempt that starts. -/
theorem started (h : Redispatched r q e) (hd : e.status = .dispatching) (hs : e'.status = .running)
    (hn : e'.attemptNo = e.attemptNo + 1) (hc : e'.recoveryCount = e.recoveryCount)
    (ha : e'.maxAttempts = e.maxAttempts) (hr : e'.maxRecoveries = e.maxRecoveries) : Redispatched r q e' := by
  have hw := h.waiting (Or.inr hd)
  refine ⟨by rw [hs]; decide, ha ▸ h.retried, hr ▸ h.resolved, fun hx => ?_, fun _ => by omega, fun _ => ?_⟩
  · rw [hs] at hx; rcases hx with hx | hx <;> cases hx
  · rw [hc, hr]; exact h.recovered (by rw [hd]; rfl)

theorem refuse (h : Redispatched r q e) {b : Int} {u : Utc} (hd : e.status = .dispatching) :
    Redispatched r q ((refuseWrite c b u).run e) := by
  have hstat : ((refuseWrite c b u).run e).status = if past e.timeoutAt u = true then .dead else .ready := rfl
  by_cases hlate : past e.timeoutAt u = true
  · exact h.ended (by rw [hstat, if_pos hlate]; rfl) rfl rfl
  · have hs := hstat.trans (if_neg hlate)
    refine ⟨by rw [hs]; decide, h.retried, h.resolved, fun _ => h.waiting (Or.inr hd), fun hx => ?_, fun _ => ?_⟩
    · rw [hs] at hx; cases hx
    · exact h.recovered (by rw [hd]; rfl)

/-- A charged row has used one attempt more than it was retried. -/
theorem charged (h : Redispatched r q e) {k : Holder} {u : Utc} (hr : e.reportable k u = true) :
    r < (e.charged c k).attemptNo := by
  obtain ⟨hheld, hown, -⟩ := ExecRow.reportable_iff.1 hr
  rw [ExecRow.charged_attemptNo]
  cases hs : e.status with
  | dispatching =>
    have := h.waiting (Or.inr hs)
    rw [if_pos (ExecRow.unaccepted_iff.2 ⟨hs, hown⟩)]
    omega
  | running =>
    have := h.running hs
    rw [if_neg (fun hu => by rw [(ExecRow.unaccepted_iff.1 hu).1] at hs; cases hs)]
    exact this
  | cancelRequested => exact absurd hs h.asked
  | ready | success | dead | cancelled | skipped => rw [hs] at hheld; cases hheld

theorem retry (h : Redispatched r q e) {k : Holder} {o : Outcome} {b : Int} (hr : e.reportable k (c.utc 2) = true) :
    Redispatched (r + if ((retryWrite c o b).run (e.charged c k)).status = .ready then 1 else 0) q
      ((retryWrite c o b).run (e.charged c k)) := by
  have hlt := h.charged (c := c) hr
  have hrec := h.recovered (Status.not_terminal_of_held (ExecRow.reportable_iff.1 hr).1)
  have hstat : ((retryWrite c o b).run (e.charged c k)).status =
      if decide ((e.charged c k).maxAttempts ≤ (e.charged c k).attemptNo) = true then .dead else .ready := rfl
  by_cases hspent : (e.charged c k).maxAttempts ≤ (e.charged c k).attemptNo
  · have hs := hstat.trans (if_pos (decide_eq_true hspent))
    rw [if_neg (by rw [hs]; decide)]
    exact h.ended (by rw [hs]; rfl) (ExecRow.charged_maxAttempts ..) (by simp [retryWrite])
  · have hs := hstat.trans (if_neg (by rw [decide_eq_true_eq]; exact hspent))
    rw [if_pos hs]
    refine ⟨by rw [hs]; decide, ?_, by simpa [retryWrite] using h.resolved, fun _ => hlt, fun hx => ?_,
      fun _ => by simpa [retryWrite] using hrec⟩
    · show r + 1 < (e.charged c k).maxAttempts
      omega
    · rw [hs] at hx; cases hx

theorem resolve (h : Redispatched r q e) {u : Utc} {b : Int} {reason : Option TerminalReason}
    (hheld : e.status.held = true) :
    Redispatched r
      (q + if ((resolveWrite c (resolvedStatus (e.toStale u)) reason b).run e).status = .ready then 1 else 0)
      ((resolveWrite c (resolvedStatus (e.toStale u)) reason b).run e) := by
  have hstat : ((resolveWrite c (resolvedStatus (e.toStale u)) reason b).run e).status =
    resolvedStatus (e.toStale u) := rfl
  by_cases hs : resolvedStatus (e.toStale u) = .ready
  · obtain ⟨-, -, -, hlt⟩ := resolvedStatus_ready hs
    obtain ⟨hq, -⟩ := h.recovered (Status.not_terminal_of_held hheld)
    have hlt : e.recoveryCount + 1 < e.maxRecoveries := hlt
    rw [if_pos (hstat.trans hs)]
    refine ⟨by rw [hstat, hs]; decide, h.retried, ?_, fun _ => ?_, fun hx => ?_, fun _ => ?_⟩
    · show q + 1 < e.maxRecoveries
      omega
    · show r ≤ e.attemptNo
      cases he : e.status with
      | dispatching => exact h.waiting (Or.inr he)
      | running => exact (h.running he).le
      | cancelRequested => exact absurd he h.asked
      | ready | success | dead | cancelled | skipped => rw [he] at hheld; cases hheld
    · rw [hstat, hs] at hx; cases hx
    · show q + 1 ≤ e.recoveryCount + 1 ∧ e.recoveryCount + 1 < e.maxRecoveries
      omega
  · rw [if_neg (hstat ▸ hs)]
    refine h.ended ?_ rfl rfl
    rw [hstat]
    have hnot := resolvedStatus_not_held (e.toStale u)
    rcases Status.trichotomy (resolvedStatus (e.toStale u)) with h₁ | h₁ | h₁
    · exact absurd h₁ hs
    · rw [hnot] at h₁; cases h₁
    · exact h₁

/-- **One move of a row no operator touches.** -/
theorem move (h : Redispatched r q e) (hm : ExecMove c a e e') (ht : a.targets e = false) :
    Redispatched (r + if a.isRetry = true ∧ e'.status = .ready then 1 else 0)
      (q + if a.isResolve = true ∧ e'.status = .ready then 1 else 0) e' := by
  have other : a.isRetry = false → a.isResolve = false → Redispatched r q e' →
      Redispatched (r + if a.isRetry = true ∧ e'.status = .ready then 1 else 0)
        (q + if a.isResolve = true ∧ e'.status = .ready then 1 else 0) e' := fun h₁ h₂ h => by
    simpa [h₁, h₂] using h
  cases hm with
  | retry hi hr => simpa [Action.isRetry, Action.isResolve] using h.retry (c := c) hr
  | resolve hi hs => simpa [Action.isRetry, Action.isResolve] using h.resolve (c := c) hs
  | dispatch n l x hi hj hs =>
    refine other rfl rfl
      ⟨by simp [dispatchWrite], h.retried, h.resolved, fun _ => h.waiting (Or.inl hs), ?_, fun _ => ?_⟩
    · intro hx; cases hx
    · exact h.recovered (by rw [hs]; rfl)
  | defer => exact other rfl rfl (h.same rfl rfl rfl rfl rfl)
  | expire => exact other rfl rfl (h.ended rfl rfl rfl)
  | skip => exact other rfl rfl (h.ended rfl rfl rfl)
  | accept hi ho => exact other rfl rfl (h.started (ExecRow.unaccepted_iff.1 ho).1 rfl rfl rfl rfl rfl)
  | retarget => exact other rfl rfl (h.same rfl rfl rfl rfl rfl)
  | refuse hi ho => exact other rfl rfl (h.refuse (ExecRow.unaccepted_iff.1 ho).1)
  | renew => exact other rfl rfl (h.same rfl rfl rfl rfl rfl)
  | extend => exact other rfl rfl (h.same rfl rfl rfl rfl rfl)
  | complete hi hterm => exact other rfl rfl (h.ended hterm (ExecRow.charged_maxAttempts ..) (by simp [completeWrite]))
  | adopt =>
    refine other rfl rfl ?_
    rename_i v o l s p hi hs ho hc
    cases hp : p && decide (e.status = .dispatching) with
    | true =>
      simp only [Bool.and_eq_true, decide_eq_true_eq] at hp
      exact h.started hp.2 (by simp [adoptWrite]) (by simp [adoptWrite]) rfl rfl rfl
    | false => exact h.same (by simp [adoptWrite]) (by simp [adoptWrite]) rfl rfl rfl
  | fence => exact other rfl rfl (h.ended (endedStatus_terminal _) rfl rfl)
  | silence => exact other rfl rfl (h.ended (endedStatus_terminal _) rfl rfl)
  | release => exact other rfl rfl (h.ended (endedStatus_terminal _) rfl rfl)
  | cancel hi => simp [Action.targets, hi] at ht
  | retireReady hj => simp [Action.targets, hj] at ht
  | retireHeld hj => simp [Action.targets, hj] at ht
  | revive hk => simp [Action.targets, hk] at ht

theorem mono (h : Redispatched r q e) {r' q' : Nat} (hr : r' ≤ r) (hq : q' ≤ q) : Redispatched r' q' e :=
  ⟨h.asked, lt_of_le_of_lt hr h.retried, lt_of_le_of_lt hq h.resolved, fun hs => le_trans hr (h.waiting hs),
    fun hs => lt_of_le_of_lt hr (h.running hs), fun hs => ⟨le_trans hq (h.recovered hs).1, (h.recovered hs).2⟩⟩

end Redispatched

/-- The returns of a step are those its action makes. -/
theorem returned_le {p : Action → Bool} {i : Nat} {w w' : World} {l : Action × Ctx} {e' : ExecRow}
    (he' : w'.db.exec? i = some e') :
    [(w, l, w')].countP (returned p i) ≤ if p l.1 = true ∧ e'.status = .ready then 1 else 0 := by
  rw [List.countP_singleton]
  split
  · rename_i hr
    simp only [returned, he', Option.any_some, Bool.and_eq_true, decide_eq_true_eq] at hr
    rw [if_pos ⟨hr.1.1, hr.2⟩]
  · exact Nat.zero_le _

theorem redispatched_run {u : Utc} {tr : History} {w : World} (hr : Sys.Run (Step env) (World.init u) tr w) {i : Nat}
    {e : ExecRow} (he : w.db.exec? i = some e) (ht : ∀ x ∈ tr, targeted i x = false) :
    Redispatched (tr.countP (returned Action.isRetry i)) (tr.countP (returned Action.isResolve i)) e := by
  -- Until the row exists no step returns it.
  have absent : ∀ {p tr w l w'}, tr.countP (returned p i) = 0 → w.db.exec? i = none →
      (tr ++ [(w, l, w')]).countP (returned p i) = 0 := fun h hw => by
    rw [List.countP_append, h, List.countP_singleton]
    simp [returned, hw]
  refine row_history (P := fun tr => tr.countP (returned Action.isRetry i) = 0 ∧
      tr.countP (returned Action.isResolve i) = 0)
    (Q := fun tr _ e => (∀ x ∈ tr, targeted i x = false) → Redispatched (tr.countP (returned Action.isRetry i))
      (tr.countP (returned Action.isResolve i)) e) ⟨rfl, rfl⟩ ?_ ?_ ?_ hr he ht
  · rintro tr w l w' ⟨h₁, h₂⟩ hw - -
    exact ⟨absent h₁ hw, absent h₂ hw⟩
  · rintro tr w l w' d s s' e ⟨h₁, h₂⟩ hw - - hm -
    rw [absent h₁ hw, absent h₂ hw]
    exact .created hm
  · intro tr w l w' e e' hr hQ he he' hst hmv ht
    have hold := hQ (fun x hx => ht x (List.mem_append_left _ hx))
    have htar : targeted i (w, l, w') = false := ht _ (List.mem_append_right _ (List.mem_singleton_self _))
    simp only [targeted, he, Option.any_some] at htar
    rw [List.countP_append, List.countP_append]
    rcases hmv with rfl | hm
    · -- A row that did not move was not returned: it would have to be held and `ready` at once.
      have hzero : ∀ p, [(w, l, w')].countP (returned p i) = 0 := fun p => by
        rw [List.countP_singleton]
        simp only [returned, he, he', Option.any_some]
        cases e'.status <;> simp [Status.held]
      rw [hzero, hzero]
      exact hold
    · exact (hold.move hm htar).mono (Nat.add_le_add_left (returned_le he') _) (Nat.add_le_add_left (returned_le he') _)

theorem returned_or (i : Nat) (tr : History) :
    tr.countP (returned (fun a => a.isRetry || a.isResolve) i) ≤
      tr.countP (returned Action.isRetry i) + tr.countP (returned Action.isResolve i) := by
  induction tr with
  | nil => exact le_refl _
  | cons x tr ih =>
    have hx : returned (fun a => a.isRetry || a.isResolve) i x =
        (returned Action.isRetry i x || returned Action.isResolve i x) := by
      simp only [returned, Bool.and_or_distrib_right]
    rw [List.countP_cons, List.countP_cons, List.countP_cons, hx]
    cases returned Action.isRetry i x <;> cases returned Action.isResolve i x <;> simp <;> omega

/-- **Bounded redispatch.**  An execution no operator touches goes back to `ready` at most once per spare attempt and
once per spare recovery; no step lowers a counter; and `Resolve` never returns an execution asked to stop. -/
theorem bounded_redispatch {u : Utc} {tr : History} {w : World} (hr : Sys.Run (Step env) (World.init u) tr w)
    (i : Nat) :
    ((∀ x ∈ tr, targeted i x = false) → ∀ e, w.db.exec? i = some e →
      tr.countP (returned (fun a => a.isRetry || a.isResolve) i) ≤ (e.maxAttempts - 1) + (e.maxRecoveries - 1)) ∧
    ∀ x ∈ tr, ∀ e e', x.1.db.exec? i = some e → x.2.2.db.exec? i = some e' →
      e.attemptNo ≤ e'.attemptNo ∧ e.recoveryCount ≤ e'.recoveryCount ∧
      (x.2.1.1.isResolve = true → e.status = .cancelRequested → e'.status ≠ .ready) := by
  refine ⟨fun ht e he => ?_, ?_⟩
  · have h := redispatched_run hr he ht
    have := returned_or i tr
    have := h.retried
    have := h.resolved
    omega
  · rintro ⟨w₀, l, w₁⟩ hx e e' he he'
    obtain ⟨-, -, -, hst⟩ := hr.mem_step hx
    rcases hst.commit.moved he he' with rfl | hm
    · exact ⟨le_refl _, le_refl _, fun _ hs => by rw [hs]; decide⟩
    · obtain ⟨hn, hrec⟩ := hm.counters
      refine ⟨by omega, hrec, fun hres hs hready => ?_⟩
      have hres : l.1.isResolve = true := hres
      generalize l.1 = b at hm hres
      cases hm with
      | resolve => exact (resolvedStatus_ready hready).1 hs
      | _ => cases hres

/-- The pass is accepted, fails, and is claimed again. -/
def failingPass : List (Action × Int) :=
  claimedPass ++
    [(.accept 1 "t1" 1 60, 3),
     (.retry ⟨"sync", 1, "pass-1", "scheduler", "t1", 1⟩ { attemptOutcome := .failed } 0, 4),
     (claimPass "t2", 5)]

theorem bounded_redispatch_failing :
    ((World.init 0).trace bareEnv failingPass).countP (returned (fun a => a.isRetry || a.isResolve) 1) = 1 ∧
      ((World.init 0).trace bareEnv failingPass).countP (returned (fun a => a.isRetry || a.isResolve) 1) ≤
        (2 - 1) + (2 - 1) :=
  ⟨by decide +kernel, (bounded_redispatch (World.run_play bareEnv failingPass (World.init 0) (by decide +kernel)) 1).1
    (by decide +kernel) (Option.get _ (by decide +kernel)) (Option.some_get _).symm⟩

end GoJob
