import GoJob.Clock
import GoJob.Server
import GoJob.Statements
/-!
# Result — when a result is recorded

`Complete` and `Retry` succeed exactly on a row their caller holds within its runtime cap; otherwise they are fenced.
There is one more way to fail, a fixed-delay job whose delay does not parse, and the admin API refuses such a job.
-/
namespace GoJob

open Rel Tx

variable {env : Env} {c : Ctx} {db db' : DB} {a : Action}

/-! ## The poll clock -/

section clock

variable {j : String} {i : Nat}

/-- The poll clock after `settlePollClock`. -/
def settledPoll (c : Ctx) (d : DefinitionRow) (ended : Bool) (t : Instant) (old : Option Instant) : Option Instant :=
  if d.scheduleKind = .fixedDelay ∧ ended = true then some (datetime (c.now + t)) else old

theorem settlePollClock_run {d : DefinitionRow} {t : Instant} (hd : db.def? j = some d)
    (ht : d.toDefinition.delay = .ok t) : ∃ db', settlePollClock c j i db = .ok ((), db') ∧
      ∀ s, db.state? j = some s → ∃ s', db'.state? j = some s' ∧
        s'.nextPollAt = settledPoll c d (db.passEnded j i) t s.nextPollAt := by
  unfold settlePollClock
  rw [bind_of_ok (readDefinition_run hd), DefinitionRow.toDefinition_scheduleKind]
  by_cases hk : d.scheduleKind = .fixedDelay
  · rw [if_neg (not_not.2 hk), ht]
    simp only
    rw [bind_of_ok (get_run db)]
    obtain ⟨n, db₁, h₁⟩ : ∃ n db₁, updateState j (fun s => db.passEnded s.jobName i)
        (pollWrite (some (datetime (c.now + t)))) db = .ok (n, db₁) := ⟨_, _, rfl⟩
    rw [bind_of_ok h₁]
    rcases updateState_ok h₁ with ⟨s, hs, hp, rfl, rfl⟩ | ⟨hp, rfl, rfl⟩
    · rw [DB.state?_jobName hs] at hp
      refine ⟨_, rfl, fun s₁ hs₁ => ⟨(pollWrite (some (datetime (c.now + t)))).run s₁, by simp [hs₁], ?_⟩⟩
      rw [settledPoll, if_pos ⟨hk, hp⟩]
      rfl
    · refine ⟨db, rfl, fun s hs => ⟨s, hs, ?_⟩⟩
      have hp := hp s hs
      rw [DB.state?_jobName hs] at hp
      rw [settledPoll, if_neg (fun h => by rw [hp] at h; cases h.2)]
  · rw [if_pos hk]
    refine ⟨db, rfl, fun s hs => ⟨s, hs, ?_⟩⟩
    rw [settledPoll, if_neg (fun h => hk h.1)]

end clock

/-! ## The two result writes -/

/-- The holder owns the job's lock and a row it may report on. -/
def DB.Reportable (db : DB) (k : Holder) (u : Utc) : Prop :=
  (∃ s, db.state? k.jobName = some s ∧ s.owned k.runToken k.fenceEpoch = true) ∧
    ∃ e, db.exec? k.executionId = some e ∧ e.reportable k u = true

/-- Row `e` ends a poll pass of the job. -/
def ExecRow.endsPass (e : ExecRow) (j : String) : Bool :=
  decide (e.jobName = j) && decide (e.triggerType = .poll) && e.status.terminal

/-- `Complete` and `Retry` behind their checks. -/
def result (c : Ctx) (k : Holder) (b : Bool) (w : ExecWrite) (o : Outcome) (detail : String) : StoreM Unit := do
  releaseJobLock c k b
  chargeUnacceptedAttempt c k
  casExec k.executionId (fun e => e.reportable k (c.utc 2)) w .fenced detail
  recordAttempt c k o
  settlePollClock c k.jobName k.executionId

variable {k : Holder} {b : Bool} {w : ExecWrite} {o : Outcome} {detail : String}

/-- A result of the holder gets as far as the poll clock. -/
theorem result_reaches {s : StateRow} {e : ExecRow} (hs : db.state? k.jobName = some s)
    (ho : s.owned k.runToken k.fenceEpoch = true) (he : db.exec? k.executionId = some e)
    (hr : e.reportable k (c.utc 2) = true) :
    ∃ db₁, result c k b w o detail db = settlePollClock c k.jobName k.executionId db₁ ∧
      OnBoth db db₁ k.jobName ((releaseWrite c b).run s) k.executionId (w.run (e.charged c k)) := by
  have h₁ : releaseJobLock c k b db = .ok ((), db.setState k.jobName (releaseWrite c b)) := casState_run hs ho
  obtain ⟨db₂, h₂⟩ : ∃ db₂, chargeUnacceptedAttempt c k (db.setState k.jobName (releaseWrite c b)) = .ok ((), db₂) :=
    tryExec_run _ _ _
  have hx : OnExec (db.setState k.jobName (releaseWrite c b)) db₂ k.executionId (e.charged c k) := by
    rcases chargeUnacceptedAttempt_ok h₂ with ⟨hn, -⟩ | ⟨e₁, he₁, hx⟩
    · rw [DB.exec?_setState, he] at hn; cases hn
    · rw [DB.exec?_setState, he] at he₁
      rwa [Option.some.inj he₁]
  have he₂ : db₂.exec? k.executionId = some (e.charged c k) := by rw [hx.execs, if_pos rfl]
  have hb := ((OnState.of_set hs (releaseWrite c b)).exec hx).exec (.of_set he₂ w)
  refine ⟨_, ?_, hb.attempt (o.attemptRow c k (w.run (e.charged c k)).attemptNo)⟩
  unfold result
  rw [bind_of_ok h₁, bind_of_ok h₂, bind_of_ok (casExec_run he₂ (by rw [ExecRow.charged_reportable]; exact hr)),
    bind_of_ok (recordAttempt_run hb.exec?)]

/-- **A result of the holder is recorded**, and restarts the clock of a poll it ends. -/
theorem result_run {d : DefinitionRow} {t : Instant} {s : StateRow} {e : ExecRow} (hd : db.def? k.jobName = some d)
    (ht : d.toDefinition.delay = .ok t) (hs : db.state? k.jobName = some s)
    (ho : s.owned k.runToken k.fenceEpoch = true) (he : db.exec? k.executionId = some e)
    (hr : e.reportable k (c.utc 2) = true) :
    ∃ db', result c k b w o detail db = .ok ((), db') ∧ ∃ s', db'.state? k.jobName = some s' ∧
      s'.nextPollAt = settledPoll c d ((w.run (e.charged c k)).endsPass k.jobName) t s.nextPollAt := by
  obtain ⟨db₁, heq, hf⟩ : ∃ db₁, result c k b w o detail db = settlePollClock c k.jobName k.executionId db₁ ∧ _ :=
    result_reaches hs ho he hr
  obtain ⟨db', hok, hclock⟩ := settlePollClock_run (c := c) (i := k.executionId)
    (show _ = some d by rw [hf.defs]; exact hd) ht
  refine ⟨db', heq.trans hok, ?_⟩
  obtain ⟨s', hs', hpoll⟩ := hclock _ hf.state?
  refine ⟨s', hs', hpoll.trans ?_⟩
  rw [DB.passEnded, hf.exec?]
  rfl

/-- **Anybody else is fenced.** -/
theorem result_refused (h : ¬ db.Reportable k (c.utc 2)) :
    ∃ err, result c k b w o detail db = .error err ∧ err.kind = .fenced := by
  by_cases hlock : ∃ s, db.state? k.jobName = some s ∧ s.owned k.runToken k.fenceEpoch = true
  · obtain ⟨s, hs, ho⟩ := hlock
    have h₁ : releaseJobLock c k b db = .ok ((), db.setState k.jobName (releaseWrite c b)) := casState_run hs ho
    obtain ⟨db₂, h₂⟩ : ∃ db₂, chargeUnacceptedAttempt c k (db.setState k.jobName (releaseWrite c b)) = .ok ((), db₂) :=
      tryExec_run _ _ _
    have hno : ∀ x, db₂.exec? k.executionId = some x → x.reportable k (c.utc 2) = false := by
      intro x hx
      rcases chargeUnacceptedAttempt_ok h₂ with ⟨hn, rfl⟩ | ⟨e, he, hch⟩
      · rw [hn] at hx; cases hx
      · rw [hch.execs, if_pos rfl] at hx
        rw [← Option.some.inj hx, ExecRow.charged_reportable]
        by_contra hrep
        rw [Bool.not_eq_false] at hrep
        exact h ⟨⟨s, hs, ho⟩, e, he, hrep⟩
    refine ⟨⟨.fenced, detail⟩, ?_, rfl⟩
    unfold result
    rw [bind_of_ok h₁, bind_of_ok h₂]
    exact bind_of_error (casExec_fails hno)
  · have hno : ∀ s, db.state? k.jobName = some s → s.owned k.runToken k.fenceEpoch = false := by
      intro s hs
      by_contra ho
      rw [Bool.not_eq_false] at ho
      exact hlock ⟨s, hs, ho⟩
    exact ⟨⟨.fenced, _⟩, bind_of_error (casState_fails hno), rfl⟩

/-! ## Reported outcomes -/

variable {oc : ExecutionOutcome} {x : String} {backoff : Int}

/-- The write a reported outcome makes to its row. -/
def ExecutionOutcome.write (c : Ctx) (oc : ExecutionOutcome) (executorId : String) (backoff : Int) : ExecWrite :=
  if (classify oc.disposition oc.failureKind).retryable then retryWrite c (oc.toOutcome executorId).clipped backoff
  else completeWrite c (oc.toOutcome executorId).clipped

/-- `outcome.Apply` is one of the two result writes, whatever the outcome. -/
theorem apply_tx (env : Env) (c : Ctx) (k : Holder) (oc : ExecutionOutcome) (x : String) (backoff : Int) :
    ∃ b detail, (apply k oc x backoff).tx env c =
    result c k b (oc.write c x backoff) (oc.toOutcome x).clipped detail := by
  unfold apply ExecutionOutcome.write
  cases hr : (classify oc.disposition oc.failureKind).retryable with
  | true => exact ⟨_, _, rfl⟩
  | false =>
    have ht : (oc.toOutcome x).status.terminal = true := classify_terminal _ _
    refine ⟨decide ((oc.toOutcome x).clipped.status = .success), execution k.executionId ++ " result refused" ++
      underToken k.runToken k.fenceEpoch, ?_⟩
    show complete c k (oc.toOutcome x) = _
    unfold complete
    rw [if_neg (by rw [ht]; decide)]
    rfl

/-- What a recorded outcome leaves. -/
theorem apply_ok {u : Unit} (h : (apply k oc x backoff).tx env c db = .ok (u, db')) :
    ∃ b d s s' e, db.def? k.jobName = some d ∧ db.state? k.jobName = some s ∧ db.exec? k.executionId = some e ∧
      s.owned k.runToken k.fenceEpoch = true ∧ e.reportable k (c.utc 2) = true ∧
      PollSettled c d ((oc.write c x backoff).run (e.charged c k)) ((releaseWrite c b).run s) s' ∧
      OnBoth db db' k.jobName s' k.executionId ((oc.write c x backoff).run (e.charged c k)) ∧
      db'.attempts = (db.addAttempt ((oc.toOutcome x).clipped.attemptRow c k
        ((oc.write c x backoff).run (e.charged c k)).attemptNo)).attempts := by
  obtain ⟨b, detail, htx⟩ := apply_tx env c k oc x backoff
  rw [htx] at h
  exact ⟨b, result_ok h⟩

/-- The first row of an attempt's history is what its ending wrote. -/
theorem DB.attempt?_of_added {r : AttemptRow} (h : db'.attempts = (db.addAttempt r).attempts)
    (hnone : db.attempt? r.executionKey r.runToken = none) : db'.attempt? r.executionKey r.runToken = some r := by
  have hfresh : r.key ∉ db.attempts.rows.map AttemptRow.key := Table.get?_eq_none_iff_notMem.1 hnone
  rw [DB.attempt?, h, DB.addAttempt, dif_neg hfresh]
  exact Table.get?_eq_some.2 ⟨by simp [DB.setAttempts, Table.insert], rfl⟩

/-! ## What a caller is answered -/

/-- A job has its definition and its state row, or neither. -/
def DB.Paired (db : DB) : Prop := ∀ j, (db.state? j).isSome = (db.def? j).isSome

/-- A catalogue step creates the two rows together and otherwise only edits definitions. -/
theorem CatalogStep.paired (h : CatalogStep c db db') (hp : db.Paired) : db'.Paired := by
  intro j
  cases h with
  | audit hd hs => rw [hd, hs, hp j]
  | edit k d w hd _ hdefs hs =>
    rw [hdefs, hs, hp j]
    by_cases hj : j = k
    · rw [if_pos hj, hj, hd]
      rfl
    · rw [if_neg hj]
  | create d next x _ _ _ hdefs hs =>
    rw [hdefs, hs]
    by_cases hj : d.jobName = j
    · rw [if_pos hj, if_pos hj]
      rfl
    · rw [if_neg hj, if_neg hj, hp j]

theorem DB.Paired.steps (hp : db.Paired) (h : Relation.ReflTransGen (CatalogStep c) db db') : db'.Paired := by
  induction h with
  | refl => exact hp
  | tail _ hstep ih => exact hstep.paired ih

theorem ClockEffect.paired {a : Action} {j : String} (h : ClockEffect env c db db' a j) (hp : db.Paired) :
    (db'.state? j).isSome = (db'.def? j).isSome := by
  cases h with
  | kept hd hcols =>
    have hsome := congrArg Option.isSome hcols
    rw [Option.isSome_map, Option.isSome_map] at hsome
    rw [hd, hsome, hp j]
  | retired hd hd' _ _ hs =>
    rw [hd', hs, hp j, hd]
    rfl
  | settled _ _ hd' _ hs' =>
    rw [hd', hs']
    rfl
  | moved hd _ _ hf =>
    rw [hf.defs, hd, hf.states, if_pos rfl]
    rfl
  | created hd _ _ _ _ hf =>
    rw [hf.defs, hd, hf.state?]
    rfl

/-- Every database the server reaches is paired. -/
theorem paired_run {u : Utc} {tr : History} {w : World} (hr : Sys.Run (Step env) (World.init u) tr w) :
    w.db.Paired := by
  refine Sys.Run.history (J := fun _ w => w.db.Paired) (fun _ => rfl) ?_ hr
  intro tr w l w' hr ih hst
  rcases hst.commit.clockEffect (HolderInv.run hr) with hcat | heff
  · exact ih.steps hcat
  · exact fun j => (heff j).paired ih

/-- Every job with a state row has a definition. -/
theorem defined_run {u : Utc} {tr : History} {w : World} (hr : Sys.Run (Step env) (World.init u) tr w) {j : String}
    {s : StateRow} (hs : w.db.state? j = some s) : ∃ d, w.db.def? j = some d := by
  have hsome := paired_run hr j
  rw [hs] at hsome
  exact Option.isSome_iff_exists.1 hsome.symm

/-- Every delay parses, as the admin API sees to when a job is written. -/
def DB.DelaysValid (db : DB) : Prop := ∀ j d, db.def? j = some d → ∃ t, d.toDefinition.delay = .ok t

theorem DB.reportable_of_held (h : Agree db) {i : Nat} {e : ExecRow} {t : String} {v : Utc} (he : db.exec? i = some e)
    (hh : e.status.held = true) (ht : e.runToken = some t) (hcap : past e.timeoutAt v = false) (key owner : String) :
    db.Reportable ⟨e.jobName, i, key, owner, t, e.fenceEpoch⟩ v := by
  obtain ⟨s, hs, hes⟩ := h.held i e he hh
  refine ⟨⟨s, hs, StateRow.owned_iff.2 ⟨hes.token.trans ht, hes.epoch⟩⟩, e, he, ExecRow.reportable_iff.2 ⟨hh, ?_, hcap⟩⟩
  exact ExecRow.owned_iff.2 ⟨ht, rfl⟩

/-- **A reported outcome is recorded if its caller owns the attempt within its cap.** -/
theorem apply_recorded {u : Utc} {tr : History} {w : World} (hr : Sys.Run (Step env) (World.init u) tr w)
    (hv : w.db.DelaysValid) (h : w.db.Reportable k (c.utc 2)) : answer env w (apply k oc x backoff, c) = .ok () := by
  obtain ⟨⟨s, hs, ho⟩, e, he, hrep⟩ := h
  obtain ⟨d, hd⟩ := defined_run hr hs
  obtain ⟨t, ht⟩ := hv _ d hd
  obtain ⟨b, detail, htx⟩ := apply_tx env c k oc x backoff
  obtain ⟨db', hok, -⟩ : ∃ db', result c k b (oc.write c x backoff) (oc.toOutcome x).clipped detail w.db =
      .ok ((), db') ∧ _ := result_run hd ht hs ho he hrep
  unfold answer
  rw [htx, hok]
  rfl

/-- **Otherwise its caller is fenced.** -/
theorem apply_refused {w : World} (h : ¬ w.db.Reportable k (c.utc 2)) :
    ∃ err, answer env w (apply k oc x backoff, c) = .error err ∧ err.kind = .fenced := by
  obtain ⟨b, detail, htx⟩ := apply_tx env c k oc x backoff
  obtain ⟨err, herr, hkind⟩ : ∃ err, result c k b (oc.write c x backoff) (oc.toOutcome x).clipped detail w.db =
      .error err ∧ _ := result_refused h
  refine ⟨err, ?_, hkind⟩
  unfold answer
  rw [htx, herr]
  rfl

/-- A reported outcome lands under the epoch of the row it names. -/
theorem apply_lands {u : Utc} {tr : History} {w : World} {e : ExecRow} (hr : Sys.Run (Step env) (World.init u) tr w)
    (hv : w.db.DelaysValid) (he : w.db.exec? k.executionId = some e) (hj : e.jobName = k.jobName)
    (hh : e.status.held = true) (ht : e.runToken = some k.runToken) (hcap : past e.timeoutAt (c.utc 2) = false) :
    answer env w (apply { k with fenceEpoch := e.fenceEpoch } oc x backoff, c) = .ok () := by
  have hrep := DB.reportable_of_held (HolderInv.run hr).toAgree he hh ht hcap k.executionKey k.owner
  rw [hj] at hrep
  exact apply_recorded hr hv hrep

/-- It is fenced under any other. -/
theorem apply_stale {w : World} {e : ExecRow} (he : w.db.exec? k.executionId = some e)
    (hne : e.fenceEpoch ≠ k.fenceEpoch) :
    ∃ err, answer env w (apply k oc x backoff, c) = .error err ∧ err.kind = .fenced := by
  refine apply_refused (fun hrep => hne ?_)
  obtain ⟨-, y, hy, hrep⟩ := hrep
  obtain rfl := Option.some.inj (he.symm.trans hy)
  exact (ExecRow.owned_iff.1 (ExecRow.reportable_iff.1 hrep).2.1).2

/-- Progress is recorded under the epoch of the row it names. -/
theorem extendDeadline_lands {w : World} {e : ExecRow} {silence : Int} (he : w.db.exec? k.executionId = some e)
    (hh : e.status.held = true) (ht : e.runToken = some k.runToken) (hcap : past e.timeoutAt (c.utc 0) = false) :
    answer env w (.extendDeadline { k with fenceEpoch := e.fenceEpoch } silence, c) = .ok () := by
  have hrep : e.reportable { k with fenceEpoch := e.fenceEpoch } (c.utc 0) = true :=
    ExecRow.reportable_iff.2 ⟨hh, ExecRow.owned_iff.2 ⟨ht, rfl⟩, hcap⟩
  have hok : extendDeadline c { k with fenceEpoch := e.fenceEpoch } silence w.db =
      .ok ((), w.db.setExec k.executionId (extendWrite silence (c.utc 0))) := casExec_run he hrep
  show (extendDeadline c { k with fenceEpoch := e.fenceEpoch } silence w.db).map Prod.fst = _
  rw [hok]
  rfl

theorem extendDeadline_stale {w : World} {e : ExecRow} {silence : Int} (he : w.db.exec? k.executionId = some e)
    (hne : e.fenceEpoch ≠ k.fenceEpoch) :
    ∃ err, answer env w (.extendDeadline k silence, c) = .error err ∧ err.kind = .fenced := by
  have hno : ∀ y, w.db.exec? k.executionId = some y → y.reportable k (c.utc 0) = false := fun y hy => by
    by_contra hrep
    rw [Bool.not_eq_false] at hrep
    obtain rfl := Option.some.inj (he.symm.trans hy)
    exact hne (ExecRow.owned_iff.1 (ExecRow.reportable_iff.1 hrep).2.1).2
  obtain ⟨detail, hfail⟩ : ∃ detail, extendDeadline c k silence w.db = .error ⟨.fenced, detail⟩ :=
    ⟨_, casExec_fails hno⟩
  refine ⟨⟨.fenced, detail⟩, ?_, rfl⟩
  show (extendDeadline c k silence w.db).map Prod.fst = _
  rw [hfail]
  rfl

end GoJob
