import GoJob.Cap
import GoJob.Handover
import GoJob.Leases
/-!
# Recovered — a result recovery went to fetch

When a scheduler is lost, another one asks the executor, and a finished attempt's outcome is written by `adoptResult`:
it adopts the attempt first, and applies the outcome under the new epoch.  The row, the history, the lock and the poll
clock come out as if the executor had reported the outcome itself.
-/
namespace GoJob

open Rel Tx

variable {env : Env} {c : Ctx} {db db' : DB}

/-- `adoptResult`, of the engine `instance`: takes the attempt over without promoting it, then applies the outcome. -/
def adoptResult (instanceId : String) (leaseSeconds silenceSeconds backoff : Int) (v : Stale) (oc : ExecutionOutcome) :
    CallM Bool :=
  .call (.adopt v instanceId leaseSeconds silenceSeconds false) fun answer => match answer with
    | .ok () =>
      -- The epoch `Adopt` returns.
      .call (apply { v.holder with owner := instanceId, fenceEpoch := v.fenceEpoch + 1 } oc v.dispatchedTo backoff)
        fun _ => .ret true
    | .error err =>
      if err.kind = .capElapsed then .call (.fenceTimedOut v) fun _ => .ret true
      else if err.kind = .contended then .ret true
      else .ret false

/-! ## What an outcome leaves -/

/-- The columns of an execution that a result decides. -/
def ExecRow.resultCols (e : ExecRow) : Status × Option TerminalReason × Nat × Nat × Nat × Option String ×
    Option String × Option String × Option String × Option Utc × Option Utc :=
  (e.status, e.terminalReason, e.attemptNo, e.maxAttempts, e.recoveryCount, e.failureKind, e.errorMessage,
    e.resultSummary, e.runToken, e.timeoutAt, e.deadlineAt)

/-- Nobody holds the job. -/
structure StateRow.Free (s : StateRow) : Prop where
  kind       : s.activeKind = none
  execution  : s.activeExecution = none
  owner      : s.activeOwner = none
  token      : s.activeRunToken = none
  dispatched : s.dispatchedTo = none
  lease      : s.leaseUntil = none

variable {k k' : Holder} {oc : ExecutionOutcome} {x x' : String} {b b' : Int} {e e' : ExecRow} {c' : Ctx}

theorem ExecRow.resultCols_charged (ho : e.owned k.runToken k.fenceEpoch = true)
    (ho' : e'.owned k'.runToken k'.fenceEpoch = true) (h : e'.resultCols = e.resultCols) :
    (e'.charged c' k').resultCols = (e.charged c k).resultCols := by
  simp only [ExecRow.resultCols, Prod.mk.injEq] at h
  obtain ⟨hs, h₁, h₂, h₃, h₄, h₅, h₆, h₇, h₈, h₉, h₁₀⟩ := h
  unfold ExecRow.charged ExecRow.unaccepted
  rw [ho, ho', hs]
  by_cases hd : e.status = .dispatching
  · simp [hd, chargeWrite, ExecRow.resultCols, hs, h₁, h₂, h₃, h₄, h₅, h₆, h₇, h₈, h₉, h₁₀]
  · simp [hd, ExecRow.resultCols, hs, h₁, h₂, h₃, h₄, h₅, h₆, h₇, h₈, h₉, h₁₀]

/-- **The same outcome decides the same columns**, whoever writes it, when and with what backoff. -/
theorem ExecRow.resultCols_write (h : e'.resultCols = e.resultCols) :
    ((oc.write c' x' b').run e').resultCols = ((oc.write c x b).run e).resultCols := by
  simp only [ExecRow.resultCols, Prod.mk.injEq] at h
  obtain ⟨hs, h₁, h₂, h₃, h₄, h₅, h₆, h₇, h₈, h₉, h₁₀⟩ := h
  unfold ExecutionOutcome.write
  split
  · simp only [retryWrite, ExecRow.resultCols, h₂, h₃, h₄, h₇, h₉]
    rfl
  · simp only [completeWrite, ExecRow.resultCols, h₂, h₃, h₄, h₈, h₉, h₁₀]
    rfl

/-- What `outcome.Apply` leaves of the job, the row and the history. -/
structure Applied (c : Ctx) (db' : DB) (k : Holder) (oc : ExecutionOutcome) (x : String) (b : Int) (d : DefinitionRow)
    (t : Instant) (s : StateRow) (e : ExecRow) : Prop where
  row    : db'.exec? k.executionId = some ((oc.write c x b).run (e.charged c k))
  record : db'.attempt? k.executionKey k.runToken = some ((oc.toOutcome x).clipped.attemptRow c k
    ((oc.write c x b).run (e.charged c k)).attemptNo)
  state  : ∃ s', db'.state? k.jobName = some s' ∧ s'.Free ∧
    s'.nextPollAt = settledPoll c d (((oc.write c x b).run (e.charged c k)).endsPass k.jobName) t s.nextPollAt

theorem apply_applied {d : DefinitionRow} {t : Instant} {s : StateRow} {u : Unit} (hd : db.def? k.jobName = some d)
    (ht : d.toDefinition.delay = .ok t) (hs : db.state? k.jobName = some s) (he : db.exec? k.executionId = some e)
    (hnone : db.attempt? k.executionKey k.runToken = none)
    (h : (apply k oc x b).tx env c db = .ok (u, db')) : Applied c db' k oc x b d t s e := by
  obtain ⟨bl, detail, htx⟩ := apply_tx env c k oc x b
  rw [htx] at h
  obtain ⟨d₁, s₁, s', e₁, hd₁, hs₁, he₁, ho, hr, hp, hf, hatt⟩ := result_ok h
  obtain rfl := Option.some.inj (hd.symm.trans hd₁)
  obtain rfl := Option.some.inj (hs.symm.trans hs₁)
  obtain rfl := Option.some.inj (he.symm.trans he₁)
  obtain ⟨db₁, hrun, s₂, hs₂, hpoll⟩ : ∃ db₁, result c k bl (oc.write c x b) (oc.toOutcome x).clipped detail db =
      .ok ((), db₁) ∧ _ := result_run hd ht hs ho he hr
  rw [h] at hrun
  cases hrun
  obtain rfl := Option.some.inj (hf.state?.symm.trans hs₂)
  refine ⟨hf.exec?, DB.attempt?_of_added hatt hnone, s', hf.state?, ?_, hpoll⟩
  cases hp <;> exact ⟨rfl, rfl, rfl, rfl, rfl, rfl⟩

/-! ## Adopting, forwards -/

/-- **A held attempt whose lease ran out within its cap can be adopted**, unless the job is locked elsewhere. -/
theorem adopt_run {v : Stale} {o : String} {l sil : Int} {s : StateRow} (hs : db.state? v.jobName = some s)
    (hb : c.busy v.jobName = false) (hk : s.activeKind ≠ none) (ho : s.owned v.runToken v.fenceEpoch = true)
    (hl : past s.leaseUntil (c.utc 2) = true) (he : db.exec? v.id = some e) (hh : e.status.held = true)
    (hown : e.owned v.runToken v.fenceEpoch = true) (hcap : past e.timeoutAt (c.utc 1) = false) :
    adopt c v o l sil false db = .ok (v.fenceEpoch + 1, (db.setState v.jobName (adoptLockWrite o (v.fenceEpoch + 1) l
      (c.utc 2))).setExec v.id (adoptWrite c o (v.fenceEpoch + 1) l sil false (c.utc 3))) := by
  obtain ⟨htok, hn⟩ := StateRow.owned_iff.1 ho
  obtain ⟨hetok, hen⟩ := ExecRow.owned_iff.1 hown
  have hheld : s.stillHeld v.runToken v.fenceEpoch = true := by
    simp [StateRow.stillHeld, StateRow.held, Option.isSome_iff_ne_none, hk, htok, hn]
  have hstill : (e.toStale (c.utc 1)).still v.runToken v.fenceEpoch = true := by
    simp [Stale.still, ExecRow.toStale, hetok, hen]
  have hcap' : (e.toStale (c.utc 1)).timeoutExpired = false := hcap
  unfold adopt
  rw [bind_of_ok (lockState_run hs hb), if_neg (by rw [hheld]; decide), bind_of_ok (lockExecution_run he),
    if_neg (by rw [hstill]; decide), if_neg (by rw [hcap']; decide)]
  have he₁ : (db.setState v.jobName (adoptLockWrite o (v.fenceEpoch + 1) l (c.utc 2))).exec? v.id = some e := he
  -- The two guarded writes, each on a row its guard accepts.
  refine (bind_of_ok (mustState_run hs (by rw [ho, hl]; rfl))).trans ?_
  refine (bind_of_ok (mustExec_run he₁ (by rw [hh, hown]; rfl))).trans ?_
  rfl

/-! ## The two paths -/

section paths

variable {u : Utc} {tr₀ : History} {w w' : World} {ev : List (Sys.Event World (Action × Ctx) Query)} {d : DefinitionRow}
  {t : Instant} {s : StateRow}

theorem Step.applied (hst : Step env w (apply k oc x b, c) w') (hans : answer env w (apply k oc x b, c) = .ok ())
    (hd : w.db.def? k.jobName = some d) (ht : d.toDefinition.delay = .ok t) (hs : w.db.state? k.jobName = some s)
    (he : w.db.exec? k.executionId = some e) (hnone : w.db.attempt? k.executionKey k.runToken = none) :
    Applied c w'.db k oc x b d t s e :=
  apply_applied hd ht hs he hnone (hst.tx_ok hans)

/-- **A result that its executor reports.** -/
theorem reportResult_applied {backoff : Nat → Int} {req : Server.ReportResultRequest} {reply : Server.ResultReply}
    (hr₀ : Sys.Run (Step env) (World.init u) tr₀ w)
    (hx : Callback env (Server.recordResult backoff req oc) w ev reply w') (halone : Sys.Alone ev)
    (he : w.db.exec? e.id = some e) (hh : e.status.held = true) (htok : e.runToken = some req.runToken)
    (hkey : req.executionKey = e.executionKey) (hcap : e.Within w'.utc) (hv : w.db.DelaysValid)
    (hd : w.db.def? e.jobName = some d) (ht : d.toDefinition.delay = .ok t) (hs : w.db.state? e.jobName = some s) :
    reply = .ok ⟨false⟩ ∧ ∃ y v, .own y ∈ ev ∧
      Applied y.2.1.2 w'.db (e.toStale v).holder oc (e.toStale v).dispatchedTo (backoff 0) d t s e := by
  obtain ⟨_, ev₁, rfl, halone, hx⟩ := hx.read_alone halone
  have hnone := held_unwritten hr₀ ⟨e, he, hh, htok⟩
  rw [hnone] at hx
  obtain ⟨v, ev₂, rfl, halone, hx⟩ := hx.read_alone halone
  have hrow : (e.toStale v).runToken = req.runToken := by simp [ExecRow.toStale, htok]
  rw [hkey, DB.executionByKey_of he v] at hx
  simp only [hrow, not_true_eq_false, ne_eq, if_false] at hx
  obtain ⟨c₁, w₁, ev₃, rfl, halone, hst, hx⟩ := hx.call_alone halone
  have hpast : past e.timeoutAt (c₁.utc 2) = false := hcap.not_past (le_trans (hst.after 2) (utc_run hx.run))
  have hans : answer env w (apply (e.toStale v).holder oc (e.toStale v).dispatchedTo (backoff 0), c₁) = .ok () :=
    apply_lands (k := (e.toStale v).holder) hr₀ hv he rfl hh (htok.trans (congrArg some hrow.symm)) hpast
  rw [hans] at hx
  obtain ⟨rfl, rfl⟩ := hx.ret_alone halone
  refine ⟨rfl, (w, (_, c₁), _), v, List.mem_cons_of_mem _ (List.mem_cons_of_mem _ List.mem_cons_self),
    hst.applied hans hd ht hs he ?_⟩
  show w.db.attempt? e.executionKey (e.toStale v).runToken = none
  rw [hrow]
  exact hnone _

/-- **A result that recovery fetched.**  It finds the row and the lock adopted, with what a result decides untouched. -/
theorem adoptResult_applied {inst : String} {l sil : Int} {v : Stale} {z : Utc} {r : Bool}
    (hr₀ : Sys.Run (Step env) (World.init u) tr₀ w) (hx : Callback env (adoptResult inst l sil b v oc) w ev r w')
    (halone : Sys.Alone ev) (hidle : ∀ y, .own y ∈ ev → y.2.1.2.busy e.jobName = false)
    (he : w.db.exec? e.id = some e) (hh : e.status.held = true) (htok : e.runToken = some v.runToken)
    (hscan : v.holder = (e.toStale z).holder) (hlease : past e.leaseUntil w.utc = true) (hcap : e.Within w'.utc)
    (hv : w.db.DelaysValid) (hd : w.db.def? e.jobName = some d) (ht : d.toDefinition.delay = .ok t)
    (hs : w.db.state? e.jobName = some s) :
    r = true ∧ ∃ y s' e', .own y ∈ ev ∧ s'.nextPollAt = s.nextPollAt ∧ e'.toExecInfo = e.toExecInfo ∧
      e'.resultCols = e.resultCols ∧ e'.owned v.runToken (v.fenceEpoch + 1) = true ∧
      Applied y.2.1.2 w'.db { v.holder with owner := inst, fenceEpoch := v.fenceEpoch + 1 } oc v.dispatchedTo b d t s'
        e' := by
  have hid : v.id = e.id := congrArg Holder.executionId hscan
  have hjob : v.jobName = e.jobName := congrArg Holder.jobName hscan
  have hepoch : v.fenceEpoch = e.fenceEpoch := congrArg Holder.fenceEpoch hscan
  have hinv := HolderInv.run hr₀
  obtain ⟨s₁, hs₁, hes⟩ := hinv.held _ e he hh
  obtain rfl := Option.some.inj (hs.symm.trans hs₁)
  have hlock : past s.leaseUntil w.utc = true := locksFirst_run hr₀ _ e s he hh hs _ hlease
  obtain ⟨c₁, w₁, ev₁, rfl, halone, hst₁, hx⟩ := hx.call_alone halone
  -- Nobody stands in the way of the adoption.
  have hadopt : adopt c₁ v inst l sil false w.db = _ := adopt_run (hjob ▸ hs) (hjob ▸ hidle _ List.mem_cons_self)
    hes.kind (StateRow.owned_iff.2 ⟨hes.token.trans htok, hes.epoch.trans hepoch.symm⟩)
    (past_later hlock (hst₁.le_utc 2)) (hid ▸ he) hh (ExecRow.owned_iff.2 ⟨htok, hepoch.symm⟩)
    (hcap.not_past (le_trans (hst₁.after 1) (utc_run hx.run)))
  have htx : (Action.adopt v inst l sil false).tx env c₁ w.db = _ := unit_run hadopt
  have hans : answer env w (.adopt v inst l sil false, c₁) = .ok () := congrArg (Except.map Prod.fst) htx
  have hdb := hst₁.db.trans (commit_of_ok htx)
  rw [hans] at hx
  obtain ⟨c₂, w₂, ev₂, rfl, halone, hst₂, hx⟩ := hx.call_alone halone
  have hd₁ : w₁.db.def? v.jobName = some d := by rw [hdb, hjob]; exact hd
  have hs₁ : w₁.db.state? v.jobName = some ((adoptLockWrite inst (v.fenceEpoch + 1) l (c₁.utc 2)).run s) := by
    rw [hdb, hjob]; simp [hs]
  have he₁ : w₁.db.exec? v.id = some ((adoptWrite c₁ inst (v.fenceEpoch + 1) l sil false (c₁.utc 3)).run e) := by
    rw [hdb, hid]; simp [he]
  have hr₁ := hr₀.snoc hst₁
  have hpast : past e.timeoutAt (c₂.utc 2) = false := hcap.not_past (le_trans (hst₂.after 2) (utc_run hx.run))
  have hv₁ : w₁.db.DelaysValid := by
    rw [hdb]; exact hv
  have hans₂ : answer env w₁ (apply { v.holder with owner := inst, fenceEpoch := v.fenceEpoch + 1 } oc v.dispatchedTo b,
      c₂) = .ok () :=
    apply_lands (k := { v.holder with owner := inst, fenceEpoch := v.fenceEpoch + 1 }) hr₁ hv₁ he₁ hjob.symm hh htok
      hpast
  obtain ⟨rfl, rfl⟩ := hx.ret_alone halone
  have happ := hst₂.applied hans₂ hd₁ ht hs₁ he₁ (held_unwritten hr₁ ⟨_, he₁, hh, htok⟩ _)
  exact ⟨rfl, (w₁, (_, c₂), _), (adoptLockWrite inst (v.fenceEpoch + 1) l (c₁.utc 2)).run s,
    (adoptWrite c₁ inst (v.fenceEpoch + 1) l sil false (c₁.utc 3)).run e,
    List.mem_cons_of_mem _ List.mem_cons_self, rfl, rfl, rfl, ExecRow.owned_iff.2 ⟨htok, rfl⟩, happ⟩

end paths

/-- Two schemas that hold the same result of the attempt of `e` under token `tok`, each written by a call with its own
clocks, from the state `w` is in. -/
structure SameResult (w : World) (e : ExecRow) (tok : String) (c₁ c₂ : Ctx) (db₁ db₂ : DB) : Prop where
  row     : ∃ e₁ e₂, db₁.exec? e.id = some e₁ ∧ db₂.exec? e.id = some e₂ ∧ e₂.resultCols = e₁.resultCols
  history : ∃ a₁ a₂, db₁.attempt? e.executionKey tok = some a₁ ∧ db₂.attempt? e.executionKey tok = some a₂ ∧
    a₂.outcome = a₁.outcome ∧ a₂.attemptNo = a₁.attemptNo
  job     : ∃ d t s s₁ s₂ ended, w.db.def? e.jobName = some d ∧ d.toDefinition.delay = .ok t ∧
    w.db.state? e.jobName = some s ∧ db₁.state? e.jobName = some s₁ ∧ db₂.state? e.jobName = some s₂ ∧
    s₁.Free ∧ s₂.Free ∧ s₁.nextPollAt = settledPoll c₁ d ended t s.nextPollAt ∧
    s₂.nextPollAt = settledPoll c₂ d ended t s.nextPollAt

theorem Applied.same {w : World} {db₁ db₂ : DB} {c₁ c₂ : Ctx} {d : DefinitionRow} {t : Instant} {s s' : StateRow}
    {tok : String} (hd : w.db.def? e.jobName = some d) (ht : d.toDefinition.delay = .ok t)
    (hs : w.db.state? e.jobName = some s) (h₁ : Applied c₁ db₁ k oc x b d t s e)
    (h₂ : Applied c₂ db₂ k' oc x' b' d t s' e') (hk : k.jobName = e.jobName ∧ k.executionId = e.id ∧
      k.executionKey = e.executionKey ∧ k.runToken = tok) (hk' : k'.jobName = e.jobName ∧ k'.executionId = e.id ∧
      k'.executionKey = e.executionKey ∧ k'.runToken = tok) (ho : e.owned k.runToken k.fenceEpoch = true)
    (ho' : e'.owned k'.runToken k'.fenceEpoch = true) (hpoll : s'.nextPollAt = s.nextPollAt)
    (hinfo : e'.toExecInfo = e.toExecInfo) (hcols : e'.resultCols = e.resultCols) :
    SameResult w e tok c₁ c₂ db₁ db₂ := by
  obtain ⟨hj, hi, hkey, rfl⟩ := hk
  obtain ⟨hj', hi', hkey', htok⟩ := hk'
  have hrow : ((oc.write c₂ x' b').run (e'.charged c₂ k')).resultCols =
      ((oc.write c₁ x b).run (e.charged c₁ k)).resultCols :=
    ExecRow.resultCols_write (ExecRow.resultCols_charged ho ho' hcols)
  have hattempt := congrArg (fun y => y.2.2.1) hrow
  have hended : ((oc.write c₂ x' b').run (e'.charged c₂ k')).endsPass e.jobName =
      ((oc.write c₁ x b).run (e.charged c₁ k)).endsPass e.jobName := by
    have hstatus : ((oc.write c₂ x' b').run (e'.charged c₂ k')).status =
        ((oc.write c₁ x b).run (e.charged c₁ k)).status := congrArg Prod.fst hrow
    unfold ExecRow.endsPass
    rw [hstatus, ExecWrite.info, ExecWrite.info, ExecRow.charged_info, ExecRow.charged_info, hinfo]
  refine ⟨⟨_, _, hi ▸ h₁.row, hi' ▸ h₂.row, hrow⟩, ?_, ?_⟩
  · have hrec₁ := h₁.record
    have hrec₂ := h₂.record
    rw [hkey] at hrec₁
    rw [hkey', htok] at hrec₂
    exact ⟨_, _, hrec₁, hrec₂, rfl, hattempt⟩
  · obtain ⟨s₁, hs₁, hfree₁, hp₁⟩ := h₁.state
    obtain ⟨s₂, hs₂, hfree₂, hp₂⟩ := h₂.state
    rw [hj] at hs₁ hp₁
    rw [hj', hended, hpoll] at hp₂
    rw [hj'] at hs₂
    exact ⟨d, t, s, s₁, s₂, _, hd, ht, hs, hs₁, hs₂, hfree₁, hfree₂, hp₁, hp₂⟩

/-- **A recovered result lands like a reported one.**  A held execution whose lease has run out and whose cap has not:
its outcome reported by the executor, or fetched by a scheduler that adopts the attempt. -/
theorem recovered_result_as_reported {u : Utc} {tr₀ : History} {w : World}
    (hr₀ : Sys.Run (Step env) (World.init u) tr₀ w) (hvalid : w.db.DelaysValid) {tok : String}
    (he : w.db.exec? e.id = some e) (hh : e.status.held = true) (htok : e.runToken = some tok)
    (hlease : past e.leaseUntil w.utc = true) (husable : oc.disposition ≠ .unspecified)
    {backoff : Nat → Int} {ev₁ : List (Sys.Event World (Action × Ctx) Query)} {reply : Server.ResultReply} {w₁ : World}
    (hreport : Callback env (Server.reportResult (.ok ()) backoff ⟨e.executionKey, tok, some oc⟩) w ev₁ reply w₁)
    (halone₁ : Sys.Alone ev₁) (hkey : e.executionKey ≠ "") (hne : tok ≠ "") (hcap₁ : e.Within w₁.utc)
    {inst : String} {lease silence : Int} {v : Stale} {z : Utc} {ev₂ : List (Sys.Event World (Action × Ctx) Query)}
    {moved : Bool} {w₂ : World} (hadopt : Callback env (adoptResult inst lease silence b v oc) w ev₂ moved w₂)
    (halone₂ : Sys.Alone ev₂) (hidle : ∀ y, .own y ∈ ev₂ → y.2.1.2.busy e.jobName = false)
    (hscan : v.holder = (e.toStale z).holder) (hcap₂ : e.Within w₂.utc) :
    reply = .ok ⟨false⟩ ∧ moved = true ∧ ∃ y₁ y₂, .own y₁ ∈ ev₁ ∧ .own y₂ ∈ ev₂ ∧
      SameResult w e tok y₁.2.1.2 y₂.2.1.2 w₁.db w₂.db := by
  obtain ⟨s, hs, hes⟩ := (HolderInv.run hr₀).held _ e he hh
  obtain ⟨d, hd⟩ := defined_run hr₀ hs
  obtain ⟨t, ht⟩ := hvalid _ d hd
  have hrow : ∀ z, (e.toStale z).runToken = tok := fun z => by simp [ExecRow.toStale, htok]
  have hvtok : v.runToken = tok := (congrArg Holder.runToken hscan).trans (hrow z)
  rw [reportResult_eq hkey hne rfl husable] at hreport
  obtain ⟨rfl, y₁, z₁, hy₁, happ₁⟩ := reportResult_applied hr₀ hreport halone₁ he hh htok rfl hcap₁ hvalid hd ht hs
  obtain ⟨rfl, y₂, s₂, e₂, hy₂, hpoll, hinfo, hcols, hown, happ₂⟩ := adoptResult_applied hr₀ hadopt halone₂ hidle he hh
    (hvtok ▸ htok) hscan hlease hcap₂ hvalid hd ht hs
  refine ⟨rfl, rfl, y₁, y₂, hy₁, hy₂, happ₁.same hd ht hs happ₂ ⟨rfl, rfl, rfl, hrow z₁⟩ ?_ ?_ hown hpoll hinfo hcols⟩
  · exact ⟨congrArg Holder.jobName hscan, congrArg Holder.executionId hscan, congrArg Holder.executionKey hscan, hvtok⟩
  · exact ExecRow.owned_iff.2 ⟨htok.trans (congrArg some (hrow z₁).symm), rfl⟩

/-- The accepted pass once its lease has run out; its acceptance is delivered again, and refused. -/
def expiredPass : World :=
  (World.init 0).play bareEnv (claimedPass ++ [(.accept 1 "t1" 1 60, 3), (.accept 1 "t1" 1 60, 40)])

theorem expiredPass_run : Sys.Run (Step bareEnv) (World.init 0)
    ((World.init 0).trace bareEnv (claimedPass ++ [(.accept 1 "t1" 1 60, 3), (.accept 1 "t1" 1 60, 40)])) expiredPass :=
  World.run_play bareEnv _ (World.init 0) (by decide)

def failedOutcome : ExecutionOutcome := { disposition := .failed, failureKind := "io", errorDetail := "disk full" }

/-- Nobody else acts, and nothing is locked. -/
def aloneCall (ev : List (Sys.Event World (Action × Ctx) Query)) : Bool :=
  ev.all (fun e => match e with
    | .other _ _ => false
    | .own x     => !x.2.1.2.busy "sync"
    | .read _ _  => true)

theorem recovered_result_as_reported_failed : ∃ e ev₁ w₁ ev₂ w₂ y₁ y₂, expiredPass.db.exec? 1 = some e ∧
    Callback bareEnv (Server.reportResult (.ok ()) (fun _ => 30) ⟨"pass-1", "t1", some failedOutcome⟩) expiredPass ev₁
      (.ok ⟨false⟩) w₁ ∧
    Callback bareEnv (adoptResult "rescuer" 30 60 45 (scannedPass "pass-1" 1) failedOutcome) expiredPass ev₂ true w₂ ∧
    SameResult expiredPass e "t1" y₁ y₂ w₁.db w₂.db := by
  obtain ⟨ev₁, reply, w₁, hx₁, hq₁⟩ := playCall_checked bareEnv expiredPass
    (Server.reportResult (.ok ()) (fun _ => 30) ⟨"pass-1", "t1", some failedOutcome⟩)
    (fun ev _ w' => aloneCall ev && decide (w'.utc = 42)) [([], 41), ([], 41), ([], 42)]
    (by decide +kernel)
  obtain ⟨ev₂, moved, w₂, hx₂, hq₂⟩ := playCall_checked bareEnv expiredPass
    (adoptResult "rescuer" 30 60 45 (scannedPass "pass-1" 1) failedOutcome)
    (fun ev _ w' => aloneCall ev && decide (w'.utc = 46)) [([], 45), ([], 46)] (by decide +kernel)
  simp only [Bool.and_eq_true, decide_eq_true_eq, aloneCall, List.all_eq_true] at hq₁ hq₂
  have hrow : (expiredPass.db.exec? 1).any (fun e => decide (e.id = 1) && decide (e.executionKey = "pass-1") &&
      e.status.held && decide (e.runToken = some "t1") && decide (e.timeoutAt = some 62) &&
      past e.leaseUntil expiredPass.utc && decide (e.jobName = "sync") &&
      decide ((scannedPass "pass-1" 1).holder = (e.toStale 41).holder)) = true := by decide +kernel
  obtain ⟨e, he, hcols⟩ := (Option.any_eq_true _ _).1 hrow
  simp only [Bool.and_eq_true, decide_eq_true_eq] at hcols
  obtain ⟨⟨⟨⟨⟨⟨⟨hid, hkey⟩, hheld⟩, htok⟩, hcap⟩, hlease⟩, hjob⟩, hscan⟩ := hcols
  have hwithin : ∀ u, u ≤ 62 → e.Within u := fun u hu cap hc => by
    obtain rfl := Option.some.inj (hcap.symm.trans hc)
    exact hu
  obtain ⟨rfl, rfl, y₁, y₂, -, -, hsame⟩ := recovered_result_as_reported expiredPass_run
    (DB.delaysValid_of (by decide +kernel)) (by rw [hid]; exact he) hheld htok hlease (by decide)
    (by rw [hkey]; exact hx₁)
    (fun n x hm => by cases hq₁.1 _ hm) (by rw [hkey]; decide) (by decide) (hwithin _ (by rw [hq₁.2]; decide)) hx₂
    (fun n x hm => by cases hq₂.1 _ hm) (fun x hm => by rw [hjob]; simpa using hq₂.1 _ hm) hscan
    (hwithin _ (by rw [hq₂.2]; decide))
  exact ⟨e, ev₁, w₁, ev₂, w₂, _, _, he, hx₁, hx₂, hsame⟩

end GoJob
