import GoJob.System
/-!
# Moves — what a committed transaction can do

One transaction touches at most one job: its state row, one execution row or both, except that a retirement visits all
executions of the job and a retention batch deletes finished ones.  `ExecMove` lists every way an execution row moves,
with the guard that let it; `Commit` says how the moves of one transaction go together.  Nothing after this module
opens a transaction again.
-/
namespace GoJob

open Rel

/-- The row after `chargeUnacceptedAttempt`. -/
def ExecRow.charged (e : ExecRow) (c : Ctx) (h : Holder) : ExecRow :=
  if e.unaccepted h.runToken h.fenceEpoch then (chargeWrite c).run e else e

/-- **The life of an execution row**: every move a transaction can make with it. -/
inductive ExecMove (c : Ctx) : Action → ExecRow → ExecRow → Prop
  | dispatch {p r e} (n : Nat) (lease timeout : Int) (hi : e.id = p.executionId) (hj : e.jobName = p.jobName)
      (hs : e.status = .ready) (hb : e.attemptNo < e.maxAttempts) (hc : past e.timeoutAt (c.utc 2) = false) :
      ExecMove c (.claim p r) e ((dispatchWrite p n lease timeout (c.utc 4)).run e)
  | defer {p r e} (hi : e.id = p.executionId) (hs : e.status = .ready) :
      ExecMove c (.claim p r) e ((deferWrite c p.backoffSeconds).run e)
  | expire {p r e} (hi : e.id = p.executionId) (hj : e.jobName = p.jobName) (hs : e.status = .ready)
      (hc : past e.timeoutAt (c.utc 2) = true) : ExecMove c (.claim p r) e ((expireWrite c).run e)
  | skip {p r e} (summary : String) (hi : e.id = p.executionId) (hj : e.jobName = p.jobName) (hs : e.status = .ready)
      (hm : e.manualFirst = false) : ExecMove c (.claim p r) e ((skipWrite c summary).run e)
  | accept {i t n l e} (hi : e.id = i) (ho : e.unaccepted t n = true) :
      ExecMove c (.accept i t n l) e ((acceptWrite c l (c.utc 0)).run e)
  | retarget {h x e} (hi : e.id = h.executionId) (ho : e.unaccepted h.runToken h.fenceEpoch = true) :
      ExecMove c (.retarget h x) e ((retargetWrite x).run e)
  | refuse {p n e} (hi : e.id = p.executionId) (ho : e.unaccepted p.runToken n = true) :
      ExecMove c (.refuse p n) e ((refuseWrite c p.backoffSeconds (c.utc 1)).run e)
  | renew {h l e} (hi : e.id = h.executionId) (hs : e.status.held = true) (ho : e.owned h.runToken h.fenceEpoch = true)
      (hl : live e.leaseUntil (c.utc 1) = true) : ExecMove c (.renew h l) e ((renewWrite l (c.utc 1)).run e)
  | extend {h l e} (hi : e.id = h.executionId) (hr : e.reportable h (c.utc 0) = true) :
      ExecMove c (.extendDeadline h l) e ((extendWrite l (c.utc 0)).run e)
  | complete {h o e} (hi : e.id = h.executionId) (ht : o.status.terminal = true)
      (hr : e.reportable h (c.utc 2) = true) :
      ExecMove c (.complete h o) e ((completeWrite c o.clipped).run (e.charged c h))
  | retry {h o b e} (hi : e.id = h.executionId) (hr : e.reportable h (c.utc 2) = true) :
      ExecMove c (.retry h o b) e ((retryWrite c o.clipped b).run (e.charged c h))
  | cancel {i x y e} (hi : e.id = i) (hs : e.status.cancellable = true) :
      ExecMove c (.requestCancel i x y) e (cancelWrite.run e)
  | adopt {v o l s p e} (hi : e.id = v.id) (hs : e.status.held = true) (ho : e.owned v.runToken v.fenceEpoch = true)
      (hc : past e.timeoutAt (c.utc 1) = false) :
      ExecMove c (.adopt v o l s p) e
        ((adoptWrite c o (v.fenceEpoch + 1) l s (p && decide (e.status = .dispatching)) (c.utc 3)).run e)
  | resolve {v b e} (hi : e.id = v.id) (hs : e.status.held = true) (ho : e.owned v.runToken v.fenceEpoch = true) :
      ExecMove c (.resolve v b) e ((resolveWrite c (resolvedStatus (e.toStale (c.utc 1)))
        (resolvedReason (e.toStale (c.utc 1)) (resolvedStatus (e.toStale (c.utc 1)))) b).run e)
  | fence {v e} (hi : e.id = v.id) (hs : e.status.held = true) (ho : e.owned v.runToken v.fenceEpoch = true) :
      ExecMove c (.fenceTimedOut v) e ((fenceWrite c (endedStatus (e.toStale (c.utc 1)))
        (if e.status = .cancelRequested then .fenced else .timeout) "timeout"
        "runtime cap elapsed; execution fenced by the scheduler").run e)
  | silence {v e} (hi : e.id = v.id) (hs : e.status = .running ∨ e.status = .cancelRequested)
      (ho : e.owned v.runToken v.fenceEpoch = true) (hd : past e.deadlineAt (c.utc 1) = true) :
      ExecMove c (.expireSilent v) e ((fenceWrite c (endedStatus (e.toStale (c.utc 1))) .fenced "silence"
        "the executor stopped reporting progress within its silence budget").run e)
  | release {h e} (hi : e.id = h.executionId) (hs : e.status.held = true)
      (ho : e.owned h.runToken h.fenceEpoch = true) (hl : live e.leaseUntil (c.utc 1) = true) :
      ExecMove c (.releaseAsOwner h) e ((releaseAsOwnerWrite c (endedStatus (e.toStale (c.utc 1)))).run e)
  | retireReady {j x y e} (hj : e.jobName = j) (hs : e.status = .ready) :
      ExecMove c (.retire j x y) e ((retireReadyWrite c).run e)
  | retireHeld {j x y e} (hj : e.jobName = j) (hs : e.status.cancellable = true) :
      ExecMove c (.retire j x y) e (cancelWrite.run e)
  | revive {j k x y e} (hk : e.executionKey = k) (hj : e.jobName = j) (hs : e.status = .dead) :
      ExecMove c (.authorizedRetry j k x y) e ((reviveWrite c).run e)

/-! ## Frames -/

/-- Only execution `i` differs, and holds `e'`. -/
structure OnExec (db db' : DB) (i : Nat) (e' : ExecRow) : Prop where
  defs   : ∀ k, db'.def? k = db.def? k
  states : ∀ k, db'.state? k = db.state? k
  execs  : ∀ k, db'.exec? k = if k = i then some e' else db.exec? k
  last   : db.executions.lastId ≤ db'.executions.lastId

/-- Only the state row of `j` differs, and holds `s'`. -/
structure OnState (db db' : DB) (j : String) (s' : StateRow) : Prop where
  defs   : ∀ k, db'.def? k = db.def? k
  states : ∀ k, db'.state? k = if k = j then some s' else db.state? k
  execs  : ∀ k, db'.exec? k = db.exec? k
  last   : db.executions.lastId ≤ db'.executions.lastId

/-- Only the state row of `j` and execution `i` differ. -/
structure OnBoth (db db' : DB) (j : String) (s' : StateRow) (i : Nat) (e' : ExecRow) : Prop where
  defs   : ∀ k, db'.def? k = db.def? k
  states : ∀ k, db'.state? k = if k = j then some s' else db.state? k
  execs  : ∀ k, db'.exec? k = if k = i then some e' else db.exec? k
  last   : db.executions.lastId ≤ db'.executions.lastId

namespace OnExec

theorem of_set {db : DB} {i : Nat} {e : ExecRow} (he : db.exec? i = some e) (w : ExecWrite) :
    OnExec db (db.setExec i w) i (w.run e) :=
  ⟨fun _ => rfl, fun _ => rfl, fun k => by simp [he], le_refl _⟩

theorem of_same {db : DB} {i : Nat} {e : ExecRow} (he : db.exec? i = some e) : OnExec db db i e :=
  ⟨fun _ => rfl, fun _ => rfl, fun k => by
    split
    · rename_i hk; rw [hk, he]
    · rfl, le_refl _⟩

theorem audit {db db' : DB} {i : Nat} {e : ExecRow} (h : OnExec db db' i e) (a : AuditRow) :
    OnExec db (db'.addAudit a) i e :=
  ⟨fun k => by simp [h.defs], fun k => by simp [h.states], fun k => by simp [h.execs], h.last⟩

end OnExec

namespace OnState

theorem of_set {db : DB} {j : String} {s : StateRow} (hs : db.state? j = some s) (w : StateWrite) :
    OnState db (db.setState j w) j (w.run s) :=
  ⟨fun _ => rfl, fun k => by simp [hs], fun _ => rfl, le_refl _⟩

theorem of_same {db : DB} {j : String} {s : StateRow} (hs : db.state? j = some s) : OnState db db j s :=
  ⟨fun _ => rfl, fun k => by
    split
    · rename_i hk; rw [hk, hs]
    · rfl, fun _ => rfl, le_refl _⟩

theorem exec {db db₁ db₂ : DB} {j : String} {s : StateRow} {i : Nat} {e : ExecRow} (h : OnState db db₁ j s)
    (h' : OnExec db₁ db₂ i e) : OnBoth db db₂ j s i e :=
  ⟨fun k => by rw [h'.defs, h.defs], fun k => by rw [h'.states, h.states], fun k => by rw [h'.execs, h.execs],
    le_trans h.last h'.last⟩

theorem audit {db db' : DB} {j : String} {s : StateRow} (h : OnState db db' j s) (a : AuditRow) :
    OnState db (db'.addAudit a) j s :=
  ⟨fun k => by simp [h.defs], fun k => by simp [h.states], fun k => by simp [h.execs], h.last⟩

end OnState

namespace OnBoth

theorem exec {db db₁ db₂ : DB} {j : String} {s : StateRow} {i : Nat} {e e' : ExecRow} (h : OnBoth db db₁ j s i e)
    (h' : OnExec db₁ db₂ i e') : OnBoth db db₂ j s i e' :=
  ⟨fun k => by rw [h'.defs, h.defs], fun k => by rw [h'.states, h.states], fun k => by
    rw [h'.execs, h.execs]
    split <;> rfl, le_trans h.last h'.last⟩

theorem state {db db₁ db₂ : DB} {j : String} {s s' : StateRow} {i : Nat} {e : ExecRow} (h : OnBoth db db₁ j s i e)
    (h' : OnState db₁ db₂ j s') : OnBoth db db₂ j s' i e :=
  ⟨fun k => by rw [h'.defs, h.defs], fun k => by
    rw [h'.states, h.states]
    split <;> rfl, fun k => by rw [h'.execs, h.execs], le_trans h.last h'.last⟩

theorem attempt {db db' : DB} {j : String} {s : StateRow} {i : Nat} {e : ExecRow} (h : OnBoth db db' j s i e)
    (a : AttemptRow) : OnBoth db (db'.addAttempt a) j s i e :=
  ⟨fun k => by simp [h.defs], fun k => by simp [h.states], fun k => by simp [h.execs],
    by simpa using h.last⟩

theorem audit {db db' : DB} {j : String} {s : StateRow} {i : Nat} {e : ExecRow} (h : OnBoth db db' j s i e)
    (a : AuditRow) : OnBoth db (db'.addAudit a) j s i e :=
  ⟨fun k => by simp [h.defs], fun k => by simp [h.states], fun k => by simp [h.execs], h.last⟩

theorem exec? {db db' : DB} {j : String} {s : StateRow} {i : Nat} {e : ExecRow} (h : OnBoth db db' j s i e) :
    db'.exec? i = some e := by
  rw [h.execs, if_pos rfl]

theorem state? {db db' : DB} {j : String} {s : StateRow} {i : Nat} {e : ExecRow} (h : OnBoth db db' j s i e) :
    db'.state? j = some s := by
  rw [h.states, if_pos rfl]

/-- A row that is there before and after is the one that changed, or as it was. -/
theorem row_cases {db db' : DB} {j : String} {s : StateRow} {i k : Nat} {x e e' : ExecRow} (h : OnBoth db db' j s k x)
    (he : db.exec? i = some e) (he' : db'.exec? i = some e') : (i = k ∧ e' = x) ∨ e' = e := by
  rw [h.execs] at he'
  split at he'
  · rename_i hi
    exact Or.inl ⟨hi, (Option.some.inj he').symm⟩
  · exact Or.inr (Option.some.inj (he'.symm.trans he))

end OnBoth

/-! ## The parts of a commit -/

/-- The state row after `settlePollClock`, for an execution that now holds `e`. -/
inductive PollSettled (c : Ctx) (d : DefinitionRow) (e : ExecRow) : StateRow → StateRow → Prop
  | idle (s : StateRow)
      (h : d.scheduleKind = .fixedDelay → e.jobName = s.jobName → e.triggerType = .poll → e.status.terminal = false) :
      PollSettled c d e s s
  | restart (s : StateRow) (t : Instant) (hk : d.scheduleKind = .fixedDelay) (hd : d.toDefinition.delay = .ok t)
      (hj : e.jobName = s.jobName) (hp : e.triggerType = .poll) (ht : e.status.terminal = true) :
      PollSettled c d e s ((pollWrite (some (datetime (c.now + t)))).run s)

/-- The state row after a release, with the instants of the last outcomes. -/
def StateRow.released (s : StateRow) (ls lf : Option Instant) : StateRow :=
  { s.unlock with lastSuccessAt := ls, lastFailureAt := lf }

/-- The pair an ending acts under, and the two rows it names. -/
structure Closing where
  jobName     : String
  executionId : Nat
  runToken    : String
  fenceEpoch  : Nat

def Action.closing : Action → Option Closing
  | .refuse p n          => some ⟨p.jobName, p.executionId, p.runToken, n⟩
  | .complete h _        => some ⟨h.jobName, h.executionId, h.runToken, h.fenceEpoch⟩
  | .retry h _ _         => some ⟨h.jobName, h.executionId, h.runToken, h.fenceEpoch⟩
  | .resolve v _         => some ⟨v.jobName, v.id, v.runToken, v.fenceEpoch⟩
  | .fenceTimedOut v     => some ⟨v.jobName, v.id, v.runToken, v.fenceEpoch⟩
  | .expireSilent v      => some ⟨v.jobName, v.id, v.runToken, v.fenceEpoch⟩
  | .releaseAsOwner h    => some ⟨h.jobName, h.executionId, h.runToken, h.fenceEpoch⟩
  | _                    => none

/-- The holder in whose name a call ends an attempt and writes its history; a refusal writes none. -/
def Action.ending : Action → Option Holder
  | .complete h _     => some h
  | .retry h _ _      => some h
  | .resolve v _      => some v.holder
  | .fenceTimedOut v  => some v.holder
  | .expireSilent v   => some v.holder
  | .releaseAsOwner h => some h
  | _                 => none

/-- What it writes there: the executor's outcome, or that the scheduler does not know it. -/
def Action.Records (o : Outcome) : Action → Prop
  | .complete _ r     => o = r.clipped
  | .retry _ r _      => o = r.clipped
  | .resolve _ _      => o.attemptOutcome = .unknown
  | .fenceTimedOut _  => o.attemptOutcome = .fenced
  | .expireSilent _   => o.attemptOutcome = .unknown
  | .releaseAsOwner _ => o.attemptOutcome = .unknown
  | _                 => False

/-- Row `i` is a poll pass of the job, and has not ended. -/
structure DB.Pass (db : DB) (j : String) (i : Nat) (e : ExecRow) : Prop where
  row  : db.exec? i = some e
  job  : e.jobName = j
  poll : e.triggerType = .poll
  live : e.status.terminal = false

def DB.Outstanding (db : DB) (j : String) : Prop := ∃ i e, db.Pass j i e

/-- The clocks `normalizeClocks` decides on. -/
inductive Clocks (c : Ctx) (db : DB) (compile : Compile) (s : StateRow) (d : DefinitionRow) :
    Option Instant → Option Instant → Prop
  | parked (h : d.enabled = false ∨ d.retired = true) : Clocks c db compile s d none none
  | cron (sched : Schedule) (next : Instant) (he : d.enabled = true) (hr : d.retired = false)
      (hk : d.scheduleKind = .cron) (hc : compile d.toDefinition = .ok sched) (hn : sched.next (c.now - 1) = .ok next) :
      Clocks c db compile s d (some (datetime next)) none
  | running (t : Instant) (he : d.enabled = true) (hr : d.retired = false) (hk : d.scheduleKind = .fixedDelay)
      (ht : s.nextPollAt = some t) : Clocks c db compile s d none (some t)
  | out (he : d.enabled = true) (hr : d.retired = false) (hk : d.scheduleKind = .fixedDelay)
      (ht : s.nextPollAt = none) (ho : db.Outstanding d.jobName) : Clocks c db compile s d none none
  | start (he : d.enabled = true) (hr : d.retired = false) (hk : d.scheduleKind = .fixedDelay)
      (ht : s.nextPollAt = none) (ho : ¬ db.Outstanding d.jobName) : Clocks c db compile s d none (some c.now)

/-- An enabled cron job whose clock was computed from its present definition. -/
structure InDateCron (s : StateRow) (d : DefinitionRow) : Prop where
  enabled : d.enabled = true
  retired : d.retired = false
  kind    : d.scheduleKind = .cron
  version : s.configVersion = d.version

/-- What a due cron pass decides: the instant it deals with, whether it creates its execution, and the next one. -/
structure DuePass (c : Ctx) (compile : Compile) (grace : Instant) (d : DefinitionRow) (due : Instant)
    (fireAt : Instant) (create : Bool) (next : Instant) : Prop where
  reached : due ≤ c.now
  choice  : ∃ sched, compile d.toDefinition = .ok sched ∧
    (∃ n exact_, sched.countBetween (due - 1) (c.now - grace - 1) missedCountLimit = .ok (n, exact_) ∧
      ((n = 0 ∧ fireAt = due ∧ create = true) ∨
       (n ≠ 0 ∧ d.misfire = .skip ∧ fireAt = due ∧ create = false) ∨
       (n ≠ 0 ∧ d.misfire = .fireOnce ∧
         ((sched.latest (c.now - grace - 1) misfireHorizon = .ok none ∧ fireAt = due ∧ create = false) ∨
          (sched.latest (c.now - grace - 1) misfireHorizon = .ok (some fireAt) ∧ create = true))))) ∧
    sched.next (if create = false ∧ d.misfire = .skip then c.now else fireAt) = .ok next

/-- The moves of a state row that leave ownership alone.  A pass that found its instant's key taken only advances. -/
inductive ClockMove (env : Env) (c : Ctx) (db : DB) (d : DefinitionRow) : Action → StateRow → StateRow → Prop
  | recompute {compile s} (fire poll : Option Instant) (h : Clocks c db compile s d fire poll) :
      ClockMove env c db d (.recompute d.jobName compile) s ((normalizeWrite fire poll d.version).run s)
  | cronDrift {compile grace s} (fire poll : Option Instant) (hd : ¬ InDateCron s d)
      (h : Clocks c db compile s d fire poll) :
      ClockMove env c db d (.materializeCron d.jobName compile grace) s ((normalizeWrite fire poll d.version).run s)
  | pollDrift {key compile s} (fire poll : Option Instant) (h : Clocks c db compile s d fire poll) :
      ClockMove env c db d (.materializePoll d.jobName key compile) s ((normalizeWrite fire poll d.version).run s)
  | advance {compile grace s} (due fireAt next : Instant) (create : Bool) (hd : InDateCron s d)
      (hf : s.nextFireAt = some due) (hp : DuePass c compile grace d due fireAt create next)
      (hk : create = true → ∃ i e, db.exec? i = some e ∧ cronExecutionKey env d.jobName fireAt = some e.executionKey) :
      ClockMove env c db d (.materializeCron d.jobName compile grace) s ((advanceWrite next d.version).run s)

/-- The executions a transaction creates, and what it does to the clock that made them due. -/
inductive Creates (env : Env) (c : Ctx) (d : DefinitionRow) : Action → StateRow → StateRow → ExecRow → Prop
  | cron {j compile grace s} (key : String) (id : Nat) (due fireAt next : Instant) (hd : InDateCron s d)
      (hf : s.nextFireAt = some due) (hp : DuePass c compile grace d due fireAt true next)
      (hk : cronExecutionKey env j fireAt = some key) :
      Creates env c d (.materializeCron j compile grace) s ((advanceWrite next d.version).run s)
        (NewExecution.row ⟨some key, j, .cron, "", fireAt, fireAt, d.maxAttempts, d.maxRecoveries,
          d.toDefinition.params⟩ key id)
  | poll {j key compile s} (id : Nat) (t : Instant) (he : d.enabled = true) (hr : d.retired = false)
      (hk : d.scheduleKind = .fixedDelay) (hv : s.configVersion = d.version) (ht : s.nextPollAt = some t)
      (hd : t ≤ c.now) :
      Creates env c d (.materializePoll j key compile) s ((pollWrite none).run s)
        (NewExecution.row ⟨some key, j, .poll, "", c.now, c.now, d.maxAttempts, d.maxRecoveries,
          d.toDefinition.params⟩ key id)
  | manual {j r x y params s} (key merged : String) (id : Nat) (hr : d.retired = false)
      (hk : executionKey env "m" j r = some key) :
      Creates env c d (.trigger j r x y params) s s
        (NewExecution.row ⟨some key, j, .manual, r, c.now, c.now, d.maxAttempts, d.maxRecoveries, merged⟩ key id)

/-- One definition created with its state row, or edited. -/
inductive CatalogStep (c : Ctx) (db db' : DB) : Prop
  | create (d : Definition) (next : Instant) (actor : String) (hp : d.Passes) (hd : db.def? d.jobName = none)
      (hs : db.state? d.jobName = none)
      (hdefs : ∀ k, db'.def? k = if d.jobName = k then some (newDefinition d actor hp) else db.def? k)
      (hstates : ∀ k, db'.state? k = if d.jobName = k then some (newState c d next) else db.state? k)
      (hexecs : ∀ k, db'.exec? k = db.exec? k) (hlast : db.executions.lastId ≤ db'.executions.lastId)
  | edit (j : String) (d : DefinitionRow) (w : DefinitionWrite) (hd : db.def? j = some d)
      (hret : (w.run d).retired = d.retired)
      (hdefs : ∀ k, db'.def? k = if k = j then some (w.run d) else db.def? k)
      (hstates : ∀ k, db'.state? k = db.state? k) (hexecs : ∀ k, db'.exec? k = db.exec? k)
      (hlast : db.executions.lastId ≤ db'.executions.lastId)
  | audit (hdefs : ∀ k, db'.def? k = db.def? k) (hstates : ∀ k, db'.state? k = db.state? k)
      (hexecs : ∀ k, db'.exec? k = db.exec? k) (hlast : db.executions.lastId ≤ db'.executions.lastId)

/-! ## Commits -/

/-- **An attempt ends**: its lock is released, its row moves, and its history is written unless it was refused. -/
inductive Closes (c : Ctx) (db : DB) : Action → DB → Prop
  | intro {a q d s s' e e' db'} (ls lf : Option Instant) (ha : a.closing = some q)
      (hd : db.def? q.jobName = some d) (hs : db.state? q.jobName = some s) (he : db.exec? q.executionId = some e)
      (ho : s.owned q.runToken q.fenceEpoch = true) (hr : e.owned q.runToken q.fenceEpoch = true)
      (hm : ExecMove c a e e') (hp : PollSettled c d e' (s.released ls lf) s')
      (hf : OnBoth db db' q.jobName s' q.executionId e')
      (hrec : ∀ k, a.ending = some k → ∃ o, a.Records o ∧
        db'.attempts = (db.addAttempt (o.attemptRow c k e'.attemptNo)).attempts) : Closes c db a db'

/-- **What one committed call did.** -/
inductive Commit (env : Env) (c : Ctx) (db : DB) : Action → DB → Prop
  | idle {a db'} (hdefs : ∀ k, db'.def? k = db.def? k) (hstates : ∀ k, db'.state? k = db.state? k)
      (hexecs : ∀ k, db'.exec? k = db.exec? k) (hlast : db.executions.lastId ≤ db'.executions.lastId) :
      Commit env c db a db'
  | exec {a i e e' db'} (he : db.exec? i = some e) (hm : ExecMove c a e e') (hl : e'.status.held = e.status.held)
      (hopen : e.status.terminal = false) (hlive : e'.status.terminal = false) (ht : e'.runToken = e.runToken)
      (hn : e'.fenceEpoch = e.fenceEpoch) (hf : OnExec db db' i e') : Commit env c db a db'
  | expire {p r e e' db'} (he : db.exec? p.executionId = some e) (hm : ExecMove c (.claim p r) e e')
      (ht : e'.status = .dead) (hf : OnExec db db' p.executionId e') : Commit env c db (.claim p r) db'
  | acquire {p r s e db'} (lease timeout : Int) (hs : db.state? p.jobName = some s)
      (he : db.exec? p.executionId = some e) (hj : e.jobName = p.jobName) (hk : e.executionKey = p.executionKey)
      (hfree : s.activeKind = none) (hready : e.status = .ready) (hb : e.attemptNo < e.maxAttempts)
      (hc : past e.timeoutAt (c.utc 2) = false)
      (hf : OnBoth db db' p.jobName ((acquireWrite p (s.fenceEpoch + 1) lease (c.utc 3)).run s) p.executionId
        ((dispatchWrite p (s.fenceEpoch + 1) lease timeout (c.utc 4)).run e)) :
      Commit env c db (.claim p r) db'
  | renew {h l s e db'} (hs : db.state? h.jobName = some s) (he : db.exec? h.executionId = some e)
      (ho : s.owned h.runToken h.fenceEpoch = true)
      (hm : ExecMove c (.renew h l) e ((renewWrite l (c.utc 1)).run e))
      (hf : OnBoth db db' h.jobName ((renewLockWrite l (c.utc 0)).run s) h.executionId
        ((renewWrite l (c.utc 1)).run e)) : Commit env c db (.renew h l) db'
  | adopt {v o l x p s e e' db'} (hs : db.state? v.jobName = some s) (he : db.exec? v.id = some e)
      (ho : s.owned v.runToken v.fenceEpoch = true) (hl : past s.leaseUntil (c.utc 2) = true)
      (hm : ExecMove c (.adopt v o l x p) e e')
      (hf : OnBoth db db' v.jobName ((adoptLockWrite o (v.fenceEpoch + 1) l (c.utc 2)).run s) v.id e') :
      Commit env c db (.adopt v o l x p) db'
  | close {a db'} (h : Closes c db a db') : Commit env c db a db'
  | skip {p r d s s' e e' db'} (hd : db.def? p.jobName = some d) (hs : db.state? p.jobName = some s)
      (he : db.exec? p.executionId = some e) (hm : ExecMove c (.claim p r) e e') (ht : e'.status = .skipped)
      (hl : s.activeKind ≠ none) (hp : PollSettled c d e' s s') (hf : OnBoth db db' p.jobName s' p.executionId e') :
      Commit env c db (.claim p r) db'
  | clock {a j d s s' db'} (hd : db.def? j = some d) (hs : db.state? j = some s) (hm : ClockMove env c db d a s s')
      (hf : OnState db db' j s') : Commit env c db a db'
  | pause {j b x y s db'} (hs : db.state? j = some s) (hf : OnState db db' j ((pauseWrite b).run s)) :
      Commit env c db (.setPaused j b x y) db'
  | create {a j d s s' e db'} (hd : db.def? j = some d) (hs : db.state? j = some s) (hj : e.jobName = j)
      (hm : Creates env c d a s s' e) (hi : db.executions.lastId < e.id)
      (hk : ∀ i e₀, db.exec? i = some e₀ → e₀.executionKey ≠ e.executionKey)
      (hf : OnBoth db db' j s' e.id e) : Commit env c db a db'
  | retire {j x y d db'} (hd : db.def? j = some d) (hr : d.retired = false)
      (hdefs : ∀ k, db'.def? k = if k = j then some ((retireWrite x).run d) else db.def? k)
      (hstates : ∀ k, db'.state? k = db.state? k)
      (hrows : ∀ i e, db.exec? i = some e → ∃ e', db'.exec? i = some e' ∧
        ((e' = e ∧ (e.jobName = j → e.status.terminal = true ∨ e.status = .cancelRequested)) ∨
          ExecMove c (.retire j x y) e e'))
      (hnew : ∀ i, db.exec? i = none → db'.exec? i = none)
      (hlast : db.executions.lastId ≤ db'.executions.lastId) : Commit env c db (.retire j x y) db'
  | reap {s o l db'} (hdefs : ∀ k, db'.def? k = db.def? k) (hstates : ∀ k, db'.state? k = db.state? k)
      (hrows : ∀ i e, db.exec? i = some e → db'.exec? i = some e ∨ (db'.exec? i = none ∧
        e.expired (c.now - s) (c.now - o) = true)) (hnew : ∀ i, db.exec? i = none → db'.exec? i = none)
      (hs : 0 < s) (ho : 0 < o) (hlast : db.executions.lastId ≤ db'.executions.lastId) :
      Commit env c db (.reapExecutions s o l) db'
  | revive {j k x y d i e db'} (hd : db.def? j = some d) (hr : d.retired = false) (he : db.exec? i = some e)
      (hm : ExecMove c (.authorizedRetry j k x y) e ((reviveWrite c).run e))
      (hf : OnExec db db' i ((reviveWrite c).run e)) : Commit env c db (.authorizedRetry j k x y) db'
  | catalog {a db'} (h : Relation.ReflTransGen (CatalogStep c) db db') : Commit env c db a db'

end GoJob
