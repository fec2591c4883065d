import GoJob.Store
/-!
# Complete — how an attempt ends (`complete.go`)

Every ending takes the job's state row first: it releases the lock under the holder's token and epoch, moves the
execution row under the same two, appends the attempt's history and restarts the poll clock if the row was a poll pass.
-/
namespace GoJob

open Rel

/-- `store.Holder`: one attempt's ownership. -/
structure Holder where
  jobName      : String
  executionId  : Nat
  executionKey : String
  owner        : String
  runToken     : String
  fenceEpoch   : Nat
  deriving DecidableEq, Repr

/-- `active_run_token = token AND fence_epoch = epoch`. -/
def StateRow.owned (s : StateRow) (token : String) (epoch : Nat) : Bool :=
  decide (s.activeRunToken = some token) && decide (s.fenceEpoch = epoch)

/-- `run_token = token AND fence_epoch = epoch`. -/
def ExecRow.owned (e : ExecRow) (token : String) (epoch : Nat) : Bool :=
  decide (e.runToken = some token) && decide (e.fenceEpoch = epoch)

/-- A claimed row that no executor has accepted yet, under one token and epoch. -/
def ExecRow.unaccepted (e : ExecRow) (token : String) (epoch : Nat) : Bool :=
  decide (e.status = .dispatching) && e.owned token epoch

@[simp] theorem StateRow.owned_iff {s : StateRow} {token : String} {epoch : Nat} :
    s.owned token epoch = true ↔ s.activeRunToken = some token ∧ s.fenceEpoch = epoch := by
  simp [StateRow.owned]

@[simp] theorem ExecRow.owned_iff {e : ExecRow} {token : String} {epoch : Nat} :
    e.owned token epoch = true ↔ e.runToken = some token ∧ e.fenceEpoch = epoch := by
  simp [ExecRow.owned]

/-- `under token %s epoch %d`, the end of every fencing error. -/
def underToken (token : String) (epoch : Nat) : String := " under token " ++ token ++ " epoch " ++ toString epoch

def execution (i : Nat) : String := "execution " ++ toString i

/-! ## Outcomes -/

/-- `store.Outcome`; a zero `time.Time` is `none`. -/
structure Outcome where
  status         : Status := .ready
  terminalReason : TerminalReason := .empty
  attemptOutcome : AttemptOutcome
  failureKind    : String := ""
  errorMessage   : String := ""
  resultSummary  : String := ""
  executorId     : String := ""
  startedAt      : Option Instant := none
  finishedAt     : Option Instant := none
  deriving DecidableEq, Repr

/-- `clip`: at most `n` characters.  `len(s)` counts bytes. -/
def clip (s : String) (n : Nat) : String :=
  if s.utf8ByteSize ≤ n then s
  else if s.toList.length ≤ n then s
  else String.ofList (s.toList.take n)

def maxFailureKind : Nat := 48

def maxMessage : Nat := 512

def Outcome.clipped (o : Outcome) : Outcome :=
  { o with
    failureKind := clip o.failureKind maxFailureKind
    errorMessage := clip o.errorMessage maxMessage
    resultSummary := clip o.resultSummary maxMessage }

/-! ## The steps of an ending -/

/-- The columns every release clears. -/
def StateRow.unlock (s : StateRow) : StateRow :=
  { s with
    writeSeq := s.writeSeq + 1
    activeKind := none
    activeExecution := none
    activeOwner := none
    activeRunToken := none
    dispatchedTo := none
    leaseUntil := none }

def releaseWrite (c : Ctx) (succeeded : Bool) : StateWrite where
  run s := { s.unlock with
    lastSuccessAt := if succeeded then some c.now else s.lastSuccessAt
    lastFailureAt := if succeeded then s.lastFailureAt else some c.now }
  jobName _ := rfl
  seq _ := rfl

def releaseJobLock (c : Ctx) (h : Holder) (succeeded : Bool) : StoreM Unit :=
  casState h.jobName (fun s => s.owned h.runToken h.fenceEpoch) (releaseWrite c succeeded) .fenced
    ("job " ++ h.jobName.quote ++ " lock not held" ++ underToken h.runToken h.fenceEpoch)

def chargeWrite (c : Ctx) : ExecWrite where
  run e := { e with
    writeSeq := e.writeSeq + 1
    attemptNo := e.attemptNo + 1
    startedAt := some (e.startedAt.getD c.now) }
  info _ := rfl
  seq _ := rfl

/-- `chargeUnacceptedAttempt`: a result proves a handler started, also when nobody recorded the acceptance. -/
def chargeUnacceptedAttempt (c : Ctx) (h : Holder) : StoreM Unit :=
  tryExec h.executionId (fun e => e.unaccepted h.runToken h.fenceEpoch) (chargeWrite c) "charge"

/-- `recordAttempt`: the attempt's history, first write wins. -/
def recordAttempt (c : Ctx) (h : Holder) (o : Outcome) : StoreM Unit := do
  let db ← get
  match db.exec? h.executionId with
  | none => fail .other ("read attempt ordinal of " ++ execution h.executionId)
  | some e =>
    set (db.addAttempt {
      executionKey := h.executionKey
      runToken := h.runToken
      attemptNo := e.attemptNo
      executorId := nullString o.executorId
      startedAt := o.startedAt.map datetime
      finishedAt := some (datetime (o.finishedAt.getD c.now))
      outcome := o.attemptOutcome
      failureKind := nullString o.failureKind
      summary := nullString o.resultSummary })

/-- The row it inserts, under the ordinal it read. -/
def Outcome.attemptRow (o : Outcome) (c : Ctx) (h : Holder) (attemptNo : Nat) : AttemptRow where
  executionKey := h.executionKey
  runToken := h.runToken
  attemptNo := attemptNo
  executorId := nullString o.executorId
  startedAt := o.startedAt.map datetime
  finishedAt := some (datetime (o.finishedAt.getD c.now))
  outcome := o.attemptOutcome
  failureKind := nullString o.failureKind
  summary := nullString o.resultSummary

theorem recordAttempt_ok {c : Ctx} {h : Holder} {o : Outcome} {db db' : DB} {u : Unit}
    (hr : recordAttempt c h o db = .ok (u, db')) :
    ∃ e, db.exec? h.executionId = some e ∧ db' = db.addAttempt (o.attemptRow c h e.attemptNo) := by
  have h₂ := Tx.get_bind_ok.1 hr
  cases he : db.exec? h.executionId with
  | none => simp [he, fail] at h₂
  | some e =>
    simp only [he, Tx.set_ok, Prod.mk.injEq] at h₂
    exact ⟨e, rfl, h₂.2.symm⟩

def pollWrite (at_ : Option Instant) : StateWrite where
  run s := { s with writeSeq := s.writeSeq + 1, nextPollAt := at_ }
  jobName _ := rfl
  seq _ := rfl

/-- `settlePollClock`: a finished poll pass restarts the clock; for anything else this does nothing. -/
def settlePollClock (c : Ctx) (j : String) (i : Nat) : StoreM Unit := do
  let d ← readDefinition j
  if d.scheduleKind ≠ .fixedDelay then
    return
  match d.delay with
  | .error e => throw e
  | .ok delay =>
    let db ← get
    let n ← updateState j (fun s => db.passEnded s.jobName i) (pollWrite (some (datetime (c.now + delay))))
    if n > 1 then fail .protocol ("poll clock settle affected " ++ toString n ++ " rows")

/-- What `settlePollClock` leaves: the clock restarted after a pass of a fixed-delay job, or nothing changed. -/
inductive Settled (c : Ctx) (db : DB) (j : String) (i : Nat) : DB → Prop
  | idle (d : DefinitionRow) (hd : db.def? j = some d)
      (hp : d.scheduleKind = .fixedDelay → (db.state? j).isSome → db.passEnded j i = false) : Settled c db j i db
  | restart (d : DefinitionRow) (t : Instant) (hd : db.def? j = some d) (hk : d.scheduleKind = .fixedDelay)
      (ht : d.toDefinition.delay = .ok t) (hp : db.passEnded j i = true) :
      Settled c db j i (db.setState j (pollWrite (some (datetime (c.now + t)))))

theorem settlePollClock_ok {c : Ctx} {j : String} {i : Nat} {db db' : DB} {u : Unit}
    (h : settlePollClock c j i db = .ok (u, db')) : Settled c db j i db' := by
  obtain ⟨_, _, h₁, h₂⟩ := Tx.bind_ok.1 h
  obtain ⟨⟨d, hd, rfl⟩, rfl⟩ := readDefinition_ok h₁
  simp only [DefinitionRow.toDefinition_scheduleKind] at h₂
  rcases Tx.ite_ok.1 h₂ with ⟨hk, h₂⟩ | ⟨hk, h₂⟩
  · obtain rfl : db = db' := by simpa using h₂
    exact .idle d hd (fun hk' => absurd hk' hk)
  · have hk := not_not.1 hk
    cases hdelay : d.toDefinition.delay with
    | error err => simp [hdelay] at h₂
    | ok delay =>
      simp only [hdelay] at h₂
      replace h₂ := Tx.get_bind_ok.1 h₂
      obtain ⟨n, db₁, h₄, h₂⟩ := Tx.bind_ok.1 h₂
      rcases updateState_ok h₄ with ⟨s, hs, hg, rfl, rfl⟩ | ⟨hg, rfl, rfl⟩
      · obtain rfl : db.setState j (pollWrite (some (datetime (c.now + delay)))) = db' := by simpa using h₂
        rw [DB.state?_jobName hs] at hg
        exact .restart d delay hd hk hdelay hg
      · obtain rfl : db = db' := by simpa using h₂
        refine .idle d hd (fun _ hst => ?_)
        obtain ⟨s, hs⟩ := Option.isSome_iff_exists.1 hst
        have := hg s hs
        rwa [DB.state?_jobName hs] at this

/-! ## The transactions -/

def completeWrite (c : Ctx) (o : Outcome) : ExecWrite where
  run e := { e with
    writeSeq := e.writeSeq + 1
    status := o.status
    terminalReason := some o.terminalReason
    finishedAt := some c.now
    failureKind := nullString o.failureKind
    errorMessage := nullString o.errorMessage
    resultSummary := nullString o.resultSummary
    leaseUntil := none }
  info _ := rfl
  seq _ := rfl

/-- The guard of both result writes: a held row of this attempt, whose runtime cap has not elapsed. -/
def ExecRow.reportable (e : ExecRow) (h : Holder) (u : Utc) : Bool :=
  e.status.held && e.owned h.runToken h.fenceEpoch && !past e.timeoutAt u

def complete (c : Ctx) (h : Holder) (o : Outcome) : StoreM Unit := do
  if o.status.terminal = false then
    fail .protocol ("Complete called with non-terminal status " ++ o.status.text.quote)
  else
    let o := o.clipped
    releaseJobLock c h (decide (o.status = .success))
    chargeUnacceptedAttempt c h
    casExec h.executionId (fun e => e.reportable h (c.utc 2)) (completeWrite c o) .fenced
      (execution h.executionId ++ " result refused" ++ underToken h.runToken h.fenceEpoch)
    recordAttempt c h o
    settlePollClock c h.jobName h.executionId

/-- `IF(attempt_no >= max_attempts, 'dead', 'ready')` and the columns that follow it. -/
def retryWrite (c : Ctx) (o : Outcome) (backoffSeconds : Int) : ExecWrite where
  run e :=
    let spent := decide (e.maxAttempts ≤ e.attemptNo)
    { e with
      writeSeq := e.writeSeq + 1
      status := if spent then .dead else .ready
      terminalReason := if spent then some .budgetExhausted else none
      finishedAt := if spent then some c.now else none
      availableAt := if spent then e.availableAt else c.now + backoffSeconds * second
      timeoutAt := if spent then e.timeoutAt else none
      ownerInstance := none
      dispatchedTo := none
      runToken := none
      leaseUntil := none
      heartbeatAt := none
      deadlineAt := none
      failureKind := nullString o.failureKind
      errorMessage := nullString o.errorMessage }
  info _ := rfl
  seq _ := rfl

def retry (c : Ctx) (h : Holder) (o : Outcome) (backoffSeconds : Int) : StoreM Unit := do
  let o := o.clipped
  releaseJobLock c h false
  chargeUnacceptedAttempt c h
  casExec h.executionId (fun e => e.reportable h (c.utc 2)) (retryWrite c o backoffSeconds) .fenced
    (execution h.executionId ++ " retry refused" ++ underToken h.runToken h.fenceEpoch)
  recordAttempt c h o
  settlePollClock c h.jobName h.executionId

/-- `Attempt`: the answer to a redelivered result. -/
def attempt (executionKey runToken : String) : StoreM AttemptRow := do
  match (← get).attempt? executionKey runToken with
  | none => fail .noSuchAttempt (executionKey ++ "/" ++ runToken)
  | some a => pure a

def audit (c : Ctx) (actor action jobName executionKey detail : String) : StoreM Unit := do
  let db ← get
  set (db.addAudit {
    actor := actor
    action := action
    jobName := nullString jobName
    execution := nullString executionKey
    detail := nullString detail
    createdAt := c.now })

theorem audit_ok {c : Ctx} {actor action jobName key detail : String} {db db' : DB} {u : Unit}
    (h : audit c actor action jobName key detail db = .ok (u, db')) : ∃ a, db' = db.addAudit a := by
  have h₂ := Tx.get_bind_ok.1 h
  exact ⟨_, Eq.symm (by simpa using h₂)⟩

def cancelWrite : ExecWrite where
  run e := { e with writeSeq := e.writeSeq + 1, status := .cancelRequested }
  info _ := rfl
  seq _ := rfl

/-- `RequestCancel`: the execution keeps its lease and the job keeps its lock. -/
def requestCancel (c : Ctx) (i : Nat) (actor reason : String) : StoreM Unit := do
  if actor = "" ∨ reason = "" then
    fail .protocol "a cancel needs an actor and a reason"
  else
    match (← get).exec? i with
    | none => fail .noSuchExecution (execution i)
    | some e =>
      casExec i (fun e => e.status.cancellable) cancelWrite .contended
        (execution i ++ " is not in a cancellable state")
      audit c actor "cancel_requested" e.jobName e.executionKey
        (reason ++ " (the execution keeps its lease until it stops or is fenced)")

end GoJob
