import GoJob.Complete
/-!
# Recovery — attempts their owner cannot end (`recovery.go`)

Each of these re-reads the state row and the execution under the lock and gives up if either has moved on since the
scan.  `Adopt` keeps the run token and raises the epoch; the others end the attempt.
-/
namespace GoJob

open Rel

/-- The state row is still held under the pair the scan read. -/
def StateRow.stillHeld (s : StateRow) (token : String) (epoch : Nat) : Bool :=
  s.held && decide (s.activeRunToken.getD "" = token) && decide (s.fenceEpoch = epoch)

/-- The execution still carries the pair the scan read. -/
def Stale.still (cur : Stale) (token : String) (epoch : Nat) : Bool :=
  decide (cur.runToken = token) && decide (cur.fenceEpoch = epoch)

/-! ## Adopt -/

def adoptLockWrite (newOwner : String) (epoch : Nat) (leaseSeconds : Int) (u : Utc) : StateWrite where
  run s := { s with
    writeSeq := s.writeSeq + 1
    activeOwner := some newOwner
    fenceEpoch := epoch
    leaseUntil := some (u + leaseSeconds)
    heartbeatAt := some u }
  jobName _ := rfl
  seq _ := rfl

def adoptWrite (c : Ctx) (newOwner : String) (epoch : Nat) (leaseSeconds silenceSeconds : Int) (promoteNow : Bool)
    (u : Utc) : ExecWrite where
  run e := { e with
    writeSeq := e.writeSeq + 1
    ownerInstance := some newOwner
    fenceEpoch := epoch
    attemptNo := if promoteNow then e.attemptNo + 1 else e.attemptNo
    startedAt := if promoteNow then some (e.startedAt.getD c.now) else e.startedAt
    deadlineAt := if promoteNow then some (u + silenceSeconds) else e.deadlineAt
    status := if promoteNow then .running else e.status
    leaseUntil := some (u + leaseSeconds)
    heartbeatAt := some u }
  info _ := rfl
  seq _ := rfl

def adopt (c : Ctx) (v : Stale) (newOwner : String) (leaseSeconds silenceSeconds : Int) (promote : Bool) :
    StoreM Nat := do
  let s ← lockState c v.jobName
  if s.stillHeld v.runToken v.fenceEpoch = false then
    fail .contended ("job " ++ v.jobName.quote ++ " was recovered by another instance")
  else
    let cur ← lockExecution v.id (c.utc 1)
    if cur.still v.runToken v.fenceEpoch = false then
      fail .contended (execution v.id ++ " was recovered by another instance")
    else if cur.timeoutExpired then
      fail .capElapsed (execution v.id ++ " passed its runtime cap during reconciliation")
    else
      let epoch := v.fenceEpoch + 1
      mustState v.jobName (fun s => s.owned v.runToken v.fenceEpoch && past s.leaseUntil (c.utc 2))
        (adoptLockWrite newOwner epoch leaseSeconds (c.utc 2)) "adopt: job lock"
      let promoteNow := promote && decide (cur.status = .dispatching)
      mustExec v.id (fun e => e.status.held && e.owned v.runToken v.fenceEpoch)
        (adoptWrite c newOwner epoch leaseSeconds silenceSeconds promoteNow (c.utc 3)) "adopt: execution"
      return epoch

/-! ## Resolve -/

def resolvedStatus (v : Stale) : Status :=
  if v.status = .cancelRequested then .cancelled
  else if v.timeoutExpired then .dead
  else if v.maxAttempts ≤ v.attemptNo ∨ v.maxRecoveries ≤ v.recoveryCount + 1 then .dead
  else .ready

/-- The terminal reason `Resolve` stores; Go's `""` becomes NULL. -/
def resolvedReason (cur : Stale) (landed : Status) : Option TerminalReason :=
  match landed with
  | .dead  => some (if cur.timeoutExpired then .timeout else .budgetExhausted)
  | .ready => none
  | _      => some .fenced

def resolveReleaseWrite (c : Ctx) : StateWrite where
  run s := { s.unlock with lastFailureAt := some c.now }
  jobName _ := rfl
  seq _ := rfl

def resolveWrite (c : Ctx) (landed : Status) (reason : Option TerminalReason) (backoffSeconds : Int) : ExecWrite where
  run e := { e with
    writeSeq := e.writeSeq + 1
    status := landed
    terminalReason := reason
    finishedAt := if landed = .ready then none else some c.now
    availableAt := if landed = .ready then c.now + backoffSeconds * second else e.availableAt
    timeoutAt := if landed = .ready then none else e.timeoutAt
    fenceEpoch := e.fenceEpoch + 1
    recoveryCount := e.recoveryCount + 1
    ownerInstance := none
    dispatchedTo := none
    runToken := none
    leaseUntil := none
    heartbeatAt := none
    deadlineAt := none }
  info _ := rfl
  seq _ := rfl

/-- The holder recovery and the callbacks act for. -/
def Stale.holder (v : Stale) : Holder where
  jobName := v.jobName
  executionId := v.id
  executionKey := v.executionKey
  owner := ""
  runToken := v.runToken
  fenceEpoch := v.fenceEpoch

def resolve (c : Ctx) (v : Stale) (backoffSeconds : Int) : StoreM Status := do
  let s ← lockState c v.jobName
  if s.stillHeld v.runToken v.fenceEpoch = false then
    fail .contended ("job " ++ v.jobName.quote ++ " was recovered by another instance")
  else
    let cur ← lockExecution v.id (c.utc 1)
    if cur.still v.runToken v.fenceEpoch = false then
      fail .contended (execution v.id ++ " was recovered by another instance")
    else if cur.status.terminal then
      fail .contended (execution v.id ++ " reached " ++ cur.status.text ++ " before recovery ran")
    else
      mustState v.jobName (fun s => s.owned v.runToken v.fenceEpoch && past s.leaseUntil (c.utc 2))
        (resolveReleaseWrite c) "resolve: release job lock"
      let landed := resolvedStatus cur
      mustExec v.id (fun e => e.status.held && e.owned v.runToken v.fenceEpoch)
        (resolveWrite c landed (resolvedReason cur landed) backoffSeconds) "resolve: execution"
      recordAttempt c v.holder {
        attemptOutcome := .unknown
        executorId := v.dispatchedTo
        finishedAt := some c.now
        failureKind := "lease_expired"
        resultSummary := "scheduler lost ownership; executor could not confirm the outcome" }
      settlePollClock c v.jobName v.id
      return landed

/-! ## Endings of a live lease -/

/-- Where an attempt the scheduler ends lands: a cancel outranks the failure. -/
def endedStatus (cur : Stale) : Status := if cur.status = .cancelRequested then .cancelled else .dead

/-- The columns `FenceTimedOut` and `ExpireSilent` set. -/
def fenceWrite (c : Ctx) (landed : Status) (reason : TerminalReason) (kind message : String) : ExecWrite where
  run e := { e with
    writeSeq := e.writeSeq + 1
    status := landed
    terminalReason := some reason
    finishedAt := some c.now
    failureKind := some kind
    errorMessage := some message
    fenceEpoch := e.fenceEpoch + 1
    leaseUntil := none
    heartbeatAt := none
    deadlineAt := none }
  info _ := rfl
  seq _ := rfl

def fenceTimedOut (c : Ctx) (v : Stale) : StoreM Unit := do
  let s ← lockState c v.jobName
  if s.stillHeld v.runToken v.fenceEpoch = false then
    fail .contended ("job " ++ v.jobName.quote ++ " moved on before the cap was applied")
  else
    let cur ← lockExecution v.id (c.utc 1)
    if cur.still v.runToken v.fenceEpoch = false then
      fail .contended (execution v.id ++ " moved on before the cap was applied")
    else if cur.status.terminal then
      fail .contended (execution v.id ++ " reached " ++ cur.status.text ++ " before the cap was applied")
    else
      let landed := endedStatus cur
      let reason := if cur.status = .cancelRequested then TerminalReason.fenced else .timeout
      let summary :=
        if cur.status = .cancelRequested then "cancel requested, then the runtime cap elapsed; side effects unverified"
        else "runtime cap elapsed; side effects unverified"
      releaseJobLock c v.holder false
      mustExec v.id (fun e => e.status.held && e.owned v.runToken v.fenceEpoch)
        (fenceWrite c landed reason "timeout" "runtime cap elapsed; execution fenced by the scheduler")
        "fence timed out: terminal CAS"
      recordAttempt c v.holder {
        attemptOutcome := .fenced
        executorId := v.dispatchedTo
        finishedAt := some c.now
        failureKind := "timeout"
        resultSummary := summary }
      settlePollClock c v.jobName v.id

def expireSilent (c : Ctx) (v : Stale) : StoreM Unit := do
  let s ← lockState c v.jobName
  if s.stillHeld v.runToken v.fenceEpoch = false then
    fail .contended ("job " ++ v.jobName.quote ++ " moved on")
  else
    let cur ← lockExecution v.id (c.utc 1)
    if cur.still v.runToken v.fenceEpoch = false ∨ cur.status.terminal then
      fail .contended (execution v.id ++ " moved on")
    else if cur.silenceExpired = false then
      fail .contended (execution v.id ++ " reported progress during reconciliation")
    else
      releaseJobLock c v.holder false
      mustExec v.id
        (fun e => (decide (e.status = .running) || decide (e.status = .cancelRequested)) &&
          e.owned v.runToken v.fenceEpoch)
        (fenceWrite c (endedStatus cur) .fenced "silence"
          "the executor stopped reporting progress within its silence budget")
        "expire silent: terminal CAS"
      recordAttempt c v.holder {
        attemptOutcome := .unknown
        executorId := v.dispatchedTo
        finishedAt := some c.now
        failureKind := "silence"
        resultSummary := "no progress within the silence budget; side effects unverified" }
      settlePollClock c v.jobName v.id

def releaseAsOwnerWrite (c : Ctx) (landed : Status) : ExecWrite where
  run e := { e with
    writeSeq := e.writeSeq + 1
    status := landed
    terminalReason := some .fenced
    finishedAt := some c.now
    failureKind := some "tenant_retired"
    errorMessage := some "the tenant was disabled while this attempt was in flight"
    fenceEpoch := e.fenceEpoch + 1
    recoveryCount := e.recoveryCount + 1
    ownerInstance := none
    dispatchedTo := none
    runToken := none
    leaseUntil := none
    heartbeatAt := none
    deadlineAt := none }
  info _ := rfl
  seq _ := rfl

/-- `ReleaseAsOwner`: the owner gives up a live lease, and the attempt always ends. -/
def releaseAsOwner (c : Ctx) (h : Holder) : StoreM Status := do
  let s ← lockState c h.jobName
  if s.stillHeld h.runToken h.fenceEpoch = false then
    fail .contended ("job " ++ h.jobName.quote ++ " is no longer held under this token")
  else
    let cur ← lockExecution h.executionId (c.utc 1)
    if cur.still h.runToken h.fenceEpoch = false ∨ cur.status.terminal then
      fail .contended (execution h.executionId ++ " moved on")
    else if cur.leaseLive = false then
      fail .contended (execution h.executionId ++ " has an expired lease and belongs to recovery")
    else
      releaseJobLock c h false
      mustExec h.executionId (fun e => e.status.held && e.owned h.runToken h.fenceEpoch)
        (releaseAsOwnerWrite c (endedStatus cur)) "release as owner"
      recordAttempt c h {
        attemptOutcome := .unknown
        finishedAt := some c.now
        failureKind := "tenant_retired"
        resultSummary := "the tenant was disabled while this attempt was in flight; outcome unknown" }
      settlePollClock c h.jobName h.executionId
      return endedStatus cur

end GoJob
