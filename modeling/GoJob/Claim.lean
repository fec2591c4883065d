import GoJob.Complete
/-!
# Claim — taking a job's lock for one execution (`claim.go`)

A claim locks the state row, reads the definition and the execution, and then decides.  All four outcomes commit: the
lock acquired and the row `dispatching`, the candidate deferred, the occurrence skipped by FORBID, or a row whose
runtime cap had already elapsed marked dead.
-/
namespace GoJob

open Rel

/-- `store.Runnable`: the engine's own conditions, answered inside the transaction. -/
abbrev Runnable := DB → Definition → StateRow → Except Err Unit

structure ClaimParams where
  executionId    : Nat
  jobName        : String
  executionKey   : String
  owner          : String
  executorId     : String
  runToken       : String
  backoffSeconds : Int
  deriving DecidableEq, Repr

inductive ClaimOutcome
  | acquired | deferred | skipped | expired
  deriving DecidableEq, Repr

structure ClaimResult where
  outcome    : ClaimOutcome
  fenceEpoch : Nat
  definition : Definition
  reason     : Option Err
  deriving DecidableEq, Repr

/-! ## Rejections -/

def deferWrite (c : Ctx) (backoffSeconds : Int) : ExecWrite where
  run e := { e with writeSeq := e.writeSeq + 1, availableAt := c.now + backoffSeconds * second }
  info _ := rfl
  seq _ := rfl

def deferCandidate (c : Ctx) (i : Nat) (backoffSeconds : Int) : StoreM Unit :=
  tryExec i (fun e => decide (e.status = .ready)) (deferWrite c backoffSeconds) "defer candidate"

def expireWrite (c : Ctx) : ExecWrite where
  run e := { e with
    writeSeq := e.writeSeq + 1
    status := .dead
    terminalReason := some .timeout
    failureKind := some "timeout"
    errorMessage := some "runtime cap elapsed before dispatch"
    finishedAt := some c.now }
  info _ := rfl
  seq _ := rfl

def expireReadyExecution (c : Ctx) (i : Nat) : StoreM Unit :=
  mustExec i (fun e => decide (e.status = .ready)) (expireWrite c) "claim: expire past-cap execution"

def isManual (i : Nat) : StoreM Bool := do
  match (← get).exec? i with
  | none => fail .other ("read trigger class of " ++ execution i)
  | some e => pure e.manualFirst

def skipWrite (c : Ctx) (summary : String) : ExecWrite where
  run e := { e with
    writeSeq := e.writeSeq + 1
    status := .skipped
    terminalReason := some .concurrencySkipped
    finishedAt := some c.now
    resultSummary := some summary
    leaseUntil := none }
  info _ := rfl
  seq _ := rfl

/-- `applyContention`: the concurrency policy, for a job the lock proved to be held. -/
def applyContention (c : Ctx) (p : ClaimParams) (d : Definition) (s : StateRow) : StoreM ClaimResult := do
  let active := s.activeExecution.getD ""
  let queue : StoreM ClaimResult := do
    deferCandidate c p.executionId p.backoffSeconds
    return ⟨.deferred, 0, d, some ⟨.contended, "job " ++ p.jobName.quote ++ " held by " ++ active⟩⟩
  if d.concurrency = .forbid then
    if ← isManual p.executionId then queue
    else
      mustExec p.executionId (fun e => decide (e.status = .ready))
        (skipWrite c ("skipped by FORBID; job held by " ++ active)) "claim: FORBID skip"
      settlePollClock c p.jobName p.executionId
      return ⟨.skipped, 0, d, some ⟨.contended, "job " ++ p.jobName.quote ++ " held by " ++ active ++
        "; occurrence skipped by FORBID"⟩⟩
  else queue

/-! ## Acquisition -/

def acquireWrite (p : ClaimParams) (epoch : Nat) (leaseSeconds : Int) (u : Utc) : StateWrite where
  run s := { s with
    writeSeq := s.writeSeq + 1
    activeKind := some .execution
    activeExecution := some p.executionKey
    activeOwner := some p.owner
    activeRunToken := some p.runToken
    dispatchedTo := nullString p.executorId
    fenceEpoch := epoch
    leaseUntil := some (u + leaseSeconds)
    heartbeatAt := some u }
  jobName _ := rfl
  seq _ := rfl

/-- The cap is set on the first claim: `COALESCE(timeout_at, ...)`. -/
def dispatchWrite (p : ClaimParams) (epoch : Nat) (leaseSeconds timeoutSeconds : Int) (u : Utc) : ExecWrite where
  run e := { e with
    writeSeq := e.writeSeq + 1
    status := .dispatching
    ownerInstance := some p.owner
    dispatchedTo := nullString p.executorId
    runToken := some p.runToken
    fenceEpoch := epoch
    leaseUntil := some (u + leaseSeconds)
    heartbeatAt := some u
    timeoutAt := some (e.timeoutAt.getD (u + timeoutSeconds)) }
  info _ := rfl
  seq _ := rfl

/-- The acquiring branch of `Claim`. -/
def acquire (c : Ctx) (p : ClaimParams) (d : Definition) (s : StateRow) : StoreM ClaimResult := do
  let epoch := s.fenceEpoch + 1
  let leaseSeconds := d.lease.tdiv second
  let timeoutSeconds := d.timeout.tdiv second
  mustState p.jobName (fun s => !s.opsPaused && s.activeKind.isNone) (acquireWrite p epoch leaseSeconds (c.utc 3))
    "claim: acquire job lock"
  mustExec p.executionId
    (fun e => decide (e.jobName = p.jobName) && decide (e.status = .ready) && decide (e.attemptNo < e.maxAttempts))
    (dispatchWrite p epoch leaseSeconds timeoutSeconds (c.utc 4)) "claim: mark dispatching"
  return ⟨.acquired, epoch, d, none⟩

def claim (c : Ctx) (p : ClaimParams) (runnable : Runnable) : StoreM ClaimResult := do
  let s ← lockState c p.jobName
  let d ← readDefinition p.jobName
  let cur ← lockExecution p.executionId (c.utc 2)
  if cur.jobName ≠ p.jobName ∨ cur.executionKey ≠ p.executionKey then
    fail .protocol ("claim names job " ++ p.jobName.quote ++ " key " ++ p.executionKey.quote ++ " but " ++
      execution p.executionId ++ " is job " ++ cur.jobName.quote ++ " key " ++ cur.executionKey.quote)
  else if cur.timeoutExpired then
    expireReadyExecution c p.executionId
    return ⟨.expired, 0, d, some ⟨.notRunnable, execution p.executionId ++
      " passed its runtime cap before it could be dispatched"⟩⟩
  else if s.opsPaused then
    deferCandidate c p.executionId p.backoffSeconds
    return ⟨.deferred, 0, d, some ⟨.notRunnable, "job " ++ p.jobName.quote ++ " is paused by an operator"⟩⟩
  else
    match runnable (← get) d s with
    | .error err =>
      if err.kind ≠ .notRunnable then throw err
      else
        deferCandidate c p.executionId p.backoffSeconds
        return ⟨.deferred, 0, d, some err⟩
    | .ok () => if s.held then applyContention c p d s else acquire c p d s

/-! ## The answer of the executor -/

def acceptWrite (c : Ctx) (silenceSeconds : Int) (u : Utc) : ExecWrite where
  run e := { e with
    writeSeq := e.writeSeq + 1
    status := .running
    attemptNo := e.attemptNo + 1
    startedAt := some (e.startedAt.getD c.now)
    deadlineAt := some (u + silenceSeconds) }
  info _ := rfl
  seq _ := rfl

def accept (c : Ctx) (i : Nat) (runToken : String) (epoch : Nat) (silenceSeconds : Int) : StoreM Unit :=
  casExec i (fun e => e.unaccepted runToken epoch) (acceptWrite c silenceSeconds (c.utc 0)) .fenced
    (execution i ++ " accepted" ++ underToken runToken epoch)

def refuseReleaseWrite : StateWrite where
  run s := s.unlock
  jobName _ := rfl
  seq _ := rfl

/-- A refusal after the runtime cap ends the execution; one before it returns the row to `ready`, cap and all. -/
def refuseWrite (c : Ctx) (backoffSeconds : Int) (u : Utc) : ExecWrite where
  run e :=
    let late := past e.timeoutAt u
    { e with
      writeSeq := e.writeSeq + 1
      status := if late then .dead else .ready
      terminalReason := if late then some .timeout else none
      failureKind := if late then some "timeout" else e.failureKind
      finishedAt := if late then some c.now else none
      availableAt := if late then e.availableAt else c.now + backoffSeconds * second
      ownerInstance := none
      dispatchedTo := none
      runToken := none
      leaseUntil := none
      heartbeatAt := none }
  info _ := rfl
  seq _ := rfl

def refuse (c : Ctx) (p : ClaimParams) (epoch : Nat) : StoreM Unit := do
  casState p.jobName (fun s => s.owned p.runToken epoch) refuseReleaseWrite .fenced
    ("job " ++ p.jobName.quote ++ underToken p.runToken epoch)
  mustExec p.executionId (fun e => e.unaccepted p.runToken epoch) (refuseWrite c p.backoffSeconds (c.utc 1))
    "refuse: return to ready"
  settlePollClock c p.jobName p.executionId

def retargetWrite (executorId : String) : ExecWrite where
  run e := { e with writeSeq := e.writeSeq + 1, dispatchedTo := some executorId }
  info _ := rfl
  seq _ := rfl

def retarget (h : Holder) (executorId : String) : StoreM Unit :=
  casExec h.executionId (fun e => e.unaccepted h.runToken h.fenceEpoch) (retargetWrite executorId) .fenced
    (execution h.executionId ++ " is no longer dispatching" ++ underToken h.runToken h.fenceEpoch)

end GoJob
