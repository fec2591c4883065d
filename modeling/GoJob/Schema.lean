import GoJob.Job
import GoJob.Tx
/-!
# Schema — the tenant schema (`001_tenant.sql`)

One row type per table, with the columns some statement reads.  A definition carries the `CHECK` constraints of its
table; a table of executions carries its two unique keys and the auto-increment counter.  Every guarded `UPDATE` raises
`write_seq`, so a write is bundled with that fact (`StateWrite`, `ExecWrite`): it is what makes "no row changed" mean
"the guard failed".
-/
namespace GoJob

open Rel

/-- A `DATETIME` column keeps whole seconds; a fraction is rounded to the nearest one. -/
def datetime (t : Instant) : Instant := (t + second / 2) / second * second

/-- `nullString`, and `nullBytes`: an empty value is stored as NULL. -/
def nullString (s : String) : Option String := if s = "" then none else some s

/-! ## Rows -/

/-- The `CHECK` constraints of `job_definition`. -/
def DefinitionChecks (maxAttempts maxRecoveries : Nat) (leaseSeconds timeoutSeconds : Int) : Prop :=
  (1 ≤ maxAttempts ∧ maxAttempts ≤ 100) ∧ (1 ≤ maxRecoveries ∧ maxRecoveries ≤ 100) ∧ 10 ≤ leaseSeconds ∧
    1 ≤ timeoutSeconds ∧ timeoutSeconds ≤ 604800

instance (a r : Nat) (l t : Int) : Decidable (DefinitionChecks a r l t) := by
  unfold DefinitionChecks; infer_instance

/-- A row of `job_definition`. -/
structure DefinitionRow where
  jobName        : String
  handlerKey     : String
  executorGroup  : Option String
  scheduleKind   : ScheduleKind
  scheduleExpr   : String
  enabled        : Bool
  retired        : Bool
  concurrency    : ConcurrencyPolicy
  misfire        : MisfirePolicy
  maxAttempts    : Nat
  maxRecoveries  : Nat
  leaseSeconds   : Int
  timeoutSeconds : Int
  params         : Option String
  description    : Option String
  version        : Nat
  updatedBy      : Option String
  checks         : DefinitionChecks maxAttempts maxRecoveries leaseSeconds timeoutSeconds
  deriving DecidableEq

inductive ActiveKind
  | execution
  deriving DecidableEq, Repr

/-- A row of `job_state`, which is the job's lock. -/
structure StateRow where
  jobName         : String
  nextFireAt      : Option Instant := none
  nextPollAt      : Option Instant := none
  opsPaused       : Bool := false
  activeKind      : Option ActiveKind := none
  activeExecution : Option String := none
  activeOwner     : Option String := none
  activeRunToken  : Option String := none
  dispatchedTo    : Option String := none
  fenceEpoch      : Nat := 0
  leaseUntil      : Option Utc := none
  heartbeatAt     : Option Utc := none
  lastSuccessAt   : Option Instant := none
  lastFailureAt   : Option Instant := none
  configVersion   : Nat := 0
  writeSeq        : Nat := 0
  deriving DecidableEq, Repr

def StateRow.held (s : StateRow) : Bool := s.activeKind.isSome

/-- The columns of `job_execution` that no `UPDATE` assigns. -/
structure ExecInfo where
  id            : Nat
  executionKey  : String
  jobName       : String
  triggerType   : TriggerType
  manualFirst   : Bool
  requestId     : Option String
  scheduledAt   : Instant
  maxRecoveries : Nat
  params        : Option String
  deriving DecidableEq, Repr

/-- A row of `job_execution`. -/
structure ExecRow extends ExecInfo where
  availableAt    : Instant
  status         : Status
  attemptNo      : Nat
  recoveryCount  : Nat
  maxAttempts    : Nat
  ownerInstance  : Option String := none
  dispatchedTo   : Option String := none
  runToken       : Option String := none
  fenceEpoch     : Nat := 0
  leaseUntil     : Option Utc := none
  heartbeatAt    : Option Utc := none
  deadlineAt     : Option Utc := none
  timeoutAt      : Option Utc := none
  startedAt      : Option Instant := none
  finishedAt     : Option Instant := none
  failureKind    : Option String := none
  terminalReason : Option TerminalReason := none
  resultSummary  : Option String := none
  errorMessage   : Option String := none
  writeSeq       : Nat := 0
  deriving DecidableEq, Repr

/-- A row of `job_execution_attempt`. -/
structure AttemptRow where
  executionKey : String
  runToken     : String
  attemptNo    : Nat
  executorId   : Option String
  startedAt    : Option Instant
  finishedAt   : Option Instant
  outcome      : AttemptOutcome
  failureKind  : Option String
  summary      : Option String
  deriving DecidableEq, Repr

def AttemptRow.key (a : AttemptRow) : String × String := (a.executionKey, a.runToken)

/-- A row of `job_audit`. -/
structure AuditRow where
  actor     : String
  action    : String
  jobName   : Option String
  execution : Option String
  detail    : Option String
  createdAt : Instant
  deriving DecidableEq, Repr

/-! ## Guarded writes -/

/-- The `SET` list of a guarded write to `job_state`. -/
structure StateWrite where
  run     : StateRow → StateRow
  jobName : ∀ s, (run s).jobName = s.jobName
  seq     : ∀ s, (run s).writeSeq = s.writeSeq + 1

/-- The `SET` list of a guarded write to `job_execution`. -/
structure ExecWrite where
  run  : ExecRow → ExecRow
  info : ∀ e, (run e).toExecInfo = e.toExecInfo
  seq  : ∀ e, (run e).writeSeq = e.writeSeq + 1

/-- The `SET` list of a write to `job_definition`, which raises the version instead. -/
structure DefinitionWrite where
  run     : DefinitionRow → DefinitionRow
  jobName : ∀ d, (run d).jobName = d.jobName
  retired : ∀ d, d.retired = true → (run d).retired = true
  version : ∀ d, (run d).version = d.version + 1

theorem StateWrite.ne (w : StateWrite) (s : StateRow) : w.run s ≠ s := by
  intro h
  have hs := w.seq s
  rw [h] at hs
  omega

theorem ExecWrite.ne (w : ExecWrite) (e : ExecRow) : w.run e ≠ e := by
  intro h
  have hs := w.seq e
  rw [h] at hs
  omega

theorem DefinitionWrite.ne (w : DefinitionWrite) (d : DefinitionRow) : w.run d ≠ d := by
  intro h
  have hs := w.version d
  rw [h] at hs
  omega

end GoJob
