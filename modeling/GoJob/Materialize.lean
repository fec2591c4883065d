import GoJob.Complete
/-!
# Materialize — from schedules to executions (`materialize.go`)

A due cron instant or poll pass becomes one execution, and the clock that made it due moves in the same transaction.
Anything that is not an in-date job of the right kind goes through `normalizeClocks`, which alone decides what a state
row's clocks should be.
-/
namespace GoJob

open Rel

/-- `store.Schedule`, a compiled cron expression. -/
structure Schedule where
  next         : Instant → Except Err Instant
  latest       : Instant → Instant → Except Err (Option Instant)
  countBetween : Instant → Instant → Nat → Except Err (Nat × Bool)

abbrev Compile := Definition → Except Err Schedule

/-- The functions outside this model: the truncated SHA-256 in hex, and the JSON merge of `mergeParams`. -/
structure Env where
  digest      : String → String
  mergeParams : String → String → Except Err String

/-- `fmt.Errorf("<context>: %w", err)`. -/
def Err.wrap (context : String) (e : Err) : Err := ⟨e.kind, context ++ ": " ++ e.detail⟩

def ofExcept {α : Type} : Except Err α → StoreM α
  | .error e => throw e
  | .ok a    => pure a

def liftErr {α : Type} (context : String) (x : Except Err α) : StoreM α := ofExcept (x.mapError (Err.wrap context))

theorem liftErr_ok {α : Type} {context : String} {x : Except Err α} {a : α} {db db' : DB}
    (h : liftErr context x db = .ok (a, db')) : x = .ok a ∧ db = db' := by
  cases x with
  | error e => simp [liftErr, ofExcept, Except.mapError] at h
  | ok b => simpa [liftErr, ofExcept, Except.mapError] using h

/-! ## Keys -/

def maxExecutionKey : Nat := 160

/-- `s[:n]` on bytes; `none` where the cut would split a character. -/
def takeBytes : List Char → Nat → Option (List Char)
  | _, 0 => some []
  | [], _ => some []
  | ch :: cs, n => if ch.utf8Size ≤ n then (takeBytes cs (n - ch.utf8Size)).map (ch :: ·) else none

/-- `ExecutionKey`: the readable form, or as much of it as fits and a digest of all of it. -/
def executionKey (env : Env) (kind jobName discriminator : String) : Option String :=
  let full := kind ++ ":" ++ jobName ++ ":" ++ discriminator
  if full.utf8ByteSize ≤ maxExecutionKey then some full
  else
    let suffix := "~" ++ env.digest full
    (takeBytes full.toList (maxExecutionKey - suffix.utf8ByteSize)).map (fun cs => String.ofList cs ++ suffix)

/-- `CronExecutionKey`, by the instant's Unix second. -/
def cronExecutionKey (env : Env) (jobName : String) (fireAt : Instant) : Option String :=
  executionKey env "c" jobName (toString (fireAt / second))

/-! ## Inserting -/

/-- `executionRow`. -/
structure NewExecution where
  key           : Option String
  jobName       : String
  triggerType   : TriggerType
  requestId     : String := ""
  scheduledAt   : Instant
  availableAt   : Instant
  maxAttempts   : Nat
  maxRecoveries : Nat
  params        : String

/-- The row an insert writes under a given id. -/
def NewExecution.row (r : NewExecution) (key : String) (id : Nat) : ExecRow where
  id := id
  executionKey := key
  jobName := r.jobName
  triggerType := r.triggerType
  manualFirst := decide (r.triggerType = .manual)
  requestId := nullString r.requestId
  scheduledAt := datetime r.scheduledAt
  maxRecoveries := r.maxRecoveries
  params := nullString r.params
  availableAt := datetime r.availableAt
  status := .ready
  attemptNo := 0
  recoveryCount := 0
  maxAttempts := r.maxAttempts

/-- `insertExecution`: false when a unique key already has the row.  A key that is not text is refused. -/
def insertExecution (r : NewExecution) : StoreM Bool := do
  match r.key with
  | none => fail .other "insert execution: incorrect string value"
  | some key =>
    let db ← get
    if h : db.executions.Fresh key (nullString r.requestId) then
      set (db.addExec (r.row key (db.executions.lastId + 1)) rfl h)
      return true
    else
      return false

/-- `manualPending`: an operator's run is waiting. -/
def manualPending (j : String) : StoreM Bool := do
  let db ← get
  return db.executions.table.rows.any
    (fun e => decide (e.jobName = j) && e.manualFirst && decide (e.status = .ready))

/-- `pollPassOutstanding`: the job has a poll execution that has not ended. -/
def pollPassOutstanding (j : String) : StoreM Bool := do
  let db ← get
  return db.executions.table.rows.any
    (fun e => decide (e.jobName = j) && decide (e.triggerType = .poll) && !e.status.terminal)

/-! ## The clocks -/

def normalizeWrite (fire poll : Option Instant) (version : Nat) : StateWrite where
  run s := { s with writeSeq := s.writeSeq + 1, nextFireAt := fire, nextPollAt := poll, configVersion := version }
  jobName _ := rfl
  seq _ := rfl

/-- The two clocks a definition calls for: the fire instant at or after now, or a poll clock unless a pass is out. -/
def decideClocks (c : Ctx) (s : StateRow) (d : Definition) (compile : Compile) :
    StoreM (Option Instant × Option Instant) := do
  if d.enabled = false ∨ d.retired then
    return (none, none)
  else if d.scheduleKind = .cron then
    let sched ← liftErr ("compile schedule for " ++ d.jobName.quote) (compile d)
    let next ← liftErr ("recompute next fire for " ++ d.jobName.quote) (sched.next (c.now - 1))
    return (some next, none)
  else
    match s.nextPollAt with
    | some t => return (none, some t)
    | none =>
      if ← pollPassOutstanding d.jobName then return (none, none)
      else return (none, some c.now)

def normalizeClocks (c : Ctx) (s : StateRow) (d : Definition) (compile : Compile) : StoreM (Option Instant) := do
  let (fire, poll) ← decideClocks c s d compile
  mustState d.jobName (fun _ => true) (normalizeWrite (fire.map datetime) poll d.version)
    "materialize: normalize clocks"
  return fire

def advanceWrite (next : Instant) (version : Nat) : StateWrite where
  run s := { s with writeSeq := s.writeSeq + 1, nextFireAt := some (datetime next), configVersion := version }
  jobName _ := rfl
  seq _ := rfl

def advanceFireClock (j : String) (next : Instant) (version : Nat) : StoreM Unit :=
  mustState j (fun _ => true) (advanceWrite next version) "materialize: advance fire clock"

def clearPollClock (j : String) : StoreM Unit :=
  mustState j (fun s => s.nextPollAt.isSome) (pollWrite none) "materialize: clear poll clock"

/-! ## The transactions -/

inductive MaterializeOutcome
  | execution | skipped | suspended
  deriving DecidableEq, Repr

structure MaterializeResult where
  outcome      : MaterializeOutcome
  executionKey : Option String := none
  scheduledAt  : Option Instant := none
  nextFireAt   : Option Instant := none
  missed       : Nat := 0
  missedExact  : Bool := false
  deriving DecidableEq, Repr

def missedCountLimit : Nat := 1000

/-- `gojob.MisfireHorizon`: 366 days. -/
def misfireHorizon : Instant := 366 * 24 * 3600 * second

/-- The instant a due pass deals with, and whether it creates an execution for it. -/
def chooseFire (d : Definition) (sched : Schedule) (due onTimeFrom : Instant) (missed : Nat) :
    StoreM (Instant × Bool) := do
  if missed = 0 then
    return (due, true)
  else
    match d.misfire with
    | .skip => return (due, false)
    | .fireOnce =>
      match ← liftErr ("find latest missed fire for " ++ d.jobName.quote)
          (sched.latest (onTimeFrom - 1) misfireHorizon) with
      | none => return (due, false)
      | some latest => return (latest, true)

/-- The part of `MaterializeCron` that runs once the pass is known to be due. -/
def materializeDue (env : Env) (c : Ctx) (d : Definition) (sched : Schedule) (due grace : Instant) :
    StoreM MaterializeResult := do
  let onTimeFrom := c.now - grace
  let (missed, exact_) ← liftErr ("count missed fires for " ++ d.jobName.quote)
    (sched.countBetween (due - 1) (onTimeFrom - 1) missedCountLimit)
  let (fireAt, create) ← chooseFire d sched due onTimeFrom missed
  -- SKIP abandons the past; every other pass advances just beyond the instant it dealt with.
  let anchor := if create = false ∧ d.misfire = .skip then c.now else fireAt
  let next ← liftErr ("compute next fire for " ++ d.jobName.quote) (sched.next anchor)
  if create then
    let key := cronExecutionKey env d.jobName fireAt
    let created ← insertExecution {
      key := key
      jobName := d.jobName
      triggerType := .cron
      scheduledAt := fireAt
      availableAt := fireAt
      maxAttempts := d.maxAttempts
      maxRecoveries := d.maxRecoveries
      params := d.params }
    advanceFireClock d.jobName next d.version
    return ⟨if created then .execution else .skipped, key, some fireAt, some next, missed, exact_⟩
  else
    advanceFireClock d.jobName next d.version
    return ⟨.skipped, none, none, some next, missed, exact_⟩

def materializeCron (env : Env) (c : Ctx) (j : String) (compile : Compile) (grace : Instant) :
    StoreM MaterializeResult := do
  let s ← lockState c j
  let d ← readDefinition j
  if d.enabled = false ∨ d.retired ∨ d.scheduleKind ≠ .cron ∨ s.configVersion ≠ d.version then
    let fire ← normalizeClocks c s d compile
    return { outcome := .skipped, nextFireAt := fire }
  else
    let sched ← liftErr ("compile schedule for " ++ j.quote) (compile d)
    if ← manualPending j then
      return { outcome := .suspended }
    else
      match s.nextFireAt with
      | none => fail .protocol ("cron job " ++ j.quote ++ " has no next_fire_at")
      | some due =>
        -- Due-ness is decided again under the lock: the scan that found the row may be stale.
        if c.now < due then
          return { outcome := .suspended, nextFireAt := some due }
        else materializeDue env c d sched due grace

def materializePoll (c : Ctx) (j key : String) (compile : Compile) : StoreM MaterializeResult := do
  let s ← lockState c j
  let d ← readDefinition j
  if s.nextPollAt.all (fun t => decide (c.now < t)) then
    return { outcome := .suspended }
  else if d.enabled = false ∨ d.retired ∨ d.scheduleKind ≠ .fixedDelay ∨ s.configVersion ≠ d.version then
    let fire ← normalizeClocks c s d compile
    return { outcome := .skipped, nextFireAt := fire }
  else if ← manualPending j then
    return { outcome := .suspended }
  else
    let created ← insertExecution {
      key := some key
      jobName := j
      triggerType := .poll
      scheduledAt := c.now
      availableAt := c.now
      maxAttempts := d.maxAttempts
      maxRecoveries := d.maxRecoveries
      params := d.params }
    if created = false then
      fail .protocol ("poll key " ++ key.quote ++ " already exists; keys must be fresh per pass")
    else
      clearPollClock j
      return { outcome := .execution, executionKey := some key, scheduledAt := some c.now }

def recompute (c : Ctx) (j : String) (compile : Compile) : StoreM (Option Instant) := do
  let s ← lockState c j
  let d ← readDefinition j
  normalizeClocks c s d compile

end GoJob
