import GoJob.Materialize
/-!
# Admin — operators' transactions (`admin.go`)

Definitions are created and edited here, jobs paused and retired, runs triggered and dead executions revived.  Every
action names an actor and a reason and leaves an audit row.  A definition that violates a `CHECK` of its table is
refused by the statement that would write it.
-/
namespace GoJob

open Rel

def ScheduleKind.text : ScheduleKind → String
  | .cron => "CRON"
  | .fixedDelay => "FIXED_DELAY"

def ConcurrencyPolicy.text : ConcurrencyPolicy → String
  | .queue => "QUEUE"
  | .forbid => "FORBID"

def MisfirePolicy.text : MisfirePolicy → String
  | .skip => "SKIP"
  | .fireOnce => "FIRE_ONCE"

/-- `int(d.Lease / time.Second)`. -/
def Definition.leaseSeconds (d : Definition) : Int := d.lease.tdiv second

def Definition.timeoutSeconds (d : Definition) : Int := d.timeout.tdiv second

/-- The definition passes its table's `CHECK`s. -/
def Definition.Passes (d : Definition) : Prop :=
  DefinitionChecks d.maxAttempts d.maxRecoveries d.leaseSeconds d.timeoutSeconds

instance (d : Definition) : Decidable d.Passes := inferInstanceAs (Decidable (DefinitionChecks _ _ _ _))

/-! ## Creating -/

/-- The definition row `CreateJob` and `insertCopiedJob` write: version 1, not retired. -/
def newDefinition (d : Definition) (actor : String) (h : d.Passes) : DefinitionRow where
  jobName := d.jobName
  handlerKey := d.handlerKey
  executorGroup := nullString d.executorGroup
  scheduleKind := d.scheduleKind
  scheduleExpr := d.scheduleExpr
  enabled := d.enabled
  retired := false
  concurrency := d.concurrency
  misfire := d.misfire
  maxAttempts := d.maxAttempts
  maxRecoveries := d.maxRecoveries
  leaseSeconds := d.leaseSeconds
  timeoutSeconds := d.timeoutSeconds
  params := nullString d.params
  description := nullString d.description
  version := 1
  updatedBy := some actor
  checks := h

/-- The state row written with it: a poll clock starts at once, a fire clock where the caller computed it. -/
def newState (c : Ctx) (d : Definition) (nextFire : Instant) : StateRow where
  jobName := d.jobName
  nextFireAt := if d.enabled ∧ d.scheduleKind = .cron then some (datetime nextFire) else none
  nextPollAt := if d.enabled ∧ d.scheduleKind ≠ .cron then some c.now else none
  configVersion := 1

/-- Both inserts; `duplicate` is the caller's answer to a name that is taken. -/
def insertJob (c : Ctx) (d : Definition) (nextFire : Instant) (actor context : String) (duplicate : Err) :
    StoreM Unit := do
  let db ← get
  if hc : d.Passes then
    if hd : d.jobName ∈ db.definitions.rows.map DefinitionRow.jobName then throw duplicate
    else if hs : d.jobName ∈ db.states.rows.map StateRow.jobName then
      fail .other ("create state row for " ++ d.jobName.quote)
    else set (db.addJob (newDefinition d actor hc) (newState c d nextFire) hd hs)
  else fail .other (context ++ ": check constraint violated")

def createJob (c : Ctx) (d : Definition) (nextFire : Instant) (actor reason : String) : StoreM Unit := do
  if actor = "" ∨ reason = "" then
    fail .protocol "creating a job needs an actor and a reason"
  else
    insertJob c d nextFire actor ("create job " ++ d.jobName.quote)
      ⟨.protocol, "job " ++ d.jobName.quote ++ " already exists"⟩
    audit c actor "job_created" d.jobName ""
      (reason ++ " (handler=" ++ d.handlerKey ++ " schedule=" ++ d.scheduleKind.text ++ " " ++ d.scheduleExpr ++ ")")

structure JobSeed where
  definition : Definition
  nextFire   : Instant
  deriving DecidableEq, Repr

def insertCopiedJob (c : Ctx) (seed : JobSeed) (source actor reason : String) : StoreM Unit := do
  let d := seed.definition
  let context := "copy job " ++ d.jobName.quote ++ " from " ++ source
  insertJob c d seed.nextFire actor context ⟨.other, context⟩
  audit c actor "job_created" d.jobName "" ("copied from tenant " ++ source ++ ": " ++ reason ++ " (handler=" ++
    d.handlerKey ++ " schedule=" ++ d.scheduleKind.text ++ " " ++ d.scheduleExpr ++ ")")

/-- The loop of `CopyJobs`, over the names that exist and the two lists it returns. -/
def copySeeds (c : Ctx) (source actor reason : String) :
    List JobSeed → List String → List String × List String → StoreM (List String × List String)
  | [], _, out => return out
  | seed :: seeds, existing, (created, skipped) => do
    let name := seed.definition.jobName
    if name ∈ existing then
      copySeeds c source actor reason seeds existing (created, skipped ++ [name])
    else
      insertCopiedJob c seed source actor reason
      copySeeds c source actor reason seeds (name :: existing) (created ++ [name], skipped)

def copyJobs (c : Ctx) (seeds : List JobSeed) (source actor reason : String) :
    StoreM (List String × List String) := do
  if source = "" ∨ actor = "" ∨ reason = "" then
    fail .protocol "copying jobs needs a source, actor and reason"
  else
    let db ← get
    copySeeds c source actor reason seeds (db.definitions.rows.map DefinitionRow.jobName) ([], [])

/-! ## Editing -/

/-- The `SET` list of `UpdateJob` and `SyncJobs`. -/
def editWrite (d : Definition) (actor : String) (h : d.Passes) : DefinitionWrite where
  run r := { r with
    handlerKey := d.handlerKey
    executorGroup := nullString d.executorGroup
    scheduleKind := d.scheduleKind
    scheduleExpr := d.scheduleExpr
    enabled := d.enabled
    concurrency := d.concurrency
    misfire := d.misfire
    maxAttempts := d.maxAttempts
    maxRecoveries := d.maxRecoveries
    leaseSeconds := d.leaseSeconds
    timeoutSeconds := d.timeoutSeconds
    params := nullString d.params
    description := nullString d.description
    version := r.version + 1
    updatedBy := some actor
    checks := h }
  jobName _ := rfl
  retired _ := id
  version _ := rfl

/-- The edit under a guard.  A violated `CHECK` is only noticed for a row the guard selects. -/
def editDefinition (d : Definition) (actor : String) (g : DefinitionRow → Bool) (context : String) : StoreM Nat := do
  if h : d.Passes then updateDefinition d.jobName g (editWrite d actor h)
  else if ((← get).def? d.jobName).any g then fail .other (context ++ ": check constraint violated")
  else return 0

def updateJob (c : Ctx) (d : Definition) (expectVersion : Nat) (actor reason : String) : StoreM Unit := do
  if actor = "" ∨ reason = "" then
    fail .protocol "editing a job needs an actor and a reason"
  else
    let n ← editDefinition d actor (fun r => decide (r.version = expectVersion)) ("update job " ++ d.jobName.quote)
    if n = 0 then
      fail .staleVersion ("job " ++ d.jobName.quote ++ " is not at version " ++ toString expectVersion)
    else audit c actor "job_updated" d.jobName "" reason

structure FieldChange where
  field  : String
  before : String
  after  : String
  deriving DecidableEq, Repr

def definitionChanges (before after : Definition) : List FieldChange :=
  let add (field old next : String) : List FieldChange := if old ≠ next then [⟨field, old, next⟩] else []
  add "handler_key" before.handlerKey after.handlerKey ++
  add "executor_group" before.executorGroup after.executorGroup ++
  add "schedule_kind" before.scheduleKind.text after.scheduleKind.text ++
  add "schedule_expr" before.scheduleExpr after.scheduleExpr ++
  add "enabled" (toString before.enabled) (toString after.enabled) ++
  add "concurrency_policy" before.concurrency.text after.concurrency.text ++
  add "misfire_policy" before.misfire.text after.misfire.text ++
  add "max_attempts" (toString before.maxAttempts) (toString after.maxAttempts) ++
  add "max_recoveries" (toString before.maxRecoveries) (toString after.maxRecoveries) ++
  add "lease_seconds" (toString before.leaseSeconds) (toString after.leaseSeconds) ++
  add "timeout_seconds" (toString before.timeoutSeconds) (toString after.timeoutSeconds) ++
  add "params" before.params after.params ++
  add "description" before.description after.description

structure JobSyncResult where
  created        : List String := []
  updated        : List (String × List FieldChange) := []
  unchanged      : List String := []
  blockedRetired : List String := []
  deriving DecidableEq, Repr

/-- `planJobSync`, one seed at a time. -/
def planSeed (existing : String → Option Definition) (out : JobSyncResult) (seed : JobSeed) : JobSyncResult :=
  let name := seed.definition.jobName
  match existing name with
  | none => { out with created := out.created ++ [name] }
  | some target =>
    if target.retired then { out with blockedRetired := out.blockedRetired ++ [name] }
    else
      let fields := definitionChanges target seed.definition
      if fields = [] then { out with unchanged := out.unchanged ++ [name] }
      else { out with updated := out.updated ++ [(name, fields)] }

def planJobSync (seeds : List JobSeed) (existing : String → Option Definition) : JobSyncResult :=
  seeds.foldl (planSeed existing) {}

/-- One seed of `SyncJobs` under the plan. -/
def syncSeed (c : Ctx) (plan : JobSyncResult) (source actor reason : String) (seed : JobSeed) : StoreM Unit := do
  let d := seed.definition
  if d.jobName ∈ plan.created then
    insertCopiedJob c seed source actor reason
  else
    match plan.updated.reverse.find? (fun u => decide (u.1 = d.jobName)) with
    | none => return
    | some (_, fields) =>
      let n ← editDefinition d actor (fun r => !r.retired) ("sync job " ++ d.jobName.quote ++ " from " ++ source)
      assertOne n "sync job definition"
      audit c actor "job_synced" d.jobName "" ("synced from tenant " ++ source ++ ": " ++ reason ++ " (fields=[" ++
        " ".intercalate (fields.map FieldChange.field) ++ "])")

def syncSeeds (c : Ctx) (plan : JobSyncResult) (source actor reason : String) : List JobSeed → StoreM Unit
  | [] => return
  | seed :: seeds => do
    syncSeed c plan source actor reason seed
    syncSeeds c plan source actor reason seeds

/-- `SyncJobs`.  A retired target blocks the whole sync. -/
def syncJobs (c : Ctx) (seeds : List JobSeed) (source actor reason : String) : StoreM JobSyncResult := do
  if source = "" ∨ actor = "" ∨ reason = "" then
    fail .protocol "syncing jobs needs a source, actor and reason"
  else
    let db ← get
    let plan := planJobSync seeds (fun name => (db.def? name).map DefinitionRow.toDefinition)
    if plan.blockedRetired ≠ [] then
      fail .protocol ("target has retired definitions: [" ++ " ".intercalate plan.blockedRetired ++ "]")
    else
      syncSeeds c plan source actor reason seeds
      return plan

/-! ## Descriptions -/

structure DescriptionChange where
  jobName    : String
  handlerKey : String
  before     : String
  after      : String
  deriving DecidableEq, Repr

structure DescriptionSync where
  changes   : List DescriptionChange := []
  missing   : List String := []
  unchanged : Nat := 0
  deriving DecidableEq, Repr

def describeWrite (description actor : String) : DefinitionWrite where
  run r := { r with description := some description, version := r.version + 1, updatedBy := some actor }
  jobName _ := rfl
  retired _ := id
  version _ := rfl

/-- The loop of `SyncJobDescriptions`, over the definitions it locked. -/
def describeJobs (c : Ctx) (descriptions : String → String) (actor reason : String) :
    List DefinitionRow → DescriptionSync → StoreM DescriptionSync
  | [], out => return out
  | job :: jobs, out => do
    let next := descriptions job.handlerKey
    let before := job.description.getD ""
    if job.retired then
      describeJobs c descriptions actor reason jobs out
    else if next = "" then
      describeJobs c descriptions actor reason jobs { out with missing := out.missing ++ [job.jobName] }
    else if before = next then
      describeJobs c descriptions actor reason jobs { out with unchanged := out.unchanged + 1 }
    else
      let n ← updateDefinition job.jobName (fun r => decide (r.version = job.version)) (describeWrite next actor)
      assertOne n "sync job description"
      audit c actor "job_description_synced" job.jobName "" (reason ++ " (handler=" ++ job.handlerKey ++ ")")
      describeJobs c descriptions actor reason jobs
        { out with changes := out.changes ++ [⟨job.jobName, job.handlerKey, before, next⟩] }

/-- `SyncJobDescriptions`; the bound counts bytes, although its message speaks of characters. -/
def syncJobDescriptions (c : Ctx) (descriptions : List (String × String)) (actor reason : String) :
    StoreM DescriptionSync := do
  if actor = "" ∨ reason = "" then
    fail .protocol "syncing job descriptions needs an actor and a reason"
  else
    match descriptions.find? (fun d => decide (512 < d.2.utf8ByteSize)) with
    | some d => fail .protocol ("handler " ++ d.1.quote ++ " description exceeds 512 characters")
    | none =>
      let db ← get
      describeJobs c (fun key => (descriptions.lookup key).getD "") actor reason
        (db.definitions.rows.insertionSort (fun a b => a.jobName ≤ b.jobName)) {}

/-! ## Pausing and retiring -/

def pauseWrite (paused : Bool) : StateWrite where
  run s := { s with writeSeq := s.writeSeq + 1, opsPaused := paused }
  jobName _ := rfl
  seq _ := rfl

def setPaused (c : Ctx) (j : String) (paused : Bool) (actor reason : String) : StoreM Unit := do
  if actor = "" ∨ reason = "" then
    fail .protocol "pausing a job needs an actor and a reason"
  else
    let _ ← lockState c j
    mustState j (fun _ => true) (pauseWrite paused) "set paused"
    audit c actor (if paused then "job_paused" else "job_resumed") j "" reason

def retireWrite (actor : String) : DefinitionWrite where
  run r := { r with retired := true, enabled := false, version := r.version + 1, updatedBy := some actor }
  jobName _ := rfl
  retired _ _ := rfl
  version _ := rfl

def retireReadyWrite (c : Ctx) : ExecWrite where
  run e := { e with
    writeSeq := e.writeSeq + 1
    status := .cancelled
    terminalReason := some .retired
    finishedAt := some c.now
    resultSummary := some "the job was retired before this run started" }
  info _ := rfl
  seq _ := rfl

/-- `UPDATE job_execution SET w WHERE p`, whatever number of rows that is. -/
def updateExecs (p : ExecRow → Bool) (w : ExecWrite) : StoreM Nat := do
  let db ← get
  set (db.setExecs p w)
  return db.executions.table.changed p w.run

/-- `Retire`: pending work is cancelled, work in flight is asked to stop and keeps its slot. -/
def retire (c : Ctx) (j actor reason : String) : StoreM Unit := do
  if actor = "" ∨ reason = "" then
    fail .protocol "retiring a job needs an actor and a reason"
  else
    let _ ← lockState c j
    let n ← updateDefinition j (fun d => !d.retired) (retireWrite actor)
    if n = 0 then
      fail .protocol ("job " ++ j.quote ++ " is already retired or does not exist")
    else
      let _ ← updateExecs (fun e => decide (e.jobName = j) && decide (e.status = .ready)) (retireReadyWrite c)
      let _ ← updateExecs (fun e => decide (e.jobName = j) && e.status.cancellable) cancelWrite
      audit c actor "job_retired" j "" reason

/-! ## Manual runs -/

/-- `executionByRequest`: the read that answers a repeat before `Trigger`'s transaction. -/
def executionByRequest (requestId jobName : String) : StoreM (Option String) := do
  match (← get).executions.table.rows.find? (fun e => decide (e.requestId = some requestId)) with
  | none => return none
  | some e =>
    if e.jobName ≠ jobName then
      fail .protocol ("request_id " ++ requestId.quote ++ " was already used to trigger " ++ e.jobName.quote ++
        ", not " ++ jobName.quote)
    else return some e.executionKey

/-- `Trigger`, the transaction. -/
def trigger (env : Env) (c : Ctx) (j requestId actor reason params : String) : StoreM (Option String) := do
  if actor = "" ∨ reason = "" then
    fail .protocol "a manual trigger needs an actor and a reason"
  else if requestId = "" then
    fail .protocol "a manual trigger needs a request_id so a repeat cannot run it twice"
  else
    let key := executionKey env "m" j requestId
    let _ ← lockState c j
    let d ← readDefinition j
    if d.retired then
      fail .notRunnable ("job " ++ j.quote ++ " is retired")
    else
      let merged ← ofExcept (env.mergeParams d.params params)
      let created ← insertExecution {
        key := key
        jobName := j
        triggerType := .manual
        requestId := requestId
        scheduledAt := c.now
        availableAt := c.now
        maxAttempts := d.maxAttempts
        maxRecoveries := d.maxRecoveries
        params := merged }
      if created = false then
        match ← executionByRequest requestId j with
        | none => fail .other ("read the winning execution for request " ++ requestId.quote)
        | some winner => return some winner
      else
        audit c actor "job_triggered" j (key.getD "") reason
        return key

/-- `jobOf`: the read that names the job before `AuthorizedRetry`'s transaction. -/
def jobOf (key : String) : StoreM String := do
  match (← get).executions.table.rows.find? (fun e => decide (e.executionKey = key)) with
  | none => fail .noSuchExecution key
  | some e => return e.jobName

def reviveWrite (c : Ctx) : ExecWrite where
  run e := { e with
    writeSeq := e.writeSeq + 1
    status := .ready
    maxAttempts := e.attemptNo + 1
    availableAt := c.now
    terminalReason := none
    finishedAt := none
    timeoutAt := none }
  info _ := rfl
  seq _ := rfl

/-- `AuthorizedRetry`, the transaction, for the job `jobOf` named. -/
def authorizedRetry (c : Ctx) (j key actor reason : String) : StoreM Unit := do
  if actor = "" ∨ reason = "" then
    fail .protocol "an authorized retry needs an actor and a reason"
  else
    let _ ← lockState c j
    let d ← readDefinition j
    if d.retired then
      fail .notRunnable ("job " ++ j.quote ++ " is retired; its executions cannot be revived")
    else
      let n ← updateExecs
        (fun e => decide (e.executionKey = key) && decide (e.jobName = j) && decide (e.status = .dead)) (reviveWrite c)
      if n = 0 then
        fail .protocol ("execution " ++ key.quote ++ " is not dead")
      else audit c actor "execution_retried" "" key reason

end GoJob
