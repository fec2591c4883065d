import GoJob.Dialog
import GoJob.Server
/-!
# Dispatch — from a ready candidate to an executor (`passes.go`, `client.go`)

`claimAndDispatch` chooses executors, claims the execution and sends it to one executor after another.  Everything it
learns on the way is a question of its thread: what the schema says, what the registry, the clocks and the engine's own
tables say, and what comes back from the wire.  The schema answers as the other modules say it does; the rest may answer
anything.
-/
namespace GoJob

open Sys Dialog

/-! ## The registry of executors -/

/-- `store.Executor`, with the handlers it declared. -/
structure Executor where
  executorId  : String
  group       : String
  address     : String
  capacity    : Int
  running     : Int
  handlers    : List String
  heartbeatAt : Utc
  deriving DecidableEq, Repr

/-- The registration answers for the handler, and for the group if one is named. -/
def Executor.serves (x : Executor) (handlerKey group : String) : Bool :=
  decide (handlerKey ∈ x.handlers) && (decide (group = "") || decide (x.group = group))

/-- The registrations as a query finds them, and the database clock it reads. -/
structure Registrations where
  rows : List Executor
  utc  : Utc

def Executor.live (x : Executor) (liveness : Int) (u : Utc) : Bool := decide (u - liveness ≤ x.heartbeatAt)

/-- `LiveExecutors`: the freshest heartbeat first. -/
def Registrations.liveExecutors (g : Registrations) (handlerKey group : String) (liveness : Int) : List Executor :=
  (g.rows.filter fun x => x.serves handlerKey group && x.live liveness g.utc).insertionSort fun x y =>
    y.heartbeatAt < x.heartbeatAt ∨ (y.heartbeatAt = x.heartbeatAt ∧ x.executorId ≤ y.executorId)

def Registrations.handlerIsServed (g : Registrations) (d : Definition) (liveness : Int) : Bool :=
  g.rows.any fun x => x.serves d.handlerKey d.executorGroup && x.live liveness g.utc

def groupSuffix (group : String) : String := if group = "" then "" else " in group " ++ group

/-- `runnableFor`: the claim's runnability check, with what the registry answers inside the transaction. -/
def runnableFor (liveness : Int) (regs : Except Err Registrations) (targets : List Executor) : Runnable :=
  fun _ d _ =>
    if !d.enabled || d.retired then
      .error ⟨.notRunnable, "job " ++ d.jobName.quote ++ " is disabled or retired"⟩
    else match regs with
      | .error err => .error err
      | .ok g =>
        if !g.handlerIsServed d liveness then
          .error ⟨.notRunnable, "no live executor declares handler " ++ d.handlerKey.quote ++
            groupSuffix d.executorGroup⟩
        else if targets.isEmpty then
          .error ⟨.notRunnable, "no executor was selected for " ++ d.jobName.quote⟩
        else .ok ()

def headroom (x : Executor) : Int := (if x.capacity ≤ 0 then 1 else x.capacity) - x.running

/-- The order `pickExecutors` sorts by: healthy paths first, then the most headroom. -/
def preferred (healthy : String → Bool) (x y : Executor) : Prop :=
  healthy x.executorId = true ∧ healthy y.executorId = false ∨
    healthy x.executorId = healthy y.executorId ∧ headroom y ≤ headroom x

instance (healthy : String → Bool) : DecidableRel (preferred healthy) := fun x y => by
  unfold preferred; infer_instance

/-- The leaders: as healthy and as idle as the first. -/
def leaders (healthy : String → Bool) : List Executor → Nat
  | [] => 0
  | x :: xs => ((x :: xs).takeWhile fun y =>
      decide (healthy y.executorId = healthy x.executorId) && decide (headroom y = headroom x)).length

/-- What `pickExecutors` does with the live executors: sort them, and let the leaders take turns. -/
def ranked (healthy : String → Bool) (rotation : Nat) (live : List Executor) : List Executor :=
  let sorted := live.insertionSort (preferred healthy)
  let lead := leaders healthy sorted
  if 1 < lead then
    let n := rotation % lead
    (sorted.take lead).drop n ++ sorted.take n ++ sorted.drop lead
  else sorted

/-! ## The wire -/

abbrev Params := List (String × String)

structure RunSpec where
  address          : String
  tenant           : String
  executionKey     : String
  runToken         : String
  jobName          : String
  handlerKey       : String
  attempt          : Nat
  scheduledAt      : Instant
  silenceDeadline  : Int
  remainingTimeout : Int
  params           : Params
  deriving DecidableEq, Repr

/-- `dispatch.Answer`. -/
inductive DispatchAnswer
  | accepted | refused | unknown
  deriving DecidableEq, Repr

/-- `dispatch.Result`, without what only metrics and logs read. -/
structure RunResult where
  answer    : DispatchAnswer
  heldToken : String := ""
  deriving DecidableEq, Repr

/-- What a `Run` call ends with.  The last two are errors: a status `ALREADY_EXISTS` with the token in its details, and
any other status or transport error. -/
inductive RunReply
  | noConnection
  | unencodable
  | response (executionKey runToken : String) (refused : Bool)
  | alreadyExists (held : String)
  | failed
  deriving DecidableEq, Repr

/-- `classifyRun`, and the two answers `Client.Run` gives before anything is sent. -/
def classifyRun (sent : RunSpec) : RunReply → RunResult
  | .noConnection => ⟨.refused, ""⟩
  | .unencodable  => ⟨.refused, ""⟩
  | .response key token refused =>
    if key ≠ "" ∧ key ≠ sent.executionKey then ⟨.unknown, ""⟩
    else if token ≠ "" ∧ token ≠ sent.runToken then ⟨.unknown, token⟩
    else if refused then ⟨.refused, ""⟩
    else ⟨.accepted, ""⟩
  | .alreadyExists held => if held = "" then ⟨.unknown, ""⟩ else ⟨.accepted, held⟩
  | .failed => ⟨.unknown, ""⟩

/-! ## The thread's questions -/

/-- The engine's configuration, and `json.Unmarshal` into an object: `none` if the text is none, `some none` for a
null. -/
structure Config where
  instanceId       : String
  tenant           : String
  executorLiveness : Int
  resendLimit      : Nat
  resendWindow     : Instant
  silenceSeconds   : Int
  unmarshal        : String → Option (Option Params)

/-- What an engine's thread asks. -/
inductive Ask
  | definition (job : String)
  | executionByKey (key : String)
  | registrations
  | claim (p : ClaimParams) (targets : List Executor)
  | call (a : Action)
  | run (spec : RunSpec)
  | stopping
  | now
  | wait (d : Instant)
  | holdRemaining (id epoch : Nat) (lease : Int)
  | track (h : Holder) (since : Instant)
  | untrack (id epoch : Nat)
  | health
  | rotation
  | markUnhealthy (executorId : String)
  | backoff
  | newToken

/-- The answers; a `wait` is answered `true` when the time has passed and nothing stopped the engine. -/
abbrev Ask.Answer : Ask → Type
  | .definition _ => Except Err Definition
  | .executionByKey _ => Except Err Stale
  | .registrations => Except Err Registrations
  | .claim _ _ => Except Err ClaimResult
  | .call _ => Except Err Unit
  | .run _ => RunReply
  | .stopping => Bool
  | .now => Instant
  | .wait _ => Bool
  | .holdRemaining _ _ _ => Int
  | .track _ _ => Unit
  | .untrack _ _ => Unit
  | .health => String → Bool
  | .rotation => Nat
  | .markUnhealthy _ => Unit
  | .backoff => Int
  | .newToken => String

abbrev Thread := Dialog Ask.Answer

abbrev query (q : Ask) : Thread q.Answer := say q

/-- The database failed the call: the driver's error wraps no sentinel. -/
def DbFailed {α : Type} (r : Except Err α) : Prop := ∃ detail, r = .error ⟨.other, detail⟩

/-- A transaction: it commits and its answer arrives, or the answer is lost, or it fails before it commits. -/
def Transacts (env : Env) {α : Type} (w : World) (a : Action) (answer : Ctx → Except Err α) (r : Except Err α)
    (w' : World) : Prop :=
  (∃ c, Step env w (a, c) w' ∧ (r = answer c ∨ DbFailed r)) ∨ (w' = w ∧ DbFailed r)

/-- `ExecutionByKey` as its callers see it. -/
def DB.readExecution (db : DB) (u : Utc) (key : String) : Except Err Stale :=
  match db.executionByKey u key with
  | none   => .error ⟨.noSuchExecution, key⟩
  | some v => .ok v

/-- How the schema answers a thread, at one moment.  Nothing is assumed of the other answers. -/
def Serves (env : Env) (liveness : Int) (w : World) (q : Ask) (r : q.Answer) (w' : World) : Prop :=
  match q, r with
  | .claim p targets, r => ∃ regs, Transacts env w (.claim p (runnableFor liveness regs targets))
      (fun c => (claim c p (runnableFor liveness regs targets) w.db).map Prod.fst) r w'
  | .call a, r => Transacts env w a (fun c => answer env w (a, c)) r w'
  | .definition j, r => w' = w ∧ (r = (readDefinition j w.db).map Prod.fst ∨ DbFailed r)
  | .executionByKey key, r => w' = w ∧ ((∃ u, w.utc ≤ u ∧ r = w.db.readExecution u key) ∨ DbFailed r)
  | _, _ => w' = w

/-! ## The dispatch -/

def releaseUndispatchable (p : ClaimParams) (epoch : Nat) : Thread Unit := do
  let _ ← query (.call (.refuse p epoch))
  query (.untrack p.executionId epoch)

/-- Before a re-send: the window, the stop and what is left of the cap.  `none` ends the attempt. -/
def refreshBudget (h : Holder) (target : Executor) (deadline : Instant) : Thread (Option Int) := do
  let now ← query .now
  if deadline < now then
    query (.markUnhealthy target.executorId)
    return none
  else if ← query .stopping then
    return none
  else
    match ← query (.executionByKey h.executionKey) with
    | .error _ => return none
    | .ok cur => if cur.remainingTimeout ≤ 0 then return none else return some cur.remainingTimeout

/-- The reply to a `Run`: the answer it settles, or `none` if the outcome is unknown. -/
def settleReply (cfg : Config) (h : Holder) (res : RunResult) : Thread (Option DispatchAnswer) :=
  match res.answer with
  | .accepted =>
    -- The executor runs another attempt of this execution.
    if res.heldToken ≠ "" ∧ res.heldToken ≠ h.runToken then return some .unknown
    else do
      match ← query (.call (.accept h.executionId h.runToken h.fenceEpoch cfg.silenceSeconds)) with
      | .ok () => return some .accepted
      | .error _ =>
        query (.untrack h.executionId h.fenceEpoch)
        return some .unknown
  | .refused => return some .refused
  | .unknown => return none

/-- One round of the loop in `attemptDispatch`: the gates, the call and its reply.  It also returns the budget it sent,
which the next round starts from. -/
def sendOnce (cfg : Config) (h : Holder) (d : Definition) (target : Executor) (deadline : Instant) (spec : RunSpec)
    (attempt : Nat) (remaining : Int) : Thread (Int × Option DispatchAnswer) := do
  if ← query .stopping then
    return (remaining, some .unknown)
  else
    let ownership ← query (.holdRemaining h.executionId h.fenceEpoch d.lease)
    if ownership ≤ 0 then
      query (.untrack h.executionId h.fenceEpoch)
      return (remaining, some .unknown)
    else
      match ← (if 0 < attempt then refreshBudget h target deadline else return some remaining) with
      | none => return (remaining, some .unknown)
      | some remaining =>
        let now ← query .now
        if min ownership (deadline - now) ≤ 0 then
          query (.untrack h.executionId h.fenceEpoch)
          return (remaining, some .unknown)
        else
          let reply ← query (.run { spec with remainingTimeout := remaining })
          let settled ← settleReply cfg h (classifyRun { spec with remainingTimeout := remaining } reply)
          return (remaining, settled)

/-- The end of a round: what settled it, or `resend` with the budget of the next. -/
def settledOr (resend : Int → Thread DispatchAnswer) : Int × Option DispatchAnswer → Thread DispatchAnswer
  | (_, some a)         => return a
  | (remaining, none)   => resend remaining

/-- `attemptDispatch`, with so many re-sends to go. -/
def attemptDispatch (cfg : Config) (h : Holder) (d : Definition) (target : Executor) (deadline : Instant)
    (spec : RunSpec) : Nat → Nat → Int → Thread DispatchAnswer
  | 0, attempt, remaining => do
    let round ← sendOnce cfg h d target deadline spec attempt remaining
    settledOr (fun _ => do
      query (.markUnhealthy target.executorId)
      return .unknown) round
  | left + 1, attempt, remaining => do
    let round ← sendOnce cfg h d target deadline spec attempt remaining
    settledOr (fun remaining => do
      if ← query (.wait ((attempt + 1) * (second / 2))) then
        attemptDispatch cfg h d target deadline spec left (attempt + 1) remaining
      else return .unknown) round

def decodeParams (cfg : Config) (raw : Option String) : Option Params :=
  if raw.getD "" = "" then some [] else (cfg.unmarshal (raw.getD "")).map (·.getD [])

/-- What every send of one dispatch has in common. -/
structure Delivery where
  cfg      : Config
  holder   : Holder
  def_     : Definition
  snapshot : Stale
  claimed  : ClaimParams
  params   : Params
  deadline : Instant

/-- The request to one executor. -/
def Delivery.spec (x : Delivery) (target : Executor) (remaining : Int) : RunSpec where
  address := target.address
  tenant := x.cfg.tenant
  executionKey := x.holder.executionKey
  runToken := x.holder.runToken
  jobName := x.def_.jobName
  handlerKey := x.def_.handlerKey
  attempt := x.snapshot.attemptNo + 1
  scheduledAt := x.snapshot.scheduledAt
  silenceDeadline := x.cfg.silenceSeconds * second
  remainingTimeout := remaining
  params := x.params

/-- Before another executor is tried: the cap is read again and the new target recorded.  `none` ends the dispatch. -/
def Delivery.reroute (x : Delivery) (target : Executor) : Thread (Option Int) := do
  match ← query (.executionByKey x.holder.executionKey) with
  | .error _ =>
    releaseUndispatchable x.claimed x.holder.fenceEpoch
    return none
  | .ok cur =>
    if cur.remainingTimeout ≤ 0 then
      releaseUndispatchable x.claimed x.holder.fenceEpoch
      return none
    else
      match ← query (.call (.retarget x.holder target.executorId)) with
      | .ok () => return some cur.remainingTimeout
      | .error err =>
        if err.kind = .fenced then query (.untrack x.holder.executionId x.holder.fenceEpoch)
        else releaseUndispatchable x.claimed x.holder.fenceEpoch
        return none

/-- The loop of `dispatch`; `remaining` is known for the first target only. -/
def Delivery.tryEach (x : Delivery) : Option Int → List Executor → Thread Unit
  | _, [] => releaseUndispatchable x.claimed x.holder.fenceEpoch
  | first, target :: targets => do
    match ← (match first with
      | some remaining => pure (some remaining)
      | none => x.reroute target) with
    | none => return ()
    | some remaining =>
      match ← attemptDispatch x.cfg x.holder x.def_ target x.deadline (x.spec target remaining)
          (x.cfg.resendLimit - 1) 0 remaining with
      | .accepted => return ()
      | .unknown => query (.untrack x.holder.executionId x.holder.fenceEpoch)
      | .refused => x.tryEach none targets

def dispatch (cfg : Config) (h : Holder) (d : Definition) (snapshot : Stale) (targets : List Executor)
    (p : ClaimParams) : Thread Unit :=
  match decodeParams cfg snapshot.params with
  | none => releaseUndispatchable p h.fenceEpoch
  | some params =>
    if snapshot.remainingTimeout ≤ 0 then releaseUndispatchable p h.fenceEpoch
    else do
      let now ← query .now
      Delivery.tryEach ⟨cfg, h, d, snapshot, p, params, now + cfg.resendWindow⟩ (some snapshot.remainingTimeout) targets

/-! ## Claiming -/

/-- `pickExecutors`; an empty list stands for its error. -/
def pickExecutors (cfg : Config) (d : Definition) : Thread (List Executor) := do
  match ← query .registrations with
  | .error _ => return []
  | .ok g =>
    let live := g.liveExecutors d.handlerKey d.executorGroup cfg.executorLiveness
    if live.isEmpty then return []
    else
      let healthy ← query .health
      let rotation ← query .rotation
      return ranked healthy rotation live

/-- The part of `claimAndDispatch` behind a claim that acquired the lock. -/
def dispatchClaimed (cfg : Config) (p : ClaimParams) (res : ClaimResult) (targets : List Executor)
    (claimedAt : Instant) : Thread Unit := do
  let h : Holder := ⟨p.jobName, p.executionId, p.executionKey, cfg.instanceId, p.runToken, res.fenceEpoch⟩
  query (.track h claimedAt)
  if targets.isEmpty then releaseUndispatchable p res.fenceEpoch
  else
    match ← query (.executionByKey p.executionKey) with
    | .error _ => releaseUndispatchable p res.fenceEpoch
    | .ok snapshot => dispatch cfg h res.definition snapshot targets p

/-- What `claimAndDispatch` does with the claim's answer. -/
def afterClaim (cfg : Config) (p : ClaimParams) (targets : List Executor) (claimedAt : Instant) :
    Except Err ClaimResult → Thread Unit
  | .error _ => return ()
  | .ok res =>
    match res.outcome with
    | .acquired => dispatchClaimed cfg p res targets claimedAt
    | _ => return ()

/-- `claimAndDispatch`, with the definition it has read. -/
def claimUnder (cfg : Config) (id : Nat) (jobName executionKey : String) (d : Definition) : Thread Unit := do
  let targets ← pickExecutors cfg d
  let token ← query .newToken
  let backoff ← query .backoff
  let p : ClaimParams := ⟨id, jobName, executionKey, cfg.instanceId, (targets.head?.map (·.executorId)).getD "", token,
    backoff⟩
  if ← query .stopping then return ()
  else
    let claimedAt ← query .now
    let answer ← query (.claim p targets)
    afterClaim cfg p targets claimedAt answer

def claimAndDispatch (cfg : Config) (id : Nat) (jobName executionKey : String) : Thread Unit := do
  match ← query (.definition jobName) with
  | .error _ => return ()
  | .ok d => claimUnder cfg id jobName executionKey d

/-! ## Concrete dialogs -/

/-- An environment in which nothing stops the engine: the schema answers at once, at the second it shows, and the calls
of `Run` end as the script says. -/
def obliging (env : Env) (liveness : Int) (regs : Registrations) (script : List RunReply) (w : World) :
    (q : Ask) → q.Answer × World × List RunReply
  | .definition j => ((readDefinition j w.db).map Prod.fst, w, script)
  | .executionByKey key => (w.db.readExecution w.utc key, w, script)
  | .registrations => (.ok regs, w, script)
  | .claim p targets =>
    if p.runToken ∈ w.issued then (.error ⟨.other, "token used before"⟩, w, script)
    else ((claim (Ctx.at_ w.utc) p (runnableFor liveness (.ok regs) targets) w.db).map Prod.fst,
      w.call env (.claim p (runnableFor liveness (.ok regs) targets)) w.utc, script)
  | .call a =>
    if a.mints = none then (answer env w (a, Ctx.at_ w.utc), w.call env a w.utc, script)
    else (.error ⟨.other, "not a call of this thread"⟩, w, script)
  | .run _ => (script.headD .failed, w, script.tail)
  | .stopping => (false, w, script)
  | .now => (w.utc * second, w, script)
  | .wait _ => (true, w, script)
  | .holdRemaining _ _ lease => (lease - lease / 5, w, script)
  | .track _ _ => ((), w, script)
  | .untrack _ _ => ((), w, script)
  | .health => (fun _ => true, w, script)
  | .rotation => (0, w, script)
  | .markUnhealthy _ => ((), w, script)
  | .backoff => (5, w, script)
  | .newToken => ("token-" ++ toString w.issued.length, w, script)

theorem obliging_serves (env : Env) (liveness : Int) (regs : Registrations) (script : List RunReply) (w : World)
    (q : Ask) : Serves env liveness w q (obliging env liveness regs script w q).1
      (obliging env liveness regs script w q).2.1 := by
  cases q with
  | claim p targets =>
    refine ⟨.ok regs, ?_⟩
    by_cases ht : p.runToken ∈ w.issued
    · refine Or.inr ?_
      simp only [obliging, if_pos ht]
      exact ⟨trivial, _, rfl⟩
    · refine Or.inl ⟨Ctx.at_ w.utc, ?_⟩
      simp only [obliging, if_neg ht]
      exact ⟨World.step_call env (le_refl _) (by simpa [Action.mints] using ht), Or.inl trivial⟩
  | call a =>
    by_cases ha : a.mints = none
    · refine Or.inl ⟨Ctx.at_ w.utc, ?_⟩
      simp only [obliging, if_pos ha]
      exact ⟨World.step_call env (le_refl _) (by simp [ha]), Or.inl trivial⟩
    · refine Or.inr ?_
      simp only [obliging, if_neg ha]
      exact ⟨trivial, _, rfl⟩
  | definition j => exact ⟨rfl, Or.inl rfl⟩
  | executionByKey key => exact ⟨rfl, Or.inl ⟨w.utc, le_refl _, rfl⟩⟩
  | _ => rfl

end GoJob
