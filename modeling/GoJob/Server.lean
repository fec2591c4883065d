import GoJob.Attempts
import GoJob.Calls
/-!
# Server — the executors' callbacks (`server.go`, `outcome.go`)

An executor reports progress and results, and declares what it holds when it registers.  A callback is not one
transaction: each of its reads and writes is, so anything may commit in between.  It writes under the epoch it read, and
tries once more when it finds that recovery adopted the same attempt meanwhile.
-/
namespace GoJob

/-! ## Outcomes -/

/-- `gojobv1.Disposition`. -/
inductive Disposition
  | unspecified | success | failed | stopped | timedOut
  deriving DecidableEq, Repr

/-- `gojobv1.ExecutionOutcome`. -/
structure ExecutionOutcome where
  disposition : Disposition
  failureKind : String := ""
  errorDetail : String := ""
  summary     : String := ""
  deriving DecidableEq, Repr

structure Decision where
  status         : Status
  terminalReason : TerminalReason
  attempt        : AttemptOutcome
  retryable      : Bool
  deriving DecidableEq, Repr

def permanent (kind : String) : Bool := decide (kind = "permanent") || kind.startsWith "permanent."

def classify (d : Disposition) (failureKind : String) : Decision :=
  match d with
  | .success  => ⟨.success, .handlerConfirmed, .success, false⟩
  | .stopped  => ⟨.cancelled, .handlerConfirmed, .failed, false⟩
  | .timedOut => ⟨.dead, .timeout, .failed, false⟩
  | _ =>
    if permanent failureKind then ⟨.dead, .permanentFailure, .failed, false⟩
    else ⟨.dead, .empty, .failed, true⟩

theorem classify_terminal (d : Disposition) (kind : String) : (classify d kind).status.terminal = true := by
  cases d <;> first | rfl | (simp only [classify]; split <;> rfl)

/-- What `outcome.Apply` hands to the store. -/
def ExecutionOutcome.toOutcome (oc : ExecutionOutcome) (executorId : String) : Outcome where
  status := (classify oc.disposition oc.failureKind).status
  terminalReason := (classify oc.disposition oc.failureKind).terminalReason
  attemptOutcome := (classify oc.disposition oc.failureKind).attempt
  failureKind := oc.failureKind
  errorMessage := oc.errorDetail
  resultSummary := oc.summary
  executorId := executorId

/-- `outcome.Apply`: the one transaction it runs. -/
def apply (h : Holder) (oc : ExecutionOutcome) (executorId : String) (backoffSeconds : Int) : Action :=
  if (classify oc.disposition oc.failureKind).retryable then .retry h (oc.toOutcome executorId) backoffSeconds
  else .complete h (oc.toOutcome executorId)

/-! ## Callbacks as programs -/

/-- What a callback reads: the attempt's history, or the execution row. -/
inductive Query
  | history | execution
  deriving DecidableEq, Repr

/-- A callback: statements and transactions in an order that depends on their answers. -/
abbrev CallM (ρ : Type) := Sys.Prog World Action (Except Err Unit) Query Utc ρ

/-- The answer of a store call. -/
def answer (env : Env) (w : World) (l : Action × Ctx) : Except Err Unit := (l.1.tx env l.2 w.db).map Prod.fst

theorem answer_ok {env : Env} {w : World} {l : Action × Ctx} (h : answer env w l = .ok ()) :
    l.1.tx env l.2 w.db = .ok ((), (l.1.tx env l.2).commit w.db) := by
  rcases Rel.Tx.commit_cases (l.1.tx env l.2) w.db with ⟨err, herr, -⟩ | ⟨_, hok⟩
  · unfold answer at h
    rw [herr] at h; cases h
  · exact hok

/-- A call that succeeds leaves what its transaction committed. -/
theorem Step.tx_ok {env : Env} {w w' : World} {l : Action × Ctx} (hst : Step env w l w')
    (h : answer env w l = .ok ()) : l.1.tx env l.2 w.db = .ok ((), w'.db) := by
  rw [hst.db]
  exact answer_ok h

/-- The same for a transaction whose own answer says more. -/
theorem Step.db_of_ok {env : Env} {w w' : World} {a : Action} {c : Ctx} {α : Type} {x : StoreM α} {r : α} {db' : DB}
    (hst : Step env w (a, c) w') (htx : a.tx env c = unit x) (hx : x w.db = .ok (r, db')) : w'.db = db' := by
  have hok : a.tx env c w.db = .ok ((), db') := by
    rw [htx]
    exact Rel.Tx.bind_of_ok hx
  exact hst.db.trans (Rel.Tx.commit_of_ok hok)

/-- One callback among all the other calls, from `w` to the moment it returns. -/
abbrev Callback {ρ : Type} (env : Env) (p : CallM ρ) (w : World) (ev : List (Sys.Event World (Action × Ctx) Query))
    (r : ρ) (w' : World) : Prop := Sys.Exec (Step env) (answer env) 0 p w ev r w'

/-- The text of a sentinel. -/
def Sentinel.text : Sentinel → String
  | .contended       => "gojob: job is held by another execution"
  | .fenced          => "gojob: attempt is fenced"
  | .missingState    => "gojob: job state row is missing"
  | .protocol        => "gojob: protocol invariant violated"
  | .notRunnable     => "gojob: job is not runnable"
  | .noSuchExecution => "gojob: no such execution"
  | .capElapsed      => "gojob: execution passed its runtime cap during reconciliation"
  | .noSuchAttempt   => "gojob: no result recorded for this attempt"
  | .noSuchJob       => "gojob: no such job"
  | .staleVersion    => "gojob: job was modified by someone else"
  | .other           => ""

/-- `err.Error()`. -/
def Err.text (e : Err) : String := if e.kind = .other then e.detail else e.kind.text ++ ": " ++ e.detail

/-- The gRPC codes the callbacks answer with. -/
inductive Code
  | invalidArgument | notFound | aborted | unavailable | internal
  deriving DecidableEq, Repr

/-- `status.Error`. -/
structure RpcError where
  code    : Code
  message : String
  deriving DecidableEq, Repr

/-- `ExecutionByKey`, when the database clock shows `u`. -/
def DB.executionByKey (db : DB) (u : Utc) (key : String) : Option Stale :=
  (db.executions.table.rows.find? (fun e => decide (e.executionKey = key))).map (fun e => e.toStale u)

/-- `roundUpSeconds`, of a duration in nanoseconds. -/
def roundUpSeconds (d : Int) : Int :=
  if d ≤ 0 then 0 else if (d + second - 1) / second < 1 then 1 else (d + second - 1) / second

namespace Server

inductive Availability
  | available | pending | unknown
  deriving DecidableEq, Repr

/-- `resolve`, for what the fence and the registry answered. -/
def resolve (fenced : Bool) (tenant : String) (avail : Availability) : Except RpcError Unit :=
  if fenced then .error ⟨.unavailable, "scheduler is fenced from the control database"⟩
  else if tenant = "" then .error ⟨.invalidArgument, "tenant is required"⟩
  else match avail with
    | .available => .ok ()
    | .pending   => .error ⟨.unavailable, "this scheduler has not admitted that tenant yet"⟩
    | .unknown   => .error ⟨.notFound, "unknown tenant"⟩

/-- `retryPastAdoption`: a write that is refused runs once more if the row still carries the token under another
epoch.  `write` is told which of the two it is. -/
def retryPastAdoption {ρ : Type} (h : Holder) (write : Nat → Holder → Action)
    (k : Except Err Unit → CallM ρ) : CallM ρ :=
  .call (write 0 h) fun answer =>
    match answer with
    | .ok () => k (.ok ())
    | .error err =>
      if err.kind ≠ .fenced then k (.error err)
      else .read .execution fun u w =>
        match w.db.executionByKey u h.executionKey with
        | none => k (.error err)
        | some row =>
          if row.runToken ≠ h.runToken ∨ row.fenceEpoch = h.fenceEpoch then k (.error err)
          else .call (write 1 { h with fenceEpoch := row.fenceEpoch }) k

/-! ### ReportResult -/

structure ReportResultRequest where
  executionKey : String
  runToken     : String
  outcome      : Option ExecutionOutcome
  deriving DecidableEq, Repr

structure ReportResultResponse where
  alreadyRecorded : Bool
  deriving DecidableEq, Repr

abbrev ResultReply := Except RpcError ReportResultResponse

def fencedReply : ResultReply := .error ⟨.aborted, "this attempt has been fenced"⟩

/-- The second look at the history, before a refused write is called fenced. -/
def askHistory (req : ReportResultRequest) : CallM ResultReply :=
  .read .history fun _ w =>
    match w.db.attempt? req.executionKey req.runToken with
    | some _ => .ret (.ok ⟨true⟩)
    | none   => .ret fencedReply

/-- The part of `ReportResult` that has found its row: write, and say what became of it. -/
def writeResult (backoff : Nat → Int) (req : ReportResultRequest) (oc : ExecutionOutcome) (row : Stale) :
    CallM ResultReply :=
  retryPastAdoption row.holder (fun n h => apply h oc row.dispatchedTo (backoff n))
    fun answer => match answer with
      | .ok () => .ret (.ok ⟨false⟩)
      | .error err =>
        if err.kind = .fenced then askHistory req
        else .ret (.error ⟨.internal, "record result: " ++ err.text⟩)

/-- The part of `ReportResult` behind its checks: the history, the row, the write. -/
def recordResult (backoff : Nat → Int) (req : ReportResultRequest) (oc : ExecutionOutcome) : CallM ResultReply :=
  .read .history fun _ w =>
    match w.db.attempt? req.executionKey req.runToken with
    | some _ => .ret (.ok ⟨true⟩)
    | none =>
      .read .execution fun u w =>
        match w.db.executionByKey u req.executionKey with
        | none => .ret (.error ⟨.notFound, "unknown execution"⟩)
        | some row =>
          if row.runToken ≠ req.runToken then .ret fencedReply
          else writeResult backoff req oc row

/-- `ReportResult`.  `gate` is what `resolve` answered, `backoff` the delays `s.backoffSeconds()` returns. -/
def reportResult (gate : Except RpcError Unit) (backoff : Nat → Int) (req : ReportResultRequest) : CallM ResultReply :=
  match gate with
  | .error e => .ret (.error e)
  | .ok () =>
    if req.executionKey = "" ∨ req.runToken = "" then
      .ret (.error ⟨.invalidArgument, "execution_key and run_token are required"⟩)
    else match req.outcome with
      | none => .ret (.error ⟨.invalidArgument, "outcome is required"⟩)
      | some oc =>
        if oc.disposition = .unspecified then
          .ret (.error ⟨.invalidArgument,
            "outcome.disposition is required; it is what says whether the work succeeded"⟩)
        else recordResult backoff req oc

/-! ### ReportProgress -/

structure ReportProgressRequest where
  executionKey : String
  runToken     : String
  deriving DecidableEq, Repr

structure ReportProgressResponse where
  proceed                : Bool
  silenceDeadlineSeconds : Int := 0
  deriving DecidableEq, Repr

abbrev ProgressReply := Except RpcError ReportProgressResponse

/-- `ReportProgress`, with a silence deadline in nanoseconds. -/
def reportProgress (gate : Except RpcError Unit) (silenceDeadline : Int) (req : ReportProgressRequest) :
    CallM ProgressReply :=
  match gate with
  | .error e => .ret (.error e)
  | .ok () =>
    .read .execution fun u w =>
      match w.db.executionByKey u req.executionKey with
      | none => .ret (.ok { proceed := false })
      | some row =>
        if row.status = .cancelRequested then .ret (.ok { proceed := false })
        else retryPastAdoption { row.holder with runToken := req.runToken }
          (fun _ h => .extendDeadline h (roundUpSeconds silenceDeadline))
          fun answer => match answer with
            | .ok () => .ret (.ok ⟨true, roundUpSeconds silenceDeadline⟩)
            | .error err =>
              if err.kind = .fenced then .ret (.ok { proceed := false })
              else .ret (.error ⟨.internal, "extend deadline: " ++ err.text⟩)

/-! ### Register -/

/-- `gojobv1.InFlight`: an execution the executor says it is running, and under which token. -/
structure InFlight where
  executionKey : String
  runToken     : String
  deriving DecidableEq, Repr

/-- What `reconcileInFlight` decides about one declaration, on the row it reads. -/
def supersedes (db : DB) (u : Utc) (c : InFlight) : Bool :=
  if c.executionKey = "" then false
  else match db.executionByKey u c.executionKey with
    | none     => true
    | some row => row.status.terminal || decide (row.runToken = "") || decide (row.runToken ≠ c.runToken)

/-- `reconcileInFlight`.  It reads one row after another, so each declaration comes with the schema its read finds. -/
def reconcileInFlight (claims : List (InFlight × DB × Utc)) : List String :=
  (claims.filter (fun p => supersedes p.2.1 p.2.2 p.1)).map (fun p => p.1.executionKey)

end Server

/-! ## Concrete callbacks -/

/-- A callback under a schedule: before each of its steps some calls of others, and the second of the step.  `n` steps
are made; after the last one nobody acts. -/
def playCall {ρ : Type} (env : Env) : Nat → CallM ρ → World → List (List (Action × Int) × Int) →
    Option (List (Sys.Event World (Action × Ctx) Query) × ρ × World)
  | _, .ret r, w, [] => some ([], r, w)
  | n, .read q k, w, (calls, t) :: rest =>
    if Timely w.utc w.issued calls then
      (playCall env (n + 1) (k t (w.play env calls)) (w.play env calls) rest).map fun p =>
        (Sys.others n (w.trace env calls) ++ .read q (w.play env calls) :: p.1, p.2)
    else none
  | n, .call a k, w, (calls, t) :: rest =>
    let w₁ := w.play env calls
    if Timely w.utc w.issued calls ∧ w₁.utc ≤ t ∧ a.mints.all (fun x => decide (x ∉ w₁.issued)) = true then
      (playCall env (n + 1) (k (answer env w₁ (a, Ctx.at_ t))) (w₁.call env a t) rest).map fun p =>
        (Sys.others n (w.trace env calls) ++ .own (w₁, (a, Ctx.at_ t), w₁.call env a t) :: p.1, p.2)
    else none
  | _, _, _, _ => none

theorem exec_others {ρ : Type} {env : Env} {n : Nat} {p : CallM ρ} {ev : List (Sys.Event World (Action × Ctx) Query)}
    {r : ρ} {w' : World} : ∀ (calls : List (Action × Int)) (w : World), Timely w.utc w.issued calls = true →
    Sys.Exec (Step env) (answer env) n p (w.play env calls) ev r w' →
    Sys.Exec (Step env) (answer env) n p w (Sys.others n (w.trace env calls) ++ ev) r w'
  | [], _, _, h => h
  | (a, t) :: calls, w, ht, h => by
    simp only [Timely, Bool.and_eq_true, decide_eq_true_eq] at ht
    exact .other (World.step_call env ht.1.1 ht.1.2) (exec_others calls (w.call env a t) ht.2 h)

/-- **What is played is a callback.** -/
theorem playCall_exec {ρ : Type} {env : Env} {n : Nat} {p : CallM ρ} {w : World}
    {sched : List (List (Action × Int) × Int)} {ev : List (Sys.Event World (Action × Ctx) Query)} {r : ρ} {w' : World}
    (h : playCall env n p w sched = some (ev, r, w')) : Sys.Exec (Step env) (answer env) n p w ev r w' := by
  induction p generalizing n w sched ev with
  | ret r₀ =>
    cases sched with
    | nil => cases h; exact .ret
    | cons => cases h
  | read q k ih =>
    cases sched with
    | nil => cases h
    | cons c rest =>
      obtain ⟨calls, t⟩ := c
      unfold playCall at h
      split at h
      · rename_i ht
        obtain ⟨⟨ev', r', w₁⟩, hp, heq⟩ := Option.map_eq_some_iff.1 h
        cases heq
        exact exec_others calls w ht (.read t (ih _ _ hp))
      · cases h
  | call a k ih =>
    cases sched with
    | nil => cases h
    | cons c rest =>
      obtain ⟨calls, t⟩ := c
      unfold playCall at h
      simp only at h
      split at h
      · rename_i ht
        obtain ⟨⟨ev', r', w₁⟩, hp, heq⟩ := Option.map_eq_some_iff.1 h
        cases heq
        exact exec_others calls w ht.1 (.call (World.step_call env ht.2.1 ht.2.2) (ih _ hp))
      · cases h

theorem playCall_checked {ρ : Type} (env : Env) (w : World) (p : CallM ρ)
    (q : List (Sys.Event World (Action × Ctx) Query) → ρ → World → Bool) (sched : List (List (Action × Int) × Int))
    (h : (playCall env 0 p w sched).any (fun c => q c.1 c.2.1 c.2.2) = true) :
    ∃ ev r w', Callback env p w ev r w' ∧ q ev r w' = true := by
  obtain ⟨⟨ev, r, w'⟩, hplay, hq⟩ := (Option.any_eq_true _ _).1 h
  exact ⟨ev, r, w', playCall_exec hplay, hq⟩

/-- Execution 1 of the poll job `sync` under token `t1`, as a scan reads it. -/
def scannedPass (key : String) (epoch : Nat) : Stale where
  id := 1
  executionKey := key
  jobName := "sync"
  status := .running
  dispatchedTo := "executor"
  runToken := "t1"
  fenceEpoch := epoch
  attemptNo := 1
  maxAttempts := 2
  recoveryCount := 0
  maxRecoveries := 2
  timeoutExpired := false
  silenceExpired := false
  leaseLive := false
  remainingTimeout := 0
  scheduledAt := second
  params := none

end GoJob
