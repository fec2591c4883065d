import GoJob.Admin
import GoJob.Claim
import GoJob.FencedLock
import GoJob.Lease
import GoJob.Recovery
import GoJob.Retention
/-!
# System — any number of schedulers over one schema

The store's transactions interleave freely: a step is one call, by whoever makes it, with whatever arguments.  Arguments
may be stale or wrong, since they come from unlocked scans and from executors.  Two things are assumed of the
environment: the database clock never runs backwards, and the run token of a claim was never used by another.
-/
namespace GoJob

open Rel

/-- One store transaction and its arguments. -/
inductive Action
  | claim (p : ClaimParams) (runnable : Runnable)
  | accept (i : Nat) (runToken : String) (epoch : Nat) (silenceSeconds : Int)
  | retarget (h : Holder) (executorId : String)
  | refuse (p : ClaimParams) (epoch : Nat)
  | renew (h : Holder) (leaseSeconds : Int)
  | extendDeadline (h : Holder) (silenceSeconds : Int)
  | complete (h : Holder) (o : Outcome)
  | retry (h : Holder) (o : Outcome) (backoffSeconds : Int)
  | requestCancel (i : Nat) (actor reason : String)
  | adopt (v : Stale) (newOwner : String) (leaseSeconds silenceSeconds : Int) (promote : Bool)
  | resolve (v : Stale) (backoffSeconds : Int)
  | fenceTimedOut (v : Stale)
  | expireSilent (v : Stale)
  | releaseAsOwner (h : Holder)
  | retire (j actor reason : String)
  | trigger (j requestId actor reason params : String)
  | authorizedRetry (j key actor reason : String)
  | materializeCron (j : String) (compile : Compile) (grace : Instant)
  | materializePoll (j key : String) (compile : Compile)
  | recompute (j : String) (compile : Compile)
  | reapExecutions (successRetention otherRetention : Instant) (limit : Int)
  | createJob (d : Definition) (nextFire : Instant) (actor reason : String)
  | updateJob (d : Definition) (expectVersion : Nat) (actor reason : String)
  | copyJobs (seeds : List JobSeed) (source actor reason : String)
  | syncJobs (seeds : List JobSeed) (source actor reason : String)
  | syncJobDescriptions (descriptions : List (String × String)) (actor reason : String)
  | setPaused (j : String) (paused : Bool) (actor reason : String)

/-- A transaction whose answer the caller drops. -/
def unit {α : Type} (x : StoreM α) : StoreM Unit := do let _ ← x

/-- The transaction an action runs. -/
def Action.tx (env : Env) (c : Ctx) : Action → StoreM Unit
  | .claim p runnable => unit (GoJob.claim c p runnable)
  | .accept i t n s => GoJob.accept c i t n s
  | .retarget h x => GoJob.retarget h x
  | .refuse p n => GoJob.refuse c p n
  | .renew h l => GoJob.renew c h l
  | .extendDeadline h s => GoJob.extendDeadline c h s
  | .complete h o => GoJob.complete c h o
  | .retry h o b => GoJob.retry c h o b
  | .requestCancel i actor reason => GoJob.requestCancel c i actor reason
  | .adopt v o l s promote => unit (GoJob.adopt c v o l s promote)
  | .resolve v b => unit (GoJob.resolve c v b)
  | .fenceTimedOut v => GoJob.fenceTimedOut c v
  | .expireSilent v => GoJob.expireSilent c v
  | .releaseAsOwner h => unit (GoJob.releaseAsOwner c h)
  | .retire j actor reason => GoJob.retire c j actor reason
  | .trigger j r actor reason params => unit (GoJob.trigger env c j r actor reason params)
  | .authorizedRetry j key actor reason => GoJob.authorizedRetry c j key actor reason
  | .materializeCron j compile grace => unit (GoJob.materializeCron env c j compile grace)
  | .materializePoll j key compile => unit (GoJob.materializePoll c j key compile)
  | .recompute j compile => unit (GoJob.recompute c j compile)
  | .reapExecutions s o limit => unit (GoJob.reapExecutions c s o limit)
  | .createJob d next actor reason => GoJob.createJob c d next actor reason
  | .updateJob d v actor reason => GoJob.updateJob c d v actor reason
  | .copyJobs seeds source actor reason => unit (GoJob.copyJobs c seeds source actor reason)
  | .syncJobs seeds source actor reason => unit (GoJob.syncJobs c seeds source actor reason)
  | .syncJobDescriptions ds actor reason => unit (GoJob.syncJobDescriptions c ds actor reason)
  | .setPaused j paused actor reason => GoJob.setPaused c j paused actor reason

/-- The run token the call was given to mint. -/
def Action.mints : Action → Option String
  | .claim p _ => some p.runToken
  | _          => none

/-- The schema, a lower bound on the database clock, and the run tokens generated so far. -/
structure World where
  db     : DB
  utc    : Utc
  issued : List String

def World.init (u : Utc) : World := ⟨DB.empty, u, []⟩

/-- One call: its clock readings lie between the clock before and after it, a claim's token is new, and the schema is
what the transaction commits. -/
structure Step (env : Env) (w : World) (l : Action × Ctx) (w' : World) : Prop where
  before : w.utc ≤ l.2.utc 0
  after  : ∀ n, l.2.utc n ≤ w'.utc
  fresh  : ∀ t, l.1.mints = some t → t ∉ w.issued
  db     : w'.db = (l.1.tx env l.2).commit w.db
  issued : w'.issued = l.1.mints.toList ++ w.issued

theorem Step.le_utc {env : Env} {w w' : World} {l : Action × Ctx} (h : Step env w l w') (n : Nat) :
    w.utc ≤ l.2.utc n := le_trans h.before (l.2.mono (Nat.zero_le n))

theorem Step.utc_le {env : Env} {w w' : World} {l : Action × Ctx} (h : Step env w l w') : w.utc ≤ w'.utc :=
  le_trans h.before (h.after 0)

/-- The worlds some run from an empty schema reaches. -/
def Reachable (env : Env) (w : World) : Prop := ∃ u tr, Sys.Run (Step env) (World.init u) tr w

/-! ## Concrete runs -/

/-- A call at second `t` of both clocks, with nothing locked elsewhere. -/
def Ctx.at_ (t : Int) : Ctx where
  now := t * second
  utc := fun _ => t
  busy := fun _ => false
  busyExec := fun _ => false
  whole := Int.mul_emod_left t second
  mono := monotone_const

/-- The world after one call at second `t`. -/
def World.call (env : Env) (w : World) (a : Action) (t : Int) : World :=
  ⟨(a.tx env (Ctx.at_ t)).commit w.db, t, a.mints.toList ++ w.issued⟩

/-- The steps of a list of calls, each with its second. -/
def World.trace (env : Env) : World → List (Action × Int) → List (World × (Action × Ctx) × World)
  | _, [] => []
  | w, (a, t) :: calls => (w, (a, Ctx.at_ t), w.call env a t) :: (w.call env a t).trace env calls

def World.play (env : Env) : World → List (Action × Int) → World
  | w, [] => w
  | w, (a, t) :: calls => (w.call env a t).play env calls

theorem World.trace_append (env : Env) (w : World) (calls later : List (Action × Int)) :
    w.trace env (calls ++ later) = w.trace env calls ++ (w.play env calls).trace env later := by
  induction calls generalizing w with
  | nil => rfl
  | cons x calls ih => exact congrArg (_ :: ·) (ih _)

/-- The seconds do not go back and no run token is used twice. -/
def Timely : Utc → List String → List (Action × Int) → Bool
  | _, _, [] => true
  | u, issued, (a, t) :: calls =>
    decide (u ≤ t) && a.mints.all (fun x => decide (x ∉ issued)) && Timely t (a.mints.toList ++ issued) calls

theorem World.step_call (env : Env) {w : World} {a : Action} {t : Int} (hle : w.utc ≤ t)
    (hf : a.mints.all (fun x => decide (x ∉ w.issued)) = true) : Step env w (a, Ctx.at_ t) (w.call env a t) := by
  refine ⟨hle, fun _ => le_refl t, fun x hx => ?_, rfl, rfl⟩
  have hx : a.mints = some x := hx
  rw [hx] at hf
  simpa using hf

theorem World.run_play (env : Env) : ∀ (calls : List (Action × Int)) (w : World), Timely w.utc w.issued calls = true →
    Sys.Run (Step env) w (w.trace env calls) (w.play env calls)
  | [], w, _ => .nil
  | (a, t) :: calls, w, h => by
    simp only [Timely, Bool.and_eq_true, decide_eq_true_eq] at h
    obtain ⟨⟨hle, hf⟩, h⟩ := h
    exact (Sys.Run.single (World.step_call env hle hf)).append (World.run_play env calls (w.call env a t) h)

theorem reachable_play (env : Env) (u : Utc) (calls : List (Action × Int)) (h : Timely u [] calls = true) :
    Reachable env ((World.init u).play env calls) :=
  ⟨u, _, World.run_play env calls (World.init u) h⟩

/-- No digest is needed for short keys, and a manual run keeps the job's parameters. -/
def bareEnv : Env := ⟨fun _ => "", fun defaults _ => .ok defaults⟩

/-- A job with two attempts, two recoveries, a lease of 30 s and a runtime cap of 60 s. -/
def sampleJob (name : String) (kind : ScheduleKind) (expr : String) : Definition where
  jobName := name
  handlerKey := "handler"
  executorGroup := ""
  scheduleKind := kind
  scheduleExpr := expr
  enabled := true
  retired := false
  concurrency := .queue
  misfire := .fireOnce
  maxAttempts := 2
  maxRecoveries := 2
  lease := 30 * second
  timeout := 60 * second
  params := ""
  description := ""
  version := 0
  updatedBy := ""

/-- The claim of execution 1 of the poll job `sync` under a token. -/
def claimPass (token : String) : Action :=
  .claim ⟨1, "sync", "pass-1", "scheduler", "executor", token, 5⟩ (fun _ _ _ => .ok ())

/-- A poll job of one second and its first pass. -/
def firstPass : List (Action × Int) :=
  [(.createJob (sampleJob "sync" .fixedDelay "1000") 0 "operator" "new", 0),
   (.materializePoll "sync" "pass-1" (fun _ => .error ⟨.other, "no schedule"⟩), 1)]

def claimedPass : List (Action × Int) := firstPass ++ [(claimPass "t1", 2)]

end GoJob
