import GoJob.Dialog
import GoJob.Endings
import GoJob.Gate
/-!
# Drain — what a retiring engine gives back (`engine.go`, `passes.go`)

A tenant that is disabled has no engine left to recover what stays held, so a retiring engine ends what it owns and then
sweeps what nobody renews any more.  Both parts page through the schema, and both ask the recorded executor first: a
handler that still runs keeps its row.
-/
namespace GoJob

open Sys Dialog

namespace Drain

/-! ## What an executor remembers -/

/-- `gojobv1.ExecutionState`. -/
inductive ExecutionState
  | unspecified | running | finished
  deriving DecidableEq, Repr

/-- `dispatch.Reconciliation`: by default nobody answered. -/
structure Reconciliation where
  reachable : Bool := false
  state     : ExecutionState := .unspecified
  runToken  : String := ""
  outcome   : Option ExecutionOutcome := none

namespace Reconciliation

variable (r : Reconciliation)

/-- A handler runs for the key that was asked about. -/
def running : Bool := r.reachable && decide (r.state = .running)

/-- The outcome of a finished attempt, where `finishedOutcomeIsUsable`. -/
def result : Option ExecutionOutcome :=
  if r.reachable ∧ r.state = .finished then r.outcome.filter (fun oc => oc.disposition ≠ .unspecified) else none

/-- What is left of an answer that is not about this attempt: that a handler holds the key. -/
def about (token : String) : Reconciliation :=
  if r.reachable ∧ r.runToken ≠ token then
    if r.state = .running then { reachable := true, state := .running } else {}
  else r

@[simp] theorem running_about (token : String) : (r.about token).running = r.running := by
  unfold about
  split
  · rename_i h
    by_cases hs : r.state = .running <;> simp [running, hs, h.1]
  · rfl

end Reconciliation

/-! ## The thread's questions -/

structure Config where
  instanceId     : String
  pageSize       : Nat
  silenceSeconds : Int

/-- What the thread asks.  An executor without an address is one that does not answer. -/
inductive Ask
  | owned (limit : Nat)
  | stale (limit : Nat)
  | definition (job : String)
  | cancel (executorId key token reason : String)
  | getExecution (executorId key : String)
  | stopping
  | renewing
  | backoff (attempt : Nat)
  | call (a : Action)
  | stopClaiming
  | drained
  | stop

abbrev Ask.Answer : Ask → Type
  | .owned _ => Except Err (List Stale)
  | .stale _ => Except Err (List Stale)
  | .definition _ => Except Err Definition
  | .cancel _ _ _ _ => Bool
  | .getExecution _ _ => Reconciliation
  | .stopping => Bool
  | .renewing => Bool
  | .backoff _ => Int
  | .call _ => Except Err Unit
  | .stopClaiming => Unit
  | .drained => Unit
  | .stop => Unit

abbrev Thread := Dialog Ask.Answer

abbrev query (q : Ask) : Thread q.Answer := say q

variable (cfg : Config)

/-! ## The steps of both parts -/

def requestStop (v : Stale) (reason : String) : Thread Unit := do
  if v.dispatchedTo = "" then return ()
  else
    let _ ← query (.cancel v.dispatchedTo v.executionKey v.runToken reason)
    return ()

/-- What the recorded executor says of an execution. -/
def reconcile (v : Stale) : Thread Reconciliation := do
  if v.dispatchedTo = "" then return {} else query (.getExecution v.dispatchedTo v.executionKey)

def askExecutor (v : Stale) : Thread Reconciliation := do
  let answer ← reconcile v
  return answer.about v.runToken

def applyOutcome (h : Holder) (oc : ExecutionOutcome) (executorId : String) : Thread Unit := do
  let backoff ← query (.backoff 0)
  let _ ← query (.call (apply h oc executorId backoff))
  return ()

def fenceTimedOut (v : Stale) : Thread Unit := do
  requestStop v "runtime cap elapsed"
  let _ ← query (.call (.fenceTimedOut v))
  return ()

def leaseSecondsFor (job : String) : Thread Int := do
  match ← query (.definition job) with
  | .error _ => return Gate.defaultLease.tdiv second
  | .ok d => return if d.lease ≤ 0 then Gate.defaultLease.tdiv second else d.lease.tdiv second

/-! ## The recovery sweep -/

/-- `Adopt` and what its caller makes of an error; `adopted` goes on with the execution. -/
def adoptThen (v : Stale) (promote : Bool) (adopted : Thread Bool) : Thread Bool := do
  let lease ← leaseSecondsFor v.jobName
  match ← query (.call (.adopt v cfg.instanceId lease cfg.silenceSeconds promote)) with
  | .ok () => adopted
  | .error err =>
    if err.kind = .capElapsed then
      fenceTimedOut v
      return true
    else return decide (err.kind = .contended)

def adoptResult (v : Stale) (oc : ExecutionOutcome) : Thread Bool :=
  adoptThen cfg v false do
    -- The epoch `Adopt` returns.
    applyOutcome { v.holder with owner := cfg.instanceId, fenceEpoch := v.fenceEpoch + 1 } oc v.dispatchedTo
    return true

def mayRecover (adopt : Bool) : Thread Bool := do
  if adopt then
    let stopping ← query .stopping
    return !stopping
  else query .renewing

/-- The transactions of `recoverOne`, once the executor's answer is known. -/
def settle (adopt : Bool) (v : Stale) (answer : Reconciliation) : Thread Bool :=
  if answer.running then
    if adopt then adoptThen cfg v true (return true) else return false
  else
    match answer.result with
    | some oc => adoptResult cfg v oc
    | none => do
      let backoff ← query (.backoff v.recoveryCount)
      match ← query (.call (.resolve v backoff)) with
      | .ok () => return true
      | .error err => return decide (err.kind = .contended)

/-- `recoverOne`: whether the row was settled. -/
def recoverOne (adopt : Bool) (v : Stale) : Thread Bool := do
  let answer ← reconcile v
  if answer.reachable ∧ answer.runToken ≠ v.runToken ∧ answer.state = .running then return false
  else if ← mayRecover adopt then settle cfg adopt v (answer.about v.runToken)
  else return false

/-- One page of `recoverStale`: how many rows were settled and whether one was not, or `none` if the engine may not go
on. -/
def recoverPage (adopt : Bool) : List Stale → Thread (Option (Nat × Bool))
  | [] => return some (0, false)
  | v :: page => do
    if ← mayRecover adopt then
      let settled ← recoverOne cfg adopt v
      match ← recoverPage adopt page with
      | none => return none
      | some (n, unsettled) => return some (n + settled.toNat, !settled || unsettled)
    else return none

/-- `recoverStale`, with so many pages to go. -/
def recoverStale (adopt : Bool) : Nat → Bool → Thread Bool
  | 0, _ => return true
  | pages + 1, unsettled => do
    match ← query (.stale cfg.pageSize) with
    | .error _ => return true
    | .ok stale =>
      if stale.isEmpty then return unsettled
      else
        match ← recoverPage cfg adopt stale with
        | none => return true
        | some (n, left) => if n = 0 then return true else recoverStale adopt pages (unsettled || left)

/-! ## The release -/

/-- One row of `releasePage`: whether there was progress, and whether the row was left to a handler. -/
def releaseOne (v : Stale) : Thread (Bool × Bool) := do
  requestStop v "the tenant was disabled"
  let answer ← askExecutor v
  if answer.running then return (false, true)
  else
    match answer.result with
    | some oc =>
      applyOutcome { v.holder with owner := cfg.instanceId } oc v.dispatchedTo
      return (true, false)
    | none =>
      match ← query (.call (.releaseAsOwner { v.holder with owner := cfg.instanceId })) with
      | .ok () => return (true, false)
      | .error _ => return (false, false)

def releasePage : List Stale → Thread (Bool × Bool)
  | [] => return (false, false)
  | v :: page => do
    let (progress, deferred) ← releaseOne cfg v
    let (more, left) ← releasePage page
    return (progress || more, deferred || left)

/-- The first loop of `ReleaseOwnedWork`, with so many pages to go: `none` if it gives up. -/
def releaseOwned : Nat → Bool → Thread (Option Bool)
  | 0, _ => return none
  | pages + 1, deferred => do
    match ← query (.owned 200) with
    | .error _ => return none
    | .ok owned =>
      if owned.isEmpty then return some deferred
      else
        let (progress, left) ← releasePage cfg owned
        if progress then releaseOwned pages (deferred || left) else return none

def releaseOwnedWork : Thread Bool := do
  match ← releaseOwned cfg 100 false with
  | none => return true
  | some deferred =>
    let unsettled ← recoverStale cfg false 100 false
    return unsettled || deferred

/-- `retire`, of a tenant that is disabled: whether it was removed and its pool closed. -/
def retire : Thread Bool := do
  query .stopClaiming
  -- The wait for what is tracked, which is bounded.
  query .drained
  if ← releaseOwnedWork cfg then return false
  else
    query .stop
    return true

/-! ## What the threads call -/

/-- The thread makes only such calls. -/
def CallsOnly {ρ : Type} (C : Action → Prop) (p : Thread ρ) : Prop :=
  p.Asks (fun q => ∀ a, q = .call a → C a) (fun _ => True)

section calls

variable {C : Action → Prop} {ρ ρ' : Type} {cfg}

theorem CallsOnly.pure {r : ρ} : CallsOnly C (Pure.pure r : Thread ρ) := asks_pure True.intro

theorem CallsOnly.seq {p : Thread ρ} {f : ρ → Thread ρ'} (hp : CallsOnly C p) (hf : ∀ a, CallsOnly C (f a)) :
    CallsOnly C (p >>= f) := Asks.bind hp fun a _ => hf a

theorem CallsOnly.ask {q : Ask} {f : q.Answer → Thread ρ} (hq : ∀ a, q = .call a → C a)
    (hf : ∀ a, CallsOnly C (f a)) : CallsOnly C (query q >>= f) := asks_ask hq hf

theorem CallsOnly.call {a : Action} {f : Except Err Unit → Thread ρ} (ha : C a) (hf : ∀ a, CallsOnly C (f a)) :
    CallsOnly C (query (.call a) >>= f) := asks_ask (fun _ h => Ask.call.inj h ▸ ha) hf

theorem requestStop_calls (v : Stale) (reason : String) : CallsOnly C (requestStop v reason) := by
  unfold requestStop
  split
  · exact .pure
  · exact .ask (by simp) fun _ => .pure

theorem reconcile_calls (v : Stale) : CallsOnly C (reconcile v) := by
  unfold reconcile
  split
  · exact .pure
  · exact .ask (by simp) fun _ => .pure

theorem askExecutor_calls (v : Stale) : CallsOnly C (askExecutor v) := (reconcile_calls v).seq fun _ => .pure

theorem leaseSecondsFor_calls (j : String) : CallsOnly C (leaseSecondsFor j) := by
  refine .ask (by simp) fun r => ?_
  cases r <;> exact .pure

theorem mayRecover_calls (adopt : Bool) : CallsOnly C (mayRecover adopt) := by
  cases adopt
  · exact .ask (by simp) fun _ => .pure
  · exact .ask (by simp) fun _ => .pure

theorem applyOutcome_calls {k : Holder} {oc : ExecutionOutcome} {x : String} (h : ∀ b, C (apply k oc x b)) :
    CallsOnly C (applyOutcome k oc x) := .ask (by simp) fun b => .call (h b) fun _ => .pure

theorem fenceTimedOut_calls {v : Stale} (h : C (.fenceTimedOut v)) : CallsOnly C (fenceTimedOut v) :=
  (requestStop_calls v _).seq fun _ => .call h fun _ => .pure

theorem adoptThen_calls {v : Stale} {promote : Bool} {adopted : Thread Bool} (h : CallsOnly C adopted)
    (hadopt : ∀ l, C (.adopt v cfg.instanceId l cfg.silenceSeconds promote)) (hfence : C (.fenceTimedOut v)) :
    CallsOnly C (adoptThen cfg v promote adopted) := by
  refine (leaseSecondsFor_calls _).seq fun l => .call (hadopt l) fun r => ?_
  cases r with
  | ok u => exact h
  | error err =>
    dsimp only
    split
    · exact (fenceTimedOut_calls hfence).seq fun _ => .pure
    · exact .pure

/-- What `recoverOne` may call. -/
theorem recoverOne_calls {adopt : Bool} {v : Stale}
    (hadopt : ∀ l promote, C (.adopt v cfg.instanceId l cfg.silenceSeconds promote)) (hfence : C (.fenceTimedOut v))
    (hresolve : ∀ b, C (.resolve v b)) (happly : ∀ oc x b,
      C (apply { v.holder with owner := cfg.instanceId, fenceEpoch := v.fenceEpoch + 1 } oc x b)) :
    CallsOnly C (recoverOne cfg adopt v) := by
  refine (reconcile_calls v).seq fun r => ?_
  split
  · exact .pure
  · refine (mayRecover_calls adopt).seq fun ok => ?_
    cases ok with
    | false => exact .pure
    | true =>
      show CallsOnly C (settle cfg adopt v (r.about v.runToken))
      unfold settle
      split
      · cases adopt with
        | false => exact .pure
        | true => exact adoptThen_calls .pure (fun l => hadopt l true) hfence
      · split
        · exact adoptThen_calls ((applyOutcome_calls (happly _ _)).seq fun _ => .pure) (fun l => hadopt l false) hfence
        · refine .ask (by simp) fun b => .call (hresolve b) fun r => ?_
          cases r <;> exact .pure

/-- What `releasePage` may call for a row. -/
theorem releaseOne_calls {v : Stale} (hrelease : C (.releaseAsOwner { v.holder with owner := cfg.instanceId }))
    (happly : ∀ oc x b, C (apply { v.holder with owner := cfg.instanceId } oc x b)) :
    CallsOnly C (releaseOne cfg v) := by
  refine (requestStop_calls v _).seq fun _ => (askExecutor_calls v).seq fun r => ?_
  split
  · exact .pure
  · split
    · exact (applyOutcome_calls (happly _ _)).seq fun _ => .pure
    · refine .call hrelease fun r => ?_
      cases r <;> exact .pure

end calls

/-! ## How the schema answers -/

end Drain

/-- Time passes, and nothing else. -/
structure World.Waits (w w' : World) : Prop where
  clock  : w.utc ≤ w'.utc
  db     : w'.db = w.db
  issued : w'.issued = w.issued

theorem Reachable.waits {env : Env} {w w' : World} (hr : Reachable env w) (h : w.Waits w') : Reachable env w' := by
  obtain ⟨u, tr, hr⟩ := hr
  obtain ⟨l, hst⟩ := World.waits env h.clock
  have heq : { w with utc := w'.utc } = w' := by rw [← h.db, ← h.issued]
  rw [heq] at hst
  exact ⟨u, _, hr.snoc hst⟩

theorem Reachable.step {env : Env} {w w' : World} {l : Action × Ctx} (hr : Reachable env w) (hst : Step env w l w') :
    Reachable env w' := by
  obtain ⟨u, tr, hr⟩ := hr
  exact ⟨u, _, hr.snoc hst⟩

namespace Drain

/-- A call without a database error, in a context that `free` admits. -/
structure Calls (env : Env) (free : Ctx → Prop) (w : World) (a : Action) (r : Except Err Unit) (c : Ctx) (w' : World) :
    Prop where
  free   : free c
  step   : Step env w (a, c) w'
  answer : r = GoJob.answer env w (a, c)
  sound  : ∀ err, r = .error err → ¬ Plain err

/-- How the thread of instance `inst` is answered while the database does not fail.  Nothing is assumed of the answers
that do not come from the schema. -/
def Serves (env : Env) (inst : String) (free : Ctx → Prop) (w : World) (q : Ask) (r : q.Answer) (w' : World) : Prop :=
  match q, r with
  | .owned n, r => w.Waits w' ∧ r = .ok (w.db.ownedByInstance inst w'.utc n)
  | .stale n, r => w.Waits w' ∧ r = .ok (w.db.staleExecutions w'.utc n)
  | .definition j, r => w.Waits w' ∧ r = (readDefinition j w.db).map Prod.fst
  | .call a, r => ∃ c, Calls env free w a r c w'
  | _, _ => w.Waits w'

/-! ## One call -/

section call

variable {env : Env} {free : Ctx → Prop} {a : Action} {r : Except Err Unit} {c : Ctx} {k : Holder}
  {s s' : World} {T : Utc}

/-- Row `i` is not held any more. -/
def Gone (i : Nat) (s : World) : Prop := ∀ e, s.db.exec? i = some e → e.status.held = false

theorem Calls.gone (h : Calls env free s a r c s') (ha : a.ending = some k) (hr : r = .ok ()) :
    Gone k.executionId s' := by
  obtain ⟨e', hfree, hrows⟩ := h.step.ending_rows ha (h.answer.symm.trans hr)
  intro x hx
  rw [hrows, if_pos rfl] at hx
  rwa [← Option.some.inj hx]

/-- Holder `k` may report until `T`. -/
structure MayReport (env : Env) (k : Holder) (T : Utc) (s : World) : Prop where
  reach : Reachable env s
  row   : ∃ e, s.db.exec? k.executionId = some e ∧ e.jobName = k.jobName ∧ e.status.held = true ∧
    e.runToken = some k.runToken ∧ e.fenceEpoch = k.fenceEpoch ∧ past e.timeoutAt T = false

theorem MayReport.waits (h : MayReport env k T s) (hw : s.Waits s') : MayReport env k T s' :=
  ⟨h.reach.waits hw, hw.db ▸ h.row⟩

/-- A call that can only fail plainly ends its attempt. -/
theorem Calls.ends (h : Calls env free s a r c s') (ha : a.ending = some k)
    (hf : Rel.Tx.FailsOnly Plain (a.tx env c) s.db) : r = .ok () ∧ Gone k.executionId s' := by
  have hok : r = .ok () := h.answer.trans (answer_of_plain (l := (a, c)) hf fun err herr =>
    h.sound err (h.answer.trans herr))
  exact ⟨hok, h.gone ha hok⟩

theorem Calls.apply_ends {oc : ExecutionOutcome} {x : String} {b : Int} (h : Calls env free s (apply k oc x b) r c s')
    (hs : MayReport env k T s) (hT : s'.utc ≤ T) : Gone k.executionId s' := by
  obtain ⟨⟨u, tr, hr⟩, e, he, hj, hh, htok, hn, hcap⟩ := hs
  have hcap' : past e.timeoutAt (c.utc 2) = false := by
    by_contra hpast
    rw [Bool.not_eq_false] at hpast
    rw [past_later hpast (le_trans (h.step.after 2) hT)] at hcap
    cases hcap
  have hrep := DB.reportable_of_held (HolderInv.run hr).toAgree he hh htok hcap' k.executionKey k.owner
  rw [hj, hn] at hrep
  exact (h.ends (apply_ending k oc x b) (hrep.apply_plain hr oc x b)).2

end call

abbrev Said := Exchange World Ask.Answer

section triples

variable {env : Env} {inst : String} {free : Ctx → Prop} {U : Said → Prop} {ℓ : Type} {other : World → ℓ → World → Prop}
  {I : World → Prop}

/-- The answers of `Serves`, where `U` is known of every exchange. -/
def Sem (env : Env) (inst : String) (free : Ctx → Prop) (U : Said → Prop) (w : World) (q : Ask) (r : q.Answer)
    (w' : World) : Prop := Serves env inst free w q r w' ∧ U ⟨w, q, r, w'⟩

/-- It stays true while time passes and the others act. -/
structure Idle (other : World → ℓ → World → Prop) (I : World → Prop) : Prop where
  waits  : ∀ w w', I w → w.Waits w' → I w'
  stable : Stable other I

theorem requestStop_idle (hI : Idle other I) (v : Stale) (reason : String) :
    Triple (Sem env inst free U) other I (requestStop v reason) (fun _ => I) := by
  unfold requestStop
  split
  · exact .done (fun _ h => h) hI.stable
  · exact .ask hI.stable (fun s _ s' h hq => hI.waits s s' h hq.1) fun _ => .done (fun _ h => h) hI.stable

/-- What the thread was told of an execution: nothing if there is nobody to ask. -/
def Told (U : Said → Prop) (executorId key : String) (r : Reconciliation) : Prop :=
  (executorId = "" ∧ r = {}) ∨ (executorId ≠ "" ∧ ∃ s s', U ⟨s, .getExecution executorId key, r, s'⟩)

theorem reconcile_idle (hI : Idle other I) (v : Stale) :
    Triple (Sem env inst free U) other I (reconcile v) (fun r s => I s ∧ Told U v.dispatchedTo v.executionKey r) := by
  have hst : ∀ r, Stable other (fun s => I s ∧ Told U v.dispatchedTo v.executionKey r) :=
    fun r s l s' h hl => ⟨hI.stable s l s' h.1 hl, h.2⟩
  unfold reconcile
  split
  · rename_i hd
    exact .done (fun _ h => ⟨h, Or.inl ⟨hd, rfl⟩⟩) (hst _)
  · rename_i hd
    exact .ask hI.stable (fun s r s' h hq => ⟨hI.waits s s' h hq.1, Or.inr ⟨hd, s, s', hq.2⟩⟩) fun r =>
      .done (fun _ h => h) (hst r)

theorem leaseSecondsFor_idle (hI : Idle other I) (job : String) :
    Triple (Sem env inst free U) other I (leaseSecondsFor job) (fun _ => I) := by
  refine .ask hI.stable (fun s _ s' h hq => hI.waits s s' h hq.1.1) fun r => ?_
  cases r with
  | error err => exact .done (fun _ h => h) hI.stable
  | ok d => exact .done (fun _ h => h) hI.stable

end triples

end Drain
end GoJob
