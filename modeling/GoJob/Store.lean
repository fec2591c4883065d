import GoJob.Database
/-!
# Store — transactions and the statements they share (`store.go`)

A store call is one transaction over the schema.  Besides its arguments it reads a `Ctx`: the business clock once, the
database clock anew at every statement, and which rows another transaction has locked.  A guarded `UPDATE` reports how
many rows it changed, and callers treat that number in three ways: zero is an error of their own (`casState`,
`casExec`), anything but one is a protocol violation (`mustState`, `mustExec`), or only more than one is (`tryExec`).
-/
namespace GoJob

open Rel

/-- What one call reads besides its arguments and the tables. -/
structure Ctx where
  /-- `s.clock.Now()`, truncated to a whole second. -/
  now        : Instant
  /-- `UTC_TIMESTAMP()` at the call's n-th statement. -/
  utc        : Nat → Utc
  /-- The job's state row is locked by another transaction. -/
  busy       : String → Bool
  /-- The execution row is locked by another transaction. -/
  busyExec   : Nat → Bool
  whole      : now % second = 0
  mono       : Monotone utc

abbrev StoreM := Tx DB Err

def fail {α : Type} (kind : Sentinel) (detail : String) : StoreM α := throw ⟨kind, detail⟩

@[simp] theorem fail_ok {α : Type} {k : Sentinel} {d : String} {db : DB} {r : α × DB} :
    (fail k d : StoreM α) db = .ok r ↔ False := by
  simp [fail]

/-- A check that fails the transaction was passed by every transaction that committed. -/
theorem check_ok {α : Type} {p : Prop} [Decidable p] {k : Sentinel} {d : String} {x : StoreM α} {db : DB} {r : α × DB}
    (h : (if p then fail k d else x) db = .ok r) : ¬ p ∧ x db = .ok r := by
  rcases Tx.ite_ok.1 h with ⟨_, h⟩ | h
  · simp at h
  · exact h

/-! ## Guarded updates -/

/-- `UPDATE job_state SET w WHERE job_name = j AND g`. -/
def updateState (j : String) (g : StateRow → Bool) (w : StateWrite) : StoreM Nat := do
  let db ← get
  set { db with states := db.states.update (Table.at_ StateRow.jobName j g) w.run w.jobName }
  return db.states.changed (Table.at_ StateRow.jobName j g) w.run

/-- `UPDATE job_execution SET w WHERE id = i AND g`. -/
def updateExec (i : Nat) (g : ExecRow → Bool) (w : ExecWrite) : StoreM Nat := do
  let db ← get
  set (db.setExecs (Table.at_ (fun e : ExecRow => e.id) i g) w)
  return db.executions.table.changed (Table.at_ (fun e : ExecRow => e.id) i g) w.run

/-- `UPDATE job_definition SET w WHERE job_name = j AND g`. -/
def updateDefinition (j : String) (g : DefinitionRow → Bool) (w : DefinitionWrite) : StoreM Nat := do
  let db ← get
  set { db with definitions := db.definitions.update (Table.at_ DefinitionRow.jobName j g) w.run w.jobName }
  return db.definitions.changed (Table.at_ DefinitionRow.jobName j g) w.run

/-- **A guarded write changes exactly the row its guard accepts.** -/
theorem updateState_ok {j : String} {g : StateRow → Bool} {w : StateWrite} {db db' : DB} {n : Nat}
    (h : updateState j g w db = .ok (n, db')) :
    (∃ s, db.state? j = some s ∧ g s = true ∧ n = 1 ∧ db' = db.setState j w) ∨
      ((∀ s, db.state? j = some s → g s = false) ∧ n = 0 ∧ db = db') := by
  simp only [updateState, Tx.bind_ok, Tx.get_ok, Tx.set_ok, Tx.pure_ok, Prod.mk.injEq] at h
  obtain ⟨_, _, ⟨rfl, rfl⟩, _, _, ⟨_, rfl⟩, rfl, rfl⟩ := h
  by_cases hg : ∃ s, db.state? j = some s ∧ g s = true
  · obtain ⟨s, hs, hg⟩ := hg
    refine Or.inl ⟨s, hs, hg, Table.changed_at_eq_one w.ne hs hg, ?_⟩
    rw [Table.update_at_eq_modify w.jobName hs hg]; rfl
  · have hf : ∀ s, db.state? j = some s → g s = false := fun s hs => by
      cases hgs : g s with
      | false => rfl
      | true => exact absurd ⟨s, hs, hgs⟩ hg
    refine Or.inr ⟨hf, Table.changed_at_eq_zero hf, ?_⟩
    rw [Table.update_at_eq_self w.jobName hf]

theorem updateExec_ok {i : Nat} {g : ExecRow → Bool} {w : ExecWrite} {db db' : DB} {n : Nat}
    (h : updateExec i g w db = .ok (n, db')) :
    (∃ e, db.exec? i = some e ∧ g e = true ∧ n = 1 ∧ db' = db.setExec i w) ∨
      ((∀ e, db.exec? i = some e → g e = false) ∧ n = 0 ∧ db = db') := by
  simp only [updateExec, Tx.bind_ok, Tx.get_ok, Tx.set_ok, Tx.pure_ok, Prod.mk.injEq] at h
  obtain ⟨_, _, ⟨rfl, rfl⟩, _, _, ⟨_, rfl⟩, rfl, rfl⟩ := h
  by_cases hg : ∃ e, db.exec? i = some e ∧ g e = true
  · obtain ⟨e, he, hg⟩ := hg
    exact Or.inl ⟨e, he, hg, Table.changed_at_eq_one w.ne he hg, DB.setExecs_at he hg w⟩
  · have hf : ∀ e, db.exec? i = some e → g e = false := fun e he => by
      cases hge : g e with
      | false => rfl
      | true => exact absurd ⟨e, he, hge⟩ hg
    exact Or.inr ⟨hf, Table.changed_at_eq_zero hf, (DB.setExecs_none hf w).symm⟩

theorem updateDefinition_ok {j : String} {g : DefinitionRow → Bool} {w : DefinitionWrite} {db db' : DB} {n : Nat}
    (h : updateDefinition j g w db = .ok (n, db')) :
    (∃ d, db.def? j = some d ∧ g d = true ∧ n = 1 ∧ db' = db.setDef j w) ∨
      ((∀ d, db.def? j = some d → g d = false) ∧ n = 0 ∧ db = db') := by
  simp only [updateDefinition, Tx.bind_ok, Tx.get_ok, Tx.set_ok, Tx.pure_ok, Prod.mk.injEq] at h
  obtain ⟨_, _, ⟨rfl, rfl⟩, _, _, ⟨_, rfl⟩, rfl, rfl⟩ := h
  by_cases hg : ∃ d, db.def? j = some d ∧ g d = true
  · obtain ⟨d, hd, hg⟩ := hg
    refine Or.inl ⟨d, hd, hg, Table.changed_at_eq_one w.ne hd hg, ?_⟩
    rw [Table.update_at_eq_modify w.jobName hd hg]; rfl
  · have hf : ∀ d, db.def? j = some d → g d = false := fun d hd => by
      cases hgd : g d with
      | false => rfl
      | true => exact absurd ⟨d, hd, hgd⟩ hg
    refine Or.inr ⟨hf, Table.changed_at_eq_zero hf, ?_⟩
    rw [Table.update_at_eq_self w.jobName hf]

def assertOne (n : Nat) (stmt : String) : StoreM Unit :=
  if n ≠ 1 then fail .protocol (stmt ++ " affected " ++ toString n ++ " rows, expected exactly 1") else pure ()

/-- A compare-and-set on the state row; a failed guard is the caller's error. -/
def casState (j : String) (g : StateRow → Bool) (w : StateWrite) (kind : Sentinel) (detail : String) : StoreM Unit := do
  if (← updateState j g w) = 0 then fail kind detail

def casExec (i : Nat) (g : ExecRow → Bool) (w : ExecWrite) (kind : Sentinel) (detail : String) : StoreM Unit := do
  if (← updateExec i g w) = 0 then fail kind detail

/-- A write that must apply under the locks its transaction holds. -/
def mustState (j : String) (g : StateRow → Bool) (w : StateWrite) (stmt : String) : StoreM Unit := do
  assertOne (← updateState j g w) stmt

def mustExec (i : Nat) (g : ExecRow → Bool) (w : ExecWrite) (stmt : String) : StoreM Unit := do
  assertOne (← updateExec i g w) stmt

/-- A write that may find nothing to do. -/
def tryExec (i : Nat) (g : ExecRow → Bool) (w : ExecWrite) (stmt : String) : StoreM Unit := do
  let n ← updateExec i g w
  if n > 1 then fail .protocol (stmt ++ " affected " ++ toString n ++ " rows")

theorem casState_ok {j : String} {g : StateRow → Bool} {w : StateWrite} {k : Sentinel} {d : String} {db db' : DB}
    {u : Unit} (h : casState j g w k d db = .ok (u, db')) :
    ∃ s, db.state? j = some s ∧ g s = true ∧ db' = db.setState j w := by
  obtain ⟨n, db₁, h₁, h₂⟩ := Tx.bind_ok.1 h
  rcases updateState_ok h₁ with ⟨s, hs, hg, rfl, rfl⟩ | ⟨_, rfl, _⟩
  · refine ⟨s, hs, hg, ?_⟩
    exact Eq.symm (by simpa using h₂)
  · simp [fail] at h₂

theorem casExec_ok {i : Nat} {g : ExecRow → Bool} {w : ExecWrite} {k : Sentinel} {d : String} {db db' : DB} {u : Unit}
    (h : casExec i g w k d db = .ok (u, db')) :
    ∃ e, db.exec? i = some e ∧ g e = true ∧ db' = db.setExec i w := by
  obtain ⟨n, db₁, h₁, h₂⟩ := Tx.bind_ok.1 h
  rcases updateExec_ok h₁ with ⟨e, he, hg, rfl, rfl⟩ | ⟨_, rfl, _⟩
  · refine ⟨e, he, hg, ?_⟩
    exact Eq.symm (by simpa using h₂)
  · simp [fail] at h₂

theorem mustState_ok {j : String} {g : StateRow → Bool} {w : StateWrite} {d : String} {db db' : DB} {u : Unit}
    (h : mustState j g w d db = .ok (u, db')) :
    ∃ s, db.state? j = some s ∧ g s = true ∧ db' = db.setState j w := by
  obtain ⟨n, db₁, h₁, h₂⟩ := Tx.bind_ok.1 h
  rcases updateState_ok h₁ with ⟨s, hs, hg, rfl, rfl⟩ | ⟨_, rfl, _⟩
  · refine ⟨s, hs, hg, ?_⟩
    exact Eq.symm (by simpa [assertOne] using h₂)
  · simp [assertOne, fail] at h₂

theorem mustExec_ok {i : Nat} {g : ExecRow → Bool} {w : ExecWrite} {d : String} {db db' : DB} {u : Unit}
    (h : mustExec i g w d db = .ok (u, db')) :
    ∃ e, db.exec? i = some e ∧ g e = true ∧ db' = db.setExec i w := by
  obtain ⟨n, db₁, h₁, h₂⟩ := Tx.bind_ok.1 h
  rcases updateExec_ok h₁ with ⟨e, he, hg, rfl, rfl⟩ | ⟨_, rfl, _⟩
  · refine ⟨e, he, hg, ?_⟩
    exact Eq.symm (by simpa [assertOne] using h₂)
  · simp [assertOne, fail] at h₂

theorem tryExec_ok {i : Nat} {g : ExecRow → Bool} {w : ExecWrite} {d : String} {db db' : DB} {u : Unit}
    (h : tryExec i g w d db = .ok (u, db')) :
    (∃ e, db.exec? i = some e ∧ g e = true ∧ db' = db.setExec i w) ∨
      ((∀ e, db.exec? i = some e → g e = false) ∧ db = db') := by
  obtain ⟨n, db₁, h₁, h₂⟩ := Tx.bind_ok.1 h
  rcases updateExec_ok h₁ with ⟨e, he, hg, rfl, rfl⟩ | ⟨hg, rfl, rfl⟩
  · exact Or.inl ⟨e, he, hg, Eq.symm (by simpa using h₂)⟩
  · exact Or.inr ⟨hg, by simpa using h₂⟩

/-! ## Locking reads -/

/-- `lockState`: `FOR UPDATE SKIP LOCKED`, with the two ways to find no row told apart. -/
def lockState (c : Ctx) (j : String) : StoreM StateRow := do
  match (← get).state? j with
  | none => fail .missingState ("job " ++ j.quote)
  | some s =>
    if c.busy j then fail .contended ("job " ++ j.quote ++ " state row is locked elsewhere") else pure s

theorem lockState_ok {c : Ctx} {j : String} {db db' : DB} {s : StateRow} (h : lockState c j db = .ok (s, db')) :
    db.state? j = some s ∧ db = db' := by
  have h₂ := Tx.get_bind_ok.1 h
  cases hs : db.state? j with
  | none => simp [hs, fail] at h₂
  | some s' =>
    simp only [hs, fail, Tx.ite_ok, Tx.throw_ok, Tx.pure_ok, Prod.mk.injEq, and_false, false_or] at h₂
    exact ⟨congrArg some h₂.2.1, h₂.2.2⟩

/-- The definition as `readDefinition` scans it. -/
def DefinitionRow.toDefinition (d : DefinitionRow) : Definition where
  jobName := d.jobName
  handlerKey := d.handlerKey
  executorGroup := d.executorGroup.getD ""
  scheduleKind := d.scheduleKind
  scheduleExpr := d.scheduleExpr
  enabled := d.enabled
  retired := d.retired
  concurrency := d.concurrency
  misfire := d.misfire
  maxAttempts := d.maxAttempts
  maxRecoveries := d.maxRecoveries
  lease := d.leaseSeconds * second
  timeout := d.timeoutSeconds * second
  params := d.params.getD ""
  description := d.description.getD ""
  version := d.version
  updatedBy := ""

namespace DefinitionRow

variable (d : DefinitionRow)

@[simp] theorem toDefinition_jobName : d.toDefinition.jobName = d.jobName := rfl
@[simp] theorem toDefinition_scheduleKind : d.toDefinition.scheduleKind = d.scheduleKind := rfl
@[simp] theorem toDefinition_enabled : d.toDefinition.enabled = d.enabled := rfl
@[simp] theorem toDefinition_retired : d.toDefinition.retired = d.retired := rfl
@[simp] theorem toDefinition_version : d.toDefinition.version = d.version := rfl

end DefinitionRow

/-- `readDefinition`, without a lock. -/
def readDefinition (j : String) : StoreM Definition := do
  match (← get).def? j with
  | none => fail .protocol ("job " ++ j.quote ++ " has a state row but no definition")
  | some d => pure d.toDefinition

theorem readDefinition_ok {j : String} {db db' : DB} {d : Definition} (h : readDefinition j db = .ok (d, db')) :
    (∃ r, db.def? j = some r ∧ d = r.toDefinition) ∧ db = db' := by
  have h₂ := Tx.get_bind_ok.1 h
  cases hr : db.def? j with
  | none => simp [hr, fail] at h₂
  | some r =>
    simp only [hr, Tx.pure_ok, Prod.mk.injEq] at h₂
    exact ⟨⟨r, rfl, h₂.1.symm⟩, h₂.2⟩

/-- An execution as recovery and the scans read it. -/
structure Stale where
  id               : Nat
  executionKey     : String
  jobName          : String
  status           : Status
  dispatchedTo     : String
  runToken         : String
  fenceEpoch       : Nat
  attemptNo        : Nat
  maxAttempts      : Nat
  recoveryCount    : Nat
  maxRecoveries    : Nat
  timeoutExpired   : Bool
  silenceExpired   : Bool
  leaseLive        : Bool
  remainingTimeout : Int
  scheduledAt      : Instant
  params           : Option String
  deriving DecidableEq, Repr

/-- `col IS NOT NULL AND col < UTC_TIMESTAMP()`. -/
def past (col : Option Utc) (u : Utc) : Bool := col.any (fun t => decide (t < u))

/-- `col IS NOT NULL AND col >= UTC_TIMESTAMP()`. -/
def live (col : Option Utc) (u : Utc) : Bool := col.any (fun t => decide (u ≤ t))

/-- The columns of a `Stale`, read when the database clock shows `u`. -/
def ExecRow.toStale (e : ExecRow) (u : Utc) : Stale where
  id := e.id
  executionKey := e.executionKey
  jobName := e.jobName
  status := e.status
  dispatchedTo := e.dispatchedTo.getD ""
  runToken := e.runToken.getD ""
  fenceEpoch := e.fenceEpoch
  attemptNo := e.attemptNo
  maxAttempts := e.maxAttempts
  recoveryCount := e.recoveryCount
  maxRecoveries := e.maxRecoveries
  timeoutExpired := past e.timeoutAt u
  silenceExpired := past e.deadlineAt u
  leaseLive := live e.leaseUntil u
  remainingTimeout := ((e.timeoutAt.map (fun t => max (t - u) 0)).getD 0) * second
  scheduledAt := e.scheduledAt
  params := e.params

/-- `lockExecution`, with the state row already held. -/
def lockExecution (i : Nat) (u : Utc) : StoreM Stale := do
  match (← get).exec? i with
  | none => fail .noSuchExecution ("execution " ++ toString i)
  | some e => pure (e.toStale u)

theorem lockExecution_ok {i : Nat} {u : Utc} {db db' : DB} {v : Stale} (h : lockExecution i u db = .ok (v, db')) :
    (∃ e, db.exec? i = some e ∧ v = e.toStale u) ∧ db = db' := by
  have h₂ := Tx.get_bind_ok.1 h
  cases he : db.exec? i with
  | none => simp [he, fail] at h₂
  | some e =>
    simp only [he, Tx.pure_ok, Prod.mk.injEq] at h₂
    exact ⟨⟨e, rfl, h₂.1.symm⟩, h₂.2⟩

end GoJob
