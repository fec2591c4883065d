import GoJob.Schema
/-!
# Database — one tenant's tables

The tables of a schema and the ways a statement changes them.  Proofs read a database through its lookups `def?`,
`state?` and `exec?`, so each change comes with what it does to the three.
-/
namespace GoJob

open Rel

/-! ## Executions -/

/-- `job_execution`: rows by id, with the two unique keys and the auto-increment counter. -/
structure Executions where
  table    : Table (fun e : ExecRow => e.id)
  lastId   : Nat
  ids      : ∀ e ∈ table.rows, e.id ≤ lastId
  keys     : (table.rows.map (fun e => e.executionKey)).Nodup
  requests : (table.rows.filterMap (fun e => e.requestId)).Nodup

namespace Executions

def empty : Executions := ⟨Table.empty, 0, by simp [Table.empty], by simp [Table.empty], by simp [Table.empty]⟩

theorem map_info {β : Type} (g : ExecInfo → β) (p : ExecRow → Bool) (w : ExecWrite) (rows : List ExecRow) :
    (rows.map (fun e => if p e then w.run e else e)).map (fun e => g e.toExecInfo) =
      rows.map (fun e => g e.toExecInfo) := by
  rw [List.map_map]
  refine List.map_congr_left (fun e _ => ?_)
  by_cases hp : p e <;> simp [hp, w.info]

theorem filterMap_eq {α β : Type} (g : α → Option β) (l : List α) : l.filterMap g = (l.map g).filterMap id := by
  rw [List.filterMap_map]; rfl

/-- `UPDATE job_execution SET w WHERE p`. -/
def update (x : Executions) (p : ExecRow → Bool) (w : ExecWrite) : Executions where
  table := x.table.update p w.run (fun e => congrArg ExecInfo.id (w.info e))
  lastId := x.lastId
  ids := by
    intro e he
    obtain ⟨e₀, he₀, rfl⟩ := List.mem_map.1 he
    by_cases hp : p e₀ <;> simp [hp, w.info, x.ids e₀ he₀]
  keys := by
    have h := map_info (fun i => i.executionKey) p w x.table.rows
    exact h ▸ x.keys
  requests := by
    have h := map_info (fun i => i.requestId) p w x.table.rows
    rw [filterMap_eq]
    exact h ▸ filterMap_eq _ x.table.rows ▸ x.requests

/-- `DELETE FROM job_execution WHERE p`. -/
def delete (x : Executions) (p : ExecRow → Bool) : Executions where
  table := x.table.delete p
  lastId := x.lastId
  ids := fun e he => x.ids e (List.mem_filter.1 he).1
  keys := x.keys.sublist (List.Sublist.map _ List.filter_sublist)
  requests := x.requests.sublist (List.Sublist.filterMap _ List.filter_sublist)

/-- The row is new to both unique keys. -/
def Fresh (x : Executions) (key : String) (request : Option String) : Prop :=
  key ∉ x.table.rows.map (fun e => e.executionKey) ∧
    ∀ r, request = some r → r ∉ x.table.rows.filterMap (fun e => e.requestId)

instance (x : Executions) (key : String) (request : Option String) : Decidable (x.Fresh key request) := by
  unfold Fresh
  cases request with
  | none => exact decidable_of_iff (key ∉ x.table.rows.map (fun e => e.executionKey)) (by simp)
  | some r =>
    exact decidable_of_iff (key ∉ x.table.rows.map (fun e => e.executionKey) ∧
      r ∉ x.table.rows.filterMap (fun e => e.requestId)) (by simp)

/-- `INSERT INTO job_execution`, of a row under the next id. -/
def insert (x : Executions) (e : ExecRow) (hid : e.id = x.lastId + 1) (h : x.Fresh e.executionKey e.requestId) :
    Executions where
  table := x.table.insert e (by
    intro hm
    obtain ⟨e', he', hk⟩ := List.mem_map.1 hm
    have := x.ids e' he'
    omega)
  lastId := e.id
  ids := by
    intro e' he'
    rcases List.mem_append.1 he' with he' | he'
    · have := x.ids e' he'; omega
    · rw [List.mem_singleton.1 he']
  keys := by
    show ((x.table.rows ++ [e]).map _).Nodup
    rw [List.map_append, List.nodup_append]
    refine ⟨x.keys, by simp, ?_⟩
    rintro a ha b hb rfl
    rw [List.map_singleton, List.mem_singleton] at hb
    exact h.1 (hb ▸ ha)
  requests := by
    show ((x.table.rows ++ [e]).filterMap _).Nodup
    rw [List.filterMap_append, List.nodup_append]
    refine ⟨x.requests, ?_, ?_⟩
    · cases hr : e.requestId <;> simp [hr]
    · rintro a ha b hb rfl
      obtain ⟨e', he', hr⟩ := List.mem_filterMap.1 hb
      rw [List.mem_singleton.1 he'] at hr
      exact h.2 a hr ha

end Executions

/-! ## The schema -/

structure DB where
  definitions : Table DefinitionRow.jobName
  states      : Table StateRow.jobName
  executions  : Executions
  attempts    : Table AttemptRow.key
  audits      : List AuditRow

namespace DB

def empty : DB := ⟨Table.empty, Table.empty, Executions.empty, Table.empty, []⟩

def def? (db : DB) (j : String) : Option DefinitionRow := db.definitions.get? j

def state? (db : DB) (j : String) : Option StateRow := db.states.get? j

def exec? (db : DB) (i : Nat) : Option ExecRow := db.executions.table.get? i

def attempt? (db : DB) (k t : String) : Option AttemptRow := db.attempts.get? (k, t)

theorem def?_jobName {db : DB} {j : String} {d : DefinitionRow} (h : db.def? j = some d) : d.jobName = j :=
  Table.get?_key h

theorem state?_jobName {db : DB} {j : String} {s : StateRow} (h : db.state? j = some s) : s.jobName = j :=
  Table.get?_key h

theorem exec?_id {db : DB} {i : Nat} {e : ExecRow} (h : db.exec? i = some e) : e.id = i :=
  (Table.get?_eq_some.1 h).2

theorem exec?_le {db : DB} {i : Nat} {e : ExecRow} (h : db.exec? i = some e) : i ≤ db.executions.lastId := by
  rw [← exec?_id h]
  exact db.executions.ids e (Table.mem_of_get? h)

theorem exec?_eq_none_of_lt {db : DB} {i : Nat} (h : db.executions.lastId < i) : db.exec? i = none := by
  cases he : db.exec? i with
  | none => rfl
  | some e =>
    have := exec?_le he
    omega

/-- **An execution key names one row.** -/
theorem exec?_key_inj {db : DB} {i i' : Nat} {e e' : ExecRow} (h : db.exec? i = some e) (h' : db.exec? i' = some e')
    (hk : e.executionKey = e'.executionKey) : i = i' := by
  have hee : e = e' :=
    List.inj_on_of_nodup_map db.executions.keys (Table.mem_of_get? h) (Table.mem_of_get? h') hk
  rw [← exec?_id h, ← exec?_id h', hee]

/-- The execution is a finished poll pass of the job. -/
def passEnded (db : DB) (j : String) (i : Nat) : Bool :=
  (db.exec? i).any (fun e => decide (e.jobName = j) && decide (e.triggerType = .poll) && e.status.terminal)

/-! ### Changes -/

/-- The row of job `j` after a write to `job_state`. -/
def setState (db : DB) (j : String) (w : StateWrite) : DB :=
  { db with states := db.states.modify j w.run w.jobName }

def setDef (db : DB) (j : String) (w : DefinitionWrite) : DB :=
  { db with definitions := db.definitions.modify j w.run w.jobName }

/-- The rows `p` selects, after a write to `job_execution`. -/
def setExecs (db : DB) (p : ExecRow → Bool) (w : ExecWrite) : DB :=
  { db with executions := db.executions.update p w }

def setExec (db : DB) (i : Nat) (w : ExecWrite) : DB := db.setExecs (fun e => decide (e.id = i)) w

def deleteExecs (db : DB) (p : ExecRow → Bool) : DB := { db with executions := db.executions.delete p }

def setAttempts (db : DB) (t : Table AttemptRow.key) : DB := { db with attempts := t }

/-- `INSERT ... ON DUPLICATE KEY UPDATE execution_key = execution_key`: the first record of an attempt stays. -/
def addAttempt (db : DB) (a : AttemptRow) : DB :=
  if h : a.key ∈ db.attempts.rows.map AttemptRow.key then db else db.setAttempts (db.attempts.insert a h)

def addAudit (db : DB) (a : AuditRow) : DB := { db with audits := db.audits ++ [a] }

def addExec (db : DB) (e : ExecRow) (hid : e.id = db.executions.lastId + 1)
    (h : db.executions.Fresh e.executionKey e.requestId) : DB :=
  { db with executions := db.executions.insert e hid h }

def addJob (db : DB) (d : DefinitionRow) (s : StateRow) (hd : d.jobName ∉ db.definitions.rows.map DefinitionRow.jobName)
    (hs : s.jobName ∉ db.states.rows.map StateRow.jobName) : DB :=
  { db with definitions := db.definitions.insert d hd, states := db.states.insert s hs }

theorem setExecs_at {db : DB} {i : Nat} {e : ExecRow} {g : ExecRow → Bool} (he : db.exec? i = some e) (hg : g e = true)
    (w : ExecWrite) : db.setExecs (Table.at_ (fun e : ExecRow => e.id) i g) w = db.setExec i w := by
  have ht := Table.update_at_eq_modify (t := db.executions.table) (f := w.run)
    (fun e => congrArg ExecInfo.id (w.info e)) he hg
  simp only [setExec, setExecs, Executions.update, ht]
  rfl

theorem setExecs_none {db : DB} {i : Nat} {g : ExecRow → Bool} (h : ∀ e, db.exec? i = some e → g e = false)
    (w : ExecWrite) : db.setExecs (Table.at_ (fun e : ExecRow => e.id) i g) w = db := by
  have ht := Table.update_at_eq_self (t := db.executions.table) (f := w.run)
    (fun e => congrArg ExecInfo.id (w.info e)) h
  simp only [setExecs, Executions.update, ht]

variable (db : DB)

section def?

@[simp] theorem def?_setDef (j k : String) (w : DefinitionWrite) :
    (db.setDef j w).def? k = if k = j then (db.def? j).map w.run else db.def? k :=
  Table.get?_modify db.definitions j w.run w.jobName k

@[simp] theorem def?_addJob (d s hd hs) (k : String) :
    (db.addJob d s hd hs).def? k = if d.jobName = k then some d else db.def? k :=
  Table.get?_insert db.definitions d hd k

@[simp] theorem def?_setState (j w k) : (db.setState j w).def? k = db.def? k := rfl
@[simp] theorem def?_setExecs (p w k) : (db.setExecs p w).def? k = db.def? k := rfl
@[simp] theorem def?_setExec (i w k) : (db.setExec i w).def? k = db.def? k := rfl
@[simp] theorem def?_deleteExecs (p k) : (db.deleteExecs p).def? k = db.def? k := rfl
@[simp] theorem def?_setAttempts (t k) : (db.setAttempts t).def? k = db.def? k := rfl
@[simp] theorem def?_addAttempt (a k) : (db.addAttempt a).def? k = db.def? k := by unfold addAttempt; split <;> rfl
@[simp] theorem def?_addAudit (a k) : (db.addAudit a).def? k = db.def? k := rfl
@[simp] theorem def?_addExec (e h h' k) : (db.addExec e h h').def? k = db.def? k := rfl

end def?

section state?

@[simp] theorem state?_setState (j k : String) (w : StateWrite) :
    (db.setState j w).state? k = if k = j then (db.state? j).map w.run else db.state? k :=
  Table.get?_modify db.states j w.run w.jobName k

@[simp] theorem state?_addJob (d s hd hs) (k : String) :
    (db.addJob d s hd hs).state? k = if s.jobName = k then some s else db.state? k :=
  Table.get?_insert db.states s hs k

@[simp] theorem state?_setDef (j w k) : (db.setDef j w).state? k = db.state? k := rfl
@[simp] theorem state?_setExecs (p w k) : (db.setExecs p w).state? k = db.state? k := rfl
@[simp] theorem state?_setExec (i w k) : (db.setExec i w).state? k = db.state? k := rfl
@[simp] theorem state?_deleteExecs (p k) : (db.deleteExecs p).state? k = db.state? k := rfl
@[simp] theorem state?_setAttempts (t k) : (db.setAttempts t).state? k = db.state? k := rfl
@[simp] theorem state?_addAttempt (a k) : (db.addAttempt a).state? k = db.state? k := by
  unfold addAttempt; split <;> rfl
@[simp] theorem state?_addAudit (a k) : (db.addAudit a).state? k = db.state? k := rfl
@[simp] theorem state?_addExec (e h h' k) : (db.addExec e h h').state? k = db.state? k := rfl

end state?

section exec?

@[simp] theorem exec?_setExecs (p : ExecRow → Bool) (w : ExecWrite) (k : Nat) :
    (db.setExecs p w).exec? k = (db.exec? k).map (fun e => if p e then w.run e else e) :=
  Table.get?_update db.executions.table p w.run (fun e => congrArg ExecInfo.id (w.info e)) k

@[simp] theorem exec?_setExec (i k : Nat) (w : ExecWrite) :
    (db.setExec i w).exec? k = if k = i then (db.exec? i).map w.run else db.exec? k :=
  Table.get?_modify db.executions.table i w.run (fun e => congrArg ExecInfo.id (w.info e)) k

@[simp] theorem exec?_deleteExecs (p : ExecRow → Bool) (k : Nat) :
    (db.deleteExecs p).exec? k = (db.exec? k).filter (fun e => !p e) :=
  Table.get?_delete db.executions.table p k

@[simp] theorem exec?_addExec (e h h') (k : Nat) :
    (db.addExec e h h').exec? k = if e.id = k then some e else db.exec? k := by
  simp only [exec?, addExec, Executions.insert]
  exact Table.get?_insert db.executions.table e _ k

@[simp] theorem exec?_setState (j w k) : (db.setState j w).exec? k = db.exec? k := rfl
@[simp] theorem exec?_setDef (j w k) : (db.setDef j w).exec? k = db.exec? k := rfl
@[simp] theorem exec?_setAttempts (t k) : (db.setAttempts t).exec? k = db.exec? k := rfl
@[simp] theorem exec?_addAttempt (a k) : (db.addAttempt a).exec? k = db.exec? k := by unfold addAttempt; split <;> rfl

@[simp] theorem executions_addAttempt (a) : (db.addAttempt a).executions = db.executions := by
  unfold addAttempt; split <;> rfl
@[simp] theorem exec?_addAudit (a k) : (db.addAudit a).exec? k = db.exec? k := rfl
@[simp] theorem exec?_addJob (d s hd hs k) : (db.addJob d s hd hs).exec? k = db.exec? k := rfl

end exec?

section attempt?

variable {db}

/-- What an insert into the history leaves depends on the history alone. -/
theorem attempts_addAttempt {db₁ : DB} (h : db₁.attempts = db.attempts) (a : AttemptRow) :
    (db₁.addAttempt a).attempts = (db.addAttempt a).attempts := by
  unfold addAttempt
  rw [h]
  split
  · exact h
  · simp only [setAttempts]

end attempt?

end DB

end GoJob
