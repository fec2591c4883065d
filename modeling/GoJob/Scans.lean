import GoJob.Claim
import GoJob.Recovery
/-!
# Scans — what a scheduler reads before it acts (`claim.go`, `recovery.go`)

Bounded pages of executions, read outside any transaction.  By the time a row of a page is acted on it may have moved
on, so every call that is handed one decides again under the job's lock.
-/
namespace GoJob

/-- `SELECT ... WHERE p ORDER BY col, id LIMIT n`. -/
def DB.scan (db : DB) (p : ExecRow → Bool) (col : ExecRow → Int) (limit : Nat) : List ExecRow :=
  ((db.executions.table.rows.filter p).insertionSort
    (fun a b => col a < col b ∨ (col a = col b ∧ a.id ≤ b.id))).take limit

theorem DB.mem_scan {db : DB} {p : ExecRow → Bool} {col : ExecRow → Int} {limit : Nat} {e : ExecRow}
    (h : e ∈ db.scan p col limit) : db.exec? e.id = some e ∧ p e = true := by
  have hmem := (List.mem_insertionSort _).1 (List.mem_of_mem_take h)
  obtain ⟨hrow, hp⟩ := List.mem_filter.1 hmem
  exact ⟨Rel.Table.get?_of_mem hrow, hp⟩

/-- The order of a scan. -/
abbrev ScanLe (col : ExecRow → Int) (a b : ExecRow) : Prop := col a < col b ∨ (col a = col b ∧ a.id ≤ b.id)

instance {col : ExecRow → Int} : Std.Total (ScanLe col) := ⟨fun a b => by unfold ScanLe; omega⟩

instance {col : ExecRow → Int} : IsTrans ExecRow (ScanLe col) := ⟨fun a b c => by unfold ScanLe; omega⟩

theorem ScanLe.id_eq {col : ExecRow → Int} {a b : ExecRow} (h : ScanLe col a b) (h' : ScanLe col b a) :
    a.id = b.id := by
  unfold ScanLe at h h'
  omega

/-- A page that has room has every row. -/
theorem DB.mem_scan_of_room {db : DB} {p : ExecRow → Bool} {col : ExecRow → Int} {limit : Nat} {e : ExecRow}
    (h : (db.scan p col limit).length < limit ∨ (db.executions.table.rows.filter p).length ≤ limit)
    (he : db.exec? e.id = some e) (hp : p e = true) : e ∈ db.scan p col limit := by
  unfold DB.scan at h ⊢
  rw [List.length_take, List.length_insertionSort] at h
  rw [List.take_of_length_le (by rw [List.length_insertionSort]; omega), List.mem_insertionSort]
  exact List.mem_filter.2 ⟨Rel.Table.mem_of_get? he, hp⟩

/-- No row is in a page twice. -/
theorem DB.scan_nodup (db : DB) (p : ExecRow → Bool) (col : ExecRow → Int) (limit : Nat) :
    ((db.scan p col limit).map (·.id)).Nodup := by
  refine List.Nodup.sublist ((List.take_sublist _ _).map _) ?_
  refine (((List.perm_insertionSort _ _).map _).nodup_iff).2 ?_
  exact db.executions.table.nodup.sublist (List.filter_sublist.map _)

structure Candidate where
  id           : Nat
  jobName      : String
  executionKey : String
  deriving DecidableEq, Repr

/-- `ReadyCandidates`, by the business clock. -/
def DB.readyCandidates (db : DB) (manualFirst : Bool) (now : Instant) (limit : Nat) : List Candidate :=
  (db.scan (fun e => decide (e.status = .ready) && decide (e.manualFirst = manualFirst) && decide (e.availableAt ≤ now))
    (fun e => e.availableAt) limit).map (fun e => ⟨e.id, e.jobName, e.executionKey⟩)

/-- The scans that return a `Stale`, by the database clock. -/
def DB.scanStale (db : DB) (p : ExecRow → Bool) (col : ExecRow → Int) (u : Utc) (limit : Nat) : List Stale :=
  (db.scan (fun e => e.status.held && p e) col limit).map (fun e => e.toStale u)

def DB.staleExecutions (db : DB) (u : Utc) (limit : Nat) : List Stale :=
  db.scanStale (fun e => past e.leaseUntil u) (fun e => e.leaseUntil.getD 0) u limit

def DB.timedOut (db : DB) (u : Utc) (limit : Nat) : List Stale :=
  db.scanStale (fun e => past e.timeoutAt u) (fun e => e.timeoutAt.getD 0) u limit

/-- `Silent`: not a row that nobody has accepted yet, and not one recovery will see. -/
def DB.silent (db : DB) (u : Utc) (limit : Nat) : List Stale :=
  db.scanStale (fun e => decide (e.status ≠ .dispatching) && past e.deadlineAt u && live e.leaseUntil u)
    (fun e => e.deadlineAt.getD 0) u limit

def DB.ownedByInstance (db : DB) (owner : String) (u : Utc) (limit : Nat) : List Stale :=
  db.scanStale (fun e => decide (e.ownerInstance = some owner)) (fun _ => 0) u limit

theorem DB.mem_scanStale {db : DB} {p : ExecRow → Bool} {col : ExecRow → Int} {u : Utc} {limit : Nat} {v : Stale}
    (h : v ∈ db.scanStale p col u limit) :
    ∃ e, db.exec? v.id = some e ∧ v = e.toStale u ∧ e.status.held = true ∧ p e = true := by
  obtain ⟨e, he, rfl⟩ := List.mem_map.1 h
  obtain ⟨hrow, hp⟩ := DB.mem_scan he
  rw [Bool.and_eq_true] at hp
  exact ⟨e, hrow, rfl, hp.1, hp.2⟩

/-! ## Held rows -/

def DB.heldIds (db : DB) : Finset Nat := ((db.executions.table.rows.filter (·.status.held)).map (·.id)).toFinset

theorem DB.mem_heldIds {db : DB} {i : Nat} : i ∈ db.heldIds ↔ ∃ e, db.exec? i = some e ∧ e.status.held = true := by
  rw [DB.heldIds, List.mem_toFinset, List.mem_map]
  constructor
  · rintro ⟨e, he, rfl⟩
    obtain ⟨hrow, hh⟩ := List.mem_filter.1 he
    exact ⟨e, Rel.Table.get?_of_mem hrow, hh⟩
  · rintro ⟨e, he, hh⟩
    exact ⟨e, List.mem_filter.2 ⟨Rel.Table.mem_of_get? he, hh⟩, DB.exec?_id he⟩

theorem DB.card_heldIds (db : DB) : db.heldIds.card = (db.executions.table.rows.filter (·.status.held)).length := by
  rw [DB.heldIds, List.toFinset_card_of_nodup, List.length_map]
  exact db.executions.table.nodup.sublist (List.filter_sublist.map _)

end GoJob
