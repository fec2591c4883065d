import GoJob.Complete
/-!
# Retention — deleting finished history (`retention.go`)

One bounded batch of terminal executions, oldest first, each with its attempts.
-/
namespace GoJob

/-- The rows old enough to delete: success has its own window. -/
def ExecRow.expired (e : ExecRow) (successBefore otherBefore : Instant) : Bool :=
  match e.status with
  | .success => e.finishedAt.any (fun t => decide (t < successBefore))
  | .dead | .cancelled | .skipped => e.finishedAt.any (fun t => decide (t < otherBefore))
  | _ => false

/-- `ORDER BY finished_at, id`. -/
def ExecRow.older (a b : ExecRow) : Bool :=
  decide (a.finishedAt.getD 0 < b.finishedAt.getD 0) ||
    (decide (a.finishedAt.getD 0 = b.finishedAt.getD 0) && decide (a.id ≤ b.id))

/-- Deletes one candidate: its attempts first, then the row itself if it is still terminal. -/
def reapOne (i : Nat) (key : String) : StoreM Unit := do
  let db ← get
  let p : ExecRow → Bool := fun e => decide (e.id = i) && decide (e.executionKey = key) && e.status.terminal
  let n := db.executions.table.rows.countP p
  set ((db.setAttempts (db.attempts.delete (fun a => decide (a.executionKey = key)))).deleteExecs p)
  if n ≠ 1 then
    fail .other ("delete retained execution " ++ key.quote ++ " affected " ++ toString n ++ " rows, expected 1")

def reapAll : List ExecRow → Nat → StoreM Nat
  | [], deleted => return deleted
  | e :: es, deleted => do
    reapOne e.id e.executionKey
    reapAll es (deleted + 1)

def reapExecutions (c : Ctx) (successRetention otherRetention : Instant) (limit : Int) : StoreM Nat := do
  if successRetention ≤ 0 then
    fail .other "success retention must be positive"
  else if otherRetention ≤ 0 then
    fail .other "other retention must be positive"
  else if limit ≤ 0 then
    fail .other "retention batch size must be positive"
  else
    let db ← get
    let candidates := (db.executions.table.rows.filter (fun e =>
      e.expired (c.now - successRetention) (c.now - otherRetention) && !c.busyExec e.id)).insertionSort
        (fun a b => a.older b)
    reapAll (candidates.take limit.toNat) 0

end GoJob
