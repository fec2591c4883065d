import GoJob.Complete
/-!
# Lease — keeping an attempt alive (`lease.go`)

`Renew` extends both leases in one transaction; `ExtendDeadline` moves the silence budget and nothing else.
-/
namespace GoJob

def renewLockWrite (leaseSeconds : Int) (u : Utc) : StateWrite where
  run s := { s with writeSeq := s.writeSeq + 1, leaseUntil := some (u + leaseSeconds), heartbeatAt := some u }
  jobName _ := rfl
  seq _ := rfl

def renewWrite (leaseSeconds : Int) (u : Utc) : ExecWrite where
  run e := { e with writeSeq := e.writeSeq + 1, leaseUntil := some (u + leaseSeconds), heartbeatAt := some u }
  info _ := rfl
  seq _ := rfl

/-- `Renew`.  An expired lease is not revived. -/
def renew (c : Ctx) (h : Holder) (leaseSeconds : Int) : StoreM Unit := do
  casState h.jobName (fun s => s.owned h.runToken h.fenceEpoch) (renewLockWrite leaseSeconds (c.utc 0)) .fenced
    ("job " ++ h.jobName.quote ++ " lease not held" ++ underToken h.runToken h.fenceEpoch)
  casExec h.executionId
    (fun e => e.status.held && decide (e.ownerInstance = some h.owner) && e.owned h.runToken h.fenceEpoch &&
      live e.leaseUntil (c.utc 1))
    (renewWrite leaseSeconds (c.utc 1)) .fenced
    (execution h.executionId ++ " lease not held" ++ underToken h.runToken h.fenceEpoch)

def extendWrite (silenceSeconds : Int) (u : Utc) : ExecWrite where
  run e := { e with writeSeq := e.writeSeq + 1, deadlineAt := some (u + silenceSeconds) }
  info _ := rfl
  seq _ := rfl

def extendDeadline (c : Ctx) (h : Holder) (silenceSeconds : Int) : StoreM Unit :=
  casExec h.executionId (fun e => e.reportable h (c.utc 0)) (extendWrite silenceSeconds (c.utc 0)) .fenced
    (execution h.executionId ++ " progress refused" ++ underToken h.runToken h.fenceEpoch)

end GoJob
