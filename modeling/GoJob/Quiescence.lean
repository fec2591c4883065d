import GoJob.Ledger
/-!
# Quiescence — what a schema still has outstanding (`Store.Quiescent`)

Before a tenant moves to another schema its old one must be quiet: no job is held and no execution is in flight.  The
two are counted by two statements, with anything happening between them.  At any one moment the counts are equal, so a
quiet answer means that nothing was held at the second count, and what is held later was claimed after it.
-/
namespace GoJob

open Rel Sys

variable {env : Env} {db : DB} {w w₁ w₂ w₃ : World}

/-! ## The counts -/

/-- `store.Quiescence`. -/
structure Quiescence where
  held     : Nat
  inFlight : Nat
  queued   : Nat
  deriving DecidableEq, Repr

/-- `Quiescence.Quiet`. -/
def Quiescence.quiet (q : Quiescence) : Bool := decide (q.held = 0) && decide (q.inFlight = 0)

def DB.heldJobs (db : DB) : Nat := db.states.rows.countP (·.held)

def DB.inFlight (db : DB) : Nat := db.executions.table.rows.countP (·.status.held)

def DB.queued (db : DB) : Nat := db.executions.table.rows.countP (fun e => decide (e.status = .ready))

/-- `Quiescent`: each count reads the schema as it is at its own statement. -/
def quiescent (db₁ db₂ db₃ : DB) : Quiescence := ⟨db₁.heldJobs, db₂.inFlight, db₃.queued⟩

/-- **The held jobs are those of the executions in flight**, one each. -/
theorem Agree.heldJobs_eq_inFlight (h : Agree db) : db.heldJobs = db.inFlight := by
  have hperm : ((db.states.rows.filter (·.held)).map (·.jobName)).Perm
      ((db.executions.table.rows.filter (·.status.held)).map (fun e => e.jobName)) := by
    refine (List.perm_ext_iff_of_nodup (db.states.nodup.sublist (List.filter_sublist.map _)) ?_).2 (fun j => ?_)
    · -- Two held executions of one job are one.
      refine List.Nodup.map_on (fun e he x hx hj => ?_)
        ((List.Nodup.of_map _ db.executions.table.nodup).filter _)
      obtain ⟨he, hhe⟩ := List.mem_filter.1 he
      obtain ⟨hx, hhx⟩ := List.mem_filter.1 hx
      have hid := h.unique (DB.mem_iff.1 he) (DB.mem_iff.1 hx) hj hhe hhx
      exact Option.some.inj ((DB.mem_iff.1 he).symm.trans (hid ▸ DB.mem_iff.1 hx))
    · simp only [List.mem_map, List.mem_filter]
      constructor
      · rintro ⟨s, ⟨hs, hheld⟩, rfl⟩
        obtain ⟨i, e, he, hj, hh⟩ := h.lock s.jobName s (Table.get?_of_mem hs) (Option.isSome_iff_ne_none.1 hheld)
        exact ⟨e, ⟨Table.mem_of_get? he, hh⟩, hj⟩
      · rintro ⟨e, ⟨he, hh⟩, rfl⟩
        obtain ⟨s, hs, hes⟩ := h.held e.id e (DB.mem_iff.1 he) hh
        exact ⟨s, ⟨Table.mem_of_get? hs, Option.isSome_iff_ne_none.2 hes.kind⟩, DB.state?_jobName hs⟩
  have hlen := hperm.length_eq
  rw [List.length_map, List.length_map] at hlen
  rw [DB.heldJobs, DB.inFlight, List.countP_eq_length_filter, List.countP_eq_length_filter, hlen]

theorem DB.inFlight_eq_zero : db.inFlight = 0 ↔ ∀ i e, db.exec? i = some e → e.status.held = false := by
  rw [DB.inFlight, List.countP_eq_zero]
  constructor
  · intro h i e he
    simpa using h e (Table.mem_of_get? he)
  · intro h e he
    simpa using h e.id e (DB.mem_iff.1 he)

theorem DB.heldToken_none (h : db.inFlight = 0) (i : Nat) : db.heldToken i = none := by
  cases he : db.exec? i with
  | none => simp [DB.heldToken, he]
  | some e => simp [DB.heldToken, he, DB.inFlight_eq_zero.1 h i e he]

theorem HolderInv.inFlight_eq_zero {issued : List String} (h : HolderInv db issued)
    (hnone : ∀ i, db.heldToken i = none) : db.inFlight = 0 := by
  refine DB.inFlight_eq_zero.2 (fun i e he => ?_)
  by_contra hh
  obtain ⟨s, -, hes⟩ := h.held i e he (by simpa using hh)
  have := hnone i
  simp only [DB.heldToken, he, Option.bind_some] at this
  rw [if_pos (by simpa using hh)] at this
  exact hes.some_ this

/-! ## A quiet answer -/

section quiet

variable {u : Utc} {tr₁ tr₂ tr₃ tr : History}

/-- From a moment at which nothing is in flight, the ledger has only what was granted since. -/
theorem ledger_of_idle (hinv : HolderInv w.db w.issued) (hidle : w.db.inFlight = 0) (hr : Run (Step env) w tr w₁)
    (i : Nat) : tr.filterMap (claimedToken i) = tr.filterMap (closedToken env i) ++ (w₁.db.heldToken i).toList := by
  have h := ledger_between hinv hr i
  rwa [DB.heldToken_none hidle i] at h

theorem claimed_since_idle (hinv : HolderInv w.db w.issued) (hidle : w.db.inFlight = 0) (hr : Run (Step env) w tr w₁)
    {i : Nat} {t : String} (ht : w₁.db.heldToken i = some t) : ∃ x ∈ tr, claimedToken i x = some t := by
  have hmem : t ∈ tr.filterMap (claimedToken i) := by
    rw [ledger_of_idle hinv hidle hr i, ht]
    simp
  exact List.mem_filterMap.1 hmem

/-- **A schema found quiet holds only what was claimed since.**  At every moment as many jobs are held as executions are
in flight.  Whoever holds an execution after a quiet answer was granted it after the second of its counts, and as long
as nobody is, the schema stays quiet and no attempt ends. -/
theorem quiet_schema_stays_quiet (hr₁ : Run (Step env) (World.init u) tr₁ w₁) (hr₂ : Run (Step env) w₁ tr₂ w₂)
    (hr₃ : Run (Step env) w₂ tr₃ w₃) (hr : Run (Step env) w₃ tr w)
    (hq : (quiescent w₁.db w₂.db w₃.db).quiet = true) :
    w.db.heldJobs = w.db.inFlight ∧
    (∀ i t, w.db.heldToken i = some t → ∃ x ∈ tr₃ ++ tr, claimedToken i x = some t) ∧
    ((∀ x ∈ tr₃ ++ tr, ∀ i, claimedToken i x = none) →
      (quiescent w.db w.db w.db).quiet = true ∧ ∀ x ∈ tr₃ ++ tr, ∀ i, closedToken env i x = none) := by
  have hinv₂ := HolderInv.run (hr₁.append hr₂)
  have hinv := HolderInv.run (((hr₁.append hr₂).append hr₃).append hr)
  have hquiet : w₂.db.inFlight = 0 := of_decide_eq_true (Bool.and_eq_true_iff.1 hq).2
  have ledger := ledger_of_idle hinv₂ hquiet (hr₃.append hr)
  refine ⟨hinv.toAgree.heldJobs_eq_inFlight, fun i t => claimed_since_idle hinv₂ hquiet (hr₃.append hr),
    fun hnone => ?_⟩
  have hnil : ∀ i, (tr₃ ++ tr).filterMap (closedToken env i) = [] ∧ (w.db.heldToken i).toList = [] := fun i => by
    have hclaims : (tr₃ ++ tr).filterMap (claimedToken i) = [] :=
      List.filterMap_eq_nil_iff.2 (fun x hx => hnone x hx i)
    exact List.append_eq_nil_iff.1 ((ledger i).symm.trans hclaims)
  have hzero := hinv.inFlight_eq_zero (fun i => Option.toList_eq_nil_iff.1 (hnil i).2)
  refine ⟨?_, fun x hx i => List.filterMap_eq_nil_iff.1 (hnil i).1 x hx⟩
  simp [Quiescence.quiet, quiescent, hinv.toAgree.heldJobs_eq_inFlight, hzero]

end quiet

/-- The pass waits, is found queued but not held, and is claimed a second later. -/
theorem quiet_schema_stays_quiet_claimed :
    ((World.init 0).play bareEnv claimedPass).db.heldJobs = 1 ∧
      ∃ x ∈ ((World.init 0).play bareEnv firstPass).trace bareEnv [(claimPass "t1", 2)],
        claimedToken 1 x = some "t1" := by
  have h := quiet_schema_stays_quiet (World.run_play bareEnv firstPass (World.init 0) (by decide)) .nil .nil
    (World.run_play bareEnv [(claimPass "t1", 2)] _ (by decide)) (by decide +kernel)
  exact ⟨h.1.trans (by decide +kernel), by simpa using h.2.1 1 "t1" (by decide +kernel)⟩

end GoJob
