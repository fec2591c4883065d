import GoJob.Progress
import GoJob.Trail
/-!
# Orphans — what the orphan alert lists is what no claim takes (`Orphans`, `HandlerIsServed`)

`Orphans` asks the database which jobs no live executor can run, a claim asks again for the one job it holds the lock
of, and the two queries are not the same text: a job of any group has `NULL` for its group in one of them and the empty
string in the other.  No definition was ever written with an empty group, so the two agree: a job of the list is never
taken up and loses nothing while it waits, and one that is not in the list runs as soon as it is free.
-/
namespace GoJob

open Rel Tx

variable {env : Env} {c : Ctx} {w w' : World} {i : Nat} {e : ExecRow} {s : StateRow} {d : DefinitionRow}

/-! ## Groups -/

/-- No definition names the empty group. -/
def DB.Grouped (db : DB) : Prop := ∀ j d, db.def? j = some d → d.executorGroup ≠ some ""

theorem nullString_ne (s : String) : nullString s ≠ some "" := by
  unfold nullString
  split
  · exact Option.some_ne_none _ ∘ Eq.symm
  · rename_i hs
    exact fun h => hs (Option.some.inj h)

theorem DB.Grouped.of_from {db db' : DB} (h : db.Grouped) (hg : ∀ j d, db'.def? j = some d → GroupFrom db j d) :
    db'.Grouped := by
  intro j d hd
  rcases hg j d hd with ⟨group, hgroup⟩ | ⟨d₀, hd₀, hsame⟩
  · rw [hgroup]
    exact nullString_ne group
  · rw [hsame]
    exact h j d₀ hd₀

theorem Entries.grouped {db db' : DB} {x : String} {rs : List AuditRow} (h : Entries c x db rs db')
    (hg : db.Grouped) : db'.Grouped := by
  induction h with
  | nil => exact hg
  | snoc _ hr ih => exact ih.of_from hr.group

theorem Step.grouped {l : Action × Ctx} (hst : Step env w l w') (hg : w.db.Grouped) : w'.db.Grouped := by
  rcases Tx.commit_cases (l.1.tx env l.2) w.db with ⟨_, _, hsame⟩ | ⟨u, hok⟩
  · rwa [hst.db, hsame]
  · rw [← hst.db] at hok
    obtain ⟨rs, htold⟩ := l.1.told hok
    cases htold with
    | none hu => exact fun j d hd => hg j d ((hu.defs j).symm.trans hd)
    | rows _ _ he => exact he.grouped hg

theorem Reachable.grouped (hr : Reachable env w) : w.db.Grouped := by
  obtain ⟨u, tr, hr⟩ := hr
  exact Sys.Run.invariant (I := fun w => w.db.Grouped) (fun _ _ h => by cases h) (fun _ _ _ h hst => hst.grouped h) hr

/-! ## The alert -/

structure Orphan where
  jobName    : String
  handlerKey : String
  group      : String
  deriving DecidableEq, Repr

/-- The subquery of `Orphans`: a live executor declares the handler, in the group if there is one. -/
def DefinitionRow.hasExecutor (d : DefinitionRow) (g : Registrations) (liveness : Int) : Bool :=
  g.rows.any fun x => decide (d.handlerKey ∈ x.handlers) && x.live liveness g.utc &&
    (d.executorGroup.isNone || decide (d.executorGroup = some x.group))

def DB.orphans (db : DB) (g : Registrations) (liveness : Int) : List Orphan :=
  ((db.definitions.rows.filter fun d => d.enabled && !d.retired && !d.hasExecutor g liveness).insertionSort
    (fun a b => a.jobName ≤ b.jobName)).map fun d => ⟨d.jobName, d.handlerKey, d.executorGroup.getD ""⟩

/-- The two ways of asking agree, where the group is written as it should be. -/
theorem hasExecutor_eq (hg : d.executorGroup ≠ some "") (g : Registrations) (liveness : Int) :
    d.hasExecutor g liveness = g.handlerIsServed d.toDefinition liveness := by
  have hgroup : ∀ x : Executor, (d.executorGroup.isNone || decide (d.executorGroup = some x.group)) =
      (decide (d.executorGroup.getD "" = "") || decide (x.group = d.executorGroup.getD "")) := by
    intro x
    cases hd : d.executorGroup with
    | none => simp
    | some group =>
      have hne : group ≠ "" := fun h => hg (by rw [hd, h])
      simp [hne, eq_comm]
  unfold DefinitionRow.hasExecutor Registrations.handlerIsServed Executor.serves
  congr 1
  funext x
  rw [hgroup x, Bool.and_assoc, Bool.and_comm (x.live liveness g.utc), ← Bool.and_assoc]
  rfl

theorem mem_orphans {db : DB} {g : Registrations} {liveness : Int} {j : String} (hd : db.def? j = some d) :
    j ∈ (db.orphans g liveness).map (·.jobName) ↔
      d.enabled = true ∧ d.retired = false ∧ d.hasExecutor g liveness = false := by
  have hj : d.jobName = j := DB.def?_jobName hd
  simp only [DB.orphans, List.map_map, List.mem_map, List.mem_insertionSort, List.mem_filter, Function.comp,
    Bool.and_eq_true, Bool.not_eq_true', and_assoc]
  constructor
  · rintro ⟨d', hm, hen, hret, hno, hname⟩
    obtain rfl : d' = d := Option.some.inj ((Table.get?_eq_some.2 ⟨hm, hname⟩).symm.trans hd)
    exact ⟨hen, hret, hno⟩
  · rintro ⟨hen, hret, hno⟩
    exact ⟨d, Table.mem_of_get? hd, hen, hret, hno, hj⟩

/-! ## The claims -/

/-- A claim of a row that waits, of a job that may not run now, puts the row off. -/
theorem Claimable.claim_deferred {p : ClaimParams} (h : Claimable w i e s d)
    (hp : p.candidate = ⟨i, e.jobName, e.executionKey⟩)
    (hcap : past e.timeoutAt (c.utc 2) = false) (hb : c.busy e.jobName = false) {run : Runnable} {detail : String}
    (hrun : run w.db d.toDefinition s = .error ⟨.notRunnable, detail⟩) :
    claim c p run w.db = .ok (⟨.deferred, 0, d.toDefinition, some ⟨.notRunnable, detail⟩⟩,
      w.db.setExec i (deferWrite c p.backoffSeconds)) := by
  obtain ⟨rfl, hj, hk⟩ : p.executionId = i ∧ p.jobName = e.jobName ∧ p.executionKey = e.executionKey := by
    simpa [ClaimParams.candidate] using hp
  have hid : ¬ ((e.toStale (c.utc 2)).jobName ≠ p.jobName ∨ (e.toStale (c.utc 2)).executionKey ≠ p.executionKey) := by
    simp [ExecRow.toStale, hj, hk]
  rw [← hj] at hb
  unfold claim
  rw [bind_of_ok (lockState_run (hj ▸ h.state) hb), bind_of_ok (readDefinition_run (hj ▸ h.defn)),
    bind_of_ok (lockExecution_run h.exec), if_neg hid,
    if_neg (show ¬ (e.toStale (c.utc 2)).timeoutExpired = true from fun ht => Bool.noConfusion (hcap.symm.trans ht)),
    if_neg (by simp [h.awake]), bind_of_ok (get_run w.db)]
  simp only [hrun]
  have hdefer : deferCandidate c p.executionId p.backoffSeconds w.db =
      .ok ((), w.db.setExec p.executionId (deferWrite c p.backoffSeconds)) := by
    obtain ⟨db', hok⟩ := tryExec_run _ _ _
    rcases tryExec_ok hok with ⟨e', he', -, rfl⟩ | ⟨hno, -⟩
    · exact hok
    · exact absurd (hno e h.exec) (by simp [h.ready])
  rw [if_neg (by simp), bind_of_ok hdefer]
  rfl

end GoJob
