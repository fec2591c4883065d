import GoJob.Holder
/-!
# Attempts — the history of an execution's attempts

Of all transactions six write to `job_execution_attempt`, and each of them ends an attempt: it adds one row, unless the
attempt has one, in the same transaction that takes the token off the execution.  Retention deletes an execution's
rows together with the execution.  Everything else leaves the table alone.
-/
namespace GoJob

open Rel Tx

variable {env : Env} {c : Ctx} {db db' : DB} {a : Action}

/-! ## Statements that leave the history alone -/

/-- A part of the database that state rows and executions are no part of. -/
class OffRows {γ : Type} (f : DB → γ) : Prop where
  state : ∀ db j w, f (DB.setState db j w) = f db
  exec  : ∀ db i w, f (DB.setExec db i w) = f db
  execs : ∀ db p w, f (DB.setExecs db p w) = f db
  added : ∀ db e h h', f (DB.addExec db e h h') = f db

/-- A part of the database that state rows, executions and the audit log are no part of. -/
class Aside {γ : Type} (f : DB → γ) : Prop where
  state : ∀ db j w, f (DB.setState db j w) = f db
  exec  : ∀ db i w, f (DB.setExec db i w) = f db
  execs : ∀ db p w, f (DB.setExecs db p w) = f db
  added : ∀ db e h h', f (DB.addExec db e h h') = f db
  audit : ∀ db r, f (DB.addAudit db r) = f db

instance : Aside DB.attempts :=
  ⟨fun _ _ _ => rfl, fun _ _ _ => rfl, fun _ _ _ => rfl, fun _ _ _ _ => rfl, fun _ _ => rfl⟩

instance : Aside DB.definitions :=
  ⟨fun _ _ _ => rfl, fun _ _ _ => rfl, fun _ _ _ => rfl, fun _ _ _ _ => rfl, fun _ _ => rfl⟩

instance {γ : Type} (f : DB → γ) [Aside f] : OffRows f :=
  ⟨Aside.state, Aside.exec, Aside.execs, Aside.added⟩

section keeps

variable {γ : Type} {f : DB → γ} [OffRows f]

instance {α : Type} (k : Sentinel) (d : String) : Keeps f (fail k d : StoreM α) := by
  unfold fail; infer_instance

instance (j : String) (g : StateRow → Bool) (w : StateWrite) : Keeps f (updateState j g w) := by
  refine ⟨fun h => ?_⟩
  rcases updateState_ok h with ⟨_, _, _, _, h⟩ | ⟨_, _, h⟩
  · exact h ▸ OffRows.state _ _ _
  · rw [h]

instance (i : Nat) (g : ExecRow → Bool) (w : ExecWrite) : Keeps f (updateExec i g w) := by
  refine ⟨fun h => ?_⟩
  rcases updateExec_ok h with ⟨_, _, _, _, h⟩ | ⟨_, _, h⟩
  · exact h ▸ OffRows.exec _ _ _
  · rw [h]

instance (j : String) (g : DefinitionRow → Bool) (w : DefinitionWrite) :
    Keeps DB.attempts (updateDefinition j g w) := by
  refine ⟨fun h => ?_⟩
  rcases updateDefinition_ok h with ⟨_, _, _, _, h⟩ | ⟨_, _, h⟩
  · rw [h]; rfl
  · rw [h]

instance (p : ExecRow → Bool) (w : ExecWrite) : Keeps f (updateExecs p w) :=
  ⟨fun h => (updateExecs_ok h).2 ▸ OffRows.execs _ _ _⟩

instance (n : Nat) (s : String) : Keeps f (assertOne n s) := by unfold assertOne; infer_instance

instance (j : String) (g : StateRow → Bool) (w : StateWrite) (k : Sentinel) (d : String) :
    Keeps f (casState j g w k d) := by unfold casState; infer_instance

instance (i : Nat) (g : ExecRow → Bool) (w : ExecWrite) (k : Sentinel) (d : String) :
    Keeps f (casExec i g w k d) := by unfold casExec; infer_instance

instance (j : String) (g : StateRow → Bool) (w : StateWrite) (d : String) : Keeps f (mustState j g w d) := by
  unfold mustState; infer_instance

instance (i : Nat) (g : ExecRow → Bool) (w : ExecWrite) (d : String) : Keeps f (mustExec i g w d) := by
  unfold mustExec; infer_instance

instance (i : Nat) (g : ExecRow → Bool) (w : ExecWrite) (d : String) : Keeps f (tryExec i g w d) := by
  unfold tryExec; infer_instance

instance (j : String) : Keeps f (lockState c j) := ⟨fun h => by rw [(lockState_ok h).2]⟩

instance (j : String) : Keeps f (readDefinition j) := ⟨fun h => by rw [(readDefinition_ok h).2]⟩

instance (i : Nat) (u : Utc) : Keeps f (lockExecution i u) := ⟨fun h => by rw [(lockExecution_ok h).2]⟩

omit [OffRows f] in
instance [Aside f] (x y j k d : String) : Keeps f (audit c x y j k d) := by
  refine ⟨fun h => ?_⟩
  obtain ⟨_, h⟩ := audit_ok h
  exact h ▸ Aside.audit _ _

instance (j : String) (i : Nat) : Keeps f (settlePollClock c j i) := by
  refine ⟨fun {db r} h => ?_⟩
  obtain ⟨u, db'⟩ := r
  cases settlePollClock_ok h with
  | idle => rfl
  | restart => exact OffRows.state _ _ _

instance (r : NewExecution) : Keeps f (insertExecution r) := by
  unfold insertExecution
  split
  · infer_instance
  · refine ⟨fun {db r} h => ?_⟩
    replace h := Tx.get_bind_ok.1 h
    split at h
    · obtain ⟨_, _, h₂, h⟩ := Tx.bind_ok.1 h
      obtain ⟨_, rfl⟩ := Prod.mk.inj (Tx.set_ok.1 h₂)
      rw [← Tx.pure_ok.1 h]
      exact OffRows.added _ _ _ _
    · rw [← Tx.pure_ok.1 h]

instance (d : Definition) (next : Instant) (x context : String) (dup : Err) :
    Keeps DB.attempts (insertJob c d next x context dup) := by
  refine ⟨fun {db r} h => ?_⟩
  replace h := Tx.get_bind_ok.1 h
  split at h
  · split at h
    · simp at h
    · split at h
      · simp at h
      · rw [← Tx.set_ok.1 h]; rfl
  · simp at h

instance {α : Type} (x : Except Err α) : Keeps f (ofExcept x) := by
  cases x <;> (unfold ofExcept; infer_instance)

instance {α : Type} (s : String) (x : Except Err α) : Keeps f (liftErr s x) := by
  unfold liftErr; infer_instance

instance (j : String) : Keeps f (manualPending j) := by unfold manualPending; infer_instance

instance (j : String) : Keeps f (pollPassOutstanding j) := by unfold pollPassOutstanding; infer_instance

instance (r j : String) : Keeps f (executionByRequest r j) := ⟨fun h => by rw [executionByRequest_ok h]⟩

/-! ## Transactions that leave it alone -/

instance (i : Nat) : Keeps f (isManual i) := by
  unfold isManual
  refine .seq inferInstance (fun db => ?_)
  split <;> infer_instance

instance (p : ClaimParams) (d : Definition) (s : StateRow) : Keeps f (applyContention c p d s) := by
  unfold applyContention deferCandidate; infer_instance

instance (p : ClaimParams) (r : Runnable) : Keeps f (claim c p r) := by
  unfold claim expireReadyExecution deferCandidate acquire
  have hrun : ∀ d s db, Keeps f (match r db d s with
      | .error err => if err.kind ≠ .notRunnable then throw err else do
          tryExec p.executionId (fun e => decide (e.status = .ready)) (deferWrite c p.backoffSeconds) "defer candidate"
          return ⟨.deferred, 0, d, some err⟩
      | .ok () => if s.held then applyContention c p d s else acquire c p d s : StoreM ClaimResult) := by
    intro d s db
    unfold acquire
    split <;> infer_instance
  unfold acquire at hrun
  infer_instance

instance (s : StateRow) (d : Definition) (compile : Compile) : Keeps f (normalizeClocks c s d compile) := by
  unfold normalizeClocks decideClocks
  cases s.nextPollAt <;> infer_instance

instance (d : Definition) (sched : Schedule) (due t : Instant) (n : Nat) :
    Keeps f (chooseFire d sched due t n) := by
  unfold chooseFire
  have hlate : ∀ o : Option Instant, Keeps f (match o with
      | none => pure (due, false)
      | some latest => pure (latest, true) : StoreM (Instant × Bool)) := by
    intro o
    cases o <;> infer_instance
  cases d.misfire <;> infer_instance

instance (d : Definition) (sched : Schedule) (due grace : Instant) :
    Keeps f (materializeDue env c d sched due grace) := by
  unfold materializeDue advanceFireClock; infer_instance

instance (j : String) (compile : Compile) (grace : Instant) :
    Keeps f (materializeCron env c j compile grace) := by
  unfold materializeCron
  have hdue : ∀ (s : StateRow) (d : Definition) (sched : Schedule), Keeps f (match s.nextFireAt with
      | none => fail .protocol ("cron job " ++ j.quote ++ " has no next_fire_at")
      | some due => if c.now < due then return { outcome := .suspended, nextFireAt := some due }
          else materializeDue env c d sched due grace : StoreM MaterializeResult) := by
    intro s d sched
    cases s.nextFireAt <;> infer_instance
  infer_instance

instance (seed : JobSeed) (source x y : String) : Keeps DB.attempts (insertCopiedJob c seed source x y) := by
  unfold insertCopiedJob; infer_instance

instance copySeeds_keeps (source x y : String) : ∀ (seeds : List JobSeed) (existing : List String)
    (out : List String × List String), Keeps DB.attempts (copySeeds c source x y seeds existing out)
  | [], _, out => by unfold copySeeds; infer_instance
  | seed :: seeds, existing, (created, skipped) => by
    have := copySeeds_keeps source x y seeds
    unfold copySeeds; infer_instance

instance (d : Definition) (x : String) (g : DefinitionRow → Bool) (context : String) :
    Keeps DB.attempts (editDefinition d x g context) := by
  unfold editDefinition
  split <;> infer_instance

instance (plan : JobSyncResult) (source x y : String) (seed : JobSeed) :
    Keeps DB.attempts (syncSeed c plan source x y seed) := by
  refine .ite inferInstance ?_
  cases plan.updated.reverse.find? (fun u => decide (u.1 = seed.definition.jobName)) <;> infer_instance

instance syncSeeds_keeps (plan : JobSyncResult) (source x y : String) : ∀ seeds : List JobSeed,
    Keeps DB.attempts (syncSeeds c plan source x y seeds)
  | [] => by unfold syncSeeds; infer_instance
  | seed :: seeds => by
    have := syncSeeds_keeps plan source x y seeds
    unfold syncSeeds; infer_instance

instance describeJobs_keeps (ds : String → String) (x y : String) : ∀ (jobs : List DefinitionRow)
    (out : DescriptionSync), Keeps DB.attempts (describeJobs c ds x y jobs out)
  | [], out => by unfold describeJobs; infer_instance
  | job :: jobs, out => by
    have := describeJobs_keeps ds x y jobs
    unfold describeJobs; infer_instance

omit [OffRows f] in
instance [Aside f] (j r x y params : String) : Keeps f (trigger env c j r x y params) := by
  unfold trigger
  have hwin : ∀ o : Option String, Keeps f (match o with
      | none => fail .other ("read the winning execution for request " ++ r.quote)
      | some winner => return some winner : StoreM (Option String)) := by
    intro o
    cases o <;> infer_instance
  infer_instance

omit [OffRows f] in
instance [Aside f] (i : Nat) (x y : String) : Keeps f (requestCancel c i x y) := by
  unfold requestCancel
  refine .ite inferInstance (.seq inferInstance (fun db => ?_))
  cases db.exec? i <;> infer_instance

instance (ds : List (String × String)) (x y : String) : Keeps DB.attempts (syncJobDescriptions c ds x y) := by
  unfold syncJobDescriptions
  cases ds.find? (fun d => decide (512 < d.2.utf8ByteSize)) <;> infer_instance

instance {α : Type} (x : StoreM α) [Keeps f x] : Keeps f (unit x) := by
  unfold unit; infer_instance

instance (i : Nat) (t : String) (n : Nat) (l : Int) : Keeps f (accept c i t n l) := by
  unfold accept; infer_instance

instance (h : Holder) (x : String) : Keeps f (retarget h x) := by unfold retarget; infer_instance

instance (p : ClaimParams) (n : Nat) : Keeps f (refuse c p n) := by unfold refuse; infer_instance

instance (h : Holder) (l : Int) : Keeps f (renew c h l) := by unfold renew; infer_instance

instance (h : Holder) (l : Int) : Keeps f (extendDeadline c h l) := by unfold extendDeadline; infer_instance

instance (v : Stale) (o : String) (l s : Int) (p : Bool) : Keeps f (adopt c v o l s p) := by
  unfold adopt; infer_instance

instance (j x y : String) : Keeps DB.attempts (retire c j x y) := by unfold retire; infer_instance

omit [OffRows f] in
instance [Aside f] (j k x y : String) : Keeps f (authorizedRetry c j k x y) := by
  unfold authorizedRetry; infer_instance

instance (j : String) : Keeps f (clearPollClock j) := by unfold clearPollClock; infer_instance

instance (j key : String) (compile : Compile) : Keeps f (materializePoll c j key compile) := by
  unfold materializePoll
  refine .seq inferInstance (fun s => .seq inferInstance (fun d => ?_))
  infer_instance

instance (j : String) (compile : Compile) : Keeps f (recompute c j compile) := by
  unfold recompute; infer_instance

instance (d : Definition) (next : Instant) (x y : String) : Keeps DB.attempts (createJob c d next x y) := by
  unfold createJob; infer_instance

instance (d : Definition) (v : Nat) (x y : String) : Keeps DB.attempts (updateJob c d v x y) := by
  unfold updateJob; infer_instance

instance (seeds : List JobSeed) (source x y : String) : Keeps DB.attempts (copyJobs c seeds source x y) := by
  unfold copyJobs; infer_instance

instance (seeds : List JobSeed) (source x y : String) : Keeps DB.attempts (syncJobs c seeds source x y) := by
  unfold syncJobs; infer_instance

omit [OffRows f] in
instance [Aside f] (j : String) (b : Bool) (x y : String) : Keeps f (setPaused c j b x y) := by
  unfold setPaused; infer_instance

end keeps

/-- The calls that delete history. -/
def Action.reaps : Action → Bool
  | .reapExecutions _ _ _ => true
  | _                     => false

/-- **A call that neither ends an attempt nor reaps leaves the history alone.** -/
theorem Action.keeps_attempts (h : a.ending = none) (hr : a.reaps = false) : Keeps DB.attempts (a.tx env c) := by
  cases a <;> first | (simp only [Action.tx]; infer_instance) | simp_all [Action.ending, Action.reaps]

/-! ## Retention -/

/-- A row of the history that a reaping deletes goes with its execution. -/
def Reaped (db db' : DB) (r : AttemptRow) : Prop :=
  ∃ i e, db.exec? i = some e ∧ e.executionKey = r.executionKey ∧ db'.exec? i = none

theorem reapOne_history {i : Nat} {key : String} {u : Unit} (h : reapOne i key db = .ok (u, db')) :
    (∀ r ∈ db'.attempts.rows, r ∈ db.attempts.rows) ∧
      ∀ r ∈ db.attempts.rows, r ∈ db'.attempts.rows ∨ Reaped db db' r := by
  replace h := Tx.get_bind_ok.1 h
  obtain ⟨_, _, h₂, h⟩ := Tx.bind_ok.1 h
  obtain ⟨_, rfl⟩ := Prod.mk.inj (Tx.set_ok.1 h₂)
  obtain ⟨hn, h⟩ := check_ok h
  obtain rfl := congrArg Prod.snd (Tx.pure_ok.1 h)
  refine ⟨fun r hr => (List.mem_filter.1 hr).1, fun r hr => ?_⟩
  by_cases hk : r.executionKey = key
  · -- The statement that follows must delete exactly one row, the one of this key.
    have hpos : 0 < db.executions.table.rows.countP
        (fun e => decide (e.id = i) && decide (e.executionKey = key) && e.status.terminal) := by
      rw [not_not.1 hn]
      exact Nat.one_pos
    obtain ⟨e, he, hg⟩ := List.countP_pos_iff.1 hpos
    have hid : e.id = i ∧ e.executionKey = key := by
      simp only [Bool.and_eq_true, decide_eq_true_eq] at hg
      exact hg.1
    have hrow := DB.mem_iff.1 he
    refine Or.inr ⟨e.id, e, hrow, hid.2.trans hk.symm, ?_⟩
    rw [DB.exec?_deleteExecs, DB.exec?_setAttempts, hrow, Option.filter_some, if_neg]
    rw [hg]
    exact Bool.false_ne_true
  · exact Or.inl (List.mem_filter.2 ⟨hr, by simp [hk]⟩)

theorem reapAll_history {n : Nat} : ∀ {es : List ExecRow} {m : Nat} {db : DB}, reapAll es m db = .ok (n, db') →
    (∀ r ∈ db'.attempts.rows, r ∈ db.attempts.rows) ∧
      ∀ r ∈ db.attempts.rows, r ∈ db'.attempts.rows ∨ Reaped db db' r
  | [], _, _, h => by
    obtain rfl := congrArg Prod.snd (Tx.pure_ok.1 h)
    exact ⟨fun _ hr => hr, fun _ hr => Or.inl hr⟩
  | e :: es, _, db, h => by
    obtain ⟨_, db₁, h₁, h⟩ := Tx.bind_ok.1 h
    obtain ⟨hsub₁, hold₁⟩ := reapOne_history h₁
    obtain ⟨hsub₂, hold₂⟩ := reapAll_history h
    obtain ⟨-, -, hrows₁, -⟩ := reapOne_ok h₁
    obtain ⟨-, -, hrows₂, -⟩ := reapAll_ok h
    have gone : ∀ k, db₁.exec? k = none → db'.exec? k = none := fun k hk => by
      rcases hrows₂ k with hx | ⟨hx, -⟩
      · exact hx.trans hk
      · exact hx
    refine ⟨fun r hr => hsub₁ r (hsub₂ r hr), fun r hr => ?_⟩
    rcases hold₁ r hr with hr | ⟨i, x, hx, hk, hnone⟩
    · rcases hold₂ r hr with hr | ⟨i, x, hx, hk, hnone⟩
      · exact Or.inl hr
      · rcases hrows₁ i with hsame | ⟨hdel, -⟩
        · exact Or.inr ⟨i, x, hsame.symm.trans hx, hk, hnone⟩
        · rw [hdel] at hx; cases hx
    · exact Or.inr ⟨i, x, hx, hk, gone i hnone⟩

/-! ## What a call does to the history -/

/-- **What a committed call does to the history of attempts.** -/
inductive HistoryEffect (c : Ctx) (db db' : DB) (a : Action) : Prop
  | kept (hend : a.ending = none) (h : db'.attempts = db.attempts)
  | recorded {k : Holder} (hend : a.ending = some k) (h : Closes c db a db')
  | reaped (hreap : a.reaps = true) (hsub : ∀ r ∈ db'.attempts.rows, r ∈ db.attempts.rows)
      (hold : ∀ r ∈ db.attempts.rows, r ∈ db'.attempts.rows ∨ Reaped db db' r)

theorem Action.closes_of_ok {k : Holder} {u : Unit} (h : a.tx env c db = .ok (u, db')) (ha : a.ending = some k) :
    Closes c db a db' := by
  cases a with
  | complete => exact complete_closes h
  | retry => exact retry_closes h
  | resolve => exact resolve_closes (unit_ok h).choose_spec
  | fenceTimedOut => exact fenceTimedOut_closes h
  | expireSilent => exact expireSilent_closes h
  | releaseAsOwner => exact releaseAsOwner_closes (unit_ok h).choose_spec
  | _ => cases ha

theorem Action.history_of_ok {u : Unit} (h : a.tx env c db = .ok (u, db')) : HistoryEffect c db db' a := by
  cases hend : a.ending with
  | some k => exact .recorded hend (a.closes_of_ok h hend)
  | none =>
    cases hreap : a.reaps with
    | false => exact .kept hend ((a.keeps_attempts hend hreap).keeps h)
    | true =>
      cases a with
      | reapExecutions s o l =>
        obtain ⟨n, h⟩ := unit_ok h
        obtain ⟨-, h⟩ := check_ok h
        obtain ⟨-, h⟩ := check_ok h
        obtain ⟨-, h⟩ := check_ok h
        replace h := Tx.get_bind_ok.1 h
        obtain ⟨hsub, hold⟩ := reapAll_history h
        exact .reaped rfl hsub hold
      | _ => cases hreap

theorem Action.ending_of_closing {q : Closing} (h : a.closing = some q) : (∃ p n, a = .refuse p n) ∨
    ∃ k, a.ending = some k ∧ k.executionId = q.executionId ∧ k.runToken = q.runToken := by
  cases a with
  | refuse p n => exact Or.inl ⟨p, n, rfl⟩
  | _ => cases h <;> exact Or.inr ⟨_, rfl, rfl, rfl⟩

/-- **A held row lets go of its token only when it is refused or ended under that token.** -/
theorem ExecMove.lets_go {e e' : ExecRow} (h : ExecMove c a e e') (hh : e.status.held = true)
    (hgone : ¬ (e'.status.held = true ∧ e'.runToken = e.runToken)) :
    (∃ p n, a = .refuse p n) ∨ ∃ k, a.ending = some k ∧ k.executionId = e.id ∧ e.runToken = some k.runToken := by
  cases h.holder with
  | dispatched _ hs => rw [hs] at hh; cases hh
  | written _ hh' hw => exact absurd ⟨hh', hw.token⟩ hgone
  | unheld hfree => rw [hfree] at hh; cases hh
  | closed ha hi ho =>
    refine (Action.ending_of_closing ha).imp_right fun ⟨k, hend, hk, ht⟩ => ⟨k, hend, hk.trans hi, ?_⟩
    rw [ht]
    exact (ExecRow.owned_iff.1 ho).1

theorem DB.mem_addAttempt (r : AttemptRow) : ∃ x ∈ (db.addAttempt r).attempts.rows, x.key = r.key := by
  unfold DB.addAttempt
  split
  · rename_i h
    exact List.mem_map.1 h
  · exact ⟨r, by simp [DB.setAttempts, Table.insert], rfl⟩

theorem DB.addAttempt_kept {r x : AttemptRow} (hx : x ∈ db.attempts.rows) : x ∈ (db.addAttempt r).attempts.rows := by
  unfold DB.addAttempt
  split
  · exact hx
  · simp [DB.setAttempts, Table.insert, hx]

theorem DB.mem_of_addAttempt {r x : AttemptRow} (hx : x ∈ (db.addAttempt r).attempts.rows) :
    x ∈ db.attempts.rows ∨ x = r := by
  unfold DB.addAttempt at hx
  split at hx
  · exact Or.inl hx
  · simpa [DB.setAttempts, Table.insert] using hx

/-! ## Along a run -/

/-- Execution `i` is held under the token. -/
def DB.HeldUnder (db : DB) (i : Nat) (t : String) : Prop :=
  ∃ e, db.exec? i = some e ∧ e.status.held = true ∧ e.runToken = some t

/-- The caller took the id and the key of the execution it ends from one row, now or earlier in the history. -/
def ReadsKey (tr : History) (x : World × (Action × Ctx) × World) : Prop :=
  ∀ k, x.2.1.1.ending = some k → ∃ y ∈ tr ++ [x], ∃ e, y.1.db.exec? k.executionId = some e ∧
    e.executionKey = k.executionKey

/-- The key a caller ends an execution under is the key of its row. -/
theorem ReadsKey.key {tr : History} {w₀ w w' : World} {l : Action × Ctx} {k : Holder} {e : ExecRow}
    (h : ReadsKey tr (w, l, w')) (hr : Sys.Run (Step env) w₀ tr w) (hend : l.1.ending = some k)
    (he : w.db.exec? k.executionId = some e) : e.executionKey = k.executionKey := by
  obtain ⟨y, hy, x, hx, hxk⟩ := h k hend
  rw [← hxk]
  rcases List.mem_append.1 hy with hy | hy
  · rw [row_identity hr hy hx he]
  · obtain rfl := List.mem_singleton.1 hy
    rw [Option.some.inj (hx.symm.trans he)]

/-- **A token let go of leaves one row of history**, unless it was refused. -/
theorem Step.history_written {tr : History} {w₀ w w' : World} {l : Action × Ctx} {i : Nat} {e : ExecRow} {t : String}
    (hr : Sys.Run (Step env) w₀ tr w) (hst : Step env w l w') (hread : ReadsKey tr (w, l, w'))
    (he : w.db.exec? i = some e) (hh : e.status.held = true) (ht : e.runToken = some t)
    (hgone : ¬ w'.db.HeldUnder i t) :
    (∃ p n, l.1 = .refuse p n) ∨ ∃! r, r ∈ w'.db.attempts.rows ∧ r.key = (e.executionKey, t) := by
  have hmove : (∃ p n, l.1 = .refuse p n) ∨ ∃ k, l.1.ending = some k ∧ k.executionId = e.id ∧
      e.runToken = some k.runToken := by
    have hrow := hst.commit.row he
    obtain ⟨b, hb⟩ : ∃ b, l.1 = b := ⟨_, rfl⟩
    rw [hb] at hrow ⊢
    cases he' : w'.db.exec? i with
    | none =>
      rw [he'] at hrow
      cases hrow with
      | delete hexp => rw [Status.not_held_of_terminal (ExecRow.terminal_of_expired hexp)] at hh; cases hh
    | some e' =>
      rw [he'] at hrow
      cases hrow with
      | same => exact absurd ⟨e, he', hh, ht⟩ hgone
      | move hm => exact hm.lets_go hh (fun ⟨hh', ht'⟩ => hgone ⟨e', he', hh', ht'.trans ht⟩)
  refine hmove.imp_right (fun ⟨k, hend, hid, htok⟩ => ?_)
  obtain rfl : k.runToken = t := Option.some.inj (htok.symm.trans ht)
  have hkey : e.executionKey = k.executionKey := hread.key hr hend (by rw [hid, DB.exec?_id he, he])
  rcases Tx.commit_cases (l.1.tx env l.2) w.db with ⟨_, _, hsame⟩ | ⟨u, hok⟩
  · rw [← hst.db] at hsame
    exact absurd ⟨e, hsame ▸ he, hh, ht⟩ hgone
  · rw [← hst.db] at hok
    obtain ⟨_, _, _, _, _, _, _, _, _, _, _, hrec⟩ := l.1.closes_of_ok hok hend
    obtain ⟨o, -, hatt⟩ := hrec k hend
    obtain ⟨r, hr, hrk⟩ := w.db.mem_addAttempt (o.attemptRow l.2 k _)
    rw [← hatt] at hr
    refine ⟨r, ⟨hr, hrk.trans (by rw [hkey]; rfl)⟩, fun x ⟨hx, hxk⟩ => ?_⟩
    exact Table.eq_of_mem hx hr (hxk.trans (by rw [hrk, hkey]; rfl))

/-- **History is only added to**, except that retention deletes an attempt with its execution. -/
theorem Step.history_kept {w w' : World} {l : Action × Ctx} (hst : Step env w l w') {r : AttemptRow}
    (hr : r ∈ w.db.attempts.rows) :
    r ∈ w'.db.attempts.rows ∨ (l.1.reaps = true ∧ Reaped w.db w'.db r) := by
  rcases Tx.commit_cases (l.1.tx env l.2) w.db with ⟨_, _, hsame⟩ | ⟨u, hok⟩
  · rw [← hst.db] at hsame
    exact Or.inl (hsame ▸ hr)
  · rw [← hst.db] at hok
    cases l.1.history_of_ok hok with
    | kept _ hkept => exact Or.inl (hkept ▸ hr)
    | reaped hreap _ hold => exact (hold r hr).imp_right (fun h => ⟨hreap, h⟩)
    | recorded hend hcl =>
      obtain ⟨_, _, _, _, _, _, _, _, _, _, _, hrec⟩ := hcl
      obtain ⟨o, -, hatt⟩ := hrec _ hend
      rw [hatt]
      exact Or.inl (DB.addAttempt_kept hr)

/-- **A finished row is finished**: it stays, is revived from `dead` by an operator, or retention deletes it. -/
theorem Step.finished_kept {w w' : World} {l : Action × Ctx} (hst : Step env w l w') {i : Nat} {e : ExecRow}
    (he : w.db.exec? i = some e) (ht : e.status.terminal = true) :
    w'.db.exec? i = some e ∨ (∃ j k x y, l.1 = .authorizedRetry j k x y ∧ e.executionKey = k ∧ e.status = .dead) ∨
      (l.1.reaps = true ∧ w'.db.exec? i = none) := by
  have hrow := hst.commit.row he
  obtain ⟨b, hb⟩ : ∃ b, l.1 = b := ⟨_, rfl⟩
  rw [hb] at hrow ⊢
  cases he' : w'.db.exec? i with
  | none =>
    rw [he'] at hrow
    cases hrow with
    | delete => exact Or.inr (Or.inr ⟨rfl, rfl⟩)
  | some e' =>
    rw [he'] at hrow
    cases hrow with
    | same => exact Or.inl rfl
    | move hm =>
      obtain ⟨j, k, x, y, ha, hk, -, hs⟩ := hm.revived ht
      exact Or.inr (Or.inl ⟨j, k, x, y, ha, hk, hs⟩)

/-- **Only finished rows are deleted.** -/
theorem Step.deleted_finished {w w' : World} {l : Action × Ctx} (hst : Step env w l w') {i : Nat} {e : ExecRow}
    (he : w.db.exec? i = some e) (he' : w'.db.exec? i = none) : e.status.terminal = true := by
  have hrow := hst.commit.row he
  obtain ⟨b, hb⟩ : ∃ b, l.1 = b := ⟨_, rfl⟩
  rw [hb, he'] at hrow
  cases hrow with
  | delete hexp => exact ExecRow.terminal_of_expired hexp

/-- **History is immutable.**  In every step of a run whose callers end the executions they read, a held token that is
let go of, other than by a refusal, leaves one row of history; a row of history stays, or goes with its execution in a
reaping; a finished execution stays as it is, or is revived from `dead`, or reaped; nothing else is deleted. -/
theorem history_is_immutable {u : Utc} {tr : History} {w : World} (hr : Sys.Run (Step env) (World.init u) tr w)
    (hread : ∀ pre x, pre ++ [x] <+: tr → ReadsKey pre x) : ∀ x ∈ tr,
    (∀ i e t, x.1.db.exec? i = some e → e.status.held = true → e.runToken = some t → ¬ x.2.2.db.HeldUnder i t →
      (∃ p n, x.2.1.1 = .refuse p n) ∨ ∃! r, r ∈ x.2.2.db.attempts.rows ∧ r.key = (e.executionKey, t)) ∧
    (∀ r ∈ x.1.db.attempts.rows, r ∈ x.2.2.db.attempts.rows ∨
      (x.2.1.1.reaps = true ∧ Reaped x.1.db x.2.2.db r)) ∧
    (∀ i e, x.1.db.exec? i = some e → e.status.terminal = true → x.2.2.db.exec? i = some e ∨
      (∃ j k y z, x.2.1.1 = .authorizedRetry j k y z ∧ e.executionKey = k ∧ e.status = .dead) ∨
      (x.2.1.1.reaps = true ∧ x.2.2.db.exec? i = none)) ∧
    ∀ i e, x.1.db.exec? i = some e → x.2.2.db.exec? i = none → e.status.terminal = true := by
  intro x hx
  obtain ⟨pre, hp, hrun, hst⟩ := hr.mem_step hx
  exact ⟨fun i e t he hh ht hgone => Step.history_written hrun hst (hread pre x hp) he hh ht hgone,
    fun r hr => hst.history_kept hr, fun i e he ht => hst.finished_kept he ht,
    fun i e he he' => hst.deleted_finished he he'⟩

/-- The pass of `claimedPass` reports success at second 3. -/
def endedPass : List (Action × Int) :=
  claimedPass ++ [(.complete ⟨"sync", 1, "pass-1", "scheduler", "t1", 1⟩
    { status := .success, attemptOutcome := .success }, 3)]

theorem readsKey_now {tr : History} (h : ∀ x ∈ tr, x.2.1.1.ending.all (fun k =>
    (x.1.db.exec? k.executionId).any (fun e => decide (e.executionKey = k.executionKey))) = true)
    (pre : History) (x : World × (Action × Ctx) × World) (hp : pre ++ [x] <+: tr) : ReadsKey pre x := by
  intro k hk
  have hx := h x (hp.subset (by simp))
  rw [hk, Option.all_some, Option.any_eq_true] at hx
  obtain ⟨e, he, hkey⟩ := hx
  exact ⟨x, by simp, e, he, of_decide_eq_true hkey⟩

theorem history_is_immutable_ended :
    ∃! r, r ∈ ((World.init 0).play bareEnv endedPass).db.attempts.rows ∧ r.key = ("pass-1", "t1") := by
  have h := history_is_immutable (World.run_play bareEnv endedPass (World.init 0) (by decide +kernel))
    (readsKey_now (by decide +kernel)) _ (List.mem_of_getLast? (by rfl))
  have hfree : ¬ ((World.init 0).play bareEnv endedPass).db.HeldUnder 1 "t1" := by
    rintro ⟨e, he, hh, -⟩
    obtain rfl := Option.some.inj (he.symm.trans (Option.some_get (by decide +kernel)).symm)
    exact absurd hh (by decide +kernel)
  rcases h.1 1 _ "t1" (Option.some_get (by decide +kernel)).symm (by decide +kernel) (by decide +kernel) hfree with
    ⟨_, _, ha⟩ | hone
  · cases ha
  · exact hone

end GoJob
