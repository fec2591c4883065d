import GoJob.Redispatch
/-!
# Retirement — what is left of a retired job

`Retire` cancels what is ready and asks what is held to stop.  From then on nothing creates or revives an execution of
the job, and what was asked to stop ends, with one exception: `Retry` puts an execution back in the queue by its budget
alone, and does not ask whether the job is retired.
-/
namespace GoJob

variable {env : Env} {c : Ctx} {db db' : DB} {a : Action} {j : String}

def DB.Retired (db : DB) (j : String) : Prop := ∃ d, db.def? j = some d ∧ d.retired = true

/-- Every execution of the job has ended or is asked to. -/
def DB.Drained (db : DB) (j : String) : Prop :=
  ∀ i e, db.exec? i = some e → e.jobName = j → e.status.terminal = true ∨ e.status = .cancelRequested

/-! ## Definitions -/

theorem DB.retired_congr (h : db'.def? j = db.def? j) : db'.Retired j ↔ db.Retired j := by
  unfold DB.Retired
  rw [h]

theorem CatalogStep.retired_iff (h : CatalogStep c db db') : db'.Retired j ↔ db.Retired j := by
  cases h with
  | create d next actor hp hd hs hdefs =>
    by_cases hj : d.jobName = j
    · subst hj
      refine ⟨fun ⟨d', hd', hr⟩ => ?_, fun ⟨d', hd', _⟩ => by rw [hd] at hd'; cases hd'⟩
      rw [hdefs, if_pos rfl] at hd'
      obtain rfl := Option.some.inj hd'
      cases hr
    · exact DB.retired_congr (by rw [hdefs, if_neg hj])
  | edit k d w hd hret hdefs =>
    by_cases hj : j = k
    · subst hj
      simp [DB.Retired, hdefs, hd, hret]
    · exact DB.retired_congr (by rw [hdefs, if_neg hj])
  | audit hdefs => exact DB.retired_congr (hdefs j)

theorem catalog_retired_iff (h : Relation.ReflTransGen (CatalogStep c) db db') : db'.Retired j ↔ db.Retired j := by
  induction h with
  | refl => exact Iff.rfl
  | tail _ hs ih => exact hs.retired_iff.trans ih

theorem drained_of_retire {x y : String}
    (hrows : ∀ i e, db.exec? i = some e → ∃ e', db'.exec? i = some e' ∧
      ((e' = e ∧ (e.jobName = j → e.status.terminal = true ∨ e.status = .cancelRequested)) ∨
        ExecMove c (.retire j x y) e e'))
    (hnew : ∀ i, db.exec? i = none → db'.exec? i = none) : db'.Drained j := by
  intro i e' he' hj
  cases he : db.exec? i with
  | none => rw [hnew i he] at he'; cases he'
  | some e =>
    obtain ⟨e₁, he₁, hcase⟩ := hrows i e he
    obtain rfl := Option.some.inj (he'.symm.trans he₁)
    rcases hcase with ⟨rfl, hrest⟩ | hm
    · exact hrest hj
    · rcases hm.of_retire with ⟨-, ⟨-, hs⟩ | ⟨-, hs⟩⟩
      · exact Or.inl (by rw [hs]; rfl)
      · exact Or.inr hs

/-- **A job becomes retired only by `Retire`, which drains it, and stays retired.** -/
theorem Commit.retired (h : Commit env c db a db') (j : String) :
    (db'.Retired j ↔ db.Retired j) ∨ (db'.Retired j ∧ db'.Drained j ∧ ∃ x y, a = .retire j x y) := by
  have same : db'.def? j = db.def? j → _ ∨ db'.Retired j ∧ db'.Drained j ∧ ∃ x y, a = .retire j x y :=
    fun hd => Or.inl (DB.retired_congr hd)
  cases h with
  | idle hd => exact same (hd j)
  | exec _ _ _ _ _ _ _ hf => exact same (hf.defs j)
  | expire _ _ _ hf => exact same (hf.defs j)
  | acquire _ _ _ _ _ _ _ _ _ _ hf => exact same (hf.defs j)
  | renew _ _ _ _ hf => exact same (hf.defs j)
  | adopt _ _ _ _ _ hf => exact same (hf.defs j)
  | close hcl =>
    obtain ⟨_, _, _, _, _, _, _, _, _, _, hf, -⟩ := hcl
    exact same (hf.defs j)
  | skip _ _ _ _ _ _ _ hf => exact same (hf.defs j)
  | clock _ _ _ hf => exact same (hf.defs j)
  | pause _ hf => exact same (hf.defs j)
  | create _ _ _ _ _ _ hf => exact same (hf.defs j)
  | retire hd hr hdefs hs hrows hnew hlast =>
    rename_i k x y d
    by_cases hj : j = k
    · subst hj
      exact Or.inr ⟨⟨_, by rw [hdefs, if_pos rfl], rfl⟩, drained_of_retire hrows hnew, x, y, rfl⟩
    · exact same (by rw [hdefs, if_neg hj])
  | reap hd => exact same (hd j)
  | revive _ _ _ _ hf => exact same (hf.defs j)
  | catalog hs => exact Or.inl (catalog_retired_iff hs)

/-! ## Executions -/

/-- **`AuthorizedRetry` reads the definition**: a finished row comes back only while its job is not retired. -/
theorem Commit.revives {i : Nat} {e e' : ExecRow} (h : Commit env c db a db') (he : db.exec? i = some e)
    (he' : db'.exec? i = some e') (ht : e.status.terminal = true) (hl : e'.status.terminal = false) :
    ¬ db.Retired e.jobName := by
  have same : ∀ {p : Prop}, db'.exec? i = db.exec? i → p := fun hx => by
    rw [hx, he] at he'
    obtain rfl := Option.some.inj he'
    rw [ht] at hl; cases hl
  rcases h.moved he he' with rfl | hm
  · rw [ht] at hl; cases hl
  obtain ⟨k, _, _, _, rfl, -, hj, -⟩ := hm.revived ht
  cases h with
  | idle _ _ hx => exact same (hx i)
  | exec hx _ _ hopen _ _ _ hf =>
    refine same ((hf.execs i).trans (if_neg ?_))
    rintro rfl
    obtain rfl := Option.some.inj (he.symm.trans hx)
    rw [hopen] at ht; cases ht
  | close hcl =>
    obtain ⟨_, _, ha, -⟩ := hcl
    cases ha
  | clock _ _ _ hf => exact same (hf.execs i)
  | create _ _ _ _ hi _ hf =>
    refine same ((hf.execs i).trans (if_neg ?_))
    rintro rfl
    rw [DB.exec?_eq_none_of_lt hi] at he; cases he
  | revive hd hr =>
    rintro ⟨d, hd', hr'⟩
    rw [hj, hd] at hd'
    obtain rfl := Option.some.inj hd'
    rw [hr] at hr'; cases hr'
  | catalog hs => exact same (catalog_exec? hs i)

/-- **What was asked to stop ends**, or a `Retry` with attempts left puts it back in the queue. -/
theorem ExecMove.after_asked {e e' : ExecRow} (h : ExecMove c a e e') (hs : e.status = .cancelRequested) :
    (e'.status.terminal = true ∨ e'.status = .cancelRequested) ∨
      ∃ k o b, a = .retry k o b ∧ e.id = k.executionId ∧ e.reportable k (c.utc 2) = true ∧
        e.attemptNo < e.maxAttempts := by
  have other : ∀ {s}, e.status = s → s ≠ .cancelRequested → False := fun h₁ h₂ => h₂ (h₁.symm.trans hs)
  cases h with
  | retry hi hr =>
    rename_i k o b
    have hcharge : (e.charged c k).attemptNo = e.attemptNo := by
      rw [ExecRow.charged_attemptNo, if_neg]
      exact fun hu => other (ExecRow.unaccepted_iff.1 hu).1 (by decide)
    by_cases hspent : e.maxAttempts ≤ e.attemptNo
    · exact Or.inl (Or.inl (by simp [retryWrite, hcharge, hspent, Status.terminal]))
    · exact Or.inr ⟨k, o, b, rfl, hi, hr, not_le.1 hspent⟩
  | complete _ ht => exact Or.inl (Or.inl ht)
  | resolve =>
    have hstat : resolvedStatus (e.toStale (c.utc 1)) = .cancelled := if_pos hs
    exact Or.inl (Or.inl (by simp [resolveWrite, hstat, Status.terminal]))
  | adopt => exact Or.inl (Or.inr (by simp [adoptWrite, hs]))
  | renew => exact Or.inl (Or.inr hs)
  | extend => exact Or.inl (Or.inr hs)
  | cancel => exact Or.inl (Or.inr rfl)
  | retireHeld => exact Or.inl (Or.inr rfl)
  | fence => exact Or.inl (Or.inl (endedStatus_terminal _))
  | silence => exact Or.inl (Or.inl (endedStatus_terminal _))
  | release => exact Or.inl (Or.inl (endedStatus_terminal _))
  | dispatch _ _ _ _ _ hr => exact (other hr (by decide)).elim
  | defer _ hr => exact (other hr (by decide)).elim
  | expire _ _ hr => exact (other hr (by decide)).elim
  | skip _ _ _ hr => exact (other hr (by decide)).elim
  | retireReady _ hr => exact (other hr (by decide)).elim
  | revive _ _ hr => exact (other hr (by decide)).elim
  | accept _ ho => exact (other (ExecRow.unaccepted_iff.1 ho).1 (by decide)).elim
  | retarget _ ho => exact (other (ExecRow.unaccepted_iff.1 ho).1 (by decide)).elim
  | refuse _ ho => exact (other (ExecRow.unaccepted_iff.1 ho).1 (by decide)).elim

/-- A `Retry` by the holder of an execution with attempts left, whose job is retired. -/
def RetiredRetry (db : DB) (j : String) (a : Action) (c : Ctx) : Prop :=
  ∃ k o b e, a = .retry k o b ∧ db.exec? k.executionId = some e ∧ e.jobName = j ∧ e.reportable k (c.utc 2) = true ∧
    e.attemptNo < e.maxAttempts ∧ db.Retired j

theorem DB.Drained.commit (h : db.Drained j) (hr : db.Retired j) (hc : Commit env c db a db')
    (hf : ¬ RetiredRetry db j a c) : db'.Drained j := by
  intro i e' he' hj'
  cases he : db.exec? i with
  | none =>
    obtain ⟨k, d, _, _, hd, -, hk, hm, -⟩ := hc.new he he'
    obtain ⟨d', hd', hret⟩ := hr
    rw [← hj', hk, hd] at hd'
    obtain rfl := Option.some.inj hd'
    rw [hm.fresh.retired] at hret; cases hret
  | some e =>
    rcases hc.moved he he' with rfl | hm
    · exact h i _ he hj'
    have hj : e.jobName = j := by rw [← hm.info]; exact hj'
    rcases h i e he hj with ht | hs
    · refine Or.inl ?_
      by_contra hl
      exact hc.revives he he' ht (Bool.eq_false_iff.2 hl) (hj ▸ hr)
    · rcases hm.after_asked hs with hdone | ⟨k, o, b, ha, hi, hrep, hb⟩
      · exact hdone
      · refine absurd ⟨k, o, b, e, ha, ?_, hj, hrep, hb, hr⟩ hf
        rw [← hi, DB.exec?_id he]
        exact he

/-- **Retirement leaves no claimable work.**  In every state after a job was retired, in any run in which no holder of
its executions retries, the job is still retired, none of its executions is ready, and each has ended or is held and
asked to stop. -/
theorem retirement_leaves_no_work {u : Utc} {tr₁ tr₂ : History} {w₁ w₂ : World}
    (h₁ : Sys.Run (Step env) (World.init u) tr₁ w₁) (h₂ : Sys.Run (Step env) w₁ tr₂ w₂) (hret : w₁.db.Retired j)
    (hf : ∀ x ∈ tr₁ ++ tr₂, ¬ RetiredRetry x.1.db j x.2.1.1 x.2.1.2) :
    w₂.db.Retired j ∧ ∀ i e, w₂.db.exec? i = some e → e.jobName = j →
      e.status ≠ .ready ∧ (e.status.terminal = true ∨ e.status = .cancelRequested) := by
  have hdrained := Sys.Run.invariant_of (I := fun w => w.db.Retired j → w.db.Drained j)
    (fun x => ¬ RetiredRetry x.1.db j x.2.1.1 x.2.1.2)
    (fun _ _ _ he => by cases he)
    (fun w l w' h hC hst hr => by
      rcases hst.commit.retired j with hiff | ⟨-, hd, -⟩
      · exact (h (hiff.1 hr)).commit (hiff.1 hr) hst.commit hC
      · exact hd) (h₁.append h₂) hf
  have hkept : w₂.db.Retired j := Sys.Run.invariant (I := fun w => w.db.Retired j) hret
    (fun w l w' h hst => by
      rcases hst.commit.retired j with hiff | ⟨hr, -⟩
      · exact hiff.2 h
      · exact hr) h₂
  refine ⟨hkept, fun i e he hj => ?_⟩
  have hd := hdrained hkept i e he hj
  refine ⟨fun hs => ?_, hd⟩
  rcases hd with ht | hq
  · exact (Status.ne_of_terminal ht).1 hs
  · rw [hs] at hq; cases hq

/-- The job is retired under a pass that runs; the pass reports its end. -/
def retiredPass : List (Action × Int) :=
  claimedPass ++ [(.accept 1 "t1" 1 60, 3), (.retire "sync" "operator" "gone", 4)]

def endPass : List (Action × Int) :=
  [(.complete ⟨"sync", 1, "pass-1", "scheduler", "t1", 1⟩ { status := .success, attemptOutcome := .success }, 5)]

theorem retirement_leaves_no_work_done :
    ((((World.init 0).play bareEnv retiredPass).play bareEnv endPass).db.Retired "sync") := by
  refine (retirement_leaves_no_work (World.run_play bareEnv retiredPass (World.init 0) (by decide +kernel))
    (World.run_play bareEnv endPass _ (by decide +kernel))
    ⟨Option.get _ (by decide +kernel), (Option.some_get _).symm, by decide +kernel⟩ ?_).1
  rintro x hx ⟨k, o, b, e, ha, -⟩
  simp only [retiredPass, endPass, claimedPass, firstPass, World.trace, List.cons_append,
    List.nil_append, List.mem_cons, List.not_mem_nil, or_false] at hx
  rcases hx with rfl | rfl | rfl | rfl | rfl | rfl <;> cases ha

/-- The pass reports a failure instead, with one attempt left. -/
def retriedPass : List (Action × Int) :=
  retiredPass ++ [(.retry ⟨"sync", 1, "pass-1", "scheduler", "t1", 1⟩
    { status := .dead, attemptOutcome := .failed } 5, 5)]

/-- **A retry brings back claimable work**: the job is retired and its execution is ready. -/
theorem retry_requeues_retired_job : ∃ w e, Reachable bareEnv w ∧ w.db.Retired "sync" ∧ w.db.exec? 1 = some e ∧
    e.jobName = "sync" ∧ e.status = .ready :=
  ⟨(World.init 0).play bareEnv retriedPass, Option.get _ (by decide +kernel),
    reachable_play bareEnv 0 retriedPass (by decide +kernel),
    ⟨Option.get _ (by decide +kernel), (Option.some_get _).symm, by decide +kernel⟩,
    (Option.some_get _).symm, by decide +kernel, by decide +kernel⟩

end GoJob
