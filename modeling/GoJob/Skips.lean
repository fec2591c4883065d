import GoJob.Budget
import GoJob.TokenLife
/-!
# Skips — the occurrences FORBID declines

A contended claim under FORBID ends its candidate as `skipped`.  The branch asks whether the candidate is `ready` and
not a manual run, and nothing else.  A new occurrence is `ready`, but so is one whose attempt failed, or was lost with
its executor, and that waits for the next attempt: if another occurrence of the job has taken the lock meanwhile, FORBID
ends it for good, with its history and with attempts left.
-/
namespace GoJob

open Rel Tx

variable {env : Env} {c : Ctx} {db db' : DB}

/-! ## What a claim skips -/

/-- The claim meets FORBID: the job is held, and the candidate is none that an operator asked for. -/
def DB.Forbids (db : DB) (p : ClaimParams) : Prop :=
  ∃ d s e, db.def? p.jobName = some d ∧ d.concurrency = .forbid ∧ db.state? p.jobName = some s ∧ s.held = true ∧
    db.exec? p.executionId = some e ∧ e.status = .ready ∧ e.manualFirst = false

section claim

variable {p : ClaimParams} {r : Runnable} {x : ClaimResult} {i : Nat} {e e' : ExecRow}

theorem exec?_setExec_cases {k : Nat} {w : ExecWrite} (he : db.exec? i = some e)
    (he' : (db.setExec k w).exec? i = some e') : e' = e ∨ (i = k ∧ e' = w.run e) := by
  by_cases hi : i = k
  · subst hi
    have hset := (OnExec.of_set he w).execs i
    rw [if_pos rfl] at hset
    exact Or.inr ⟨rfl, Option.some.inj (he'.symm.trans hset)⟩
  · rw [DB.exec?_setExec, if_neg hi] at he'
    exact Or.inl (Option.some.inj (he'.symm.trans he))

theorem deferCandidate_status {u : Unit} (h : deferCandidate c p.executionId p.backoffSeconds db = .ok (u, db'))
    (he : db.exec? i = some e) (he' : db'.exec? i = some e') : e'.status = e.status := by
  rcases tryExec_ok h with ⟨-, -, -, rfl⟩ | ⟨-, rfl⟩
  · rcases exec?_setExec_cases he he' with rfl | ⟨-, rfl⟩ <;> rfl
  · rw [Option.some.inj (he.symm.trans he')]

/-- **A claim skips a row only under FORBID.** -/
theorem claim_forbids (h : claim c p r db = .ok (x, db')) (he : db.exec? i = some e) (he' : db'.exec? i = some e')
    (hs : e.status ≠ .skipped) (hs' : e'.status = .skipped) : i = p.executionId ∧ db.Forbids p := by
  obtain ⟨s, d, e₀, hstate, hd, he₀, -, -, h⟩ := claim_ok h
  cases h with
  | expired =>
    rcases exec?_setExec_cases he he' with rfl | ⟨-, rfl⟩
    · exact absurd hs' hs
    · cases hs'
  | deferred _ h => exact absurd (deferCandidate_status h he he' ▸ hs') hs
  | skipped _ _ hforbid hl hst hm h =>
    refine ⟨?_, d, s, e₀, hd, hforbid, hstate, hl, he₀, hst, hm⟩
    obtain ⟨_, _, _, _, hf⟩ := (settlePollClock_ok h).onBoth ((OnState.of_same hstate).exec (.of_set he₀ _))
      (DB.state?_jobName hstate)
    rcases hf.row_cases he he' with ⟨hi, -⟩ | rfl
    · exact hi
    · exact absurd hs' hs
  | acquired =>
    rcases exec?_setExec_cases (show (db.setState _ _).exec? i = some e from he) he' with rfl | ⟨-, rfl⟩
    · exact absurd hs' hs
    · cases hs'

end claim

/-! ## Executions that have begun -/

/-- An attempt of execution `i` has ended. -/
def Begun (env : Env) (tr : History) (i : Nat) : Prop := ∃ x ∈ tr, ∃ k, endedOf env x = some k ∧ k.executionId = i

theorem Begun.later {tr : History} {i : Nat} (h : Begun env tr i) (x : World × (Action × Ctx) × World) :
    Begun env (tr ++ [x]) i := by
  obtain ⟨y, hy, h⟩ := h
  exact ⟨y, List.mem_append_left _ hy, h⟩

/-- A step that changed a row was committed. -/
theorem Step.committed {w w' : World} {l : Action × Ctx} (hst : Step env w l w') {i : Nat} {e e' : ExecRow}
    (he : w.db.exec? i = some e) (he' : w'.db.exec? i = some e') (hne : e' ≠ e) :
    l.1.tx env l.2 w.db = .ok ((), w'.db) := by
  rcases Tx.commit_cases (l.1.tx env l.2) w.db with ⟨_, -, hsame⟩ | ⟨_, hok⟩
  · rw [← hst.db] at hsame
    rw [hsame, he] at he'
    exact absurd (Option.some.inj he').symm hne
  · rw [hst.db]
    exact hok

theorem endedOf_of_ok {x : World × (Action × Ctx) × World} {k : Holder} {r : Unit × DB}
    (hok : x.2.1.1.tx env x.2.1.2 x.1.db = .ok r) (hk : x.2.1.1.ending = some k) : endedOf env x = some k := by
  unfold endedOf
  rw [hok]
  exact hk

/-- **An execution none of whose attempts has ended has not been charged**, unless the first is under way. -/
theorem uncharged_unless_begun {u : Utc} {tr : History} {w : World} (hr : Sys.Run (Step env) (World.init u) tr w)
    {i : Nat} {e : ExecRow} (he : w.db.exec? i = some e) (hb : ¬ Begun env tr i) :
    e.attemptNo = 0 ∨ e.status = .running ∨ e.status = .cancelRequested := by
  refine row_history (P := fun _ => True) (Q := fun tr _ e => ¬ Begun env tr i →
    e.attemptNo = 0 ∨ e.status = .running ∨ e.status = .cancelRequested) trivial (fun _ _ _ _ _ _ _ _ => trivial)
    (fun _ _ _ _ _ _ _ _ _ _ _ _ hm _ => Or.inl hm.fresh.attemptNo) ?_ hr he hb
  rintro tr w ⟨a, c⟩ w' e e' hr hold he he' hst hm hnot
  have hold := hold fun h => hnot (h.later _)
  by_cases hne : e' = e
  · rwa [hne]
  have hm : ExecMove c a e e' := hm.resolve_left hne
  have hended : ∀ k, a.ending = some k → k.executionId ≠ e.id := fun k hk hi =>
    hnot ⟨_, List.mem_append_right _ (List.mem_singleton_self _), k, endedOf_of_ok (hst.committed he he' hne) hk,
      hi.trans (DB.exec?_id he)⟩
  -- A held row that is let go of here was refused, for every other way ends an attempt.
  have hrefused : e.status.held = true → e'.status.held = false →
      e.status = .dispatching ∧ e'.attemptNo = e.attemptNo := fun hh hh' => by
    rcases hm.lets_go hh (fun h => by rw [hh'] at h; exact Bool.false_ne_true h.1) with ⟨p, n, rfl⟩ | ⟨k, hk, hi, -⟩
    · cases hm with
      | refuse _ ho => exact ⟨(ExecRow.unaccepted_iff.1 ho).1, rfl⟩
    · exact absurd hi (hended k hk)
  have hheld : e'.status.held = true → e'.status ≠ .dispatching → e'.status = .running ∨ e'.status = .cancelRequested :=
    fun hh hd => by cases hs : e'.status <;> simp_all [Status.held]
  rcases hm.counters.1 with hn | ⟨hn, hs, hs'⟩
  · rcases hold with h0 | hrun
    · exact Or.inl (hn.trans h0)
    · have hh : e.status.held = true := by rcases hrun with h | h <;> rw [h] <;> rfl
      have hnd : e.status ≠ .dispatching := by rcases hrun with h | h <;> rw [h] <;> decide
      cases hh' : e'.status.held with
      | false => exact absurd (hrefused hh hh').1 hnd
      | true =>
        refine Or.inr (hheld hh' fun hd => ?_)
        rcases hm.dispatching hd with ⟨hd, -⟩ | ⟨t, hmint, ht⟩
        · exact hnd hd
        · have hinv := HolderInv.run hr
          rw [(hm.stays_held hh hh').token] at ht
          exact hst.fresh t hmint (hinv.issued _ _ _ he ht)
  · cases hh' : e'.status.held with
    | false =>
      have := (hrefused (by rw [hs]; rfl) hh').2
      omega
    | true => exact Or.inr (hheld hh' hs')

/-! ## Executions that are skipped -/

/-- **A row becomes `skipped` by a contended claim**, unless somebody reports it as skipped. -/
theorem ExecMove.skips {a : Action} {e e' : ExecRow} (h : ExecMove c a e e') (hs : e.status ≠ .skipped)
    (hs' : e'.status = .skipped) : (∃ p r, a = .claim p r) ∨ ∃ k o, a = .complete k o ∧ o.status = .skipped := by
  cases h with
  | skip => exact Or.inl ⟨_, _, rfl⟩
  | complete => exact Or.inr ⟨_, _, rfl, hs'⟩
  | defer => exact absurd hs' hs
  | retarget => exact absurd hs' hs
  | renew => exact absurd hs' hs
  | extend => exact absurd hs' hs
  | adopt =>
    simp only [adoptWrite] at hs'
    split at hs'
    · cases hs'
    · exact absurd hs' hs
  | refuse => simp only [refuseWrite] at hs'; split at hs' <;> cases hs'
  | retry => simp only [retryWrite] at hs'; split at hs' <;> cases hs'
  | resolve =>
    have hs' : resolvedStatus (e.toStale (c.utc 1)) = .skipped := hs'
    unfold resolvedStatus at hs'
    split_ifs at hs'
  | fence | silence | release =>
    have hs' : endedStatus (e.toStale (c.utc 1)) = .skipped := hs'
    unfold endedStatus at hs'
    split_ifs at hs'
  | _ => cases hs'

/-- A retention batch that leaves a row of history leaves its execution. -/
theorem reapAll_spares {n : Nat} : ∀ {es : List ExecRow} {m : Nat} {db : DB}, reapAll es m db = .ok (n, db') →
    ∀ r ∈ db'.attempts.rows, r ∈ db.attempts.rows ∧ ∀ i e, db.exec? i = some e → e.executionKey = r.executionKey →
      db'.exec? i = some e
  | [], _, _, h => by
    obtain rfl := congrArg Prod.snd (Tx.pure_ok.1 h)
    exact fun r hr => ⟨hr, fun _ _ he _ => he⟩
  | x :: es, _, db, h => by
    obtain ⟨_, db₁, h₁, h⟩ := Tx.bind_ok.1 h
    intro r hr
    obtain ⟨hr₁, hrows⟩ := reapAll_spares h r hr
    replace h₁ := Tx.get_bind_ok.1 h₁
    obtain ⟨_, _, h₃, h₁⟩ := Tx.bind_ok.1 h₁
    obtain ⟨_, rfl⟩ := Prod.mk.inj (Tx.set_ok.1 h₃)
    obtain ⟨-, h₁⟩ := check_ok h₁
    obtain rfl := congrArg Prod.snd (Tx.pure_ok.1 h₁)
    obtain ⟨hr₀, hkey⟩ := List.mem_filter.1 (show r ∈ db.attempts.rows.filter _ from hr₁)
    refine ⟨hr₀, fun i e he hk => hrows i e ?_ hk⟩
    have hne : e.executionKey ≠ x.executionKey := by
      rw [hk]
      simpa using hkey
    rw [DB.exec?_deleteExecs, DB.exec?_setAttempts, he, Option.filter_some, if_pos (by simp [hne])]

theorem reap_spares {a : Action} {u : Unit} (h : a.tx env c db = .ok (u, db')) (ha : a.reaps = true) {r : AttemptRow}
    (hr : r ∈ db'.attempts.rows) : r ∈ db.attempts.rows ∧ ∀ i e, db.exec? i = some e →
      e.executionKey = r.executionKey → db'.exec? i = some e := by
  cases a with
  | reapExecutions s o l =>
    obtain ⟨_, h⟩ := unit_ok h
    obtain ⟨-, h⟩ := check_ok h
    obtain ⟨-, h⟩ := check_ok h
    obtain ⟨-, h⟩ := check_ok h
    replace h := Tx.get_bind_ok.1 h
    exact reapAll_spares h r hr
  | _ => cases ha

/-- What the callers of a step keep to: they end the executions they have read, and no outcome says `skipped`. -/
structure Proper (pre : History) (x : World × (Action × Ctx) × World) : Prop where
  reads    : ReadsKey pre x
  outcomes : ∀ k o, x.2.1.1 = .complete k o → o.status ≠ .skipped

section history

variable {u : Utc} {tr : History} {w : World} (hr : Sys.Run (Step env) (World.init u) tr w)

include hr

/-- **A skipped execution has not begun**, if FORBID meets none that has. -/
theorem skipped_not_begun (hproper : ∀ pre x, pre ++ [x] <+: tr → Proper pre x)
    (hforbid : ∀ pre x, pre ++ [x] <+: tr → ∀ p r, x.2.1.1 = .claim p r → x.1.db.Forbids p →
      ¬ Begun env pre p.executionId) {i : Nat} {e : ExecRow} (he : w.db.exec? i = some e) (hs : e.status = .skipped) :
    ¬ Begun env tr i := by
  induction hr generalizing i e with
  | nil => cases he
  | @snoc tr w w' l hr hst ih =>
    have hlast := List.prefix_refl (tr ++ [(w, l, w')])
    have hpre : ∀ {p : History}, p <+: tr → p <+: tr ++ [(w, l, w')] := fun h => h.trans (List.prefix_append _ _)
    have ih := @ih (fun pre x h => hproper pre x (hpre h)) fun pre x h => hforbid pre x (hpre h)
    rintro ⟨x, hx, k, hk, rfl⟩
    -- The row was skipped before this step, or is skipped by it.
    have hbefore : ∃ e₁, w.db.exec? k.executionId = some e₁ ∧ (e₁.status = .skipped ∨
        (e₁.status = .ready ∧ ¬ Begun env tr k.executionId ∧ ∀ k', endedOf env (w, l, w') ≠ some k')) := by
      cases he₁ : w.db.exec? k.executionId with
      | none =>
        obtain ⟨_, _, _, _, -, -, -, hm, -⟩ := hst.commit.new he₁ he
        rw [hm.fresh.status] at hs
        cases hs
      | some e₁ =>
        refine ⟨e₁, rfl, ?_⟩
        by_cases hs₁ : e₁.status = .skipped
        · exact Or.inl hs₁
        have hne : e ≠ e₁ := fun h => hs₁ (h ▸ hs)
        have hm := (hst.commit.moved he₁ he).resolve_left hne
        rcases hm.skips hs₁ hs with ⟨p, r, ha⟩ | ⟨k', o, ha, ho⟩
        · have hok := hst.committed he₁ he hne
          rw [ha] at hok
          obtain ⟨_, hclaim⟩ := unit_ok hok
          obtain ⟨hi, hf⟩ := claim_forbids hclaim he₁ he hs₁ hs
          have hb := hforbid tr (w, l, w') hlast p r ha hf
          rw [← hi] at hb
          obtain ⟨_, _, _, -, -, -, -, hrow, hready, -⟩ := hf
          rw [← hi] at hrow
          refine Or.inr ⟨Option.some.inj (he₁.symm.trans hrow) ▸ hready, hb, fun k' hk' => ?_⟩
          have := (endedOf_eq_some hst hk').1
          rw [ha] at this
          cases this
        · exact absurd ho ((hproper tr (w, l, w') hlast).outcomes k' o ha)
    obtain ⟨e₁, he₁, hcase⟩ := hbefore
    rcases List.mem_append.1 hx with hx | hx
    · rcases hcase with hs₁ | ⟨-, hb, -⟩
      · exact ih he₁ hs₁ ⟨x, hx, k, hk, rfl⟩
      · exact hb ⟨x, hx, k, hk, rfl⟩
    · obtain rfl := List.mem_singleton.1 hx
      -- What this step ends is held.
      rcases hcase with hs₁ | ⟨-, -, hno⟩
      · obtain ⟨⟨e₂, he₂, hh, -⟩, -⟩ := hst.ended (HolderInv.run hr) hk
        rw [← Option.some.inj (he₁.symm.trans he₂), hs₁] at hh
        cases hh
      · exact hno k hk

/-- **Every row of history belongs to an execution that has begun.** -/
theorem recorded_begun (hread : ∀ pre x, pre ++ [x] <+: tr → ReadsKey pre x) {r : AttemptRow}
    (hmem : r ∈ w.db.attempts.rows) :
    ∃ i e, w.db.exec? i = some e ∧ e.executionKey = r.executionKey ∧ Begun env tr i := by
  induction hr generalizing r with
  | nil => cases hmem
  | @snoc tr w w' l hr hst ih =>
    have ih := @ih fun pre x h => hread pre x (h.trans (List.prefix_append _ _))
    have before : r ∈ w.db.attempts.rows → (∀ i e, w.db.exec? i = some e → e.executionKey = r.executionKey →
        (w'.db.exec? i).isSome = true) → ∃ i e, w'.db.exec? i = some e ∧ e.executionKey = r.executionKey ∧
        Begun env (tr ++ [(w, l, w')]) i := fun hmem hstays => by
      obtain ⟨i, e, he, hk, hb⟩ := ih hmem
      obtain ⟨e', he'⟩ := Option.isSome_iff_exists.1 (hstays i e he hk)
      exact ⟨i, e', he', by rw [hst.commit.info he he', hk], hb.later _⟩
    have stays : l.1.reaps = false → ∀ i e, w.db.exec? i = some e → e.executionKey = r.executionKey →
        (w'.db.exec? i).isSome = true := fun hno i e he _ => by
      have hrow := hst.commit.row he
      obtain ⟨b, hb⟩ : ∃ b, l.1 = b := ⟨_, rfl⟩
      rw [hb] at hrow hno
      cases he' : w'.db.exec? i with
      | some => rfl
      | none =>
        rw [he'] at hrow
        cases hrow with
        | delete => cases hno
    rcases Tx.commit_cases (l.1.tx env l.2) w.db with ⟨_, -, hsame⟩ | ⟨_, hok⟩
    · rw [← hst.db] at hsame
      refine before (hsame ▸ hmem) fun i e he _ => ?_
      rw [hsame, he]
      rfl
    · rw [← hst.db] at hok
      cases hreap : l.1.reaps with
      | true =>
        obtain ⟨hold, hrows⟩ := reap_spares hok hreap hmem
        exact before hold fun i e he hk => by rw [hrows i e he hk]; rfl
      | false =>
        cases l.1.history_of_ok hok with
        | reaped hr => rw [hreap] at hr; cases hr
        | kept _ hkept => exact before (hkept ▸ hmem) (stays hreap)
        | @recorded k hend hcl =>
          obtain ⟨_, _, ha, _, _, he, _, _, hm, _, hf, hrec⟩ := hcl
          obtain rfl := Option.some.inj ((Action.closing_of_ending hend).symm.trans ha)
          obtain ⟨o, -, hatt⟩ := hrec k hend
          rw [hatt] at hmem
          rcases DB.mem_of_addAttempt hmem with hmem | rfl
          · exact before hmem (stays hreap)
          · have hkey := (hread tr _ (List.prefix_refl _)).key hr hend he
            exact ⟨_, _, hf.exec?, by rw [hm.info, hkey]; rfl, _,
              List.mem_append_right _ (List.mem_singleton_self _), k, endedOf_of_ok hok hend, rfl⟩

/-- **Skipped means never started**, if FORBID meets no candidate one of whose attempts has ended: a skipped execution
has been charged nothing and has no history, and none that has begun is skipped. -/
theorem skipped_means_never_started (hproper : ∀ pre x, pre ++ [x] <+: tr → Proper pre x)
    (hforbid : ∀ pre x, pre ++ [x] <+: tr → ∀ p r, x.2.1.1 = .claim p r → x.1.db.Forbids p →
      ¬ Begun env pre p.executionId) {i : Nat} {e : ExecRow} (he : w.db.exec? i = some e) (hs : e.status = .skipped) :
    e.attemptNo = 0 ∧ (∀ r ∈ w.db.attempts.rows, r.executionKey ≠ e.executionKey) ∧ ¬ Begun env tr i := by
  have hb := skipped_not_begun hr hproper hforbid he hs
  refine ⟨?_, fun r hmem hk => ?_, hb⟩
  · rcases uncharged_unless_begun hr he hb with h | h | h
    · exact h
    · rw [hs] at h; cases h
    · rw [hs] at h; cases h
  · obtain ⟨i', e', he', hk', hb'⟩ := recorded_begun hr (fun pre x h => (hproper pre x h).reads) hmem
    obtain rfl := DB.exec?_key_inj he' he (hk'.trans hk)
    exact hb hb'

end history

/-- A job under FORBID, its first pass, and a manual run. -/
def forbidden : List (Action × Int) :=
  [(.createJob { sampleJob "sync" .fixedDelay "1000" with concurrency := .forbid } 0 "operator" "new", 0),
   (.materializePoll "sync" "pass-1" (fun _ => .error ⟨.other, "no schedule"⟩), 1),
   (.trigger "sync" "r1" "operator" "now" "", 1)]

def claimManual : Action :=
  .claim ⟨2, "sync", "m:sync:r1", "scheduler", "executor", "t2", 5⟩ (fun _ _ _ => .ok ())

/-- The manual run takes the job, and FORBID declines the pass. -/
def declinedPass : List (Action × Int) := forbidden ++ [(claimManual, 2), (claimPass "t1", 3)]

theorem skipped_means_never_started_declined :
    ∃ e, ((World.init 0).play bareEnv declinedPass).db.exec? 1 = some e ∧ e.status = .skipped ∧ e.attemptNo = 0 ∧
      ∀ r ∈ ((World.init 0).play bareEnv declinedPass).db.attempts.rows, r.executionKey ≠ e.executionKey := by
  have hrun := World.run_play bareEnv declinedPass (World.init 0) (by decide +kernel)
  have hnone : ∀ x ∈ (World.init 0).trace bareEnv declinedPass, (endedOf bareEnv x).isNone ∧
      x.2.1.1.ending.isNone := by decide +kernel
  have hrow := (Option.some_get (show (((World.init 0).play bareEnv declinedPass).db.exec? 1).isSome = true by
    decide +kernel)).symm
  have hskip : (((World.init 0).play bareEnv declinedPass).db.exec? 1).all (fun e => decide (e.status = .skipped)) =
      true := by decide +kernel
  rw [hrow, Option.all_some, decide_eq_true_eq] at hskip
  have h := skipped_means_never_started hrun (fun pre x hp => ⟨fun k hk => ?_, fun k o hx => ?_⟩)
    (fun pre x hp p r _ _ hb => ?_) hrow hskip
  · exact ⟨_, hrow, hskip, h.1, h.2.1⟩
  · have := (hnone x (hp.subset (by simp))).2
    rw [hk] at this
    cases this
  · have := (hnone x (hp.subset (by simp))).2
    rw [hx] at this
    cases this
  · obtain ⟨y, hy, k, hk, -⟩ := hb
    have := (hnone y (hp.subset (List.mem_append_left _ hy))).1
    rw [hk] at this
    cases this

/-- The first attempt of the pass fails; while the manual run holds the job, the pass is claimed for its second one. -/
def discardedPass : List (Action × Int) :=
  forbidden ++ [(claimPass "t1", 2),
    (.retry ⟨"sync", 1, "pass-1", "scheduler", "t1", 1⟩ { attemptOutcome := .failed } 5, 3),
    (claimManual, 4), (claimPass "t3", 9)]

/-- **A run that waits for its second attempt is discarded as skipped**, with one attempt on record and one left. -/
theorem retried_run_is_skipped : ∃ tr w e, Sys.Run (Step bareEnv) (World.init 0) tr w ∧
    (∀ pre x, pre ++ [x] <+: tr → Proper pre x) ∧ w.db.exec? 1 = some e ∧ e.status = .skipped ∧ e.attemptNo = 1 ∧
    e.attemptNo < e.maxAttempts ∧ ∃ r ∈ w.db.attempts.rows, r.executionKey = e.executionKey := by
  have hall : ∀ x ∈ (World.init 0).trace bareEnv discardedPass, x.2.1.1.ending.all (fun k =>
      (x.1.db.exec? k.executionId).any (fun e => decide (e.executionKey = k.executionKey))) = true := by decide +kernel
  refine ⟨_, (World.init 0).play bareEnv discardedPass,
    (((World.init 0).play bareEnv discardedPass).db.exec? 1).get (by decide +kernel),
    World.run_play bareEnv discardedPass (World.init 0) (by decide +kernel),
    fun pre x hp => ⟨readsKey_now hall pre x hp, fun k o hx => ?_⟩, (Option.some_get _).symm, by decide +kernel,
    by decide +kernel, by decide +kernel, by decide +kernel⟩
  have hx' : x ∈ (World.init 0).trace bareEnv discardedPass := hp.subset (by simp)
  simp only [discardedPass, forbidden, List.cons_append, List.nil_append, World.trace, List.mem_cons, List.not_mem_nil,
    or_false] at hx'
  rcases hx' with rfl | rfl | rfl | rfl | rfl | rfl | rfl <;> cases hx

end GoJob
