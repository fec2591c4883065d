import GoJob.Moves
/-!
# CommitAttempt — the transactions of an attempt, unpacked

Claim, acceptance, refusal, renewal, results, cancels and recovery: each one that commits is a `Commit`.
-/
namespace GoJob

open Rel

variable {env : Env} {c : Ctx} {db db' : DB}

/-! ## What the endings share -/

theorem Settled.onBoth {db₁ : DB} {j : String} {s : StateRow} {i : Nat} {e : ExecRow} (hf : OnBoth db db₁ j s i e)
    (hj : s.jobName = j) (h : Settled c db₁ j i db') :
    ∃ d s', db.def? j = some d ∧ PollSettled c d e s s' ∧ OnBoth db db' j s' i e := by
  cases h with
  | idle d hd hp =>
    rw [hf.defs] at hd
    refine ⟨d, s, hd, .idle s (fun hk hej hpoll => ?_), hf⟩
    have := hp hk (by simp [hf.state?])
    simpa [DB.passEnded, hf.exec?, hej, hj, hpoll] using this
  | restart d t hd hk ht hp =>
    rw [hf.defs] at hd
    simp only [DB.passEnded, hf.exec?, Option.any_some, Bool.and_eq_true, decide_eq_true_eq] at hp
    exact ⟨d, _, hd, .restart s t hk ht (hp.1.1.trans hj.symm) hp.1.2 hp.2, hf.state (.of_set hf.state? _)⟩

/-- The history after the last two statements of an ending. -/
theorem Settled.attempts {db₁ : DB} {j : String} {i : Nat} {a : AttemptRow} (h : Settled c (db₁.addAttempt a) j i db')
    (hk : db₁.attempts = db.attempts) : db'.attempts = (db.addAttempt a).attempts := by
  rw [← DB.attempts_addAttempt hk]
  cases h <;> rfl

theorem chargeUnacceptedAttempt_attempts {k : Holder} {u : Unit} (h : chargeUnacceptedAttempt c k db = .ok (u, db')) :
    db'.attempts = db.attempts := by
  rcases tryExec_ok h with ⟨_, _, _, rfl⟩ | ⟨_, rfl⟩ <;> rfl

theorem chargeUnacceptedAttempt_ok {k : Holder} {u : Unit} (h : chargeUnacceptedAttempt c k db = .ok (u, db')) :
    (db.exec? k.executionId = none ∧ db = db') ∨
      ∃ e, db.exec? k.executionId = some e ∧ OnExec db db' k.executionId (e.charged c k) := by
  rcases tryExec_ok h with ⟨e, he, hg, rfl⟩ | ⟨hg, rfl⟩
  · refine Or.inr ⟨e, he, ?_⟩
    rw [ExecRow.charged, if_pos hg]
    exact .of_set he _
  · cases he : db.exec? k.executionId with
    | none => exact Or.inl ⟨rfl, rfl⟩
    | some e =>
      refine Or.inr ⟨e, rfl, ?_⟩
      rw [ExecRow.charged, if_neg (by rw [hg e he]; exact Bool.false_ne_true)]
      exact .of_same he

@[simp] theorem ExecRow.charged_reportable (e : ExecRow) (k : Holder) (u : Utc) :
    (e.charged c k).reportable k u = e.reportable k u := by
  unfold ExecRow.charged
  split <;> rfl

/-- The common course of `Complete` and `Retry`: release, charge, move the row, record, settle. -/
theorem result_ok {k : Holder} {b : Bool} {w : ExecWrite} {o : Outcome} {kind : Sentinel} {detail : String} {u : Unit}
    (h : (do
      releaseJobLock c k b
      chargeUnacceptedAttempt c k
      casExec k.executionId (fun e => e.reportable k (c.utc 2)) w kind detail
      recordAttempt c k o
      settlePollClock c k.jobName k.executionId : StoreM Unit) db = .ok (u, db')) :
    ∃ d s s' e, db.def? k.jobName = some d ∧ db.state? k.jobName = some s ∧ db.exec? k.executionId = some e ∧
      s.owned k.runToken k.fenceEpoch = true ∧ e.reportable k (c.utc 2) = true ∧
      PollSettled c d (w.run (e.charged c k)) ((releaseWrite c b).run s) s' ∧
      OnBoth db db' k.jobName s' k.executionId (w.run (e.charged c k)) ∧
      db'.attempts = (db.addAttempt (o.attemptRow c k (w.run (e.charged c k)).attemptNo)).attempts := by
  obtain ⟨_, _, h₁, h⟩ := Tx.bind_ok.1 h
  obtain ⟨_, db₂, h₂, h⟩ := Tx.bind_ok.1 h
  obtain ⟨_, db₃, h₃, h⟩ := Tx.bind_ok.1 h
  obtain ⟨_, _, h₄, h⟩ := Tx.bind_ok.1 h
  obtain ⟨s, hs, ho, rfl⟩ := casState_ok h₁
  obtain ⟨e₂, he₂, hr, rfl⟩ := casExec_ok h₃
  obtain ⟨e₃, he₃, rfl⟩ := recordAttempt_ok h₄
  rcases chargeUnacceptedAttempt_ok h₂ with ⟨hn, rfl⟩ | ⟨e, he, hx⟩
  · rw [hn] at he₂; cases he₂
  · have hee : e.charged c k = e₂ := by
      rw [hx.execs, if_pos rfl] at he₂
      exact Option.some.inj he₂
    subst hee
    have hb := ((OnState.of_set hs (releaseWrite c b)).exec hx).exec (.of_set he₂ w)
    obtain rfl := Option.some.inj (hb.exec?.symm.trans he₃)
    obtain ⟨d, s', hd, hp, hf⟩ := (settlePollClock_ok h).onBoth (hb.attempt _) (DB.state?_jobName hb.state?)
    rw [ExecRow.charged_reportable] at hr
    refine ⟨d, s, s', e, hd, hs, he, ho, hr, hp, hf, ?_⟩
    have hkept : db₂.attempts = db.attempts := (chargeUnacceptedAttempt_attempts h₂).trans rfl
    exact (settlePollClock_ok h).attempts hkept

theorem ExecRow.reportable_iff {e : ExecRow} {k : Holder} {u : Utc} : e.reportable k u = true ↔
    e.status.held = true ∧ e.owned k.runToken k.fenceEpoch = true ∧ past e.timeoutAt u = false := by
  simp [ExecRow.reportable, and_assoc]

theorem complete_closes {k : Holder} {o : Outcome} {u : Unit} (h : complete c k o db = .ok (u, db')) :
    Closes c db (.complete k o) db' := by
  obtain ⟨ht, h⟩ := check_ok h
  obtain ⟨d, s, s', e, hd, hs, he, ho, hr, hp, hf, hrec⟩ := result_ok h
  have hm := ExecMove.complete (c := c) (o := o) (DB.exec?_id he) (by simpa using ht) hr
  exact .intro (q := ⟨k.jobName, k.executionId, k.runToken, k.fenceEpoch⟩) _ _ rfl hd hs he ho
    (ExecRow.reportable_iff.1 hr).2.1 hm hp hf (fun _ hk => Option.some.inj hk ▸ ⟨_, by rfl, hrec⟩)

theorem retry_closes {k : Holder} {o : Outcome} {b : Int} {u : Unit} (h : retry c k o b db = .ok (u, db')) :
    Closes c db (.retry k o b) db' := by
  obtain ⟨d, s, s', e, hd, hs, he, ho, hr, hp, hf, hrec⟩ := result_ok h
  have hm := ExecMove.retry (c := c) (o := o) (b := b) (DB.exec?_id he) hr
  exact .intro (q := ⟨k.jobName, k.executionId, k.runToken, k.fenceEpoch⟩) _ _ rfl hd hs he ho
    (ExecRow.reportable_iff.1 hr).2.1 hm hp hf (fun _ hk => Option.some.inj hk ▸ ⟨_, by rfl, hrec⟩)

theorem releaseJobLock_ok {k : Holder} {b : Bool} {u : Unit} (h : releaseJobLock c k b db = .ok (u, db')) :
    ∃ s, db.state? k.jobName = some s ∧ s.owned k.runToken k.fenceEpoch = true ∧
      db' = db.setState k.jobName (releaseWrite c b) := by
  obtain ⟨s, hs, ho, rfl⟩ := casState_ok h
  exact ⟨s, hs, ho, rfl⟩

/-- The common course of recovery's endings, once the checks have passed: release, move the row, record, settle. -/
theorem ending_ok {k : Holder} {release : StoreM Unit} {w₀ : StateWrite} {g : ExecRow → Bool} {w : ExecWrite}
    {o : Outcome} {stmt : String} {u : Unit}
    (hrel : ∀ {u db₁}, release db = .ok (u, db₁) → ∃ s, db.state? k.jobName = some s ∧
      s.owned k.runToken k.fenceEpoch = true ∧ db₁ = db.setState k.jobName w₀)
    (h : (do
      release
      mustExec k.executionId g w stmt
      recordAttempt c k o
      settlePollClock c k.jobName k.executionId : StoreM Unit) db = .ok (u, db')) :
    ∃ d s s' e, db.def? k.jobName = some d ∧ db.state? k.jobName = some s ∧ db.exec? k.executionId = some e ∧
      s.owned k.runToken k.fenceEpoch = true ∧ g e = true ∧ PollSettled c d (w.run e) (w₀.run s) s' ∧
      OnBoth db db' k.jobName s' k.executionId (w.run e) ∧
      db'.attempts = (db.addAttempt (o.attemptRow c k (w.run e).attemptNo)).attempts := by
  obtain ⟨_, _, h₁, h⟩ := Tx.bind_ok.1 h
  obtain ⟨_, _, h₂, h⟩ := Tx.bind_ok.1 h
  obtain ⟨_, _, h₃, h⟩ := Tx.bind_ok.1 h
  obtain ⟨s, hs, ho, rfl⟩ := hrel h₁
  obtain ⟨e, he, hg, rfl⟩ := mustExec_ok h₂
  obtain ⟨e₁, he₁, rfl⟩ := recordAttempt_ok h₃
  have hb := (OnState.of_set hs w₀).exec (.of_set he w)
  obtain rfl := Option.some.inj (hb.exec?.symm.trans he₁)
  obtain ⟨d, s', hd, hp, hf⟩ := (settlePollClock_ok h).onBoth (hb.attempt _) (DB.state?_jobName hb.state?)
  refine ⟨d, s, s', e, hd, hs, he, ho, hg, hp, hf, ?_⟩
  exact (settlePollClock_ok h).attempts rfl

theorem held_owned {e : ExecRow} {t : String} {n : Nat} (h : (e.status.held && e.owned t n) = true) :
    e.status.held = true ∧ e.owned t n = true := by
  simpa only [Bool.and_eq_true] using h

/-- How recovery begins: it locks the job, checks that its view of the holder is current, and reads the row again. -/
theorem reverified_ok {α : Type} {j t : String} {n i : Nat} {kind : Sentinel} {detail : String} {f : Stale → StoreM α}
    {r : α} (h : (do
      let s ← lockState c j
      if s.stillHeld t n = false then fail kind detail
      else
        let cur ← lockExecution i (c.utc 1)
        f cur : StoreM α) db = .ok (r, db')) :
    ∃ e, db.exec? i = some e ∧ f (e.toStale (c.utc 1)) db = .ok (r, db') := by
  obtain ⟨_, _, h₁, h⟩ := Tx.bind_ok.1 h
  obtain ⟨_, rfl⟩ := lockState_ok h₁
  obtain ⟨_, h⟩ := check_ok h
  obtain ⟨_, _, h₂, h⟩ := Tx.bind_ok.1 h
  obtain ⟨⟨e, he, rfl⟩, rfl⟩ := lockExecution_ok h₂
  exact ⟨e, he, h⟩

theorem fenceTimedOut_closes {v : Stale} {u : Unit} (h : fenceTimedOut c v db = .ok (u, db')) :
    Closes c db (.fenceTimedOut v) db' := by
  obtain ⟨e₀, he₀, h⟩ := reverified_ok h
  obtain ⟨_, h⟩ := check_ok h
  obtain ⟨_, h⟩ := check_ok h
  obtain ⟨d, s, s', e, hd, hs, he, ho, hg, hp, hf, hrec⟩ := ending_ok (k := v.holder) releaseJobLock_ok h
  obtain rfl : e₀ = e := Option.some.inj (he₀.symm.trans he)
  obtain ⟨hst, hown⟩ := held_owned hg
  exact .intro (q := ⟨v.jobName, v.id, v.runToken, v.fenceEpoch⟩) _ _ rfl hd hs he ho hown
    (.fence (DB.exec?_id he₀) hst hown) hp hf (fun _ hk => Option.some.inj hk ▸ ⟨_, by rfl, hrec⟩)

theorem expireSilent_closes {v : Stale} {u : Unit} (h : expireSilent c v db = .ok (u, db')) :
    Closes c db (.expireSilent v) db' := by
  obtain ⟨e₀, he₀, h⟩ := reverified_ok h
  obtain ⟨_, h⟩ := check_ok h
  obtain ⟨hsil, h⟩ := check_ok h
  obtain ⟨d, s, s', e, hd, hs, he, ho, hg, hp, hf, hrec⟩ := ending_ok (k := v.holder) releaseJobLock_ok h
  obtain rfl : e₀ = e := Option.some.inj (he₀.symm.trans he)
  simp only [Bool.and_eq_true, Bool.or_eq_true, decide_eq_true_eq] at hg
  exact .intro (q := ⟨v.jobName, v.id, v.runToken, v.fenceEpoch⟩) _ _ rfl hd hs he ho hg.2
    (.silence (DB.exec?_id he₀) hg.1 hg.2 (by simpa [ExecRow.toStale] using hsil)) hp hf
    (fun _ hk => Option.some.inj hk ▸ ⟨_, by rfl, hrec⟩)

theorem releaseAsOwner_closes {k : Holder} {r : Status} (h : releaseAsOwner c k db = .ok (r, db')) :
    Closes c db (.releaseAsOwner k) db' := by
  obtain ⟨e₀, he₀, h⟩ := reverified_ok h
  obtain ⟨_, h⟩ := check_ok h
  obtain ⟨hlive, h⟩ := check_ok h
  obtain ⟨_, _, h₃, h⟩ := Tx.bind_ok.1 h
  obtain ⟨_, _, h₄, h⟩ := Tx.bind_ok.1 h
  obtain ⟨_, _, h₅, h⟩ := Tx.bind_ok.1 h
  obtain ⟨_, db₁, h₆, h⟩ := Tx.bind_ok.1 h
  obtain rfl : db₁ = db' := congrArg Prod.snd (Tx.pure_ok.1 h)
  obtain ⟨d, s, s', e, hd, hs, he, ho, hg, hp, hf, hrec⟩ := ending_ok (k := k) releaseJobLock_ok
    (Tx.bind_ok.2 ⟨_, _, h₃, Tx.bind_ok.2 ⟨_, _, h₄, Tx.bind_ok.2 ⟨_, _, h₅, h₆⟩⟩⟩)
  obtain rfl : e₀ = e := Option.some.inj (he₀.symm.trans he)
  obtain ⟨hst, hown⟩ := held_owned hg
  exact .intro (q := ⟨k.jobName, k.executionId, k.runToken, k.fenceEpoch⟩) _ _ rfl hd hs he ho hown
    (.release (DB.exec?_id he₀) hst hown (by simpa [ExecRow.toStale] using hlive)) hp hf
    (fun _ hk => Option.some.inj hk ▸ ⟨_, by rfl, hrec⟩)

theorem resolve_closes {v : Stale} {b : Int} {r : Status} (h : resolve c v b db = .ok (r, db')) :
    Closes c db (.resolve v b) db' := by
  obtain ⟨e₀, he₀, h⟩ := reverified_ok h
  obtain ⟨_, h⟩ := check_ok h
  obtain ⟨_, h⟩ := check_ok h
  obtain ⟨_, _, h₃, h⟩ := Tx.bind_ok.1 h
  obtain ⟨_, _, h₄, h⟩ := Tx.bind_ok.1 h
  obtain ⟨_, _, h₅, h⟩ := Tx.bind_ok.1 h
  obtain ⟨_, db₁, h₆, h⟩ := Tx.bind_ok.1 h
  obtain rfl : db₁ = db' := congrArg Prod.snd (Tx.pure_ok.1 h)
  obtain ⟨d, s, s', e, hd, hs, he, ho, hg, hp, hf, hrec⟩ := ending_ok (k := v.holder)
    (fun h => by
      obtain ⟨s, hs, ho, rfl⟩ := mustState_ok h
      exact ⟨s, hs, (Bool.and_eq_true_iff.1 ho).1, rfl⟩)
    (Tx.bind_ok.2 ⟨_, _, h₃, Tx.bind_ok.2 ⟨_, _, h₄, Tx.bind_ok.2 ⟨_, _, h₅, h₆⟩⟩⟩)
  obtain rfl : e₀ = e := Option.some.inj (he₀.symm.trans he)
  obtain ⟨hst, hown⟩ := held_owned hg
  exact .intro (q := ⟨v.jobName, v.id, v.runToken, v.fenceEpoch⟩) _ _ rfl hd hs he ho hown
    (.resolve (DB.exec?_id he₀) hst hown) hp hf (fun _ hk => Option.some.inj hk ▸ ⟨_, by rfl, hrec⟩)

theorem refuse_closes {p : ClaimParams} {n : Nat} {u : Unit} (h : refuse c p n db = .ok (u, db')) :
    Closes c db (.refuse p n) db' := by
  obtain ⟨_, _, h₁, h⟩ := Tx.bind_ok.1 h
  obtain ⟨_, _, h₂, h⟩ := Tx.bind_ok.1 h
  obtain ⟨s, hs, ho, rfl⟩ := casState_ok h₁
  obtain ⟨e, he, hg, rfl⟩ := mustExec_ok h₂
  have hj := (refuseReleaseWrite.jobName s).trans (DB.state?_jobName hs)
  obtain ⟨d, s', hd, hp, hf⟩ := (settlePollClock_ok h).onBoth
    ((OnState.of_set hs refuseReleaseWrite).exec (.of_set he _)) hj
  have hown : e.owned p.runToken n = true := (Bool.and_eq_true_iff.1 hg).2
  exact .intro (q := ⟨p.jobName, p.executionId, p.runToken, n⟩) s.lastSuccessAt s.lastFailureAt rfl hd hs he ho hown
    (.refuse (DB.exec?_id he) hg) hp hf (fun _ hk => by cases hk)

/-! ## Ownership kept -/

theorem adopt_ok {v : Stale} {o : String} {l x : Int} {p : Bool} {r : Nat} (h : adopt c v o l x p db = .ok (r, db')) :
    r = v.fenceEpoch + 1 ∧ ∃ s e, db.state? v.jobName = some s ∧ db.exec? v.id = some e ∧
      s.owned v.runToken v.fenceEpoch = true ∧ past s.leaseUntil (c.utc 2) = true ∧ e.status.held = true ∧
      e.owned v.runToken v.fenceEpoch = true ∧
      past e.timeoutAt (c.utc 1) = false ∧
      OnBoth db db' v.jobName ((adoptLockWrite o (v.fenceEpoch + 1) l (c.utc 2)).run s) v.id
        ((adoptWrite c o (v.fenceEpoch + 1) l x (p && decide (e.status = .dispatching)) (c.utc 3)).run e) := by
  obtain ⟨e₀, he₀, h⟩ := reverified_ok h
  obtain ⟨_, h⟩ := check_ok h
  obtain ⟨hcap, h⟩ := check_ok h
  obtain ⟨_, _, h₃, h⟩ := Tx.bind_ok.1 h
  obtain ⟨_, db₁, h₄, h⟩ := Tx.bind_ok.1 h
  obtain ⟨hr, rfl⟩ := Prod.mk.inj (Tx.pure_ok.1 h)
  obtain ⟨s, hs, ho, rfl⟩ := mustState_ok h₃
  obtain ⟨e, he, hg, rfl⟩ := mustExec_ok h₄
  obtain rfl : e₀ = e := Option.some.inj (he₀.symm.trans he)
  obtain ⟨hst, hown⟩ := held_owned hg
  obtain ⟨ho, hl⟩ := Bool.and_eq_true_iff.1 ho
  exact ⟨hr.symm, s, e₀, hs, he₀, ho, hl, hst, hown, by simpa [ExecRow.toStale] using hcap,
    (OnState.of_set hs _).exec (.of_set he _)⟩

theorem adopt_commit {v : Stale} {o : String} {l x : Int} {p : Bool} {r : Nat}
    (h : adopt c v o l x p db = .ok (r, db')) : Commit env c db (.adopt v o l x p) db' := by
  obtain ⟨-, s, e, hs, he, ho, hl, hh, hown, hcap, hf⟩ := adopt_ok h
  exact .adopt hs he ho hl (.adopt (DB.exec?_id he) hh hown hcap) hf

theorem renew_ok {k : Holder} {l : Int} {u : Unit} (h : renew c k l db = .ok (u, db')) :
    ∃ s e, db.state? k.jobName = some s ∧ db.exec? k.executionId = some e ∧ s.owned k.runToken k.fenceEpoch = true ∧
      e.status.held = true ∧ e.owned k.runToken k.fenceEpoch = true ∧ live e.leaseUntil (c.utc 1) = true ∧
      OnBoth db db' k.jobName ((renewLockWrite l (c.utc 0)).run s) k.executionId ((renewWrite l (c.utc 1)).run e) := by
  obtain ⟨_, _, h₁, h⟩ := Tx.bind_ok.1 h
  obtain ⟨s, hs, ho, rfl⟩ := casState_ok h₁
  obtain ⟨e, he, hg, rfl⟩ := casExec_ok h
  simp only [Bool.and_eq_true, decide_eq_true_eq] at hg
  exact ⟨s, e, hs, he, ho, hg.1.1.1, hg.1.2, hg.2, (OnState.of_set hs _).exec (.of_set he _)⟩

theorem renew_commit {k : Holder} {l : Int} {u : Unit} (h : renew c k l db = .ok (u, db')) :
    Commit env c db (.renew k l) db' := by
  obtain ⟨s, e, hs, he, ho, hh, hrow, hl, hf⟩ := renew_ok h
  exact .renew hs he ho (.renew (DB.exec?_id he) hh hrow hl) hf

theorem ExecRow.unaccepted_iff {e : ExecRow} {t : String} {n : Nat} :
    e.unaccepted t n = true ↔ e.status = .dispatching ∧ e.owned t n = true := by
  simp [ExecRow.unaccepted]

theorem accept_commit {i : Nat} {t : String} {n : Nat} {l : Int} {u : Unit} (h : accept c i t n l db = .ok (u, db')) :
    Commit env c db (.accept i t n l) db' := by
  obtain ⟨e, he, hg, rfl⟩ := casExec_ok h
  have hst : e.status.held = true := by rw [(ExecRow.unaccepted_iff.1 hg).1]; rfl
  exact .exec he (.accept (DB.exec?_id he) hg) hst.symm (Status.not_terminal_of_held hst) rfl rfl rfl (.of_set he _)

theorem retarget_commit {k : Holder} {x : String} {u : Unit} (h : retarget k x db = .ok (u, db')) :
    Commit env c db (.retarget k x) db' := by
  obtain ⟨e, he, hg, rfl⟩ := casExec_ok h
  have hst : e.status.terminal = false := by rw [(ExecRow.unaccepted_iff.1 hg).1]; rfl
  exact .exec he (.retarget (DB.exec?_id he) hg) rfl hst hst rfl rfl (.of_set he _)

theorem extendDeadline_commit {k : Holder} {l : Int} {u : Unit} (h : extendDeadline c k l db = .ok (u, db')) :
    Commit env c db (.extendDeadline k l) db' := by
  obtain ⟨e, he, hg, rfl⟩ := casExec_ok h
  have hst : e.status.terminal = false := Status.not_terminal_of_held (ExecRow.reportable_iff.1 hg).1
  exact .exec he (.extend (DB.exec?_id he) hg) rfl hst hst rfl rfl (.of_set he _)

theorem Status.held_of_cancellable {s : Status} (h : s.cancellable = true) : s.held = true := by
  cases s <;> simp_all [Status.cancellable, Status.held]

theorem requestCancel_commit {i : Nat} {x y : String} {u : Unit} (h : requestCancel c i x y db = .ok (u, db')) :
    Commit env c db (.requestCancel i x y) db' := by
  obtain ⟨_, h⟩ := check_ok h
  replace h := Tx.get_bind_ok.1 h
  cases he₀ : db.exec? i with
  | none => simp [he₀] at h
  | some e₀ =>
    simp only [he₀] at h
    obtain ⟨_, _, h₂, h⟩ := Tx.bind_ok.1 h
    obtain ⟨e, he, hg, rfl⟩ := casExec_ok h₂
    obtain ⟨a, rfl⟩ := audit_ok h
    have hst := Status.held_of_cancellable hg
    exact .exec he (.cancel (DB.exec?_id he) hg) hst.symm (Status.not_terminal_of_held hst) rfl rfl rfl
      ((OnExec.of_set he _).audit a)

/-! ## Claim -/

/-- How most transactions begin: they lock the job and read its definition. -/
theorem locked_ok {α : Type} {j : String} {f : StateRow → Definition → StoreM α} {r : α} (h : (do
      let s ← lockState c j
      let d ← readDefinition j
      f s d : StoreM α) db = .ok (r, db')) :
    ∃ s d, db.state? j = some s ∧ db.def? j = some d ∧ f s d.toDefinition db = .ok (r, db') := by
  obtain ⟨s, _, h₁, h⟩ := Tx.bind_ok.1 h
  obtain ⟨hs, rfl⟩ := lockState_ok h₁
  obtain ⟨_, _, h₂, h⟩ := Tx.bind_ok.1 h
  obtain ⟨⟨d, hd, rfl⟩, rfl⟩ := readDefinition_ok h₂
  exact ⟨s, d, hs, hd, h⟩

/-- **Every way a claim ends**, from the rows it read. -/
inductive ClaimCase (c : Ctx) (p : ClaimParams) (r : Runnable) (db : DB) (s : StateRow) (d : DefinitionRow)
    (e : ExecRow) : ClaimResult → DB → Prop
  | expired {x} (hx : x.outcome = .expired) (hs : e.status = .ready) (hcap : past e.timeoutAt (c.utc 2) = true) :
      ClaimCase c p r db s d e x (db.setExec p.executionId (expireWrite c))
  | deferred {x u db'} (hx : x.outcome = .deferred)
      (h : deferCandidate c p.executionId p.backoffSeconds db = .ok (u, db')) : ClaimCase c p r db s d e x db'
  | skipped {x u db'} (summary : String) (hx : x.outcome = .skipped) (hforbid : d.concurrency = .forbid)
      (hl : s.held = true) (hs : e.status = .ready) (hm : e.manualFirst = false)
      (h : settlePollClock c p.jobName p.executionId (db.setExec p.executionId (skipWrite c summary)) = .ok (u, db')) :
      ClaimCase c p r db s d e x db'
  | acquired (hrun : r db d.toDefinition s = .ok ()) (hfree : s.activeKind = none) (hs : e.status = .ready)
      (hb : e.attemptNo < e.maxAttempts) (hcap : past e.timeoutAt (c.utc 2) = false) :
      ClaimCase c p r db s d e ⟨.acquired, s.fenceEpoch + 1, d.toDefinition, none⟩
        ((db.setState p.jobName (acquireWrite p (s.fenceEpoch + 1) (d.toDefinition.lease.tdiv second)
          (c.utc 3))).setExec p.executionId (dispatchWrite p (s.fenceEpoch + 1) (d.toDefinition.lease.tdiv second)
          (d.toDefinition.timeout.tdiv second) (c.utc 4)))

section claim

variable {p : ClaimParams} {r : Runnable} {x : ClaimResult} {s : StateRow} {d : DefinitionRow} {e : ExecRow}

theorem ClaimCase.of_defer {y : ClaimResult} (hy : y.outcome = .deferred)
    (h : (deferCandidate c p.executionId p.backoffSeconds >>= fun _ => pure y) db = .ok (x, db')) :
    ClaimCase c p r db s d e x db' := by
  obtain ⟨_, _, h₁, h⟩ := Tx.bind_ok.1 h
  obtain ⟨rfl, rfl⟩ := Prod.mk.inj (Tx.pure_ok.1 h)
  exact .deferred hy h₁

theorem applyContention_ok (he : db.exec? p.executionId = some e) (hl : s.held = true)
    (h : applyContention c p d.toDefinition s db = .ok (x, db')) : ClaimCase c p r db s d e x db' := by
  rcases Tx.ite_ok.1 h with ⟨hforbid, h⟩ | ⟨_, h⟩
  · obtain ⟨manual, _, h₁, h⟩ := Tx.bind_ok.1 h
    replace h₁ := Tx.get_bind_ok.1 h₁
    simp only [he, Tx.pure_ok, Prod.mk.injEq] at h₁
    obtain ⟨rfl, rfl⟩ := h₁
    rcases Tx.ite_ok.1 h with ⟨_, h⟩ | ⟨hm, h⟩
    · exact .of_defer rfl h
    · obtain ⟨_, _, h₃, h⟩ := Tx.bind_ok.1 h
      obtain ⟨_, _, h₄, h⟩ := Tx.bind_ok.1 h
      obtain ⟨rfl, rfl⟩ := Prod.mk.inj (Tx.pure_ok.1 h)
      obtain ⟨e', he', hg, rfl⟩ := mustExec_ok h₃
      obtain rfl : e = e' := Option.some.inj (he.symm.trans he')
      exact .skipped _ rfl hforbid hl (by simpa using hg) (by simpa using hm) h₄
  · exact .of_defer rfl h

theorem acquire_ok (hs : db.state? p.jobName = some s) (he : db.exec? p.executionId = some e)
    (hcap : past e.timeoutAt (c.utc 2) = false) (hrun : r db d.toDefinition s = .ok ())
    (h : acquire c p d.toDefinition s db = .ok (x, db')) : ClaimCase c p r db s d e x db' := by
  obtain ⟨_, _, h₁, h⟩ := Tx.bind_ok.1 h
  obtain ⟨_, _, h₂, h⟩ := Tx.bind_ok.1 h
  obtain ⟨rfl, rfl⟩ := Prod.mk.inj (Tx.pure_ok.1 h)
  obtain ⟨s', hs', hg, rfl⟩ := mustState_ok h₁
  obtain rfl : s = s' := Option.some.inj (hs.symm.trans hs')
  obtain ⟨e', he', hg', rfl⟩ := mustExec_ok h₂
  obtain rfl : e = e' := Option.some.inj (he.symm.trans he')
  simp only [Bool.and_eq_true, decide_eq_true_eq] at hg'
  have hfree : s.activeKind = none := Option.isNone_iff_eq_none.1 (Bool.and_eq_true_iff.1 hg).2
  exact .acquired hrun hfree hg'.1.2 hg'.2 hcap

/-- **A committed claim, unpacked**: the rows it read, which agree with the candidate it was given, and how it ended. -/
theorem claim_ok (h : claim c p r db = .ok (x, db')) :
    ∃ s d e, db.state? p.jobName = some s ∧ db.def? p.jobName = some d ∧ db.exec? p.executionId = some e ∧
      e.jobName = p.jobName ∧ e.executionKey = p.executionKey ∧ ClaimCase c p r db s d e x db' := by
  obtain ⟨s, d, hs, hd, h⟩ := locked_ok h
  obtain ⟨cur, _, h₃, h⟩ := Tx.bind_ok.1 h
  obtain ⟨⟨e, he, rfl⟩, rfl⟩ := lockExecution_ok h₃
  obtain ⟨hid, h⟩ := check_ok h
  obtain ⟨hj, hk⟩ : e.jobName = p.jobName ∧ e.executionKey = p.executionKey := by
    simpa [ExecRow.toStale] using hid
  refine ⟨s, d, e, hs, hd, he, hj, hk, ?_⟩
  rcases Tx.ite_ok.1 h with ⟨hcap, h⟩ | ⟨hcap, h⟩
  · obtain ⟨_, _, h₄, h⟩ := Tx.bind_ok.1 h
    obtain ⟨rfl, rfl⟩ := Prod.mk.inj (Tx.pure_ok.1 h)
    obtain ⟨e', he', hg, rfl⟩ := mustExec_ok h₄
    obtain rfl : e = e' := Option.some.inj (he.symm.trans he')
    exact .expired rfl (by simpa using hg) hcap
  · have hcap : past e.timeoutAt (c.utc 2) = false := by simpa [ExecRow.toStale] using hcap
    rcases Tx.ite_ok.1 h with ⟨_, h⟩ | ⟨_, h⟩
    · exact .of_defer rfl h
    · replace h := Tx.get_bind_ok.1 h
      cases hrun : r db d.toDefinition s with
      | error err =>
        simp only [hrun] at h
        rcases Tx.ite_ok.1 h with ⟨_, h⟩ | ⟨_, h⟩
        · simp at h
        · exact .of_defer rfl h
      | ok _ =>
        simp only [hrun] at h
        rcases Tx.ite_ok.1 h with ⟨hl, h⟩ | ⟨_, h⟩
        · exact applyContention_ok he hl h
        · exact acquire_ok hs he hcap hrun h

theorem claim_commit (h : claim c p r db = .ok (x, db')) : Commit env c db (.claim p r) db' := by
  obtain ⟨s, d, e, hs, -, he, hj, hk, h⟩ := claim_ok h
  have hi := DB.exec?_id he
  cases h with
  | expired _ hst hcap => exact .expire he (.expire hi hj hst hcap) rfl (.of_set he _)
  | deferred _ h =>
    rcases tryExec_ok h with ⟨e', he', hg, rfl⟩ | ⟨_, rfl⟩
    · have hst : e'.status = .ready := by simpa using hg
      have hlive : e'.status.terminal = false := by rw [hst]; rfl
      exact .exec he' (.defer (DB.exec?_id he') hst) rfl hlive hlive rfl rfl (.of_set he' _)
    · exact .idle (fun _ => rfl) (fun _ => rfl) (fun _ => rfl) (le_refl _)
  | skipped summary _ _ hl hst hm h =>
    obtain ⟨d', s', hd, hp, hf⟩ := (settlePollClock_ok h).onBoth
      ((OnState.of_same hs).exec (.of_set he _)) (DB.state?_jobName hs)
    exact .skip hd hs he (.skip _ hi hj hst hm) rfl (Option.isSome_iff_ne_none.1 hl) hp hf
  | acquired _ hfree hst hb hcap =>
    have he' : (db.setState p.jobName (acquireWrite p (s.fenceEpoch + 1) (d.toDefinition.lease.tdiv second)
      (c.utc 3))).exec? p.executionId = some e := he
    exact .acquire _ _ hs he hj hk hfree hst hb hcap ((OnState.of_set hs _).exec (.of_set he' _))

/-- What a granted claim read and wrote. -/
structure Granted (c : Ctx) (p : ClaimParams) (r : Runnable) (db db' : DB) (x : ClaimResult) (s : StateRow)
    (d : DefinitionRow) (e : ExecRow) : Prop where
  state   : db.state? p.jobName = some s
  def_    : db.def? p.jobName = some d
  exec    : db.exec? p.executionId = some e
  free    : s.activeKind = none
  ready   : e.status = .ready
  runs    : r db d.toDefinition s = .ok ()
  answer  : x = ⟨.acquired, s.fenceEpoch + 1, d.toDefinition, none⟩
  state'  : db'.state? p.jobName =
    some ((acquireWrite p x.fenceEpoch (x.definition.lease.tdiv second) (c.utc 3)).run s)
  exec'   : db'.exec? p.executionId = some ((dispatchWrite p x.fenceEpoch (x.definition.lease.tdiv second)
    (x.definition.timeout.tdiv second) (c.utc 4)).run e)

/-- **A claim that says it acquired the job did.** -/
theorem claim_granted (h : claim c p r db = .ok (x, db')) (hx : x.outcome = .acquired) :
    ∃ s d e, Granted c p r db db' x s d e := by
  obtain ⟨s, d, e, hs, hd, he, -, -, h⟩ := claim_ok h
  have other : ∀ {o : ClaimOutcome}, x.outcome = o → o ≠ .acquired → ∃ s d e, Granted c p r db db' x s d e :=
    fun ho hne => absurd (ho.symm.trans hx) hne
  cases h with
  | expired ho => exact other ho (by simp)
  | deferred ho => exact other ho (by simp)
  | skipped _ ho => exact other ho (by simp)
  | acquired hrun hfree hst =>
    refine ⟨s, d, e, hs, hd, he, hfree, hst, hrun, rfl, ?_, ?_⟩
    · simp [hs]
    · simp [he]

end claim

end GoJob
