import GoJob.Expiry
import GoJob.Passes
/-!
# Failures — when a call reports a protocol violation

A statement that must apply and does not is a protocol violation.  For each call this module says what keeps that from
happening: the calls of the holder check everything they rely on, recovery needs its row to be the one it saw, and a
claim or a refusal needs its row to be in the status it is about to leave.
-/
namespace GoJob

open Rel Tx

variable {env : Env} {c : Ctx} {db : DB} {w : World}

/-- Every failure but a protocol violation. -/
def NotProtocol (err : Err) : Prop := err.kind ≠ .protocol

theorem MovedOn.notProtocol {err : Err} (h : MovedOn err) : NotProtocol err := by
  unfold NotProtocol
  rcases h with h | h | h <;> rw [h] <;> decide

namespace NotProtocol

theorem contended (detail : String) : NotProtocol ⟨.contended, detail⟩ := fun h => by cases h

theorem fenced (detail : String) : NotProtocol ⟨.fenced, detail⟩ := fun h => by cases h

theorem missing (detail : String) : NotProtocol ⟨.missingState, detail⟩ := fun h => by cases h

theorem other (detail : String) : NotProtocol ⟨.other, detail⟩ := fun h => by cases h

end NotProtocol

theorem Definition.delay_notProtocol {d : Definition} {err : Err} (h : d.delay = .error err) : NotProtocol err := by
  unfold Definition.delay at h
  cases hk : d.scheduleKind with
  | cron => simp [hk] at h
  | fixedDelay =>
    simp only [hk] at h
    cases hp : parseInt d.scheduleExpr with
    | none =>
      simp only [hp, Except.error.injEq] at h
      rw [← h]
      exact .other _
    | some ms =>
      simp only [hp] at h
      split at h
      · rw [← Except.error.inj h]
        exact .other _
      · cases h

/-- Every state row has its definition. -/
def DB.Defined (db : DB) : Prop := ∀ j s, db.state? j = some s → ∃ d, db.def? j = some d

/-! ## The calls of the holder -/

theorem recordAttempt_notProtocol {k : Holder} {o : Outcome} : FailsOnly NotProtocol (recordAttempt c k o) db := by
  unfold recordAttempt
  refine .after (get_run db) ?_
  cases db.exec? k.executionId with
  | none => exact .throws (.other _)
  | some e => exact .of_ok rfl

theorem settlePollClock_notProtocol {j : String} {i : Nat} {d : DefinitionRow} (hd : db.def? j = some d) :
    FailsOnly NotProtocol (settlePollClock c j i) db :=
  settlePollClock_failsOnly hd fun _ h => Definition.delay_notProtocol h

theorem accept_notProtocol (i : Nat) (t : String) (n : Nat) (sil : Int) :
    FailsOnly NotProtocol (accept c i t n sil) db :=
  casExec_failsOnly (.fenced _)

theorem retarget_notProtocol (k : Holder) (x : String) : FailsOnly NotProtocol (retarget k x) db :=
  casExec_failsOnly (.fenced _)

theorem renew_notProtocol (k : Holder) (l : Int) : FailsOnly NotProtocol (renew c k l) db :=
  (casState_failsOnly (.fenced _)).seq
    fun _ _ _ => casExec_failsOnly (.fenced _)

/-- A result is written under the holder's own guards. -/
theorem report_notProtocol (hdef : db.Defined) (k : Holder) (b : Bool) (o : Outcome) {g : ExecRow → Bool}
    {x : ExecWrite} {detail : String} :
    FailsOnly NotProtocol (do
      releaseJobLock c k b
      chargeUnacceptedAttempt c k
      casExec k.executionId g x .fenced detail
      recordAttempt c k o
      settlePollClock c k.jobName k.executionId) db := by
  refine (casState_failsOnly (.fenced _)).seq fun _ db₁ h₁ => ?_
  obtain ⟨s, hs, -, rfl⟩ := casState_ok h₁
  obtain ⟨d, hd⟩ := hdef _ s hs
  refine tryExec_failsOnly.seq fun _ db₂ h₂ => ?_
  have hd₂ : db₂.def? k.jobName = some d := by
    rcases tryExec_ok h₂ with ⟨_, -, -, rfl⟩ | ⟨-, rfl⟩
    · simpa using hd
    · simpa using hd
  refine (casExec_failsOnly (.fenced _)).seq fun _ db₃ h₃ => ?_
  obtain ⟨_, -, -, rfl⟩ := casExec_ok h₃
  refine recordAttempt_notProtocol.seq fun _ db₄ h₄ => ?_
  obtain ⟨_, -, rfl⟩ := recordAttempt_ok h₄
  exact settlePollClock_notProtocol (by simpa using hd₂)

theorem complete_notProtocol (hdef : db.Defined) (k : Holder) {o : Outcome} (ht : o.status.terminal = true) :
    FailsOnly NotProtocol (complete c k o) db := by
  unfold complete
  refine .ite (fun h => ?_) fun _ => report_notProtocol hdef k _ _
  rw [ht] at h; cases h

theorem retry_notProtocol (hdef : db.Defined) (k : Holder) (o : Outcome) (b : Int) :
    FailsOnly NotProtocol (retry c k o b) db :=
  report_notProtocol hdef k _ _

/-! ## Recovery -/

/-- The end of an attempt somebody else writes off, once its row has been found. -/
theorem ending_notProtocol (hdef : db.Defined) {k : Holder} {s : StateRow} {e : ExecRow}
    (hs : db.state? k.jobName = some s) (he : db.exec? k.executionId = some e) {g : ExecRow → Bool} (hg : g e = true)
    (o : Outcome) {x : ExecWrite} {stmt : String} {α : Type} {f : StoreM α}
    (hf : ∀ db' d, db'.def? k.jobName = some d → FailsOnly NotProtocol f db') :
    FailsOnly NotProtocol (do
      releaseJobLock c k false
      mustExec k.executionId g x stmt
      recordAttempt c k o
      f) db := by
  obtain ⟨d, hd⟩ := hdef _ s hs
  refine (casState_failsOnly (.fenced _)).seq fun _ db₁ h₁ => ?_
  obtain ⟨_, -, -, rfl⟩ := casState_ok h₁
  refine .after (mustExec_run (show (db.setState k.jobName _).exec? k.executionId = some e from he) hg) ?_
  refine recordAttempt_notProtocol.seq fun _ db₂ h₂ => ?_
  obtain ⟨_, -, rfl⟩ := recordAttempt_ok h₂
  exact hf _ d (by simpa using hd)

section recovery

variable (hinv : HolderInv w.db w.issued) (hdef : w.db.Defined)

include hinv hdef

theorem fenceTimedOut_notProtocol {P : Utc → ExecRow → Prop} {v : Stale}
    (hsight : Sighted P v.id v.runToken v.fenceEpoch w) : FailsOnly NotProtocol (fenceTimedOut c v) w.db := by
  unfold fenceTimedOut
  refine hsight.located_failsOnly hinv (fun _ h => h.notProtocol) (fun _ => .missing _)
    fun s e hs he hj hh ho hso hp => ?_
  refine .ite (fun _ => .throws (.contended _)) fun _ =>
    .ite (fun _ => .throws (.contended _)) fun _ => ?_
  exact ending_notProtocol (k := v.holder) hdef hs he (by rw [hh, ho]; rfl) _
    fun db' d hd => settlePollClock_notProtocol hd

theorem expireSilent_notProtocol {v : Stale} (hsight : Sighted Taken v.id v.runToken v.fenceEpoch w) :
    FailsOnly NotProtocol (expireSilent c v) w.db := by
  unfold expireSilent
  refine hsight.located_failsOnly hinv (fun _ h => h.notProtocol) (fun _ => .missing _)
    fun s e hs he hj hh ho hso hp => ?_
  refine .ite (fun _ => .throws (.contended _)) fun _ =>
    .ite (fun _ => .throws (.contended _)) fun _ => ?_
  refine ending_notProtocol (k := v.holder) hdef hs he ?_ _ fun db' d hd => settlePollClock_notProtocol hd
  -- A held row that was accepted is running or being cancelled.
  have hrun : (decide (e.status = .running) || decide (e.status = .cancelRequested)) = true := by
    unfold Taken at hp
    cases hst : e.status <;> rw [hst] at hh hp
    all_goals first | rfl | exact absurd rfl hp | cases hh
  rw [hrun, ho]
  rfl

theorem releaseAsOwner_notProtocol {P : Utc → ExecRow → Prop} {k : Holder}
    (hsight : Sighted P k.executionId k.runToken k.fenceEpoch w) : FailsOnly NotProtocol (releaseAsOwner c k) w.db := by
  unfold releaseAsOwner
  refine hsight.located_failsOnly hinv (fun _ h => h.notProtocol) (fun _ => .missing _)
    fun s e hs he hj hh ho hso hp => ?_
  refine .ite (fun _ => .throws (.contended _)) fun _ =>
    .ite (fun _ => .throws (.contended _)) fun _ => ?_
  exact ending_notProtocol hdef hs he (by rw [hh, ho]; rfl) _
    fun db' d hd => (settlePollClock_notProtocol hd).seq fun _ _ _ => .returns _

end recovery

/-! ## Refusals -/

/-- The lock is still held under the pair, but the row is no longer waiting for its executor. -/
def LateRefusal (db : DB) (p : ClaimParams) (n : Nat) : Prop :=
  ∃ s e, db.state? p.jobName = some s ∧ s.owned p.runToken n = true ∧ db.exec? p.executionId = some e ∧
    e.status ≠ .dispatching

/-- **A refusal is a protocol violation exactly when it is late.** -/
theorem refuse_protocol_iff {P : Utc → ExecRow → Prop} (hinv : HolderInv w.db w.issued) (hdef : w.db.Defined)
    {p : ClaimParams} {n : Nat} (hsight : Sighted P p.executionId p.runToken n w) :
    (∃ err, refuse c p n w.db = .error err ∧ err.kind = .protocol) ↔ LateRefusal w.db p n := by
  have located : ∀ s, w.db.state? p.jobName = some s → s.owned p.runToken n = true →
      ∃ e, w.db.exec? p.executionId = some e ∧ e.owned p.runToken n = true := by
    intro s hs ho
    obtain ⟨ht, hn⟩ := StateRow.owned_iff.1 ho
    have hheld : s.held = true := by
      rw [StateRow.held, Option.isSome_iff_ne_none]
      intro hfree
      rw [hinv.free _ s hs hfree] at ht; cases ht
    obtain ⟨e, he, -, -, heo, -⟩ := hsight.found hinv hs (by simp [StateRow.stillHeld, hheld, ht, hn])
    exact ⟨e, he, heo⟩
  constructor
  · rintro ⟨err, herr, hkind⟩
    by_contra hlate
    refine (show FailsOnly NotProtocol (refuse c p n) w.db from ?_) err herr hkind
    unfold refuse
    refine (casState_failsOnly (.fenced _)).seq fun _ db₁ h₁ => ?_
    obtain ⟨s, hs, ho, rfl⟩ := casState_ok h₁
    obtain ⟨e, he, heo⟩ := located s hs ho
    obtain ⟨d, hd⟩ := hdef _ s hs
    have hdisp : e.status = .dispatching := not_not.1 fun hne => hlate ⟨s, e, hs, ho, he, hne⟩
    refine .after (mustExec_run (show (w.db.setState p.jobName _).exec? p.executionId = some e from he)
      (by simp [ExecRow.unaccepted, hdisp, heo])) ?_
    exact settlePollClock_notProtocol (d := d) (by simpa using hd)
  · rintro ⟨s, e, hs, ho, he, hne⟩
    refine ⟨_, (bind_of_ok (casState_run hs ho)).trans (bind_of_error (mustExec_fails fun e₁ he₁ => ?_)), rfl⟩
    obtain rfl : e = e₁ := Option.some.inj (he.symm.trans he₁)
    simp [ExecRow.unaccepted, hne]

/-! ## Claims -/

/-- The candidate is there but no longer `ready`, and the claim would act on it rather than put it off: its cap has
passed, or the job is runnable and neither paused nor held by an occurrence it queues behind. -/
def LateClaim (db : DB) (c : Ctx) (p : ClaimParams) (r : Runnable) : Prop :=
  ∃ s d e, db.state? p.jobName = some s ∧ c.busy p.jobName = false ∧ db.def? p.jobName = some d ∧
    db.exec? p.executionId = some e ∧ e.status ≠ .ready ∧
    (past e.timeoutAt (c.utc 2) = true ∨
      (s.opsPaused = false ∧ r db d.toDefinition s = .ok () ∧
        (s.held = true → d.concurrency = .forbid ∧ e.manualFirst = false)))

/-- The row is the candidate the scan returned. -/
def Candidate.Names (x : Candidate) (db : DB) : Prop :=
  ∀ e, db.exec? x.id = some e → e.jobName = x.jobName ∧ e.executionKey = x.executionKey

def ClaimParams.candidate (p : ClaimParams) : Candidate := ⟨p.executionId, p.jobName, p.executionKey⟩

section claims

variable {p : ClaimParams} {r : Runnable} {s : StateRow} {d : DefinitionRow} {e : ExecRow}
  (hs : db.state? p.jobName = some s) (hd : db.def? p.jobName = some d) (he : db.exec? p.executionId = some e)

include hd he in
theorem applyContention_notProtocol
    (hready : d.concurrency = .forbid → e.manualFirst = false → e.status = .ready) :
    FailsOnly NotProtocol (applyContention c p d.toDefinition s) db := by
  have queue : ∀ x : ClaimResult, FailsOnly NotProtocol (do
      deferCandidate c p.executionId p.backoffSeconds
      return x) db := fun x => tryExec_failsOnly.seq fun _ _ _ => .returns x
  unfold applyContention
  refine .ite (fun hforbid => ?_) fun _ => queue _
  have hmanual : isManual p.executionId db = .ok (e.manualFirst, db) := by
    refine (bind_of_ok (get_run db)).trans ?_
    rw [he]
    rfl
  refine .after hmanual (.ite (fun _ => queue _) fun hm => ?_)
  have hstatus := hready hforbid (by simpa using hm)
  refine .after (mustExec_run he (by simp [hstatus])) ?_
  exact (settlePollClock_notProtocol (d := d) (by simpa using hd)).seq fun _ _ _ => .returns _

include hs he in
theorem acquire_notProtocol (hp : s.opsPaused = false) (hfree : s.held = false) (hj : e.jobName = p.jobName)
    (hstatus : e.status = .ready) (hbudget : e.attemptNo < e.maxAttempts) :
    FailsOnly NotProtocol (acquire c p d.toDefinition s) db := by
  unfold acquire
  refine .after (mustState_run hs ?_) ?_
  · have hkind : s.activeKind = none := by simpa [StateRow.held] using hfree
    simp [hp, hkind]
  · exact .after (mustExec_run (show (db.setState p.jobName _).exec? p.executionId = some e from he)
      (by simp [hj, hstatus, hbudget])) (.returns _)

include hs hd he in
/-- A claim that acts on a row that is not `ready` finds nothing to write. -/
theorem claim_protocol_of_late (hj : e.jobName = p.jobName) (hk : e.executionKey = p.executionKey)
    (hbusy : c.busy p.jobName = false) (hstatus : e.status ≠ .ready)
    (hacts : past e.timeoutAt (c.utc 2) = true ∨ (s.opsPaused = false ∧ r db d.toDefinition s = .ok () ∧
      (s.held = true → d.concurrency = .forbid ∧ e.manualFirst = false))) :
    ∃ err, claim c p r db = .error err ∧ err.kind = .protocol := by
  have notReady : ∀ e₁, db.exec? p.executionId = some e₁ → decide (e₁.status = .ready) = false := by
    intro e₁ he₁
    obtain rfl : e = e₁ := Option.some.inj (he.symm.trans he₁)
    simpa using hstatus
  have hid : ¬ ((e.toStale (c.utc 2)).jobName ≠ p.jobName ∨ (e.toStale (c.utc 2)).executionKey ≠ p.executionKey) := by
    simp [ExecRow.toStale, hj, hk]
  unfold claim
  rw [bind_of_ok (lockState_run hs hbusy), bind_of_ok (readDefinition_run hd), bind_of_ok (lockExecution_run he),
    if_neg hid]
  by_cases hcap : (e.toStale (c.utc 2)).timeoutExpired = true
  · rw [if_pos hcap]
    exact ⟨_, bind_of_error (mustExec_fails notReady), rfl⟩
  · obtain ⟨hp, hrun, hheld⟩ := hacts.resolve_left hcap
    rw [if_neg hcap, if_neg (by simp [hp]), bind_of_ok (get_run db), hrun]
    by_cases hl : s.held = true
    · obtain ⟨hforbid, hm⟩ := hheld hl
      have hmanual : isManual p.executionId db = .ok (false, db) := by
        refine (bind_of_ok (get_run db)).trans ?_
        rw [he, ← hm]
        rfl
      simp only [hl, if_true]
      unfold applyContention
      rw [if_pos (show d.toDefinition.concurrency = .forbid from hforbid), bind_of_ok hmanual]
      exact ⟨_, bind_of_error (mustExec_fails notReady), rfl⟩
    · simp only [hl]
      unfold acquire
      have hkind : s.activeKind = none := by simpa [StateRow.held] using hl
      rw [if_neg (by decide), bind_of_ok (mustState_run hs (by simp [hp, hkind]))]
      refine ⟨_, bind_of_error (mustExec_fails fun e₁ he₁ => ?_), rfl⟩
      have hno : decide (e₁.status = .ready) = false := notReady e₁ he₁
      simp [hno]

end claims

/-- **A claim of a row that was listed is a protocol violation exactly when it is late.** -/
theorem claim_protocol_iff (hdef : db.Defined) {p : ClaimParams} {r : Runnable} (hname : p.candidate.Names db)
    (hbudget : ∀ e, db.exec? p.executionId = some e → e.status = .ready → e.attemptNo < e.maxAttempts)
    (hr : ∀ d s err, r db d s = .error err → NotProtocol err) :
    (∃ err, claim c p r db = .error err ∧ err.kind = .protocol) ↔ LateClaim db c p r := by
  constructor
  · rintro ⟨err, herr, hkind⟩
    by_contra hlate
    refine (show FailsOnly NotProtocol (claim c p r) db from ?_) err herr hkind
    unfold claim
    refine (lockState_failsOnly (fun _ => .missing _) (.contended _)).seq fun s db₁ h₁ => ?_
    have hbusy : c.busy p.jobName = false := lockState_not_busy h₁
    obtain ⟨hs, rfl⟩ := lockState_ok h₁
    obtain ⟨d, hd⟩ := hdef _ s hs
    refine .after (readDefinition_run hd) ?_
    refine (lockExecution_fails (fun h => by cases h)).seq fun cur db₁ h₁ => ?_
    obtain ⟨⟨e, he, rfl⟩, rfl⟩ := lockExecution_ok h₁
    obtain ⟨hj, hk⟩ : e.jobName = p.jobName ∧ e.executionKey = p.executionKey := hname e he
    refine .ite (fun hid => ?_) fun _ => ?_
    · simp [ExecRow.toStale, hj, hk] at hid
    -- Whatever acts on the row finds it `ready`, or the claim would be late.
    have ready_of : (past e.timeoutAt (c.utc 2) = true ∨ (s.opsPaused = false ∧ r db d.toDefinition s = .ok () ∧
        (s.held = true → d.concurrency = .forbid ∧ e.manualFirst = false))) → e.status = .ready := fun hacts =>
      not_not.1 fun hne => hlate ⟨s, d, e, hs, hbusy, hd, he, hne, hacts⟩
    have deferred : ∀ x : ClaimResult, FailsOnly NotProtocol (do
        deferCandidate c p.executionId p.backoffSeconds
        return x) db := fun x => tryExec_failsOnly.seq fun _ _ _ => .returns x
    refine .ite (fun hcap => ?_) fun hcap => .ite (fun _ => deferred _) fun hp => ?_
    · exact .after (mustExec_run he (by simp [ready_of (Or.inl hcap)])) (.returns _)
    have hp : s.opsPaused = false := by simpa using hp
    refine .after (get_run db) ?_
    cases hrun : r db d.toDefinition s with
    | error err => exact .ite (fun _ => .throws (hr _ _ err hrun)) fun _ => deferred _
    | ok _ =>
      refine .ite (fun hl => ?_) fun hl => ?_
      · exact applyContention_notProtocol hd he fun hf hm => ready_of (Or.inr ⟨hp, hrun, fun _ => ⟨hf, hm⟩⟩)
      · have hstatus := ready_of (Or.inr ⟨hp, hrun, fun h => absurd h hl⟩)
        exact acquire_notProtocol hs he hp (by simpa using hl) hj hstatus (hbudget e he hstatus)
  · rintro ⟨s, d, e, hs, hbusy, hd, he, hne, hacts⟩
    obtain ⟨hj, hk⟩ : e.jobName = p.jobName ∧ e.executionKey = p.executionKey := hname e he
    exact claim_protocol_of_late hs hd he hj hk hbusy hne hacts

end GoJob
