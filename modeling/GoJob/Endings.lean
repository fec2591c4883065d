import GoJob.Handover
import GoJob.Sighted
/-!
# Endings — when a call that ends an attempt goes through

The calls that end an attempt from outside re-read the job and the row under the lock.  On a row that is still as it was
read, with the lease on the side the call needs, there is nothing left to refuse them but a stored delay that does not
parse, and that is an error of no sentinel's.
-/
namespace GoJob

open Rel Tx

variable {env : Env} {c : Ctx} {db : DB} {w w' : World} {e : ExecRow} {v : Stale} {z : Utc}

/-- An error that wraps no sentinel. -/
def Plain (err : Err) : Prop := err.kind = .other

theorem delay_plain {d : Definition} {err : Err} (h : d.delay = .error err) : Plain err := by
  unfold Definition.delay at h
  cases hk : d.scheduleKind with
  | cron => simp [hk] at h
  | fixedDelay =>
    cases hp : parseInt d.scheduleExpr with
    | none =>
      simp only [hk, hp, Except.error.injEq] at h
      rw [← h]
      rfl
    | some ms =>
      simp only [hk, hp] at h
      split at h
      · rw [← Except.error.inj h]
        rfl
      · cases h

theorem settlePollClock_plain {d : DefinitionRow} {j : String} {i : Nat} (hd : db.def? j = some d) :
    FailsOnly Plain (settlePollClock c j i) db :=
  settlePollClock_failsOnly hd fun _ herr => delay_plain herr

/-- **The calls that end somebody's attempt all end alike**, once the lock is given back. -/
theorem ending_failsOnly {P : Err → Prop} {k : Holder} {d : DefinitionRow} {lock : StoreM Unit} {y : StateWrite}
    (hlock : lock db = .ok ((), db.setState k.jobName y)) (hd : db.def? k.jobName = some d)
    (he : db.exec? k.executionId = some e) {g : ExecRow → Bool} (hg : g e = true) {o : Outcome} {x : ExecWrite}
    {stmt : String} {α : Type} {f : StoreM α} (hf : ∀ db', db'.def? k.jobName = some d → FailsOnly P f db') :
    FailsOnly P (do
      lock
      mustExec k.executionId g x stmt
      recordAttempt c k o
      f) db := by
  have he₁ : (db.setState k.jobName y).exec? k.executionId = some e := he
  have he₂ : ((db.setState k.jobName y).setExec k.executionId x).exec? k.executionId = some (x.run e) := by
    simp [he]
  refine .after hlock (.after (mustExec_run he₁ hg) (.after (recordAttempt_run he₂) (hf _ ?_)))
  simpa using hd

/-! ## A row that is held -/

/-- What there is to a row that is held, in a schema that can be reached. -/
structure HeldRow (w : World) (e : ExecRow) (s : StateRow) (d : DefinitionRow) (t : String) : Prop where
  exec  : w.db.exec? e.id = some e
  held  : e.status.held = true
  state : w.db.state? e.jobName = some s
  defn  : w.db.def? e.jobName = some d
  token : e.runToken = some t
  holds : Holds s e

theorem Reachable.heldRow (hr : Reachable env w) {i : Nat} (he : w.db.exec? i = some e) (hh : e.status.held = true) :
    ∃ s d t, HeldRow w e s d t := by
  obtain ⟨u, tr, hr⟩ := hr
  obtain ⟨s, hs, hes⟩ := (HolderInv.run hr).held i e he hh
  obtain ⟨d, hd⟩ := defined_run hr hs
  obtain ⟨t, ht⟩ := Option.ne_none_iff_exists'.1 hes.some_
  rw [← DB.exec?_id he] at he
  exact ⟨s, d, t, he, hh, hs, hd, ht, hes⟩

namespace HeldRow

variable {s : StateRow} {d : DefinitionRow} {t : String} (h : HeldRow w e s d t)

include h

theorem toStale_token (z : Utc) : (e.toStale z).runToken = t := by simp [ExecRow.toStale, h.token]

theorem owned (z : Utc) : e.owned (e.toStale z).runToken e.fenceEpoch = true :=
  ExecRow.owned_iff.2 ⟨h.token.trans (congrArg some (h.toStale_token z).symm), rfl⟩

theorem lock_owned (z : Utc) : s.owned (e.toStale z).runToken e.fenceEpoch = true :=
  StateRow.owned_iff.2 ⟨h.holds.token.trans (ExecRow.owned_iff.1 (h.owned z)).1, h.holds.epoch⟩

theorem stillHeld (z : Utc) : s.stillHeld (e.toStale z).runToken e.fenceEpoch = true := by
  have htok := (StateRow.owned_iff.1 (h.lock_owned z)).1
  simp [StateRow.stillHeld, StateRow.held, Option.isSome_iff_ne_none, h.holds.kind, htok, h.holds.epoch]

/-- **And they all start alike**: on a row that is still as it was read, they get as far as its columns. -/
theorem located (z : Utc) {P : Err → Prop} {detail : String} {u : Utc} {α : Type} {f : Stale → StoreM α}
    (hb : c.busy e.jobName = false) (hf : FailsOnly P (f (e.toStale u)) w.db) :
    FailsOnly P (do
      let s ← lockState c (e.toStale z).jobName
      if s.stillHeld (e.toStale z).runToken (e.toStale z).fenceEpoch = false then fail .contended detail
      else
        let cur ← lockExecution (e.toStale z).id u
        f cur) w.db := by
  refine .after (lockState_run h.state hb) (.ite (fun hn => ?_) fun _ => .after (lockExecution_run h.exec) hf)
  exact Bool.noConfusion ((h.stillHeld z).symm.trans hn)

/-- What is left after the checks of `Resolve`, `FenceTimedOut` and `ReleaseAsOwner`. -/
theorem ends {o : String} {lock : StoreM Unit} {y : StateWrite}
    (hlock : lock w.db = .ok ((), w.db.setState e.jobName y)) {out : Outcome} {x : ExecWrite} {stmt : String} {α : Type}
    {f : StoreM α} (hf : ∀ db', db'.def? e.jobName = some d → FailsOnly Plain f db') :
    FailsOnly Plain (do
      lock
      mustExec e.id (fun x => x.status.held && x.owned (e.toStale z).runToken e.fenceEpoch) x stmt
      recordAttempt c { (e.toStale z).holder with owner := o } out
      f) w.db :=
  ending_failsOnly (k := { (e.toStale z).holder with owner := o }) hlock h.defn h.exec
    (Bool.and_eq_true_iff.2 ⟨h.held, h.owned z⟩) hf

theorem releases (z : Utc) (o : String) (b : Bool) :
    releaseJobLock c { (e.toStale z).holder with owner := o } b w.db =
      .ok ((), w.db.setState e.jobName (releaseWrite c b)) :=
  casState_run h.state (h.lock_owned z)

/-- `Resolve`, once the job's lease is over. -/
theorem resolve_plain (hb : c.busy e.jobName = false) (hl : past s.leaseUntil (c.utc 2) = true) (b : Int) :
    FailsOnly Plain (resolve c (e.toStale z) b) w.db := by
  refine h.located z hb (.ite (fun hn => ?_) fun _ => .ite (fun hn => ?_) fun _ => ?_)
  · exact absurd hn (by simp [Stale.still, ExecRow.toStale])
  · exact Bool.noConfusion (hn.symm.trans (Status.not_terminal_of_held h.held))
  · refine h.ends (o := "") (mustState_run h.state (Bool.and_eq_true_iff.2 ⟨h.lock_owned z, hl⟩)) fun db' hd => ?_
    exact (settlePollClock_plain hd).seq fun _ _ _ => .returns _

/-- `FenceTimedOut`, whatever the lease and the cap. -/
theorem fenceTimedOut_plain (hb : c.busy e.jobName = false) : FailsOnly Plain (fenceTimedOut c (e.toStale z)) w.db := by
  refine h.located z hb (.ite (fun hn => ?_) fun _ => .ite (fun hn => ?_) fun _ => ?_)
  · exact absurd hn (by simp [Stale.still, ExecRow.toStale])
  · exact Bool.noConfusion (hn.symm.trans (Status.not_terminal_of_held h.held))
  · exact h.ends (h.releases z "" false) fun db' hd => settlePollClock_plain hd

/-- `Adopt`, once the job's lease is over: only the cap is in its way. -/
theorem adopt_capped (hb : c.busy e.jobName = false) (hl : past s.leaseUntil (c.utc 2) = true) (o : String)
    (l sil : Int) (p : Bool) :
    FailsOnly (fun err => err.kind = .capElapsed) (adopt c (e.toStale z) o l sil p) w.db := by
  refine h.located z hb (.ite (fun hn => ?_) fun _ => .ite (fun _ => .throws rfl) fun _ => ?_)
  · exact absurd hn (by simp [Stale.still, ExecRow.toStale])
  · refine .after (mustState_run h.state (Bool.and_eq_true_iff.2 ⟨h.lock_owned z, hl⟩)) ?_
    exact .after (mustExec_run (show (w.db.setState e.jobName _).exec? e.id = some e from h.exec)
      (Bool.and_eq_true_iff.2 ⟨h.held, h.owned z⟩)) (.returns _)

/-- `ReleaseAsOwner`, while the lease is live. -/
theorem releaseAsOwner_plain (hb : c.busy e.jobName = false) (hl : live e.leaseUntil (c.utc 1) = true) (o : String) :
    FailsOnly Plain (releaseAsOwner c { (e.toStale z).holder with owner := o }) w.db := by
  refine h.located z hb (.ite (fun hn => ?_) fun _ => .ite (fun hn => ?_) fun _ => ?_)
  · rcases hn with hn | hn
    · exact absurd hn (by simp [Stale.still, ExecRow.toStale, Stale.holder])
    · exact Bool.noConfusion (hn.symm.trans (Status.not_terminal_of_held h.held))
  · exact Bool.noConfusion (hl.symm.trans hn)
  · exact h.ends (h.releases z o false) fun db' hd => (settlePollClock_plain hd).seq fun _ _ _ => .returns _

end HeldRow

/-! ## Results -/

theorem apply_ending (k : Holder) (oc : ExecutionOutcome) (x : String) (b : Int) :
    (apply k oc x b).ending = some k := by
  unfold apply
  split <;> rfl

/-- A result its caller may report. -/
theorem DB.Reportable.apply_plain {u : Utc} {tr : History} {k : Holder} (h : w.db.Reportable k (c.utc 2))
    (hr : Sys.Run (Step env) (World.init u) tr w) (oc : ExecutionOutcome) (x : String) (b : Int) :
    FailsOnly Plain ((apply k oc x b).tx env c) w.db := by
  obtain ⟨⟨s, hs, ho⟩, e, he, hrep⟩ := h
  obtain ⟨d, hd⟩ := defined_run hr hs
  obtain ⟨bl, detail, htx⟩ := apply_tx env c k oc x b
  rw [htx]
  obtain ⟨db₁, heq, hf⟩ : ∃ db₁, result c k bl (oc.write c x b) (oc.toOutcome x).clipped detail w.db =
      settlePollClock c k.jobName k.executionId db₁ ∧ _ := result_reaches hs ho he hrep
  intro err herr
  exact settlePollClock_plain (show _ = some d by rw [hf.defs]; exact hd) err (heq.symm.trans herr)

/-! ## What the caller sees -/

/-- A call that could only fail plainly, and did not. -/
theorem answer_of_plain {l : Action × Ctx} (h : FailsOnly Plain (l.1.tx env l.2) w.db)
    (hn : ∀ err, answer env w l = .error err → ¬ Plain err) : answer env w l = .ok () := by
  cases hans : answer env w l with
  | ok u => rfl
  | error err => exact absurd (h err (answer_error hans)) (hn err hans)

/-- **What a call that ends an attempt does to the rows.** -/
theorem Step.ending_rows {a : Action} {k : Holder} (hst : Step env w (a, c) w') (ha : a.ending = some k)
    (hok : answer env w (a, c) = .ok ()) : ∃ e', e'.status.held = false ∧
      ∀ i, w'.db.exec? i = if i = k.executionId then some e' else w.db.exec? i := by
  obtain ⟨_, _, hq, _, _, _, _, _, hm, _, hf, -⟩ := a.closes_of_ok (hst.tx_ok hok) ha
  obtain rfl := Option.some.inj ((Action.closing_of_ending ha).symm.trans hq)
  exact ⟨_, (hm.closed hq).2, hf.execs⟩

end GoJob
