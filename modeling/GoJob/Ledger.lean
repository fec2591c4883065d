import GoJob.Epochs
import GoJob.WorkQueue
/-!
# Ledger — the store is a queue of leased work

Executions are the tasks of a work queue and jobs its lanes: a ready execution waits, one with a holder is held by its
run token, and a terminal one is done.  Every transaction of the store is a few steps of that queue, and which ones
they may be is a table over the calls (`Action.Does`).  The queue's ledger is then the store's: the tokens that were
granted for an execution are, in order, those that closed it and the one that holds it.
-/
namespace GoJob

open Rel Sys

variable {env : Env} {c : Ctx} {a : Action} {db db' : DB} {w w' : World} {l : Action × Ctx} {e e' : ExecRow}

/-! ## The queue a schema is -/

def ExecRow.phase (e : ExecRow) : Phase String Status :=
  if e.status.terminal then .done e.status
  else if e.status.held then .held (e.runToken.getD "") e.fenceEpoch
  else .waiting

def ExecRow.task (e : ExecRow) : Task String String Status := ⟨e.jobName, e.phase⟩

/-- Executions are tasks, jobs are lanes, and a lane changes hands with its epoch. -/
def DB.queue (db : DB) : WorkQueue Nat String String Status where
  task i := (db.exec? i).map ExecRow.task
  grants j := (db.lock j).epoch

/-- Only a dead execution may be revived. -/
abbrev QueueStep := WorkQueue.Step (ι := Nat) (κ := String) (τ := String) (ο := Status) (· = .dead)

abbrev StoreOp := QueueOp Nat String String Status

theorem ExecRow.phase_terminal (h : e.status.terminal = true) : e.phase = .done e.status := if_pos h

theorem ExecRow.phase_held (h : e.status.held = true) : e.phase = .held (e.runToken.getD "") e.fenceEpoch := by
  have hopen : ¬ e.status.terminal = true := fun ht => by
    rw [Status.not_held_of_terminal ht] at h; cases h
  rw [ExecRow.phase, if_neg hopen, if_pos h]

theorem ExecRow.phase_ready (h : e.status = .ready) : e.phase = .waiting := by
  simp [ExecRow.phase, h, Status.terminal, Status.held]

theorem ExecRow.phase_cases (e : ExecRow) : (e.status.terminal = true ∧ e.phase = .done e.status) ∨
    (e.status.held = true ∧ e.phase = .held (e.runToken.getD "") e.fenceEpoch) ∨
    (e.status = .ready ∧ e.phase = .waiting) := by
  cases hs : e.status <;> simp [ExecRow.phase, hs, Status.terminal, Status.held]

theorem DB.queue_task {i : Nat} (he : db.exec? i = some e) : db.queue.task i = some e.task := by
  simp [DB.queue, he]

theorem DB.queue_same (hx : ∀ k, (db'.exec? k).map ExecRow.task = (db.exec? k).map ExecRow.task)
    (hl : ∀ j, (db'.lock j).epoch = (db.lock j).epoch) : db'.queue = db.queue := by
  simp only [DB.queue, hx, hl]

theorem DB.queue_set {i : Nat} (hx : ∀ k, db'.exec? k = if k = i then some e' else db.exec? k)
    (hl : ∀ j, (db'.lock j).epoch = (db.lock j).epoch) : db'.queue = db.queue.set i (some e'.task) :=
  WorkQueue.ext_set (fun k => by simp only [DB.queue, hx k]; split <;> rfl) (funext hl)

theorem DB.queue_grant {i : Nat} {j : String} {s s' : StateRow} (hs : db.state? j = some s)
    (hf : OnBoth db db' j s' i e') (hn : s'.fenceEpoch = s.fenceEpoch + 1) :
    db'.queue = (db.queue.grant j).set i (some e'.task) := by
  refine WorkQueue.ext_set (fun k => ?_) (funext fun k => ?_)
  · simp only [DB.queue, hf.execs k, WorkQueue.task_grant]
    split <;> rfl
  · show (db'.lock k).epoch = Function.update (fun j => (db.lock j).epoch) j _ k
    by_cases hk : k = j
    · subst hk
      rw [Function.update_self, DB.lock_of_state hf.state?, hn]
      simp [DB.queue, DB.lock_of_state hs]
    · rw [Function.update_of_ne hk, DB.lock, DB.lock, hf.states, if_neg hk]

/-- A lane whose state row is free has no held task. -/
theorem Agree.free_lane (h : Agree db) {j : String} {s : StateRow} (hs : db.state? j = some s)
    (hk : s.activeKind = none) : db.queue.Free j := by
  intro i t n ht
  obtain ⟨e, he, htask⟩ := Option.map_eq_some_iff.1 ht
  obtain ⟨rfl, hp⟩ := Task.mk.inj htask
  rcases e.phase_cases with ⟨-, h₁⟩ | ⟨hh, -⟩ | ⟨-, h₁⟩
  · rw [h₁] at hp; cases hp
  · obtain ⟨s', hs', hes⟩ := h.held i e he hh
    obtain rfl := Option.some.inj (hs.symm.trans hs')
    exact hes.kind hk
  · rw [h₁] at hp; cases hp

/-! ## What each call may do to it -/

/-- The job a call can make an execution of. -/
def Action.posts : Action → Option String
  | .materializeCron j _ _ | .materializePoll j _ _ | .trigger j _ _ _ _ => some j
  | _ => none

/-- **What a committed call may do to the queue.** -/
inductive Action.Does : Action → List StoreOp → Prop
  | nothing {b} : Does b []
  | claim {p r} : Does (.claim p r) [.take p.executionId p.runToken]
  | expire {p r} : Does (.claim p r) [.drop p.executionId .dead]
  | skip {p r} : Does (.claim p r) [.drop p.executionId .skipped]
  | adopt {v o lease silence promote} : Does (.adopt v o lease silence promote) [.handOver v.id]
  | giveBack {b q} (hb : b.closing = some q) : Does b [.giveBack q.executionId q.runToken]
  | finish {b q o} (hb : b.closing = some q) (ho : o.terminal = true) : Does b [.finish q.executionId q.runToken o]
  | post {b i j} (hb : b.posts = some j) : Does b [.post i j]
  | retire {j x y} (L : List Nat) : Does (.retire j x y) (L.map (QueueOp.drop · .cancelled))
  | revive {j k x y i} : Does (.authorizedRetry j k x y) [.revive i]
  | reap {s o n} (L : List Nat) : Does (.reapExecutions s o n) (L.map QueueOp.forget)

/-- The token a claim of execution `i` was granted with, if the step is one that acquired it. -/
def claimedToken (i : Nat) (x : World × (Action × Ctx) × World) : Option String :=
  match x.2.1.1 with
  | .claim p r =>
    match claim x.2.1.2 p r x.1.db with
    | .ok (y, _) => if p.executionId = i ∧ y.outcome = .acquired then some p.runToken else none
    | .error _   => none
  | _ => none

/-- The token with which execution `i` was closed, if the step is a call that closes it and was not refused. -/
def closedToken (env : Env) (i : Nat) (x : World × (Action × Ctx) × World) : Option String :=
  match x.2.1.1.closing with
  | some q => if q.executionId = i ∧ (x.2.1.1.tx env x.2.1.2 x.1.db).isOk then some q.runToken else none
  | none   => none

/-- The queue operations a step stands for: ones its call may do, which take and close what its answer says. -/
structure Carries (env : Env) (x : World × (Action × Ctx) × World) (ops : List StoreOp) : Prop where
  does   : x.2.1.1.Does ops
  taken  : ∀ i, ops.filterMap (·.taken i) = (claimedToken i x).toList
  closed : ∀ i, ops.filterMap (·.closed i) = (closedToken env i x).toList

/-! ## Every transaction -/

/-- A step that neither claims nor closes, carried by operations that neither take nor close. -/
theorem Carries.plain {x : World × (Action × Ctx) × World} {ops : List StoreOp} (hd : x.2.1.1.Does ops)
    (ht : ∀ i, claimedToken i x = none) (hc : ∀ i, closedToken env i x = none)
    (ho : ∀ op ∈ ops, op.taker? = none ∧ op.closer? = none) : Carries env x ops where
  does := hd
  taken i := by
    rw [ht i]
    refine List.filterMap_eq_nil_iff.2 (fun op hop => ?_)
    rw [QueueOp.taken, (ho op hop).1, ite_self]
  closed i := by
    rw [hc i]
    refine List.filterMap_eq_nil_iff.2 (fun op hop => ?_)
    rw [QueueOp.closed, (ho op hop).2, ite_self]

theorem closedToken_of_error {err : Err} (h : l.1.tx env l.2 w.db = .error err) (i : Nat) :
    closedToken env i (w, l, w') = none := by
  rw [closedToken]
  cases l.1.closing with
  | none => rfl
  | some q => exact if_neg (by rw [h]; simp [Except.isOk, Except.toBool])

theorem claimedToken_of_error {err : Err} (h : l.1.tx env l.2 w.db = .error err) (i : Nat) :
    claimedToken i (w, l, w') = none := by
  obtain ⟨a, c⟩ := l
  cases a with
  | claim p r => simp [claimedToken, show claim c p r w.db = _ from unit_error.1 h]
  | _ => rfl

theorem claimedToken_of_other (h : ∀ p r, a ≠ .claim p r) (i : Nat) : claimedToken i (w, (a, c), w') = none := by
  cases a with
  | claim p r => exact absurd rfl (h p r)
  | _ => rfl

/-- Some steps of the queue carry the step. -/
def Carried (env : Env) (w : World) (l : Action × Ctx) (w' : World) : Prop :=
  ∃ atr, Run QueueStep w.db.queue atr w'.db.queue ∧ Carries env (w, l, w') (atr.map (·.2.1))

theorem Carried.one {o : StoreOp} {q : WorkQueue Nat String String Status} (hq : w'.db.queue = q)
    (h : QueueStep w.db.queue o q) (hc : Carries env (w, l, w') [o]) : Carried env w l w' :=
  ⟨_, .single (hq ▸ h), hc⟩

theorem Carried.none_of_same (hq : w'.db.queue = w.db.queue) (ht : ∀ i, claimedToken i (w, l, w') = none)
    (hc : ∀ i, closedToken env i (w, l, w') = none) : Carried env w l w' :=
  ⟨[], hq ▸ .nil, .plain .nothing ht hc (by simp)⟩

/-- **A closing call gives its execution back or finishes it**, as the holder it names. -/
theorem Closes.carried {a : Action} {c : Ctx} (h : Closes c w.db a w'.db) (hst : Step env w (a, c) w')
    (hok : (a.tx env c w.db).isOk = true) : Carried env w (a, c) w' := by
  have hcommit := hst.commit
  obtain ⟨ls, lf, ha, -, hs, he, ho, hr, hm, hp, hf, -⟩ := h
  rename_i q d s s' e e'
  have hl : ∀ j, (w'.db.lock j).epoch = (w.db.lock j).epoch := fun j => hcommit.lock_epoch (by
    cases a with
    | claim | adopt => cases ha
    | _ => rfl)
  have hother : ∀ p r, a ≠ .claim p r := fun _ _ h => by rw [h] at ha; cases ha
  obtain ⟨hheld, hfree⟩ := hm.closed ha
  have hjob : e'.jobName = e.jobName := by rw [hm.info]
  have htask : w.db.queue.task q.executionId = some ⟨e.jobName, .held q.runToken e.fenceEpoch⟩ := by
    rw [DB.queue_task he, ExecRow.task, ExecRow.phase_held hheld, (ExecRow.owned_iff.1 hr).1]
    rfl
  have hclosed : ∀ i, closedToken env i (w, (a, c), w') = if q.executionId = i then some q.runToken else none :=
    fun i => by simp [closedToken, ha, hok]
  have carries : ∀ op : StoreOp, op.target = q.executionId → op.taker? = none → op.closer? = some q.runToken →
      a.Does [op] → Carries env (w, (a, c), w') [op] := fun op h₁ h₂ h₃ h₄ =>
    { does := h₄
      taken := fun i => by simp [claimedToken_of_other hother, QueueOp.taken, h₂]
      closed := fun i => by
        rw [hclosed, List.filterMap_cons, QueueOp.closed, h₁, h₃]
        split <;> simp_all }
  rcases e'.phase_cases with ⟨hterm, hphase⟩ | ⟨hh, -⟩ | ⟨-, hphase⟩
  · refine .one (o := .finish q.executionId q.runToken e'.status) (DB.queue_set hf.execs hl) ?_
      (carries _ rfl rfl rfl (.finish ha hterm))
    rw [ExecRow.task, hphase, hjob]
    exact .finish htask
  · rw [hfree] at hh; cases hh
  · refine .one (o := .giveBack q.executionId q.runToken) (DB.queue_set hf.execs hl) ?_
      (carries _ rfl rfl rfl (.giveBack ha))
    rw [ExecRow.task, hphase, hjob]
    exact .giveBack htask

theorem Action.closes_of_closing {q : Closing} {u : Unit} (h : a.tx env c db = .ok (u, db')) (ha : a.closing = some q) :
    Closes c db a db' := by
  rcases Action.ending_of_closing ha with ⟨p, n, rfl⟩ | ⟨k, hk, -⟩
  · exact refuse_closes h
  · exact a.closes_of_ok h hk

section claim

variable {p : ClaimParams} {r : Runnable}

/-- **A claim takes its execution, drops it or leaves the queue as it was.** -/
theorem claim_carried {x : ClaimResult} (h : claim c p r w.db = .ok (x, w'.db)) (hagree : Agree w.db) :
    Carried env w (.claim p r, c) w' := by
  have hrefused : x.outcome ≠ .acquired → (∀ i, claimedToken i (w, (.claim p r, c), w') = none) ∧
      ∀ j, (w'.db.lock j).epoch = (w.db.lock j).epoch := fun hx =>
    ⟨fun i => by simp [claimedToken, h, hx], fun j => by rw [(claim_lockKept h hx j).lock]⟩
  obtain ⟨s, d, e, hs, -, he, hj, -, hcase⟩ := claim_ok h
  have dropped : ∀ e' : ExecRow, x.outcome ≠ .acquired → e.status = .ready →
      (∀ k, w'.db.exec? k = if k = p.executionId then some e' else w.db.exec? k) → e'.jobName = e.jobName →
      e'.status.terminal = true → Action.Does (.claim p r) [.drop p.executionId e'.status] →
      Carried env w (.claim p r, c) w' := by
    intro e' hx hs hexecs hj hterm hd
    obtain ⟨ht, hl⟩ := hrefused hx
    refine .one (DB.queue_set hexecs hl) ?_ (.plain hd ht (fun _ => rfl) (by simp [QueueOp.taker?, QueueOp.closer?]))
    rw [ExecRow.task, ExecRow.phase_terminal hterm, hj]
    exact .drop (by rw [DB.queue_task he, ExecRow.task, ExecRow.phase_ready hs])
  generalize hdb : w'.db = db' at hcase
  cases hcase with
  | expired hx hst _ =>
    exact dropped ((expireWrite c).run e) (by simp [hx]) hst (by rw [hdb]; exact (OnExec.of_set he _).execs) rfl rfl
      .expire
  | skipped summary hx _ _ hst _ h =>
    obtain ⟨_, _, -, -, hf⟩ := (settlePollClock_ok h).onBoth ((OnState.of_same hs).exec (.of_set he _))
      (DB.state?_jobName hs)
    exact dropped ((skipWrite c summary).run e) (by simp [hx]) hst (by rw [hdb]; exact hf.execs) rfl rfl .skip
  | deferred hx h =>
    obtain ⟨ht, hl⟩ := hrefused (by simp [hx])
    refine .none_of_same (DB.queue_same (fun k => ?_) hl) ht (fun _ => rfl)
    rw [hdb]
    rcases tryExec_ok h with ⟨e₁, he₁, hg, rfl⟩ | ⟨-, rfl⟩
    · obtain rfl := Option.some.inj (he.symm.trans he₁)
      have hst : e.status = .ready := by simpa using hg
      rw [(OnExec.of_set he _).execs]
      split
      · rename_i hk
        rw [hk, he]
        show some (ExecRow.task _) = some _
        rw [ExecRow.task, ExecRow.task, ExecRow.phase_ready hst, ExecRow.phase_ready (by exact hst)]
        rfl
      · rfl
    · rfl
  | acquired _ hfree hst _ _ =>
    have he' : (w.db.setState p.jobName (acquireWrite p (s.fenceEpoch + 1) (d.toDefinition.lease.tdiv second)
      (c.utc 3))).exec? p.executionId = some e := he
    have hf := (OnState.of_set hs _).exec (.of_set he' (dispatchWrite p (s.fenceEpoch + 1)
      (d.toDefinition.lease.tdiv second) (d.toDefinition.timeout.tdiv second) (c.utc 4)))
    have hn : w.db.queue.grants p.jobName = s.fenceEpoch := by simp [DB.queue, DB.lock_of_state hs]
    rw [← hdb] at hf
    refine .one (o := .take p.executionId p.runToken) (DB.queue_grant hs hf rfl) ?_
      { does := .claim, taken := fun i => ?_, closed := fun i => ?_ }
    · rw [ExecRow.task, ExecRow.phase_held (by rfl), ← hn, ← hj]
      exact .take (by rw [DB.queue_task he, ExecRow.task, ExecRow.phase_ready hst]) (hj ▸ hagree.free_lane hs hfree)
    · by_cases hi : p.executionId = i <;> simp [claimedToken, h, QueueOp.taken, QueueOp.target, QueueOp.taker?, hi]
    · simp [closedToken, Action.closing, QueueOp.closed, QueueOp.closer?]

end claim

theorem closedToken_of_other (h : a.closing = none) (i : Nat) : closedToken env i (w, (a, c), w') = none := by
  simp [closedToken, h]

/-- The rows a commit removes or ends one by one. -/
def DB.idsWhere (db : DB) (p : ExecRow → Bool) : List Nat := (db.executions.table.rows.filter p).map (·.id)

theorem DB.idsWhere_nodup (db : DB) (p : ExecRow → Bool) : (db.idsWhere p).Nodup :=
  db.executions.table.nodup.sublist (List.filter_sublist.map _)

theorem DB.mem_idsWhere {p : ExecRow → Bool} {i : Nat} :
    i ∈ db.idsWhere p ↔ ∃ e, db.exec? i = some e ∧ p e = true := by
  constructor
  · intro h
    obtain ⟨e, he, rfl⟩ := List.mem_map.1 h
    obtain ⟨he, hp⟩ := List.mem_filter.1 he
    exact ⟨e, DB.mem_iff.1 he, hp⟩
  · rintro ⟨e, he, hp⟩
    obtain rfl := DB.exec?_id he
    exact List.mem_map_of_mem (List.mem_filter.2 ⟨DB.mem_iff.2 he, hp⟩)

/-- **Retiring a job drops its ready executions**, one after the other. -/
theorem retire_drops {j x y : String} (hl : ∀ j, (db'.lock j).epoch = (db.lock j).epoch)
    (hrows : ∀ i e, db.exec? i = some e → ∃ e', db'.exec? i = some e' ∧
      ((e' = e ∧ (e.jobName = j → e.status.terminal = true ∨ e.status = .cancelRequested)) ∨
        ExecMove c (.retire j x y) e e'))
    (hnew : ∀ i, db.exec? i = none → db'.exec? i = none) :
    ∃ atr, Run QueueStep db.queue atr db'.queue ∧ atr.map (·.2.1) = List.map (QueueOp.drop · .cancelled)
      (db.idsWhere (fun e => decide (e.status = .ready) && decide (e.jobName = j))) := by
  refine WorkQueue.run_each _ (db.idsWhere_nodup _) (funext hl) (fun i hi => ?_) (fun i hi p hp => ?_)
  · cases he : db.exec? i with
    | none => simp [DB.queue, he, hnew i he]
    | some e =>
      obtain ⟨e', he', ⟨rfl, -⟩ | hm⟩ := hrows i e he
      · rw [DB.queue_task he, DB.queue_task he']
      · rw [DB.queue_task he, DB.queue_task he']
        cases hm with
        | retireReady hj hs => exact absurd (DB.mem_idsWhere.2 ⟨e, he, by simp [hs, hj]⟩) hi
        | retireHeld hj hs =>
          rw [ExecRow.task, ExecRow.task, ExecRow.phase_held (Status.held_of_cancellable hs),
            ExecRow.phase_held (by rfl)]
          rfl
  · obtain ⟨e, he, hready⟩ := DB.mem_idsWhere.1 hi
    obtain ⟨hs, hj⟩ : e.status = .ready ∧ e.jobName = j := by simpa using hready
    rw [DB.queue_task he, ExecRow.task, ExecRow.phase_ready hs] at hp
    obtain ⟨e', he', ⟨rfl, hkept⟩ | hm⟩ := hrows i e he
    · rcases hkept hj with h | h <;> · rw [hs] at h; cases h
    · cases hm with
      | retireReady =>
        rw [DB.queue_task he', ExecRow.task, ExecRow.phase_terminal (by rfl)]
        exact .drop hp
      | retireHeld _ h => rw [hs] at h; cases h

/-- **Retention forgets executions that are done**, one after the other. -/
theorem reap_forgets {s o : Instant} (hl : ∀ j, (db'.lock j).epoch = (db.lock j).epoch)
    (hrows : ∀ i e, db.exec? i = some e → db'.exec? i = some e ∨ (db'.exec? i = none ∧ e.expired s o = true))
    (hnew : ∀ i, db.exec? i = none → db'.exec? i = none) :
    ∃ atr, Run QueueStep db.queue atr db'.queue ∧
      atr.map (·.2.1) = List.map QueueOp.forget (db.idsWhere (fun e => (db'.exec? e.id).isNone)) := by
  refine WorkQueue.run_each _ (db.idsWhere_nodup _) (funext hl) (fun i hi => ?_) (fun i hi p hp => ?_)
  · cases he : db.exec? i with
    | none => simp [DB.queue, he, hnew i he]
    | some e =>
      rcases hrows i e he with he' | ⟨he', -⟩
      · rw [DB.queue_task he, DB.queue_task he']
      · exact absurd (DB.mem_idsWhere.2 ⟨e, he, by rw [DB.exec?_id he, he']; rfl⟩) hi
  · obtain ⟨e, he, hgone⟩ := DB.mem_idsWhere.1 hi
    rw [DB.exec?_id he, Option.isNone_iff_eq_none] at hgone
    rcases hrows i e he with he' | ⟨-, hexp⟩
    · rw [hgone] at he'; cases he'
    · rw [DB.queue_task he, ExecRow.task, ExecRow.phase_terminal (ExecRow.terminal_of_expired hexp)] at hp
      have hnone : db'.queue.task i = none := by simp [DB.queue, hgone]
      rw [hnone]
      exact .forget hp

/-- **An adoption hands the execution over**: its lane changes hands and it has the new number. -/
theorem adopt_handsOver {v : Stale} {o : String} {lease silence : Int} {promote : Bool} {s s' : StateRow}
    {issued : List String} (hinv : HolderInv db issued) (hs : db.state? v.jobName = some s)
    (he : db.exec? v.id = some e) (ho : s.owned v.runToken v.fenceEpoch = true)
    (hm : ExecMove c (.adopt v o lease silence promote) e e') (hn : s'.fenceEpoch = v.fenceEpoch + 1)
    (hf : OnBoth db db' v.jobName s' v.id e') :
    QueueStep db.queue (.handOver v.id) db'.queue := by
  obtain ⟨htok, hepoch⟩ := StateRow.owned_iff.1 ho
  have hgrants : db.queue.grants v.jobName = v.fenceEpoch := by
    rw [← hepoch]; exact congrArg Lock.epoch (DB.lock_of_state hs)
  rw [DB.queue_grant hs hf (by rw [hn, hepoch])]
  cases hm with
  | adopt hi hheld hrow =>
    obtain ⟨hj, -, -⟩ := hinv.holder hs htok he (ExecRow.owned_iff.1 hrow).1
    have hheld' : (adoptWrite c o (v.fenceEpoch + 1) lease silence (promote && decide (e.status = .dispatching))
        (c.utc 3) |>.run e).status.held = true := by
      simp only [adoptWrite]
      split
      · rfl
      · exact hheld
    have htask : db.queue.task v.id = some ⟨v.jobName, .held (e.runToken.getD "") e.fenceEpoch⟩ := by
      rw [DB.queue_task he, ExecRow.task, ExecRow.phase_held hheld, hj]
    have hstep : QueueStep _ _ _ := .handOver htask
    rw [hgrants, ← hj] at hstep
    rw [ExecRow.task, ExecRow.phase_held hheld', ← hj]
    exact hstep

/-- **Every other call** posts, hands over, drops, revives or forgets, or leaves the queue as it was. -/
theorem Commit.carried (h : Commit env c w.db a w'.db) (hinv : HolderInv w.db w.issued) (hclose : a.closing = none)
    (hclaim : ∀ p r, a ≠ .claim p r) : Carried env w (a, c) w' := by
  have ht : ∀ i, claimedToken i (w, (a, c), w') = none := claimedToken_of_other hclaim
  have hc : ∀ i, closedToken env i (w, (a, c), w') = none := closedToken_of_other hclose
  have unlocked : (∀ k, LockKept (w.db.state? k) (w'.db.state? k)) →
      ∀ j, (w'.db.lock j).epoch = (w.db.lock j).epoch := fun hl j => by rw [(hl j).lock]
  have same : (∀ k, w'.db.exec? k = w.db.exec? k) → (∀ k, LockKept (w.db.state? k) (w'.db.state? k)) →
      Carried env w (a, c) w' := fun hx hl => .none_of_same (DB.queue_same (fun k => by rw [hx k]) (unlocked hl)) ht hc
  have kept : ∀ {i : Nat} {e e' : ExecRow}, w.db.exec? i = some e →
      (∀ k, w'.db.exec? k = if k = i then some e' else w.db.exec? k) → e'.task = e.task →
      (∀ k, LockKept (w.db.state? k) (w'.db.state? k)) → Carried env w (a, c) w' := by
    intro i e e' he hf hte hl
    refine .none_of_same (DB.queue_same (fun k => ?_) (unlocked hl)) ht hc
    rw [hf k]
    split
    · rename_i hk
      rw [hk, he, Option.map_some, Option.map_some, hte]
    · rfl
  have plain : ∀ (op : StoreOp) {q : WorkQueue Nat String String Status}, w'.db.queue = q →
      QueueStep w.db.queue op q → a.Does [op] → op.taker? = none ∧ op.closer? = none → Carried env w (a, c) w' :=
    fun _ _ hq h hd ho => .one hq h (.plain hd ht hc (by simpa using ho))
  cases h with
  | idle _ hs hx => exact same hx (.of_eq hs)
  | exec he hm hl hopen hlive htok hn hf =>
    refine kept he hf.execs ?_ (.of_eq hf.states)
    rw [ExecRow.task, ExecRow.task, ExecRow.phase, ExecRow.phase, hm.info, hopen, hlive, hl, htok, hn]
    simp
  | expire => exact absurd rfl (hclaim _ _)
  | acquire => exact absurd rfl (hclaim _ _)
  | skip => exact absurd rfl (hclaim _ _)
  | close hcl =>
    obtain ⟨_, _, ha, -⟩ := hcl
    rw [hclose] at ha; cases ha
  | renew hs he ho hm hf => exact kept he hf.execs rfl (.of_set hs (by rfl) hf.states)
  | clock hd hs hm hf => exact same hf.execs (.of_set hs hm.lockCols hf.states)
  | pause hs hf => exact same hf.execs (.of_set hs (by rfl) hf.states)
  | catalog hcat => exact same (catalog_exec? hcat) (.of_catalog hcat)
  | adopt hs he ho hl hm hf => exact plain _ rfl (adopt_handsOver hinv hs he ho hm rfl hf) .adopt ⟨rfl, rfl⟩
  | create hd hs hj hm hi hk hf =>
    have hq := DB.queue_set hf.execs (unlocked (.of_set hs hm.lockCols hf.states))
    rw [ExecRow.task, ExecRow.phase_ready hm.fresh.status] at hq
    exact plain _ hq (.post (by simp [DB.queue, DB.exec?_eq_none_of_lt hi])) (.post (by cases hm <;> rfl)) ⟨rfl, rfl⟩
  | revive hd hr he hm hf =>
    cases hm with
    | revive hkey hj hdead =>
      have hq := DB.queue_set hf.execs (unlocked (.of_eq hf.states))
      rw [ExecRow.task, ExecRow.phase_ready (by rfl)] at hq
      have htask := DB.queue_task he
      rw [ExecRow.task, ExecRow.phase_terminal (by rw [hdead]; rfl)] at htask
      exact plain _ hq (.revive htask hdead) .revive ⟨rfl, rfl⟩
  | retire hd hr hdefs hstates hrows hnew =>
    obtain ⟨atr, hrun, hops⟩ := retire_drops (unlocked (.of_eq hstates)) hrows hnew
    exact ⟨atr, hrun, hops ▸ .plain (.retire _) ht hc (by simp [QueueOp.taker?, QueueOp.closer?])⟩
  | reap hdefs hstates hrows hnew =>
    obtain ⟨atr, hrun, hops⟩ := reap_forgets (unlocked (.of_eq hstates)) hrows hnew
    exact ⟨atr, hrun, hops ▸ .plain (.reap _) ht hc (by simp [QueueOp.taker?, QueueOp.closer?])⟩

/-- **Every step of the store is a few steps of the queue**, ones its call may do. -/
theorem Step.carried (hst : Step env w l w') (hinv : HolderInv w.db w.issued) : Carried env w l w' := by
  obtain ⟨a, c⟩ := l
  rcases Tx.commit_cases (a.tx env c) w.db with ⟨err, herr, hsame⟩ | ⟨u, hok⟩
  · have hdb : w'.db = w.db := hst.db.trans hsame
    exact .none_of_same (by rw [hdb]) (claimedToken_of_error herr) (closedToken_of_error herr)
  · have hok : a.tx env c w.db = .ok (u, w'.db) := by rw [hok, hst.db]
    cases hclose : a.closing with
    | some q => exact (a.closes_of_closing hok hclose).carried hst (by rw [hok]; rfl)
    | none =>
      by_cases hclaim : ∃ p r, a = .claim p r
      · obtain ⟨p, r, rfl⟩ := hclaim
        obtain ⟨x, hx⟩ := unit_ok hok
        exact claim_carried hx hinv.toAgree
      · push Not at hclaim
        exact hst.commit.carried hinv hclose hclaim

/-- **The store refines the queue.** -/
theorem store_refines (env : Env) : Refines (Step env) (fun w => HolderInv w.db w.issued) (fun w => w.db.queue)
    QueueStep (Carries env) where
  inv _ _ _ h hst := h.step hst
  simulates _ _ _ h hst := hst.carried h

/-! ## The refinement and the ledger -/

section run

variable {u : Utc} {tr : History}

/-- **Every run of the store is a run of the queue**, block by block. -/
theorem store_run_of_queue (hr : Run (Step env) (World.init u) tr w) :
    ∃ blocks, Run QueueStep WorkQueue.empty blocks.flatten w.db.queue ∧
      List.Forall₂ (fun x b => Carries env x (b.map (·.2.1))) tr blocks :=
  (store_refines env).run .init hr

/-- The run in which the pass is claimed, refused and claimed again. -/
theorem store_run_of_queue_reclaimed :
    ∃ blocks, Run QueueStep WorkQueue.empty blocks.flatten
        ((World.init 0).play bareEnv (claimedPass ++ reclaimedPass)).db.queue ∧
      List.Forall₂ (fun x b => Carries bareEnv x (b.map (·.2.1)))
        ((World.init 0).trace bareEnv (claimedPass ++ reclaimedPass)) blocks :=
  store_run_of_queue (World.run_play bareEnv (claimedPass ++ reclaimedPass) (World.init 0) (by decide))

/-- The token of the attempt that holds execution `i`. -/
def DB.heldToken (db : DB) (i : Nat) : Option String :=
  (db.exec? i).bind (fun e => if e.status.held then e.runToken else none)

theorem HolderInv.queue_holder {issued : List String} (h : HolderInv db issued) (i : Nat) :
    db.queue.holder? i = db.heldToken i := by
  cases he : db.exec? i with
  | none => simp [WorkQueue.holder?, DB.queue, DB.heldToken, he]
  | some e =>
    rw [WorkQueue.holder?, DB.queue_task he, DB.heldToken, he]
    show e.phase.holder? = if e.status.held then e.runToken else none
    rcases e.phase_cases with ⟨ht, hp⟩ | ⟨hh, hp⟩ | ⟨hr, hp⟩
    · rw [hp, Status.not_held_of_terminal ht]; rfl
    · obtain ⟨s, -, hes⟩ := h.held i e he hh
      obtain ⟨t, ht⟩ := Option.ne_none_iff_exists'.1 hes.some_
      rw [hp, hh, ht]; rfl
    · rw [hp, hr]; rfl

/-- The ledger between two moments. -/
theorem ledger_between (hinv : HolderInv w.db w.issued) (hr : Run (Step env) w tr w') (i : Nat) :
    (w.db.heldToken i).toList ++ tr.filterMap (claimedToken i) =
      tr.filterMap (closedToken env i) ++ (w'.db.heldToken i).toList := by
  have hinv' : HolderInv w'.db w'.issued :=
    Run.invariant (I := fun w => HolderInv w.db w.issued) hinv (fun _ _ _ h hst => h.step hst) hr
  obtain ⟨blocks, hrun, hall⟩ := (store_refines env).run hinv hr
  rw [← filterMap_blocks (hall.imp fun _ _ h => h.taken i), ← filterMap_blocks (hall.imp fun _ _ h => h.closed i),
    ← hinv.queue_holder i, ← hinv'.queue_holder i]
  exact WorkQueue.ledger hrun i

/-- **The tokens granted for an execution are those that closed it, in order, and then its holder's.** -/
theorem token_ledger (hr : Run (Step env) (World.init u) tr w) (i : Nat) :
    tr.filterMap (claimedToken i) = tr.filterMap (closedToken env i) ++ (w.db.heldToken i).toList :=
  ledger_between .init hr i

end run

/-- Two tokens were granted; the first one closed the execution and the second one holds it. -/
theorem token_ledger_reclaimed :
    ((World.init 0).trace bareEnv (claimedPass ++ reclaimedPass)).filterMap (claimedToken 1) = ["t1", "t2"] :=
  (token_ledger (World.run_play bareEnv (claimedPass ++ reclaimedPass) (World.init 0) (by decide)) 1).trans
    (by decide +kernel)

end GoJob
