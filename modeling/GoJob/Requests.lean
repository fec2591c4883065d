import GoJob.TokenLife
/-!
# Requests — manual runs and their request ids (`admin.go`)

`Trigger` first looks for an execution that carries its request id.  If there is none it opens a transaction, whose
plain reads are answered from a snapshot, and inserts.  Two unique keys can stop the insertion; the loser then reads the
winner back by request id.  Calls for one request id may be at any of these points at once, for one job or for several.
-/
namespace GoJob

open Rel Tx

variable {env : Env} {c : Ctx} {db db' : DB} {u : Utc}

/-! ## The call -/

/-- A call of `Trigger`. -/
structure TriggerRequest where
  jobName   : String
  requestId : String
  actor     : String
  reason    : String
  params    : String
  deriving DecidableEq, Repr

/-- A plain read inside a transaction is answered from the transaction's snapshot. -/
def consistent {α : Type} (snap : DB) (x : StoreM α) : StoreM α := fun db => (x snap).map (fun r => (r.1, db))

/-- The part of `Trigger` before its transaction. -/
def TriggerRequest.look (q : TriggerRequest) : StoreM (Option String) :=
  if q.actor = "" ∨ q.reason = "" then
    fail .protocol "a manual trigger needs an actor and a reason"
  else if q.requestId = "" then
    fail .protocol "a manual trigger needs a request_id so a repeat cannot run it twice"
  else executionByRequest q.requestId q.jobName

/-- The transaction of `Trigger`. -/
def TriggerRequest.write (q : TriggerRequest) (env : Env) (c : Ctx) (snap : DB) : StoreM (Option String) := do
  let key := executionKey env "m" q.jobName q.requestId
  let _ ← lockState c q.jobName
  let d ← consistent snap (readDefinition q.jobName)
  if d.retired then
    fail .notRunnable ("job " ++ q.jobName.quote ++ " is retired")
  else
    let merged ← ofExcept (env.mergeParams d.params q.params)
    let created ← insertExecution {
      key := key
      jobName := q.jobName
      triggerType := .manual
      requestId := q.requestId
      scheduledAt := c.now
      availableAt := c.now
      maxAttempts := d.maxAttempts
      maxRecoveries := d.maxRecoveries
      params := merged }
    if created = false then
      match ← consistent snap (executionByRequest q.requestId q.jobName) with
      | none => fail .other ("read the winning execution for request " ++ q.requestId.quote)
      | some winner => return some winner
    else
      audit c q.actor "job_triggered" q.jobName (key.getD "") q.reason
      return key

theorem consistent_ok {α : Type} {snap : DB} {x : StoreM α} {a : α} (h : consistent snap x db = .ok (a, db')) :
    (∃ db₁, x snap = .ok (a, db₁)) ∧ db = db' := by
  unfold consistent at h
  cases hx : x snap with
  | error e => rw [hx] at h; cases h
  | ok r =>
    rw [hx] at h
    obtain ⟨rfl, rfl⟩ := Prod.mk.inj (Except.ok.inj h)
    exact ⟨⟨r.2, rfl⟩, rfl⟩

theorem consistent_self {α : Type} {x : StoreM α} (h : ∀ a db', x db = .ok (a, db') → db = db') :
    consistent db x db = x db := by
  unfold consistent
  cases hx : x db with
  | error e => rfl
  | ok r =>
    obtain ⟨a, db'⟩ := r
    obtain rfl := h a db' hx
    rfl

/-- **A call that is not interrupted is the transaction `trigger`.** -/
theorem TriggerRequest.write_eq_trigger {q : TriggerRequest} (ha : q.actor ≠ "") (hr : q.reason ≠ "")
    (hq : q.requestId ≠ "") :
    q.write env c db db = trigger env c q.jobName q.requestId q.actor q.reason q.params db := by
  unfold TriggerRequest.write trigger
  rw [if_neg (by simp [ha, hr]), if_neg hq]
  refine Tx.bind_agree rfl fun s db₁ h₁ => ?_
  obtain ⟨-, rfl⟩ := lockState_ok h₁
  refine Tx.bind_agree (consistent_self fun _ _ h => (readDefinition_ok h).2) fun d db₁ h₁ => ?_
  obtain ⟨-, rfl⟩ := readDefinition_ok h₁
  by_cases hret : d.retired = true
  · rw [if_pos hret, if_pos hret]
  rw [if_neg hret, if_neg hret]
  refine Tx.bind_agree rfl fun merged db₁ h₁ => ?_
  obtain ⟨-, rfl⟩ := ofExcept_ok h₁
  refine Tx.bind_agree rfl fun created db₁ h₁ => ?_
  obtain ⟨_, -, ⟨rfl, rfl, -⟩ | ⟨rfl, -⟩⟩ := insertExecution_ok h₁
  · exact Tx.bind_agree (consistent_self fun _ _ h => executionByRequest_ok h) fun _ _ _ => rfl
  · rfl

/-! ## Request ids -/

/-- **A request id names one row.** -/
theorem DB.request_inj {i k : Nat} {e x : ExecRow} {r : String} (he : db.exec? i = some e) (hx : db.exec? k = some x)
    (her : e.requestId = some r) (hxr : x.requestId = some r) : i = k := by
  have hnd := db.executions.requests
  rw [List.Nodup, List.pairwise_filterMap] at hnd
  have hsymm : Std.Symm (fun a a' : ExecRow => ∀ b, a.requestId = some b → ∀ b', a'.requestId = some b' → b ≠ b') :=
    ⟨fun _ _ h x hx y hy hxy => h y hy x hx hxy.symm⟩
  by_contra hne
  have hrows : e ≠ x := fun h => hne (by rw [← DB.exec?_id he, ← DB.exec?_id hx, h])
  exact hnd.forall (Table.mem_of_get? he) (Table.mem_of_get? hx) hrows r her r hxr rfl

/-- Some row carries the request id. -/
def DB.Requested (db : DB) (r : String) (i : Nat) (e : ExecRow) : Prop := db.exec? i = some e ∧ e.requestId = some r

theorem executionByRequest_some {r j : String} {k : String} (h : executionByRequest r j db = .ok (some k, db')) :
    ∃ i e, db.Requested r i e ∧ e.jobName = j ∧ e.executionKey = k := by
  replace h := Tx.get_bind_ok.1 h
  cases hx : db.executions.table.rows.find? (fun e => decide (e.requestId = some r)) with
  | none => simp [hx] at h
  | some e =>
    simp only [hx] at h
    obtain ⟨hj, h⟩ := check_ok h
    obtain ⟨hk, -⟩ := Prod.mk.inj (Tx.pure_ok.1 h)
    have hr : e.requestId = some r := by simpa using List.find?_some hx
    exact ⟨e.id, e, ⟨Table.get?_of_mem (List.mem_of_find?_eq_some hx), hr⟩, not_not.1 hj, Option.some.inj hk⟩

/-- A request id that was used for another job is refused. -/
theorem executionByRequest_conflict {r j : String} {i : Nat} {e : ExecRow} (he : db.Requested r i e)
    (hj : e.jobName ≠ j) : ∃ err, executionByRequest r j db = .error err := by
  cases h : executionByRequest r j db with
  | error err => exact ⟨err, rfl⟩
  | ok x =>
    obtain ⟨x, db₁⟩ := x
    cases x with
    | some k =>
      obtain ⟨k, x, hx, hxj, -⟩ := executionByRequest_some h
      obtain rfl := DB.request_inj he.1 hx.1 he.2 hx.2
      obtain rfl := Option.some.inj (he.1.symm.trans hx.1)
      exact absurd hxj hj
    | none =>
      replace h := Tx.get_bind_ok.1 h
      cases hx : db.executions.table.rows.find? (fun e => decide (e.requestId = some r)) with
      | none =>
        have hno := List.find?_eq_none.1 hx e (Table.mem_of_get? he.1)
        simp [he.2] at hno
      | some x =>
        simp only [hx] at h
        obtain ⟨-, h⟩ := check_ok h
        cases Tx.pure_ok.1 h

/-- What the transaction of `Trigger` does when it succeeds. -/
inductive Triggered (q : TriggerRequest) (snap db : DB) : Option String → DB → Prop
  | created {db' : DB} {i : Nat} {e : ExecRow} (hnew : db.executions.lastId < i) (hx : OnExec db db' i e)
      (hr : e.requestId = some q.requestId) (hj : e.jobName = q.jobName) : Triggered q snap db (some e.executionKey) db'
  | repeated {i : Nat} {e : ExecRow} (he : snap.Requested q.requestId i e) (hj : e.jobName = q.jobName) :
      Triggered q snap db (some e.executionKey) db

theorem TriggerRequest.write_ok {q : TriggerRequest} {snap : DB} {k : Option String} (hq : q.requestId ≠ "")
    (h : q.write env c snap db = .ok (k, db')) : Triggered q snap db k db' := by
  obtain ⟨_, _, h₁, h⟩ := Tx.bind_ok.1 h
  obtain ⟨-, rfl⟩ := lockState_ok h₁
  obtain ⟨d, _, h₂, h⟩ := Tx.bind_ok.1 h
  obtain ⟨-, rfl⟩ := consistent_ok h₂
  obtain ⟨-, h⟩ := check_ok h
  obtain ⟨merged, _, h₃, h⟩ := Tx.bind_ok.1 h
  obtain ⟨_, rfl⟩ := ofExcept_ok h₃
  obtain ⟨created, db₁, h₄, h⟩ := Tx.bind_ok.1 h
  obtain ⟨key, hkey, ⟨rfl, rfl, -⟩ | ⟨rfl, i, hi, -, hx⟩⟩ := insertExecution_ok h₄
  · simp only [if_true] at h
    obtain ⟨w, _, h₅, h⟩ := Tx.bind_ok.1 h
    obtain ⟨⟨_, hback⟩, rfl⟩ := consistent_ok h₅
    cases w with
    | none => simp at h
    | some w =>
      obtain ⟨rfl, rfl⟩ : some w = k ∧ db = db' := by simpa using h
      obtain ⟨i, e, he, hj, rfl⟩ := executionByRequest_some hback
      exact .repeated he hj
  · simp only [Bool.true_eq_false, if_false] at h
    obtain ⟨_, db₂, h₅, h⟩ := Tx.bind_ok.1 h
    obtain ⟨rfl, rfl⟩ : executionKey env "m" q.jobName q.requestId = k ∧ db₂ = db' := by simpa using h
    obtain ⟨a, rfl⟩ := audit_ok h₅
    have hkey : executionKey env "m" q.jobName q.requestId = some key := hkey
    rw [hkey]
    exact .created hi (hx.audit a) (by simp [NewExecution.row, nullString, hq]) rfl

/-! ## Any number of calls -/

/-- A schema, everything that has been committed to it, the calls that found no execution for their request id, and the
answers given. -/
structure Desk where
  world   : World
  past    : List DB
  waiting : List TriggerRequest
  replies : List (TriggerRequest × Except Err (Option String))

def Desk.init (u : Utc) : Desk := ⟨World.init u, [DB.empty], [], []⟩

/-- A call looks for its request id. -/
def Desk.looked (x : Desk) (q : TriggerRequest) : Desk :=
  match q.look x.world.db with
  | .ok (none, _)     => { x with waiting := q :: x.waiting }
  | .ok (some key, _) => { x with replies := (q, .ok (some key)) :: x.replies }
  | .error err        => { x with replies := (q, .error err) :: x.replies }

/-- A call that found none runs its transaction and returns. -/
def Desk.wrote (x : Desk) (env : Env) (q : TriggerRequest) (c : Ctx) (snap : DB) (z : Utc) : Desk :=
  let db' := (q.write env c snap).commit x.world.db
  ⟨{ x.world with db := db', utc := z }, db' :: x.past, x.waiting.erase q,
    (q, (q.write env c snap x.world.db).map Prod.fst) :: x.replies⟩

inductive DeskLabel
  | other (l : Action × Ctx)
  | look (q : TriggerRequest)
  | write (q : TriggerRequest) (c : Ctx) (snap : DB)

/-- The snapshot of a transaction is something that has been committed. -/
inductive DeskStep (env : Env) : Desk → DeskLabel → Desk → Prop
  | other {x : Desk} {l : Action × Ctx} {w' : World} (hst : Step env x.world l w') :
      DeskStep env x (.other l) { x with world := w', past := w'.db :: x.past }
  | look {x : Desk} (q : TriggerRequest) : DeskStep env x (.look q) (x.looked q)
  | write {x : Desk} {q : TriggerRequest} {c : Ctx} {snap : DB} {z : Utc} (hw : q ∈ x.waiting) (hs : snap ∈ x.past)
      (before : x.world.utc ≤ c.utc 0) (after : ∀ n, c.utc n ≤ z) :
      DeskStep env x (.write q c snap) (x.wrote env q c snap z)

/-- Nothing is reaped. -/
def Desk.Keeps (x y : Desk) : Prop := ∀ i, (x.world.db.exec? i).isSome = true → (y.world.db.exec? i).isSome = true

/-- The row is still there, with everything an `UPDATE` does not touch. -/
def DB.Retains (db db' : DB) : Prop :=
  ∀ i e, db.exec? i = some e → ∃ e', db'.exec? i = some e' ∧ e'.toExecInfo = e.toExecInfo

theorem DB.Retains.refl (db : DB) : db.Retains db := fun _ e he => ⟨e, he, rfl⟩

theorem DB.Retains.trans {db₁ : DB} (h : db.Retains db₁) (h' : db₁.Retains db') : db.Retains db' := by
  intro i e he
  obtain ⟨e₁, he₁, hinfo⟩ := h i e he
  obtain ⟨e', he', hinfo'⟩ := h' i e₁ he₁
  exact ⟨e', he', hinfo'.trans hinfo⟩

theorem DB.Retains.requested {r : String} {i : Nat} {e : ExecRow} (h : db.Retains db') (he : db.Requested r i e) :
    ∃ e', db'.Requested r i e' ∧ e'.jobName = e.jobName ∧ e'.executionKey = e.executionKey := by
  obtain ⟨e', he', hinfo⟩ := h i e he.1
  exact ⟨e', ⟨he', (congrArg ExecInfo.requestId hinfo).trans he.2⟩, congrArg ExecInfo.jobName hinfo,
    congrArg ExecInfo.executionKey hinfo⟩

theorem Step.retains {w w' : World} {l : Action × Ctx} (hst : Step env w l w')
    (hkeep : ∀ i, (w.db.exec? i).isSome = true → (w'.db.exec? i).isSome = true) : w.db.Retains w'.db := by
  intro i e he
  obtain ⟨e', he'⟩ := Option.isSome_iff_exists.1 (hkeep i (by rw [he]; rfl))
  obtain ⟨e₀, he₀, hinfo⟩ := row_back (Sys.Run.single hst) (DB.exec?_le he) he'
  obtain rfl := Option.some.inj (he.symm.trans he₀)
  exact ⟨e', he', hinfo⟩

theorem Triggered.retains {q : TriggerRequest} {snap : DB} {k : Option String} (h : Triggered q snap db k db') :
    db.Retains db' := by
  intro i e he
  cases h with
  | @created _ i' e' hnew hx =>
    have hne : i ≠ i' := fun h => absurd (DB.exec?_le he) (not_le.2 (h ▸ hnew))
    exact ⟨e, ((hx.execs i).trans (if_neg hne)).trans he, rfl⟩
  | repeated => exact ⟨e, he, rfl⟩

theorem TriggerRequest.commit_retains {q : TriggerRequest} {snap : DB} (hq : q.requestId ≠ "") :
    db.Retains ((q.write env c snap).commit db) := by
  rcases Tx.commit_cases (q.write env c snap) db with ⟨_, _, hsame⟩ | ⟨k, hok⟩
  · rw [hsame]
    exact .refl db
  · exact (q.write_ok hq hok).retains

structure DeskInv (x : Desk) : Prop where
  now     : x.world.db ∈ x.past
  past    : ∀ db ∈ x.past, db.Retains x.world.db
  waiting : ∀ q ∈ x.waiting, q.requestId ≠ ""
  replies : ∀ q k, (q, .ok k) ∈ x.replies →
    ∃ i e, x.world.db.Requested q.requestId i e ∧ e.jobName = q.jobName ∧ k = some e.executionKey

namespace DeskInv

variable {x y : Desk}

theorem init (u : Utc) : DeskInv (Desk.init u) where
  now := List.mem_singleton_self _
  past db hdb := List.mem_singleton.1 hdb ▸ .refl _
  waiting _ h := by cases h
  replies _ _ h := by cases h

/-- What a reply is about stays. -/
theorem replies_kept (h : DeskInv x) (hret : x.world.db.Retains db') {q : TriggerRequest} {k : Option String}
    (hq : (q, .ok k) ∈ x.replies) :
    ∃ i e, db'.Requested q.requestId i e ∧ e.jobName = q.jobName ∧ k = some e.executionKey := by
  obtain ⟨i, e, he, hj, rfl⟩ := h.replies q k hq
  obtain ⟨e', he', hj', hk'⟩ := hret.requested he
  exact ⟨i, e', he', hj'.trans hj, by rw [hk']⟩

theorem past_kept (h : DeskInv x) (hret : x.world.db.Retains db') : ∀ db ∈ db' :: x.past, db.Retains db' := by
  intro db hdb
  rcases List.mem_cons.1 hdb with rfl | hdb
  · exact .refl _
  · exact (h.past db hdb).trans hret

/-- The row a successful transaction answers with is there afterwards. -/
theorem answered (h : DeskInv x) {q : TriggerRequest} {snap : DB} {k : Option String} (hs : snap ∈ x.past)
    (ht : Triggered q snap x.world.db k db') :
    ∃ i e, db'.Requested q.requestId i e ∧ e.jobName = q.jobName ∧ k = some e.executionKey := by
  cases ht with
  | @created _ i e _ hx hr hj => exact ⟨i, e, ⟨(hx.execs i).trans (if_pos rfl), hr⟩, hj, rfl⟩
  | @repeated i e he hj =>
    obtain ⟨e', he', hj', hk'⟩ := (h.past snap hs).requested he
    exact ⟨i, e', he', hj'.trans hj, by rw [hk']⟩

theorem looked (h : DeskInv x) (q : TriggerRequest) : DeskInv (x.looked q) := by
  unfold Desk.looked
  cases hl : q.look x.world.db with
  | error err =>
    refine ⟨h.now, h.past, h.waiting, fun q' k hq => ?_⟩
    rcases List.mem_cons.1 hq with hq | hq
    · cases hq
    · exact h.replies q' k hq
  | ok r =>
    obtain ⟨k, db₁⟩ := r
    obtain ⟨-, hl⟩ := check_ok hl
    obtain ⟨hne, hl⟩ := check_ok hl
    cases k with
    | none =>
      refine ⟨h.now, h.past, fun q' hq => ?_, h.replies⟩
      rcases List.mem_cons.1 hq with rfl | hq
      · exact hne
      · exact h.waiting q' hq
    | some key =>
      refine ⟨h.now, h.past, h.waiting, fun q' k hq => ?_⟩
      rcases List.mem_cons.1 hq with hq | hq
      · obtain ⟨rfl, hk⟩ := Prod.mk.inj hq
        obtain ⟨i, e, he, hj, rfl⟩ := executionByRequest_some hl
        exact ⟨i, e, he, hj, Except.ok.inj hk⟩
      · exact h.replies q' k hq

theorem wrote (h : DeskInv x) {q : TriggerRequest} {snap : DB} (hw : q ∈ x.waiting) (hs : snap ∈ x.past) (z : Utc) :
    DeskInv (x.wrote env q c snap z) := by
  have hq := h.waiting q hw
  have hret : x.world.db.Retains ((q.write env c snap).commit x.world.db) := q.commit_retains hq
  refine ⟨List.mem_cons_self, h.past_kept hret, fun q' hq' => h.waiting q' (List.mem_of_mem_erase hq'),
    fun q' k hq' => ?_⟩
  rcases List.mem_cons.1 hq' with hq' | hq'
  · obtain ⟨rfl, hk⟩ := Prod.mk.inj hq'
    rcases Tx.commit_cases (q'.write env c snap) x.world.db with ⟨_, herr, _⟩ | ⟨k', hok⟩
    · rw [herr] at hk; cases hk
    · rw [hok] at hk
      obtain rfl : k = k' := Except.ok.inj hk
      exact h.answered hs (q'.write_ok hq hok)
  · exact h.replies_kept hret hq'

theorem step {l : DeskLabel} (h : DeskInv x) (hst : DeskStep env x l y) (hkeep : x.Keeps y) : DeskInv y := by
  cases hst with
  | other hst =>
    have hret := hst.retains hkeep
    exact ⟨List.mem_cons_self, h.past_kept hret, h.waiting, fun q k hq => h.replies_kept hret hq⟩
  | look q => exact h.looked q
  | write hw hs => exact h.wrote hw hs _

theorem run {tr : List (Desk × DeskLabel × Desk)} (hr : Sys.Run (DeskStep env) (Desk.init u) tr x)
    (hkeep : ∀ y ∈ tr, y.1.Keeps y.2.2) : DeskInv x :=
  Sys.Run.invariant_of (I := DeskInv) (fun y => y.1.Keeps y.2.2) (.init u)
    (fun _ _ _ h hk hst => h.step hst hk) hr hkeep

end DeskInv

/-- A transaction for a request id that was used for another job fails. -/
theorem DeskInv.write_conflict {x : Desk} (h : DeskInv x) {q : TriggerRequest} {snap : DB} {i : Nat} {e : ExecRow}
    (hw : q ∈ x.waiting) (hs : snap ∈ x.past) (he : x.world.db.Requested q.requestId i e) (hj : e.jobName ≠ q.jobName) :
    ∃ err, q.write env c snap x.world.db = .error err := by
  cases hx : q.write env c snap x.world.db with
  | error err => exact ⟨err, rfl⟩
  | ok r =>
    -- An answer would be about a row of this job, and the request id names one row.
    have ht := q.write_ok (h.waiting q hw) hx
    obtain ⟨k, e', he', hj', -⟩ := h.answered hs ht
    obtain ⟨e₁, he₁, hj₁, -⟩ := ht.retains.requested he
    obtain rfl := DB.request_inj he₁.1 he'.1 he₁.2 he'.2
    obtain rfl := Option.some.inj (he₁.1.symm.trans he'.1)
    exact absurd (hj₁.symm.trans hj') hj

theorem TriggerRequest.look_conflict {q : TriggerRequest} {i : Nat} {e : ExecRow} (he : db.Requested q.requestId i e)
    (hj : e.jobName ≠ q.jobName) : ∃ err, q.look db = .error err := by
  unfold TriggerRequest.look
  split
  · exact ⟨_, rfl⟩
  · split
    · exact ⟨_, rfl⟩
    · exact executionByRequest_conflict he hj

/-- **Manual runs are idempotent.**  As long as nothing is reaped, at most one execution ever carries a request id;
whatever call succeeds answers with the key of that one execution, which belongs to its job; and a call whose request id
was used for another job fails and changes nothing. -/
theorem manual_trigger_idempotent {tr : List (Desk × DeskLabel × Desk)} {x : Desk}
    (hr : Sys.Run (DeskStep env) (Desk.init u) tr x) (hkeep : ∀ y ∈ tr, y.1.Keeps y.2.2) :
    (∀ r db db' i k e e', db ∈ x.past → db' ∈ x.past → db.Requested r i e → db'.Requested r k e' → i = k) ∧
    (∀ q k, (q, .ok k) ∈ x.replies →
      ∃ i e, x.world.db.Requested q.requestId i e ∧ e.jobName = q.jobName ∧ k = some e.executionKey) ∧
    ∀ y ∈ tr, ∀ q i e, (y.2.1 = .look q ∨ ∃ c snap, y.2.1 = .write q c snap) →
      y.1.world.db.Requested q.requestId i e → e.jobName ≠ q.jobName →
        (∃ err, y.2.2.replies = (q, .error err) :: y.1.replies) ∧ y.2.2.world.db = y.1.world.db := by
  have hinv := DeskInv.run hr hkeep
  refine ⟨fun r db db' i k e e' hdb hdb' he he' => ?_, hinv.replies, ?_⟩
  · obtain ⟨e₁, he₁, -⟩ := (hinv.past db hdb).requested he
    obtain ⟨e₂, he₂, -⟩ := (hinv.past db' hdb').requested he'
    exact DB.request_inj he₁.1 he₂.1 he₁.2 he₂.2
  · rintro ⟨x₀, l, x₁⟩ hy q i e hl he hj
    obtain ⟨pre, hpre, hrun, hst⟩ := hr.mem_step hy
    have hinv₀ := DeskInv.run hrun fun y hy => hkeep y (hpre.subset (List.mem_append_left _ hy))
    have hst : DeskStep env x₀ l x₁ := hst
    cases hst with
    | other => rcases hl with hl | ⟨_, _, hl⟩ <;> cases hl
    | look q' =>
      obtain rfl : q' = q := by rcases hl with hl | ⟨_, _, hl⟩ <;> cases hl; rfl
      obtain ⟨err, herr⟩ := TriggerRequest.look_conflict he hj
      refine ⟨⟨err, ?_⟩, ?_⟩ <;> simp only [Desk.looked, herr]
    | @write q' c snap z hw hs =>
      obtain rfl : q' = q := by rcases hl with hl | ⟨_, _, hl⟩ <;> cases hl; rfl
      obtain ⟨err, herr⟩ : ∃ err, q'.write env c snap x₀.world.db = .error err := hinv₀.write_conflict hw hs he hj
      simp only [Desk.wrote, herr]
      exact ⟨⟨err, rfl⟩, Tx.commit_of_error herr⟩

/-! ## Two calls for one request -/

theorem Desk.looked_world (x : Desk) (q : TriggerRequest) : (x.looked q).world = x.world := by
  unfold Desk.looked
  split <;> rfl

/-- A call of `Trigger` reaps nothing. -/
theorem Desk.wrote_keeps (x : Desk) {q : TriggerRequest} (hq : q.requestId ≠ "") (snap : DB) (z : Utc) :
    x.Keeps (x.wrote env q c snap z) := by
  intro i hi
  obtain ⟨e, he⟩ := Option.isSome_iff_exists.1 hi
  obtain ⟨e', he', -⟩ := q.commit_retains hq i e he
  exact Option.isSome_iff_exists.2 ⟨e', he'⟩

def firstRequest : TriggerRequest := ⟨"sync", "r1", "operator", "now", ""⟩

def secondRequest : TriggerRequest := ⟨"sync", "r1", "other operator", "now", ""⟩

/-- A job, and two calls that have both found no execution for their request id. -/
def waitingDesk : Desk :=
  let world := (World.init 0).call bareEnv (.createJob (sampleJob "sync" .fixedDelay "1000") 0 "operator" "new") 0
  ((Desk.mk world [world.db, DB.empty] [] []).looked firstRequest).looked secondRequest

def oneServed : Desk := waitingDesk.wrote bareEnv firstRequest (Ctx.at_ 1) waitingDesk.world.db 1

def bothServed : Desk := oneServed.wrote bareEnv secondRequest (Ctx.at_ 2) oneServed.world.db 2

theorem snoc_keeps {x y : Desk} {l : DeskLabel}
    (h : ∃ tr, Sys.Run (DeskStep env) (Desk.init u) tr x ∧ ∀ y ∈ tr, y.1.Keeps y.2.2) (hst : DeskStep env x l y)
    (hk : x.Keeps y) : ∃ tr, Sys.Run (DeskStep env) (Desk.init u) tr y ∧ ∀ y ∈ tr, y.1.Keeps y.2.2 := by
  obtain ⟨tr, hr, hkeep⟩ := h
  refine ⟨_, hr.snoc hst, fun z hz => ?_⟩
  rcases List.mem_append.1 hz with hz | hz
  · exact hkeep z hz
  · rw [List.mem_singleton.1 hz]
    exact hk

theorem waitingDesk_reached :
    ∃ tr, Sys.Run (DeskStep bareEnv) (Desk.init 0) tr waitingDesk ∧ ∀ y ∈ tr, y.1.Keeps y.2.2 := by
  have looks : ∀ (x : Desk) (q : TriggerRequest), x.Keeps (x.looked q) := by
    intro x q i hi
    rw [Desk.looked_world]
    exact hi
  refine snoc_keeps (snoc_keeps (snoc_keeps ⟨[], .nil, fun _ h => by cases h⟩
    (.other (World.step_call bareEnv (by decide) rfl)) fun i hi => ?_) (.look firstRequest) (looks _ _))
    (.look secondRequest) (looks _ _)
  cases hi

theorem bothServed_reached :
    ∃ tr, Sys.Run (DeskStep bareEnv) (Desk.init 0) tr bothServed ∧ ∀ y ∈ tr, y.1.Keeps y.2.2 := by
  obtain ⟨tr, hr, hkeep⟩ := waitingDesk_reached
  have hnow := (DeskInv.run hr hkeep).now
  refine snoc_keeps (snoc_keeps ⟨tr, hr, hkeep⟩ (.write (c := Ctx.at_ 1) ?_ hnow (by decide +kernel) fun _ => le_refl _)
    (Desk.wrote_keeps _ (by decide) _ _)) (.write (c := Ctx.at_ 2) ?_ List.mem_cons_self (by decide) fun _ => le_refl _)
    (Desk.wrote_keeps _ (by decide) _ _)
  · decide +kernel
  · decide +kernel

theorem manual_trigger_idempotent_twice :
    bothServed.replies = [(secondRequest, .ok (some "m:sync:r1")), (firstRequest, .ok (some "m:sync:r1"))] ∧
      ∀ q k, (q, .ok k) ∈ bothServed.replies →
        ∃ i e, bothServed.world.db.Requested q.requestId i e ∧ e.jobName = q.jobName ∧ k = some e.executionKey := by
  obtain ⟨tr, hr, hkeep⟩ := bothServed_reached
  exact ⟨by decide +kernel, (manual_trigger_idempotent hr hkeep).2.1⟩

end GoJob
