import GoJob.Keys
import GoJob.Requests
/-!
# Collation — request ids as the database compares them

The text columns of the schema have no collation of their own, so MySQL compares them by a sort key that ignores case.
`Trigger` leaves it to the database to find its request id and compares only the owner's name itself.  Two request ids
with one sort key are therefore one request.  A request with a new id gets a run of its own, and requests get one key
only if they have one id, along every run in which that does not happen.
-/
namespace GoJob

open Rel Tx

variable {env : Env} {c : Ctx} {db db' snap : DB} {coll : String → String} {q : TriggerRequest}

/-! ## The call -/

/-- `executionByRequest`, where the database compares sort keys. -/
def executionByRequestIn (coll : String → String) (requestId jobName : String) : StoreM (Option String) := do
  match (← get).executions.table.rows.find? (fun e => e.requestId.any fun r => decide (coll r = coll requestId)) with
  | none => return none
  | some e =>
    if e.jobName ≠ jobName then
      fail .protocol ("request_id " ++ requestId.quote ++ " was already used to trigger " ++ e.jobName.quote ++
        ", not " ++ jobName.quote)
    else return some e.executionKey

/-- The row is new to both unique keys. -/
def Executions.FreshIn (coll : String → String) (x : Executions) (key : String) (request : Option String) : Prop :=
  (∀ e ∈ x.table.rows, coll e.executionKey ≠ coll key) ∧
    ∀ e ∈ x.table.rows, ∀ r ∈ request, ∀ r' ∈ e.requestId, coll r' ≠ coll r

instance (x : Executions) (key : String) (request : Option String) : Decidable (x.FreshIn coll key request) :=
  inferInstanceAs (Decidable (_ ∧ _))

theorem Executions.FreshIn.fresh {x : Executions} {key : String} {request : Option String}
    (h : x.FreshIn coll key request) : x.Fresh key request := by
  refine ⟨fun hmem => ?_, fun r hr hmem => ?_⟩
  · obtain ⟨e, he, rfl⟩ := List.mem_map.1 hmem
    exact h.1 e he rfl
  · obtain ⟨e, he, hreq⟩ := List.mem_filterMap.1 hmem
    exact h.2 e he r hr r hreq rfl

/-- `insertExecution`. A row that is new under the collation is new to the table. -/
def insertExecutionIn (coll : String → String) (r : NewExecution) : StoreM Bool := do
  let db ← get
  if ∀ key ∈ r.key, db.executions.FreshIn coll key (nullString r.requestId) then insertExecution r
  else return false

/-- `lockState`. -/
def lockStateIn (coll : String → String) (c : Ctx) (j : String) : StoreM StateRow := do
  match (← get).states.rows.find? (fun s => decide (coll s.jobName = coll j)) with
  | none => fail .missingState ("job " ++ j.quote)
  | some s =>
    if c.busy s.jobName then fail .contended ("job " ++ j.quote ++ " state row is locked elsewhere") else pure s

/-- `readDefinition`. -/
def readDefinitionIn (coll : String → String) (j : String) : StoreM Definition := do
  match (← get).definitions.rows.find? (fun d => decide (coll d.jobName = coll j)) with
  | none => fail .protocol ("job " ++ j.quote ++ " has a state row but no definition")
  | some d => pure d.toDefinition

/-- The part of `Trigger` before its transaction. -/
def TriggerRequest.lookIn (q : TriggerRequest) (coll : String → String) : StoreM (Option String) :=
  if q.actor = "" ∨ q.reason = "" then
    fail .protocol "a manual trigger needs an actor and a reason"
  else if q.requestId = "" then
    fail .protocol "a manual trigger needs a request_id so a repeat cannot run it twice"
  else executionByRequestIn coll q.requestId q.jobName

/-- The transaction of `Trigger`. -/
def TriggerRequest.writeIn (q : TriggerRequest) (coll : String → String) (env : Env) (c : Ctx) (snap : DB) :
    StoreM (Option String) := do
  let key := executionKey env "m" q.jobName q.requestId
  let _ ← lockStateIn coll c q.jobName
  let d ← consistent snap (readDefinitionIn coll q.jobName)
  if d.retired then
    fail .notRunnable ("job " ++ q.jobName.quote ++ " is retired")
  else
    let merged ← ofExcept (env.mergeParams d.params q.params)
    let created ← insertExecutionIn coll {
      key := key
      jobName := q.jobName
      triggerType := .manual
      requestId := q.requestId
      scheduledAt := c.now
      availableAt := c.now
      maxAttempts := d.maxAttempts
      maxRecoveries := d.maxRecoveries
      params := merged }
    if created = false then
      match ← consistent snap (executionByRequestIn coll q.requestId q.jobName) with
      | none => fail .other ("read the winning execution for request " ++ q.requestId.quote)
      | some winner => return some winner
    else
      audit c q.actor "job_triggered" q.jobName (key.getD "") q.reason
      return key

/-! ## What the parts do -/

theorem lockStateIn_ok {j : String} {s : StateRow} (h : lockStateIn coll c j db = .ok (s, db')) : db = db' := by
  replace h := Tx.get_bind_ok.1 h
  cases hx : db.states.rows.find? (fun s => decide (coll s.jobName = coll j)) with
  | none => simp [hx] at h
  | some s' =>
    simp only [hx] at h
    obtain ⟨-, h⟩ := check_ok h
    exact congrArg Prod.snd (Tx.pure_ok.1 h)

theorem insertExecutionIn_ok {r : NewExecution} {b : Bool} (h : insertExecutionIn coll r db = .ok (b, db')) :
    ∃ key, r.key = some key ∧ ((b = false ∧ db = db') ∨
      (b = true ∧ ∃ i, db.executions.lastId < i ∧ OnExec db db' i (r.row key i))) := by
  replace h := Tx.get_bind_ok.1 h
  by_cases hf : ∀ key ∈ r.key, db.executions.FreshIn coll key (nullString r.requestId)
  · rw [if_pos hf] at h
    obtain ⟨key, hkey, ⟨hb, hdb, -⟩ | ⟨hb, i, hi, -, hx⟩⟩ := insertExecution_ok h
    · exact ⟨key, hkey, Or.inl ⟨hb, hdb⟩⟩
    · exact ⟨key, hkey, Or.inr ⟨hb, i, hi, hx⟩⟩
  · rw [if_neg hf] at h
    obtain ⟨key, hkey, -⟩ := not_forall₂.1 hf
    obtain ⟨rfl, rfl⟩ := Prod.mk.inj (Tx.pure_ok.1 h)
    exact ⟨key, hkey, Or.inl ⟨rfl, rfl⟩⟩

/-- A row whose request id has the sort key of `r`. -/
structure DB.RequestedIn (coll : String → String) (db : DB) (r : String) (e : ExecRow) : Prop where
  row  : db.exec? e.id = some e
  same : ∃ r', e.requestId = some r' ∧ coll r' = coll r

theorem executionByRequestIn_some {r j k : String} (h : executionByRequestIn coll r j db = .ok (some k, db')) :
    ∃ e, db.RequestedIn coll r e ∧ e.jobName = j ∧ e.executionKey = k := by
  replace h := Tx.get_bind_ok.1 h
  cases hx : db.executions.table.rows.find? (fun e => e.requestId.any fun r' => decide (coll r' = coll r)) with
  | none => simp [hx] at h
  | some e =>
    simp only [hx] at h
    obtain ⟨hj, h⟩ := check_ok h
    obtain ⟨hk, -⟩ := Prod.mk.inj (Tx.pure_ok.1 h)
    have hany : e.requestId.any (fun r' => decide (coll r' = coll r)) = true := by simpa using List.find?_some hx
    obtain ⟨r', hr', hc⟩ := (Option.any_eq_true _ _).1 hany
    exact ⟨e, ⟨Table.get?_of_mem (List.mem_of_find?_eq_some hx), r', hr', of_decide_eq_true hc⟩, not_not.1 hj,
      Option.some.inj hk⟩

/-- What the transaction does when it succeeds. -/
inductive TriggeredIn (coll : String → String) (env : Env) (q : TriggerRequest) (snap db : DB) :
    Option String → DB → Prop
  | created {db' : DB} {i : Nat} {e : ExecRow} (hnew : db.executions.lastId < i) (hx : OnExec db db' i e)
      (hr : e.requestId = some q.requestId) (hj : e.jobName = q.jobName)
      (hk : executionKey env "m" q.jobName q.requestId = some e.executionKey) :
      TriggeredIn coll env q snap db (some e.executionKey) db'
  | repeated {e : ExecRow} (he : snap.RequestedIn coll q.requestId e) (hj : e.jobName = q.jobName) :
      TriggeredIn coll env q snap db (some e.executionKey) db

theorem TriggerRequest.writeIn_ok {k : Option String} (hq : q.requestId ≠ "")
    (h : q.writeIn coll env c snap db = .ok (k, db')) : TriggeredIn coll env q snap db k db' := by
  obtain ⟨_, _, h₁, h⟩ := Tx.bind_ok.1 h
  obtain rfl := lockStateIn_ok h₁
  obtain ⟨d, _, h₂, h⟩ := Tx.bind_ok.1 h
  obtain ⟨-, rfl⟩ := consistent_ok h₂
  obtain ⟨-, h⟩ := check_ok h
  obtain ⟨merged, _, h₃, h⟩ := Tx.bind_ok.1 h
  obtain ⟨_, rfl⟩ := ofExcept_ok h₃
  obtain ⟨created, db₁, h₄, h⟩ := Tx.bind_ok.1 h
  obtain ⟨key, hkey, ⟨rfl, rfl⟩ | ⟨rfl, i, hi, hx⟩⟩ := insertExecutionIn_ok h₄
  · simp only [if_true] at h
    obtain ⟨w, _, h₅, h⟩ := Tx.bind_ok.1 h
    obtain ⟨⟨_, hback⟩, rfl⟩ := consistent_ok h₅
    cases w with
    | none => simp at h
    | some w =>
      obtain ⟨rfl, rfl⟩ : some w = k ∧ db = db' := by simpa using h
      obtain ⟨e, he, hj, rfl⟩ := executionByRequestIn_some hback
      exact .repeated he hj
  · simp only [Bool.true_eq_false, if_false] at h
    obtain ⟨_, db₂, h₅, h⟩ := Tx.bind_ok.1 h
    obtain ⟨rfl, rfl⟩ : executionKey env "m" q.jobName q.requestId = k ∧ db₂ = db' := by simpa using h
    obtain ⟨a, rfl⟩ := audit_ok h₅
    have hkey : executionKey env "m" q.jobName q.requestId = some key := hkey
    rw [hkey]
    exact .created hi (hx.audit a) (by simp [NewExecution.row, nullString, hq]) rfl hkey

/-! ## The identity as a collation -/

theorem executionByRequestIn_id (r j : String) : executionByRequestIn id r j = executionByRequest r j := by
  have hfun : (fun e : ExecRow => e.requestId.any fun r' => decide (id r' = id r)) =
      fun e => decide (e.requestId = some r) := by
    funext e
    cases e.requestId <;> simp
  funext db
  refine Tx.bind_agree rfl fun x db₁ _ => ?_
  cases hx : x.executions.table.rows.find? (fun e => decide (e.requestId = some r)) with
  | none => simp only [hfun, hx]
  | some e => simp only [hfun, hx]

theorem readDefinitionIn_id (j : String) : readDefinitionIn id j = readDefinition j := rfl

theorem lockStateIn_id (j : String) : lockStateIn id c j = lockState c j := by
  funext db
  refine Tx.bind_agree rfl fun x db₁ h₁ => ?_
  have hfind : x.states.rows.find? (fun s => decide (id s.jobName = id j)) = x.state? j := rfl
  rw [hfind]
  cases hs : x.state? j with
  | none => rfl
  | some s =>
    simp only
    rw [DB.state?_jobName hs]

theorem Executions.freshIn_id {x : Executions} {key : String} {request : Option String} :
    x.FreshIn id key request ↔ x.Fresh key request := by
  refine ⟨fun h => h.fresh, fun h => ⟨fun e he heq => ?_, fun e he r hr r' hr' heq => ?_⟩⟩
  · exact h.1 (List.mem_map.2 ⟨e, he, heq⟩)
  · obtain rfl : r' = r := heq
    exact h.2 r' hr (List.mem_filterMap.2 ⟨e, he, hr'⟩)

theorem insertExecutionIn_id (r : NewExecution) : insertExecutionIn id r = insertExecution r := by
  funext db
  show (if _ then insertExecution r else pure false) db = _
  by_cases hf : ∀ key ∈ r.key, db.executions.FreshIn id key (nullString r.requestId)
  · rw [if_pos hf]
  · rw [if_neg hf]
    obtain ⟨key, hkey, hnot⟩ := not_forall₂.1 hf
    have hold : ¬ db.executions.Fresh key (nullString r.requestId) := mt Executions.freshIn_id.2 hnot
    unfold insertExecution
    rw [Option.mem_def.1 hkey]
    show _ = (if _ : db.executions.Fresh key (nullString r.requestId) then _ else pure false : StoreM Bool) db
    rw [dif_neg hold]

/-- **Where the database compares texts as they are, the call is `Trigger` as it was.** -/
theorem TriggerRequest.writeIn_id : q.writeIn id env c snap = q.write env c snap := by
  funext db
  unfold TriggerRequest.writeIn TriggerRequest.write
  rw [lockStateIn_id, readDefinitionIn_id, executionByRequestIn_id]
  refine Tx.bind_agree rfl fun s db₁ _ => Tx.bind_agree rfl fun d db₂ _ => ?_
  by_cases hret : d.retired = true
  · rw [if_pos hret, if_pos hret]
  rw [if_neg hret, if_neg hret]
  refine Tx.bind_agree rfl fun merged db₃ _ => Tx.bind_agree (by rw [insertExecutionIn_id]) fun created db₄ _ => ?_
  cases created with
  | false => exact Tx.bind_agree rfl fun _ _ _ => rfl
  | true => rfl

/-! ## Any number of calls -/

/-- What the other transactions do to the executions: rows change what an `UPDATE` may change, rows are deleted, and
new rows have no request id. -/
def DB.Elsewhere (db db' : DB) : Prop :=
  ∀ i e', db'.exec? i = some e' → (∃ e, db.exec? i = some e ∧ e'.toExecInfo = e.toExecInfo) ∨ e'.requestId = none

/-- Every call of the server but `Trigger` is one of them. -/
theorem Step.elsewhere {w w' : World} {l : Action × Ctx} (hst : Step env w l w')
    (hl : ∀ j r x y p, l.1 ≠ .trigger j r x y p) : w.db.Elsewhere w'.db := by
  intro i e' he'
  cases he : w.db.exec? i with
  | some e => exact Or.inl ⟨e, rfl, hst.commit.info he he'⟩
  | none =>
    obtain ⟨_, _, _, _, -, -, -, hm, -⟩ := hst.commit.new he he'
    generalize l.1 = a at hm hl
    cases hm with
    | cron => exact Or.inr rfl
    | poll => exact Or.inr rfl
    | manual => exact absurd rfl (hl _ _ _ _ _)

/-- The schema, everything that has been committed to it, the calls that found no execution for their request id, and
the answers given. -/
structure Office where
  db      : DB
  past    : List DB
  waiting : List TriggerRequest
  replies : List (TriggerRequest × Except Err (Option String))

def Office.init : Office := ⟨DB.empty, [DB.empty], [], []⟩

/-- A call looks for its request id. -/
def Office.looked (x : Office) (coll : String → String) (q : TriggerRequest) : Office :=
  match q.lookIn coll x.db with
  | .ok (none, _)     => { x with waiting := q :: x.waiting }
  | .ok (some key, _) => { x with replies := (q, .ok (some key)) :: x.replies }
  | .error err        => { x with replies := (q, .error err) :: x.replies }

/-- A call that found none runs its transaction and returns. -/
def Office.wrote (x : Office) (coll : String → String) (env : Env) (q : TriggerRequest) (c : Ctx) (snap : DB) :
    Office :=
  let db' := (q.writeIn coll env c snap).commit x.db
  ⟨db', db' :: x.past, x.waiting.erase q, (q, (q.writeIn coll env c snap x.db).map Prod.fst) :: x.replies⟩

inductive OfficeLabel
  | other
  | look (q : TriggerRequest)
  | write (q : TriggerRequest) (c : Ctx) (snap : DB)

/-- The call a step belongs to. -/
def OfficeLabel.request : OfficeLabel → Option TriggerRequest
  | .other       => none
  | .look q      => some q
  | .write q _ _ => some q

/-- The snapshot of a transaction is something that has been committed. -/
inductive OfficeStep (coll : String → String) (env : Env) : Office → OfficeLabel → Office → Prop
  | other {x : Office} {db' : DB} (h : x.db.Elsewhere db') :
      OfficeStep coll env x .other { x with db := db', past := db' :: x.past }
  | look {x : Office} (q : TriggerRequest) : OfficeStep coll env x (.look q) (x.looked coll q)
  | write {x : Office} {q : TriggerRequest} {c : Ctx} {snap : DB} (hw : q ∈ x.waiting) (hs : snap ∈ x.past) :
      OfficeStep coll env x (.write q c snap) (x.wrote coll env q c snap)

/-- A look fails, leaves the call waiting, or finds a row of the job. -/
theorem Office.looked_cases (x : Office) (coll : String → String) (q : TriggerRequest) :
    (∃ err, x.looked coll q = { x with replies := (q, .error err) :: x.replies }) ∨
    (q.requestId ≠ "" ∧ x.looked coll q = { x with waiting := q :: x.waiting }) ∨
    ∃ e, q.requestId ≠ "" ∧ x.db.RequestedIn coll q.requestId e ∧
      x.looked coll q = { x with replies := (q, .ok (some e.executionKey)) :: x.replies } := by
  unfold Office.looked
  cases hl : q.lookIn coll x.db with
  | error err => exact Or.inl ⟨err, rfl⟩
  | ok r =>
    obtain ⟨k, db₁⟩ := r
    obtain ⟨-, hl⟩ := check_ok hl
    obtain ⟨hne, hl⟩ := check_ok hl
    cases k with
    | none => exact Or.inr (Or.inl ⟨hne, rfl⟩)
    | some key =>
      obtain ⟨e, he, -, rfl⟩ := executionByRequestIn_some hl
      exact Or.inr (Or.inr ⟨e, hne, he, rfl⟩)

/-- A transaction fails and changes nothing, or succeeds. -/
theorem Office.wrote_cases (x : Office) (coll : String → String) (env : Env) (c : Ctx) (snap : DB)
    (hq : q.requestId ≠ "") :
    (∃ err, x.wrote coll env q c snap = ⟨x.db, x.db :: x.past, x.waiting.erase q, (q, .error err) :: x.replies⟩) ∨
    ∃ k db', TriggeredIn coll env q snap x.db k db' ∧
      x.wrote coll env q c snap = ⟨db', db' :: x.past, x.waiting.erase q, (q, .ok k) :: x.replies⟩ := by
  unfold Office.wrote
  rcases Tx.commit_cases (q.writeIn coll env c snap) x.db with ⟨err, herr, hsame⟩ | ⟨k, hok⟩
  · refine Or.inl ⟨err, ?_⟩
    simp only [herr, hsame]
    rfl
  · refine Or.inr ⟨k, _, q.writeIn_ok hq hok, ?_⟩
    simp only [hok]
    rfl

/-- The call is one of the run's. -/
def Asked (tr : List (Office × OfficeLabel × Office)) (q : TriggerRequest) : Prop :=
  ∃ y ∈ tr, y.2.1.request = some q

/-- The row was created by a call that has been answered. -/
def CreatedBy (env : Env) (tr : List (Office × OfficeLabel × Office)) (x : Office) (e : ExecRow) (r : String) : Prop :=
  ∃ q k, Asked tr q ∧ (q, .ok k) ∈ x.replies ∧ q.requestId = r ∧ q.jobName = e.jobName ∧
    executionKey env "m" q.jobName q.requestId = some e.executionKey

structure OfficeInv (coll : String → String) (env : Env) (tr : List (Office × OfficeLabel × Office)) (x : Office) :
    Prop where
  now     : x.db ∈ x.past
  rows    : ∀ db ∈ x.past, ∀ i e r, db.Requested r i e → CreatedBy env tr x e r
  waiting : ∀ q ∈ x.waiting, q.requestId ≠ ""
  replies : ∀ q k, (q, .ok k) ∈ x.replies → q.requestId ≠ "" ∧ Asked tr q ∧ ∃ q₀, Asked tr q₀ ∧
    coll q₀.requestId = coll q.requestId ∧ k ≠ none ∧ executionKey env "m" q₀.jobName q₀.requestId = k

section office

variable {tr : List (Office × OfficeLabel × Office)} {x x' : Office} {l : OfficeLabel}

theorem Asked.snoc {y : Office × OfficeLabel × Office} (h : Asked tr q) : Asked (tr ++ [y]) q := by
  obtain ⟨z, hz, hq⟩ := h
  exact ⟨z, List.mem_append_left _ hz, hq⟩

theorem Asked.last (h : l.request = some q) : Asked (tr ++ [(x, l, x')]) q :=
  ⟨_, List.mem_append_right _ (List.mem_singleton_self _), h⟩

theorem CreatedBy.snoc {y : Office × OfficeLabel × Office} {e : ExecRow} {r : String} (h : CreatedBy env tr x e r)
    (hsub : x.replies ⊆ x'.replies) : CreatedBy env (tr ++ [y]) x' e r := by
  obtain ⟨q, k, hq, hk, h⟩ := h
  exact ⟨q, k, hq.snoc, hsub hk, h⟩

/-- A row is known by what no `UPDATE` assigns. -/
theorem CreatedBy.congr {e e' : ExecRow} {r : String} (h : CreatedBy env tr x e r)
    (hinfo : e'.toExecInfo = e.toExecInfo) : CreatedBy env tr x e' r := by
  have hj : e'.jobName = e.jobName := congrArg ExecInfo.jobName hinfo
  have hk : e'.executionKey = e.executionKey := congrArg ExecInfo.executionKey hinfo
  obtain ⟨q, k, hq, hr, hid, hname, hkey⟩ := h
  exact ⟨q, k, hq, hr, hid, hname.trans hj.symm, by rw [hkey, hk]⟩

/-- What a call that finds a row answers with. -/
theorem OfficeInv.found (h : OfficeInv coll env tr x) (hdb : db ∈ x.past) {e : ExecRow} {r : String}
    (he : db.RequestedIn coll r e) :
    ∃ q₀ k₀, Asked tr q₀ ∧ (q₀, .ok k₀) ∈ x.replies ∧ coll q₀.requestId = coll r ∧
      executionKey env "m" q₀.jobName q₀.requestId = some e.executionKey := by
  obtain ⟨r', hr', hc⟩ := he.same
  obtain ⟨q₀, k₀, hq₀, hrep, rfl, -, hkey⟩ := h.rows db hdb e.id e r' ⟨he.row, hr'⟩
  exact ⟨q₀, k₀, hq₀, hrep, hc, hkey⟩

theorem OfficeInv.replies_snoc {y : Office × OfficeLabel × Office} {k : Option String} (h : OfficeInv coll env tr x)
    (hmem : (q, .ok k) ∈ x.replies) : q.requestId ≠ "" ∧ Asked (tr ++ [y]) q ∧ ∃ q₀, Asked (tr ++ [y]) q₀ ∧
      coll q₀.requestId = coll q.requestId ∧ k ≠ none ∧ executionKey env "m" q₀.jobName q₀.requestId = k := by
  obtain ⟨hne, hq, q₀, hq₀, hrest⟩ := h.replies q k hmem
  exact ⟨hne, hq.snoc, q₀, hq₀.snoc, hrest⟩

/-- The replies after a step that gives one more answer. -/
theorem OfficeInv.answer (h : OfficeInv coll env tr x) {res : Except Err (Option String)} {l : OfficeLabel}
    (hl : l.request = some q) (hres : ∀ k, res = .ok k → q.requestId ≠ "" ∧ ∃ q₀, (q₀ = q ∨ Asked tr q₀) ∧
      coll q₀.requestId = coll q.requestId ∧ k ≠ none ∧ executionKey env "m" q₀.jobName q₀.requestId = k) :
    ∀ q' k, (q', .ok k) ∈ (q, res) :: x.replies → q'.requestId ≠ "" ∧ Asked (tr ++ [(x, l, x')]) q' ∧
      ∃ q₀, Asked (tr ++ [(x, l, x')]) q₀ ∧ coll q₀.requestId = coll q'.requestId ∧ k ≠ none ∧
        executionKey env "m" q₀.jobName q₀.requestId = k := by
  intro q' k hmem
  rcases List.mem_cons.1 hmem with heq | hmem
  · obtain ⟨rfl, rfl⟩ := Prod.mk.inj heq
    obtain ⟨hne, q₀, hq₀, hrest⟩ := hres k rfl
    refine ⟨hne, .last hl, q₀, ?_, hrest⟩
    rcases hq₀ with rfl | hq₀
    · exact .last hl
    · exact hq₀.snoc
  · exact h.replies_snoc hmem

theorem OfficeInv.init : OfficeInv coll env [] Office.init where
  now := List.mem_singleton_self _
  rows db hdb i e r he := by
    obtain rfl := List.mem_singleton.1 hdb
    cases he.1
  waiting _ h := by cases h
  replies _ _ h := by cases h

theorem OfficeInv.other (h : OfficeInv coll env tr x) (he : x.db.Elsewhere db') :
    OfficeInv coll env (tr ++ [(x, .other, { x with db := db', past := db' :: x.past })])
      { x with db := db', past := db' :: x.past } where
  now := List.mem_cons_self
  rows db₁ hdb i e r hreq := by
    rcases List.mem_cons.1 hdb with rfl | hdb
    · rcases he i e hreq.1 with ⟨e₀, he₀, hinfo⟩ | hnone
      · have hreq₀ : x.db.Requested r i e₀ := ⟨he₀, by rw [← hreq.2]; exact (congrArg ExecInfo.requestId hinfo).symm⟩
        exact ((h.rows _ h.now i e₀ r hreq₀).congr hinfo).snoc fun _ => id
      · rw [hreq.2] at hnone
        cases hnone
    · exact (h.rows db₁ hdb i e r hreq).snoc fun _ => id
  waiting := h.waiting
  replies _ _ hmem := h.replies_snoc hmem

theorem OfficeInv.look (h : OfficeInv coll env tr x) (q : TriggerRequest) :
    OfficeInv coll env (tr ++ [(x, .look q, x.looked coll q)]) (x.looked coll q) := by
  generalize hx' : x.looked coll q = x'
  have rows : x.replies ⊆ x'.replies → ∀ db ∈ x.past, ∀ i e r, db.Requested r i e →
      CreatedBy env (tr ++ [(x, .look q, x')]) x' e r := fun hsub db hdb i e r he => (h.rows db hdb i e r he).snoc hsub
  rcases x.looked_cases coll q with ⟨err, heq⟩ | ⟨hne, heq⟩ | ⟨e, hne, he, heq⟩
  · obtain rfl := hx'.symm.trans heq
    exact ⟨h.now, rows fun _ => List.mem_cons_of_mem _, h.waiting, h.answer rfl (fun k hk => by cases hk)⟩
  · obtain rfl := hx'.symm.trans heq
    refine ⟨h.now, rows fun _ => id, fun q' hq' => ?_, fun q' k hmem => h.replies_snoc hmem⟩
    rcases List.mem_cons.1 hq' with rfl | hq'
    · exact hne
    · exact h.waiting q' hq'
  · obtain rfl := hx'.symm.trans heq
    refine ⟨h.now, rows fun _ => List.mem_cons_of_mem _, h.waiting, h.answer rfl (fun k hk => ?_)⟩
    obtain rfl := Except.ok.inj hk
    obtain ⟨q₀, _, hq₀, -, hc, hkey⟩ := h.found h.now he
    exact ⟨hne, q₀, Or.inr hq₀, hc, by simp, hkey⟩

theorem OfficeInv.write (h : OfficeInv coll env tr x) (hw : q ∈ x.waiting) (hs : snap ∈ x.past) :
    OfficeInv coll env (tr ++ [(x, .write q c snap, x.wrote coll env q c snap)]) (x.wrote coll env q c snap) := by
  have hq := h.waiting q hw
  have waiting : ∀ q' ∈ x.waiting.erase q, q'.requestId ≠ "" := fun q' hq' => h.waiting q' (List.mem_of_mem_erase hq')
  generalize hx' : x.wrote coll env q c snap = x'
  have rows : x.replies ⊆ x'.replies → ∀ db ∈ x.past, ∀ i e r, db.Requested r i e →
      CreatedBy env (tr ++ [(x, .write q c snap, x')]) x' e r :=
    fun hsub db hdb i e r he => (h.rows db hdb i e r he).snoc hsub
  rcases x.wrote_cases coll env c snap hq with ⟨err, heq⟩ | ⟨k, db', ht, heq⟩
  · obtain rfl := hx'.symm.trans heq
    refine ⟨List.mem_cons_self, fun db hdb => ?_, waiting, h.answer rfl (fun k hk => by cases hk)⟩
    rcases List.mem_cons.1 hdb with rfl | hdb
    · exact rows (fun _ => List.mem_cons_of_mem _) _ h.now
    · exact rows (fun _ => List.mem_cons_of_mem _) db hdb
  · obtain rfl := hx'.symm.trans heq
    cases ht with
    | @created _ i e hnew hx hr hj hkey =>
      refine ⟨List.mem_cons_self, fun db hdb i' e' r he' => ?_, waiting, h.answer rfl fun k hk => ?_⟩
      · rcases List.mem_cons.1 hdb with rfl | hdb
        · have he₁ := he'.1
          rw [hx.execs] at he₁
          split at he₁
          · obtain rfl := Option.some.inj he₁
            obtain rfl := Option.some.inj (hr.symm.trans he'.2)
            exact ⟨q, _, .last rfl, List.mem_cons_self, rfl, hj.symm, hkey⟩
          · exact rows (fun _ => List.mem_cons_of_mem _) _ h.now i' e' r ⟨he₁, he'.2⟩
        · exact rows (fun _ => List.mem_cons_of_mem _) db hdb i' e' r he'
      · obtain rfl := Except.ok.inj hk
        exact ⟨hq, q, Or.inl rfl, rfl, by simp, hkey⟩
    | @repeated e he hj =>
      refine ⟨List.mem_cons_self, fun db hdb => ?_, waiting, h.answer rfl fun k hk => ?_⟩
      · rcases List.mem_cons.1 hdb with rfl | hdb
        · exact rows (fun _ => List.mem_cons_of_mem _) _ h.now
        · exact rows (fun _ => List.mem_cons_of_mem _) db hdb
      · obtain rfl := Except.ok.inj hk
        obtain ⟨q₀, _, hq₀, -, hc, hkey⟩ := h.found hs he
        exact ⟨hq, q₀, Or.inr hq₀, hc, by simp, hkey⟩

theorem OfficeInv.run (hr : Sys.Run (OfficeStep coll env) Office.init tr x) : OfficeInv coll env tr x := by
  refine Sys.Run.history (J := fun tr x => OfficeInv coll env tr x) .init ?_ hr
  intro tr x l x' _ h hst
  cases hst with
  | other he => exact h.other he
  | look q => exact h.look q
  | write hw hs => exact h.write hw hs

end office

/-! ## Distinct requests -/

/-- The parts of the key of the run a request asks for. -/
def TriggerRequest.parts (q : TriggerRequest) : KeyParts := ⟨"m", q.jobName, q.requestId⟩

/-- The requests of a run can be told apart: by the sort keys of their ids, and by their execution keys. -/
structure Distinguishable (coll : String → String) (env : Env) (tr : List (Office × OfficeLabel × Office)) : Prop where
  ids    : ∀ q q', Asked tr q → Asked tr q' → coll q.requestId = coll q'.requestId → q.requestId = q'.requestId
  built  : ∀ q, Asked tr q → q.requestId ≠ "" → q.parts.Built
  keys   : ∀ q q', Asked tr q → Asked tr q' → ¬ q.parts.Imitates q'.parts
  digest : ∀ q q', Asked tr q → Asked tr q' → env.digest q.parts.text = env.digest q'.parts.text →
    q.parts.text = q'.parts.text

section distinct

variable {tr : List (Office × OfficeLabel × Office)} {x : Office}

theorem Distinguishable.parts_eq (h : Distinguishable coll env tr) (hd : env.Hex) {q q' : TriggerRequest}
    (hq : Asked tr q) (hq' : Asked tr q') (hne : q.requestId ≠ "") (hne' : q'.requestId ≠ "") {key : String}
    (hk : executionKey env "m" q.jobName q.requestId = some key)
    (hk' : executionKey env "m" q'.jobName q'.requestId = some key) : q.parts = q'.parts := by
  have heq : q.parts.key env = q'.parts.key env := (executionKey_iff.1 hk).symm.trans (executionKey_iff.1 hk')
  exact KeyParts.text_inj (h.built q hq hne) (h.built q' hq' hne')
    (KeyParts.text_of_key hd (h.digest q q' hq hq') (h.keys q q' hq hq') (h.keys q' q hq' hq) heq)

/-- **Distinct requests get distinct runs**, along every run whose requests can be told apart.  A call that succeeds
with a request id no call has succeeded with before returns the key of an execution it has created itself, and two
calls that return one key have one request id. -/
theorem distinct_requests_distinct_runs (hr : Sys.Run (OfficeStep coll env) Office.init tr x) (hd : env.Hex)
    (h : Distinguishable coll env tr) :
    (∀ y ∈ tr, ∀ q k, y.2.2.replies = (q, .ok k) :: y.1.replies →
      (∀ q' k', (q', .ok k') ∈ y.1.replies → q'.requestId ≠ q.requestId) →
      ∃ i e, y.1.db.exec? i = none ∧ y.2.2.db.exec? i = some e ∧ k = some e.executionKey) ∧
    ∀ q q' k, (q, .ok k) ∈ x.replies → (q', .ok k) ∈ x.replies → q.requestId = q'.requestId := by
  constructor
  · rintro ⟨x₀, l, x₁⟩ hy q k hrep hnew
    obtain ⟨pre, hpre, hrun, hst⟩ := hr.mem_step hy
    have hinv := OfficeInv.run hrun
    have hsub : ∀ {q'}, Asked pre q' → Asked tr q' := by
      rintro q' ⟨z, hz, hq'⟩
      exact ⟨z, hpre.subset (List.mem_append_left _ hz), hq'⟩
    -- a row that is found carries an id some call has succeeded with
    have hfound : ∀ {db e}, db ∈ x₀.past → db.RequestedIn coll q.requestId e → l.request = some q → False := by
      intro db e hdb he hl
      obtain ⟨q₀, k₀, hq₀, hrep₀, hc, -⟩ := hinv.found hdb he
      exact hnew q₀ k₀ hrep₀ (h.ids q₀ q (hsub hq₀) ⟨_, hy, hl⟩ hc)
    have hst : OfficeStep coll env x₀ l x₁ := hst
    cases hst with
    | other => exact absurd hrep.symm (List.cons_ne_self _ _)
    | look q' =>
      simp only at hrep
      rcases x₀.looked_cases coll q' with ⟨err, heq⟩ | ⟨-, heq⟩ | ⟨e, -, he, heq⟩
      · rw [heq] at hrep
        cases (List.cons.inj hrep).1
      · rw [heq] at hrep
        exact absurd hrep.symm (List.cons_ne_self _ _)
      · rw [heq] at hrep
        obtain ⟨rfl, -⟩ := Prod.mk.inj (List.cons.inj hrep).1
        exact absurd (hfound hinv.now he rfl) id
    | @write q' c snap hw hs =>
      simp only at hrep
      rcases x₀.wrote_cases coll env c snap (hinv.waiting q' hw) with ⟨err, heq⟩ | ⟨k', db', ht, heq⟩
      · rw [heq] at hrep
        cases (List.cons.inj hrep).1
      · rw [heq] at hrep ⊢
        obtain ⟨rfl, hk⟩ := Prod.mk.inj (List.cons.inj hrep).1
        obtain rfl := Except.ok.inj hk
        cases ht with
        | @created _ i e hnew hx =>
          exact ⟨i, e, DB.exec?_eq_none_of_lt hnew, (hx.execs i).trans (if_pos rfl), rfl⟩
        | repeated he => exact absurd (hfound hs he rfl) id
  · intro q q' k hq hq'
    obtain ⟨hne, hask, q₀, hq₀, hc, hsome, hk⟩ := (OfficeInv.run hr).replies q k hq
    obtain ⟨hne', hask', q₀', hq₀', hc', -, hk'⟩ := (OfficeInv.run hr).replies q' k hq'
    have hid := h.ids q₀ q hq₀ hask hc
    have hid' := h.ids q₀' q' hq₀' hask' hc'
    obtain ⟨key, rfl⟩ := Option.ne_none_iff_exists'.1 hsome
    have hparts := h.parts_eq hd hq₀ hq₀' (by rwa [hid]) (by rwa [hid']) hk hk'
    rw [← hid, ← hid']
    exact congrArg KeyParts.discriminator hparts

end distinct

/-! ## Two requests -/

/-- The sort key of plain text where case is ignored. -/
def lowerCase (s : String) : String := String.ofList (s.toList.map Char.toLower)

def request (id : String) : TriggerRequest := ⟨"sync", id, "operator", "now", ""⟩

/-- A schema with one job. -/
def oneJob : Office :=
  let db := ((World.init 0).call bareEnv (.createJob (sampleJob "sync" .fixedDelay "1000") 0 "operator" "new") 0).db
  { Office.init with db := db, past := db :: Office.init.past }

/-- The request `req-1` has been looked for. -/
def firstLooked : Office := oneJob.looked lowerCase (request "req-1")

/-- And served. -/
def firstDone (env : Env) : Office :=
  firstLooked.wrote lowerCase env (request "req-1") (Ctx.at_ 1) firstLooked.db

/-- The steps up to there. -/
def firstTrace (env : Env) : List (Office × OfficeLabel × Office) :=
  [(Office.init, .other, oneJob), (oneJob, .look (request "req-1"), firstLooked),
   (firstLooked, .write (request "req-1") (Ctx.at_ 1) firstLooked.db, firstDone env)]

theorem firstDone_run (env : Env) :
    Sys.Run (OfficeStep lowerCase env) Office.init (firstTrace env) (firstDone env) := by
  have h₁ : OfficeStep lowerCase env Office.init .other oneJob := .other (fun i e' he' => by cases he')
  have h₂ : OfficeStep lowerCase env oneJob (.look (request "req-1")) firstLooked := .look _
  have h₃ : OfficeStep lowerCase env firstLooked (.write (request "req-1") (Ctx.at_ 1) firstLooked.db)
      (firstDone env) := .write (by decide +kernel) (by exact List.mem_cons_self)
  exact ((Sys.Run.nil.snoc h₁).snoc h₂).snoc h₃

/-- A digest that tells the two requests apart. -/
def pairEnv : Env := KeyParts.oneDigest (request "req-1").parts.text zeros

def secondLooked : Office := (firstDone pairEnv).looked lowerCase (request "req-2")

def secondDone : Office :=
  secondLooked.wrote lowerCase pairEnv (request "req-2") (Ctx.at_ 2) secondLooked.db

def secondTrace : List (Office × OfficeLabel × Office) :=
  firstTrace pairEnv ++ [(firstDone pairEnv, .look (request "req-2"), secondLooked)] ++
    [(secondLooked, .write (request "req-2") (Ctx.at_ 2) secondLooked.db, secondDone)]

theorem secondDone_run : Sys.Run (OfficeStep lowerCase pairEnv) Office.init secondTrace secondDone := by
  have h₁ : OfficeStep lowerCase pairEnv (firstDone pairEnv) (.look (request "req-2")) secondLooked := .look _
  have h₂ : OfficeStep lowerCase pairEnv secondLooked (.write (request "req-2") (Ctx.at_ 2) secondLooked.db)
      secondDone := .write (by decide +kernel) (by exact List.mem_cons_self)
  exact ((firstDone_run pairEnv).snoc h₁).snoc h₂

theorem asked_second {q : TriggerRequest} (h : Asked secondTrace q) : q = request "req-1" ∨ q = request "req-2" := by
  obtain ⟨y, hy, hq⟩ := h
  simp only [secondTrace, firstTrace, List.cons_append, List.nil_append, List.mem_cons, List.not_mem_nil,
    or_false] at hy
  rcases hy with rfl | rfl | rfl | rfl | rfl
  · cases hq
  all_goals
    obtain rfl := Option.some.inj hq
    simp

theorem secondTrace_distinguishable : Distinguishable lowerCase pairEnv secondTrace where
  ids q q' hq hq' := by
    rcases asked_second hq with rfl | rfl <;> rcases asked_second hq' with rfl | rfl <;> decide +kernel
  built q hq _ := by
    rcases asked_second hq with rfl | rfl <;> exact .manual sync_identifier (by decide) (by decide)
  keys q q' hq _ h := by
    have hlen := h.1
    rw [KeyParts.length_bytes] at hlen
    rcases asked_second hq with rfl | rfl <;> exact absurd hlen (by decide +kernel)
  digest q q' hq hq' h := by
    have hne : pairEnv.digest (request "req-2").parts.text ≠ pairEnv.digest (request "req-1").parts.text :=
      KeyParts.oneDigest_ne (by decide +kernel)
    rcases asked_second hq with rfl | rfl <;> rcases asked_second hq' with rfl | rfl
    · rfl
    · exact absurd h.symm hne
    · exact absurd h hne
    · rfl

theorem distinct_requests_distinct_runs_pair :
    secondDone.replies = [(request "req-2", .ok (some "m:sync:req-2")), (request "req-1", .ok (some "m:sync:req-1"))] ∧
      ∀ q q' k, (q, .ok k) ∈ secondDone.replies → (q', .ok k) ∈ secondDone.replies → q.requestId = q'.requestId :=
  ⟨by decide +kernel, (distinct_requests_distinct_runs secondDone_run (KeyParts.oneDigest_hex zeros_digest)
    secondTrace_distinguishable).2⟩

/-- **A new request gets no run of its own**: `REQ-1` is answered with the execution of `req-1`. -/
theorem upper_case_request_is_a_repeat : ∃ tr x, Sys.Run (OfficeStep lowerCase bareEnv) Office.init tr x ∧
    x.replies = [(request "REQ-1", .ok (some "m:sync:req-1")), (request "req-1", .ok (some "m:sync:req-1"))] ∧
    x.db.executions.lastId = 1 ∧ (request "REQ-1").requestId ≠ (request "req-1").requestId :=
  ⟨_, _, (firstDone_run bareEnv).snoc (.look (request "REQ-1")), by decide +kernel, by decide +kernel, by decide⟩

end GoJob
