import GoJob.CommitJob
/-!
# Rows — one execution row across a commit

What a commit means for a single row of `job_execution`: it stays, it makes one move, retention deletes it, or it is
new.  Everything about the life of an execution follows from the moves.
-/
namespace GoJob

variable {env : Env} {c : Ctx} {db db' : DB} {a : Action}

theorem CatalogStep.exec? (h : CatalogStep c db db') (i : Nat) : db'.exec? i = db.exec? i := by
  cases h with
  | create _ _ _ _ _ _ _ _ hx => exact hx i
  | edit _ _ _ _ _ _ _ hx => exact hx i
  | audit _ _ hx => exact hx i

theorem catalog_exec? (h : Relation.ReflTransGen (CatalogStep c) db db') (i : Nat) : db'.exec? i = db.exec? i := by
  induction h with
  | refl => rfl
  | tail _ hs ih => rw [hs.exec?, ih]

/-- The catalogue's transactions never touch a state row that exists. -/
theorem catalog_state? (h : Relation.ReflTransGen (CatalogStep c) db db') {j : String} {s : StateRow}
    (hs : db.state? j = some s) : db'.state? j = some s := by
  induction h with
  | refl => exact hs
  | tail _ hstep ih =>
    cases hstep with
    | edit _ _ _ _ _ _ hst => rw [hst]; exact ih
    | audit _ hst => rw [hst]; exact ih
    | create d _ _ _ _ hnone _ hst =>
      rw [hst, if_neg]
      · exact ih
      · rintro rfl
        rw [hnone] at ih; cases ih

/-- What a commit does to one existing row. -/
inductive RowStep (c : Ctx) : Action → ExecRow → Option ExecRow → Prop
  | same {b : Action} (e : ExecRow) : RowStep c b e (some e)
  | move {b : Action} {e e' : ExecRow} (h : ExecMove c b e e') : RowStep c b e (some e')
  | delete {s o : Instant} {l : Int} {e : ExecRow} (h : e.expired (c.now - s) (c.now - o) = true) (hs : 0 < s)
      (ho : 0 < o) : RowStep c (.reapExecutions s o l) e none

theorem RowStep.of_onExec {i k : Nat} {e e' x : ExecRow} (he : db.exec? i = some e) (hm : ExecMove c a e e')
    (hx : db.exec? k = some x) (h : db'.exec? k = if k = i then some e' else db.exec? k) :
    RowStep c a x (db'.exec? k) := by
  by_cases hk : k = i
  · subst hk
    obtain rfl : e = x := Option.some.inj (he.symm.trans hx)
    rw [h, if_pos rfl]
    exact .move hm
  · rw [h, if_neg hk, hx]
    exact .same x

/-- **A row of a committed call stays, moves, or is deleted.** -/
theorem Commit.row (h : Commit env c db a db') {i : Nat} {e : ExecRow} (he : db.exec? i = some e) :
    RowStep c a e (db'.exec? i) := by
  have stay : db'.exec? i = db.exec? i → RowStep c a e (db'.exec? i) := fun hx => by
    rw [hx, he]; exact .same e
  cases h with
  | idle _ _ hx _ => exact stay (hx i)
  | exec he' hm _ _ _ _ _ hf => exact .of_onExec he' hm he (hf.execs i)
  | expire he' hm _ hf => exact .of_onExec he' hm he (hf.execs i)
  | acquire _ _ _ he' hj _ _ hst hb hc hf =>
    exact .of_onExec he' (.dispatch _ _ _ (DB.exec?_id he') hj hst hb hc) he (hf.execs i)
  | renew _ he' _ hm hf => exact .of_onExec he' hm he (hf.execs i)
  | adopt _ he' _ _ hm hf => exact .of_onExec he' hm he (hf.execs i)
  | close hcl =>
    obtain ⟨_, _, _, _, _, he', _, _, hm, _, hf, -⟩ := hcl
    exact .of_onExec he' hm he (hf.execs i)
  | skip _ _ he' hm _ _ _ hf => exact .of_onExec he' hm he (hf.execs i)
  | clock _ _ _ hf => exact stay (hf.execs i)
  | pause _ hf => exact stay (hf.execs i)
  | create _ _ _ _ hi _ hf =>
    refine stay ((hf.execs i).trans (if_neg ?_))
    rintro rfl
    rw [DB.exec?_eq_none_of_lt hi] at he; cases he
  | retire _ _ _ _ hrows _ _ =>
    obtain ⟨e', he', hcase⟩ := hrows i e he
    rw [he']
    rcases hcase with ⟨rfl, _⟩ | hm
    · exact .same _
    · exact .move hm
  | reap _ _ hrows _ hs ho _ =>
    rcases hrows i e he with hx | ⟨hx, hexp⟩
    · exact stay (hx.trans he.symm)
    · rw [hx]; exact .delete hexp hs ho
  | revive _ _ he' hm hf => exact .of_onExec he' hm he (hf.execs i)
  | catalog hs => exact stay (catalog_exec? hs i)

/-- A row that is still there is as it was, or made one move. -/
theorem Commit.moved (h : Commit env c db a db') {i : Nat} {e e' : ExecRow} (he : db.exec? i = some e)
    (he' : db'.exec? i = some e') : e' = e ∨ ExecMove c a e e' := by
  have hr := h.row he
  rw [he'] at hr
  cases hr with
  | same => exact Or.inl rfl
  | move hm => exact Or.inr hm

/-- **A row a committed call adds is one of the created executions**, under an unused key. -/
theorem Commit.new (h : Commit env c db a db') {i : Nat} {e : ExecRow} (hn : db.exec? i = none)
    (he : db'.exec? i = some e) : ∃ j d s s', db.def? j = some d ∧ db.state? j = some s ∧ e.jobName = j ∧
      Creates env c d a s s' e ∧ OnBoth db db' j s' i e ∧ db.executions.lastId < i ∧
      ∀ k e₀, db.exec? k = some e₀ → e₀.executionKey ≠ e.executionKey := by
  have stay : ∀ {p : Prop}, db'.exec? i = db.exec? i → p := fun hx => by
    rw [hx, hn] at he; cases he
  have onExec : ∀ {p : Prop} {k : Nat} {x x' : ExecRow}, db.exec? k = some x →
      (db'.exec? i = if i = k then some x' else db.exec? i) → p := fun hx hf => by
    refine stay (hf.trans (if_neg ?_))
    rintro rfl
    rw [hn] at hx; cases hx
  cases h with
  | idle _ _ hx _ => exact stay (hx i)
  | exec he' _ _ _ _ _ _ hf => exact onExec he' (hf.execs i)
  | expire he' _ _ hf => exact onExec he' (hf.execs i)
  | acquire _ _ _ he' _ _ _ _ _ _ hf => exact onExec he' (hf.execs i)
  | renew _ he' _ _ hf => exact onExec he' (hf.execs i)
  | adopt _ he' _ _ _ hf => exact onExec he' (hf.execs i)
  | close hcl =>
    obtain ⟨_, _, _, _, _, he', _, _, _, _, hf, -⟩ := hcl
    exact onExec he' (hf.execs i)
  | skip _ _ he' _ _ _ _ hf => exact onExec he' (hf.execs i)
  | clock _ _ _ hf => exact stay (hf.execs i)
  | pause _ hf => exact stay (hf.execs i)
  | create hd hs hj hm hi hk hf =>
    rename_i j d s s' e'
    by_cases hie : i = e'.id
    · subst hie
      obtain rfl : e' = e := Option.some.inj (hf.exec?.symm.trans he)
      exact ⟨j, d, s, s', hd, hs, hj, hm, hf, hi, hk⟩
    · exact stay ((hf.execs i).trans (if_neg hie))
  | retire _ _ _ _ _ hnew => exact stay ((hnew i hn).trans hn.symm)
  | reap _ _ _ hnew => exact stay ((hnew i hn).trans hn.symm)
  | revive _ _ he' _ hf => exact onExec he' (hf.execs i)
  | catalog hs => exact stay (catalog_exec? hs i)

theorem CatalogStep.lastId_le (h : CatalogStep c db db') : db.executions.lastId ≤ db'.executions.lastId := by
  cases h with
  | create _ _ _ _ _ _ _ _ _ hl => exact hl
  | edit _ _ _ _ _ _ _ _ hl => exact hl
  | audit _ _ _ hl => exact hl

/-- **Ids are not used twice**: the counter never falls, and a new row is above it. -/
theorem Commit.lastId_le (h : Commit env c db a db') : db.executions.lastId ≤ db'.executions.lastId := by
  cases h with
  | idle _ _ _ hl => exact hl
  | exec _ _ _ _ _ _ _ hf => exact hf.last
  | expire _ _ _ hf => exact hf.last
  | acquire _ _ _ _ _ _ _ _ _ _ hf => exact hf.last
  | renew _ _ _ _ hf => exact hf.last
  | adopt _ _ _ _ _ hf => exact hf.last
  | close hcl =>
    obtain ⟨_, _, _, _, _, _, _, _, _, _, hf, -⟩ := hcl
    exact hf.last
  | skip _ _ _ _ _ _ _ hf => exact hf.last
  | clock _ _ _ hf => exact hf.last
  | pause _ hf => exact hf.last
  | create _ _ _ _ _ _ hf => exact hf.last
  | retire _ _ _ _ _ _ hl => exact hl
  | reap _ _ _ _ _ _ hl => exact hl
  | revive _ _ _ _ hf => exact hf.last
  | catalog hs =>
    induction hs with
    | refl => exact le_refl _
    | tail _ hstep ih => exact le_trans ih hstep.lastId_le

/-! ## What every move keeps -/

section charged

variable (e : ExecRow) (k : Holder)

@[simp] theorem ExecRow.charged_info : (e.charged c k).toExecInfo = e.toExecInfo := by
  unfold ExecRow.charged; split <;> rfl

@[simp] theorem ExecRow.charged_runToken : (e.charged c k).runToken = e.runToken := by
  unfold ExecRow.charged; split <;> rfl

@[simp] theorem ExecRow.charged_timeoutAt : (e.charged c k).timeoutAt = e.timeoutAt := by
  unfold ExecRow.charged; split <;> rfl

@[simp] theorem ExecRow.charged_maxAttempts : (e.charged c k).maxAttempts = e.maxAttempts := by
  unfold ExecRow.charged; split <;> rfl

@[simp] theorem ExecRow.charged_recoveryCount : (e.charged c k).recoveryCount = e.recoveryCount := by
  unfold ExecRow.charged; split <;> rfl

theorem ExecRow.charged_attemptNo : (e.charged c k).attemptNo =
    if e.unaccepted k.runToken k.fenceEpoch then e.attemptNo + 1 else e.attemptNo := by
  unfold ExecRow.charged; split <;> rfl

end charged

/-- **No move changes a row's identity.** -/
theorem ExecMove.info {e e' : ExecRow} (h : ExecMove c a e e') : e'.toExecInfo = e.toExecInfo := by
  cases h with
  | complete => exact e.charged_info _
  | retry => exact e.charged_info _
  | _ => rfl

theorem Commit.info (h : Commit env c db a db') {i : Nat} {e e' : ExecRow} (he : db.exec? i = some e)
    (he' : db'.exec? i = some e') : e'.toExecInfo = e.toExecInfo := by
  rcases h.moved he he' with rfl | hm
  · rfl
  · exact hm.info

structure FreshRow (d : DefinitionRow) (e : ExecRow) : Prop where
  status        : e.status = .ready
  runToken      : e.runToken = none
  attemptNo     : e.attemptNo = 0
  recoveryCount : e.recoveryCount = 0
  maxAttempts   : e.maxAttempts = d.maxAttempts
  maxRecoveries : e.maxRecoveries = d.maxRecoveries
  retired       : d.retired = false

/-- **A created row is ready, unowned, and has its whole budget**, and its job is not retired. -/
theorem Creates.fresh {d : DefinitionRow} {s s' : StateRow} {e : ExecRow} (h : Creates env c d a s s' e) :
    FreshRow d e := by
  cases h with
  | cron _ _ _ _ _ hd => exact ⟨rfl, rfl, rfl, rfl, rfl, rfl, hd.retired⟩
  | poll _ _ _ hr => exact ⟨rfl, rfl, rfl, rfl, rfl, rfl, hr⟩
  | manual _ _ _ hr => exact ⟨rfl, rfl, rfl, rfl, rfl, rfl, hr⟩

/-- **A claim that ends a row found it ready and leaves its ownership columns.** -/
theorem ExecMove.ended_by_claim {p : ClaimParams} {r : Runnable} {e e' : ExecRow} (h : ExecMove c (.claim p r) e e')
    (ht : e'.status.terminal = true) :
    e.jobName = p.jobName ∧ e.status = .ready ∧ e'.runToken = e.runToken ∧ e'.fenceEpoch = e.fenceEpoch := by
  cases h with
  | expire _ hj hs => exact ⟨hj, hs, rfl, rfl⟩
  | skip _ _ hj hs => exact ⟨hj, hs, rfl, rfl⟩
  | dispatch => cases ht
  | defer _ hs =>
    have ht : e.status.terminal = true := ht
    rw [hs] at ht; cases ht

theorem ExecMove.of_retire {j x y : String} {e e' : ExecRow} (h : ExecMove c (.retire j x y) e e') :
    e.jobName = j ∧ (e.status = .ready ∧ e'.status = .cancelled ∨
      e.status.cancellable = true ∧ e'.status = .cancelRequested) := by
  cases h with
  | retireReady hj hs => exact ⟨hj, Or.inl ⟨hs, rfl⟩⟩
  | retireHeld hj hs => exact ⟨hj, Or.inr ⟨hs, rfl⟩⟩

/-- **A finished row moves only when an operator revives it.** -/
theorem ExecMove.revived {e e' : ExecRow} (h : ExecMove c a e e') (ht : e.status.terminal = true) :
    ∃ j k x y, a = .authorizedRetry j k x y ∧ e.executionKey = k ∧ e.jobName = j ∧ e.status = .dead := by
  have ready : e.status = .ready → False := fun hs => by rw [hs] at ht; cases ht
  have held : e.status.held = true → False := fun hs => by
    rw [Status.not_terminal_of_held hs] at ht; cases ht
  cases h with
  | revive hk hj hs => exact ⟨_, _, _, _, rfl, hk, hj, hs⟩
  | dispatch _ _ _ _ _ hs => exact (ready hs).elim
  | defer _ hs => exact (ready hs).elim
  | expire _ _ hs => exact (ready hs).elim
  | skip _ _ _ hs => exact (ready hs).elim
  | retireReady _ hs => exact (ready hs).elim
  | accept _ ho => exact (held (by rw [(ExecRow.unaccepted_iff.1 ho).1]; rfl)).elim
  | retarget _ ho => exact (held (by rw [(ExecRow.unaccepted_iff.1 ho).1]; rfl)).elim
  | refuse _ ho => exact (held (by rw [(ExecRow.unaccepted_iff.1 ho).1]; rfl)).elim
  | renew _ hs => exact (held hs).elim
  | extend _ hr => exact (held (ExecRow.reportable_iff.1 hr).1).elim
  | complete _ _ hr => exact (held (ExecRow.reportable_iff.1 hr).1).elim
  | retry _ hr => exact (held (ExecRow.reportable_iff.1 hr).1).elim
  | cancel _ hs => exact (held (Status.held_of_cancellable hs)).elim
  | retireHeld _ hs => exact (held (Status.held_of_cancellable hs)).elim
  | adopt _ hs => exact (held hs).elim
  | resolve _ hs => exact (held hs).elim
  | fence _ hs => exact (held hs).elim
  | silence _ hs => exact (held (by rcases hs with hs | hs <;> rw [hs] <;> rfl)).elim
  | release _ hs => exact (held hs).elim

/-! ## One row along a run -/

/-- A history: every step with the world before it and after it. -/
abbrev History := List (World × (Action × Ctx) × World)

/-- **What is true of a new row and kept by every move is true of every row.** -/
theorem rows_invariant {P : ExecRow → Prop}
    (hnew : ∀ {c a d s s' e}, Creates env c d a s s' e → P e)
    (hmove : ∀ {c a e e'}, ExecMove c a e e' → P e → P e') {u : Utc} {tr : History} {w : World}
    (hr : Sys.Run (Step env) (World.init u) tr w) {i : Nat} {e : ExecRow} (he : w.db.exec? i = some e) : P e := by
  refine Sys.Run.invariant (I := fun w => ∀ i e, w.db.exec? i = some e → P e) ?_ ?_ hr i e he
  · intro i e he; cases he
  · intro w l w' h hst i e' he'
    cases he : w.db.exec? i with
    | none =>
      obtain ⟨_, _, _, _, -, -, -, hm, -⟩ := hst.commit.new he he'
      exact hnew hm
    | some e =>
      rcases hst.commit.moved he he' with rfl | hm
      · exact h i _ he
      · exact hmove hm (h i e he)

/-- **An id stands for one execution**: whatever a history saw under it has the identity of what is there now. -/
theorem row_identity {w₀ : World} {tr : History} {w : World} (hr : Sys.Run (Step env) w₀ tr w)
    {y : World × (Action × Ctx) × World} (hy : y ∈ tr) {i : Nat} {e e' : ExecRow} (he : y.1.db.exec? i = some e)
    (he' : w.db.exec? i = some e') : e'.toExecInfo = e.toExecInfo := by
  refine (Sys.Run.history (J := fun tr w => ∀ y ∈ tr, ∀ e, y.1.db.exec? i = some e →
    i ≤ w.db.executions.lastId ∧ ∀ e', w.db.exec? i = some e' → e'.toExecInfo = e.toExecInfo)
    (fun _ hy => by cases hy) ?_ hr y hy e he).2 e' he'
  intro tr w l w' hr ih hst y hy e he
  have before : i ≤ w.db.executions.lastId ∧ ∀ x, w.db.exec? i = some x → x.toExecInfo = e.toExecInfo := by
    rcases List.mem_append.1 hy with hy | hy
    · exact ih y hy e he
    · obtain rfl := List.mem_singleton.1 hy
      exact ⟨DB.exec?_le he, fun x hx => by rw [Option.some.inj (hx.symm.trans he)]⟩
  refine ⟨le_trans before.1 hst.commit.lastId_le, fun e' he' => ?_⟩
  cases hx : w.db.exec? i with
  | none =>
    obtain ⟨_, _, _, _, -, -, -, -, -, hlt, -⟩ := hst.commit.new hx he'
    exact absurd before.1 (not_le.2 hlt)
  | some x => exact (hst.commit.info hx he').trans (before.2 x hx)

/-- **A fact about a history and one row of it**: `P` until the row is created, `Q` while it exists. -/
theorem row_history {i : Nat} {P : History → Prop} {Q : History → World → ExecRow → Prop} {u : Utc} (h₀ : P [])
    (hP : ∀ tr w l w', P tr → w.db.exec? i = none → w'.db.exec? i = none → Step env w l w' → P (tr ++ [(w, l, w')]))
    (hborn : ∀ tr w l w' d s s' e, P tr → w.db.exec? i = none → w'.db.exec? i = some e → Step env w l w' →
      Creates env l.2 d l.1 s s' e → Q (tr ++ [(w, l, w')]) w' e)
    (hQ : ∀ tr w l w' e e', Sys.Run (Step env) (World.init u) tr w → Q tr w e → w.db.exec? i = some e →
      w'.db.exec? i = some e' → Step env w l w' → e' = e ∨ ExecMove l.2 l.1 e e' → Q (tr ++ [(w, l, w')]) w' e')
    {tr : History} {w : World} (hr : Sys.Run (Step env) (World.init u) tr w) {e : ExecRow}
    (he : w.db.exec? i = some e) : Q tr w e := by
  refine (Sys.Run.history (J := fun tr w => (w.db.executions.lastId < i → P tr) ∧
    ∀ e, w.db.exec? i = some e → Q tr w e) ⟨fun _ => h₀, fun e he => by cases he⟩ ?_ hr).2 e he
  rintro tr w l w' hr ⟨hbefore, hrow⟩ hst
  refine ⟨fun hlt => ?_, fun e' he' => ?_⟩
  · have hlt' := lt_of_le_of_lt hst.commit.lastId_le hlt
    exact hP tr w l w' (hbefore hlt') (DB.exec?_eq_none_of_lt hlt') (DB.exec?_eq_none_of_lt hlt) hst
  · cases he : w.db.exec? i with
    | none =>
      obtain ⟨_, d, s, s', -, -, -, hm, -, hlt, -⟩ := hst.commit.new he he'
      exact hborn tr w l w' d s s' e' (hbefore hlt) he he' hst hm
    | some e =>
      exact hQ tr w l w' e e' hr (hrow e he) he he' hst (hst.commit.moved he he')

end GoJob
