import GoJob.Rows
/-!
# Holder — one holder per job

The state row's lock columns and the held executions describe each other: the lock is taken exactly while one execution
of the job is `dispatching`, `running` or `cancel_requested`, and then both carry the same key, token and epoch.  What a
commit does to ownership is one of four things (`LockEffect`): nothing, an acquisition, an adoption or a release.
-/
namespace GoJob

variable {env : Env} {c : Ctx} {db db' : DB} {a : Action}

/-! ## Ownership columns -/

/-- `active_kind`, `active_execution`, `active_run_token`, `fence_epoch`. -/
def StateRow.lockCols (s : StateRow) : Option ActiveKind × Option String × Option String × Nat :=
  (s.activeKind, s.activeExecution, s.activeRunToken, s.fenceEpoch)

/-- What of an execution row ownership depends on. -/
def ExecRow.heldCols (e : ExecRow) : ExecInfo × Bool × Option String × Nat :=
  (e.toExecInfo, e.status.held, e.runToken, e.fenceEpoch)

theorem StateRow.lockCols_eq {s s' : StateRow} (h : s'.lockCols = s.lockCols) :
    s'.activeKind = s.activeKind ∧ s'.activeExecution = s.activeExecution ∧ s'.activeRunToken = s.activeRunToken ∧
      s'.fenceEpoch = s.fenceEpoch := by
  simpa [StateRow.lockCols] using h

theorem ExecRow.heldCols_eq {e e' : ExecRow} (h : e'.heldCols = e.heldCols) :
    e'.toExecInfo = e.toExecInfo ∧ e'.status.held = e.status.held ∧ e'.runToken = e.runToken ∧
      e'.fenceEpoch = e.fenceEpoch := by
  simpa [ExecRow.heldCols] using h

/-- A state row whose ownership columns stay, or a new one that is free. -/
inductive LockKept : Option StateRow → Option StateRow → Prop
  | row {s s' : StateRow} (h : s'.lockCols = s.lockCols) : LockKept (some s) (some s')
  | absent : LockKept none none
  | new {s' : StateRow} (h : s'.lockCols = (none, none, none, 0)) : LockKept none (some s')

/-- An execution row whose ownership columns stay, or one that comes or goes unowned. -/
inductive RowKept : Option ExecRow → Option ExecRow → Prop
  | row {e e' : ExecRow} (h : e'.heldCols = e.heldCols) : RowKept (some e) (some e')
  | absent : RowKept none none
  | new {e' : ExecRow} (h : e'.status.held = false) : RowKept none (some e')
  | gone {e : ExecRow} (h : e.status.held = false) : RowKept (some e) none

/-- A change that leaves ownership alone. -/
structure Quiet (db db' : DB) : Prop where
  locks : ∀ j, LockKept (db.state? j) (db'.state? j)
  rows  : ∀ i, RowKept (db.exec? i) (db'.exec? i)

/-- **What a commit does to ownership.** -/
inductive LockEffect (db db' : DB) : Prop
  | quiet (h : Quiet db db')
  | acquire {j t : String} {i : Nat} {s s' : StateRow} {e e' : ExecRow} (hs : db.state? j = some s)
      (he : db.exec? i = some e) (hj : e.jobName = j) (hfree : s.activeKind = none)
      (hs' : s'.lockCols = (some .execution, some e.executionKey, some t, s.fenceEpoch + 1))
      (he' : e'.heldCols = (e.toExecInfo, true, some t, s.fenceEpoch + 1)) (hf : OnBoth db db' j s' i e')
  | adopt {j t : String} {i n : Nat} {s s' : StateRow} {e e' : ExecRow} (hs : db.state? j = some s)
      (he : db.exec? i = some e) (hown : s.owned t n = true) (hrow : e.owned t n = true)
      (hs' : s'.lockCols = (s.activeKind, s.activeExecution, some t, n + 1))
      (he' : e'.heldCols = (e.toExecInfo, true, some t, n + 1)) (hf : OnBoth db db' j s' i e')
  | release {j t : String} {i n : Nat} {s s' : StateRow} {e e' : ExecRow} (hs : db.state? j = some s)
      (he : db.exec? i = some e) (hown : s.owned t n = true) (hrow : e.owned t n = true)
      (hs' : s'.lockCols = (none, none, none, n)) (hi : e'.toExecInfo = e.toExecInfo) (hst : e'.status.held = false)
      (hf : OnBoth db db' j s' i e')

/-! ## Quiet changes -/

theorem LockKept.refl : ∀ o : Option StateRow, LockKept o o
  | none => .absent
  | some _ => .row rfl

theorem RowKept.refl : ∀ o : Option ExecRow, RowKept o o
  | none => .absent
  | some _ => .row rfl

theorem LockKept.of_set {j : String} {s s' : StateRow} (hs : db.state? j = some s) (hl : s'.lockCols = s.lockCols)
    (hf : ∀ k, db'.state? k = if k = j then some s' else db.state? k) (k : String) :
    LockKept (db.state? k) (db'.state? k) := by
  rw [hf k]
  split
  · rename_i hk
    rw [hk, hs]
    exact .row hl
  · exact .refl _

theorem RowKept.of_set {i : Nat} {e e' : ExecRow} (he : db.exec? i = some e) (hh : e'.heldCols = e.heldCols)
    (hf : ∀ k, db'.exec? k = if k = i then some e' else db.exec? k) (k : Nat) :
    RowKept (db.exec? k) (db'.exec? k) := by
  rw [hf k]
  split
  · rename_i hk
    rw [hk, he]
    exact .row hh
  · exact .refl _

theorem LockKept.of_eq (h : ∀ k, db'.state? k = db.state? k) (k : String) : LockKept (db.state? k) (db'.state? k) := by
  rw [h k]; exact .refl _

theorem RowKept.of_eq (h : ∀ k, db'.exec? k = db.exec? k) (k : Nat) : RowKept (db.exec? k) (db'.exec? k) := by
  rw [h k]; exact .refl _

theorem LockKept.of_catalog (h : Relation.ReflTransGen (CatalogStep c) db db') (k : String) :
    LockKept (db.state? k) (db'.state? k) := by
  induction h with
  | refl => exact .refl _
  | tail _ hstep ih =>
    cases hstep with
    | edit _ _ _ _ _ _ hs => rw [hs k]; exact ih
    | audit _ hs => rw [hs k]; exact ih
    | create d next x hp hd hs hdefs hstates =>
      rw [hstates k]
      split
      · rename_i hk
        rw [← hk, hs] at ih
        cases hold : db.state? d.jobName with
        | none => rw [← hk, hold]; exact .new rfl
        | some s => rw [hold] at ih; cases ih
      · exact ih

/-! ## The effect of each commit -/

theorem PollSettled.lockCols {d : DefinitionRow} {e : ExecRow} {s s' : StateRow} (h : PollSettled c d e s s') :
    s'.lockCols = s.lockCols := by
  cases h <;> rfl

theorem ClockMove.lockCols {d : DefinitionRow} {s s' : StateRow} (h : ClockMove env c db d a s s') :
    s'.lockCols = s.lockCols := by
  cases h <;> rfl

theorem Creates.lockCols {d : DefinitionRow} {s s' : StateRow} {e : ExecRow} (h : Creates env c d a s s' e) :
    s'.lockCols = s.lockCols := by
  cases h <;> rfl

theorem resolvedStatus_not_held (v : Stale) : (resolvedStatus v).held = false := by
  unfold resolvedStatus
  repeat' split
  all_goals rfl

/-- **`Resolve` returns a row to `ready` only within its cap and both budgets**, and never one asked to stop. -/
theorem resolvedStatus_ready {v : Stale} (h : resolvedStatus v = .ready) :
    v.status ≠ .cancelRequested ∧ v.timeoutExpired = false ∧ v.attemptNo < v.maxAttempts ∧
      v.recoveryCount + 1 < v.maxRecoveries := by
  unfold resolvedStatus at h
  split at h
  · cases h
  · split at h
    · cases h
    · split at h
      · cases h
      · rename_i h₁ h₂ h₃
        rw [not_or, not_le, not_le] at h₃
        exact ⟨h₁, by simpa using h₂, h₃⟩

theorem endedStatus_terminal (v : Stale) : (endedStatus v).terminal = true := by
  unfold endedStatus
  split <;> rfl

theorem Status.not_held_of_terminal {s : Status} (h : s.terminal = true) : s.held = false := by
  cases s <;> simp_all [Status.terminal, Status.held]

/-- **An ending leaves the row unowned**, from a row that was held. -/
theorem ExecMove.closed {e e' : ExecRow} {q : Closing} (h : ExecMove c a e e') (ha : a.closing = some q) :
    e.status.held = true ∧ e'.status.held = false := by
  have hend : ∀ v, (endedStatus v).held = false := fun v => Status.not_held_of_terminal (endedStatus_terminal v)
  cases h with
  | refuse hi ho =>
    refine ⟨by rw [(ExecRow.unaccepted_iff.1 ho).1]; rfl, ?_⟩
    simp only [refuseWrite]
    split <;> rfl
  | complete hi ht hr => exact ⟨(ExecRow.reportable_iff.1 hr).1, Status.not_held_of_terminal ht⟩
  | retry hi hr =>
    refine ⟨(ExecRow.reportable_iff.1 hr).1, ?_⟩
    simp only [retryWrite]
    split <;> rfl
  | resolve hi hs => exact ⟨hs, resolvedStatus_not_held _⟩
  | fence hi hs => exact ⟨hs, hend _⟩
  | silence hi hs => exact ⟨by rcases hs with hs | hs <;> rw [hs] <;> rfl, hend _⟩
  | release hi hs => exact ⟨hs, hend _⟩
  | _ => simp [Action.closing] at ha

/-- The moves that leave a held row held. -/
inductive HeldWrite (c : Ctx) : Action → ExecRow → ExecRow → Prop
  | accept {i t n l e} (ho : e.unaccepted t n = true) :
      HeldWrite c (.accept i t n l) e ((acceptWrite c l (c.utc 0)).run e)
  | retarget {h x e} : HeldWrite c (.retarget h x) e ((retargetWrite x).run e)
  | renew {h l e} : HeldWrite c (.renew h l) e ((renewWrite l (c.utc 1)).run e)
  | extend {h l e} : HeldWrite c (.extendDeadline h l) e ((extendWrite l (c.utc 0)).run e)
  | cancel {i x y e} (hi : e.id = i) (hs : e.status.cancellable = true) :
      HeldWrite c (.requestCancel i x y) e (cancelWrite.run e)
  | retire {j x y e} (hj : e.jobName = j) (hs : e.status.cancellable = true) :
      HeldWrite c (.retire j x y) e (cancelWrite.run e)
  | adopt {v o l s p e} (hi : e.id = v.id) (ho : e.owned v.runToken v.fenceEpoch = true) :
      HeldWrite c (.adopt v o l s p) e
        ((adoptWrite c o (v.fenceEpoch + 1) l s (p && decide (e.status = .dispatching)) (c.utc 3)).run e)

theorem HeldWrite.token {e e' : ExecRow} (h : HeldWrite c a e e') : e'.runToken = e.runToken := by
  cases h <;> rfl

/-- What a move does to the holder of a row. -/
inductive HolderMove (c : Ctx) (a : Action) (e e' : ExecRow) : Prop
  | dispatched {t : String} (ha : a.mints = some t) (hs : e.status = .ready) (hs' : e'.status = .dispatching)
      (ht : e'.runToken = some t)
  | written (hh : e.status.held = true) (hh' : e'.status.held = true) (h : HeldWrite c a e e')
  | closed {q : Closing} (ha : a.closing = some q) (hi : q.executionId = e.id)
      (ho : e.owned q.runToken q.fenceEpoch = true) (hh' : e'.status.held = false)
  | unheld (hh : e.status.held = false) (hh' : e'.status.held = false)

/-- **A row is dispatched, written by or for its holder, let go of, or nobody's before and after.** -/
theorem ExecMove.holder {e e' : ExecRow} (h : ExecMove c a e e') : HolderMove c a e e' := by
  have ended : ∀ {q}, a.closing = some q → q.executionId = e.id → e.owned q.runToken q.fenceEpoch = true →
      HolderMove c a e e' := fun ha hi ho => .closed ha hi ho (h.closed ha).2
  have waits : e.status = .ready → e'.status.held = false → HolderMove c a e e' := fun hs => .unheld (by rw [hs]; rfl)
  cases h with
  | dispatch _ _ _ _ _ hs => exact .dispatched rfl hs rfl rfl
  | defer _ hs => exact waits hs (congrArg Status.held hs)
  | expire _ _ hs => exact waits hs rfl
  | skip _ _ _ hs => exact waits hs rfl
  | retireReady _ hs => exact waits hs rfl
  | revive _ _ hs => exact .unheld (by rw [hs]; rfl) rfl
  | accept _ ho => exact .written (by rw [(ExecRow.unaccepted_iff.1 ho).1]; rfl) rfl (.accept ho)
  | retarget _ ho =>
    have hh : e.status.held = true := by rw [(ExecRow.unaccepted_iff.1 ho).1]; rfl
    exact .written hh hh .retarget
  | renew _ hs => exact .written hs hs .renew
  | extend _ hr =>
    have hh := (ExecRow.reportable_iff.1 hr).1
    exact .written hh hh .extend
  | cancel hi hs => exact .written (Status.held_of_cancellable hs) rfl (.cancel hi hs)
  | retireHeld hj hs => exact .written (Status.held_of_cancellable hs) rfl (.retire hj hs)
  | adopt hi hs ho =>
    refine .written hs ?_ (.adopt hi ho)
    simp only [adoptWrite]
    split
    · rfl
    · exact hs
  | refuse hi ho => exact ended rfl hi.symm (ExecRow.unaccepted_iff.1 ho).2
  | complete hi _ hr => exact ended rfl hi.symm (ExecRow.reportable_iff.1 hr).2.1
  | retry hi hr => exact ended rfl hi.symm (ExecRow.reportable_iff.1 hr).2.1
  | resolve hi _ ho => exact ended rfl hi.symm ho
  | fence hi _ ho => exact ended rfl hi.symm ho
  | silence hi _ ho => exact ended rfl hi.symm ho
  | release hi _ ho => exact ended rfl hi.symm ho

/-- A row that is held after a move was just dispatched, or was held and is written. -/
theorem ExecMove.held_after {e e' : ExecRow} (h : ExecMove c a e e') (hh' : e'.status.held = true) :
    (∃ t, a.mints = some t ∧ e.status = .ready ∧ e'.status = .dispatching ∧ e'.runToken = some t) ∨
      (e.status.held = true ∧ HeldWrite c a e e') := by
  cases h.holder with
  | dispatched ha hs hs' ht => exact Or.inl ⟨_, ha, hs, hs', ht⟩
  | written hh _ hw => exact Or.inr ⟨hh, hw⟩
  | closed _ _ _ hfree => rw [hfree] at hh'; cases hh'
  | unheld _ hfree => rw [hfree] at hh'; cases hh'

theorem ExecMove.writes {e e' : ExecRow} (h : ExecMove c a e e') (hh : e.status.held = true)
    (hh' : e'.status.held = true) : HeldWrite c a e e' := by
  rcases h.held_after hh' with ⟨_, -, hs, -⟩ | ⟨-, hw⟩
  · rw [hs] at hh; cases hh
  · exact hw

theorem Status.ne_of_terminal {s : Status} (h : s.terminal = true) :
    s ≠ .ready ∧ s ≠ .dispatching ∧ s ≠ .running ∧ s ≠ .cancelRequested := by
  cases s <;> simp_all [Status.terminal]

theorem ExecRow.terminal_of_expired {e : ExecRow} {s o : Instant} (h : e.expired s o = true) :
    e.status.terminal = true := by
  cases hs : e.status <;> simp_all [ExecRow.expired, Status.terminal]

theorem ExecMove.heldCols_of_claim {p : ClaimParams} {r : Runnable} {e e' : ExecRow} (h : ExecMove c (.claim p r) e e')
    (ht : e'.status.terminal = true) : e'.heldCols = e.heldCols := by
  obtain ⟨-, hs, htok, hn⟩ := h.ended_by_claim ht
  rw [ExecRow.heldCols, ExecRow.heldCols, h.info, htok, hn, Status.not_held_of_terminal ht, hs]
  rfl

theorem Commit.lockEffect (h : Commit env c db a db') : LockEffect db db' := by
  cases h with
  | idle _ hs hx => exact .quiet ⟨.of_eq hs, .of_eq hx⟩
  | exec he hm hl _ _ ht hn hf =>
    exact .quiet ⟨.of_eq hf.states, .of_set he (by simp [ExecRow.heldCols, hm.info, hl, ht, hn]) hf.execs⟩
  | expire he hm ht hf =>
    exact .quiet ⟨.of_eq hf.states, .of_set he (hm.heldCols_of_claim (by rw [ht]; rfl)) hf.execs⟩
  | acquire lease timeout hs he hj hk hfree hst hb hc hf =>
    exact .acquire hs he hj hfree (by rw [hk]; rfl) rfl hf
  | renew hs he ho hm hf => exact .quiet ⟨.of_set hs (by rfl) hf.states, .of_set he (by rfl) hf.execs⟩
  | adopt hs he ho hl hm hf =>
    cases hm with
    | adopt hi hheld hrow hc =>
      refine .adopt hs he ho hrow ?_ ?_ hf
      · simp [StateRow.lockCols, adoptLockWrite, (StateRow.owned_iff.1 ho).1]
      · simp only [ExecRow.heldCols, adoptWrite, (ExecRow.owned_iff.1 hrow).1]
        congr 2
        split
        · rfl
        · exact hheld
  | close hcl =>
    obtain ⟨ls, lf, ha, hd, hs, he, ho, hr, hm, hp, hf, -⟩ := hcl
    refine .release hs he ho hr ?_ hm.info (hm.closed ha).2 hf
    rw [hp.lockCols, ← (StateRow.owned_iff.1 ho).2]
    rfl
  | skip hd hs he hm ht hl hp hf =>
    exact .quiet ⟨.of_set hs hp.lockCols hf.states, .of_set he (hm.heldCols_of_claim (by rw [ht]; rfl)) hf.execs⟩
  | clock hd hs hm hf => exact .quiet ⟨.of_set hs hm.lockCols hf.states, .of_eq hf.execs⟩
  | pause hs hf => exact .quiet ⟨.of_set hs (by rfl) hf.states, .of_eq hf.execs⟩
  | create hd hs hj hm hi hk hf =>
    refine .quiet ⟨.of_set hs hm.lockCols hf.states, fun k => ?_⟩
    rw [hf.execs k]
    split
    · rename_i hki
      rw [hki, DB.exec?_eq_none_of_lt hi]
      exact .new (by rw [hm.fresh.status]; rfl)
    · exact .refl _
  | retire hd hr hdefs hs hrows hnew =>
    refine .quiet ⟨.of_eq hs, fun k => ?_⟩
    cases he : db.exec? k with
    | none => rw [hnew k he]; exact .absent
    | some e =>
      obtain ⟨e', he', ⟨rfl, _⟩ | hm⟩ := hrows k e he
      · rw [he']; exact .refl _
      · rw [he']
        refine .row ?_
        cases hm with
        | retireReady _ hst => simp [ExecRow.heldCols, retireReadyWrite, hst, Status.held]
        | retireHeld _ hst =>
          simp [ExecRow.heldCols, cancelWrite, Status.held_of_cancellable hst]
          rfl
  | reap hdefs hs hrows hnew =>
    refine .quiet ⟨.of_eq hs, fun k => ?_⟩
    cases he : db.exec? k with
    | none => rw [hnew k he]; exact .absent
    | some e =>
      rcases hrows k e he with hx | ⟨hx, hexp⟩
      · rw [hx]; exact .refl _
      · rw [hx]; exact .gone (Status.not_held_of_terminal (ExecRow.terminal_of_expired hexp))
  | revive hd hr he hm hf =>
    refine .quiet ⟨.of_eq hf.states, .of_set he ?_ hf.execs⟩
    cases hm with
    | revive _ _ hst => simp [ExecRow.heldCols, reviveWrite, hst, Status.held]
  | catalog hs => exact .quiet ⟨.of_catalog hs, .of_eq (catalog_exec? hs)⟩

theorem LockEffect.state_isSome (h : LockEffect db db') {j : String} (hs : (db.state? j).isSome = true) :
    (db'.state? j).isSome = true := by
  have set : ∀ {k : String} {s' : StateRow} {i : Nat} {e' : ExecRow}, OnBoth db db' k s' i e' →
      (db'.state? j).isSome = true := fun hf => by
    rw [hf.states]
    split
    · rfl
    · exact hs
  cases h with
  | quiet q =>
    obtain ⟨s, hs⟩ := Option.isSome_iff_exists.1 hs
    have hl := q.locks j
    rw [hs] at hl
    cases hs' : db'.state? j with
    | none => rw [hs'] at hl; cases hl
    | some s' => rfl
  | acquire _ _ _ _ _ _ hf => exact set hf
  | adopt _ _ _ _ _ _ hf => exact set hf
  | release _ _ _ _ _ _ _ hf => exact set hf

/-! ## Run tokens -/

theorem ExecMove.token {e e' : ExecRow} {t : String} (h : ExecMove c a e e') (ht : e'.runToken = some t) :
    e.runToken = some t ∨ ∃ p r, a = .claim p r ∧ p.runToken = t ∧ p.executionId = e.id := by
  cases h with
  | dispatch n l x hi => exact Or.inr ⟨_, _, rfl, Option.some.inj ht, hi.symm⟩
  | complete => exact Or.inl ((ExecRow.charged_runToken ..).symm.trans ht)
  | retry => cases ht
  | refuse => cases ht
  | resolve => cases ht
  | release => cases ht
  | _ => exact Or.inl ht

/-- **A row that carries a token carried it before, or was just claimed with it.** -/
theorem Commit.token {i : Nat} {e' : ExecRow} {t : String} (h : Commit env c db a db') (he' : db'.exec? i = some e')
    (ht : e'.runToken = some t) :
    (∃ e, db.exec? i = some e ∧ e.runToken = some t ∧ e'.toExecInfo = e.toExecInfo) ∨
      ∃ p r, a = .claim p r ∧ p.runToken = t ∧ p.executionId = i := by
  cases he : db.exec? i with
  | none =>
    obtain ⟨_, _, _, _, _, _, _, hm, _⟩ := h.new he he'
    rw [hm.fresh.runToken] at ht; cases ht
  | some e =>
    rcases h.moved he he' with rfl | hm
    · exact Or.inl ⟨_, rfl, ht, rfl⟩
    · rcases hm.token ht with het | ⟨p, r, ha, hp, hi⟩
      · exact Or.inl ⟨e, rfl, het, hm.info⟩
      · exact Or.inr ⟨p, r, ha, hp, hi.trans (DB.exec?_id he)⟩

/-- Tokens in rows were issued, each to one row. -/
structure TokenInv (db : DB) (issued : List String) : Prop where
  issued : ∀ i e t, db.exec? i = some e → e.runToken = some t → t ∈ issued
  tokens : ∀ i k e x t, db.exec? i = some e → db.exec? k = some x → e.runToken = some t → x.runToken = some t → i = k

theorem TokenInv.commit {issued : List String} (h : TokenInv db issued) (hc : Commit env c db a db')
    (hf : ∀ t, a.mints = some t → t ∉ issued) : TokenInv db' (a.mints.toList ++ issued) := by
  refine ⟨fun i e t he ht => ?_, fun i k e x t he hx hte htx => ?_⟩
  · rcases hc.token he ht with ⟨e₀, he₀, ht₀, -⟩ | ⟨p, r, rfl, rfl, -⟩
    · exact List.mem_append_right _ (h.issued i e₀ t he₀ ht₀)
    · exact List.mem_append_left _ (List.mem_singleton_self _)
  · rcases hc.token he hte with ⟨e₀, he₀, hte₀, -⟩ | ⟨p, r, rfl, rfl, hi⟩
    · rcases hc.token hx htx with ⟨x₀, hx₀, htx₀, -⟩ | ⟨p, r, rfl, rfl, -⟩
      · exact h.tokens i k e₀ x₀ t he₀ hx₀ hte₀ htx₀
      · exact absurd (h.issued i e₀ _ he₀ hte₀) (hf _ rfl)
    · rcases hc.token hx htx with ⟨x₀, hx₀, htx₀, -⟩ | ⟨p', r', hp, -, hk⟩
      · exact absurd (h.issued k x₀ _ hx₀ htx₀) (hf _ rfl)
      · cases hp
        exact hi.symm.trans hk

/-! ## The invariant -/

/-- The state row names the held row. -/
structure Holds (s : StateRow) (e : ExecRow) : Prop where
  kind  : s.activeKind ≠ none
  key   : s.activeExecution = some e.executionKey
  token : s.activeRunToken = e.runToken
  epoch : s.fenceEpoch = e.fenceEpoch
  some_ : e.runToken ≠ none

/-- Row `e` is an execution of `j` that an attempt owns. -/
def DB.Holding (db : DB) (j : String) (e : ExecRow) : Prop :=
  db.exec? e.id = some e ∧ e.jobName = j ∧ e.status.held = true

/-- The state rows and the held executions describe each other. -/
structure Agree (db : DB) : Prop where
  held : ∀ i e, db.exec? i = some e → e.status.held = true → ∃ s, db.state? e.jobName = some s ∧ Holds s e
  lock : ∀ j s, db.state? j = some s → s.activeKind ≠ none →
    ∃ i e, db.exec? i = some e ∧ e.jobName = j ∧ e.status.held = true
  free : ∀ j s, db.state? j = some s → s.activeKind = none → s.activeRunToken = none

namespace Agree

/-- **Two held executions of one job are one.** -/
theorem unique (h : Agree db) {i k : Nat} {e x : ExecRow} (he : db.exec? i = some e) (hx : db.exec? k = some x)
    (hj : e.jobName = x.jobName) (hhe : e.status.held = true) (hhx : x.status.held = true) : i = k := by
  obtain ⟨s, hs, hes⟩ := h.held i e he hhe
  obtain ⟨s', hs', hxs⟩ := h.held k x hx hhx
  rw [← hj, hs] at hs'
  obtain rfl := Option.some.inj hs'
  exact DB.exec?_key_inj he hx (Option.some.inj (hes.key.symm.trans hxs.key))

/-- A token in a state row is carried by an execution the job holds. -/
theorem carrier (h : Agree db) {j t : String} {s : StateRow} (hs : db.state? j = some s)
    (ht : s.activeRunToken = some t) :
    ∃ i e, db.exec? i = some e ∧ e.jobName = j ∧ e.status.held = true ∧ e.runToken = some t := by
  have hk : s.activeKind ≠ none := fun hk => by
    rw [h.free j s hs hk] at ht; cases ht
  obtain ⟨i, e, he, rfl, hheld⟩ := h.lock j s hs hk
  obtain ⟨s', hs', hes⟩ := h.held i e he hheld
  obtain rfl := Option.some.inj (hs.symm.trans hs')
  exact ⟨i, e, he, rfl, hheld, hes.token ▸ ht⟩

theorem quiet (h : Agree db) (q : Quiet db db') : Agree db' := by
  have state : ∀ j s', db'.state? j = some s' → (s'.lockCols = (none, none, none, 0)) ∨
      ∃ s, db.state? j = some s ∧ s'.lockCols = s.lockCols := fun j s' hs' => by
    have hl := q.locks j
    rw [hs'] at hl
    cases hs : db.state? j with
    | none => rw [hs] at hl; cases hl with | new hc => exact Or.inl hc
    | some s => rw [hs] at hl; cases hl with | row hc => exact Or.inr ⟨s, rfl, hc⟩
  refine ⟨fun i e' he' hheld => ?_, fun j s' hs' hk => ?_, fun j s' hs' hk => ?_⟩
  · have hr := q.rows i
    rw [he'] at hr
    cases he : db.exec? i with
    | none => rw [he] at hr; cases hr with | new hh => rw [hh] at hheld; cases hheld
    | some e =>
      rw [he] at hr
      cases hr with
      | row hc =>
        obtain ⟨hinfo, hh, ht, hn⟩ := ExecRow.heldCols_eq hc
        obtain ⟨s, hs, hes⟩ := h.held i e he (hh ▸ hheld)
        have hl := q.locks e.jobName
        rw [hs] at hl
        rw [hinfo]
        cases hs' : db'.state? e.jobName with
        | none => rw [hs'] at hl; cases hl
        | some s' =>
          rw [hs'] at hl
          cases hl with
          | row hl =>
            obtain ⟨h₁, h₂, h₃, h₄⟩ := StateRow.lockCols_eq hl
            exact ⟨s', rfl, h₁ ▸ hes.kind, by rw [h₂, hinfo]; exact hes.key, by rw [h₃, ht]; exact hes.token,
              by rw [h₄, hn]; exact hes.epoch, ht ▸ hes.some_⟩
  · rcases state j s' hs' with hc | ⟨s, hs, hc⟩
    · simp only [StateRow.lockCols, Prod.mk.injEq] at hc
      exact absurd hc.1 hk
    · obtain ⟨i, e, he, hj, hheld⟩ := h.lock j s hs ((StateRow.lockCols_eq hc).1 ▸ hk)
      have hr := q.rows i
      rw [he] at hr
      cases he' : db'.exec? i with
      | none => rw [he'] at hr; cases hr with | gone hh => rw [hh] at hheld; cases hheld
      | some e' =>
        rw [he'] at hr
        cases hr with
        | row hr =>
          obtain ⟨hinfo, hh, -⟩ := ExecRow.heldCols_eq hr
          exact ⟨i, e', he', by rw [hinfo]; exact hj, by rw [hh]; exact hheld⟩
  · rcases state j s' hs' with hc | ⟨s, hs, hc⟩
    · simp only [StateRow.lockCols, Prod.mk.injEq] at hc
      exact hc.2.2.1
    · obtain ⟨h₁, -, h₃, -⟩ := StateRow.lockCols_eq hc
      rw [h₃]
      exact h.free j s hs (h₁ ▸ hk)

/-- A change of one job's lock together with the only row that can hold it. -/
theorem onBoth (h : Agree db) {j : String} {s' : StateRow} {i : Nat} {e e' : ExecRow} (hf : OnBoth db db' j s' i e')
    (he : db.exec? i = some e) (hi : e'.toExecInfo = e.toExecInfo) (hj : e.jobName = j)
    (honly : ∀ k x, db.exec? k = some x → x.jobName = j → x.status.held = true → k = i)
    (hheld : e'.status.held = true → Holds s' e') (hlock : s'.activeKind ≠ none → e'.status.held = true)
    (hfree : s'.activeKind = none → s'.activeRunToken = none) : Agree db' := by
  have hj' : e'.jobName = j := by rw [hi]; exact hj
  have state : ∀ k y, db'.state? k = some y → (k = j ∧ y = s') ∨ (k ≠ j ∧ db.state? k = some y) := fun k y hy => by
    rw [hf.states k] at hy
    split at hy
    · rename_i hk; exact Or.inl ⟨hk, (Option.some.inj hy).symm⟩
    · rename_i hk; exact Or.inr ⟨hk, hy⟩
  refine ⟨fun k x hx hh => ?_, fun k y hy hk => ?_, fun k y hy hk => ?_⟩
  · rw [hf.execs k] at hx
    split at hx
    · obtain rfl := Option.some.inj hx
      exact ⟨s', by rw [hj']; exact hf.state?, hheld hh⟩
    · rename_i hki
      have hne : x.jobName ≠ j := fun hxj => hki (honly k x hx hxj hh)
      rw [hf.states, if_neg hne]
      exact h.held k x hx hh
  · rcases state k y hy with ⟨rfl, rfl⟩ | ⟨hkj, hy⟩
    · exact ⟨i, e', hf.exec?, hj', hlock hk⟩
    · obtain ⟨l, x, hx, hxj, hh⟩ := h.lock k y hy hk
      have hli : l ≠ i := by
        rintro rfl
        obtain rfl := Option.some.inj (he.symm.trans hx)
        exact hkj (hxj.symm.trans hj)
      exact ⟨l, x, by rw [hf.execs, if_neg hli]; exact hx, hxj, hh⟩
  · rcases state k y hy with ⟨-, rfl⟩ | ⟨-, hy⟩
    · exact hfree hk
    · exact h.free k y hy hk

end Agree

structure HolderInv (db : DB) (issued : List String) : Prop extends TokenInv db issued, Agree db

namespace HolderInv

variable {issued : List String}

theorem init : HolderInv DB.empty [] where
  held _ _ h := by cases h
  lock _ _ h := by cases h
  free _ _ h := by cases h
  issued _ _ _ h := by cases h
  tokens _ _ _ _ _ h := by cases h

/-- The row that carries a job's current token is the job's holder, and no other row of the job is held. -/
theorem holder (h : HolderInv db issued) {j t : String} {s : StateRow} (hs : db.state? j = some s)
    (ht : s.activeRunToken = some t) {i : Nat} {e : ExecRow} (he : db.exec? i = some e) (het : e.runToken = some t) :
    e.jobName = j ∧ Holds s e ∧ ∀ k x, db.exec? k = some x → x.jobName = j → x.status.held = true → k = i := by
  obtain ⟨k, x, hx, rfl, hheld, hxt⟩ := h.carrier hs ht
  obtain rfl := h.tokens i k e x t he hx het hxt
  obtain rfl := Option.some.inj (he.symm.trans hx)
  obtain ⟨s', hs', hes⟩ := h.held i e he hheld
  obtain rfl := Option.some.inj (hs.symm.trans hs')
  exact ⟨rfl, hes, fun k x hx hxj hh => h.unique hx he hxj hh hheld⟩

/-- **One commit keeps the two tables in agreement.** -/
theorem agree (h : HolderInv db issued) (hl : LockEffect db db') : Agree db' := by
  cases hl with
  | quiet q => exact h.quiet q
  | acquire hs he hj hfree hs' he' hb =>
    obtain ⟨hi, hh, ht, hn⟩ : _ ∧ _ ∧ _ ∧ _ := by simpa [ExecRow.heldCols] using he'
    obtain ⟨h₁, h₂, h₃, h₄⟩ : _ ∧ _ ∧ _ ∧ _ := by simpa [StateRow.lockCols] using hs'
    refine h.onBoth hb he hi hj (fun k x hx hxj hxh => ?_) (fun _ => ⟨by rw [h₁]; simp, by rw [h₂, hi], by rw [h₃, ht],
      by rw [h₄, hn], by rw [ht]; simp⟩) (fun _ => hh) (fun hk => by rw [h₁] at hk; cases hk)
    obtain ⟨s₀, hs₀, hx₀⟩ := h.held k x hx hxh
    rw [hxj, hs] at hs₀
    obtain rfl := Option.some.inj hs₀
    exact absurd hfree hx₀.kind
  | adopt hs he hown hrow hs' he' hb =>
    obtain ⟨hi, hh, ht, hn⟩ : _ ∧ _ ∧ _ ∧ _ := by simpa [ExecRow.heldCols] using he'
    obtain ⟨h₁, h₂, h₃, h₄⟩ : _ ∧ _ ∧ _ ∧ _ := by simpa [StateRow.lockCols] using hs'
    obtain ⟨hj, hes, honly⟩ := h.holder hs (StateRow.owned_iff.1 hown).1 he (ExecRow.owned_iff.1 hrow).1
    exact h.onBoth hb he hi hj honly (fun _ => ⟨h₁ ▸ hes.kind, by rw [h₂, hi]; exact hes.key, by rw [h₃, ht],
      by rw [h₄, hn], by rw [ht]; simp⟩) (fun _ => hh) (fun hk => absurd (h₁ ▸ hk) hes.kind)
  | release hs he hown hrow hs' hi hst hb =>
    obtain ⟨h₁, -, h₃, -⟩ : _ ∧ _ ∧ _ ∧ _ := by simpa [StateRow.lockCols] using hs'
    obtain ⟨hj, -, honly⟩ := h.holder hs (StateRow.owned_iff.1 hown).1 he (ExecRow.owned_iff.1 hrow).1
    exact h.onBoth hb he hi hj honly (fun hh => by rw [hst] at hh; cases hh) (fun hk => absurd h₁ hk) (fun _ => h₃)

theorem step {w w' : World} {l : Action × Ctx} (h : HolderInv w.db w.issued) (hst : Step env w l w') :
    HolderInv w'.db w'.issued := by
  have ht := h.toTokenInv.commit hst.commit hst.fresh
  rw [← hst.issued] at ht
  exact ⟨ht, h.agree hst.commit.lockEffect⟩

theorem run {u : Utc} {tr : List (World × (Action × Ctx) × World)} {w : World}
    (h : Sys.Run (Step env) (World.init u) tr w) : HolderInv w.db w.issued :=
  Sys.Run.invariant (I := fun w => HolderInv w.db w.issued) init (fun _ _ _ h hst => h.step hst) h

end HolderInv

/-- **A job has one holder or none, and its state row says which.** -/
theorem single_holder {w : World} (h : Reachable env w) (j : String) :
    (∀ s, w.db.state? j = some s → (s.activeKind ≠ none ↔ ∃! e, w.db.Holding j e) ∧
      ∀ e, w.db.Holding j e → s.activeExecution = some e.executionKey ∧ s.activeRunToken = e.runToken ∧
        s.fenceEpoch = e.fenceEpoch) ∧
    (∀ e, w.db.Holding j e → ∃ s, w.db.state? j = some s) ∧
    ∀ e x, w.db.Holding j e → w.db.Holding j x → e = x := by
  obtain ⟨u, tr, hr⟩ := h
  have hinv := HolderInv.run hr
  have huniq : ∀ e x, w.db.Holding j e → w.db.Holding j x → e = x := by
    rintro e x ⟨he, hej, heh⟩ ⟨hx, hxj, hxh⟩
    have hid := hinv.unique he hx (hej.trans hxj.symm) heh hxh
    rw [hid, hx] at he
    exact (Option.some.inj he).symm
  have hholds : ∀ e, w.db.Holding j e → ∃ s, w.db.state? j = some s ∧ Holds s e := by
    rintro e ⟨he, rfl, heh⟩
    exact hinv.held _ e he heh
  refine ⟨fun s hs => ⟨⟨fun hk => ?_, fun ⟨e, he, _⟩ => ?_⟩, fun e he => ?_⟩, fun e he => ?_, huniq⟩
  · obtain ⟨i, e, he, hej, heh⟩ := hinv.lock j s hs hk
    rw [← DB.exec?_id he] at he
    exact ⟨e, ⟨he, hej, heh⟩, fun x hx => huniq x e hx ⟨he, hej, heh⟩⟩
  · obtain ⟨s', hs', hes⟩ := hholds e he
    obtain rfl := Option.some.inj (hs.symm.trans hs')
    exact hes.kind
  · obtain ⟨s', hs', hes⟩ := hholds e he
    obtain rfl := Option.some.inj (hs.symm.trans hs')
    exact ⟨hes.key, hes.token, hes.epoch⟩
  · obtain ⟨s, hs, -⟩ := hholds e he
    exact ⟨s, hs⟩

theorem single_holder_claimed : ∃! e, ((World.init 0).play bareEnv claimedPass).db.Holding "sync" e :=
  ((single_holder (reachable_play bareEnv 0 claimedPass (by decide)) "sync").1 _ rfl).1.1 (by decide)

end GoJob
