import GoJob.Holder
/-!
# Clock — what a commit does to a job's clocks

Apart from edits of the catalogue, a commit leaves a job's definition and its two clocks alone, or it retires the job,
restarts the poll clock after a pass, moves the clocks under a schedule, or moves one while creating what it made due.
-/
namespace GoJob

variable {env : Env} {c : Ctx} {db db' : DB} {a : Action}

/-- `next_fire_at`, `next_poll_at` and the definition version they were computed from. -/
def StateRow.clockCols (s : StateRow) : Option Instant × Option Instant × Nat :=
  (s.nextFireAt, s.nextPollAt, s.configVersion)

theorem StateRow.clockCols_eq {s s' : StateRow} (h : s'.clockCols = s.clockCols) :
    s'.nextFireAt = s.nextFireAt ∧ s'.nextPollAt = s.nextPollAt ∧ s'.configVersion = s.configVersion := by
  simpa [StateRow.clockCols] using h

theorem clocks_kept {j : String} {s' : StateRow}
    (h : (db'.state? j).map StateRow.clockCols = (db.state? j).map StateRow.clockCols) (hs' : db'.state? j = some s') :
    ∃ s, db.state? j = some s ∧ s'.nextFireAt = s.nextFireAt ∧ s'.nextPollAt = s.nextPollAt ∧
      s'.configVersion = s.configVersion := by
  rw [hs', Option.map_some] at h
  obtain ⟨s, hs, hcols⟩ := Option.map_eq_some_iff.1 h.symm
  exact ⟨s, hs, StateRow.clockCols_eq hcols.symm⟩

/-- A live poll pass that the commit ends, and nothing else among the executions. -/
structure Ends (db db' : DB) (e e' : ExecRow) : Prop where
  old   : db.exec? e.id = some e
  new   : db'.exec? e.id = some e'
  poll  : e.triggerType = .poll
  live  : e.status.terminal = false
  ended : e'.status.terminal = true
  other : ∀ k, k ≠ e.id → db'.exec? k = db.exec? k

/-- **What a commit does to the clocks of job `j`.** -/
inductive ClockEffect (env : Env) (c : Ctx) (db db' : DB) (a : Action) (j : String) : Prop
  | kept (hd : db'.def? j = db.def? j)
      (hs : (db'.state? j).map StateRow.clockCols = (db.state? j).map StateRow.clockCols)
  | retired {d d' : DefinitionRow} (hd : db.def? j = some d) (hd' : db'.def? j = some d') (hr : d'.retired = true)
      (hv : d'.version = d.version + 1) (hs : db'.state? j = db.state? j)
  | settled {d : DefinitionRow} {s s' : StateRow} {e e' : ExecRow} (t : Instant) (hd : db.def? j = some d)
      (hd' : db'.def? j = some d) (hs : db.state? j = some s) (hs' : db'.state? j = some s')
      (hc : s'.clockCols = (s.nextFireAt, some t, s.configVersion)) (hj : e.jobName = j) (he : Ends db db' e e')
  | moved {d : DefinitionRow} {s s' : StateRow} (hd : db.def? j = some d) (hs : db.state? j = some s)
      (hm : ClockMove env c db d a s s') (hf : OnState db db' j s')
  | created {d : DefinitionRow} {s s' : StateRow} {e : ExecRow} (hd : db.def? j = some d) (hs : db.state? j = some s)
      (hj : e.jobName = j) (hm : Creates env c d a s s' e) (hi : db.executions.lastId < e.id)
      (hf : OnBoth db db' j s' e.id e)

namespace ClockEffect

theorem of_same (hd : ∀ k, db'.def? k = db.def? k) (hs : ∀ k, db'.state? k = db.state? k) (j : String) :
    ClockEffect env c db db' a j := .kept (hd j) (by rw [hs j])

theorem of_state {k : String} {s s' : StateRow} (hd : ∀ k, db'.def? k = db.def? k) (hs : db.state? k = some s)
    (hf : ∀ l, db'.state? l = if l = k then some s' else db.state? l) (hc : s'.clockCols = s.clockCols) (j : String) :
    ClockEffect env c db db' a j := by
  refine .kept (hd j) ?_
  rw [hf j]
  split
  · rename_i hj
    rw [hj, hs, Option.map_some, Option.map_some, hc]
  · rfl

/-- After `settlePollClock`, whose execution is a live one of the job it names. -/
theorem of_settled {k : String} {d : DefinitionRow} {s s₁ s' : StateRow} {i : Nat} {e e' : ExecRow}
    (hd : db.def? k = some d) (hs : db.state? k = some s) (he : db.exec? i = some e) (hj : e.jobName = k)
    (hi : e'.toExecInfo = e.toExecInfo) (hl : e.status.terminal = false) (hc : s₁.clockCols = s.clockCols)
    (hp : PollSettled c d e' s₁ s') (hf : OnBoth db db' k s' i e') (j : String) : ClockEffect env c db db' a j := by
  cases hp with
  | idle _ => exact of_state hf.defs hs hf.states hc j
  | restart t _ _ _ hp ht =>
    by_cases hjk : j = k
    · subst hjk
      obtain ⟨h₁, -, h₃⟩ := StateRow.clockCols_eq hc
      obtain rfl := DB.exec?_id he
      refine .settled (datetime (c.now + t)) hd (by rw [hf.defs]; exact hd) hs hf.state? ?_ hj
        ⟨he, hf.exec?, by rw [← hp, hi], hl, ht, fun k hk => by rw [hf.execs, if_neg hk]⟩
      show (s₁.nextFireAt, some (datetime (c.now + t)), s₁.configVersion) = _
      rw [h₁, h₃]
    · exact .kept (hf.defs j) (by rw [hf.states, if_neg hjk])

end ClockEffect

/-- **Every commit, job by job**, unless it edits the catalogue. -/
theorem Commit.clockEffect {issued : List String} (h : Commit env c db a db') (hinv : HolderInv db issued) :
    Relation.ReflTransGen (CatalogStep c) db db' ∨ ∀ j, ClockEffect env c db db' a j := by
  cases h with
  | idle hd hs _ _ => exact Or.inr (.of_same hd hs)
  | exec _ _ _ _ _ _ _ hf => exact Or.inr (.of_same hf.defs hf.states)
  | expire _ _ _ hf => exact Or.inr (.of_same hf.defs hf.states)
  | acquire _ _ hs _ _ _ _ _ _ _ hf => exact Or.inr (.of_state hf.defs hs hf.states rfl)
  | renew hs _ _ _ hf => exact Or.inr (.of_state hf.defs hs hf.states rfl)
  | adopt hs _ _ _ _ hf => exact Or.inr (.of_state hf.defs hs hf.states rfl)
  | close hcl =>
    obtain ⟨ls, lf, ha, hd, hs, he, ho, hr, hm, hp, hf, -⟩ := hcl
    obtain ⟨hj, -, -⟩ := hinv.holder hs (StateRow.owned_iff.1 ho).1 he (ExecRow.owned_iff.1 hr).1
    have hl := Status.not_terminal_of_held (hm.closed ha).1
    exact Or.inr (fun j => .of_settled hd hs he hj hm.info hl (by rfl) hp hf j)
  | skip hd hs he hm ht hl hp hf =>
    obtain ⟨hj, hst, -⟩ := hm.ended_by_claim (by rw [ht]; rfl)
    exact Or.inr (.of_settled hd hs he hj hm.info (by rw [hst]; rfl) rfl hp hf)
  | clock hd hs hm hf =>
    rename_i k d s s'
    refine Or.inr (fun j => ?_)
    by_cases hj : j = k
    · subst hj; exact .moved hd hs hm hf
    · exact .kept (hf.defs j) (by rw [hf.states, if_neg hj])
  | pause hs hf => exact Or.inr (.of_state hf.defs hs hf.states rfl)
  | create hd hs hj hm hi hk hf =>
    rename_i k d s s' e
    refine Or.inr (fun j => ?_)
    by_cases hjk : j = k
    · subst hjk; exact .created hd hs hj hm hi hf
    · exact .kept (hf.defs j) (by rw [hf.states, if_neg hjk])
  | retire hd hr hdefs hs hrows hnew hlast =>
    rename_i k x y d
    refine Or.inr (fun j => ?_)
    by_cases hj : j = k
    · subst hj
      exact .retired hd (by rw [hdefs, if_pos rfl]) rfl rfl (hs j)
    · exact .kept (by rw [hdefs, if_neg hj]) (by rw [hs])
  | reap hd hs _ _ _ _ _ => exact Or.inr (.of_same hd hs)
  | revive _ _ _ _ hf => exact Or.inr (.of_same hf.defs hf.states)
  | catalog hs => exact Or.inl hs

end GoJob
