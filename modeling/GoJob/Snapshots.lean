import GoJob.Attempts
import GoJob.Clock
import GoJob.Passes
/-!
# Snapshots — clocks computed from a definition that has moved on

A transaction takes its job's state row and then reads the definition without locking it.  Before it commits, an
operator may edit the definition any number of times.  Every edit raises the version, and the transaction stamps the
version it read, so a row whose version is the definition's was computed from this very definition.
-/
namespace GoJob

open Rel Tx

variable {env : Env} {c : Ctx} {db db' : DB} {a : Action}

/-! ## The rule -/

/-- The clocks of a state row are right for the definition, or known to be out of date. -/
structure Clocked (s : StateRow) (d : DefinitionRow) : Prop where
  version : s.configVersion ≤ d.version
  cron    : InDateCron s d → s.nextFireAt ≠ none ∧ s.nextPollAt = none

namespace Clocked

variable {s s' : StateRow} {d d' : DefinitionRow}

theorem of_cols (h : Clocked s d) (hc : s'.clockCols = s.clockCols) : Clocked s' d := by
  obtain ⟨hf, hp, hv⟩ := StateRow.clockCols_eq hc
  refine ⟨hv ▸ h.version, fun hin => ?_⟩
  rw [hf, hp]
  exact h.cron ⟨hin.enabled, hin.retired, hin.kind, hv ▸ hin.version⟩

/-- A row computed from an earlier version is out of date. -/
theorem of_lt (h : s.configVersion < d.version) : Clocked s d :=
  ⟨h.le, fun hin => absurd hin.version h.ne⟩

theorem raised (h : Clocked s d) (hv : d.version < d'.version) : Clocked s d' := of_lt (lt_of_le_of_lt h.version hv)

theorem of_poll (hv : s.configVersion ≤ d.version) (hk : d.scheduleKind = .fixedDelay) : Clocked s d :=
  ⟨hv, fun hin => absurd (hk.symm.trans hin.kind) (by decide)⟩

theorem settled {e : ExecRow} (h : Clocked s d) (hp : PollSettled c d e s s') : Clocked s' d := by
  cases hp with
  | idle => exact h
  | restart _ hk => exact of_poll h.version hk

theorem normalized {compile : Compile} {fire poll : Option Instant} (h : Clocks c db compile s d fire poll) :
    Clocked ((normalizeWrite fire poll d.version).run s) d := by
  refine ⟨le_refl _, fun hin => ?_⟩
  cases h with
  | parked hoff =>
    rcases hoff with hoff | hoff
    · rw [hin.enabled] at hoff; cases hoff
    · rw [hin.retired] at hoff; cases hoff
  | cron => exact ⟨by simp [normalizeWrite], rfl⟩
  | running _ _ _ hk => exact absurd (hk.symm.trans hin.kind) (by decide)
  | out _ _ hk => exact absurd (hk.symm.trans hin.kind) (by decide)
  | start _ _ hk => exact absurd (hk.symm.trans hin.kind) (by decide)

/-- An in-date cron row moves to another fire instant. -/
theorem advanced (h : Clocked s d) (hin : InDateCron s d) (next : Instant) :
    Clocked ((advanceWrite next d.version).run s) d :=
  ⟨le_refl _, fun _ => ⟨by simp [advanceWrite], (h.cron hin).2⟩⟩

theorem moved (h : Clocked s d) (hm : ClockMove env c db d a s s') : Clocked s' d := by
  cases hm with
  | recompute _ _ hck => exact normalized hck
  | cronDrift _ _ _ hck => exact normalized hck
  | pollDrift _ _ hck => exact normalized hck
  | advance _ _ next _ hin => exact h.advanced hin next

theorem creating {e : ExecRow} (h : Clocked s d) (hm : Creates env c d a s s' e) : Clocked s' d := by
  cases hm with
  | cron _ _ _ _ next hin => exact h.advanced hin next
  | poll _ _ _ _ hk => exact of_poll h.version hk
  | manual => exact h

end Clocked

/-! ## Edits -/

/-- What a call that reads no definition does to job `k`. -/
inductive EditEffect (db db' : DB) (k : String) : Prop
  | kept (hd : db'.def? k = db.def? k)
      (hs : (db'.state? k).map StateRow.clockCols = (db.state? k).map StateRow.clockCols)
  | raised {d d' : DefinitionRow} (hd : db.def? k = some d) (hd' : db'.def? k = some d') (hv : d.version < d'.version)
      (hs : (db'.state? k).map StateRow.clockCols = (db.state? k).map StateRow.clockCols)
  | created {d' : DefinitionRow} {s' : StateRow} (hd : db.def? k = none) (hd' : db'.def? k = some d')
      (hs' : db'.state? k = some s') (hc : Clocked s' d')

theorem newState_clocked {d : Definition} {next : Instant} {x : String} (hp : d.Passes) :
    Clocked (newState c d next) (newDefinition d x hp) := by
  refine ⟨le_refl 1, fun hin => ?_⟩
  have hk : d.scheduleKind = .cron := hin.kind
  have he : d.enabled = true := hin.enabled
  simp [newState, hk, he]

/-- A further change that leaves the job alone. -/
theorem EditEffect.same {db₁ : DB} {k : String} (h : EditEffect db db₁ k) (hd : db'.def? k = db₁.def? k)
    (hs : db'.state? k = db₁.state? k) : EditEffect db db' k := by
  cases h with
  | kept hd₁ hs₁ => exact .kept (hd.trans hd₁) (by rw [hs]; exact hs₁)
  | raised hd₀ hd₁ hv hs₁ => exact .raised hd₀ (hd.trans hd₁) hv (by rw [hs]; exact hs₁)
  | created hd₀ hd₁ hs₁ hc => exact .created hd₀ (hd.trans hd₁) (hs.trans hs₁) hc

/-- **An edit leaves a job alone, creates it with the clock it needs, or raises its version.** -/
theorem EditEffect.of_catalog (h : Relation.ReflTransGen (CatalogStep c) db db') (k : String) :
    EditEffect db db' k := by
  induction h with
  | refl => exact .kept rfl rfl
  | tail _ hstep ih =>
    cases hstep with
    | audit hdefs hstates => exact ih.same (hdefs k) (hstates k)
    | edit j d w hd₀ _ hdefs hstates =>
      by_cases hk : k = j
      · subst hk
        have hv : d.version < (w.run d).version := by rw [w.version]; exact Nat.lt_succ_self _
        have hd₁ := (hdefs k).trans (if_pos rfl)
        cases ih with
        | kept hd hs => exact .raised (hd.symm.trans hd₀) hd₁ hv (by rw [hstates k]; exact hs)
        | raised hd hd' hv' hs =>
          obtain rfl := Option.some.inj (hd'.symm.trans hd₀)
          exact .raised hd hd₁ (lt_trans hv' hv) (by rw [hstates k]; exact hs)
        | created hd hd' hs' hc =>
          obtain rfl := Option.some.inj (hd'.symm.trans hd₀)
          exact .created hd hd₁ ((hstates k).trans hs') (hc.raised hv)
      · exact ih.same ((hdefs k).trans (if_neg hk)) (hstates k)
    | create d next x hp hd₀ _ hdefs hstates =>
      by_cases hk : d.jobName = k
      · have hd₁ := (hdefs k).trans (if_pos hk)
        have hs₁ := (hstates k).trans (if_pos hk)
        rw [hk] at hd₀
        cases ih with
        | kept hd _ => exact .created (hd.symm.trans hd₀) hd₁ hs₁ (newState_clocked hp)
        | raised _ hd' => rw [hd₀] at hd'; cases hd'
        | created _ hd' => rw [hd₀] at hd'; cases hd'
      · exact ih.same ((hdefs k).trans (if_neg hk)) ((hstates k).trans (if_neg hk))

/-! ## Calls that read the definition -/

/-- The job whose definition a call reads, with the job's state row in hand. -/
def Action.reads : Action → Option String
  | .claim p _               => some p.jobName
  | .refuse p _              => some p.jobName
  | .complete h _            => some h.jobName
  | .retry h _ _             => some h.jobName
  | .resolve v _             => some v.jobName
  | .fenceTimedOut v         => some v.jobName
  | .expireSilent v          => some v.jobName
  | .releaseAsOwner h        => some h.jobName
  | .trigger j _ _ _ _       => some j
  | .authorizedRetry j _ _ _ => some j
  | .materializeCron j _ _   => some j
  | .materializePoll j _ _   => some j
  | .recompute j _           => some j
  | _                        => none

theorem Action.reads_of_closing {q : Closing} (h : a.closing = some q) : a.reads = some q.jobName := by
  cases a <;> cases h <;> rfl

/-- A call that reads a definition does not write one. -/
theorem Action.keeps_defs {j : String} {u : Unit} (hr : a.reads = some j) (h : a.tx env c db = .ok (u, db'))
    (k : String) : db'.def? k = db.def? k := by
  have plain : Keeps DB.definitions (a.tx env c) → db'.def? k = db.def? k := fun hk => by
    have hsame : db'.definitions = db.definitions := hk.keeps h
    rw [DB.def?, DB.def?, hsame]
  have closed : Closes c db a db' → db'.def? k = db.def? k := by
    rintro ⟨_, _, _, _, _, _, _, _, _, _, hf, _⟩
    exact hf.defs k
  cases a with
  | claim => exact plain (by simp only [Action.tx]; infer_instance)
  | trigger => exact plain (by simp only [Action.tx]; infer_instance)
  | authorizedRetry => exact plain (by simp only [Action.tx]; infer_instance)
  | materializeCron => exact plain (by simp only [Action.tx]; infer_instance)
  | materializePoll => exact plain (by simp only [Action.tx]; infer_instance)
  | recompute => exact plain (by simp only [Action.tx]; infer_instance)
  | refuse => exact closed (refuse_closes h)
  | complete => exact closed (complete_closes h)
  | retry => exact closed (retry_closes h)
  | resolve => exact closed (Action.closes_of_ok h rfl)
  | fenceTimedOut => exact closed (Action.closes_of_ok h rfl)
  | expireSilent => exact closed (Action.closes_of_ok h rfl)
  | releaseAsOwner => exact closed (Action.closes_of_ok h rfl)
  | _ => cases hr

theorem cols_of_set {j : String} {s s' : StateRow} (hs : db.state? j = some s)
    (hf : ∀ k, db'.state? k = if k = j then some s' else db.state? k) (hc : s'.clockCols = s.clockCols) (k : String) :
    (db'.state? k).map StateRow.clockCols = (db.state? k).map StateRow.clockCols := by
  rw [hf k]
  split
  · rename_i hk
    rw [hk, hs, Option.map_some, Option.map_some, hc]
  · rfl

/-- **A call that reads no definition edits the catalogue, or leaves every clock alone.** -/
theorem Commit.edits (h : Commit env c db a db') (hr : a.reads = none) (k : String) : EditEffect db db' k := by
  cases h with
  | idle hd hs => exact .kept (hd k) (by rw [hs k])
  | exec _ _ _ _ _ _ _ hf => exact .kept (hf.defs k) (by rw [hf.states k])
  | renew hs _ _ _ hf => exact .kept (hf.defs k) (cols_of_set hs hf.states rfl k)
  | adopt hs _ _ _ _ hf => exact .kept (hf.defs k) (cols_of_set hs hf.states rfl k)
  | pause hs hf => exact .kept (hf.defs k) (cols_of_set hs hf.states rfl k)
  | @retire j x y d _ hd _ hdefs hs =>
    by_cases hk : k = j
    · subst hk
      exact .raised hd ((hdefs k).trans (if_pos rfl)) (Nat.lt_succ_self _) (by rw [hs k])
    · exact .kept ((hdefs k).trans (if_neg hk)) (by rw [hs k])
  | reap hd hs => exact .kept (hd k) (by rw [hs k])
  | catalog hs => exact .of_catalog hs k
  | close hcl =>
    obtain ⟨_, _, ha, -⟩ := hcl
    rw [Action.reads_of_closing ha] at hr; cases hr
  | clock _ _ hm => cases hm <;> cases hr
  | create _ _ _ hm => cases hm <;> cases hr
  | _ => cases hr

/-- The state row of job `j` is right for the definition that was read, if it was before. -/
def Reclocked (db db' : DB) (j : String) : Prop :=
  ∃ d s s', db.def? j = some d ∧ db.state? j = some s ∧ db'.state? j = some s' ∧ (Clocked s d → Clocked s' d)

/-- **A call that reads a definition touches the clocks of that job only**, and leaves them right for what it read. -/
theorem Commit.reclocks {j : String} (h : Commit env c db a db') (hr : a.reads = some j)
    (hd : ∀ k, db'.def? k = db.def? k) (k : String) :
    (db'.state? k).map StateRow.clockCols = (db.state? k).map StateRow.clockCols ∨ (k = j ∧ Reclocked db db' j) := by
  have only : ∀ {i d s s'}, db.def? i = some d → db.state? i = some s → i = j →
      (∀ l, db'.state? l = if l = i then some s' else db.state? l) → (Clocked s d → Clocked s' d) →
      (db'.state? k).map StateRow.clockCols = (db.state? k).map StateRow.clockCols ∨ (k = j ∧ Reclocked db db' j) := by
    intro i d s s' hd hs hi hf hc
    subst hi
    by_cases hk : k = i
    · exact Or.inr ⟨hk, d, s, s', hd, hs, (hf i).trans (if_pos rfl), hc⟩
    · exact Or.inl (by rw [hf k, if_neg hk])
  cases h with
  | idle _ hs => exact Or.inl (by rw [hs k])
  | exec _ _ _ _ _ _ _ hf => exact Or.inl (by rw [hf.states k])
  | expire _ _ _ hf => exact Or.inl (by rw [hf.states k])
  | revive _ _ _ _ hf => exact Or.inl (by rw [hf.states k])
  | acquire _ _ hs _ _ _ _ _ _ _ hf => exact Or.inl (cols_of_set hs hf.states rfl k)
  | close hcl =>
    obtain ⟨ls, lf, ha, hd, hs, _, _, _, _, hp, hf, -⟩ := hcl
    have hj := Option.some.inj ((Action.reads_of_closing ha).symm.trans hr)
    exact only hd hs hj hf.states fun hc => (hc.of_cols (by rfl)).settled hp
  | skip hd hs _ _ _ _ hp hf => exact only hd hs (Option.some.inj hr) hf.states fun hc => hc.settled hp
  | clock hd hs hm hf =>
    refine only hd hs ?_ hf.states fun hc => hc.moved hm
    rw [← DB.def?_jobName hd]
    cases hm <;> exact Option.some.inj hr
  | create hd hs hj hm _ _ hf =>
    refine only hd hs ?_ hf.states fun hc => hc.creating hm
    rw [← hj]
    cases hm <;> exact Option.some.inj hr
  | catalog hs =>
    cases EditEffect.of_catalog hs k with
    | kept _ hs => exact Or.inl hs
    | raised hd₀ hd₁ hv =>
      rw [hd k, hd₀] at hd₁
      exact absurd hv (Option.some.inj hd₁ ▸ lt_irrefl _)
    | created hd₀ hd₁ => rw [hd k, hd₀] at hd₁; cases hd₁
  | _ => cases hr

/-! ## Transactions that are open -/

/-- The database as a transaction sees it that reads definitions from a snapshot. -/
def DB.under (db : DB) (snapshot : Table DefinitionRow.jobName) : DB := { db with definitions := snapshot }

/-- A schema with the transactions that hold a job's state row and have read the definitions. -/
structure Sessions where
  world : World
  open_ : String → Option (Table DefinitionRow.jobName)

/-- What happens next: a transaction takes the state row of a job and reads, or a call commits. -/
inductive SessionLabel
  | take (j : String)
  | call (l : Action × Ctx)

/-- A call that reads a definition commits what it decided from its snapshot.  Everything else may happen meanwhile,
but a state row is only taken by one such call at a time. -/
inductive SessionStep (env : Env) : Sessions → SessionLabel → Sessions → Prop
  | take {x : Sessions} {j : String} (h : x.open_ j = none) :
      SessionStep env x (.take j) { x with open_ := Function.update x.open_ j (some x.world.db.definitions) }
  | call {x : Sessions} {l : Action × Ctx} {w' : World} (hr : l.1.reads = none) (hst : Step env x.world l w') :
      SessionStep env x (.call l) { x with world := w' }
  | finish {x : Sessions} {l : Action × Ctx} {j : String} {t : Table DefinitionRow.jobName} {w' : World}
      (hr : l.1.reads = some j) (ho : x.open_ j = some t)
      (hst : Step env { x.world with db := x.world.db.under t } l w') :
      SessionStep env x (.call l)
        ⟨{ w' with db := w'.db.under x.world.db.definitions }, Function.update x.open_ j none⟩

def Sessions.init (u : Utc) : Sessions := ⟨World.init u, fun _ => none⟩

structure SessionsInv (x : Sessions) : Prop where
  clocked : ∀ j d s, x.world.db.def? j = some d → x.world.db.state? j = some s → Clocked s d
  older   : ∀ j t d₀, x.open_ j = some t → t.get? j = some d₀ →
    ∃ d, x.world.db.def? j = some d ∧ (d = d₀ ∨ d₀.version < d.version)
  taken   : ∀ j t d₀ s, x.open_ j = some t → t.get? j = some d₀ → x.world.db.state? j = some s → Clocked s d₀

theorem SessionsInv.init (u : Utc) : SessionsInv (Sessions.init u) where
  clocked _ _ _ h := by cases h
  older _ _ _ h := by cases h
  taken _ _ _ _ h := by cases h

/-- A state row with the clocks of an old one. -/
theorem clocked_of_cols {j : String} {s' : StateRow} {d : DefinitionRow}
    (h : (db'.state? j).map StateRow.clockCols = (db.state? j).map StateRow.clockCols) (hs' : db'.state? j = some s')
    (hold : ∀ s, db.state? j = some s → Clocked s d) : Clocked s' d := by
  rw [hs', Option.map_some] at h
  obtain ⟨s, hs, hcols⟩ := Option.map_eq_some_iff.1 h.symm
  exact (hold s hs).of_cols hcols.symm

theorem Step.keeps_defs {w w' : World} {l : Action × Ctx} {j : String} (hst : Step env w l w') (hr : l.1.reads = some j)
    (k : String) : w'.db.def? k = w.db.def? k := by
  rcases Tx.commit_cases (l.1.tx env l.2) w.db with ⟨_, _, hsame⟩ | ⟨u, hok⟩
  · rw [hst.db, hsame]
  · rw [hst.db]
    exact Action.keeps_defs hr hok k

/-- **Every step keeps the clocks right**, for the definition as it is and for every snapshot that is still in use. -/
theorem SessionsInv.step {x y : Sessions} {l : SessionLabel} (h : SessionsInv x) (hst : SessionStep env x l y) :
    SessionsInv y := by
  cases hst with
  | @take j hfree =>
    have opened : ∀ {k t}, Function.update x.open_ j (some x.world.db.definitions) k = some t →
        (k = j ∧ t = x.world.db.definitions) ∨ x.open_ k = some t := by
      intro k t ht
      rw [Function.update_apply] at ht
      split at ht
      · exact Or.inl ⟨‹_›, (Option.some.inj ht).symm⟩
      · exact Or.inr ht
    refine ⟨h.clocked, fun k t d₀ ht hd₀ => ?_, fun k t d₀ s ht hd₀ hs => ?_⟩
    · rcases opened ht with ⟨rfl, rfl⟩ | ht
      · exact ⟨d₀, hd₀, Or.inl rfl⟩
      · exact h.older k t d₀ ht hd₀
    · rcases opened ht with ⟨rfl, rfl⟩ | ht
      · exact h.clocked k d₀ s hd₀ hs
      · exact h.taken k t d₀ s ht hd₀ hs
  | @call l w' hr hst =>
    have hfx := hst.commit.edits hr
    refine ⟨fun k d' s' hd' hs' => ?_, fun k t d₀ ht hd₀ => ?_, fun k t d₀ s' ht hd₀ hs' => ?_⟩
    · cases hfx k with
      | kept hd hs => exact clocked_of_cols hs hs' fun s hs₀ => h.clocked k d' s (hd ▸ hd') hs₀
      | raised hd hd₁ hv hs =>
        obtain rfl := Option.some.inj (hd'.symm.trans hd₁)
        exact (clocked_of_cols hs hs' fun s hs₀ => h.clocked k _ s hd hs₀).raised hv
      | created _ hd₁ hs₁ hc =>
        obtain rfl := Option.some.inj (hd'.symm.trans hd₁)
        obtain rfl := Option.some.inj (hs'.symm.trans hs₁)
        exact hc
    · obtain ⟨d, hd, hle⟩ := h.older k t d₀ ht hd₀
      cases hfx k with
      | kept hd₁ _ => exact ⟨d, hd₁.trans hd, hle⟩
      | raised hd₁ hd₂ hv =>
        obtain rfl := Option.some.inj (hd.symm.trans hd₁)
        refine ⟨_, hd₂, Or.inr ?_⟩
        rcases hle with rfl | hlt
        · exact hv
        · exact lt_trans hlt hv
      | created hd₁ => rw [hd] at hd₁; cases hd₁
    · obtain ⟨d, hd, -⟩ := h.older k t d₀ ht hd₀
      cases hfx k with
      | kept _ hs => exact clocked_of_cols hs hs' fun s hs₀ => h.taken k t d₀ s ht hd₀ hs₀
      | raised _ _ _ hs => exact clocked_of_cols hs hs' fun s hs₀ => h.taken k t d₀ s ht hd₀ hs₀
      | created hd₁ => rw [hd] at hd₁; cases hd₁
  | @finish l j t w' hr ho hst =>
    have hfx := hst.commit.reclocks hr (hst.keeps_defs hr)
    have still : ∀ {k t'}, Function.update x.open_ j none k = some t' → k ≠ j ∧ x.open_ k = some t' := by
      intro k t' ht
      rw [Function.update_apply] at ht
      split at ht
      · cases ht
      · exact ⟨‹_›, ht⟩
    refine ⟨fun k d s' hd hs' => ?_, fun k t' d₀ ht hd₀ => h.older k t' d₀ (still ht).2 hd₀,
      fun k t' d₀ s' ht hd₀ hs' => ?_⟩
    · rcases hfx k with hs | ⟨rfl, d₀, s, s₁, hd₀, hs, hs₁, hc⟩
      · exact clocked_of_cols hs hs' fun s hs₀ => h.clocked k d s hd hs₀
      · obtain rfl := Option.some.inj (hs'.symm.trans hs₁)
        have hread := hc (h.taken k t d₀ s ho hd₀ hs)
        -- The definition is the one that was read, or a later version of it.
        obtain ⟨d₁, hd₁, hle⟩ := h.older k t d₀ ho hd₀
        obtain rfl := Option.some.inj (hd₁.symm.trans hd)
        rcases hle with rfl | hlt
        · exact hread
        · exact hread.raised hlt
    · obtain ⟨hk, hopen⟩ := still ht
      rcases hfx k with hs | ⟨rfl, -⟩
      · exact clocked_of_cols hs hs' fun s hs₀ => h.taken k t' d₀ s hopen hd₀ hs₀
      · exact absurd rfl hk

theorem SessionsInv.run {u : Utc} {tr : List (Sessions × SessionLabel × Sessions)} {x : Sessions}
    (hr : Sys.Run (SessionStep env) (Sessions.init u) tr x) : SessionsInv x :=
  Sys.Run.invariant (I := SessionsInv) (.init u) (fun _ _ _ h hst => h.step hst) hr

/-- A call that is not interrupted reads the definition as it is: it takes the row and finishes at once. -/
theorem SessionsInv.whole {w w' : World} {l : Action × Ctx} (h : SessionsInv ⟨w, fun _ => none⟩)
    (hst : Step env w l w') : SessionsInv ⟨w', fun _ => none⟩ := by
  cases hr : l.1.reads with
  | none => exact h.step (.call hr hst)
  | some j =>
    have htook := h.step (.take rfl : SessionStep env _ (.take j) _)
    have hdone := htook.step (SessionStep.finish hr (Function.update_self ..) hst)
    have hdefs := hst.keeps_defs hr
    refine ⟨fun k d s hd hs => hdone.clocked k d s ((hdefs k).symm.trans hd) hs, ?_, ?_⟩
    · intro _ _ _ ht; cases ht
    · intro _ _ _ _ ht; cases ht

theorem clocked_run {u : Utc} {tr : List (World × (Action × Ctx) × World)} {w : World}
    (hr : Sys.Run (Step env) (World.init u) tr w) {j : String} {d : DefinitionRow} {s : StateRow}
    (hd : w.db.def? j = some d) (hs : w.db.state? j = some s) : Clocked s d :=
  (Sys.Run.invariant (I := fun w => SessionsInv ⟨w, fun _ => none⟩) (.init u) (fun _ _ _ h hst => h.whole hst)
    hr).clocked j d s hd hs

/-- Nothing a pass says when a schedule fails reads like the complaint about a missing fire instant. -/
theorem not_cron_wrap (j : String) : ScheduleErr (fun e => e.detail.toList.take 2 ≠ ['c', 'r']) (fun _ => True) j := by
  intro what hw e _
  simp only [scheduleContexts, List.mem_cons, List.not_mem_nil, or_false] at hw
  rcases hw with rfl | rfl | rfl | rfl | rfl <;> simp [Err.wrap, String.toList_append]

/-- **Clocks follow the definition.**  Whatever edits happen while a transaction works from its snapshot, no state row
is ahead of its definition, an in-date cron row has its fire instant and no poll clock, and a cron pass that holds its
snapshot never finds the fire instant missing. -/
theorem clocks_follow_definition {u : Utc} {tr : List (Sessions × SessionLabel × Sessions)} {x : Sessions}
    (hr : Sys.Run (SessionStep env) (Sessions.init u) tr x) :
    (∀ j d s, x.world.db.def? j = some d → x.world.db.state? j = some s →
      s.configVersion ≤ d.version ∧
      (s.configVersion = d.version → d.enabled = true → d.retired = false → d.scheduleKind = .cron →
        s.nextFireAt ≠ none ∧ s.nextPollAt = none)) ∧
    (∀ j t c compile grace, x.open_ j = some t →
      materializeCron env c j compile grace (x.world.db.under t) ≠
        .error ⟨.protocol, "cron job " ++ j.quote ++ " has no next_fire_at"⟩) := by
  have hinv := SessionsInv.run hr
  refine ⟨fun j d s hd hs => ?_, fun j t c compile grace ho herr => ?_⟩
  · have hc := hinv.clocked j d s hd hs
    exact ⟨hc.version, fun hv he hret hk => hc.cron ⟨he, hret, hk, hv⟩⟩
  · have hfails : FailsOnly (fun e => e.detail.toList.take 2 ≠ ['c', 'r']) (materializeCron env c j compile grace)
        (x.world.db.under t) := by
      refine materializeCron_failsOnly ?_ (fun _ => ?_) (fun _ _ => ?_) (fun s d hs hd hin => ?_)
        (fun d _ _ => ⟨fun _ _ => trivial, fun _ _ _ _ _ => trivial, fun _ _ _ _ _ _ => trivial,
          fun _ _ _ _ _ _ _ => trivial⟩) (not_cron_wrap j) ?_
      · simp [String.toList_append]
      · simp [String.toList_append]
      · simp [String.toList_append]
      · exact ((hinv.taken j t d s ho hd hs).cron hin).1
      · simp
    exact hfails _ herr (by simp [String.toList_append])

/-- A cron job whose state row is taken by a pass, and then edited into a poll job. -/
def editedUnderway : Sessions :=
  let job := sampleJob "sync" .cron "*/10 * * * * *"
  let created := (World.init 0).call bareEnv (.createJob job (10 * second) "operator" "new") 0
  { world := created.call bareEnv (.updateJob (sampleJob "sync" .fixedDelay "1000") 1 "operator" "edit") 1
    open_ := Function.update (fun _ => none) "sync" (some created.db.definitions) }

theorem clocks_follow_definition_edited :
    (editedUnderway.world.db.def? "sync").map (fun d => (d.version, d.scheduleKind)) = some (2, .fixedDelay) ∧
    (editedUnderway.open_ "sync").isSome = true ∧
    (∀ d s, editedUnderway.world.db.def? "sync" = some d → editedUnderway.world.db.state? "sync" = some s →
      s.configVersion ≤ d.version) ∧
    ∀ t compile grace, editedUnderway.open_ "sync" = some t →
      materializeCron bareEnv (Ctx.at_ 10) "sync" compile grace (editedUnderway.world.db.under t) ≠
        .error ⟨.protocol, "cron job " ++ "sync".quote ++ " has no next_fire_at"⟩ := by
  have hrun : ∃ tr, Sys.Run (SessionStep bareEnv) (Sessions.init 0) tr editedUnderway :=
    ⟨_, ((Sys.Run.nil.snoc (.call rfl (World.step_call bareEnv (by decide) rfl))).snoc (.take rfl)).snoc
      (.call rfl (World.step_call bareEnv (by decide) rfl))⟩
  obtain ⟨_, hrun⟩ := hrun
  have hall := clocks_follow_definition hrun
  exact ⟨by decide +kernel, by decide, fun d s hd hs => (hall.1 "sync" d s hd hs).1,
    fun t compile grace ho => hall.2 "sync" t (Ctx.at_ 10) compile grace ho⟩

end GoJob
