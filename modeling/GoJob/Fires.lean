import GoJob.Clock
/-!
# Fires — a cron instant is materialized once, and not before its time

Three things stand against a second execution of one instant: the fire clock has moved past it, the key of the first
one is taken, and a scheduler looks at both again under the state row's lock.  Recomputing the clock at the very second
of a fire sets it back to that fire, and then the key alone is left; once retention has deleted the row, nothing is.
-/
namespace GoJob

open Rel

variable {env : Env} {c : Ctx} {db db' : DB} {a : Action}

/-! ## Schedules -/

/-- The compiled schedule answers for the fire instants `F`, which are whole seconds. -/
structure Schedule.Fires (sched : Schedule) (F : Set Instant) : Prop where
  whole  : ∀ f ∈ F, f % second = 0
  next   : ∀ {t n}, sched.next t = .ok n → IsLeast {f ∈ F | t < f} n
  count  : ∀ {s t limit n x}, sched.countBetween s t limit = .ok (n, x) → n = min limit (F ∩ Set.Ioc s t).ncard
  latest : ∀ {t h f}, sched.latest t h = .ok (some f) → IsGreatest (F ∩ Set.Icc (t - h) t) f

/-- Every definition that compiles has a schedule of some fire instants. -/
def Compile.Lawful (compile : Compile) : Prop := ∀ d sched, compile d = .ok sched → ∃ F, sched.Fires F

/-- The call brings a lawful compiler, and a misfire threshold that is not negative. -/
def Action.Lawful : Action → Prop
  | .materializeCron _ compile grace => Compile.Lawful compile ∧ 0 ≤ grace
  | .materializePoll _ _ compile     => Compile.Lawful compile
  | .recompute _ compile             => Compile.Lawful compile
  | _                                => True

theorem datetime_whole {t : Instant} (h : t % second = 0) : datetime t = t := by
  have key : ∀ n : Int, n % 1000000000 = 0 → (n + 500000000) / 1000000000 * 1000000000 = n := by omega
  exact key t h

theorem datetime_mod (t : Instant) : datetime t % second = 0 := Int.mul_emod_left _ _

/-- **What a due pass deals with is due and has arrived**, and the clock moves beyond it. -/
theorem DuePass.spec {compile : Compile} {grace due fireAt next : Instant} {d : DefinitionRow} {create : Bool}
    (h : DuePass c compile grace d due fireAt create next) (hl : Compile.Lawful compile) (hg : 0 ≤ grace)
    (hw : due % second = 0) :
    due ≤ fireAt ∧ fireAt ≤ c.now ∧ fireAt % second = 0 ∧ fireAt < next ∧ next % second = 0 := by
  obtain ⟨hdue, sched, hc, ⟨n, x, hn, hcase⟩, hnext⟩ := h
  obtain ⟨F, hF⟩ := hl _ _ hc
  obtain ⟨⟨hnF, hlt⟩, -⟩ := hF.next hnext
  have hfire : due ≤ fireAt ∧ fireAt ≤ c.now ∧ fireAt % second = 0 := by
    rcases hcase with ⟨-, rfl, -⟩ | ⟨-, -, rfl, -⟩ | ⟨hn0, -, ⟨-, rfl, -⟩ | ⟨hlat, -⟩⟩
    · exact ⟨le_refl _, hdue, hw⟩
    · exact ⟨le_refl _, hdue, hw⟩
    · exact ⟨le_refl _, hdue, hw⟩
    · -- A missed fire at or after `due` lies in the window or before it, so the latest one is no earlier.
      obtain ⟨⟨hfF, hlo, hhi⟩, hmax⟩ := hF.latest hlat
      have hne : (F ∩ Set.Ioc (due - 1) (c.now - grace - 1)).ncard ≠ 0 := by
        intro h0
        rw [hF.count hn, h0] at hn0
        exact hn0 (Nat.min_zero _)
      obtain ⟨f, hf, hf₁, hf₂⟩ := Set.nonempty_of_ncard_ne_zero hne
      have hle : due ≤ f := Int.le_of_sub_one_lt hf₁
      refine ⟨?_, by linarith, hF.whole _ hfF⟩
      by_cases hwin : c.now - grace - 1 - misfireHorizon ≤ f
      · exact le_trans hle (hmax ⟨hf, hwin, hf₂⟩)
      · linarith
  refine ⟨hfire.1, hfire.2.1, hfire.2.2, ?_, hF.whole _ hnF⟩
  split at hlt
  · exact lt_of_le_of_lt hfire.2.1 hlt
  · exact hlt

theorem Clocks.fire_spec {compile : Compile} {s : StateRow} {d : DefinitionRow} {t : Instant} {poll : Option Instant}
    (h : Clocks c db compile s d (some t) poll) (hl : Compile.Lawful compile) : c.now ≤ t ∧ t % second = 0 := by
  cases h with
  | cron sched next _ _ _ hc hn =>
    obtain ⟨F, hF⟩ := hl _ _ hc
    obtain ⟨⟨hnF, hlt⟩, -⟩ := hF.next hn
    rw [datetime_whole (hF.whole _ hnF)]
    exact ⟨Int.le_of_sub_one_lt hlt, hF.whole _ hnF⟩

/-! ## The fire clock -/

/-- Every fire clock is a whole second. -/
def DB.WholeClocks (db : DB) : Prop := ∀ j s t, db.state? j = some s → s.nextFireAt = some t → t % second = 0

/-- A whole second, not before the present or not before the clock it replaces. -/
structure NotBefore (c : Ctx) (db : DB) (j : String) (t' : Instant) : Prop where
  whole : t' % second = 0
  since : c.now ≤ t' ∨ ∃ s t, db.state? j = some s ∧ s.nextFireAt = some t ∧ t ≤ t'

/-- **The fire clock falls back to the present at most.** -/
theorem ClockEffect.fire {j : String} {s' : StateRow} {t' : Instant} (h : ClockEffect env c db db' a j) (hl : a.Lawful)
    (hw : db.WholeClocks) (hs' : db'.state? j = some s') (ht' : s'.nextFireAt = some t') : NotBefore c db j t' := by
  have kept : ∀ {s}, db.state? j = some s → s.nextFireAt = s'.nextFireAt → NotBefore c db j t' := fun {s} hs hn =>
    ⟨hw j s t' hs (hn.trans ht'), Or.inr ⟨s, t', hs, hn.trans ht', le_refl _⟩⟩
  have clocks : ∀ {compile s d fire poll}, Compile.Lawful compile → Clocks c db compile s d fire poll →
      fire = some t' → NotBefore c db j t' := fun hl hck hf => by
    subst hf
    exact ⟨(hck.fire_spec hl).2, Or.inl (hck.fire_spec hl).1⟩
  have advance : ∀ {compile grace d due fireAt create next s}, db.state? j = some s → s.nextFireAt = some due →
      Compile.Lawful compile ∧ 0 ≤ grace → DuePass c compile grace d due fireAt create next →
      some (datetime next) = some t' → NotBefore c db j t' := by
    rintro compile grace d due fireAt create next s hs hf ⟨hl, hg⟩ hp hn
    obtain ⟨h₁, -, -, h₂, hnw⟩ := hp.spec hl hg (hw j s due hs hf)
    rw [datetime_whole hnw] at hn
    obtain rfl := Option.some.inj hn
    exact ⟨hnw, Or.inr ⟨s, due, hs, hf, le_of_lt (lt_of_le_of_lt h₁ h₂)⟩⟩
  cases h with
  | kept _ hs =>
    obtain ⟨s, hs₀, hn, -⟩ := clocks_kept hs hs'
    exact kept hs₀ hn.symm
  | retired _ _ _ _ hs => exact kept (hs ▸ hs') rfl
  | settled t _ _ hs hs₁ hcols =>
    obtain rfl := Option.some.inj (hs'.symm.trans hs₁)
    simp only [StateRow.clockCols, Prod.mk.injEq] at hcols
    exact kept hs hcols.1.symm
  | moved hd hs hm hf =>
    rw [hf.states, if_pos rfl] at hs'
    obtain rfl := Option.some.inj hs'
    cases hm with
    | recompute _ _ hck => exact clocks hl hck ht'
    | cronDrift _ _ _ hck => exact clocks hl.1 hck ht'
    | pollDrift _ _ hck => exact clocks hl hck ht'
    | advance _ _ _ _ _ hdue hp => exact advance hs hdue hl hp ht'
  | created hd hs hj hm _ hf =>
    obtain rfl := Option.some.inj (hs'.symm.trans hf.state?)
    cases hm with
    | cron _ _ _ _ _ _ hdue hp => exact advance hs hdue hl hp ht'
    | poll => exact kept hs rfl
    | manual => exact kept hs rfl

theorem catalog_wholeClocks (h : Relation.ReflTransGen (CatalogStep c) db db') (hw : db.WholeClocks) :
    db'.WholeClocks := by
  induction h with
  | refl => exact hw
  | tail _ hs ih =>
    intro j s t hst ht
    cases hs with
    | edit _ _ _ _ _ _ hstates => exact ih j s t (hstates j ▸ hst) ht
    | audit _ hstates => exact ih j s t (hstates j ▸ hst) ht
    | create d next _ _ _ _ _ hstates =>
      rw [hstates] at hst
      split at hst
      · obtain rfl := Option.some.inj hst
        simp only [newState] at ht
        split at ht
        · exact Option.some.inj ht ▸ datetime_mod next
        · cases ht
      · exact ih j s t hst ht

theorem Commit.wholeClocks {issued : List String} (h : Commit env c db a db') (hinv : HolderInv db issued)
    (hl : a.Lawful) (hw : db.WholeClocks) : db'.WholeClocks := by
  rcases h.clockEffect hinv with hcat | hfx
  · exact catalog_wholeClocks hcat hw
  · exact fun j s t hs ht => ((hfx j).fire hl hw hs ht).whole

/-- The job's fire clock is beyond the instant. -/
def DB.Passed (db : DB) (j : String) (f : Instant) : Prop :=
  ∀ s t, db.state? j = some s → s.nextFireAt = some t → f < t

/-- **A clock beyond a past instant stays beyond it.** -/
theorem DB.Passed.commit {issued : List String} {j : String} {f : Instant} (h : db.Passed j f)
    (hc : Commit env c db a db') (hinv : HolderInv db issued) (hl : a.Lawful) (hw : db.WholeClocks)
    (hs : (db.state? j).isSome = true) (hf : f < c.now) : db'.Passed j f := by
  intro s' t' hs' ht'
  rcases hc.clockEffect hinv with hcat | hfx
  · obtain ⟨s, hs⟩ := Option.isSome_iff_exists.1 hs
    obtain rfl := Option.some.inj (hs'.symm.trans (catalog_state? hcat hs))
    exact h _ _ hs ht'
  · rcases ((hfx j).fire hl hw hs' ht').since with hnow | ⟨s, t, hs, ht, hle⟩
    · exact lt_of_lt_of_le hf hnow
    · exact lt_of_lt_of_le (h s t hs ht) hle

/-! ## Executions -/

/-- **Whatever ends a row writes when.** -/
theorem ExecMove.finishedAt {e e' : ExecRow} (h : ExecMove c a e e') (ht : e'.status.terminal = true) :
    e'.finishedAt = some c.now := by
  have held : e.status.held = true → e'.status = e.status → e'.finishedAt = some c.now := fun hh hs => by
    rw [hs, Status.not_terminal_of_held hh] at ht; cases ht
  cases h with
  | dispatch => cases ht
  | accept => cases ht
  | cancel => cases ht
  | retireHeld => cases ht
  | revive => cases ht
  | defer _ hs => rw [show (deferWrite c _ |>.run e).status = .ready from hs] at ht; cases ht
  | retarget _ ho => exact held (by rw [(ExecRow.unaccepted_iff.1 ho).1]; rfl) rfl
  | renew _ hs => exact held hs rfl
  | extend _ hr => exact held (ExecRow.reportable_iff.1 hr).1 rfl
  | adopt _ hs =>
    simp only [adoptWrite] at ht
    split at ht
    · cases ht
    · rw [Status.not_terminal_of_held hs] at ht; cases ht
  | refuse =>
    simp only [refuseWrite] at ht ⊢
    split at ht
    · rename_i hp; rw [if_pos hp]
    · cases ht
  | retry =>
    simp only [retryWrite] at ht ⊢
    split at ht
    · rename_i hp; rw [if_pos hp]
    · cases ht
  | resolve =>
    simp only [resolveWrite] at ht ⊢
    rw [if_neg (Status.ne_of_terminal ht).1]
  | _ => rfl

theorem ExecRow.finished_of_expired {e : ExecRow} {s o : Instant} (h : e.expired s o = true) :
    ∃ t, e.finishedAt = some t ∧ (t < s ∨ t < o) := by
  cases hf : e.finishedAt with
  | none => cases hs : e.status <;> simp [ExecRow.expired, hs, hf] at h
  | some t =>
    refine ⟨t, rfl, ?_⟩
    cases hs : e.status <;> simp [ExecRow.expired, hs, hf] at h
    case success => exact Or.inl h
    all_goals exact Or.inr h

/-! ## What a step materializes -/

/-- The cron executions a step creates: the job and the instant of each. -/
def fired (x : World × (Action × Ctx) × World) : List (String × Instant) :=
  (x.2.2.db.executions.table.rows.filter (fun e =>
    decide (e.triggerType = .cron) && (x.1.db.exec? e.id).isNone)).map (fun e => (e.jobName, e.scheduledAt))

theorem mem_fired {w w' : World} {l : Action × Ctx} {p : String × Instant} : p ∈ fired (w, l, w') ↔
    ∃ i e, w.db.exec? i = none ∧ w'.db.exec? i = some e ∧ e.triggerType = .cron ∧ (e.jobName, e.scheduledAt) = p := by
  simp only [fired, List.mem_map, List.mem_filter, Bool.and_eq_true, decide_eq_true_eq, Option.isNone_iff_eq_none]
  constructor
  · rintro ⟨e, ⟨he, ht, hn⟩, hp⟩
    exact ⟨e.id, e, hn, DB.mem_iff.1 he, ht, hp⟩
  · rintro ⟨i, e, hn, he, ht, hp⟩
    obtain rfl := DB.exec?_id he
    exact ⟨e, ⟨DB.mem_iff.2 he, ht, hn⟩, hp⟩

/-- A step creates one execution at most. -/
theorem Step.fired_nodup {w w' : World} {l : Action × Ctx} (hst : Step env w l w') : (fired (w, l, w')).Nodup := by
  rw [fired, List.Nodup, List.pairwise_map]
  refine (w'.db.ids_distinct.filter _).imp_of_mem (fun {e x} he hx hne => ?_)
  simp only [List.mem_filter, Bool.and_eq_true, Option.isNone_iff_eq_none] at he hx
  obtain ⟨_, _, _, _, -, -, -, -, hf, -⟩ := hst.commit.new he.2.2 (DB.mem_iff.1 he.1)
  have hrow := DB.mem_iff.1 hx.1
  rw [hf.execs, if_neg (Ne.symm hne), hx.2.2] at hrow
  cases hrow

/-- What is known of a cron execution when it is created. -/
structure NewFire (env : Env) (c : Ctx) (db db' : DB) (e : ExecRow) : Prop where
  due   : ∃ s t, db.state? e.jobName = some s ∧ s.nextFireAt = some t ∧ t ≤ e.scheduledAt
  early : e.scheduledAt ≤ c.now
  key   : cronExecutionKey env e.jobName e.scheduledAt = some e.executionKey
  fresh : ∀ k e₀, db.exec? k = some e₀ → e₀.executionKey ≠ e.executionKey
  state : (db'.state? e.jobName).isSome = true
  live  : e.status.terminal = false

theorem Commit.newFire {i : Nat} {e : ExecRow} (h : Commit env c db a db') (hl : a.Lawful) (hw : db.WholeClocks)
    (hn : db.exec? i = none) (he : db'.exec? i = some e) (ht : e.triggerType = .cron) : NewFire env c db db' e := by
  obtain ⟨j, d, s, s', -, hs, hj, hm, hf, -, hfresh⟩ := h.new hn he
  cases hm with
  | poll => cases ht
  | manual => cases ht
  | cron key id due fireAt next _ hdue hp hk =>
    obtain rfl := hj
    obtain ⟨h₁, h₂, hfw, -, -⟩ := hp.spec hl.1 hl.2 (hw _ s due hs hdue)
    have hat : datetime fireAt = fireAt := datetime_whole hfw
    refine ⟨⟨s, due, hs, hdue, h₁.trans_eq hat.symm⟩, hat.trans_le h₂, ?_, hfresh, by rw [hf.state?]; rfl, rfl⟩
    show cronExecutionKey env _ (datetime fireAt) = some key
    rw [hat]
    exact hk

/-- The execution of the instant is still there, under the instant's key. -/
def DB.Kept (env : Env) (db : DB) (j : String) (f : Instant) : Prop :=
  ∃ i e, db.exec? i = some e ∧ e.triggerType = .cron ∧ e.jobName = j ∧ e.scheduledAt = f ∧
    cronExecutionKey env j f = some e.executionKey

/-- A call of retention when a cron execution is old enough to go and the fire clock has not passed its instant. -/
def ReapsDue (db : DB) (a : Action) (c : Ctx) : Prop :=
  ∃ r o limit i e s t, a = .reapExecutions r o limit ∧ db.exec? i = some e ∧ e.triggerType = .cron ∧
    e.expired (c.now - r) (c.now - o) = true ∧ db.state? e.jobName = some s ∧ s.nextFireAt = some t ∧ t ≤ e.scheduledAt

/-! ## Along a run -/

/-- The instants a history has materialized, and where each of them stands. -/
structure FireInv (env : Env) (tr : History) (db : DB) : Prop where
  nodup  : (tr.flatMap fired).Nodup
  early  : ∀ x ∈ tr, ∀ p ∈ fired x, p.2 ≤ x.2.1.2.now
  whole  : db.WholeClocks
  rows   : ∀ i e, db.exec? i = some e → e.triggerType = .cron → (e.jobName, e.scheduledAt) ∈ tr.flatMap fired ∧
    (e.status.terminal = true → ∃ t, e.finishedAt = some t ∧ e.scheduledAt ≤ t)
  states : ∀ p ∈ tr.flatMap fired, (db.state? p.1).isSome = true
  stands : ∀ p ∈ tr.flatMap fired, db.Kept env p.1 p.2 ∨ (db.Passed p.1 p.2 ∧ ∃ x ∈ tr, p.2 < x.2.1.2.now)

namespace FireInv

variable {tr : History} {w w' : World} {l : Action × Ctx}

theorem init : FireInv env [] DB.empty where
  nodup := List.nodup_nil
  early _ hx := by cases hx
  whole _ _ _ hs := by cases hs
  rows _ _ he := by cases he
  states _ hp := by cases hp
  stands _ hp := by cases hp

/-- Every instant materialized so far has come. -/
theorem le_now (h : FireInv env tr w.db) (hnow : ∀ x ∈ tr, x.2.1.2.now ≤ l.2.now) {p : String × Instant}
    (hp : p ∈ tr.flatMap fired) : p.2 ≤ l.2.now := by
  obtain ⟨x, hx, hpx⟩ := List.mem_flatMap.1 hp
  exact le_trans (h.early x hx p hpx) (hnow x hx)

/-- **An instant materialized before is not materialized again.** -/
theorem not_again (h : FireInv env tr w.db) {e : ExecRow} (hnew : NewFire env l.2 w.db w'.db e) :
    (e.jobName, e.scheduledAt) ∉ tr.flatMap fired := by
  intro hp
  rcases h.stands _ hp with ⟨i, x, hx, -, -, -, hkey⟩ | ⟨hpass, -⟩
  · exact hnew.fresh i x hx (Option.some.inj (hkey.symm.trans hnew.key))
  · obtain ⟨s, t, hs, ht, hle⟩ := hnew.due
    exact absurd (hpass s t hs ht) (not_lt.2 hle)

/-- Its row stays until retention deletes it, and by then the clock is beyond it. -/
theorem kept_step (h : FireInv env tr w.db) (hst : Step env w l w') (hreap : ¬ ReapsDue w.db l.1 l.2)
    {p : String × Instant} (hk : w.db.Kept env p.1 p.2) :
    w'.db.Kept env p.1 p.2 ∨ (w.db.Passed p.1 p.2 ∧ p.2 < l.2.now) := by
  obtain ⟨i, e, he, ht, hj, hf, hkey⟩ := hk
  cases he' : w'.db.exec? i with
  | some e' =>
    refine Or.inl ⟨i, e', he', ?_⟩
    rw [hst.commit.info he he']
    exact ⟨ht, hj, hf, hkey⟩
  | none =>
    have hrow := hst.commit.row he
    rw [he'] at hrow
    obtain ⟨b, hb⟩ : ∃ b, l.1 = b := ⟨_, rfl⟩
    rw [hb] at hrow
    cases hrow with
    | delete hexp hs ho =>
      refine Or.inr ⟨fun s t hs hn => ?_, ?_⟩
      · by_contra hle
        exact hreap ⟨_, _, _, i, e, s, t, hb, he, ht, hexp, by rw [hj]; exact hs, hn, by rw [hf]; exact not_lt.1 hle⟩
      · obtain ⟨t, hfin, hlt⟩ := ExecRow.finished_of_expired hexp
        obtain ⟨t', hfin', hle⟩ := (h.rows i e he ht).2 (ExecRow.terminal_of_expired hexp)
        obtain rfl := Option.some.inj (hfin.symm.trans hfin')
        rw [← hf]
        rcases hlt with hlt | hlt <;> linarith

theorem step (h : FireInv env tr w.db) (hinv : HolderInv w.db w.issued) (hst : Step env w l w')
    (hnow : ∀ x ∈ tr, x.2.1.2.now ≤ l.2.now) (hl : l.1.Lawful) (hreap : ¬ ReapsDue w.db l.1 l.2) :
    FireInv env (tr ++ [(w, l, w')]) w'.db := by
  have hflat : (tr ++ [(w, l, w')]).flatMap fired = tr.flatMap fired ++ fired (w, l, w') := by simp
  have hnew : ∀ p ∈ fired (w, l, w'), ∃ i e, w'.db.exec? i = some e ∧ e.triggerType = .cron ∧
      (e.jobName, e.scheduledAt) = p ∧ NewFire env l.2 w.db w'.db e := fun p hp => by
    obtain ⟨i, e, hn, he, ht, hpe⟩ := mem_fired.1 hp
    exact ⟨i, e, he, ht, hpe, hst.commit.newFire hl h.whole hn he ht⟩
  refine ⟨?_, fun x hx p hp => ?_, hst.commit.wholeClocks hinv hl h.whole, fun i e' he' ht' => ?_, fun p hp => ?_,
    fun p hp => ?_⟩
  · rw [hflat, List.nodup_append]
    refine ⟨h.nodup, hst.fired_nodup, ?_⟩
    rintro p hp _ hp' rfl
    obtain ⟨i, e, -, -, rfl, hfire⟩ := hnew p hp'
    exact h.not_again hfire hp
  · rcases List.mem_append.1 hx with hx | hx
    · exact h.early x hx p hp
    · obtain rfl := List.mem_singleton.1 hx
      obtain ⟨i, e, -, -, rfl, hfire⟩ := hnew p hp
      exact hfire.early
  · rw [hflat, List.mem_append]
    cases he : w.db.exec? i with
    | none =>
      have hfire := hst.commit.newFire hl h.whole he he' ht'
      exact ⟨Or.inr (mem_fired.2 ⟨i, e', he, he', ht', rfl⟩), fun hterm => by rw [hfire.live] at hterm; cases hterm⟩
    | some e =>
      rcases hst.commit.moved he he' with rfl | hm
      · obtain ⟨hmem, hfin⟩ := h.rows i _ he ht'
        exact ⟨Or.inl hmem, hfin⟩
      · rw [hm.info] at ht' ⊢
        obtain ⟨hmem, -⟩ := h.rows i e he ht'
        exact ⟨Or.inl hmem, fun hterm => ⟨l.2.now, hm.finishedAt hterm, h.le_now hnow hmem⟩⟩
  · rw [hflat, List.mem_append] at hp
    rcases hp with hp | hp
    · exact hst.commit.lockEffect.state_isSome (h.states p hp)
    · obtain ⟨i, e, -, -, rfl, hfire⟩ := hnew p hp
      exact hfire.state
  · rw [hflat, List.mem_append] at hp
    have passed : w.db.Passed p.1 p.2 → p.2 < l.2.now → p ∈ tr.flatMap fired →
        w'.db.Passed p.1 p.2 ∧ ∃ x ∈ tr ++ [(w, l, w')], p.2 < x.2.1.2.now := fun hpass hlt hp =>
      ⟨hpass.commit hst.commit hinv hl h.whole (h.states p hp) hlt, (w, l, w'), by simp, hlt⟩
    rcases hp with hp | hp
    · rcases h.stands p hp with hk | ⟨hpass, x, hx, hlt⟩
      · exact (h.kept_step hst hreap hk).imp_right (fun ⟨hpass, hlt⟩ => passed hpass hlt hp)
      · exact Or.inr (passed hpass (lt_of_lt_of_le hlt (hnow x hx)) hp)
    · obtain ⟨i, e, he, ht, rfl, hfire⟩ := hnew p hp
      exact Or.inl ⟨i, e, he, ht, rfl, rfl, hfire.key⟩

theorem run {u : Utc} (hr : Sys.Run (Step env) (World.init u) tr w) (hclock : (tr.map (·.2.1.2.now)).Pairwise (· ≤ ·))
    (hl : ∀ x ∈ tr, x.2.1.1.Lawful) (hreap : ∀ x ∈ tr, ¬ ReapsDue x.1.db x.2.1.1 x.2.1.2) : FireInv env tr w.db := by
  refine Sys.Run.history (J := fun tr w => (tr.map (·.2.1.2.now)).Pairwise (· ≤ ·) → (∀ x ∈ tr, x.2.1.1.Lawful) →
    (∀ x ∈ tr, ¬ ReapsDue x.1.db x.2.1.1 x.2.1.2) → FireInv env tr w.db) (fun _ _ _ => init) ?_ hr hclock hl hreap
  intro tr w l w' hr ih hst hclock hl hreap
  rw [List.map_append, List.pairwise_append] at hclock
  have hlast : (w, l, w') ∈ tr ++ [(w, l, w')] := by simp
  refine (ih hclock.1 (fun x hx => hl x (List.mem_append_left _ hx))
    (fun x hx => hreap x (List.mem_append_left _ hx))).step (HolderInv.run hr) hst ?_ (hl _ hlast) (hreap _ hlast)
  exact fun x hx => hclock.2.2 _ (List.mem_map_of_mem hx) _ (by simp)

end FireInv

/-- **Cron materialization is never early and never double**, in every run on a clock that does not go back, with
lawful schedules, in which retention spares the executions the fire clock has not passed. -/
theorem cron_fires_once {u : Utc} {tr : History} {w : World} (hr : Sys.Run (Step env) (World.init u) tr w)
    (hclock : (tr.map (·.2.1.2.now)).Pairwise (· ≤ ·)) (hl : ∀ x ∈ tr, x.2.1.1.Lawful)
    (hreap : ∀ x ∈ tr, ¬ ReapsDue x.1.db x.2.1.1 x.2.1.2) :
    (∀ x ∈ tr, ∀ p ∈ fired x, p.2 ≤ x.2.1.2.now) ∧ (tr.flatMap fired).Nodup :=
  have hinv := FireInv.run hr hclock hl hreap
  ⟨hinv.early, hinv.nodup⟩

/-! ## Every ten seconds -/

def tenSeconds : Instant := 10 * second

/-- A schedule that fires every ten seconds. -/
def everyTen : Schedule where
  next t := .ok ((t / tenSeconds + 1) * tenSeconds)
  latest t h := .ok (if t - h ≤ t / tenSeconds * tenSeconds then some (t / tenSeconds * tenSeconds) else none)
  countBetween s t limit :=
    let n := (t / tenSeconds - s / tenSeconds).toNat
    .ok (min limit n, decide (n ≤ limit))

theorem everyTen_fires : everyTen.Fires {f | tenSeconds ∣ f} where
  whole f hf := by
    have key : ∀ n : Int, (10000000000 : Int) ∣ n → n % 1000000000 = 0 := by omega
    exact key f hf
  next {t n} h := by
    obtain rfl := Except.ok.inj h
    have key : ∀ t : Int, t < (t / 10000000000 + 1) * 10000000000 ∧
        ∀ f : Int, (10000000000 : Int) ∣ f → t < f → (t / 10000000000 + 1) * 10000000000 ≤ f := by
      intro t
      exact ⟨by omega, by omega⟩
    exact ⟨⟨Int.dvd_mul_left _ _, (key t).1⟩, fun f hf => (key t).2 f hf.1 hf.2⟩
  count {s t limit n x} h := by
    have key : ∀ s t : Int, ({f | (10000000000 : Int) ∣ f} ∩ Set.Ioc s t).ncard =
        (t / 10000000000 - s / 10000000000).toNat := by
      intro s t
      have hset : {f | (10000000000 : Int) ∣ f} ∩ Set.Ioc s t =
          ((Finset.Ioc s t).filter (fun f => (10000000000 : Int) ∣ f) : Finset Int) := by
        ext f; simp [and_comm]
      have hcard := Int.Ioc_filter_dvd_card s t (show (0 : Int) < (10000000000 : Nat) by decide)
      rw [Int.cast_natCast, Rat.floor_intCast_div_natCast, Rat.floor_intCast_div_natCast] at hcard
      rw [hset, Set.ncard_coe_finset]
      simp only [Nat.cast_ofNat] at hcard
      omega
    have hn : min limit (t / tenSeconds - s / tenSeconds).toNat = n := congrArg Prod.fst (Except.ok.inj h)
    rw [← hn]
    exact congrArg (min limit) (key s t).symm
  latest {t h f} hf := by
    have hf := Except.ok.inj hf
    split at hf
    · rename_i hle
      obtain rfl := Option.some.inj hf
      have key : ∀ t : Int, t / 10000000000 * 10000000000 ≤ t ∧
          ∀ f : Int, (10000000000 : Int) ∣ f → f ≤ t → f ≤ t / 10000000000 * 10000000000 := by
        intro t
        exact ⟨by omega, by omega⟩
      exact ⟨⟨Int.dvd_mul_left _ _, hle, (key t).1⟩, fun f hf => (key t).2 f hf.1 hf.2.2⟩
    · cases hf

theorem everyTen_lawful : Compile.Lawful (fun _ => .ok everyTen) := by
  rintro d sched h
  obtain rfl := Except.ok.inj h
  exact ⟨_, everyTen_fires⟩

/-- The job fires at second 10, and its execution runs at once. -/
def firstFire : List (Action × Int) :=
  [(.createJob (sampleJob "sync" .cron "*/10 * * * * *") (10 * second) "operator" "new", 0),
   (.materializeCron "sync" (fun _ => .ok everyTen) (60 * second), 10)]

theorem cron_fires_once_first : ((World.init 0).trace bareEnv firstFire).flatMap fired = [("sync", 10 * second)] ∧
    (((World.init 0).trace bareEnv firstFire).flatMap fired).Nodup := by
  refine ⟨by decide +kernel, (cron_fires_once (World.run_play bareEnv firstFire (World.init 0) (by decide +kernel))
    (by decide +kernel) ?_ ?_).2⟩
  · intro x hx
    simp only [firstFire, World.trace, List.mem_cons, List.not_mem_nil, or_false] at hx
    rcases hx with rfl | rfl
    · trivial
    · exact ⟨everyTen_lawful, by decide⟩
  · rintro x hx ⟨_, _, _, _, _, _, _, ha, -⟩
    simp only [firstFire, World.trace, List.mem_cons, List.not_mem_nil, or_false] at hx
    rcases hx with rfl | rfl <;> cases ha

/-- The clock is recomputed at second 10, so that it stands at the instant just materialized.  The execution ends and
is deleted, and the scheduler comes again. -/
def secondFire : List (Action × Int) :=
  firstFire ++
    [(.recompute "sync" (fun _ => .ok everyTen), 10),
     (.claim ⟨1, "sync", "c:sync:10", "scheduler", "executor", "t1", 5⟩ (fun _ _ _ => .ok ()), 10),
     (.complete ⟨"sync", 1, "c:sync:10", "scheduler", "t1", 1⟩ { status := .success, attemptOutcome := .success }, 10),
     (.reapExecutions second second 100, 12),
     (.materializeCron "sync" (fun _ => .ok everyTen) (60 * second), 12)]

/-- **A recomputed clock makes an instant twice**, once retention has deleted its first execution. -/
theorem recompute_refires : ∃ tr w, Sys.Run (Step bareEnv) (World.init 0) tr w ∧
    (tr.map (·.2.1.2.now)).Pairwise (· ≤ ·) ∧ (∀ x ∈ tr, x.2.1.1.Lawful) ∧ ¬ (tr.flatMap fired).Nodup := by
  refine ⟨_, _, World.run_play bareEnv secondFire (World.init 0) (by decide +kernel), by decide +kernel, ?_,
    by decide +kernel⟩
  intro x hx
  simp only [secondFire, firstFire, World.trace, List.cons_append, List.nil_append, List.mem_cons, List.not_mem_nil,
    or_false] at hx
  rcases hx with rfl | rfl | rfl | rfl | rfl | rfl | rfl
  · trivial
  · exact ⟨everyTen_lawful, by decide⟩
  · exact everyTen_lawful
  · trivial
  · trivial
  · trivial
  · exact ⟨everyTen_lawful, by decide⟩

end GoJob
