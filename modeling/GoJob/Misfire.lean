import GoJob.Cron.Window
import GoJob.Keys
import GoJob.Statements
/-!
# Misfire — what one pass makes of a due instant (`materialize.go`)

A fire is on time from `now - grace` on, and missed before.  A pass looks from the instant its clock stands at: if
nothing is missed it materializes that one; under SKIP it drops what is missed and starts again behind now; under
FIRE_ONCE it materializes the last missed fire and goes on with the first that is on time, unless the last one is older
than a year, which leaves the clock to creep forwards fire by fire.
-/
namespace GoJob

open Rel Tx

variable {env : Env} {c : Ctx} {db : DB} {j : String} {F : Set Instant} {sched : Schedule}

/-! ## The decision -/

/-- **What a pass decides**, in terms of the fires alone: the instant it materializes and where it leaves the clock. -/
inductive MisfireDecision (F : Set Instant) (policy : MisfirePolicy) (due now grace : Instant) :
    Option Instant → Instant → Prop
  | onTime {next : Instant} (hnone : ¬ ∃ f ∈ F, due ≤ f ∧ f < now - grace) (hn : IsLeast {f ∈ F | due < f} next) :
      MisfireDecision F policy due now grace (some due) next
  | skip {next : Instant} (hp : policy = .skip) (hmissed : ∃ f ∈ F, due ≤ f ∧ f < now - grace)
      (hn : IsLeast {f ∈ F | now < f} next) : MisfireDecision F policy due now grace none next
  | catchUp {last next : Instant} (hp : policy = .fireOnce) (hmissed : ∃ f ∈ F, due ≤ f ∧ f < now - grace)
      (hl : IsGreatest {f ∈ F | f < now - grace} last) (hrecent : now - grace - 1 - misfireHorizon ≤ last)
      (hn : IsLeast {f ∈ F | now - grace ≤ f} next) : MisfireDecision F policy due now grace (some last) next
  | tooOld {last next : Instant} (hp : policy = .fireOnce) (hmissed : ∃ f ∈ F, due ≤ f ∧ f < now - grace)
      (hl : IsGreatest {f ∈ F | f < now - grace} last) (hold : last < now - grace - 1 - misfireHorizon)
      (hn : IsLeast {f ∈ F | due < f} next) : MisfireDecision F policy due now grace none next

/-- **A decision is one**: of the four cases one applies, and the fires determine the rest. -/
theorem MisfireDecision.unique {policy : MisfirePolicy} {due now grace next next' : Instant}
    {choice choice' : Option Instant} (h : MisfireDecision F policy due now grace choice next)
    (h' : MisfireDecision F policy due now grace choice' next') :
    choice = choice' ∧ next = next' := by
  cases h with
  | onTime hnone hn =>
    cases h' with
    | onTime _ hn' => exact ⟨rfl, hn.unique hn'⟩
    | skip _ hm => exact absurd hm hnone
    | catchUp _ hm => exact absurd hm hnone
    | tooOld _ hm => exact absurd hm hnone
  | skip hp hm hn =>
    cases h' with
    | onTime hnone => exact absurd hm hnone
    | skip _ _ hn' => exact ⟨rfl, hn.unique hn'⟩
    | catchUp hp' => cases hp.symm.trans hp'
    | tooOld hp' => cases hp.symm.trans hp'
  | catchUp hp hm hl hrecent hn =>
    cases h' with
    | onTime hnone => exact absurd hm hnone
    | skip hp' => cases hp.symm.trans hp'
    | catchUp _ _ hl' _ hn' => exact ⟨congrArg some (hl.unique hl'), hn.unique hn'⟩
    | tooOld _ _ hl' hold =>
      rw [hl.unique hl'] at hrecent
      exact absurd hold (not_lt.2 hrecent)
  | tooOld hp hm hl hold hn =>
    cases h' with
    | onTime hnone => exact absurd hm hnone
    | skip hp' => cases hp.symm.trans hp'
    | catchUp _ _ hl' hrecent =>
      rw [hl'.unique hl] at hrecent
      exact absurd hold (not_lt.2 hrecent)
    | tooOld _ _ _ _ hn' => exact ⟨rfl, hn.unique hn'⟩

/-- The schedule keeps its contracts and never fails: `Schedule.Fires`, for every argument. -/
structure Schedule.Exact (sched : Schedule) (F : Set Instant) : Prop extends sched.Fires F where
  next_total   : ∀ t, ∃ n, sched.next t = .ok n
  count_total  : ∀ s t limit, ∃ n x, sched.countBetween s t limit = .ok (n, x)
  latest_total : ∀ t h, ∃ r, sched.latest t h = .ok r
  latest_none  : ∀ {t h}, 0 ≤ h → sched.latest t h = .ok none → F ∩ Set.Icc (t - h) t = ∅

theorem Schedule.Exact.next_at (h : sched.Exact F) (t : Instant) :
    ∃ n, sched.next t = .ok n ∧ IsLeast {f ∈ F | t < f} n := by
  obtain ⟨n, hn⟩ := h.next_total t
  exact ⟨n, hn, h.next hn⟩

/-- The window between the clock and the misfire threshold, as `CountBetween` is asked for it. -/
theorem mem_missed {f due now grace : Instant} :
    f ∈ F ∩ Set.Ioc (due - 1) (now - grace - 1) ↔ f ∈ F ∧ due ≤ f ∧ f < now - grace := by
  have key : ∀ f d t : Int, (d - 1 < f ∧ f ≤ t - 1) ↔ (d ≤ f ∧ f < t) := by omega
  exact and_congr_right fun _ => key f due (now - grace)

/-- The count says whether a fire was missed; that it is cut off does not matter. -/
theorem Schedule.Exact.missed_iff (h : sched.Exact F) {due now grace : Instant} {n : Nat} {x : Bool}
    (hn : sched.countBetween (due - 1) (now - grace - 1) missedCountLimit = .ok (n, x)) :
    n = 0 ↔ ¬ ∃ f ∈ F, due ≤ f ∧ f < now - grace := by
  have hfin : (F ∩ Set.Ioc (due - 1) (now - grace - 1)).Finite := (Set.finite_Ioc _ _).inter_of_right F
  rw [h.count hn]
  have hlimit : missedCountLimit = 1000 := rfl
  have hzero : min missedCountLimit (F ∩ Set.Ioc (due - 1) (now - grace - 1)).ncard = 0 ↔
      (F ∩ Set.Ioc (due - 1) (now - grace - 1)).ncard = 0 := by omega
  rw [hzero, Set.ncard_eq_zero hfin, Set.eq_empty_iff_forall_notMem]
  simp only [mem_missed]
  push Not
  rfl

/-- A missed fire has a last one. -/
theorem exists_last_missed {due t : Instant} (h : ∃ f ∈ F, due ≤ f ∧ f < t) :
    ∃ last, IsGreatest {f ∈ F | f < t} last := by
  obtain ⟨f, hf, -, hlt⟩ := h
  obtain ⟨last, hlast, hmax⟩ := Int.exists_greatest_of_bdd (P := fun f => f ∈ F ∧ f < t)
    ⟨t, fun g hg => le_of_lt hg.2⟩ ⟨f, hf, hlt⟩
  exact ⟨last, hlast, fun g hg => hmax g hg⟩

/-- `Latest` in front of the threshold finds the last missed fire, if it is recent. -/
theorem isGreatest_missed {t last : Instant} (h : IsGreatest (F ∩ Set.Icc (t - 1 - misfireHorizon) (t - 1)) last) :
    IsGreatest {f ∈ F | f < t} last := by
  obtain ⟨⟨hF, hlo, hhi⟩, hmax⟩ := h
  refine ⟨⟨hF, Int.lt_of_le_sub_one hhi⟩, fun f hf => ?_⟩
  by_cases hold : t - 1 - misfireHorizon ≤ f
  · exact hmax ⟨hf.1, hold, Int.le_sub_one_of_lt hf.2⟩
  · exact le_trans (le_of_lt (not_le.1 hold)) hlo

/-- Behind the last missed fire comes the first on time. -/
theorem isLeast_onTime {t last next : Instant} (hl : IsGreatest {f ∈ F | f < t} last)
    (hn : IsLeast {f ∈ F | last < f} next) : IsLeast {f ∈ F | t ≤ f} next := by
  refine ⟨⟨hn.1.1, not_lt.1 fun hlt => ?_⟩, fun f hf => hn.2 ⟨hf.1, lt_of_lt_of_le hl.1.2 hf.2⟩⟩
  exact absurd (hl.2 ⟨hn.1.1, hlt⟩) (not_le.2 hn.1.2)

/-- **The choice of a pass and the anchor of its clock follow the decision.** -/
theorem chooseFire_decides (h : sched.Exact F) (db : DB) (d : Definition) {due grace : Instant} {n : Nat} {x : Bool}
    (hn : sched.countBetween (due - 1) (c.now - grace - 1) missedCountLimit = .ok (n, x)) :
    ∃ fireAt create next, chooseFire d sched due (c.now - grace) n db = .ok ((fireAt, create), db) ∧
      sched.next (if create = false ∧ d.misfire = .skip then c.now else fireAt) = .ok next ∧
      MisfireDecision F d.misfire due c.now grace (if create = true then some fireAt else none) next := by
  unfold chooseFire
  by_cases hzero : n = 0
  · obtain ⟨next, hnext, hleast⟩ := h.next_at due
    rw [if_pos hzero]
    exact ⟨due, true, next, rfl, by simpa using hnext, .onTime ((h.missed_iff hn).1 hzero) hleast⟩
  rw [if_neg hzero]
  have hmissed : ∃ f ∈ F, due ≤ f ∧ f < c.now - grace := by
    by_contra hno
    exact hzero ((h.missed_iff hn).2 hno)
  cases hp : d.misfire with
  | skip =>
    obtain ⟨next, hnext, hleast⟩ := h.next_at c.now
    exact ⟨due, false, next, rfl, by simpa using hnext, .skip rfl hmissed hleast⟩
  | fireOnce =>
    obtain ⟨r, hr⟩ := h.latest_total (c.now - grace - 1) misfireHorizon
    cases r with
    | none =>
      obtain ⟨next, hnext, hleast⟩ := h.next_at due
      obtain ⟨last, hlast⟩ := exists_last_missed hmissed
      refine ⟨due, false, next, ?_, by simpa using hnext, .tooOld rfl hmissed hlast ?_ hleast⟩
      · dsimp only
        rw [hr]
        rfl
      · -- A recent one would be in the window of `Latest`.
        by_contra hrecent
        have hempty := h.latest_none (by decide) hr
        have hmem : last ∈ F ∩ Set.Icc (c.now - grace - 1 - misfireHorizon) (c.now - grace - 1) :=
          ⟨hlast.1.1, not_lt.1 hrecent, Int.le_sub_one_of_lt hlast.1.2⟩
        rw [hempty] at hmem
        exact hmem
    | some last =>
      have hgreat := h.latest hr
      obtain ⟨next, hnext, hleast⟩ := h.next_at last
      have hlast := isGreatest_missed hgreat
      refine ⟨last, true, next, ?_, by simpa using hnext,
        .catchUp rfl hmissed hlast hgreat.1.2.1 (isLeast_onTime hlast hleast)⟩
      dsimp only
      rw [hr]
      rfl

/-! ## The transaction -/

theorem liftErr_run {α : Type} {context : String} {x : Except Err α} {a : α} (h : x = .ok a) :
    liftErr context x db = .ok (a, db) := by
  rw [h]
  rfl

theorem manualPending_run (h : ∀ i e, db.exec? i = some e → e.jobName = j → e.manualFirst = true → e.status ≠ .ready) :
    manualPending j db = .ok (false, db) := by
  have hany : db.executions.table.rows.any
      (fun e => decide (e.jobName = j) && e.manualFirst && decide (e.status = .ready)) = false := by
    rw [List.any_eq_false]
    intro e he hyes
    simp only [Bool.and_eq_true, decide_eq_true_eq] at hyes
    exact h e.id e (Table.get?_of_mem he) hyes.1.1 hyes.1.2 hyes.2
  unfold manualPending
  rw [bind_of_ok (get_run db), hany]
  rfl

theorem insertExecution_run {r : NewExecution} {key : String} (hk : r.key = some key)
    (hf : db.executions.Fresh key (nullString r.requestId)) :
    insertExecution r db = .ok (true, db.addExec (r.row key (db.executions.lastId + 1)) rfl hf) := by
  unfold insertExecution
  rw [hk]
  dsimp only
  rw [bind_of_ok (get_run db), dif_pos hf]
  rfl

/-- What a pass leaves: the executions it found and the one it chose, and the clock. -/
structure Dealt (env : Env) (j : String) (choice : Option Instant) (next : Instant) (db db' : DB) : Prop where
  created : ∃ rows : List ExecRow, db'.executions.table.rows = db.executions.table.rows ++ rows ∧
    rows.map (fun e => (e.jobName, e.triggerType, e.scheduledAt, e.status, some e.executionKey)) =
      choice.toList.map (fun f => (j, TriggerType.cron, f, Status.ready, cronExecutionKey env j f))
  clock   : (db'.state? j).map StateRow.nextFireAt = some (some next)
  others  : ∀ k, k ≠ j → db'.state? k = db.state? k
  defs    : db'.definitions = db.definitions

/-- The clock after `advanceFireClock`, on top of whatever was inserted. -/
theorem Dealt.of_advance {choice : Option Instant} {next : Instant} {version : Nat} {db₁ : DB} {s : StateRow}
    {rows : List ExecRow} (hs : db₁.state? j = some s) (hw : next % second = 0) (hstates : db₁.states = db.states)
    (hdefs : db₁.definitions = db.definitions)
    (hrows : db₁.executions.table.rows = db.executions.table.rows ++ rows)
    (hnew : rows.map (fun e => (e.jobName, e.triggerType, e.scheduledAt, e.status, some e.executionKey)) =
      choice.toList.map (fun f => (j, TriggerType.cron, f, Status.ready, cronExecutionKey env j f))) :
    Dealt env j choice next db (db₁.setState j (advanceWrite next version)) := by
  refine ⟨⟨rows, hrows, hnew⟩, ?_, fun k hk => ?_, hdefs⟩
  · rw [DB.state?_setState, if_pos rfl, hs]
    show some (some (datetime next)) = _
    rw [datetime_whole hw]
  · rw [DB.state?_setState, if_neg hk]
    unfold DB.state?
    rw [hstates]

theorem materializeDue_run {d : Definition} {due grace fireAt next : Instant} {n : Nat} {x create : Bool} {s : StateRow}
    (hn : sched.countBetween (due - 1) (c.now - grace - 1) missedCountLimit = .ok (n, x))
    (hchoose : chooseFire d sched due (c.now - grace) n db = .ok ((fireAt, create), db))
    (hnext : sched.next (if create = false ∧ d.misfire = .skip then c.now else fireAt) = .ok next)
    (hs : db.state? d.jobName = some s) (hw : next % second = 0) (hfw : create = true → fireAt % second = 0)
    (hkey : create = true → ∃ key, cronExecutionKey env d.jobName fireAt = some key ∧
      ∀ i e, db.exec? i = some e → e.executionKey ≠ key) :
    ∃ r db', materializeDue env c d sched due grace db = .ok (r, db') ∧
      r.scheduledAt = (if create = true then some fireAt else none) ∧ r.nextFireAt = some next ∧
      Dealt env d.jobName (if create = true then some fireAt else none) next db db' := by
  unfold materializeDue
  dsimp only
  rw [bind_of_ok (liftErr_run hn)]
  dsimp only
  rw [bind_of_ok hchoose]
  dsimp only
  rw [bind_of_ok (liftErr_run hnext)]
  cases create with
  | false =>
    simp only [Bool.false_eq_true, if_false]
    refine ⟨_, _, bind_of_ok (mustState_run hs rfl), rfl, rfl, ?_⟩
    exact .of_advance hs hw rfl rfl (List.append_nil _).symm rfl
  | true =>
    obtain ⟨key, hk, hfree⟩ := hkey rfl
    have hf : db.executions.Fresh key none := by
      refine ⟨fun hm => ?_, fun _ h => (nomatch h)⟩
      obtain ⟨e, he, hek⟩ := List.mem_map.1 hm
      exact hfree e.id e (Table.get?_of_mem he) hek
    simp only [if_true]
    rw [bind_of_ok (insertExecution_run hk hf)]
    refine ⟨_, _, bind_of_ok (mustState_run (s := s) hs rfl), rfl, rfl, ?_⟩
    refine .of_advance (s := s) hs hw rfl rfl rfl ?_
    simp [NewExecution.row, datetime_whole (hfw rfl), hk]

/-- An enabled cron job whose clock is in date and due, with no manual run in front of it. -/
structure DueCron (c : Ctx) (db : DB) (j : String) (d : DefinitionRow) (s : StateRow) (due : Instant) : Prop where
  defn    : db.def? j = some d
  state   : db.state? j = some s
  free    : c.busy j = false
  name    : Identifier j 128
  enabled : d.enabled = true
  retired : d.retired = false
  kind    : d.scheduleKind = .cron
  version : s.configVersion = d.version
  stands  : s.nextFireAt = some due
  come    : due ≤ c.now
  manual  : ∀ i e, db.exec? i = some e → e.jobName = j → e.manualFirst = true → e.status ≠ .ready

/-- A pass over such a job comes to `materializeDue`. -/
theorem DueCron.materializeCron_eq {d : DefinitionRow} {s : StateRow} {due grace : Instant} {compile : Compile}
    (h : DueCron c db j d s due) (hc : compile d.toDefinition = .ok sched) :
    materializeCron env c j compile grace db = materializeDue env c d.toDefinition sched due grace db := by
  have hdate : ¬ (d.toDefinition.enabled = false ∨ d.toDefinition.retired = true ∨
      d.toDefinition.scheduleKind ≠ .cron ∨ s.configVersion ≠ d.toDefinition.version) := by
    simp [h.enabled, h.retired, h.kind, h.version]
  unfold materializeCron
  rw [bind_of_ok (lockState_run h.state h.free), bind_of_ok (readDefinition_run h.defn), if_neg hdate,
    bind_of_ok (liftErr_run hc), bind_of_ok (manualPending_run h.manual)]
  simp only [Bool.false_eq_true, if_false, h.stands]
  rw [if_neg (not_lt.2 h.come)]

/-- **The misfire decision of one pass.**  There is one decision, and unless the instant it chooses has an execution
already, the pass creates that execution and no other, and leaves the clock where the decision says. -/
theorem misfire_decision {d : DefinitionRow} {s : StateRow} {due grace : Instant} {compile : Compile} (hd : env.Hex)
    (h : DueCron c db j d s due) (hc : compile d.toDefinition = .ok sched) (hF : sched.Exact F) (hfire : due ∈ F) :
    (∃ choice next, MisfireDecision F d.misfire due c.now grace choice next) ∧
    ∀ choice next, MisfireDecision F d.misfire due c.now grace choice next →
      (∀ f, choice = some f → ∀ i e, db.exec? i = some e → cronExecutionKey env j f ≠ some e.executionKey) →
      ∃ r db', materializeCron env c j compile grace db = .ok (r, db') ∧ r.scheduledAt = choice ∧
        r.nextFireAt = some next ∧ Dealt env j choice next db db' := by
  obtain ⟨n, x, hn⟩ := hF.count_total (due - 1) (c.now - grace - 1) missedCountLimit
  obtain ⟨fireAt, create, next, hchoose, hnext, hdec⟩ :=
    chooseFire_decides hF db d.toDefinition hn
  refine ⟨⟨_, _, hdec⟩, fun choice next' hdec' hfree => ?_⟩
  obtain ⟨rfl, rfl⟩ := hdec'.unique hdec
  have hname : d.toDefinition.jobName = j := DB.def?_jobName h.defn
  rw [h.materializeCron_eq hc, ← hname]
  refine materializeDue_run hn hchoose hnext (hname ▸ h.state) (hF.whole _ (hF.next hnext).1.1) (fun hcr => ?_)
    fun hcr => ?_
  · subst hcr
    cases hdec with
    | onTime => exact hF.whole _ hfire
    | catchUp _ _ hl => exact hF.whole _ hl.1.1
  · obtain ⟨key, hkey⟩ := cronExecutionKey_some hd h.name fireAt
    refine ⟨key, hname ▸ hkey, fun i e he hek => hfree fireAt (if_pos hcr) i e he ?_⟩
    rw [hkey, hek]

/-! ## Schedules that keep their contracts -/

/-- **An expression is such a schedule**, in a zone whose clock does not jump over a match, or lands on one. -/
theorem Cron.schedule_exact {expr : String} {e : Cron.Expression} {z : Cal.Zone} (h : Cron.parse expr = .ok e)
    (hjump : ∀ after, Cron.JumpedOver z e after → Cron.Matches e (Cron.civilOf (z.wall (Cron.startOf after)))) :
    (Cron.schedule z e).Exact (Cron.Fires z e) := by
  have hfires := Cron.schedule_fires h hjump
  have htotal : ∀ s, ∃ n, Cron.next z e s = .ok n ∧ IsLeast {f ∈ Cron.Fires z e | s < f} n :=
    fun s => Cron.next_least h (hjump s)
  have hlatest := fun t horizon : Int =>
    Cron.latest_cases hfires.whole (htotal (t - horizon - 1)) (fun s _ _ => htotal s)
  refine ⟨hfires, fun t => ?_, fun s t limit => ⟨_, _, Cron.countLoop_exact htotal t limit 0 s⟩, fun t horizon => ?_,
    fun {t horizon} _ hnone => ?_⟩
  · obtain ⟨n, hn, -⟩ := htotal t
    exact ⟨n, hn⟩
  · rcases hlatest t horizon with ⟨hnone, -⟩ | ⟨last, hlast, -⟩
    · exact ⟨none, hnone⟩
    · exact ⟨some last, hlast⟩
  · rcases hlatest t horizon with ⟨-, hempty⟩ | ⟨last, hlast, -⟩
    · exact hempty
    · cases hnone.symm.trans hlast

/-! ## Every ten seconds -/

theorem everyTen_exact : everyTen.Exact {f | tenSeconds ∣ f} where
  toFires := everyTen_fires
  next_total _ := ⟨_, rfl⟩
  count_total _ _ _ := ⟨_, _, rfl⟩
  latest_total _ _ := ⟨_, rfl⟩
  latest_none {t h} hh hnone := by
    have hno : ¬ t - h ≤ t / tenSeconds * tenSeconds := by
      intro hle
      have hnone : (if t - h ≤ t / tenSeconds * tenSeconds then some (t / tenSeconds * tenSeconds) else none) = none :=
        Except.ok.inj hnone
      rw [if_pos hle] at hnone
      cases hnone
    rw [Set.eq_empty_iff_forall_notMem]
    rintro f ⟨hf, hlo, hhi⟩
    have key : ∀ t f : Int, (10000000000 : Int) ∣ f → f ≤ t → f ≤ t / 10000000000 * 10000000000 := by omega
    exact hno (le_trans hlo (key t f hf hhi))

/-- A job on that schedule, created at second 0 and due at second 10. -/
def dueJob : List (Action × Int) :=
  [(.createJob (sampleJob "sync" .cron "*/10 * * * * *") (10 * second) "operator" "new", 0)]

def dueWorld : World := (World.init 0).play zeroEnv dueJob

/-- At second 95, with twenty seconds of grace, the fire at second 70 is the last missed one. -/
theorem misfire_decision_catch_up : ∃ r db', materializeCron zeroEnv (Ctx.at_ 95) "sync" (fun _ => .ok everyTen)
      (20 * second) dueWorld.db = .ok (r, db') ∧ r.scheduledAt = some (70 * second) ∧
      r.nextFireAt = some (80 * second) ∧ Dealt zeroEnv "sync" (some (70 * second)) (80 * second) dueWorld.db db' := by
  have hdue : DueCron (Ctx.at_ 95) dueWorld.db "sync" (Option.get (dueWorld.db.def? "sync") (by decide +kernel))
      (Option.get (dueWorld.db.state? "sync") (by decide +kernel)) (10 * second) :=
    ⟨(Option.some_get _).symm, (Option.some_get _).symm, rfl, sync_identifier, by decide +kernel, by decide +kernel,
      by decide +kernel, by decide +kernel, by decide +kernel, by decide, fun i e he => by cases he⟩
  refine (misfire_decision zeroEnv_hex hdue rfl everyTen_exact (by decide)).2 _ _ (.catchUp ?_ ?_ ?_ ?_ ?_) ?_
  · decide +kernel
  · exact ⟨10 * second, by decide, by decide, by decide⟩
  · have key : ∀ f : Int, (10000000000 : Int) ∣ f → f < 95000000000 - 20000000000 → f ≤ 70000000000 := by omega
    exact ⟨by decide, fun f hf => key f hf.1 hf.2⟩
  · decide
  · have key : ∀ f : Int, (10000000000 : Int) ∣ f → 95000000000 - 20000000000 ≤ f → 80000000000 ≤ f := by omega
    exact ⟨by decide, fun f hf => key f hf.1 hf.2⟩
  · intro f hf i e he
    cases he

end GoJob
