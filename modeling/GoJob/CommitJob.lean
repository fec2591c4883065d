import GoJob.CommitAttempt
/-!
# CommitJob — the transactions of a job, unpacked

Materialization, manual runs, operators' edits and retention: each one that commits is a `Commit`, and so is every
action (`Action.commit_of_ok`).
-/
namespace GoJob

open Rel

variable {env : Env} {c : Ctx} {db db' : DB}

/-! ## Reads and inserts -/

theorem DB.mem_iff {e : ExecRow} : e ∈ db.executions.table.rows ↔ db.exec? e.id = some e :=
  ⟨fun h => Table.get?_of_mem (t := db.executions.table) h, fun h => Table.mem_of_get? h⟩

theorem DB.ids_distinct (db : DB) : db.executions.table.rows.Pairwise (fun e x => e.id ≠ x.id) :=
  List.pairwise_map.1 db.executions.table.nodup

theorem DB.outstanding_iff {j : String} : db.Outstanding j ↔ db.executions.table.rows.any
    (fun e => decide (e.jobName = j) && decide (e.triggerType = .poll) && !e.status.terminal) = true := by
  simp only [List.any_eq_true, Bool.and_eq_true, decide_eq_true_eq, Bool.not_eq_true', DB.Outstanding]
  constructor
  · rintro ⟨i, e, he, hj, hp, ht⟩
    obtain rfl := DB.exec?_id he
    exact ⟨e, DB.mem_iff.2 he, ⟨hj, hp⟩, ht⟩
  · rintro ⟨e, he, ⟨hj, hp⟩, ht⟩
    exact ⟨e.id, e, DB.mem_iff.1 he, hj, hp, ht⟩

instance (db : DB) (j : String) : Decidable (db.Outstanding j) := decidable_of_iff _ DB.outstanding_iff.symm

theorem pollPassOutstanding_ok {j : String} {b : Bool} (h : pollPassOutstanding j db = .ok (b, db')) :
    (b = true ↔ db.Outstanding j) ∧ db = db' := by
  replace h := Tx.get_bind_ok.1 h
  simp only [Tx.pure_ok, Prod.mk.injEq] at h
  obtain ⟨rfl, rfl⟩ := h
  exact ⟨DB.outstanding_iff.symm, rfl⟩

theorem manualPending_ok {j : String} {b : Bool} (h : manualPending j db = .ok (b, db')) : db = db' := by
  replace h := Tx.get_bind_ok.1 h
  exact congrArg Prod.snd (Tx.pure_ok.1 h)

theorem executionByRequest_ok {r j : String} {x : Option String} (h : executionByRequest r j db = .ok (x, db')) :
    db = db' := by
  replace h := Tx.get_bind_ok.1 h
  cases hx : db.executions.table.rows.find? (fun e => decide (e.requestId = some r)) with
  | none =>
    simp only [hx] at h
    exact congrArg Prod.snd (Tx.pure_ok.1 h)
  | some e =>
    simp only [hx] at h
    exact congrArg Prod.snd (Tx.pure_ok.1 (check_ok h).2)

/-- **An insert either adds the row under an unused id and an unused key, or does nothing**, and then the row it would
have added is there under the key or under the request. -/
theorem insertExecution_ok {r : NewExecution} {b : Bool} (h : insertExecution r db = .ok (b, db')) :
    ∃ key, r.key = some key ∧
      ((b = false ∧ db = db' ∧ (nullString r.requestId = none → ∃ i e, db.exec? i = some e ∧ e.executionKey = key)) ∨
       (b = true ∧ ∃ i, db.executions.lastId < i ∧ (∀ k e, db.exec? k = some e → e.executionKey ≠ key) ∧
        OnExec db db' i (r.row key i))) := by
  unfold insertExecution at h
  cases hkey : r.key with
  | none => simp [hkey] at h
  | some key =>
    simp only [hkey] at h
    refine ⟨key, rfl, ?_⟩
    replace h := Tx.get_bind_ok.1 h
    by_cases hf : db.executions.Fresh key (nullString r.requestId)
    · simp only [hf, dif_pos] at h
      obtain ⟨_, _, h₂, h⟩ := Tx.bind_ok.1 h
      obtain ⟨_, rfl⟩ := Prod.mk.inj (Tx.set_ok.1 h₂)
      obtain ⟨rfl, rfl⟩ := Prod.mk.inj (Tx.pure_ok.1 h)
      refine Or.inr ⟨rfl, db.executions.lastId + 1, Nat.lt_succ_self _, ?_, fun _ => rfl, fun _ => rfl, fun k => ?_,
        Nat.le_succ _⟩
      · intro k e he hke
        exact hf.1 (List.mem_map.2 ⟨e, Table.mem_of_get? he, hke⟩)
      · exact (DB.exec?_addExec db _ _ _ k).trans (if_congr eq_comm rfl rfl)
    · simp only [hf, dif_neg, not_false_eq_true] at h
      obtain ⟨rfl, rfl⟩ := Prod.mk.inj (Tx.pure_ok.1 h)
      refine Or.inl ⟨rfl, rfl, fun hreq => ?_⟩
      have hmem : key ∈ db.executions.table.rows.map (fun e => e.executionKey) := by
        by_contra hnot
        refine hf ⟨hnot, fun x hx => ?_⟩
        rw [hreq] at hx
        cases hx
      obtain ⟨e, he, hke⟩ := List.mem_map.1 hmem
      exact ⟨e.id, e, DB.mem_iff.1 he, hke⟩

/-! ## Materialization -/

theorem decideClocks_ok {s : StateRow} {d : DefinitionRow} {compile : Compile} {fire poll : Option Instant}
    (h : decideClocks c s d.toDefinition compile db = .ok ((fire, poll), db')) :
    Clocks c db compile s d (fire.map datetime) poll ∧ db = db' := by
  unfold decideClocks at h
  simp only [DefinitionRow.toDefinition_enabled, DefinitionRow.toDefinition_retired,
    DefinitionRow.toDefinition_scheduleKind, DefinitionRow.toDefinition_jobName] at h
  rcases Tx.ite_ok.1 h with ⟨hoff, h⟩ | ⟨hon, h⟩
  · obtain ⟨⟨rfl, rfl⟩, rfl⟩ : (none = fire ∧ none = poll) ∧ db = db' := by simpa using h
    exact ⟨.parked hoff, rfl⟩
  · obtain ⟨he, hr⟩ : d.enabled = true ∧ d.retired = false := by simpa using hon
    rcases Tx.ite_ok.1 h with ⟨hk, h⟩ | ⟨hk, h⟩
    · obtain ⟨sched, _, h₁, h⟩ := Tx.bind_ok.1 h
      obtain ⟨hc, rfl⟩ := liftErr_ok h₁
      obtain ⟨next, _, h₂, h⟩ := Tx.bind_ok.1 h
      obtain ⟨hn, rfl⟩ := liftErr_ok h₂
      obtain ⟨⟨rfl, rfl⟩, rfl⟩ : (some next = fire ∧ none = poll) ∧ db = db' := by simpa using h
      exact ⟨.cron sched next he hr hk hc hn, rfl⟩
    · have hk : d.scheduleKind = .fixedDelay := by cases hd : d.scheduleKind <;> simp_all
      cases ht : s.nextPollAt with
      | some t =>
        simp only [ht] at h
        obtain ⟨⟨rfl, rfl⟩, rfl⟩ : (none = fire ∧ some t = poll) ∧ db = db' := by simpa using h
        exact ⟨.running t he hr hk ht, rfl⟩
      | none =>
        simp only [ht] at h
        obtain ⟨b, _, h₁, h⟩ := Tx.bind_ok.1 h
        obtain ⟨hb, rfl⟩ := pollPassOutstanding_ok h₁
        rcases Tx.ite_ok.1 h with ⟨ho, h⟩ | ⟨ho, h⟩
        · obtain ⟨⟨rfl, rfl⟩, rfl⟩ : (none = fire ∧ none = poll) ∧ db = db' := by simpa using h
          exact ⟨.out he hr hk ht (hb.1 ho), rfl⟩
        · obtain ⟨⟨rfl, rfl⟩, rfl⟩ : (none = fire ∧ some c.now = poll) ∧ db = db' := by simpa using h
          exact ⟨.start he hr hk ht (fun hx => ho (hb.2 hx)), rfl⟩

theorem normalizeClocks_ok {j : String} {s : StateRow} {d : DefinitionRow} {compile : Compile} {x : Option Instant}
    (hs : db.state? j = some s) (hd : db.def? j = some d)
    (h : normalizeClocks c s d.toDefinition compile db = .ok (x, db')) :
    ∃ fire poll, Clocks c db compile s d fire poll ∧
      OnState db db' j ((normalizeWrite fire poll d.version).run s) := by
  obtain ⟨⟨fire, poll⟩, _, h₁, h⟩ := Tx.bind_ok.1 h
  obtain ⟨hc, rfl⟩ := decideClocks_ok h₁
  obtain ⟨_, db₁, h₂, h⟩ := Tx.bind_ok.1 h
  obtain rfl : db₁ = db' := congrArg Prod.snd (Tx.pure_ok.1 h)
  obtain ⟨s', hs', _, rfl⟩ := mustState_ok h₂
  simp only [DefinitionRow.toDefinition_jobName, DB.def?_jobName hd] at hs' ⊢
  obtain rfl : s = s' := Option.some.inj (hs.symm.trans hs')
  exact ⟨_, _, hc, .of_set hs _⟩

theorem chooseFire_ok {d : DefinitionRow} {sched : Schedule} {due onTime fireAt : Instant} {n : Nat} {create : Bool}
    (h : chooseFire d.toDefinition sched due onTime n db = .ok ((fireAt, create), db')) :
    ((n = 0 ∧ fireAt = due ∧ create = true) ∨
      (n ≠ 0 ∧ d.misfire = .skip ∧ fireAt = due ∧ create = false) ∨
      (n ≠ 0 ∧ d.misfire = .fireOnce ∧
        ((sched.latest (onTime - 1) misfireHorizon = .ok none ∧ fireAt = due ∧ create = false) ∨
          (sched.latest (onTime - 1) misfireHorizon = .ok (some fireAt) ∧ create = true)))) ∧ db = db' := by
  rcases Tx.ite_ok.1 h with ⟨hn, h⟩ | ⟨hn, h⟩
  · obtain ⟨⟨rfl, rfl⟩, rfl⟩ : (due = fireAt ∧ true = create) ∧ db = db' := by simpa using h
    exact ⟨Or.inl ⟨hn, rfl, rfl⟩, rfl⟩
  · cases hm : d.misfire with
    | skip =>
      simp only [DefinitionRow.toDefinition, hm] at h
      obtain ⟨⟨rfl, rfl⟩, rfl⟩ : (due = fireAt ∧ false = create) ∧ db = db' := by simpa using h
      exact ⟨Or.inr (Or.inl ⟨hn, rfl, rfl, rfl⟩), rfl⟩
    | fireOnce =>
      simp only [DefinitionRow.toDefinition, hm] at h
      obtain ⟨latest, _, h₁, h⟩ := Tx.bind_ok.1 h
      obtain ⟨hl, rfl⟩ := liftErr_ok h₁
      refine ⟨Or.inr (Or.inr ⟨hn, rfl, ?_⟩), ?_⟩ <;> cases latest with
      | none =>
        obtain ⟨⟨rfl, rfl⟩, rfl⟩ : (due = fireAt ∧ false = create) ∧ db = db' := by simpa using h
        first | exact Or.inl ⟨hl, rfl, rfl⟩ | rfl
      | some t =>
        obtain ⟨⟨rfl, rfl⟩, rfl⟩ : (t = fireAt ∧ true = create) ∧ db = db' := by simpa using h
        first | exact Or.inr ⟨hl, rfl⟩ | rfl

theorem advanceFireClock_ok {db₁ : DB} {j : String} {s : StateRow} {next : Instant} {n : Nat} {u : Unit}
    (hs : db₁.state? j = some s) (h : advanceFireClock j next n db₁ = .ok (u, db')) :
    OnState db₁ db' j ((advanceWrite next n).run s) := by
  obtain ⟨s', hs', _, rfl⟩ := mustState_ok h
  obtain rfl : s = s' := Option.some.inj (hs.symm.trans hs')
  exact .of_set hs _

theorem materializeDue_commit {j : String} {s : StateRow} {d : DefinitionRow} {compile : Compile} {sched : Schedule}
    {due grace : Instant} {x : MaterializeResult} (hs : db.state? j = some s) (hd : db.def? j = some d)
    (hin : InDateCron s d) (hc : compile d.toDefinition = .ok sched) (hf : s.nextFireAt = some due)
    (hdue : due ≤ c.now) (h : materializeDue env c d.toDefinition sched due grace db = .ok (x, db')) :
    Commit env c db (.materializeCron j compile grace) db' := by
  obtain rfl : d.jobName = j := DB.def?_jobName hd
  obtain ⟨⟨n, exact_⟩, _, h₁, h⟩ := Tx.bind_ok.1 h
  obtain ⟨hcount, rfl⟩ := liftErr_ok h₁
  obtain ⟨⟨fireAt, create⟩, _, h₂, h⟩ := Tx.bind_ok.1 h
  obtain ⟨hchoice, rfl⟩ := chooseFire_ok h₂
  obtain ⟨next, _, h₃, h⟩ := Tx.bind_ok.1 h
  obtain ⟨hnext, rfl⟩ := liftErr_ok h₃
  have hp : DuePass c compile grace d due fireAt create next :=
    ⟨hdue, sched, hc, ⟨n, exact_, hcount, hchoice⟩, hnext⟩
  simp only [DefinitionRow.toDefinition_jobName] at h
  rcases Tx.ite_ok.1 h with ⟨hcr, h⟩ | ⟨hcr, h⟩
  · subst hcr
    obtain ⟨created, _, h₄, h⟩ := Tx.bind_ok.1 h
    obtain ⟨_, db₁, h₅, h⟩ := Tx.bind_ok.1 h
    obtain rfl : db₁ = db' := congrArg Prod.snd (Tx.pure_ok.1 h)
    obtain ⟨key, hkey, ⟨_, rfl, htaken⟩ | ⟨_, i, hi, hfresh, hx⟩⟩ := insertExecution_ok h₄
    · obtain ⟨i, e, he, rfl⟩ := htaken rfl
      exact .clock hd hs (.advance due fireAt next true hin hf hp (fun _ => ⟨i, e, he, hkey⟩))
        (advanceFireClock_ok hs h₅)
    · have hs' := (hx.states _).trans hs
      exact .create hd hs rfl (.cron key i due fireAt next hin hf hp hkey) hi hfresh
        (((OnState.of_same hs).exec hx).state (advanceFireClock_ok hs' h₅))
  · obtain ⟨_, db₁, h₅, h⟩ := Tx.bind_ok.1 h
    obtain rfl : db₁ = db' := congrArg Prod.snd (Tx.pure_ok.1 h)
    exact .clock hd hs (.advance due fireAt next create hin hf hp (fun h => absurd h hcr)) (advanceFireClock_ok hs h₅)

theorem Commit.of_same {a : Action} : Commit env c db a db :=
  .idle (fun _ => rfl) (fun _ => rfl) (fun _ => rfl) (le_refl _)

theorem materializeCron_commit {j : String} {compile : Compile} {grace : Instant} {x : MaterializeResult}
    (h : materializeCron env c j compile grace db = .ok (x, db')) :
    Commit env c db (.materializeCron j compile grace) db' := by
  obtain ⟨s, d, hs, hd, h⟩ := locked_ok h
  obtain rfl : d.jobName = j := DB.def?_jobName hd
  have hdate : ¬ (d.enabled = false ∨ d.retired = true ∨ d.scheduleKind ≠ .cron ∨ s.configVersion ≠ d.version) ↔
      InDateCron s d := by
    simp only [not_or, Bool.not_eq_false, Bool.not_eq_true, not_not]
    exact ⟨fun ⟨h₁, h₂, h₃, h₄⟩ => ⟨h₁, h₂, h₃, h₄⟩, fun ⟨h₁, h₂, h₃, h₄⟩ => ⟨h₁, h₂, h₃, h₄⟩⟩
  rcases Tx.ite_ok.1 h with ⟨hout, h⟩ | ⟨hin, h⟩
  · obtain ⟨_, db₁, h₃, h⟩ := Tx.bind_ok.1 h
    obtain rfl : db₁ = db' := congrArg Prod.snd (Tx.pure_ok.1 h)
    obtain ⟨fire, poll, hcl, hfr⟩ := normalizeClocks_ok hs hd h₃
    exact .clock hd hs (.cronDrift fire poll (fun hin => hdate.2 hin hout) hcl) hfr
  · have hin : InDateCron s d := hdate.1 hin
    obtain ⟨sched, _, h₃, h⟩ := Tx.bind_ok.1 h
    obtain ⟨hc, rfl⟩ := liftErr_ok h₃
    obtain ⟨b, _, h₄, h⟩ := Tx.bind_ok.1 h
    obtain rfl := manualPending_ok h₄
    rcases Tx.ite_ok.1 h with ⟨_, h⟩ | ⟨_, h⟩
    · obtain rfl : db = db' := congrArg Prod.snd (Tx.pure_ok.1 h)
      exact .of_same
    · cases hf : s.nextFireAt with
      | none => simp [hf] at h
      | some due =>
        simp only [hf] at h
        rcases Tx.ite_ok.1 h with ⟨_, h⟩ | ⟨hdue, h⟩
        · obtain rfl : db = db' := congrArg Prod.snd (Tx.pure_ok.1 h)
          exact .of_same
        · exact materializeDue_commit hs hd hin hc hf (not_lt.1 hdue) h

theorem materializePoll_commit {j key : String} {compile : Compile} {x : MaterializeResult}
    (h : materializePoll c j key compile db = .ok (x, db')) :
    Commit env c db (.materializePoll j key compile) db' := by
  obtain ⟨s, d, hs, hd, h⟩ := locked_ok h
  obtain rfl : d.jobName = j := DB.def?_jobName hd
  rcases Tx.ite_ok.1 h with ⟨_, h⟩ | ⟨hdue, h⟩
  · obtain rfl : db = db' := congrArg Prod.snd (Tx.pure_ok.1 h)
    exact .of_same
  · obtain ⟨t, ht, hle⟩ : ∃ t, s.nextPollAt = some t ∧ t ≤ c.now := by
      cases ht : s.nextPollAt with
      | none => simp [ht] at hdue
      | some t => exact ⟨t, rfl, by simpa [ht] using hdue⟩
    rcases Tx.ite_ok.1 h with ⟨_, h⟩ | ⟨hin, h⟩
    · obtain ⟨_, db₁, h₃, h⟩ := Tx.bind_ok.1 h
      obtain rfl : db₁ = db' := congrArg Prod.snd (Tx.pure_ok.1 h)
      obtain ⟨fire, poll, hcl, hfr⟩ := normalizeClocks_ok hs hd h₃
      exact .clock hd hs (.pollDrift fire poll hcl) hfr
    · simp only [DefinitionRow.toDefinition_enabled, DefinitionRow.toDefinition_retired, not_or, Bool.not_eq_false,
        DefinitionRow.toDefinition_scheduleKind, DefinitionRow.toDefinition_version, Bool.not_eq_true, not_not] at hin
      obtain ⟨b, _, h₄, h⟩ := Tx.bind_ok.1 h
      obtain rfl := manualPending_ok h₄
      rcases Tx.ite_ok.1 h with ⟨_, h⟩ | ⟨_, h⟩
      · obtain rfl : db = db' := congrArg Prod.snd (Tx.pure_ok.1 h)
        exact .of_same
      · obtain ⟨created, db₂, h₅, h⟩ := Tx.bind_ok.1 h
        obtain ⟨hcr, h⟩ := check_ok h
        obtain ⟨_, db₁, h₆, h⟩ := Tx.bind_ok.1 h
        obtain rfl : db₁ = db' := congrArg Prod.snd (Tx.pure_ok.1 h)
        obtain ⟨k, hkey, ⟨rfl, -⟩ | ⟨_, i, hi, hfresh, hx⟩⟩ := insertExecution_ok h₅
        · exact absurd rfl hcr
        · obtain rfl : key = k := Option.some.inj hkey
          obtain ⟨s', hs', _, rfl⟩ := mustState_ok h₆
          obtain rfl : s = s' := Option.some.inj (hs.symm.trans ((hx.states _).symm.trans hs'))
          exact .create hd hs rfl (.poll i t hin.1 hin.2.1 hin.2.2.1 hin.2.2.2 ht hle) hi hfresh
            (((OnState.of_same hs).exec hx).state (.of_set hs' _))

theorem recompute_commit {j : String} {compile : Compile} {x : Option Instant}
    (h : recompute c j compile db = .ok (x, db')) : Commit env c db (.recompute j compile) db' := by
  obtain ⟨s, d, hs, hd, h⟩ := locked_ok h
  obtain ⟨fire, poll, hcl, hfr⟩ := normalizeClocks_ok hs hd h
  obtain rfl : d.jobName = j := DB.def?_jobName hd
  exact .clock hd hs (.recompute fire poll hcl) hfr

/-! ## Operators -/

theorem ofExcept_ok {α : Type} {x : Except Err α} {a : α} (h : ofExcept x db = .ok (a, db')) :
    x = .ok a ∧ db = db' := by
  cases x with
  | error e => simp [ofExcept] at h
  | ok b => simpa [ofExcept] using h

/-- A trigger that commits found its request served, or created the run with the override merged over the defaults. -/
theorem trigger_ok {j r x y params : String} {k : Option String} (h : trigger env c j r x y params db = .ok (k, db')) :
    db = db' ∨ ∃ s d key merged i, db.state? j = some s ∧ db.def? j = some d ∧ d.retired = false ∧
      env.mergeParams d.toDefinition.params params = .ok merged ∧ executionKey env "m" j r = some key ∧
      db.executions.lastId < i ∧ (∀ k e, db.exec? k = some e → e.executionKey ≠ key) ∧
      OnBoth db db' j s i (NewExecution.row
        ⟨some key, j, .manual, r, c.now, c.now, d.maxAttempts, d.maxRecoveries, merged⟩ key i) := by
  obtain ⟨_, h⟩ := check_ok h
  obtain ⟨_, h⟩ := check_ok h
  obtain ⟨s, d, hs, hd, h⟩ := locked_ok h
  obtain ⟨hret, h⟩ := check_ok h
  obtain ⟨merged, _, h₃, h⟩ := Tx.bind_ok.1 h
  obtain ⟨hmerged, rfl⟩ := ofExcept_ok h₃
  obtain ⟨created, db₁, h₄, h⟩ := Tx.bind_ok.1 h
  obtain ⟨key, hkey, ⟨rfl, rfl, -⟩ | ⟨rfl, i, hi, hfresh, hx⟩⟩ := insertExecution_ok h₄
  · simp only [if_true] at h
    obtain ⟨w, _, h₅, h⟩ := Tx.bind_ok.1 h
    obtain rfl := executionByRequest_ok h₅
    cases w with
    | none => simp at h
    | some w => exact .inl (congrArg Prod.snd (Tx.pure_ok.1 h))
  · simp only [Bool.true_eq_false, if_false] at h
    obtain ⟨_, db₂, h₅, h⟩ := Tx.bind_ok.1 h
    obtain rfl : db₂ = db' := congrArg Prod.snd (Tx.pure_ok.1 h)
    obtain ⟨a, rfl⟩ := audit_ok h₅
    exact .inr ⟨s, d, key, merged, i, hs, hd, by simpa using hret, hmerged, hkey, hi, hfresh,
      ((OnState.of_same hs).exec hx).audit a⟩

theorem trigger_commit {j r x y params : String} {k : Option String}
    (h : trigger env c j r x y params db = .ok (k, db')) : Commit env c db (.trigger j r x y params) db' := by
  rcases trigger_ok h with rfl | ⟨s, d, key, merged, i, hs, hd, hret, -, hkey, hi, hfresh, hon⟩
  · exact .of_same
  · exact .create hd hs rfl (.manual key merged i hret hkey) hi hfresh hon

theorem updateExecs_ok {p : ExecRow → Bool} {w : ExecWrite} {n : Nat} (h : updateExecs p w db = .ok (n, db')) :
    n = db.executions.table.changed p w.run ∧ db' = db.setExecs p w := by
  replace h := Tx.get_bind_ok.1 h
  obtain ⟨_, _, h₂, h⟩ := Tx.bind_ok.1 h
  obtain ⟨_, rfl⟩ := Prod.mk.inj (Tx.set_ok.1 h₂)
  obtain ⟨rfl, rfl⟩ := Prod.mk.inj (Tx.pure_ok.1 h)
  exact ⟨rfl, rfl⟩

/-- A retry an operator authorized revives the one row of its key. -/
theorem authorizedRetry_ok {j k x y : String} {u : Unit} (h : authorizedRetry c j k x y db = .ok (u, db')) :
    ∃ d i e, db.def? j = some d ∧ d.retired = false ∧ db.exec? i = some e ∧ e.executionKey = k ∧ e.jobName = j ∧
      e.status = .dead ∧ OnExec db db' i ((reviveWrite c).run e) := by
  obtain ⟨_, h⟩ := check_ok h
  obtain ⟨s, d, hs, hd, h⟩ := locked_ok h
  obtain ⟨hret, h⟩ := check_ok h
  obtain ⟨n, _, h₃, h⟩ := Tx.bind_ok.1 h
  obtain ⟨hn, rfl⟩ := updateExecs_ok h₃
  obtain ⟨hne, h⟩ := check_ok h
  obtain ⟨a, rfl⟩ := audit_ok h
  obtain ⟨e, he, hg⟩ := Table.exists_of_changed (hn ▸ hne)
  simp only [Bool.and_eq_true, decide_eq_true_eq] at hg
  have he := DB.mem_iff.1 he
  -- The key is unique, so the statement's predicate selects this row alone.
  have hx : OnExec db (db.setExecs (fun e => decide (e.executionKey = k) && decide (e.jobName = j) &&
      decide (e.status = .dead)) (reviveWrite c)) e.id ((reviveWrite c).run e) := by
    refine ⟨fun _ => rfl, fun _ => rfl, fun i => ?_, le_refl _⟩
    rw [DB.exec?_setExecs]
    by_cases hi : i = e.id
    · subst hi
      simp [he, hg]
    · rw [if_neg hi]
      cases he' : db.exec? i with
      | none => rfl
      | some e' =>
        have hk : e'.executionKey ≠ k := fun hk => hi (DB.exec?_key_inj he' he (hk.trans hg.1.1.symm))
        simp [hk]
  exact ⟨d, e.id, e, hd, by simpa using hret, he, hg.1.1, hg.1.2, hg.2, hx.audit a⟩

theorem authorizedRetry_commit {j k x y : String} {u : Unit} (h : authorizedRetry c j k x y db = .ok (u, db')) :
    Commit env c db (.authorizedRetry j k x y) db' := by
  obtain ⟨d, i, e, hd, hret, he, hk, hj, hst, hx⟩ := authorizedRetry_ok h
  exact .revive hd hret he (.revive hk hj hst) hx

theorem setPaused_commit {j : String} {b : Bool} {x y : String} {u : Unit}
    (h : setPaused c j b x y db = .ok (u, db')) : Commit env c db (.setPaused j b x y) db' := by
  obtain ⟨_, h⟩ := check_ok h
  obtain ⟨s, _, h₁, h⟩ := Tx.bind_ok.1 h
  obtain ⟨hs, rfl⟩ := lockState_ok h₁
  obtain ⟨_, _, h₂, h⟩ := Tx.bind_ok.1 h
  obtain ⟨s', hs', _, rfl⟩ := mustState_ok h₂
  obtain rfl : s = s' := Option.some.inj (hs.symm.trans hs')
  obtain ⟨a, rfl⟩ := audit_ok h
  exact .pause hs ((OnState.of_set hs _).audit a)

/-- The row after both statements of a retirement. -/
theorem retire_row {j x y : String} (e : ExecRow) :
    let p : ExecRow → Bool := fun e => decide (e.jobName = j) && decide (e.status = .ready)
    let q : ExecRow → Bool := fun e => decide (e.jobName = j) && e.status.cancellable
    let e₁ := if p e then (retireReadyWrite c).run e else e
    let e' := if q e₁ then cancelWrite.run e₁ else e₁
    (e' = e ∧ (e.jobName = j → e.status.terminal = true ∨ e.status = .cancelRequested)) ∨
      ExecMove c (.retire j x y) e e' := by
  intro p q e₁ e'
  by_cases hj : e.jobName = j
  · by_cases hr : e.status = .ready
    · have he₁ : e₁ = (retireReadyWrite c).run e := by simp [e₁, p, hj, hr]
      have hq : q e₁ = false := by simp [q, he₁, retireReadyWrite, Status.cancellable]
      have he' : e' = e₁ := by simp [e', hq]
      rw [he', he₁]
      exact Or.inr (.retireReady hj hr)
    · have he₁ : e₁ = e := by simp [e₁, p, hr]
      cases hc : e.status.cancellable with
      | true =>
        have he' : e' = cancelWrite.run e := by simp [e', q, he₁, hj, hc]
        rw [he']
        exact Or.inr (.retireHeld hj hc)
      | false =>
        have he' : e' = e := by simp [e', q, he₁, hc]
        refine Or.inl ⟨he', fun _ => ?_⟩
        cases hs : e.status <;> simp_all [Status.cancellable, Status.terminal]
  · have he₁ : e₁ = e := by simp [e₁, p, hj]
    have he' : e' = e := by simp [e', q, he₁, hj]
    exact Or.inl ⟨he', fun h => absurd h hj⟩

theorem retire_commit {j x y : String} {u : Unit} (h : retire c j x y db = .ok (u, db')) :
    Commit env c db (.retire j x y) db' := by
  obtain ⟨_, h⟩ := check_ok h
  obtain ⟨s, _, h₁, h⟩ := Tx.bind_ok.1 h
  obtain ⟨_, rfl⟩ := lockState_ok h₁
  obtain ⟨n, _, h₂, h⟩ := Tx.bind_ok.1 h
  obtain ⟨hn, h⟩ := check_ok h
  obtain ⟨_, _, h₃, h⟩ := Tx.bind_ok.1 h
  obtain ⟨_, _, h₄, h⟩ := Tx.bind_ok.1 h
  rcases updateDefinition_ok h₂ with ⟨d, hd, hg, _, rfl⟩ | ⟨_, rfl, _⟩
  · obtain ⟨_, rfl⟩ := updateExecs_ok h₃
    obtain ⟨_, rfl⟩ := updateExecs_ok h₄
    obtain ⟨a, rfl⟩ := audit_ok h
    refine .retire hd (by simpa using hg) (fun k => by simp [hd]) (fun _ => rfl) (fun i e he => ?_)
      (fun i hi => by simp [hi]) (le_refl _)
    refine ⟨_, ?_, retire_row e⟩
    simp only [DB.exec?_addAudit, DB.exec?_setExecs, DB.exec?_setDef, he, Option.map_some]
  · exact absurd rfl hn

/-! ## The catalogue -/

/-- An insert that succeeds finds the name free in both tables. -/
theorem insertJob_ok {d : Definition} {next : Instant} {x context : String} {dup : Err} {u : Unit}
    (h : insertJob c d next x context dup db = .ok (u, db')) :
    ∃ hp hd hs, db' = db.addJob (newDefinition d x hp) (newState c d next) hd hs := by
  replace h := Tx.get_bind_ok.1 h
  by_cases hp : d.Passes
  · simp only [hp, dif_pos] at h
    by_cases hd : d.jobName ∈ db.definitions.rows.map DefinitionRow.jobName
    · simp [hd] at h
    · by_cases hs : d.jobName ∈ db.states.rows.map StateRow.jobName
      · simp [hd, hs] at h
      · simp only [hd, hs, dif_neg, not_false_eq_true] at h
        obtain ⟨_, rfl⟩ := Prod.mk.inj (Tx.set_ok.1 h)
        exact ⟨hp, hd, hs, rfl⟩
  · simp [hp] at h

theorem insertJob_step {d : Definition} {next : Instant} {x context : String} {dup : Err} {u : Unit}
    (h : insertJob c d next x context dup db = .ok (u, db')) : CatalogStep c db db' := by
  obtain ⟨hp, hd, hs, rfl⟩ := insertJob_ok h
  refine .create d next x hp ?_ ?_ (fun k => DB.def?_addJob db _ _ hd hs k)
    (fun k => DB.state?_addJob db _ _ hd hs k) (fun _ => rfl) (le_refl _)
  · exact Table.get?_eq_none_iff_notMem.2 hd
  · exact Table.get?_eq_none_iff_notMem.2 hs

theorem audit_step {x action j k detail : String} {u : Unit} (h : audit c x action j k detail db = .ok (u, db')) :
    CatalogStep c db db' := by
  obtain ⟨a, rfl⟩ := audit_ok h
  exact .audit (fun _ => rfl) (fun _ => rfl) (fun _ => rfl) (le_refl _)

theorem updateDefinition_step {j : String} {g : DefinitionRow → Bool} {w : DefinitionWrite} {n : Nat}
    (hw : ∀ d, (w.run d).retired = d.retired) (hn : n ≠ 0)
    (h : updateDefinition j g w db = .ok (n, db')) : CatalogStep c db db' := by
  rcases updateDefinition_ok h with ⟨d, hd, _, _, rfl⟩ | ⟨_, rfl, _⟩
  · exact .edit j d w hd (hw d) (fun k => by simp [hd]) (fun _ => rfl) (fun _ => rfl) (le_refl _)
  · exact absurd rfl hn

theorem editDefinition_ok {d : Definition} {x context : String} {g : DefinitionRow → Bool} {n : Nat} (hn : n ≠ 0)
    (h : editDefinition d x g context db = .ok (n, db')) :
    ∃ r hp, db.def? d.jobName = some r ∧ g r = true ∧ db' = db.setDef d.jobName (editWrite d x hp) := by
  unfold editDefinition at h
  by_cases hp : d.Passes
  · simp only [hp, dif_pos] at h
    rcases updateDefinition_ok h with ⟨r, hr, hg, _, rfl⟩ | ⟨_, rfl, _⟩
    · exact ⟨r, hp, hr, hg, rfl⟩
    · exact absurd rfl hn
  · simp only [hp, dif_neg, not_false_eq_true] at h
    obtain ⟨_, _, h₁, h⟩ := Tx.bind_ok.1 h
    have := Prod.mk.inj (Tx.pure_ok.1 (check_ok h).2)
    exact absurd this.1.symm hn

theorem editDefinition_step {d : Definition} {x context : String} {g : DefinitionRow → Bool} {n : Nat} (hn : n ≠ 0)
    (h : editDefinition d x g context db = .ok (n, db')) : CatalogStep c db db' := by
  obtain ⟨r, hp, hr, _, rfl⟩ := editDefinition_ok hn h
  exact .edit d.jobName r (editWrite d x hp) hr rfl (fun k => by simp [hr]) (fun _ => rfl) (fun _ => rfl) (le_refl _)

open Relation in
theorem insertCopiedJob_steps {seed : JobSeed} {source x y : String} {u : Unit}
    (h : insertCopiedJob c seed source x y db = .ok (u, db')) : ReflTransGen (CatalogStep c) db db' := by
  obtain ⟨_, _, h₁, h⟩ := Tx.bind_ok.1 h
  exact (ReflTransGen.single (insertJob_step h₁)).tail (audit_step h)

theorem createJob_commit {d : Definition} {next : Instant} {x y : String} {u : Unit}
    (h : createJob c d next x y db = .ok (u, db')) : Commit env c db (.createJob d next x y) db' := by
  obtain ⟨_, h⟩ := check_ok h
  obtain ⟨_, _, h₁, h⟩ := Tx.bind_ok.1 h
  exact .catalog ((Relation.ReflTransGen.single (insertJob_step h₁)).tail (audit_step h))

theorem updateJob_commit {d : Definition} {v : Nat} {x y : String} {u : Unit}
    (h : updateJob c d v x y db = .ok (u, db')) : Commit env c db (.updateJob d v x y) db' := by
  obtain ⟨_, h⟩ := check_ok h
  obtain ⟨n, _, h₁, h⟩ := Tx.bind_ok.1 h
  obtain ⟨hn, h⟩ := check_ok h
  exact .catalog ((Relation.ReflTransGen.single (editDefinition_step hn h₁)).tail (audit_step h))

open Relation in
theorem copySeeds_steps {source x y : String} :
    ∀ {seeds : List JobSeed} {existing : List String} {out r : List String × List String} {db : DB},
      copySeeds c source x y seeds existing out db = .ok (r, db') → ReflTransGen (CatalogStep c) db db'
  | [], _, _, _, _, h => by
    obtain rfl := congrArg Prod.snd (Tx.pure_ok.1 h)
    exact .refl
  | seed :: seeds, existing, (created, skipped), _, _, h => by
    rcases Tx.ite_ok.1 h with ⟨_, h⟩ | ⟨_, h⟩
    · exact copySeeds_steps h
    · obtain ⟨_, _, h₁, h⟩ := Tx.bind_ok.1 h
      exact (insertCopiedJob_steps h₁).trans (copySeeds_steps h)

theorem copyJobs_commit {seeds : List JobSeed} {source x y : String} {r : List String × List String}
    (h : copyJobs c seeds source x y db = .ok (r, db')) : Commit env c db (.copyJobs seeds source x y) db' := by
  obtain ⟨_, h⟩ := check_ok h
  replace h := Tx.get_bind_ok.1 h
  exact .catalog (copySeeds_steps h)

theorem assertOne_ok {n : Nat} {stmt : String} {u : Unit} (h : assertOne n stmt db = .ok (u, db')) :
    n ≠ 0 ∧ db = db' := by
  obtain ⟨hn, h⟩ := check_ok h
  exact ⟨fun h0 => hn (by omega), congrArg Prod.snd (Tx.pure_ok.1 h)⟩

open Relation in
theorem syncSeed_steps {plan : JobSyncResult} {source x y : String} {seed : JobSeed} {u : Unit}
    (h : syncSeed c plan source x y seed db = .ok (u, db')) : ReflTransGen (CatalogStep c) db db' := by
  rcases Tx.ite_ok.1 h with ⟨_, h⟩ | ⟨_, h⟩
  · exact insertCopiedJob_steps h
  · cases hx : plan.updated.reverse.find? (fun u => decide (u.1 = seed.definition.jobName)) with
    | none =>
      simp only [hx] at h
      obtain rfl : db = db' := congrArg Prod.snd (Tx.pure_ok.1 h)
      exact .refl
    | some ch =>
      simp only [hx] at h
      obtain ⟨n, _, h₁, h⟩ := Tx.bind_ok.1 h
      obtain ⟨_, _, h₂, h⟩ := Tx.bind_ok.1 h
      obtain ⟨hn, rfl⟩ := assertOne_ok h₂
      exact (ReflTransGen.single (editDefinition_step hn h₁)).tail (audit_step h)

open Relation in
theorem syncSeeds_steps {plan : JobSyncResult} {source x y : String} {u : Unit} :
    ∀ {seeds : List JobSeed} {db : DB},
      syncSeeds c plan source x y seeds db = .ok (u, db') → ReflTransGen (CatalogStep c) db db'
  | [], _, h => by
    obtain rfl := congrArg Prod.snd (Tx.pure_ok.1 h)
    exact .refl
  | seed :: seeds, _, h => by
    obtain ⟨_, _, h₁, h⟩ := Tx.bind_ok.1 h
    exact (syncSeed_steps h₁).trans (syncSeeds_steps h)

theorem syncJobs_commit {seeds : List JobSeed} {source x y : String} {r : JobSyncResult}
    (h : syncJobs c seeds source x y db = .ok (r, db')) : Commit env c db (.syncJobs seeds source x y) db' := by
  obtain ⟨_, h⟩ := check_ok h
  replace h := Tx.get_bind_ok.1 h
  obtain ⟨_, h⟩ := check_ok h
  obtain ⟨_, db₁, h₂, h⟩ := Tx.bind_ok.1 h
  obtain rfl : db₁ = db' := congrArg Prod.snd (Tx.pure_ok.1 h)
  exact .catalog (syncSeeds_steps h₂)

open Relation in
theorem describeJobs_steps {ds : String → String} {x y : String} {r : DescriptionSync} :
    ∀ {jobs : List DefinitionRow} {out : DescriptionSync} {db : DB},
      describeJobs c ds x y jobs out db = .ok (r, db') → ReflTransGen (CatalogStep c) db db'
  | [], _, _, h => by
    obtain rfl := congrArg Prod.snd (Tx.pure_ok.1 h)
    exact .refl
  | job :: jobs, out, _, h => by
    rcases Tx.ite_ok.1 h with ⟨_, h⟩ | ⟨_, h⟩
    · exact describeJobs_steps h
    · rcases Tx.ite_ok.1 h with ⟨_, h⟩ | ⟨_, h⟩
      · exact describeJobs_steps h
      · rcases Tx.ite_ok.1 h with ⟨_, h⟩ | ⟨_, h⟩
        · exact describeJobs_steps h
        · obtain ⟨n, _, h₁, h⟩ := Tx.bind_ok.1 h
          obtain ⟨_, _, h₂, h⟩ := Tx.bind_ok.1 h
          obtain ⟨hn, rfl⟩ := assertOne_ok h₂
          obtain ⟨_, _, h₃, h⟩ := Tx.bind_ok.1 h
          exact ((ReflTransGen.single (updateDefinition_step (fun _ => rfl) hn h₁)).tail (audit_step h₃)).trans
            (describeJobs_steps h)

theorem syncJobDescriptions_commit {ds : List (String × String)} {x y : String} {r : DescriptionSync}
    (h : syncJobDescriptions c ds x y db = .ok (r, db')) : Commit env c db (.syncJobDescriptions ds x y) db' := by
  obtain ⟨_, h⟩ := check_ok h
  cases hx : ds.find? (fun d => decide (512 < d.2.utf8ByteSize)) with
  | some d => simp [hx] at h
  | none =>
    simp only [hx] at h
    replace h := Tx.get_bind_ok.1 h
    exact .catalog (describeJobs_steps h)

/-! ## Retention -/

theorem reapOne_ok {i : Nat} {key : String} {u : Unit} (h : reapOne i key db = .ok (u, db')) :
    (∀ k, db'.def? k = db.def? k) ∧ (∀ k, db'.state? k = db.state? k) ∧
      (∀ k, db'.exec? k = db.exec? k ∨ (db'.exec? k = none ∧ k = i)) ∧
      db.executions.lastId ≤ db'.executions.lastId := by
  replace h := Tx.get_bind_ok.1 h
  obtain ⟨_, _, h₂, h⟩ := Tx.bind_ok.1 h
  obtain ⟨_, rfl⟩ := Prod.mk.inj (Tx.set_ok.1 h₂)
  obtain ⟨_, h⟩ := check_ok h
  obtain rfl := congrArg Prod.snd (Tx.pure_ok.1 h)
  refine ⟨fun _ => rfl, fun _ => rfl, fun k => ?_, le_refl _⟩
  rw [DB.exec?_deleteExecs, DB.exec?_setAttempts]
  cases he : db.exec? k with
  | none => exact Or.inl rfl
  | some e =>
    by_cases hk : k = i
    · rw [Option.filter_some]
      split
      · exact Or.inl rfl
      · exact Or.inr ⟨rfl, hk⟩
    · have hi : e.id ≠ i := fun hi => hk ((DB.exec?_id he).symm.trans hi)
      exact Or.inl (by simp [Option.filter_some, hi])

theorem reapAll_ok {r : Nat} : ∀ {es : List ExecRow} {n : Nat} {db : DB}, reapAll es n db = .ok (r, db') →
    (∀ k, db'.def? k = db.def? k) ∧ (∀ k, db'.state? k = db.state? k) ∧
      (∀ k, db'.exec? k = db.exec? k ∨ (db'.exec? k = none ∧ ∃ x ∈ es, x.id = k)) ∧
      db.executions.lastId ≤ db'.executions.lastId
  | [], _, _, h => by
    obtain rfl := congrArg Prod.snd (Tx.pure_ok.1 h)
    exact ⟨fun _ => rfl, fun _ => rfl, fun _ => Or.inl rfl, le_refl _⟩
  | e :: es, _, _, h => by
    obtain ⟨_, db₁, h₁, h⟩ := Tx.bind_ok.1 h
    obtain ⟨hd₁, hs₁, hx₁, hl₁⟩ := reapOne_ok h₁
    obtain ⟨hd₂, hs₂, hx₂, hl₂⟩ := reapAll_ok h
    refine ⟨fun k => (hd₂ k).trans (hd₁ k), fun k => (hs₂ k).trans (hs₁ k), fun k => ?_, le_trans hl₁ hl₂⟩
    rcases hx₂ k with h₂ | ⟨h₂, x, hx, hk⟩
    · rcases hx₁ k with h₃ | ⟨h₃, hk⟩
      · exact Or.inl (h₂.trans h₃)
      · exact Or.inr ⟨h₂.trans h₃, e, List.mem_cons_self, hk.symm⟩
    · exact Or.inr ⟨h₂, x, List.mem_cons_of_mem _ hx, hk⟩

theorem reapExecutions_commit {s o : Instant} {l : Int} {r : Nat} (h : reapExecutions c s o l db = .ok (r, db')) :
    Commit env c db (.reapExecutions s o l) db' := by
  obtain ⟨hs, h⟩ := check_ok h
  obtain ⟨ho, h⟩ := check_ok h
  obtain ⟨_, h⟩ := check_ok h
  replace h := Tx.get_bind_ok.1 h
  obtain ⟨hdefs, hstates, hexecs, hlast⟩ := reapAll_ok h
  refine .reap hdefs hstates (fun i e he => ?_) (fun i hi => ?_) (not_le.1 hs) (not_le.1 ho) hlast
  · rcases hexecs i with hx | ⟨hx, e', he', hk⟩
    · exact Or.inl (hx.trans he)
    · have hm := (List.mem_insertionSort _).1 (List.mem_of_mem_take he')
      obtain ⟨hrow, hexp⟩ := List.mem_filter.1 hm
      have hrow := DB.mem_iff.1 hrow
      rw [hk, he] at hrow
      obtain rfl := Option.some.inj hrow
      exact Or.inr ⟨hx, (Bool.and_eq_true_iff.1 hexp).1⟩
  · rcases hexecs i with hx | ⟨hx, _⟩
    · exact hx.trans hi
    · exact hx

/-! ## Every action -/

theorem unit_ok {α : Type} {x : StoreM α} {u : Unit} (h : unit x db = .ok (u, db')) : ∃ a, x db = .ok (a, db') := by
  obtain ⟨a, db₁, h₁, h⟩ := Tx.bind_ok.1 h
  obtain rfl : db₁ = db' := congrArg Prod.snd (Tx.pure_ok.1 h)
  exact ⟨a, h₁⟩

theorem unit_run {α : Type} {x : StoreM α} {a : α} (h : x db = .ok (a, db')) : unit x db = .ok ((), db') :=
  (Tx.bind_of_ok h).trans rfl

/-- Dropping the answer of a transaction keeps its errors. -/
theorem unit_error {α : Type} {x : StoreM α} {err : Err} : unit x db = .error err ↔ x db = .error err := by
  unfold unit
  cases h : x db with
  | error e => rw [Tx.bind_of_error h]; simp
  | ok r =>
    rw [Tx.bind_of_ok h]
    constructor
    · intro h; cases h
    · intro h; cases h

theorem unit_failsOnly {α : Type} {P : Err → Prop} {x : StoreM α} (h : Tx.FailsOnly P x db) :
    Tx.FailsOnly P (unit x) db := fun err herr => h err (unit_error.1 herr)

/-- **Every call that succeeds is one of the commits.** -/
theorem Action.commit_of_ok {a : Action} {u : Unit} (h : a.tx env c db = .ok (u, db')) : Commit env c db a db' := by
  cases a with
  | claim p r => exact claim_commit (unit_ok h).choose_spec
  | accept => exact accept_commit h
  | retarget => exact retarget_commit h
  | refuse => exact .close (refuse_closes h)
  | renew => exact renew_commit h
  | extendDeadline => exact extendDeadline_commit h
  | complete => exact .close (complete_closes h)
  | retry => exact .close (retry_closes h)
  | requestCancel => exact requestCancel_commit h
  | adopt => exact adopt_commit (unit_ok h).choose_spec
  | resolve => exact .close (resolve_closes (unit_ok h).choose_spec)
  | fenceTimedOut => exact .close (fenceTimedOut_closes h)
  | expireSilent => exact .close (expireSilent_closes h)
  | releaseAsOwner => exact .close (releaseAsOwner_closes (unit_ok h).choose_spec)
  | retire => exact retire_commit h
  | trigger => exact trigger_commit (unit_ok h).choose_spec
  | authorizedRetry => exact authorizedRetry_commit h
  | materializeCron => exact materializeCron_commit (unit_ok h).choose_spec
  | materializePoll => exact materializePoll_commit (unit_ok h).choose_spec
  | recompute => exact recompute_commit (unit_ok h).choose_spec
  | reapExecutions => exact reapExecutions_commit (unit_ok h).choose_spec
  | createJob => exact createJob_commit h
  | updateJob => exact updateJob_commit h
  | copyJobs => exact copyJobs_commit (unit_ok h).choose_spec
  | syncJobs => exact syncJobs_commit (unit_ok h).choose_spec
  | syncJobDescriptions => exact syncJobDescriptions_commit (unit_ok h).choose_spec
  | setPaused => exact setPaused_commit h

/-- **A step commits, or changes nothing.** -/
theorem Step.commit {w w' : World} {l : Action × Ctx} (h : Step env w l w') : Commit env l.2 w.db l.1 w'.db := by
  rw [h.db]
  rcases Tx.commit_cases (l.1.tx env l.2) w.db with ⟨_, _, hsame⟩ | ⟨u, hok⟩
  · rw [hsame]; exact .of_same
  · exact Action.commit_of_ok hok

end GoJob
