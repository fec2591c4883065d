import GoJob.Result
/-!
# Catalogue — one tenant's catalogue written over another's (`SyncJobs`, `PlanJobSync`)

The plan sorts the seeds by what the target has under their names; the sync writes what the plan says under the locks.
A second look finds nothing left to do.
-/
namespace GoJob

open Rel Tx

variable {c : Ctx} {db db' : DB} {seeds : List JobSeed} {seed : JobSeed} {existing : String → Option Definition}
  {source actor reason : String}

/-! ## What the catalogue lists -/

/-- `Jobs`: the definitions with a state row beside them, in the order of their names. -/
def DB.jobs (db : DB) : List DefinitionRow :=
  (db.definitions.rows.filter fun d => (db.state? d.jobName).isSome).insertionSort (fun a b => a.jobName ≤ b.jobName)

/-- The map `PlanJobSync` fills from `Jobs`. -/
def DB.listed (db : DB) (name : String) : Option Definition :=
  (db.jobs.find? fun d => decide (d.jobName = name)).map DefinitionRow.toDefinition

def DB.planJobSync (db : DB) (seeds : List JobSeed) : JobSyncResult := GoJob.planJobSync seeds db.listed

theorem DB.Paired.jobs_eq (hp : db.Paired) :
    db.jobs = db.definitions.rows.insertionSort (fun a b => a.jobName ≤ b.jobName) := by
  have hall : ∀ d ∈ db.definitions.rows, (db.state? d.jobName).isSome = true := by
    intro d hd
    rw [hp d.jobName, show db.def? d.jobName = some d from Table.get?_of_mem hd]
    rfl
  rw [DB.jobs, List.filter_eq_self.2 hall]

theorem DB.Paired.mem_jobs (hp : db.Paired) {d : DefinitionRow} : d ∈ db.jobs ↔ db.def? d.jobName = some d := by
  rw [hp.jobs_eq, List.mem_insertionSort]
  exact ⟨Table.get?_of_mem, Table.mem_of_get?⟩

theorem DB.Paired.listed_eq (hp : db.Paired) (name : String) :
    db.listed name = (db.def? name).map DefinitionRow.toDefinition := by
  rw [DB.listed]
  congr 1
  cases hd : db.def? name with
  | none =>
    rw [List.find?_eq_none]
    intro d hmem hname
    rw [← of_decide_eq_true hname, hp.mem_jobs.1 hmem] at hd
    cases hd
  | some r =>
    have hr : r.jobName = name := Table.get?_key hd
    have hmem : r ∈ db.jobs := hp.mem_jobs.2 (by rw [hr, hd])
    cases hf : db.jobs.find? fun d => decide (d.jobName = name) with
    | none => exact absurd (decide_eq_true hr) (List.find?_eq_none.1 hf r hmem)
    | some d =>
      have hd' := hp.mem_jobs.1 (List.mem_of_find?_eq_some hf)
      have hname : d.jobName = name := by simpa using List.find?_some hf
      rw [hname, hd] at hd'
      exact hd'.symm

/-! ## What the plan says of a seed -/

/-- The target has no definition of the seed's name, a retired one, one like the seed's, or another. -/
theorem planSeed_cases (existing : String → Option Definition) (out : JobSyncResult) (seed : JobSeed) :
    (existing seed.definition.jobName = none ∧
      planSeed existing out seed = { out with created := out.created ++ [seed.definition.jobName] }) ∨
    ∃ t, existing seed.definition.jobName = some t ∧
      ((t.retired = true ∧
        planSeed existing out seed = { out with blockedRetired := out.blockedRetired ++ [seed.definition.jobName] }) ∨
      (t.retired = false ∧ definitionChanges t seed.definition = [] ∧
        planSeed existing out seed = { out with unchanged := out.unchanged ++ [seed.definition.jobName] }) ∨
      (t.retired = false ∧ definitionChanges t seed.definition ≠ [] ∧ planSeed existing out seed = { out with
        updated := out.updated ++ [(seed.definition.jobName, definitionChanges t seed.definition)] })) := by
  cases hx : existing seed.definition.jobName with
  | none => exact Or.inl ⟨rfl, by simp [planSeed, hx]⟩
  | some t =>
    refine Or.inr ⟨t, rfl, ?_⟩
    cases hr : t.retired with
    | true => exact Or.inl ⟨rfl, by simp [planSeed, hx, hr]⟩
    | false =>
      by_cases hc : definitionChanges t seed.definition = []
      · exact Or.inr (Or.inl ⟨rfl, hc, by simp [planSeed, hx, hr, hc]⟩)
      · exact Or.inr (Or.inr ⟨rfl, hc, by simp [planSeed, hx, hr, hc]⟩)

theorem planJobSync_snoc :
    planJobSync (seeds ++ [seed]) existing = planSeed existing (planJobSync seeds existing) seed := by
  simp [planJobSync]

section plan

variable {n : String}

theorem mem_created : n ∈ (planJobSync seeds existing).created ↔
    (∃ s ∈ seeds, s.definition.jobName = n) ∧ existing n = none := by
  induction seeds using List.reverseRecOn with
  | nil => simp [planJobSync]
  | append_singleton seeds seed ih =>
    rw [planJobSync_snoc]
    rcases planSeed_cases existing (planJobSync seeds existing) seed with
      ⟨hx, h⟩ | ⟨t, hx, ⟨_, h⟩ | ⟨_, _, h⟩ | ⟨_, _, h⟩⟩ <;> simp [h, ih] <;> grind

theorem mem_blocked : n ∈ (planJobSync seeds existing).blockedRetired ↔
    (∃ s ∈ seeds, s.definition.jobName = n) ∧ ∃ t, existing n = some t ∧ t.retired = true := by
  induction seeds using List.reverseRecOn with
  | nil => simp [planJobSync]
  | append_singleton seeds seed ih =>
    rw [planJobSync_snoc]
    rcases planSeed_cases existing (planJobSync seeds existing) seed with
      ⟨hx, h⟩ | ⟨t, hx, ⟨_, h⟩ | ⟨_, _, h⟩ | ⟨_, _, h⟩⟩ <;> simp [h, ih] <;> grind

theorem mem_unchanged : n ∈ (planJobSync seeds existing).unchanged ↔ ∃ s ∈ seeds, s.definition.jobName = n ∧
    ∃ t, existing n = some t ∧ t.retired = false ∧ definitionChanges t s.definition = [] := by
  induction seeds using List.reverseRecOn with
  | nil => simp [planJobSync]
  | append_singleton seeds seed ih =>
    rw [planJobSync_snoc]
    rcases planSeed_cases existing (planJobSync seeds existing) seed with
      ⟨hx, h⟩ | ⟨t, hx, ⟨_, h⟩ | ⟨_, _, h⟩ | ⟨_, _, h⟩⟩ <;> simp [h, ih] <;> grind

theorem mem_updated {fields : List FieldChange} : (n, fields) ∈ (planJobSync seeds existing).updated ↔
    ∃ s ∈ seeds, s.definition.jobName = n ∧ ∃ t, existing n = some t ∧ t.retired = false ∧
      definitionChanges t s.definition = fields ∧ fields ≠ [] := by
  induction seeds using List.reverseRecOn with
  | nil => simp [planJobSync]
  | append_singleton seeds seed ih =>
    rw [planJobSync_snoc]
    rcases planSeed_cases existing (planJobSync seeds existing) seed with
      ⟨hx, h⟩ | ⟨t, hx, ⟨_, h⟩ | ⟨_, _, h⟩ | ⟨_, _, h⟩⟩ <;> simp [h, ih] <;> grind

/-- Where the target has every seed already, the plan is all `unchanged`. -/
theorem planJobSync_unchanged (h : ∀ s ∈ seeds, ∃ t, existing s.definition.jobName = some t ∧ t.retired = false ∧
    definitionChanges t s.definition = []) :
    planJobSync seeds existing = { unchanged := seeds.map fun s => s.definition.jobName } := by
  induction seeds using List.reverseRecOn with
  | nil => rfl
  | append_singleton seeds seed ih =>
    obtain ⟨t, ht, hr, hc⟩ := h seed (by simp)
    rw [planJobSync_snoc, ih (fun s hs => h s (by simp [hs]))]
    simp [planSeed, ht, hr, hc]

theorem eq_of_name (hn : (seeds.map fun s => s.definition.jobName).Nodup) {s : JobSeed} (hs : s ∈ seeds)
    (hs' : seed ∈ seeds) (h : s.definition.jobName = seed.definition.jobName) : s = seed :=
  List.inj_on_of_nodup_map hn hs hs' h

/-- What the sync finds in the plan under the name of a seed the target has, not retired. -/
theorem find_updated (hn : (seeds.map fun s => s.definition.jobName).Nodup) (hs : seed ∈ seeds) {t : Definition}
    (ht : existing seed.definition.jobName = some t) (hr : t.retired = false) :
    (planJobSync seeds existing).updated.reverse.find? (fun u => decide (u.1 = seed.definition.jobName)) =
      if definitionChanges t seed.definition = [] then none
      else some (seed.definition.jobName, definitionChanges t seed.definition) := by
  -- a row of the plan under the seed's name is the seed's own
  have hrow : ∀ u ∈ (planJobSync seeds existing).updated, u.1 = seed.definition.jobName →
      u = (seed.definition.jobName, definitionChanges t seed.definition) ∧ u.2 ≠ [] := by
    rintro ⟨n, fields⟩ hu rfl
    obtain ⟨s, hs', hname, t', ht', _, hf, hne⟩ := mem_updated.1 hu
    obtain rfl := eq_of_name hn hs' hs hname
    rw [ht] at ht'
    cases ht'
    exact ⟨by rw [hf], hne⟩
  split
  · rename_i hc
    rw [List.find?_eq_none]
    intro u hu hname
    obtain ⟨rfl, hne⟩ := hrow u (List.mem_reverse.1 hu) (of_decide_eq_true hname)
    exact hne hc
  · rename_i hc
    have hmem := mem_updated.2 ⟨seed, hs, rfl, t, ht, hr, rfl, hc⟩
    cases hf : (planJobSync seeds existing).updated.reverse.find? fun u => decide (u.1 = seed.definition.jobName) with
    | none => exact absurd (decide_eq_true rfl) (List.find?_eq_none.1 hf _ (List.mem_reverse.2 hmem))
    | some u =>
      have hname : u.1 = seed.definition.jobName := by simpa using List.find?_some hf
      rw [(hrow u (List.mem_reverse.1 (List.mem_of_find?_eq_some hf)) hname).1]

end plan

/-! ## What a write leaves -/

theorem nullString_getD (s : String) : (nullString s).getD "" = s := by
  unfold nullString
  by_cases h : s = "" <;> simp [h]

theorem leaseSeconds_toDefinition (r : DefinitionRow) : r.toDefinition.leaseSeconds = r.leaseSeconds :=
  Int.mul_tdiv_cancel _ (by decide)

theorem timeoutSeconds_toDefinition (r : DefinitionRow) : r.toDefinition.timeoutSeconds = r.timeoutSeconds :=
  Int.mul_tdiv_cancel _ (by decide)

/-- The row `insertCopiedJob` writes differs from its definition in nothing the plan compares. -/
theorem definitionChanges_new (d : Definition) (h : d.Passes) :
    definitionChanges (newDefinition d actor h).toDefinition d = [] := by
  have hl : (newDefinition d actor h).toDefinition.leaseSeconds = d.leaseSeconds := leaseSeconds_toDefinition _
  have ht : (newDefinition d actor h).toDefinition.timeoutSeconds = d.timeoutSeconds := timeoutSeconds_toDefinition _
  simp only [definitionChanges, hl, ht]
  simp [DefinitionRow.toDefinition, newDefinition, nullString_getD]

/-- Nor does a row after the `UPDATE`. -/
theorem definitionChanges_edit (d : Definition) (h : d.Passes) (r : DefinitionRow) :
    definitionChanges ((editWrite d actor h).run r).toDefinition d = [] := by
  have hl : ((editWrite d actor h).run r).toDefinition.leaseSeconds = d.leaseSeconds := leaseSeconds_toDefinition _
  have ht : ((editWrite d actor h).run r).toDefinition.timeoutSeconds = d.timeoutSeconds :=
    timeoutSeconds_toDefinition _
  simp only [definitionChanges, hl, ht]
  simp [DefinitionRow.toDefinition, editWrite, nullString_getD]

/-- What a sync of `l` does: every seed is there afterwards, a definition that differed is one version on, one that
did not is the same, and nothing else moves. -/
structure Synced (l : List JobSeed) (db db' : DB) : Prop where
  there : ∀ s ∈ l, ∃ r, db'.def? s.definition.jobName = some r ∧ r.retired = false ∧
    definitionChanges r.toDefinition s.definition = []
  same : ∀ s ∈ l, ∀ r, db.def? s.definition.jobName = some r → definitionChanges r.toDefinition s.definition = [] →
    db'.def? s.definition.jobName = some r
  bumped : ∀ s ∈ l, ∀ r, db.def? s.definition.jobName = some r → definitionChanges r.toDefinition s.definition ≠ [] →
    ∃ r', db'.def? s.definition.jobName = some r' ∧ r'.version = r.version + 1
  others : ∀ k ∉ l.map fun s => s.definition.jobName, db'.def? k = db.def? k
  states : ∀ k s, db.state? k = some s → db'.state? k = some s

theorem Synced.nil : Synced [] db db := by
  constructor <;> simp

/-- One seed and then the rest, all under different names. -/
theorem Synced.cons {l : List JobSeed} {db₁ : DB} (h : Synced [seed] db db₁) (hl : Synced l db₁ db')
    (hn : seed.definition.jobName ∉ l.map fun s => s.definition.jobName) : Synced (seed :: l) db db' := by
  -- the rest does not touch the first, nor the first the rest
  have hfirst : db'.def? seed.definition.jobName = db₁.def? seed.definition.jobName := hl.others _ hn
  have hrest : ∀ s ∈ l, db₁.def? s.definition.jobName = db.def? s.definition.jobName := by
    intro s hs
    refine h.others _ fun hmem => hn ?_
    have hname : s.definition.jobName = seed.definition.jobName := by simpa using hmem
    exact List.mem_map.2 ⟨s, hs, hname⟩
  constructor
  · intro s hs
    rcases List.mem_cons.1 hs with rfl | hs
    · rw [hfirst]
      exact h.there _ (by simp)
    · exact hl.there s hs
  · intro s hs r hr hc
    rcases List.mem_cons.1 hs with rfl | hs
    · rw [hfirst]
      exact h.same _ (by simp) r hr hc
    · exact hl.same s hs r ((hrest s hs).trans hr) hc
  · intro s hs r hr hc
    rcases List.mem_cons.1 hs with rfl | hs
    · rw [hfirst]
      exact h.bumped _ (by simp) r hr hc
    · exact hl.bumped s hs r ((hrest s hs).trans hr) hc
  · intro k hk
    simp only [List.map_cons, List.mem_cons, not_or] at hk
    rw [hl.others k hk.2, h.others k (by simpa using hk.1)]
  · intro k s hs
    exact hl.states k s (h.states k s hs)

section sync

variable {u : Unit}

theorem Synced.created (hx : db.def? seed.definition.jobName = none)
    (h : insertCopiedJob c seed source actor reason db = .ok (u, db')) : Synced [seed] db db' := by
  obtain ⟨_, db₁, h₁, h⟩ := Tx.bind_ok.1 h
  obtain ⟨hp, hd, hs, rfl⟩ := insertJob_ok h₁
  obtain ⟨a, rfl⟩ := audit_ok h
  have hrow : (newDefinition seed.definition actor hp).jobName = seed.definition.jobName := rfl
  constructor
  · intro s hmem
    obtain rfl := List.mem_singleton.1 hmem
    exact ⟨newDefinition s.definition actor hp, by simp [hrow], rfl, definitionChanges_new _ hp⟩
  · intro s hmem r hr
    obtain rfl := List.mem_singleton.1 hmem
    rw [hx] at hr
    cases hr
  · intro s hmem r hr
    obtain rfl := List.mem_singleton.1 hmem
    rw [hx] at hr
    cases hr
  · intro k hk
    have hne : (newDefinition seed.definition actor hp).jobName ≠ k := fun h => hk (by simp [← h, hrow])
    simp [hne]
  · intro k s hk
    have hne : (newState c seed.definition seed.nextFire).jobName ≠ k := by
      rintro rfl
      exact hs (List.mem_map.2 ⟨s, Table.mem_of_get? hk, Table.get?_key hk⟩)
    simpa [hne] using hk

theorem Synced.kept {r : DefinitionRow} (hr : db.def? seed.definition.jobName = some r) (hlive : r.retired = false)
    (hc : definitionChanges r.toDefinition seed.definition = []) : Synced [seed] db db := by
  constructor
  · intro s hmem
    obtain rfl := List.mem_singleton.1 hmem
    exact ⟨r, hr, hlive, hc⟩
  · exact fun _ _ _ h _ => h
  · intro s hmem r' hr' hne
    obtain rfl := List.mem_singleton.1 hmem
    rw [hr] at hr'
    cases hr'
    exact absurd hc hne
  · exact fun _ _ => rfl
  · exact fun _ _ h => h

theorem Synced.edited {n : Nat} {context : String} {a : AuditRow} {r : DefinitionRow}
    (hr : db.def? seed.definition.jobName = some r) (hne : definitionChanges r.toDefinition seed.definition ≠ [])
    (hn : n ≠ 0) (h : editDefinition seed.definition actor (fun r => !r.retired) context db = .ok (n, db')) :
    Synced [seed] db (db'.addAudit a) := by
  obtain ⟨r', hp, hr', hg, rfl⟩ := editDefinition_ok hn h
  rw [hr] at hr'
  cases hr'
  have hrow : ((db.setDef seed.definition.jobName (editWrite seed.definition actor hp)).addAudit a).def?
      seed.definition.jobName = some ((editWrite seed.definition actor hp).run r) := by simp [hr]
  constructor
  · intro s hmem
    obtain rfl := List.mem_singleton.1 hmem
    exact ⟨_, hrow, by simpa [editWrite] using hg, definitionChanges_edit _ hp r⟩
  · intro s hmem r' hr' hc
    obtain rfl := List.mem_singleton.1 hmem
    rw [hr] at hr'
    cases hr'
    exact absurd hc hne
  · intro s hmem r' hr' _
    obtain rfl := List.mem_singleton.1 hmem
    rw [hr] at hr'
    cases hr'
    exact ⟨_, hrow, rfl⟩
  · intro k hk
    have hk' : k ≠ seed.definition.jobName := by simpa using hk
    simp [hk']
  · exact fun _ _ h => h

/-- **One seed under the plan of the database it finds.** -/
theorem syncSeed_synced (hn : (seeds.map fun s => s.definition.jobName).Nodup)
    (hb : (planJobSync seeds existing).blockedRetired = []) (hs : seed ∈ seeds)
    (hx : existing seed.definition.jobName = (db.def? seed.definition.jobName).map DefinitionRow.toDefinition)
    (h : syncSeed c (planJobSync seeds existing) source actor reason seed db = .ok (u, db')) :
    Synced [seed] db db' := by
  cases hr : db.def? seed.definition.jobName with
  | none =>
    rw [hr] at hx
    have hmem := mem_created.2 ⟨⟨seed, hs, rfl⟩, hx⟩
    simp only [syncSeed, if_pos hmem] at h
    exact .created hr h
  | some r =>
    rw [hr, Option.map_some] at hx
    have hmem : seed.definition.jobName ∉ (planJobSync seeds existing).created := by
      intro hmem
      rw [(mem_created.1 hmem).2] at hx
      cases hx
    have hlive : r.retired = false := by
      by_contra hret
      have hblocked := mem_blocked.2 ⟨⟨seed, hs, rfl⟩, _, hx, Bool.eq_true_of_not_eq_false hret⟩
      rw [hb] at hblocked
      cases hblocked
    simp only [syncSeed, if_neg hmem, find_updated hn hs hx hlive] at h
    by_cases hc : definitionChanges r.toDefinition seed.definition = []
    · simp only [if_pos hc] at h
      obtain rfl : db = db' := congrArg Prod.snd (Tx.pure_ok.1 h)
      exact .kept hr hlive hc
    · simp only [if_neg hc] at h
      obtain ⟨n, _, h₁, h⟩ := Tx.bind_ok.1 h
      obtain ⟨_, _, h₂, h⟩ := Tx.bind_ok.1 h
      obtain ⟨hn', rfl⟩ := assertOne_ok h₂
      obtain ⟨a, rfl⟩ := audit_ok h
      exact .edited hr hc hn' h₁

/-- The loop, over a part `l` of the seeds that has not been reached yet. -/
theorem syncSeeds_synced (hn : (seeds.map fun s => s.definition.jobName).Nodup)
    (hb : (planJobSync seeds existing).blockedRetired = []) :
    ∀ {l : List JobSeed} {db : DB}, l ⊆ seeds → (l.map fun s => s.definition.jobName).Nodup →
      (∀ s ∈ l, existing s.definition.jobName = (db.def? s.definition.jobName).map DefinitionRow.toDefinition) →
      syncSeeds c (planJobSync seeds existing) source actor reason l db = .ok (u, db') → Synced l db db'
  | [], _, _, _, _, h => by
    obtain rfl := congrArg Prod.snd (Tx.pure_ok.1 h)
    exact .nil
  | seed :: l, db, hsub, hnd, hx, h => by
    obtain ⟨_, db₁, h₁, h⟩ := Tx.bind_ok.1 h
    obtain ⟨hnot, hnd'⟩ := List.nodup_cons.1 hnd
    have hfirst := syncSeed_synced hn hb (hsub (by simp)) (hx seed (by simp)) h₁
    refine hfirst.cons (syncSeeds_synced hn hb (fun s hs => hsub (by simp [hs])) hnd' ?_ h) hnot
    intro s hs
    rw [hfirst.others _ fun hmem => hnot ?_]
    · exact hx s (by simp [hs])
    · have hname : s.definition.jobName = seed.definition.jobName := by simpa using hmem
      exact List.mem_map.2 ⟨s, hs, hname⟩

/-- A plan with nothing to create and nothing to update writes nothing. -/
theorem syncSeeds_idle {plan : JobSyncResult} (hc : plan.created = []) (hu : plan.updated = [])
    (l : List JobSeed) : syncSeeds c plan source actor reason l db = .ok ((), db) := by
  induction l with
  | nil => rfl
  | cons seed l ih =>
    have hseed : syncSeed c plan source actor reason seed db = .ok ((), db) := by
      simp [syncSeed, hc, hu]
    exact (bind_of_ok hseed).trans ih

end sync

/-! ## The sync -/

theorem syncJobs_ok {r : JobSyncResult} (h : syncJobs c seeds source actor reason db = .ok (r, db')) :
    r = planJobSync seeds (fun name => (db.def? name).map DefinitionRow.toDefinition) ∧ r.blockedRetired = [] ∧
      syncSeeds c r source actor reason seeds db = .ok ((), db') := by
  obtain ⟨_, h⟩ := check_ok h
  replace h := Tx.get_bind_ok.1 h
  obtain ⟨hb, h⟩ := check_ok h
  obtain ⟨_, db₁, h₂, h⟩ := Tx.bind_ok.1 h
  obtain ⟨rfl, rfl⟩ := Prod.mk.inj (Tx.pure_ok.1 h)
  exact ⟨rfl, not_not.1 hb, h₂⟩

theorem syncJobs_blocked {d : DefinitionRow} (hs : seed ∈ seeds) (hd : db.def? seed.definition.jobName = some d)
    (hr : d.retired = true) : (syncJobs c seeds source actor reason).commit db = db := by
  rcases Tx.commit_cases (syncJobs c seeds source actor reason) db with ⟨_, _, hsame⟩ | ⟨r, hok⟩
  · exact hsame
  · obtain ⟨rfl, hb, _⟩ := syncJobs_ok hok
    have ht : (db.def? seed.definition.jobName).map DefinitionRow.toDefinition = some d.toDefinition := by
      rw [hd, Option.map_some]
    have hmem := (@mem_blocked seeds (fun name => (db.def? name).map DefinitionRow.toDefinition) _).2
      ⟨⟨seed, hs, rfl⟩, _, ht, hr⟩
    rw [hb] at hmem
    cases hmem

theorem syncJobs_idle (h : planJobSync seeds (fun name => (db.def? name).map DefinitionRow.toDefinition) =
      { unchanged := seeds.map fun s => s.definition.jobName }) :
    (syncJobs c seeds source actor reason).commit db = db := by
  rcases Tx.commit_cases (syncJobs c seeds source actor reason) db with ⟨_, _, hsame⟩ | ⟨r, hok⟩
  · exact hsame
  · obtain ⟨rfl, _, hseeds⟩ := syncJobs_ok hok
    rw [h, syncSeeds_idle rfl rfl] at hseeds
    exact (Prod.mk.inj (Except.ok.inj hseeds)).2.symm

/-- **A sync converges and touches nothing else.**  It returns the plan of the database it locked, after it the plan
has every seed unchanged and another sync writes nothing; definitions no seed names, definitions the plan left alone
and the state rows that were there stay as they are, and an updated definition is one version on.  One retired name
and nothing is written at all. -/
theorem sync_converges (hp : db.Paired) (hn : (seeds.map fun s => s.definition.jobName).Nodup)
    (source actor reason : String) :
    (∀ r db', syncJobs c seeds source actor reason db = .ok (r, db') →
      r = db.planJobSync seeds ∧
      db'.planJobSync seeds = { unchanged := seeds.map fun s => s.definition.jobName } ∧
      (∀ c₂ source₂ actor₂ reason₂, (syncJobs c₂ seeds source₂ actor₂ reason₂).commit db' = db') ∧
      (∀ k ∉ seeds.map fun s => s.definition.jobName, db'.def? k = db.def? k) ∧
      (∀ k ∈ r.unchanged, db'.def? k = db.def? k) ∧
      (∀ k s, db.state? k = some s → db'.state? k = some s) ∧
      ∀ u ∈ r.updated, ∃ d d', db.def? u.1 = some d ∧ db'.def? u.1 = some d' ∧ d'.version = d.version + 1) ∧
    (∀ s ∈ seeds, ∀ d, db.def? s.definition.jobName = some d → d.retired = true →
      (syncJobs c seeds source actor reason).commit db = db) := by
  refine ⟨fun r db' h => ?_, fun s hs d hd hr => syncJobs_blocked hs hd hr⟩
  obtain ⟨hplan, hb, hseeds⟩ := syncJobs_ok h
  have hp' : db'.Paired := hp.steps (syncSeeds_steps hseeds)
  have hlisted : ∀ {db : DB}, db.Paired →
      db.listed = fun name => (db.def? name).map DefinitionRow.toDefinition := fun hp => funext hp.listed_eq
  have hsync : Synced seeds db db' := by
    rw [hplan] at hb hseeds
    exact syncSeeds_synced hn hb (fun _ => id) hn (fun _ _ => rfl) hseeds
  have hafter : planJobSync seeds (fun name => (db'.def? name).map DefinitionRow.toDefinition) =
      { unchanged := seeds.map fun s => s.definition.jobName } := by
    refine planJobSync_unchanged fun s hs => ?_
    obtain ⟨d, hd, hlive, hc⟩ := hsync.there s hs
    exact ⟨d.toDefinition, by rw [hd, Option.map_some], hlive, hc⟩
  refine ⟨?_, ?_, fun _ _ _ _ => syncJobs_idle hafter, hsync.others, ?_, hsync.states, ?_⟩
  · rw [hplan, DB.planJobSync, hlisted hp]
  · rw [DB.planJobSync, hlisted hp', hafter]
  · intro k hk
    rw [hplan] at hk
    obtain ⟨s, hs, rfl, t, ht, _, hc⟩ := mem_unchanged.1 hk
    obtain ⟨d, hd, rfl⟩ := Option.map_eq_some_iff.1 ht
    rw [hd, hsync.same s hs d hd hc]
  · rintro ⟨k, fields⟩ hu
    rw [hplan] at hu
    obtain ⟨s, hs, rfl, t, ht, _, hf, hne⟩ := mem_updated.1 hu
    obtain ⟨d, hd, rfl⟩ := Option.map_eq_some_iff.1 ht
    obtain ⟨d', hd', hv⟩ := hsync.bumped s hs d hd (by rwa [hf])
    exact ⟨d, d', hd, hd', hv⟩

/-- A catalogue with the job `sync`, a changed copy of it and a job the target does not have. -/
def copiedSeeds : List JobSeed :=
  [⟨{ sampleJob "sync" .fixedDelay "2000" with description := "sync" }, 0⟩,
    ⟨sampleJob "report" .cron "0 * * * *", 60 * second⟩]

theorem sync_converges_copied : ∃ w r db', Reachable bareEnv w ∧
    syncJobs (Ctx.at_ 5) copiedSeeds "source" "operator" "align" w.db = .ok (r, db') ∧ r.created = ["report"] ∧
      r.updated.map Prod.fst = ["sync"] ∧ db'.planJobSync copiedSeeds = { unchanged := ["sync", "report"] } := by
  have hrun := World.run_play bareEnv firstPass (World.init 0) (by decide)
  refine ⟨_, _, _, reachable_play bareEnv 0 firstPass (by decide), rfl, by decide +kernel, by decide +kernel, ?_⟩
  exact ((sync_converges (paired_run hrun) (by decide) "source" "operator" "align").1 _ _ rfl).2.1

end GoJob
