import GoJob.Catalogue
import GoJob.Directory
/-!
# Descriptions — handlers' descriptions copied into the catalogue (`SyncJobDescriptions`, `PlanJobDescriptionSync`)

The write does what the preview says, in one pass over the locked definitions.  It measures a description in bytes,
though, where the registration that supplied it counted characters.
-/
namespace GoJob

open Rel Tx

/-! ## The preview -/

/-- The body of the loop of `descriptionSyncPlan`. -/
def planDescription (ds : String → String) (out : DescriptionSync) (job : DefinitionRow) : DescriptionSync :=
  let next := ds job.handlerKey
  let before := job.description.getD ""
  if job.retired then out
  else if next = "" then { out with missing := out.missing ++ [job.jobName] }
  else if before = next then { out with unchanged := out.unchanged + 1 }
  else { out with changes := out.changes ++ [⟨job.jobName, job.handlerKey, before, next⟩] }

def descriptionSyncPlan (jobs : List DefinitionRow) (ds : String → String) : DescriptionSync :=
  jobs.foldl (planDescription ds) {}

def DB.planJobDescriptionSync (db : DB) (descriptions : List (String × String)) : DescriptionSync :=
  descriptionSyncPlan db.jobs (fun key => (descriptions.lookup key).getD "")

variable {c : Ctx} {db db' : DB} {ds : String → String} {job : DefinitionRow} {jobs : List DefinitionRow}
  {out : DescriptionSync} {actor reason : String}

/-- The job's description is not the one its handler declares. -/
def Outdated (ds : String → String) (job : DefinitionRow) : Prop :=
  job.retired = false ∧ ds job.handlerKey ≠ "" ∧ job.description.getD "" ≠ ds job.handlerKey

instance (ds : String → String) (job : DefinitionRow) : Decidable (Outdated ds job) :=
  inferInstanceAs (Decidable (_ ∧ _ ∧ _))

/-- The change the preview shows for it. -/
def changeOf (ds : String → String) (job : DefinitionRow) : DescriptionChange :=
  ⟨job.jobName, job.handlerKey, job.description.getD "", ds job.handlerKey⟩

theorem planDescription_outdated (h : Outdated ds job) :
    planDescription ds out job = { out with changes := out.changes ++ [changeOf ds job] } := by
  obtain ⟨hlive, hnext, hne⟩ := h
  simp [planDescription, hlive, hnext, hne, changeOf]

theorem planDescription_changes (h : ¬ Outdated ds job) : (planDescription ds out job).changes = out.changes := by
  unfold planDescription
  simp only
  split
  · rfl
  · split
    · rfl
    · split
      · rfl
      · rename_i hlive hnext hne
        exact absurd ⟨Bool.eq_false_iff.2 hlive, hnext, hne⟩ h

theorem foldl_changes : (jobs.foldl (planDescription ds) out).changes =
    out.changes ++ (jobs.filter fun job => decide (Outdated ds job)).map (changeOf ds) := by
  induction jobs generalizing out with
  | nil => simp
  | cons job jobs ih =>
    rw [List.foldl_cons, ih]
    by_cases hs : Outdated ds job
    · simp [hs, planDescription_outdated hs]
    · simp [hs, planDescription_changes hs]

/-- The preview lists the outdated jobs. -/
theorem changes_descriptionSyncPlan : (descriptionSyncPlan jobs ds).changes =
    (jobs.filter fun job => decide (Outdated ds job)).map (changeOf ds) := by
  rw [descriptionSyncPlan, foldl_changes, List.nil_append]

/-! ## The write -/

/-- The row after the write. -/
def described (ds : String → String) (actor : String) (d : DefinitionRow) : DefinitionRow :=
  if Outdated ds d then (describeWrite (ds d.handlerKey) actor).run d else d

/-- A description once written is not outdated. -/
theorem not_outdated_described (d : DefinitionRow) : ¬ Outdated ds (described ds actor d) := by
  unfold described
  split
  · rintro ⟨_, _, hne⟩
    exact hne rfl
  · assumption

/-- The definitions of `jobs` are written and the other tables, audits apart, are not. -/
structure Described (ds : String → String) (actor : String) (jobs : List DefinitionRow) (db db' : DB) : Prop where
  rows : ∀ k, db'.def? k =
    if k ∈ jobs.map DefinitionRow.jobName then (db.def? k).map (described ds actor) else db.def? k
  rest : db' = { db with definitions := db'.definitions, audits := db'.audits }

theorem Described.nil : Described ds actor [] db db := ⟨fun _ => rfl, rfl⟩

theorem Described.cons {db₁ : DB} (h : Described ds actor [job] db db₁) (hl : Described ds actor jobs db₁ db')
    (hn : job.jobName ∉ jobs.map DefinitionRow.jobName) : Described ds actor (job :: jobs) db db' := by
  refine ⟨fun k => ?_, ?_⟩
  · rw [hl.rows k, h.rows k]
    by_cases hk : k = job.jobName
    · simp [hk, hn]
    · simp [hk]
  · rw [hl.rest, h.rest]

theorem Described.kept (hd : db.def? job.jobName = some job) (h : ¬ Outdated ds job) :
    Described ds actor [job] db db := by
  refine ⟨fun k => ?_, rfl⟩
  by_cases hk : k = job.jobName
  · simp [hk, hd, described, h]
  · simp [hk]

theorem Described.written (a : AuditRow) (hd : db.def? job.jobName = some job) (h : Outdated ds job) :
    Described ds actor [job] db ((db.setDef job.jobName (describeWrite (ds job.handlerKey) actor)).addAudit a) := by
  refine ⟨fun k => ?_, rfl⟩
  by_cases hk : k = job.jobName
  · simp [hk, hd, described, h]
  · simp [hk]

/-- One turn of the loop: the preview's step, and the write that goes with it. -/
theorem describeJobs_cons (hd : db.def? job.jobName = some job) :
    ∃ db₁, describeJobs c ds actor reason (job :: jobs) out db =
        describeJobs c ds actor reason jobs (planDescription ds out job) db₁ ∧ Described ds actor [job] db db₁ := by
  by_cases hs : Outdated ds job
  · obtain ⟨n, db₁, h₁⟩ : ∃ n db₁, updateDefinition job.jobName (fun r => decide (r.version = job.version))
        (describeWrite (ds job.handlerKey) actor) db = .ok (n, db₁) := ⟨_, _, rfl⟩
    rcases updateDefinition_ok h₁ with ⟨_, _, _, rfl, rfl⟩ | ⟨hno, _⟩
    · obtain ⟨a, h₂⟩ : ∃ a, audit c actor "job_description_synced" job.jobName ""
          (reason ++ " (handler=" ++ job.handlerKey ++ ")")
          (db.setDef job.jobName (describeWrite (ds job.handlerKey) actor)) = .ok ((), DB.addAudit _ a) := ⟨_, rfl⟩
      refine ⟨_, ?_, .written a hd hs⟩
      rw [planDescription_outdated hs]
      obtain ⟨hlive, hnext, hne⟩ := hs
      simp only [describeJobs, hlive, hnext, hne, if_false, Bool.false_eq_true]
      refine (bind_of_ok h₁).trans ?_
      refine (bind_of_ok (show assertOne 1 _ _ = .ok ((), _) from rfl)).trans ?_
      exact bind_of_ok h₂
    · simpa using hno job hd
  · refine ⟨db, ?_, .kept hd hs⟩
    unfold planDescription
    simp only [describeJobs]
    split
    · rfl
    · split
      · rfl
      · split
        · rfl
        · rename_i hlive hnext hne
          exact absurd ⟨Bool.eq_false_iff.2 hlive, hnext, hne⟩ hs

/-- **The loop returns what the preview says and writes it**, over rows it finds as they were locked. -/
theorem describeJobs_run (hn : (jobs.map DefinitionRow.jobName).Nodup)
    (hd : ∀ job ∈ jobs, db.def? job.jobName = some job) :
    ∃ db', describeJobs c ds actor reason jobs out db = .ok (jobs.foldl (planDescription ds) out, db') ∧
      Described ds actor jobs db db' := by
  induction jobs generalizing out db with
  | nil => exact ⟨db, rfl, .nil⟩
  | cons job jobs ih =>
    obtain ⟨hnot, hn⟩ := List.nodup_cons.1 hn
    obtain ⟨db₁, hrun, hfirst⟩ := @describeJobs_cons c db ds job jobs out actor reason (hd job (by simp))
    -- the first write leaves the other rows as they were locked
    have hd₁ : ∀ other ∈ jobs, db₁.def? other.jobName = some other := by
      intro other hmem
      have hne : other.jobName ≠ job.jobName := fun h => hnot (List.mem_map.2 ⟨other, hmem, h⟩)
      rw [hfirst.rows, if_neg (by simpa using hne), hd other (by simp [hmem])]
    obtain ⟨db', hrest, hl⟩ := @ih db₁ (planDescription ds out job) hn hd₁
    exact ⟨db', hrun.trans hrest, hfirst.cons hl hnot⟩

/-! ## The sync -/

/-- What the sync is to do: succeed with the preview's answer, write the listed jobs' descriptions with their versions
and last editor, leave everything else alone but the audit trail, and leave nothing to change. -/
def SyncsAsPreviewed (c : Ctx) (descriptions : List (String × String)) (actor reason : String) (db : DB) : Prop :=
  ∃ db', syncJobDescriptions c descriptions actor reason db = .ok (db.planJobDescriptionSync descriptions, db') ∧
    (∀ ch ∈ (db.planJobDescriptionSync descriptions).changes, ∃ d, db.def? ch.jobName = some d ∧
      db'.def? ch.jobName = some ((describeWrite ch.after actor).run d)) ∧
    (∀ k ∉ (db.planJobDescriptionSync descriptions).changes.map DescriptionChange.jobName, db'.def? k = db.def? k) ∧
    db' = { db with definitions := db'.definitions, audits := db'.audits } ∧
    (db'.planJobDescriptionSync descriptions).changes = []

variable {descriptions : List (String × String)}

theorem syncJobDescriptions_short (hp : db.Paired) (ha : actor ≠ "") (hr : reason ≠ "")
    (h : ∀ d ∈ descriptions, d.2.utf8ByteSize ≤ 512) : syncJobDescriptions c descriptions actor reason db =
      describeJobs c (fun key => (descriptions.lookup key).getD "") actor reason db.jobs {} db := by
  have hfind : descriptions.find? (fun d => decide (512 < d.2.utf8ByteSize)) = none := by simpa using h
  simp only [syncJobDescriptions, ha, hr, or_self, if_false, hfind, hp.jobs_eq]
  exact bind_of_ok rfl

/-- Over the whole catalogue every definition is described. -/
theorem Described.rows_jobs (hp : db.Paired) (h : Described ds actor db.jobs db db') (k : String) :
    db'.def? k = (db.def? k).map (described ds actor) := by
  rw [h.rows k]
  split
  · rfl
  · rename_i hk
    cases hd : db.def? k with
    | none => rfl
    | some d =>
      have hname := DB.def?_jobName hd
      refine absurd (List.mem_map.2 ⟨d, hp.mem_jobs.2 ?_, hname⟩) hk
      rw [hname, hd]

/-- After that no description is outdated. -/
theorem Described.changes_eq_nil (hp : db.Paired) (h : Described ds actor db.jobs db db') :
    (descriptionSyncPlan db'.jobs ds).changes = [] := by
  have hp' : db'.Paired := by
    intro k
    rw [h.rows_jobs hp k, Option.isSome_map, ← hp k, h.rest]
    rfl
  rw [changes_descriptionSyncPlan, List.map_eq_nil_iff, List.filter_eq_nil_iff]
  intro job hmem hout
  have hjob := hp'.mem_jobs.1 hmem
  rw [h.rows_jobs hp] at hjob
  obtain ⟨d, _, rfl⟩ := Option.map_eq_some_iff.1 hjob
  exact not_outdated_described d (of_decide_eq_true hout)

theorem syncJobDescriptions_long {d : String × String} (hd : d ∈ descriptions) (h : 512 < d.2.utf8ByteSize)
    {r : DescriptionSync} : syncJobDescriptions c descriptions actor reason db ≠ .ok (r, db') := by
  intro hok
  obtain ⟨_, hok⟩ := check_ok hok
  cases hfind : descriptions.find? (fun d => decide (512 < d.2.utf8ByteSize)) with
  | some d' => simp [hfind] at hok
  | none => exact absurd (decide_eq_true h) (List.find?_eq_none.1 hfind d hd)

/-- 300 letters, 600 bytes. -/
def accents : String := String.ofList (List.replicate 300 'é')

theorem length_accents : accents.length = 300 := by
  unfold accents
  rw [String.length_ofList, List.length_replicate]

/-- An executor with one handler described by `accents`. -/
def accentedExecutor : Declaration where
  executorId := "executor-1"
  identity := "executor"
  group := "default"
  address := "10.0.0.1:9000"
  contractVersion := "1"
  revision := "r1"
  capacity := 1
  handlers := ["handler"]
  descriptions := [("handler", accents)]

theorem accentedExecutor_wellFormed : accentedExecutor.WellFormed where
  named := by decide
  handlers := by decide
  descriptions := by simp [accentedExecutor, length_accents]
  fits := by decide
  keys := by decide
  nodup := by decide

end GoJob
