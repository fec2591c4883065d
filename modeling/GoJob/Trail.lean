import GoJob.Catalogue
import GoJob.Snapshots
/-!
# Trail — what the audit log tells

Every operator's transaction leaves rows in the audit log, in the transaction that does what they say.  The log is only
added to, and the tables can be read off it: a definition's version is the number of its edits in the log and its last
editor is the actor of the last one, and a job is paused if the last row about pausing it says so.
-/
namespace GoJob

open Rel Tx

variable {env : Env} {c : Ctx} {a : Action} {db db₁ db' : DB} {w w' : World} {l : Action × Ctx}

/-! ## Calls that leave the log alone -/

instance : OffRows DB.audits := ⟨fun _ _ _ => rfl, fun _ _ _ => rfl, fun _ _ _ => rfl, fun _ _ _ _ => rfl⟩

instance (h : Holder) (o : Outcome) : Keeps DB.audits (recordAttempt c h o) := by
  refine ⟨fun {db r} h => ?_⟩
  obtain ⟨e, -, h⟩ := recordAttempt_ok h
  rw [h]
  unfold DB.addAttempt
  split <;> rfl

instance (h : Holder) (b : Bool) : Keeps DB.audits (releaseJobLock c h b) := by unfold releaseJobLock; infer_instance

instance (h : Holder) : Keeps DB.audits (chargeUnacceptedAttempt c h) := by
  unfold chargeUnacceptedAttempt; infer_instance

instance (h : Holder) (o : Outcome) : Keeps DB.audits (complete c h o) := by unfold complete; infer_instance

instance (h : Holder) (o : Outcome) (b : Int) : Keeps DB.audits (retry c h o b) := by unfold retry; infer_instance

instance (v : Stale) (b : Int) : Keeps DB.audits (resolve c v b) := by
  unfold resolve
  refine .seq inferInstance (fun s => .ite inferInstance (.seq inferInstance (fun cur => ?_)))
  infer_instance

instance (v : Stale) : Keeps DB.audits (fenceTimedOut c v) := by unfold fenceTimedOut; infer_instance

instance (v : Stale) : Keeps DB.audits (expireSilent c v) := by unfold expireSilent; infer_instance

instance (h : Holder) : Keeps DB.audits (releaseAsOwner c h) := by
  unfold releaseAsOwner
  refine .seq inferInstance (fun s => .ite inferInstance (.seq inferInstance (fun cur => ?_)))
  infer_instance

instance (i : Nat) (key : String) : Keeps DB.audits (reapOne i key) := by
  refine ⟨fun {db r} h => ?_⟩
  replace h := Tx.get_bind_ok.1 h
  obtain ⟨_, _, h₂, h⟩ := Tx.bind_ok.1 h
  obtain ⟨_, rfl⟩ := Prod.mk.inj (Tx.set_ok.1 h₂)
  obtain ⟨_, h⟩ := check_ok h
  rw [← Tx.pure_ok.1 h]
  rfl

instance reapAll_keeps_audits : ∀ (es : List ExecRow) (n : Nat), Keeps DB.audits (reapAll es n)
  | [], _ => by unfold reapAll; infer_instance
  | _ :: es, _ => by
    have := reapAll_keeps_audits es
    unfold reapAll; infer_instance

instance (s o : Instant) (n : Int) : Keeps DB.audits (reapExecutions c s o n) := by
  unfold reapExecutions; infer_instance

/-- The operator a call acts for. -/
def Action.actor? : Action → Option String
  | .requestCancel _ x _ | .retire _ x _ | .trigger _ _ x _ _ | .authorizedRetry _ _ x _ | .createJob _ _ x _
  | .updateJob _ _ x _ | .copyJobs _ _ x _ | .syncJobs _ _ x _ | .syncJobDescriptions _ x _ | .setPaused _ _ x _ =>
    some x
  | _ => none

theorem Action.keeps_audits (h : a.actor? = none) : Keeps DB.audits (a.tx env c) := by
  cases a <;> first | (simp only [Action.tx]; infer_instance) | cases h

/-! ## What a row of the log says -/

/-- The actions that come with an edit of the definition. -/
def editActions : List String := ["job_created", "job_updated", "job_synced", "job_description_synced", "job_retired"]

/-- The row tells of an edit of `j`. -/
def AuditRow.edits (j : String) (r : AuditRow) : Bool :=
  decide (r.jobName = nullString j) && decide (r.action ∈ editActions)

/-- The row tells that `j` was paused or resumed. -/
def AuditRow.pauses (j : String) (r : AuditRow) : Bool :=
  decide (r.jobName = nullString j) && (decide (r.action = "job_paused") || decide (r.action = "job_resumed"))

/-- The version of `j`; 0 before it is created. -/
def DB.version (db : DB) (j : String) : Nat := (db.def? j).elim 0 (·.version)

def DB.editor (db : DB) (j : String) : Option String := (db.def? j).bind (·.updatedBy)

def DB.paused (db : DB) (j : String) : Bool := (db.state? j).any (·.opsPaused)

/-- A definition's group is as it was, or written as `NULL` if there is none. -/
def GroupFrom (db : DB) (j : String) (d : DefinitionRow) : Prop :=
  (∃ group, d.executorGroup = nullString group) ∨ ∃ d₀, db.def? j = some d₀ ∧ d.executorGroup = d₀.executorGroup

/-- **One more row**, with what it tells of. -/
structure Entry (c : Ctx) (actor : String) (db db' : DB) (r : AuditRow) : Prop where
  audits  : db'.audits = db.audits ++ [r]
  by_     : r.actor = actor
  at_     : r.createdAt = c.now
  defs    : ∀ j, r.edits j = false → db'.def? j = db.def? j
  version : ∀ j, r.edits j = true → db'.version j = db.version j + 1 ∧ db'.editor j = some actor
  paused  : ∀ j, db'.paused j = if r.pauses j then decide (r.action = "job_paused") else db.paused j
  group   : ∀ j d, db'.def? j = some d → GroupFrom db j d

/-- Nothing the log tells of has changed. -/
structure Untold (db db' : DB) : Prop where
  audits : db'.audits = db.audits
  defs   : ∀ j, db'.def? j = db.def? j
  paused : ∀ j, db'.paused j = db.paused j

/-- Some more rows, each with what it tells of. -/
inductive Entries (c : Ctx) (actor : String) (db : DB) : List AuditRow → DB → Prop
  | nil : Entries c actor db [] db
  | snoc {rs r db₂ db₃} (h : Entries c actor db rs db₂) (hr : Entry c actor db₂ db₃ r) :
      Entries c actor db (rs ++ [r]) db₃

/-! ## Each call -/

def auditRow (c : Ctx) (actor action j k detail : String) : AuditRow :=
  ⟨actor, action, nullString j, nullString k, nullString detail, c.now⟩

theorem audit_row {actor action j k detail : String} {u : Unit}
    (h : audit c actor action j k detail db = .ok (u, db')) :
    db' = db.addAudit (auditRow c actor action j k detail) := by
  replace h := Tx.get_bind_ok.1 h
  exact (Prod.mk.inj (Tx.set_ok.1 h)).2.symm

theorem nullString_inj {s t : String} : nullString s = nullString t ↔ s = t := by
  unfold nullString
  constructor
  · intro h
    split at h <;> split at h <;> simp_all
  · rintro rfl; rfl

section entry

variable {x action j k detail : String}

theorem auditRow_edits (i : String) :
    (auditRow c x action j k detail).edits i = (decide (j = i) && decide (action ∈ editActions)) := by
  show (decide (nullString j = nullString i) && _) = _
  rw [decide_eq_decide.2 nullString_inj]
  rfl

theorem auditRow_pauses (i : String) : (auditRow c x action j k detail).pauses i =
    (decide (j = i) && (decide (action = "job_paused") || decide (action = "job_resumed"))) := by
  show (decide (nullString j = nullString i) && _) = _
  rw [decide_eq_decide.2 nullString_inj]
  rfl

/-- The row of an edit. -/
theorem Entry.edit {d : DefinitionRow} (ha : action ∈ editActions) (haudits : db₁.audits = db.audits)
    (hd : db₁.def? j = some d) (hv : d.version = db.version j + 1) (hu : d.updatedBy = some x)
    (hg : GroupFrom db j d) (hother : ∀ i, i ≠ j → db₁.def? i = db.def? i)
    (hp : ∀ i, db₁.paused i = db.paused i) :
    Entry c x db (db₁.addAudit (auditRow c x action j k detail)) (auditRow c x action j k detail) where
  audits := congrArg (· ++ _) haudits
  by_ := rfl
  at_ := rfl
  defs i hi := by
    rw [auditRow_edits] at hi
    exact hother i (fun h => by simp [h, ha] at hi)
  version i hi := by
    rw [auditRow_edits] at hi
    obtain rfl : j = i := by simpa using (Bool.and_eq_true_iff.1 hi).1
    simp [DB.version, DB.editor, hd, hv, hu]
  paused i := by
    have hne : action ≠ "job_paused" ∧ action ≠ "job_resumed" := by
      constructor <;> (rintro rfl; exact absurd ha (by decide))
    show db₁.paused i = if _ then _ else _
    rw [auditRow_pauses]
    simpa [hne] using hp i
  group i d' hd' := by
    by_cases hi : i = j
    · subst hi
      rwa [← Option.some.inj (hd.symm.trans hd')]
    · exact Or.inr ⟨d', (hother i hi).symm.trans hd', rfl⟩

/-- The row of an action that edits no definition. -/
theorem Entry.note (ha : action ∉ editActions) (haudits : db₁.audits = db.audits) (hd : ∀ i, db₁.def? i = db.def? i)
    (hp : ∀ i, db₁.paused i =
      if j = i ∧ (action = "job_paused" ∨ action = "job_resumed") then decide (action = "job_paused")
      else db.paused i) :
    Entry c x db (db₁.addAudit (auditRow c x action j k detail)) (auditRow c x action j k detail) where
  audits := congrArg (· ++ _) haudits
  by_ := rfl
  at_ := rfl
  defs i _ := hd i
  version i hi := by
    rw [auditRow_edits] at hi
    simp [ha] at hi
  paused i := by
    show db₁.paused i = if _ then decide (action = "job_paused") else _
    rw [auditRow_pauses]
    simpa using hp i
  group i d' hd' := Or.inr ⟨d', (hd i).symm.trans hd', rfl⟩

end entry

theorem Entries.append {x : String} {rs rs' : List AuditRow} (h : Entries c x db rs db₁)
    (h' : Entries c x db₁ rs' db') : Entries c x db (rs ++ rs') db' := by
  induction h' with
  | nil => rw [List.append_nil]; exact h
  | snoc _ hr ih => rw [← List.append_assoc]; exact .snoc ih hr

theorem Entry.one {x : String} {r : AuditRow} (h : Entry c x db db' r) : Entries c x db [r] db' := .snoc .nil h

/-- The rows of a new definition and its state row. -/
theorem insertJob_entry {d : Definition} {next : Instant} {x context k detail : String} {dup : Err} {u v : Unit}
    (h : insertJob c d next x context dup db = .ok (u, db₁))
    (h' : audit c x "job_created" d.jobName k detail db₁ = .ok (v, db')) : ∃ r, Entry c x db db' r := by
  obtain ⟨hp, hd, hs, rfl⟩ := insertJob_ok h
  obtain rfl := audit_row h'
  have hnone : db.def? d.jobName = none := Table.get?_eq_none_iff_notMem.2 hd
  have hfree : db.state? d.jobName = none := Table.get?_eq_none_iff_notMem.2 hs
  refine ⟨_, .edit (by decide) rfl (d := newDefinition d x hp) (by simp [newDefinition]) ?_ rfl (Or.inl ⟨_, rfl⟩)
    (fun i hi => ?_) (fun i => ?_)⟩
  · simp [DB.version, hnone, newDefinition]
  · simp [newDefinition, Ne.symm hi]
  · rw [DB.paused, DB.state?_addJob]
    split
    · rename_i hi
      obtain rfl : d.jobName = i := hi
      simp [DB.paused, hfree, newState]
    · rfl

theorem updateDefinition_entry {j x action k detail : String} {g : DefinitionRow → Bool} {wr : DefinitionWrite}
    {n : Nat} {v : Unit} (ha : action ∈ editActions) (hu : ∀ d, (wr.run d).updatedBy = some x)
    (hg : ∀ d, (wr.run d).executorGroup = d.executorGroup) (hn : n ≠ 0)
    (h : updateDefinition j g wr db = .ok (n, db₁)) (h' : audit c x action j k detail db₁ = .ok (v, db')) :
    ∃ r, Entry c x db db' r := by
  rcases updateDefinition_ok h with ⟨d, hd, -, -, rfl⟩ | ⟨-, rfl, -⟩
  · obtain rfl := audit_row h'
    refine ⟨_, .edit ha rfl (d := wr.run d) (by simp [hd]) ?_ (hu d) (Or.inr ⟨d, hd, hg d⟩)
      (fun i hi => by simp [hi]) (fun _ => rfl)⟩
    simp [DB.version, hd, wr.version]
  · exact absurd rfl hn

theorem editDefinition_entry {d : Definition} {x action k detail context : String} {g : DefinitionRow → Bool} {n : Nat}
    {v : Unit} (ha : action ∈ editActions) (hn : n ≠ 0) (h : editDefinition d x g context db = .ok (n, db₁))
    (h' : audit c x action d.jobName k detail db₁ = .ok (v, db')) : ∃ r, Entry c x db db' r := by
  obtain ⟨r, hp, hd, -, rfl⟩ := editDefinition_ok hn h
  obtain rfl := audit_row h'
  refine ⟨_, .edit ha rfl (d := (editWrite d x hp).run r) (by simp [hd]) ?_ rfl (Or.inl ⟨_, rfl⟩)
    (fun i hi => by simp [hi]) (fun _ => rfl)⟩
  simp [DB.version, hd, (editWrite d x hp).version]

theorem insertCopiedJob_entry {seed : JobSeed} {source x y : String} {u : Unit}
    (h : insertCopiedJob c seed source x y db = .ok (u, db')) : ∃ r, Entry c x db db' r := by
  obtain ⟨_, _, h₁, h⟩ := Tx.bind_ok.1 h
  exact insertJob_entry h₁ h

theorem copySeeds_entries {source x y : String} :
    ∀ {seeds : List JobSeed} {existing : List String} {out r : List String × List String} {db : DB},
      copySeeds c source x y seeds existing out db = .ok (r, db') → ∃ rs, Entries c x db rs db'
  | [], _, _, _, _, h => by
    obtain rfl := congrArg Prod.snd (Tx.pure_ok.1 h)
    exact ⟨[], .nil⟩
  | seed :: seeds, existing, (created, skipped), _, _, h => by
    rcases Tx.ite_ok.1 h with ⟨_, h⟩ | ⟨_, h⟩
    · exact copySeeds_entries h
    · obtain ⟨_, _, h₁, h⟩ := Tx.bind_ok.1 h
      obtain ⟨r, hr⟩ := insertCopiedJob_entry h₁
      obtain ⟨rs, hrs⟩ := copySeeds_entries h
      exact ⟨_, hr.one.append hrs⟩

theorem syncSeed_entries {plan : JobSyncResult} {source x y : String} {seed : JobSeed} {u : Unit}
    (h : syncSeed c plan source x y seed db = .ok (u, db')) : ∃ rs, Entries c x db rs db' := by
  rcases Tx.ite_ok.1 h with ⟨_, h⟩ | ⟨_, h⟩
  · obtain ⟨r, hr⟩ := insertCopiedJob_entry h
    exact ⟨_, hr.one⟩
  · cases hx : plan.updated.reverse.find? (fun u => decide (u.1 = seed.definition.jobName)) with
    | none =>
      simp only [hx] at h
      obtain rfl : db = db' := congrArg Prod.snd (Tx.pure_ok.1 h)
      exact ⟨[], .nil⟩
    | some ch =>
      simp only [hx] at h
      obtain ⟨n, _, h₁, h⟩ := Tx.bind_ok.1 h
      obtain ⟨_, _, h₂, h⟩ := Tx.bind_ok.1 h
      obtain ⟨hn, rfl⟩ := assertOne_ok h₂
      obtain ⟨r, hr⟩ := editDefinition_entry (by decide) hn h₁ h
      exact ⟨_, hr.one⟩

theorem syncSeeds_entries {plan : JobSyncResult} {source x y : String} {u : Unit} :
    ∀ {seeds : List JobSeed} {db : DB}, syncSeeds c plan source x y seeds db = .ok (u, db') →
      ∃ rs, Entries c x db rs db'
  | [], _, h => by
    obtain rfl := congrArg Prod.snd (Tx.pure_ok.1 h)
    exact ⟨[], .nil⟩
  | seed :: seeds, _, h => by
    obtain ⟨_, _, h₁, h⟩ := Tx.bind_ok.1 h
    obtain ⟨rs, hrs⟩ := syncSeed_entries h₁
    obtain ⟨rs', hrs'⟩ := syncSeeds_entries h
    exact ⟨_, hrs.append hrs'⟩

theorem describeJobs_entries {ds : String → String} {x y : String} {r : DescriptionSync} :
    ∀ {jobs : List DefinitionRow} {out : DescriptionSync} {db : DB},
      describeJobs c ds x y jobs out db = .ok (r, db') → ∃ rs, Entries c x db rs db'
  | [], _, _, h => by
    obtain rfl := congrArg Prod.snd (Tx.pure_ok.1 h)
    exact ⟨[], .nil⟩
  | job :: jobs, out, _, h => by
    rcases Tx.ite_ok.1 h with ⟨_, h⟩ | ⟨_, h⟩
    · exact describeJobs_entries h
    · rcases Tx.ite_ok.1 h with ⟨_, h⟩ | ⟨_, h⟩
      · exact describeJobs_entries h
      · rcases Tx.ite_ok.1 h with ⟨_, h⟩ | ⟨_, h⟩
        · exact describeJobs_entries h
        · obtain ⟨n, _, h₁, h⟩ := Tx.bind_ok.1 h
          obtain ⟨_, _, h₂, h⟩ := Tx.bind_ok.1 h
          obtain ⟨hn, rfl⟩ := assertOne_ok h₂
          obtain ⟨_, _, h₃, h⟩ := Tx.bind_ok.1 h
          obtain ⟨r, hr⟩ := updateDefinition_entry (by decide) (fun _ => rfl) (fun _ => rfl) hn h₁ h₃
          obtain ⟨rs, hrs⟩ := describeJobs_entries h
          exact ⟨_, hr.one.append hrs⟩

theorem retire_entry {j x y : String} {u : Unit} (h : retire c j x y db = .ok (u, db')) : ∃ r, Entry c x db db' r := by
  obtain ⟨_, h⟩ := check_ok h
  obtain ⟨s, _, h₁, h⟩ := Tx.bind_ok.1 h
  obtain ⟨_, rfl⟩ := lockState_ok h₁
  obtain ⟨n, _, h₂, h⟩ := Tx.bind_ok.1 h
  obtain ⟨hn, h⟩ := check_ok h
  obtain ⟨_, _, h₃, h⟩ := Tx.bind_ok.1 h
  obtain ⟨_, _, h₄, h⟩ := Tx.bind_ok.1 h
  rcases updateDefinition_ok h₂ with ⟨d, hd, _, _, rfl⟩ | ⟨_, rfl, _⟩
  · obtain ⟨_, rfl⟩ := updateExecs_ok h₃
    obtain ⟨_, rfl⟩ := updateExecs_ok h₄
    obtain rfl := audit_row h
    refine ⟨_, .edit (by decide) rfl (d := (retireWrite x).run d) (by simp [hd]) ?_ rfl (Or.inr ⟨d, hd, rfl⟩)
      (fun i hi => by simp [hi]) (fun _ => rfl)⟩
    simp [DB.version, hd, (retireWrite x).version]
  · exact absurd rfl hn

theorem setPaused_entry {j x y : String} {b : Bool} {u : Unit} (h : setPaused c j b x y db = .ok (u, db')) :
    ∃ r, Entry c x db db' r := by
  obtain ⟨_, h⟩ := check_ok h
  obtain ⟨s, _, h₁, h⟩ := Tx.bind_ok.1 h
  obtain ⟨hs, rfl⟩ := lockState_ok h₁
  obtain ⟨_, _, h₂, h⟩ := Tx.bind_ok.1 h
  obtain ⟨s', hs', _, rfl⟩ := mustState_ok h₂
  obtain rfl := audit_row h
  refine ⟨_, .note (by cases b <;> decide) rfl (fun _ => rfl) (fun i => ?_)⟩
  rw [DB.paused, DB.state?_setState]
  by_cases hi : i = j
  · subst hi
    cases b <;> simp [hs, pauseWrite]
  · simp [hi, Ne.symm hi, DB.paused]

theorem requestCancel_entry {i : Nat} {x y : String} {u : Unit} (h : requestCancel c i x y db = .ok (u, db')) :
    ∃ r, Entry c x db db' r := by
  obtain ⟨_, h⟩ := check_ok h
  replace h := Tx.get_bind_ok.1 h
  cases he₀ : db.exec? i with
  | none => simp [he₀] at h
  | some e₀ =>
    simp only [he₀] at h
    obtain ⟨_, _, h₂, h⟩ := Tx.bind_ok.1 h
    obtain ⟨_, _, _, rfl⟩ := casExec_ok h₂
    obtain rfl := audit_row h
    exact ⟨_, .note (by decide) rfl (fun _ => rfl) (fun i => (if_neg (by simp)).symm)⟩

theorem authorizedRetry_entry {j k x y : String} {u : Unit} (h : authorizedRetry c j k x y db = .ok (u, db')) :
    ∃ r, Entry c x db db' r := by
  obtain ⟨_, h⟩ := check_ok h
  obtain ⟨s, d, hs, hd, h⟩ := locked_ok h
  obtain ⟨hret, h⟩ := check_ok h
  obtain ⟨n, _, h₃, h⟩ := Tx.bind_ok.1 h
  obtain ⟨hn, rfl⟩ := updateExecs_ok h₃
  obtain ⟨hne, h⟩ := check_ok h
  obtain rfl := audit_row h
  exact ⟨_, .note (by decide) rfl (fun _ => rfl) (fun i => (if_neg (by simp)).symm)⟩

/-- A trigger that creates a run names it. -/
theorem trigger_entry {j r x y params : String} {k : Option String}
    (h : trigger env c j r x y params db = .ok (k, db')) :
    db = db' ∨ ∃ row, Entry c x db db' row ∧ row.action = "job_triggered" ∧ row.jobName = nullString j ∧
      row.execution = nullString ((executionKey env "m" j r).getD "") := by
  obtain ⟨_, h⟩ := check_ok h
  obtain ⟨_, h⟩ := check_ok h
  obtain ⟨s, d, hs, hd, h⟩ := locked_ok h
  obtain ⟨hret, h⟩ := check_ok h
  obtain ⟨merged, _, h₃, h⟩ := Tx.bind_ok.1 h
  obtain ⟨hmerged, rfl⟩ := ofExcept_ok h₃
  obtain ⟨created, db₁, h₄, h⟩ := Tx.bind_ok.1 h
  have haudits : db₁.audits = db.audits := Keeps.keeps h₄
  obtain ⟨key, hkey, ⟨rfl, rfl, -⟩ | ⟨rfl, i, hi, hfresh, hx⟩⟩ := insertExecution_ok h₄
  · simp only [if_true] at h
    obtain ⟨w, _, h₅, h⟩ := Tx.bind_ok.1 h
    obtain rfl := executionByRequest_ok h₅
    cases w with
    | none => simp at h
    | some w => exact .inl (congrArg Prod.snd (Tx.pure_ok.1 h))
  · simp only [Bool.true_eq_false, if_false] at h
    obtain ⟨_, db₂, h₅, h⟩ := Tx.bind_ok.1 h
    obtain rfl : db₂ = db' := congrArg Prod.snd (Tx.pure_ok.1 h)
    obtain rfl := audit_row h₅
    refine .inr ⟨_, .note (by decide) haudits hx.defs (fun i => ?_), rfl, rfl, rfl⟩
    rw [if_neg (by simp), DB.paused, DB.paused, hx.states]

/-! ## Every call -/

theorem catalog_paused (h : Relation.ReflTransGen (CatalogStep c) db db') (j : String) :
    db'.paused j = db.paused j := by
  induction h with
  | refl => rfl
  | tail _ hstep ih =>
    rw [← ih]
    cases hstep with
    | edit _ _ _ _ _ _ hs => rw [DB.paused, DB.paused, hs j]
    | audit _ hs => rw [DB.paused, DB.paused, hs j]
    | create d next x hp hd hs hdefs hstates =>
      rw [DB.paused, DB.paused, hstates j]
      split
      · rename_i hj
        simp [← hj, hs, newState]
      · rfl

/-- Only `SetPaused` pauses or resumes a job. -/
theorem Commit.paused (h : Commit env c db a db') (ha : ∀ j b x y, a ≠ .setPaused j b x y) (j : String) :
    db'.paused j = db.paused j := by
  have same : db'.state? j = db.state? j → db'.paused j = db.paused j := fun hs => by rw [DB.paused, DB.paused, hs]
  have set : ∀ {k : String} {s s' : StateRow}, db.state? k = some s →
      (∀ k', db'.state? k' = if k' = k then some s' else db.state? k') → s'.opsPaused = s.opsPaused →
      db'.paused j = db.paused j := fun {k} _ _ hs hf hp => by
    rw [DB.paused, DB.paused, hf j]
    split
    · rename_i hj
      rw [hj, hs, Option.any_some, Option.any_some, hp]
    · rfl
  cases h with
  | idle _ hs => exact same (hs j)
  | exec _ _ _ _ _ _ _ hf => exact same (hf.states j)
  | expire _ _ _ hf => exact same (hf.states j)
  | acquire _ _ hs _ _ _ _ _ _ _ hf => exact set hs hf.states rfl
  | renew hs _ _ _ hf => exact set hs hf.states rfl
  | adopt hs _ _ _ _ hf => exact set hs hf.states rfl
  | close hcl =>
    obtain ⟨_, _, -, -, hs, -, -, -, -, hp, hf, -⟩ := hcl
    exact set hs hf.states (by cases hp <;> rfl)
  | skip _ hs _ _ _ _ hp hf => exact set hs hf.states (by cases hp <;> rfl)
  | clock _ hs hm hf => exact set hs hf.states (by cases hm <;> rfl)
  | pause => exact absurd rfl (ha _ _ _ _)
  | create _ hs _ hm _ _ hf => exact set hs hf.states (by cases hm <;> rfl)
  | retire _ _ _ hs => exact same (hs j)
  | reap _ hs => exact same (hs j)
  | revive _ _ _ _ hf => exact same (hf.states j)
  | catalog hs =>
    exact catalog_paused hs j

/-- What a call did to the log: nothing it tells of has changed, or an operator's rows tell of the changes. -/
inductive Told (c : Ctx) (a : Action) (db db' : DB) : List AuditRow → Prop
  | none (h : Untold db db') : Told c a db db' []
  | rows {x : String} {rs : List AuditRow} (ha : a.actor? = some x) (hx : x ≠ "") (h : Entries c x db rs db') :
      Told c a db db' rs

theorem Untold.same (h : db = db') : Untold db db' := by
  subst h
  exact ⟨rfl, fun _ => rfl, fun _ => rfl⟩

/-- Nobody's call changes nothing the log tells of. -/
theorem Action.untold {u : Unit} (h : a.tx env c db = .ok (u, db')) (ha : a.actor? = none) : Untold db db' where
  audits := (Action.keeps_audits ha).keeps h
  defs j := by
    cases hr : a.reads with
    | some k => exact a.keeps_defs hr h j
    | none =>
      have plain : Keeps DB.definitions (a.tx env c) → db'.def? j = db.def? j := fun hk => by
        have hsame : db'.definitions = db.definitions := hk.keeps h
        rw [DB.def?, DB.def?, hsame]
      cases a with
      | accept => exact plain (by simp only [Action.tx]; infer_instance)
      | retarget => exact plain (by simp only [Action.tx]; infer_instance)
      | renew => exact plain (by simp only [Action.tx]; infer_instance)
      | extendDeadline => exact plain (by simp only [Action.tx]; infer_instance)
      | adopt => exact plain (by simp only [Action.tx]; infer_instance)
      | reapExecutions s o n =>
        obtain ⟨m, h⟩ := unit_ok h
        obtain ⟨-, h⟩ := check_ok h
        obtain ⟨-, h⟩ := check_ok h
        obtain ⟨-, h⟩ := check_ok h
        replace h := Tx.get_bind_ok.1 h
        exact (reapAll_ok h).1 j
      | _ => simp [Action.reads, Action.actor?] at hr ha
  paused := (Action.commit_of_ok h).paused (fun _ _ _ _ hs => by rw [hs] at ha; cases ha)

/-- **Every committed call tells the log what it changed.** -/
theorem Action.told {u : Unit} (h : a.tx env c db = .ok (u, db')) : ∃ rs, Told c a db db' rs := by
  have one : ∀ {x : String} {P : Prop}, a.actor? = some x → ¬ (x = "" ∨ P) → (∃ r, Entry c x db db' r) →
      ∃ rs, Told c a db db' rs := fun ha hn ⟨_, hr⟩ => ⟨_, .rows ha (fun hx => hn (Or.inl hx)) hr.one⟩
  have many : ∀ {x : String}, a.actor? = some x → x ≠ "" → (∃ rs, Entries c x db rs db') → ∃ rs, Told c a db db' rs :=
    fun ha hx ⟨_, hrs⟩ => ⟨_, .rows ha hx hrs⟩
  cases a with
  | requestCancel i x y =>
    obtain ⟨hn, -⟩ := check_ok h
    exact one rfl hn (requestCancel_entry h)
  | retire j x y =>
    obtain ⟨hn, -⟩ := check_ok h
    exact one rfl hn (retire_entry h)
  | setPaused j b x y =>
    obtain ⟨hn, -⟩ := check_ok h
    exact one rfl hn (setPaused_entry h)
  | authorizedRetry j k x y =>
    obtain ⟨hn, -⟩ := check_ok h
    exact one rfl hn (authorizedRetry_entry h)
  | trigger j r x y params =>
    obtain ⟨k, h⟩ := unit_ok h
    obtain ⟨hn, -⟩ := check_ok h
    rcases trigger_entry h with hsame | ⟨row, hrow, -⟩
    · exact ⟨[], .none (.same hsame)⟩
    · exact one rfl hn ⟨row, hrow⟩
  | createJob d next x y =>
    obtain ⟨hn, h⟩ := check_ok h
    obtain ⟨_, _, h₁, h⟩ := Tx.bind_ok.1 h
    exact one rfl hn (insertJob_entry h₁ h)
  | updateJob d v x y =>
    obtain ⟨hn, h⟩ := check_ok h
    obtain ⟨n, _, h₁, h⟩ := Tx.bind_ok.1 h
    obtain ⟨hne, h⟩ := check_ok h
    exact one rfl hn (editDefinition_entry (by decide) hne h₁ h)
  | copyJobs seeds source x y =>
    obtain ⟨r, h⟩ := unit_ok h
    obtain ⟨hn, h⟩ := check_ok h
    replace h := Tx.get_bind_ok.1 h
    exact many rfl (fun hx => hn (Or.inr (Or.inl hx))) (copySeeds_entries h)
  | syncJobs seeds source x y =>
    obtain ⟨r, h⟩ := unit_ok h
    obtain ⟨hn, -⟩ := check_ok h
    obtain ⟨-, -, h⟩ := syncJobs_ok h
    exact many rfl (fun hx => hn (Or.inr (Or.inl hx))) (syncSeeds_entries h)
  | syncJobDescriptions ds x y =>
    obtain ⟨r, h⟩ := unit_ok h
    obtain ⟨hn, h⟩ := check_ok h
    cases hx : ds.find? (fun d => decide (512 < d.2.utf8ByteSize)) with
    | some d => simp [hx] at h
    | none =>
      simp only [hx] at h
      replace h := Tx.get_bind_ok.1 h
      exact many rfl (fun hx => hn (Or.inl hx)) (describeJobs_entries h)
  | _ => exact ⟨[], .none (Action.untold h rfl)⟩

/-! ## The tables, read off the log -/

def DB.editsOf (db : DB) (j : String) : List AuditRow := db.audits.filter (·.edits j)

def DB.pausesOf (db : DB) (j : String) : List AuditRow := db.audits.filter (·.pauses j)

/-- **The log explains the tables.** -/
structure Explained (db : DB) : Prop where
  version : ∀ j, db.version j = (db.editsOf j).length
  editor  : ∀ j, db.editor j = (db.editsOf j).getLast?.map (·.actor)
  paused  : ∀ j, db.paused j = (db.pausesOf j).getLast?.any (fun r => decide (r.action = "job_paused"))

theorem Explained.untold (h : Explained db) (hu : Untold db db') : Explained db' where
  version j := by rw [DB.version, hu.defs j, DB.editsOf, hu.audits]; exact h.version j
  editor j := by rw [DB.editor, hu.defs j, DB.editsOf, hu.audits]; exact h.editor j
  paused j := by rw [hu.paused j, DB.pausesOf, hu.audits]; exact h.paused j

theorem filter_snoc {α : Type} (p : α → Bool) (l : List α) (x : α) :
    (l ++ [x]).filter p = l.filter p ++ if p x then [x] else [] := by
  cases hx : p x <;> simp [hx]

theorem Explained.entry {x : String} {r : AuditRow} (h : Explained db) (he : Entry c x db db' r) : Explained db' where
  version j := by
    rw [DB.editsOf, he.audits, filter_snoc, List.length_append, ← DB.editsOf, ← h.version j]
    cases hj : r.edits j with
    | true => exact (he.version j hj).1
    | false => rw [DB.version, he.defs j hj]; rfl
  editor j := by
    rw [DB.editsOf, he.audits, filter_snoc, ← DB.editsOf]
    cases hj : r.edits j with
    | true => simpa [he.by_] using (he.version j hj).2
    | false => rw [DB.editor, he.defs j hj, if_neg (by simp), List.append_nil]; exact h.editor j
  paused j := by
    rw [he.paused j, DB.pausesOf, he.audits, filter_snoc, ← DB.pausesOf]
    cases hj : r.pauses j with
    | true => simp
    | false => rw [if_neg (by simp), if_neg (by simp), List.append_nil]; exact h.paused j

theorem Explained.entries {x : String} {rs : List AuditRow} (h : Explained db) (he : Entries c x db rs db') :
    Explained db' := by
  induction he with
  | nil => exact h
  | snoc _ hr ih => exact ih.entry hr

/-- What a call's rows say for themselves. -/
structure Signed (x : World × (Action × Ctx) × World) (rs : List AuditRow) : Prop where
  audits : x.2.2.db.audits = x.1.db.audits ++ rs
  signed : ∀ r ∈ rs, x.2.1.1.actor? = some r.actor ∧ r.actor ≠ "" ∧ r.createdAt = x.2.1.2.now
  defs   : ∀ j, (∀ r ∈ rs, r.edits j = false) → x.2.2.db.def? j = x.1.db.def? j

theorem Entries.signed {x : String} {rs : List AuditRow} (h : Entries c x db rs db') :
    db'.audits = db.audits ++ rs ∧ (∀ r ∈ rs, r.actor = x ∧ r.createdAt = c.now) ∧
      ∀ j, (∀ r ∈ rs, r.edits j = false) → db'.def? j = db.def? j := by
  induction h with
  | nil => simp
  | snoc _ hr ih =>
    obtain ⟨ha, hs, hd⟩ := ih
    refine ⟨by rw [hr.audits, ha, List.append_assoc], fun r hm => ?_, fun j hj => ?_⟩
    · rcases List.mem_append.1 hm with hm | hm
      · exact hs r hm
      · rw [List.mem_singleton.1 hm]
        exact ⟨hr.by_, hr.at_⟩
    · rw [hr.defs j (hj _ (by simp)), hd j (fun r hm => hj r (List.mem_append_left _ hm))]

/-- **A step only adds to the log**, and what it adds explains what it did. -/
theorem Step.explained (hst : Step env w l w') : (Explained w.db → Explained w'.db) ∧ ∃ rs, Signed (w, l, w') rs := by
  have quiet : Untold w.db w'.db → (Explained w.db → Explained w'.db) ∧ ∃ rs, Signed (w, l, w') rs := fun hu =>
    ⟨fun h => h.untold hu, [], by simpa using hu.audits, by simp, fun j _ => hu.defs j⟩
  rcases Tx.commit_cases (l.1.tx env l.2) w.db with ⟨_, _, hsame⟩ | ⟨u, hok⟩
  · exact quiet (.same (hst.db.trans hsame).symm)
  · rw [← hst.db] at hok
    obtain ⟨rs, htold⟩ := l.1.told hok
    cases htold with
    | none hu => exact quiet hu
    | rows ha hx he =>
      obtain ⟨haudits, hs, hd⟩ := he.signed
      refine ⟨fun h => h.entries he, rs, haudits, fun r hr => ?_, hd⟩
      obtain ⟨rfl, hat⟩ := hs r hr
      exact ⟨ha, hx, hat⟩

theorem Explained.run {u : Utc} {tr : History} (hr : Sys.Run (Step env) (World.init u) tr w) : Explained w.db :=
  Sys.Run.invariant (I := fun w => Explained w.db) ⟨fun _ => rfl, fun _ => rfl, fun _ => rfl⟩
    (fun _ _ _ h hst => hst.explained.1 h) hr

/-- The log names every manual run. -/
def DB.Triggered (db : DB) : Prop :=
  ∀ i e, db.exec? i = some e → e.triggerType = .manual → ∃ r ∈ db.audits, r.action = "job_triggered" ∧
    r.jobName = nullString e.jobName ∧ r.execution = nullString e.executionKey

theorem DB.Triggered.step (h : w.db.Triggered) (hst : Step env w l w') : w'.db.Triggered := by
  intro i e' he' hm
  obtain ⟨rs, hs⟩ := hst.explained.2
  have kept : ∀ {P : AuditRow → Prop}, (∃ r ∈ w.db.audits, P r) → ∃ r ∈ w'.db.audits, P r := by
    rintro P ⟨r, hr, hp⟩
    exact ⟨r, by rw [show w'.db.audits = _ from hs.audits]; exact List.mem_append_left _ hr, hp⟩
  cases he : w.db.exec? i with
  | some e =>
    have hi := hst.commit.info he he'
    rw [congrArg ExecInfo.jobName hi, congrArg ExecInfo.executionKey hi]
    exact kept (h i e he (by rw [← congrArg ExecInfo.triggerType hi]; exact hm))
  | none =>
    obtain ⟨a, c⟩ := l
    obtain ⟨j, d, s, s', -, -, hj, hc, -⟩ := hst.commit.new he he'
    cases hc with
    | cron => cases hm
    | poll => cases hm
    | manual key merged id hret hkey =>
      -- The row is new, so the trigger created it and wrote its row.
      rcases Tx.commit_cases (Action.tx env c _) w.db with ⟨_, _, hsame⟩ | ⟨_, hok⟩
      · rw [hst.db, hsame, he] at he'; cases he'
      · rw [← hst.db] at hok
        obtain ⟨k, hok⟩ := unit_ok hok
        rcases trigger_entry hok with hsame | ⟨row, hrow, hact, hname, hexec⟩
        · rw [← hsame, he] at he'; cases he'
        · refine ⟨row, by rw [hrow.audits]; simp, hact, hname, ?_⟩
          rw [hexec, hkey]
          rfl

/-- **The audit log explains the tables**: in every reachable state a definition's version is the number of its edits in
the log, its last editor is the actor of the last one, a job is paused exactly if the last row about it says so, and
every manual run has a row that names it.  Each call only appends, signs its rows with its own operator, who has a name,
and leaves every definition alone that none of its rows says was edited. -/
theorem audit_log_explains {u : Utc} {tr : History} (hr : Sys.Run (Step env) (World.init u) tr w) :
    Explained w.db ∧ w.db.Triggered ∧ ∀ x ∈ tr, ∃ rs, Signed x rs := by
  refine ⟨.run hr, ?_, fun x hx => ?_⟩
  · exact Sys.Run.invariant (I := fun w => w.db.Triggered) (fun _ _ he => by cases he)
      (fun _ _ _ h hst => h.step hst) hr
  · obtain ⟨_, _, -, -, hst, -⟩ := hr.split hx
    exact hst.explained.2

/-- A job is created, edited by somebody else and paused. -/
def editedJob : List (Action × Int) :=
  [(.createJob (sampleJob "sync" .fixedDelay "1000") 0 "operator" "new", 0),
   (.updateJob (sampleJob "sync" .fixedDelay "2000") 1 "deputy" "slower", 1),
   (.setPaused "sync" true "operator" "stop", 2)]

theorem audit_log_explains_edited :
    let db := ((World.init 0).play bareEnv editedJob).db
    db.version "sync" = 2 ∧ db.editor "sync" = some "deputy" ∧ db.paused "sync" = true := by
  have h := (audit_log_explains (World.run_play bareEnv editedJob (World.init 0) (by decide))).1
  exact ⟨(h.version "sync").trans (by decide +kernel), (h.editor "sync").trans (by decide +kernel),
    (h.paused "sync").trans (by decide +kernel)⟩

end GoJob
