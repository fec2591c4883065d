import GoJob.Cron.Parse
import GoJob.Runs
/-!
# Migration — upgrading a tenant's schema (`tenantmigration/migration.go`)

Every instance that admits a tenant reads the version of its schema, later runs the migrations after it, and can stop
between any two statements.  An `ALTER` commits by itself, so before each one a run asks whether it was applied; and the
version moves only from the one before.  A version therefore never promises what is not there, whatever runs there are,
and from every schema they leave one more run gets to the end.
-/
namespace GoJob
namespace TenantMigration

open Cron (Text trimSpace)

/-- The characters of a text in ascii, one for each byte. -/
def ascii (s : String) : Text := s.toByteArray.data.toList.map (fun b => Char.ofNat b.toNat)

/-! ## Reading a stream -/

structure Migration where
  version : Int
  name    : String
  ddl     : Text
  deriving DecidableEq, Repr

def initialVersion : Int := 1

/-- The loop of `Validate`, where the next version is to be `want`. -/
def validateFrom : Int → List Migration → Except String Unit
  | _, [] => .ok ()
  | want, m :: migrations =>
    if m.version ≠ want then
      .error ("tenant migration " ++ m.name.quote ++ " is version " ++ toString m.version ++
        ", want contiguous version " ++ toString want)
    else if trimSpace m.name.toList = [] then
      .error ("tenant migration version " ++ toString m.version ++ " has no name")
    else validateFrom (want + 1) migrations

def validate (migrations : List Migration) : Except String Unit :=
  if migrations = [] then .error "no embedded tenant migrations" else validateFrom initialVersion migrations

def parseVersion (label value : String) : Except String Int :=
  match parseInt value with
  | none   => .error (label ++ " tenant schema version " ++ value.quote ++ " is not numeric")
  | some n => .ok n

/-- `Pending`, once both versions are read. -/
def pendingBetween (migrations : List Migration) (current required : Int) : Except String (List Migration) :=
  if current < initialVersion then
    .error ("current tenant schema version " ++ toString current ++ " predates initial version " ++
      toString initialVersion)
  else if current > required then
    .error ("tenant schema version " ++ toString current ++ " is newer than this binary requires (" ++
      toString required ++ "); downgrade refused")
  else if current = required then .ok []
  else do
    validate migrations
    let last := (migrations.getLast?.map Migration.version).getD 0
    let pending := migrations.filter (fun m => decide (m.version > current ∧ m.version ≤ required))
    if required > last then
      .error ("binary requires tenant schema version " ++ toString required ++ " but embedded migrations end at " ++
        toString last)
    else if (pending.length : Int) ≠ required - current then
      .error ("embedded tenant migrations do not cover versions " ++ toString (current + 1) ++ " through " ++
        toString required)
    else .ok pending

def pending (migrations : List Migration) (current required : String) : Except String (List Migration) := do
  let currentVersion ← parseVersion "current" current
  let requiredVersion ← parseVersion "required" required
  pendingBetween migrations currentVersion requiredVersion

/-- A line up to its first `--`. -/
def uncommented : Text → Text
  | '-' :: '-' :: _ => []
  | c :: line       => c :: uncommented line
  | []              => []

def splitDDL (ddl : Text) : List Text :=
  let kept := ((ddl.splitOn '\n').map uncommented).filter (fun line => decide (trimSpace line ≠ []))
  (((['\n'].intercalate kept).splitOn ';').map trimSpace).filter (fun statement => decide (statement ≠ []))

def firstLine (statement : Text) : Text := (trimSpace (statement.takeWhile (· ≠ '\n'))).take 80

/-! ## The stream of this build -/

def file (lines : List String) : Text := lines.flatMap (fun line => ascii line ++ ['\n'])

def statement (lines : List String) : Text := ['\n'].intercalate (lines.map ascii)

def executionRetention : Migration where
  version := 2
  name    := "002_execution_retention.sql"
  ddl     := file [
    "-- Index the terminal business timestamp used by bounded execution-history retention.",
    "ALTER TABLE job_execution",
    "    ADD KEY idx_job_execution_retention (status, finished_at, id);",
    "",
    "UPDATE schema_identity",
    "SET schema_version = '2'",
    "WHERE lock_row = 1 AND schema_version = '1';"]

def handlerDescriptions : Migration where
  version := 3
  name    := "003_handler_descriptions.sql"
  ddl     := file [
    "-- Preserve the operator-facing description supplied by each live executor. It is metadata,",
    "-- not routing authority: handler_key remains the only dispatch key.",
    "ALTER TABLE job_executor_handler",
    "    ADD COLUMN description VARCHAR(512) NOT NULL DEFAULT '' AFTER handler_key;",
    "",
    "UPDATE schema_identity",
    "SET schema_version = '3'",
    "WHERE lock_row = 1 AND schema_version = '2';"]

/-- `TenantMigrations`.  The text of the first one is for new schemas, and no upgrade reads it. -/
def tenantMigrations (tenant : Text) : List Migration :=
  [⟨1, "001_tenant.sql", tenant⟩, executionRetention, handlerDescriptions]

def schemaVersion : String := "3"

def addKey : Text := statement
  ["ALTER TABLE job_execution", "    ADD KEY idx_job_execution_retention (status, finished_at, id)"]

def setTwo : Text := statement
  ["UPDATE schema_identity", "SET schema_version = '2'", "WHERE lock_row = 1 AND schema_version = '1'"]

def addDescription : Text := statement
  ["ALTER TABLE job_executor_handler",
   "    ADD COLUMN description VARCHAR(512) NOT NULL DEFAULT '' AFTER handler_key"]

def setThree : Text := statement
  ["UPDATE schema_identity", "SET schema_version = '3'", "WHERE lock_row = 1 AND schema_version = '2'"]

theorem splitDDL_executionRetention : splitDDL executionRetention.ddl = [addKey, setTwo] := by decide +kernel

theorem splitDDL_handlerDescriptions : splitDDL handlerDescriptions.ddl = [addDescription, setThree] := by
  decide +kernel

/-! ## The database -/

/-- A row of `information_schema.columns`. -/
structure Column where
  columnType    : Option String
  isNullable    : Option String
  columnDefault : Option String
  deriving DecidableEq, Repr

/-- What the migrations look at: the version, the columns of `idx_job_execution_retention` and
`job_executor_handler.description`. -/
structure Schema where
  version     : String
  retention   : Option (List String)
  description : Option Column
  deriving DecidableEq, Repr

/-- What a statement of the stream asks for. -/
inductive Sql
  | addKey (columns : List String)
  | addColumn (column : Column)
  | setVersion (was now : String)
  deriving DecidableEq, Repr

def retentionColumns : List String := ["status", "finished_at", "id"]

def descriptionColumn : Column := ⟨some "varchar(512)", some "NO", some ""⟩

def meaning : List (Text × Sql) :=
  [(addKey, .addKey retentionColumns), (setTwo, .setVersion "1" "2"),
   (addDescription, .addColumn descriptionColumn), (setThree, .setVersion "2" "3")]

/-- The database runs a statement.  It refuses to add what is there already. -/
def Sql.run : Sql → Schema → Except String Schema
  | .addKey columns, s =>
    if s.retention.isSome then .error "Duplicate key name 'idx_job_execution_retention'"
    else .ok { s with retention := some columns }
  | .addColumn column, s =>
    if s.description.isSome then .error "Duplicate column name 'description'"
    else .ok { s with description := some column }
  | .setVersion was now, s => .ok (if s.version = was then { s with version := now } else s)

def execContext (statement : Text) (s : Schema) : Except String Schema :=
  match meaning.lookup statement with
  | none     => .error "You have an error in your SQL syntax"
  | some sql => sql.run s

/-! ## The upgrade -/

def alreadyApplied (s : Schema) (version : Int) (statement : Text) : Except String Bool :=
  if version = 3 ∧ ascii "ADD COLUMN description" <:+: statement then
    match s.description with
    | none => .ok false
    | some column =>
      let columnType := column.columnType.getD ""
      let nullable := column.isNullable.getD ""
      let defaultValue := column.columnDefault.getD ""
      if columnType ≠ "varchar(512)" ∨ nullable ≠ "NO" ∨ defaultValue ≠ "" then
        .error ("existing job_executor_handler.description is " ++ columnType ++ " nullable=" ++ nullable ++
          " default=" ++ defaultValue.quote ++ ", want varchar(512) NOT NULL default empty")
      else .ok true
  else if version ≠ 2 ∨ ¬ ascii "idx_job_execution_retention" <:+: statement then .ok false
  else
    -- `GROUP_CONCAT` gives NULL where there is no index
    let columns := (s.retention.map (",".intercalate ·)).getD ""
    if columns = "" then .ok false
    else if columns ≠ "status,finished_at,id" then
      .error ("existing idx_job_execution_retention has columns " ++ columns.quote ++ ", want " ++
        "status,finished_at,id".quote)
    else .ok true

/-- Where a run of `Upgrade` stands. -/
inductive Upgrade
  /-- It has been given a version. -/
  | start (current : String)
  /-- It is about to look at the next statement; after the last one it asks for the version. -/
  | loop (todo : List (Migration × Text))
  /-- It is about to execute a statement. -/
  | apply (next : Migration × Text) (todo : List (Migration × Text))
  | done (result : Except String Unit)

def Upgrade.step (tenant : Text) (s : Schema) : Upgrade → Schema × Upgrade
  | .start current =>
    match pending (tenantMigrations tenant) current schemaVersion with
    | .error e => (s, .done (.error e))
    | .ok [] => (s, .done (.ok ()))
    | .ok migrations => (s, .loop (migrations.flatMap (fun m => (splitDDL m.ddl).map (Prod.mk m))))
  | .loop [] =>
    (s, .done (if s.version ≠ schemaVersion then
      .error ("tenant migrations completed but schema version is " ++ s.version.quote ++ ", want " ++
        schemaVersion.quote) else .ok ()))
  | .loop ((m, statement) :: todo) =>
    match alreadyApplied s m.version statement with
    | .error e => (s, .done (.error ("inspect tenant migration " ++ m.name ++ ": " ++ e)))
    | .ok true => (s, .loop todo)
    | .ok false => (s, .apply (m, statement) todo)
  | .apply (m, statement) todo =>
    match execContext statement s with
    | .error e => (s, .done (.error ("apply tenant migration " ++ m.name ++ " at " ++
        (String.ofList (firstLine statement)).quote ++ ": " ++ e)))
    | .ok s' => (s', .loop todo)
  | .done result => (s, .done result)

structure System where
  schema : Schema
  runs   : List Upgrade

inductive Act
  /-- An instance reads the version, to run `Upgrade` with it. -/
  | enter
  | step (i : Nat)
  /-- The instance of a run stops, or the run fails for a reason of its own. -/
  | crash (i : Nat)
  deriving DecidableEq, Repr

def System.next (tenant : Text) (s : System) : Act → System
  | .enter => { s with runs := s.runs ++ [.start s.schema.version] }
  | .step i =>
    match s.runs[i]? with
    | none => s
    | some r => ⟨(r.step tenant s.schema).1, s.runs.set i (r.step tenant s.schema).2⟩
  | .crash i => { s with runs := s.runs.set i (.done (.error "context canceled")) }

/-! ## The four statements -/

variable {tenant : Text} {s s' : Schema} {r : Upgrade}

theorem execContext_addKey (s : Schema) : execContext addKey s = (Sql.addKey retentionColumns).run s := by
  unfold execContext
  rw [show meaning.lookup addKey = some (.addKey retentionColumns) by decide +kernel]

theorem execContext_setTwo (s : Schema) : execContext setTwo s = (Sql.setVersion "1" "2").run s := by
  unfold execContext
  rw [show meaning.lookup setTwo = some (.setVersion "1" "2") by decide +kernel]

theorem execContext_addDescription (s : Schema) :
    execContext addDescription s = (Sql.addColumn descriptionColumn).run s := by
  unfold execContext
  rw [show meaning.lookup addDescription = some (.addColumn descriptionColumn) by decide +kernel]

theorem execContext_setThree (s : Schema) : execContext setThree s = (Sql.setVersion "2" "3").run s := by
  unfold execContext
  rw [show meaning.lookup setThree = some (.setVersion "2" "3") by decide +kernel]

/-- A change of a migration is made as the migration makes it, or not at all. -/
structure Schema.Shaped (s : Schema) : Prop where
  retention   : ∀ columns ∈ s.retention, columns = retentionColumns
  description : ∀ column ∈ s.description, column = descriptionColumn

/-- The change of a migration is there. -/
def Schema.Has (s : Schema) (version : Nat) : Prop :=
  (version = 2 → s.retention = some retentionColumns) ∧ (version = 3 → s.description = some descriptionColumn)

theorem alreadyApplied_addKey (h : s.Shaped) :
    alreadyApplied s executionRetention.version addKey = .ok s.retention.isSome := by
  unfold alreadyApplied
  rw [if_neg (fun h => absurd h.1 (by decide)), if_neg]
  · cases hr : s.retention with
    | none => rfl
    | some columns =>
      rw [h.retention columns hr]
      decide
  · rw [not_or, not_not, not_not]
    exact ⟨rfl, by decide +kernel⟩

theorem alreadyApplied_setTwo (s : Schema) : alreadyApplied s executionRetention.version setTwo = .ok false := by
  unfold alreadyApplied
  rw [if_neg (fun h => absurd h.1 (by decide)), if_pos (.inr (by decide +kernel))]

theorem alreadyApplied_addDescription (h : s.Shaped) :
    alreadyApplied s handlerDescriptions.version addDescription = .ok s.description.isSome := by
  unfold alreadyApplied
  rw [if_pos ⟨rfl, by decide +kernel⟩]
  cases hr : s.description with
  | none => rfl
  | some column =>
    rw [h.description column hr]
    decide

theorem alreadyApplied_setThree (s : Schema) : alreadyApplied s handlerDescriptions.version setThree = .ok false := by
  unfold alreadyApplied
  rw [if_neg (fun h => absurd h.2 (by decide +kernel)), if_pos (.inl (by decide))]

/-- All the statements there are to run, in order. -/
def work : List (Migration × Text) :=
  [(executionRetention, addKey), (executionRetention, setTwo),
   (handlerDescriptions, addDescription), (handlerDescriptions, setThree)]

theorem validateFrom_cons (m : Migration) (migrations : List Migration) (hname : trimSpace m.name.toList ≠ []) :
    validateFrom m.version (m :: migrations) = validateFrom (m.version + 1) migrations := by
  rw [validateFrom, if_neg (not_not.2 rfl), if_neg hname]

theorem validate_tenantMigrations (tenant : Text) : validate (tenantMigrations tenant) = .ok () := by
  have hname : trimSpace "001_tenant.sql".toList ≠ [] := by decide +kernel
  rw [validate, if_neg (by simp [tenantMigrations])]
  calc validateFrom initialVersion (tenantMigrations tenant)
      = validateFrom 2 [executionRetention, handlerDescriptions] :=
        validateFrom_cons ⟨1, "001_tenant.sql", tenant⟩ _ hname
    _ = validateFrom 3 [handlerDescriptions] := validateFrom_cons executionRetention _ (by decide +kernel)
    _ = .ok () := validateFrom_cons handlerDescriptions [] (by decide +kernel)

theorem pendingBetween_one : pendingBetween (tenantMigrations tenant) 1 3 =
    .ok [executionRetention, handlerDescriptions] := by
  unfold pendingBetween
  rw [validate_tenantMigrations]
  rfl

theorem pendingBetween_two : pendingBetween (tenantMigrations tenant) 2 3 = .ok [handlerDescriptions] := by
  unfold pendingBetween
  rw [validate_tenantMigrations]
  rfl

/-- The version of a run decides what it has to do. -/
theorem pending_eq (current : String) :
    pending (tenantMigrations tenant) current schemaVersion =
      (parseVersion "current" current).bind (fun version => pendingBetween (tenantMigrations tenant) version 3) := by
  unfold pending
  rw [show parseVersion "required" schemaVersion = .ok 3 from rfl]
  rfl

/-! ## What one step does -/

/-- All that a step can do to the schema. -/
inductive Change (s : Schema) : Schema → Prop
  | same : Change s s
  | key : s.retention = none → Change s { s with retention := some retentionColumns }
  | column : s.description = none → Change s { s with description := some descriptionColumn }
  | two : s.version = "1" → s.Has 2 → Change s { s with version := "2" }
  | three : s.version = "2" → s.Has 3 → Change s { s with version := "3" }

theorem Change.has (h : Change s s') {k : Nat} (hk : s.Has k) : s'.Has k := by
  cases h with
  | same => exact hk
  | key _ => exact ⟨fun _ => rfl, hk.2⟩
  | column _ => exact ⟨hk.1, fun _ => rfl⟩
  | two _ _ => exact hk
  | three _ _ => exact hk

theorem Change.shaped (h : Change s s') (hs : s.Shaped) : s'.Shaped := by
  cases h with
  | same => exact hs
  | key _ => exact ⟨fun columns hc => (Option.mem_some.1 hc).symm, hs.description⟩
  | column _ => exact ⟨hs.retention, fun column hc => (Option.mem_some.1 hc).symm⟩
  | two _ _ => exact ⟨hs.retention, hs.description⟩
  | three _ _ => exact ⟨hs.retention, hs.description⟩

/-- The version promises the changes up to it. -/
def Schema.Covered (s : Schema) : Prop :=
  ∃ n : Nat, 1 ≤ n ∧ s.version = toString n ∧ ∀ k, k ≤ n → s.Has k

/-- A version promises nothing new but what the step found. -/
theorem Change.covered (h : Change s s') (hs : s.Covered) : s'.Covered := by
  have hc := h
  obtain ⟨n, hn, hv, hhas⟩ := hs
  have hkeep : ∀ k, k ≤ n → s'.Has k := fun k hk => hc.has (hhas k hk)
  cases h with
  | same => exact ⟨n, hn, hv, hkeep⟩
  | key _ => exact ⟨n, hn, hv, hkeep⟩
  | column _ => exact ⟨n, hn, hv, hkeep⟩
  | two h1 h2 =>
    have hn1 : n = 1 := Nat.repr_inj.1 (hv.symm.trans h1)
    subst hn1
    refine ⟨2, by decide, rfl, fun k hk => ?_⟩
    rcases Nat.le_succ_iff.1 hk with hk | rfl
    · exact hkeep k hk
    · exact hc.has h2
  | three h2 h3 =>
    have hn2 : n = 2 := Nat.repr_inj.1 (hv.symm.trans h2)
    subst hn2
    refine ⟨3, by decide, rfl, fun k hk => ?_⟩
    rcases Nat.le_succ_iff.1 hk with hk | rfl
    · exact hkeep k hk
    · exact hc.has h3

/-- A run stands before the `n`-th statement; before it moves the version, the change is there. -/
def Upgrade.Sound (s : Schema) : Upgrade → Prop
  | .loop todo => ∃ n, todo = work.drop n ∧ (n = 1 → s.Has 2) ∧ (n = 3 → s.Has 3)
  | .apply next todo => ∃ n, next :: todo = work.drop n ∧ (n = 1 → s.Has 2) ∧ (n = 3 → s.Has 3)
  | _ => True

theorem Upgrade.Sound.mono (h : r.Sound s) (hc : Change s s') : r.Sound s' := by
  cases r with
  | start current => trivial
  | loop todo =>
    obtain ⟨n, htodo, h2, h3⟩ := h
    exact ⟨n, htodo, fun hn => hc.has (h2 hn), fun hn => hc.has (h3 hn)⟩
  | apply next todo =>
    obtain ⟨n, htodo, h2, h3⟩ := h
    exact ⟨n, htodo, fun hn => hc.has (h2 hn), fun hn => hc.has (h3 hn)⟩
  | done result => trivial

/-- The statements before which a run can stand. -/
theorem drop_work {x : Migration × Text} {todo : List (Migration × Text)} {n : Nat} (h : x :: todo = work.drop n) :
    n = 0 ∧ x = (executionRetention, addKey) ∧ todo = work.drop 1 ∨
    n = 1 ∧ x = (executionRetention, setTwo) ∧ todo = work.drop 2 ∨
    n = 2 ∧ x = (handlerDescriptions, addDescription) ∧ todo = work.drop 3 ∨
    n = 3 ∧ x = (handlerDescriptions, setThree) ∧ todo = work.drop 4 := by
  have hn : n < 4 := by
    by_contra hn
    rw [List.drop_eq_nil_of_le (show work.length ≤ n by exact not_lt.1 hn)] at h
    cases h
  interval_cases n
  · exact .inl ⟨rfl, (List.cons.inj h).1, (List.cons.inj h).2⟩
  · exact .inr (.inl ⟨rfl, (List.cons.inj h).1, (List.cons.inj h).2⟩)
  · exact .inr (.inr (.inl ⟨rfl, (List.cons.inj h).1, (List.cons.inj h).2⟩))
  · exact .inr (.inr (.inr ⟨rfl, (List.cons.inj h).1, (List.cons.inj h).2⟩))

theorem step_loop {m : Migration} {statement : Text} {todo : List (Migration × Text)} {skip : Bool}
    (h : alreadyApplied s m.version statement = .ok skip) :
    (Upgrade.loop ((m, statement) :: todo)).step tenant s =
      (s, if skip then .loop todo else .apply (m, statement) todo) := by
  rw [Upgrade.step, h]
  cases skip <;> rfl

theorem step_apply {m : Migration} {statement : Text} {todo : List (Migration × Text)}
    (h : execContext statement s = .ok s') :
    (Upgrade.apply (m, statement) todo).step tenant s = (s', .loop todo) := by
  rw [Upgrade.step, h]

theorem step_apply_error (tenant : Text) (m : Migration) (todo : List (Migration × Text)) {statement : Text}
    {e : String} (h : execContext statement s = .error e) :
    ∃ e', (Upgrade.apply (m, statement) todo).step tenant s = (s, .done (.error e')) := by
  rw [Upgrade.step, h]
  exact ⟨_, rfl⟩

theorem Schema.Shaped.has_two (h : s.Shaped) (hsome : s.retention.isSome = true) : s.Has 2 := by
  obtain ⟨columns, hc⟩ := Option.isSome_iff_exists.1 hsome
  exact ⟨fun _ => by rw [hc, h.retention columns hc], fun h => absurd h (by decide)⟩

theorem Schema.Shaped.has_three (h : s.Shaped) (hsome : s.description.isSome = true) : s.Has 3 := by
  obtain ⟨column, hc⟩ := Option.isSome_iff_exists.1 hsome
  exact ⟨fun h => absurd h (by decide), fun _ => by rw [hc, h.description column hc]⟩

/-- A run that looks at a statement leaves the schema alone, and passes over an `ALTER` that has been applied. -/
theorem Upgrade.Sound.look (tenant : Text) {x : Migration × Text} {todo : List (Migration × Text)}
    (h : (Upgrade.loop (x :: todo)).Sound s) (hs : s.Shaped) :
    ((Upgrade.loop (x :: todo)).step tenant s).1 = s ∧ ((Upgrade.loop (x :: todo)).step tenant s).2.Sound s := by
  obtain ⟨n, htodo, h2, h3⟩ := h
  have hwait : (Upgrade.apply x todo).Sound s := ⟨n, htodo, h2, h3⟩
  rcases drop_work htodo with ⟨rfl, rfl, rfl⟩ | ⟨rfl, rfl, rfl⟩ | ⟨rfl, rfl, rfl⟩ | ⟨rfl, rfl, rfl⟩
  · rw [step_loop (alreadyApplied_addKey hs)]
    cases hsome : s.retention.isSome with
    | false => exact ⟨rfl, hwait⟩
    | true => exact ⟨rfl, 1, rfl, fun _ => hs.has_two hsome, fun h => absurd h (by decide)⟩
  · rw [step_loop (alreadyApplied_setTwo s)]
    exact ⟨rfl, hwait⟩
  · rw [step_loop (alreadyApplied_addDescription hs)]
    cases hsome : s.description.isSome with
    | false => exact ⟨rfl, hwait⟩
    | true => exact ⟨rfl, 3, rfl, fun h => absurd h (by decide), fun _ => hs.has_three hsome⟩
  · rw [step_loop (alreadyApplied_setThree s)]
    exact ⟨rfl, hwait⟩

/-- A run that executes a statement makes its change, or moves the version on, or fails. -/
theorem Upgrade.Sound.execute {x : Migration × Text} {todo : List (Migration × Text)}
    (h : (Upgrade.apply x todo).Sound s) :
    Change s ((Upgrade.apply x todo).step tenant s).1 ∧
      ((Upgrade.apply x todo).step tenant s).2.Sound ((Upgrade.apply x todo).step tenant s).1 := by
  obtain ⟨n, htodo, h2, h3⟩ := h
  rcases drop_work htodo with ⟨rfl, rfl, rfl⟩ | ⟨rfl, rfl, rfl⟩ | ⟨rfl, rfl, rfl⟩ | ⟨rfl, rfl, rfl⟩
  · cases hr : s.retention with
    | none =>
      rw [step_apply ((execContext_addKey s).trans (if_neg (by simp [hr])))]
      exact ⟨.key hr, 1, rfl, fun _ => ⟨fun _ => rfl, fun h => absurd h (by decide)⟩, fun h => absurd h (by decide)⟩
    | some columns =>
      obtain ⟨e, he⟩ := step_apply_error tenant executionRetention (work.drop 1)
        ((execContext_addKey s).trans (if_pos (by simp [hr])))
      rw [he]
      exact ⟨.same, trivial⟩
  · rw [step_apply (execContext_setTwo s)]
    refine ⟨?_, 2, rfl, fun h => absurd h (by decide), fun h => absurd h (by decide)⟩
    by_cases hv : s.version = "1"
    · rw [if_pos hv]
      exact .two hv (h2 rfl)
    · rw [if_neg hv]
      exact .same
  · cases hr : s.description with
    | none =>
      rw [step_apply ((execContext_addDescription s).trans (if_neg (by simp [hr])))]
      exact ⟨.column hr, 3, rfl, fun h => absurd h (by decide), fun _ => ⟨fun h => absurd h (by decide), fun _ => rfl⟩⟩
    | some columns =>
      obtain ⟨e, he⟩ := step_apply_error tenant handlerDescriptions (work.drop 3)
        ((execContext_addDescription s).trans (if_pos (by simp [hr])))
      rw [he]
      exact ⟨.same, trivial⟩
  · rw [step_apply (execContext_setThree s)]
    refine ⟨?_, 4, rfl, fun h => absurd h (by decide), fun h => absurd h (by decide)⟩
    by_cases hv : s.version = "2"
    · rw [if_pos hv]
      exact .three hv (h3 rfl)
    · rw [if_neg hv]
      exact .same

/-- What a run has to do is the end of the work. -/
theorem pendingBetween_ok {version : Int} {migrations : List Migration}
    (h : pendingBetween (tenantMigrations tenant) version 3 = .ok migrations) :
    migrations = [] ∨ migrations = [executionRetention, handlerDescriptions] ∨ migrations = [handlerDescriptions] := by
  by_cases hlow : version < initialVersion
  · rw [pendingBetween, if_pos hlow] at h
    cases h
  by_cases hhigh : version > 3
  · rw [pendingBetween, if_neg hlow, if_pos hhigh] at h
    cases h
  have hcases : version = 1 ∨ version = 2 ∨ version = 3 := by unfold initialVersion at hlow; omega
  rcases hcases with rfl | rfl | rfl
  · rw [pendingBetween_one] at h
    exact .inr (.inl (Except.ok.inj h).symm)
  · rw [pendingBetween_two] at h
    exact .inr (.inr (Except.ok.inj h).symm)
  · exact .inl (Except.ok.inj h).symm

theorem flatMap_splitDDL_both :
    [executionRetention, handlerDescriptions].flatMap (fun m => (splitDDL m.ddl).map (Prod.mk m)) = work.drop 0 := by
  simp only [List.flatMap_cons, List.flatMap_nil, splitDDL_executionRetention, splitDDL_handlerDescriptions]
  rfl

theorem flatMap_splitDDL_last :
    [handlerDescriptions].flatMap (fun m => (splitDDL m.ddl).map (Prod.mk m)) = work.drop 2 := by
  simp only [List.flatMap_cons, List.flatMap_nil, splitDDL_handlerDescriptions]
  rfl

theorem Upgrade.Sound.begin (tenant : Text) (s : Schema) (current : String) :
    ((Upgrade.start current).step tenant s).1 = s ∧ ((Upgrade.start current).step tenant s).2.Sound s := by
  rw [Upgrade.step, pending_eq]
  cases parseVersion "current" current with
  | error e => exact ⟨rfl, trivial⟩
  | ok version =>
    rw [Except.bind]
    cases hp : pendingBetween (tenantMigrations tenant) version 3 with
    | error e => exact ⟨rfl, trivial⟩
    | ok migrations =>
      rcases pendingBetween_ok hp with rfl | rfl | rfl
      · exact ⟨rfl, trivial⟩
      · exact ⟨rfl, 0, flatMap_splitDDL_both, fun h => absurd h (by decide), fun h => absurd h (by decide)⟩
      · exact ⟨rfl, 2, flatMap_splitDDL_last, fun h => absurd h (by decide), fun h => absurd h (by decide)⟩

/-- **What one step of a run does.** -/
theorem Upgrade.Sound.step (tenant : Text) (h : r.Sound s) (hs : s.Shaped) :
    Change s (r.step tenant s).1 ∧ (r.step tenant s).2.Sound (r.step tenant s).1 := by
  cases r with
  | start current =>
    obtain ⟨hsame, hsound⟩ := Upgrade.Sound.begin tenant s current
    rw [hsame]
    exact ⟨.same, hsound⟩
  | loop todo =>
    cases todo with
    | nil => exact ⟨.same, trivial⟩
    | cons x todo =>
      obtain ⟨hsame, hsound⟩ := h.look tenant hs
      rw [hsame]
      exact ⟨.same, hsound⟩
  | apply next todo => exact h.execute
  | done result => exact ⟨.same, trivial⟩

/-! ## Every interleaving -/

/-- What holds of a tenant's schema and of all its runs. -/
structure System.Good (x : System) : Prop where
  shaped  : x.schema.Shaped
  covered : x.schema.Covered
  sound   : ∀ r ∈ x.runs, r.Sound x.schema

theorem System.Good.next {x : System} (h : x.Good) (a : Act) :
    (x.next tenant a).Good ∧ Change x.schema (x.next tenant a).schema := by
  cases a with
  | enter =>
    refine ⟨⟨h.shaped, h.covered, fun r hr => ?_⟩, .same⟩
    rcases List.mem_append.1 hr with hr | hr
    · exact h.sound r hr
    · rw [List.mem_singleton.1 hr]
      trivial
  | step i =>
    cases hr : x.runs[i]? with
    | none =>
      rw [System.next, hr]
      exact ⟨h, .same⟩
    | some r =>
      obtain ⟨hc, hsound⟩ := (h.sound r (List.mem_of_getElem? hr)).step tenant h.shaped
      rw [System.next, hr]
      refine ⟨⟨hc.shaped h.shaped, hc.covered h.covered, fun r' hr' => ?_⟩, hc⟩
      rcases List.mem_or_eq_of_mem_set hr' with hr' | rfl
      · exact (h.sound r' hr').mono hc
      · exact hsound
  | crash i =>
    refine ⟨⟨h.shaped, h.covered, fun r hr => ?_⟩, .same⟩
    rcases List.mem_or_eq_of_mem_set hr with hr | rfl
    · exact h.sound r hr
    · trivial

/-- A version is left alone or moved on by one. -/
theorem Change.version (h : Change s s') :
    s'.version = s.version ∨ ∃ n : Nat, s.version = toString n ∧ s'.version = toString (n + 1) := by
  cases h with
  | same => exact .inl rfl
  | key _ => exact .inl rfl
  | column _ => exact .inl rfl
  | two hv _ => exact .inr ⟨1, hv, rfl⟩
  | three hv _ => exact .inr ⟨2, hv, rfl⟩

def Steps (tenant : Text) (x : System) (a : Act) (x' : System) : Prop := x' = x.next tenant a

/-- A tenant whose schema is as a version promises, before anybody admits it. -/
structure System.Installed (x : System) : Prop where
  shaped  : x.schema.Shaped
  covered : x.schema.Covered
  runs    : x.runs = []

theorem System.Installed.good {x : System} (h : x.Installed) : x.Good :=
  ⟨h.shaped, h.covered, fun r hr => by rw [h.runs] at hr; cases hr⟩

theorem System.Good.run {x₀ x : System} {tr : List (System × Act × System)} (h₀ : x₀.Good)
    (h : Sys.Run (Steps tenant) x₀ tr x) : x.Good := by
  refine Sys.Run.invariant (I := System.Good) h₀ (fun x a x' hx hst => ?_) h
  rw [hst]
  exact (hx.next a).1

/-! ## A run by itself -/

/-- A run that nobody disturbs. -/
def alone (tenant : Text) (p : Schema × Upgrade) : Schema × Upgrade := p.2.step tenant p.1

/-- One state of an undisturbed run leads to another. -/
def Leads (tenant : Text) (p q : Schema × Upgrade) : Prop := ∃ t, (alone tenant)^[t] p = q

theorem Leads.trans {p q u : Schema × Upgrade} (h : Leads tenant p q) (h' : Leads tenant q u) : Leads tenant p u := by
  obtain ⟨t, rfl⟩ := h
  obtain ⟨t', rfl⟩ := h'
  exact ⟨t' + t, Function.iterate_add_apply ..⟩

theorem Leads.one {p q : Schema × Upgrade} (h : alone tenant p = q) : Leads tenant p q := ⟨1, h⟩

theorem leads_skip {m : Migration} {statement : Text} {todo : List (Migration × Text)}
    (h : alreadyApplied s m.version statement = .ok true) :
    Leads tenant (s, .loop ((m, statement) :: todo)) (s, .loop todo) := .one (step_loop h)

theorem leads_apply {m : Migration} {statement : Text} {todo : List (Migration × Text)}
    (h : alreadyApplied s m.version statement = .ok false) (he : execContext statement s = .ok s') :
    Leads tenant (s, .loop ((m, statement) :: todo)) (s', .loop todo) :=
  Leads.trans (.one (step_loop h)) (.one (step_apply he))

theorem leads_addKey (hs : s.Shaped) :
    Leads tenant (s, .loop (work.drop 0)) ({ s with retention := some retentionColumns }, .loop (work.drop 1)) := by
  have hlook := alreadyApplied_addKey hs
  cases hr : s.retention with
  | none =>
    rw [hr] at hlook
    exact leads_apply hlook ((execContext_addKey s).trans (if_neg (by simp [hr])))
  | some columns =>
    have hsame : { s with retention := some retentionColumns } = s := by
      rw [← hs.retention columns hr, ← hr]
    rw [hr] at hlook
    rw [hsame]
    exact leads_skip hlook

theorem leads_setTwo (s : Schema) : Leads tenant (s, .loop (work.drop 1))
    (if s.version = "1" then { s with version := "2" } else s, .loop (work.drop 2)) :=
  leads_apply (alreadyApplied_setTwo s) (execContext_setTwo s)

theorem leads_addDescription (hs : s.Shaped) : Leads tenant (s, .loop (work.drop 2))
    ({ s with description := some descriptionColumn }, .loop (work.drop 3)) := by
  have hlook := alreadyApplied_addDescription hs
  cases hr : s.description with
  | none =>
    rw [hr] at hlook
    exact leads_apply hlook ((execContext_addDescription s).trans (if_neg (by simp [hr])))
  | some column =>
    have hsame : { s with description := some descriptionColumn } = s := by
      rw [← hs.description column hr, ← hr]
    rw [hr] at hlook
    rw [hsame]
    exact leads_skip hlook

theorem leads_setThree (s : Schema) : Leads tenant (s, .loop (work.drop 3))
    (if s.version = "2" then { s with version := "3" } else s, .loop (work.drop 4)) :=
  leads_apply (alreadyApplied_setThree s) (execContext_setThree s)

/-- A run ends well by itself: it succeeds, at the version it is to reach. -/
def EndsWell (tenant : Text) (p : Schema × Upgrade) : Prop :=
  ∃ s', Leads tenant p (s', .done (.ok ())) ∧ s'.version = schemaVersion

theorem EndsWell.of_leads {p q : Schema × Upgrade} (h : Leads tenant p q) (hq : EndsWell tenant q) :
    EndsWell tenant p := by
  obtain ⟨s', hl, hv⟩ := hq
  exact ⟨s', h.trans hl, hv⟩

theorem endsWell_verify (h : s.version = schemaVersion) : EndsWell tenant (s, .loop []) := by
  refine ⟨s, .one ?_, h⟩
  show (s, Upgrade.done (if s.version ≠ schemaVersion then _ else _)) = _
  rw [if_neg (not_not.2 h)]

theorem endsWell_last (hs : s.Shaped) (hv : s.version = "2" ∨ s.version = "3") :
    EndsWell tenant (s, .loop (work.drop 2)) := by
  refine .of_leads (leads_addDescription hs) (.of_leads (leads_setThree _) (endsWell_verify ?_))
  rcases hv with hv | hv
  · rw [if_pos hv]
    rfl
  · rw [if_neg (by rw [hv]; decide)]
    exact hv

theorem endsWell_both (hs : s.Shaped) (hv : s.version = "1" ∨ s.version = "2" ∨ s.version = "3") :
    EndsWell tenant (s, .loop (work.drop 0)) := by
  refine .of_leads (leads_addKey hs) (.of_leads (leads_setTwo _) ?_)
  have hkey : ({ s with retention := some retentionColumns } : Schema).Shaped :=
    ⟨fun columns hc => (Option.mem_some.1 hc).symm, hs.description⟩
  rcases hv with hv | hv | hv
  · rw [if_pos hv]
    exact endsWell_last ⟨hkey.retention, hkey.description⟩ (.inl rfl)
  · rw [if_neg (by rw [hv]; decide)]
    exact endsWell_last hkey (.inl hv)
  · rw [if_neg (by rw [hv]; decide)]
    exact endsWell_last hkey (.inr hv)

theorem step_start {current : String} {version : Int} {m : Migration} {migrations : List Migration}
    (hv : parseVersion "current" current = .ok version)
    (hp : pendingBetween (tenantMigrations tenant) version 3 = .ok (m :: migrations)) :
    (Upgrade.start current).step tenant s =
      (s, .loop ((m :: migrations).flatMap (fun m => (splitDDL m.ddl).map (Prod.mk m)))) := by
  rw [Upgrade.step, pending_eq, hv, Except.bind, hp]

/-- A run that is given a version the schema has, or had, ends well. -/
theorem endsWell_start {m n : Nat} (hs : s.Shaped) (hv : s.version = toString n) (hm : 1 ≤ m) (hmn : m ≤ n)
    (hn : n ≤ 3) : EndsWell tenant (s, .start (toString m)) := by
  have hcases : n = 1 ∨ n = 2 ∨ n = 3 := by omega
  have hversion : s.version = "1" ∨ s.version = "2" ∨ s.version = "3" := by
    rcases hcases with rfl | rfl | rfl
    · exact .inl hv
    · exact .inr (.inl hv)
    · exact .inr (.inr hv)
  obtain rfl | rfl | rfl : m = 1 ∨ m = 2 ∨ m = 3 := by omega
  · refine .of_leads (.one ((step_start rfl pendingBetween_one).trans ?_)) (endsWell_both hs hversion)
    rw [flatMap_splitDDL_both]
  · refine .of_leads (.one ((step_start rfl pendingBetween_two).trans ?_)) (endsWell_last hs ?_)
    · rw [flatMap_splitDDL_last]
    · rcases hversion with h1 | h
      · have : n = 1 := Nat.repr_inj.1 (hv.symm.trans h1)
        omega
      · exact h
  · obtain rfl : n = 3 := by omega
    exact ⟨s, .one rfl, hv⟩

/-- **Upgrades can be interrupted and repeated.**  Whatever runs there are and wherever they stop, a version promises
only what is there, and moves on by one at a time; and a run by itself, with any version up to the schema's own, gets to
the version this build requires. -/
theorem upgrades_restartable {x₀ x : System} {tr : List (System × Act × System)} (h₀ : x₀.Installed)
    (h : Sys.Run (Steps tenant) x₀ tr x) :
    (∀ n : Nat, x.schema.version = toString n → ∀ k, 2 ≤ k → k ≤ n → x.schema.Has k) ∧
    (∀ y ∈ tr, y.2.2.schema.version = y.1.schema.version ∨
      ∃ n : Nat, y.1.schema.version = toString n ∧ y.2.2.schema.version = toString (n + 1)) ∧
    (∀ n : Nat, x.schema.version = toString n → n ≤ 3 →
      ∀ m : Nat, 1 ≤ m → m ≤ n → EndsWell tenant (x.schema, .start (toString m))) := by
  have hgood := h₀.good.run h
  refine ⟨fun n hn k _ hk => ?_, fun y hy => ?_, fun n hn hle m hm hmn => ?_⟩
  · obtain ⟨n', -, hn', hhas⟩ := hgood.covered
    obtain rfl : n = n' := Nat.repr_inj.1 (hn.symm.trans hn')
    exact hhas k hk
  · obtain ⟨pre, -, hpre, hstep⟩ := h.mem_step hy
    rw [hstep]
    exact ((h₀.good.run hpre).next y.2.1).2.version
  · exact endsWell_start hgood.shaped hn hm hmn hle

def firstSchema : Schema := ⟨"1", none, none⟩

/-- An instance that stopped before it did anything, and one that comes after it. -/
theorem upgrades_restartable_first : EndsWell [] (firstSchema, .start "1") := by
  have hi : System.Installed ⟨firstSchema, []⟩ :=
    ⟨⟨by simp [firstSchema], by simp [firstSchema]⟩,
      ⟨1, le_refl 1, rfl, fun k hk => ⟨fun h => by omega, fun h => by omega⟩⟩, rfl⟩
  have hrun : Sys.Run (Steps []) ⟨firstSchema, []⟩ _ _ :=
    (Sys.Run.nil.snoc (a := .enter) rfl).snoc (a := .crash 0) rfl
  exact (upgrades_restartable hi hrun).2.2 1 rfl (by decide) 1 (le_refl 1) (le_refl 1)

end TenantMigration
end GoJob
