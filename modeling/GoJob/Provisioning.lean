import GoJob.Body
import GoJob.Cutover
import GoJob.Migration
/-!
# Provisioning — a schema is there as a whole or not at all (`provision.go`, `admit.go`)

`provisionTenant` counts the tables, applies the stream of migrations statement by statement, and inserts the identity
row last.  Each statement commits by itself, any number of requests may be at work on one database, and each of them may
stop anywhere.  What admission asks for is the identity row, and that row is there only if everything before it is: the
second request of two fails at the first table, and a database that was left half way is never claimed.
-/
namespace GoJob
namespace Provision

open TenantMigration (Sql Column meaning splitDDL executionRetention handlerDescriptions retentionColumns
  descriptionColumn schemaVersion)
open Cron (Text)
open Admin (Refusal requireReason checkDatabaseName resolveDSN trimSpace)
open Sys (Run)

/-! ## The database -/

inductive Table
  | schemaIdentity | jobDefinition | jobState | jobExecution | jobExecutionAttempt | jobExecutor | jobExecutorHandler
  | jobAudit
  deriving DecidableEq, Repr

def Table.name : Table → String
  | .schemaIdentity      => "schema_identity"
  | .jobDefinition       => "job_definition"
  | .jobState            => "job_state"
  | .jobExecution        => "job_execution"
  | .jobExecutionAttempt => "job_execution_attempt"
  | .jobExecutor         => "job_executor"
  | .jobExecutorHandler  => "job_executor_handler"
  | .jobAudit            => "job_audit"

/-- The tables, in the order `001_tenant.sql` creates them. -/
def tables : List Table :=
  [.schemaIdentity, .jobDefinition, .jobState, .jobExecution, .jobExecutionAttempt, .jobExecutor, .jobExecutorHandler,
   .jobAudit]

/-- The row of `schema_identity`. -/
structure Identity where
  tenant  : String
  uuid    : String
  version : String
  deriving DecidableEq, Repr

/-- The tables that were created, what the later migrations add to them, and the identity row. -/
structure Database where
  tables      : List Table
  retention   : Option (List String)
  description : Option Column
  identity    : Option Identity
  deriving DecidableEq, Repr

def Database.empty : Database := ⟨[], none, none, none⟩

inductive Statement
  | setNames
  | create (t : Table)
  | later (s : Sql)
  deriving DecidableEq, Repr

/-- A statement of the stream, with what an error of it names. -/
structure Piece where
  migration : String
  line      : String
  statement : Statement
  deriving DecidableEq, Repr

/-- `001_tenant.sql`. -/
def tenantPieces : List Piece :=
  ⟨"001_tenant.sql", "SET NAMES utf8mb4", .setNames⟩ ::
    tables.map (fun t => ⟨"001_tenant.sql", "CREATE TABLE " ++ t.name ++ " (", .create t⟩)

def firstLineOf (statement : Text) : Text := Cron.trimSpace ((statement.takeWhile (· ≠ '\n')).take 80)

/-- The statements that an upgrade may run too. -/
def laterPieces : List Piece :=
  [executionRetention, handlerDescriptions].flatMap fun m => (splitDDL m.ddl).filterMap fun text =>
    (List.lookup text meaning).map fun sql => ⟨m.name, String.ofList (firstLineOf text), .later sql⟩

/-- `TenantMigrations`, split. -/
def stream : List Piece := tenantPieces ++ laterPieces

def missing (t : Table) : String := "Table '" ++ t.name ++ "' doesn't exist"

/-- The database runs a statement.  An `UPDATE` of no row is not an error. -/
def Statement.run : Statement → Database → Except String Database
  | .setNames, db => .ok db
  | .create t, db =>
    if t ∈ db.tables then .error ("Table '" ++ t.name ++ "' already exists")
    else .ok { db with tables := db.tables ++ [t] }
  | .later (.addKey columns), db =>
    if .jobExecution ∉ db.tables then .error (missing .jobExecution)
    else if db.retention.isSome then .error "Duplicate key name 'idx_job_execution_retention'"
    else .ok { db with retention := some columns }
  | .later (.addColumn column), db =>
    if .jobExecutorHandler ∉ db.tables then .error (missing .jobExecutorHandler)
    else if db.description.isSome then .error "Duplicate column name 'description'"
    else .ok { db with description := some column }
  | .later (.setVersion was now), db =>
    if .schemaIdentity ∉ db.tables then .error (missing .schemaIdentity)
    else .ok { db with identity := db.identity.map fun r => if r.version = was then { r with version := now } else r }

def insertIdentity (tenant uuid : String) (db : Database) : Except String Database :=
  if .schemaIdentity ∉ db.tables then .error (missing .schemaIdentity)
  else if db.identity.isSome then .error "Duplicate entry '1' for key 'schema_identity.PRIMARY'"
  else .ok { db with identity := some ⟨tenant, uuid, schemaVersion⟩ }

/-- How many of the four tables that `provisionTenant` counts are there. -/
def Database.counted (db : Database) : Nat :=
  (db.tables.filter (· ∈ [Table.schemaIdentity, .jobDefinition, .jobState, .jobExecution])).length

/-! ## Admission -/

inductive Inadmissible
  | schemaIdentity (detail : String)
  | schemaVersion (detail : String)
  | timeZone (detail : String)
  deriving DecidableEq, Repr

/-- `IdentityVersion`. -/
def identityVersion (db : Database) (tenant expectUUID : String) : Except Inadmissible String :=
  if .schemaIdentity ∉ db.tables then
    .error (.schemaIdentity ("reading identity of " ++ tenant ++ ": " ++ missing .schemaIdentity))
  else match db.identity with
    | none => .error (.schemaIdentity (tenant ++ " has no identity row; it is an empty or unprovisioned schema"))
    | some r =>
      if r.tenant ≠ tenant then
        .error (.schemaIdentity ("registry says " ++ tenant.quote ++ ", the schema says " ++ r.tenant.quote ++
          " — the DSN points at another tenant"))
      else if r.uuid ≠ expectUUID then
        .error (.schemaIdentity (tenant ++ " expects schema " ++ expectUUID ++ ", found " ++ r.uuid ++
          " — a restored snapshot, or a schema re-provisioned without updating the registry"))
      else .ok r.version

/-- `Admit`, where `clock` is what `assertClockContract` finds. -/
def admitted (db : Database) (tenant expectUUID : String) (clock : Except Inadmissible Unit) :
    Except Inadmissible Unit := do
  let version ← identityVersion db tenant expectUUID
  if version ≠ schemaVersion then
    .error (.schemaVersion (tenant ++ " is schema version " ++ version ++ ", this build requires " ++ schemaVersion))
  else clock

/-! ## A request -/

structure Body where
  dsn      : String
  database : String
  tenant   : String
  reason   : String
  deriving DecidableEq, Repr

/-- Where a `provisionTenant` stands. -/
inductive Stage
  | asked
  | applying (todo : List Piece)
  | claiming (uuid : String)
  | answered (result : Except Refusal String)

/-- What is checked before the database is opened. -/
def enter (dsnFor : Option (String → String)) (b : Body) : Except Refusal String := do
  requireReason b.reason
  (checkIdentifier "tenant" b.tenant 64).mapError .badRequest
  let dsn ← resolveDSN dsnFor b.dsn b.database
  if b.dsn = "" ∧ dsnFor.isSome then checkDatabaseName (trimSpace b.database)
  return dsn

/-- The next statement of a request; `uuid` is what `SELECT UUID()` would say. -/
def Stage.step (dsnFor : Option (String → String)) (b : Body) (uuid : String) (db : Database) :
    Stage → Database × Stage
  | .asked =>
    match enter dsnFor b with
    | .error e => (db, .answered (.error e))
    | .ok _ =>
      if 0 < db.counted then
        (db, .answered (.error (.protocol ("that database already holds " ++ toString db.counted ++
          " of go-job's tables; provisioning is for an empty schema, and finishing a partial one by hand is safer " ++
          "than guessing"))))
      else (db, .applying stream)
  | .applying [] => (db, .claiming uuid)
  | .applying (p :: todo) =>
    match p.statement.run db with
    | .error e => (db, .answered (.error (.protocol ("applying tenant migration " ++ p.migration ++ " failed at " ++
        p.line.quote ++ ": " ++ e))))
    | .ok db'  => (db', .applying todo)
  | .claiming minted =>
    match insertIdentity b.tenant minted db with
    | .error e => (db, .answered (.error (.protocol ("claiming the schema for " ++ b.tenant.quote ++ ": " ++ e))))
    | .ok db'  => (db', .answered (.ok minted))
  | .answered result => (db, .answered result)

/-- A request that is not over ends with an error. -/
def Stage.stop (e : Refusal) : Stage → Stage
  | .answered result => .answered result
  | _ => .answered (.error e)

/-! ## Any number of requests -/

structure System where
  db    : Database
  calls : List (Body × Stage)

inductive Act
  | ask (b : Body)
  | step (i : Nat) (uuid : String)
  /-- The statement runs, and its answer does not arrive. -/
  | lose (i : Nat) (uuid : String)
  /-- The request stops, or something else it asks for fails. -/
  | fail (i : Nat) (e : Refusal)

def System.next (dsnFor : Option (String → String)) (x : System) : Act → Option System
  | .ask b => some { x with calls := x.calls ++ [(b, .asked)] }
  | .step i uuid => x.calls[i]?.map fun (b, s) =>
    ⟨(s.step dsnFor b uuid x.db).1, x.calls.set i (b, (s.step dsnFor b uuid x.db).2)⟩
  | .lose i uuid => x.calls[i]?.map fun (b, s) =>
    ⟨(s.step dsnFor b uuid x.db).1, x.calls.set i (b, s.stop (.protocol "invalid connection"))⟩
  | .fail i e => x.calls[i]?.map fun (b, s) => { x with calls := x.calls.set i (b, s.stop e) }

def System.init : System := ⟨.empty, []⟩

def Steps (dsnFor : Option (String → String)) (x : System) (a : Act) (x' : System) : Prop := x.next dsnFor a = some x'

/-! ## How far the database is -/

/-- The database after the first `k` statements. -/
def built (k : Nat) : Database where
  tables      := tables.take (k - 1)
  retention   := if 10 ≤ k then some retentionColumns else none
  description := if 12 ≤ k then some descriptionColumn else none
  identity    := none

theorem laterPieces_eq : laterPieces =
    [⟨"002_execution_retention.sql", "ALTER TABLE job_execution", .later (.addKey retentionColumns)⟩,
     ⟨"002_execution_retention.sql", "UPDATE schema_identity", .later (.setVersion "1" "2")⟩,
     ⟨"003_handler_descriptions.sql", "ALTER TABLE job_executor_handler", .later (.addColumn descriptionColumn)⟩,
     ⟨"003_handler_descriptions.sql", "UPDATE schema_identity", .later (.setVersion "2" "3")⟩] := by
  decide +kernel

theorem stream_run : ∀ k < 13, ∃ p, stream.drop k = p :: stream.drop (k + 1) ∧
    p.statement.run (built k) = .ok (built (k + 1)) := by
  have hlen : stream.length = 13 := by
    rw [stream, laterPieces_eq]
    rfl
  have hrun : ∀ k : Fin 13, (stream[k.val]?.map fun p => p.statement.run (built k)) = some (.ok (built (k + 1))) := by
    rw [stream, laterPieces_eq]
    decide +kernel
  intro k hk
  have hlt : k < stream.length := hlen ▸ hk
  refine ⟨stream[k], List.drop_eq_getElem_cons hlt, ?_⟩
  have := hrun ⟨k, hk⟩
  simpa [List.getElem?_eq_getElem hlt] using this

theorem stream_first : stream = ⟨"001_tenant.sql", "SET NAMES utf8mb4", .setNames⟩ :: stream.drop 1 :=
  rfl

theorem stream_second : stream.drop 1 =
    ⟨"001_tenant.sql", "CREATE TABLE schema_identity (", .create .schemaIdentity⟩ :: stream.drop 2 :=
  rfl

theorem drop_all : stream.drop 13 = [] := by
  rw [stream, laterPieces_eq]
  rfl

/-- The database is `k` statements into the stream; the last step is the identity row. -/
inductive Form : Nat → Database → Prop
  | unclaimed {k : Nat} (h₁ : 1 ≤ k) (h₂ : k ≤ 13) : Form k (built k)
  | claimed (tenant uuid : String) : Form 14 { built 13 with identity := some ⟨tenant, uuid, schemaVersion⟩ }

theorem Form.first {db : Database} (h : Form 1 db) : db = built 1 := by
  cases h
  rfl

/-- The tables are created in order, and the first one is among those that are counted. -/
theorem Form.begun {k : Nat} {db : Database} (h : Form k db) (hk : k ≠ 1) :
    Table.schemaIdentity ∈ db.tables ∧ 0 < db.counted := by
  have hall : ∀ k : Fin 14, 2 ≤ k.val → Table.schemaIdentity ∈ (built k).tables ∧ 0 < (built k).counted := by
    decide +kernel
  cases h with
  | unclaimed h₁ h₂ => exact hall ⟨k, by omega⟩ (by simp; omega)
  | claimed => exact hall 13 (by decide)

/-- A request that has created nothing so far. -/
inductive Behind : Stage → Prop
  | asked : Behind .asked
  | ready : Behind (.applying stream)
  | first : Behind (.applying (stream.drop 1))
  | refused (e : Refusal) : Behind (.answered (.error e))

/-- The request that brought the database to where it is. -/
inductive Ahead (b : Body) : Nat → Database → Stage → Prop
  | applying {k : Nat} (h₁ : 2 ≤ k) (h₂ : k ≤ 13) : Ahead b k (built k) (.applying (stream.drop k))
  | claiming (uuid : String) : Ahead b 13 (built 13) (.claiming uuid)
  | answered (uuid : String) :
      Ahead b 14 { built 13 with identity := some ⟨b.tenant, uuid, schemaVersion⟩ } (.answered (.ok uuid))

theorem Ahead.two_le {b : Body} {k : Nat} {db : Database} {s : Stage} (h : Ahead b k db s) : 2 ≤ k := by
  cases h with
  | applying h₁ _ => exact h₁
  | claiming | answered => decide

variable (dsnFor : Option (String → String)) (uuid : String) {b : Body} {db : Database} {k : Nat} {s : Stage}

/-- **A request that is behind stays behind**, unless it is the first to create a table. -/
theorem Behind.step (b : Body) (h : Behind s) (hf : Form k db) :
    (∃ s', s.step dsnFor b uuid db = (db, s') ∧ Behind s') ∨
      k = 1 ∧ s.step dsnFor b uuid db = (built 2, .applying (stream.drop 2)) := by
  cases h with
  | asked =>
    refine .inl ?_
    cases he : enter dsnFor b with
    | error e => exact ⟨_, by simp only [Stage.step, he], .refused e⟩
    | ok dsn =>
      simp only [Stage.step, he]
      split
      · exact ⟨_, rfl, .refused _⟩
      · exact ⟨_, rfl, .ready⟩
  | ready =>
    refine .inl ⟨.applying (stream.drop 1), ?_, .first⟩
    rw [stream_first]
    rfl
  | first =>
    rw [stream_second]
    by_cases hk : k = 1
    · subst hk
      refine .inr ⟨rfl, ?_⟩
      rw [hf.first]
      rfl
    · refine .inl ?_
      simp only [Stage.step, Statement.run, if_pos (hf.begun hk).1]
      exact ⟨_, rfl, .refused _⟩
  | refused e => exact .inl ⟨_, rfl, .refused e⟩

/-- **The request that is ahead takes the database with it.** -/
theorem Ahead.step (h : Ahead b k db s) :
    ∃ k' db' s', s.step dsnFor b uuid db = (db', s') ∧ Form k' db' ∧ Ahead b k' db' s' ∧
      ∀ id, db.identity = some id → db'.identity = some id := by
  cases h with
  | @applying k h₁ h₂ =>
    by_cases hk : k = 13
    · subst hk
      rw [drop_all]
      exact ⟨13, _, _, rfl, .unclaimed (by decide) (by decide), .claiming uuid, fun _ h => h⟩
    · obtain ⟨p, hp, hrun⟩ := stream_run k (by omega)
      refine ⟨k + 1, built (k + 1), .applying (stream.drop (k + 1)), ?_, .unclaimed (by omega) (by omega),
        .applying (by omega) (by omega), fun _ h => ?_⟩
      · simp only [hp, Stage.step, hrun]
      · cases h
  | claiming minted =>
    exact ⟨14, _, _, rfl, .claimed b.tenant minted, .answered minted, fun _ h => by cases h⟩
  | answered minted => exact ⟨14, _, _, rfl, .claimed b.tenant minted, .answered minted, fun _ h => h⟩

theorem Stage.stop_cases (b : Body) (db : Database) (e : Refusal) (s : Stage) :
    s.stop e = (s.step dsnFor b uuid db).2 ∨ Behind (s.stop e) := by
  cases s with
  | answered result => exact .inl rfl
  | asked | applying | claiming => exact .inr (.refused e)

/-! ## Every interleaving -/

/-- **One request at most got further than the first table**: `o` is the one, and the database is where it stands. -/
structure Inv (o k : Nat) (x : System) : Prop where
  form  : Form k x.db
  calls : ∀ i b s, x.calls[i]? = some (b, s) → Behind s ∨ i = o ∧ Ahead b k x.db s

variable {o i : Nat} {x x' : System} {tr : List (System × Act × System)}

theorem Inv.set {o' k' : Nat} {db' : Database} {s' : Stage} (hf : Form k' db')
    (hs : Behind s' ∨ i = o' ∧ Ahead b k' db' s')
    (hrest : ∀ j ≠ i, ∀ b s, x.calls[j]? = some (b, s) → Behind s ∨ j = o' ∧ Ahead b k' db' s) :
    Inv o' k' ⟨db', x.calls.set i (b, s')⟩ := by
  refine ⟨hf, fun j c t hj => ?_⟩
  by_cases hji : j = i
  · subst hji
    obtain ⟨rfl, rfl⟩ : b = c ∧ s' = t := by
      rw [List.getElem?_set_self'] at hj
      cases hx : x.calls[j]? <;> simp_all
    exact hs
  · rw [List.getElem?_set_ne (Ne.symm hji)] at hj
    exact hrest j hji c t hj

/-- **What a statement of one request does**, whether or not the request hears of it. -/
theorem Inv.statement (h : Inv o k x) (hi : x.calls[i]? = some (b, s)) :
    ∃ o' k', (∀ t, t = (s.step dsnFor b uuid x.db).2 ∨ Behind t →
        Inv o' k' ⟨(s.step dsnFor b uuid x.db).1, x.calls.set i (b, t)⟩) ∧
      ∀ id, x.db.identity = some id → (s.step dsnFor b uuid x.db).1.identity = some id := by
  rcases h.calls i b s hi with hb | ⟨rfl, ha⟩
  · rcases hb.step dsnFor uuid b h.form with ⟨s', hst, hb'⟩ | ⟨rfl, hst⟩
    · rw [hst]
      refine ⟨o, k, fun t ht => .set h.form (.inl ?_) fun j _ => h.calls j, fun _ hid => hid⟩
      rcases ht with rfl | ht
      · exact hb'
      · exact ht
    · -- nobody else is ahead of the first statement
      rw [hst]
      refine ⟨i, 2, fun t ht => .set (.unclaimed (by decide) (by decide)) ?_ fun j hj c r hr => ?_, fun _ hid => ?_⟩
      · rcases ht with rfl | ht
        · exact .inr ⟨rfl, .applying (by decide) (by decide)⟩
        · exact .inl ht
      · rcases h.calls j c r hr with hb' | ⟨-, ha⟩
        · exact .inl hb'
        · exact absurd ha.two_le (by decide)
      · rw [h.form.first] at hid
        cases hid
  · obtain ⟨k', db', s', hst, hf, ha', hkept⟩ := ha.step dsnFor uuid
    rw [hst]
    refine ⟨i, k', fun t ht => .set hf ?_ fun j hj c r hr => ?_, hkept⟩
    · rcases ht with rfl | ht
      · exact .inr ⟨rfl, ha'⟩
      · exact .inl ht
    · exact (h.calls j c r hr).imp_right fun hjo => absurd hjo.1 hj

theorem Inv.next {a : Act} (h : Inv o k x) (hst : Steps dsnFor x a x') :
    ∃ o' k', Inv o' k' x' ∧ ∀ id, x.db.identity = some id → x'.db.identity = some id := by
  cases a with
  | ask b =>
    cases hst
    refine ⟨o, k, ⟨h.form, fun j c t hj => ?_⟩, fun _ hid => hid⟩
    rw [List.getElem?_append] at hj
    split at hj
    · exact h.calls j c t hj
    · cases List.mem_singleton.1 (List.mem_of_getElem? hj)
      exact .inl .asked
  | step j uuid =>
    obtain ⟨⟨b, s⟩, hj, rfl⟩ := Option.map_eq_some_iff.1 hst
    obtain ⟨o', k', hinv, hkept⟩ := h.statement dsnFor uuid hj
    exact ⟨o', k', hinv _ (.inl rfl), hkept⟩
  | lose j uuid =>
    obtain ⟨⟨b, s⟩, hj, rfl⟩ := Option.map_eq_some_iff.1 hst
    obtain ⟨o', k', hinv, hkept⟩ := h.statement dsnFor uuid hj
    exact ⟨o', k', hinv _ (Stage.stop_cases dsnFor uuid b x.db _ s), hkept⟩
  | fail j e =>
    obtain ⟨⟨b, s⟩, hj, rfl⟩ := Option.map_eq_some_iff.1 hst
    refine ⟨o, k, .set h.form ?_ fun j _ => h.calls j, fun _ hid => hid⟩
    cases s with
    | answered result => exact h.calls j b _ hj
    | asked | applying | claiming => exact .inl (.refused e)

theorem Inv.run (h : Run (Steps dsnFor) .init tr x) :
    ∃ o k, Inv o k x ∧ ∀ y ∈ tr, ∀ id, y.1.db.identity = some id → x.db.identity = some id := by
  refine Run.history (J := fun tr x => ∃ o k, Inv o k x ∧
    ∀ y ∈ tr, ∀ id, y.1.db.identity = some id → x.db.identity = some id) ?_ ?_ h
  · exact ⟨0, 1, ⟨.unclaimed (by decide) (by decide), fun i b s hi => by cases hi⟩, fun y hy => by cases hy⟩
  · rintro tr x a x' _ ⟨o, k, hinv, hkept⟩ hst
    obtain ⟨o', k', hinv', hnext⟩ := hinv.next dsnFor hst
    refine ⟨o', k', hinv', fun y hy id hid => hnext id ?_⟩
    rcases List.mem_append.1 hy with hy | hy
    · exact hkept y hy id hid
    · rw [List.mem_singleton.1 hy] at hid
      exact hid

/-- The schema as the build that provisioned it needs it. -/
def whole (tenant uuid : String) : Database :=
  ⟨tables, some retentionColumns, some descriptionColumn, some ⟨tenant, uuid, schemaVersion⟩⟩

theorem Ahead.whole {t : String} (h : Ahead b k db (.answered (.ok t))) : db = whole b.tenant t := by
  cases h
  rfl

/-- What an upgrade of the schema looks at. -/
def Database.schema (db : Database) : Option TenantMigration.Schema :=
  db.identity.map fun r => ⟨r.version, db.retention, db.description⟩

theorem whole_installed : (⟨⟨schemaVersion, some retentionColumns, some descriptionColumn⟩, []⟩ :
    TenantMigration.System).Installed where
  shaped := ⟨fun _ h => (Option.some.inj h).symm, fun _ h => (Option.some.inj h).symm⟩
  covered := ⟨3, by decide, rfl, fun _ _ => ⟨fun _ => rfl, fun _ => rfl⟩⟩
  runs := rfl

theorem Form.whole_of_admitted {tenant expectUUID : String} {clock : Except Inadmissible Unit} (hf : Form k db)
    (h : admitted db tenant expectUUID clock = .ok ()) : db = whole tenant expectUUID := by
  obtain ⟨version, hid, -⟩ := Admin.bind_ok.1 h
  unfold identityVersion at hid
  split at hid
  · cases hid
  cases hf with
  | unclaimed => cases hid
  | claimed t u =>
    dsimp only at hid
    split at hid
    · cases hid
    split at hid
    · cases hid
    · rename_i ht hu
      rw [not_not.1 ht, not_not.1 hu]
      rfl

/-- **A schema is admitted as a whole or not at all.**  However many requests provision a database, in whatever order
their statements run and wherever they stop, a schema that `Admit` accepts has every table, key and column of the stream
and is one an upgrade may start from; its identity row is never replaced; one request at most is told that it
succeeded, and the row is its; and once a table is there, the count that a further request starts with is positive. -/
theorem admitted_as_a_whole (h : Run (Steps dsnFor) .init tr x) :
    (∀ tenant uuid clock, admitted x.db tenant uuid clock = .ok () → x.db = whole tenant uuid ∧
      ∃ schema, x.db.schema = some schema ∧ (⟨schema, []⟩ : TenantMigration.System).Installed) ∧
    (∀ y ∈ tr, ∀ id, y.1.db.identity = some id → x.db.identity = some id) ∧
    (∀ (i : Nat) (b : Body) (t : String), x.calls[i]? = some (b, .answered (.ok t)) → x.db = whole b.tenant t ∧
      ∀ (j : Nat) (c : Body) (u : String), x.calls[j]? = some (c, .answered (.ok u)) → j = i) ∧
    (x.db.tables ≠ [] → 0 < x.db.counted) := by
  obtain ⟨o, k, hinv, hkept⟩ := Inv.run dsnFor h
  have succeeded : ∀ (i : Nat) (b : Body) (t : String), x.calls[i]? = some (b, .answered (.ok t)) →
      i = o ∧ Ahead b k x.db (.answered (.ok t)) := fun i b t hi =>
    (hinv.calls i b _ hi).resolve_left fun hb => by cases hb
  refine ⟨fun tenant uuid clock hadm => ?_, hkept, fun i b t hi => ⟨?_, fun j c u hj => ?_⟩, fun hsome => ?_⟩
  · rw [hinv.form.whole_of_admitted hadm]
    exact ⟨rfl, _, rfl, whole_installed⟩
  · exact (succeeded i b t hi).2.whole
  · exact (succeeded j c u hj).1.trans (succeeded i b t hi).1.symm
  · refine (hinv.form.begun ?_).2
    rintro rfl
    rw [hinv.form.first] at hsome
    exact hsome rfl

/-- Two requests that overtake each other.  The first one to create a table goes on to the end. -/
def rivals : List Act :=
  [.ask ⟨"dsn", "", "blue", "new tenant"⟩, .ask ⟨"dsn", "", "blue", "once more"⟩, .step 0 "", .step 1 "", .step 0 "",
   .step 1 "", .step 1 "", .step 0 ""] ++ List.replicate 13 (.step 1 "u1")

theorem admitted_as_a_whole_rivals : ∃ tr x, Run (Steps none) .init tr x ∧
    admitted x.db "blue" "u1" (.ok ()) = .ok () ∧ x.db = whole "blue" "u1" := by
  obtain ⟨tr, x, hr, hq⟩ := Sys.play_checked (System.next none) .init rivals
    (fun _ x => decide (admitted x.db "blue" "u1" (.ok ()) = .ok ())) (by decide +kernel)
  have hadm := of_decide_eq_true hq
  exact ⟨tr, x, hr, hadm, ((admitted_as_a_whole none hr).1 "blue" "u1" (.ok ()) hadm).1⟩

end Provision
end GoJob
