import GoJob.Job
import GoJob.Table
/-!
# Control — the control database and the fence (`control/registry.go`, `control/admit.go`)

One database knows every tenant: where its schema is, whether it is enabled, and a generation that every change moves.
Each instance records there what it has applied.  A tenant is moved to another schema only when no instance that was
heard of lately has yet to acknowledge the disable.  An instance that has not read the registry lately is fenced.
-/
namespace GoJob
namespace Control

open Rel

/-- `control.Tenant`, a row of `tenant_registry`.  Generations start at 1. -/
structure Tenant where
  name       : String
  dsn        : String
  schemaUUID : String
  enabled    : Bool
  generation : Nat
  positive   : 0 < generation
  deriving DecidableEq

/-- A row of `tenant_observation`. -/
structure Observation where
  tenant     : String
  instanceId : String
  generation : Nat
  quiesced   : Bool
  observedAt : Utc
  deriving DecidableEq, Repr

def Observation.key (o : Observation) : String × String := (o.tenant, o.instanceId)

structure Store where
  registry     : Table Tenant.name
  observations : Table Observation.key

def Store.empty : Store := ⟨.empty, .empty⟩

inductive Err
  | protocol (detail : String)
  | notQuiesced (detail : String)
  | other (detail : String)
  deriving DecidableEq, Repr

/-- `Tenants`.  A row whose DSN this instance cannot decrypt is read as disabled. -/
def Store.tenants (s : Store) (unreadable : List String) : Table Tenant.name :=
  s.registry.update (fun t => decide (t.name ∈ unreadable)) (fun t => { t with enabled := false }) (fun _ => rfl)

def Store.currentGeneration (s : Store) (name : String) : Nat × Bool :=
  match s.registry.get? name with
  | none   => (0, false)
  | some t => (t.generation, t.enabled)

/-- The end of a transaction: `audit` fails it when nobody is named. -/
def audited (actor action : String) (s : Store) : Except Err Store :=
  if actor = "" then .error (.protocol ("control action " ++ action.quote ++ " with no actor")) else .ok s

def Store.addTenant (s : Store) (name dsn schemaUUID actor reason : String) : Except Err Store :=
  if reason = "" then .error (.protocol "adding a tenant needs a reason")
  else if name = "" ∨ dsn = "" ∨ schemaUUID = "" then
    .error (.protocol "a tenant needs a name, a DSN and the schema uuid it expects")
  else if h : name ∉ s.registry.rows.map Tenant.name then
    audited actor "tenant_added" { s with
      registry := s.registry.insert ⟨name, dsn, schemaUUID, true, 1, Nat.one_pos⟩ h }
  else .error (.other ("add tenant " ++ name.quote))

def Store.setTenantEnabled (s : Store) (name : String) (enabled : Bool) (actor reason : String) : Except Err Store :=
  if reason = "" then .error (.protocol "enabling or disabling a tenant needs a reason")
  else if (s.registry.get? name).any (fun t => decide (t.enabled ≠ enabled)) then
    audited actor (if enabled then "tenant_enabled" else "tenant_disabled") { s with
      registry := s.registry.modify name
        (fun t => { t with enabled := enabled, generation := t.generation + 1, positive := Nat.succ_pos _ })
        (fun _ => rfl) }
  else .error (.protocol ("tenant " ++ name.quote ++ " is already enabled=" ++ toString enabled))

def roundUpSeconds (d : Instant) : Int :=
  if (d + second - 1) / second < 1 then 1 else (d + second - 1) / second

/-- The database clock, when the time is `now`. -/
def utc (now : Instant) : Utc := now / second

/-- `observed_at >= TIMESTAMPADD(SECOND, -liveness, UTC_TIMESTAMP())`. -/
def Observation.live (o : Observation) (now liveness : Instant) : Bool :=
  decide (utc now - roundUpSeconds liveness ≤ o.observedAt)

/-- `blockersTx`: the live instances that have not acknowledged a generation as quiesced. -/
def Store.blockers (s : Store) (now : Instant) (name : String) (generation : Nat) (liveness : Instant) : List String :=
  ((s.observations.rows.filter (fun o => decide (o.tenant = name) && o.live now liveness &&
    !(decide (generation ≤ o.generation) && o.quiesced))).map Observation.instanceId).insertionSort (· ≤ ·)

/-- `SetTenantDSN`.  The caller says whether it found the old schema quiet. -/
def Store.setTenantDSN (s : Store) (now : Instant) (name dsn schemaUUID actor reason : String)
    (quiescedElsewhere : Bool) (liveness : Instant) : Except Err Store :=
  if reason = "" then .error (.protocol "re-pointing a tenant needs a reason")
  else if quiescedElsewhere = false then .error (.notQuiesced name)
  else match s.registry.get? name with
    | none => .error (.other ("read generation of " ++ name.quote))
    | some t =>
      if s.blockers now name t.generation liveness ≠ [] then
        .error (.notQuiesced (name ++ " is still held by " ++
          ", ".intercalate (s.blockers now name t.generation liveness)))
      else if t.enabled then
        .error (.notQuiesced ("tenant " ++ name.quote ++ " must be disabled before its DSN can change"))
      else audited actor "tenant_dsn_changed" { s with
        registry := s.registry.modify name (fun t => { t with
          dsn := dsn, schemaUUID := schemaUUID, generation := t.generation + 1, positive := Nat.succ_pos _ })
          (fun _ => rfl) }

def Store.observe (s : Store) (now : Instant) (name instanceId : String) (generation : Nat) (quiesced : Bool) : Store :=
  { s with observations := s.observations.upsert ⟨name, instanceId, generation, quiesced, utc now⟩ }

/-- `Fence.Check`, for the instant of the last `Refresh`. -/
def fenceHealthy (limit now : Instant) (lastRead : Option Instant) : Bool :=
  lastRead.any (fun t => decide (now - t ≤ limit))

end Control
end GoJob
