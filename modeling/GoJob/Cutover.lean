import GoJob.Generations
import GoJob.Quiescence
import GoJob.Sessions
/-!
# Cutover — moving a tenant to another schema (`repointTenant` of `admin/api.go`)

The handler asks several databases one after the other: the registry for the tenant's row, the old schema for what it
still has outstanding, the registry again for who has not acknowledged, the new schema for its identity.  Only the last
step, which writes the row, is a transaction, and it looks again at who has not acknowledged.  What the old schema said
is not looked at again, so it is about the schema that is replaced only if the tenant's generation has not moved since.
-/
namespace GoJob

open Rel Sys

/-! ## The handler -/

namespace Admin

/-- Why a request is refused: `errBadRequest`, `errNotFound`, an error of the control database, or any other error. -/
inductive Refusal
  | badRequest (detail : String)
  | notFound (detail : String)
  | control (e : Control.Err)
  | protocol (detail : String)
  | failed (detail : String)
  deriving DecidableEq, Repr

def requireReason (reason : String) : Except Refusal Unit :=
  if trimSpace reason = "" then .error (.badRequest "a reason is required; it is recorded in the audit log") else .ok ()

def databaseChar (c : Char) : Bool :=
  (decide ('a' ≤ c) && decide (c ≤ 'z')) || (decide ('A' ≤ c) && decide (c ≤ 'Z')) ||
    (decide ('0' ≤ c) && decide (c ≤ '9')) || decide (c = '_')

def checkDatabaseName (name : String) : Except Refusal Unit :=
  if name.utf8ByteSize = 0 ∨ 64 < name.utf8ByteSize then
    .error (.badRequest "database name must be 1 to 64 characters")
  else if name.toList.all databaseChar = false then
    .error (.badRequest "database name may contain only letters, digits and underscore")
  else if name.toList.head?.any (fun c => decide ('0' ≤ c) && decide (c ≤ '9')) then
    .error (.badRequest "database name must not start with a digit")
  else .ok ()

/-- `resolveDSN`.  `dsnFor` places a schema beside the control database, if the deployment can. -/
def resolveDSN (dsnFor : Option (String → String)) (dsn database : String) : Except Refusal String :=
  if trimSpace dsn ≠ "" then .ok (trimSpace dsn)
  else if trimSpace database = "" then .error (.badRequest "either dsn or database is required")
  else match dsnFor with
    | none => .error (.badRequest
        "this deployment cannot place a schema beside the control database; supply a full dsn")
    | some place => do
      checkDatabaseName (trimSpace database)
      return place (trimSpace database)

/-- The body of a re-pointing. -/
structure Repoint where
  dsn           : String
  database      : String
  schemaUUID    : String
  reason        : String
  abandonQueued : Bool

/-- What the handler was told, in the order it asked. -/
structure Replies where
  tenants    : Except String (Table Control.Tenant.name)
  opened     : Except String Unit
  quiescence : Except String Quiescence
  again      : Except String (Table Control.Tenant.name)
  blockers   : Except String (List String)
  openedNew  : Except String Unit
  admitted   : Except String Unit

def notQuiesced (detail : String) : Refusal := .control (.notQuiesced detail)

/-- `oldSchemaQuiescent`: whether the schema is quiet, and how much work is queued in it. -/
def oldSchemaQuiescent (name : String) (a : Replies) : Except Refusal (Bool × Nat) := do
  let tenants ← a.tenants.mapError .failed
  match tenants.get? name with
  | none => .error (.notFound ("tenant " ++ name.quote))
  | some t =>
    if t.enabled then .error (notQuiesced (name ++ " must be disabled before its DSN can change"))
    else do
      a.opened.mapError (fun e => notQuiesced ("cannot open " ++ name ++ " to prove it is quiescent: " ++ e))
      let q ← a.quiescence.mapError (fun e =>
        notQuiesced ("cannot read " ++ name ++ " to prove it is quiescent: " ++ e))
      if q.quiet then return (true, q.queued)
      else .error (notQuiesced (name ++ " still holds " ++ toString q.held ++ " job(s) with " ++ toString q.inFlight ++
        " execution(s) in flight"))

def verifyNewSchema (a : Replies) : Except Refusal Unit := do
  a.openedNew.mapError (fun e => .badRequest ("cannot open the new DSN: " ++ e))
  a.admitted.mapError (fun e => .badRequest ("the new schema was refused: " ++ e))

/-- `repointTenant`, up to the call it ends with.  The second look at the registry decides which generation the first
look at the acknowledgements asks for; `blockers` is its answer. -/
def repointTenant (dsnFor : Option (String → String)) (liveness : Instant) (req : Repoint) (name actor : String)
    (a : Replies) : Except Refusal Control.Call := do
  requireReason req.reason
  if req.schemaUUID = "" then
    .error (.badRequest ("schema_uuid is required; it is what the new schema must present, " ++
      "and without it a mistyped DSN is undetectable"))
  else
    let dsn ← resolveDSN dsnFor req.dsn req.database
    let (quiet, queued) ← oldSchemaQuiescent name a
    if 0 < queued ∧ req.abandonQueued = false then
      .error (notQuiesced (name ++ " has " ++ toString queued ++ " queued execution(s) that this cutover would " ++
        "leave in the old schema, where nothing will ever claim them; re-send with \"abandon_queued\": true to " ++
        "accept that"))
    else
      let _ ← a.again.mapError .failed
      let blockers ← a.blockers.mapError .failed
      if blockers ≠ [] then
        .error (notQuiesced (name ++ " has not been acknowledged as quiesced by " ++ ", ".intercalate blockers))
      else
        verifyNewSchema a
        let reason := if 0 < queued then
          req.reason ++ " (abandoning " ++ toString queued ++ " queued execution(s) in the old schema)" else req.reason
        return .setTenantDSN name dsn req.schemaUUID actor reason quiet liveness

/-- **What a re-pointing that goes ahead was told.** -/
structure GoesAhead (dsnFor : Option (String → String)) (liveness : Instant) (req : Repoint) (name actor : String)
    (a : Replies) (c : Control.Call) : Prop where
  call : ∃ dsn reason, resolveDSN dsnFor req.dsn req.database = .ok dsn ∧
    c = .setTenantDSN name dsn req.schemaUUID actor reason true liveness
  row  : ∃ rows t, a.tenants = .ok rows ∧ rows.get? name = some t ∧ t.enabled = false
  open_ : a.opened = .ok ()
  quiet : ∃ q, a.quiescence = .ok q ∧ q.quiet = true ∧ (0 < q.queued → req.abandonQueued = true)

theorem bind_ok {ε α β : Type} {x : Except ε α} {f : α → Except ε β} {b : β} :
    x >>= f = .ok b ↔ ∃ a, x = .ok a ∧ f a = .ok b := by
  cases x with
  | error e => simp [Bind.bind, Except.bind]
  | ok a => simp [Bind.bind, Except.bind]

theorem mapError_ok {ε ε' α : Type} {f : ε → ε'} {x : Except ε α} {a : α} : x.mapError f = .ok a ↔ x = .ok a := by
  cases x <;> simp [Except.mapError]

theorem oldSchemaQuiescent_ok {name : String} {a : Replies} {x : Bool × Nat} (h : oldSchemaQuiescent name a = .ok x) :
    (∃ rows t, a.tenants = .ok rows ∧ rows.get? name = some t ∧ t.enabled = false) ∧ a.opened = .ok () ∧
      ∃ q, a.quiescence = .ok q ∧ q.quiet = true ∧ x = (true, q.queued) := by
  obtain ⟨rows, hrows, h⟩ := bind_ok.1 h
  split at h
  · cases h
  rename_i t ht
  split at h
  · cases h
  rename_i hoff
  obtain ⟨_, hopen, h⟩ := bind_ok.1 h
  obtain ⟨q, hq, h⟩ := bind_ok.1 h
  split at h
  · rename_i hquiet
    exact ⟨⟨rows, t, mapError_ok.1 hrows, ht, by simpa using hoff⟩, mapError_ok.1 hopen, q, mapError_ok.1 hq, hquiet,
      (Except.ok.inj h).symm⟩
  · cases h

theorem repointTenant_ok {dsnFor : Option (String → String)} {liveness : Instant} {req : Repoint} {name actor : String}
    {a : Replies} {c : Control.Call} (h : repointTenant dsnFor liveness req name actor a = .ok c) :
    GoesAhead dsnFor liveness req name actor a c := by
  obtain ⟨_, -, h⟩ := bind_ok.1 h
  split at h
  · cases h
  obtain ⟨dsn, hdsn, h⟩ := bind_ok.1 h
  obtain ⟨x, hold, h⟩ := bind_ok.1 h
  obtain ⟨hrow, hopen, q, hq, hquiet, rfl⟩ := oldSchemaQuiescent_ok hold
  dsimp only at h
  split at h
  · cases h
  rename_i hqueued
  obtain ⟨_, -, h⟩ := bind_ok.1 h
  obtain ⟨_, -, h⟩ := bind_ok.1 h
  split at h
  · cases h
  obtain ⟨_, -, h⟩ := bind_ok.1 h
  exact ⟨⟨dsn, _, hdsn, (Except.ok.inj h).symm⟩, hrow, hopen, q, hq, hquiet, by simpa using hqueued⟩

end Admin

/-! ## The databases together -/

/-- The control database and the schemas, by their DSNs. -/
structure Site where
  plane   : Control.Plane
  schemas : String → World

inductive Site.Op
  | control (l : Control.Call × Instant)
  | store (dsn : String) (l : Action × Ctx)

/-- A step is a call to the control database or to one schema. -/
inductive Site.Step (env : Env) (σ : Site) : Site.Op → Site → Prop
  | control {l : Control.Call × Instant} {p : Control.Plane} (h : σ.plane.Step l p) :
      Site.Step env σ (.control l) { σ with plane := p }
  | store {dsn : String} {l : Action × Ctx} {w : World} (h : GoJob.Step env (σ.schemas dsn) l w) :
      Site.Step env σ (.store dsn l) { σ with schemas := Function.update σ.schemas dsn w }

def Site.init (t : Instant) (u : Utc) : Site := ⟨⟨.empty, t⟩, fun _ => World.init u⟩

namespace Site

abbrev History := List (Site × Op × Site)

/-- The call to the control database. -/
def Op.control? : Op → Option (Control.Call × Instant)
  | .control l => some l
  | .store _ _ => none

/-- The call to the schema under a DSN. -/
def Op.store? (dsn : String) : Op → Option (Action × Ctx)
  | .control _ => none
  | .store d l => if d = dsn then some l else none

/-- What a step records of an instance. -/
def observed (name instanceId : String) (x : Site × Op × Site) : Option Control.Observation :=
  x.2.1.control?.bind fun l => Control.observed name instanceId (x.1.plane, l, x.2.2.plane)

/-- The token a step grants for an execution of the schema under a DSN. -/
def claimed (dsn : String) (i : Nat) (x : Site × Op × Site) : Option String :=
  (x.2.1.store? dsn).bind fun l => claimedToken i (x.1.schemas dsn, l, x.2.2.schemas dsn)

variable {env : Env} {σ σ' : Site} {tr : History}

theorem Step.committed {c : Control.Call} {now : Instant} (h : Step env σ (.control (c, now)) σ')
    (hok : (σ.plane.store.call now c).isOk = true) : σ.plane.store.call now c = .ok σ'.plane.store := by
  cases h with
  | control h =>
    rw [h.eq]
    cases hc : σ.plane.store.call now c with
    | error e => rw [hc] at hok; cases hok
    | ok s => rfl

/-- **The control database sees a run of its own.** -/
theorem plane_run (hr : Run (Step env) σ tr σ') : Run Control.Plane.Step σ.plane
    (tr.filterMap fun x => x.2.1.control?.map fun l => (x.1.plane, l, x.2.2.plane)) σ'.plane := by
  refine hr.project (fun σ => σ.plane) Op.control? (fun {s a s' b} hst hb => ?_) (fun {s a s'} hst hn => ?_)
  · cases hst with
    | control h => cases hb; exact h
    | store => cases hb
  · cases hst with
    | control => cases hn
    | store => rfl

/-- **And so does each schema.** -/
theorem schema_run (dsn : String) (hr : Run (Step env) σ tr σ') : Run (GoJob.Step env) (σ.schemas dsn)
    (tr.filterMap fun x => (x.2.1.store? dsn).map fun l => (x.1.schemas dsn, l, x.2.2.schemas dsn))
    (σ'.schemas dsn) := by
  refine hr.project (fun σ => σ.schemas dsn) (Op.store? dsn) (fun {s a s' b} hst hb => ?_) (fun {s a s'} hst hn => ?_)
  · cases hst with
    | control => cases hb
    | @store d l w h =>
      by_cases hd : d = dsn
      · subst hd
        obtain rfl : l = b := by simpa [Op.store?] using hb
        simpa using h
      · simp [Op.store?, hd] at hb
  · cases hst with
    | control => rfl
    | @store d l w h =>
      have hd : d ≠ dsn := by simpa [Op.store?] using hn
      simp [Function.update_of_ne (Ne.symm hd)]

end Site

/-! ## The cutover -/

/-- What the replies of a re-pointing are read from: the registry at `σ₀`, and the old schema at `σ₁`, `σ₂` and `σ₃`. -/
structure Consulted (unreadable : List String) (name : String) (a : Admin.Replies) (σ₀ σ₁ σ₂ σ₃ : Site) : Prop where
  tenants    : ∀ rows, a.tenants = .ok rows → rows = σ₀.plane.store.tenants unreadable
  /-- A DSN that cannot be read is empty, and the driver does not open that. -/
  opened     : name ∈ unreadable → ∃ e, a.opened = .error e
  quiescence : ∀ q t, a.quiescence = .ok q → σ₀.plane.store.registry.get? name = some t →
    q = quiescent (σ₁.schemas t.dsn).db (σ₂.schemas t.dsn).db (σ₃.schemas t.dsn).db

section cutover

variable {env : Env} {σ₀ σ₁ σ₂ σ₃ σ σ' : Site} {tr₀ tr₁ tr₂ tr₃ tr₄ : Site.History} {name actor : String}

/-- **What a cutover that commits has replaced.**  The tenant is disabled, and its new row has the requested schema
under the next generation.  Every instance that was heard of lately had last acknowledged the present generation with
nothing in hand.  If nobody changed the tenant since its row was first read, that row was in force all the time, and the
schema that was found quiet is the one that is replaced: whatever is held there was claimed after the second count. -/
theorem repoint_moves_a_quiet_schema {t₀ : Instant} {u : Utc} {dsnFor : Option (String → String)}
    {liveness now : Instant} {req : Admin.Repoint} {unreadable : List String} {a : Admin.Replies} {c : Control.Call}
    (hr₀ : Run (Site.Step env) (Site.init t₀ u) tr₀ σ₀) (hr₁ : Run (Site.Step env) σ₀ tr₁ σ₁)
    (hr₂ : Run (Site.Step env) σ₁ tr₂ σ₂) (hr₃ : Run (Site.Step env) σ₂ tr₃ σ₃)
    (hr₄ : Run (Site.Step env) σ₃ tr₄ σ) (hask : Consulted unreadable name a σ₀ σ₁ σ₂ σ₃)
    (hgo : Admin.repointTenant dsnFor liveness req name actor a = .ok c)
    (hst : Site.Step env σ (.control (c, now)) σ') (hok : (σ.plane.store.call now c).isOk = true) :
    ∃ dsn r t, Admin.resolveDSN dsnFor req.dsn req.database = .ok dsn ∧
      σ₀.plane.store.registry.get? name = some r ∧ σ.plane.store.registry.get? name = some t ∧ t.enabled = false ∧
      σ'.plane.store.registry.get? name = some { t with
        dsn := dsn, schemaUUID := req.schemaUUID, generation := t.generation + 1, positive := Nat.succ_pos _ } ∧
      (∀ inst o, ((tr₀ ++ tr₁ ++ tr₂ ++ tr₃ ++ tr₄).filterMap (Site.observed name inst)).getLast? = some o →
        o.live now liveness = true → t.generation ≤ o.generation ∧ o.quiesced = true) ∧
      (t.generation = r.generation → t = r ∧
        (∀ x ∈ tr₁ ++ tr₂ ++ tr₃ ++ tr₄, x.1.plane.store.registry.get? name = some r) ∧
        ∀ i k, (σ.schemas r.dsn).db.heldToken i = some k → ∃ x ∈ tr₃ ++ tr₄, Site.claimed r.dsn i x = some k) := by
  obtain ⟨⟨dsn, reason, hdsn, rfl⟩, ⟨rows, r, hrows, hrow, -⟩, hopen, q, hq, hquiet, -⟩ := Admin.repointTenant_ok hgo
  have hread : name ∉ unreadable := fun h => by
    obtain ⟨e, he⟩ := hask.opened h
    rw [hopen] at he
    cases he
  have hr : σ₀.plane.store.registry.get? name = some r :=
    Control.tenants_row (hask.tenants rows hrows ▸ hrow) (Or.inr hread)
  obtain ⟨-, t, ht, hoff, hblock, -, hnew⟩ := Control.setTenantDSN_ok (Site.Step.committed hst hok)
  have hall := (((hr₁.append hr₂).append hr₃).append hr₄)
  refine ⟨dsn, r, t, hdsn, hr, ht, hoff, by rw [hnew, if_pos rfl], fun inst o ho hlive => ?_, fun hg => ⟨?_, ?_, ?_⟩⟩
  · have hrun := (((hr₀.append hr₁).append hr₂).append hr₃).append hr₄
    have hlast : σ.plane.store.observations.get? (name, inst) = some o := by
      rw [Control.observation_is_last (Site.plane_run hrun), filterMap_project Site.plane Site.Op.control?]
      exact ho
    exact Control.acknowledged hblock hlast hlive
  · exact (Control.row_kept (Site.plane_run hall) hr ht hg).1
  · intro x hx
    obtain ⟨pre, post, -, hpre, hst, hpost⟩ := hall.split hx
    exact Control.row_between (Site.plane_run hpre) (Site.plane_run ((Run.single hst).append hpost)) hr ht hg
  · intro i k hk
    obtain rfl := hask.quiescence q r hq hr
    have hinv := HolderInv.run (Site.schema_run r.dsn ((hr₀.append hr₁).append hr₂))
    have hidle : (σ₂.schemas r.dsn).db.inFlight = 0 := of_decide_eq_true (Bool.and_eq_true_iff.1 hquiet).2
    obtain ⟨x, hx, hclaim⟩ := claimed_since_idle hinv hidle (Site.schema_run r.dsn (hr₃.append hr₄)) hk
    have hseen := List.mem_filterMap.2 ⟨x, hx, hclaim⟩
    rw [filterMap_project (fun σ : Site => σ.schemas r.dsn) (Site.Op.store? r.dsn)] at hseen
    exact List.mem_filterMap.1 hseen

end cutover

theorem Site.run_plane (env : Env) {p p' : Control.Plane} {tr : Control.Plane.History} (schemas : String → World)
    (hr : Run Control.Plane.Step p tr p') : ∃ tr', Run (Site.Step env) ⟨p, schemas⟩ tr' ⟨p', schemas⟩ := by
  induction hr with
  | nil => exact ⟨[], .nil⟩
  | snoc _ hst ih =>
    obtain ⟨tr', hr'⟩ := ih
    exact ⟨_, hr'.snoc (.control hst)⟩

/-- A schema nobody used, and no instance that blocks. -/
def idleReplies (s : Control.Store) : Admin.Replies :=
  ⟨.ok (s.tenants []), .ok (), .ok ⟨0, 0, 0⟩, .ok (s.tenants []), .ok [], .ok (), .ok ()⟩

def moveRequest : Admin.Repoint := ⟨" new ", "", "u2", "move", false⟩

/-- A tenant that one instance runs is disabled, the instance acknowledges, and the tenant is moved. -/
theorem repoint_moves_a_quiet_schema_idle : ∃ σ σ' t, Site.Step bareEnv σ
      (.control (.setTenantDSN "acme" "new" "u2" "operator" "move" true 90, 3)) σ' ∧
    σ'.plane.store.registry.get? "acme" = some t ∧ t.dsn = "new" ∧ t.schemaUUID = "u2" ∧ t.enabled = false := by
  obtain ⟨tr, p, hr, hq⟩ := play_checked Control.Plane.step ⟨.empty, 0⟩
    [(.addTenant "acme" "old" "u1" "operator" "new", 0), (.setTenantEnabled "acme" false "operator" "move", 1),
      (.observe "acme" "i1" 2 true, 2)]
    (fun _ p => decide (Admin.repointTenant none 90 moveRequest "acme" "operator" (idleReplies p.store) =
        .ok (.setTenantDSN "acme" "new" "u2" "operator" "move" true 90)) &&
      (p.store.call 3 (.setTenantDSN "acme" "new" "u2" "operator" "move" true 90)).isOk && decide (p.now ≤ 3))
    (by decide +kernel)
  simp only [Bool.and_eq_true, decide_eq_true_eq] at hq
  obtain ⟨⟨hgo, hok⟩, hnow⟩ := hq
  obtain ⟨tr', hr'⟩ := Site.run_plane bareEnv (fun _ => World.init 0) hr
  have hst : Site.Step bareEnv ⟨p, fun _ => World.init 0⟩
      (.control (.setTenantDSN "acme" "new" "u2" "operator" "move" true 90, 3)) _ := .control (if_pos hnow)
  have hask : Consulted [] "acme" (idleReplies p.store) ⟨p, fun _ => World.init 0⟩ ⟨p, fun _ => World.init 0⟩
      ⟨p, fun _ => World.init 0⟩ ⟨p, fun _ => World.init 0⟩ :=
    { tenants := fun _ h => (Except.ok.inj h).symm
      opened := fun h => absurd h List.not_mem_nil
      quiescence := fun _ _ h _ => (Except.ok.inj h).symm }
  obtain ⟨dsn, r, t, hdsn, -, -, hoff, hnew, -⟩ :=
    repoint_moves_a_quiet_schema hr' .nil .nil .nil .nil hask hgo hst hok
  obtain rfl : "new" = dsn := Except.ok.inj (show Except.ok "new" = _ from hdsn)
  exact ⟨_, _, _, hst, hnew, rfl, rfl, hoff⟩

end GoJob
