import GoJob.Control
import GoJob.Directory
import GoJob.Runs
/-!
# Identities — who may act for a tenant (`control/registry.go`, `server/auth.go`)

A row authorizes an identity for a tenant, and a flag on the row revokes it.  `Authorize` reads only the rows that are
not disabled, so a revoked identity looks to it like one that has no row.  Where unlisted identities may act, revoked
ones may act too.  Where they may not, a revocation holds until the row is restored or deleted.
-/
namespace GoJob
namespace Control

open Rel

/-! ## The administrator's side -/

/-- A row of `executor_identity`. -/
structure IdentityRow where
  identity  : String
  tenant    : String
  group     : String
  tokenSHA  : Option String
  disabled  : Bool
  createdAt : Instant
  deriving DecidableEq, Repr

/-- The primary key, where the database compares text by the sort key `coll`. -/
def IdentityRow.key (coll : String → String) (r : IdentityRow) : String × String := (coll r.identity, coll r.tenant)

abbrev Identities (coll : String → String) := Table (IdentityRow.key coll)

variable {coll : String → String}

/-- The end of a transaction: `audit` fails it when nobody is named. -/
def auditedIdentities (actor action : String) (s : Identities coll) : Except Err (Identities coll) :=
  if actor = "" then .error (.protocol ("control action " ++ action.quote ++ " with no actor")) else .ok s

def newIdentity (now : Instant) (identity tenant group tokenSHA : String) : IdentityRow :=
  ⟨identity, tenant, group, if tokenSHA = "" then none else some tokenSHA, false, now⟩

def addIdentity (s : Identities coll) (now : Instant) (identity tenant group tokenSHA actor reason : String) :
    Except Err (Identities coll) :=
  if identity = "" ∨ tenant = "" then .error (.protocol "an identity needs a name and a tenant")
  else if reason = "" then .error (.protocol "authorising an executor needs a reason")
  else if h : s.get? (coll identity, coll tenant) = none then
    auditedIdentities actor "executor_authorized"
      (s.insert (newIdentity now identity tenant group tokenSHA) (Table.get?_eq_none_iff_notMem.1 h))
  else .error (.other ("authorise " ++ identity.quote ++ " for " ++ tenant.quote))

def setIdentityDisabled (s : Identities coll) (identity tenant : String) (disabled : Bool) (actor reason : String) :
    Except Err (Identities coll) :=
  if reason = "" then .error (.protocol "revoking or restoring an executor needs a reason")
  else if (s.get? (coll identity, coll tenant)).any (fun r => decide (r.disabled ≠ disabled)) then
    auditedIdentities actor (if disabled then "executor_revoked" else "executor_restored")
      (s.modify (coll identity, coll tenant) (fun r => { r with disabled := disabled }) (fun _ => rfl))
  else .error (.protocol (identity.quote ++ " is already disabled=" ++ toString disabled ++ " for " ++ tenant.quote))

def deleteIdentity (s : Identities coll) (identity tenant actor reason : String) : Except Err (Identities coll) :=
  if identity = "" ∨ tenant = "" then .error (.protocol "deleting an identity needs a name and a tenant")
  else if reason = "" then .error (.protocol "deleting an executor identity needs a reason")
  else match s.get? (coll identity, coll tenant) with
    | none => .error (.protocol ("identity " ++ identity.quote ++ " does not exist for " ++ tenant.quote))
    | some r =>
      if r.disabled = false then
        .error (.protocol ("revoke identity " ++ identity.quote ++ " for " ++ tenant.quote ++ " before deleting it"))
      else auditedIdentities actor "executor_deleted"
        (s.delete (fun r => decide (r.key coll = (coll identity, coll tenant))))

inductive IdentityCall
  | add (now : Instant) (identity tenant group tokenSHA actor reason : String)
  | setDisabled (identity tenant : String) (disabled : Bool) (actor reason : String)
  | delete (identity tenant actor reason : String)
  deriving DecidableEq, Repr

namespace IdentityCall

def run (s : Identities coll) : IdentityCall → Except Err (Identities coll)
  | add now identity tenant group tokenSHA actor reason => addIdentity s now identity tenant group tokenSHA actor reason
  | setDisabled identity tenant disabled actor reason => setIdentityDisabled s identity tenant disabled actor reason
  | delete identity tenant actor reason => deleteIdentity s identity tenant actor reason

def row (coll : String → String) : IdentityCall → String × String
  | add _ identity tenant _ _ _ _ => (coll identity, coll tenant)
  | setDisabled identity tenant _ _ _ => (coll identity, coll tenant)
  | delete identity tenant _ _ => (coll identity, coll tenant)

/-- The call restores a row or deletes one. -/
def lifts : IdentityCall → Bool
  | add _ _ _ _ _ _ _ => false
  | setDisabled _ _ disabled _ _ => !disabled
  | delete _ _ _ _ => true

end IdentityCall

/-- A call commits.  One that fails changes nothing and is no step. -/
def IdentityStep (s : Identities coll) (a : IdentityCall) (s' : Identities coll) : Prop := a.run s = .ok s'

/-! ## The scheduler's side -/

/-- `Authorize`: nothing, or the text of its refusal. -/
def authorize (allowUnlisted : Bool) (s : Identities coll) (identity tenant group : String) (checkGroup : Bool) :
    Except String Unit :=
  match s.rows.find? (fun r => decide (r.key coll = (coll identity, coll tenant)) && !r.disabled) with
  | none =>
    if allowUnlisted then .ok ()
    else .error ("identity " ++ identity.quote ++ " is not authorized for tenant " ++ tenant.quote ++
      "; add a row to executor_identity")
  | some r =>
    if checkGroup ∧ r.group ≠ "" ∧ r.group ≠ group then
      .error ("identity " ++ identity.quote ++ " may act only as group " ++ r.group.quote ++ ", not " ++ group.quote)
    else .ok ()

/-- The rows of one tenant that let somebody act. -/
def grants (s : Identities coll) (tenant : String) : List Grant :=
  (s.rows.filter (fun r => decide (coll r.tenant = coll tenant) && !r.disabled)).map (fun r => ⟨r.identity, r.group⟩)

theorem grants_find (s : Identities id) (identity tenant : String) :
    (grants s tenant).find? (fun g => decide (g.identity = identity)) =
      (s.rows.find? (fun r => decide (r.key id = (identity, tenant)) && !r.disabled)).map
        (fun r => ⟨r.identity, r.group⟩) := by
  unfold grants
  rw [List.find?_map, List.find?_filter]
  congr 2
  funext r
  simp only [IdentityRow.key, id, Prod.mk.injEq, Function.comp, Bool.and_eq_true, decide_eq_true_eq]
  rw [Bool.eq_iff_iff]
  simp only [decide_eq_true_eq, Bool.and_eq_true]
  tauto

/-- Where text is compared byte by byte, `Authorize` answers as it does to a registration. -/
theorem authorize_isOk (allowUnlisted : Bool) (s : Identities id) (identity tenant group : String) (checkGroup : Bool) :
    (authorize allowUnlisted s identity tenant group checkGroup).isOk =
      (Access.mk (grants s tenant) allowUnlisted).authorize identity group checkGroup := by
  unfold authorize Access.authorize
  rw [grants_find, id, id]
  cases s.rows.find? (fun r => decide (r.key id = (identity, tenant)) && !r.disabled) with
  | none => cases allowUnlisted <;> rfl
  | some r =>
    by_cases h : checkGroup = true ∧ r.group ≠ "" ∧ r.group ≠ group
    · simp [h, Except.isOk, Except.toBool]
    · simp only [not_and_or, not_not, Bool.not_eq_true] at h
      rcases h with h | h | h <;> simp [h, Except.isOk, Except.toBool]

/-! ## What a call leaves -/

theorem auditedIdentities_ok {actor action : String} {s s' : Identities coll}
    (h : auditedIdentities actor action s = .ok s') : s = s' := by
  unfold auditedIdentities at h
  split at h
  · cases h
  · exact Except.ok.inj h

theorem addIdentity_ok {s s' : Identities coll} {now : Instant} {identity tenant group tokenSHA actor reason : String}
    (h : addIdentity s now identity tenant group tokenSHA actor reason = .ok s') :
    ∃ hnew, s' = s.insert (newIdentity now identity tenant group tokenSHA) hnew := by
  unfold addIdentity at h
  split at h
  · cases h
  split at h
  · cases h
  split at h
  · exact ⟨_, (auditedIdentities_ok h).symm⟩
  · cases h

theorem setIdentityDisabled_ok {s s' : Identities coll} {identity tenant : String} {disabled : Bool}
    {actor reason : String} (h : setIdentityDisabled s identity tenant disabled actor reason = .ok s') :
    (∃ r, s.get? (coll identity, coll tenant) = some r ∧ r.disabled ≠ disabled) ∧
      s' = s.modify (coll identity, coll tenant) (fun r => { r with disabled := disabled }) (fun _ => rfl) := by
  unfold setIdentityDisabled at h
  split at h
  · cases h
  split at h
  · rename_i hany
    obtain ⟨r, hr, hne⟩ := (Option.any_eq_true ..).1 hany
    exact ⟨⟨r, hr, of_decide_eq_true hne⟩, (auditedIdentities_ok h).symm⟩
  · cases h

/-- The flag of a row is set to what it is not, by whoever gives a name and a reason. -/
theorem setIdentityDisabled_of {s : Identities coll} {identity tenant : String} {disabled : Bool}
    {actor reason : String} {r : IdentityRow} (hactor : actor ≠ "") (hreason : reason ≠ "")
    (hr : s.get? (coll identity, coll tenant) = some r) (hne : r.disabled ≠ disabled) :
    setIdentityDisabled s identity tenant disabled actor reason =
      .ok (s.modify (coll identity, coll tenant) (fun r => { r with disabled := disabled }) (fun _ => rfl)) := by
  unfold setIdentityDisabled
  rw [if_neg hreason, if_pos (by rw [hr]; exact decide_eq_true hne), auditedIdentities, if_neg hactor]

theorem deleteIdentity_ok {s s' : Identities coll} {identity tenant actor reason : String}
    (h : deleteIdentity s identity tenant actor reason = .ok s') :
    s' = s.delete (fun r => decide (r.key coll = (coll identity, coll tenant))) := by
  unfold deleteIdentity at h
  split at h
  · cases h
  split at h
  · cases h
  split at h
  · cases h
  split at h
  · cases h
  · exact (auditedIdentities_ok h).symm

/-- A call that commits writes no row but the one it is about. -/
theorem IdentityStep.get?_ne {s s' : Identities coll} {a : IdentityCall} (h : IdentityStep s a s')
    {k : String × String} (hk : k ≠ a.row coll) : s'.get? k = s.get? k := by
  cases a with
  | add now identity tenant group tokenSHA actor reason =>
    obtain ⟨hnew, rfl⟩ := addIdentity_ok h
    rw [Table.get?_insert, if_neg]
    exact Ne.symm hk
  | setDisabled identity tenant disabled actor reason =>
    obtain ⟨-, rfl⟩ := setIdentityDisabled_ok h
    exact (Table.get?_modify ..).trans (if_neg hk)
  | delete identity tenant actor reason =>
    obtain rfl := deleteIdentity_ok h
    exact Table.get?_delete_key_ne s hk

/-! ## What `Authorize` sees of it -/

def Revoked (s : Identities coll) (identity tenant : String) : Prop :=
  ∃ r, s.get? (coll identity, coll tenant) = some r ∧ r.disabled = true

theorem IdentityStep.revoked {s s' : Identities coll} {identity tenant actor reason : String}
    (h : IdentityStep s (.setDisabled identity tenant true actor reason) s') : Revoked s' identity tenant := by
  obtain ⟨⟨r, hr, -⟩, rfl⟩ := setIdentityDisabled_ok h
  refine ⟨{ r with disabled := true }, (Table.get?_modify ..).trans ((if_pos rfl).trans ?_), rfl⟩
  rw [hr]
  rfl

/-- A call that neither restores the row nor deletes it. -/
def Spares (coll : String → String) (identity tenant : String) (a : IdentityCall) : Prop :=
  a.row coll = (coll identity, coll tenant) → a.lifts = false

theorem Revoked.step {s s' : Identities coll} {a : IdentityCall} {identity tenant : String}
    (h : Revoked s identity tenant) (ha : Spares coll identity tenant a) (hst : IdentityStep s a s') :
    Revoked s' identity tenant := by
  obtain ⟨r, hr, hd⟩ := h
  by_cases hk : a.row coll = (coll identity, coll tenant)
  · have hspare := ha hk
    cases a with
    | add now i t group tokenSHA actor reason =>
      -- the key is taken, so the row cannot be inserted
      obtain ⟨hnew, -⟩ := addIdentity_ok hst
      refine absurd (List.mem_map.2 ⟨r, Table.mem_of_get? hr, ?_⟩) hnew
      exact (Table.get?_key hr).trans hk.symm
    | setDisabled i t disabled actor reason =>
      obtain ⟨-, rfl⟩ := setIdentityDisabled_ok hst
      refine ⟨{ r with disabled := disabled }, ?_, by simpa [IdentityCall.lifts] using hspare⟩
      refine (Table.get?_modify ..).trans ((if_pos hk.symm).trans ?_)
      rw [show (coll i, coll t) = (coll identity, coll tenant) from hk, hr]
      rfl
    | delete i t actor reason => cases hspare
  · exact ⟨r, (hst.get?_ne (Ne.symm hk)).trans hr, hd⟩

/-- **A revocation outlasts every call that spares its row.** -/
theorem Revoked.run {s s' : Identities coll} {tr : List (Identities coll × IdentityCall × Identities coll)}
    {identity tenant : String} (h : Revoked s identity tenant) (hr : Sys.Run IdentityStep s tr s')
    (htr : ∀ x ∈ tr, Spares coll identity tenant x.2.1) : Revoked s' identity tenant :=
  Sys.Run.invariant_of (I := fun s => Revoked s identity tenant) (fun x => Spares coll identity tenant x.2.1) h
    (fun _ _ _ hrev ha hst => hrev.step ha hst) hr htr

/-- The query of `Authorize` is the row under the key, unless it is disabled. -/
theorem find_enabled (s : Identities coll) (k : String × String) :
    s.rows.find? (fun r => decide (r.key coll = k) && !r.disabled) = (s.get? k).filter (fun r => !r.disabled) := by
  rw [← Table.get?_delete s (fun r => r.disabled) k]
  show _ = (s.rows.filter _).find? _
  rw [List.find?_filter]
  congr 1
  funext r
  rw [Bool.eq_iff_iff]
  simp [and_comm]

/-- **What `Authorize` makes of a revoked identity**: it is let through where unlisted identities are. -/
theorem Revoked.authorize {s : Identities coll} {identity tenant : String} (h : Revoked s identity tenant)
    (allowUnlisted : Bool) (group : String) (checkGroup : Bool) :
    (authorize allowUnlisted s identity tenant group checkGroup).isOk = allowUnlisted := by
  obtain ⟨r, hr, hd⟩ := h
  unfold Control.authorize
  rw [find_enabled, hr, Option.filter_some, hd]
  cases allowUnlisted <;> rfl

/-- Where unlisted identities may not act, `Authorize` lets through whom an enabled row names. -/
theorem authorize_listed {s : Identities coll} {identity tenant group : String} {checkGroup : Bool}
    (h : (authorize false s identity tenant group checkGroup).isOk = true) :
    ∃ r, s.get? (coll identity, coll tenant) = some r ∧ r.disabled = false := by
  unfold authorize at h
  rw [find_enabled] at h
  cases hg : s.get? (coll identity, coll tenant) with
  | none => rw [hg] at h; cases h
  | some r =>
    rw [hg, Option.filter_some] at h
    cases hd : r.disabled with
    | false => exact ⟨r, rfl, hd⟩
    | true => rw [hd] at h; cases h

/-! ## Revocation -/

/-- Revocation is effective in one setting.  Along every run, from a revocation on and until the row is restored or
deleted, every call of the identity is refused; and whoever is let through with no row that allows it has no row. -/
def RevocationEffective (coll : String → String) (allowUnlisted : Bool) : Prop :=
  (∀ (s₀ s s' s₁ : Identities coll) (pre post : List (Identities coll × IdentityCall × Identities coll))
      (identity tenant actor reason : String),
    Sys.Run IdentityStep s₀ pre s → IdentityStep s (.setDisabled identity tenant true actor reason) s' →
    Sys.Run IdentityStep s' post s₁ → (∀ x ∈ post, Spares coll identity tenant x.2.1) →
    ∀ group checkGroup, (authorize allowUnlisted s₁ identity tenant group checkGroup).isOk = false) ∧
  ∀ (s₀ s : Identities coll) (tr : List (Identities coll × IdentityCall × Identities coll)),
    Sys.Run IdentityStep s₀ tr s → ∀ identity tenant group checkGroup,
    (authorize allowUnlisted s identity tenant group checkGroup).isOk = true →
    s.get? (coll identity, coll tenant) = none ∨ ∃ r, s.get? (coll identity, coll tenant) = some r ∧ r.disabled = false

/-- An executor of `acme` that is revoked, and what `Authorize` answers where unlisted identities may act. -/
theorem revoked_identity_acts : ∃ s s' : Identities id,
    IdentityStep .empty (.add 0 "worker-1" "acme" "" "" "ops" "new host") s ∧
    IdentityStep s (.setDisabled "worker-1" "acme" true "ops" "key leaked") s' ∧
    authorize true s' "worker-1" "acme" "main" true = .ok () ∧
    ∃ r, s'.get? ("worker-1", "acme") = some r ∧ r.disabled = true :=
  ⟨_, _, rfl, rfl, rfl, _, rfl, rfl⟩

/-- **Revocation is effective exactly where unlisted identities may not act.** -/
theorem revocation_effective_iff (coll : String → String) (allowUnlisted : Bool) :
    RevocationEffective coll allowUnlisted ↔ allowUnlisted = false := by
  constructor
  · rintro ⟨hrefuse, -⟩
    -- a table with one row, and its revocation
    let s : Identities coll := Table.empty.insert (newIdentity 0 "worker-1" "acme" "" "") (by simp [Table.empty])
    have hr : s.get? (coll "worker-1", coll "acme") = some (newIdentity 0 "worker-1" "acme" "" "") :=
      (Table.get?_insert ..).trans (if_pos rfl)
    have hst : IdentityStep s (.setDisabled "worker-1" "acme" true "ops" "key leaked") _ :=
      setIdentityDisabled_of (by decide) (by decide) hr (by decide)
    rw [← hst.revoked.authorize allowUnlisted "main" true]
    exact hrefuse s s _ _ [] [] "worker-1" "acme" "ops" "key leaked" .nil hst .nil (by simp) "main" true
  · rintro rfl
    refine ⟨fun s₀ s s' s₁ pre post identity tenant actor reason _ hst hpost hspare group checkGroup => ?_,
      fun s₀ s tr _ identity tenant group checkGroup hok => .inr (authorize_listed hok)⟩
    exact (hst.revoked.run hpost hspare).authorize false group checkGroup

end Control
end GoJob
