import GoJob.Dispatch
/-!
# Directory — who registered an executor (`store/executor.go`, `server.go`, `auth.go`)

An executor registers under the identity its credential gives it, and heartbeats under the same identity.  A heartbeat
looks at the identity, and a registration at the address: at the address of a live registration anybody may register
again, and the registration becomes theirs.
-/
namespace GoJob

open Rel

/-! ## Registrations -/

/-- A row of `job_executor`, with its handlers of `job_executor_handler`. -/
structure Registration extends Executor where
  contractVersion : String
  revision        : String
  identity        : String
  startedAt       : Utc
  writeSeq        : Nat
  /-- The handlers' descriptions, in their order. -/
  descriptions    : List String
  deriving DecidableEq, Repr

abbrev Directory := Table (fun x : Registration => x.executorId)

/-- `store.Executor`, as `Register` gets it. -/
structure Declaration where
  executorId      : String
  identity        : String
  group           : String
  address         : String
  contractVersion : String
  revision        : String
  capacity        : Int
  handlers        : List String
  descriptions    : List (String × String)
  deriving DecidableEq, Repr

namespace Declaration

/-- The row the upsert writes at `u`, over the row that is there. -/
def row (e : Declaration) (u : Utc) (old : Option Registration) : Registration where
  executorId := e.executorId
  group := e.group
  address := e.address
  capacity := e.capacity
  running := (old.map (·.running)).getD 0
  handlers := e.handlers
  heartbeatAt := u
  contractVersion := e.contractVersion
  revision := e.revision
  identity := e.identity
  startedAt := (old.map (·.startedAt)).getD u
  writeSeq := (old.map (·.writeSeq)).getD 0
  descriptions := e.handlers.map fun h => (e.descriptions.lookup h).getD ""

/-- The columns of the two tables take the values. -/
def fits (e : Declaration) : Bool :=
  decide (e.executorId.length ≤ 128) && decide (e.group.length ≤ 64) && decide (e.address.length ≤ 255) &&
    decide (e.contractVersion.length ≤ 16) && decide (e.revision.length ≤ 64) && decide (e.identity.length ≤ 255)

/-- The loop that declares the handlers, of which `done` are declared. -/
def declare (e : Declaration) : List String → List String → Except Err Unit
  | _, [] => .ok ()
  | done, h :: rest =>
    if h = "" then .error ⟨.protocol, "executor " ++ e.executorId.quote ++ " declares an empty handler key"⟩
    else if h ∈ done ∨ 128 < h.length then
      .error ⟨.other, "declare handler " ++ h.quote ++ " of " ++ e.executorId.quote⟩
    else declare e (h :: done) rest

end Declaration

def Directory.register (d : Directory) (u : Utc) (e : Declaration) (livenessSeconds : Int) : Except Err Directory :=
  if e.executorId = "" ∨ e.group = "" ∨ e.address = "" then
    .error ⟨.protocol, "registration needs an id, a group and an address"⟩
  else if e.handlers = [] then .error ⟨.protocol, "executor " ++ e.executorId.quote ++ " declares no handlers"⟩
  else match e.descriptions.find? (fun p => decide (512 < p.2.length)) with
    | some p => .error ⟨.protocol, "handler " ++ p.1.quote ++ " description exceeds 512 characters"⟩
    | none =>
      let old := d.get? e.executorId
      match old.filter fun x => x.live livenessSeconds u && decide (x.address ≠ e.address) with
      | some x => .error ⟨.protocol, "executor id " ++ e.executorId.quote ++ " is already registered and alive at " ++
          x.address ++ "; a restart must mint a new id, because taking over this one would point recovery at the " ++
          "wrong process"⟩
      | none =>
        if !e.fits then .error ⟨.other, "register executor " ++ e.executorId.quote⟩
        else do
          e.declare [] e.handlers
          return d.upsert (e.row u old)

def Directory.executorHeartbeat (d : Directory) (u : Utc) (executorId identity : String) (running : Int) : Directory :=
  d.update (fun x => decide (x.executorId = executorId) && decide (x.identity = identity))
    (fun x => { x with writeSeq := x.writeSeq + 1, heartbeatAt := u, running := running }) (fun _ => rfl)

/-! ## The server -/

/-- A row of `executor_identity` for this tenant that is not disabled. -/
structure Grant where
  identity : String
  group    : String
  deriving DecidableEq, Repr

/-- What `Authorize` reads, and whether unlisted identities may act. -/
structure Access where
  grants        : List Grant
  allowUnlisted : Bool
  deriving DecidableEq, Repr

/-- `Authorize`, for this tenant: whether the call goes on. -/
def Access.authorize (a : Access) (identity group : String) (checkGroup : Bool) : Bool :=
  match a.grants.find? (fun g => decide (g.identity = identity)) with
  | none   => a.allowUnlisted
  | some g => !(checkGroup && decide (g.group ≠ "") && decide (g.group ≠ group))

structure RegisterRequest where
  executorId : String
  group      : String
  address    : String
  deriving DecidableEq, Repr

/-- What the process at an address says about itself when it is probed. -/
structure Description where
  handlerKeys     : List String
  descriptions    : List (String × String)
  capacity        : Int
  revision        : String
  contractVersion : String
  deriving DecidableEq, Repr

/-- What `Server.Register` records. -/
def RegisterRequest.declaration (req : RegisterRequest) (identity : String) (desc : Description) : Declaration where
  executorId := req.executorId
  identity := identity
  group := if req.group = "" then "default" else req.group
  address := req.address
  contractVersion := desc.contractVersion
  revision := desc.revision
  capacity := desc.capacity
  handlers := desc.handlerKeys
  descriptions := desc.descriptions

/-- A call of an executor, under the identity of its credential. -/
inductive ExecutorCall
  | register (identity : String) (req : RegisterRequest) (desc : Description)
  | heartbeat (identity executorId : String) (running : Int)
  deriving DecidableEq, Repr

def ExecutorCall.identity : ExecutorCall → String
  | register identity _ _  => identity
  | heartbeat identity _ _ => identity

/-- A call when the database clock shows `utc`, with what the control database says then. -/
structure Turn where
  call   : ExecutorCall
  access : Access
  utc    : Utc

/-- `Server.Register` and `Server.Heartbeat` behind the interceptor; a call that fails changes nothing.  The probe has
succeeded, with this description. -/
def Directory.serve (ttl : Int) (d : Directory) (t : Turn) : Directory :=
  match t.call with
  | .register identity req desc =>
    if !t.access.authorize identity req.group true then d
    else if req.executorId = "" ∨ req.address = "" then d
    else match d.register t.utc (req.declaration identity desc) ttl with
      | .ok d'   => d'
      | .error _ => d
  | .heartbeat identity executorId running =>
    if !t.access.authorize identity "" false then d
    else d.executorHeartbeat t.utc executorId identity running

/-! ## What a call changes -/

/-- The declaration is one `Store.Register` accepts, but for what it finds in the table. -/
structure Declaration.WellFormed (e : Declaration) : Prop where
  named        : e.executorId ≠ "" ∧ e.group ≠ "" ∧ e.address ≠ ""
  handlers     : e.handlers ≠ []
  descriptions : ∀ p ∈ e.descriptions, p.2.length ≤ 512
  fits         : e.fits = true
  keys         : ∀ h ∈ e.handlers, h ≠ "" ∧ h.length ≤ 128
  nodup        : e.handlers.Nodup

theorem Declaration.declare_ok_iff {e : Declaration} {done l : List String} :
    e.declare done l = .ok () ↔ (∀ h ∈ l, h ≠ "" ∧ h.length ≤ 128 ∧ h ∉ done) ∧ l.Nodup := by
  induction l generalizing done with
  | nil => simp [declare]
  | cons h l ih =>
    unfold declare
    by_cases h₁ : h = ""
    · simp [h₁]
    by_cases h₂ : h ∈ done ∨ 128 < h.length
    · rw [if_neg h₁, if_pos h₂]
      simp only [reduceCtorEq, List.forall_mem_cons, false_iff]
      rintro ⟨⟨⟨-, hlen, hdone⟩, -⟩, -⟩
      exact h₂.elim hdone (not_lt.2 hlen)
    · rw [if_neg h₁, if_neg h₂, ih]
      push Not at h₂
      rw [List.forall_mem_cons, List.nodup_cons]
      simp only [List.mem_cons, not_or]
      constructor
      · rintro ⟨hall, hnodup⟩
        exact ⟨⟨⟨h₁, h₂.2, h₂.1⟩, fun k hk => ⟨(hall k hk).1, (hall k hk).2.1, (hall k hk).2.2.2⟩⟩,
          fun hmem => (hall h hmem).2.2.1 rfl, hnodup⟩
      · rintro ⟨⟨-, hall⟩, hmem, hnodup⟩
        exact ⟨fun k hk => ⟨(hall k hk).1, (hall k hk).2.1, fun heq => hmem (heq ▸ hk), (hall k hk).2.2⟩, hnodup⟩

/-- **When a registration is accepted**, and what it writes. -/
theorem Directory.register_ok_iff {d d' : Directory} {u : Utc} {e : Declaration} {ttl : Int} :
    d.register u e ttl = .ok d' ↔ e.WellFormed ∧
      (∀ x, d.get? e.executorId = some x → x.live ttl u = true → x.address = e.address) ∧
      d' = d.upsert (e.row u (d.get? e.executorId)) := by
  unfold register
  by_cases h₁ : e.executorId = "" ∨ e.group = "" ∨ e.address = ""
  · rw [if_pos h₁]
    simp only [reduceCtorEq, false_iff]
    rintro ⟨hwf, -⟩
    have := hwf.named
    tauto
  by_cases h₂ : e.handlers = []
  · rw [if_neg h₁, if_pos h₂]
    simp only [reduceCtorEq, false_iff]
    rintro ⟨hwf, -⟩
    exact hwf.handlers h₂
  rw [if_neg h₁, if_neg h₂]
  cases h₃ : e.descriptions.find? (fun p => decide (512 < p.2.length)) with
  | some p =>
    simp only [reduceCtorEq, false_iff]
    rintro ⟨hwf, -⟩
    have hlong : 512 < p.2.length := by simpa using List.find?_some h₃
    have := hwf.descriptions p (List.mem_of_find?_eq_some h₃)
    omega
  | none =>
    have hdesc : ∀ p ∈ e.descriptions, p.2.length ≤ 512 := by simpa using h₃
    dsimp only
    cases h₄ : (d.get? e.executorId).filter (fun x => x.live ttl u && decide (x.address ≠ e.address)) with
    | some x =>
      obtain ⟨hx, hcond⟩ := Option.filter_eq_some_iff.1 h₄
      simp only [Bool.and_eq_true, decide_eq_true_eq] at hcond
      simp only [reduceCtorEq, false_iff]
      rintro ⟨-, hfree, -⟩
      exact hcond.2 (hfree x hx hcond.1)
    | none =>
      have hfree : ∀ x, d.get? e.executorId = some x → x.live ttl u = true → x.address = e.address := by
        simpa [Option.filter_eq_none_iff] using h₄
      dsimp only
      by_cases h₅ : e.fits = true
      · rw [if_neg (by simp [h₅])]
        cases h₆ : e.declare [] e.handlers with
        | error err =>
          have hno : ¬ e.declare [] e.handlers = .ok () := by simp [h₆]
          rw [Declaration.declare_ok_iff] at hno
          constructor
          · intro h
            cases h
          · rintro ⟨hwf, -⟩
            exact absurd ⟨fun k hk => ⟨(hwf.keys k hk).1, (hwf.keys k hk).2, by simp⟩, hwf.nodup⟩ hno
        | ok _ =>
          obtain ⟨hkeys, hnodup⟩ := Declaration.declare_ok_iff.1 h₆
          have hwf : e.WellFormed :=
            ⟨by tauto, h₂, hdesc, h₅, fun k hk => ⟨(hkeys k hk).1, (hkeys k hk).2.1⟩, hnodup⟩
          constructor
          · intro h
            cases h
            exact ⟨hwf, hfree, rfl⟩
          · rintro ⟨-, -, rfl⟩
            rfl
      · rw [if_pos (by simp [h₅])]
        simp only [reduceCtorEq, false_iff]
        rintro ⟨hwf, -⟩
        exact h₅ hwf.fits

section
variable {d : Directory} {ttl : Int} {t : Turn} {identity : String} {req : RegisterRequest} {desc : Description}

/-- The server accepts a registration: the identity may act, the declaration is in order, and the id is not alive at
another address. -/
def Directory.Accepts (d : Directory) (ttl : Int) (t : Turn) (identity : String) (req : RegisterRequest)
    (desc : Description) : Prop :=
  t.access.authorize identity req.group true = true ∧ (req.declaration identity desc).WellFormed ∧
    ∀ x, d.get? req.executorId = some x → x.live ttl t.utc = true → x.address = req.address

theorem Directory.serve_of_accepts (hcall : t.call = .register identity req desc)
    (h : d.Accepts ttl t identity req desc) :
    d.serve ttl t = d.upsert ((req.declaration identity desc).row t.utc (d.get? req.executorId)) := by
  obtain ⟨hauth, hwf, hfree⟩ := h
  have hnamed := hwf.named
  have hreg : d.register t.utc (req.declaration identity desc) ttl = .ok _ := register_ok_iff.2 ⟨hwf, hfree, rfl⟩
  have hne : ¬ (req.executorId = "" ∨ req.address = "") := fun h => h.elim hnamed.1 hnamed.2.2
  unfold serve
  rw [hcall]
  dsimp only
  rw [if_neg (by simp [hauth]), if_neg hne, hreg]
  rfl

theorem Directory.serve_of_not_accepts (hcall : t.call = .register identity req desc)
    (h : ¬ d.Accepts ttl t identity req desc) : d.serve ttl t = d := by
  unfold serve
  rw [hcall]
  dsimp only
  by_cases hauth : t.access.authorize identity req.group true = true
  · rw [if_neg (by simp [hauth])]
    split
    · rfl
    · cases hreg : d.register t.utc (req.declaration identity desc) ttl with
      | error err => rfl
      | ok d' =>
        obtain ⟨hwf, hfree, -⟩ := register_ok_iff.1 hreg
        exact absurd ⟨hauth, hwf, hfree⟩ h
  · rw [if_pos (by simpa using hauth)]

end

/-! ## Whose a registration is -/

/-- The registration is as it was, but for the load. -/
def Registration.Kept (x : Registration) (d : Directory) : Prop :=
  ∃ y, d.get? x.executorId = some y ∧ y.identity = x.identity ∧ y.address = x.address ∧ y.group = x.group ∧
    y.handlers = x.handlers ∧ y.descriptions = x.descriptions ∧ y.heartbeatAt = x.heartbeatAt

/-- **A takeover**: a call registers the executor id of `x` at the address of `x`, under another identity, and
everything else about it is in order. -/
def TakesOver (t : Turn) (x : Registration) : Prop :=
  ∃ identity req desc, t.call = .register identity req desc ∧ identity ≠ x.identity ∧
    t.access.authorize identity req.group true = true ∧ req.executorId = x.executorId ∧ req.address = x.address ∧
    (req.declaration identity desc).WellFormed

variable {d : Directory} {ttl : Int} {t : Turn} {x : Registration}

theorem kept_of_get? (h : d.get? x.executorId = some x) : x.Kept d := ⟨x, h, rfl, rfl, rfl, rfl, rfl, rfl⟩

/-- A heartbeat under another identity misses the registration. -/
theorem kept_of_heartbeat {identity executorId : String} {running : Int} (hx : d.get? x.executorId = some x)
    (hother : identity ≠ x.identity) (hcall : t.call = .heartbeat identity executorId running) :
    x.Kept (d.serve ttl t) := by
  unfold Directory.serve
  rw [hcall]
  dsimp only
  split
  · exact kept_of_get? hx
  · refine kept_of_get? ?_
    unfold Directory.executorHeartbeat
    rw [Table.get?_update, hx]
    simp [Ne.symm hother]

/-- **A call under another identity leaves a live registration alone**, exactly if it is not a takeover. -/
theorem kept_iff (hx : d.get? x.executorId = some x) (hlive : x.live ttl t.utc = true)
    (hother : t.call.identity ≠ x.identity) : x.Kept (d.serve ttl t) ↔ ¬ TakesOver t x := by
  constructor
  · rintro ⟨y, hy, hid, -⟩ ⟨identity, req, desc, hcall, hne, hauth, hexec, haddr, hwf⟩
    have hacc : d.Accepts ttl t identity req desc := ⟨hauth, hwf, fun y hy _ => by
      rw [hexec, hx] at hy
      cases hy
      exact haddr.symm⟩
    have hkey : ((req.declaration identity desc).row t.utc (d.get? req.executorId)).executorId = x.executorId := hexec
    rw [Directory.serve_of_accepts hcall hacc, Table.get?_upsert, if_pos hkey] at hy
    cases hy
    exact hne hid
  · intro hno
    cases hcall : t.call with
    | heartbeat identity executorId running =>
      rw [hcall] at hother
      exact kept_of_heartbeat hx hother hcall
    | register identity req desc =>
      rw [hcall] at hother
      by_cases hacc : d.Accepts ttl t identity req desc
      · have hne : req.executorId ≠ x.executorId := fun heq => by
          have haddr := hacc.2.2 x (by rw [heq, hx]) hlive
          exact hno ⟨identity, req, desc, hcall, hother, hacc.1, heq, haddr.symm, hacc.2.1⟩
        have hkey : ((req.declaration identity desc).row t.utc (d.get? req.executorId)).executorId ≠ x.executorId := hne
        rw [Directory.serve_of_accepts hcall hacc]
        refine kept_of_get? ?_
        rw [Table.get?_upsert, if_neg hkey, hx]
      · rw [Directory.serve_of_not_accepts hcall hacc]
        exact kept_of_get? hx

/-- One call after another. -/
def Turns (ttl : Int) (d : Directory) (t : Turn) (d' : Directory) : Prop := d' = d.serve ttl t

/-- Two identities that may act as any group. -/
def sampleAccess : Access := ⟨[⟨"alpha", ""⟩, ⟨"beta", ""⟩], false⟩

/-- An identity registers the executor `e1` at its address. -/
def registersE1 (identity : String) (u : Utc) : Turn where
  call := .register identity ⟨"e1", "", "10.0.0.1:7000"⟩ ⟨["handler"], [("handler", "a handler")], 4, "r1", "1"⟩
  access := sampleAccess
  utc := u

def heartbeatsE1 (identity : String) (u : Utc) : Turn := ⟨.heartbeat identity "e1" 2, sampleAccess, u⟩

end GoJob
