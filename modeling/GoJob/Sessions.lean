import GoJob.Control
import GoJob.Cron.Parse
import GoJob.Runs
import GoJob.WallClock
/-!
# Sessions — who a request to the operator API comes from (`admin/auth.go`)

A sign-in checks a password and stores the hash of a random token; a request shows the token.  The account is looked up
again at each request, so what counts is its present role and whether it is disabled now.  A session ends when it is
signed out of, or when the wall clock reaches the expiry it was stored with.
-/
namespace GoJob
namespace Admin

open Rel Sys

/-! ## Accounts -/

def trimSpace (s : String) : String := String.ofList (Cron.trimSpace s.toList)

inductive Role
  | viewer
  | operator
  deriving DecidableEq, Repr

def Role.text : Role → String
  | .viewer   => "VIEWER"
  | .operator => "OPERATOR"

/-- `Role.allows`, of the text an account has for its role. -/
def allows (role : String) : Role → Bool
  | .viewer   => decide (role = Role.viewer.text) || decide (role = Role.operator.text)
  | .operator => decide (role = Role.operator.text)

/-- The functions outside the package: `hashToken`, the two of `bcrypt`, and `strings.ToUpper`. -/
structure Lib where
  hashToken : String → String
  generate  : String → Except String String
  compare   : String → String → Bool
  toUpper   : String → String

/-- A row of `admin_user`. -/
structure User where
  username     : String
  passwordHash : String
  role         : String
  disabled     : Bool
  deriving DecidableEq, Repr

/-- The primary key, where the database compares text by the sort key `coll`. -/
def User.key (coll : String → String) (u : User) : String := coll u.username

abbrev Users (coll : String → String) := Table (User.key coll)

/-- A row of `admin_session`.  Its times are what the wall clock of the business zone shows. -/
structure Session where
  hash      : String
  username  : String
  role      : Role
  createdAt : Int
  expiresAt : Int
  deriving DecidableEq, Repr

section accounts

variable {coll : String → String} (lib : Lib)

def hashPassword (password : String) : Except String String :=
  if password.utf8ByteSize < 12 then
    .error "a password for an account that can trigger production jobs must be at least 12 characters"
  else (lib.generate password).mapError ("hash password: " ++ ·)

def createFirstAdmin (users : Users coll) (username password : String) : Except Control.Err (Users coll) :=
  if username = "" then .error (.protocol "a username is required")
  else match hashPassword lib password with
    | .error e => .error (.protocol e)
    | .ok hash =>
      if h : users.rows = [] then
        .ok (users.insert ⟨username, hash, Role.operator.text, false⟩ (by simp [h]))
      else .error (.protocol "this installation already has an administrator; first-run setup is closed")

def setupNeeded (users : Users coll) : Bool := decide (users.rows.countP (fun u => !u.disabled) = 0)

/-- **Set-up is offered and refused** where there are accounts, and all of them are disabled. -/
theorem setup_refused {users : Users coll} (hsome : users.rows ≠ []) (hall : ∀ u ∈ users.rows, u.disabled = true) :
    setupNeeded users = true ∧ ∀ username password, ∃ e, createFirstAdmin lib users username password = .error e := by
  refine ⟨decide_eq_true (List.countP_eq_zero.2 fun u hu => by simp [hall u hu]), fun username password => ?_⟩
  unfold createFirstAdmin
  repeat' split
  all_goals exact ⟨_, rfl⟩

def verify (users : Users coll) (username password : String) : Except String Role :=
  match users.get? (coll username) with
  | none => .error "invalid credentials"
  | some u =>
    if u.disabled then .error "invalid credentials"
    else if lib.compare u.passwordHash password = false then .error "invalid credentials"
    else if lib.toUpper u.role = Role.viewer.text then .ok .viewer
    else if lib.toUpper u.role = Role.operator.text then .ok .operator
    else .error ("account " ++ username.quote ++ " has an unknown role " ++ u.role.quote)

theorem verify_ok {users : Users coll} {username password : String} {r : Role}
    (h : verify lib users username password = .ok r) :
    ∃ u, users.get? (coll username) = some u ∧ u.disabled = false ∧ lib.compare u.passwordHash password = true := by
  unfold verify at h
  split at h
  · cases h
  rename_i u hu
  split at h
  · cases h
  rename_i hon
  split at h
  · cases h
  rename_i hmatch
  exact ⟨u, hu, by simpa using hon, by simpa using hmatch⟩

end accounts

/-! ## The steps -/

/-- The accounts, the sessions, and the sign-ins whose password was right and whose session is not stored yet. -/
structure Desk (coll : String → String) where
  users    : Users coll
  sessions : Table Session.hash
  verified : List (String × Role)
  now      : Instant

def Desk.init (coll : String → String) (t : Instant) : Desk coll := ⟨.empty, .empty, [], t⟩

/-- A statement of the package, or accounts edited by hand.  A sign-in is `verify`, `issue` and, with the instant of the
`issue`, `sweep`. -/
inductive Op (coll : String → String)
  | accounts (users : Users coll)
  | createFirstAdmin (username password : String)
  | verify (username password : String)
  | issue (username : String) (role : Role) (token : String)
  | sweep (at_ : Instant)
  | revoke (token : String)

section steps

variable {coll : String → String} (lib : Lib) (loc : Location) (ttl : Instant)

def newSession (now : Instant) (username : String) (role : Role) (token : String) : Session :=
  ⟨lib.hashToken token, username, role, loc.reading now, loc.reading (datetime (now + ttl))⟩

/-- A session whose hash is taken is not stored, and its sign-in fails. -/
def store (sessions : Table Session.hash) (s : Session) : Table Session.hash :=
  if h : s.hash ∉ sessions.rows.map Session.hash then sessions.insert s h else sessions

/-- One step, at an instant; `none` if it is not its turn. -/
def Desk.step (d : Desk coll) (l : Op coll × Instant) : Option (Desk coll) :=
  if l.2 < d.now then none
  else match l.1 with
    | .accounts users => some { d with users := users, now := l.2 }
    | .createFirstAdmin username password =>
      some { d with users := (createFirstAdmin lib d.users username password).toOption.getD d.users, now := l.2 }
    | .verify username password => some { d with
        verified := d.verified ++ ((verify lib d.users username password).toOption.map (username, ·)).toList
        now := l.2 }
    | .issue username role token =>
      if (username, role) ∈ d.verified then some { d with
        sessions := store d.sessions (newSession lib loc ttl l.2 username role token)
        verified := d.verified.erase (username, role), now := l.2 }
      else none
    | .sweep at_ =>
      if at_ ≤ l.2 then some { d with
        sessions := d.sessions.delete (fun s => decide (s.expiresAt ≤ loc.reading at_)), now := l.2 }
      else none
    | .revoke token => some { d with
        sessions := d.sessions.delete (fun s => decide (s.hash = lib.hashToken token)), now := l.2 }

def Desk.Step (d : Desk coll) (l : Op coll × Instant) (d' : Desk coll) : Prop := d.step lib loc ttl l = some d'

abbrev Desk.History (coll : String → String) := List (Desk coll × (Op coll × Instant) × Desk coll)

/-- **Everything a step can do.** -/
inductive Desk.Move (d : Desk coll) (t : Instant) : Op coll → Desk coll → Prop
  | accounts {users : Users coll} : Desk.Move d t (.accounts users) { d with users := users, now := t }
  | createFirstAdmin {username password : String} : Desk.Move d t (.createFirstAdmin username password) { d with
      users := (createFirstAdmin lib d.users username password).toOption.getD d.users, now := t }
  | verify {username password : String} : Desk.Move d t (.verify username password) { d with
      verified := d.verified ++ ((verify lib d.users username password).toOption.map (username, ·)).toList, now := t }
  | issue {username token : String} {role : Role} (hv : (username, role) ∈ d.verified) :
      Desk.Move d t (.issue username role token) { d with
        sessions := store d.sessions (newSession lib loc ttl t username role token)
        verified := d.verified.erase (username, role), now := t }
  | sweep {at_ : Instant} (h : at_ ≤ t) : Desk.Move d t (.sweep at_) { d with
      sessions := d.sessions.delete (fun s => decide (s.expiresAt ≤ loc.reading at_)), now := t }
  | revoke {token : String} : Desk.Move d t (.revoke token) { d with
      sessions := d.sessions.delete (fun s => decide (s.hash = lib.hashToken token)), now := t }

variable {lib loc ttl} in
theorem Desk.Step.move {d d' : Desk coll} {l : Op coll × Instant} (h : d.Step lib loc ttl l d') :
    d.Move lib loc ttl l.2 l.1 d' := by
  obtain ⟨op, t⟩ := l
  unfold Desk.Step Desk.step at h
  split at h
  · cases h
  cases op with
  | accounts | createFirstAdmin | verify | revoke =>
    obtain rfl := Option.some.inj h
    constructor
  | issue | sweep =>
    dsimp only at h
    split at h
    · obtain rfl := Option.some.inj h
      constructor
      assumption
    · cases h

/-! ## A request -/

/-- What a reverse proxy may say, if it is trusted. -/
structure TrustedHeader where
  enabled     : Bool
  defaultRole : String := Role.viewer.text

/-- The headers of a request, as the configuration names them, and its session cookie. -/
structure Request where
  user   : String
  role   : String
  cookie : Option String

def Desk.identify (trusted : TrustedHeader) (d : Desk coll) (now : Instant) (req : Request) :
    Option (String × String) :=
  if trusted.enabled ∧ trimSpace req.user ≠ "" then
    let got := lib.toUpper (trimSpace req.role)
    some (trimSpace req.user,
      if got = Role.operator.text ∨ got = Role.viewer.text then got else trusted.defaultRole)
  else
    req.cookie.bind fun c =>
      ((d.sessions.get? (lib.hashToken c)).filter fun s => decide (loc.reading now < s.expiresAt)).bind fun s =>
        ((d.users.get? (coll s.username)).filter fun u => !u.disabled).map fun u => (s.username, u.role)

inductive Answer
  | unauthorized (error : String)
  | forbidden (error : String)
  | serve (actor role : String)
  deriving DecidableEq, Repr

/-- `Require`. -/
def Desk.require (trusted : TrustedHeader) (required : Role) (d : Desk coll) (now : Instant) (req : Request) : Answer :=
  match d.identify lib loc trusted now req with
  | none => .unauthorized "not signed in"
  | some (actor, role) =>
    if allows role required then .serve actor role
    else .forbidden ("this action requires " ++ required.text ++ "; you are " ++ role)

end steps

/-! ## Where a session comes from -/

section trace

variable {coll : String → String} (lib : Lib) (loc : Location) (ttl : Instant)

/-- The session a step opens. -/
def opened (x : Desk coll × (Op coll × Instant) × Desk coll) : Option Session :=
  match x.2.1.1 with
  | .issue username role token =>
    let s := newSession lib loc ttl x.2.1.2 username role token
    if (x.1.sessions.get? s.hash).isNone then some s else none
  | _ => none

/-- A step that ends a session: it is signed out of, or found expired. -/
def closes (s : Session) (x : Desk coll × (Op coll × Instant) × Desk coll) : Bool :=
  match x.2.1.1 with
  | .revoke token => decide (s.hash = lib.hashToken token)
  | .sweep at_ => decide (s.expiresAt ≤ loc.reading at_)
  | _ => false

variable {lib loc ttl} {d d' : Desk coll} {l : Op coll × Instant} {tr : Desk.History coll}

theorem get?_store (t : Table Session.hash) (s r : Session) :
    (store t s).get? r.hash = some r ↔ ((t.get? s.hash).isNone = true ∧ s = r) ∨ t.get? r.hash = some r := by
  unfold store
  by_cases hs : s.hash ∈ t.rows.map Session.hash
  · obtain ⟨x, hx⟩ : ∃ x, t.get? s.hash = some x :=
      Option.ne_none_iff_exists'.1 (fun hn => Table.get?_eq_none_iff_notMem.1 hn hs)
    simp [hs, hx]
  · have hnone : t.get? s.hash = none := Table.get?_eq_none_iff_notMem.2 hs
    rw [dif_pos hs, Table.get?_insert, hnone]
    by_cases hk : s.hash = r.hash
    · rw [if_pos hk, ← hk, hnone]
      simp
    · rw [if_neg hk]
      have hne : s ≠ r := fun h => hk (by rw [h])
      simp [hne]

/-- **What a step does to a session.** -/
theorem Desk.Step.session (h : d.Step lib loc ttl l d') (s : Session) : d'.sessions.get? s.hash = some s ↔
    opened lib loc ttl (d, l, d') = some s ∨
      d.sessions.get? s.hash = some s ∧ ¬ closes lib loc s (d, l, d') = true := by
  obtain ⟨op, t⟩ := l
  cases h.move with
  | accounts | createFirstAdmin | verify => simp [opened, closes]
  | issue =>
    rw [get?_store]
    simp [opened, closes]
  | sweep | revoke => simp [Table.get?_delete, Option.filter_eq_some_iff, opened, closes]

/-- **A session is there exactly if it was opened and not ended since.** -/
theorem session_iff {t : Instant} (hr : Run (Desk.Step lib loc ttl) (Desk.init coll t) tr d) (s : Session) :
    d.sessions.get? s.hash = some s ↔ ∃ pre x post, tr = pre ++ x :: post ∧ opened lib loc ttl x = some s ∧
      ∀ y ∈ post, ¬ closes lib loc s y = true :=
  Run.since (P := fun d : Desk coll => d.sessions.get? s.hash = some s) (fun hst => hst.session s)
    (by simp [Desk.init, Table.empty, Table.get?]) hr

/-- The step is a sign-in whose password is right, by an account that is enabled. -/
def SignsIn (lib : Lib) (username : String) (x : Desk coll × (Op coll × Instant) × Desk coll) : Prop :=
  ∃ password u, x.2.1.1 = .verify username password ∧ x.1.users.get? (coll username) = some u ∧ u.disabled = false ∧
    lib.compare u.passwordHash password = true

/-- Whoever is about to get a session has shown a password. -/
theorem verified_signed_in {t : Instant} (hr : Run (Desk.Step lib loc ttl) (Desk.init coll t) tr d) :
    ∀ v ∈ d.verified, ∃ y ∈ tr, SignsIn lib v.1 y := by
  induction hr with
  | nil => intro v hv; cases hv
  | @snoc tr d d' l hr hst ih =>
    intro v hv
    have earlier : v ∈ d.verified → ∃ y ∈ tr ++ [(d, l, d')], SignsIn lib v.1 y := fun hv => by
      obtain ⟨y, hy, hs⟩ := ih v hv
      exact ⟨y, List.mem_append_left _ hy, hs⟩
    obtain ⟨op, t⟩ := l
    cases hst.move with
    | accounts | createFirstAdmin | revoke | sweep => exact earlier hv
    | issue => exact earlier (List.mem_of_mem_erase hv)
    | @verify username password =>
      rcases List.mem_append.1 hv with hv | hv
      · exact earlier hv
      · cases hok : verify lib d.users username password with
        | error e => rw [hok] at hv; cases hv
        | ok r =>
          rw [hok] at hv
          obtain rfl : v = (username, r) := List.mem_singleton.1 hv
          obtain ⟨u, hu, hon, hmatch⟩ := verify_ok lib hok
          exact ⟨_, List.mem_append_right _ (List.mem_singleton_self _), password, u, rfl, hu, hon, hmatch⟩

/-- A step that opens a session does so for a sign-in, and stores its expiry. -/
theorem Desk.Step.opened (h : d.Step lib loc ttl l d') {s : Session} (ho : opened lib loc ttl (d, l, d') = some s) :
    (s.username, s.role) ∈ d.verified ∧ s.expiresAt = loc.reading (datetime (l.2 + ttl)) := by
  obtain ⟨op, t⟩ := l
  cases h.move with
  | issue hv =>
    simp only [Admin.opened] at ho
    split at ho
    · obtain rfl := Option.some.inj ho
      exact ⟨hv, rfl⟩
    · cases ho
  | _ => cases ho

theorem require_eq_serve {trusted : TrustedHeader} {required : Role} {now : Instant} {req : Request}
    {actor role : String} : d.require lib loc trusted required now req = .serve actor role ↔
      allows role required = true ∧ d.identify lib loc trusted now req = some (actor, role) := by
  unfold Desk.require
  cases d.identify lib loc trusted now req with
  | none => simp
  | some p =>
    obtain ⟨a, r⟩ := p
    dsimp only
    split
    · rename_i hallow
      simp only [Answer.serve.injEq, Option.some.injEq, Prod.mk.injEq]
      constructor
      · rintro ⟨rfl, rfl⟩
        exact ⟨hallow, rfl, rfl⟩
      · exact And.right
    · rename_i hdeny
      simp only [reduceCtorEq, Option.some.injEq, Prod.mk.injEq, false_iff]
      rintro ⟨hallow, -, rfl⟩
      exact hdeny hallow

/-- The answer to a request that no proxy speaks for. -/
theorem require_serve {trusted : TrustedHeader} {required : Role} {now : Instant} {req : Request} {actor role : String}
    (hproxy : trusted.enabled = false ∨ trimSpace req.user = "") :
    d.require lib loc trusted required now req = .serve actor role ↔ allows role required = true ∧ ∃ c s u,
      req.cookie = some c ∧ s.hash = lib.hashToken c ∧ d.sessions.get? s.hash = some s ∧ s.username = actor ∧
      loc.reading now < s.expiresAt ∧ d.users.get? (coll actor) = some u ∧ u.disabled = false ∧ u.role = role := by
  have hskip : ¬ (trusted.enabled = true ∧ trimSpace req.user ≠ "") := by
    rcases hproxy with h | h <;> simp [h]
  rw [require_eq_serve, Desk.identify, if_neg hskip]
  refine and_congr_right fun _ => ⟨fun h => ?_, ?_⟩
  · obtain ⟨c, hc, h⟩ := Option.bind_eq_some_iff.1 h
    obtain ⟨s, hs, h⟩ := Option.bind_eq_some_iff.1 h
    obtain ⟨u, hu, h⟩ := Option.map_eq_some_iff.1 h
    obtain ⟨hs, hlive⟩ := Option.filter_eq_some_iff.1 hs
    obtain ⟨hu, hon⟩ := Option.filter_eq_some_iff.1 hu
    cases h
    have hhash : s.hash = lib.hashToken c := Table.get?_key hs
    exact ⟨c, s, u, hc, hhash, hhash ▸ hs, rfl, of_decide_eq_true hlive, hu, by simpa using hon, rfl⟩
  · rintro ⟨c, s, u, hc, hhash, hs, rfl, hlive, hu, hon, rfl⟩
    simp [hc, ← hhash, hs, Option.filter_some, hlive, hu, hon]

/-- **A request is served exactly if its session is.**  Where no proxy speaks for it, it needs a cookie whose token was
stored by a sign-in, which nobody has signed out of since and whose expiry the wall clock has not reached, neither now
nor when a sweep looked; and the account's present role must allow it, with the account enabled now.  Every session was
stored for someone who had shown the right password of an enabled account. -/
theorem request_is_signed_in {t : Instant} (hr : Run (Desk.Step lib loc ttl) (Desk.init coll t) tr d)
    {trusted : TrustedHeader} {req : Request} (hproxy : trusted.enabled = false ∨ trimSpace req.user = "")
    (required : Role) (now : Instant) (actor role : String) :
    (d.require lib loc trusted required now req = .serve actor role ↔ allows role required = true ∧ ∃ c s u,
      req.cookie = some c ∧ s.hash = lib.hashToken c ∧
      (∃ pre x post, tr = pre ++ x :: post ∧ opened lib loc ttl x = some s ∧ ∀ y ∈ post, ¬ closes lib loc s y = true) ∧
      s.username = actor ∧ loc.reading now < s.expiresAt ∧
      d.users.get? (coll actor) = some u ∧ u.disabled = false ∧ u.role = role) ∧
    ∀ pre x post s, tr = pre ++ x :: post → opened lib loc ttl x = some s →
      s.expiresAt = loc.reading (datetime (x.2.1.2 + ttl)) ∧ ∃ y ∈ pre, SignsIn lib s.username y := by
  refine ⟨?_, fun pre x post s htr ho => ?_⟩
  · rw [require_serve hproxy]
    simp only [session_iff hr]
  · subst htr
    obtain ⟨hpre, hst, -⟩ := hr.cut
    obtain ⟨hv, hexp⟩ := Desk.Step.opened hst ho
    exact ⟨hexp, verified_signed_in hpre _ hv⟩

end trace

/-- Plain functions in the place of the hashes. -/
def plainLib : Lib := ⟨("sha256:" ++ ·), fun p => .ok ("bcrypt:" ++ p), fun h p => decide (h = "bcrypt:" ++ p), id⟩

def utcLocation : Location := ⟨fun _ => 0, id, fun _ => by simp, fun _ => by simp⟩

def noProxy : TrustedHeader := ⟨false, Role.viewer.text⟩

def showsToken : Request := ⟨"", "", some "token"⟩

/-- The first administrator is created, signs in and is served: they had shown their password. -/
theorem request_is_signed_in_first : ∃ (d : Desk id) (tr : Desk.History id),
    Run (Desk.Step plainLib utcLocation (3600 * second)) (Desk.init id 0) tr d ∧
    d.require plainLib utcLocation noProxy .operator (60 * second) showsToken = .serve "admin" "OPERATOR" ∧
      ∃ y ∈ tr, SignsIn plainLib "admin" y := by
  obtain ⟨tr, d, hr, hq⟩ := play_checked (Desk.step plainLib utcLocation (3600 * second)) (Desk.init id 0)
    [(.createFirstAdmin "admin" "correct horse", 0), (.verify "admin" "correct horse", 0),
      (.issue "admin" .operator "token", 0), (.sweep 0, 0)]
    (fun _ d => decide (d.require plainLib utcLocation noProxy .operator (60 * second) showsToken =
      .serve "admin" "OPERATOR")) (by decide +kernel)
  have hserve := of_decide_eq_true hq
  have hproxy : noProxy.enabled = false ∨ trimSpace showsToken.user = "" := Or.inl rfl
  obtain ⟨hiff, hopened⟩ := request_is_signed_in hr hproxy .operator (60 * second) "admin" "OPERATOR"
  obtain ⟨-, c, s, u, -, -, ⟨pre, x, post, htr, ho, -⟩, hname, -⟩ := hiff.1 hserve
  obtain ⟨-, y, hy, hsign⟩ := hopened pre x post s htr ho
  exact ⟨d, tr, hr, hserve, y, htr ▸ List.mem_append_left _ hy, hname ▸ hsign⟩

end Admin
end GoJob
