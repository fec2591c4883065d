import GoJob.Control
import GoJob.Server
/-!
# Registry — an instance's tenants (`runtime/registry.go`)

A poll loop reads the control database and brings the admitted tenants in line with it.  Admissions and retirements run
beside it.  They share a few maps under a lock, so what is one step here is one locked section or one call to the
control database (`Op`), with the local work next to it.  Anything may happen between two steps.
-/
namespace GoJob
namespace Runtime

open Rel

/-! ## The state -/

/-- A `tenant` that was published: its engine, and how far its retirement is. -/
structure Tenant where
  name           : String
  generation     : Nat
  dsn            : String
  draining       : Bool := false
  retireDeferred : Bool := false
  /-- The engine was told to stop claiming. -/
  stopClaim      : Bool := false
  deriving DecidableEq, Repr

/-- Where an admission is: opening its pool and checking its schema, asking for the current generation, with the answer,
published, or about to say so. -/
inductive Stage
  | opening
  | confirming (provedAt : Instant)
  | confirmed (provedAt : Instant)
  | published
  | observing (quiesced : Bool)
  deriving DecidableEq

/-- An admission in flight, for the row a pass read, and the instant it was announced at. -/
structure Admission where
  row         : Control.Tenant
  announcedAt : Instant
  stage       : Stage
  deriving DecidableEq

/-- Where a retirement is: draining, with its tenant removed, or about to acknowledge. -/
inductive Departure
  | draining
  | removed
  | acking (quiesced : Bool)
  deriving DecidableEq, Repr

structure Retirement where
  object        : Nat
  name          : String
  ackGeneration : Nat
  stage         : Departure
  deriving DecidableEq, Repr

/-- The rows of a registry read. -/
abbrev Rows := Table Control.Tenant.name

/-- Where `reconcile` is.  `have_` holds the tenants it found running, with their objects, and `todo` what the loop it
is in has still to visit, in any order. -/
inductive Pass
  | polling (readAt : Instant)
  | read (readAt : Instant) (rows : Rows)
  | applied (readAt : Instant) (rows : Rows)
  | retiring (readAt : Instant) (rows : Rows) (have_ todo : List (String × Nat))
  | observing (readAt : Instant) (rows : Rows) (have_ : List (String × Nat)) (todo : List Control.Tenant)
      (observed : Bool)
  | reporting (readAt : Instant) (rows : Rows) (have_ : List (String × Nat)) (todo : List Control.Tenant)
      (observed : Bool) (t : Control.Tenant) (quiesced : Bool)
  | admitting (todo : List Control.Tenant)
  | beginning (todo : List Control.Tenant) (t : Control.Tenant)
  | announcing (todo : List Control.Tenant) (t : Control.Tenant)

/-- `Registry`.  The maps point into `objects`, which holds every tenant ever published.  A name in `admitting` comes
with the admission its flag stands for, once that has started.  `last` is the read the last pass applied. -/
structure Registry where
  tenants     : AList (fun _ : String => Nat)              := ∅
  seen        : AList (fun _ : String => Nat)              := ∅
  admitting   : AList (fun _ : String => Option Admission) := ∅
  objects     : List Tenant                                := []
  retirements : List Retirement                            := []
  pass        : Option Pass                                := none
  lastRead    : Option Instant                             := none
  last        : Rows                                       := .empty

def Registry.lookup (r : Registry) (name : String) : Server.Availability :=
  if name ∈ r.tenants then .available else if name ∈ r.seen then .pending else .unknown

/-! ## Locked sections -/

/-- What `reconcile` does with `seen` for one row. -/
def Registry.see (r : Registry) (seen : AList (fun _ : String => Nat)) (t : Control.Tenant) :
    AList (fun _ : String => Nat) :=
  let seen := if (seen.lookup t.name).getD 0 < t.generation ∧ t.enabled then seen.insert t.name t.generation else seen
  if t.enabled then seen else if t.name ∈ r.tenants then seen else seen.erase t.name

/-- Forgets a name the read does not have. -/
def forget (rows : Rows) (seen : AList (fun _ : String => Nat)) (name : String) : AList (fun _ : String => Nat) :=
  if (rows.get? name).isSome then seen else seen.erase name

/-- `seen` after a read. -/
def Registry.seenAfter (r : Registry) (rows : Rows) : AList (fun _ : String => Nat) :=
  let seen := rows.rows.foldl r.see r.seen
  seen.keys.foldl (forget rows) seen

/-- `want`, of a read. -/
def want (rows : Rows) (name : String) : Option Control.Tenant := (rows.get? name).filter (·.enabled)

/-- `registered`, of a read; 0 for a tenant it does not have. -/
def registered (rows : Rows) (name : String) : Nat := (rows.get? name).elim 0 Control.Tenant.generation

/-- A running tenant of this generation is not what the read wants. -/
def superseded (rows : Rows) (name : String) (generation : Nat) : Bool :=
  (want rows name).all (fun w => decide (w.generation ≠ generation))

def skipRetirement (draining deferred : Bool) : Bool := draining && !deferred

/-- Changes one published tenant. -/
def Registry.modify (r : Registry) (k : Nat) (f : Tenant → Tenant) : Registry :=
  { r with objects := r.objects.modify k f }

/-- A retirement starts: the engine stops claiming, the rest happens beside the loop. -/
def Registry.startRetirement (r : Registry) (rows : Rows) (name : String) (k : Nat) : Registry :=
  { r.modify k (fun t => { t with retireDeferred := false, draining := true, stopClaim := true }) with
    retirements := r.retirements ++ [⟨k, name, registered rows name, .draining⟩] }

/-- `quiesced`, as `observe` finds it; `idle` says whether the engine tracks nothing. -/
def Registry.quiesced (r : Registry) (name : String) (idle : Bool) : Bool :=
  if name ∈ r.tenants then idle else true

/-- The admission under a name goes on. -/
def Registry.setAdmission (r : Registry) (name : String) (a : Admission) (stage : Stage) : Registry :=
  { r with admitting := r.admitting.insert name (some { a with stage := stage }) }

def Registry.endAdmit (r : Registry) (name : String) : Registry := { r with admitting := r.admitting.erase name }

/-- The publication of an admitted tenant. -/
def Registry.publish (r : Registry) (name : String) (a : Admission) : Registry :=
  { r.setAdmission name a .published with
    objects := r.objects ++ [⟨name, a.row.generation, a.row.dsn, false, false, false⟩]
    tenants := r.tenants.insert name r.objects.length }

/-- The end of a retirement: the tenant is routed to no longer, and no longer pending. -/
def Registry.remove (r : Registry) (d : Retirement) : Registry :=
  { r with
    tenants := if r.tenants.lookup d.name = some d.object then r.tenants.erase d.name else r.tenants
    seen := r.seen.erase d.name }

/-- A retirement with no generation to acknowledge is over once its tenant is removed. -/
def Registry.afterRemoval (r : Registry) (n : Nat) (d : Retirement) : List Retirement :=
  if d.ackGeneration = 0 then r.retirements.eraseIdx n else r.retirements.set n { d with stage := .removed }

/-! ## Steps -/

/-- One step of an instance.  A call to the control database comes with its answer; a write that failed may have been
made all the same.  Admissions go by the tenant's name, retirements by their place in the list. -/
inductive Op
  | poll
  | read (rows : Rows)
  | readFailed
  | apply
  | snapshot
  | retire (name : String) (object : Nat)
  | retired
  | look (t : Control.Tenant) (idle : Bool)
  | report (wrote landed : Bool)
  | refresh
  | check (t : Control.Tenant)
  | begin
  | announce (wrote landed : Bool)
  | done
  | confirm (name : String)
  | confirmed (name : String) (answer : Option (Nat × Bool))
  | publish (name : String)
  | settle (name : String) (idle : Bool)
  | settled (name : String) (wrote : Bool)
  | abandon (name : String)
  | postpone (n : Nat)
  | finish (n : Nat)
  | survey (n : Nat) (idle : Bool)
  | acknowledge (n : Nat) (wrote : Bool)

/-- The admission in flight under a name. -/
def Registry.admission? (r : Registry) (name : String) : Option Admission := (r.admitting.lookup name).join

/-- A stage an admission may fail in. -/
def Stage.failing : Stage → Bool
  | .opening | .confirming _ | .confirmed _ => true
  | _ => false

/-- **One step**, at the instant `now` and under a staleness limit; `none` if it is not its turn. -/
def Registry.step (limit now : Instant) (r : Registry) : Op → Option Registry
  | .poll => match r.pass with
    | none => some { r with pass := some (.polling now) }
    | _ => none
  | .read rows => match r.pass with
    | some (.polling t) => some { r with pass := some (.read t rows) }
    | _ => none
  | .readFailed => match r.pass with
    | some (.polling _) => some { r with pass := none }
    | _ => none
  | .apply => match r.pass with
    | some (.read t rows) =>
      some { r with seen := r.seenAfter rows, last := rows, pass := some (.applied t rows) }
    | _ => none
  | .snapshot => match r.pass with
    | some (.applied t rows) =>
      let held := r.tenants.entries.map (fun p => (p.1, p.2))
      some { r with pass := some (.retiring t rows held held) }
    | _ => none
  | .retire name k => match r.pass, r.objects[k]? with
    | some (.retiring t rows held todo), some x =>
      if (name, k) ∉ todo then none
      else if superseded rows name x.generation = false then
        some { r with pass := some (.retiring t rows held (todo.erase (name, k))) }
      else if skipRetirement x.draining x.retireDeferred then
        some { r with pass := some (.retiring t rows (held.erase (name, k)) (todo.erase (name, k))) }
      else
        some { r.startRetirement rows name k with
          pass := some (.retiring t rows (held.erase (name, k)) (todo.erase (name, k))) }
    | _, _ => none
  | .retired => match r.pass with
    | some (.retiring t rows held []) =>
      some { r with pass := some (.observing t rows held
        (rows.rows.filter (fun w => w.enabled && decide (w.name ∈ held.map Prod.fst))) true) }
    | _ => none
  | .look w idle => match r.pass with
    | some (.observing t rows held todo observed) =>
      if w ∈ todo then
        some { r with pass := some (.reporting t rows held (todo.erase w) observed w (r.quiesced w.name idle)) }
      else none
    | _ => none
  | .report wrote landed => match r.pass with
    | some (.reporting t rows held todo observed _ _) =>
      if landed && !wrote then none
      else some { r with pass := some (.observing t rows held todo (landed && observed)) }
    | _ => none
  | .refresh => match r.pass with
    | some (.observing t rows held [] observed) =>
      if now - t > limit then some { r with pass := none }
      else if observed = false then some { r with pass := none }
      else some { r with lastRead := some now, pass := some (.admitting
        (rows.rows.filter (fun w => w.enabled && decide (w.name ∉ held.map Prod.fst)))) }
    | _ => none
  | .check w => match r.pass with
    | some (.admitting todo) =>
      if w ∉ todo then none
      else if w.name ∈ r.tenants then some { r with pass := some (.admitting (todo.erase w)) }
      else some { r with pass := some (.beginning (todo.erase w) w) }
    | _ => none
  | .begin => match r.pass with
    | some (.beginning todo w) =>
      if w.name ∈ r.admitting then some { r with pass := some (.admitting todo) }
      else some { r with admitting := r.admitting.insert w.name none, pass := some (.announcing todo w) }
    | _ => none
  | .announce wrote landed => match r.pass with
    | some (.announcing todo w) =>
      if landed && !wrote then none
      else if landed = false then some { r.endAdmit w.name with pass := some (.admitting todo) }
      else some { r.setAdmission w.name ⟨w, now, .opening⟩ .opening with pass := some (.admitting todo) }
    | _ => none
  | .done => match r.pass with
    | some (.admitting []) => some { r with pass := none }
    | _ => none
  | .confirm name => match r.admission? name with
    | some a => if a.stage = .opening then some (r.setAdmission name a (.confirming now)) else none
    | _ => none
  | .confirmed name answer => match r.admission? name with
    | some a => match a.stage with
      | .confirming provedAt =>
        if answer = some (a.row.generation, true) then some (r.setAdmission name a (.confirmed provedAt))
        else some (r.endAdmit name)
      | _ => none
    | _ => none
  | .publish name => match r.admission? name with
    | some a => match a.stage with
      | .confirmed provedAt =>
        if now - provedAt > limit then some (r.endAdmit name)
        else if r.seen.lookup name ≠ some a.row.generation then some (r.endAdmit name)
        else some (r.publish name a)
      | _ => none
    | _ => none
  | .settle name idle => match r.admission? name with
    | some a => if a.stage = .published then some (r.setAdmission name a (.observing (r.quiesced name idle))) else none
    | _ => none
  | .settled name _ => match r.admission? name with
    | some a => match a.stage with
      | .observing _ => some (r.endAdmit name)
      | _ => none
    | _ => none
  | .abandon name => match r.admission? name with
    | some a => if a.stage.failing then some (r.endAdmit name) else none
    | _ => none
  | .postpone n => match r.retirements[n]? with
    | some d =>
      if d.stage = .draining then
        some { r.modify d.object (fun t => { t with retireDeferred := true }) with
          retirements := r.retirements.eraseIdx n }
      else none
    | _ => none
  | .finish n => match r.retirements[n]? with
    | some d =>
      if d.stage = .draining then
        some { r.remove d with retirements := r.afterRemoval n d }
      else none
    | _ => none
  | .survey n idle => match r.retirements[n]? with
    | some d =>
      if d.stage = .removed then
        some { r with retirements := r.retirements.set n { d with stage := .acking (r.quiesced d.name idle) } }
      else none
    | _ => none
  | .acknowledge n _ => match r.retirements[n]? with
    | some d => match d.stage with
      | .acking _ => some { r with retirements := r.retirements.eraseIdx n }
      | _ => none
    | _ => none

/-- The observation a step writes: the tenant, the generation, and whether nothing is held for it. -/
def Registry.writes (r : Registry) : Op → Option (String × Nat × Bool)
  | .report true _ => match r.pass with
    | some (.reporting _ _ _ _ _ w q) => some (w.name, w.generation, q)
    | _ => none
  | .announce true _ => match r.pass with
    | some (.announcing _ w) => some (w.name, w.generation, false)
    | _ => none
  | .settled name true => match r.admission? name with
    | some ⟨row, _, .observing q⟩ => some (name, row.generation, q)
    | _ => none
  | .acknowledge n true => match r.retirements[n]? with
    | some ⟨_, name, ack, .acking q⟩ => some (name, ack, q)
    | _ => none
  | _ => none

/-! ## What a step can do -/

/-- **Everything a step can do**, with what let it. -/
inductive Move (limit now : Instant) (r : Registry) : Op → Registry → Prop
  | poll (hp : r.pass = none) : Move limit now r .poll { r with pass := some (.polling now) }
  | read {t rows} (hp : r.pass = some (.polling t)) :
      Move limit now r (.read rows) { r with pass := some (.read t rows) }
  | readFailed {t} (hp : r.pass = some (.polling t)) : Move limit now r .readFailed { r with pass := none }
  | apply {t rows} (hp : r.pass = some (.read t rows)) :
      Move limit now r .apply { r with seen := r.seenAfter rows, last := rows, pass := some (.applied t rows) }
  | snapshot {t rows} (hp : r.pass = some (.applied t rows)) :
      Move limit now r .snapshot { r with pass := some (.retiring t rows (r.tenants.entries.map (fun p => (p.1, p.2)))
        (r.tenants.entries.map (fun p => (p.1, p.2)))) }
  | keep {t rows held todo name k x} (hp : r.pass = some (.retiring t rows held todo)) (hx : r.objects[k]? = some x)
      (hm : (name, k) ∈ todo) (hs : superseded rows name x.generation = false) :
      Move limit now r (.retire name k) { r with pass := some (.retiring t rows held (todo.erase (name, k))) }
  | skip {t rows held todo name k x} (hp : r.pass = some (.retiring t rows held todo)) (hx : r.objects[k]? = some x)
      (hm : (name, k) ∈ todo) (hd : skipRetirement x.draining x.retireDeferred = true) :
      Move limit now r (.retire name k)
        { r with pass := some (.retiring t rows (held.erase (name, k)) (todo.erase (name, k))) }
  | retire {t rows held todo name k x} (hp : r.pass = some (.retiring t rows held todo)) (hx : r.objects[k]? = some x)
      (hm : (name, k) ∈ todo) (hs : superseded rows name x.generation = true) :
      Move limit now r (.retire name k) { r.startRetirement rows name k with
        pass := some (.retiring t rows (held.erase (name, k)) (todo.erase (name, k))) }
  | retired {t rows held} (hp : r.pass = some (.retiring t rows held [])) :
      Move limit now r .retired { r with pass := some (.observing t rows held
        (rows.rows.filter (fun w => w.enabled && decide (w.name ∈ held.map Prod.fst))) true) }
  | look {t rows held todo observed w idle} (hp : r.pass = some (.observing t rows held todo observed))
      (hw : w ∈ todo) :
      Move limit now r (.look w idle)
        { r with pass := some (.reporting t rows held (todo.erase w) observed w (r.quiesced w.name idle)) }
  | report {t rows held todo observed w q wrote landed}
      (hp : r.pass = some (.reporting t rows held todo observed w q)) (hw : landed = true → wrote = true) :
      Move limit now r (.report wrote landed) { r with pass := some (.observing t rows held todo (landed && observed)) }
  | lapse {t rows held observed} (hp : r.pass = some (.observing t rows held [] observed)) :
      Move limit now r .refresh { r with pass := none }
  | refresh {t rows held} (hp : r.pass = some (.observing t rows held [] true)) (ht : now - t ≤ limit) :
      Move limit now r .refresh { r with lastRead := some now, pass := some (.admitting
        (rows.rows.filter (fun w => w.enabled && decide (w.name ∉ held.map Prod.fst)))) }
  | routed {todo w} (hp : r.pass = some (.admitting todo)) :
      Move limit now r (.check w) { r with pass := some (.admitting (todo.erase w)) }
  | check {todo w} (hp : r.pass = some (.admitting todo)) (hw : w ∈ todo) (hf : w.name ∉ r.tenants) :
      Move limit now r (.check w) { r with pass := some (.beginning (todo.erase w) w) }
  | busy {todo w} (hp : r.pass = some (.beginning todo w)) :
      Move limit now r .begin { r with pass := some (.admitting todo) }
  | begin {todo w} (hp : r.pass = some (.beginning todo w)) (hf : w.name ∉ r.admitting) :
      Move limit now r .begin { r with admitting := r.admitting.insert w.name none, pass := some (.announcing todo w) }
  | unannounced {todo w wrote} (hp : r.pass = some (.announcing todo w)) :
      Move limit now r (.announce wrote false) { r.endAdmit w.name with pass := some (.admitting todo) }
  | announce {todo w} (hp : r.pass = some (.announcing todo w)) :
      Move limit now r (.announce true true)
        { r.setAdmission w.name ⟨w, now, .opening⟩ .opening with pass := some (.admitting todo) }
  | done (hp : r.pass = some (.admitting [])) : Move limit now r .done { r with pass := none }
  | confirm {name a} (ha : r.admission? name = some a) (hs : a.stage = .opening) :
      Move limit now r (.confirm name) (r.setAdmission name a (.confirming now))
  | confirmed {name a t} (ha : r.admission? name = some a) (hs : a.stage = .confirming t) :
      Move limit now r (.confirmed name (some (a.row.generation, true))) (r.setAdmission name a (.confirmed t))
  | abandon {op name a} (ho : op = .abandon name ∨ op = .publish name ∨ ∃ answer, op = .confirmed name answer)
      (ha : r.admission? name = some a) (hs : a.stage.failing = true) : Move limit now r op (r.endAdmit name)
  | publish {name a t} (ha : r.admission? name = some a) (hs : a.stage = .confirmed t) (ht : now - t ≤ limit)
      (hseen : r.seen.lookup name = some a.row.generation) : Move limit now r (.publish name) (r.publish name a)
  | settle {name a idle} (ha : r.admission? name = some a) (hs : a.stage = .published) :
      Move limit now r (.settle name idle) (r.setAdmission name a (.observing (r.quiesced name idle)))
  | settled {name a q wrote} (ha : r.admission? name = some a) (hs : a.stage = .observing q) :
      Move limit now r (.settled name wrote) (r.endAdmit name)
  | postpone {n d} (hd : r.retirements[n]? = some d) (hs : d.stage = .draining) :
      Move limit now r (.postpone n) { r.modify d.object (fun t => { t with retireDeferred := true }) with
        retirements := r.retirements.eraseIdx n }
  | finish {n d} (hd : r.retirements[n]? = some d) (hs : d.stage = .draining) :
      Move limit now r (.finish n) { r.remove d with retirements := r.afterRemoval n d }
  | survey {n d idle} (hd : r.retirements[n]? = some d) (hs : d.stage = .removed) :
      Move limit now r (.survey n idle)
        { r with retirements := r.retirements.set n { d with stage := .acking (r.quiesced d.name idle) } }
  | acknowledge {n d q wrote} (hd : r.retirements[n]? = some d) (hs : d.stage = .acking q) :
      Move limit now r (.acknowledge n wrote) { r with retirements := r.retirements.eraseIdx n }

/-- **Every step is one of these moves.** -/
theorem Move.of_step {limit now : Instant} {r r' : Registry} {op : Op} (h : r.step limit now op = some r') :
    Move limit now r op r' := by
  cases op with
  | poll =>
    simp only [Registry.step] at h
    split at h <;> cases h
    exact .poll ‹_›
  | read rows =>
    simp only [Registry.step] at h
    split at h <;> cases h
    exact .read ‹_›
  | readFailed =>
    simp only [Registry.step] at h
    split at h <;> cases h
    exact .readFailed ‹_›
  | apply =>
    simp only [Registry.step] at h
    split at h <;> cases h
    exact .apply ‹_›
  | snapshot =>
    simp only [Registry.step] at h
    split at h <;> cases h
    exact .snapshot ‹_›
  | retire name k =>
    simp only [Registry.step] at h
    split at h
    · rename_i hp hx
      split at h
      · cases h
      · rename_i hm
        rw [not_not] at hm
        split at h
        · cases h; exact .keep hp hx hm ‹_›
        · rename_i hs
          rw [Bool.not_eq_false] at hs
          split at h <;> cases h
          · exact .skip hp hx hm ‹_›
          · exact .retire hp hx hm hs
    · cases h
  | retired =>
    simp only [Registry.step] at h
    split at h <;> cases h
    exact .retired ‹_›
  | look w idle =>
    simp only [Registry.step] at h
    split at h
    · split at h <;> cases h
      exact .look ‹_› ‹_›
    · cases h
  | report wrote landed =>
    simp only [Registry.step] at h
    split at h
    · rename_i hp
      split at h <;> cases h
      refine .report hp (fun hl => ?_)
      rename_i hw
      simpa [hl] using hw
    · cases h
  | refresh =>
    simp only [Registry.step] at h
    split at h
    · rename_i hp
      split at h
      · cases h; exact .lapse hp
      · rename_i ht
        split at h <;> cases h
        · exact .lapse hp
        · rename_i ho
          rw [Bool.not_eq_false] at ho
          subst ho
          exact .refresh hp (not_lt.1 ht)
    · cases h
  | check w =>
    simp only [Registry.step] at h
    split at h
    · rename_i hp
      split at h
      · cases h
      · rename_i hw
        split at h <;> cases h
        · exact .routed hp
        · exact .check hp (not_not.1 hw) ‹_›
    · cases h
  | begin =>
    simp only [Registry.step] at h
    split at h
    · rename_i hp
      split at h <;> cases h
      · exact .busy hp
      · exact .begin hp ‹_›
    · cases h
  | announce wrote landed =>
    simp only [Registry.step] at h
    split at h
    · rename_i hp
      split at h
      · cases h
      · rename_i hw
        split at h <;> cases h
        · rename_i hl
          subst hl
          exact .unannounced hp
        · rename_i hl
          rw [Bool.not_eq_false] at hl
          subst hl
          have hwrote : wrote = true := by simpa using hw
          subst hwrote
          exact .announce hp
    · cases h
  | done =>
    simp only [Registry.step] at h
    split at h <;> cases h
    exact .done ‹_›
  | confirm name =>
    simp only [Registry.step] at h
    split at h
    · split at h <;> cases h
      exact .confirm ‹_› ‹_›
    · cases h
  | confirmed name answer =>
    simp only [Registry.step] at h
    split at h
    · rename_i a ha
      split at h
      · rename_i hs
        split at h <;> cases h
        · rename_i hans
          subst hans
          exact .confirmed ha hs
        · exact .abandon (Or.inr (Or.inr ⟨_, rfl⟩)) ha (by rw [hs]; rfl)
      · cases h
    · cases h
  | publish name =>
    simp only [Registry.step] at h
    split at h
    · rename_i a ha
      split at h
      · rename_i hs
        split at h
        · cases h; exact .abandon (Or.inr (Or.inl rfl)) ha (by rw [hs]; rfl)
        · rename_i ht
          split at h <;> cases h
          · exact .abandon (Or.inr (Or.inl rfl)) ha (by rw [hs]; rfl)
          · exact .publish ha hs (not_lt.1 ht) (not_not.1 ‹_›)
      · cases h
    · cases h
  | settle name idle =>
    simp only [Registry.step] at h
    split at h
    · split at h <;> cases h
      exact .settle ‹_› ‹_›
    · cases h
  | settled name wrote =>
    simp only [Registry.step] at h
    split at h
    · split at h <;> cases h
      exact .settled ‹_› ‹_›
    · cases h
  | abandon name =>
    simp only [Registry.step] at h
    split at h
    · split at h <;> cases h
      exact .abandon (Or.inl rfl) ‹_› ‹_›
    · cases h
  | postpone n =>
    simp only [Registry.step] at h
    split at h
    · split at h <;> cases h
      exact .postpone ‹_› ‹_›
    · cases h
  | finish n =>
    simp only [Registry.step] at h
    split at h
    · split at h <;> cases h
      exact .finish ‹_› ‹_›
    · cases h
  | survey n idle =>
    simp only [Registry.step] at h
    split at h
    · split at h <;> cases h
      exact .survey ‹_› ‹_›
    · cases h
  | acknowledge n wrote =>
    simp only [Registry.step] at h
    split at h
    · split at h <;> cases h
      exact .acknowledge ‹_› ‹_›
    · cases h

end Runtime
end GoJob
