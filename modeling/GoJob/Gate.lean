import GoJob.Tenure
/-!
# Gate — how long a claim may be acted on (`engine.go`)

A `Run` cannot be taken back, so an engine sends one only while its last proof of ownership is younger than four fifths
of the lease it claimed with.  A proof is dated before the call that gives it, and each call writes a lease that
outlasts it; what the gate relies on is that these leases are not shorter than the one it measures with.
-/
namespace GoJob

/-- The instance in whose name a call takes or keeps ownership. -/
def Action.claimant : Action → Option String
  | .claim p _       => some p.owner
  | .renew h _       => some h.owner
  | .adopt _ o _ _ _ => some o
  | _                => none

namespace Gate

open Rel Tx

/-! ## The engine's clock and its tracked executions -/

/-- `UTC_TIMESTAMP()` at an instant of the local clock: the two run at one rate. -/
def utcAt (skew t : Instant) : Utc := (t + skew) / second

theorem utcAt_mono {skew t t' : Instant} (h : t ≤ t') : utcAt skew t ≤ utcAt skew t' :=
  Int.ediv_le_ediv (by decide) (Int.add_le_add_right h skew)

/-- Four fifths of a lease of ten seconds or more are over before its whole seconds are. -/
theorem young_le {skew L now since : Int} (hL : 10 * second ≤ L) (h : 0 < (L - L.tdiv 5) - (now - since)) :
    utcAt skew now ≤ utcAt skew since + L.tdiv second := by
  have hpos : 0 ≤ L := le_trans (by decide) hL
  have hten : (10000000000 : Int) ≤ L := hL
  rw [Int.tdiv_eq_ediv_of_nonneg hpos] at h ⊢
  show (now + skew) / (1000000000 : Int) ≤ (since + skew) / (1000000000 : Int) + L / (1000000000 : Int)
  omega

structure Held where
  holder    : Holder
  confirmed : Instant

/-- Where a goroutine stands on its way to a proof of ownership: the instant it took before the call, then what the
call answered. -/
inductive Stage
  | idle
  | claiming (p : ClaimParams) (since : Instant)
  | renewing (h : Holder)
  | leased (h : Holder) (leaseSeconds : Int)
  | proving (h : Holder) (leaseSeconds : Int) (since : Instant)
  | adopting (v : Stale) (since : Instant)
  | taking (v : Stale) (leaseSeconds : Int) (since : Instant)
  | granted (h : Holder) (since : Instant)
  | renewed (h : Holder) (since : Instant)
  | fenced (h : Holder)
  deriving DecidableEq

/-- A schema, and the engine of one instance that works on it among others. -/
structure Engine where
  world   : World
  now     : Instant
  tracked : Nat → Option Held := fun _ => none
  threads : Nat → Stage := fun _ => .idle

def defaultLease : Instant := 30 * second

def leaseSecondsFor (db : DB) (failed : Bool) (j : String) : Int :=
  match if failed then none else db.def? j with
  | some d =>
    if d.toDefinition.lease ≤ 0 then defaultLease.tdiv second else d.toDefinition.lease.tdiv second
  | none => defaultLease.tdiv second

namespace Engine

variable (s : Engine)

def track (h : Holder) (since : Instant) : Engine :=
  { s with tracked := Function.update s.tracked h.executionId (some ⟨h, since⟩) }

def confirmHold (i epoch : Nat) (since : Instant) : Engine :=
  match s.tracked i with
  | some cur =>
    if cur.holder.fenceEpoch = epoch ∧ cur.confirmed < since then
      { s with tracked := Function.update s.tracked i (some { cur with confirmed := since }) }
    else s
  | none => s

def untrack (i epoch : Nat) : Engine :=
  match s.tracked i with
  | some cur =>
    if cur.holder.fenceEpoch = epoch then { s with tracked := Function.update s.tracked i none } else s
  | none => s

def holdRemaining (i epoch : Nat) (lease : Instant) : Instant :=
  let lease := if lease ≤ 0 then defaultLease else lease
  match s.tracked i with
  | none => 0
  | some cur =>
    if cur.holder.fenceEpoch ≠ epoch then 0
    else
      let left := (lease - lease.tdiv 5) - (s.now - cur.confirmed)
      if left < 0 then 0 else left

/-- Goroutine `k` goes on to `st`. -/
def enter (k : Nat) (st : Stage) : Engine := { s with threads := Function.update s.threads k st }

end Engine

/-! ## Steps -/

/-- What happens next.  A call carries the instant at which it is over; everything in between takes no time, and time
may pass at any point. -/
inductive Act
  | wait (t : Instant)
  | call (own : Bool) (l : Action × Ctx) (t : Instant)
  | stampClaim (k : Nat) (p : ClaimParams)
  | claim (k : Nat) (r : Runnable) (c : Ctx) (t : Instant)
  | snapshot (k i : Nat)
  | readLease (k : Nat) (failed : Bool)
  | stampRenew (k : Nat)
  | renew (k : Nat) (c : Ctx) (t : Instant)
  | stampAdopt (k : Nat) (v : Stale)
  | adopt (k : Nat) (silence : Int) (promote : Bool) (c : Ctx) (t : Instant)
  | record (k : Nat)
  | untrack (i epoch : Nat)

/-- What `Claim` tells the goroutine. -/
def Stage.afterClaim (p : ClaimParams) (since : Instant) : Except Err (ClaimResult × DB) → Stage
  | .ok (x, _) =>
    if x.outcome = .acquired then
      .granted ⟨p.jobName, p.executionId, p.executionKey, p.owner, p.runToken, x.fenceEpoch⟩ since
    else .idle
  | .error _ => .idle

/-- What `Renew` tells it: an error that is not a lost fence leaves the holder tracked. -/
def Stage.afterRenew (h : Holder) (since : Instant) : Except Err Unit → Stage
  | .ok _ => .renewed h since
  | .error err => if err.kind = .fenced then .fenced h else .idle

/-- What `Adopt` tells it; a finished execution is adopted without being tracked. -/
def Stage.afterAdopt (inst : String) (v : Stale) (since : Instant) (promote : Bool) : Except Err (Nat × DB) → Stage
  | .ok (epoch, _) =>
    if promote then .granted ⟨v.jobName, v.id, v.executionKey, inst, v.runToken, epoch⟩ since else .idle
  | .error _ => .idle

/-- The call begins at `now` and is over at `t`. -/
structure Spans (skew now t : Instant) (c : Ctx) : Prop where
  le    : now ≤ t
  start : utcAt skew now ≤ c.utc 0
  stop  : ∀ k, c.utc k ≤ utcAt skew t

inductive EngineStep (env : Env) (inst : String) (skew : Instant) : Engine → Act → Engine → Prop
  | wait {s : Engine} {t : Instant} (h : s.now ≤ t) : EngineStep env inst skew s (.wait t) { s with now := t }
  | call {s : Engine} {own : Bool} {l : Action × Ctx} {t : Instant} {w' : World} (hc : l.1.claimant ≠ some inst)
      (hst : Step env s.world l w') (hsp : Spans skew s.now t l.2) :
      EngineStep env inst skew s (.call own l t) { s with world := w', now := t }
  | stampClaim {s : Engine} {k : Nat} {p : ClaimParams} (hk : s.threads k = .idle) (ho : p.owner = inst) :
      EngineStep env inst skew s (.stampClaim k p) (s.enter k (.claiming p s.now))
  | claim {s : Engine} {k : Nat} {p : ClaimParams} {since : Instant} {r : Runnable} {c : Ctx} {t : Instant} {w' : World}
      (hk : s.threads k = .claiming p since) (hst : Step env s.world (.claim p r, c) w') (hsp : Spans skew s.now t c) :
      EngineStep env inst skew s (.claim k r c t)
        ({ s with world := w', now := t }.enter k (.afterClaim p since (claim c p r s.world.db)))
  | snapshot {s : Engine} {k i : Nat} {x : Held} (hk : s.threads k = .idle) (hx : s.tracked i = some x) :
      EngineStep env inst skew s (.snapshot k i) (s.enter k (.renewing x.holder))
  | readLease {s : Engine} {k : Nat} {failed : Bool} {h : Holder} (hk : s.threads k = .renewing h) :
      EngineStep env inst skew s (.readLease k failed)
        (s.enter k (.leased h (leaseSecondsFor s.world.db failed h.jobName)))
  | stampRenew {s : Engine} {k : Nat} {h : Holder} {l : Int} (hk : s.threads k = .leased h l) :
      EngineStep env inst skew s (.stampRenew k) (s.enter k (.proving h l s.now))
  | renew {s : Engine} {k : Nat} {h : Holder} {l : Int} {since : Instant} {c : Ctx} {t : Instant} {w' : World}
      (hk : s.threads k = .proving h l since) (hst : Step env s.world (.renew h l, c) w') (hsp : Spans skew s.now t c) :
      EngineStep env inst skew s (.renew k c t)
        ({ s with world := w', now := t }.enter k (.afterRenew h since (answer env s.world (.renew h l, c))))
  | stampAdopt {s : Engine} {k : Nat} {v : Stale} (hk : s.threads k = .idle) :
      EngineStep env inst skew s (.stampAdopt k v) (s.enter k (.adopting v s.now))
  | readAdopt {s : Engine} {k : Nat} {failed : Bool} {v : Stale} {since : Instant}
      (hk : s.threads k = .adopting v since) :
      EngineStep env inst skew s (.readLease k failed)
        (s.enter k (.taking v (leaseSecondsFor s.world.db failed v.jobName) since))
  | adopt {s : Engine} {k : Nat} {v : Stale} {l : Int} {since : Instant} {silence : Int} {promote : Bool} {c : Ctx}
      {t : Instant} {w' : World} (hk : s.threads k = .taking v l since)
      (hst : Step env s.world (.adopt v inst l silence promote, c) w') (hsp : Spans skew s.now t c) :
      EngineStep env inst skew s (.adopt k silence promote c t)
        ({ s with world := w', now := t }.enter k
          (.afterAdopt inst v since promote (adopt c v inst l silence promote s.world.db)))
  | recordGrant {s : Engine} {k : Nat} {h : Holder} {since : Instant} (hk : s.threads k = .granted h since) :
      EngineStep env inst skew s (.record k) ((s.track h since).enter k .idle)
  | recordRenewal {s : Engine} {k : Nat} {h : Holder} {since : Instant} (hk : s.threads k = .renewed h since) :
      EngineStep env inst skew s (.record k) ((s.confirmHold h.executionId h.fenceEpoch since).enter k .idle)
  | recordLoss {s : Engine} {k : Nat} {h : Holder} (hk : s.threads k = .fenced h) :
      EngineStep env inst skew s (.record k) ((s.untrack h.executionId h.fenceEpoch).enter k .idle)
  | untrack {s : Engine} {i epoch : Nat} : EngineStep env inst skew s (.untrack i epoch) (s.untrack i epoch)

/-! ## Conditions on a run -/

abbrev EngineHistory := List (Engine × Act × Engine)

/-- A call ends the attempt at epoch `n` of execution `i`: one of this instance, or one of another. -/
def Ends (env : Env) (own : Bool) (i n : Nat) (x : Engine × Act × Engine) : Prop :=
  ∃ l t q, x.2.1 = .call own l t ∧ l.1.closing = some q ∧ q.executionId = i ∧ q.fenceEpoch = n ∧
    answer env x.1.world l = .ok ()

/-- The claim that is granted execution `i` at epoch `n` returns a definition with lease `L`. -/
def ClaimsWith (L : Instant) (i n : Nat) (x : Engine × Act × Engine) : Prop :=
  ∀ k r c t p since res db', x.2.1 = .claim k r c t → x.1.threads k = .claiming p since →
    claim c p r x.1.world.db = .ok (res, db') → res.outcome = .acquired → p.executionId = i → res.fenceEpoch = n →
    res.definition.lease = L

/-- The execution and epoch a goroutine is about to write a lease for, and the job whose definition says how long. -/
def Stage.leases : Stage → Option (Nat × Nat × String)
  | .renewing h   => some (h.executionId, h.fenceEpoch, h.jobName)
  | .adopting v _ => some (v.id, v.fenceEpoch + 1, v.jobName)
  | _             => none

/-- A definition that is read to renew epoch `n` of execution `i` has a lease no shorter than `L`, and neither has the
default where the read fails. -/
def ReadsAtLeast (L : Instant) (i n : Nat) (x : Engine × Act × Engine) : Prop :=
  ∀ k failed j, x.2.1 = .readLease k failed → (x.1.threads k).leases = some (i, n, j) →
    (∀ d, failed = false → x.1.world.db.def? j = some d → L ≤ d.toDefinition.lease) ∧
    (failed = true ∨ x.1.world.db.def? j = none → L ≤ defaultLease)

/-- What one step must not do for the gate of a claim with lease `L` to be safe: take a shorter lease for the same
epoch, or end the attempt from another instance. -/
structure Steady (env : Env) (L : Instant) (i n : Nat) (x : Engine × Act × Engine) : Prop where
  claims : ClaimsWith L i n x
  reads  : ReadsAtLeast L i n x
  ends   : ¬ Ends env false i n x

/-! ## What stands behind a proof -/

section invariant

variable (env : Env) (inst : String) (skew L : Instant) (i n : Nat)

/-- **What stands behind a proof of ownership dated `since`**: this instance has ended the attempt, the attempt is held
and both copies of its lease outlast the gate, or the gate has closed. -/
structure Backed (tr : EngineHistory) (s : Engine) (since : Instant) : Prop where
  dated : since ≤ s.now
  hold  : (∃ x ∈ tr, Ends env true i n x) ∨
    (∃ e r, HeldTo inst i n (utcAt skew since + L.tdiv second) s.world e r) ∨
    utcAt skew since + L.tdiv second < utcAt skew s.now

/-- What a goroutine knows at its stage. -/
def Sound (tr : EngineHistory) (s : Engine) : Stage → Prop
  | .idle => True
  | .claiming p since => p.owner = inst ∧ since ≤ s.now
  | .renewing h => h.owner = inst
  | .leased h l => h.owner = inst ∧ (h.executionId = i → h.fenceEpoch = n → L.tdiv second ≤ l)
  | .proving h l since => h.owner = inst ∧ since ≤ s.now ∧ (h.executionId = i → h.fenceEpoch = n → L.tdiv second ≤ l)
  | .adopting _ since => since ≤ s.now
  | .taking v l since => since ≤ s.now ∧ (v.id = i → v.fenceEpoch + 1 = n → L.tdiv second ≤ l)
  | .granted h since =>
    h.owner = inst ∧ (h.executionId = i → h.fenceEpoch = n → Backed env inst skew L i n tr s since)
  | .renewed h since => h.executionId = i → h.fenceEpoch = n → Backed env inst skew L i n tr s since
  | .fenced _ => True

structure GateInv (tr : EngineHistory) (s : Engine) : Prop where
  holders : HolderInv s.world.db s.world.issued
  tracked : ∀ j x, s.tracked j = some x → x.holder.owner = inst ∧
    (j = i → x.holder.fenceEpoch = n → Backed env inst skew L i n tr s x.confirmed)
  threads : ∀ k, Sound env inst skew L i n tr s (s.threads k)

end invariant

section steps

variable {env : Env} {inst : String} {skew L : Instant} {i n : Nat} {tr tr' : EngineHistory} {s : Engine}

theorem Backed.congr {s' : Engine} {since : Instant} (h : Backed env inst skew L i n tr s since)
    (hw : s'.world = s.world) (ht : s'.now = s.now) : Backed env inst skew L i n tr s' since := by
  obtain ⟨hd, hh⟩ := h
  exact ⟨ht ▸ hd, by rw [hw, ht]; exact hh⟩

theorem Sound.congr {s' : Engine} {st : Stage} (h : Sound env inst skew L i n tr s st) (hw : s'.world = s.world)
    (ht : s'.now = s.now) : Sound env inst skew L i n tr s' st := by
  cases st with
  | idle => trivial
  | claiming p since => exact ⟨h.1, ht ▸ h.2⟩
  | renewing k => exact h
  | leased k l => exact h
  | proving k l since => exact ⟨h.1, ht ▸ h.2.1, h.2.2⟩
  | adopting v since => exact (ht ▸ h : since ≤ s'.now)
  | taking v l since => exact ⟨ht ▸ h.1, h.2⟩
  | granted k since => exact ⟨h.1, fun hi hn => (h.2 hi hn).congr hw ht⟩
  | renewed k since => exact fun hi hn => (h hi hn).congr hw ht
  | fenced k => trivial

/-- The clock goes on and the schema changes, and what was backed still is. -/
theorem Sound.advance {s' : Engine} {st : Stage} (h : Sound env inst skew L i n tr s st) (ht : s.now ≤ s'.now)
    (hb : ∀ since, Backed env inst skew L i n tr s since → Backed env inst skew L i n tr' s' since) :
    Sound env inst skew L i n tr' s' st := by
  cases st with
  | idle => trivial
  | claiming p since => exact ⟨h.1, le_trans h.2 ht⟩
  | renewing k => exact h
  | leased k l => exact h
  | proving k l since => exact ⟨h.1, le_trans h.2.1 ht, h.2.2⟩
  | adopting v since => exact le_trans (h : since ≤ s.now) ht
  | taking v l since => exact ⟨le_trans h.1 ht, h.2⟩
  | granted k since => exact ⟨h.1, fun hi hn => hb since (h.2 hi hn)⟩
  | renewed k since => exact fun hi hn => hb since (h hi hn)
  | fenced k => trivial

namespace GateInv

theorem advance (h : GateInv env inst skew L i n tr s) {w' : World} {t : Instant} (ht : s.now ≤ t)
    (hinv : HolderInv w'.db w'.issued) (hb : ∀ since, Backed env inst skew L i n tr s since →
      Backed env inst skew L i n tr' { s with world := w', now := t } since) :
    GateInv env inst skew L i n tr' { s with world := w', now := t } :=
  ⟨hinv, fun j x hx => ⟨(h.tracked j x hx).1, fun hj hn => hb _ ((h.tracked j x hx).2 hj hn)⟩,
    fun k => (h.threads k).advance ht hb⟩

theorem enter (h : GateInv env inst skew L i n tr s) (k : Nat) {st : Stage} (hst : Sound env inst skew L i n tr s st) :
    GateInv env inst skew L i n tr (s.enter k st) := by
  refine ⟨h.holders, fun j x hx => ?_, fun m => ?_⟩
  · obtain ⟨ho, hb⟩ := h.tracked j x hx
    exact ⟨ho, fun hj hn => (hb hj hn).congr rfl rfl⟩
  · by_cases hm : m = k
    · have hat : (s.enter k st).threads m = st := by rw [hm]; exact Function.update_self ..
      rw [hat]
      exact hst.congr rfl rfl
    · have hat : (s.enter k st).threads m = s.threads m := Function.update_of_ne hm ..
      rw [hat]
      exact (h.threads m).congr rfl rfl

/-- A change of the tracked executions alone. -/
theorem retrack (h : GateInv env inst skew L i n tr s) {tracked : Nat → Option Held}
    (hx : ∀ j x, tracked j = some x → x.holder.owner = inst ∧
      (j = i → x.holder.fenceEpoch = n → Backed env inst skew L i n tr s x.confirmed)) :
    GateInv env inst skew L i n tr { s with tracked := tracked } :=
  ⟨h.holders, fun j x hj => ⟨(hx j x hj).1, fun hi hn => ((hx j x hj).2 hi hn).congr rfl rfl⟩,
    fun k => (h.threads k).congr rfl rfl⟩

theorem track (h : GateInv env inst skew L i n tr s) {k : Holder} {since : Instant} (ho : k.owner = inst)
    (hb : k.executionId = i → k.fenceEpoch = n → Backed env inst skew L i n tr s since) :
    GateInv env inst skew L i n tr (s.track k since) := by
  refine h.retrack fun j x hx => ?_
  by_cases hj : j = k.executionId
  · rw [hj, Function.update_self] at hx
    obtain rfl := Option.some.inj hx
    exact ⟨ho, fun hi => hb (hj ▸ hi)⟩
  · rw [Function.update_of_ne hj] at hx
    exact h.tracked j x hx

theorem confirmHold (h : GateInv env inst skew L i n tr s) {j m : Nat} {since : Instant}
    (hb : j = i → m = n → Backed env inst skew L i n tr s since) :
    GateInv env inst skew L i n tr (s.confirmHold j m since) := by
  unfold Engine.confirmHold
  cases hcur : s.tracked j with
  | none => exact h
  | some cur =>
    dsimp only
    split
    · rename_i hif
      refine h.retrack fun l x hx => ?_
      by_cases hl : l = j
      · rw [hl, Function.update_self] at hx
        obtain rfl := Option.some.inj hx
        exact ⟨(h.tracked j cur hcur).1, fun hi hn => hb (hl ▸ hi) (hif.1.symm.trans hn)⟩
      · rw [Function.update_of_ne hl] at hx
        exact h.tracked l x hx
    · exact h

theorem untrack (h : GateInv env inst skew L i n tr s) (j m : Nat) :
    GateInv env inst skew L i n tr (s.untrack j m) := by
  unfold Engine.untrack
  cases hcur : s.tracked j with
  | none => exact h
  | some cur =>
    dsimp only
    split
    · refine h.retrack fun l x hx => ?_
      by_cases hl : l = j
      · rw [hl, Function.update_self] at hx; cases hx
      · rw [Function.update_of_ne hl] at hx
        exact h.tracked l x hx
    · exact h

end GateInv

/-! ## Calls -/

/-- A tenure under a call that is over at `t`: the gate it backs stays backed. -/
theorem Backed.call {since t : Instant} {a : Action} {c : Ctx} {w' : World} {x : Engine × Act × Engine}
    (h : Backed env inst skew L i n tr s since) (hinv : HolderInv s.world.db s.world.issued)
    (hst : Step env s.world (a, c) w') (hsp : Spans skew s.now t c)
    (hren : ∀ k l, a = .renew k l → k.owner = inst → k.executionId = i → k.fenceEpoch = n → L.tdiv second ≤ l)
    (hend : ∀ q, a.closing = some q → q.executionId = i → q.fenceEpoch = n → answer env s.world (a, c) = .ok () →
      Ends env true i n x) :
    Backed env inst skew L i n (tr ++ [x]) { s with world := w', now := t } since := by
  refine ⟨le_trans h.dated hsp.le, ?_⟩
  rcases h.hold with ⟨y, hy, hends⟩ | ⟨e, r, hheld⟩ | hlate
  · exact Or.inl ⟨y, List.mem_append_left _ hy, hends⟩
  · have hstart : utcAt skew since ≤ c.utc 0 := le_trans (utcAt_mono h.dated) hsp.start
    rcases hheld.step hinv hst fun k l ha ho hi hn => add_le_add hstart (hren k l ha ho hi hn) with
      hheld | ⟨q, hq, hi, hn, hok⟩ | hlate
    · exact Or.inr (Or.inl hheld)
    · exact Or.inl ⟨x, List.mem_append_right _ (List.mem_singleton_self x), hend q hq hi hn hok⟩
    · exact Or.inr (Or.inr (lt_of_lt_of_le hlate (hsp.stop 2)))
  · exact Or.inr (Or.inr (lt_of_lt_of_le hlate (utcAt_mono hsp.le)))

theorem Backed.later {since t : Instant} (h : Backed env inst skew L i n tr s since) (ht : s.now ≤ t)
    (x : Engine × Act × Engine) : Backed env inst skew L i n (tr ++ [x]) { s with now := t } since := by
  refine ⟨le_trans h.dated ht, ?_⟩
  rcases h.hold with ⟨y, hy, hends⟩ | hheld | hlate
  · exact Or.inl ⟨y, List.mem_append_left _ hy, hends⟩
  · exact Or.inr (Or.inl hheld)
  · exact Or.inr (Or.inr (lt_of_lt_of_le hlate (utcAt_mono ht)))

/-- A call that has just written both leases backs its proof. -/
theorem Backed.of_heldTo {since t : Instant} {w' : World} {c : Ctx} {l : Int} (hd : since ≤ s.now)
    (hsp : Spans skew s.now t c) (hl : L.tdiv second ≤ l)
    (hheld : ∀ {T}, T ≤ c.utc 0 + l → ∃ e r, HeldTo inst i n T w' e r) :
    Backed env inst skew L i n tr { s with world := w', now := t } since :=
  ⟨le_trans hd hsp.le, Or.inr (Or.inl (hheld (add_le_add (le_trans (utcAt_mono hd) hsp.start) hl)))⟩

theorem leaseSecondsFor_ge {db : DB} {failed : Bool} {j : String}
    (hread : ∀ d, failed = false → db.def? j = some d → L ≤ d.toDefinition.lease)
    (hmiss : failed = true ∨ db.def? j = none → L ≤ defaultLease) (hL : 0 < L) :
    L.tdiv second ≤ leaseSecondsFor db failed j := by
  have hmono : ∀ {y : Instant}, L ≤ y → L.tdiv second ≤ y.tdiv second := fun {y} hy => by
    rw [Int.tdiv_eq_ediv_of_nonneg hL.le, Int.tdiv_eq_ediv_of_nonneg (le_trans hL.le hy)]
    exact Int.ediv_le_ediv (by decide) hy
  unfold leaseSecondsFor
  cases failed with
  | true => exact hmono (hmiss (Or.inl rfl))
  | false =>
    rw [if_neg (by decide)]
    cases hd : db.def? j with
    | none => exact hmono (hmiss (Or.inr hd))
    | some d =>
      have hle := hread d rfl hd
      dsimp only
      rw [if_neg (not_le.2 (lt_of_lt_of_le hL hle))]
      exact hmono hle

theorem GateInv.step {a : Act} {s' : Engine} (h : GateInv env inst skew L i n tr s) (hL : 0 < L)
    (hst : EngineStep env inst skew s a s') (hsteady : Steady env L i n (s, a, s')) :
    GateInv env inst skew L i n (tr ++ [(s, a, s')]) s' := by
  obtain ⟨hclaim, hread, hends⟩ := hsteady
  -- The steps that call nothing only lengthen the history.
  have quiet : GateInv env inst skew L i n (tr ++ [(s, a, s')]) s :=
    h.advance (le_refl s.now) h.holders fun since hb => hb.later (le_refl s.now) _
  -- The engine's own calls end nothing.
  have called : ∀ {b : Action} {c : Ctx} {t : Instant} {w' : World}, Step env s.world (b, c) w' →
      Spans skew s.now t c → b.closing = none →
      (∀ k l, b = .renew k l → k.owner = inst → k.executionId = i → k.fenceEpoch = n → L.tdiv second ≤ l) →
      GateInv env inst skew L i n (tr ++ [(s, a, s')]) { s with world := w', now := t } :=
    fun hst hsp hb hren => h.advance hsp.le (h.holders.step hst) fun since hback =>
      hback.call h.holders hst hsp hren fun q hq => by rw [hb] at hq; cases hq
  cases hst with
  | wait ht => exact h.advance ht h.holders fun since hb => hb.later ht _
  | @call own l t w' hc hst hsp =>
    refine h.advance hsp.le (h.holders.step hst) fun since hb => hb.call h.holders hst hsp ?_ ?_
    · intro k m ha ho
      rw [ha] at hc
      exact absurd (congrArg some ho) hc
    · intro q hq hi hn hok
      cases own with
      | true => exact ⟨l, t, q, rfl, hq, hi, hn, hok⟩
      | false => exact absurd ⟨l, t, q, rfl, hq, hi, hn, hok⟩ hends
  | stampClaim hk ho => exact quiet.enter _ ⟨ho, le_refl _⟩
  | @claim k p since r c t w' hk hst hsp =>
    refine (called hst hsp rfl fun _ _ ha => by cases ha).enter k ?_
    obtain ⟨rfl, hd⟩ : p.owner = inst ∧ since ≤ s.now := by
      have hsound := h.threads k
      rw [hk] at hsound
      exact hsound
    cases hres : claim c p r s.world.db with
    | error => trivial
    | ok y =>
      obtain ⟨res, db'⟩ := y
      obtain rfl := hst.db_of_ok rfl hres
      by_cases hacq : res.outcome = .acquired
      · rw [Stage.afterClaim, if_pos hacq]
        refine ⟨rfl, fun hi hn => ?_⟩
        have hlease := hclaim k r c t p since res _ rfl hk hres hacq hi hn
        obtain rfl : p.executionId = i := hi
        obtain rfl : res.fenceEpoch = n := hn
        exact .of_heldTo hd hsp (le_of_eq (by rw [hlease])) fun hT => claim_heldTo hst hres hacq h.holders hT
      · rw [Stage.afterClaim, if_neg hacq]
        trivial
  | snapshot hk hx => exact quiet.enter _ (quiet.tracked _ _ hx).1
  | @readLease k failed kh hk =>
    have howner : kh.owner = inst := by
      have hsound := h.threads k
      rw [hk] at hsound
      exact hsound
    refine quiet.enter _ ⟨howner, fun hi hn => ?_⟩
    obtain ⟨hfound, hmiss⟩ := hread k failed kh.jobName rfl (by rw [hk, ← hi, ← hn]; rfl)
    exact leaseSecondsFor_ge hfound hmiss hL
  | @stampRenew k kh l hk =>
    have hsound := quiet.threads k
    rw [hk] at hsound
    exact quiet.enter _ ⟨hsound.1, le_refl s.now, hsound.2⟩
  | @renew k kh l since c t w' hk hst hsp =>
    obtain ⟨rfl, hd, hl⟩ : kh.owner = inst ∧ since ≤ s.now ∧
        (kh.executionId = i → kh.fenceEpoch = n → L.tdiv second ≤ l) := by
      have hsound := h.threads k
      rw [hk] at hsound
      exact hsound
    refine (called hst hsp rfl fun k' l' ha _ hi hn => ?_).enter k ?_
    · obtain ⟨rfl, rfl⟩ : kh = k' ∧ l = l' := by simpa using ha
      exact hl hi hn
    cases hans : answer env s.world (.renew kh l, c) with
    | ok =>
      intro hi hn
      have hlong := hl hi hn
      obtain rfl : kh.executionId = i := hi
      obtain rfl : kh.fenceEpoch = n := hn
      exact .of_heldTo hd hsp hlong fun hT => renew_heldTo (hst.tx_ok hans) h.holders hT
    | error err =>
      rw [Stage.afterRenew]
      split <;> trivial
  | stampAdopt hk => exact quiet.enter _ (le_refl s.now)
  | @readAdopt k failed v since hk =>
    have hd : since ≤ s.now := by
      have hsound := h.threads k
      rw [hk] at hsound
      exact hsound
    refine quiet.enter _ ⟨hd, fun hi hn => ?_⟩
    obtain ⟨hfound, hmiss⟩ := hread k failed v.jobName rfl (by rw [hk, ← hi, ← hn]; rfl)
    exact leaseSecondsFor_ge hfound hmiss hL
  | @adopt k v l since silence promote c t w' hk hst hsp =>
    obtain ⟨hd, hl⟩ : since ≤ s.now ∧ (v.id = i → v.fenceEpoch + 1 = n → L.tdiv second ≤ l) := by
      have hsound := h.threads k
      rw [hk] at hsound
      exact hsound
    refine (called hst hsp rfl fun _ _ ha => by cases ha).enter k ?_
    cases hres : adopt c v inst l silence promote s.world.db with
    | error => trivial
    | ok y =>
      obtain ⟨epoch, db'⟩ := y
      obtain rfl := hst.db_of_ok rfl hres
      rw [Stage.afterAdopt]
      split
      · refine ⟨rfl, fun hi hn => ?_⟩
        obtain rfl : epoch = v.fenceEpoch + 1 := (adopt_ok hres).1
        have hlong := hl hi hn
        obtain rfl : v.id = i := hi
        obtain rfl : v.fenceEpoch + 1 = n := hn
        exact .of_heldTo hd hsp hlong fun hT => adopt_heldTo hres h.holders hT
      · trivial
  | @recordGrant k kh since hk =>
    have hsound := quiet.threads k
    rw [hk] at hsound
    exact (quiet.track hsound.1 hsound.2).enter k trivial
  | @recordRenewal k kh since hk =>
    have hsound := quiet.threads k
    rw [hk] at hsound
    exact (quiet.confirmHold hsound).enter k trivial
  | recordLoss hk => exact (quiet.untrack _ _).enter _ trivial
  | untrack => exact quiet.untrack _ _

theorem GateInv.run {u : Utc} {t : Instant}
    (hr : Sys.Run (EngineStep env inst skew) { world := World.init u, now := t } tr s) (hL : 0 < L)
    (hsteady : ∀ x ∈ tr, Steady env L i n x) : GateInv env inst skew L i n tr s := by
  induction hr with
  | nil =>
    refine ⟨.init, fun j x hx => ?_, fun _ => trivial⟩
    cases hx
  | snoc hr hst ih =>
    obtain ⟨hbefore, hlast⟩ := List.forall_mem_append.1 hsteady
    exact (ih hbefore).step hL hst (hlast _ (List.mem_singleton_self _))

/-! ## The gate -/

/-- An open gate is younger than the lease. -/
theorem holdRemaining_pos (skew : Instant) (hL : 10 * second ≤ L) (h : 0 < s.holdRemaining i n L) :
    ∃ x, s.tracked i = some x ∧ x.holder.fenceEpoch = n ∧
      utcAt skew s.now ≤ utcAt skew x.confirmed + L.tdiv second := by
  have hpos : 0 < L := lt_of_lt_of_le (by decide) hL
  unfold Engine.holdRemaining at h
  rw [if_neg (not_le.2 hpos)] at h
  cases hx : s.tracked i with
  | none => rw [hx] at h; cases h
  | some x =>
    rw [hx] at h
    dsimp only at h
    split at h
    · cases h
    · rename_i hn
      refine ⟨x, rfl, not_not.1 hn, ?_⟩
      have hleft : 0 < (L - L.tdiv 5) - (s.now - x.confirmed) := by
        split at h
        · cases h
        · exact h
      exact young_le hL hleft

/-- **The dispatch gate never outlives the lease**, as long as every definition that is read to renew the execution has
at least the lease it was claimed with, and nobody else ends the attempt: while the gate is open, this instance has
ended the attempt itself, or the row is at its epoch with a lease that has not passed. -/
theorem gate_within_lease {u : Utc} {t : Instant}
    (hr : Sys.Run (EngineStep env inst skew) { world := World.init u, now := t } tr s) (hL : 10 * second ≤ L)
    (hsteady : ∀ x ∈ tr, Steady env L i n x) (hgate : 0 < s.holdRemaining i n L) :
    (∃ x ∈ tr, Ends env true i n x) ∨
      ∃ e, s.world.db.exec? i = some e ∧ e.fenceEpoch = n ∧ live e.leaseUntil (utcAt skew s.now) = true := by
  have hinv := GateInv.run hr (lt_of_lt_of_le (by decide) hL) hsteady
  obtain ⟨x, hx, hn, hyoung⟩ := holdRemaining_pos skew hL hgate
  rcases ((hinv.tracked i x hx).2 rfl hn).hold with hown | ⟨e, r, hheld⟩ | hlate
  · exact Or.inl hown
  · exact Or.inr ⟨e, hheld.exec, hheld.epoch, hheld.row.live hyoung⟩
  · exact absurd hyoung (not_le.2 hlate)

end steps

/-! ## A lease that an operator shortens -/

/-- The engine after a call at second `t`. -/
def Engine.after (s : Engine) (env : Env) (a : Action) (t : Int) : Engine :=
  { s with world := s.world.call env a t, now := t * second }

theorem spans_at {s : Engine} {t : Int} (h : s.now ≤ t * second) : Spans 0 s.now (t * second) (Ctx.at_ t) := by
  have hend : utcAt 0 (t * second) = t := by
    unfold utcAt
    rw [add_zero]
    exact Int.mul_ediv_cancel t (by decide)
  exact ⟨h, hend ▸ utcAt_mono h, fun _ => le_of_eq hend.symm⟩

theorem step_after (env : Env) (inst : String) {s : Engine} (a : Action) (t : Int) (hc : a.claimant ≠ some inst)
    (hnow : s.now ≤ t * second) (hle : s.world.utc ≤ t)
    (hf : a.mints.all (fun x => decide (x ∉ s.world.issued)) = true) :
    EngineStep env inst 0 s (.call true (a, Ctx.at_ t) (t * second)) (s.after env a t) :=
  .call hc (World.step_call env hle hf) (spans_at hnow)

def passClaim : ClaimParams := ⟨1, "sync", "pass-1", "scheduler", "executor", "t1", 5⟩

def passHolder : Holder := ⟨"sync", 1, "pass-1", "scheduler", "t1", 1⟩

/-- The first pass of a poll job. -/
def listed : Engine :=
  (({ world := World.init 0, now := 0 } : Engine).after bareEnv firstPass[0].1 0).after bareEnv firstPass[1].1 1

/-- A goroutine is granted it at second 2, with a lease of 30 s. -/
def granted : Engine :=
  ((listed.enter 0 (.claiming passClaim second)).after bareEnv (claimPass "t1") 2).enter 0
    (.granted passHolder second)

def claimed : Engine := (granted.track passHolder second).enter 0 .idle

theorem Steady.of_quiet {env : Env} {L : Instant} {i n : Nat} {x : Engine × Act × Engine}
    (hclaim : ∀ k r c t, x.2.1 ≠ .claim k r c t) (hread : ∀ k f, x.2.1 ≠ .readLease k f)
    (hcall : ∀ l t, x.2.1 ≠ .call false l t) : Steady env L i n x :=
  ⟨fun k r c t _ _ _ _ hx => absurd hx (hclaim k r c t), fun k f _ hx => absurd hx (hread k f),
    fun ⟨l, t, _, hx, _⟩ => hcall l t hx⟩

theorem granted_step : EngineStep bareEnv "scheduler" 0 (listed.enter 0 (.claiming passClaim second))
    (.claim 0 (fun _ _ _ => .ok ()) (Ctx.at_ 2) (2 * second)) granted := by
  have hafter : Stage.afterClaim passClaim second
      (claim (Ctx.at_ 2) passClaim (fun _ _ _ => .ok ()) listed.world.db) = .granted passHolder second := by
    decide +kernel
  unfold granted
  rw [← hafter]
  exact .claim rfl (World.step_call bareEnv (by decide) (by decide)) (spans_at (by decide))

theorem granted_steady : Steady bareEnv (30 * second) 1 1 (listed.enter 0 (.claiming passClaim second),
    .claim 0 (fun _ _ _ => .ok ()) (Ctx.at_ 2) (2 * second), granted) := by
  refine ⟨fun k r c t p since res db' hact hk hres _ _ _ => ?_, fun _ _ _ hx => ?_, fun ⟨_, _, _, hx, _⟩ => ?_⟩
  rotate_left
  · cases hx
  · cases hx
  cases hact
  obtain ⟨rfl, rfl⟩ : passClaim = p ∧ second = since := by simpa [Engine.enter] using hk
  have hlease : (claim (Ctx.at_ 2) passClaim (fun _ _ _ => .ok ()) listed.world.db).map (·.1.definition.lease) =
      .ok (30 * second) := by decide +kernel
  have hres : claim (Ctx.at_ 2) passClaim (fun _ _ _ => .ok ()) listed.world.db = .ok (res, db') := hres
  rw [hres] at hlease
  exact Except.ok.inj hlease

theorem claimed_reached : ∃ tr,
    Sys.Run (EngineStep bareEnv "scheduler" 0) { world := World.init 0, now := 0 } tr claimed ∧
    ∀ x ∈ tr, Steady bareEnv (30 * second) 1 1 x ∧ ¬ Ends bareEnv true 1 1 x := by
  refine ⟨_, ((((Sys.Run.nil.snoc
    (step_after bareEnv "scheduler" firstPass[0].1 0 (by decide) (by decide) (by decide) rfl)).snoc
    (step_after bareEnv "scheduler" firstPass[1].1 1 (by decide) (by decide) (by decide) rfl)).snoc
    (.stampClaim rfl rfl)).snoc granted_step).snoc (.recordGrant rfl), ?_⟩
  simp only [List.nil_append, List.cons_append, List.forall_mem_cons, List.not_mem_nil, false_imp_iff, implies_true]
  refine ⟨⟨?_, ?_⟩, ⟨?_, ?_⟩, ⟨?_, ?_⟩, ⟨granted_steady, ?_⟩, ⟨?_, ?_⟩, trivial⟩
  all_goals first
    | exact .of_quiet (fun _ _ _ _ h => by cases h) (fun _ _ h => by cases h) (fun _ _ h => by cases h)
    | (rintro ⟨l, t, q, hact, hq, -⟩; cases hact <;> cases hq)

/-- At second 20 the gate is open for another five, and the lease runs to second 32. -/
theorem gate_within_lease_claimed : ∃ tr,
    Sys.Run (EngineStep bareEnv "scheduler" 0) { world := World.init 0, now := 0 } tr
      { claimed with now := 20 * second } ∧
    0 < ({ claimed with now := 20 * second } : Engine).holdRemaining 1 1 (30 * second) ∧
    ((∃ x ∈ tr, Ends bareEnv true 1 1 x) ∨
      ∃ e, claimed.world.db.exec? 1 = some e ∧ e.fenceEpoch = 1 ∧
        live e.leaseUntil (utcAt 0 (20 * second)) = true) := by
  obtain ⟨tr, hr, hsteady⟩ := claimed_reached
  have hwait : EngineStep bareEnv "scheduler" 0 claimed (.wait (20 * second)) { claimed with now := 20 * second } :=
    .wait (by decide)
  have hgate : 0 < ({ claimed with now := 20 * second } : Engine).holdRemaining 1 1 (30 * second) := by decide
  have hlast : Steady bareEnv (30 * second) 1 1 (claimed, .wait (20 * second), { claimed with now := 20 * second }) :=
    .of_quiet (fun _ _ _ _ h => by cases h) (fun _ _ h => by cases h) (fun _ _ h => by cases h)
  refine ⟨_, hr.snoc hwait, hgate, gate_within_lease (hr.snoc hwait) (by decide) ?_ hgate⟩
  exact List.forall_mem_append.2 ⟨fun x hx => (hsteady x hx).1, List.forall_mem_singleton.2 hlast⟩

def shorten : Action :=
  .updateJob { sampleJob "sync" .fixedDelay "1000" with lease := 10 * second } 1 "operator" "a shorter lease"

def shortened : Engine := claimed.after bareEnv shorten 3

/-- The heartbeat renews at second 4 with the definition it has just read. -/
def renewed : Engine :=
  (((((shortened.enter 0 (.renewing passHolder)).enter 0 (.leased passHolder 10)).enter 0
    (.proving passHolder 10 (3 * second))).after bareEnv (.renew passHolder 10) 4).enter 0
    (.renewed passHolder (3 * second)))

def confirmed : Engine := (renewed.confirmHold 1 1 (3 * second)).enter 0 .idle

theorem confirmed_reached : ∃ tr, Sys.Run (EngineStep bareEnv "scheduler" 0) claimed tr confirmed ∧
    ∀ x ∈ tr, ClaimsWith (30 * second) 1 1 x ∧ ¬ Ends bareEnv true 1 1 x := by
  have hread : leaseSecondsFor (shortened.enter 0 (.renewing passHolder)).world.db false "sync" = 10 := by
    decide +kernel
  have hafter : Stage.afterRenew passHolder (3 * second)
      (answer bareEnv shortened.world (.renew passHolder 10, Ctx.at_ 4)) = .renewed passHolder (3 * second) := by
    decide +kernel
  have hleased : EngineStep bareEnv "scheduler" 0 (shortened.enter 0 (.renewing passHolder)) (.readLease 0 false)
      ((shortened.enter 0 (.renewing passHolder)).enter 0 (.leased passHolder 10)) :=
    hread ▸ EngineStep.readLease rfl
  have hrenew : EngineStep bareEnv "scheduler" 0
      (((shortened.enter 0 (.renewing passHolder)).enter 0 (.leased passHolder 10)).enter 0
        (.proving passHolder 10 (3 * second))) (.renew 0 (Ctx.at_ 4) (4 * second)) renewed := by
    unfold renewed
    rw [← hafter]
    exact .renew rfl (World.step_call bareEnv (by decide) rfl) (spans_at (by decide))
  have hshorten : EngineStep bareEnv "scheduler" 0 claimed (.call true (shorten, Ctx.at_ 3) (3 * second)) shortened :=
    step_after bareEnv "scheduler" shorten 3 (by decide) (by decide) (by decide) rfl
  have hsnapshot : EngineStep bareEnv "scheduler" 0 shortened (.snapshot 0 1)
      (shortened.enter 0 (.renewing passHolder)) :=
    EngineStep.snapshot (x := ⟨passHolder, second⟩) rfl rfl
  have hrecord : EngineStep bareEnv "scheduler" 0 renewed (.record 0) confirmed :=
    EngineStep.recordRenewal (h := passHolder) rfl
  refine ⟨_, (((((Sys.Run.nil.snoc hshorten).snoc hsnapshot).snoc hleased).snoc (.stampRenew rfl)).snoc
    hrenew).snoc hrecord, ?_⟩
  simp only [List.nil_append, List.cons_append, List.forall_mem_cons, List.not_mem_nil, false_imp_iff, implies_true,
    and_true]
  refine ⟨⟨?_, ?_⟩, ⟨?_, ?_⟩, ⟨?_, ?_⟩, ⟨?_, ?_⟩, ⟨?_, ?_⟩, ?_, ?_⟩
  all_goals first
    | (intro k r c t p since res db' hact; cases hact)
    | (rintro ⟨l, t, q, hact, hq, -⟩; cases hact <;> cases hq)

/-- The operator shortens the lease from 30 s to 10 s after the claim: at second 20 the gate is open, and the lease has
run out at second 14. -/
theorem gate_outlives_shortened_lease : ∃ tr,
    Sys.Run (EngineStep bareEnv "scheduler" 0) { world := World.init 0, now := 0 } tr
      { confirmed with now := 20 * second } ∧
    (∀ x ∈ tr, ClaimsWith (30 * second) 1 1 x ∧ ¬ Ends bareEnv true 1 1 x) ∧
    0 < ({ confirmed with now := 20 * second } : Engine).holdRemaining 1 1 (30 * second) ∧
    ∃ e, confirmed.world.db.exec? 1 = some e ∧ e.fenceEpoch = 1 ∧
      live e.leaseUntil (utcAt 0 (20 * second)) = false := by
  obtain ⟨tr, hr, hclaimed⟩ := claimed_reached
  obtain ⟨tr', hr', hconfirmed⟩ := confirmed_reached
  have hwait : EngineStep bareEnv "scheduler" 0 confirmed (.wait (20 * second)) { confirmed with now := 20 * second } :=
    .wait (by decide)
  refine ⟨_, (hr.append hr').snoc hwait, ?_, by decide, ?_⟩
  · simp only [List.forall_mem_append, List.forall_mem_singleton]
    refine ⟨⟨fun x hx => ⟨(hclaimed x hx).1.claims, (hclaimed x hx).2⟩, hconfirmed⟩, fun _ _ _ _ _ _ _ _ h => ?_,
      fun ⟨_, _, _, h, _⟩ => ?_⟩
    · cases h
    · cases h
  · have hrow : (confirmed.world.db.exec? 1).any (fun e => e.fenceEpoch == 1 &&
        !live e.leaseUntil (utcAt 0 (20 * second))) = true := by decide +kernel
    simpa [Option.any_eq_true] using hrow

end Gate
end GoJob
