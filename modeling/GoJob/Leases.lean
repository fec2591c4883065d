import GoJob.Attempts
/-!
# Leases — the two copies of a lease

A claim, a renewal and an adoption write the lease twice: to the job's lock first, then to the execution.  The database
clock does not go back in between, so the lock's copy never runs out later than the execution's.
-/
namespace GoJob

open Rel

variable {env : Env} {c : Ctx} {db db' : DB} {a : Action}

/-- Lease `a` has run out whenever `b` has. -/
def NoLater (a b : Option Utc) : Prop := ∀ u, past b u = true → past a u = true

theorem NoLater.written {u v : Utc} (h : u ≤ v) (l : Int) : NoLater (some (u + l)) (some (v + l)) := by
  intro x hx
  have hlt : v + l < x := by simpa [past] using hx
  have hle : u + l < x := lt_of_le_of_lt (by linarith) hlt
  simpa [past] using hle

/-- A lease that runs at least to `T`. -/
def Lasts (col : Option Utc) (T : Utc) : Prop := ∃ l, col = some l ∧ T ≤ l

theorem Lasts.not_past {col : Option Utc} {T z : Utc} (h : Lasts col T) (hz : z ≤ T) : past col z = false := by
  obtain ⟨l, rfl, hle⟩ := h
  simpa [past] using le_trans hz hle

theorem Lasts.live {col : Option Utc} {T z : Utc} (h : Lasts col T) (hz : z ≤ T) : live col z = true := by
  obtain ⟨l, rfl, hle⟩ := h
  simpa [GoJob.live] using le_trans hz hle

/-- The lock of a job runs out no later than the execution that holds it. -/
def DB.LocksFirst (db : DB) : Prop := ∀ i e s, db.exec? i = some e → e.status.held = true →
  db.state? e.jobName = some s → NoLater s.leaseUntil e.leaseUntil

/-! ## Changes that leave leases alone -/

/-- A held row keeps its lease unless it is renewed or adopted. -/
theorem ExecMove.lease {e e' : ExecRow} (h : ExecMove c a e e') (hh : e'.status.held = true)
    (hn : e'.fenceEpoch = e.fenceEpoch) (hr : ∀ k l, a ≠ .renew k l) (hs : e.status.held = true) :
    e'.leaseUntil = e.leaseUntil := by
  cases h.writes hs hh with
  | renew => exact absurd rfl (hr _ _)
  | adopt _ ho =>
    have hstep : _ + 1 = e.fenceEpoch := hn
    rw [(ExecRow.owned_iff.1 ho).2] at hstep
    exact absurd hstep (Nat.succ_ne_self _)
  | _ => rfl

namespace DB.LocksFirst

/-- Every lock that was there keeps its lease, and so does every row that is held. -/
theorem kept (h : db.LocksFirst) (hag : Agree db)
    (hs : ∀ j s s', db.state? j = some s → db'.state? j = some s' → s'.leaseUntil = s.leaseUntil)
    (hx : ∀ i x', db'.exec? i = some x' → x'.status.held = true → ∃ x, db.exec? i = some x ∧ x.status.held = true ∧
      x'.toExecInfo = x.toExecInfo ∧ x'.leaseUntil = x.leaseUntil) : db'.LocksFirst := by
  intro i x' s' hx' hh hs'
  obtain ⟨x, hx, hxh, hinfo, hlease⟩ := hx i x' hx' hh
  obtain ⟨s, hxs, -⟩ := hag.held i x hx hxh
  rw [hinfo] at hs'
  rw [hlease, hs _ s s' hxs hs']
  exact h i x s hx hxh hxs

/-- A lock changes together with the only row of its job that can be held. -/
theorem onBoth (h : db.LocksFirst) {j : String} {s' : StateRow} {i : Nat} {e' : ExecRow}
    (hf : OnBoth db db' j s' i e') (hj : e'.jobName = j)
    (honly : ∀ k x, db.exec? k = some x → x.jobName = j → x.status.held = true → k = i)
    (hnew : e'.status.held = true → NoLater s'.leaseUntil e'.leaseUntil) : db'.LocksFirst := by
  intro k x s hx hh hs
  rw [hf.execs] at hx
  rw [hf.states] at hs
  split at hx
  · obtain rfl := Option.some.inj hx
    rw [if_pos hj] at hs
    obtain rfl := Option.some.inj hs
    exact hnew hh
  · rename_i hk
    rw [if_neg (fun hxj => hk (honly k x hx hxj hh))] at hs
    exact h k x s hx hh hs

end DB.LocksFirst

theorem lease_kept_of_set {j : String} {s s₁ : StateRow} (hs : db.state? j = some s)
    (hl : s₁.leaseUntil = s.leaseUntil) (hf : ∀ k, db'.state? k = if k = j then some s₁ else db.state? k) :
    ∀ k x x', db.state? k = some x → db'.state? k = some x' → x'.leaseUntil = x.leaseUntil := by
  intro k x x' hx hx'
  rw [hf k] at hx'
  split at hx'
  · rename_i hk
    rw [hk, hs] at hx
    rw [← Option.some.inj hx', ← Option.some.inj hx]
    exact hl
  · rw [Option.some.inj (hx.symm.trans hx')]

theorem lease_kept_of_eq (hf : ∀ k, db'.state? k = db.state? k) :
    ∀ k x x', db.state? k = some x → db'.state? k = some x' → x'.leaseUntil = x.leaseUntil := by
  intro k x x' hx hx'
  rw [hf k] at hx'
  rw [Option.some.inj (hx.symm.trans hx')]

theorem lease_kept_of_catalog (h : Relation.ReflTransGen (CatalogStep c) db db') {k : String} {s s' : StateRow}
    (hs : db.state? k = some s) (hs' : db'.state? k = some s') : s'.leaseUntil = s.leaseUntil := by
  suffices db'.state? k = some s by rw [Option.some.inj (this.symm.trans hs')]
  clear hs'
  induction h with
  | refl => exact hs
  | tail _ hstep ih =>
    cases hstep with
    | edit _ _ _ _ _ _ hstates => rw [hstates]; exact ih
    | audit _ hstates => rw [hstates]; exact ih
    | create d _ _ _ _ hnone _ hstates =>
      rw [hstates, if_neg]
      · exact ih
      · rintro rfl
        rw [hnone] at ih; cases ih

/-- A held row that one row's move leaves, or that this move leaves held with its lease. -/
theorem held_kept_of_set {i : Nat} {e e' : ExecRow} (he : db.exec? i = some e) (hi : e'.toExecInfo = e.toExecInfo)
    (hkeep : e'.status.held = true → e.status.held = true ∧ e'.leaseUntil = e.leaseUntil)
    (hf : ∀ k, db'.exec? k = if k = i then some e' else db.exec? k) :
    ∀ k x', db'.exec? k = some x' → x'.status.held = true → ∃ x, db.exec? k = some x ∧ x.status.held = true ∧
      x'.toExecInfo = x.toExecInfo ∧ x'.leaseUntil = x.leaseUntil := by
  intro k x' hx' hh
  rw [hf k] at hx'
  split at hx'
  · rename_i hk
    obtain rfl := Option.some.inj hx'
    exact ⟨e, hk ▸ he, (hkeep hh).1, hi, (hkeep hh).2⟩
  · exact ⟨x', hx', hh, rfl, rfl⟩

theorem held_kept_of_eq (hf : ∀ k, db'.exec? k = db.exec? k) :
    ∀ k x', db'.exec? k = some x' → x'.status.held = true → ∃ x, db.exec? k = some x ∧ x.status.held = true ∧
      x'.toExecInfo = x.toExecInfo ∧ x'.leaseUntil = x.leaseUntil := fun k x' hx' hh =>
  ⟨x', (hf k) ▸ hx', hh, rfl, rfl⟩

/-! ## The invariant -/

theorem DB.LocksFirst.commit {issued : List String} (h : db.LocksFirst) (hinv : HolderInv db issued)
    (hc : Commit env c db a db') (hr : ∀ k l, a ≠ .renew k l) : db'.LocksFirst := by
  have hag := hinv.toAgree
  cases hc with
  | idle _ hs hx _ => exact h.kept hag (lease_kept_of_eq hs) (held_kept_of_eq hx)
  | exec he hm hl _ _ _ hn hf =>
    refine h.kept hag (lease_kept_of_eq hf.states) (held_kept_of_set he hm.info (fun hh => ?_) hf.execs)
    exact ⟨hl ▸ hh, hm.lease hh hn hr (hl ▸ hh)⟩
  | expire he hm ht hf =>
    refine h.kept hag (lease_kept_of_eq hf.states) (held_kept_of_set he hm.info (fun hh => ?_) hf.execs)
    rw [ht] at hh; cases hh
  | @acquire p _ s e _ lease timeout hs he hj _ hfree _ _ _ hf =>
    refine h.onBoth hf hj (fun k x hx hxj hxh => ?_) (fun _ => .written (c.mono (by decide)) lease)
    obtain ⟨s₁, hs₁, hx₁⟩ := hag.held k x hx hxh
    rw [hxj, hs] at hs₁
    exact absurd ((Option.some.inj hs₁) ▸ hfree) hx₁.kind
  | renew => exact absurd rfl (hr _ _)
  | adopt hs he ho hl hm hf =>
    cases hm with
    | adopt hi hheld hrow hcap =>
      obtain ⟨hj, -, honly⟩ := hinv.holder hs (StateRow.owned_iff.1 ho).1 he (ExecRow.owned_iff.1 hrow).1
      exact h.onBoth hf hj honly (fun _ => .written (c.mono (by decide)) _)
  | close hcl =>
    obtain ⟨_, _, ha, _, hs, he, ho, hrow, hm, _, hf, -⟩ := hcl
    obtain ⟨hj, -, honly⟩ := hinv.holder hs (StateRow.owned_iff.1 ho).1 he (ExecRow.owned_iff.1 hrow).1
    refine h.onBoth hf (by rw [hm.info]; exact hj) honly (fun hh => ?_)
    rw [(hm.closed ha).2] at hh; cases hh
  | skip _ hs he hm ht _ hp hf =>
    refine h.kept hag (lease_kept_of_set hs (by cases hp <;> rfl) hf.states)
      (held_kept_of_set he hm.info (fun hh => ?_) hf.execs)
    rw [ht] at hh; cases hh
  | clock _ hs hm hf =>
    exact h.kept hag (lease_kept_of_set hs (by cases hm <;> rfl) hf.states) (held_kept_of_eq hf.execs)
  | pause hs hf => exact h.kept hag (lease_kept_of_set hs (by rfl) hf.states) (held_kept_of_eq hf.execs)
  | create _ hs hj hm hi _ hf =>
    refine h.kept hag (lease_kept_of_set hs (by cases hm <;> rfl) hf.states) (fun k x' hx' hh => ?_)
    rw [hf.execs] at hx'
    split at hx'
    · rw [← Option.some.inj hx', hm.fresh.status] at hh; cases hh
    · exact ⟨x', hx', hh, rfl, rfl⟩
  | retire _ _ _ hs hrows hnew =>
    refine h.kept hag (lease_kept_of_eq hs) (fun k x' hx' hh => ?_)
    cases hx : db.exec? k with
    | none => rw [hnew k hx] at hx'; cases hx'
    | some x =>
      obtain ⟨x₁, hx₁, hcase⟩ := hrows k x hx
      obtain rfl := Option.some.inj (hx'.symm.trans hx₁)
      rcases hcase with ⟨rfl, -⟩ | hm
      · exact ⟨x', rfl, hh, rfl, rfl⟩
      · cases hm with
        | retireReady => cases hh
        | retireHeld _ hst => exact ⟨x, rfl, Status.held_of_cancellable hst, rfl, rfl⟩
  | reap _ hs hrows hnew =>
    refine h.kept hag (lease_kept_of_eq hs) (fun k x' hx' hh => ?_)
    cases hx : db.exec? k with
    | none => rw [hnew k hx] at hx'; cases hx'
    | some x =>
      rcases hrows k x hx with hsame | ⟨hgone, -⟩
      · obtain rfl := Option.some.inj (hx'.symm.trans hsame)
        exact ⟨x', rfl, hh, rfl, rfl⟩
      · rw [hgone] at hx'; cases hx'
  | revive _ _ he hm hf =>
    refine h.kept hag (lease_kept_of_eq hf.states) (held_kept_of_set he hm.info (fun hh => by cases hh) hf.execs)
  | catalog hs =>
    exact h.kept hag (fun _ _ _ hx hx' => lease_kept_of_catalog hs hx hx') (held_kept_of_eq (catalog_exec? hs))

/-- A renewal is no exception, but `Commit` forgets that it writes both copies. -/
theorem DB.LocksFirst.renewed {issued : List String} {k : Holder} {l : Int} {u : Unit} (h : db.LocksFirst)
    (hinv : HolderInv db issued) (hok : renew c k l db = .ok (u, db')) : db'.LocksFirst := by
  obtain ⟨s, e, hs, he, ho, -, hrow, -, hf⟩ := renew_ok hok
  obtain ⟨hj, -, honly⟩ := hinv.holder hs (StateRow.owned_iff.1 ho).1 he (ExecRow.owned_iff.1 hrow).1
  exact h.onBoth hf hj honly (fun _ => .written (c.mono (by decide)) l)

/-- **In every reachable schema the lock of a job runs out no later than the execution that holds it.** -/
theorem locksFirst_run {u : Utc} {tr : History} {w : World} (hr : Sys.Run (Step env) (World.init u) tr w) :
    w.db.LocksFirst := by
  refine Sys.Run.history (J := fun _ w => w.db.LocksFirst) (fun _ _ _ he => by cases he) ?_ hr
  intro tr w l w' hr ih hst
  by_cases hren : ∃ k n, l.1 = .renew k n
  · obtain ⟨k, n, hren⟩ := hren
    rw [hst.db, hren]
    rcases Tx.commit_cases ((Action.renew k n).tx env l.2) w.db with ⟨err, -, hsame⟩ | ⟨_, hok⟩
    · rw [hsame]; exact ih
    · exact ih.renewed (HolderInv.run hr) hok
  · exact ih.commit (HolderInv.run hr) hst.commit (fun k n heq => hren ⟨k, n, heq⟩)

end GoJob
