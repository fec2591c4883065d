import GoJob.Leases
import GoJob.Server
import GoJob.TokenLife
/-!
# Tenure — an execution held at one epoch

From a claim or an adoption until the epoch is over, an execution has one owner, and its two leases are only ever
written by that owner's renewals.  A tenure ends in two ways: by a call that ends the attempt under its epoch, or by an
adoption, which waits for the lock's lease to run out.
-/
namespace GoJob

open Rel Tx

variable {env : Env} {c : Ctx} {a : Action} {db db' : DB} {w w' : World} {i n : Nat}

/-! ## One move -/

/-- The owner of a held row changes with its epoch. -/
theorem ExecMove.owner {e e' : ExecRow} (h : ExecMove c a e e') (hh : e.status.held = true)
    (hh' : e'.status.held = true) (hn : e'.fenceEpoch = e.fenceEpoch) : e'.ownerInstance = e.ownerInstance := by
  cases h.writes hh hh' with
  | adopt _ ho =>
    have hstep : _ + 1 = e.fenceEpoch := hn
    rw [(ExecRow.owned_iff.1 ho).2] at hstep
    exact absurd hstep (Nat.succ_ne_self _)
  | _ => rfl

/-- **A held row is let go by a call that ends the attempt under its epoch.** -/
theorem ExecMove.closing {e e' : ExecRow} (h : ExecMove c a e e') (hh : e.status.held = true)
    (hh' : e'.status.held = false) :
    ∃ q, a.closing = some q ∧ q.executionId = e.id ∧ q.fenceEpoch = e.fenceEpoch := by
  cases h.holder with
  | dispatched _ hs => rw [hs] at hh; cases hh
  | written _ hheld => rw [hheld] at hh'; cases hh'
  | closed ha hi ho => exact ⟨_, ha, hi, (ExecRow.owned_iff.1 ho).2.symm⟩
  | unheld hfree => rw [hfree] at hh; cases hh

/-! ## The lock's lease -/

/-- **A lock keeps its lease while the execution stays held at its epoch**, unless it is renewed. -/
theorem Commit.lock_lease {issued : List String} (h : Commit env c db a db') (hinv : HolderInv db issued)
    (hr : ∀ k l, a ≠ .renew k l) {e e' : ExecRow} {s s' : StateRow} (he : db.exec? i = some e)
    (hh : e.status.held = true) (hs : db.state? e.jobName = some s) (he' : db'.exec? i = some e')
    (hh' : e'.status.held = true) (hn : e'.fenceEpoch = e.fenceEpoch) (hs' : db'.state? e.jobName = some s') :
    s'.leaseUntil = s.leaseUntil := by
  have kept : (∀ k, db'.state? k = db.state? k) → s'.leaseUntil = s.leaseUntil := fun hf =>
    lease_kept_of_eq hf _ s s' hs hs'
  have set : ∀ {j : String} {x x' : StateRow}, db.state? j = some x → x'.leaseUntil = x.leaseUntil →
      (∀ k, db'.state? k = if k = j then some x' else db.state? k) → s'.leaseUntil = s.leaseUntil := fun hx hl hf =>
    lease_kept_of_set hx hl hf _ s s' hs hs'
  -- A change of another job's lock leaves this one alone.
  have other : ∀ {j : String} {x' : StateRow}, (∀ k, db'.state? k = if k = j then some x' else db.state? k) →
      e.jobName ≠ j → s'.leaseUntil = s.leaseUntil := fun hf hne => by
    rw [hf, if_neg hne] at hs'
    rw [Option.some.inj (hs.symm.trans hs')]
  cases h with
  | idle _ hstates => exact kept hstates
  | exec _ _ _ _ _ _ _ hf => exact kept hf.states
  | expire _ _ _ hf => exact kept hf.states
  | acquire _ _ hs₁ _ _ _ hfree _ _ _ hf =>
    refine other hf.states fun hj => ?_
    obtain ⟨s₂, hs₂, hes⟩ := hinv.held i e he hh
    rw [hj, hs₁] at hs₂
    exact hes.kind (Option.some.inj hs₂ ▸ hfree)
  | renew => exact absurd rfl (hr _ _)
  | adopt hs₁ he₁ ho _ hm hf =>
    refine other hf.states fun hj => ?_
    cases hm with
    | adopt _ _ hrow =>
      obtain ⟨-, -, honly⟩ := hinv.holder hs₁ (StateRow.owned_iff.1 ho).1 he₁ (ExecRow.owned_iff.1 hrow).1
      obtain rfl := honly i e he hj hh
      obtain rfl := Option.some.inj (he.symm.trans he₁)
      obtain rfl := Option.some.inj (he'.symm.trans hf.exec?)
      have hstep : _ + 1 = e.fenceEpoch := hn
      rw [(ExecRow.owned_iff.1 hrow).2] at hstep
      exact Nat.succ_ne_self _ hstep
  | close hcl =>
    obtain ⟨_, _, ha, _, hs₁, he₁, ho, hrow, hm, _, hf, -⟩ := hcl
    refine other hf.states fun hj => ?_
    obtain ⟨-, -, honly⟩ := hinv.holder hs₁ (StateRow.owned_iff.1 ho).1 he₁ (ExecRow.owned_iff.1 hrow).1
    obtain rfl := honly i e he hj hh
    obtain rfl := Option.some.inj (he'.symm.trans hf.exec?)
    rw [(hm.closed ha).2] at hh'; cases hh'
  | skip _ hs₁ _ _ _ _ hp hf => exact set hs₁ (by cases hp <;> rfl) hf.states
  | clock _ hs₁ hm hf => exact set hs₁ (by cases hm <;> rfl) hf.states
  | pause hs₁ hf => exact set hs₁ (by rfl) hf.states
  | create _ hs₁ _ hm _ _ hf => exact set hs₁ (by cases hm <;> rfl) hf.states
  | retire _ _ _ hstates => exact kept hstates
  | reap _ hstates => exact kept hstates
  | revive _ _ _ _ hf => exact kept hf.states
  | catalog hcat => exact lease_kept_of_catalog hcat hs hs'

/-! ## One step -/

/-- **What a step does to a row that is held**: it keeps it at its epoch, an adoption takes it over once the lock's
lease has passed, or a call ends it under its epoch. -/
inductive Tenure (env : Env) (w : World) (l : Action × Ctx) (w' : World) (i : Nat) (e : ExecRow) : Prop
  | kept {e' : ExecRow} (he' : w'.db.exec? i = some e') (hh' : e'.status.held = true)
      (hn : e'.fenceEpoch = e.fenceEpoch) (hm : e' = e ∨ ExecMove l.2 l.1 e e')
  | adopted {v : Stale} {o : String} {lease silence : Int} {p : Bool} {s : StateRow}
      (ha : l.1 = .adopt v o lease silence p) (hs : w.db.state? e.jobName = some s)
      (hl : past s.leaseUntil (l.2.utc 2) = true)
  | ended {q : Closing} (hq : l.1.closing = some q) (hi : q.executionId = i) (hn : q.fenceEpoch = e.fenceEpoch)
      (hok : answer env w l = .ok ())

theorem Step.tenure {l : Action × Ctx} (hst : Step env w l w') (hinv : HolderInv w.db w.issued) {e : ExecRow}
    (he : w.db.exec? i = some e) (hh : e.status.held = true) : Tenure env w l w' i e := by
  obtain ⟨a, c⟩ := l
  rcases Tx.commit_cases (a.tx env c) w.db with ⟨err, -, hsame⟩ | ⟨u, hok⟩
  · have hdb : w'.db = w.db := hst.db.trans hsame
    exact .kept (hdb.symm ▸ he) hh rfl (Or.inl rfl)
  · have hans : answer env w (a, c) = .ok () := by
      unfold answer
      rw [hok]; rfl
    have hrow := hst.commit.row he
    generalize hx : w'.db.exec? i = x at hrow
    cases hrow with
    | same => exact .kept hx hh rfl (Or.inl rfl)
    | delete hexp =>
      have hterm := ExecRow.terminal_of_expired hexp
      rw [Status.not_held_of_terminal hterm] at hh; cases hh
    | @move _ _ e' hm =>
      by_cases hh' : e'.status.held = true
      · by_cases hn : e'.fenceEpoch = e.fenceEpoch
        · exact .kept hx hh' hn (Or.inr hm)
        · have hadopts := (hm.stays_held hh hh').adopts hn
          cases a with
          | adopt v o lease silence p =>
            obtain ⟨_, hadopt⟩ := unit_ok hok
            obtain ⟨-, s, e₁, hs, he₁, ho, hl, -, hrow, -⟩ := adopt_ok hadopt
            have hi : v.id = i := (of_decide_eq_true hadopts).trans (DB.exec?_id he)
            rw [hi] at he₁
            obtain rfl := Option.some.inj (he.symm.trans he₁)
            obtain ⟨hj, -⟩ := hinv.holder hs (StateRow.owned_iff.1 ho).1 he (ExecRow.owned_iff.1 hrow).1
            exact .adopted rfl (hj ▸ hs) hl
          | _ => cases hadopts
      · obtain ⟨q, hq, hi, hn⟩ := hm.closing hh (Bool.eq_false_iff.2 hh')
        exact .ended hq (hi.trans (DB.exec?_id he)) hn hans

/-! ## A tenure and its leases -/

/-- Execution `i` is held at epoch `n` by `inst`, and neither copy of its lease runs out before `T`. -/
structure HeldTo (inst : String) (i n : Nat) (T : Utc) (w : World) (e : ExecRow) (s : StateRow) : Prop where
  exec  : w.db.exec? i = some e
  state : w.db.state? e.jobName = some s
  held  : e.status.held = true
  epoch : e.fenceEpoch = n
  owner : e.ownerInstance = some inst
  row   : Lasts e.leaseUntil T
  lock  : Lasts s.leaseUntil T

theorem renew_owner {k : Holder} {l : Int} {u : Unit} (h : renew c k l db = .ok (u, db')) {e : ExecRow}
    (he : db.exec? k.executionId = some e) : e.ownerInstance = some k.owner := by
  obtain ⟨_, _, h₁, h⟩ := Tx.bind_ok.1 h
  obtain ⟨s, -, -, rfl⟩ := casState_ok h₁
  obtain ⟨e₁, he₁, hg, -⟩ := casExec_ok h
  obtain rfl := Option.some.inj (he.symm.trans he₁)
  simp only [Bool.and_eq_true, decide_eq_true_eq] at hg
  exact hg.1.1.2

section granted

variable {inst : String} {T : Utc}

/-- A claim starts a tenure. -/
theorem claim_heldTo {p : ClaimParams} {r : Runnable} {x : ClaimResult} (hst : Step env w (.claim p r, c) w')
    (hok : claim c p r w.db = .ok (x, w'.db)) (hx : x.outcome = .acquired) (hinv : HolderInv w.db w.issued)
    (hT : T ≤ c.utc 0 + x.definition.lease.tdiv second) :
    ∃ e s, HeldTo p.owner p.executionId x.fenceEpoch T w' e s := by
  obtain ⟨s, d, e, hg⟩ := claim_granted hok hx
  obtain ⟨hj, -⟩ := (hinv.step hst).holder hg.state' rfl hg.exec' rfl
  have h₃ : c.utc 0 ≤ c.utc 3 := c.mono (by decide)
  have h₄ : c.utc 0 ≤ c.utc 4 := c.mono (by decide)
  refine ⟨_, _, hg.exec', hj.symm ▸ hg.state', rfl, rfl, rfl, ⟨_, rfl, ?_⟩, ⟨_, rfl, ?_⟩⟩
  · linarith
  · linarith

/-- A renewal goes on with one. -/
theorem renew_heldTo {k : Holder} {l : Int} (hok : renew c k l w.db = .ok ((), w'.db))
    (hinv : HolderInv w.db w.issued) (hT : T ≤ c.utc 0 + l) :
    ∃ e s, HeldTo k.owner k.executionId k.fenceEpoch T w' e s := by
  obtain ⟨s, e, hs, he, ho, hh, hrow, -, hf⟩ := renew_ok hok
  obtain ⟨hj, -⟩ := hinv.holder hs (StateRow.owned_iff.1 ho).1 he (ExecRow.owned_iff.1 hrow).1
  have h₁ : c.utc 0 ≤ c.utc 1 := c.mono (by decide)
  have howner : e.ownerInstance = some k.owner := renew_owner hok he
  refine ⟨_, _, hf.exec?, hj.symm ▸ hf.state?, hh, (ExecRow.owned_iff.1 hrow).2, howner, ⟨_, rfl, ?_⟩, ⟨_, rfl, hT⟩⟩
  linarith

/-- An adoption starts the next one. -/
theorem adopt_heldTo {v : Stale} {l sil : Int} {promote : Bool} {epoch : Nat}
    (hok : adopt c v inst l sil promote w.db = .ok (epoch, w'.db)) (hinv : HolderInv w.db w.issued)
    (hT : T ≤ c.utc 0 + l) : ∃ e s, HeldTo inst v.id (v.fenceEpoch + 1) T w' e s := by
  obtain ⟨-, s, e, hs, he, ho, -, hh, hrow, -, hf⟩ := adopt_ok hok
  obtain ⟨hj, -⟩ := hinv.holder hs (StateRow.owned_iff.1 ho).1 he (ExecRow.owned_iff.1 hrow).1
  have h₂ : c.utc 0 ≤ c.utc 2 := c.mono (by decide)
  have h₃ : c.utc 0 ≤ c.utc 3 := c.mono (by decide)
  refine ⟨_, _, hf.exec?, hj.symm ▸ hf.state?, ?_, rfl, rfl, ⟨_, rfl, ?_⟩, ⟨_, rfl, ?_⟩⟩
  · by_cases hp : (promote && decide (e.status = .dispatching)) = true
    · simp [adoptWrite, hp, Status.held]
    · simp [adoptWrite, hp, hh]
  · linarith
  · linarith

end granted

/-- **A tenure lasts as long as its leases**: until then only a call under its epoch ends it.  The renewals of its owner
must not cut them short. -/
theorem HeldTo.step {inst : String} {T : Utc} {e : ExecRow} {s : StateRow} (h : HeldTo inst i n T w e s)
    (hinv : HolderInv w.db w.issued) (hst : Step env w (a, c) w')
    (hren : ∀ k l, a = .renew k l → k.owner = inst → k.executionId = i → k.fenceEpoch = n → T ≤ c.utc 0 + l) :
    (∃ e s, HeldTo inst i n T w' e s) ∨
      (∃ q, a.closing = some q ∧ q.executionId = i ∧ q.fenceEpoch = n ∧ answer env w (a, c) = .ok ()) ∨
      T < c.utc 2 := by
  cases hst.tenure hinv h.exec h.held with
  | ended hq hi hn hok => exact Or.inr (Or.inl ⟨_, hq, hi, hn.trans h.epoch, hok⟩)
  | adopted ha hs hl =>
    obtain rfl := Option.some.inj (h.state.symm.trans hs)
    refine Or.inr (Or.inr (lt_of_not_ge fun hle => ?_))
    rw [h.lock.not_past hle] at hl; cases hl
  | @kept e' he' hh' hn hm =>
    refine Or.inl ?_
    obtain ⟨s', hs', -⟩ := (hinv.step hst).held i e' he' hh'
    have hjob : e'.jobName = e.jobName := by
      rcases hm with rfl | hm
      · rfl
      · rw [hm.info]
    have howner : e'.ownerInstance = some inst := by
      rcases hm with rfl | hm
      · exact h.owner
      · exact (hm.owner h.held hh' hn).trans h.owner
    by_cases hr : ∃ k l, a = .renew k l
    · obtain ⟨k, l, rfl⟩ := hr
      rcases Tx.commit_cases ((Action.renew k l).tx env c) w.db with ⟨err, -, hsame⟩ | ⟨_, hok⟩
      · have hdb : w'.db = w.db := hst.db.trans hsame
        exact ⟨e, s, hdb ▸ h.exec, hdb ▸ h.state, h.held, h.epoch, h.owner, h.row, h.lock⟩
      · rw [← hst.db] at hok
        obtain ⟨s₁, e₁, hs₁, he₁, ho, -, hrow, -, hf⟩ := renew_ok hok
        by_cases hi : k.executionId = i
        · subst hi
          obtain rfl := Option.some.inj (h.exec.symm.trans he₁)
          have hkn : k.fenceEpoch = n := (ExecRow.owned_iff.1 hrow).2.symm.trans h.epoch
          have hko : k.owner = inst := Option.some.inj ((renew_owner hok h.exec).symm.trans h.owner)
          subst hkn hko
          exact renew_heldTo hok hinv (hren k l rfl rfl rfl rfl)
        · -- Another execution of another job.
          obtain ⟨-, -, honly⟩ := hinv.holder hs₁ (StateRow.owned_iff.1 ho).1 he₁ (ExecRow.owned_iff.1 hrow).1
          have hne : e.jobName ≠ k.jobName := fun hj => hi (honly i e h.exec hj h.held).symm
          refine ⟨e, s, ?_, ?_, h.held, h.epoch, h.owner, h.row, h.lock⟩
          · rw [hf.execs, if_neg (Ne.symm hi)]
            exact h.exec
          · rw [hf.states, if_neg hne]
            exact h.state
    · have hr : ∀ k l, a ≠ .renew k l := fun k l heq => hr ⟨k, l, heq⟩
      have hrow : e'.leaseUntil = e.leaseUntil := by
        rcases hm with rfl | hm
        · rfl
        · exact hm.lease hh' hn hr h.held
      rw [hjob] at hs'
      have hlock : s'.leaseUntil = s.leaseUntil :=
        hst.commit.lock_lease hinv hr h.exec h.held h.state he' hh' hn hs'
      exact ⟨e', s', he', hjob.symm ▸ hs', hh', hn.trans h.epoch, howner, hrow.symm ▸ h.row, hlock.symm ▸ h.lock⟩

end GoJob
