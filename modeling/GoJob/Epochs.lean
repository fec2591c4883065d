import GoJob.Fence
import GoJob.TokenLife
/-!
# Epochs — the numbers of the ownership periods

A job's epoch counts how often its lock was given to somebody.  A claim that acquires the job and an adoption raise it
by one and answer with the new number; no other call changes it.  So the numbers given out along a run are 1, 2, 3 and
so on, one for each period of ownership.  An execution's own epoch never falls: it is the job's while the execution is
held, and at most one ahead of it afterwards, where the scheduler ended the attempt.
-/
namespace GoJob

open Rel

variable {env : Env} {c : Ctx} {a : Action} {db db' : DB} {w w' : World} {l : Action × Ctx} {j : String}

/-! ## What a step grants -/

/-- The epoch a claim of `j` was answered with, if the step is one that acquired the job. -/
def claimEpoch (j : String) (x : World × (Action × Ctx) × World) : Option Nat :=
  match x.2.1.1 with
  | .claim p r =>
    match claim x.2.1.2 p r x.1.db with
    | .ok (y, _) => if p.jobName = j ∧ y.outcome = .acquired then some y.fenceEpoch else none
    | .error _   => none
  | _ => none

/-- The epoch an adoption from `j` was answered with. -/
def adoptEpoch (j : String) (x : World × (Action × Ctx) × World) : Option Nat :=
  match x.2.1.1 with
  | .adopt v o lease silence promote =>
    match adopt x.2.1.2 v o lease silence promote x.1.db with
    | .ok (n, _) => if v.jobName = j then some n else none
    | .error _   => none
  | _ => none

def grantedEpoch (j : String) (x : World × (Action × Ctx) × World) : Option Nat := (claimEpoch j x).or (adoptEpoch j x)

/-- The step let go of job `j`. -/
def Released (j : String) (x : World × (Action × Ctx) × World) : Prop :=
  ∃ s s', x.1.db.state? j = some s ∧ s.activeKind ≠ none ∧ x.2.2.db.state? j = some s' ∧ s'.activeKind = none

/-- **What a step does to a job's epoch.** -/
inductive EpochMove (j : String) (w : World) (l : Action × Ctx) (w' : World) : Prop
  | stay (hc : claimEpoch j (w, l, w') = none) (ha : adoptEpoch j (w, l, w') = none)
      (h : (w'.db.lock j).epoch = (w.db.lock j).epoch)
  | claim {s s' : StateRow} (hs : w.db.state? j = some s) (hs' : w'.db.state? j = some s')
      (hc : claimEpoch j (w, l, w') = some (s.fenceEpoch + 1)) (ha : adoptEpoch j (w, l, w') = none)
      (hfree : s.activeKind = none) (ht : s'.activeRunToken ≠ none) (h : s'.fenceEpoch = s.fenceEpoch + 1)
  | adopt {s s' : StateRow} (hs : w.db.state? j = some s) (hs' : w'.db.state? j = some s')
      (hc : claimEpoch j (w, l, w') = none) (ha : adoptEpoch j (w, l, w') = some (s.fenceEpoch + 1))
      (ht : s'.activeRunToken ≠ none) (h : s'.fenceEpoch = s.fenceEpoch + 1)

/-! ## Every step -/

/-- The call can take the lock of `j`. -/
def Action.locks (j : String) : Action → Bool
  | .claim p _       => decide (p.jobName = j)
  | .adopt v _ _ _ _ => decide (v.jobName = j)
  | _                => false

/-- **Only a claim or an adoption of a job changes its epoch.** -/
theorem Commit.lock_epoch (h : Commit env c db a db') (ha : a.locks j = false) :
    (db'.lock j).epoch = (db.lock j).epoch := by
  have same : db'.state? j = db.state? j → (db'.lock j).epoch = (db.lock j).epoch := fun hs => by
    rw [DB.lock, DB.lock, hs]
  have other : ∀ {k : String} {s' : StateRow}, decide (k = j) = false →
      (∀ k', db'.state? k' = if k' = k then some s' else db.state? k') → (db'.lock j).epoch = (db.lock j).epoch :=
    fun hk hf => same ((hf j).trans (if_neg (Ne.symm (of_decide_eq_false hk))))
  have set : ∀ {k : String} {s s' : StateRow}, db.state? k = some s →
      (∀ k', db'.state? k' = if k' = k then some s' else db.state? k') → s'.fenceEpoch = s.fenceEpoch →
      (db'.lock j).epoch = (db.lock j).epoch := fun {k} _ _ hs hf hn => by
    by_cases hk : j = k
    · subst hk
      rw [DB.lock_of_state hs, DB.lock_of_state ((hf j).trans (if_pos rfl))]
      exact hn
    · exact same ((hf j).trans (if_neg hk))
  have epoch : ∀ {s s' : StateRow}, s'.lockCols = s.lockCols → s'.fenceEpoch = s.fenceEpoch := fun hl =>
    (StateRow.lockCols_eq hl).2.2.2
  cases h with
  | idle _ hs => exact same (hs j)
  | exec _ _ _ _ _ _ _ hf => exact same (hf.states j)
  | expire _ _ _ hf => exact same (hf.states j)
  | acquire _ _ _ _ _ _ _ _ _ _ hf => exact other ha hf.states
  | renew hs _ _ _ hf => exact set hs hf.states rfl
  | adopt _ _ _ _ _ hf => exact other ha hf.states
  | close hcl =>
    obtain ⟨_, _, -, -, hs, -, -, -, -, hp, hf, -⟩ := hcl
    exact set hs hf.states ((epoch hp.lockCols).trans rfl)
  | skip _ hs _ _ _ _ hp hf => exact set hs hf.states (epoch hp.lockCols)
  | clock _ hs hm hf => exact set hs hf.states (epoch hm.lockCols)
  | pause hs hf => exact set hs hf.states rfl
  | create _ hs _ hm _ _ hf => exact set hs hf.states (epoch hm.lockCols)
  | retire _ _ _ hs => exact same (hs j)
  | reap _ hs => exact same (hs j)
  | revive _ _ _ _ hf => exact same (hf.states j)
  | catalog hs => rw [(LockKept.of_catalog hs j).lock]

/-- A claim that did not acquire the job leaves every lock. -/
theorem claim_lockKept {p : ClaimParams} {r : Runnable} {x : ClaimResult} (h : claim c p r db = .ok (x, db'))
    (hx : x.outcome ≠ .acquired) (j : String) : LockKept (db.state? j) (db'.state? j) := by
  obtain ⟨s, d, e, hs, -, he, -, -, h⟩ := claim_ok h
  cases h with
  | expired => exact .refl _
  | deferred _ h =>
    rcases tryExec_ok h with ⟨-, -, -, rfl⟩ | ⟨-, rfl⟩
    · exact .refl _
    · exact .refl _
  | skipped _ _ _ _ _ _ h =>
    obtain ⟨_, _, -, hp, hf⟩ := (settlePollClock_ok h).onBoth ((OnState.of_same hs).exec (.of_set he _))
      (DB.state?_jobName hs)
    exact .of_set hs hp.lockCols hf.states j
  | acquired => exact absurd rfl hx

theorem Step.epochMove_claim {p : ClaimParams} {r : Runnable} (hst : Step env w (.claim p r, c) w') (j : String) :
    EpochMove j w (.claim p r, c) w' := by
  cases hres : claim c p r w.db with
  | error err =>
    have hdb : w'.db = w.db := hst.db.trans (Tx.commit_of_error (unit_error.2 hres))
    exact .stay (by simp [claimEpoch, hres]) rfl (by rw [hdb])
  | ok res =>
    obtain ⟨x, db'⟩ := res
    obtain rfl : w'.db = db' := hst.db.trans (Tx.commit_of_ok (unit_run hres))
    by_cases hx : x.outcome = .acquired
    · by_cases hj : p.jobName = j
      · subst hj
        obtain ⟨s, d, e, hg⟩ := claim_granted hres hx
        have hn : x.fenceEpoch = s.fenceEpoch + 1 := by rw [hg.answer]
        exact .claim hg.state hg.state' (by simp [claimEpoch, hres, hx, hn]) rfl hg.free (Option.some_ne_none _) hn
      · exact .stay (by simp [claimEpoch, hres, hj]) rfl (hst.commit.lock_epoch (decide_eq_false hj))
    · exact .stay (by simp [claimEpoch, hres, hx]) rfl (by rw [(claim_lockKept hres hx j).lock])

theorem Step.epochMove_adopt {v : Stale} {o : String} {lease silence : Int} {promote : Bool}
    (hst : Step env w (.adopt v o lease silence promote, c) w') (j : String) :
    EpochMove j w (.adopt v o lease silence promote, c) w' := by
  cases hres : adopt c v o lease silence promote w.db with
  | error err =>
    have hdb : w'.db = w.db := hst.db.trans (Tx.commit_of_error (unit_error.2 hres))
    exact .stay rfl (by simp [adoptEpoch, hres]) (by rw [hdb])
  | ok res =>
    obtain ⟨n, db'⟩ := res
    obtain rfl : w'.db = db' := hst.db.trans (Tx.commit_of_ok (unit_run hres))
    by_cases hj : v.jobName = j
    · subst hj
      obtain ⟨hn, s, e, hs, -, ho, -, -, -, -, hf⟩ := adopt_ok hres
      obtain ⟨ht, he⟩ := StateRow.owned_iff.1 ho
      rw [← he] at hn
      exact .adopt hs hf.state? rfl (by simp [adoptEpoch, hres, hn]) (fun h => by cases ht.symm.trans h)
        (congrArg (· + 1) he.symm)
    · exact .stay rfl (by simp [adoptEpoch, hres, hj]) (hst.commit.lock_epoch (decide_eq_false hj))

/-- **A step raises a job's epoch by one and answers with it, or leaves it.** -/
theorem Step.epochMove (hst : Step env w l w') (j : String) : EpochMove j w l w' := by
  obtain ⟨a, c⟩ := l
  cases a with
  | claim p r => exact hst.epochMove_claim j
  | adopt v o lease silence promote => exact hst.epochMove_adopt j
  | _ => exact .stay rfl rfl (hst.commit.lock_epoch rfl)

/-- **The epochs of a job are numbered by its grants.** -/
theorem epochs_numbered (env : Env) (j : String) :
    Sys.Numbers (Step env) (fun w => (w.db.lock j).epoch) (grantedEpoch j) := by
  intro w l w' hst
  cases hst.epochMove j with
  | stay hc ha h => exact Or.inl ⟨by rw [grantedEpoch, hc, ha]; rfl, h⟩
  | claim hs hs' hc ha _ _ h =>
    simp only [DB.lock_of_state hs, DB.lock_of_state hs']
    exact Or.inr ⟨by rw [grantedEpoch, hc, ha]; rfl, h⟩
  | adopt hs hs' hc ha _ h =>
    simp only [DB.lock_of_state hs, DB.lock_of_state hs']
    exact Or.inr ⟨by rw [grantedEpoch, hc, ha]; rfl, h⟩

theorem Step.state_epoch (hst : Step env w l w') {s : StateRow} (hs : w.db.state? j = some s) :
    ∃ s', w'.db.state? j = some s' ∧ ((grantedEpoch j (w, l, w') = none ∧ s'.fenceEpoch = s.fenceEpoch) ∨
      (grantedEpoch j (w, l, w') = some (s.fenceEpoch + 1) ∧ s'.fenceEpoch = s.fenceEpoch + 1)) := by
  have hsome := hst.commit.lockEffect.state_isSome (j := j) (by rw [hs]; rfl)
  obtain ⟨s', hs'⟩ := Option.isSome_iff_exists.1 hsome
  have h := epochs_numbered env j w l w' hst
  simp only [DB.lock_of_state hs, DB.lock_of_state hs'] at h
  exact ⟨s', hs', h⟩

/-! ## The epoch of an execution -/

@[simp] theorem ExecRow.charged_fenceEpoch (e : ExecRow) (k : Holder) : (e.charged c k).fenceEpoch = e.fenceEpoch := by
  unfold ExecRow.charged; split <;> rfl

/-- **A move keeps a row's epoch, raises that of a held row by one, or takes the row over from nobody.** -/
theorem ExecMove.epoch {e e' : ExecRow} (h : ExecMove c a e e') :
    e'.fenceEpoch = e.fenceEpoch ∨ (e.status.held = true ∧ e'.fenceEpoch = e.fenceEpoch + 1) ∨
      (e.status.held = false ∧ e'.status.held = true) := by
  cases h with
  | dispatch _ _ _ _ _ hs => exact Or.inr (Or.inr ⟨by rw [hs]; rfl, rfl⟩)
  | adopt _ hs ho => exact Or.inr (Or.inl ⟨hs, by rw [(ExecRow.owned_iff.1 ho).2]; rfl⟩)
  | resolve _ hs => exact Or.inr (Or.inl ⟨hs, rfl⟩)
  | fence _ hs => exact Or.inr (Or.inl ⟨hs, rfl⟩)
  | silence _ hs => exact Or.inr (Or.inl ⟨by rcases hs with hs | hs <;> rw [hs] <;> rfl, rfl⟩)
  | release _ hs => exact Or.inr (Or.inl ⟨hs, rfl⟩)
  | complete => exact Or.inl (ExecRow.charged_fenceEpoch ..)
  | retry => exact Or.inl (ExecRow.charged_fenceEpoch ..)
  | _ => exact Or.inl rfl

theorem Creates.fenceEpoch {d : DefinitionRow} {s s' : StateRow} {e : ExecRow} (h : Creates env c d a s s' e) :
    e.fenceEpoch = 0 := by
  cases h <;> rfl

/-- **A row that comes to be held has the epoch after its job's.** -/
theorem LockEffect.dispatched {issued : List String} (hl : LockEffect db db') (hinv : HolderInv db issued) {i : Nat}
    {e e' : ExecRow} (he : db.exec? i = some e) (he' : db'.exec? i = some e') (hfree : e.status.held = false)
    (hheld : e'.status.held = true) : ∃ s, db.state? e.jobName = some s ∧ e'.fenceEpoch = s.fenceEpoch + 1 := by
  have differ : e' ≠ e := by
    rintro rfl
    rw [hfree] at hheld; cases hheld
  cases hl with
  | quiet q =>
    have hr := q.rows i
    rw [he, he'] at hr
    cases hr with
    | row hc =>
      rw [(ExecRow.heldCols_eq hc).2.1, hfree] at hheld
      cases hheld
  | acquire hs hx hj _ _ hx' hf =>
    obtain ⟨rfl, rfl⟩ := (hf.row_cases he he').resolve_right differ
    obtain rfl := Option.some.inj (he.symm.trans hx)
    rw [hj]
    exact ⟨_, hs, congrArg (fun cols => cols.2.2.2) hx'⟩
  | adopt hs hx hown hrow _ _ hf =>
    -- The row an adoption names is the job's holder.
    obtain ⟨rfl, rfl⟩ := (hf.row_cases he he').resolve_right differ
    obtain rfl := Option.some.inj (he.symm.trans hx)
    obtain ⟨-, hes, honly⟩ := hinv.holder hs (StateRow.owned_iff.1 hown).1 he (ExecRow.owned_iff.1 hrow).1
    obtain ⟨k, x, hkx, hxj, hxh⟩ := hinv.lock _ _ hs hes.kind
    obtain rfl := honly k x hkx hxj hxh
    rw [Option.some.inj (hkx.symm.trans he), hfree] at hxh
    cases hxh
  | release _ _ _ _ _ _ hst hf =>
    obtain ⟨-, rfl⟩ := (hf.row_cases he he').resolve_right differ
    rw [hst] at hheld; cases hheld

/-- Every execution has a state row, and is at most one epoch ahead of it. -/
def DB.EpochsWithin (db : DB) : Prop :=
  ∀ i e, db.exec? i = some e → ∃ s, db.state? e.jobName = some s ∧ e.fenceEpoch ≤ s.fenceEpoch + 1

section row

variable {i : Nat} {e e' : ExecRow}

/-- **A step never lowers an execution's epoch**, and keeps it within one of its job's. -/
theorem Step.row_epoch (hst : Step env w l w') (hinv : HolderInv w.db w.issued) (h : w.db.EpochsWithin)
    (he : w.db.exec? i = some e) (he' : w'.db.exec? i = some e') :
    e.fenceEpoch ≤ e'.fenceEpoch ∧ ∃ s', w'.db.state? e'.jobName = some s' ∧ e'.fenceEpoch ≤ s'.fenceEpoch + 1 := by
  obtain ⟨s, hs, hle⟩ := h i e he
  obtain ⟨s', hs', hstate⟩ := hst.state_epoch hs
  have hss : s.fenceEpoch ≤ s'.fenceEpoch := by
    rcases hstate with ⟨-, h⟩ | ⟨-, h⟩ <;> omega
  have hjob : e'.jobName = e.jobName := by rw [hst.commit.info he he']
  suffices hrow : e.fenceEpoch ≤ e'.fenceEpoch ∧ e'.fenceEpoch ≤ s'.fenceEpoch + 1 by
    exact ⟨hrow.1, s', hjob ▸ hs', hrow.2⟩
  rcases hst.commit.moved he he' with rfl | hm
  · exact ⟨le_refl _, by omega⟩
  · rcases hm.epoch with hn | ⟨hheld, hn⟩ | ⟨hfree, hheld⟩
    · omega
    · -- A held row has its job's epoch, so one more is still within one.
      obtain ⟨s₁, hs₁, hes⟩ := hinv.held i e he hheld
      obtain rfl := Option.some.inj (hs.symm.trans hs₁)
      have := hes.epoch
      omega
    · obtain ⟨s₁, hs₁, hn⟩ := hst.commit.lockEffect.dispatched hinv he he' hfree hheld
      obtain rfl := Option.some.inj (hs.symm.trans hs₁)
      omega

theorem DB.EpochsWithin.step (h : w.db.EpochsWithin) (hinv : HolderInv w.db w.issued) (hst : Step env w l w') :
    w'.db.EpochsWithin := by
  intro i e' he'
  cases he : w.db.exec? i with
  | none =>
    obtain ⟨j, d, s, s', -, -, hj, hm, hf, -⟩ := hst.commit.new he he'
    exact ⟨s', hj.symm ▸ hf.state?, by rw [hm.fenceEpoch]; exact Nat.zero_le _⟩
  | some e => exact (hst.row_epoch hinv h he he').2

theorem epochsWithin_run {u : Utc} {tr : History} (hr : Sys.Run (Step env) (World.init u) tr w) :
    w.db.EpochsWithin := by
  have key : HolderInv w.db w.issued ∧ w.db.EpochsWithin :=
    Sys.Run.invariant (I := fun w => HolderInv w.db w.issued ∧ w.db.EpochsWithin)
      ⟨.init, fun _ _ he => by cases he⟩ (fun _ _ _ h hst => ⟨h.1.step hst, h.2.step h.1 hst⟩) hr
  exact key.2

/-- **Along a run an execution's epoch never falls.** -/
theorem epoch_run {u : Utc} {tr₀ tr : History} (h₀ : Sys.Run (Step env) (World.init u) tr₀ w)
    (hr : Sys.Run (Step env) w tr w') (he : w.db.exec? i = some e) (he' : w'.db.exec? i = some e') :
    e.fenceEpoch ≤ e'.fenceEpoch := by
  induction hr generalizing e' with
  | nil => rw [Option.some.inj (he.symm.trans he')]
  | snoc hr hst ih =>
    -- The row was there all along: ids are not used twice.
    obtain ⟨e₁, he₁, -⟩ := row_back (.single hst) (le_trans (DB.exec?_le he) (lastId_run hr)) he'
    have hrun := h₀.append hr
    exact le_trans (ih he₁) (hst.row_epoch (HolderInv.run hrun) (epochsWithin_run hrun) he₁ he').1

end row

/-! ## Ownership periods -/

/-- A period of ownership of `j` in a history, after the steps `pre`: the step `x` grants it epoch `n`, and none of the
steps `rest` adopts the execution or releases the job. -/
structure Period (tr : History) (j : String) (n : Nat) (pre : History) (x : World × (Action × Ctx) × World)
    (rest : History) : Prop where
  within : pre ++ x :: rest <+: tr
  begins : grantedEpoch j x = some n
  lasts  : ∀ y ∈ rest, adoptEpoch j y = none ∧ ¬ Released j y

theorem Period.starts {tr pre rest : History} {n : Nat} {x : World × (Action × Ctx) × World}
    (h : Period tr j n pre x rest) : pre ++ [x] <+: tr :=
  List.IsPrefix.trans ⟨rest, by simp⟩ h.within

/-- Job `j` is held at epoch `n`. -/
def DB.HeldAt (db : DB) (j : String) (n : Nat) : Prop :=
  ∃ s, db.state? j = some s ∧ s.activeKind ≠ none ∧ s.fenceEpoch = n

theorem Step.heldAt_of_granted {n : Nat} (hst : Step env w l w') (hinv : HolderInv w.db w.issued)
    (hg : grantedEpoch j (w, l, w') = some n) : w'.db.HeldAt j n := by
  have agree := (hinv.step hst).toAgree
  cases hst.epochMove j with
  | stay hc ha => simp [grantedEpoch, hc, ha] at hg
  | claim _ hs' hc ha _ ht h =>
    obtain rfl : _ = n := by simpa [grantedEpoch, hc, ha] using hg
    exact ⟨_, hs', fun hk => ht (agree.free _ _ hs' hk), h⟩
  | adopt _ hs' hc ha ht h =>
    obtain rfl : _ = n := by simpa [grantedEpoch, hc, ha] using hg
    exact ⟨_, hs', fun hk => ht (agree.free _ _ hs' hk), h⟩

/-- **A held job stays held at its epoch until it is adopted or released**: no claim gets it. -/
theorem DB.HeldAt.step {n : Nat} (h : w.db.HeldAt j n) (hst : Step env w l w')
    (ha : adoptEpoch j (w, l, w') = none) (hrel : ¬ Released j (w, l, w')) : w'.db.HeldAt j n := by
  obtain ⟨s, hs, hk, rfl⟩ := h
  obtain ⟨s', hs', hn⟩ := hst.state_epoch hs
  have hk' : s'.activeKind ≠ none := fun hk' => hrel ⟨s, s', hs, hk, hs', hk'⟩
  refine ⟨s', hs', hk', ?_⟩
  cases hst.epochMove j with
  | stay hc _ h => rwa [DB.lock_of_state hs, DB.lock_of_state hs'] at h
  | claim hs₁ _ _ _ hfree =>
    obtain rfl := Option.some.inj (hs.symm.trans hs₁)
    exact absurd hfree hk
  | adopt _ _ _ ha' => rw [ha] at ha'; cases ha'

section periods

variable {u : Utc} {tr : History} (hr : Sys.Run (Step env) (World.init u) tr w)
include hr

/-- **Throughout a period the job is held at its epoch.** -/
theorem Period.heldAt {n : Nat} {pre rest : History} {x : World × (Action × Ctx) × World}
    (h : Period tr j n pre x rest) {y : World × (Action × Ctx) × World} (hy : y ∈ x :: rest) :
    y.2.2.db.HeldAt j n := by
  obtain ⟨post, rfl⟩ := h.within
  rw [List.append_assoc, List.cons_append] at hr
  obtain ⟨hpre, hst, hpost⟩ := hr.cut
  have hstart : x.2.2.db.HeldAt j n := hst.heldAt_of_granted (HolderInv.run hpre) h.begins
  rcases List.mem_cons.1 hy with rfl | hy
  · exact hstart
  · obtain ⟨before, after, rfl⟩ := List.append_of_mem hy
    rw [List.append_assoc, List.cons_append] at hpost
    obtain ⟨hbefore, hsty, -⟩ := hpost.cut
    have held := Sys.Run.invariant_of (I := fun w => w.db.HeldAt j n)
      (fun z => adoptEpoch j z = none ∧ ¬ Released j z) hstart
      (fun _ _ _ h hz hst => h.step hst hz.1 hz.2) hbefore (fun z hz => h.lasts z (List.mem_append_left _ hz))
    obtain ⟨ha, hrel⟩ := h.lasts y hy
    exact held.step hsty ha hrel

/-- **Epochs number ownership periods.**  Along any run, a job's epoch changes only when a claim acquires the job or an
execution of it is adopted, each time by one, and that call is answered with the new epoch; an execution's epoch never
falls, is at most one ahead of its job's, and equals it while the execution is held; the epochs granted are 1, 2, 3 and
so on; a job is held at its period's epoch to the end of the period, and a later period has a greater epoch. -/
theorem epochs_number_periods (j : String) :
    (∀ x ∈ tr, ∀ s, x.1.db.state? j = some s → ∃ s', x.2.2.db.state? j = some s' ∧
      ((grantedEpoch j x = none ∧ s'.fenceEpoch = s.fenceEpoch) ∨
        (grantedEpoch j x = some (s.fenceEpoch + 1) ∧ s'.fenceEpoch = s.fenceEpoch + 1))) ∧
    (∀ x ∈ tr, ∀ i e e', x.1.db.exec? i = some e → w.db.exec? i = some e' → e.fenceEpoch ≤ e'.fenceEpoch) ∧
    (∀ i e, w.db.exec? i = some e → ∃ s, w.db.state? e.jobName = some s ∧ e.fenceEpoch ≤ s.fenceEpoch + 1 ∧
      (e.status.held = true → e.fenceEpoch = s.fenceEpoch)) ∧
    tr.filterMap (grantedEpoch j) = List.range' 1 (w.db.lock j).epoch ∧
    (∀ n pre x rest, Period tr j n pre x rest → ∀ y ∈ x :: rest, y.2.2.db.HeldAt j n) ∧
    ∀ n n' pre pre' x x' rest rest', Period tr j n pre x rest → Period tr j n' pre' x' rest' →
      pre.length < pre'.length → n < n' := by
  refine ⟨fun x hx s hs => ?_, fun x hx i e e' he he' => ?_, fun i e he => ?_, ?_,
    fun n pre x rest h y hy => h.heldAt hr hy, fun n n' pre pre' x x' rest rest' h h' hlt => ?_⟩
  · obtain ⟨_, _, -, -, hst, -⟩ := hr.split hx
    exact hst.state_epoch hs
  · obtain ⟨_, _, -, hpre, hst, hpost⟩ := hr.split hx
    exact epoch_run hpre ((Sys.Run.single hst).append hpost) he he'
  · obtain ⟨s, hs, hle⟩ := epochsWithin_run hr i e he
    refine ⟨s, hs, hle, fun hheld => ?_⟩
    obtain ⟨s₁, hs₁, hes⟩ := (HolderInv.run hr).held i e he hheld
    obtain rfl := Option.some.inj (hs.symm.trans hs₁)
    exact hes.epoch.symm
  · exact (epochs_numbered env j).grants rfl hr
  · have hbefore : pre ++ [x] <+: pre' :=
      List.prefix_of_prefix_length_le h.starts (List.IsPrefix.trans ⟨_, rfl⟩ h'.within) (by simpa using hlt)
    exact (epochs_numbered env j).lt rfl hr hbefore h'.starts h.begins h'.begins

end periods

/-- The pass is claimed, refused and claimed again: two periods. -/
theorem epochs_number_periods_reclaimed :
    ((World.init 0).trace bareEnv (claimedPass ++ reclaimedPass)).filterMap (grantedEpoch "sync") = [1, 2] :=
  (epochs_number_periods (World.run_play bareEnv (claimedPass ++ reclaimedPass) (World.init 0) (by decide))
    "sync").2.2.2.1.trans (by decide)

end GoJob
