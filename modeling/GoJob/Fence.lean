import GoJob.Holder
/-!
# Fence — a holder that lost the lock can do nothing

A job's state row is a fenced lock: its token is the holder, and every change of owner raises its epoch.  A pair that
was current once and is not any more therefore never is again, and since each executor-side transaction insists on a
current pair, whoever still has the old one is refused by all of them.
-/
namespace GoJob

open Rel

variable {env : Env} {c : Ctx} {db db' : DB} {a : Action}

/-- The lock a job's state row is; a job without one is free at epoch 0. -/
def DB.lock (db : DB) (j : String) : Sys.Lock String :=
  ⟨(db.state? j).bind (fun s => s.activeRunToken), ((db.state? j).map (fun s => s.fenceEpoch)).getD 0⟩

theorem DB.lock_of_state {j : String} {s : StateRow} (hs : db.state? j = some s) :
    db.lock j = ⟨s.activeRunToken, s.fenceEpoch⟩ := by
  rw [DB.lock, hs]; rfl

theorem DB.lock_current {j t : String} {n : Nat} :
    (db.lock j).Current t n ↔ ∃ s, db.state? j = some s ∧ s.activeRunToken = some t ∧ s.fenceEpoch = n := by
  cases hs : db.state? j with
  | none => simp [Sys.Lock.Current, DB.lock, hs]
  | some s => simp [Sys.Lock.Current, DB.lock_of_state hs]

/-! ## The state row refines the lock -/

theorem LockKept.lock {j : String} (h : LockKept (db.state? j) (db'.state? j)) : db'.lock j = db.lock j := by
  cases hs : db.state? j with
  | none =>
    cases hs' : db'.state? j with
    | none => rw [DB.lock, DB.lock, hs, hs']
    | some s' =>
      rw [hs, hs'] at h
      cases h with
      | new hc =>
        simp only [StateRow.lockCols, Prod.mk.injEq] at hc
        rw [DB.lock_of_state hs', hc.2.2.1, hc.2.2.2, DB.lock, hs]
        rfl
  | some s =>
    cases hs' : db'.state? j with
    | none => rw [hs, hs'] at h; cases h
    | some s' =>
      rw [hs, hs'] at h
      cases h with
      | row hc =>
        obtain ⟨-, -, ht, hn⟩ := StateRow.lockCols_eq hc
        rw [DB.lock_of_state hs', DB.lock_of_state hs, ht, hn]

/-- A change of the state row of `j`, seen from any job. -/
theorem OnBoth.lockStep {j : String} {s s' : StateRow} {i : Nat} {e : ExecRow} (hf : OnBoth db db' j s' i e)
    (hs : db.state? j = some s)
    (h : Sys.Lock.Step ⟨s.activeRunToken, s.fenceEpoch⟩ ⟨s'.activeRunToken, s'.fenceEpoch⟩) (k : String) :
    Sys.Lock.Step (db.lock k) (db'.lock k) := by
  by_cases hk : k = j
  · subst hk
    rw [DB.lock_of_state hs, DB.lock_of_state hf.state?]
    exact h
  · have : db'.lock k = db.lock k := by rw [DB.lock, DB.lock, hf.states, if_neg hk]
    rw [this]
    exact .stay _

/-- **Every commit is a step of every job's lock.** -/
theorem LockEffect.lockStep (hl : LockEffect db db') (h : Agree db) (k : String) :
    Sys.Lock.Step (db.lock k) (db'.lock k) := by
  cases hl with
  | quiet q => rw [(q.locks k).lock]; exact .stay _
  | acquire hs he hj hfree hs' he' hf =>
    refine hf.lockStep hs ?_ k
    obtain ⟨-, -, ht, hn⟩ : _ ∧ _ ∧ _ ∧ _ := by simpa [StateRow.lockCols] using hs'
    rw [h.free _ _ hs hfree, ht, hn]
    exact .acquire _ _
  | adopt hs he hown hrow hs' he' hf =>
    refine hf.lockStep hs ?_ k
    obtain ⟨-, -, ht, hn⟩ : _ ∧ _ ∧ _ ∧ _ := by simpa [StateRow.lockCols] using hs'
    rw [(StateRow.owned_iff.1 hown).1, (StateRow.owned_iff.1 hown).2, ht, hn]
    exact .adopt _ _
  | release hs he hown hrow hs' hi hst hf =>
    refine hf.lockStep hs ?_ k
    obtain ⟨-, -, ht, hn⟩ : _ ∧ _ ∧ _ ∧ _ := by simpa [StateRow.lockCols] using hs'
    rw [(StateRow.owned_iff.1 hown).1, (StateRow.owned_iff.1 hown).2, ht, hn]
    exact .release _ _

theorem lock_guards (j : String) :
    Sys.Guards (Step env) (fun w => HolderInv w.db w.issued) (fun w => w.db.lock j) :=
  ⟨fun _ _ _ h hst => h.step hst, fun _ _ _ h hst => hst.commit.lockEffect.lockStep h.toAgree j⟩

/-! ## One job per token -/

/-- Every row that carries the token, now or later, is an execution of `j`. -/
structure Bound (t j : String) (w : World) : Prop where
  issued : t ∈ w.issued
  rows   : ∀ i e, w.db.exec? i = some e → e.runToken = some t → e.jobName = j

theorem Bound.step {t j : String} {w w' : World} {l : Action × Ctx} (h : Bound t j w) (hst : Step env w l w') :
    Bound t j w' := by
  refine ⟨by rw [hst.issued]; exact List.mem_append_right _ h.issued, fun i e he ht => ?_⟩
  rcases hst.commit.token he ht with ⟨x, hx, hxt, hi⟩ | ⟨p, r, ha, hp, -⟩
  · rw [hi]; exact h.rows i x hx hxt
  · exact absurd h.issued (hst.fresh t (by rw [ha, ← hp]; rfl))

theorem HolderInv.bound {w : World} {j t : String} {n : Nat} (h : HolderInv w.db w.issued)
    (hc : (w.db.lock j).Current t n) : Bound t j w := by
  obtain ⟨s, hs, ht, -⟩ := DB.lock_current.1 hc
  obtain ⟨i, e, he, -, -, het⟩ := h.carrier hs ht
  exact ⟨h.issued i e t he het, fun k x hx hxt => (h.holder hs ht hx hxt).1⟩

/-! ## What an executor's call needs -/

/-- A call made in the name of a pair: all an executor, or the scheduler acting on its answer, can ask for. -/
inductive Action.Presents (t : String) (n : Nat) : Action → Prop
  | accept (i : Nat) (l : Int) : Presents t n (.accept i t n l)
  | retarget (h : Holder) (x : String) (ht : h.runToken = t) (hn : h.fenceEpoch = n) : Presents t n (.retarget h x)
  | refuse (p : ClaimParams) (ht : p.runToken = t) : Presents t n (.refuse p n)
  | renew (h : Holder) (l : Int) (ht : h.runToken = t) (hn : h.fenceEpoch = n) : Presents t n (.renew h l)
  | extendDeadline (h : Holder) (l : Int) (ht : h.runToken = t) (hn : h.fenceEpoch = n) :
      Presents t n (.extendDeadline h l)
  | complete (h : Holder) (o : Outcome) (ht : h.runToken = t) (hn : h.fenceEpoch = n) : Presents t n (.complete h o)
  | retry (h : Holder) (o : Outcome) (b : Int) (ht : h.runToken = t) (hn : h.fenceEpoch = n) :
      Presents t n (.retry h o b)

/-- **A call in the name of a pair succeeds only where some row shows the pair**: a state row, or a held execution. -/
theorem Action.Presents.shown {t : String} {n : Nat} {u : Unit} (hp : a.Presents t n)
    (h : a.tx env c db = .ok (u, db')) :
    (∃ j s, db.state? j = some s ∧ s.owned t n = true) ∨
      ∃ i e, db.exec? i = some e ∧ e.status.held = true ∧ e.owned t n = true := by
  have row : ∀ {i : Nat} {e : ExecRow}, db.exec? i = some e → e.unaccepted t n = true →
      ∃ i e, db.exec? i = some e ∧ e.status.held = true ∧ e.owned t n = true := fun he ho => by
    obtain ⟨hs, ho⟩ := ExecRow.unaccepted_iff.1 ho
    exact ⟨_, _, he, by rw [hs]; rfl, ho⟩
  cases hp with
  | accept i l =>
    obtain ⟨e, he, ho, -⟩ := casExec_ok h
    exact Or.inr (row he ho)
  | retarget k x ht hn =>
    obtain ⟨e, he, ho, -⟩ := casExec_ok h
    rw [ht, hn] at ho
    exact Or.inr (row he ho)
  | extendDeadline k l ht hn =>
    obtain ⟨e, he, ho, -⟩ := casExec_ok h
    obtain ⟨hs, ho, -⟩ := ExecRow.reportable_iff.1 ho
    exact Or.inr ⟨_, e, he, hs, by rw [← ht, ← hn]; exact ho⟩
  | refuse p ht =>
    obtain ⟨_, _, h₁, -⟩ := Tx.bind_ok.1 h
    obtain ⟨s, hs, ho, -⟩ := casState_ok h₁
    exact Or.inl ⟨_, s, hs, by rw [← ht]; exact ho⟩
  | renew k l ht hn =>
    obtain ⟨_, _, h₁, -⟩ := Tx.bind_ok.1 h
    obtain ⟨s, hs, ho, -⟩ := casState_ok h₁
    exact Or.inl ⟨_, s, hs, by rw [← ht, ← hn]; exact ho⟩
  | complete k o ht hn =>
    obtain ⟨-, h⟩ := check_ok h
    obtain ⟨_, _, h₁, -⟩ := Tx.bind_ok.1 h
    obtain ⟨s, hs, ho, -⟩ := casState_ok h₁
    exact Or.inl ⟨_, s, hs, by rw [← ht, ← hn]; exact ho⟩
  | retry k o b ht hn =>
    obtain ⟨_, _, h₁, -⟩ := Tx.bind_ok.1 h
    obtain ⟨s, hs, ho, -⟩ := casState_ok h₁
    exact Or.inl ⟨_, s, hs, by rw [← ht, ← hn]; exact ho⟩

/-- Such a call succeeds only under the pair that is current for the token's job. -/
theorem Action.Presents.current {w : World} {j t : String} {n : Nat} {r : Unit × DB} (hp : a.Presents t n)
    (h : a.tx env c w.db = .ok r) (hinv : HolderInv w.db w.issued) (hb : Bound t j w) : (w.db.lock j).Current t n := by
  have current : ∀ {k : String} {s : StateRow}, w.db.state? k = some s → s.activeRunToken = some t →
      s.fenceEpoch = n → (w.db.lock j).Current t n := fun hs ht hn => by
    obtain ⟨i, e, he, rfl, -, het⟩ := hinv.carrier hs ht
    rw [← hb.rows i e he het]
    exact DB.lock_current.2 ⟨_, hs, ht, hn⟩
  rcases hp.shown h with ⟨k, s, hs, ho⟩ | ⟨i, e, he, hheld, ho⟩
  · obtain ⟨ht, hn⟩ := StateRow.owned_iff.1 ho
    exact current hs ht hn
  · obtain ⟨ht, hn⟩ := ExecRow.owned_iff.1 ho
    obtain ⟨s, hs, hes⟩ := hinv.held i e he hheld
    exact current hs (hes.token.trans ht) (hes.epoch.trans hn)

/-- **A fenced holder can do nothing.**  A pair that was current for a job and has stopped being so is never current
again, and every call in its name fails and changes nothing. -/
theorem fenced_holder_is_refused {u : Utc} {tr₁ tr₂ tr₃ : List (World × (Action × Ctx) × World)} {w₁ w₂ w₃ : World}
    (h₁ : Sys.Run (Step env) (World.init u) tr₁ w₁) (h₂ : Sys.Run (Step env) w₁ tr₂ w₂)
    (h₃ : Sys.Run (Step env) w₂ tr₃ w₃) {j t : String} {n : Nat} (hc : (w₁.db.lock j).Current t n)
    (hl : ¬ (w₂.db.lock j).Current t n) :
    ¬ (w₃.db.lock j).Current t n ∧ ∀ (c : Ctx) (a : Action), a.Presents t n →
      (∃ err, a.tx env c w₃.db = .error err) ∧ (a.tx env c).commit w₃.db = w₃.db := by
  have hinv₁ := HolderInv.run h₁
  have hinv₂ := HolderInv.run (h₁.append h₂)
  have hinv₃ := HolderInv.run ((h₁.append h₂).append h₃)
  have hlost := (lock_guards j).spent_of_lost h₂ hinv₁ hc hl
  have hspent := ((lock_guards j).spent h₃ hinv₂ hlost).2
  have hbound : Bound t j w₃ :=
    Sys.Run.invariant (I := Bound t j) (hinv₁.bound hc) (fun _ _ _ h hst => h.step hst) (h₂.append h₃)
  refine ⟨hspent.not_current t, fun c a hp => ?_⟩
  cases hx : a.tx env c w₃.db with
  | ok r => exact absurd (hp.current hx hinv₃ hbound) (hspent.not_current t)
  | error err => exact ⟨⟨err, rfl⟩, Tx.commit_of_error hx⟩

/-- The pass is refused, claimed again under another token, and only then reported under the first one. -/
def reclaimedPass : List (Action × Int) :=
  [(.refuse ⟨1, "sync", "pass-1", "scheduler", "executor", "t1", 5⟩ 1, 3), (claimPass "t2", 10)]

theorem fenced_holder_is_refused_late : ∃ err, (Action.complete ⟨"sync", 1, "pass-1", "scheduler", "t1", 1⟩
      { status := .success, attemptOutcome := .success }).tx bareEnv (Ctx.at_ 11)
        (((World.init 0).play bareEnv claimedPass).play bareEnv reclaimedPass).db = .error err :=
  ((fenced_holder_is_refused (World.run_play bareEnv claimedPass (World.init 0) (by decide))
    (World.run_play bareEnv reclaimedPass _ (by decide)) .nil
    (by exact ⟨by decide, by decide⟩ : (DB.lock _ "sync").Current "t1" 1)
    (fun h => absurd h.2 (by decide))).2 (Ctx.at_ 11) _ (.complete _ _ rfl rfl)).1

end GoJob
