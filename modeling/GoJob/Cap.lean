import GoJob.Redispatch
/-!
# Cap — the runtime cap

`timeout_at` is set by the first claim of an attempt and stays through refusals, claims, adoptions and cancels.  Every
transaction that could let the execution go on reads it again, so once the database clock is past it nothing is left
but an ending: `dead` or `cancelled`, never `success`, and `ready` only by an operator's hand.
-/
namespace GoJob

open Rel

variable {env : Env} {c : Ctx} {db db' : DB} {a : Action}

def Action.isRevival : Action → Bool
  | .authorizedRetry _ _ _ _ => true
  | _ => false

/-- The step is one of the calls `p` and makes execution `i` `ready`. -/
def madeReady (p : Action → Bool) (i : Nat) (x : World × (Action × Ctx) × World) : Bool :=
  p x.2.1.1 && (x.1.db.exec? i).any (fun e => decide (e.status ≠ .ready)) &&
    (x.2.2.db.exec? i).any (fun e => decide (e.status = .ready))

/-- The calls that start an execution's cap anew when they make it `ready`. -/
def Action.reopens (a : Action) : Bool := a.isRetry || a.isResolve || a.isRevival

theorem past_of_lt {t u : Utc} (h : t < u) : past (some t) u = true := by
  simp [past, h]

theorem past_later {col : Option Utc} {v z : Utc} (h : past col v = true) (hle : v ≤ z) : past col z = true := by
  obtain ⟨l, rfl, hl⟩ := (Option.any_eq_true _ _).1 h
  have hlt : l < v := by simpa using hl
  exact past_of_lt (lt_of_lt_of_le hlt hle)

/-! ## Moves and the cap -/

/-- **A cap stays what it is** until a retry, a recovery or an operator makes the row `ready`. -/
theorem ExecMove.cap {e e' : ExecRow} {t : Utc} (h : ExecMove c a e e') (ht : e.timeoutAt = some t) :
    e'.timeoutAt = some t ∨ (a.reopens = true ∧ e.status ≠ .ready ∧ e'.status = .ready) := by
  have held : e.status.held = true → e.status ≠ .ready := fun hs hr => by rw [hr] at hs; cases hs
  cases h with
  | dispatch => exact Or.inl (by simp [dispatchWrite, ht])
  | complete => exact Or.inl ((ExecRow.charged_timeoutAt ..).trans ht)
  | retry _ hr =>
    simp only [retryWrite]
    split
    · exact Or.inl ((ExecRow.charged_timeoutAt ..).trans ht)
    · exact Or.inr ⟨rfl, held (ExecRow.reportable_iff.1 hr).1, rfl⟩
  | resolve _ hs =>
    by_cases hready : resolvedStatus (e.toStale (c.utc 1)) = .ready
    · exact Or.inr ⟨rfl, held hs, hready⟩
    · exact Or.inl ((if_neg hready).trans ht)
  | revive _ _ hs => exact Or.inr ⟨rfl, by rw [hs]; decide, rfl⟩
  | _ => exact Or.inl ht

/-- What can still happen to an execution past its cap. -/
structure PastCap (a : Action) (e e' : ExecRow) : Prop where
  status : e'.status = e.status ∨ e'.status = .running ∨ e'.status = .cancelRequested ∨
    (e'.status.terminal = true ∧ e'.status ≠ .success) ∨ (a.isRevival = true ∧ e'.status = .ready)
  owner  : e'.status = .dispatching → e'.runToken = e.runToken

/-- **Past its cap an execution can only end**, unless an operator revives it. -/
theorem ExecMove.past_cap {e e' : ExecRow} {t : Utc} (h : ExecMove c a e e') (ht : e.timeoutAt = some t)
    (hp : ∀ n, t < c.utc n) : PastCap a e e' := by
  have late : ∀ n, past e.timeoutAt (c.utc n) = true := fun n => by rw [ht]; exact past_of_lt (hp n)
  have shut : ∀ {n}, past e.timeoutAt (c.utc n) = false → False := fun {n} hc => by rw [late n] at hc; cases hc
  have kept : e'.status = e.status → e'.runToken = e.runToken → PastCap a e e' := fun hs hr => ⟨Or.inl hs, fun _ => hr⟩
  have ended : e'.status.terminal = true → e'.status ≠ .success → PastCap a e e' := fun hs hn =>
    ⟨Or.inr (Or.inr (Or.inr (Or.inl ⟨hs, hn⟩))), fun hd => absurd hd (Status.ne_of_terminal hs).2.1⟩
  have failed : ∀ v, endedStatus v ≠ .success := fun v => by unfold endedStatus; split <;> decide
  cases h with
  | dispatch _ _ _ _ _ _ _ hc => exact (shut hc).elim
  | complete _ _ hr => exact (shut (ExecRow.reportable_iff.1 hr).2.2).elim
  | retry _ hr => exact (shut (ExecRow.reportable_iff.1 hr).2.2).elim
  | adopt _ _ _ hc => exact (shut hc).elim
  | accept => exact ⟨Or.inr (Or.inl rfl), fun hd => by cases hd⟩
  | cancel => exact ⟨Or.inr (Or.inr (Or.inl rfl)), fun hd => by cases hd⟩
  | retireHeld => exact ⟨Or.inr (Or.inr (Or.inl rfl)), fun hd => by cases hd⟩
  | revive => exact ⟨Or.inr (Or.inr (Or.inr (Or.inr ⟨rfl, rfl⟩))), fun hd => by cases hd⟩
  | refuse => exact ended (by simp [refuseWrite, late, Status.terminal]) (by simp [refuseWrite, late])
  | resolve =>
    have hstat : resolvedStatus (e.toStale (c.utc 1)) = .cancelled ∨ resolvedStatus (e.toStale (c.utc 1)) = .dead := by
      unfold resolvedStatus
      split
      · exact Or.inl rfl
      · rw [if_pos (show (e.toStale (c.utc 1)).timeoutExpired = true from late 1)]
        exact Or.inr rfl
    rcases hstat with hs | hs <;> exact ended (by simp [resolveWrite, hs, Status.terminal]) (by simp [resolveWrite, hs])
  | expire => exact ended rfl (by simp [expireWrite])
  | skip => exact ended rfl (by simp [skipWrite])
  | retireReady => exact ended rfl (by simp [retireReadyWrite])
  | fence => exact ended (endedStatus_terminal _) (failed _)
  | silence => exact ended (endedStatus_terminal _) (failed _)
  | release => exact ended (endedStatus_terminal _) (failed _)
  | defer => exact kept rfl rfl
  | retarget => exact kept rfl rfl
  | renew => exact kept rfl rfl
  | extend => exact kept rfl rfl

/-! ## Along a run -/

/-- The execution has been created, and while it is there its cap is `t`. -/
structure Capped (i : Nat) (t : Utc) (w : World) : Prop where
  used : i ≤ w.db.executions.lastId
  cap  : ∀ e, w.db.exec? i = some e → e.timeoutAt = some t

theorem Capped.step {i : Nat} {t : Utc} {w w' : World} {l : Action × Ctx} (h : Capped i t w)
    (hst : Step env w l w') (hready : madeReady Action.reopens i (w, l, w') = false) : Capped i t w' := by
  refine ⟨le_trans h.used hst.commit.lastId_le, fun e' he' => ?_⟩
  cases he : w.db.exec? i with
  | none =>
    obtain ⟨_, _, _, _, -, -, -, -, -, hlt, -⟩ := hst.commit.new he he'
    exact absurd h.used (not_le.2 hlt)
  | some e =>
    rcases hst.commit.moved he he' with rfl | hm
    · exact h.cap _ he
    · rcases hm.cap (h.cap e he) with hcap | ⟨ha, hs, hs'⟩
      · exact hcap
      · simp [madeReady, he, he', ha, hs, hs'] at hready

/-- Past the cap, of the calls that open it only a revival can. -/
theorem Capped.late {i : Nat} {t : Utc} {w w' : World} {l : Action × Ctx} (h : Capped i t w) (hp : t < w.utc)
    (hst : Step env w l w') (hrev : madeReady Action.isRevival i (w, l, w') = false) :
    madeReady Action.reopens i (w, l, w') = false := by
  rw [Bool.eq_false_iff]
  intro hready
  simp only [madeReady, Bool.and_eq_true, Option.any_eq_true, decide_eq_true_eq] at hready
  obtain ⟨⟨-, e, he, hs⟩, e', he', hs'⟩ := hready
  rcases hst.commit.moved he he' with rfl | hm
  · exact hs hs'
  · rcases (hm.past_cap (h.cap e he) (fun n => lt_of_lt_of_le hp (hst.le_utc n))).status with
      hx | hx | hx | ⟨hx, -⟩ | ⟨hx, -⟩
    · exact hs (hx.symm.trans hs')
    · rw [hs'] at hx; cases hx
    · rw [hs'] at hx; cases hx
    · exact (Status.ne_of_terminal hx).1 hs'
    · simp [madeReady, he, he', hx, hs, hs'] at hrev

theorem Capped.adopt_fails {i : Nat} {t : Utc} {w : World} (h : Capped i t w) (hp : t < w.utc) {v : Stale}
    (hv : v.id = i) (hc : w.utc ≤ c.utc 0) (o : String) (l s : Int) (p : Bool) :
    ∃ err, (Action.adopt v o l s p).tx env c w.db = .error err := by
  cases hx : (Action.adopt v o l s p).tx env c w.db with
  | error err => exact ⟨err, rfl⟩
  | ok r =>
    obtain ⟨_, hx⟩ := unit_ok hx
    obtain ⟨_, _, h₁, hx⟩ := Tx.bind_ok.1 hx
    obtain ⟨_, rfl⟩ := lockState_ok h₁
    obtain ⟨_, hx⟩ := check_ok hx
    obtain ⟨_, _, h₂, hx⟩ := Tx.bind_ok.1 hx
    obtain ⟨⟨e, he, rfl⟩, rfl⟩ := lockExecution_ok h₂
    obtain ⟨_, hx⟩ := check_ok hx
    obtain ⟨hcap, -⟩ := check_ok hx
    have hlate : past e.timeoutAt (c.utc 1) = true := by
      rw [h.cap e (hv ▸ he)]
      exact past_of_lt (lt_of_lt_of_le hp (le_trans hc (c.mono (Nat.zero_le 1))))
    exact absurd hlate hcap

/-- **The runtime cap is a cap.**  Once set it keeps its value until a retry, a recovery or an operator makes the
execution `ready`.  Once the database clock is past it, every later step leaves the status, starts or stops the
attempt, or ends it other than in `success`, unless an operator revives it; and it cannot be adopted. -/
theorem runtime_cap {tr : History} {w₁ w₂ : World} (hr : Sys.Run (Step env) w₁ tr w₂) {i : Nat} {e₁ : ExecRow}
    {t : Utc} (he₁ : w₁.db.exec? i = some e₁) (ht : e₁.timeoutAt = some t) :
    ((∀ x ∈ tr, madeReady Action.reopens i x = false) →
      ∀ e₂, w₂.db.exec? i = some e₂ → e₂.timeoutAt = some t) ∧
    (t < w₁.utc → (∀ x ∈ tr, madeReady Action.isRevival i x = false) →
      (∀ l w₃ e₂ e₃, Step env w₂ l w₃ → w₂.db.exec? i = some e₂ → w₃.db.exec? i = some e₃ → PastCap l.1 e₂ e₃) ∧
      ∀ c v o l s p, v.id = i → w₂.utc ≤ c.utc 0 → ∃ err, (Action.adopt v o l s p).tx env c w₂.db = .error err) := by
  have hcap₁ : Capped i t w₁ :=
    ⟨DB.exec?_le he₁, fun e he => by rw [← Option.some.inj (he₁.symm.trans he)]; exact ht⟩
  refine ⟨fun hq => (Sys.Run.invariant_of (I := Capped i t) (fun x => madeReady Action.reopens i x = false) hcap₁
    (fun _ _ _ h hC hst => h.step hst hC) hr hq).cap, fun hp hq => ?_⟩
  obtain ⟨hcap, hutc⟩ := Sys.Run.invariant_of (I := fun w => Capped i t w ∧ t < w.utc)
    (fun x => madeReady Action.isRevival i x = false) ⟨hcap₁, hp⟩
    (fun _ _ _ h hC hst => ⟨h.1.step hst (h.1.late h.2 hst hC), lt_of_lt_of_le h.2 hst.utc_le⟩) hr hq
  refine ⟨fun l w₃ e₂ e₃ hst he₂ he₃ => ?_, fun c v o l s p hv hc => hcap.adopt_fails hutc hv hc o l s p⟩
  rcases hst.commit.moved he₂ he₃ with rfl | hm
  · exact ⟨Or.inl rfl, fun _ => rfl⟩
  · exact hm.past_cap (hcap.cap e₂ he₂) (fun n => lt_of_lt_of_le hutc (hst.le_utc n))

/-- The pass is claimed at second 2 under a cap of 60 s and accepted only at second 70. -/
def latePass : World := (World.init 0).play bareEnv (claimedPass ++ [(.accept 1 "t1" 1 60, 70)])

/-- Then an operator asks it to stop. -/
def stopPass : List (Action × Int) := [(.requestCancel 1 "operator" "late", 71)]

theorem runtime_cap_late : ∃ e err, (latePass.play bareEnv stopPass).db.exec? 1 = some e ∧
    e.status = .cancelRequested ∧ e.timeoutAt = some 62 ∧
    (Action.adopt (e.toStale 71) "other" 30 60 false).tx bareEnv (Ctx.at_ 72) (latePass.play bareEnv stopPass).db =
      .error err := by
  have hcap := @runtime_cap bareEnv _ _ _ (World.run_play bareEnv stopPass latePass (by decide +kernel)) 1
    (Option.get _ (by decide +kernel)) 62 (Option.some_get _).symm (by decide +kernel)
  obtain ⟨err, herr⟩ := (hcap.2 (by decide +kernel) (by decide +kernel)).2 (Ctx.at_ 72)
    (ExecRow.toStale (((latePass.play bareEnv stopPass).db.exec? 1).get (by decide +kernel)) 71)
    "other" 30 60 false (by decide +kernel) (by decide +kernel)
  exact ⟨_, err, (Option.some_get _).symm, by decide +kernel,
    hcap.1 (by decide +kernel) _ (Option.some_get _).symm, herr⟩

end GoJob
