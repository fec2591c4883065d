import GoJob.Report
import GoJob.TokenLife
/-!
# Revival — what an operator's retry gives a dead execution

`AuthorizedRetry` computes the new budget from `attempt_no` alone: one attempt more than were charged.  The numbering of
attempts goes on where it stopped, so no number is charged twice.  The budget is raised only if the old one was spent up
to its last attempt; an execution that died earlier, by a permanent failure or before it ever started, loses the
attempts it had left.
-/
namespace GoJob

open Rel

variable {env : Env} {c : Ctx}

/-! ## Numbers of attempts -/

/-- The attempt of execution `i` under the token was charged, as number `n`. -/
def Numbered (i : Nat) (tr : History) (t : String) (n : Nat) : Prop :=
  ∃ x ∈ tr, chargeOf i x = some t ∧ ∃ e, x.2.2.db.exec? i = some e ∧ e.attemptNo = n

theorem chargeOf_eq_some {i : Nat} {w w' : World} {l : Action × Ctx} {t : String} : chargeOf i (w, l, w') = some t ↔
    ∃ e e', w.db.exec? i = some e ∧ w'.db.exec? i = some e' ∧ e.attemptNo < e'.attemptNo ∧ e.runToken = some t := by
  simp [chargeOf, Option.bind_eq_some_iff]

section run

variable {w w' : World} {tr : History} {i : Nat} {t : String} {e e' : ExecRow}

/-- Numbers only grow. -/
theorem attemptNo_run (hr : Sys.Run (Step env) w tr w') (he : w.db.exec? i = some e) (he' : w'.db.exec? i = some e') :
    e.attemptNo ≤ e'.attemptNo := by
  have hi := DB.exec?_le he
  induction hr generalizing e' with
  | nil => rw [Option.some.inj (he.symm.trans he')]
  | snoc hr hst ih =>
    obtain ⟨e₁, he₁, -⟩ := row_back (.single hst) (le_trans hi (lastId_run hr)) he'
    have hle := ih he₁
    rcases hst.charge he₁ he' with heq | ⟨heq, -⟩ <;> omega

/-- **A token that has been charged is not charged again**: while it holds its row, the number stays. -/
theorem attemptNo_held (hr : Sys.Run (Step env) w tr w') (hiss : t ∈ w.issued) (he : w.db.exec? i = some e)
    (hs : e.status ≠ .dispatching) (he' : w'.db.exec? i = some e') (hh : e'.status.held = true)
    (ht : e'.runToken = some t) : e'.attemptNo = e.attemptNo ∧ e'.status ≠ .dispatching := by
  induction hr generalizing e' with
  | nil =>
    obtain rfl := Option.some.inj (he.symm.trans he')
    exact ⟨rfl, hs⟩
  | snoc hr hst ih =>
    have hiss₁ := issued_run hr hiss
    obtain ⟨e₁, he₁, hh₁, ht₁, -⟩ := hst.held_before hiss₁ he' hh ht
    obtain ⟨hn, hs₁⟩ := ih he₁ hh₁ ht₁
    refine ⟨?_, fun hs' => ?_⟩
    · rcases hst.charge he₁ he' with heq | ⟨-, hd, -⟩
      · rw [heq, hn]
      · exact absurd hd hs₁
    · rcases hst.commit.moved he₁ he' with rfl | hm
      · exact hs₁ hs'
      · rcases hm.dispatching hs' with ⟨hd, -⟩ | ⟨t', hmint, ht'⟩
        · exact hs₁ hd
        · obtain rfl := Option.some.inj (ht.symm.trans ht')
          exact hst.fresh t hmint hiss₁

end run

section history

variable {u : Utc} {tr : History} {w : World} (hr : Sys.Run (Step env) (World.init u) tr w)

include hr

/-- **The history of a charged attempt names the number it was charged as.** -/
theorem Numbered.recorded {i n : Nat} {t : String} (h : Numbered i tr t n) {r : AttemptRow}
    (hmem : r ∈ w.db.attempts.rows) (ht : r.runToken = t) : r.attemptNo = n := by
  obtain ⟨⟨v, l, v'⟩, hy, hc, e', he', rfl⟩ := h
  obtain ⟨⟨v₁, l₁, v₁'⟩, hx, k, hk, hkey, e₁', he₁', hno⟩ := attempt_origin hr hmem
  have htok : k.runToken = t := by
    rw [← ht]
    exact (Prod.mk.inj hkey).2.symm
  obtain ⟨e, e'', he, he'', hlt, hte⟩ := chargeOf_eq_some.1 hc
  obtain rfl := Option.some.inj (he'.symm.trans he'')
  obtain ⟨pre, post, rfl, hpre, hst, hpost⟩ := hr.split hy
  have hinv := HolderInv.run hpre
  have hiss := hinv.issued _ _ _ he hte
  have hcharged : e.status = .dispatching ∧ e'.status ≠ .dispatching := by
    rcases hst.charge he he' with heq | ⟨-, hs⟩
    · omega
    · exact hs
  rw [hno]
  rcases List.mem_append.1 hx with hx | hx
  · -- An ended token is not held any more, and this one is charged later.
    have hheld : v.db.HeldUnder i t := ⟨e, he, by rw [hcharged.1]; rfl, hte⟩
    exact absurd hheld (htok ▸ (ended_closed hpre hx hk).2 i)
  · rcases List.mem_cons.1 hx with hx | hx
    · cases hx
      obtain ⟨⟨x, hxe, -, hxt⟩, -⟩ := hst.ended hinv hk
      obtain rfl := hinv.tokens _ _ _ _ _ hxe he (htok ▸ hxt) hte
      exact congrArg ExecRow.attemptNo (Option.some.inj (he₁'.symm.trans he'))
    · -- From the charge to the ending the row is held under the token.
      obtain ⟨mid, _, -, hmid, hst₁, -⟩ := hpost.split hx
      have hinv₁ := HolderInv.run ((hpre.snoc hst).append hmid)
      obtain ⟨⟨x, hxe, hxh, hxt⟩, -⟩ := hst₁.ended hinv₁ hk
      rw [htok] at hxt
      have hiss' := hst.issued_of_mem hiss
      obtain ⟨x₀, hx₀, hx₀h, hx₀t, -⟩ := held_run hmid hiss' hxe hxh hxt
      obtain ⟨x₁, hx₁, -, hx₁t, -⟩ := hst.held_before hiss hx₀ hx₀h hx₀t
      obtain rfl := hinv.tokens _ _ _ _ _ hx₁ he hx₁t hte
      obtain ⟨hn, hs⟩ := attemptNo_held hmid hiss' he' hcharged.2 hxe hxh hxt
      rcases hst₁.charge hxe he₁' with heq | ⟨-, hd, -⟩
      · rw [heq, hn]
      · exact absurd hd hs

end history

/-- **Later attempts have larger numbers.** -/
theorem Numbered.lt {u : Utc} {tr post : History} {w w' : World} (hr : Sys.Run (Step env) (World.init u) tr w)
    (hpost : Sys.Run (Step env) w post w') {i n m : Nat} {t s : String} (h : Numbered i tr t n)
    (h' : Numbered i post s m) : n < m := by
  obtain ⟨⟨v, l, v'⟩, hy, -, e, he, rfl⟩ := h
  obtain ⟨⟨v₁, l₁, v₁'⟩, hx, hc, e', he', rfl⟩ := h'
  obtain ⟨e₁, e₁', he₁, he₁', hlt, -⟩ := chargeOf_eq_some.1 hc
  obtain rfl := Option.some.inj (he'.symm.trans he₁')
  obtain ⟨-, mid, -, -, -, hmid⟩ := hr.split hy
  obtain ⟨mid', _, -, hmid', -, -⟩ := hpost.split hx
  exact lt_of_le_of_lt (attemptNo_run (hmid.append hmid') he he₁) hlt

/-! ## The new budget -/

/-- **What an operator's retry promises** for the execution in row `e`: a larger budget, no smaller than the old one,
the same counters, and numbers for the attempts to come that no charged attempt has had. -/
structure RaisesBudget (env : Env) (tr : History) (w' : World) (i : Nat) (e e' : ExecRow) : Prop where
  row      : w'.db.exec? i = some e'
  ready    : e'.status = .ready
  room     : e'.attemptNo < e'.maxAttempts
  raised   : e.maxAttempts ≤ e'.maxAttempts
  attempts : e'.attemptNo = e.attemptNo
  recovery : e'.recoveryCount = e.recoveryCount
  numbers  : ∀ post v, Sys.Run (Step env) w' post v → ∀ t n, Numbered i post t n →
    (∀ s m, Numbered i tr s m → m < n) ∧
      ∀ r ∈ v.db.attempts.rows, (r.runToken = t → r.attemptNo = n) ∧
        ∀ s m, Numbered i tr s m → r.runToken = s → r.attemptNo ≠ n

/-- **An operator's retry raises the budget of a dead execution exactly if at most one attempt of it was left.** -/
theorem retry_raises_budget_iff {u : Utc} {tr : History} {w w' : World} {j k x y : String}
    (hr : Sys.Run (Step env) (World.init u) tr w) (hst : Step env w (.authorizedRetry j k x y, c) w')
    (hok : (authorizedRetry c j k x y w.db).toBool = true) {i : Nat} {e : ExecRow} (he : w.db.exec? i = some e)
    (hk : e.executionKey = k) :
    (∃ e', RaisesBudget env (tr ++ [(w, (.authorizedRetry j k x y, c), w')]) w' i e e') ↔
      e.maxAttempts ≤ e.attemptNo + 1 := by
  have hdb : authorizedRetry c j k x y w.db = .ok ((), w'.db) := by
    rcases Tx.commit_cases (authorizedRetry c j k x y) w.db with ⟨err, herr, -⟩ | ⟨_, hx⟩
    · rw [herr] at hok; cases hok
    · have hcommit : w'.db = (authorizedRetry c j k x y).commit w.db := hst.db
      rw [hcommit]
      exact hx
  obtain ⟨-, i', e₀, -, -, he₀, hk₀, -, -, hx⟩ := authorizedRetry_ok hdb
  obtain rfl := DB.exec?_key_inj he₀ he (hk₀.trans hk.symm)
  obtain rfl := Option.some.inj (he.symm.trans he₀)
  have hrow : w'.db.exec? i' = some ((reviveWrite c).run e) := by rw [hx.execs, if_pos rfl]
  constructor
  · rintro ⟨e', h⟩
    obtain rfl := Option.some.inj (hrow.symm.trans h.row)
    exact h.raised
  · intro hle
    refine ⟨_, hrow, rfl, Nat.lt_succ_self _, hle, rfl, rfl, fun post v hpost t n hn => ?_⟩
    have hr' := hr.snoc hst
    have hlt : ∀ s m, Numbered i' (tr ++ [(w, (.authorizedRetry j k x y, c), w')]) s m → m < n := fun s m hm =>
      hm.lt hr' hpost hn
    have hall := hr'.append hpost
    have later : ∀ {p q : History} {s m}, Numbered i' p s m → Numbered i' (p ++ q) s m := fun h => by
      obtain ⟨z, hz, h⟩ := h
      exact ⟨z, List.mem_append_left _ hz, h⟩
    refine ⟨hlt, fun r hmem => ⟨fun ht => ?_, fun s m hm hs heq => ?_⟩⟩
    · obtain ⟨z, hz, hn⟩ := hn
      exact Numbered.recorded hall ⟨z, List.mem_append_right _ hz, hn⟩ hmem ht
    · have := hlt s m hm
      rw [(later hm).recorded hall hmem hs] at heq
      omega

/-- A pass of a job with so many attempts that fails for good in its first one. -/
def failedPass (attempts : Nat) : List (Action × Int) :=
  [(.createJob { sampleJob "sync" .fixedDelay "1000" with maxAttempts := attempts } 0 "operator" "new", 0),
   (.materializePoll "sync" "pass-1" (fun _ => .error ⟨.other, "no schedule"⟩), 1), (claimPass "t1", 2),
   (.complete ⟨"sync", 1, "pass-1", "scheduler", "t1", 1⟩
     { status := .dead, terminalReason := .permanentFailure, attemptOutcome := .failed }, 3)]

def failedWorld (attempts : Nat) : World := (World.init 0).play bareEnv (failedPass attempts)

def again : Action := .authorizedRetry "sync" "pass-1" "operator" "again"

def revivedWorld (attempts : Nat) : World := (failedWorld attempts).call bareEnv again 4

/-- Of two attempts one was left, and one is left after the retry. -/
theorem retry_raises_budget_two : ∃ e e', (failedWorld 2).db.exec? 1 = some e ∧
    RaisesBudget bareEnv ((World.init 0).trace bareEnv (failedPass 2) ++
      [(failedWorld 2, (again, Ctx.at_ 4), revivedWorld 2)]) (revivedWorld 2) 1 e e' := by
  have hrun := World.run_play bareEnv (failedPass 2) (World.init 0) (by decide +kernel)
  have hst : Step bareEnv (failedWorld 2) (again, Ctx.at_ 4) (revivedWorld 2) :=
    World.step_call bareEnv (by decide +kernel) (by decide +kernel)
  have hrow : (failedWorld 2).db.exec? 1 = some (((failedWorld 2).db.exec? 1).get (by decide +kernel)) :=
    (Option.some_get _).symm
  obtain ⟨e', h⟩ :=
    (retry_raises_budget_iff hrun hst (by decide +kernel) hrow (by decide +kernel)).2 (by decide +kernel)
  exact ⟨_, e', hrow, h⟩

/-- **A permanent failure in the first of five attempts**: the retry lowers the budget to two. -/
theorem retry_lowers_budget : ∃ e e', Reachable bareEnv (failedWorld 5) ∧
    Step bareEnv (failedWorld 5) (again, Ctx.at_ 4) (revivedWorld 5) ∧
    (again.tx bareEnv (Ctx.at_ 4) (failedWorld 5).db).toBool = true ∧ (failedWorld 5).db.exec? 1 = some e ∧
    e.status = .dead ∧ e.terminalReason = some .permanentFailure ∧ e.attemptNo = 1 ∧ e.maxAttempts = 5 ∧
    (revivedWorld 5).db.exec? 1 = some e' ∧ e'.maxAttempts = 2 :=
  ⟨((failedWorld 5).db.exec? 1).get (by decide +kernel), ((revivedWorld 5).db.exec? 1).get (by decide +kernel),
    reachable_play bareEnv 0 (failedPass 5) (by decide +kernel),
    World.step_call bareEnv (by decide +kernel) (by decide +kernel), by decide +kernel, (Option.some_get _).symm,
    by decide +kernel, by decide +kernel, by decide +kernel, by decide +kernel, (Option.some_get _).symm,
    by decide +kernel⟩

end GoJob
