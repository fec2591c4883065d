import GoJob.Budget
/-!
# Report — results and the attempts they are charged to

A recorded result proves that a handler ran, so its token should have been charged an attempt by then.  It has been,
when the row was accepted first or the result found it `dispatching`.  A cancel that comes between the claim and the
acceptance breaks this: the row is neither accepted nor `dispatching` any more, and the result charges nothing.
-/
namespace GoJob

open Rel

variable {env : Env} {c : Ctx} {db db' : DB} {a : Action}

/-! ## What a step does for one execution -/

/-- The execution and the token a result is reported for. -/
def Action.report : Action → Option (Nat × String)
  | .complete h _ => some (h.executionId, h.runToken)
  | .retry h _ _  => some (h.executionId, h.runToken)
  | _             => none

/-- The token whose result the step records for execution `i`. -/
def reportOf (env : Env) (i : Nat) (x : World × (Action × Ctx) × World) : Option String :=
  x.2.1.1.report.bind (fun r =>
    if r.1 = i ∧ (x.2.1.1.tx env x.2.1.2 x.1.db).toBool = true then some r.2 else none)

/-- The token the step charges an attempt of execution `i` to. -/
def chargeOf (i : Nat) (x : World × (Action × Ctx) × World) : Option String :=
  (x.1.db.exec? i).bind (fun e => (x.2.2.db.exec? i).bind (fun e' =>
    if e.attemptNo < e'.attemptNo then e.runToken else none))

/-- The call asks the execution in row `e` to stop. -/
def Action.asksStop (e : ExecRow) : Action → Bool
  | .requestCancel i _ _ => decide (e.id = i)
  | .retire j _ _        => decide (e.jobName = j)
  | _                    => false

/-- The token under which execution `i` is asked to stop before its dispatch was accepted. -/
def earlyCancelOf (i : Nat) (x : World × (Action × Ctx) × World) : Option String :=
  (x.1.db.exec? i).bind (fun e =>
    if e.status = .dispatching ∧ x.2.1.1.asksStop e = true then e.runToken else none)

/-! ## The rows behind them -/

/-- A result is recorded for a held row under its own token, and charges it if nobody accepted it. -/
theorem result_row {k : Holder} {o : Outcome} {b : Bool} {wr : ExecWrite} {kind : Sentinel} {detail : String} {u : Unit}
    (hw : ∀ e, (wr.run e).attemptNo = e.attemptNo) (h : (do
      releaseJobLock c k b
      chargeUnacceptedAttempt c k
      casExec k.executionId (fun e => e.reportable k (c.utc 2)) wr kind detail
      recordAttempt c k o
      settlePollClock c k.jobName k.executionId : StoreM Unit) db = .ok (u, db')) :
    ∃ e e', db.exec? k.executionId = some e ∧ db'.exec? k.executionId = some e' ∧ e.runToken = some k.runToken ∧
      e.status.held = true ∧ (e.status = .dispatching → e.attemptNo < e'.attemptNo) := by
  obtain ⟨_, _, _, e, -, -, he, -, hr, -, hf, -⟩ := result_ok h
  obtain ⟨hheld, hown, -⟩ := ExecRow.reportable_iff.1 hr
  refine ⟨e, _, he, hf.exec?, (ExecRow.owned_iff.1 hown).1, hheld, fun hs => ?_⟩
  rw [hw, ExecRow.charged_attemptNo, if_pos (ExecRow.unaccepted_iff.2 ⟨hs, hown⟩)]
  exact Nat.lt_succ_self _

theorem Step.report {i : Nat} {w w' : World} {l : Action × Ctx} {t : String} (hst : Step env w l w')
    (h : reportOf env i (w, l, w') = some t) :
    ∃ e e', w.db.exec? i = some e ∧ w'.db.exec? i = some e' ∧ e.runToken = some t ∧ e.status.held = true ∧
      (e.status = .dispatching → e.attemptNo < e'.attemptNo) := by
  obtain ⟨⟨a, c⟩, rfl⟩ : ∃ p, l = p := ⟨l, rfl⟩
  obtain ⟨r, hrep, hr⟩ := Option.bind_eq_some_iff.1 h
  simp only [Option.ite_none_right_eq_some, Option.some.injEq] at hr
  obtain ⟨⟨hi, hok⟩, ht⟩ := hr
  cases hx : a.tx env c w.db with
  | error err => simp [hx, Except.toBool] at hok
  | ok res =>
    have hdb : w'.db = res.2 := hst.db.trans (Tx.commit_of_ok hx)
    rw [hdb]
    cases a with
    | complete k o =>
      cases hrep
      obtain ⟨-, hx⟩ := check_ok hx
      exact hi ▸ ht ▸ result_row (fun _ => rfl) hx
    | retry k o b =>
      cases hrep
      exact hi ▸ ht ▸ result_row (fun _ => rfl) hx
    | _ => cases hrep

/-- **A row becomes `running` when it is charged.** -/
theorem ExecMove.running {e e' : ExecRow} (h : ExecMove c a e e') (hs : e'.status = .running) :
    e'.runToken = e.runToken ∧ (e.status = .running ∨ (e.status = .dispatching ∧ e.attemptNo < e'.attemptNo)) := by
  rcases h.held_after (by rw [hs]; rfl) with ⟨_, -, -, hs', -⟩ | ⟨-, hw⟩
  · rw [hs'] at hs; cases hs
  · refine ⟨hw.token, ?_⟩
    cases hw with
    | accept ho => exact Or.inr ⟨(ExecRow.unaccepted_iff.1 ho).1, Nat.lt_succ_self _⟩
    | adopt =>
      simp only [adoptWrite] at hs ⊢
      split at hs
      · rename_i hp
        rw [if_pos hp]
        simp only [Bool.and_eq_true, decide_eq_true_eq] at hp
        exact Or.inr ⟨hp.2, Nat.lt_succ_self _⟩
      · exact Or.inl hs
    | cancel | retire => cases hs
    | retarget | renew | extend => exact Or.inl hs

theorem ExecMove.asked {e e' : ExecRow} (h : ExecMove c a e e') (hs : e'.status = .cancelRequested) :
    e'.runToken = e.runToken ∧
      (e.status = .cancelRequested ∨ e.status = .running ∨ (e.status = .dispatching ∧ a.asksStop e = true)) := by
  have cancellable : e.status.cancellable = true → a.asksStop e = true →
      e.status = .cancelRequested ∨ e.status = .running ∨ (e.status = .dispatching ∧ a.asksStop e = true) :=
    fun hc hstop => by cases he : e.status <;> simp_all [Status.cancellable]
  rcases h.held_after (by rw [hs]; rfl) with ⟨_, -, -, hs', -⟩ | ⟨-, hw⟩
  · rw [hs'] at hs; cases hs
  · refine ⟨hw.token, ?_⟩
    cases hw with
    | cancel hi hc => exact cancellable hc (decide_eq_true hi)
    | retire hj hc => exact cancellable hc (decide_eq_true hj)
    | accept => cases hs
    | adopt =>
      simp only [adoptWrite] at hs
      split at hs
      · cases hs
      · exact Or.inl hs
    | retarget | renew | extend => exact Or.inl hs

/-! ## The history of one execution -/

/-- What a history has recorded of an execution that now holds row `e`. -/
structure Reported (env : Env) (i : Nat) (tr : History) (e : ExecRow) : Prop where
  count   : e.attemptNo = (tr.filterMap (chargeOf i)).length
  reports : ∀ t ∈ tr.filterMap (reportOf env i), t ∈ tr.filterMap (chargeOf i) ∨ t ∈ tr.filterMap (earlyCancelOf i)
  running : e.status = .running → ∃ t, e.runToken = some t ∧ t ∈ tr.filterMap (chargeOf i)
  asked   : e.status = .cancelRequested → ∃ t, e.runToken = some t ∧
    (t ∈ tr.filterMap (chargeOf i) ∨ t ∈ tr.filterMap (earlyCancelOf i))

theorem filterMap_snoc {f : World × (Action × Ctx) × World → Option String} (tr : History)
    (x : World × (Action × Ctx) × World) : (tr ++ [x]).filterMap f = tr.filterMap f ++ (f x).toList := by
  rw [List.filterMap_append]
  cases hx : f x <;> simp [hx]

theorem Reported.step {i : Nat} {tr : History} {w w' : World} {l : Action × Ctx} {e e' : ExecRow}
    (h : Reported env i tr e) (hinv : HolderInv w.db w.issued) (he : w.db.exec? i = some e)
    (he' : w'.db.exec? i = some e') (hst : Step env w l w') (hm : e' = e ∨ ExecMove l.2 l.1 e e') :
    Reported env i (tr ++ [(w, l, w')]) e' := by
  have token : e.status.held = true → ∃ t, e.runToken = some t := fun hs => by
    obtain ⟨s, -, hes⟩ := hinv.held i e he hs
    exact Option.ne_none_iff_exists'.1 hes.some_
  have hcharge : chargeOf i (w, l, w') = if e.attemptNo < e'.attemptNo then e.runToken else none := by
    simp only [chargeOf, he, he', Option.bind_some]
  have hearly : earlyCancelOf i (w, l, w') =
      if e.status = .dispatching ∧ l.1.asksStop e = true then e.runToken else none := by
    rw [earlyCancelOf, he, Option.bind_some]
  have old : ∀ {f : World × (Action × Ctx) × World → Option String} {t}, t ∈ tr.filterMap f →
      t ∈ (tr ++ [(w, l, w')]).filterMap f := fun ht => by
    rw [filterMap_snoc]; exact List.mem_append_left _ ht
  have new : ∀ {f : World × (Action × Ctx) × World → Option String} {t}, f (w, l, w') = some t →
      t ∈ (tr ++ [(w, l, w')]).filterMap f := fun ht => by
    rw [filterMap_snoc, ht]; exact List.mem_append_right _ (List.mem_singleton_self _)
  refine ⟨?_, fun t ht => ?_, fun hs' => ?_, fun hs' => ?_⟩
  · rw [filterMap_snoc, hcharge, List.length_append, ← h.count]
    rcases hst.charge he he' with heq | ⟨heq, hs, -⟩
    · rw [heq, if_neg (Nat.lt_irrefl _)]
      rfl
    · obtain ⟨t, ht⟩ := token (by rw [hs]; rfl)
      rw [heq, if_pos (Nat.lt_succ_self _), ht]
      rfl
  · rw [filterMap_snoc, List.mem_append] at ht
    rcases ht with ht | ht
    · exact (h.reports t ht).imp old old
    · -- A new result: the row was charged before, is charged now, or was asked to stop too early.
      obtain ⟨x, x', hx, hx', hxt, hheld, hdisp⟩ := hst.report (Option.mem_toList.1 ht)
      obtain rfl := Option.some.inj (he.symm.trans hx)
      obtain rfl := Option.some.inj (he'.symm.trans hx')
      cases hs : e.status with
      | dispatching =>
        left
        refine new ?_
        rw [hcharge, if_pos (hdisp hs)]
        exact hxt
      | running =>
        obtain ⟨t', ht', hmem⟩ := h.running hs
        obtain rfl := Option.some.inj (hxt.symm.trans ht')
        exact Or.inl (old hmem)
      | cancelRequested =>
        obtain ⟨t', ht', hmem⟩ := h.asked hs
        obtain rfl := Option.some.inj (hxt.symm.trans ht')
        exact hmem.imp old old
      | ready | success | dead | cancelled | skipped => rw [hs] at hheld; cases hheld
  · rcases hm with rfl | hm
    · obtain ⟨t, ht, hmem⟩ := h.running hs'
      exact ⟨t, ht, old hmem⟩
    · obtain ⟨htok, hs | ⟨hs, hlt⟩⟩ := hm.running hs'
      · obtain ⟨t, ht, hmem⟩ := h.running hs
        exact ⟨t, htok.trans ht, old hmem⟩
      · obtain ⟨t, ht⟩ := token (by rw [hs]; rfl)
        exact ⟨t, htok.trans ht, new (by rw [hcharge, if_pos hlt, ht])⟩
  · rcases hm with rfl | hm
    · obtain ⟨t, ht, hmem⟩ := h.asked hs'
      exact ⟨t, ht, hmem.imp old old⟩
    · obtain ⟨htok, hs | hs | ⟨hs, hstop⟩⟩ := hm.asked hs'
      · obtain ⟨t, ht, hmem⟩ := h.asked hs
        exact ⟨t, htok.trans ht, hmem.imp old old⟩
      · obtain ⟨t, ht, hmem⟩ := h.running hs
        exact ⟨t, htok.trans ht, Or.inl (old hmem)⟩
      · obtain ⟨t, ht⟩ := token (by rw [hs]; rfl)
        exact ⟨t, htok.trans ht, Or.inr (new (by rw [hearly, if_pos ⟨hs, hstop⟩, ht]))⟩

theorem Reported.run {u : Utc} {tr : History} {w : World} (hr : Sys.Run (Step env) (World.init u) tr w) {i : Nat}
    {e : ExecRow} (he : w.db.exec? i = some e) : Reported env i tr e := by
  have absent : ∀ {tr : History} {w : World} {l : Action × Ctx} {w' : World}, tr.filterMap (chargeOf i) = [] ∧
      tr.filterMap (reportOf env i) = [] → w.db.exec? i = none → Step env w l w' →
      (tr ++ [(w, l, w')]).filterMap (chargeOf i) = [] ∧ (tr ++ [(w, l, w')]).filterMap (reportOf env i) = [] := by
    rintro tr w l w' ⟨h₁, h₂⟩ hw hst
    refine ⟨by rw [filterMap_snoc, h₁, chargeOf, hw]; rfl, ?_⟩
    cases hrep : reportOf env i (w, l, w') with
    | none => rw [filterMap_snoc, h₂, hrep]; rfl
    | some t =>
      obtain ⟨x, -, hx, -⟩ := hst.report hrep
      rw [hw] at hx; cases hx
  refine row_history (P := fun tr => tr.filterMap (chargeOf i) = [] ∧ tr.filterMap (reportOf env i) = [])
    (Q := fun tr _ e => Reported env i tr e) ⟨rfl, rfl⟩ (fun tr w l w' h hw _ hst => absent h hw hst) ?_ ?_ hr he
  · intro tr w l w' d s s' e h hw he' hst hm
    obtain ⟨h₁, h₂⟩ := absent h hw hst
    have hs := hm.fresh.status
    have hn := hm.fresh.attemptNo
    refine ⟨by rw [h₁, hn]; rfl, fun t ht => ?_, fun hx => ?_, fun hx => ?_⟩
    · rw [h₂] at ht; cases ht
    · rw [hs] at hx; cases hx
    · rw [hs] at hx; cases hx
  · exact fun tr w l w' e e' hr h he he' hst hm => h.step (HolderInv.run hr) he he' hst hm

theorem chargeOf_mem {i : Nat} {tr : History} {t : String} (h : t ∈ tr.filterMap (chargeOf i)) :
    t ∈ tr.flatMap charges := by
  obtain ⟨⟨w, l, w'⟩, hx, hc⟩ := List.mem_filterMap.1 h
  refine List.mem_flatMap.2 ⟨_, hx, ?_⟩
  obtain ⟨e, he, hc⟩ := Option.bind_eq_some_iff.1 hc
  obtain ⟨e', he', hc⟩ := Option.bind_eq_some_iff.1 hc
  simp only [Option.ite_none_right_eq_some] at hc
  exact mem_charges.2 ⟨i, e, e', he, he', hc.1, hc.2⟩

/-- **Every reported run is charged**, exactly once, if no cancel or retirement came between its claim and its
acceptance. -/
theorem reported_runs_are_charged {u : Utc} {tr : History} {w : World} (hr : Sys.Run (Step env) (World.init u) tr w)
    {i : Nat} {e : ExecRow} (he : w.db.exec? i = some e)
    (hc : ∀ t ∈ tr.filterMap (reportOf env i), t ∉ tr.filterMap (earlyCancelOf i)) :
    (tr.filterMap (reportOf env i)).dedup.length ≤ e.attemptNo ∧
      ∀ t ∈ tr.filterMap (reportOf env i), (tr.flatMap charges).count t = 1 := by
  have h := Reported.run hr he
  have hmem : ∀ t ∈ tr.filterMap (reportOf env i), t ∈ tr.filterMap (chargeOf i) := fun t ht =>
    (h.reports t ht).resolve_right (hc t ht)
  refine ⟨?_, fun t ht => ?_⟩
  · rw [h.count]
    exact ((List.nodup_dedup _).subperm (fun t ht => hmem t (List.mem_dedup.1 ht))).length_le
  · exact List.count_eq_one_of_mem (ChargeInv.run hr).nodup (chargeOf_mem (hmem t ht))

def reportPass : Action :=
  .complete ⟨"sync", 1, "pass-1", "scheduler", "t1", 1⟩ { status := .success, attemptOutcome := .success }

/-- The result arrives before the acceptance was recorded. -/
def quickPass : List (Action × Int) := claimedPass ++ [(reportPass, 3)]

theorem reported_runs_are_charged_quick :
    (((World.init 0).trace bareEnv quickPass).filterMap (reportOf bareEnv 1)).dedup.length ≤ 1 :=
  (reported_runs_are_charged (World.run_play bareEnv quickPass (World.init 0) (by decide +kernel))
    (Option.some_get (by decide +kernel)).symm (by decide +kernel)).1

/-- The same, but the pass is asked to stop before the result arrives. -/
def cancelledPass : List (Action × Int) := claimedPass ++ [(.requestCancel 1 "operator" "stop", 3), (reportPass, 4)]

/-- **A cancel before the acceptance leaves the run uncharged**: one result recorded, no attempt charged. -/
theorem early_cancel_leaves_run_uncharged : ∃ tr w e, Sys.Run (Step bareEnv) (World.init 0) tr w ∧
    w.db.exec? 1 = some e ∧ e.attemptNo < (tr.filterMap (reportOf bareEnv 1)).dedup.length :=
  ⟨_, _, Option.get _ (by decide +kernel), World.run_play bareEnv cancelledPass (World.init 0) (by decide +kernel),
    (Option.some_get _).symm, by decide +kernel⟩

end GoJob
