import GoJob.Holder
/-!
# Budget — attempts and recoveries

Two counters bound how often a handler runs: `attempt_no`, charged once per run token, and `recovery_count`.  Accepting
a dispatch, promoting it on adoption and recording the result of one nobody accepted all charge the same attempt, and
whichever comes first takes the row out of `dispatching`, so the others find nothing to charge.
-/
namespace GoJob

variable {env : Env} {c : Ctx} {db db' : DB} {a : Action}

/-! ## The counters -/

/-- **What a move does to the counters**: at most one more attempt, and only by taking the row out of `dispatching`. -/
theorem ExecMove.counters {e e' : ExecRow} (h : ExecMove c a e e') :
    (e'.attemptNo = e.attemptNo ∨ (e'.attemptNo = e.attemptNo + 1 ∧ e.status = .dispatching ∧
      e'.status ≠ .dispatching)) ∧ e.recoveryCount ≤ e'.recoveryCount := by
  have result : ∀ (k : Holder) (w : ExecWrite), (∀ x, (w.run x).attemptNo = x.attemptNo) →
      (∀ x, (w.run x).recoveryCount = x.recoveryCount) → (∀ x, (w.run x).status ≠ .dispatching) →
      ((w.run (e.charged c k)).attemptNo = e.attemptNo ∨ ((w.run (e.charged c k)).attemptNo = e.attemptNo + 1 ∧
        e.status = .dispatching ∧ (w.run (e.charged c k)).status ≠ .dispatching)) ∧
      e.recoveryCount ≤ (w.run (e.charged c k)).recoveryCount := fun k w hn hr hs => by
    rw [hn, hr, ExecRow.charged_attemptNo, ExecRow.charged_recoveryCount]
    refine ⟨?_, le_refl _⟩
    split
    · rename_i hu
      exact Or.inr ⟨rfl, (ExecRow.unaccepted_iff.1 hu).1, hs _⟩
    · exact Or.inl rfl
  cases h with
  | accept _ ho => exact ⟨Or.inr ⟨rfl, (ExecRow.unaccepted_iff.1 ho).1, by simp [acceptWrite]⟩, le_refl _⟩
  | complete _ ht =>
    exact result _ _ (fun _ => rfl) (fun _ => rfl) (fun _ => (Status.ne_of_terminal ht).2.1)
  | retry =>
    refine result _ _ (fun _ => rfl) (fun _ => rfl) (fun _ => ?_)
    simp only [retryWrite]
    split <;> decide
  | adopt _ _ _ _ =>
    refine ⟨?_, le_refl _⟩
    simp only [adoptWrite]
    split
    · rename_i hp
      simp only [Bool.and_eq_true, decide_eq_true_eq] at hp
      exact Or.inr ⟨rfl, hp.2, by decide⟩
    · exact Or.inl rfl
  | resolve => exact ⟨Or.inl rfl, Nat.le_succ _⟩
  | release => exact ⟨Or.inl rfl, Nat.le_succ _⟩
  | _ => exact ⟨Or.inl rfl, le_refl _⟩

/-- **A row becomes `dispatching` by a claim**, which gives it the claim's token. -/
theorem ExecMove.dispatching {e e' : ExecRow} (h : ExecMove c a e e') (hs : e'.status = .dispatching) :
    (e.status = .dispatching ∧ e'.runToken = e.runToken ∧ e'.attemptNo = e.attemptNo) ∨
      ∃ t, a.mints = some t ∧ e'.runToken = some t := by
  rcases h.held_after (by rw [hs]; rfl) with ⟨t, ha, -, -, ht⟩ | ⟨-, hw⟩
  · exact Or.inr ⟨t, ha, ht⟩
  · refine Or.inl ?_
    cases hw with
    | adopt =>
      simp only [adoptWrite] at hs ⊢
      split at hs
      · cases hs
      · rename_i hp
        exact ⟨hs, trivial, if_neg hp⟩
    | accept | cancel | retire => cases hs
    | retarget | renew | extend => exact ⟨hs, rfl, rfl⟩

/-! ## The attempt budget -/

def ExecRow.InBudget (e : ExecRow) : Prop :=
  e.attemptNo ≤ e.maxAttempts ∧ (e.status = .ready ∨ e.status = .dispatching → e.attemptNo < e.maxAttempts)

theorem Creates.inBudget {d : DefinitionRow} {s s' : StateRow} {e : ExecRow} (h : Creates env c d a s s' e) :
    e.InBudget := by
  obtain ⟨-, -, hn, -, hm, -, -⟩ := h.fresh
  have := d.checks.1.1
  exact ⟨by omega, fun _ => by omega⟩

/-- A charged row is within its budget, and spent or not it is not over it. -/
theorem ExecRow.InBudget.charged {e : ExecRow} (h : e.InBudget) (k : Holder) :
    (e.charged c k).attemptNo ≤ (e.charged c k).maxAttempts := by
  rw [ExecRow.charged_attemptNo, ExecRow.charged_maxAttempts]
  split
  · rename_i hu
    exact h.2 (Or.inr (ExecRow.unaccepted_iff.1 hu).1)
  · exact h.1

/-- **Every move keeps the budget.** -/
theorem ExecMove.inBudget {e e' : ExecRow} (h : ExecMove c a e e') (hb : e.InBudget) : e'.InBudget := by
  have ended : ∀ {s : Status}, s.terminal = true → ¬ (s = .ready ∨ s = .dispatching) := fun ht =>
    not_or.2 ⟨(Status.ne_of_terminal ht).1, (Status.ne_of_terminal ht).2.1⟩
  cases h with
  | dispatch _ _ _ _ _ _ hlt => exact ⟨hb.1, fun _ => hlt⟩
  | expire => exact ⟨hb.1, fun hs => absurd hs (ended rfl)⟩
  | skip => exact ⟨hb.1, fun hs => absurd hs (ended rfl)⟩
  | accept _ ho =>
    exact ⟨hb.2 (Or.inr (ExecRow.unaccepted_iff.1 ho).1), fun hs => by rcases hs with hs | hs <;> cases hs⟩
  | refuse _ ho =>
    have hlt := hb.2 (Or.inr (ExecRow.unaccepted_iff.1 ho).1)
    exact ⟨hb.1, fun _ => hlt⟩
  | complete _ ht => exact ⟨hb.charged _, fun hs => absurd hs (ended ht)⟩
  | retry =>
    refine ⟨hb.charged _, fun hs => ?_⟩
    simp only [retryWrite] at hs ⊢
    split at hs
    · rcases hs with hs | hs <;> cases hs
    · rename_i hlt
      simpa using hlt
  | cancel => exact ⟨hb.1, fun hs => by rcases hs with hs | hs <;> cases hs⟩
  | retireHeld => exact ⟨hb.1, fun hs => by rcases hs with hs | hs <;> cases hs⟩
  | retireReady => exact ⟨hb.1, fun hs => absurd hs (ended rfl)⟩
  | adopt _ _ _ _ =>
    simp only [ExecRow.InBudget, adoptWrite]
    split
    · rename_i hp
      simp only [Bool.and_eq_true, decide_eq_true_eq] at hp
      exact ⟨hb.2 (Or.inr hp.2), fun hs => by rcases hs with hs | hs <;> cases hs⟩
    · exact hb
  | resolve =>
    refine ⟨hb.1, fun hs => ?_⟩
    have hs : resolvedStatus (e.toStale (c.utc 1)) = .ready ∨ resolvedStatus (e.toStale (c.utc 1)) = .dispatching := hs
    have hlt := resolvedStatus_ready (hs.resolve_right (fun h => by
      have := resolvedStatus_not_held (e.toStale (c.utc 1))
      rw [h] at this; cases this))
    exact hlt.2.2.1
  | fence => exact ⟨hb.1, fun hs => absurd hs (ended (endedStatus_terminal _))⟩
  | silence => exact ⟨hb.1, fun hs => absurd hs (ended (endedStatus_terminal _))⟩
  | release => exact ⟨hb.1, fun hs => absurd hs (ended (endedStatus_terminal _))⟩
  | revive => exact ⟨Nat.le_succ _, fun _ => Nat.lt_succ_self _⟩
  | defer => exact hb
  | retarget => exact hb
  | renew => exact hb
  | extend => exact hb

/-! ## Charges -/

/-- The run tokens a step charges an attempt to: those of the rows whose `attempt_no` it raises. -/
def charges (x : World × (Action × Ctx) × World) : List String :=
  x.1.db.executions.table.rows.filterMap (fun e =>
    (x.2.2.db.exec? e.id).bind (fun e' => if e.attemptNo < e'.attemptNo then e.runToken else none))

theorem charge_eq_some {w' : World} {e : ExecRow} {t : String} :
    (w'.db.exec? e.id).bind (fun e' => if e.attemptNo < e'.attemptNo then e.runToken else none) = some t ↔
      ∃ e', w'.db.exec? e.id = some e' ∧ e.attemptNo < e'.attemptNo ∧ e.runToken = some t := by
  simp [Option.bind_eq_some_iff]

theorem mem_charges {w w' : World} {l : Action × Ctx} {t : String} : t ∈ charges (w, l, w') ↔
    ∃ i e e', w.db.exec? i = some e ∧ w'.db.exec? i = some e' ∧ e.attemptNo < e'.attemptNo ∧ e.runToken = some t := by
  simp only [charges, List.mem_filterMap, charge_eq_some]
  constructor
  · rintro ⟨e, he, e', he', hlt, ht⟩
    exact ⟨e.id, e, e', DB.mem_iff.1 he, he', hlt, ht⟩
  · rintro ⟨i, e, e', he, he', hlt, ht⟩
    obtain rfl := DB.exec?_id he
    exact ⟨e, DB.mem_iff.2 he, e', he', hlt, ht⟩

/-- A charge is for a row nobody had accepted, and takes it out of `dispatching`. -/
theorem Step.charge {w w' : World} {l : Action × Ctx} (hst : Step env w l w') {i : Nat} {e e' : ExecRow}
    (he : w.db.exec? i = some e) (he' : w'.db.exec? i = some e') :
    e'.attemptNo = e.attemptNo ∨
      (e'.attemptNo = e.attemptNo + 1 ∧ e.status = .dispatching ∧ e'.status ≠ .dispatching) := by
  rcases hst.commit.moved he he' with rfl | hm
  · exact Or.inl rfl
  · exact hm.counters.1

theorem charges_nodup {w : World} (h : HolderInv w.db w.issued) (l : Action × Ctx) (w' : World) :
    (charges (w, l, w')).Nodup := by
  rw [charges, List.Nodup, List.pairwise_filterMap]
  refine w.db.ids_distinct.imp_of_mem (fun {e x} he hx hne t ht t' ht' => ?_)
  rintro rfl
  obtain ⟨-, -, -, ht⟩ := charge_eq_some.1 ht
  obtain ⟨-, -, -, ht'⟩ := charge_eq_some.1 ht'
  exact hne (h.tokens _ _ e x t (DB.mem_iff.1 he) (DB.mem_iff.1 hx) ht ht')

/-- The charges of a history so far: all to issued tokens, none to one whose dispatch is still open. -/
structure ChargeInv (tr : History) (w : World) : Prop where
  nodup  : (tr.flatMap charges).Nodup
  issued : ∀ t ∈ tr.flatMap charges, t ∈ w.issued
  open_  : ∀ i e t, w.db.exec? i = some e → e.status = .dispatching → e.runToken = some t → t ∉ tr.flatMap charges

theorem ChargeInv.step {tr : History} {w w' : World} {l : Action × Ctx} (h : ChargeInv tr w)
    (hinv : HolderInv w.db w.issued) (hst : Step env w l w') : ChargeInv (tr ++ [(w, l, w')]) w' := by
  have hflat : (tr ++ [(w, l, w')]).flatMap charges = tr.flatMap charges ++ charges (w, l, w') := by simp
  -- What this step charges was open before it, hence not charged yet.
  have hnew : ∀ t ∈ charges (w, l, w'), ∃ i e e', w.db.exec? i = some e ∧ w'.db.exec? i = some e' ∧
      e.runToken = some t ∧ e.status = .dispatching ∧ e'.status ≠ .dispatching := fun t ht => by
    obtain ⟨i, e, e', he, he', hlt, htok⟩ := mem_charges.1 ht
    rcases hst.charge he he' with heq | ⟨-, hs, hs'⟩
    · omega
    · exact ⟨i, e, e', he, he', htok, hs, hs'⟩
  refine ⟨?_, fun t ht => ?_, fun i e' t he' hs' ht' => ?_⟩
  · rw [hflat, List.nodup_append]
    refine ⟨h.nodup, charges_nodup hinv l w', ?_⟩
    rintro t ht _ ht' rfl
    obtain ⟨i, e, e', he, -, htok, hs, -⟩ := hnew t ht'
    exact h.open_ i e t he hs htok ht
  · rw [hst.issued]
    rw [hflat, List.mem_append] at ht
    refine List.mem_append_right _ (ht.elim (h.issued t) (fun ht => ?_))
    obtain ⟨i, e, -, he, -, htok, -⟩ := hnew t ht
    exact hinv.issued i e t he htok
  · rw [hflat, List.mem_append, not_or]
    cases he : w.db.exec? i with
    | none =>
      obtain ⟨_, _, _, _, -, -, -, hm, -⟩ := hst.commit.new he he'
      rw [hm.fresh.status] at hs'; cases hs'
    | some e =>
      -- Another row charged to the same token would be this one, which stays `dispatching`.
      have hother : e.runToken = some t → t ∉ charges (w, l, w') := fun htok hmem => by
        obtain ⟨k, x, x', hx, hx', hxt, -, hxs'⟩ := hnew t hmem
        obtain rfl := hinv.tokens i k e x t he hx htok hxt
        exact hxs' (Option.some.inj (he'.symm.trans hx') ▸ hs')
      rcases hst.commit.moved he he' with rfl | hm
      · exact ⟨h.open_ i _ t he hs' ht', hother ht'⟩
      · rcases hm.dispatching hs' with ⟨hs, htok, -⟩ | ⟨t', hmint, htok⟩
        · rw [htok] at ht'
          exact ⟨h.open_ i e t he hs ht', hother ht'⟩
        · obtain rfl := Option.some.inj (ht'.symm.trans htok)
          have hfresh := hst.fresh t hmint
          refine ⟨fun hmem => hfresh (h.issued t hmem), fun hmem => ?_⟩
          obtain ⟨k, x, -, hx, -, hxt, -⟩ := hnew t hmem
          exact hfresh (hinv.issued k x t hx hxt)

theorem ChargeInv.run {u : Utc} {tr : History} {w : World} (hr : Sys.Run (Step env) (World.init u) tr w) :
    ChargeInv tr w := by
  refine Sys.Run.history (J := ChargeInv) ⟨List.nodup_nil, fun t ht => ?_, fun i e t he => ?_⟩ ?_ hr
  · cases ht
  · cases he
  · exact fun tr w l w' hr h hst => h.step (HolderInv.run hr) hst

/-- **The attempt budget.**  No row is over its budget, one that can still be run is under it, attempts are only ever
charged one at a time to the token that holds the row, and no token is charged twice. -/
theorem attempt_budget {u : Utc} {tr : History} {w : World} (hr : Sys.Run (Step env) (World.init u) tr w) :
    (∀ i e, w.db.exec? i = some e → e.attemptNo ≤ e.maxAttempts ∧
      (e.status = .ready ∨ e.status = .dispatching → e.attemptNo < e.maxAttempts)) ∧
    (∀ x ∈ tr, ∀ i e e', x.1.db.exec? i = some e → x.2.2.db.exec? i = some e' → e'.attemptNo = e.attemptNo ∨
      (e'.attemptNo = e.attemptNo + 1 ∧ ∃ t ∈ charges x, e.runToken = some t)) ∧
    (tr.flatMap charges).Nodup := by
  refine ⟨fun i e he => ?_, ?_, (ChargeInv.run hr).nodup⟩
  · exact rows_invariant (P := ExecRow.InBudget) (fun h => h.inBudget) (fun h hb => h.inBudget hb) hr he
  · rintro ⟨w₀, l, w₁⟩ hx i e e' he he'
    obtain ⟨pre, -, hpre, hst⟩ := hr.mem_step hx
    rcases hst.charge he he' with heq | ⟨heq, hs, -⟩
    · exact Or.inl heq
    · obtain ⟨s, -, hes⟩ := (HolderInv.run hpre).held i e he (by rw [hs]; rfl)
      obtain ⟨t, ht⟩ := Option.ne_none_iff_exists'.1 hes.some_
      have he' : w₁.db.exec? i = some e' := he'
      exact Or.inr ⟨heq, t, mem_charges.2 ⟨i, e, e', he, he', by omega, ht⟩, ht⟩

theorem attempt_budget_claimed :
    ((((World.init 0).trace bareEnv (claimedPass ++ [(.accept 1 "t1" 1 60, 3)])).flatMap charges).Nodup) ∧
      ((World.init 0).trace bareEnv (claimedPass ++ [(.accept 1 "t1" 1 60, 3)])).flatMap charges = ["t1"] :=
  ⟨(attempt_budget (World.run_play bareEnv (claimedPass ++ [(.accept 1 "t1" 1 60, 3)]) (World.init 0)
    (by decide +kernel))).2.2, by decide +kernel⟩

end GoJob
