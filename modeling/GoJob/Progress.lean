import GoJob.Budget
import GoJob.Dispatch
import GoJob.Drain
import GoJob.Endings
import GoJob.Expiry
import GoJob.Failures
/-!
# Progress — recovery alone ends every run

Nothing an executor does is needed for an execution to end.  One that is held is taken back once the lease of its job is
over, and one that waits is claimed once its job is free.  Being taken back costs a recovery, so an execution that is
claimed and taken back, and nothing else, has ended after as many rounds as it had recoveries left.
-/
namespace GoJob

open Rel Tx Sys

variable {env : Env} {c : Ctx} {w w' : World} {i : Nat} {e : ExecRow} {s : StateRow} {d : DefinitionRow}

/-! ## Taking back -/

/-- **`Resolve` goes through on a row whose lease is over.** -/
theorem HeldRow.resolve_run {t : String} {delay : Instant} (h : HeldRow w e s d t)
    (hdelay : d.toDefinition.delay = .ok delay) (hb : c.busy e.jobName = false)
    (hl : past s.leaseUntil (c.utc 2) = true) (z : Utc) (b : Int) :
    ∃ r db', resolve c (e.toStale z) b w.db = .ok (r, db') := by
  have hnever : FailsOnly (fun _ => False) (resolve c (e.toStale z) b) w.db := by
    refine h.located z hb (.ite (fun hn => ?_) fun _ => .ite (fun hn => ?_) fun _ => ?_)
    · exact absurd hn (by simp [Stale.still, ExecRow.toStale])
    · exact Bool.noConfusion (hn.symm.trans (Status.not_terminal_of_held h.held))
    · refine ending_failsOnly (k := (e.toStale z).holder)
        (mustState_run h.state (Bool.and_eq_true_iff.2 ⟨h.lock_owned z, hl⟩)) h.defn h.exec
        (Bool.and_eq_true_iff.2 ⟨h.held, h.owned z⟩) fun db' hd => ?_
      refine (settlePollClock_failsOnly hd fun err herr => ?_).seq fun _ _ _ => .returns _
      rw [hdelay] at herr
      cases herr
  cases hx : resolve c (e.toStale z) b w.db with
  | error err => exact (hnever err hx).elim
  | ok r => exact ⟨r.1, r.2, rfl⟩

/-- What taking an execution back leaves: its job is free, and it has ended or waits with a recovery less. -/
structure TakenBack (w : World) (i : Nat) (e : ExecRow) (w' : World) : Prop where
  defs   : ∀ j, w'.db.def? j = w.db.def? j
  others : ∀ k, k ≠ i → w'.db.exec? k = w.db.exec? k
  lock   : ∃ s s', w.db.state? e.jobName = some s ∧ w'.db.state? e.jobName = some s' ∧ s'.activeKind = none ∧
    s'.opsPaused = s.opsPaused
  row    : ∃ e', w'.db.exec? i = some e' ∧ e'.jobName = e.jobName ∧ (e'.status.terminal = true ∨ e'.status = .ready ∧
    e'.maxRecoveries = e.maxRecoveries ∧ e'.recoveryCount = e.recoveryCount + 1 ∧
    e.recoveryCount + 1 < e.maxRecoveries)

theorem resolvedStatus_cases (v : Stale) :
    (resolvedStatus v).terminal = true ∨ resolvedStatus v = .ready ∧ v.recoveryCount + 1 < v.maxRecoveries := by
  unfold resolvedStatus
  split
  · exact Or.inl rfl
  split
  · exact Or.inl rfl
  split
  · exact Or.inl rfl
  · rename_i hmore
    exact Or.inr ⟨rfl, by omega⟩

/-- **A held execution can be taken back**, once the lease of its job is over. -/
theorem take_back {delay : Instant} (hr : Reachable env w) (he : w.db.exec? i = some e) (hh : e.status.held = true)
    (hd : w.db.def? e.jobName = some d) (hdelay : d.toDefinition.delay = .ok delay) (b : Int) :
    ∃ v T w', Step env w (.resolve v b, Ctx.at_ T) w' ∧ TakenBack w i e w' := by
  obtain ⟨s, d₁, t, hrow⟩ := hr.heldRow he hh
  obtain rfl := Option.some.inj (hd.symm.trans hrow.defn)
  obtain ⟨u, tr, hrun⟩ := hr
  obtain ⟨s₁, l, m, hs₁, hl, -, -⟩ := lock_lease_le hrun he hh
  obtain rfl := Option.some.inj (hs₁.symm.trans hrow.state)
  -- Both the clock and the lease allow the call a second after the later of the two.
  let T := max w.utc l + 1
  have hpast : past s₁.leaseUntil T = true := by
    rw [hl]
    exact past_of_lt (Int.lt_add_one_of_le (le_max_right _ _))
  obtain ⟨r, db', hok⟩ := hrow.resolve_run (c := Ctx.at_ T) hdelay rfl hpast w.utc b
  have hst : Step env w (.resolve (e.toStale w.utc) b, Ctx.at_ T) (w.call env (.resolve (e.toStale w.utc) b) T) :=
    World.step_call env (le_trans (le_max_left _ _) (Int.le_add_one (le_refl _))) rfl
  have hdb : (w.call env (.resolve (e.toStale w.utc) b) T).db = db' := Tx.commit_of_ok (unit_run hok)
  refine ⟨_, T, _, hst, ?_⟩
  have hid : e.id = i := DB.exec?_id he
  cases resolve_closes hok with
  | intro ls lf hq _ hs' he' _ _ hm hp hf _ =>
    cases hq
    obtain rfl := Option.some.inj (hrow.exec.symm.trans he')
    obtain rfl := Option.some.inj (hrow.state.symm.trans hs')
    rw [← hdb] at hf
    refine ⟨hf.defs, fun k hk => ?_, ⟨s₁, _, hrow.state, hf.state?, ?_, ?_⟩, ?_⟩
    · rw [hf.execs]
      exact if_neg fun heq => hk (heq.trans hid)
    · cases hp <;> rfl
    · cases hp <;> rfl
    · cases hm
      refine ⟨_, (congrArg _ hid.symm).trans hf.exec?, rfl, ?_⟩
      exact (resolvedStatus_cases (e.toStale T)).imp_right fun hready => ⟨hready.1, rfl, rfl, hready.2⟩

/-! ## Claiming -/

/-- The execution waits, and nothing keeps its job from running it. -/
structure Claimable (w : World) (i : Nat) (e : ExecRow) (s : StateRow) (d : DefinitionRow) : Prop where
  exec  : w.db.exec? i = some e
  ready : e.status = .ready
  state : w.db.state? e.jobName = some s
  free  : s.activeKind = none
  awake : s.opsPaused = false
  defn  : w.db.def? e.jobName = some d

theorem exists_fresh (issued : List String) : ∃ t, t ∉ issued := by
  obtain ⟨t, ht⟩ := Infinite.exists_notMem_finset issued.toFinset
  exact ⟨t, by simpa using ht⟩

/-- What a claim of a waiting execution leaves: it is held, or its cap had passed and it has ended. -/
structure TakenUp (w : World) (i : Nat) (e : ExecRow) (w' : World) : Prop where
  defs : ∀ j, w'.db.def? j = w.db.def? j
  lock : ∃ s', w'.db.state? e.jobName = some s' ∧ s'.opsPaused = false
  row  : ∃ e', w'.db.exec? i = some e' ∧ e'.jobName = e.jobName ∧ (e'.status.terminal = true ∨
    e'.status.held = true ∧ e'.maxRecoveries = e.maxRecoveries ∧ e'.recoveryCount = e.recoveryCount)

/-- The claim of a row as a scan lists it. -/
def scanned (i : Nat) (e : ExecRow) (t : String) : ClaimParams := ⟨i, e.jobName, e.executionKey, "", "", t, 0⟩

theorem Reachable.inBudget (hr : Reachable env w) (he : w.db.exec? i = some e) : e.InBudget := by
  obtain ⟨u, tr, hr⟩ := hr
  exact rows_invariant (P := ExecRow.InBudget) (fun h => h.inBudget) (fun h hb => h.inBudget hb) hr he

section claiming

variable {run : Runnable} (h : Claimable w i e s d) (hrun : run w.db d.toDefinition s = .ok ())
include h hrun

/-- **`Claim` goes through on a row that waits**: it takes the row up, or ends it for its cap. -/
theorem Claimable.claim_run {p : ClaimParams} (hp : p.candidate = ⟨i, e.jobName, e.executionKey⟩)
    (hbudget : e.attemptNo < e.maxAttempts) (hb : c.busy e.jobName = false) :
    ∃ x db', claim c p run w.db = .ok (x, db') ∧
      (past e.timeoutAt (c.utc 2) = true ∧ db' = w.db.setExec i (expireWrite c) ∨
        past e.timeoutAt (c.utc 2) = false ∧ x.outcome = .acquired ∧
          ∃ n l m, db' = (w.db.setState e.jobName (acquireWrite p n l (c.utc 3))).setExec i
            (dispatchWrite p n l m (c.utc 4))) := by
  obtain ⟨rfl, hj, hk⟩ : p.executionId = i ∧ p.jobName = e.jobName ∧ p.executionKey = e.executionKey := by
    simpa [ClaimParams.candidate] using hp
  have hid : ¬ ((e.toStale (c.utc 2)).jobName ≠ p.jobName ∨ (e.toStale (c.utc 2)).executionKey ≠ p.executionKey) := by
    simp [ExecRow.toStale, hj, hk]
  have hs : w.db.state? p.jobName = some s := hj ▸ h.state
  rw [← hj] at hb
  unfold claim
  rw [bind_of_ok (lockState_run hs hb), bind_of_ok (readDefinition_run (hj ▸ h.defn)),
    bind_of_ok (lockExecution_run h.exec), if_neg hid]
  cases hcap : past e.timeoutAt (c.utc 2) with
  | true =>
    rw [if_pos (show (e.toStale (c.utc 2)).timeoutExpired = true from hcap)]
    unfold expireReadyExecution
    rw [bind_of_ok (mustExec_run h.exec (by simp [h.ready]))]
    exact ⟨_, _, rfl, Or.inl ⟨rfl, rfl⟩⟩
  | false =>
    rw [if_neg (show ¬ (e.toStale (c.utc 2)).timeoutExpired = true from
      fun ht => Bool.noConfusion (hcap.symm.trans ht)), if_neg (by simp [h.awake]), bind_of_ok (get_run w.db)]
    simp only [hrun]
    rw [if_neg (by simp [StateRow.held, h.free])]
    unfold acquire
    rw [bind_of_ok (mustState_run hs (by simp [h.awake, h.free])),
      bind_of_ok (mustExec_run (show (w.db.setState p.jobName _).exec? _ = some e from h.exec)
        (by simp [h.ready, hbudget, hj]))]
    exact ⟨_, _, rfl, Or.inr ⟨trivial, rfl, _, _, _, congrArg (fun j => (w.db.setState j _).setExec _ _) hj⟩⟩

/-- **A waiting execution can be claimed.** -/
theorem take_up (hr : Reachable env w) :
    ∃ p w', Step env w (.claim p run, Ctx.at_ w.utc) w' ∧ TakenUp w i e w' := by
  obtain ⟨t, ht⟩ := exists_fresh w.issued
  have hst : Step env w (.claim (scanned i e t) run, Ctx.at_ w.utc) (w.call env (.claim (scanned i e t) run) w.utc) :=
    World.step_call env (le_refl _) (by simpa [Action.mints, scanned] using ht)
  obtain ⟨r, db', hok, hdb'⟩ := h.claim_run hrun (p := scanned i e t) rfl ((hr.inBudget h.exec).2 (Or.inl h.ready))
    (c := Ctx.at_ w.utc) rfl
  have hdb : (w.call env (.claim (scanned i e t) run) w.utc).db = db' := Tx.commit_of_ok (unit_run hok)
  refine ⟨_, _, hst, ?_⟩
  rcases hdb' with ⟨-, rfl⟩ | ⟨-, -, n, l, m, rfl⟩
  · refine ⟨fun j => ?_, ⟨s, ?_, h.awake⟩, ⟨(expireWrite (Ctx.at_ w.utc)).run e, ?_, rfl, Or.inl rfl⟩⟩
    · simp [hdb]
    · simp [hdb, h.state]
    · simp [hdb, h.exec]
  · refine ⟨fun j => ?_, ⟨(acquireWrite (scanned i e t) n l w.utc).run s, ?_, h.awake⟩,
      ⟨(dispatchWrite (scanned i e t) n l m w.utc).run e, ?_, rfl, Or.inr ⟨rfl, rfl, rfl⟩⟩⟩
    · simp [hdb]
    · simp [hdb, h.state, Ctx.at_]
    · simp [hdb, h.exec, Ctx.at_]

end claiming

/-! ## To the end -/

/-- What a scheduler does with no executor answering it: it claims, and it takes back what it claimed. -/
inductive Recovers (run : Runnable) (b : Int) : Action → Prop
  | claim (p : ClaimParams) : Recovers run b (.claim p run)
  | resolve (v : Stale) : Recovers run b (.resolve v b)

/-- Claiming and taking back alone can end the execution, in `n` transactions. -/
def EndsWithin (env : Env) (run : Runnable) (b : Int) (n : Nat) (w : World) (i : Nat) : Prop :=
  ∃ tr w' e', Run (Step env) w tr w' ∧ tr.length ≤ n ∧ (∀ x ∈ tr, Recovers run b x.2.1.1) ∧
    w'.db.exec? i = some e' ∧ e'.status.terminal = true

section ends

variable {run : Runnable} {b : Int} {n : Nat}

theorem EndsWithin.ended (he : w.db.exec? i = some e) (ht : e.status.terminal = true) : EndsWithin env run b n w i :=
  ⟨[], w, e, .nil, Nat.zero_le n, fun _ hx => absurd hx (List.not_mem_nil), he, ht⟩

theorem EndsWithin.step {a : Action} (hst : Step env w (a, c) w') (ha : Recovers run b a)
    (h : EndsWithin env run b n w' i) : EndsWithin env run b (n + 1) w i := by
  obtain ⟨tr, w₁, e₁, hr, hn, htr, he, ht⟩ := h
  refine ⟨[(w, (a, c), w')] ++ tr, w₁, e₁, (Run.single hst).append hr, ?_, fun x hx => ?_, he, ht⟩
  · simpa [Nat.add_comm] using hn
  · rcases List.mem_append.1 hx with hx | hx
    · rw [List.mem_singleton.1 hx]
      exact ha
    · exact htr x hx

theorem EndsWithin.mono {m : Nat} (h : EndsWithin env run b n w i) (hnm : n ≤ m) : EndsWithin env run b m w i := by
  obtain ⟨tr, w₁, e₁, hr, hn, h⟩ := h
  exact ⟨tr, w₁, e₁, hr, hn.trans hnm, h⟩

theorem TakenBack.waits (h : TakenBack w i e w') {s₀ : StateRow} (hs : w.db.state? e.jobName = some s₀)
    (hp : s₀.opsPaused = false) (hd : w.db.def? e.jobName = some d) {k : Nat} {x : ExecRow}
    (hx : w'.db.exec? k = some x) (hready : x.status = .ready) (hj : x.jobName = e.jobName) :
    ∃ s', Claimable w' k x s' d := by
  obtain ⟨s₁, s', hs₁, hs', hfree, hpause⟩ := h.lock
  obtain rfl := Option.some.inj (hs.symm.trans hs₁)
  exact ⟨s', hx, hready, hj ▸ hs', hfree, hpause.trans hp, by rw [hj, h.defs, hd]⟩

/-- The execution is not over, and its job is neither paused nor gone. -/
structure Unpaused (w : World) (i : Nat) (e : ExecRow) (d : DefinitionRow) : Prop where
  exec  : w.db.exec? i = some e
  awake : ∃ s, w.db.state? e.jobName = some s ∧ s.opsPaused = false
  defn  : w.db.def? e.jobName = some d

variable {delay : Instant} (hrun : ∀ db s, run db d.toDefinition s = .ok ()) (hdelay : d.toDefinition.delay = .ok delay)
include hrun hdelay

/-- **A round costs a recovery**: the induction is on the recoveries an execution has left, and every time it comes back
to waiting it has one less. -/
theorem ends_by_rounds (n : Nat) : ∀ (w : World) (e : ExecRow), Reachable env w → Unpaused w i e d →
    e.maxRecoveries - e.recoveryCount ≤ n →
      (e.status.held = true → EndsWithin env run b (2 * n + 1) w i) ∧
      (∀ s, Claimable w i e s d → EndsWithin env run b (2 * n + 2) w i) := by
  induction n using Nat.strong_induction_on with
  | _ n ih =>
    have held : ∀ {w : World} {e : ExecRow}, Reachable env w → Unpaused w i e d →
        e.maxRecoveries - e.recoveryCount ≤ n → e.status.held = true → EndsWithin env run b (2 * n + 1) w i := by
      intro w e hr hu hn hh
      obtain ⟨v, T, w', hst, hback⟩ := take_back hr hu.exec hh hu.defn hdelay b
      obtain ⟨s, hs, hp⟩ := hu.awake
      refine .step hst (.resolve v) ?_
      obtain ⟨e', he', hj, ht | ⟨hready, hm, hc, hmore⟩⟩ := hback.row
      · exact .ended he' ht
      · obtain ⟨s', hw⟩ := hback.waits hs hp hu.defn he' hready hj
        have hlt : n - 1 < n := by omega
        have hu' : Unpaused w' i e' d := ⟨he', ⟨s', hw.state, hw.awake⟩, hw.defn⟩
        exact ((ih (n - 1) hlt w' e' (hr.step hst) hu' (by omega)).2 s' hw).mono (by omega)
    intro w e hr hu hn
    refine ⟨held hr hu hn, fun s hw => ?_⟩
    obtain ⟨p, w', hst, hup⟩ := take_up hw (hrun _ _) hr
    refine .step hst (.claim p) ?_
    obtain ⟨e', he', hj, ht | ⟨hh, hm, hc⟩⟩ := hup.row
    · exact .ended he' ht
    · have hu' : Unpaused w' i e' d := ⟨he', hj ▸ hup.lock, by rw [hj, hup.defs, hu.defn]⟩
      exact held (hr.step hst) hu' (by omega) hh

/-- An execution whose job another one holds waits until that one has been taken back. -/
theorem Unpaused.ends (hr : Reachable env w) (hu : Unpaused w i e d) :
    EndsWithin env run b (2 * (e.maxRecoveries - e.recoveryCount) + 3) w i := by
  cases ht : e.status.terminal with
  | true => exact .ended hu.exec ht
  | false =>
    rcases Status.open_cases ht with hh | hready
    · exact ((ends_by_rounds hrun hdelay _ w e hr hu (le_refl _)).1 hh).mono (by omega)
    · obtain ⟨s, hs, hp⟩ := hu.awake
      by_cases hfree : s.activeKind = none
      · have hw : Claimable w i e s d := ⟨hu.exec, hready, hs, hfree, hp, hu.defn⟩
        exact ((ends_by_rounds hrun hdelay _ w e hr hu (le_refl _)).2 s hw).mono (by omega)
      · obtain ⟨u, tr, hreach⟩ := id hr
        obtain ⟨k, x, hx, hj, hh⟩ := (HolderInv.run hreach).lock _ s hs hfree
        have hd : w.db.def? x.jobName = some d := hj.symm ▸ hu.defn
        obtain ⟨v, T, w', hst, hback⟩ := take_back hr hx hh hd hdelay b
        have hne : i ≠ k := by
          rintro rfl
          obtain rfl := Option.some.inj (hu.exec.symm.trans hx)
          rw [hready] at hh
          cases hh
        have he' : w'.db.exec? i = some e := (hback.others i hne).trans hu.exec
        obtain ⟨s', hw⟩ := hback.waits (hj.symm ▸ hs) hp hd he' hready hj.symm
        have hu' : Unpaused w' i e d := ⟨he', ⟨s', hw.state, hw.awake⟩, hw.defn⟩
        refine .step hst (.resolve v) ?_
        exact (ends_by_rounds hrun hdelay _ w' e (hr.step hst) hu' (le_refl _)).2 s' hw

end ends

/-- **Recovery alone ends every run.**  Whatever state the schema is in, an execution of a job that is enabled and not
paused, for a handler some executor declares, can be brought to an end by claiming and taking back alone, whether or not
any executor ever answers; it takes two transactions for each recovery the execution has left, and at most three
more. -/
theorem recovery_alone_ends_it (hr : Reachable env w) (he : w.db.exec? i = some e)
    (hs : w.db.state? e.jobName = some s) (hp : s.opsPaused = false) (hd : w.db.def? e.jobName = some d)
    (hen : d.enabled = true) (hret : d.retired = false) {delay : Instant} (hdelay : d.toDefinition.delay = .ok delay)
    {liveness : Int} {g : Registrations} (hg : g.handlerIsServed d.toDefinition liveness = true)
    {targets : List Executor} (ht : targets ≠ []) (b : Int) :
    ∃ tr w' e', Run (Step env) w tr w' ∧ tr.length ≤ 2 * (e.maxRecoveries - e.recoveryCount) + 3 ∧
      (∀ x ∈ tr, Recovers (runnableFor liveness (.ok g) targets) b x.2.1.1) ∧
      w'.db.exec? i = some e' ∧ e'.status.terminal = true := by
  refine Unpaused.ends (fun _ _ => ?_) hdelay hr ⟨he, ⟨s, hs, hp⟩, hd⟩
  simp [runnableFor, hen, hret, hg, ht]

/-- An executor that is never heard from again. -/
def silentExecutor : Executor := ⟨"executor", "", "10.0.0.1:9000", 4, 0, ["handler"], 0⟩

theorem recovery_alone_ends_it_claimed : ∃ tr w' e',
    Run (Step bareEnv) ((World.init 0).play bareEnv claimedPass) tr w' ∧ tr.length ≤ 7 ∧
      (∀ x ∈ tr, Recovers (runnableFor 30 (.ok ⟨[silentExecutor], 2⟩) [silentExecutor]) 5 x.2.1.1) ∧
      w'.db.exec? 1 = some e' ∧ e'.status.terminal = true := by
  have hrows : ∃ e s d, ((World.init 0).play bareEnv claimedPass).db.exec? 1 = some e ∧
      ((World.init 0).play bareEnv claimedPass).db.state? e.jobName = some s ∧
      ((World.init 0).play bareEnv claimedPass).db.def? e.jobName = some d ∧ s.opsPaused = false ∧ d.enabled = true ∧
      d.retired = false ∧ d.toDefinition.delay = .ok second ∧
      (⟨[silentExecutor], 2⟩ : Registrations).handlerIsServed d.toDefinition 30 = true ∧
      2 * (e.maxRecoveries - e.recoveryCount) + 3 = 7 :=
    ⟨_, _, _, rfl, rfl, rfl, rfl, rfl, rfl, by decide +kernel, by decide +kernel, rfl⟩
  obtain ⟨e, s, d, he, hs, hd, hp, hen, hret, hdelay, hg, hn⟩ := hrows
  rw [← hn]
  exact recovery_alone_ends_it (reachable_play bareEnv 0 claimedPass (by decide)) he hs hp hd hen hret hdelay hg
    (List.cons_ne_nil _ _) 5

end GoJob
