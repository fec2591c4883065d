import GoJob.Drain
import GoJob.Expiry
/-!
# Swept — what a retirement leaves held (`ReleaseOwnedWork`)

The release ends what this instance owns and the sweep settles what nobody renews.  The release goes first, and it has
to end every row of its own before the sweep gets its turn: a row it may not end, because a handler runs for it or
because its lease is over, is read again with every page and keeps the sweep from being reached.
-/
namespace GoJob
namespace Drain

open Rel Tx Sys Dialog

variable {env : Env} {cfg : Config} {w s s' : World} {xs : List Said} {T : Utc} {e : ExecRow} {z : Utc} {v : Stale}

/-! ## One row -/

/-- Time passes, and of the rows at most `i` changes. -/
structure Touches (env : Env) (i : Nat) (s s' : World) : Prop where
  clock : s.utc ≤ s'.utc
  reach : Reachable env s → Reachable env s'
  rows  : ∀ k, k ≠ i → s'.db.exec? k = s.db.exec? k

theorem Touches.of_waits (h : s.Waits s') (i : Nat) : Touches env i s s' :=
  ⟨h.clock, fun hr => hr.waits h, fun k _ => by rw [h.db]⟩

section calls

variable {free : Ctx → Prop} {a : Action} {r : Except Err Unit} {c : Ctx} {k : Holder}

theorem Calls.touches_of_error (h : Calls env free s a r c s') {err : Err} (hr : r = .error err) (i : Nat) :
    Touches env i s s' :=
  ⟨h.step.utc_le, fun hr => hr.step h.step, fun _ _ => by rw [h.step.db_of_error (h.answer.symm.trans hr)]⟩

/-- A call that ends an attempt leaves the other rows alone. -/
theorem Calls.touches (h : Calls env free s a r c s') (ha : a.ending = some k) : Touches env k.executionId s s' := by
  cases hr : r with
  | error err => exact h.touches_of_error hr _
  | ok u =>
    obtain ⟨e', -, hrows⟩ := h.step.ending_rows ha (h.answer.symm.trans hr)
    exact ⟨h.step.utc_le, fun hr => hr.step h.step, fun i hi => by rw [hrows, if_neg hi]⟩

/-- So does an adoption. -/
theorem Calls.adopt_touches {o : String} {l sil : Int} {promote : Bool}
    (h : Calls env free s (.adopt v o l sil promote) r c s') : Touches env v.id s s' := by
  cases hr : r with
  | error err => exact h.touches_of_error hr _
  | ok u =>
    obtain ⟨_, hok⟩ := unit_ok (h.step.tx_ok (h.answer.symm.trans hr))
    obtain ⟨_, _, _, _, _, _, _, _, _, _, hf⟩ := adopt_ok hok
    exact ⟨h.step.utc_le, fun hr => hr.step h.step, fun i hi => by rw [hf.execs, if_neg hi]⟩

end calls

/-! ## What a row's thread may touch -/

/-- A call that can change no row but `i`. -/
def Touching (i : Nat) (a : Action) : Prop :=
  (∃ k, a.ending = some k ∧ k.executionId = i) ∨ ∃ v o l sil p, a = .adopt v o l sil p ∧ v.id = i

theorem Serves.touches {inst : String} {free : Ctx → Prop} {q : Ask} {r : q.Answer} {i : Nat}
    (h : Serves env inst free s q r s') (hq : ∀ a, q = .call a → Touching i a) : Touches env i s s' := by
  cases q with
  | call a =>
    obtain ⟨c, hc⟩ := h
    rcases hq a rfl with ⟨k, ha, rfl⟩ | ⟨v, o, l, sil, p, rfl, rfl⟩
    · exact hc.touches ha
    · exact hc.adopt_touches
  | owned n => exact .of_waits h.1 i
  | stale n => exact .of_waits h.1 i
  | definition j => exact .of_waits h.1 i
  | _ => exact .of_waits h i

theorem recoverOne_touches (adopt : Bool) (v : Stale) : CallsOnly (Touching v.id) (recoverOne cfg adopt v) :=
  recoverOne_calls (fun _ _ => Or.inr ⟨_, _, _, _, _, rfl, rfl⟩) (Or.inl ⟨v.holder, rfl, rfl⟩)
    (fun _ => Or.inl ⟨v.holder, rfl, rfl⟩) fun oc x b => Or.inl ⟨_, apply_ending _ oc x b, rfl⟩

theorem releaseOne_touches (v : Stale) : CallsOnly (Touching v.id) (releaseOne cfg v) :=
  releaseOne_calls (Or.inl ⟨_, rfl, rfl⟩) fun oc x b => Or.inl ⟨_, apply_ending _ oc x b, rfl⟩

/-! ## The circumstances of a call -/

/-- No state row is locked by another transaction. -/
def Unlocked (c : Ctx) : Prop := ∀ j, c.busy j = false

/-- Nobody else acts. -/
def Nobody (_ : World) (_ : Empty) (_ : World) : Prop := False

theorem stable_nobody {I : World → Prop} : Stable Nobody I := fun _ l => l.elim

theorem returns {ρ : Type} {sem : World → (q : Ask) → q.Answer → World → Prop} {A : ρ → World → Prop} {r : ρ} :
    Triple sem Nobody (A r) (pure r : Thread ρ) A := .done (fun _ h => h) stable_nobody

/-- What the executor of row `e` answered when it was asked about it. -/
def Answered (xs : List Said) (e : ExecRow) (r : Reconciliation) : Prop :=
  Told (· ∈ xs) (e.dispatchedTo.getD "") e.executionKey r

/-- It answered that a handler runs. -/
def StillRunning (xs : List Said) (e : ExecRow) : Prop := ∃ r, Answered xs e r ∧ r.running = true

/-- **Nothing gets in the way of the call**: the fence stays valid, and no cap elapses before it returns at `T`. -/
structure Calm (w : World) (xs : List Said) (T : Utc) : Prop where
  fence : ∀ s a s', (⟨s, .renewing, a, s'⟩ : Said) ∈ xs → a = true
  clock : ∀ x ∈ xs, x.after.utc ≤ T
  caps  : ∀ i e, w.db.exec? i = some e → e.status.held = true → past e.timeoutAt T = true →
    past e.timeoutAt w.utc = true

/-- How the thread is answered. -/
abbrev Answers (env : Env) (cfg : Config) (xs : List Said) := Sem env cfg.instanceId Unlocked (· ∈ xs)

theorem mayRecover_true (hcalm : Calm w xs T) {I : World → Prop} (hI : Idle Nobody I) :
    Triple (Answers env cfg xs) Nobody I (mayRecover false) (fun ok s => I s ∧ ok = true) := by
  show Triple _ _ _ (query .renewing >>= pure) _
  exact .ask stable_nobody (fun s ok s' h hq => ⟨hI.waits s s' h hq.1, hcalm.fence s ok s' hq.2⟩) fun ok => returns

/-! ## One row, through -/

/-- Row `e` is held and as it was read, not before `z`. -/
structure AsRead (env : Env) (e : ExecRow) (z : Utc) (s : World) : Prop where
  reach : Reachable env s
  clock : z ≤ s.utc
  row   : s.db.exec? e.id = some e
  held  : e.status.held = true

theorem AsRead.idle : Idle Nobody (AsRead env e z) :=
  ⟨fun _ _ h hw => ⟨h.reach.waits hw, le_trans h.clock hw.clock, by rw [hw.db]; exact h.row, h.held⟩, stable_nobody⟩

section row

variable {z' : Utc}

theorem applyOutcome_gone (hclock : ∀ x ∈ xs, x.after.utc ≤ T) (k : Holder) (oc : ExecutionOutcome) (x : String) :
    Triple (Answers env cfg xs) Nobody (MayReport env k T) (applyOutcome k oc x) (fun _ => Gone k.executionId) := by
  refine .ask stable_nobody (fun s _ s' h hq => h.waits hq.1) fun b => ?_
  refine .ask stable_nobody (fun s r s' h hq => ?_) fun _ => returns
  obtain ⟨⟨c, hc⟩, hmem⟩ := hq
  exact hc.apply_ends h (hclock _ hmem)

theorem fenceTimedOut_gone : Triple (Answers env cfg xs) Nobody (AsRead env e z) (fenceTimedOut (e.toStale z'))
    (fun _ => Gone e.id) := by
  refine (requestStop_idle AsRead.idle _ _).seq fun _ => .ask stable_nobody (fun s r s' h hq => ?_) fun _ => returns
  obtain ⟨⟨c, hc⟩, -⟩ := hq
  obtain ⟨_, _, _, hrow⟩ := h.reach.heldRow h.row h.held
  exact (hc.ends (k := (e.toStale z').holder) rfl (hrow.fenceTimedOut_plain (hc.free _))).2

/-! ### The owner's release -/

/-- The row can be ended by its owner, whatever its executor answers. -/
def Releasable (xs : List Said) (T : Utc) (e : ExecRow) : Prop := ∀ r, Answered xs e r → r.running = false ∧
  if (r.about (e.runToken.getD "")).result.isSome then past e.timeoutAt T = false else live e.leaseUntil T = true

theorem live_earlier {col : Option Utc} {u v : Utc} (h : live col v = true) (hle : u ≤ v) : live col u = true := by
  obtain ⟨l, rfl, hl⟩ := (Option.any_eq_true _ _).1 h
  have hl : v ≤ l := by simpa using hl
  simpa [live] using le_trans hle hl

theorem askExecutor_answered : Triple (Answers env cfg xs) Nobody (AsRead env e z) (askExecutor (e.toStale z'))
    (fun r s => AsRead env e z s ∧ ∃ a, Answered xs e a ∧ r = a.about (e.runToken.getD "")) :=
  (reconcile_idle AsRead.idle (e.toStale z')).seq fun r => .done (fun _ h => ⟨h.1, r, h.2, rfl⟩) stable_nobody

theorem releaseOne_gone (hclock : ∀ x ∈ xs, x.after.utc ≤ T) (hrel : Releasable xs T e) :
    Triple (Answers env cfg xs) Nobody (AsRead env e z) (releaseOne cfg (e.toStale z'))
      (fun r s => Gone e.id s ∧ r = (true, false)) := by
  refine (requestStop_idle AsRead.idle _ _).seq fun _ => askExecutor_answered.seq fun r => .given ?_
  rintro ⟨a, ha, rfl⟩
  obtain ⟨hrun, hend⟩ := hrel a ha
  rw [Reconciliation.running_about, if_neg (by simp [hrun])]
  cases hres : (a.about (e.runToken.getD "")).result with
  | some oc =>
    rw [hres] at hend
    refine Triple.mono (B := MayReport env { (e.toStale z').holder with owner := cfg.instanceId } T)
      ((applyOutcome_gone hclock _ oc _).seq fun _ => .done (fun _ h => ⟨h, rfl⟩) stable_nobody) (fun s hs => ?_)
      fun _ _ h => h
    obtain ⟨_, _, t, hrow⟩ := hs.reach.heldRow hs.row hs.held
    exact ⟨hs.reach, e, hs.row, rfl, hs.held, (ExecRow.owned_iff.1 (hrow.owned z')).1, rfl, hend⟩
  | none =>
    rw [hres] at hend
    refine .ask (m := fun r s => Gone e.id s ∧ r = .ok ()) stable_nobody (fun s r s' h hq => ?_) fun r => .given ?_
    · obtain ⟨⟨c, hc⟩, hmem⟩ := hq
      obtain ⟨_, _, _, hrow⟩ := h.reach.heldRow h.row h.held
      refine (hc.ends (k := { (e.toStale z').holder with owner := cfg.instanceId }) rfl (unit_failsOnly ?_)).symm
      exact hrow.releaseAsOwner_plain (hc.free _) (live_earlier hend (le_trans (hc.step.after 1) (hclock _ hmem))) _
    · rintro rfl
      exact .done (fun _ h => ⟨h, rfl⟩) stable_nobody

/-! ### The sweep -/

/-- The row's lease is over for its job too. -/
theorem AsRead.lock_past (h : AsRead env e z s) (hexp : past e.leaseUntil z = true) {c : Ctx} (hc : s.utc ≤ c.utc 0)
    {x : StateRow} (hx : s.db.state? e.jobName = some x) : past x.leaseUntil (c.utc 2) = true := by
  obtain ⟨_, _, hr⟩ := h.reach
  exact lock_expired (locksFirst_run hr) hc h.row h.held hx (past_later hexp h.clock)

variable (hcalm : Calm w xs T) (hw : w.db.exec? e.id = some e) (hz : w.utc ≤ z) (hexp : past e.leaseUntil z = true)

include hcalm hw hz hexp

/-- An adopted row may report, unless its cap was over. -/
theorem Calls.adopt_reports {c : Ctx} {r : Except Err Unit} {l sil : Int} {o : String} (hs : AsRead env e z s)
    (h : Calls env Unlocked s (.adopt (e.toStale z') o l sil false) r c s') :
    (MayReport env { (e.toStale z').holder with owner := o, fenceEpoch := e.fenceEpoch + 1 } T s' ∧ r = .ok ()) ∨
      (AsRead env e z s' ∧ ∃ err, r = .error err ∧ err.kind = .capElapsed) := by
  obtain ⟨x, _, t, hrow⟩ := hs.reach.heldRow hs.row hs.held
  have hlock := hs.lock_past hexp h.step.before hrow.state
  have hreach := hs.reach.step h.step
  cases hr : r with
  | error err =>
    have hans := h.answer.symm.trans hr
    have hcap := unit_failsOnly (hrow.adopt_capped (h.free _) hlock _ _ _ _) err (answer_error hans)
    refine Or.inr ⟨⟨hreach, le_trans hs.clock h.step.utc_le, ?_, hs.held⟩, err, rfl, hcap⟩
    rw [h.step.db_of_error hans]
    exact hs.row
  | ok u =>
    obtain ⟨_, hok⟩ := unit_ok (h.step.tx_ok (h.answer.symm.trans hr))
    obtain ⟨-, _, e₁, -, he₁, -, -, -, -, hcap, hf⟩ := adopt_ok hok
    obtain rfl : e₁ = e := Option.some.inj (he₁.symm.trans hs.row)
    -- A cap that is not over now is not over before the call returns.
    have hT : past e₁.timeoutAt T = false := by
      by_contra hpast
      rw [Bool.not_eq_false] at hpast
      rw [past_later (hcalm.caps _ _ hw hs.held hpast) (le_trans hz (le_trans hs.clock (h.step.le_utc 1)))] at hcap
      cases hcap
    have hnew := (hf.execs e₁.id).trans (if_pos rfl)
    refine Or.inl ⟨⟨hreach, _, hnew, rfl, ?_, (ExecRow.owned_iff.1 (hrow.owned z')).1, rfl, hT⟩, rfl⟩
    simpa [adoptWrite] using hs.held

/-- What became of row `e`: it was settled, or a handler runs for it. -/
def Sweeps (env : Env) (xs : List Said) (e : ExecRow) (z : Utc) (settled : Bool) (s : World) : Prop :=
  if settled then Gone e.id s else AsRead env e z s ∧ StillRunning xs e

theorem adoptResult_gone (oc : ExecutionOutcome) :
    Triple (Answers env cfg xs) Nobody (AsRead env e z) (adoptResult cfg (e.toStale z') oc) (Sweeps env xs e z) := by
  have hdone : Triple (Answers env cfg xs) Nobody (Gone e.id) (return true) (Sweeps env xs e z) :=
    .done (fun _ h => h) stable_nobody
  refine (leaseSecondsFor_idle AsRead.idle _).seq fun lease => ?_
  refine .ask stable_nobody (fun s r s' h hq => Calls.adopt_reports hcalm hw hz hexp h hq.1.choose_spec) fun r =>
    .or (.given ?_) (.given ?_)
  · rintro rfl
    exact (applyOutcome_gone hcalm.clock _ oc _).seq fun _ => hdone
  · rintro ⟨err, rfl, hcap⟩
    show Triple _ _ _ (if err.kind = .capElapsed then _ else _) _
    rw [if_pos hcap]
    exact fenceTimedOut_gone.seq fun _ => hdone

/-- **The sweep settles a row, or a handler runs for it.** -/
theorem recoverOne_sweeps : Triple (Answers env cfg xs) Nobody (AsRead env e z) (recoverOne cfg false (e.toStale z'))
    (Sweeps env xs e z) := by
  refine (reconcile_idle AsRead.idle (e.toStale z')).seq fun a => .given fun ha => ?_
  have hleft (hrun : a.running = true) : Triple (Answers env cfg xs) Nobody (AsRead env e z) (return false)
      (Sweeps env xs e z) := .done (fun _ h => ⟨h, a, ha, hrun⟩) stable_nobody
  by_cases hother : a.reachable ∧ a.runToken ≠ (e.toStale z').runToken ∧ a.state = .running
  · rw [if_pos hother]
    exact hleft (by simp [Reconciliation.running, hother.1, hother.2.2])
  rw [if_neg hother]
  refine (mayRecover_true hcalm AsRead.idle).seq fun ok => .given ?_
  rintro rfl
  show Triple _ _ _ (settle cfg false (e.toStale z') _) _
  unfold settle
  by_cases hrun : a.running = true
  · rw [Reconciliation.running_about, if_pos hrun]
    exact hleft hrun
  rw [Reconciliation.running_about, if_neg hrun]
  cases (a.about (e.toStale z').runToken).result with
  | some oc => exact adoptResult_gone hcalm hw hz hexp oc
  | none =>
    refine .ask stable_nobody (fun s _ s' h hq => AsRead.idle.waits s s' h hq.1) fun b => ?_
    refine .ask (m := fun r s => Gone e.id s ∧ r = .ok ()) stable_nobody (fun s r s' h hq => ?_) fun r => .given ?_
    · obtain ⟨⟨c, hc⟩, -⟩ := hq
      obtain ⟨x, _, t, hrow⟩ := h.reach.heldRow h.row h.held
      have hlock := h.lock_past hexp hc.step.before hrow.state
      exact (hc.ends (k := (e.toStale z').holder) rfl (unit_failsOnly (hrow.resolve_plain (hc.free _) hlock b))).symm
    · rintro rfl
      exact .done (fun _ h => h) stable_nobody

end row

/-! ## Pages -/

/-- Of the rows of `w`, those in `D` are not held any more and the others are as they were. -/
structure Kept (env : Env) (w : World) (D : Finset Nat) (z : Utc) (s : World) : Prop where
  reach : Reachable env s
  clock : z ≤ s.utc
  rows  : ∀ i ∉ D, s.db.exec? i = w.db.exec? i
  gone  : ∀ i ∈ D, Gone i s

/-- The same of the rows other than `i`. -/
structure Rest (env : Env) (w : World) (D : Finset Nat) (i : Nat) (z : Utc) (s : World) : Prop where
  reach : Reachable env s
  clock : z ≤ s.utc
  rows  : ∀ k ∉ D, k ≠ i → s.db.exec? k = w.db.exec? k
  gone  : ∀ k ∈ D, k ≠ i → Gone k s

section pages

variable {D : Finset Nat} {i : Nat}

theorem Rest.touches (h : Rest env w D i z s) (ht : Touches env i s s') : Rest env w D i z s' := by
  refine ⟨ht.reach h.reach, le_trans h.clock ht.clock, fun k hk hi => ?_, fun k hk hi => ?_⟩
  · rw [ht.rows k hi]
    exact h.rows k hk hi
  · unfold Gone
    rw [ht.rows k hi]
    exact h.gone k hk hi

theorem Rest.settled (h : Rest env w D i z s) (hg : Gone i s) : Kept env w (insert i D) z s := by
  refine ⟨h.reach, h.clock, fun k hk => ?_, fun k hk => ?_⟩
  · rw [Finset.mem_insert, not_or] at hk
    exact h.rows k hk.2 hk.1
  · by_cases hki : k = i
    · rwa [hki]
    · exact h.gone k (Finset.mem_of_mem_insert_of_ne hk hki) hki

theorem Rest.left (h : Rest env w D i z s) (hi : i ∉ D) (hrow : s.db.exec? i = w.db.exec? i) : Kept env w D z s := by
  refine ⟨h.reach, h.clock, fun k hk => ?_, fun k hk => h.gone k hk (fun hki => hi (hki ▸ hk))⟩
  by_cases hki : k = i
  · rwa [hki]
  · exact h.rows k hk hki

namespace Kept

theorem idle : Idle Nobody (Kept env w D z) := by
  refine ⟨fun s s' h hw => ⟨h.reach.waits hw, le_trans h.clock hw.clock, ?_, ?_⟩, stable_nobody⟩
  · rw [hw.db]
    exact h.rows
  · unfold Gone
    rw [hw.db]
    exact h.gone

theorem of_held (h : Kept env w D z s) (he : s.db.exec? i = some e) (hh : e.status.held = true) :
    i ∉ D ∧ w.db.exec? i = some e := by
  have hi : i ∉ D := fun hi => Bool.noConfusion (hh.symm.trans (h.gone i hi e he))
  exact ⟨hi, (h.rows i hi).symm.trans he⟩

theorem heldIds_subset (h : Kept env w D z s) : s.db.heldIds ⊆ w.db.heldIds := by
  intro i hi
  obtain ⟨e, he, hh⟩ := DB.mem_heldIds.1 hi
  exact DB.mem_heldIds.2 ⟨e, (h.of_held he hh).2, hh⟩

/-- **A thread that is about one row** leaves the others as they are. -/
theorem onRow {ρ : Type} {p : Thread ρ} {A : ρ → World → Prop} (hp : CallsOnly (Touching e.id) p)
    (he : w.db.exec? e.id = some e) (hh : e.status.held = true) (hi : e.id ∉ D)
    (h : Triple (Answers env cfg xs) Nobody (AsRead env e z) p A) :
    Triple (Answers env cfg xs) Nobody (Kept env w D z) p fun r s => A r s ∧ Rest env w D e.id z s := by
  have hrest : Triple (Answers env cfg xs) Nobody (Rest env w D e.id z) p fun _ => Rest env w D e.id z :=
    Asks.triple stable_nobody (fun q s a s' hq hs hsem => hs.touches (hsem.1.touches hq)) hp
  refine (h.and hrest).mono (fun s hs => ?_) fun _ _ h => h
  exact ⟨⟨hs.reach, hs.clock, (hs.rows _ hi).trans he, hh⟩, hs.reach, hs.clock, fun k hk _ => hs.rows k hk,
    fun k hk _ => hs.gone k hk⟩

end Kept

/-- What a page read among the rows of `w` shows. -/
structure Page (w : World) (D : Finset Nat) (p : ExecRow → Bool) (limit : Nat) (rows : List ExecRow) : Prop where
  nodup : (rows.map (·.id)).Nodup
  row   : ∀ e ∈ rows, e.id ∉ D ∧ w.db.exec? e.id = some e ∧ e.status.held = true ∧ p e = true
  short : rows.length ≤ limit
  all   : rows.length < limit ∨ w.db.heldIds.card ≤ limit → ∀ e, w.db.exec? e.id = some e → e.status.held = true →
    p e = true → e.id ∉ D → e ∈ rows

theorem Kept.page (h : Kept env w D z s) (p : ExecRow → Bool) (col : ExecRow → Int) (limit : Nat) :
    Page w D p limit (s.db.scan (fun e => e.status.held && p e) col limit) := by
  refine ⟨DB.scan_nodup _ _ _ _, fun e he => ?_, List.length_take_le _ _, fun hroom e he hh hp hi => ?_⟩
  · obtain ⟨hrow, hp⟩ := DB.mem_scan he
    rw [Bool.and_eq_true] at hp
    exact ⟨(h.of_held hrow hp.1).1, (h.of_held hrow hp.1).2, hp.1, hp.2⟩
  · refine DB.mem_scan_of_room (hroom.imp_right fun hcard => ?_) ((h.rows _ hi).trans he) (by rw [hh, hp]; rfl)
    calc (s.db.executions.table.rows.filter (fun e => e.status.held && p e)).length
        ≤ (s.db.executions.table.rows.filter (·.status.held)).length :=
          (List.monotone_filter_right _ fun e he => (Bool.and_eq_true_iff.1 he).1).length_le
      _ = s.db.heldIds.card := (DB.card_heldIds _).symm
      _ ≤ w.db.heldIds.card := Finset.card_le_card h.heldIds_subset
      _ ≤ limit := hcard

/-- A page has been read. -/
def Read (env : Env) (w : World) (D : Finset Nat) (p : Utc → ExecRow → Bool) (limit : Nat) (z : Utc)
    (r : Except Err (List Stale)) (s : World) : Prop :=
  ∃ u, Kept env w D u s ∧ ∃ rows, r = .ok (rows.map (·.toStale u)) ∧ Page w D (p u) limit rows ∧ z ≤ u

theorem Kept.read (h : Kept env w D z s) (hw : s.Waits s') (p : Utc → ExecRow → Bool) (col : ExecRow → Int)
    (limit : Nat) : Read env w D p limit z (.ok (s.db.scanStale (p s'.utc) col s'.utc limit)) s' := by
  have h' := Kept.idle.waits s s' h hw
  exact ⟨s'.utc, ⟨h'.reach, le_refl _, h'.rows, h'.gone⟩, _, rfl, h.page _ _ _, le_trans h.clock hw.clock⟩

/-! ### The release -/

theorem releaseOne_kept (hclock : ∀ x ∈ xs, x.after.utc ≤ T) {z' : Utc} (he : w.db.exec? e.id = some e)
    (hh : e.status.held = true) (hi : e.id ∉ D) (hrel : Releasable xs T e) :
    Triple (Answers env cfg xs) Nobody (Kept env w D z) (releaseOne cfg (e.toStale z'))
      (fun r s => Kept env w (insert e.id D) z s ∧ r = (true, false)) :=
  (Kept.onRow (releaseOne_touches (e.toStale z')) he hh hi (releaseOne_gone hclock hrel)).mono (fun _ h => h)
    fun _ _ h => ⟨h.2.settled h.1.1, h.1.2⟩

theorem releasePage_kept (hclock : ∀ x ∈ xs, x.after.utc ≤ T) {z' : Utc} (rows : List ExecRow) (D : Finset Nat)
    (hnodup : (rows.map (·.id)).Nodup) (hrows : ∀ e ∈ rows, e.id ∉ D ∧ w.db.exec? e.id = some e ∧
      e.status.held = true ∧ Releasable xs T e) :
    Triple (Answers env cfg xs) Nobody (Kept env w D z) (releasePage cfg (rows.map (·.toStale z')))
      (fun r s => Kept env w (D ∪ (rows.map (·.id)).toFinset) z s ∧ r = (!rows.isEmpty, false)) := by
  induction rows generalizing D with
  | nil => exact .done (fun _ h => ⟨by simpa using h, rfl⟩) stable_nobody
  | cons e rows ih =>
    obtain ⟨⟨hi, he, hh, hrel⟩, hrows⟩ := List.forall_mem_cons.1 hrows
    obtain ⟨hnot, hnodup⟩ := List.nodup_cons.1 hnodup
    refine (releaseOne_kept hclock he hh hi hrel).seq fun r => .given ?_
    rintro rfl
    have hnew : ∀ x ∈ rows, x.id ∉ insert e.id D ∧ w.db.exec? x.id = some x ∧ x.status.held = true ∧
        Releasable xs T x := by
      intro x hx
      refine ⟨?_, (hrows x hx).2⟩
      rw [Finset.mem_insert, not_or]
      exact ⟨fun hid => hnot (List.mem_map.2 ⟨x, hx, hid⟩), (hrows x hx).1⟩
    refine (ih (insert e.id D) hnodup hnew).seq fun r => .given ?_
    rintro rfl
    refine .done (fun s h => ⟨?_, rfl⟩) stable_nobody
    rwa [List.map_cons, List.toFinset_cons, Finset.union_insert, ← Finset.insert_union]

/-- The rows this instance owns. -/
def ownedBy (cfg : Config) (_ : Utc) (e : ExecRow) : Bool := decide (e.ownerInstance = some cfg.instanceId)

/-- Once its own rows are ended, the release has nothing left to do. -/
theorem releaseOwned_done
    (hown : ∀ e, w.db.exec? e.id = some e → e.status.held = true → ownedBy cfg z e = true → e.id ∈ D) (pages : Nat)
    (deferred : Bool) : Triple (Answers env cfg xs) Nobody (Kept env w D z)
      (releaseOwned cfg (pages + 1) deferred) (fun r s => (∃ u, Kept env w D u s ∧ z ≤ u) ∧ r = some deferred) := by
  refine .ask (m := Read env w D (ownedBy cfg) 200 z) stable_nobody (fun s r s' h hq => ?_) fun r =>
    .ex fun u => .given ?_
  · obtain ⟨⟨hwait, rfl⟩, -⟩ := hq
    exact h.read hwait (ownedBy cfg) _ 200
  · rintro ⟨rows, rfl, hpage, hz⟩
    have hnil : rows = [] := List.eq_nil_iff_forall_not_mem.2 fun e he => by
      obtain ⟨hi, hrow, hh, ho⟩ := hpage.row e he
      exact hi (hown e hrow hh ho)
    subst hnil
    exact .done (fun s h => ⟨⟨u, h, hz⟩, rfl⟩) stable_nobody

/-- **Of at most 200 rows the release ends its own**, if none of them is in its way. -/
theorem releaseOwned_kept (hclock : ∀ x ∈ xs, x.after.utc ≤ T) (hcount : w.db.heldIds.card ≤ 200)
    (hown : ∀ e, w.db.exec? e.id = some e → e.status.held = true → e.ownerInstance = some cfg.instanceId →
      Releasable xs T e) (pages : Nat) (deferred : Bool) :
    Triple (Answers env cfg xs) Nobody (Kept env w ∅ z) (releaseOwned cfg (pages + 2) deferred)
      (fun r s => (∃ D u, Kept env w D u s ∧ z ≤ u) ∧ r = some deferred) := by
  refine .ask (m := Read env w ∅ (ownedBy cfg) 200 z) stable_nobody (fun s r s' h hq => ?_) fun r =>
    .ex fun u => .given ?_
  · obtain ⟨⟨hwait, rfl⟩, -⟩ := hq
    exact h.read hwait (ownedBy cfg) _ 200
  · rintro ⟨rows, rfl, hpage, hz⟩
    cases rows with
    | nil => exact .done (fun s h => ⟨⟨∅, u, h, hz⟩, rfl⟩) stable_nobody
    | cons e rows =>
      have hrel : ∀ x ∈ e :: rows, x.id ∉ (∅ : Finset Nat) ∧ w.db.exec? x.id = some x ∧ x.status.held = true ∧
          Releasable xs T x := by
        intro x hx
        obtain ⟨hi, hrow, hh, ho⟩ := hpage.row x hx
        exact ⟨hi, hrow, hh, hown x hrow hh (of_decide_eq_true ho)⟩
      refine (releasePage_kept hclock (e :: rows) ∅ hpage.nodup hrel).seq fun r => .given ?_
      rintro rfl
      have hall : ∀ x, w.db.exec? x.id = some x → x.status.held = true → ownedBy cfg u x = true →
          x.id ∈ ∅ ∪ ((e :: rows).map (·.id)).toFinset := by
        intro x hrow hh ho
        have hmem := hpage.all (Or.inr hcount) x hrow hh ho (by simp)
        rw [Finset.empty_union, List.mem_toFinset]
        exact List.mem_map_of_mem hmem
      refine (releaseOwned_done hall pages (deferred || false)).mono (fun _ h => h) fun r s h => ?_
      obtain ⟨⟨u', hk, hu⟩, rfl⟩ := h
      exact ⟨⟨_, u', hk, le_trans hz hu⟩, by simp⟩

/-! ### The sweep -/

/-- What a page of the sweep did: it settled the rows `S`, and handlers run for the others. -/
def Paged (env : Env) (w : World) (xs : List Said) (D : Finset Nat) (z : Utc) (rows : List ExecRow)
    (r : Option (Nat × Bool)) (s : World) : Prop :=
  ∃ S : Finset Nat, Kept env w (D ∪ S) z s ∧ S ⊆ (rows.map (·.id)).toFinset ∧
    (∀ e ∈ rows, e.id ∉ S → StillRunning xs e) ∧ ∃ unsettled, r = some (S.card, unsettled)

theorem recoverPage_paged (hcalm : Calm w xs T) (hz : w.utc ≤ z) {z' : Utc} (rows : List ExecRow) (D : Finset Nat)
    (hnodup : (rows.map (·.id)).Nodup) (hrows : ∀ e ∈ rows, e.id ∉ D ∧ w.db.exec? e.id = some e ∧
      e.status.held = true ∧ past e.leaseUntil z = true) :
    Triple (Answers env cfg xs) Nobody (Kept env w D z) (recoverPage cfg false (rows.map (·.toStale z')))
      (Paged env w xs D z rows) := by
  induction rows generalizing D with
  | nil =>
    refine .done (fun s h => ⟨∅, ?_, by simp, by simp, false, rfl⟩) stable_nobody
    rwa [Finset.union_empty]
  | cons e rows ih =>
    obtain ⟨⟨hi, he, hh, hexp⟩, hrows⟩ := List.forall_mem_cons.1 hrows
    obtain ⟨hnot, hnodup⟩ := List.nodup_cons.1 hnodup
    have hne : ∀ x ∈ rows, x.id ≠ e.id := fun x hx hid => hnot (List.mem_map.2 ⟨x, hx, hid⟩)
    refine (mayRecover_true hcalm Kept.idle).seq fun ok => .given ?_
    rintro rfl
    have hone : Triple (Answers env cfg xs) Nobody (Kept env w D z) (recoverOne cfg false (e.toStale z')) _ :=
      Kept.onRow (recoverOne_touches false (e.toStale z')) he hh hi (recoverOne_sweeps hcalm he hz hexp)
    refine hone.seq fun settled => ?_
    cases settled with
    | true =>
      refine Triple.mono (B := Kept env w (insert e.id D) z) ?_ (fun s h => h.2.settled h.1) fun _ _ h => h
      have hnew : ∀ x ∈ rows, x.id ∉ insert e.id D ∧ w.db.exec? x.id = some x ∧ x.status.held = true ∧
          past x.leaseUntil z = true := by
        intro x hx
        rw [Finset.mem_insert, not_or]
        exact ⟨⟨hne x hx, (hrows x hx).1⟩, (hrows x hx).2⟩
      refine (ih (insert e.id D) hnodup hnew).seq fun r => .ex fun S => .given ?_
      rintro ⟨hS, hrun, unsettled, rfl⟩
      have hcard : (insert e.id S).card = S.card + 1 :=
        Finset.card_insert_of_notMem fun hmem => hnot (List.mem_toFinset.1 (hS hmem))
      refine .done (fun s h => ⟨insert e.id S, ?_, ?_, ?_, _, by rw [hcard]; rfl⟩) stable_nobody
      · rwa [Finset.union_insert, ← Finset.insert_union]
      · rw [List.map_cons, List.toFinset_cons]
        exact Finset.insert_subset_insert _ hS
      · intro x hx hxS
        rw [Finset.mem_insert, not_or] at hxS
        exact hrun x ((List.mem_cons.1 hx).resolve_left fun hxe => hxS.1 (congrArg (·.id) hxe)) hxS.2
    | false =>
      refine Triple.mono (B := fun s => Kept env w D z s ∧ StillRunning xs e) (.given fun hrunning => ?_)
        (fun s h => ⟨h.2.left hi (h.1.1.row.trans he.symm), h.1.2⟩) fun _ _ h => h
      refine (ih D hnodup hrows).seq fun r => .ex fun S => .given ?_
      rintro ⟨hS, hrun, unsettled, rfl⟩
      refine .done (fun s h => ⟨S, h, ?_, ?_, _, rfl⟩) stable_nobody
      · rw [List.map_cons, List.toFinset_cons]
        exact hS.trans (Finset.subset_insert _ _)
      · intro x hx hxS
        rcases List.mem_cons.1 hx with rfl | hx
        · exact hrunning
        · exact hrun x hx hxS

/-- The rows whose handlers run. -/
noncomputable def runningIds (w : World) (xs : List Said) : Finset Nat :=
  open Classical in w.db.heldIds.filter fun i => ∃ e, w.db.exec? i = some e ∧ StillRunning xs e

/-- The expired rows for which no handler runs are among `D`. -/
def Cleared (w : World) (xs : List Said) (D : Finset Nat) : Prop := ∀ i e, w.db.exec? i = some e →
  e.status.held = true → past e.leaseUntil w.utc = true → ¬ StillRunning xs e → i ∈ D

/-- How many rows the sweep may still have to settle. -/
noncomputable def pending (w : World) (xs : List Said) (D : Finset Nat) : Nat :=
  ((w.db.heldIds \ runningIds w xs) \ D).card

theorem mem_runningIds : i ∈ runningIds w xs ↔ i ∈ w.db.heldIds ∧ ∃ e, w.db.exec? i = some e ∧ StillRunning xs e := by
  classical exact Finset.mem_filter

theorem mem_pending (he : w.db.exec? i = some e) (hh : e.status.held = true) (hrun : ¬ StillRunning xs e) :
    i ∈ w.db.heldIds \ runningIds w xs := by
  refine Finset.mem_sdiff.2 ⟨DB.mem_heldIds.2 ⟨e, he, hh⟩, fun hmem => hrun ?_⟩
  obtain ⟨-, x, hx, hrunning⟩ := mem_runningIds.1 hmem
  rwa [Option.some.inj (he.symm.trans hx)]

theorem cleared_of_pending (h : pending w xs D = 0) : Cleared w xs D := by
  intro i e he hh _ hrun
  by_contra hi
  have hmem := Finset.mem_sdiff.2 ⟨mem_pending he hh hrun, hi⟩
  rw [Finset.card_eq_zero.1 h] at hmem
  exact Finset.notMem_empty i hmem

/-- **A page with room leaves nothing to clear.** -/
theorem Page.clears {rows : List ExecRow} {limit : Nat} {S : Finset Nat} (hz : w.utc ≤ z)
    (h : Page w D (fun e => past e.leaseUntil z) limit rows) (hroom : rows.length < limit)
    (hrun : ∀ e ∈ rows, e.id ∉ S → StillRunning xs e) : Cleared w xs (D ∪ S) := by
  intro i e he hh hexp hnot
  obtain rfl := DB.exec?_id he
  rw [Finset.mem_union]
  by_contra hi
  rw [not_or] at hi
  exact hnot (hrun e (h.all (Or.inl hroom) e he hh (past_later hexp hz) hi.1) hi.2)

/-- **A full page settles all of its rows but the running ones.** -/
theorem Page.shrinks {rows : List ExecRow} {p : ExecRow → Bool} {limit : Nat} {S : Finset Nat}
    (h : Page w D p limit rows) (hfull : rows.length = limit) (hrun : ∀ e ∈ rows, e.id ∉ S → StillRunning xs e) :
    pending w xs (D ∪ S) + (limit - (runningIds w xs).card) ≤ pending w xs D := by
  have hcard : ((rows.map (·.id)).toFinset).card = limit := by
    rw [List.toFinset_card_of_nodup h.nodup, List.length_map, hfull]
  have hmem : ∀ i ∈ (rows.map (·.id)).toFinset \ runningIds w xs,
      i ∈ (w.db.heldIds \ runningIds w xs) \ D ∧ i ∈ S := by
    intro i hi
    obtain ⟨hids, hnot⟩ := Finset.mem_sdiff.1 hi
    obtain ⟨e, he, rfl⟩ := List.mem_map.1 (List.mem_toFinset.1 hids)
    obtain ⟨hD, hrow, hh, -⟩ := h.row e he
    have hheld : e.id ∈ w.db.heldIds := DB.mem_heldIds.2 ⟨e, hrow, hh⟩
    refine ⟨Finset.mem_sdiff.2 ⟨Finset.mem_sdiff.2 ⟨hheld, hnot⟩, hD⟩, ?_⟩
    by_contra hS
    exact hnot (mem_runningIds.2 ⟨hheld, e, hrow, hrun e he hS⟩)
  have hdisj : Disjoint ((w.db.heldIds \ runningIds w xs) \ (D ∪ S)) ((rows.map (·.id)).toFinset \ runningIds w xs) :=
    Finset.disjoint_left.2 fun i hi hi' =>
      (Finset.mem_sdiff.1 hi).2 (Finset.mem_union_right _ (hmem i hi').2)
  calc pending w xs (D ∪ S) + (limit - (runningIds w xs).card)
      ≤ pending w xs (D ∪ S) + ((rows.map (·.id)).toFinset \ runningIds w xs).card := by
        rw [← hcard]
        exact Nat.add_le_add_left (Finset.le_card_sdiff _ _) _
    _ = (((w.db.heldIds \ runningIds w xs) \ (D ∪ S)) ∪ ((rows.map (·.id)).toFinset \ runningIds w xs)).card :=
        (Finset.card_union_of_disjoint hdisj).symm
    _ ≤ pending w xs D := by
        refine Finset.card_le_card (Finset.union_subset ?_ fun i hi => (hmem i hi).1)
        exact Finset.sdiff_subset_sdiff (Finset.Subset.refl _) Finset.subset_union_left

theorem Cleared.union (h : Cleared w xs D) (S : Finset Nat) : Cleared w xs (D ∪ S) :=
  fun i e he hh hp hrun => Finset.mem_union_left _ (h i e he hh hp hrun)

/-- What is left for the sweep to do in so many pages. -/
def Within (cfg : Config) (w : World) (xs : List Said) (D : Finset Nat) (pages : Nat) : Prop :=
  Cleared w xs D ∨ pending w xs D ≤ pages * (cfg.pageSize - (runningIds w xs).card)

/-- One page less. -/
theorem Within.page {rows : List ExecRow} {S : Finset Nat} {pages : Nat} (hz : w.utc ≤ z)
    (h : Within cfg w xs D (pages + 1)) (hpage : Page w D (fun e => past e.leaseUntil z) cfg.pageSize rows)
    (hrun : ∀ e ∈ rows, e.id ∉ S → StillRunning xs e) : Within cfg w xs (D ∪ S) pages := by
  rcases h with hcl | hle
  · exact Or.inl (hcl.union S)
  rcases lt_or_eq_of_le hpage.short with hroom | hfull
  · exact Or.inl (hpage.clears hz hroom hrun)
  · have hshrink := hpage.shrinks hfull hrun
    rw [Nat.add_mul, Nat.one_mul] at hle
    exact Or.inr (by omega)

/-- A page that settles nothing is the last one. -/
theorem Within.cleared {rows : List ExecRow} {pages : Nat} (hz : w.utc ≤ z)
    (h : Within cfg w xs D (pages + 1)) (hpage : Page w D (fun e => past e.leaseUntil z) cfg.pageSize rows)
    (hrun : ∀ e ∈ rows, StillRunning xs e) : Cleared w xs D := by
  rcases h with hcl | hle
  · exact hcl
  rcases lt_or_eq_of_le hpage.short with hroom | hfull
  · have hcl := hpage.clears (S := ∅) hz hroom fun e he _ => hrun e he
    rwa [Finset.union_empty] at hcl
  · have hshrink := hpage.shrinks (S := ∅) hfull fun e he _ => hrun e he
    rw [Finset.union_empty] at hshrink
    refine cleared_of_pending (Nat.le_zero.1 ?_)
    have hzero : cfg.pageSize - (runningIds w xs).card = 0 := by omega
    rwa [hzero, Nat.mul_zero] at hle

theorem recoverStale_clears (hcalm : Calm w xs T) (pages : Nat) (D : Finset Nat) (unsettled : Bool) (hz : w.utc ≤ z)
    (h : Within cfg w xs D pages) : Triple (Answers env cfg xs) Nobody (Kept env w D z)
      (recoverStale cfg false pages unsettled) (fun _ s => ∃ D u, Kept env w D u s ∧ Cleared w xs D) := by
  induction pages generalizing D unsettled z with
  | zero =>
    refine .done (fun s hs => ⟨D, z, hs, h.elim id fun hle => cleared_of_pending ?_⟩) stable_nobody
    rwa [Nat.zero_mul, Nat.le_zero] at hle
  | succ pages ih =>
    refine .ask (m := Read env w D (fun u e => past e.leaseUntil u) cfg.pageSize z) stable_nobody
      (fun s r s' h hq => ?_) fun r => .ex fun u => .given ?_
    · obtain ⟨⟨hwait, rfl⟩, -⟩ := hq
      exact h.read hwait _ _ _
    · rintro ⟨rows, rfl, hpage, hu⟩
      have hwu := le_trans hz hu
      cases rows with
      | nil => exact .done (fun s hs => ⟨D, u, hs, h.cleared hwu hpage (by simp)⟩) stable_nobody
      | cons e rows =>
        refine (recoverPage_paged hcalm hwu (e :: rows) D hpage.nodup hpage.row).seq fun r => .ex fun S => .given ?_
        rintro ⟨-, hrun, left, rfl⟩
        show Triple _ _ _ (if S.card = 0 then _ else _) _
        by_cases hS : S.card = 0
        · rw [if_pos hS]
          rw [Finset.card_eq_zero] at hS
          subst hS
          have hcl := h.cleared hwu hpage fun x hx => hrun x hx (Finset.notMem_empty _)
          exact .done (fun s hs => ⟨_, u, hs, hcl.union ∅⟩) stable_nobody
        · rw [if_neg hS]
          exact ih (D ∪ S) _ hwu (h.page hwu hpage hrun)

end pages

/-! ## The whole call -/

theorem Serves.utc_le {inst : String} {free : Ctx → Prop} {q : Ask} {r : q.Answer} (h : Serves env inst free s q r s') :
    s.utc ≤ s'.utc := by
  cases q with
  | call a =>
    obtain ⟨c, hc⟩ := h
    exact hc.step.utc_le
  | owned n => exact h.1.clock
  | stale n => exact h.1.clock
  | definition j => exact h.1.clock
  | _ => exact h.clock

theorem exec_clock {ρ : Type} {inst : String} {free : Ctx → Prop} {p : Thread ρ}
    {ev : List (Event World Empty Ask.Answer)} {r : ρ} (h : Exec (Serves env inst free) Nobody p s ev r s') :
    s.utc ≤ s'.utc ∧ ∀ x ∈ own ev, x.after.utc ≤ s'.utc := by
  induction h with
  | done => exact ⟨le_refl _, by simp [own]⟩
  | other hl => exact hl.elim
  | ask hq _ ih =>
    refine ⟨le_trans (Serves.utc_le hq) ih.1, fun x hx => ?_⟩
    rcases List.mem_cons.1 (show x ∈ _ :: own _ from hx) with rfl | hx
    · exact ih.1
    · exact ih.2 x hx

/-- **A call of `ReleaseOwnedWork` that nothing gets in the way of**: no call of the database fails and no row is locked
(`Serves`, `Unlocked`), nobody else writes, the fence stays valid, and no cap elapses. -/
structure Undisturbed (env : Env) (cfg : Config) (w : World) (ev : List (Event World Empty Ask.Answer)) (r : Bool)
    (w' : World) : Prop where
  reach : Reachable env w
  runs  : Exec (Serves env cfg.instanceId Unlocked) Nobody (releaseOwnedWork cfg) w ev r w'
  fence : ∀ s a s', (⟨s, .renewing, a, s'⟩ : Said) ∈ own ev → a = true
  caps  : ∀ i e, w.db.exec? i = some e → e.status.held = true → past e.timeoutAt w'.utc = true →
    past e.timeoutAt w.utc = true

theorem Undisturbed.calm {ev : List (Event World Empty Ask.Answer)} {r : Bool} {w' : World}
    (h : Undisturbed env cfg w ev r w') : Calm w (own ev) w'.utc :=
  ⟨h.fence, (exec_clock h.runs).2, h.caps⟩

/-! ## Nobody answers -/

/-- The error of a call that the database failed. -/
def failed : Except Err Unit → Bool
  | .ok _ => false
  | .error err => decide (err.kind = .other)

/-- Nobody answers for the executors, and the clock stands still. -/
def quiet (env : Env) (inst : String) (w : World) : (q : Ask) → Option (q.Answer × World)
  | .owned n => some (.ok (w.db.ownedByInstance inst w.utc n), w)
  | .stale n => some (.ok (w.db.staleExecutions w.utc n), w)
  | .definition j => some ((readDefinition j w.db).map Prod.fst, w)
  | .cancel _ _ _ _ => some (false, w)
  | .getExecution _ _ => some ({}, w)
  | .stopping => some (true, w)
  | .renewing => some (true, w)
  | .backoff _ => some (1, w)
  | .stopClaiming => some ((), w)
  | .drained => some ((), w)
  | .stop => some ((), w)
  | .call a =>
    if a.mints.isSome || failed (answer env w (a, Ctx.at_ w.utc)) then none
    else some (answer env w (a, Ctx.at_ w.utc), w.call env a w.utc)

theorem quiet_serves {inst : String} {q : Ask} {r : q.Answer} (h : quiet env inst s q = some (r, s')) :
    Serves env inst Unlocked s q r s' := by
  have hstill : s.Waits s := ⟨le_refl _, rfl, rfl⟩
  cases q with
  | call a =>
    change (if _ then none else some _) = some _ at h
    by_cases hbad : (a.mints.isSome || failed (answer env s (a, Ctx.at_ s.utc))) = true
    · rw [if_pos hbad] at h
      cases h
    · rw [if_neg hbad] at h
      cases h
      rw [Bool.or_eq_true, not_or] at hbad
      refine ⟨Ctx.at_ s.utc, fun _ => rfl, World.step_call env (le_refl _) ?_, rfl, fun err herr hplain => ?_⟩
      · rw [Option.not_isSome_iff_eq_none.1 hbad.1]
        rfl
      · rw [herr] at hbad
        exact hbad.2 (decide_eq_true hplain)
  | owned n => cases h; exact ⟨hstill, rfl⟩
  | stale n => cases h; exact ⟨hstill, rfl⟩
  | definition j => cases h; exact ⟨hstill, rfl⟩
  | _ => cases h; exact hstill

/-- A call in a quiet world. -/
def quietCall (env : Env) (cfg : Config) (w : World) : Option (List Said × Bool × World) :=
  drive? (quiet env cfg.instanceId) w (releaseOwnedWork cfg)

section quiet

variable {r : Bool} {w' : World}

theorem quietCall_undisturbed (hr : Reachable env w) (h : quietCall env cfg w = some (xs, r, w'))
    (hutc : w'.utc = w.utc) : Undisturbed env cfg w (xs.map .own) r w' := by
  refine ⟨hr, exec_drive? h fun _ _ _ _ hq => quiet_serves hq, fun s a s' hx => ?_, fun i e _ _ hp => hutc ▸ hp⟩
  rw [own_map] at hx
  have hq : some (true, s) = some (a, s') := mem_drive? h _ hx
  cases hq
  rfl

theorem quietCall_answered (h : quietCall env cfg w = some (xs, r, w')) {a : Reconciliation} (ha : Answered xs e a) :
    a = {} := by
  rcases ha with ⟨-, rfl⟩ | ⟨-, s, s', hx⟩
  · rfl
  · have hq : some (({} : Reconciliation), s) = some (a, s') := mem_drive? h _ hx
    cases hq
    rfl

theorem quietCall_idle (h : quietCall env cfg w = some (xs, r, w')) : ¬ StillRunning xs e := by
  rintro ⟨a, ha, hrun⟩
  rw [quietCall_answered h ha] at hrun
  cases hrun

theorem quietCall_runningIds (h : quietCall env cfg w = some (xs, r, w')) : runningIds w xs = ∅ := by
  refine Finset.eq_empty_of_forall_notMem fun i hi => ?_
  obtain ⟨-, e, -, hrun⟩ := mem_runningIds.1 hi
  exact quietCall_idle h hrun

end quiet

/-- The claim of second 2, eight seconds after its lease. -/
def lapsedPass : World := { (World.init 0).play bareEnv claimedPass with utc := 40 }

theorem lapsedPass_reachable : Reachable bareEnv lapsedPass :=
  (reachable_play bareEnv 0 claimedPass (by decide)).waits ⟨by decide, rfl, rfl⟩

def lapsedRow : ExecRow := (lapsedPass.db.exec? 1).get (by decide +kernel)

end Drain
end GoJob
