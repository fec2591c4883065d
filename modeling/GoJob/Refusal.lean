import GoJob.Cap
/-!
# Refusal — what a refused execution can come to

An executor that refuses has done nothing, and its refusal charges no attempt.  What a refusal does not stop is the
runtime cap: it was set by the first claim and stays with the row, so an execution nobody takes ends when its cap has
passed, in the refusal itself, in the next claim, or under the timeout scan.
-/
namespace GoJob

open Rel

variable {env : Env} {c : Ctx} {db db' : DB} {a : Action}

/-- The calls of a scheduler whose dispatches are all refused: it claims, moves on to the next executor, keeps its lease
while it waits for an answer, returns the row, and fences what the timeout scan lists. -/
def Action.dispatches : Action → Bool
  | .claim _ _       => true
  | .retarget _ _    => true
  | .renew _ _       => true
  | .refuse _ _      => true
  | .fenceTimedOut _ => true
  | _                => false

/-- Whatever the step does to execution `i` is part of a refused dispatch, and FORBID does not skip it. -/
def RefusedStep (i : Nat) (x : World × (Action × Ctx) × World) : Prop :=
  ∀ e e', x.1.db.exec? i = some e → x.2.2.db.exec? i = some e' →
    e' = e ∨ (x.2.1.1.dispatches = true ∧ e'.status ≠ .skipped)

/-- If the step fences execution `i`, the timeout scan has listed it, in some state so far, as past its cap. -/
def ScannedFence (i : Nat) (tr : History) (x : World × (Action × Ctx) × World) : Prop :=
  ∀ v, x.2.1.1 = .fenceTimedOut v → v.id = i →
    ∃ y ∈ tr ++ [x], ∃ e t, y.1.db.exec? i = some e ∧ e.timeoutAt = some t ∧ t < y.2.1.2.utc 0

/-- Nothing was attempted: the row waits, or it is dead of its cap. -/
structure ExecRow.Unattempted (e : ExecRow) : Prop where
  attempts : e.attemptNo = 0
  status   : e.status = .ready ∨ e.status = .dispatching ∨ (e.status = .dead ∧ e.terminalReason = some .timeout)

theorem ExecRow.Unattempted.dispatching {e : ExecRow} (h : e.Unattempted) (hs : e.status.held = true) :
    e.status = .dispatching := by
  rcases h.status with hr | hd | ⟨hd, -⟩
  · rw [hr] at hs; cases hs
  · exact hd
  · rw [hd] at hs; cases hs

theorem lt_of_past {t : Option Utc} {u : Utc} (h : past t u = true) : ∃ v, t = some v ∧ v < u := by
  cases t with
  | none => cases h
  | some v => exact ⟨v, rfl, by simpa [past] using h⟩

/-- **A refused dispatch charges nothing, and ends a row only past its cap** or under a fence. -/
theorem ExecMove.refused {e e' : ExecRow} (h : ExecMove c a e e') (ha : a.dispatches = true)
    (hk : e'.status ≠ .skipped) (hu : e.Unattempted) :
    e'.Unattempted ∧ (e'.status = .dead → (∃ t n, e.timeoutAt = some t ∧ t < c.utc n) ∨
      ∃ v, a = .fenceTimedOut v ∧ v.id = e.id) := by
  have waits : e'.attemptNo = e.attemptNo → (e'.status = .ready ∨ e'.status = .dispatching) →
      e'.Unattempted ∧ (e'.status = .dead → (∃ t n, e.timeoutAt = some t ∧ t < c.utc n) ∨
        ∃ v, a = .fenceTimedOut v ∧ v.id = e.id) := fun hn hs => by
    refine ⟨⟨hn.trans hu.attempts, hs.imp_right Or.inl⟩, fun hd => ?_⟩
    rcases hs with hs | hs <;> rw [hs] at hd <;> cases hd
  cases h with
  | dispatch => exact waits rfl (Or.inr rfl)
  | defer _ hs => exact waits rfl (Or.inl hs)
  | skip => exact absurd rfl hk
  | retarget _ ho => exact waits rfl (Or.inr (ExecRow.unaccepted_iff.1 ho).1)
  | renew _ hs => exact waits rfl (Or.inr (hu.dispatching hs))
  | expire _ _ _ hc =>
    obtain ⟨t, ht, hlt⟩ := lt_of_past hc
    exact ⟨⟨hu.attempts, Or.inr (Or.inr ⟨rfl, rfl⟩)⟩, fun _ => Or.inl ⟨t, 2, ht, hlt⟩⟩
  | refuse =>
    by_cases hp : past e.timeoutAt (c.utc 1) = true
    · obtain ⟨t, ht, hlt⟩ := lt_of_past hp
      refine ⟨⟨hu.attempts, Or.inr (Or.inr ⟨?_, ?_⟩)⟩, fun _ => Or.inl ⟨t, 1, ht, hlt⟩⟩ <;> simp [refuseWrite, hp]
    · exact waits rfl (Or.inl (by simp [refuseWrite, hp]))
  | fence hi hs =>
    have hd := hu.dispatching hs
    refine ⟨⟨hu.attempts, Or.inr (Or.inr ⟨?_, ?_⟩)⟩, fun _ => Or.inr ⟨_, rfl, hi.symm⟩⟩
    · simp [fenceWrite, endedStatus, ExecRow.toStale, hd]
    · simp [fenceWrite, hd]
  | _ => cases ha

/-! ## Along a run -/

/-- What a history of refused dispatches leaves of execution `i`. -/
structure RefusalInv (i : Nat) (tr : History) (w : World) : Prop where
  row    : ∀ e, w.db.exec? i = some e → e.Unattempted
  deaths : ∀ x ∈ tr, ∀ e e', x.1.db.exec? i = some e → x.2.2.db.exec? i = some e' → e.status ≠ .dead →
    e'.status = .dead → ∃ t n, e.timeoutAt = some t ∧ t < x.2.1.2.utc n
  caps   : ∀ y ∈ tr, ∀ e t, y.1.db.exec? i = some e → e.timeoutAt = some t → Capped i t w
  clock  : ∀ y ∈ tr, y.2.1.2.utc 0 ≤ w.utc

theorem capped_of_row {i : Nat} {w : World} {e : ExecRow} {t : Utc} (he : w.db.exec? i = some e)
    (ht : e.timeoutAt = some t) : Capped i t w := by
  refine ⟨DB.exec?_le he, fun e₀ he₀ => ?_⟩
  rw [← Option.some.inj (he.symm.trans he₀)]
  exact ht

theorem Action.not_reopens_of_dispatches (h : a.dispatches = true) : a.reopens = false := by
  cases a <;> first | rfl | cases h

theorem RefusedStep.not_reopened {i : Nat} {x : World × (Action × Ctx) × World} (h : RefusedStep i x) :
    madeReady Action.reopens i x = false := by
  rw [Bool.eq_false_iff]
  intro hready
  simp only [madeReady, Bool.and_eq_true, Option.any_eq_true, decide_eq_true_eq] at hready
  obtain ⟨⟨hre, e, he, hs⟩, e', he', hs'⟩ := hready
  rcases h e e' he he' with rfl | ⟨hd, -⟩
  · exact hs hs'
  · rw [Action.not_reopens_of_dispatches hd] at hre
    cases hre

theorem RefusalInv.step {i : Nat} {tr : History} {w w' : World} {l : Action × Ctx} (h : RefusalInv i tr w)
    (hst : Step env w l w') (hx : RefusedStep i (w, l, w')) (hscan : ScannedFence i tr (w, l, w')) :
    RefusalInv i (tr ++ [(w, l, w')]) w' := by
  have hopen := hx.not_reopened
  have capped : ∀ y ∈ tr ++ [(w, l, w')], ∀ e t, y.1.db.exec? i = some e → e.timeoutAt = some t → Capped i t w := by
    intro y hy e t he ht
    rcases List.mem_append.1 hy with hy | hy
    · exact h.caps y hy e t he ht
    · obtain rfl := List.mem_singleton.1 hy
      exact capped_of_row he ht
  have clocked : ∀ y ∈ tr ++ [(w, l, w')], y.2.1.2.utc 0 ≤ l.2.utc 0 := by
    intro y hy
    rcases List.mem_append.1 hy with hy | hy
    · exact le_trans (h.clock y hy) hst.before
    · obtain rfl := List.mem_singleton.1 hy
      exact le_refl _
  have moved : ∀ e e', w.db.exec? i = some e → w'.db.exec? i = some e' → e' = e ∨
      (e'.Unattempted ∧ (e'.status = .dead → ∃ t n, e.timeoutAt = some t ∧ t < l.2.utc n)) := by
    intro e e' he he'
    rcases hx e e' he he' with rfl | ⟨hd, hk⟩
    · exact Or.inl rfl
    · rcases hst.commit.moved he he' with rfl | hm
      · exact Or.inl rfl
      · obtain ⟨hu, hdead⟩ := hm.refused hd hk (h.row e he)
        refine Or.inr ⟨hu, fun hs => ?_⟩
        rcases hdead hs with hpast | ⟨v, hv, hid⟩
        · exact hpast
        · -- The cap the scan saw is the row's cap still.
          obtain ⟨y, hy, e₀, t, he₀, ht, hlt⟩ := hscan v hv (hid.trans (DB.exec?_id he))
          exact ⟨t, 0, (capped y hy e₀ t he₀ ht).cap e he, lt_of_lt_of_le hlt (clocked y hy)⟩
  refine ⟨fun e' he' => ?_, fun x hx e e' he he' hs hs' => ?_, fun y hy e t he ht => ?_, fun y hy => ?_⟩
  · cases he : w.db.exec? i with
    | none =>
      obtain ⟨_, _, _, _, -, -, -, hm, -⟩ := hst.commit.new he he'
      exact ⟨hm.fresh.attemptNo, Or.inl hm.fresh.status⟩
    | some e =>
      rcases moved e e' he he' with rfl | ⟨hu, -⟩
      · exact h.row _ he
      · exact hu
  · rcases List.mem_append.1 hx with hx | hx
    · exact h.deaths x hx e e' he he' hs hs'
    · obtain rfl := List.mem_singleton.1 hx
      rcases moved e e' he he' with rfl | ⟨-, hdead⟩
      · exact absurd hs' hs
      · exact hdead hs'
  · exact (capped y hy e t he ht).step hst hopen
  · exact le_trans (clocked y hy) (hst.after 0)

/-! ## Refused twice -/

/-- The pass is claimed at second 2 under a cap of 60 s, refused, and claimed and refused again. -/
def refusedPass (t : Int) : List (Action × Int) :=
  claimedPass ++
    [(.refuse ⟨1, "sync", "pass-1", "scheduler", "executor", "t1", 5⟩ 1, 3), (claimPass "t2", 20),
     (.refuse ⟨1, "sync", "pass-1", "scheduler", "executor", "t2", 5⟩ 2, t)]

theorem refusedSteps {i : Nat} {tr : History} (h : ∀ x ∈ tr, ((x.1.db.exec? i).isNone || x.2.1.1.dispatches) = true ∧
    (x.2.2.db.exec? i).all (fun e => decide (e.status ≠ .skipped)) = true) : ∀ x ∈ tr, RefusedStep i x := by
  intro x hx e e' he he'
  obtain ⟨hd, hk⟩ := h x hx
  rw [he, Option.isNone_some, Bool.false_or] at hd
  rw [he'] at hk
  exact Or.inr ⟨hd, by simpa using hk⟩

/-- No step of these runs is a fence. -/
theorem unfenced_scanned {i : Nat} {tr : History}
    (h : ∀ x ∈ tr, ∀ v, x.2.1.1 ≠ .fenceTimedOut v) (pre : History) (x : World × (Action × Ctx) × World)
    (hp : pre ++ [x] <+: tr) : ScannedFence i pre x := by
  intro v hv
  exact absurd hv (h x (hp.subset (by simp)) v)

theorem refusedPass_unfenced (t : Int) : ∀ x ∈ (World.init 0).trace bareEnv (refusedPass t),
    ∀ v, x.2.1.1 ≠ .fenceTimedOut v := by
  intro x hx v hv
  simp only [refusedPass, claimedPass, firstPass, World.trace, List.cons_append, List.nil_append, List.mem_cons,
    List.not_mem_nil, or_false] at hx
  rcases hx with rfl | rfl | rfl | rfl | rfl | rfl <;> cases hv

end GoJob
