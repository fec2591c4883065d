import GoJob.Attempts
/-!
# TokenLife — a run token from its claim to its history

A token is minted by one claim, sits on one row, and is held until one transaction ends the attempt or refuses it.  It
is never held again.  While it is held the row keeps its runtime cap, and only adoptions raise its epoch.  Once it has
ended, its history lasts as long as the execution.
-/
namespace GoJob

open Rel

variable {env : Env} {c : Ctx} {a : Action}

/-- Row `i` carries the token, held or not. -/
def DB.Carries (db : DB) (i : Nat) (t : String) : Prop := ∃ e, db.exec? i = some e ∧ e.runToken = some t

/-! ## Held rows move under their token -/

/-- The call takes over execution `i`. -/
def Action.adopts (i : Nat) : Action → Bool
  | .adopt v _ _ _ _ => decide (v.id = i)
  | _                => false

/-- What a move does to a row that is held before and after it. -/
structure StaysHeld (a : Action) (e e' : ExecRow) : Prop where
  token  : e'.runToken = e.runToken
  cap    : e'.timeoutAt = e.timeoutAt
  epoch  : e.fenceEpoch ≤ e'.fenceEpoch
  adopts : e'.fenceEpoch ≠ e.fenceEpoch → a.adopts e.id = true

theorem StaysHeld.refl (a : Action) (e : ExecRow) : StaysHeld a e e := ⟨rfl, rfl, le_refl _, fun h => absurd rfl h⟩

theorem HeldWrite.stays {e e' : ExecRow} (h : HeldWrite c a e e') : StaysHeld a e e' := by
  cases h with
  | adopt hi ho =>
    refine ⟨rfl, rfl, ?_, fun _ => decide_eq_true hi.symm⟩
    rw [(ExecRow.owned_iff.1 ho).2]
    exact Nat.le_succ _
  | _ => exact ⟨rfl, rfl, le_refl _, fun hne => absurd rfl hne⟩

/-- **A row that is held after a move was just claimed, or was held before it under the same token.** -/
theorem ExecMove.held_before {e e' : ExecRow} (h : ExecMove c a e e') (hh : e'.status.held = true) :
    (∃ t, a.mints = some t ∧ e'.runToken = some t) ∨ (e.status.held = true ∧ StaysHeld a e e') := by
  rcases h.held_after hh with ⟨t, ha, -, -, ht⟩ | ⟨hheld, hw⟩
  · exact Or.inl ⟨t, ha, ht⟩
  · exact Or.inr ⟨hheld, hw.stays⟩

/-- A row that is held before and after a move stays under its token: nobody claims it. -/
theorem ExecMove.stays_held {e e' : ExecRow} (h : ExecMove c a e e') (hh : e.status.held = true)
    (hh' : e'.status.held = true) : StaysHeld a e e' := (h.writes hh hh').stays

/-- The step is a committed takeover of execution `i`. -/
def adopted (env : Env) (i : Nat) (x : World × (Action × Ctx) × World) : Bool :=
  x.2.1.1.adopts i && (x.2.1.1.tx env x.2.1.2 x.1.db).toBool

theorem Step.issued_of_mem {w w' : World} {l : Action × Ctx} {t : String} (hst : Step env w l w') (h : t ∈ w.issued) :
    t ∈ w'.issued := by
  rw [hst.issued]
  exact List.mem_append_right _ h

/-- **A token that was issued is held after a step only by the row that held it before.** -/
theorem Step.held_before {w w' : World} {l : Action × Ctx} {i : Nat} {t : String} {e' : ExecRow}
    (hst : Step env w l w') (hiss : t ∈ w.issued) (he' : w'.db.exec? i = some e') (hh : e'.status.held = true)
    (ht : e'.runToken = some t) :
    ∃ e, w.db.exec? i = some e ∧ e.status.held = true ∧ e.runToken = some t ∧ e'.toExecInfo = e.toExecInfo ∧
      StaysHeld l.1 e e' ∧ (e'.fenceEpoch ≠ e.fenceEpoch → adopted env i (w, l, w') = true) := by
  rcases hst.commit.token he' ht with ⟨e, he, hte, hinfo⟩ | ⟨p, r, ha, hp, -⟩
  · have hmove : e.status.held = true ∧ StaysHeld l.1 e e' := by
      rcases hst.commit.moved he he' with rfl | hm
      · exact ⟨hh, .refl _ _⟩
      · rcases hm.held_before hh with ⟨t', hmint, ht'⟩ | h
        · obtain rfl := Option.some.inj (ht.symm.trans ht')
          exact absurd hiss (hst.fresh t hmint)
        · exact h
    refine ⟨e, he, hmove.1, hte, hinfo, hmove.2, fun hne => ?_⟩
    have hid : e.id = i := DB.exec?_id he
    unfold adopted
    rw [Bool.and_eq_true]
    refine ⟨hid ▸ hmove.2.adopts hne, ?_⟩
    -- A transaction that failed would have left the row as it was.
    rcases Tx.commit_cases (l.1.tx env l.2) w.db with ⟨err, _, hsame⟩ | ⟨u, hok⟩
    · rw [← hst.db] at hsame
      rw [hsame, he] at he'
      exact absurd (by rw [Option.some.inj he']) hne
    · show (l.1.tx env l.2 w.db).toBool = true
      rw [hok]; rfl
  · exact absurd hiss (hst.fresh t (by rw [ha, ← hp]; rfl))

/-! ## Along a run -/

section run

variable {w w' : World} {tr : History} {i : Nat} {t : String}

theorem issued_run (hr : Sys.Run (Step env) w tr w') (h : t ∈ w.issued) : t ∈ w'.issued :=
  Sys.Run.invariant (I := fun w => t ∈ w.issued) h (fun _ _ _ h hst => hst.issued_of_mem h) hr

theorem lastId_run (hr : Sys.Run (Step env) w tr w') : w.db.executions.lastId ≤ w'.db.executions.lastId :=
  Sys.Run.invariant (I := fun w₁ => w.db.executions.lastId ≤ w₁.db.executions.lastId) (le_refl _)
    (fun _ _ _ h hst => le_trans h hst.commit.lastId_le) hr

/-- **The row a token is held by at the end of a run held it from the start**, with the same cap, and under the same
epoch unless it was adopted. -/
theorem held_run (hr : Sys.Run (Step env) w tr w') (hiss : t ∈ w.issued) {e' : ExecRow}
    (he' : w'.db.exec? i = some e') (hh : e'.status.held = true) (ht : e'.runToken = some t) :
    ∃ e, w.db.exec? i = some e ∧ e.status.held = true ∧ e.runToken = some t ∧ e'.toExecInfo = e.toExecInfo ∧
      e'.timeoutAt = e.timeoutAt ∧ e.fenceEpoch ≤ e'.fenceEpoch ∧
      (e'.fenceEpoch ≠ e.fenceEpoch → 0 < tr.countP (adopted env i)) := by
  induction hr generalizing e' with
  | nil => exact ⟨e', he', hh, ht, rfl, rfl, le_refl _, fun h => absurd rfl h⟩
  | snoc hr hst ih =>
    obtain ⟨e₁, he₁, hh₁, ht₁, hinfo₁, hstay, hadopt⟩ := hst.held_before (issued_run hr hiss) he' hh ht
    obtain ⟨e, he, hhe, hte, hinfo, hcap, hle, hcount⟩ := ih he₁ hh₁ ht₁
    refine ⟨e, he, hhe, hte, hinfo₁.trans hinfo, hstay.cap.trans hcap, le_trans hle hstay.epoch, fun hne => ?_⟩
    rw [List.countP_append]
    by_cases hlast : e'.fenceEpoch = e₁.fenceEpoch
    · exact Nat.add_pos_left (hcount (hlast ▸ hne)) _
    · exact Nat.add_pos_right _ (by rw [List.countP_singleton, hadopt hlast]; exact Nat.one_pos)

theorem heldUnder_back (hr : Sys.Run (Step env) w tr w') (hiss : t ∈ w.issued) (h : w'.db.HeldUnder i t) :
    w.db.HeldUnder i t := by
  obtain ⟨e', he', hh, ht⟩ := h
  obtain ⟨e, he, hhe, hte, -⟩ := held_run hr hiss he' hh ht
  exact ⟨e, he, hhe, hte⟩

/-- **A row that carries an issued token has carried it ever since.** -/
theorem carries_back (hr : Sys.Run (Step env) w tr w') (hiss : t ∈ w.issued) (h : w'.db.Carries i t) :
    w.db.Carries i t := by
  induction hr with
  | nil => exact h
  | snoc hr hst ih =>
    refine ih ?_
    obtain ⟨e', he', ht⟩ := h
    rcases hst.commit.token he' ht with ⟨e, he, hte, -⟩ | ⟨p, r, ha, hp, -⟩
    · exact ⟨e, he, hte⟩
    · exact absurd (issued_run hr hiss) (hst.fresh t (by rw [ha, ← hp]; rfl))

/-- **An execution that is there at the end of a run, and was numbered at its start, was there all along.** -/
theorem row_back (hr : Sys.Run (Step env) w tr w') (hi : i ≤ w.db.executions.lastId) {e' : ExecRow}
    (he' : w'.db.exec? i = some e') : ∃ e, w.db.exec? i = some e ∧ e'.toExecInfo = e.toExecInfo := by
  induction hr generalizing e' with
  | nil => exact ⟨e', he', rfl⟩
  | @snoc _ w₁ _ _ hr hst ih =>
    cases he₁ : w₁.db.exec? i with
    | none =>
      obtain ⟨_, _, _, _, -, -, -, -, -, hlt, -⟩ := hst.commit.new he₁ he'
      exact absurd (le_trans hi (lastId_run hr)) (not_le.2 hlt)
    | some e₁ =>
      obtain ⟨e, he, hinfo⟩ := ih he₁
      exact ⟨e, he, (hst.commit.info he₁ he').trans hinfo⟩

/-- **The history of an execution lasts as long as the execution.** -/
theorem attempt_kept (hr : Sys.Run (Step env) w tr w') {r : AttemptRow} (hmem : r ∈ w.db.attempts.rows) {e e' : ExecRow}
    (he : w.db.exec? i = some e) (hk : e.executionKey = r.executionKey) (he' : w'.db.exec? i = some e') :
    r ∈ w'.db.attempts.rows := by
  have hi := DB.exec?_le he
  induction hr generalizing e' with
  | nil => exact hmem
  | snoc hr hst ih =>
    obtain ⟨e₁, he₁, -⟩ := row_back (.single hst) (le_trans hi (lastId_run hr)) he'
    rcases hst.history_kept (ih he₁) with hkept | ⟨-, m, x, hx, hxk, hgone⟩
    · exact hkept
    · obtain ⟨e₀, he₀, hinfo⟩ := row_back hr hi he₁
      obtain rfl := Option.some.inj (he.symm.trans he₀)
      have hkey : e₁.executionKey = x.executionKey := by rw [hinfo, hk, hxk]
      obtain rfl := DB.exec?_key_inj he₁ hx hkey
      rw [he'] at hgone; cases hgone

end run

/-! ## Endings -/

/-- The calls that record what an executor reported. -/
def Action.isResult : Action → Bool
  | .complete _ _ => true
  | .retry _ _ _  => true
  | _             => false

/-- The holder whose attempt the step ends. -/
def endedOf (env : Env) (x : World × (Action × Ctx) × World) : Option Holder :=
  if (x.2.1.1.tx env x.2.1.2 x.1.db).toBool then x.2.1.1.ending else none

theorem Action.closing_of_ending {k : Holder} (h : a.ending = some k) :
    a.closing = some ⟨k.jobName, k.executionId, k.runToken, k.fenceEpoch⟩ := by
  cases a <;> cases h <;> rfl

theorem endedOf_eq_some {w w' : World} {l : Action × Ctx} {k : Holder} (hst : Step env w l w')
    (h : endedOf env (w, l, w') = some k) : l.1.ending = some k ∧ l.1.tx env l.2 w.db = .ok ((), w'.db) := by
  unfold endedOf at h
  split at h
  · rename_i hok
    refine ⟨h, ?_⟩
    rcases Tx.commit_cases (l.1.tx env l.2) w.db with ⟨err, herr, -⟩ | ⟨u, hx⟩
    · have hok : (l.1.tx env l.2 w.db).toBool = true := hok
      rw [herr] at hok; cases hok
    · rw [← hst.db] at hx
      exact hx
  · cases h

/-- **What an ending does**: it ends an attempt that holds its row, for good, and leaves its history. -/
theorem Step.ended {w w' : World} {l : Action × Ctx} {k : Holder} (hst : Step env w l w')
    (hinv : HolderInv w.db w.issued) (h : endedOf env (w, l, w') = some k) :
    w.db.HeldUnder k.executionId k.runToken ∧ (∀ i, ¬ w'.db.HeldUnder i k.runToken) ∧
      ∃ r ∈ w'.db.attempts.rows, r.key = (k.executionKey, k.runToken) := by
  obtain ⟨hend, hok⟩ := endedOf_eq_some hst h
  obtain ⟨_, _, ha, _, _, he, _, hrow, hm, _, hf, hrec⟩ := l.1.closes_of_ok hok hend
  obtain rfl := Option.some.inj ((Action.closing_of_ending hend).symm.trans ha)
  obtain ⟨hheld, hfree⟩ := hm.closed ha
  have htok := (ExecRow.owned_iff.1 hrow).1
  refine ⟨⟨_, he, hheld, htok⟩, ?_, ?_⟩
  · rintro i ⟨x', hx', hxh, hxt⟩
    obtain ⟨x, hx, -, hxt₀, -⟩ := hst.held_before (hinv.issued _ _ _ he htok) hx' hxh hxt
    obtain rfl := hinv.tokens _ _ _ _ _ hx he hxt₀ htok
    rw [← Option.some.inj (hf.exec?.symm.trans hx'), hfree] at hxh
    cases hxh
  · obtain ⟨o, -, hatt⟩ := hrec k hend
    rw [hatt]
    exact w.db.mem_addAttempt (o.attemptRow l.2 k _)

section history

variable {u : Utc} {tr : History} {w : World} (hr : Sys.Run (Step env) (World.init u) tr w)

include hr

/-- **An ended token is never held again.** -/
theorem ended_closed {x : World × (Action × Ctx) × World} (hx : x ∈ tr) {k : Holder} (hk : endedOf env x = some k) :
    k.runToken ∈ w.issued ∧ ∀ i, ¬ w.db.HeldUnder i k.runToken := by
  obtain ⟨pre, post, -, hpre, hst, hpost⟩ := hr.split hx
  have hinv := HolderInv.run hpre
  obtain ⟨⟨e, he, -, ht⟩, hfree, -⟩ := hst.ended hinv hk
  have hiss := hst.issued_of_mem (hinv.issued _ _ _ he ht)
  exact ⟨issued_run hpost hiss, fun i h => hfree i (heldUnder_back hpost hiss h)⟩

/-- **An attempt ends once.** -/
theorem ended_once {x y : World × (Action × Ctx) × World} (hx : x ∈ tr) (hy : y ∈ tr) {k k' : Holder}
    (hk : endedOf env x = some k) (hk' : endedOf env y = some k') (ht : k.runToken = k'.runToken) :
    x.2.1.1.isResult = y.2.1.1.isResult := by
  obtain ⟨pre, post, rfl, hpre, hst, hpost⟩ := hr.split hx
  -- The step that comes later finds its token held, which the earlier one rules out.
  rcases List.mem_append.1 hy with hy | hy
  · obtain ⟨hheld, -⟩ := hst.ended (HolderInv.run hpre) hk
    exact absurd (ht ▸ hheld) ((ended_closed hpre hy hk').2 _)
  · rcases List.mem_cons.1 hy with rfl | hy
    · rfl
    · obtain ⟨mid, _, -, hmid, hsty, -⟩ := hpost.split hy
      have hrun := (hpre.snoc hst).append hmid
      obtain ⟨hheld, -⟩ := hsty.ended (HolderInv.run hrun) hk'
      exact absurd (ht ▸ hheld) ((ended_closed hrun (x := x) (by simp) hk).2 _)

/-- **Every row of history was written by the step that ended its attempt**, under the number the execution had then. -/
theorem attempt_origin {r : AttemptRow} (hmem : r ∈ w.db.attempts.rows) :
    ∃ x ∈ tr, ∃ k, endedOf env x = some k ∧ r.key = (k.executionKey, k.runToken) ∧
      ∃ e, x.2.2.db.exec? k.executionId = some e ∧ r.attemptNo = e.attemptNo := by
  refine Sys.Run.history (J := fun tr w => ∀ r ∈ w.db.attempts.rows, ∃ x ∈ tr, ∃ k, endedOf env x = some k ∧
    r.key = (k.executionKey, k.runToken) ∧ ∃ e, x.2.2.db.exec? k.executionId = some e ∧ r.attemptNo = e.attemptNo)
    (fun r hr => by cases hr) ?_ hr r hmem
  intro tr w l w' hr ih hst r hmem
  have before : r ∈ w.db.attempts.rows → ∃ x ∈ tr ++ [(w, l, w')], ∃ k, endedOf env x = some k ∧
      r.key = (k.executionKey, k.runToken) ∧
      ∃ e, x.2.2.db.exec? k.executionId = some e ∧ r.attemptNo = e.attemptNo := fun h => by
    obtain ⟨x, hx, hk⟩ := ih r h
    exact ⟨x, List.mem_append_left _ hx, hk⟩
  rcases Tx.commit_cases (l.1.tx env l.2) w.db with ⟨_, _, hsame⟩ | ⟨u, hok⟩
  · rw [← hst.db] at hsame
    exact before (hsame ▸ hmem)
  · rw [← hst.db] at hok
    cases l.1.history_of_ok hok with
    | kept _ hkept => exact before (hkept ▸ hmem)
    | reaped _ hsub _ => exact before (hsub r hmem)
    | @recorded k hend hcl =>
      obtain ⟨_, _, ha, _, _, _, _, _, _, _, hf, hrec⟩ := hcl
      obtain rfl := Option.some.inj ((Action.closing_of_ending hend).symm.trans ha)
      obtain ⟨o, -, hatt⟩ := hrec k hend
      rw [hatt] at hmem
      rcases DB.mem_of_addAttempt hmem with hmem | rfl
      · exact before hmem
      · refine ⟨(w, l, w'), by simp, k, ?_, rfl, _, hf.exec?, rfl⟩
        unfold endedOf
        rw [if_pos (by show (l.1.tx env l.2 w.db).toBool = true; rw [hok]; rfl)]
        exact hend

/-- A held token has no history yet. -/
theorem held_unwritten {i : Nat} {t : String} (h : w.db.HeldUnder i t) (key : String) : w.db.attempt? key t = none := by
  cases hx : w.db.attempt? key t with
  | none => rfl
  | some r =>
    obtain ⟨x, hx', k, hk, hkey, -⟩ := attempt_origin hr (Table.mem_of_get? hx)
    obtain rfl : t = k.runToken := by
      have := Table.get?_key hx
      rw [hkey] at this
      exact (Prod.mk.inj this).2.symm
    exact absurd h ((ended_closed hr hx' hk).2 i)

/-- **What has ended is on record as long as the execution is there.** -/
theorem ended_on_record {x : World × (Action × Ctx) × World} (hx : x ∈ tr) {k : Holder} (hk : endedOf env x = some k)
    {i : Nat} {e : ExecRow} (he : w.db.exec? i = some e) (hkey : e.executionKey = k.executionKey)
    (hi : i ≤ x.2.2.db.executions.lastId) : (w.db.attempt? k.executionKey k.runToken).isSome = true := by
  obtain ⟨pre, post, -, hpre, hst, hpost⟩ := hr.split hx
  obtain ⟨-, -, r, hmem, hrk⟩ := hst.ended (HolderInv.run hpre) hk
  obtain ⟨e₀, he₀, hinfo⟩ := row_back hpost hi he
  have hrkey : r.executionKey = k.executionKey := (Prod.mk.inj hrk).1
  have hkept := attempt_kept hpost hmem he₀ (by rw [hrkey, ← hkey, hinfo]) he
  rw [DB.attempt?, Table.get?_eq_some.2 ⟨hkept, hrk⟩]
  rfl

end history

end GoJob
