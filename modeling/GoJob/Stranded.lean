import GoJob.Drain
/-!
# Stranded — what a retirement leaves behind (`retire`, `passes.go`)

`StopClaiming` only signals.  A pass that has got past its check may still commit a claim or an adoption, also after the
release has found nothing of its own any more; and what the release adopts itself it has to end before its cap.
-/
namespace GoJob

open Rel Tx Sys Dialog

variable {env : Env} {c : Ctx} {a : Action} {w w' : World} {inst : String}

/-! ## Who holds a row -/

/-- The instance that a call takes an execution for. -/
def Action.acquirer : Action → Option String
  | .claim p _       => some p.owner
  | .adopt _ o _ _ _ => some o
  | _                => none

/-- What an owner knows its row by. -/
structure Grip where
  id         : Nat
  jobName    : String
  runToken   : Option String
  fenceEpoch : Nat
  timeoutAt  : Option Utc

def ExecRow.grip (e : ExecRow) : Grip := ⟨e.id, e.jobName, e.runToken, e.fenceEpoch, e.timeoutAt⟩

/-- Every row that is held by `inst` is held so. -/
def DB.Grips (inst : String) (P : Grip → Prop) (db : DB) : Prop :=
  ∀ i e, db.exec? i = some e → e.status.held = true → e.ownerInstance = some inst → P e.grip

/-- No row is held by `inst`. -/
def DB.Rid (inst : String) (db : DB) : Prop := db.Grips inst fun _ => False

/-- **Only who takes a row over becomes its owner**, and nobody else changes what the owner knows it by. -/
theorem ExecMove.grip {e e' : ExecRow} (h : ExecMove c a e e') (hh : e'.status.held = true)
    (ho : e'.ownerInstance = some inst) (ha : a.acquirer ≠ some inst) :
    e.status.held = true ∧ e.ownerInstance = some inst ∧ e'.grip = e.grip := by
  have ended : ∀ {x : Status} {p : Prop}, e'.status = x → x.held = false → p := fun hx hx' => by
    rw [hx, hx'] at hh; cases hh
  cases h with
  | dispatch => exact absurd ho ha
  | adopt => exact absurd ho ha
  | defer _ hs => exact ended hs rfl
  | expire => exact ended rfl rfl
  | skip => exact ended rfl rfl
  | accept _ hu => exact ⟨by rw [(ExecRow.unaccepted_iff.1 hu).1]; rfl, ho, rfl⟩
  | retarget => exact ⟨hh, ho, rfl⟩
  | refuse => exact ended rfl (by simp only [refuseWrite]; split <;> rfl)
  | renew => exact ⟨hh, ho, rfl⟩
  | extend => exact ⟨hh, ho, rfl⟩
  | complete _ ht => exact ended rfl (Status.not_held_of_terminal ht)
  | retry => exact ended rfl (by simp only [retryWrite]; split <;> rfl)
  | cancel _ hs => exact ⟨Status.held_of_cancellable hs, ho, rfl⟩
  | resolve => exact ended rfl (resolvedStatus_not_held _)
  | fence => exact ended rfl (Status.not_held_of_terminal (endedStatus_terminal _))
  | silence => exact ended rfl (Status.not_held_of_terminal (endedStatus_terminal _))
  | release => exact ended rfl (Status.not_held_of_terminal (endedStatus_terminal _))
  | retireReady => exact ended rfl rfl
  | retireHeld _ hs => exact ⟨Status.held_of_cancellable hs, ho, rfl⟩
  | revive => exact ended rfl rfl

theorem Step.grips {P : Grip → Prop} {l : Action × Ctx} (hst : Step env w l w') (ha : l.1.acquirer ≠ some inst)
    (h : w.db.Grips inst P) : w'.db.Grips inst P := by
  intro i e' he' hh ho
  cases he : w.db.exec? i with
  | none =>
    obtain ⟨_, _, _, _, _, _, _, hnew, -⟩ := hst.commit.new he he'
    rw [hnew.fresh.status] at hh
    cases hh
  | some e =>
    rcases hst.commit.moved he he' with rfl | hm
    · exact h i e' he hh ho
    · obtain ⟨hh₀, ho₀, hgrip⟩ := hm.grip hh ho ha
      rw [hgrip]
      exact h i e he hh₀ ho₀

theorem Action.acquirer_of_ending {k : Holder} (h : a.ending = some k) : a.acquirer = none := by
  cases a <;> first | rfl | cases h

namespace Drain

/-! ## The engine's own passes -/

/-- A schema and the engine that retires from it: whether `StopClaiming` is still to come, and how many of the engine's
passes have got past their check and are about to claim or adopt. -/
structure Site where
  world    : World
  claiming : Bool
  admitted : Nat

/-- What happens beside the retirement.  The passes of the engine that hold what they have, and everybody else, act as
`others`. -/
inductive Site.Step (env : Env) (inst : String) : Site → Option (Action × Ctx) → Site → Prop
  | others {w l w' b n} (hst : GoJob.Step env w l w') (ha : l.1.acquirer ≠ some inst) :
      Site.Step env inst ⟨w, b, n⟩ (some l) ⟨w', b, n⟩
  | check {w n} : Site.Step env inst ⟨w, true, n⟩ none ⟨w, true, n + 1⟩
  | abandon {w b n} : Site.Step env inst ⟨w, b, n + 1⟩ none ⟨w, b, n⟩
  | acquire {w l w' b n} (hst : GoJob.Step env w l w') (ha : l.1.acquirer = some inst) :
      Site.Step env inst ⟨w, b, n + 1⟩ (some l) ⟨w', b, n⟩

/-- How the retirement is answered while the database does not fail; `Stop` waits for every pass. -/
def Site.Serves (env : Env) (inst : String) (s : Site) (q : Ask) (r : q.Answer) (s' : Site) : Prop :=
  match q, r with
  | .stopClaiming, _ => s' = { s with claiming := false }
  | .stop, _ => s.admitted = 0 ∧ s' = s
  | q, r => Drain.Serves env inst (fun _ => True) s.world q r s'.world ∧ s'.claiming = s.claiming ∧
      s'.admitted = s.admitted

variable {P : Grip → Prop} {s s' : Site} {U : Exchange Site Ask.Answer → Prop} {cfg : Config} {ρ : Type}

/-- The engine has stopped claiming, none of its passes is past its check, and its rows are held so. -/
structure Gripped (env : Env) (inst : String) (P : Grip → Prop) (s : Site) : Prop where
  reach   : Reachable env s.world
  stopped : s.claiming = false
  passes  : s.admitted = 0
  rows    : s.world.db.Grips inst P

theorem Gripped.stable : Stable (Site.Step env inst) (Gripped env inst P) := by
  intro s l s' h hl
  cases hl with
  | others hst ha => exact ⟨h.reach.step hst, h.stopped, h.passes, hst.grips ha h.rows⟩
  | check => cases h.stopped
  | abandon => cases h.passes
  | acquire => cases h.passes

theorem Gripped.waits (h : Gripped env inst P s) (hw : s.world.Waits s'.world)
    (hs : s'.claiming = s.claiming ∧ s'.admitted = s.admitted) : Gripped env inst P s' :=
  ⟨h.reach.waits hw, hs.1.trans h.stopped, hs.2.trans h.passes, by rw [hw.db]; exact h.rows⟩

/-- Only a call that acquires can change it. -/
theorem Gripped.serves {q : Ask} {r : q.Answer} (h : Gripped env inst P s) (hs : Site.Serves env inst s q r s')
    (hq : ∀ a, q = .call a → a.acquirer ≠ some inst) : Gripped env inst P s' := by
  cases q with
  | stopClaiming =>
    obtain rfl : s' = _ := hs
    exact ⟨h.reach, rfl, h.passes, h.rows⟩
  | stop =>
    obtain rfl : s' = s := hs.2
    exact h
  | call a =>
    obtain ⟨⟨c, hc⟩, hb, hn⟩ := hs
    exact ⟨h.reach.step hc.step, hb.trans h.stopped, hn.trans h.passes, hc.step.grips (hq a rfl) h.rows⟩
  | owned n => exact h.waits hs.1.1 hs.2
  | stale n => exact h.waits hs.1.1 hs.2
  | definition j => exact h.waits hs.1.1 hs.2
  | _ => exact h.waits hs.1 hs.2

/-- The answers, where `U` is known of every exchange. -/
def Hears (env : Env) (inst : String) (U : Exchange Site Ask.Answer → Prop) (s : Site) (q : Ask) (r : q.Answer)
    (s' : Site) : Prop := Site.Serves env inst s q r s' ∧ U ⟨s, q, r, s'⟩

/-- A thread that acquires nothing. -/
theorem CallsOnly.gripped {p : Thread ρ} (hp : CallsOnly (fun a => a.acquirer ≠ some inst) p) :
    Triple (Hears env inst U) (Site.Step env inst) (Gripped env inst P) p (fun _ => Gripped env inst P) :=
  Asks.triple Gripped.stable (fun _ _ _ _ hq h hs => h.serves hs.1 hq) hp

theorem ending_calls {k : Holder} (h : a.ending = some k) : a.acquirer ≠ some inst := by
  rw [Action.acquirer_of_ending h]
  simp

/-! ## What the sweep adopts -/

/-- Row `v` as `Adopt` leaves it, with its cap not before `T`. -/
def adoptedGrip (v : Stale) (T : Utc) (g : Grip) : Prop :=
  g.id = v.id ∧ g.jobName = v.jobName ∧ g.runToken = some v.runToken ∧ g.fenceEpoch = v.fenceEpoch + 1 ∧
    past g.timeoutAt T = false

/-- No cap of a row the retirement adopts elapses before it is over. -/
def CapsHold (inst : String) (T : Utc) (x : Exchange Site Ask.Answer) : Prop :=
  ∀ v l sil promote, x.question = .call (.adopt v inst l sil promote) →
    ∀ e, x.after.world.db.exec? v.id = some e → past e.timeoutAt T = false

/-- **An adoption is the only grip of the engine.** -/
theorem adopt_grips {v : Stale} {l sil : Int} {promote : Bool} {T : Utc} {r : Except Err Unit}
    (h : Gripped env inst (fun _ => False) s) (hs : Site.Serves env inst s (.call (.adopt v inst l sil promote)) r s')
    (hcap : ∀ e, s'.world.db.exec? v.id = some e → past e.timeoutAt T = false) :
    (Gripped env inst (adoptedGrip v T) s' ∧ r = .ok ()) ∨
      (Gripped env inst (fun _ => False) s' ∧ ∃ err, r = .error err) := by
  obtain ⟨⟨c, hc⟩, hb, hn⟩ := hs
  have hreach := h.reach.step hc.step
  cases hr : r with
  | error err =>
    refine Or.inr ⟨⟨hreach, hb.trans h.stopped, hn.trans h.passes, ?_⟩, err, rfl⟩
    rw [hc.step.db_of_error (hc.answer.symm.trans hr)]
    exact h.rows
  | ok u =>
    obtain ⟨_, hok⟩ := unit_ok (hc.step.tx_ok (hc.answer.symm.trans hr))
    obtain ⟨-, x, e, hx, he, hxo, -, hh, heo, -, hf⟩ := adopt_ok hok
    refine Or.inl ⟨⟨hreach, hb.trans h.stopped, hn.trans h.passes, fun i e' he' hh' ho' => ?_⟩, rfl⟩
    by_cases hi : i = v.id
    · subst hi
      have hcap' := hcap e' he'
      rw [hf.execs, if_pos rfl, Option.some.injEq] at he'
      obtain ⟨_, _, hrun⟩ := h.reach
      obtain ⟨hj, -⟩ := (HolderInv.run hrun).holder hx (StateRow.owned_iff.1 hxo).1 he (ExecRow.owned_iff.1 heo).1
      subst he'
      exact ⟨show e.id = v.id from DB.exec?_id he, hj, (ExecRow.owned_iff.1 heo).1, rfl, hcap'⟩
    · rw [hf.execs, if_neg hi] at he'
      exact (h.rows i e' he' hh' ho').elim

/-- **The result ends it.** -/
theorem apply_lets_go {v : Stale} {T : Utc} {oc : ExecutionOutcome} {x : String} {b : Int} {r : Except Err Unit}
    (h : Gripped env inst (adoptedGrip v T) s) (hT : s'.world.utc ≤ T) (hs : Site.Serves env inst s
      (.call (apply { v.holder with owner := inst, fenceEpoch := v.fenceEpoch + 1 } oc x b)) r s') :
    Gripped env inst (fun _ => False) s' := by
  have hcall : ∀ a, Ask.call (apply { v.holder with owner := inst, fenceEpoch := v.fenceEpoch + 1 } oc x b) = .call a →
      a.acquirer ≠ some inst := fun a ha => Ask.call.inj ha ▸ ending_calls (apply_ending _ oc x b)
  by_cases hrid : s.world.db.Rid inst
  · exact Gripped.serves ⟨h.reach, h.stopped, h.passes, hrid⟩ hs hcall
  · have hlater := h.serves hs hcall
    obtain ⟨⟨c, hc⟩, -⟩ := hs
    unfold DB.Rid DB.Grips at hrid
    push Not at hrid
    obtain ⟨i, e, he, hh, ho, -⟩ := hrid
    obtain ⟨hid, hj, htok, hn, hcap⟩ := h.rows i e he hh ho
    obtain rfl : i = v.id := (DB.exec?_id he).symm.trans hid
    have hgone := hc.apply_ends (T := T) ⟨h.reach, e, he, hj, hh, htok, hn, hcap⟩ hT
    refine ⟨hlater.reach, hlater.stopped, hlater.passes, fun k x hx hxh hxo => ?_⟩
    have hk : k = v.id := (DB.exec?_id hx).symm.trans (hlater.rows k x hx hxh hxo).1
    rw [hk] at hx
    exact Bool.noConfusion (hxh.symm.trans (hgone x hx))

section sweep

variable {T : Utc} (hclock : ∀ x, U x → x.after.world.utc ≤ T) (hcaps : ∀ x, U x → CapsHold cfg.instanceId T x)

include hclock hcaps

theorem adoptResult_gripped (v : Stale) (oc : ExecutionOutcome) :
    Triple (Hears env cfg.instanceId U) (Site.Step env cfg.instanceId) (Gripped env cfg.instanceId fun _ => False)
      (adoptResult cfg v oc) (fun _ => Gripped env cfg.instanceId fun _ => False) := by
  refine (leaseSecondsFor_calls _).gripped.seq fun l => ?_
  refine .ask Gripped.stable (fun s r s' h hq => adopt_grips h hq.1 (hcaps _ hq.2 _ _ _ _ rfl)) fun r =>
    .or (.given ?_) (.given ?_)
  · rintro rfl
    refine .seq (m := fun _ => Gripped env cfg.instanceId fun _ => False) ?_ fun _ =>
      .done (fun _ h => h) Gripped.stable
    refine .ask Gripped.stable (fun s b s' h hq => h.serves hq.1 (by simp)) fun b => ?_
    exact .ask (m := fun _ => Gripped env cfg.instanceId fun _ => False) Gripped.stable
      (fun s r s' h hq => apply_lets_go h (hclock _ hq.2) hq.1) fun _ => .done (fun _ h => h) Gripped.stable
  · rintro ⟨err, rfl⟩
    refine CallsOnly.gripped ?_
    dsimp only
    split
    · exact (fenceTimedOut_calls (ending_calls (k := v.holder) rfl)).seq fun _ => .pure
    · exact .pure

theorem recoverOne_gripped (v : Stale) :
    Triple (Hears env cfg.instanceId U) (Site.Step env cfg.instanceId) (Gripped env cfg.instanceId fun _ => False)
      (recoverOne cfg false v) (fun _ => Gripped env cfg.instanceId fun _ => False) := by
  refine (reconcile_calls v).gripped.seq fun r => ?_
  split
  · exact CallsOnly.pure.gripped
  refine (mayRecover_calls false).gripped.seq fun ok => ?_
  cases ok with
  | false => exact CallsOnly.pure.gripped
  | true =>
    show Triple _ _ _ (settle cfg false v _) _
    unfold settle
    split
    · exact CallsOnly.pure.gripped
    · split
      · exact adoptResult_gripped hclock hcaps v _
      · refine CallsOnly.gripped (.ask (by simp) fun b => .call (ending_calls (k := v.holder) rfl) fun r => ?_)
        cases r <;> exact .pure

theorem recoverPage_gripped (page : List Stale) :
    Triple (Hears env cfg.instanceId U) (Site.Step env cfg.instanceId) (Gripped env cfg.instanceId fun _ => False)
      (recoverPage cfg false page) (fun _ => Gripped env cfg.instanceId fun _ => False) := by
  induction page with
  | nil => exact CallsOnly.pure.gripped
  | cons v page ih =>
    refine (mayRecover_calls false).gripped.seq fun ok => ?_
    cases ok with
    | false => exact CallsOnly.pure.gripped
    | true =>
      refine (recoverOne_gripped hclock hcaps v).seq fun settled => ih.seq fun r => ?_
      cases r <;> exact CallsOnly.pure.gripped

theorem recoverStale_gripped (pages : Nat) (unsettled : Bool) :
    Triple (Hears env cfg.instanceId U) (Site.Step env cfg.instanceId) (Gripped env cfg.instanceId fun _ => False)
      (recoverStale cfg false pages unsettled) (fun _ => Gripped env cfg.instanceId fun _ => False) := by
  induction pages generalizing unsettled with
  | zero => exact CallsOnly.pure.gripped
  | succ pages ih =>
    refine .ask Gripped.stable (fun s r s' h hq => h.serves hq.1 (by simp)) fun r => ?_
    cases r with
    | error err => exact CallsOnly.pure.gripped
    | ok stale =>
      show Triple _ _ _ (if stale.isEmpty = true then _ else _) _
      split
      · exact CallsOnly.pure.gripped
      · refine (recoverPage_gripped hclock hcaps stale).seq fun r => ?_
        cases r with
        | none => exact CallsOnly.pure.gripped
        | some x =>
          show Triple _ _ _ (if x.1 = 0 then _ else _) _
          split
          · exact CallsOnly.pure.gripped
          · exact ih _

end sweep

/-! ## The release -/

/-- The engine has stopped claiming. -/
structure Stopped (env : Env) (s : Site) : Prop where
  reach   : Reachable env s.world
  stopped : s.claiming = false

theorem Stopped.stable : Stable (Site.Step env inst) (Stopped env) := by
  intro s l s' h hl
  cases hl with
  | others hst => exact ⟨h.reach.step hst, h.stopped⟩
  | check => cases h.stopped
  | abandon => exact ⟨h.reach, h.stopped⟩
  | acquire hst => exact ⟨h.reach.step hst, h.stopped⟩

theorem Stopped.serves {q : Ask} {r : q.Answer} (h : Stopped env s) (hs : Site.Serves env inst s q r s') :
    Stopped env s' := by
  cases q with
  | stopClaiming =>
    obtain rfl : s' = _ := hs
    exact ⟨h.reach, rfl⟩
  | stop =>
    obtain rfl : s' = s := hs.2
    exact h
  | call a =>
    obtain ⟨⟨c, hc⟩, hb, -⟩ := hs
    exact ⟨h.reach.step hc.step, hb.trans h.stopped⟩
  | owned n => exact ⟨h.reach.waits hs.1.1, hs.2.1.trans h.stopped⟩
  | stale n => exact ⟨h.reach.waits hs.1.1, hs.2.1.trans h.stopped⟩
  | definition j => exact ⟨h.reach.waits hs.1.1, hs.2.1.trans h.stopped⟩
  | _ => exact ⟨h.reach.waits hs.1, hs.2.1.trans h.stopped⟩

theorem stopped_triple (p : Thread ρ) :
    Triple (Hears env inst U) (Site.Step env inst) (Stopped env) p (fun _ => Stopped env) :=
  Asks.triple Stopped.stable (fun _ _ _ _ _ h hs => h.serves hs.1) (asks_any p)

/-- When the release finds nothing of its own, no pass is past its check. -/
def PassesOver (x : Exchange Site Ask.Answer) : Prop :=
  ∀ s n s', x = ⟨s, .owned n, .ok [], s'⟩ → s.admitted = 0

/-- **An empty page says that nothing is left.** -/
theorem owned_gripped {l : List Stale} (h : Stopped env s) (hpasses : s.admitted = 0)
    (hs : Site.Serves env inst s (.owned 200) (.ok l) s') (hl : l = []) : Gripped env inst (fun _ => False) s' := by
  obtain ⟨⟨hwait, hpage⟩, hb, hn⟩ := hs
  refine ⟨h.reach.waits hwait, hb.trans h.stopped, hn.trans hpasses, fun i e he hh ho => ?_⟩
  rw [hwait.db] at he
  obtain rfl := DB.exec?_id he
  have hempty : s.world.db.ownedByInstance inst s'.world.utc 200 = [] := (Except.ok.inj hpage).symm.trans hl
  have hscan := List.map_eq_nil_iff.1 hempty
  have hroom : (s.world.db.scan (fun e => e.status.held && decide (e.ownerInstance = some inst)) (fun _ => 0)
      200).length < 200 := by
    rw [hscan]
    decide
  have hmem := DB.mem_scan_of_room (Or.inl hroom) he (by simp [hh, ho])
  rw [hscan] at hmem
  cases hmem

theorem stable_of {P : Prop} {I : Site → Prop} (h : Stable (Site.Step env inst) I) :
    Stable (Site.Step env inst) (fun s => P → I s) := fun s l s' hs hl hp => h s l s' (hs hp) hl

theorem releaseOwned_gripped (hidle : ∀ x, U x → PassesOver x) (pages : Nat) (deferred : Bool) :
    Triple (Hears env cfg.instanceId U) (Site.Step env cfg.instanceId) (Stopped env)
      (releaseOwned cfg pages deferred)
      (fun r s => r.isSome = true → Gripped env cfg.instanceId (fun _ => False) s) := by
  have hstop : Triple (Hears env cfg.instanceId U) (Site.Step env cfg.instanceId) (Stopped env) (return none)
      (fun (r : Option Bool) s => r.isSome = true → Gripped env cfg.instanceId (fun _ => False) s) :=
    .done (fun _ _ hr => by cases hr) (stable_of Gripped.stable)
  induction pages generalizing deferred with
  | zero => exact hstop
  | succ pages ih =>
    refine .ask (m := fun r s => Stopped env s ∧ (r = .ok [] → Gripped env cfg.instanceId (fun _ => False) s))
      Stopped.stable (fun s r s' h hq => ⟨h.serves hq.1, ?_⟩) fun r => ?_
    · rintro rfl
      exact owned_gripped h (hidle _ hq.2 s 200 s' rfl) hq.1 rfl
    · cases r with
      | error err => exact hstop.mono (fun _ h => h.1) fun _ _ h => h
      | ok l =>
        cases l with
        | nil => exact .done (fun s h _ => h.2 rfl) (stable_of Gripped.stable)
        | cons v l =>
          refine Triple.mono (B := Stopped env) ?_ (fun _ h => h.1) fun _ _ h => h
          refine (stopped_triple (releasePage cfg (v :: l))).seq fun x => ?_
          show Triple _ _ _ (if x.1 = true then _ else _) _
          split
          · exact ih _
          · exact hstop

theorem releaseOwnedWork_gripped {T : Utc} (hclock : ∀ x, U x → x.after.world.utc ≤ T)
    (hcaps : ∀ x, U x → CapsHold cfg.instanceId T x) (hidle : ∀ x, U x → PassesOver x) :
    Triple (Hears env cfg.instanceId U) (Site.Step env cfg.instanceId) (Stopped env) (releaseOwnedWork cfg)
      (fun r s => r = false → Gripped env cfg.instanceId (fun _ => False) s) := by
  refine (releaseOwned_gripped hidle 100 false).seq fun r => ?_
  cases r with
  | none => exact .done (fun _ _ hr => by cases hr) (stable_of Gripped.stable)
  | some deferred =>
    refine Triple.mono (B := Gripped env cfg.instanceId fun _ => False) ?_ (fun _ h => h rfl) fun _ _ h => h
    exact (recoverStale_gripped hclock hcaps 100 false).seq fun _ => .done (fun _ h _ => h) (stable_of Gripped.stable)

theorem retire_gripped {T : Utc} (hclock : ∀ x, U x → x.after.world.utc ≤ T)
    (hcaps : ∀ x, U x → CapsHold cfg.instanceId T x) (hidle : ∀ x, U x → PassesOver x) :
    Triple (Hears env cfg.instanceId U) (Site.Step env cfg.instanceId) (fun s => Reachable env s.world) (retire cfg)
      (fun r s => r = true → Gripped env cfg.instanceId (fun _ => False) s) := by
  have hreach : Stable (Site.Step env cfg.instanceId) (fun s => Reachable env s.world) := by
    intro s l s' h hl
    cases hl with
    | others hst => exact h.step hst
    | check => exact h
    | abandon => exact h
    | acquire hst => exact h.step hst
  refine .ask (m := fun _ => Stopped env) hreach (fun s r s' h hq => ?_) fun _ => ?_
  · obtain rfl : s' = _ := hq.1
    exact ⟨h, rfl⟩
  refine .ask (m := fun _ => Stopped env) Stopped.stable (fun s r s' h hq => h.serves hq.1) fun _ => ?_
  refine (releaseOwnedWork_gripped hclock hcaps hidle).seq fun r => ?_
  cases r with
  | true => exact .done (fun _ _ hr => by cases hr) (stable_of Gripped.stable)
  | false =>
    refine Triple.mono (B := Gripped env cfg.instanceId fun _ => False) ?_ (fun _ h => h rfl) fun _ _ h => h
    exact .ask Gripped.stable (fun s r s' h hq => h.serves hq.1 (by simp)) fun _ =>
      .done (fun _ h _ => h) (stable_of Gripped.stable)

theorem Site.Step.utc_le {l : Option (Action × Ctx)} (h : Site.Step env inst s l s') : s.world.utc ≤ s'.world.utc := by
  cases h with
  | others hst => exact hst.utc_le
  | acquire hst => exact hst.utc_le
  | _ => exact le_refl _

theorem Site.Serves.utc_le {q : Ask} {r : q.Answer} (h : Site.Serves env inst s q r s') :
    s.world.utc ≤ s'.world.utc := by
  cases q with
  | stopClaiming => rw [show s' = _ from h]
  | stop => rw [show s' = s from h.2]
  | call a =>
    obtain ⟨⟨c, hc⟩, -⟩ := h
    exact hc.step.utc_le
  | owned n => exact h.1.1.clock
  | stale n => exact h.1.1.clock
  | definition j => exact h.1.1.clock
  | _ => exact h.1.clock

theorem site_clock {p : Thread ρ} {ev : List (Event Site (Option (Action × Ctx)) Ask.Answer)} {r : ρ}
    (h : Exec (Site.Serves env inst) (Site.Step env inst) p s ev r s') :
    s.world.utc ≤ s'.world.utc ∧ ∀ x ∈ own ev, x.after.world.utc ≤ s'.world.utc := by
  induction h with
  | done => exact ⟨le_refl _, by simp [own]⟩
  | other hl _ ih => exact ⟨le_trans hl.utc_le ih.1, ih.2⟩
  | ask hq _ ih =>
    refine ⟨le_trans hq.utc_le ih.1, fun x hx => ?_⟩
    rcases List.mem_cons.1 (show x ∈ _ :: own _ from hx) with rfl | hx
    · exact ih.1
    · exact ih.2 x hx

/-- A retirement among the engine's passes and everybody else. -/
abbrev Retires (env : Env) (cfg : Config) (s : Site) (ev : List (Event Site (Option (Action × Ctx)) Ask.Answer))
    (removed : Bool) (s' : Site) : Prop :=
  Exec (Site.Serves env cfg.instanceId) (Site.Step env cfg.instanceId) (retire cfg) s ev removed s'

def siteConfig : Config := ⟨"scheduler", 100, 60⟩

/-- An engine that has one ready pass in sight. -/
def lateSite (claiming : Bool) (admitted : Nat) : Site := ⟨(World.init 0).play bareEnv firstPass, claiming, admitted⟩

section late

variable {n : Nat}

theorem lateSite_waits : (lateSite false n).world.Waits (lateSite false n).world := ⟨le_refl _, rfl, rfl⟩

theorem lateSite_stops :
    Site.Serves bareEnv siteConfig.instanceId (lateSite true n) .stopClaiming () (lateSite false n) := rfl

theorem lateSite_owned :
    Site.Serves bareEnv siteConfig.instanceId (lateSite false n) (.owned 200) (.ok []) (lateSite false n) :=
  ⟨⟨lateSite_waits, congrArg Except.ok (show [] = ((World.init 0).play bareEnv firstPass).db.ownedByInstance
    "scheduler" ((World.init 0).play bareEnv firstPass).utc 200 by decide +kernel)⟩, rfl, rfl⟩

theorem lateSite_stale :
    Site.Serves bareEnv siteConfig.instanceId (lateSite false n) (.stale 100) (.ok []) (lateSite false n) :=
  ⟨⟨lateSite_waits, congrArg Except.ok (show [] = ((World.init 0).play bareEnv firstPass).db.staleExecutions
    ((World.init 0).play bareEnv firstPass).utc 100 by decide +kernel)⟩, rfl, rfl⟩

end late

/-- The same after the claim. -/
def strandedSite : Site := ⟨(lateSite false 1).world.call bareEnv (claimPass "t1") 2, false, 0⟩

/-- The release finds nothing, the pass commits its claim, and `Stop` has nothing left to wait for. -/
theorem late_retirement : ∃ ev, Retires bareEnv siteConfig (lateSite true 1) ev true strandedSite := by
  have hclaim : Step bareEnv (lateSite false 1).world (claimPass "t1", Ctx.at_ 2) strandedSite.world :=
    World.step_call bareEnv (by decide) (by decide)
  exact ⟨_, Exec.ask (q := Ask.stopClaiming) lateSite_stops <|
    Exec.ask (q := Ask.drained) (a := ()) ⟨lateSite_waits, rfl, rfl⟩ <|
    Exec.ask (q := Ask.owned 200) lateSite_owned <| Exec.ask (q := Ask.stale 100) lateSite_stale <|
    Exec.other (.acquire hclaim rfl) <| Exec.ask (q := Ask.stop) (a := ()) ⟨rfl, rfl⟩ .done⟩

end Drain
end GoJob
