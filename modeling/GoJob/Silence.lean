import GoJob.Expiry
/-!
# Silence — the silence scan against recovery (`resolveSilent`, `ExpireSilent`)

`Silent` lists rows whose lease is live, and recovery's scan those whose lease is out, so that each row has one judge.
The executor is asked between the scan and `ExpireSilent`, which reads the silence budget again but not the lease.  The
two stay apart as long as the call is over before the lease the scan saw.
-/
namespace GoJob

open Rel Tx

variable {env : Env} {i n : Nat} {t : String} {w w' : World} {L z : Utc} {v : Stale}

/-- The lease runs at least to `L`, whenever that is asked. -/
def LeasedTo (L : Utc) (_ : Utc) (e : ExecRow) : Prop := Lasts e.leaseUntil L

/-- The call renews execution `i`, if it does, to `L` or later. -/
def RenewsTo (L : Utc) (i : Nat) (x : World × (Action × Ctx) × World) : Prop :=
  ∀ k m, x.2.1.1 = .renew k m → k.executionId = i → L ≤ x.2.1.2.utc 1 + m

theorem Lasts.moved {l : Action × Ctx} {e e' : ExecRow} (h : Lasts e.leaseUntil L) (hren : RenewsTo L e.id (w, l, w'))
    (hm : ExecMove l.2 l.1 e e') (hh : e.status.held = true) (hh' : e'.status.held = true)
    (hn : e'.fenceEpoch = e.fenceEpoch) : Lasts e'.leaseUntil L := by
  obtain ⟨a, c⟩ := l
  by_cases hr : ∃ k m, a = .renew k m
  · obtain ⟨k, m, rfl⟩ := hr
    cases hm with
    | renew hi => exact ⟨_, rfl, hren k m rfl hi.symm⟩
  · have hsame : e'.leaseUntil = e.leaseUntil := hm.lease hh' hn (fun k m heq => hr ⟨k, m, heq⟩) hh
    rw [hsame]
    exact h

/-- **A lease that is not cut short lasts** as long as the row is held at one epoch. -/
theorem Sighted.lasts_step (h : Sighted (LeasedTo L) i t n w) {l : Action × Ctx}
    (hren : RenewsTo L i (w, l, w')) (hst : Step env w l w') : Sighted (LeasedTo L) i t n w' := by
  refine h.step_to hst fun e e' he hh hh' _ hn hmove _ hp => ?_
  rcases hmove with rfl | hm
  · exact hp
  · exact hp.moved (DB.exec?_id he ▸ hren) hm hh hh' hn

theorem Sighted.lasts_run (h : Sighted (LeasedTo L) i t n w) {tr : History}
    (hr : Sys.Run (Step env) w tr w') (hren : ∀ x ∈ tr, RenewsTo L i x) : Sighted (LeasedTo L) i t n w' :=
  Sys.Run.invariant_of (I := Sighted (LeasedTo L) i t n) (RenewsTo L i) h
    (fun _ _ _ h hren hst => h.lasts_step hren hst) hr hren

/-- **Silence leaves recovery's rows alone.**  Whatever happened since a page of silent rows was read, if the lease that
the scan saw has not been cut short and is not over when `ExpireSilent` ends, then no row whose lease has passed is
touched by it. -/
theorem silence_spares_lapsed_leases {u : Utc} {tr tr₁ : History} {w w₁ w₂ : World} {limit : Nat} {c : Ctx}
    (hr : Sys.Run (Step env) (World.init u) tr w) (hv : v ∈ w.db.silent z limit)
    (hlease : ∀ e, w.db.exec? v.id = some e → e.leaseUntil = some L)
    (hr₁ : Sys.Run (Step env) { w with utc := z } tr₁ w₁) (hren : ∀ x ∈ tr₁, RenewsTo L v.id x)
    (hst : Step env w₁ (.expireSilent v, c) w₂) (hend : w₂.utc ≤ L) :
    ∀ k e e', w₁.db.exec? k = some e → w₂.db.exec? k = some e' → past e.leaseUntil w₂.utc = true → e' = e := by
  intro k e e' he he' hp
  have hsight : Sighted (LeasedTo L) v.id v.runToken v.fenceEpoch w₁ :=
    (Sighted.of_scan (HolderInv.run hr) hv fun e he _ => ⟨L, hlease e he, le_refl L⟩).lasts_run hr₁ hren
  rcases hst.commit.moved he he' with rfl | hm
  · rfl
  · cases hm with
    | silence hi hs ho hd =>
      have hh : e.status.held = true := by rcases hs with hs | hs <;> rw [hs] <;> rfl
      obtain ⟨htok, hn⟩ := ExecRow.owned_iff.1 ho
      obtain ⟨-, -, hto⟩ := hsight.row k e he hh htok
      rw [Lasts.not_past (hto hn) hend] at hp
      cases hp

/-- The pass is claimed at second 2 with a lease of 30 s, and accepted with a silence budget of 10 s. -/
def quietPass : List (Action × Int) := claimedPass ++ [(.accept 1 "t1" 1 10, 3)]

/-- The page of silent rows read at second 14. -/
def quietPage : List Stale := ((World.init 0).play bareEnv quietPass).db.silent 14 10

/-- An `ExpireSilent` at second 20 ends the attempt, which has a lease until second 32. -/
theorem silence_spares_lapsed_leases_quiet :
    let w := { (World.init 0).play bareEnv quietPass with utc := 14 }
    quietPage.length = 1 ∧ ∀ v ∈ quietPage, answer bareEnv w (.expireSilent v, Ctx.at_ 20) = .ok () ∧
      ∀ k e e', w.db.exec? k = some e → (w.call bareEnv (.expireSilent v) 20).db.exec? k = some e' →
        past e.leaseUntil 20 = true → e' = e := by
  refine ⟨by decide +kernel, fun v hv => ⟨?_, ?_⟩⟩
  · revert v
    decide +kernel
  · have hend : (20 : Utc) ≤ 32 := by decide
    refine silence_spares_lapsed_leases (World.run_play bareEnv quietPass (World.init 0) (by decide +kernel)) hv
      (fun e he => ?_) .nil (fun _ hx => by cases hx) (World.step_call bareEnv (by decide) rfl) hend
    revert e v
    decide +kernel

/-- **Which loop ticks first decides.**  The page is read at second 14; the lease runs out at second 32 while the
executor is being asked; at second 40 `ExpireSilent` ends the execution, and `Resolve` would have made it ready. -/
theorem silence_ends_lapsed_lease :
    ∃ tr w v, Sys.Run (Step bareEnv) (World.init 0) tr w ∧ w.utc ≤ 14 ∧ v ∈ w.db.silent 14 10 ∧
      (∃ w', Step bareEnv { w with utc := 14 } (.expireSilent v, Ctx.at_ 40) w' ∧
        (w.db.exec? v.id).any (fun e => past e.leaseUntil 40) = true ∧
        (w'.db.exec? v.id).map (·.status) = some .dead) ∧
      ∃ w', Step bareEnv { w with utc := 14 } (.resolve v 5, Ctx.at_ 40) w' ∧
        (w'.db.exec? v.id).map (·.status) = some .ready := by
  obtain ⟨v, hv⟩ : ∃ v, v ∈ quietPage := List.exists_mem_of_length_pos (by decide +kernel)
  have hrun := World.run_play bareEnv quietPass (World.init 0) (by decide +kernel)
  refine ⟨_, _, v, hrun, by decide, hv, ⟨_, World.step_call bareEnv (by decide) rfl, ?_, ?_⟩,
    ⟨_, World.step_call bareEnv (by decide) rfl, ?_⟩⟩
  all_goals
    revert v
    decide +kernel

end GoJob
