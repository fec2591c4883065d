import GoJob.Result
import GoJob.Sighted
/-!
# Expiry — an expired owner does not come back

A held row always has a lease, and nothing else does.  Once the lease has run out it cannot be renewed; only an adoption
gives the row a new one, under the next epoch.  That is why recovery may act on an old page: a row that is still held
under the pair it read is still expired, and the writes `Adopt` and `Resolve` insist on apply.
-/
namespace GoJob

open Rel Tx

variable {env : Env} {c : Ctx} {a : Action} {u : Utc} {tr : History} {w : World}

/-! ## Leases and holders -/

/-- A row has a lease exactly while it is held. -/
def ExecRow.Leased (e : ExecRow) : Prop := e.leaseUntil.isSome = e.status.held

theorem ExecMove.leased {e e' : ExecRow} (h : ExecMove c a e e') (hl : e.Leased) : e'.Leased := by
  unfold ExecRow.Leased at hl ⊢
  cases h with
  | dispatch => rfl
  | defer => exact hl
  | expire _ _ hs => rw [hs] at hl; exact hl
  | skip => rfl
  | accept _ ho => rw [(ExecRow.unaccepted_iff.1 ho).1] at hl; exact hl
  | retarget => exact hl
  | refuse => simp only [refuseWrite]; split <;> rfl
  | renew _ hs => exact hs.symm
  | extend => exact hl
  | complete _ ht => exact (Status.not_held_of_terminal ht).symm
  | retry => simp only [retryWrite]; split <;> rfl
  | cancel _ hs => rw [Status.held_of_cancellable hs] at hl; exact hl
  | adopt _ hs =>
    simp only [adoptWrite]
    split
    · rfl
    · exact hs.symm
  | resolve => exact (resolvedStatus_not_held _).symm
  | fence => exact (Status.not_held_of_terminal (endedStatus_terminal _)).symm
  | silence => exact (Status.not_held_of_terminal (endedStatus_terminal _)).symm
  | release => exact (Status.not_held_of_terminal (endedStatus_terminal _)).symm
  | retireReady _ hs => rw [hs] at hl; exact hl
  | retireHeld _ hs => rw [Status.held_of_cancellable hs] at hl; exact hl
  | revive _ _ hs => rw [hs] at hl; exact hl

theorem leased_run (hr : Sys.Run (Step env) (World.init u) tr w) {i : Nat} {e : ExecRow} (he : w.db.exec? i = some e) :
    e.Leased := by
  refine rows_invariant (fun hm => ?_) (fun hm h => hm.leased h) hr he
  cases hm <;> rfl

/-- **Both copies of a held job's lease are set, and the lock's is the first to run out.** -/
theorem lock_lease_le (hr : Sys.Run (Step env) (World.init u) tr w) {i : Nat} {e : ExecRow}
    (he : w.db.exec? i = some e) (hh : e.status.held = true) :
    ∃ s l m, w.db.state? e.jobName = some s ∧ s.leaseUntil = some l ∧ e.leaseUntil = some m ∧ l ≤ m := by
  obtain ⟨s, hs, -⟩ := (HolderInv.run hr).held i e he hh
  have hsome : e.leaseUntil.isSome = true := (leased_run hr he).trans hh
  obtain ⟨m, hm⟩ := Option.isSome_iff_exists.1 hsome
  -- One second after the row's lease both have run out.
  have hpast : past s.leaseUntil (m + 1) = true :=
    locksFirst_run hr i e s he hh hs (m + 1) (by rw [hm]; exact past_of_lt (Int.lt_add_one_of_le (le_refl m)))
  obtain ⟨l, hl, hlt⟩ := (Option.any_eq_true _ _).1 hpast
  have hlt : l < m + 1 := by simpa using hlt
  exact ⟨s, l, m, hs, hl, hm, Int.lt_add_one_iff.1 hlt⟩

/-! ## After the lease -/

/-- **An expired lease is not renewed.** -/
theorem renew_refused {k : Holder} {l : Int} {e : ExecRow} (he : w.db.exec? k.executionId = some e)
    (hp : past e.leaseUntil (c.utc 0) = true) : answer env w (.renew k l, c) ≠ .ok () := by
  intro hans
  obtain ⟨_, e₁, _, he₁, _, _, _, hl, _⟩ := renew_ok (answer_ok hans)
  obtain rfl := Option.some.inj (he.symm.trans he₁)
  rw [live_not_past hl (c.mono (Nat.zero_le 1))] at hp
  cases hp

/-- A move that gives an expired row a lease raises its epoch. -/
theorem ExecMove.epoch_of_revived {e e' : ExecRow} (h : ExecMove c a e e') (hh : e.status.held = true)
    (hh' : e'.status.held = true) (hp : past e.leaseUntil (c.utc 0) = true)
    (hl : live e'.leaseUntil (c.utc 0) = true) : e'.fenceEpoch ≠ e.fenceEpoch := by
  intro hn
  by_cases hren : ∃ k n, a = .renew k n
  · obtain ⟨k, n, rfl⟩ := hren
    cases h with
    | renew _ _ _ hlive =>
      rw [live_not_past hlive (c.mono (Nat.zero_le 1))] at hp
      cases hp
  · have hsame := h.lease hh' hn (fun k n heq => hren ⟨k, n, heq⟩) hh
    rw [hsame] at hl
    rw [live_not_past hl (le_refl _)] at hp
    cases hp

/-- **Only an adoption gives an expired row a lease again**, and it raises the epoch. -/
theorem revived_by_adoption (hr : Sys.Run (Step env) (World.init u) tr w) {l : Action × Ctx} {w' : World}
    (hst : Step env w l w') {i : Nat} {e e' : ExecRow} (he : w.db.exec? i = some e) (he' : w'.db.exec? i = some e')
    (hp : past e.leaseUntil (l.2.utc 0) = true) (hl : live e'.leaseUntil (l.2.utc 0) = true) :
    adopted env i (w, l, w') = true ∧ e.fenceEpoch < e'.fenceEpoch := by
  have leased : ∀ {col : Option Utc} {f : Utc → Bool}, col.any f = true → col.isSome = true := fun h => by
    obtain ⟨_, rfl, -⟩ := (Option.any_eq_true _ _).1 h
    rfl
  have hh : e.status.held = true := (leased_run hr he).symm.trans (leased hp)
  have hh' : e'.status.held = true := (leased_run (hr.snoc hst) he').symm.trans (leased hl)
  rcases hst.commit.moved he he' with rfl | hm
  · rw [live_not_past hl (le_refl _)] at hp
    cases hp
  · have hne := hm.epoch_of_revived hh hh' hp hl
    have hstay := hm.stays_held hh hh'
    obtain ⟨s, -, hes⟩ := (HolderInv.run hr).held i e he hh
    obtain ⟨t, ht⟩ := Option.ne_none_iff_exists'.1 hes.some_
    obtain ⟨e₁, he₁, -, -, -, -, hadopt⟩ := hst.held_before ((HolderInv.run hr).issued i e t he ht) he' hh'
      (hstay.token.trans ht)
    obtain rfl := Option.some.inj (he.symm.trans he₁)
    exact ⟨hadopt hne, lt_of_le_of_ne hstay.epoch (Ne.symm hne)⟩

/-! ## Recovery from an old page -/

section recovery

variable {v : Stale} {P : Err → Prop} (hinv : HolderInv w.db w.issued) (hfirst : w.db.LocksFirst)
  (hsight : Sighted Expired v.id v.runToken v.fenceEpoch w) (hP : ∀ err, MovedOn err → P err)
  (hno : w.db.state? v.jobName = none → P ⟨.missingState, "job " ++ v.jobName.quote⟩) (hclock : w.utc ≤ c.utc 0)

include hfirst hclock in
/-- **The lock of a row that has expired has expired too.** -/
theorem lock_expired {i : Nat} {e : ExecRow} {s : StateRow} (he : w.db.exec? i = some e) (hh : e.status.held = true)
    (hs : w.db.state? e.jobName = some s) (hp : Expired w.utc e) : past s.leaseUntil (c.utc 2) = true :=
  past_later (hfirst i e s he hh hs w.utc hp) (le_trans hclock (c.mono (Nat.zero_le 2)))

include hinv hfirst hsight hP hno hclock

theorem adopt_fails (o : String) (l sil : Int) (p : Bool) : FailsOnly P (adopt c v o l sil p) w.db := by
  unfold adopt
  refine hsight.located_failsOnly hinv hP hno fun s e hs he hj hh ho hso hp => ?_
  refine .ite (fun _ => .throws (hP _ (Or.inl rfl))) fun _ => ?_
  refine .ite (fun _ => .throws (hP _ (Or.inr (Or.inl rfl)))) fun _ => ?_
  -- Under the lock both writes find their rows.
  have hpast := lock_expired hfirst hclock he hh (hj.symm ▸ hs) hp
  refine .after (mustState_run hs (by rw [hso, hpast]; rfl)) ?_
  exact .after (mustExec_run (show (w.db.setState v.jobName _).exec? v.id = some e from he) (by rw [hh, ho]; rfl))
    (.returns _)

theorem resolve_fails (b : Int) (hdef : ∀ s, w.db.state? v.jobName = some s → ∃ d, w.db.def? v.jobName = some d ∧
    ∀ err, d.toDefinition.delay = .error err → P err) : FailsOnly P (resolve c v b) w.db := by
  unfold resolve
  refine hsight.located_failsOnly hinv hP hno fun s e hs he hj hh ho hso hp => ?_
  refine .ite (fun _ => .throws (hP _ (Or.inl rfl))) fun _ => .ite (fun _ => .throws (hP _ (Or.inl rfl))) fun _ => ?_
  have hpast := lock_expired hfirst hclock he hh (hj.symm ▸ hs) hp
  refine .after (mustState_run hs (by rw [hso, hpast]; rfl)) ?_
  refine .after (mustExec_run (show (w.db.setState v.jobName _).exec? v.id = some e from he) (by rw [hh, ho]; rfl)) ?_
  refine (recordAttempt_failsOnly (by simp [Stale.holder, he])).seq fun _ db₁ h₁ => ?_
  obtain ⟨_, -, rfl⟩ := recordAttempt_ok h₁
  obtain ⟨d, hd, hdelay⟩ := hdef s hs
  exact (settlePollClock_failsOnly (d := d) (by simpa using hd) hdelay).seq fun _ _ _ => .returns _

end recovery

/-- A call that can fail in certain ways succeeds or fails in one of them. -/
theorem answer_of_fails {P : Err → Prop} (h : FailsOnly P (a.tx env c) w.db) :
    answer env w (a, c) = .ok () ∨ ∃ err, answer env w (a, c) = .error err ∧ P err := by
  unfold answer
  cases hx : a.tx env c w.db with
  | error err => exact Or.inr ⟨err, rfl, h err hx⟩
  | ok r => exact Or.inl rfl

/-- **An expired owner never comes back and recovery never misfires.**  The lock of a held job runs out no later than
the execution; once a lease has passed, no renewal succeeds and only an adoption, under a higher epoch, makes it live
again; and whatever happened since a page of expired rows was read, adopting or resolving one of them succeeds or is
told that the row has moved on. -/
theorem expired_owner_never_returns (hr : Sys.Run (Step env) (World.init u) tr w) :
    (∀ i e, w.db.exec? i = some e → e.status.held = true → ∃ s l m, w.db.state? e.jobName = some s ∧
      s.leaseUntil = some l ∧ e.leaseUntil = some m ∧ l ≤ m) ∧
    (∀ i e l w', w.db.exec? i = some e → Step env w l w' → past e.leaseUntil (l.2.utc 0) = true →
      (∀ k n, l.1 = .renew k n → k.executionId = i → answer env w l ≠ .ok ()) ∧
      ∀ e', w'.db.exec? i = some e' → live e'.leaseUntil (l.2.utc 0) = true →
        adopted env i (w, l, w') = true ∧ e.fenceEpoch < e'.fenceEpoch) ∧
    ∀ z limit v, w.utc ≤ z → v ∈ w.db.staleExecutions z limit →
      ∀ tr₁ w₁, Sys.Run (Step env) { w with utc := z } tr₁ w₁ → ∀ c, w₁.utc ≤ c.utc 0 →
        (∀ o l sil p, answer env w₁ (.adopt v o l sil p, c) = .ok () ∨
          ∃ err, answer env w₁ (.adopt v o l sil p, c) = .error err ∧ MovedOn err) ∧
        ∀ b, w₁.db.DelaysValid → answer env w₁ (.resolve v b, c) = .ok () ∨
          ∃ err, answer env w₁ (.resolve v b, c) = .error err ∧ MovedOn err := by
  refine ⟨fun i e he hh => lock_lease_le hr he hh, fun i e l w' he hst hp => ⟨fun k n hk hi => ?_, fun e' he' hl => ?_⟩,
    fun z limit v hz hv tr₁ w₁ hr₁ c hc => ?_⟩
  · obtain ⟨a, c⟩ := l
    obtain rfl : a = .renew k n := hk
    exact renew_refused (hi ▸ he) hp
  · exact revived_by_adoption hr hst he he' hp hl
  · obtain ⟨_, hwait⟩ := World.waits env hz
    have hrun := (hr.snoc hwait).append hr₁
    have hsight : Sighted Expired v.id v.runToken v.fenceEpoch w₁ :=
      (Sighted.of_scan (HolderInv.run hr) hv fun _ _ hp => hp).run Expired.lasting hr₁
    obtain ⟨e, he, hve, hh, -⟩ := DB.mem_scanStale hv
    obtain ⟨s, hs, -⟩ := (HolderInv.run hr).held _ e he hh
    have hstate : (w₁.db.state? v.jobName).isSome = true := by
      refine state_kept hr₁ ?_
      rw [hve]
      exact Option.isSome_iff_exists.2 ⟨s, hs⟩
    obtain ⟨s₁, hs₁⟩ := Option.isSome_iff_exists.1 hstate
    obtain ⟨d, hd⟩ := defined_run hrun hs₁
    have hno : w₁.db.state? v.jobName = none → MovedOn ⟨.missingState, "job " ++ v.jobName.quote⟩ := fun hno => by
      rw [hs₁] at hno; cases hno
    refine ⟨fun o l sil p => answer_of_fails ?_, fun b hvalid => answer_of_fails ?_⟩
    · exact (adopt_fails (HolderInv.run hrun) (locksFirst_run hrun) hsight (fun _ h => h) hno hc o l sil p).seq
        fun _ _ _ => .returns _
    · refine (resolve_fails (HolderInv.run hrun) (locksFirst_run hrun) hsight (fun _ h => h) hno hc b fun _ _ => ?_).seq
        fun _ _ _ => .returns _
      obtain ⟨t, ht⟩ := hvalid v.jobName d hd
      refine ⟨d, hd, fun err herr => ?_⟩
      rw [ht] at herr; cases herr

/-- A claim of 30 s made at second 2 is on the page read at second 40, and can be taken over then. -/
theorem expired_owner_never_returns_claimed :
    (((World.init 0).play bareEnv claimedPass).db.staleExecutions 40 10).length = 1 ∧
      ∀ v ∈ ((World.init 0).play bareEnv claimedPass).db.staleExecutions 40 10,
        answer bareEnv { (World.init 0).play bareEnv claimedPass with utc := 40 }
          (.adopt v "other" 30 10 false, Ctx.at_ 41) = .ok () ∨
        ∃ err, answer bareEnv { (World.init 0).play bareEnv claimedPass with utc := 40 }
          (.adopt v "other" 30 10 false, Ctx.at_ 41) = .error err ∧ MovedOn err :=
  ⟨by decide +kernel, fun v hv => ((expired_owner_never_returns (World.run_play bareEnv claimedPass (World.init 0)
    (by decide))).2.2 40 10 v (by decide) hv [] _ .nil (Ctx.at_ 41) (by decide)).1 "other" 30 10 false⟩

end GoJob
