import GoJob.Budget
import GoJob.Scans
import GoJob.Server
import GoJob.TokenLife
/-!
# Supervision — what adopting a running handler leaves behind (`Adopt`, `RequestCancel`, `Retire`)

Recovery adopts an attempt its executor still runs.  From then on the silence scan has to see the row, which takes a
`deadline_at`, and the attempt has to be charged, once.  Whether an attempt was ever accepted is told by its status
alone, and a cancel request overwrites it: one that catches the attempt before its acceptance is recorded leaves a row
that nobody promotes any more.
-/
namespace GoJob

open Rel Tx

variable {env : Env} {c : Ctx} {a : Action} {t : String} {u : Utc} {tr : History} {w w' : World}

/-- A cancel request or a retirement catches the dispatch of `t` before an acceptance was recorded. -/
def Overtakes (t : String) (x : World × (Action × Ctx) × World) : Prop :=
  ∃ i e e', x.1.db.exec? i = some e ∧ x.2.2.db.exec? i = some e' ∧ e.runToken = some t ∧ e.status = .dispatching ∧
    e'.status = .cancelRequested

/-! ## One move of a held row -/

/-- What a move that keeps the row held does to its dispatch. -/
inductive Progress (e e' : ExecRow) : Prop
  | waits (hs : e.status = .dispatching) (hs' : e'.status = .dispatching) (hn : e'.attemptNo = e.attemptNo)
  | answered (hs : e.status = .dispatching) (hs' : e'.status = .running) (hn : e.attemptNo < e'.attemptNo)
      (hd : e'.deadlineAt ≠ none)
  | overtaken (hs : e.status = .dispatching) (hs' : e'.status = .cancelRequested) (hn : e'.attemptNo = e.attemptNo)
  | later (hs : e.status ≠ .dispatching) (hs' : e'.status ≠ .dispatching) (hn : e'.attemptNo = e.attemptNo)
      (hd : e.deadlineAt ≠ none → e'.deadlineAt ≠ none)

namespace Progress

/-- The move leaves the dispatch alone. -/
theorem of_same {e e' : ExecRow} (hs : e'.status = e.status) (hn : e'.attemptNo = e.attemptNo)
    (hd : e.deadlineAt ≠ none → e'.deadlineAt ≠ none) : Progress e e' := by
  by_cases h : e.status = .dispatching
  · exact .waits h (hs.trans h) hn
  · exact .later h (hs ▸ h) hn hd

theorem of_cancel (e : ExecRow) : Progress e (cancelWrite.run e) := by
  by_cases h : e.status = .dispatching
  · exact .overtaken h rfl rfl
  · exact .later h (fun hs => by cases hs) rfl (fun hd => hd)

end Progress

theorem ExecMove.progress {e e' : ExecRow} (h : ExecMove c a e e') (hh : e.status.held = true)
    (hh' : e'.status.held = true) : Progress e e' := by
  cases h.writes hh hh' with
  | accept ho => exact .answered (ExecRow.unaccepted_iff.1 ho).1 rfl (Nat.lt_succ_self _) (by simp [acceptWrite])
  | retarget => exact .of_same rfl rfl (fun hd => hd)
  | renew => exact .of_same rfl rfl (fun hd => hd)
  | extend => exact .of_same rfl rfl (fun _ => by simp [extendWrite])
  | cancel => exact .of_cancel e
  | retire => exact .of_cancel e
  | @adopt v o l s p _ =>
    by_cases hp : (p && decide (e.status = .dispatching)) = true
    · have hs : e.status = .dispatching := by simpa using (Bool.and_eq_true_iff.1 hp).2
      refine .answered hs ?_ ?_ ?_ <;> simp [adoptWrite, hp]
    · refine .of_same ?_ ?_ (fun hd => ?_) <;> simp [adoptWrite, hp]
      exact hd

/-! ## Along a run -/

/-- The dispatch of `t`, held by `e`, after a history: nobody has answered it yet, it was overtaken and never charged,
or it was charged and has a deadline. -/
structure Supervised (t : String) (tr : History) (e : ExecRow) : Prop where
  waiting : e.status = .dispatching → t ∉ tr.flatMap charges ∧ ∀ x ∈ tr, ¬ Overtakes t x
  started : e.status ≠ .dispatching → (t ∉ tr.flatMap charges ∧ ∃ x ∈ tr, Overtakes t x) ∨
    (t ∈ tr.flatMap charges ∧ e.deadlineAt ≠ none ∧ ∀ x ∈ tr, ¬ Overtakes t x)

section row

variable {l : Action × Ctx} {i : Nat} {e e' : ExecRow} (hinv : HolderInv w.db w.issued) (he : w.db.exec? i = some e)
  (ht : e.runToken = some t) (he' : w'.db.exec? i = some e')

include hinv he ht he'

theorem mem_charges_iff : t ∈ charges (w, l, w') ↔ e.attemptNo < e'.attemptNo := by
  rw [mem_charges]
  constructor
  · rintro ⟨k, x, x', hx, hx', hlt, hxt⟩
    obtain rfl := hinv.tokens i k e x t he hx ht hxt
    obtain rfl := Option.some.inj (he.symm.trans hx)
    obtain rfl := Option.some.inj (he'.symm.trans hx')
    exact hlt
  · exact fun hlt => ⟨i, e, e', he, he', hlt, ht⟩

theorem overtakes_iff : Overtakes t (w, l, w') ↔ e.status = .dispatching ∧ e'.status = .cancelRequested := by
  constructor
  · rintro ⟨k, x, x', hx, hx', hxt, hs, hs'⟩
    obtain rfl := hinv.tokens i k e x t he hx ht hxt
    obtain rfl := Option.some.inj (he.symm.trans hx)
    obtain rfl := Option.some.inj (he'.symm.trans hx')
    exact ⟨hs, hs'⟩
  · exact fun ⟨hs, hs'⟩ => ⟨i, e, e', he, he', ht, hs, hs'⟩

theorem Supervised.step (h : Supervised t tr e) (hp : Progress e e') : Supervised t (tr ++ [(w, l, w')]) e' := by
  have hcharge : t ∈ charges (w, l, w') ↔ e.attemptNo < e'.attemptNo := mem_charges_iff hinv he ht he'
  have hover : Overtakes t (w, l, w') ↔ e.status = .dispatching ∧ e'.status = .cancelRequested :=
    overtakes_iff hinv he ht he'
  have hmem : t ∈ (tr ++ [(w, l, w')]).flatMap charges ↔ t ∈ tr.flatMap charges ∨ e.attemptNo < e'.attemptNo := by
    rw [← hcharge]; simp
  have hex : (∃ x ∈ tr ++ [(w, l, w')], Overtakes t x) ↔
      (∃ x ∈ tr, Overtakes t x) ∨ (e.status = .dispatching ∧ e'.status = .cancelRequested) := by
    rw [← hover]; simp [or_and_right, exists_or]
  have hall : (∀ x ∈ tr ++ [(w, l, w')], ¬ Overtakes t x) ↔
      (∀ x ∈ tr, ¬ Overtakes t x) ∧ ¬ (e.status = .dispatching ∧ e'.status = .cancelRequested) := by
    rw [← hover]; simp [or_imp, forall_and]
  constructor
  all_goals
    intro hs'
    rw [hmem, hall]
    try rw [hex]
  · cases hp with
    | waits hs _ hn =>
      obtain ⟨hno, hnot⟩ := h.waiting hs
      exact ⟨not_or.2 ⟨hno, by omega⟩, hnot, fun hb => by rw [hs'] at hb; cases hb.2⟩
    | answered _ hs => rw [hs] at hs'; cases hs'
    | overtaken _ hs => rw [hs] at hs'; cases hs'
    | later _ hs => exact absurd hs' hs
  · cases hp with
    | waits _ hs => exact absurd hs hs'
    | answered hs hrun hn hd =>
      obtain ⟨-, hnot⟩ := h.waiting hs
      exact Or.inr ⟨Or.inr hn, hd, hnot, fun hb => by rw [hrun] at hb; cases hb.2⟩
    | overtaken hs hcan hn =>
      obtain ⟨hno, -⟩ := h.waiting hs
      exact Or.inl ⟨not_or.2 ⟨hno, by omega⟩, Or.inr ⟨hs, hcan⟩⟩
    | later hs _ hn hd =>
      rcases h.started hs with ⟨hno, hex⟩ | ⟨hyes, hdead, hnot⟩
      · exact Or.inl ⟨not_or.2 ⟨hno, by omega⟩, Or.inl hex⟩
      · exact Or.inr ⟨Or.inl hyes, hd hdead, hnot, fun hb => hs hb.1⟩

end row

/-- A token that no row has had was neither charged nor overtaken. -/
theorem Supervised.of_fresh (hr : Sys.Run (Step env) (World.init u) tr w) (hfresh : t ∉ w.issued) {l : Action × Ctx}
    {e' : ExecRow} (hs' : e'.status = .dispatching) : Supervised t (tr ++ [(w, l, w')]) e' := by
  refine ⟨fun _ => ⟨fun hmem => ?_, fun x hx hover => ?_⟩, fun hne => absurd hs' hne⟩
  · rw [List.flatMap_append, List.mem_append] at hmem
    rcases hmem with hmem | hmem
    · exact hfresh ((ChargeInv.run hr).issued t hmem)
    · obtain ⟨i, e, -, he, -, -, ht⟩ := mem_charges.1 (by simpa using hmem : t ∈ charges (w, l, w'))
      exact hfresh ((HolderInv.run hr).issued i e t he ht)
  · obtain ⟨i, e, -, he, -, ht, -⟩ := hover
    rcases List.mem_append.1 hx with hx | hx
    · obtain ⟨pre, post, -, hpre, hst, hpost⟩ := hr.split hx
      exact hfresh (issued_run hpost (hst.issued_of_mem ((HolderInv.run hpre).issued i e t he ht)))
    · obtain rfl := List.mem_singleton.1 hx
      exact hfresh ((HolderInv.run hr).issued i e t he ht)

/-- **A token is first held by the claim that brought it**, which is waiting for an answer. -/
theorem Step.held_fresh {l : Action × Ctx} {i : Nat} {e' : ExecRow} (hst : Step env w l w')
    (hinv : HolderInv w.db w.issued) (hfresh : t ∉ w.issued) (he' : w'.db.exec? i = some e')
    (hh' : e'.status.held = true) (ht' : e'.runToken = some t) : e'.status = .dispatching := by
  obtain ⟨a, c⟩ := l
  cases he : w.db.exec? i with
  | none =>
    obtain ⟨_, _, _, _, -, -, -, hm, -⟩ := hst.commit.new he he'
    rw [hm.fresh.runToken] at ht'; cases ht'
  | some e =>
    have old : e.runToken ≠ some t := fun ht => hfresh (hinv.issued i e t he ht)
    rcases hst.commit.moved he he' with rfl | hm
    · exact absurd ht' old
    · rcases hm.held_before hh' with ⟨t', hmint, -⟩ | ⟨-, hstay⟩
      · cases hm with
        | dispatch => rfl
        | defer _ hs => rw [show ((deferWrite _ _).run e).status = e.status from rfl, hs] at hh'; cases hh'
        | expire => cases hh'
        | skip => cases hh'
        | _ => cases hmint
      · exact absurd (hstay.token ▸ ht') old

theorem supervised_run (hr : Sys.Run (Step env) (World.init u) tr w) : ∀ i e, w.db.exec? i = some e →
    e.status.held = true → e.runToken = some t → Supervised t tr e := by
  refine Sys.Run.history (J := fun tr w => ∀ i e, w.db.exec? i = some e → e.status.held = true →
    e.runToken = some t → Supervised t tr e) (fun i e he => by cases he) ?_ hr
  intro tr w l w' hr ih hst i e' he' hh' ht'
  by_cases hiss : t ∈ w.issued
  · obtain ⟨e, he, hh, ht, -⟩ := hst.held_before hiss he' hh' ht'
    refine (ih i e he hh ht).step (HolderInv.run hr) he ht he' ?_
    rcases hst.commit.moved he he' with rfl | hm
    · exact .of_same rfl rfl (fun hd => hd)
    · exact hm.progress hh hh'
  · exact .of_fresh hr hiss (hst.held_fresh (HolderInv.run hr) hiss he' hh' ht')

/-! ## Adoption -/

section adoption

variable {v : Stale} {o : String} {lease silence : Int}

/-- **A promoting adoption leaves a row that has started**: one whose acceptance nobody recorded is accepted by it. -/
theorem Step.adopted_row (hst : Step env w (.adopt v o lease silence true, c) w')
    (hok : answer env w (.adopt v o lease silence true, c) = .ok ()) :
    ∃ e e', w.db.exec? v.id = some e ∧ w'.db.exec? v.id = some e' ∧ e.runToken = some v.runToken ∧
      e'.runToken = some v.runToken ∧ e'.status.held = true ∧ e'.status ≠ .dispatching ∧
      ¬ (e.status = .dispatching ∧ e'.status = .cancelRequested) := by
  obtain ⟨_, hadopt⟩ := unit_ok (hst.tx_ok hok)
  obtain ⟨-, s, e, -, he, -, -, hh, ho, -, hf⟩ := adopt_ok hadopt
  obtain ⟨ht, -⟩ := ExecRow.owned_iff.1 ho
  refine ⟨e, _, he, hf.exec?, ht, ht, ?_, ?_, ?_⟩
  all_goals
    by_cases hs : e.status = .dispatching
    · simp [adoptWrite, hs, Status.held]
    · simp [adoptWrite, hs, hh]

/-- **Adopting a running handler makes it supervised, unless a cancel overtook its acceptance.**  When an adoption that
promotes commits, the row has a deadline and its attempt has been charged exactly once if, and only if, no cancel
request or retirement found the dispatch of that token unanswered. -/
theorem adopted_supervised_iff (hr : Sys.Run (Step env) (World.init u) tr w)
    (hst : Step env w (.adopt v o lease silence true, c) w')
    (hok : answer env w (.adopt v o lease silence true, c) = .ok ()) :
    (∃ e', w'.db.exec? v.id = some e' ∧ e'.deadlineAt ≠ none ∧
      ((tr ++ [(w, (Action.adopt v o lease silence true, c), w')]).flatMap charges).count v.runToken = 1) ↔
    ∀ x ∈ tr, ¬ Overtakes v.runToken x := by
  obtain ⟨e, e', he, he', ht, ht', hh', hs', hnot⟩ := hst.adopted_row hok
  have hstill : (∀ x ∈ tr, ¬ Overtakes v.runToken x) ↔
      ∀ x ∈ tr ++ [(w, (Action.adopt v o lease silence true, c), w')], ¬ Overtakes v.runToken x := by
    have hlast : ¬ Overtakes v.runToken (w, (Action.adopt v o lease silence true, c), w') :=
      mt (overtakes_iff (HolderInv.run hr) he ht he').1 hnot
    simp [or_imp, forall_and, hlast]
  have hnodup := (ChargeInv.run (hr.snoc hst)).nodup
  rw [hstill]
  rcases (supervised_run (hr.snoc hst) v.id e' he' hh' ht').started hs' with ⟨hno, hex⟩ | ⟨hyes, hd, hnone⟩
  · constructor
    · rintro ⟨_, -, -, hcount⟩
      rw [List.count_eq_zero.2 hno] at hcount
      cases hcount
    · intro hall
      obtain ⟨x, hx, hover⟩ := hex
      exact absurd hover (hall x hx)
  · exact ⟨fun _ => hnone, fun _ => ⟨e', he', hd, List.count_eq_one_of_mem hnodup hyes⟩⟩

end adoption

/-! ## A cancel that comes first -/

/-- A call recovery makes at second 41 for a row it read at second 40. -/
def takeover (v : Stale) : Action := .adopt v "other" 30 10 true

/-- The pass is claimed and its acceptance is lost: adopting it at second 41 starts its supervision. -/
theorem adopted_supervised_iff_lost_acceptance :
    let w := (World.init 0).play bareEnv claimedPass
    (w.db.staleExecutions 40 10).length = 1 ∧ ∀ v ∈ w.db.staleExecutions 40 10,
      answer bareEnv w (takeover v, Ctx.at_ 41) = .ok () ∧
      ∀ x ∈ (World.init 0).trace bareEnv claimedPass, ¬ Overtakes v.runToken x := by
  intro w
  have hrun := World.run_play bareEnv claimedPass (World.init 0) (by decide +kernel)
  have hrow : ∀ v ∈ w.db.staleExecutions 40 10, answer bareEnv w (takeover v, Ctx.at_ 41) = .ok () ∧
      (∃ e' ∈ (w.call bareEnv (takeover v) 41).db.exec? v.id, e'.deadlineAt ≠ none) ∧
      (((World.init 0).trace bareEnv claimedPass ++
        [(w, (takeover v, Ctx.at_ 41), w.call bareEnv (takeover v) 41)]).flatMap charges).count v.runToken = 1 := by
    decide +kernel
  refine ⟨by decide +kernel, fun v hv => ?_⟩
  obtain ⟨hans, ⟨e', he', hd⟩, hcount⟩ := hrow v hv
  exact ⟨hans, (adopted_supervised_iff hrun (World.step_call bareEnv (by decide) rfl) hans).1 ⟨e', he', hd, hcount⟩⟩

/-- **A cancel before the acceptance is recorded.**  The pass is claimed at second 2 and cancelled at second 3, while
its executor is starting the handler.  Adopted at second 41 it is neither charged nor given a deadline. -/
theorem adopted_after_cancel_unsupervised :
    ∃ tr w v w', Sys.Run (Step bareEnv) (World.init 0) tr w ∧ v ∈ w.db.staleExecutions 40 10 ∧
      Step bareEnv w (takeover v, Ctx.at_ 41) w' ∧ answer bareEnv w (takeover v, Ctx.at_ 41) = .ok () ∧
      (∃ e' ∈ w'.db.exec? v.id, e'.status = .cancelRequested ∧ e'.deadlineAt = none ∧ e'.attemptNo = 0) ∧
      ((tr ++ [(w, (takeover v, Ctx.at_ 41), w')]).flatMap charges).count v.runToken = 0 := by
  let calls : List (Action × Int) := claimedPass ++ [(.requestCancel 1 "operator" "stop", 3)]
  let w := (World.init 0).play bareEnv calls
  obtain ⟨v, hv⟩ : ∃ v, v ∈ w.db.staleExecutions 40 10 := List.exists_mem_of_length_pos (by decide +kernel)
  refine ⟨_, w, v, _, World.run_play bareEnv calls (World.init 0) (by decide +kernel), hv,
    World.step_call bareEnv (by decide) rfl, ?_, ?_, ?_⟩
  all_goals
    revert v
    decide +kernel

end GoJob
