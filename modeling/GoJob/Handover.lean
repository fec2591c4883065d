import GoJob.InFlight
import GoJob.Result
import GoJob.TokenLife
/-!
# Handover — callbacks across an adoption

Recovery takes a running attempt over by raising the epoch of its row; the token stays.  A callback that read the row
before and writes after it is refused, reads again, finds its token under the new epoch and writes once more.  So one
adoption between its reads and its writes costs a callback nothing.
-/
namespace GoJob

open Rel

variable {env : Env} {i : Nat} {t : String}

theorem utc_run {w w' : World} {tr : History} (hr : Sys.Run (Step env) w tr w') : w.utc ≤ w'.utc :=
  Sys.Run.invariant (I := fun w₁ => w.utc ≤ w₁.utc) (le_refl _) (fun _ _ _ h hst => le_trans h hst.utc_le) hr

/-- The runtime cap has not elapsed before `u`. -/
def ExecRow.Within (e : ExecRow) (u : Utc) : Prop := ∀ cap, e.timeoutAt = some cap → u ≤ cap

theorem ExecRow.Within.not_past {e : ExecRow} {u v : Utc} (h : e.Within u) (hle : v ≤ u) :
    past e.timeoutAt v = false := by
  unfold past
  cases ht : e.timeoutAt with
  | none => rfl
  | some cap =>
    have hcap : v ≤ cap := le_trans hle (h cap ht)
    simpa using hcap

/-- Nobody else ends the attempt, and at most one takes it over once the call has made `p` steps. -/
structure Undisturbed (env : Env) (i : Nat) (t : String) (p : Nat) (ev : List (Sys.Event World (Action × Ctx) Query)) :
    Prop where
  keeps  : ∀ n x, .other n x ∈ ev → x.1.db.HeldUnder i t → x.2.2.db.HeldUnder i t
  adopts : (Sys.since p ev).countP (adopted env i) ≤ 1

/-- **A row stays held through a run of steps that keep it so.** -/
theorem held_forward {w w' : World} {tr : History} (hr : Sys.Run (Step env) w tr w')
    (hk : ∀ x ∈ tr, x.1.db.HeldUnder i t → x.2.2.db.HeldUnder i t) (h : w.db.HeldUnder i t) : w'.db.HeldUnder i t :=
  Sys.Run.invariant_of (I := fun w => w.db.HeldUnder i t)
    (fun x => x.1.db.HeldUnder i t → x.2.2.db.HeldUnder i t) h (fun _ _ _ h hk _ => hk h) hr hk

/-- The row at the end of a run that keeps it held, next to the row at its start. -/
theorem held_later {w w' : World} {tr : History} (hinv : HolderInv w.db w.issued) (hr : Sys.Run (Step env) w tr w')
    (hk : ∀ x ∈ tr, x.1.db.HeldUnder i t → x.2.2.db.HeldUnder i t) {e : ExecRow} (he : w.db.exec? i = some e)
    (hh : e.status.held = true) (ht : e.runToken = some t) :
    ∃ e', w'.db.exec? i = some e' ∧ e'.status.held = true ∧ e'.runToken = some t ∧ e'.toExecInfo = e.toExecInfo ∧
      e'.timeoutAt = e.timeoutAt ∧ e.fenceEpoch ≤ e'.fenceEpoch ∧
      (e'.fenceEpoch ≠ e.fenceEpoch → 0 < tr.countP (adopted env i)) := by
  obtain ⟨e', he', hh', ht'⟩ := held_forward hr hk ⟨e, he, hh, ht⟩
  obtain ⟨e₁, he₁, -, -, hcols⟩ := held_run hr (hinv.issued _ _ _ he ht) he' hh' ht'
  obtain rfl := Option.some.inj (he.symm.trans he₁)
  exact ⟨e', he', hh', ht', hcols⟩

theorem answer_error {w : World} {l : Action × Ctx} {err : Err} (h : answer env w l = .error err) :
    l.1.tx env l.2 w.db = .error err := by
  unfold answer at h
  cases hx : l.1.tx env l.2 w.db with
  | error e =>
    rw [hx] at h
    exact congrArg Except.error (Except.error.inj h)
  | ok r => rw [hx] at h; cases h

theorem Step.db_of_error {w w' : World} {l : Action × Ctx} {err : Err} (hst : Step env w l w')
    (h : answer env w l = .error err) : w'.db = w.db := by
  rw [hst.db]
  exact Tx.commit_of_error (answer_error h)

/-! ## The retry -/

section retry

variable {ρ : Type} {h : Holder} {write : Nat → Holder → Action} {k : Except Err Unit → CallM ρ} {n : Nat} {u : Utc}
  {tr₀ : History} {ev : List (Sys.Event World (Action × Ctx) Query)} {r : ρ} {s s' : World} {e : ExecRow}

/-- The write that lands: under the epoch of the row it finds, after writes that were refused. -/
structure Landing (env : Env) (u : Utc) (s : World) (e : ExecRow) (h : Holder) (write : Nat → Holder → Action)
    (pre : List (Sys.Event World (Action × Ctx) Query)) (x : World × (Action × Ctx) × World) (e₁ : ExecRow) : Prop where
  action  : ∃ m, x.2.1.1 = write m { h with fenceEpoch := e₁.fenceEpoch }
  reach   : ∃ tr, Sys.Run (Step env) (World.init u) tr x.1
  step    : Step env x.1 x.2.1 x.2.2
  later   : s.utc ≤ x.1.utc
  row     : x.1.db.exec? e.id = some e₁
  held    : e₁.status.held = true
  token   : e₁.runToken = some h.runToken
  info    : e₁.toExecInfo = e.toExecInfo
  answer  : answer env x.1 x.2.1 = .ok ()
  refused : ∀ y, .own y ∈ pre → ∃ err, GoJob.answer env y.1 y.2.1 = .error err

/-- **One adoption does not stop a write**: a write that only needs the row's own epoch lands, at the first or the
second try. -/
theorem retryPastAdoption_lands (hr₀ : Sys.Run (Step env) (World.init u) tr₀ s)
    (hx : Sys.Exec (Step env) (answer env) n (Server.retryPastAdoption h write k) s ev r s')
    (he : s.db.exec? e.id = some e) (hh : e.status.held = true) (ht : e.runToken = some h.runToken)
    (hkey : h.executionKey = e.executionKey) (hepoch : h.fenceEpoch = e.fenceEpoch)
    (hund : Undisturbed env e.id h.runToken n ev) (hcap : e.Within s'.utc)
    (hok : ∀ m c w w' tr e', Sys.Run (Step env) (World.init u) tr w →
      .own (w, (write m { h with fenceEpoch := e'.fenceEpoch }, c), w') ∈ ev → w.db.exec? e.id = some e' →
      e'.status.held = true → e'.runToken = some h.runToken → e'.toExecInfo = e.toExecInfo →
      (∀ n, past e'.timeoutAt (c.utc n) = false) →
      answer env w (write m { h with fenceEpoch := e'.fenceEpoch }, c) = .ok ())
    (hbad : ∀ m c w e', w.db.exec? e.id = some e' → e'.fenceEpoch ≠ h.fenceEpoch →
      ∃ err, answer env w (write m h, c) = .error err ∧ err.kind = .fenced) :
    ∃ pre x post m e₁, ev = pre ++ .own x :: post ∧ Landing env u s e h write pre x e₁ ∧
      Sys.Exec (Step env) (answer env) m (k (.ok ())) x.2.2 post r s' := by
  have capped : ∀ {w w' : World} {l : Action × Ctx} {x : ExecRow}, Step env w l w' →
      w'.utc ≤ s'.utc → x.timeoutAt = e.timeoutAt →
      ∀ m, past x.timeoutAt (l.2.utc m) = false := fun hst hle hto m => by
    rw [hto]
    exact hcap.not_past (le_trans (hst.after m) hle)
  obtain ⟨tr₁, s₁, c₁, s₂, ev₁, rfl, hr₁, hst₁, hx⟩ := Sys.Exec.call_inv hx
  have keeps₁ : ∀ x ∈ tr₁, x.1.db.HeldUnder e.id h.runToken → x.2.2.db.HeldUnder e.id h.runToken := fun x hx =>
    hund.keeps n x (List.mem_append_left _ (List.mem_map_of_mem hx))
  obtain ⟨e₁, he₁, hh₁, ht₁, hinfo₁, hto₁, hle₁, hadopt₁⟩ := held_later (HolderInv.run hr₀) hr₁ keeps₁ he hh ht
  have hrun₁ := hr₀.append hr₁
  by_cases hsame : e₁.fenceEpoch = e.fenceEpoch
  · -- Nobody has adopted the attempt: the first write is under the row's epoch.
    have hself : { h with fenceEpoch := e₁.fenceEpoch } = h := by rw [hsame, ← hepoch]
    have hans := hok 0 c₁ s₁ s₂ _ e₁ hrun₁ (by rw [hself]; simp) he₁ hh₁ ht₁ hinfo₁
      (capped hst₁ (utc_run hx.run) hto₁)
    rw [hself] at hans
    rw [hans] at hx
    refine ⟨_, _, ev₁, _, e₁, rfl, ⟨⟨0, by rw [hself]⟩, ⟨_, hrun₁⟩, hst₁, utc_run hr₁, he₁, hh₁, ht₁, hinfo₁, hans, ?_⟩,
      hx⟩
    intro y hy
    obtain ⟨z, -, hz⟩ := List.mem_map.1 hy
    cases hz
  · obtain ⟨err, herr, hfenced⟩ := hbad 0 c₁ s₁ e₁ he₁ (hepoch ▸ hsame)
    have hdb : s₂.db = s₁.db := hst₁.db_of_error herr
    rw [herr] at hx
    simp only [hfenced, ne_eq, not_true_eq_false, if_false] at hx
    obtain ⟨tr₂, s₃, v, ev₂, rfl, hr₂, hx⟩ := Sys.Exec.read_inv hx
    have hrun₂ := hrun₁.snoc hst₁
    have keeps₂ : ∀ x ∈ tr₂, x.1.db.HeldUnder e.id h.runToken → x.2.2.db.HeldUnder e.id h.runToken := fun x hx =>
      hund.keeps (n + 1) x (by simp [Sys.others, hx])
    obtain ⟨e₃, he₃, hh₃, ht₃, hinfo₃, hto₃, hle₃, -⟩ :=
      held_later (HolderInv.run hrun₂) hr₂ keeps₂ (hdb ▸ he₁) hh₁ ht₁
    have hrow : s₃.db.executionByKey v h.executionKey = some (e₃.toStale v) := by
      have hk₃ : e₃.executionKey = h.executionKey := by rw [hinfo₃, hinfo₁, hkey]
      rw [← hk₃]
      exact DB.executionByKey_of he₃ v
    have htok : (e₃.toStale v).runToken = h.runToken := by simp [ExecRow.toStale, ht₃]
    have hmoved : (e₃.toStale v).fenceEpoch ≠ h.fenceEpoch := by
      have hlt : e.fenceEpoch < e₃.fenceEpoch := lt_of_lt_of_le (lt_of_le_of_ne hle₁ (Ne.symm hsame)) hle₃
      exact fun heq => absurd (hepoch ▸ heq) (Nat.ne_of_gt hlt)
    rw [hrow] at hx
    simp only [htok, not_true_eq_false, hmoved, or_self, if_false] at hx
    obtain ⟨tr₃, s₄, c₂, s₅, ev₃, rfl, hr₃, hst₂, hx⟩ := Sys.Exec.call_inv hx
    have keeps₃ : ∀ x ∈ tr₃, x.1.db.HeldUnder e.id h.runToken → x.2.2.db.HeldUnder e.id h.runToken := fun x hx =>
      hund.keeps (n + 2) x (by simp [Sys.others, hx])
    have hrun₃ := hrun₂.append hr₂
    obtain ⟨e₄, he₄, hh₄, ht₄, hinfo₄, hto₄, -, hadopt₄⟩ := held_later (HolderInv.run hrun₃) hr₃ keeps₃ he₃ hh₃ ht₃
    -- The adoption before the first write was the only one.
    have hsame₄ : e₄.fenceEpoch = e₃.fenceEpoch := by
      by_contra hne
      have hcount := hund.adopts
      have h₁ := hadopt₁ hsame
      have h₄ := hadopt₄ hne
      simp only [Sys.since_append, Sys.since_own, Sys.since_read, Sys.since_others (le_refl n),
        Sys.since_others (Nat.le_succ n), Sys.since_others (Nat.le_add_right n 2), List.countP_append] at hcount
      omega
    have hself : { h with fenceEpoch := e₄.fenceEpoch } = { h with fenceEpoch := (e₃.toStale v).fenceEpoch } := by
      rw [hsame₄]; rfl
    have hinfo := hinfo₄.trans (hinfo₃.trans hinfo₁)
    have hans := hok 1 c₂ s₄ s₅ _ e₄ (hrun₃.append hr₃) (by rw [hself]; simp) he₄ hh₄ ht₄ hinfo
      (capped hst₂ (utc_run hx.run) (hto₄.trans (hto₃.trans hto₁)))
    rw [hself] at hans
    rw [hans] at hx
    refine ⟨Sys.others n tr₁ ++ .own (s₁, (write 0 h, c₁), s₂) :: (Sys.others (n + 1) tr₂ ++
      .read .execution s₃ :: Sys.others (n + 2) tr₃),
      (s₄, (write 1 { h with fenceEpoch := (e₃.toStale v).fenceEpoch }, c₂), s₅), ev₃, _, e₄, by simp, ?_, hx⟩
    refine ⟨⟨1, by rw [hself]⟩, ⟨_, hrun₃.append hr₃⟩, hst₂, ?_, he₄, hh₄, ht₄, hinfo, hans, fun y hy => ?_⟩
    · exact le_trans (utc_run hr₁) (le_trans hst₁.utc_le (le_trans (utc_run hr₂) (utc_run hr₃)))
    · simp only [Sys.others, List.mem_append, List.mem_cons, List.mem_map, reduceCtorEq, and_false, exists_false,
        false_or, or_false, Sys.Event.own.injEq] at hy
      exact ⟨err, hy ▸ herr⟩

end retry

/-! ## The two callbacks -/

section callbacks

variable {u : Utc} {tr₀ : History} {w w' : World} {ev : List (Sys.Event World (Action × Ctx) Query)} {e : ExecRow}

theorem Undisturbed.tail {p n : Nat} {tr : History} {q : Query} {s : World}
    {ev' : List (Sys.Event World (Action × Ctx) Query)}
    (h : Undisturbed env i t p (Sys.others n tr ++ .read q s :: ev')) (hn : n < p) : Undisturbed env i t p ev' := by
  refine ⟨fun m x hx => h.keeps m x (List.mem_append_right _ (List.mem_cons_of_mem _ hx)), ?_⟩
  have hcount := h.adopts
  rwa [Sys.since_append, Sys.since_others_lt hn, List.nil_append, Sys.since_read] at hcount

/-- The row a read finds, after others that keep it held. -/
theorem Undisturbed.row {p n : Nat} {tr : History} {q : Query} {s : World}
    {ev' : List (Sys.Event World (Action × Ctx) Query)} (hr₀ : Sys.Run (Step env) (World.init u) tr₀ w)
    (h : Undisturbed env e.id t p (Sys.others n tr ++ .read q s :: ev')) (hr : Sys.Run (Step env) w tr s)
    (he : w.db.exec? e.id = some e) (hh : e.status.held = true) (ht : e.runToken = some t) :
    ∃ e', s.db.exec? e'.id = some e' ∧ e'.status.held = true ∧ e'.runToken = some t ∧ e'.toExecInfo = e.toExecInfo ∧
      e'.timeoutAt = e.timeoutAt := by
  have hk : ∀ x ∈ tr, x.1.db.HeldUnder e.id t → x.2.2.db.HeldUnder e.id t := fun x hx =>
    h.keeps n x (List.mem_append_left _ (List.mem_map_of_mem hx))
  obtain ⟨e', he', hh', ht', hinfo, hto, -⟩ := held_later (HolderInv.run hr₀) hr hk he hh ht
  exact ⟨e', by rw [DB.exec?_id he']; exact he', hh', ht', hinfo, hto⟩

/-- The outcome is recorded by one of the call's writes, and by no other: there is no history of the attempt before it,
and after it there is, with what the outcome means. -/
def RecordedOnce (env : Env) (key t : String) (oc : ExecutionOutcome)
    (ev : List (Sys.Event World (Action × Ctx) Query)) : Prop :=
  ∃ pre x post, ev = pre ++ .own x :: post ∧ answer env x.1 x.2.1 = .ok () ∧
    (∀ y, .own y ∈ pre ∨ .own y ∈ post → ∃ err, answer env y.1 y.2.1 = .error err) ∧
    x.1.db.attempt? key t = none ∧
    (x.2.2.db.attempt? key t).map AttemptRow.outcome = some (classify oc.disposition oc.failureKind).attempt

theorem Step.apply_history {k : Holder} {oc : ExecutionOutcome} {x : String} {b : Int} {c : Ctx}
    (hst : Step env w (apply k oc x b, c) w') (hans : answer env w (apply k oc x b, c) = .ok ())
    (hnone : w.db.attempt? k.executionKey k.runToken = none) :
    (w'.db.attempt? k.executionKey k.runToken).map AttemptRow.outcome =
      some (classify oc.disposition oc.failureKind).attempt := by
  obtain ⟨_, _, _, _, _, -, -, -, -, -, -, -, hatt⟩ := apply_ok (hst.tx_ok hans)
  have hrow := DB.attempt?_of_added hatt hnone
  exact congrArg (Option.map AttemptRow.outcome) hrow

theorem reportResult_eq {backoff : Nat → Int} {req : Server.ReportResultRequest} {oc : ExecutionOutcome}
    (hkey : req.executionKey ≠ "") (htok : req.runToken ≠ "") (hoc : req.outcome = some oc)
    (hd : oc.disposition ≠ .unspecified) :
    Server.reportResult (.ok ()) backoff req = Server.recordResult backoff req oc := by
  simp [Server.reportResult, hkey, htok, hoc, hd]

theorem reportResult_handed_over {backoff : Nat → Int} {req : Server.ReportResultRequest} {oc : ExecutionOutcome}
    {reply : Server.ResultReply} (hr₀ : Sys.Run (Step env) (World.init u) tr₀ w)
    (hx : Callback env (Server.recordResult backoff req oc) w ev reply w')
    (he : w.db.exec? e.id = some e) (hh : e.status.held = true) (ht : e.runToken = some req.runToken)
    (hkey : req.executionKey = e.executionKey) (hund : Undisturbed env e.id req.runToken 2 ev) (hcap : e.Within w'.utc)
    (hv : ∀ x, .own x ∈ ev → x.1.db.DelaysValid) :
    reply = .ok ⟨false⟩ ∧ RecordedOnce env req.executionKey req.runToken oc ev := by
  obtain ⟨tr₁, s₁, _, ev₁, rfl, hr₁, hx⟩ := Sys.Exec.read_inv hx
  obtain ⟨e₁, he₁, hh₁, ht₁, hinfo₁, hto₁⟩ := hund.row hr₀ hr₁ he hh ht
  have hrun₁ := hr₀.append hr₁
  rw [held_unwritten hrun₁ ⟨e₁, he₁, hh₁, ht₁⟩] at hx
  have hund₁ : Undisturbed env e₁.id req.runToken 2 ev₁ := by
    rw [hinfo₁]
    exact hund.tail (by decide)
  obtain ⟨tr₂, s₂, v, ev₂, rfl, hr₂, hx⟩ := Sys.Exec.read_inv hx
  obtain ⟨e₂, he₂, hh₂, ht₂, hinfo₂, hto₂⟩ := hund₁.row hrun₁ hr₂ he₁ hh₁ ht₁
  have hrun₂ := hrun₁.append hr₂
  have hkey₂ : req.executionKey = e₂.executionKey := by rw [hkey, hinfo₂, hinfo₁]
  rw [hkey₂, DB.executionByKey_of he₂ v] at hx
  have htok : (e₂.toStale v).runToken = req.runToken := by simp [ExecRow.toStale, ht₂]
  simp only [htok, not_true_eq_false, ne_eq, if_false] at hx
  have hund₂ : Undisturbed env e₂.id (e₂.toStale v).runToken 2 ev₂ := by
    rw [hinfo₂, htok]
    exact hund₁.tail (by decide)
  have hcap₂ : e₂.Within w'.utc := fun cap hc => hcap cap (hto₁ ▸ hto₂ ▸ hc)
  have hv₂ : ∀ x, .own x ∈ ev₂ → x.1.db.DelaysValid := fun x hx => hv x (by simp [hx])
  obtain ⟨pre, x, post, m, e₃, rfl, hl, hx⟩ := retryPastAdoption_lands hrun₂ hx he₂ hh₂ (by rw [ht₂, ← htok]; rfl) rfl
    rfl hund₂ hcap₂
    (fun m c w₁ _ tr e' hrun hmem he' hh' ht' hinfo' hpast =>
      apply_lands hrun (hv₂ _ hmem) he' (by rw [hinfo']; rfl) hh' ht' (hpast 2))
    (fun m c w₁ e' he' hne => apply_stale he' hne)
  have hreach := hl.reach
  obtain ⟨tr, hrun⟩ := hreach
  have hnone := held_unwritten hrun ⟨e₃, hl.row, hl.held, hl.token⟩ e₂.executionKey
  obtain ⟨tr₃, rfl, -, rfl⟩ := Sys.Exec.ret_inv hx
  refine ⟨rfl, Sys.others 0 tr₁ ++ .read .history s₁ :: (Sys.others 1 tr₂ ++ .read .execution s₂ :: pre), x,
    Sys.others m tr₃, by simp, hl.answer, ?_, ?_, ?_⟩
  · rintro y (hy | hy)
    · refine hl.refused y ?_
      simpa [Sys.others] using hy
    · obtain ⟨z, -, hz⟩ := List.mem_map.1 hy
      cases hz
  · rw [hkey₂, ← htok]
    exact hnone
  · obtain ⟨w₁, ⟨a, c⟩, w₂⟩ := x
    obtain ⟨m, rfl⟩ : ∃ m, a = _ := hl.action
    rw [hkey₂, ← htok]
    exact hl.step.apply_history hl.answer hnone

theorem Step.extended {k : Holder} {l : Int} {c : Ctx} (hst : Step env w (.extendDeadline k l, c) w')
    (hans : answer env w (.extendDeadline k l, c) = .ok ()) :
    ∃ e', w'.db.exec? k.executionId = some e' ∧ e'.deadlineAt = some (c.utc 0 + l) := by
  obtain ⟨e, he, -, hdb⟩ := casExec_ok (hst.tx_ok hans)
  refine ⟨(extendWrite l (c.utc 0)).run e, ?_, rfl⟩
  rw [hdb]
  simp [he]

theorem reportProgress_handed_over {silence : Int} {req : Server.ReportProgressRequest}
    {reply : Server.ProgressReply} (hr₀ : Sys.Run (Step env) (World.init u) tr₀ w)
    (hx : Callback env (Server.reportProgress (.ok ()) silence req) w ev reply w')
    (he : w.db.exec? e.id = some e) (hh : e.status.held = true) (ht : e.runToken = some req.runToken)
    (hkey : req.executionKey = e.executionKey) (hund : Undisturbed env e.id req.runToken 1 ev) (hcap : e.Within w'.utc)
    (hread : ∀ s x, Sys.firstRead ev = some s → s.db.exec? e.id = some x → x.status ≠ .cancelRequested) :
    reply = .ok ⟨true, roundUpSeconds silence⟩ ∧ ∃ x e', .own x ∈ ev ∧ x.2.2.db.exec? e.id = some e' ∧
      e'.deadlineAt = some (x.2.1.2.utc 0 + roundUpSeconds silence) ∧ w.utc ≤ x.2.1.2.utc 0 := by
  obtain ⟨tr₁, s₁, v, ev₁, rfl, hr₁, hx⟩ := Sys.Exec.read_inv hx
  obtain ⟨e₁, he₁, hh₁, ht₁, hinfo₁, hto₁⟩ := hund.row hr₀ hr₁ he hh ht
  have hrun₁ := hr₀.append hr₁
  have hkey₁ : req.executionKey = e₁.executionKey := by rw [hkey, hinfo₁]
  have hid : e₁.id = e.id := by rw [hinfo₁]
  rw [hkey₁, DB.executionByKey_of he₁ v] at hx
  have hlive : (e₁.toStale v).status ≠ .cancelRequested :=
    hread s₁ e₁ (Sys.firstRead_others _ _ _ _ _) (hid ▸ he₁)
  simp only [hlive, if_false] at hx
  have hund₁ : Undisturbed env e₁.id req.runToken 1 ev₁ := by
    rw [hid]
    exact hund.tail (by decide)
  have hcap₁ : e₁.Within w'.utc := fun cap hc => hcap cap (hto₁ ▸ hc)
  obtain ⟨pre, x, post, m, e₂, rfl, hl, hx⟩ := retryPastAdoption_lands hrun₁ hx he₁ hh₁ ht₁ rfl rfl hund₁ hcap₁
    (fun m c w₁ _ tr e' hrun hmem he' hh' ht' hinfo' hpast => extendDeadline_lands he' hh' ht' (hpast 0))
    (fun m c w₁ e' he' hne => extendDeadline_stale he' hne)
  obtain ⟨tr₂, rfl, -, rfl⟩ := Sys.Exec.ret_inv hx
  have hlater := le_trans (le_trans (utc_run hr₁) hl.later) (hl.step.le_utc 0)
  obtain ⟨w₁, ⟨a, c⟩, w₂⟩ := x
  obtain ⟨m, rfl⟩ : ∃ m, a = _ := hl.action
  obtain ⟨e', he', hd⟩ := hl.step.extended hl.answer
  exact ⟨rfl, (w₁, (_, c), w₂), e', by simp, hid ▸ he', hd, hlater⟩

end callbacks

/-- **A handover does not kill the run it rescues.**  While a callback for a held attempt runs, others may do anything
but end the attempt, and one of them may adopt it after the callback's reads.  If the runtime cap does not elapse, a
result is recorded once and answered with OK, and progress extends the silence deadline unless the row was found
`cancel_requested`. -/
theorem handover_keeps_the_run {u : Utc} {tr₀ : History} {w : World} (hr₀ : Sys.Run (Step env) (World.init u) tr₀ w)
    {e : ExecRow} (he : w.db.exec? e.id = some e) (hh : e.status.held = true) (ht : e.runToken = some t) :
    (∀ backoff req oc ev reply w', Callback env (Server.reportResult (.ok ()) backoff req) w ev reply w' →
      req.executionKey = e.executionKey → req.runToken = t → req.executionKey ≠ "" → req.runToken ≠ "" →
      req.outcome = some oc → oc.disposition ≠ .unspecified → Undisturbed env e.id t 2 ev → e.Within w'.utc →
      (∀ x, .own x ∈ ev → x.1.db.DelaysValid) →
      reply = .ok ⟨false⟩ ∧ RecordedOnce env e.executionKey t oc ev) ∧
    (∀ silence req ev reply w', Callback env (Server.reportProgress (.ok ()) silence req) w ev reply w' →
      req.executionKey = e.executionKey → req.runToken = t → Undisturbed env e.id t 1 ev → e.Within w'.utc →
      (∀ s x, Sys.firstRead ev = some s → s.db.exec? e.id = some x → x.status ≠ .cancelRequested) →
      reply = .ok ⟨true, roundUpSeconds silence⟩ ∧ ∃ x e', .own x ∈ ev ∧ x.2.2.db.exec? e.id = some e' ∧
        e'.deadlineAt = some (x.2.1.2.utc 0 + roundUpSeconds silence) ∧ w.utc ≤ x.2.1.2.utc 0) := by
  constructor
  · rintro backoff req oc ev reply w' hx hkey rfl hne htok hoc hd hund hcap hv
    rw [reportResult_eq hne htok hoc hd] at hx
    rw [← hkey]
    exact reportResult_handed_over hr₀ hx he hh ht hkey hund hcap hv
  · rintro silence req ev reply w' hx hkey rfl hund hcap hread
    exact reportProgress_handed_over hr₀ hx he hh ht hkey hund hcap hread

/-- The accepted pass of `claimedPass`, whose lease runs out at second 32 and whose cap at second 62. -/
def acceptedPass : World := (World.init 0).play bareEnv (claimedPass ++ [(.accept 1 "t1" 1 60, 3)])

theorem acceptedPass_run : Sys.Run (Step bareEnv) (World.init 0)
    ((World.init 0).trace bareEnv (claimedPass ++ [(.accept 1 "t1" 1 60, 3)])) acceptedPass :=
  World.run_play bareEnv _ (World.init 0) (by decide)

def successRequest : Server.ReportResultRequest := ⟨"pass-1", "t1", some { disposition := .success }⟩

/-- Nobody ends the pass during the call, one adopts it, and the delay parses. -/
def quietCall (ev : List (Sys.Event World (Action × Ctx) Query)) : Bool :=
  ev.all (fun e => match e with
    | .other _ x => (x.2.2.db.exec? 1).any (fun e => e.status.held && decide (e.runToken = some "t1"))
    | .own x     => x.1.db.definitions.rows.all (fun d => d.toDefinition.delay.toBool)
    | .read _ _  => true) && decide ((Sys.since 2 ev).countP (adopted bareEnv 1) = 1)

theorem DB.delaysValid_of {db : DB} (h : db.definitions.rows.all (fun d => d.toDefinition.delay.toBool) = true) :
    db.DelaysValid := by
  intro j d hd
  have hok := List.all_eq_true.1 h d (Table.mem_of_get? hd)
  cases hx : d.toDefinition.delay with
  | error err => rw [hx] at hok; cases hok
  | ok t => exact ⟨t, rfl⟩

theorem handover_keeps_the_run_adopted : ∃ ev w',
    Callback bareEnv (Server.reportResult (.ok ()) (fun _ => 30) successRequest) acceptedPass ev (.ok ⟨false⟩) w' ∧
    (Sys.since 2 ev).countP (adopted bareEnv 1) = 1 ∧
    RecordedOnce bareEnv "pass-1" "t1" { disposition := .success } ev := by
  obtain ⟨ev, reply, w', hx, hquiet⟩ := playCall_checked bareEnv acceptedPass
    (Server.reportResult (.ok ()) (fun _ => 30) successRequest)
    (fun ev _ w' => quietCall ev && decide (w'.utc = 44))
    [([], 40), ([], 40), ([(.adopt (scannedPass "pass-1" 1) "rescuer" 30 60 false, 41)], 42), ([], 43),
      ([], 44)] (by decide +kernel)
  simp only [Bool.and_eq_true, decide_eq_true_eq, quietCall, List.all_eq_true] at hquiet
  obtain ⟨⟨hall, hcount⟩, hutc⟩ := hquiet
  have hrow : (acceptedPass.db.exec? 1).any (fun e => decide (e.id = 1) && decide (e.executionKey = "pass-1") &&
      e.status.held && decide (e.runToken = some "t1") && decide (e.timeoutAt = some 62)) = true := by decide +kernel
  obtain ⟨e, he, hcols⟩ := (Option.any_eq_true _ _).1 hrow
  simp only [Bool.and_eq_true, decide_eq_true_eq] at hcols
  obtain ⟨⟨⟨⟨hid, hkey⟩, hheld⟩, htok⟩, hcap⟩ := hcols
  have hund : Undisturbed bareEnv e.id "t1" 2 ev := by
    rw [hid]
    refine ⟨fun n x hm _ => ?_, le_of_eq hcount⟩
    have hx := hall _ hm
    obtain ⟨y, hy, hy'⟩ := (Option.any_eq_true _ _).1 hx
    simp only [Bool.and_eq_true, decide_eq_true_eq] at hy'
    exact ⟨y, hy, hy'⟩
  have hwithin : e.Within w'.utc := fun cap hc => by
    obtain rfl := Option.some.inj (hcap.symm.trans hc)
    rw [hutc]; decide
  obtain ⟨rfl, hrec⟩ := (handover_keeps_the_run acceptedPass_run (by rw [hid]; exact he) hheld htok).1 _
    successRequest _ ev reply w'
    hx hkey.symm rfl (by decide) (by decide) rfl (by decide) hund hwithin
    (fun x hm => DB.delaysValid_of (hall _ hm))
  rw [hkey] at hrec
  exact ⟨ev, w', hx, hcount, hrec⟩

end GoJob
