import GoJob.Handover
/-!
# Redelivery — what a result that arrives twice is told

`ReportResult` looks for the attempt's history first, then for its row, then writes, and looks for the history once more
when its write is refused.  `ResultCourse` lists every way this can go among the calls of others.  Two things follow.
The history does not say who ended the attempt, so a result for an attempt that the scheduler ended is told that it was
recorded.  And between the first two reads a retry can take the token off the row, so a result that was recorded can be
told that it was fenced.
-/
namespace GoJob

open Rel

abbrev CallEvent := Sys.Event World (Action × Ctx) Query

variable {env : Env}

/-! ## Every course of a call -/

/-- What `retryPastAdoption` goes through before it answers its caller: its events, its answer, the world it is left
in. -/
inductive RetryCourse (env : Env) (h : Holder) (write : Nat → Holder → Action) (n : Nat) (s : World) :
    List CallEvent → Except Err Unit → World → Prop
  | once {tr s₁ c s₂} (hr : Sys.Run (Step env) s tr s₁) (hst : Step env s₁ (write 0 h, c) s₂)
      (hstop : ∀ err, answer env s₁ (write 0 h, c) = .error err → err.kind ≠ .fenced) :
      RetryCourse env h write n s (Sys.others n tr ++ [.own (s₁, (write 0 h, c), s₂)])
        (answer env s₁ (write 0 h, c)) s₂
  | stopped {tr s₁ c s₂ err tr₂ s₃} (v : Utc) (hr : Sys.Run (Step env) s tr s₁) (hst : Step env s₁ (write 0 h, c) s₂)
      (hans : answer env s₁ (write 0 h, c) = .error err) (hf : err.kind = .fenced)
      (hr₂ : Sys.Run (Step env) s₂ tr₂ s₃)
      (hrow : ∀ row, s₃.db.executionByKey v h.executionKey = some row →
        row.runToken ≠ h.runToken ∨ row.fenceEpoch = h.fenceEpoch) :
      RetryCourse env h write n s (Sys.others n tr ++ .own (s₁, (write 0 h, c), s₂) ::
        (Sys.others (n + 1) tr₂ ++ [.read .execution s₃])) (.error err) s₃
  | twice {tr s₁ c s₂ err tr₂ s₃ row tr₃ s₄ c₂ s₅} (v : Utc) (hr : Sys.Run (Step env) s tr s₁)
      (hst : Step env s₁ (write 0 h, c) s₂) (hans : answer env s₁ (write 0 h, c) = .error err)
      (hf : err.kind = .fenced) (hr₂ : Sys.Run (Step env) s₂ tr₂ s₃)
      (hrow : s₃.db.executionByKey v h.executionKey = some row) (htok : row.runToken = h.runToken)
      (hepoch : row.fenceEpoch ≠ h.fenceEpoch) (hr₃ : Sys.Run (Step env) s₃ tr₃ s₄)
      (hst₂ : Step env s₄ (write 1 { h with fenceEpoch := row.fenceEpoch }, c₂) s₅) :
      RetryCourse env h write n s (Sys.others n tr ++ .own (s₁, (write 0 h, c), s₂) ::
        (Sys.others (n + 1) tr₂ ++ .read .execution s₃ :: (Sys.others (n + 2) tr₃ ++
          [.own (s₄, (write 1 { h with fenceEpoch := row.fenceEpoch }, c₂), s₅)])))
        (answer env s₄ (write 1 { h with fenceEpoch := row.fenceEpoch }, c₂)) s₅

theorem retryPastAdoption_course {ρ : Type} {h : Holder} {write : Nat → Holder → Action}
    {k : Except Err Unit → CallM ρ} {n : Nat} {s s' : World} {ev : List CallEvent} {r : ρ}
    (hx : Sys.Exec (Step env) (answer env) n (Server.retryPastAdoption h write k) s ev r s') :
    ∃ pre ans s₁ m rest, ev = pre ++ rest ∧ RetryCourse env h write n s pre ans s₁ ∧
      Sys.Exec (Step env) (answer env) m (k ans) s₁ rest r s' := by
  obtain ⟨tr, s₁, c, s₂, ev₁, rfl, hr, hst, hx⟩ := Sys.Exec.call_inv hx
  cases hans : answer env s₁ (write 0 h, c) with
  | ok =>
    rw [hans] at hx
    refine ⟨_, _, _, _, ev₁, by simp, .once hr hst (fun err herr => ?_), by rw [hans]; exact hx⟩
    rw [hans] at herr; cases herr
  | error err =>
    rw [hans] at hx
    by_cases hf : err.kind = .fenced
    · simp only [hf, ne_eq, not_true_eq_false, if_false] at hx
      obtain ⟨tr₂, s₃, v, ev₂, rfl, hr₂, hx⟩ := Sys.Exec.read_inv hx
      cases hrow : s₃.db.executionByKey v h.executionKey with
      | none =>
        rw [hrow] at hx
        refine ⟨_, _, _, _, ev₂, by simp, .stopped v hr hst hans hf hr₂ (fun row h => ?_), hx⟩
        rw [hrow] at h; cases h
      | some row =>
        rw [hrow] at hx
        by_cases hg : row.runToken ≠ h.runToken ∨ row.fenceEpoch = h.fenceEpoch
        · simp only [hg, if_true] at hx
          refine ⟨_, _, _, _, ev₂, by simp, .stopped v hr hst hans hf hr₂ (fun row' h => ?_), hx⟩
          rw [hrow] at h
          exact Option.some.inj h ▸ hg
        · simp only [hg, if_false] at hx
          rw [not_or, not_ne_iff] at hg
          obtain ⟨tr₃, s₄, c₂, s₅, ev₃, rfl, hr₃, hst₂, hx⟩ := Sys.Exec.call_inv hx
          exact ⟨_, _, _, _, ev₃, by simp, .twice v hr hst hans hf hr₂ hrow hg.1 hg.2 hr₃ hst₂, hx⟩
    · simp only [ne_eq, hf, not_false_eq_true, if_true] at hx
      refine ⟨_, _, _, _, ev₁, by simp, .once hr hst (fun err' herr => ?_), by rw [hans]; exact hx⟩
      rw [hans] at herr
      cases herr
      exact hf

/-- **Every course of a `ReportResult` that passes its checks**: its events, its reply, the world it returns in. -/
inductive ResultCourse (env : Env) (backoff : Nat → Int) (req : Server.ReportResultRequest) (oc : ExecutionOutcome)
    (w : World) : List CallEvent → Server.ResultReply → World → Prop
  | recorded {tr s tr' w'} (hr : Sys.Run (Step env) w tr s)
      (ha : (s.db.attempt? req.executionKey req.runToken).isSome = true) (hr' : Sys.Run (Step env) s tr' w') :
      ResultCourse env backoff req oc w (Sys.others 0 tr ++ .read .history s :: Sys.others 1 tr') (.ok ⟨true⟩) w'
  | unknown {tr s tr₁ s₁ tr' w'} (v : Utc) (hr : Sys.Run (Step env) w tr s)
      (ha : s.db.attempt? req.executionKey req.runToken = none) (hr₁ : Sys.Run (Step env) s tr₁ s₁)
      (hrow : s₁.db.executionByKey v req.executionKey = none) (hr' : Sys.Run (Step env) s₁ tr' w') :
      ResultCourse env backoff req oc w (Sys.others 0 tr ++ .read .history s :: (Sys.others 1 tr₁ ++
        .read .execution s₁ :: Sys.others 2 tr')) (.error ⟨.notFound, "unknown execution"⟩) w'
  | superseded {tr s tr₁ s₁ row tr' w'} (v : Utc) (hr : Sys.Run (Step env) w tr s)
      (ha : s.db.attempt? req.executionKey req.runToken = none) (hr₁ : Sys.Run (Step env) s tr₁ s₁)
      (hrow : s₁.db.executionByKey v req.executionKey = some row) (htok : row.runToken ≠ req.runToken)
      (hr' : Sys.Run (Step env) s₁ tr' w') :
      ResultCourse env backoff req oc w (Sys.others 0 tr ++ .read .history s :: (Sys.others 1 tr₁ ++
        .read .execution s₁ :: Sys.others 2 tr')) Server.fencedReply w'
  | answered {tr s tr₁ s₁ row pre ans s₂ n tr' reply w'} (v : Utc) (hr : Sys.Run (Step env) w tr s)
      (ha : s.db.attempt? req.executionKey req.runToken = none) (hr₁ : Sys.Run (Step env) s tr₁ s₁)
      (hrow : s₁.db.executionByKey v req.executionKey = some row) (htok : row.runToken = req.runToken)
      (hw : RetryCourse env row.holder (fun n h => apply h oc row.dispatchedTo (backoff n)) 2 s₁ pre ans s₂)
      (hans : (ans = .ok () ∧ reply = .ok ⟨false⟩) ∨
        ∃ err, ans = .error err ∧ err.kind ≠ .fenced ∧ reply = .error ⟨.internal, "record result: " ++ err.text⟩)
      (hr' : Sys.Run (Step env) s₂ tr' w') :
      ResultCourse env backoff req oc w (Sys.others 0 tr ++ .read .history s :: (Sys.others 1 tr₁ ++
        .read .execution s₁ :: (pre ++ Sys.others n tr'))) reply w'
  | asked {tr s tr₁ s₁ row pre err s₂ n tr₂ s₃ tr' w'} (v : Utc) (hr : Sys.Run (Step env) w tr s)
      (ha : s.db.attempt? req.executionKey req.runToken = none) (hr₁ : Sys.Run (Step env) s tr₁ s₁)
      (hrow : s₁.db.executionByKey v req.executionKey = some row) (htok : row.runToken = req.runToken)
      (hw : RetryCourse env row.holder (fun n h => apply h oc row.dispatchedTo (backoff n)) 2 s₁ pre (.error err) s₂)
      (hf : err.kind = .fenced) (hr₂ : Sys.Run (Step env) s₂ tr₂ s₃) (hr' : Sys.Run (Step env) s₃ tr' w') :
      ResultCourse env backoff req oc w (Sys.others 0 tr ++ .read .history s :: (Sys.others 1 tr₁ ++
        .read .execution s₁ :: (pre ++ (Sys.others n tr₂ ++ .read .history s₃ :: Sys.others (n + 1) tr'))))
        (if (s₃.db.attempt? req.executionKey req.runToken).isSome then .ok ⟨true⟩ else Server.fencedReply) w'

theorem recordResult_course {backoff : Nat → Int} {req : Server.ReportResultRequest} {oc : ExecutionOutcome}
    {w w' : World} {ev : List CallEvent} {reply : Server.ResultReply}
    (hx : Callback env (Server.recordResult backoff req oc) w ev reply w') :
    ResultCourse env backoff req oc w ev reply w' := by
  obtain ⟨tr, s, _, ev₁, rfl, hr, hx⟩ := Sys.Exec.read_inv hx
  cases ha : s.db.attempt? req.executionKey req.runToken with
  | some a =>
    rw [ha] at hx
    obtain ⟨tr', rfl, hr', rfl⟩ := Sys.Exec.ret_inv hx
    exact .recorded hr (by rw [ha]; rfl) hr'
  | none =>
    rw [ha] at hx
    obtain ⟨tr₁, s₁, v, ev₂, rfl, hr₁, hx⟩ := Sys.Exec.read_inv hx
    cases hrow : s₁.db.executionByKey v req.executionKey with
    | none =>
      rw [hrow] at hx
      obtain ⟨tr', rfl, hr', rfl⟩ := Sys.Exec.ret_inv hx
      exact .unknown v hr ha hr₁ hrow hr'
    | some row =>
      rw [hrow] at hx
      by_cases htok : row.runToken = req.runToken
      · simp only [htok, ne_eq, not_true_eq_false, if_false] at hx
        obtain ⟨pre, ans, s₂, m, rest, rfl, hw, hx⟩ := retryPastAdoption_course hx
        cases ans with
        | ok =>
          obtain ⟨tr', rfl, hr', rfl⟩ := Sys.Exec.ret_inv hx
          exact .answered v hr ha hr₁ hrow htok hw (Or.inl ⟨rfl, rfl⟩) hr'
        | error err =>
          by_cases hf : err.kind = .fenced
          · simp only [hf, if_true] at hx
            obtain ⟨tr₂, s₃, _, ev₃, rfl, hr₂, hx⟩ := Sys.Exec.read_inv hx
            have hend : ∃ tr', ev₃ = Sys.others (m + 1) tr' ∧ Sys.Run (Step env) s₃ tr' w' ∧ reply =
                if (s₃.db.attempt? req.executionKey req.runToken).isSome then .ok ⟨true⟩ else Server.fencedReply := by
              cases hb : s₃.db.attempt? req.executionKey req.runToken with
              | some a => rw [hb] at hx; exact Sys.Exec.ret_inv hx
              | none => rw [hb] at hx; exact Sys.Exec.ret_inv hx
            obtain ⟨tr', rfl, hr', rfl⟩ := hend
            exact .asked v hr ha hr₁ hrow htok hw hf hr₂ hr'
          · simp only [hf, if_false] at hx
            obtain ⟨tr', rfl, hr', rfl⟩ := Sys.Exec.ret_inv hx
            exact .answered v hr ha hr₁ hrow htok hw (Or.inr ⟨err, rfl, hf, rfl⟩) hr'
      · simp only [ne_eq, htok, not_false_eq_true, if_true] at hx
        obtain ⟨tr', rfl, hr', rfl⟩ := Sys.Exec.ret_inv hx
        exact .superseded v hr ha hr₁ hrow htok hr'

/-- The retry never looks at the history. -/
theorem RetryCourse.no_history {h : Holder} {write : Nat → Holder → Action} {n : Nat} {s s' : World}
    {ev : List CallEvent} {ans : Except Err Unit} (hc : RetryCourse env h write n s ev ans s') (x : World) :
    .read .history x ∉ ev := by
  cases hc <;> simp [Sys.others]

/-! ## Who ended the attempt -/

/-- The attempt of an execution under a token was ended in the history: by a result an executor reported, or by the
scheduler itself. -/
def EndedBy (env : Env) (result : Bool) (tr : History) (key t : String) : Prop :=
  ∃ x ∈ tr, x.2.1.1.isResult = result ∧ ∃ h, endedOf env x = some h ∧ h.executionKey = key ∧ h.runToken = t

theorem EndedBy.append {b : Bool} {tr tr' : History} {key t : String} (h : EndedBy env b tr key t) :
    EndedBy env b (tr ++ tr') key t := by
  obtain ⟨x, hx, hres⟩ := h
  exact ⟨x, List.mem_append_left _ hx, hres⟩

section endings

variable {u : Utc} {tr : History} {w : World} {b : Bool} {key t : String}
  (hr : Sys.Run (Step env) (World.init u) tr w)

include hr

theorem EndedBy.closed (h : EndedBy env b tr key t) : t ∈ w.issued ∧ ∀ i, ¬ w.db.HeldUnder i t := by
  obtain ⟨x, hx, -, k, hk, -, rfl⟩ := h
  exact ended_closed hr hx hk

theorem EndedBy.once (h : EndedBy env b tr key t) {b' : Bool} (h' : EndedBy env b' tr key t) : b = b' := by
  obtain ⟨x, hx, rfl, k, hk, -, rfl⟩ := h
  obtain ⟨y, hy, rfl, k', hk', -, ht⟩ := h'
  exact ended_once hr hx hy hk hk' ht.symm

theorem EndedBy.of_record (h : (w.db.attempt? key t).isSome = true) : ∃ b, EndedBy env b tr key t := by
  obtain ⟨r, hx⟩ := Option.isSome_iff_exists.1 h
  obtain ⟨x, hmem, k, hk, hkey, -⟩ := attempt_origin hr (Table.mem_of_get? hx)
  have hpair : (key, t) = (k.executionKey, k.runToken) := (Table.get?_key hx).symm.trans hkey
  obtain ⟨rfl, rfl⟩ := Prod.mk.inj hpair
  exact ⟨_, x, hmem, rfl, k, hk, rfl, rfl⟩

/-- **A row that still carries the token of an ended attempt has its record.** -/
theorem EndedBy.on_record (h : EndedBy env b tr key t) {i : Nat} {e : ExecRow} (he : w.db.exec? i = some e)
    (hkey : e.executionKey = key) (ht : e.runToken = some t) : (w.db.attempt? key t).isSome = true := by
  obtain ⟨x, hx, -, k, hk, rfl, rfl⟩ := h
  obtain ⟨pre, post, -, hpre, hst, hpost⟩ := hr.split hx
  obtain ⟨⟨e₀, he₀, -, ht₀⟩, -, -⟩ := hst.ended (HolderInv.run hpre) hk
  have hiss := hst.issued_of_mem ((HolderInv.run hpre).issued _ _ _ he₀ ht₀)
  obtain ⟨e₁, he₁, -⟩ := carries_back hpost hiss ⟨e, he, ht⟩
  exact ended_on_record hr hx hk he hkey (DB.exec?_le he₁)

end endings

namespace ResultCourse

variable {backoff : Nat → Int} {req : Server.ReportResultRequest} {oc : ExecutionOutcome} {w w' : World}
  {ev : List CallEvent} {reply : Server.ResultReply}

/-- A look at the history that finds the attempt settles the reply. -/
theorem reply_of_record (hc : ResultCourse env backoff req oc w ev reply w') {x : World}
    (hm : .read .history x ∈ ev) (ha : (x.db.attempt? req.executionKey req.runToken).isSome = true) :
    reply = .ok ⟨true⟩ := by
  have absent : ∀ {s : World}, s.db.attempt? req.executionKey req.runToken = none → x ≠ s := fun hs hxs => by
    rw [hxs, hs] at ha; cases ha
  cases hc with
  | recorded => rfl
  | unknown _ _ hs => exact absurd (by simpa [Sys.others] using hm) (absent hs)
  | superseded _ _ hs => exact absurd (by simpa [Sys.others] using hm) (absent hs)
  | answered _ _ hs _ _ _ hw => exact absurd (by simpa [Sys.others, hw.no_history] using hm) (absent hs)
  | asked _ _ hs _ _ _ hw =>
    simp only [Sys.others, List.mem_append, List.mem_map, reduceCtorEq, and_false, exists_false, List.mem_cons,
      Sys.Event.read.injEq, true_and, false_and, hw.no_history, false_or, or_false] at hm
    rcases hm with hm | hm
    · exact absurd hm (absent hs)
    · rw [← hm, if_pos ha]

/-- It is told only what a look at the history found. -/
theorem record_of_reply (hc : ResultCourse env backoff req oc w ev reply w') (h : reply = .ok ⟨true⟩) :
    ∃ x, .read .history x ∈ ev ∧ (x.db.attempt? req.executionKey req.runToken).isSome = true := by
  cases hc with
  | recorded _ ha => exact ⟨_, by simp, ha⟩
  | unknown => cases h
  | superseded => cases h
  | answered _ _ _ _ _ _ _ hans =>
    rcases hans with ⟨-, rfl⟩ | ⟨_, -, -, rfl⟩ <;> cases h
  | @asked _ _ _ _ _ _ _ _ _ _ s₃ =>
    cases ha : (s₃.db.attempt? req.executionKey req.runToken).isSome with
    | true => exact ⟨s₃, by simp, ha⟩
    | false => rw [ha] at h; cases h

/-- **A result for an attempt that ended before the call, and whose history it does not find, is turned away without a
write.** -/
theorem turned_away {u : Utc} {tr₀ : History} (hr₀ : Sys.Run (Step env) (World.init u) tr₀ w)
    (hc : ResultCourse env backoff req oc w ev reply w') (htok : req.runToken ≠ "") {b : Bool}
    (hend : EndedBy env b tr₀ req.executionKey req.runToken)
    (hnone : ∀ x, .read .history x ∈ ev → (x.db.attempt? req.executionKey req.runToken).isSome = false) :
    (reply = Server.fencedReply ∨ reply = .error ⟨.notFound, "unknown execution"⟩) ∧ ∀ x, .own x ∉ ev := by
  -- A row that carries the token has its history, so the call cannot have passed its first look.
  have gone : ∀ {tr tr₁ : History} {s s₁ : World} {v : Utc} {row : Stale}, Sys.Run (Step env) w tr s →
      s.db.attempt? req.executionKey req.runToken = none → Sys.Run (Step env) s tr₁ s₁ →
      s₁.db.executionByKey v req.executionKey = some row → row.runToken ≠ req.runToken := by
    intro tr tr₁ s s₁ v row hr ha hr₁ hrow heq
    obtain ⟨i, e, he, hkey, rfl⟩ := DB.executionByKey_some hrow
    have het : e.runToken = some req.runToken := by
      cases ht : e.runToken with
      | none =>
        rw [ExecRow.toStale, ht] at heq
        exact absurd heq.symm htok
      | some t =>
        rw [ExecRow.toStale, ht] at heq
        exact congrArg some heq
    have hrun := hr₀.append hr
    have hend' : EndedBy env b (tr₀ ++ tr) req.executionKey req.runToken := hend.append
    obtain ⟨e₀, he₀, ht₀⟩ := carries_back hr₁ (hend'.closed hrun).1 ⟨e, he, het⟩
    obtain ⟨e₁, he₁, hinfo⟩ := row_back hr₁ (DB.exec?_le he₀) he
    obtain rfl := Option.some.inj (he₀.symm.trans he₁)
    have hrec := hend'.on_record hrun he₀ (by rw [← hinfo]; exact hkey) ht₀
    rw [ha] at hrec; cases hrec
  cases hc with
  | @recorded _ s _ _ _ ha =>
    have hs := hnone s (by simp)
    rw [ha] at hs; cases hs
  | unknown => exact ⟨Or.inr rfl, fun x hx => by simp [Sys.others] at hx⟩
  | superseded => exact ⟨Or.inl rfl, fun x hx => by simp [Sys.others] at hx⟩
  | answered _ hr ha hr₁ hrow heq => exact absurd heq (gone hr ha hr₁ hrow)
  | asked _ hr ha hr₁ hrow heq => exact absurd heq (gone hr ha hr₁ hrow)

end ResultCourse

theorem EndedBy.of_any {b : Bool} {tr : History} {key t : String} (h : tr.any (fun x =>
    decide (x.2.1.1.isResult = b) && (endedOf env x).any (fun h => decide (h.executionKey = key) &&
      decide (h.runToken = t))) = true) : EndedBy env b tr key t := by
  obtain ⟨x, hx, hcols⟩ := List.any_eq_true.1 h
  rw [Bool.and_eq_true, decide_eq_true_eq, Option.any_eq_true] at hcols
  obtain ⟨hres, k, hk, hpair⟩ := hcols
  rw [Bool.and_eq_true, decide_eq_true_eq, decide_eq_true_eq] at hpair
  exact ⟨x, hx, hres, k, hk, hpair⟩

/-- The pass of `acceptedPass`, fenced when its runtime cap elapses. -/
def cappedPass : List (Action × Int) :=
  claimedPass ++ [(.accept 1 "t1" 1 60, 3), (.fenceTimedOut (scannedPass "pass-1" 1), 63)]

/-! ## A result that was recorded -/

theorem RetryCourse.run {h : Holder} {write : Nat → Holder → Action} {n : Nat} {s s' : World} {ev : List CallEvent}
    {ans : Except Err Unit} (hc : RetryCourse env h write n s ev ans s') : Sys.Run (Step env) s (Sys.steps ev) s' := by
  cases hc with
  | once hr hst _ =>
    simp only [Sys.steps_append, Sys.steps_others, Sys.steps_own, Sys.steps_nil]
    exact hr.snoc hst
  | stopped _ hr hst _ _ hr₂ _ =>
    simp only [Sys.steps_append, Sys.steps_others, Sys.steps_own, Sys.steps_read, Sys.steps_nil, List.append_nil]
    exact hr.append ((Sys.Run.single hst).append hr₂)
  | twice _ hr hst _ _ hr₂ _ _ _ hr₃ hst₂ =>
    simp only [Sys.steps_append, Sys.steps_others, Sys.steps_own, Sys.steps_read, Sys.steps_nil]
    exact hr.append ((Sys.Run.single hst).append (hr₂.append (hr₃.snoc hst₂)))

section writes

variable {h : Holder} {oc : ExecutionOutcome} {d : String} {b : Nat → Int} {n : Nat} {u : Utc} {tr₀ : History}
  {s s' : World} {ev : List CallEvent} {err : Err}

/-- Where every delay parses, a write of an outcome succeeds or is fenced. -/
theorem RetryCourse.fenced_of_error {ans : Except Err Unit} (hr₀ : Sys.Run (Step env) (World.init u) tr₀ s)
    (hc : RetryCourse env h (fun n h => apply h oc d (b n)) n s ev ans s')
    (hv : ∀ x, .own x ∈ ev → x.1.db.DelaysValid) (he : ans = .error err) : err.kind = .fenced := by
  have fenced : ∀ {w k c x} {v : Int} {tr : History}, Sys.Run (Step env) (World.init u) tr w → w.db.DelaysValid →
      answer env w (apply k oc x v, c) = .error err → err.kind = .fenced := by
    intro w k c x v tr hr hv herr
    by_cases hrep : w.db.Reportable k (c.utc 2)
    · rw [apply_recorded hr hv hrep] at herr; cases herr
    · obtain ⟨err', herr', hf⟩ : ∃ err', answer env w (apply k oc x v, c) = .error err' ∧ _ := apply_refused hrep
      rw [herr'] at herr
      cases herr
      exact hf
  cases hc with
  | once hr _ _ => exact fenced (hr₀.append hr) (hv _ (List.mem_append_right _ (List.mem_singleton_self _))) he
  | stopped _ _ _ _ hf =>
    cases he
    exact hf
  | @twice _ _ _ _ _ _ _ row _ s₄ c₂ _ _ hr hst _ _ hr₂ _ _ _ hr₃ _ =>
    have hrun := ((hr₀.append hr).snoc hst).append (hr₂.append hr₃)
    exact fenced hrun (hv (s₄, (apply { h with fenceEpoch := row.fenceEpoch } oc d (b 1), c₂), s') (by simp)) he

/-- **The holder of an attempt is not refused**, if it is adopted at most once meanwhile. -/
theorem RetryCourse.not_refused {e e' : ExecRow} (hr₀ : Sys.Run (Step env) (World.init u) tr₀ s)
    (hc : RetryCourse env h (fun n h => apply h oc d (b n)) n s ev (.error err) s') (hf : err.kind = .fenced)
    (hv : ∀ x, .own x ∈ ev → x.1.db.DelaysValid) (hiss : h.runToken ∈ s.issued)
    (hadopt : (Sys.since n ev).countP (adopted env h.executionId) ≤ 1)
    (he : s.db.exec? h.executionId = some e) (hkey : e.executionKey = h.executionKey) (hjob : e.jobName = h.jobName)
    (hepoch : e.fenceEpoch = h.fenceEpoch) (he' : s'.db.exec? h.executionId = some e') (hh' : e'.status.held = true)
    (ht' : e'.runToken = some h.runToken) (hcap : e'.Within s'.utc) : False := by
  generalize hans : (Except.error err : Except Err Unit) = ans at hc
  cases hc with
  | once hr hst hstop => exact hstop err hans.symm hf
  | @stopped tr s₁ c s₂ _ tr₂ _ v hr hst hans₁ _ hr₂ hrow =>
    cases hans
    obtain ⟨e₁, he₁, hh₁, ht₁, hinfo₁, hto₁, hle₁, -⟩ :=
      held_run hr₂ (hst.issued_of_mem (issued_run hr hiss)) he' hh' ht'
    rw [hst.db_of_error hans₁] at he₁
    obtain ⟨e₀, he₀, -, -, hinfo₀, -, hle₀, -⟩ := held_run hr hiss he₁ hh₁ ht₁
    obtain rfl := Option.some.inj (he.symm.trans he₀)
    have hk : e'.executionKey = h.executionKey := by rw [hinfo₁, hinfo₀, hkey]
    -- The row read again carries the token, so it is the epoch that did not move.
    have hsame : e'.fenceEpoch = h.fenceEpoch := by
      rcases hrow _ (hk ▸ DB.executionByKey_of he' v) with hne | heq
      · exact absurd (by simp [ExecRow.toStale, ht']) hne
      · exact heq
    have hself : { h with fenceEpoch := e₁.fenceEpoch } = h := by
      rw [show e₁.fenceEpoch = h.fenceEpoch from le_antisymm (hsame ▸ hle₁) (hepoch ▸ hle₀)]
    have hpast : past e₁.timeoutAt (c.utc 2) = false := by
      rw [← hto₁]
      exact hcap.not_past (le_trans (hst.after 2) (utc_run hr₂))
    have hok : answer env s₁ (apply { h with fenceEpoch := e₁.fenceEpoch } oc d (b 0), c) = .ok () :=
      apply_lands (hr₀.append hr)
      (hv (s₁, (apply h oc d (b 0), c), s₂) (by simp)) he₁ (by rw [hinfo₀]; exact hjob) hh₁ ht₁ hpast
    rw [hself, hans₁] at hok
    cases hok
  | @twice tr s₁ c s₂ _ tr₂ s₃ row tr₃ s₄ c₂ _ v hr hst hans₁ _ hr₂ hrow _ hne hr₃ hst₂ =>
    have hrun₂ := (hr₀.append hr).snoc hst
    rw [hst₂.db_of_error hans.symm] at he'
    have hiss₂ := hst.issued_of_mem (issued_run hr hiss)
    obtain ⟨e₃, he₃, hh₃, ht₃, hinfo₃, hto₃, -, hcount₃⟩ := held_run hr₃ (issued_run hr₂ hiss₂) he' hh' ht'
    obtain ⟨e₁, he₁, hh₁, ht₁, hinfo₁, -, -, hcount₁⟩ := held_run hr₂ hiss₂ he₃ hh₃ ht₃
    rw [hst.db_of_error hans₁] at he₁
    obtain ⟨e₀, he₀, -, -, hinfo₀, -, -, hcount₀⟩ := held_run hr hiss he₁ hh₁ ht₁
    obtain rfl := Option.some.inj (he.symm.trans he₀)
    have hk : e₃.executionKey = h.executionKey := by rw [hinfo₁, hinfo₀, hkey]
    obtain rfl := Option.some.inj ((hk ▸ DB.executionByKey_of he₃ v).symm.trans hrow)
    have hne : e₃.fenceEpoch ≠ e.fenceEpoch := fun heq => hne (heq.trans hepoch)
    -- One adoption explains the new epoch; there is none left for the time after the second read.
    have hsame : e'.fenceEpoch = e₃.fenceEpoch := by
      by_contra hlast
      have h₃ := hcount₃ hlast
      have hfirst : 0 < tr.countP (adopted env h.executionId) + tr₂.countP (adopted env h.executionId) := by
        by_cases h₁ : e₁.fenceEpoch = e.fenceEpoch
        · exact Nat.add_pos_right _ (hcount₁ (fun heq => hne (heq.trans h₁)))
        · exact Nat.add_pos_left (hcount₀ h₁) _
      simp only [Sys.since_append, Sys.since_own, Sys.since_read, Sys.since_others (le_refl n),
        Sys.since_others (Nat.le_succ n), Sys.since_others (Nat.le_add_right n 2), List.countP_append] at hadopt
      omega
    have hpast : past e'.timeoutAt (c₂.utc 2) = false := hcap.not_past (hst₂.after 2)
    have hok : answer env s₄ (apply { h with fenceEpoch := e'.fenceEpoch } oc d (b 1), c₂) = .ok () :=
      apply_lands (hrun₂.append (hr₂.append hr₃))
      (hv (s₄, (apply { h with fenceEpoch := e₃.fenceEpoch } oc d (b 1), c₂), s') (by simp [ExecRow.toStale])) he'
      (by rw [hinfo₃, hinfo₁, hinfo₀]; exact hjob) hh' ht' hpast
    rw [hsame] at hok
    cases hans.trans hok

end writes

/-- A result was recorded for execution `i` under the token, in the name of its key. -/
def ReportedFor (env : Env) (tr : History) (i : Nat) (key t : String) : Prop :=
  ∃ x ∈ tr, x.2.1.1.isResult = true ∧
    ∃ h, endedOf env x = some h ∧ h.executionId = i ∧ h.executionKey = key ∧ h.runToken = t

/-- A result is recorded on a held row within its cap. -/
theorem Step.result_within {w w' : World} {l : Action × Ctx} {k : Holder} (hst : Step env w l w')
    (hres : l.1.isResult = true) (h : endedOf env (w, l, w') = some k) :
    ∃ e, w.db.exec? k.executionId = some e ∧ e.status.held = true ∧ e.runToken = some k.runToken ∧
      past e.timeoutAt (l.2.utc 2) = false := by
  obtain ⟨hend, hok⟩ := endedOf_eq_some hst h
  have row : ∀ {e e' : ExecRow}, ExecMove l.2 l.1 e e' → e.reportable k (l.2.utc 2) = true := by
    intro e e' hm
    obtain ⟨b, hb⟩ : ∃ b, l.1 = b := ⟨_, rfl⟩
    rw [hb] at hm hres hend
    cases hm with
    | complete _ _ hr => cases hend; exact hr
    | retry _ hr => cases hend; exact hr
    | _ => cases hres
  obtain ⟨_, _, ha, _, _, he, _, _, hm, _, _, _⟩ := l.1.closes_of_ok hok hend
  obtain rfl := Option.some.inj ((Action.closing_of_ending hend).symm.trans ha)
  obtain ⟨hheld, hown, hpast⟩ := ExecRow.reportable_iff.1 (row hm)
  exact ⟨_, he, hheld, (ExecRow.owned_iff.1 hown).1, hpast⟩

/-- **Where a recorded result has no history, it is still to come**: its attempt holds the row, within the cap. -/
theorem unrecorded_still_held {u : Utc} {tr post : History} {s w' : World} {i : Nat} {key t : String} {e' : ExecRow}
    (hr : Sys.Run (Step env) (World.init u) tr s) (hr' : Sys.Run (Step env) s post w')
    (hrep : ReportedFor env (tr ++ post) i key t) (he' : w'.db.exec? i = some e') (hkey : e'.executionKey = key)
    (hiss : t ∈ s.issued) (hnone : s.db.attempt? key t = none) :
    ∃ e, s.db.exec? i = some e ∧ e.status.held = true ∧ e.runToken = some t ∧ e'.toExecInfo = e.toExecInfo ∧
      e.Within s.utc := by
  obtain ⟨x, hx, hres, k, hk, rfl, rfl, rfl⟩ := hrep
  rcases List.mem_append.1 hx with hx | hx
  · obtain ⟨pre, mid, -, hpre, hst, hmid⟩ := hr.split hx
    obtain ⟨⟨e₀, he₀, -⟩, -⟩ := hst.ended (HolderInv.run hpre) hk
    have hi := le_trans (DB.exec?_le he₀) hst.commit.lastId_le
    obtain ⟨e, he, hinfo⟩ := row_back hr' (le_trans hi (lastId_run hmid)) he'
    have hrec := ended_on_record hr hx hk he (by rw [← hinfo]; exact hkey) hi
    rw [hnone] at hrec; cases hrec
  · obtain ⟨pre, mid, -, hpre, hst, hmid⟩ := hr'.split hx
    obtain ⟨e₀, he₀, hh₀, ht₀, hpast⟩ := hst.result_within hres hk
    obtain ⟨e, he, hh, ht, -, hto, -⟩ := held_run hpre hiss he₀ hh₀ ht₀
    obtain ⟨e₁, he₁, hinfo⟩ := row_back hr' (DB.exec?_le he) he'
    obtain rfl := Option.some.inj (he.symm.trans he₁)
    refine ⟨e, he, hh, ht, hinfo, fun cap hcap => ?_⟩
    rw [hto, hcap] at hpast
    have hle : x.2.1.2.utc 2 ≤ cap := by simpa [past] using hpast
    exact le_trans (le_trans (utc_run hpre) (hst.le_utc 2)) hle

/-- **A recorded result is acknowledged.**  If, between the call's look at the history and its look at the row, nobody
takes the token off the row, and at most one adoption follows, then a call that returns when an executor's result for
its token is on record is answered with OK, unless the execution was reaped. -/
theorem recorded_result_acknowledged {backoff : Nat → Int} {req : Server.ReportResultRequest} {oc : ExecutionOutcome}
    {u : Utc} {tr₀ : History} {w w' : World} {ev : List CallEvent} {reply : Server.ResultReply} {i : Nat} {e' : ExecRow}
    (hr₀ : Sys.Run (Step env) (World.init u) tr₀ w)
    (hx : Callback env (Server.reportResult (.ok ()) backoff req) w ev reply w')
    (hkey : req.executionKey ≠ "") (htok : req.runToken ≠ "") (hoc : req.outcome = some oc)
    (hd : oc.disposition ≠ .unspecified) (hiss : req.runToken ∈ w.issued)
    (hv : ∀ x, .own x ∈ ev → x.1.db.DelaysValid)
    (hquiet : ∀ x, .other 1 x ∈ ev → x.1.db.Carries i req.runToken → x.2.2.db.Carries i req.runToken)
    (hadopt : (Sys.since 2 ev).countP (adopted env i) ≤ 1)
    (he' : w'.db.exec? i = some e') (hk' : e'.executionKey = req.executionKey)
    (hrep : ReportedFor env (tr₀ ++ Sys.steps ev) i req.executionKey req.runToken) :
    reply = .ok ⟨false⟩ ∨ reply = .ok ⟨true⟩ := by
  rw [reportResult_eq hkey htok hoc hd] at hx
  -- The row the call reads is row `i`, still held under the token when the history is empty.
  have found : ∀ {tr tr₁ post : History} {s s₁ : World}, Sys.Run (Step env) w tr s →
      s.db.attempt? req.executionKey req.runToken = none → Sys.Run (Step env) s tr₁ s₁ →
      Sys.Run (Step env) s₁ post w' → Sys.steps ev = tr ++ (tr₁ ++ post) → (∀ x ∈ tr₁, .other 1 x ∈ ev) →
      ∃ e, s₁.db.exec? i = some e ∧ e.runToken = some req.runToken ∧ e.executionKey = req.executionKey := by
    intro tr tr₁ post s s₁ hr ha hr₁ hpost hsteps hmem
    rw [hsteps, ← List.append_assoc] at hrep
    obtain ⟨e₀, he₀, hh₀, ht₀, -⟩ := unrecorded_still_held (hr₀.append hr) (hr₁.append hpost) hrep he' hk'
      (issued_run hr hiss) ha
    have hcarries : s₁.db.Carries i req.runToken :=
      Sys.Run.invariant_of (I := fun w => w.db.Carries i req.runToken)
        (fun x => x.1.db.Carries i req.runToken → x.2.2.db.Carries i req.runToken) ⟨e₀, he₀, ht₀⟩
        (fun _ _ _ h hk _ => hk h) hr₁ (fun x hx => hquiet x (hmem x hx))
    obtain ⟨e₁, he₁, ht₁⟩ := hcarries
    obtain ⟨e₂, he₂, hinfo⟩ := row_back hpost (DB.exec?_le he₁) he'
    obtain rfl := Option.some.inj (he₁.symm.trans he₂)
    exact ⟨e₁, he₁, ht₁, by rw [← hinfo]; exact hk'⟩
  have between : ∀ {tr tr₁ : History} {s : World} {rest : List CallEvent}, ∀ x ∈ tr₁,
      .other 1 x ∈ Sys.others 0 tr ++ .read .history s :: (Sys.others 1 tr₁ ++ rest) := fun x hx =>
    List.mem_append_right _ (List.mem_cons_of_mem _ (List.mem_append_left _ (List.mem_map_of_mem hx)))
  cases recordResult_course hx with
  | recorded => exact Or.inr rfl
  | unknown v hr ha hr₁ hrow hr' =>
    obtain ⟨e, he, -, hke⟩ := found hr ha hr₁ hr' (by simp) between
    rw [← hke, DB.executionByKey_of he] at hrow
    cases hrow
  | superseded v hr ha hr₁ hrow hne hr' =>
    obtain ⟨e, he, hte, hke⟩ := found hr ha hr₁ hr' (by simp) between
    rw [← hke, DB.executionByKey_of he] at hrow
    obtain rfl := Option.some.inj hrow
    exact absurd (by simp [ExecRow.toStale, hte]) hne
  | answered v hr ha hr₁ hrow heq hw hans hr' =>
    rcases hans with ⟨-, rfl⟩ | ⟨err, herr, hne, -⟩
    · exact Or.inl rfl
    · exact absurd (hw.fenced_of_error ((hr₀.append hr).append hr₁) (fun x hm => hv x (by simp [hm])) herr) hne
  | @asked tr s tr₁ s₁ row pre err s₂ n tr₂ s₃ tr' _ v hr ha hr₁ hrow heq hw hf hr₂ hr' =>
    cases hb : s₃.db.attempt? req.executionKey req.runToken with
    | some a => exact Or.inr (by simp)
    | none =>
      obtain ⟨e, he, hte, hke⟩ := found hr ha hr₁ (hw.run.append (hr₂.append hr')) (by simp) between
      rw [← hke, DB.executionByKey_of he] at hrow
      obtain rfl := Option.some.inj hrow
      have hrun₁ := (hr₀.append hr).append hr₁
      have hrun₃ := hrun₁.append (hw.run.append hr₂)
      have hiss₁ := issued_run (hr.append hr₁) hiss
      obtain ⟨e₃, he₃, hh₃, ht₃, -, hcap₃⟩ := unrecorded_still_held hrun₃ hr' (by simpa using hrep) he' hk'
        (issued_run (hw.run.append hr₂) hiss₁) hb
      obtain ⟨e₂, he₂, hh₂, ht₂, -, hto₂, -⟩ := held_run hr₂ (issued_run hw.run hiss₁) he₃ hh₃ ht₃
      have hid : (e.toStale v).holder.executionId = i := DB.exec?_id he
      have htk : (e.toStale v).holder.runToken = req.runToken := heq
      refine (hw.not_refused hrun₁ hf (fun x hm => hv x (by simp [hm])) (htk ▸ hiss₁) ?_
        (hid ▸ he) rfl rfl rfl (hid ▸ he₂) hh₂ (htk ▸ ht₂) ?_).elim
      · simp only [Sys.since_append, Sys.since_read, Sys.since_others_lt (show 0 < 2 by decide),
          Sys.since_others_lt (show 1 < 2 by decide), List.nil_append, List.countP_append] at hadopt
        rw [hid]
        omega
      · exact fun cap hc => le_trans (utc_run hr₂) (hcap₃ cap (hto₂.trans hc))

theorem ReportedFor.of_any {tr : History} {i : Nat} {key t : String} (h : tr.any (fun x => x.2.1.1.isResult &&
    (endedOf env x).any (fun h => decide (h.executionId = i) && decide (h.executionKey = key) &&
      decide (h.runToken = t))) = true) : ReportedFor env tr i key t := by
  obtain ⟨x, hx, hcols⟩ := List.any_eq_true.1 h
  rw [Bool.and_eq_true, Option.any_eq_true] at hcols
  obtain ⟨hres, k, hk, hpair⟩ := hcols
  simp only [Bool.and_eq_true, decide_eq_true_eq, and_assoc] at hpair
  exact ⟨x, hx, hres, k, hk, hpair⟩

/-- A result for execution 1 is recorded while the call runs, and the execution is there when it returns. -/
def recordedMeanwhile (ev : List CallEvent) (w' : World) : Bool :=
  (Sys.steps ev).any (fun x => x.2.1.1.isResult && (endedOf bareEnv x).any (fun h => decide (h.executionId = 1) &&
    decide (h.executionKey = "pass-1") && decide (h.runToken = "t1"))) &&
  (w'.db.exec? 1).any (fun e => decide (e.executionKey = "pass-1"))

theorem ReportedFor.meanwhile {tr₀ : History} {ev : List CallEvent} {w' : World}
    (h : recordedMeanwhile ev w' = true) : ReportedFor bareEnv (tr₀ ++ Sys.steps ev) 1 "pass-1" "t1" ∧
      ∃ e, w'.db.exec? 1 = some e ∧ e.executionKey = "pass-1" := by
  rw [recordedMeanwhile, Bool.and_eq_true] at h
  obtain ⟨hrep, hrow⟩ := h
  obtain ⟨e, he, hkey⟩ := (Option.any_eq_true _ _).1 hrow
  refine ⟨?_, e, he, of_decide_eq_true hkey⟩
  obtain ⟨x, hx, hres⟩ := ReportedFor.of_any hrep
  exact ⟨x, List.mem_append_right _ hx, hres⟩

/-- The holder of `acceptedPass`, in whose name another delivery of its result writes. -/
def acceptedHolder : Holder := ⟨"sync", 1, "pass-1", "", "t1", 1⟩

/-- Nobody takes the token off the row or adopts it, and the delay parses. -/
def keepsToken (ev : List CallEvent) : Bool :=
  ev.all (fun e => match e with
    | .other _ x => (x.2.2.db.exec? 1).any (fun e => decide (e.runToken = some "t1"))
    | .own x     => x.1.db.definitions.rows.all (fun d => d.toDefinition.delay.toBool)
    | .read _ _  => true) && decide ((Sys.since 2 ev).countP (adopted bareEnv 1) = 0)

/-- The other delivery completes the pass between the call's two reads. -/
theorem recorded_result_acknowledged_twice : ∃ ev reply w',
    Callback bareEnv (Server.reportResult (.ok ()) (fun _ => 30) successRequest) acceptedPass ev reply w' ∧
    ReportedFor bareEnv ((World.init 0).trace bareEnv (claimedPass ++ [(.accept 1 "t1" 1 60, 3)]) ++ Sys.steps ev)
      1 "pass-1" "t1" ∧ (reply = .ok ⟨false⟩ ∨ reply = .ok ⟨true⟩) := by
  obtain ⟨ev, reply, w', hx, hq⟩ := playCall_checked bareEnv acceptedPass
    (Server.reportResult (.ok ()) (fun _ => 30) successRequest)
    (fun ev _ w' => keepsToken ev && recordedMeanwhile ev w')
    [([], 4), ([(apply acceptedHolder { disposition := .success } "executor" 30, 5)], 6), ([], 7), ([], 8),
      ([], 9)] (by decide +kernel)
  rw [Bool.and_eq_true] at hq
  obtain ⟨hquiet, hrec⟩ := hq
  simp only [keepsToken, Bool.and_eq_true, decide_eq_true_eq, List.all_eq_true] at hquiet
  obtain ⟨hall, hcount⟩ := hquiet
  obtain ⟨hrep, e, he, hkey⟩ : ReportedFor bareEnv ((World.init 0).trace bareEnv
    (claimedPass ++ [(.accept 1 "t1" 1 60, 3)]) ++ Sys.steps ev) 1 "pass-1" "t1" ∧ _ := ReportedFor.meanwhile hrec
  refine ⟨ev, reply, w', hx, hrep, recorded_result_acknowledged acceptedPass_run hx (by decide) (by decide) rfl
    (by decide) (by decide) (fun x hm => DB.delaysValid_of (hall _ hm)) (fun x hm _ => ?_) (by rw [hcount]; decide) he
    hkey hrep⟩
  have hx := hall _ hm
  obtain ⟨y, hy, ht⟩ := (Option.any_eq_true _ _).1 hx
  exact ⟨y, hy, of_decide_eq_true ht⟩

/-- **A result that another delivery has recorded is answered `ABORTED`**: its retry took the token off the row between
the call's two reads. -/
theorem recorded_result_aborted : ∃ tr w ev w', Sys.Run (Step bareEnv) (World.init 0) tr w ∧
    Callback bareEnv (Server.reportResult (.ok ()) (fun _ => 30)
      ⟨"pass-1", "t1", some { disposition := .failed, failureKind := "io" }⟩) w ev Server.fencedReply w' ∧
    ReportedFor bareEnv (tr ++ Sys.steps ev) 1 "pass-1" "t1" ∧ (w'.db.exec? 1).isSome = true := by
  obtain ⟨ev, reply, w', hx, hq⟩ := playCall_checked bareEnv acceptedPass
    (Server.reportResult (.ok ()) (fun _ => 30)
      ⟨"pass-1", "t1", some { disposition := .failed, failureKind := "io" }⟩)
    (fun ev r w' => decide (r = Server.fencedReply) && recordedMeanwhile ev w')
    [([], 4), ([(apply acceptedHolder { disposition := .failed, failureKind := "io" } "executor" 30, 5)], 6)]
    (by decide +kernel)
  rw [Bool.and_eq_true, decide_eq_true_eq] at hq
  obtain ⟨rfl, hrec⟩ := hq
  obtain ⟨hrep, e, he, -⟩ := ReportedFor.meanwhile hrec
  exact ⟨_, _, ev, w', acceptedPass_run, hx, hrep, by rw [he]; rfl⟩

end GoJob
