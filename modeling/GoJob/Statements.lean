import GoJob.Materialize
import GoJob.Recovery
/-!
# Statements — when a statement applies

A guarded write applies to the row its guard accepts, and otherwise fails in the way its caller chose: with the caller's
own error, or as a protocol violation.  The first half says when each statement goes through, the second how it can
fail.
-/
namespace GoJob

open Rel Tx

variable {c : Ctx} {db : DB} {j : String} {i : Nat} {kind : Sentinel} {detail stmt : String}

/-! ## Forwards -/

theorem casState_run {g : StateRow → Bool} {w : StateWrite} {s : StateRow} (hs : db.state? j = some s)
    (hg : g s = true) : casState j g w kind detail db = .ok ((), db.setState j w) := by
  obtain ⟨n, db₁, h₁⟩ : ∃ n db₁, updateState j g w db = .ok (n, db₁) := ⟨_, _, rfl⟩
  rcases updateState_ok h₁ with ⟨_, _, _, rfl, rfl⟩ | ⟨hno, _, _⟩
  · exact (bind_of_ok h₁).trans rfl
  · rw [hno s hs] at hg; cases hg

theorem casState_fails {g : StateRow → Bool} {w : StateWrite} (h : ∀ s, db.state? j = some s → g s = false) :
    casState j g w kind detail db = .error ⟨kind, detail⟩ := by
  obtain ⟨n, db₁, h₁⟩ : ∃ n db₁, updateState j g w db = .ok (n, db₁) := ⟨_, _, rfl⟩
  rcases updateState_ok h₁ with ⟨s, hs, hg, _, _⟩ | ⟨_, rfl, rfl⟩
  · rw [h s hs] at hg; cases hg
  · exact (bind_of_ok h₁).trans rfl

theorem casExec_run {g : ExecRow → Bool} {w : ExecWrite} {e : ExecRow} (he : db.exec? i = some e) (hg : g e = true) :
    casExec i g w kind detail db = .ok ((), db.setExec i w) := by
  obtain ⟨n, db₁, h₁⟩ : ∃ n db₁, updateExec i g w db = .ok (n, db₁) := ⟨_, _, rfl⟩
  rcases updateExec_ok h₁ with ⟨_, _, _, rfl, rfl⟩ | ⟨hno, _, _⟩
  · exact (bind_of_ok h₁).trans rfl
  · rw [hno e he] at hg; cases hg

theorem casExec_fails {g : ExecRow → Bool} {w : ExecWrite} (h : ∀ e, db.exec? i = some e → g e = false) :
    casExec i g w kind detail db = .error ⟨kind, detail⟩ := by
  obtain ⟨n, db₁, h₁⟩ : ∃ n db₁, updateExec i g w db = .ok (n, db₁) := ⟨_, _, rfl⟩
  rcases updateExec_ok h₁ with ⟨e, he, hg, _, _⟩ | ⟨_, rfl, rfl⟩
  · rw [h e he] at hg; cases hg
  · exact (bind_of_ok h₁).trans rfl

theorem mustState_run {g : StateRow → Bool} {w : StateWrite} {s : StateRow} (hs : db.state? j = some s)
    (hg : g s = true) : mustState j g w stmt db = .ok ((), db.setState j w) := by
  obtain ⟨n, db₁, h₁⟩ : ∃ n db₁, updateState j g w db = .ok (n, db₁) := ⟨_, _, rfl⟩
  rcases updateState_ok h₁ with ⟨_, _, _, rfl, rfl⟩ | ⟨hno, _, _⟩
  · exact (bind_of_ok h₁).trans rfl
  · rw [hno s hs] at hg; cases hg

theorem mustExec_run {g : ExecRow → Bool} {w : ExecWrite} {e : ExecRow} (he : db.exec? i = some e) (hg : g e = true) :
    mustExec i g w stmt db = .ok ((), db.setExec i w) := by
  obtain ⟨n, db₁, h₁⟩ : ∃ n db₁, updateExec i g w db = .ok (n, db₁) := ⟨_, _, rfl⟩
  rcases updateExec_ok h₁ with ⟨_, _, _, rfl, rfl⟩ | ⟨hno, _, _⟩
  · exact (bind_of_ok h₁).trans rfl
  · rw [hno e he] at hg; cases hg

theorem mustExec_fails {g : ExecRow → Bool} {w : ExecWrite} (h : ∀ e, db.exec? i = some e → g e = false) :
    mustExec i g w stmt db = .error ⟨.protocol, stmt ++ " affected " ++ toString 0 ++ " rows, expected exactly 1"⟩ := by
  obtain ⟨n, db₁, h₁⟩ : ∃ n db₁, updateExec i g w db = .ok (n, db₁) := ⟨_, _, rfl⟩
  rcases updateExec_ok h₁ with ⟨e, he, hg, _, _⟩ | ⟨_, rfl, rfl⟩
  · rw [h e he] at hg; cases hg
  · exact (bind_of_ok h₁).trans rfl

theorem tryExec_run (g : ExecRow → Bool) (w : ExecWrite) (stmt : String) :
    ∃ db', tryExec i g w stmt db = .ok ((), db') := by
  obtain ⟨n, db₁, h₁⟩ : ∃ n db₁, updateExec i g w db = .ok (n, db₁) := ⟨_, _, rfl⟩
  refine ⟨db₁, (bind_of_ok h₁).trans ?_⟩
  rcases updateExec_ok h₁ with ⟨_, _, _, rfl, _⟩ | ⟨_, rfl, _⟩ <;> rfl

theorem recordAttempt_run {k : Holder} {o : Outcome} {e : ExecRow} (he : db.exec? k.executionId = some e) :
    recordAttempt c k o db = .ok ((), db.addAttempt (o.attemptRow c k e.attemptNo)) := by
  unfold recordAttempt
  refine (bind_of_ok (get_run db)).trans ?_
  rw [he]
  rfl

theorem readDefinition_run {d : DefinitionRow} (hd : db.def? j = some d) :
    readDefinition j db = .ok (d.toDefinition, db) := by
  unfold readDefinition
  refine (bind_of_ok (get_run db)).trans ?_
  rw [hd]
  rfl

theorem lockState_run {s : StateRow} (hs : db.state? j = some s) (hb : c.busy j = false) :
    lockState c j db = .ok (s, db) := by
  unfold lockState
  refine (bind_of_ok (get_run db)).trans ?_
  rw [hs]
  simp only [hb]
  rfl

theorem lockState_not_busy {s : StateRow} {db' : DB} (h : lockState c j db = .ok (s, db')) : c.busy j = false := by
  obtain ⟨s', hs'⟩ : ∃ s', db.state? j = some s' := ⟨s, (lockState_ok h).1⟩
  by_contra hb
  rw [Bool.not_eq_false] at hb
  unfold lockState at h
  rw [bind_of_ok (get_run db), hs'] at h
  simp [hb] at h

theorem lockExecution_run {u : Utc} {e : ExecRow} (he : db.exec? i = some e) :
    lockExecution i u db = .ok (e.toStale u, db) := by
  unfold lockExecution
  refine (bind_of_ok (get_run db)).trans ?_
  rw [he]
  rfl

/-! ## Failures -/

variable {P : Err → Prop}

theorem lockState_failsOnly (hno : db.state? j = none → P ⟨.missingState, "job " ++ j.quote⟩)
    (hbusy : P ⟨.contended, "job " ++ j.quote ++ " state row is locked elsewhere"⟩) :
    FailsOnly P (lockState c j) db := by
  unfold lockState
  refine .after (get_run db) ?_
  cases hs : db.state? j with
  | none => exact .throws (hno hs)
  | some s => exact .ite (fun _ => .throws hbusy) (fun _ => .returns s)

theorem lockExecution_fails {u : Utc} (h : P ⟨.noSuchExecution, "execution " ++ toString i⟩) :
    FailsOnly P (lockExecution i u) db := by
  unfold lockExecution
  refine .after (get_run db) ?_
  cases db.exec? i with
  | none => exact .throws h
  | some e => exact .returns _

theorem readDefinition_failsOnly
    (hno : db.def? j = none → P ⟨.protocol, "job " ++ j.quote ++ " has a state row but no definition"⟩) :
    FailsOnly P (readDefinition j) db := by
  unfold readDefinition
  refine .after (get_run db) ?_
  cases hd : db.def? j with
  | none => exact .throws (hno hd)
  | some d => exact .returns _

theorem casState_failsOnly {g : StateRow → Bool} {w : StateWrite} (h : P ⟨kind, detail⟩) :
    FailsOnly P (casState j g w kind detail) db := by
  unfold casState
  exact FailsOnly.seq (.of_ok rfl) fun _ _ _ => .ite (fun _ => .throws h) (fun _ => .returns _)

theorem casExec_failsOnly {g : ExecRow → Bool} {w : ExecWrite} (h : P ⟨kind, detail⟩) :
    FailsOnly P (casExec i g w kind detail) db := by
  unfold casExec
  exact FailsOnly.seq (.of_ok rfl) fun _ _ _ => .ite (fun _ => .throws h) (fun _ => .returns _)

theorem tryExec_failsOnly {g : ExecRow → Bool} {w : ExecWrite} : FailsOnly P (tryExec i g w stmt) db := by
  have hrun : ∃ db', tryExec i g w stmt db = .ok ((), db') := tryExec_run g w stmt
  obtain ⟨db', h⟩ := hrun
  exact .of_ok h

theorem recordAttempt_failsOnly {k : Holder} {o : Outcome} (he : (db.exec? k.executionId).isSome = true) :
    FailsOnly P (recordAttempt c k o) db := by
  obtain ⟨e, he⟩ := Option.isSome_iff_exists.1 he
  exact .of_ok (recordAttempt_run he)

theorem liftErr_failsOnly {α : Type} {context : String} {x : Except Err α}
    (h : ∀ e, x = .error e → P (e.wrap context)) : FailsOnly P (liftErr context x) db := by
  cases x with
  | error e => exact .throws (h e rfl)
  | ok a => exact .returns a

/-- Only a key that is not text is refused. -/
theorem insertExecution_failsOnly {r : NewExecution} (h : P ⟨.other, "insert execution: incorrect string value"⟩) :
    FailsOnly P (insertExecution r) db := by
  unfold insertExecution
  cases r.key with
  | none => exact .throws h
  | some key =>
    refine .after (get_run db) ?_
    split
    · exact .of_ok rfl
    · exact .returns _

/-- A restarted clock needs a delay, and a stored delay may not parse. -/
theorem settlePollClock_failsOnly {d : DefinitionRow} (hd : db.def? j = some d)
    (h : ∀ err, d.toDefinition.delay = .error err → P err) : FailsOnly P (settlePollClock c j i) db := by
  unfold settlePollClock
  refine .after (readDefinition_run hd) (.ite (fun _ => .returns _) fun _ => ?_)
  cases hdelay : d.toDefinition.delay with
  | error err => exact .throws (h err hdelay)
  | ok t =>
    refine .after (get_run db) (.seq (.of_ok rfl) fun n db₁ h₁ => .ite (fun hn => ?_) (fun _ => .returns _))
    rcases updateState_ok h₁ with ⟨_, _, _, rfl, _⟩ | ⟨_, rfl, _⟩
    · exact absurd hn (by decide)
    · exact absurd hn (by decide)

end GoJob
