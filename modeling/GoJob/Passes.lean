import GoJob.Moves
import GoJob.CommitJob
import GoJob.Statements
/-!
# Passes — how a materialize pass can fail

A pass fails because the state row is locked elsewhere, because the schedule could not be computed, or because a key is
not text.  Its other failures need a state row without a definition, a cron row without a fire instant, or a poll key
used twice.
-/
namespace GoJob

open Rel Tx

variable {env : Env} {c : Ctx} {db : DB} {P E : Err → Prop} {j : String} {compile : Compile} {s : StateRow}
  {d : DefinitionRow}

/-- How computing with the schedule of a definition can fail. -/
structure Compile.FailsAs (compile : Compile) (d : Definition) (E : Err → Prop) : Prop where
  compiled : ∀ e, compile d = .error e → E e
  next     : ∀ sched t e, compile d = .ok sched → sched.next t = .error e → E e
  latest   : ∀ sched t h e, compile d = .ok sched → sched.latest t h = .error e → E e
  count    : ∀ sched t u n e, compile d = .ok sched → sched.countBetween t u n = .error e → E e

/-- What a pass says it was doing when a schedule failed. -/
def scheduleContexts : List String :=
  ["compile schedule for ", "recompute next fire for ", "find latest missed fire for ", "count missed fires for ",
    "compute next fire for "]

/-- The errors of a schedule, in the words of a pass of job `j`. -/
def ScheduleErr (P E : Err → Prop) (j : String) : Prop :=
  ∀ what ∈ scheduleContexts, ∀ e, E e → P (e.wrap (what ++ j.quote))

theorem decideClocks_failsOnly (hf : d.scheduleKind = .cron → compile.FailsAs d.toDefinition E)
    (hE : ScheduleErr P E d.jobName) : FailsOnly P (decideClocks c s d.toDefinition compile) db := by
  unfold decideClocks
  refine .ite (fun _ => .returns _) fun _ => .ite (fun hk => ?_) fun _ => ?_
  · have hf := hf hk
    refine .seq (liftErr_failsOnly fun e he => hE _ (by simp [scheduleContexts]) e (hf.compiled e he)) ?_
    intro sched db₁ h₁
    obtain ⟨hc, rfl⟩ := liftErr_ok h₁
    refine .seq (liftErr_failsOnly fun e he => hE _ (by simp [scheduleContexts]) e (hf.next sched _ e hc he)) ?_
    exact fun _ _ _ => .returns _
  · cases s.nextPollAt with
    | some t => exact .returns _
    | none => exact .seq (.of_ok rfl) fun _ _ _ => .ite (fun _ => .returns _) fun _ => .returns _

theorem normalizeClocks_failsOnly (hs : db.state? j = some s) (hd : db.def? j = some d)
    (hf : d.scheduleKind = .cron → compile.FailsAs d.toDefinition E) (hE : ScheduleErr P E j) :
    FailsOnly P (normalizeClocks c s d.toDefinition compile) db := by
  have hj : d.jobName = j := DB.def?_jobName hd
  unfold normalizeClocks
  refine .seq (decideClocks_failsOnly hf (by rw [hj]; exact hE)) ?_
  rintro ⟨fire, poll⟩ db₁ h₁
  obtain ⟨-, rfl⟩ := decideClocks_ok h₁
  exact .after (mustState_run (hj.symm ▸ hs) rfl) (.returns _)

theorem chooseFire_failsOnly {sched : Schedule} {due onTime : Instant} {n : Nat}
    (hc : compile d.toDefinition = .ok sched) (hf : compile.FailsAs d.toDefinition E) (hE : ScheduleErr P E d.jobName) :
    FailsOnly P (chooseFire d.toDefinition sched due onTime n) db := by
  unfold chooseFire
  refine .ite (fun _ => .returns _) fun _ => ?_
  cases d.toDefinition.misfire with
  | skip => exact .returns _
  | fireOnce =>
    refine .seq (liftErr_failsOnly fun e he => hE _ (by simp [scheduleContexts]) e (hf.latest sched _ _ e hc he)) ?_
    intro x db₁ _
    cases x with
    | none => exact .returns _
    | some t => exact .returns _

theorem materializeDue_failsOnly {sched : Schedule} {due grace : Instant} (hs : db.state? j = some s)
    (hd : db.def? j = some d) (hc : compile d.toDefinition = .ok sched) (hf : compile.FailsAs d.toDefinition E)
    (hE : ScheduleErr P E j) (htext : P ⟨.other, "insert execution: incorrect string value"⟩) :
    FailsOnly P (materializeDue env c d.toDefinition sched due grace) db := by
  have hj : d.jobName = j := DB.def?_jobName hd
  rw [← hj] at hE
  unfold materializeDue
  refine .seq (liftErr_failsOnly fun e he => hE _ (by simp [scheduleContexts]) e (hf.count sched _ _ _ e hc he)) ?_
  rintro ⟨missed, exact_⟩ db₁ h₁
  obtain ⟨-, rfl⟩ := liftErr_ok h₁
  refine .seq (chooseFire_failsOnly hc hf hE) ?_
  rintro ⟨fireAt, create⟩ db₁ h₁
  obtain ⟨-, rfl⟩ := chooseFire_ok h₁
  refine .seq (liftErr_failsOnly fun e he => hE _ (by simp [scheduleContexts]) e (hf.next sched _ e hc he)) ?_
  intro next db₁ h₁
  obtain ⟨-, rfl⟩ := liftErr_ok h₁
  refine .ite (fun _ => ?_) fun _ => ?_
  · refine .seq (insertExecution_failsOnly htext) fun created db₁ h₁ => ?_
    -- The insertion leaves every state row where it was.
    have hs₁ : db₁.state? j = some s := by
      obtain ⟨_, _, ⟨_, rfl, _⟩ | ⟨_, _, _, _, hon⟩⟩ := insertExecution_ok h₁
      · exact hs
      · exact (hon.states j).trans hs
    exact .after (mustState_run (hj.symm ▸ hs₁) rfl) (.returns _)
  · exact .after (mustState_run (hj.symm ▸ hs) rfl) (.returns _)

/-- **A cron pass fails in one of the ways it names**, and says that the fire instant is missing only when it is. -/
theorem materializeCron_failsOnly {grace : Instant}
    (hbusy : P ⟨.contended, "job " ++ j.quote ++ " state row is locked elsewhere"⟩)
    (hstate : db.state? j = none → P ⟨.missingState, "job " ++ j.quote⟩)
    (hdef : db.state? j ≠ none → db.def? j = none →
      P ⟨.protocol, "job " ++ j.quote ++ " has a state row but no definition"⟩)
    (hfire : ∀ s d, db.state? j = some s → db.def? j = some d → InDateCron s d → s.nextFireAt ≠ none)
    (hf : ∀ d, db.def? j = some d → d.scheduleKind = .cron → compile.FailsAs d.toDefinition E) (hE : ScheduleErr P E j)
    (htext : P ⟨.other, "insert execution: incorrect string value"⟩) :
    FailsOnly P (materializeCron env c j compile grace) db := by
  unfold materializeCron
  refine .seq (lockState_failsOnly hstate hbusy) fun s db₁ h₁ => ?_
  obtain ⟨hs, rfl⟩ := lockState_ok h₁
  refine .seq (readDefinition_failsOnly (hdef (by rw [hs]; simp))) fun x db₁ h₁ => ?_
  obtain ⟨⟨d, hd, rfl⟩, rfl⟩ := readDefinition_ok h₁
  refine .ite (fun _ => ?_) fun hon => ?_
  · exact .seq (normalizeClocks_failsOnly hs hd (hf d hd) hE) fun _ _ _ => .returns _
  · have hin : InDateCron s d := by
      simp only [not_or, not_not, Bool.not_eq_false, Bool.not_eq_true] at hon
      exact ⟨hon.1, hon.2.1, hon.2.2.1, hon.2.2.2⟩
    have hf := hf d hd hin.kind
    refine .seq (liftErr_failsOnly fun e he => hE _ (by simp [scheduleContexts]) e (hf.compiled e he)) ?_
    intro sched db₁ h₁
    obtain ⟨hc, rfl⟩ := liftErr_ok h₁
    refine .seq (.of_ok rfl) fun b db₁ h₁ => ?_
    obtain rfl := manualPending_ok h₁
    refine .ite (fun _ => .returns _) fun _ => ?_
    cases hdue : s.nextFireAt with
    | none => exact absurd hdue (hfire s d hs hd hin)
    | some due => exact .ite (fun _ => .returns _) fun _ => materializeDue_failsOnly hs hd hc hf hE htext

/-- **A poll pass fails in one of the ways it names**, and says that its key is taken only when it is. -/
theorem materializePoll_failsOnly {key : String}
    (hbusy : P ⟨.contended, "job " ++ j.quote ++ " state row is locked elsewhere"⟩)
    (hstate : db.state? j = none → P ⟨.missingState, "job " ++ j.quote⟩)
    (hdef : db.state? j ≠ none → db.def? j = none →
      P ⟨.protocol, "job " ++ j.quote ++ " has a state row but no definition"⟩)
    (hkey : ∀ i e, db.exec? i = some e → e.executionKey ≠ key)
    (hf : ∀ d, db.def? j = some d → d.scheduleKind = .cron → compile.FailsAs d.toDefinition E) (hE : ScheduleErr P E j)
    (htext : P ⟨.other, "insert execution: incorrect string value"⟩) :
    FailsOnly P (materializePoll c j key compile) db := by
  unfold materializePoll
  refine .seq (lockState_failsOnly hstate hbusy) fun s db₁ h₁ => ?_
  obtain ⟨hs, rfl⟩ := lockState_ok h₁
  refine .seq (readDefinition_failsOnly (hdef (by rw [hs]; simp))) fun x db₁ h₁ => ?_
  obtain ⟨⟨d, hd, rfl⟩, rfl⟩ := readDefinition_ok h₁
  refine .ite (fun _ => .returns _) fun hdue => .ite (fun _ => ?_) fun _ => ?_
  · exact .seq (normalizeClocks_failsOnly hs hd (hf d hd) hE) fun _ _ _ => .returns _
  · refine .seq (.of_ok rfl) fun b db₁ h₁ => ?_
    obtain rfl := manualPending_ok h₁
    refine .ite (fun _ => .returns _) fun _ => ?_
    refine .seq (insertExecution_failsOnly htext) fun created db₁ h₁ => ?_
    obtain ⟨_, hk, ⟨-, -, hdup⟩ | ⟨rfl, _, _, _, hon⟩⟩ := insertExecution_ok h₁
    · -- Poll passes carry no request id, so only the key can be taken.
      obtain ⟨i, e, he, hek⟩ := hdup rfl
      exact absurd (hek.trans (Option.some.inj hk).symm) (hkey i e he)
    · refine .ite (fun h => by cases h) fun _ => ?_
      have hsome : s.nextPollAt.isSome = true := by
        cases ht : s.nextPollAt with
        | none => simp [ht] at hdue
        | some t => rfl
      exact .after (mustState_run ((hon.states j).trans hs) hsome) (.returns _)

end GoJob
