import GoJob.Budget
import GoJob.Failures
import GoJob.Snapshots
/-!
# Contention — what schedulers tell each other apart from

Any number of instances read pages and act on them later, while operators cancel, retire and edit.  Losing such a race
is meant to be told from a broken protocol.  Two calls do not: a claim of a candidate that is no longer `ready`, and a
refusal of an attempt that is no longer waiting for its executor.
-/
namespace GoJob

open Rel Tx

variable {env : Env} {u : Utc} {w w' : World}

/-! ## What an instance has in hand -/

/-- A page of the store, as an instance asks for it. -/
inductive Page
  | ready (manualFirst : Bool) (now : Instant) (limit : Nat)
  | stale (limit : Nat)
  | timedOut (limit : Nat)
  | silent (limit : Nat)
  | owned (owner : String) (limit : Nat)

/-- A row of a page, or a claim that was granted. -/
inductive Sight
  | ready (x : Candidate)
  | stale (v : Stale)
  | silent (v : Stale)
  | held (v : Stale)
  | claimed (p : ClaimParams) (epoch : Nat)
  deriving DecidableEq

def Page.read (db : DB) (z : Utc) : Page → List Sight
  | .ready m now n => (db.readyCandidates m now n).map .ready
  | .stale n       => (db.staleExecutions z n).map .stale
  | .timedOut n    => (db.timedOut z n).map .held
  | .silent n      => (db.silent z n).map .silent
  | .owned o n     => (db.ownedByInstance o z n).map .held

/-- What the row is known for now, whatever happened since. -/
def Sight.Holds (w : World) : Sight → Prop
  | .ready x     => x.id ≤ w.db.executions.lastId ∧ x.Names w.db
  | .stale v     => Sighted Expired v.id v.runToken v.fenceEpoch w
  | .silent v    => Sighted Taken v.id v.runToken v.fenceEpoch w
  | .held v      => Sighted (fun _ _ => True) v.id v.runToken v.fenceEpoch w
  | .claimed p n => Sighted (fun _ _ => True) p.executionId p.runToken n w

/-- **Every step keeps what a sight is known for.** -/
theorem Sight.Holds.step {x : Sight} (h : x.Holds w) {l : Action × Ctx} (hst : Step env w l w') : x.Holds w' := by
  cases x with
  | ready x =>
    refine ⟨le_trans h.1 hst.commit.lastId_le, fun e' he' => ?_⟩
    obtain ⟨e, he, hinfo⟩ := row_back (Sys.Run.single hst) h.1 he'
    have hn := h.2 e he
    exact ⟨(congrArg ExecInfo.jobName hinfo).trans hn.1, (congrArg ExecInfo.executionKey hinfo).trans hn.2⟩
  | stale v => exact Sighted.step h Expired.lasting hst
  | silent v => exact Sighted.step h Taken.lasting hst
  | held v => exact Sighted.step h Lasting.trivial hst
  | claimed p n => exact Sighted.step h Lasting.trivial hst

/-- **A page shows what is there.** -/
theorem Page.read_holds {p : Page} {z : Utc} (hinv : HolderInv w.db w.issued) {x : Sight}
    (hx : x ∈ p.read w.db z) : x.Holds { w with utc := z } := by
  cases p with
  | ready m now n =>
    obtain ⟨y, hy, rfl⟩ := List.mem_map.1 hx
    obtain ⟨e, he, rfl⟩ := List.mem_map.1 hy
    obtain ⟨hrow, -⟩ := DB.mem_scan he
    refine ⟨DB.exec?_le hrow, fun e' he' => ?_⟩
    obtain rfl : e = e' := Option.some.inj (hrow.symm.trans he')
    exact ⟨rfl, rfl⟩
  | stale n =>
    obtain ⟨v, hv, rfl⟩ := List.mem_map.1 hx
    exact Sighted.of_scan hinv hv fun _ _ hp => hp
  | timedOut n =>
    obtain ⟨v, hv, rfl⟩ := List.mem_map.1 hx
    exact Sighted.of_scan hinv hv fun _ _ _ => trivial
  | silent n =>
    obtain ⟨v, hv, rfl⟩ := List.mem_map.1 hx
    refine Sighted.of_scan hinv hv fun e _ hp => ?_
    simp only [Bool.and_eq_true, decide_eq_true_eq] at hp
    exact hp.1.1
  | owned o n =>
    obtain ⟨v, hv, rfl⟩ := List.mem_map.1 hx
    exact Sighted.of_scan hinv hv fun _ _ _ => trivial

/-- The claim a call was granted. -/
def granted (w : World) : Action × Ctx → List Sight
  | (.claim p r, c) =>
    match claim c p r w.db with
    | .ok (⟨.acquired, n, _, _⟩, _) => [.claimed p n]
    | _ => []
  | _ => []

theorem granted_holds {l : Action × Ctx} (hst : Step env w l w') (hinv : HolderInv w'.db w'.issued) {x : Sight}
    (hx : x ∈ granted w l) : x.Holds w' := by
  obtain ⟨a, c⟩ := l
  cases a with
  | claim p r =>
    simp only [granted] at hx
    split at hx
    · rename_i n d err db' hok
      obtain rfl := List.mem_singleton.1 hx
      obtain ⟨s, d, e, hg⟩ := claim_granted hok rfl
      have hdb : w'.db = db' := by
        rw [hst.db]
        exact Tx.commit_of_ok (unit_run hok)
      rw [← hdb] at hg
      exact Sighted.of_held (P := fun _ _ => True) hinv hg.exec' rfl trivial
    · cases hx
  | _ => cases hx

/-! ## Instances, pages and calls -/

/-- A schema and everything that has been read from it so far, by whatever instance. -/
structure Board where
  world : World
  seen  : List Sight

def Board.init (u : Utc) : Board := ⟨World.init u, []⟩

/-- A compiler that has a word of its own for a definition that is not a cron job, and for that alone. -/
def Compile.Sound (compile : Compile) : Prop := ∀ d, d.scheduleKind = .cron → compile.FailsAs d NotProtocol

/-- The parameters of a scheduler's call come from what was read, and its poll keys are new.  Operators are free. -/
def Board.Supports (b : Board) : Action → Prop
  | .claim p r                  => .ready p.candidate ∈ b.seen ∧ ∀ db d s err, r db d s = .error err → NotProtocol err
  | .refuse p n                 => .claimed p n ∈ b.seen
  | .complete _ o               => o.status.terminal = true
  | .adopt v _ _ _ _            => .stale v ∈ b.seen
  | .resolve v _                => .stale v ∈ b.seen
  | .fenceTimedOut v            => .held v ∈ b.seen ∨ .stale v ∈ b.seen ∨ .silent v ∈ b.seen
  | .expireSilent v             => .silent v ∈ b.seen
  | .releaseAsOwner h           => ∃ v, .held v ∈ b.seen ∧ h = { v.holder with owner := h.owner }
  | .materializeCron _ comp _   => comp.Sound
  | .materializePoll _ key comp => comp.Sound ∧ ∀ i e, b.world.db.exec? i = some e → e.executionKey ≠ key
  | _                           => True

inductive BoardLabel
  | read (p : Page) (z : Utc)
  | call (l : Action × Ctx)

inductive BoardStep (env : Env) : Board → BoardLabel → Board → Prop
  | read {b : Board} {p : Page} {z : Utc} (hz : b.world.utc ≤ z) :
      BoardStep env b (.read p z) ⟨{ b.world with utc := z }, p.read b.world.db z ++ b.seen⟩
  | call {b : Board} {l : Action × Ctx} {w' : World} (hs : b.Supports l.1) (hst : Step env b.world l w') :
      BoardStep env b (.call l) ⟨w', granted b.world l ++ b.seen⟩

/-- The schema is one that calls alone can reach, and everything that was read still holds. -/
structure BoardInv (env : Env) (u : Utc) (b : Board) : Prop where
  run   : ∃ tr, Sys.Run (Step env) (World.init u) tr b.world
  holds : ∀ x ∈ b.seen, x.Holds b.world

theorem BoardInv.step {b b' : Board} {l : BoardLabel} (h : BoardInv env u b) (hst : BoardStep env b l b') :
    BoardInv env u b' := by
  obtain ⟨tr, hr⟩ := h.run
  cases hst with
  | read hz =>
    obtain ⟨l, hwait⟩ := World.waits env hz
    refine ⟨⟨_, hr.snoc hwait⟩, fun x hx => ?_⟩
    rcases List.mem_append.1 hx with hx | hx
    · exact Page.read_holds (HolderInv.run hr) hx
    · exact (h.holds x hx).step hwait
  | call _ hst =>
    refine ⟨⟨_, hr.snoc hst⟩, fun x hx => ?_⟩
    rcases List.mem_append.1 hx with hx | hx
    · exact granted_holds hst (HolderInv.run (hr.snoc hst)) hx
    · exact (h.holds x hx).step hst

theorem BoardInv.of_run {tr : List (Board × BoardLabel × Board)} {b : Board}
    (hr : Sys.Run (BoardStep env) (Board.init u) tr b) : BoardInv env u b :=
  Sys.Run.invariant (I := BoardInv env u) ⟨⟨[], .nil⟩, fun _ hx => by cases hx⟩ (fun _ _ _ h hst => h.step hst) hr

/-! ## Protocol violations -/

/-- The calls of a scheduler. -/
def Action.scheduling : Action → Bool
  | .claim .. | .accept .. | .retarget .. | .refuse .. | .renew .. | .complete .. | .retry .. | .adopt .. | .resolve ..
  | .fenceTimedOut .. | .expireSilent .. | .releaseAsOwner .. | .materializeCron .. | .materializePoll .. => true
  | _ => false

/-- A claim or refusal that comes too late. -/
def Late (db : DB) (c : Ctx) : Action → Prop
  | .claim p r  => LateClaim db c p r
  | .refuse p n => LateRefusal db p n
  | _           => False

/-- The call reports a protocol violation. -/
def ReportsProtocol (env : Env) (w : World) (l : Action × Ctx) : Prop :=
  ∃ err, answer env w l = .error err ∧ err.kind = .protocol

theorem reportsProtocol_iff {a : Action} {c : Ctx} :
    ReportsProtocol env w (a, c) ↔ ∃ err, a.tx env c w.db = .error err ∧ err.kind = .protocol := by
  unfold ReportsProtocol answer
  cases a.tx env c w.db with
  | error err => simp [Except.map]
  | ok r => simp [Except.map]

theorem not_reportsProtocol {a : Action} {c : Ctx} (h : FailsOnly NotProtocol (a.tx env c) w.db) :
    ¬ ReportsProtocol env w (a, c) := by
  rw [reportsProtocol_iff]
  rintro ⟨err, herr, hk⟩
  exact h err herr hk

/-- **One call, in a state where everything it was handed still holds.** -/
theorem BoardInv.reportsProtocol_iff {b : Board} (h : BoardInv env u b) {a : Action} {c : Ctx} (hs : b.Supports a)
    (hclock : b.world.utc ≤ c.utc 0) (ha : a.scheduling = true) :
    ReportsProtocol env b.world (a, c) ↔ Late b.world.db c a := by
  obtain ⟨tr, hr⟩ := h.run
  have hinv := HolderInv.run hr
  have hfirst := locksFirst_run hr
  have hdef : b.world.db.Defined := fun j s hs => defined_run hr hs
  have never : FailsOnly NotProtocol (a.tx env c) b.world.db → (ReportsProtocol env b.world (a, c) ↔ False) :=
    fun hf => iff_false_intro (not_reportsProtocol hf)
  have noDef : ∀ {j} {e : Err}, b.world.db.state? j ≠ none → b.world.db.def? j = none → NotProtocol e := by
    intro j e hne hno
    obtain ⟨s, hs⟩ := Option.ne_none_iff_exists'.1 hne
    obtain ⟨d, hd⟩ := hdef j s hs
    rw [hd] at hno; cases hno
  have wraps : ∀ {j}, ScheduleErr NotProtocol NotProtocol j := fun _ _ _ he => he
  cases a with
  | claim p r =>
    rw [GoJob.reportsProtocol_iff]
    simp only [Action.tx, unit_error]
    exact claim_protocol_iff hdef (h.holds _ hs.1).2 (fun e he hst => ((attempt_budget hr).1 _ e he).2 (Or.inl hst))
      fun d s err => hs.2 _ d s err
  | refuse p n =>
    rw [GoJob.reportsProtocol_iff]
    exact refuse_protocol_iff hinv hdef (h.holds _ hs)
  | accept i t n sil => exact never (accept_notProtocol i t n sil)
  | retarget k x => exact never (retarget_notProtocol k x)
  | renew k l => exact never (renew_notProtocol k l)
  | complete k o => exact never (complete_notProtocol hdef k hs)
  | retry k o b => exact never (retry_notProtocol hdef k o b)
  | adopt v o l sil p =>
    exact never (unit_failsOnly (adopt_fails hinv hfirst (h.holds _ hs) (fun _ h => h.notProtocol) (fun _ => .missing _)
      hclock o l sil p))
  | resolve v b =>
    refine never (unit_failsOnly (resolve_fails hinv hfirst (h.holds _ hs) (fun _ h => h.notProtocol)
      (fun _ => .missing _) hclock b fun s hs => ?_))
    obtain ⟨d, hd⟩ := hdef _ s hs
    exact ⟨d, hd, fun _ herr => Definition.delay_notProtocol herr⟩
  | fenceTimedOut v =>
    rcases hs with hs | hs | hs
    · exact never (fenceTimedOut_notProtocol hinv hdef (h.holds _ hs))
    · exact never (fenceTimedOut_notProtocol hinv hdef (h.holds _ hs))
    · exact never (fenceTimedOut_notProtocol hinv hdef (h.holds _ hs))
  | expireSilent v => exact never (expireSilent_notProtocol hinv hdef (h.holds _ hs))
  | releaseAsOwner k =>
    obtain ⟨v, hv, hk⟩ := hs
    have hsight : Sighted (fun _ _ => True) k.executionId k.runToken k.fenceEpoch b.world := by
      rw [hk]
      exact h.holds _ hv
    exact never (unit_failsOnly (releaseAsOwner_notProtocol hinv hdef hsight))
  | materializeCron j compile grace =>
    refine never (unit_failsOnly (materializeCron_failsOnly (.contended _) (fun _ => .missing _) noDef
      (fun s d hs hd hin => ((clocked_run hr hd hs).cron hin).1) (fun d _ hk => hs _ hk) wraps (.other _)))
  | materializePoll j key compile =>
    exact never (unit_failsOnly (materializePoll_failsOnly (.contended _) (fun _ => .missing _) noDef hs.2
      (fun d _ hk => hs.1 _ hk) wraps (.other _)))
  | _ => cases ha

/-- **A protocol violation is contention in two places.**  In every run of any number of schedulers a call reports one
exactly when it is a claim whose candidate has left `ready` and is acted on all the same, or a refusal whose attempt has
left `dispatching` while it still holds the job. -/
theorem protocol_violation_iff_late {tr : List (Board × BoardLabel × Board)} {b : Board}
    (hr : Sys.Run (BoardStep env) (Board.init u) tr b) {x : Board × BoardLabel × Board} (hx : x ∈ tr) {a : Action}
    {c : Ctx} (hl : x.2.1 = .call (a, c)) (ha : a.scheduling = true) :
    ReportsProtocol env x.1.world (a, c) ↔ Late x.1.world.db c a := by
  obtain ⟨pre, -, hpre, hst⟩ := hr.mem_step hx
  obtain ⟨b₀, l, b₁⟩ := x
  obtain rfl : l = .call (a, c) := hl
  have hst : BoardStep env b₀ (.call (a, c)) b₁ := hst
  cases hst with
  | call hs hcall => exact (BoardInv.of_run hpre).reportsProtocol_iff hs hcall.before ha

/-! ## Two races -/

/-- The board after a call at second `t`. -/
def Board.call (env : Env) (b : Board) (a : Action) (t : Int) : Board :=
  ⟨b.world.call env a t, granted b.world (a, Ctx.at_ t) ++ b.seen⟩

theorem Board.step_call {b : Board} {a : Action} {t : Int} (hs : b.Supports a) (hle : b.world.utc ≤ t)
    (hf : a.mints.all (fun x => decide (x ∉ b.world.issued)) = true) :
    BoardStep env b (.call (a, Ctx.at_ t)) (b.call env a t) :=
  .call hs (World.step_call env hle hf)

/-- The first pass of a poll job, on a page that was read at second 1. -/
def listedPass : Board :=
  ⟨(World.init 0).play bareEnv firstPass,
    Page.read ((World.init 0).play bareEnv firstPass).db 1 (.ready false second 10)⟩

theorem listedPass_reached : ∃ tr, Sys.Run (BoardStep bareEnv) (Board.init 0) tr listedPass := by
  refine ⟨_, ((Sys.Run.nil.snoc (Board.step_call (a := firstPass[0].1) (t := 0) trivial (by decide) rfl)).snoc
    (Board.step_call (a := firstPass[1].1) (t := 1) ?_ (by decide) rfl)).snoc (.read (p := .ready false second 10)
      (z := 1) (by decide))⟩
  refine ⟨fun d _ => ⟨fun e he => ?_, fun _ _ _ h => (by cases h), fun _ _ _ _ h => (by cases h),
    fun _ _ _ _ _ h => (by cases h)⟩, fun i e he => ?_⟩
  · rw [← Except.error.inj he]
    exact .other _
  · cases he

/-- One instance claims the pass, sees it through and is done. -/
def finishedPass : Board :=
  ((listedPass.call bareEnv (claimPass "t1") 2).call bareEnv (.accept 1 "t1" 1 60) 3).call bareEnv
    (.complete ⟨"sync", 1, "pass-1", "scheduler", "t1", 1⟩ { status := .success, attemptOutcome := .success }) 4

/-- One instance claims the pass, and an operator cancels it. -/
def cancelledBoard : Board :=
  (listedPass.call bareEnv (claimPass "t1") 2).call bareEnv (.requestCancel 1 "operator" "stop") 3

def refusePass : Action := .refuse ⟨1, "sync", "pass-1", "scheduler", "executor", "t1", 5⟩ 1

theorem late_calls_report_protocol :
    (∃ tr x b, Sys.Run (BoardStep bareEnv) (Board.init 0) tr b ∧ x ∈ tr ∧ x.2.1 = .call (claimPass "t2", Ctx.at_ 5) ∧
      ReportsProtocol bareEnv x.1.world (claimPass "t2", Ctx.at_ 5)) ∧
    ∃ tr x b, Sys.Run (BoardStep bareEnv) (Board.init 0) tr b ∧ x ∈ tr ∧ x.2.1 = .call (refusePass, Ctx.at_ 4) ∧
      ReportsProtocol bareEnv x.1.world (refusePass, Ctx.at_ 4) := by
  obtain ⟨tr, hr⟩ := listedPass_reached
  have hclaim : listedPass.Supports (claimPass "t1") := ⟨by decide +kernel, fun _ _ _ _ h => by cases h⟩
  have hclaimed := hr.snoc (Board.step_call (t := 2) hclaim (by decide) (by decide))
  have hdone := (hclaimed.snoc (Board.step_call (a := .accept 1 "t1" 1 60) (t := 3) trivial (by decide) rfl)).snoc
    (Board.step_call (a := .complete ⟨"sync", 1, "pass-1", "scheduler", "t1", 1⟩
      { status := .success, attemptOutcome := .success }) (t := 4) rfl (by decide) rfl)
  have hcancelled := hclaimed.snoc
    (Board.step_call (a := .requestCancel 1 "operator" "stop") (t := 3) trivial (by decide) rfl)
  have hagain : finishedPass.Supports (claimPass "t2") := ⟨by decide +kernel, fun _ _ _ _ h => by cases h⟩
  have hrefuse : cancelledBoard.Supports refusePass := by
    show Sight.claimed _ 1 ∈ cancelledBoard.seen
    decide +kernel
  refine ⟨⟨_, _, _, hdone.snoc (Board.step_call (t := 5) hagain (by decide) (by decide)),
      List.mem_append_right _ (List.mem_singleton_self _), rfl, ?_⟩,
    ⟨_, _, _, hcancelled.snoc (Board.step_call (t := 4) hrefuse (by decide) rfl),
      List.mem_append_right _ (List.mem_singleton_self _), rfl, ?_⟩⟩
  · exact ⟨⟨.protocol, "claim: mark dispatching affected 0 rows, expected exactly 1"⟩, by decide +kernel, rfl⟩
  · exact ⟨⟨.protocol, "refuse: return to ready affected 0 rows, expected exactly 1"⟩, by decide +kernel, rfl⟩

theorem protocol_violation_iff_late_listed :
    answer bareEnv listedPass.world (claimPass "t1", Ctx.at_ 2) = .ok () ∧
      (ReportsProtocol bareEnv listedPass.world (claimPass "t1", Ctx.at_ 2) ↔
        Late listedPass.world.db (Ctx.at_ 2) (claimPass "t1")) := by
  obtain ⟨tr, hr⟩ := listedPass_reached
  have hclaim : listedPass.Supports (claimPass "t1") := ⟨by decide +kernel, fun _ _ _ _ h => by cases h⟩
  have hrun := hr.snoc (Board.step_call (t := 2) hclaim (by decide) (by decide))
  exact ⟨by decide +kernel, protocol_violation_iff_late hrun
    (List.mem_append_right _ (List.mem_singleton_self _)) rfl rfl⟩

end GoJob
