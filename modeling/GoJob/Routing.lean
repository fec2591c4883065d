import GoJob.CommitAttempt
import GoJob.Sends
/-!
# Routing — where a claimed execution may be sent

The executors are chosen from one read of the definition, the claim reads it again under the job's lock, and the request
carries what the claim read.  As long as an edit in between leaves the handler and the group alone, every request goes
to an executor that was registered for them.
-/
namespace GoJob

open Rel Sys Dialog

variable {env : Env} {cfg : Config} {d : Definition} {targets : List Executor} {xs : List Said}

/-- What the registry is asked by: the handler, and the group if the job names one. -/
def DefinitionRow.routing (d : DefinitionRow) : String × String := (d.handlerKey, d.executorGroup.getD "")

/-! ## The chosen executors -/

theorem mem_liveExecutors {g : Registrations} {handlerKey group : String} {liveness : Int} {t : Executor}
    (h : t ∈ g.liveExecutors handlerKey group liveness) : t ∈ g.rows ∧ t.serves handlerKey group = true := by
  unfold Registrations.liveExecutors at h
  rw [List.mem_insertionSort, List.mem_filter, Bool.and_eq_true] at h
  exact ⟨h.1, h.2.1⟩

theorem mem_ranked {healthy : String → Bool} {rotation : Nat} {live : List Executor} {t : Executor}
    (h : t ∈ ranked healthy rotation live) : t ∈ live := by
  rw [← List.mem_insertionSort (preferred healthy)]
  unfold ranked at h
  dsimp only at h
  split at h
  · simp only [List.mem_append] at h
    rcases h with (h | h) | h
    · exact List.mem_of_mem_take (List.mem_of_mem_drop h)
    · exact List.mem_of_mem_take h
    · exact List.mem_of_mem_drop h
  · exact h

/-- **Every chosen executor was registered** for the handler and the group of the definition it was chosen by. -/
theorem pickExecutors_serve (ht : Talk (Serves env cfg.executorLiveness) (pickExecutors cfg d) xs targets)
    {t : Executor} (hm : t ∈ targets) : ∃ s g s', ⟨s, .registrations, .ok g, s'⟩ ∈ xs ∧ t ∈ g.rows ∧
      t.serves d.handlerKey d.executorGroup = true := by
  obtain ⟨s, regs, s', xs, rfl, -, ht⟩ := talk_ask.1 ht
  cases regs with
  | error =>
    obtain ⟨-, rfl⟩ := talk_pure.1 ht
    cases hm
  | ok g =>
    dsimp only at ht
    split at ht
    · obtain ⟨-, rfl⟩ := talk_pure.1 ht
      cases hm
    · obtain ⟨_, _, _, xs, rfl, -, ht⟩ := talk_ask.1 ht
      obtain ⟨_, _, _, xs, rfl, -, ht⟩ := talk_ask.1 ht
      obtain ⟨-, rfl⟩ := talk_pure.1 ht
      exact ⟨s, g, s', List.mem_cons_self, mem_liveExecutors (mem_ranked hm)⟩

theorem pickExecutors_asks : (pickExecutors cfg d).Asks Ask.quiet fun _ => True := by
  refine asks_ask trivial fun regs => ?_
  cases regs with
  | error => trivial
  | ok g =>
    dsimp only
    split
    · trivial
    · exact asks_ask trivial fun _ => asks_ask trivial fun _ => trivial

/-! ## The requests -/

/-- What a dispatch asks: no claim, and requests for one handler to one of the targets. -/
def Ask.routed (handlerKey : String) (targets : List Executor) : Ask → Prop
  | .run spec => spec.handlerKey = handlerKey ∧ ∃ t ∈ targets, t.address = spec.address
  | .claim _ _ => False
  | _ => True

theorem routed_of_noSend {handlerKey : String} {q : Ask} (h : q.noSend) : q.routed handlerKey targets := by
  cases q <;> trivial

theorem routed_of_within {handlerKey : String} {spec : RunSpec} {q : Ask} (h : q.within spec)
    (hs : (Ask.run spec).routed handlerKey targets) : q.routed handlerKey targets := by
  rcases h with h | ⟨remaining, rfl⟩
  · cases q <;> trivial
  · exact hs

theorem releaseUndispatchable_routed {handlerKey : String} {p : ClaimParams} {epoch : Nat} :
    (releaseUndispatchable p epoch).Asks (Ask.routed handlerKey targets) fun _ => True :=
  releaseUndispatchable_noSend.mono (fun _ => routed_of_noSend) fun _ => id

theorem tryEach_routed (x : Delivery) : ∀ {rest : List Executor} (first : Option Int), (∀ t ∈ rest, t ∈ targets) →
    (x.tryEach first rest).Asks (Ask.routed x.def_.handlerKey targets) fun _ => True
  | [], _, _ => releaseUndispatchable_routed
  | target :: rest, first, hrest => by
    refine Sys.Dialog.Asks.bind (?_ : Sys.Dialog.Asks _ (fun _ => True) _) fun budget _ => ?_
    · cases first with
      | some => trivial
      | none => exact reroute_noSend.mono (fun _ => routed_of_noSend) fun _ => id
    cases budget with
    | none => trivial
    | some remaining =>
      have hspec : (Ask.run (x.spec target remaining)).routed x.def_.handlerKey targets :=
        ⟨rfl, target, hrest target List.mem_cons_self, rfl⟩
      refine (attemptDispatch_asks.mono (fun _ h => routed_of_within h hspec) fun _ => id).bind fun a _ => ?_
      cases a with
      | accepted => trivial
      | unknown => exact ⟨trivial, fun _ => trivial⟩
      | refused => exact tryEach_routed x none fun t ht => hrest t (List.mem_cons_of_mem _ ht)

theorem dispatchClaimed_routed {p : ClaimParams} {res : ClaimResult} {claimedAt : Instant} :
    (dispatchClaimed cfg p res targets claimedAt).Asks (Ask.routed res.definition.handlerKey targets)
      fun _ => True := by
  refine asks_ask trivial fun _ => ?_
  split
  · exact releaseUndispatchable_routed
  refine asks_ask trivial fun snapshot => ?_
  cases snapshot with
  | error => exact releaseUndispatchable_routed
  | ok snapshot =>
    dsimp only [dispatch]
    split
    · exact releaseUndispatchable_routed
    split
    · exact releaseUndispatchable_routed
    refine asks_ask trivial fun now => ?_
    exact tryEach_routed ⟨cfg, _, res.definition, snapshot, p, _, _⟩ _ fun _ => id

/-! ## The claim -/

theorem exists_of_map_fst {α : Type} {a : α} :
    ∀ {x : Except Err (α × DB)}, .ok a = x.map Prod.fst → ∃ db, x = .ok (a, db)
  | .ok (_, db), h => ⟨db, by cases h; rfl⟩

theorem serves_definition {liveness : Int} {w w' : World} {j : String} {d : Definition}
    (h : Serves env liveness w (.definition j) (.ok d) w') : ∃ row, w.db.def? j = some row ∧ d = row.toDefinition := by
  obtain ⟨-, h | ⟨_, h⟩⟩ := h
  · obtain ⟨_, hr⟩ := exists_of_map_fst h
    exact (readDefinition_ok hr).1
  · cases h

/-- A claim that acquired the job returns the definition of that moment. -/
theorem serves_claim {liveness : Int} {w w' : World} {p : ClaimParams} {res : ClaimResult}
    (h : Serves env liveness w (.claim p targets) (.ok res) w') (ha : res.outcome = .acquired) :
    ∃ row, w.db.def? p.jobName = some row ∧ res.definition = row.toDefinition := by
  obtain ⟨regs, ⟨c, -, h | ⟨_, h⟩⟩ | ⟨-, _, h⟩⟩ := h
  · obtain ⟨_, hr⟩ := exists_of_map_fst h
    obtain ⟨s, row, e, hg⟩ := claim_granted hr ha
    exact ⟨row, hg.def_, congrArg ClaimResult.definition hg.answer⟩
  · cases h
  · cases h

/-- What follows a claim: nothing, or the dispatch to the chosen executors. -/
theorem afterClaim_asks {p : ClaimParams} {answer : Except Err ClaimResult} {claimedAt : Instant} {r : Unit}
    (ht : Talk (Serves env cfg.executorLiveness) (afterClaim cfg p targets claimedAt answer) xs r) :
    xs = [] ∨ ∃ res, answer = .ok res ∧ ∀ x ∈ xs, x.question.routed res.definition.handlerKey targets := by
  cases answer with
  | error => exact .inl (talk_pure.1 ht).1
  | ok res =>
    dsimp only [afterClaim] at ht
    split at ht
    · exact .inr ⟨res, rfl, (ht.asks dispatchClaimed_routed).1⟩
    · exact .inl (talk_pure.1 ht).1

/-- **A dispatch that sends anything has claimed**: its executors were chosen by the definition it read first, and its
requests name the handler of the definition the claim returned. -/
theorem claimAndDispatch_sent {id : Nat} {job key : String} {r : Unit} {w w' : World} {spec : RunSpec}
    {reply : RunReply} (ht : Talk (Serves env cfg.executorLiveness) (claimAndDispatch cfg id job key) xs r)
    (hm : ⟨w, .run spec, reply, w'⟩ ∈ xs) : ∃ s₀ d s₀' s₁ p targets res s₁',
      ⟨s₀, .definition job, .ok d, s₀'⟩ ∈ xs ∧ ⟨s₁, .claim p targets, .ok res, s₁'⟩ ∈ xs ∧ p.jobName = job ∧
      (∀ x ∈ xs, ∀ p' ts, x.question = .claim p' ts → x = ⟨s₁, .claim p targets, .ok res, s₁'⟩) ∧
      spec.handlerKey = res.definition.handlerKey ∧ ∃ t ∈ targets, t.address = spec.address ∧
        ∃ s g s', ⟨s, .registrations, .ok g, s'⟩ ∈ xs ∧ t ∈ g.rows ∧ t.serves d.handlerKey d.executorGroup = true := by
  obtain ⟨s₀, read, s₀', xs, rfl, -, ht⟩ := talk_ask.1 ht
  cases read with
  | error =>
    obtain ⟨rfl, -⟩ := talk_pure.1 ht
    simp at hm
  | ok d =>
    obtain ⟨ys, targets, xs, rfl, hpick, ht⟩ := talk_bind.1 ht
    obtain ⟨_, token, _, xs, rfl, -, ht⟩ := talk_ask.1 ht
    obtain ⟨_, backoff, _, xs, rfl, -, ht⟩ := talk_ask.1 ht
    obtain ⟨_, stop, _, xs, rfl, -, ht⟩ := talk_ask.1 ht
    have hquiet := (hpick.asks pickExecutors_asks).1
    split at ht
    · obtain ⟨rfl, -⟩ := talk_pure.1 ht
      simp at hm
      exact (hquiet _ hm).elim
    obtain ⟨_, claimedAt, _, xs, rfl, -, ht⟩ := talk_ask.1 ht
    obtain ⟨s₁, answer, s₁', xs, rfl, -, ht⟩ := talk_ask.1 ht
    rcases afterClaim_asks ht with rfl | ⟨res, rfl, hrouted⟩
    · simp at hm
      exact (hquiet _ hm).elim
    simp at hm
    rcases hm with hm | hm
    · exact (hquiet _ hm).elim
    obtain ⟨hkey, t, htm, haddr⟩ := hrouted _ hm
    obtain ⟨s, g, s', hg, hrow⟩ := pickExecutors_serve hpick htm
    refine ⟨s₀, d, s₀', s₁, ⟨id, job, key, cfg.instanceId, (targets.head?.map (·.executorId)).getD "", token, backoff⟩,
      targets, res, s₁', by simp, by simp, rfl, ?_, hkey, t, htm, haddr, s, g, s', by simp [hg], hrow⟩
    intro x hx p' ts hq
    have hys : x ∉ ys := fun h => by
      have hx := hquiet x h
      rw [hq] at hx
      exact hx
    have hxs : x ∉ xs := fun h => by
      have hx := hrouted x h
      rw [hq] at hx
      exact hx
    simp only [List.mem_cons, List.mem_append, hys, hxs, false_or, or_false] at hx
    rcases hx with rfl | rfl | rfl | rfl | rfl | rfl <;> first | rfl | cases hq

namespace Said

/-- The definition that was read. -/
def defined? : Said → Option Definition
  | ⟨_, .definition _, .ok d, _⟩ => some d
  | _ => none

/-- The registrations that were read. -/
def registered? : Said → Option Registrations
  | ⟨_, .registrations, .ok g, _⟩ => some g
  | _ => none

/-- The claim that acquired the job. -/
def claimed? : Said → Option ClaimResult
  | ⟨_, .claim _ _, .ok res, _⟩ => if res.outcome = .acquired then some res else none
  | _ => none

theorem eq_of_claimed? {x : Said} {res : ClaimResult} (h : x.claimed? = some res) :
    ∃ s p targets s', x = ⟨s, .claim p targets, .ok res, s'⟩ ∧ res.outcome = .acquired := by
  obtain ⟨s, q, a, s'⟩ := x
  cases q with
  | claim p targets =>
    cases a with
    | error => cases h
    | ok res' =>
      obtain ⟨ha, rfl⟩ : res'.outcome = .acquired ∧ res' = res := by simpa [claimed?] using h
      exact ⟨s, p, targets, s', rfl, ha⟩
  | _ => cases h

theorem eq_of_sent? {x : Said} {spec : RunSpec} {a : DispatchAnswer} (h : x.sent? = some (spec, a)) :
    ∃ s reply s', x = ⟨s, .run spec, reply, s'⟩ := by
  obtain ⟨s, q, b, s'⟩ := x
  cases q <;> cases h
  exact ⟨s, b, s', rfl⟩

end Said

/-- Every request carries the handler of the definition that the claim returned, and goes to an executor whose
registration, as it was read when the targets were chosen, declared that handler and belongs to that definition's
group. -/
def RunsRouted (xs : List Said) : Prop :=
  ∀ res ∈ xs.filterMap Said.claimed?, ∀ sent ∈ xs.filterMap Said.sent?,
    sent.1.handlerKey = res.definition.handlerKey ∧ ∃ g ∈ xs.filterMap Said.registered?, ∃ t ∈ g.rows,
      t.address = sent.1.address ∧ t.serves res.definition.handlerKey res.definition.executorGroup = true

instance : DecidablePred RunsRouted := fun xs => by unfold RunsRouted; infer_instance

/-- The claim finds the handler and the group that were read before it. -/
def SameRouting (job : String) (xs : List Said) : Prop :=
  ∀ x ∈ xs, x.defined?.isSome = true → ∀ y ∈ xs, y.claimed?.isSome = true →
    (y.before.db.def? job).map DefinitionRow.routing = (x.before.db.def? job).map DefinitionRow.routing

instance (job : String) : DecidablePred (SameRouting job) := fun xs => by unfold SameRouting; infer_instance

/-- Executors of two handlers. -/
def fleet : Registrations := ⟨executors ++ [⟨"reporter", "", "10.0.0.3:9000", 4, 0, ["report"], 0⟩], 2⟩

/-- The ready pass of `firstPass`, its job as it was created, and an edit of the job's handler. -/
def readyPass : World := (World.init 0).play bareEnv firstPass

def createdJob : Definition := { sampleJob "sync" .fixedDelay "1000" with version := 1 }

def rehandle : Action := .updateJob { createdJob with handlerKey := "report" } 1 "operator" "another handler"

/-- The dispatch of the ready pass reads the definition, and goes on as some run of the rest does. -/
theorem exec_readyPass {ev : List (Event World (Action × Ctx) Ask.Answer)} {r : Unit} {w' : World}
    (hx : Exec (Serves bareEnv sampleConfig.executorLiveness) (Step bareEnv)
      (claimUnder sampleConfig 1 "sync" "pass-1" createdJob) readyPass ev r w') :
    Exec (Serves bareEnv sampleConfig.executorLiveness) (Step bareEnv) (claimAndDispatch sampleConfig 1 "sync" "pass-1")
      readyPass (.own ⟨readyPass, .definition "sync", .ok createdJob, readyPass⟩ :: ev) r w' := by
  have hread : Serves bareEnv sampleConfig.executorLiveness readyPass (.definition "sync") (.ok createdJob) readyPass :=
    ⟨rfl, Or.inl rfl⟩
  exact Exec.ask hread hx

/-- The rest of it, when the first `Run` is accepted. -/
theorem exec_claimUnder (w : World) : ∃ ev r w', ev = ((claimUnder sampleConfig 1 "sync" "pass-1" createdJob).drive
      (obliging bareEnv sampleConfig.executorLiveness fleet) [.response "" "" false] w).1.map .own ∧
    Exec (Serves bareEnv sampleConfig.executorLiveness) (Step bareEnv)
      (claimUnder sampleConfig 1 "sync" "pass-1" createdJob) w ev r w' :=
  ⟨_, _, _, rfl, exec_drive (obliging_serves bareEnv sampleConfig.executorLiveness fleet) _ w _⟩

end GoJob
