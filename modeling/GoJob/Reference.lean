import GoJob.Runs
import GoJob.Table
/-!
# Reference — the reference executor (`testexec/executor.go`)

A `Run` that is accepted enters the execution in a table and starts its handler in the background; when the handler has
returned, the entry is deleted and the attempt remembered as finished.  A re-registration deletes the entries of what
the scheduler fenced, while their handlers still unwind.  If a `Run` of such an execution comes in before they have
ended, the same attempt can be started again, and the handler that ends deletes an entry that is not its own.  Along
every run without that, an attempt is started once, and its handler is in the table for as long as it executes.
-/
namespace GoJob
namespace Reference

open Rel

/-! ## Attempts and their keys -/

structure Attempt where
  tenant       : String
  executionKey : String
  runToken     : String
  deriving DecidableEq, Repr

def runKey (tenant executionKey : String) : String := tenant ++ "\x00" ++ executionKey

def attemptKey (tenant executionKey runToken : String) : String :=
  tenant ++ "\x00" ++ executionKey ++ "\x00" ++ runToken

def Attempt.runKey (a : Attempt) : String := Reference.runKey a.tenant a.executionKey

def Attempt.attemptKey (a : Attempt) : String := Reference.attemptKey a.tenant a.executionKey a.runToken

/-! ## The executor -/

inductive Disposition
  | success | failed | timedOut | stopped
  deriving DecidableEq, Repr

/-- `ExecutionOutcome`. -/
structure Outcome where
  disposition : Disposition
  summary     : String
  didWork     : Bool
  failureKind : String
  errorDetail : String
  deriving DecidableEq, Repr

/-- `execution`, an entry of `running`.  Its `cancel` is the context of a task. -/
structure Execution extends Attempt where
  task      : Nat
  startedAt : Int
  deriving DecidableEq, Repr

/-- `finished`, an entry of `done`. -/
structure Finished extends Attempt where
  outcome : Outcome
  at_     : Int
  deriving DecidableEq, Repr

def Execution.key (x : Execution) : String := x.runKey

def Finished.key (f : Finished) : String := f.attemptKey

/-- How far `execute` has got. -/
inductive Phase
  | spawned
  | executing
  | returned (outcome : Outcome)
  | settled
  deriving DecidableEq, Repr

/-- A call of `execute` in the background.  Whether it was fenced is known to nobody: it is here to speak about. -/
structure Task extends Attempt where
  phase     : Phase
  cancelled : Bool
  fenced    : Bool
  deriving DecidableEq, Repr

/-- What is fixed of an `Executor`. -/
structure Config where
  tenant   : String
  capacity : Int
  handlers : List String
  deriving DecidableEq, Repr

structure State where
  running : Table Execution.key
  done    : Table Finished.key
  tasks   : List Task
  now     : Int

structure RunRequest extends Attempt where
  handlerKey : String
  deriving DecidableEq, Repr

inductive RunAnswer
  | accepted
  | refused (reason : String)
  | alreadyExists (message heldRunToken : String)
  deriving DecidableEq, Repr

def State.run (e : Config) (s : State) (req : RunRequest) : State × RunAnswer :=
  if req.handlerKey ∉ e.handlers then (s, .refused ("no handler " ++ req.handlerKey))
  else match s.done.get? req.attemptKey with
    | some fin => (s, .alreadyExists "this attempt already finished here" fin.runToken)
    | none =>
      match s.running.get? req.runKey with
      | some cur => (s, .alreadyExists "already running" cur.runToken)
      | none =>
        if (s.running.rows.length : Int) ≥ e.capacity then (s, .refused "at capacity")
        else
          ({ s with
              running := s.running.upsert ⟨req.toAttempt, s.tasks.length, s.now⟩
              tasks := s.tasks ++ [⟨req.toAttempt, .spawned, false, false⟩] },
            .accepted)

inductive ContextErr
  | canceled | deadlineExceeded
  deriving DecidableEq, Repr

def errText (err : Option String) (fallback : String) : String := err.getD fallback

/-- What `execute` makes of a handler's return, in the state of its context. -/
def outcomeOf (ctx : Option ContextErr) (summary : String) (err : Option String) : Outcome :=
  match ctx, err with
  | some .deadlineExceeded, _ => ⟨.timedOut, summary, true, "timeout", errText err "the runtime cap elapsed"⟩
  | some .canceled, _ => ⟨.stopped, summary, true, "", errText err "the handler was asked to stop and did"⟩
  | none, none => ⟨.success, summary, true, "", ""⟩
  | none, some detail => ⟨.failed, summary, true, "handler", detail⟩

/-- Ten minutes, in nanoseconds. -/
def keep : Int := 10 * 60 * 1000000000

/-- `forgetOldLocked`. -/
def forgetOld (done : Table Finished.key) (now : Int) : Table Finished.key :=
  done.delete (fun f => decide (f.at_ < now - keep))

/-- The end of `execute`: the entry goes, and the attempt is remembered. -/
def State.settle (s : State) (i : Nat) (t : Task) (outcome : Outcome) : State :=
  { s with
    running := s.running.delete (fun x => decide (x.key = t.runKey))
    done := forgetOld (s.done.upsert ⟨t.toAttempt, outcome, s.now⟩) s.now
    tasks := s.tasks.set i { t with phase := .settled } }

def cancelTask (tasks : List Task) (i : Nat) : List Task := tasks.modify i (fun t => { t with cancelled := true })

/-- `Cancel`: the task that was told to stop, or the text of `NOT_FOUND`. -/
def State.cancel (s : State) (tenant executionKey runToken : String) : Except String Nat :=
  match s.running.get? (runKey tenant executionKey) with
  | none => .error "not running here"
  | some cur =>
    if runToken ≠ "" ∧ runToken ≠ cur.runToken then .error "a different attempt is running here" else .ok cur.task

/-- `GetExecutionResponse`. -/
inductive ExecutionState
  | running (runToken : String) (startedAt : Int)
  | finished (runToken : String) (outcome : Outcome)
  deriving DecidableEq, Repr

/-- `GetExecution`; `NOT_FOUND` is `none`. -/
def State.getExecution (s : State) (tenant executionKey : String) : Option ExecutionState :=
  match s.running.get? (runKey tenant executionKey) with
  | some cur => some (.running cur.runToken cur.startedAt)
  | none =>
    let newest := (s.done.rows.filter (fun f => decide (f.tenant = tenant ∧ f.executionKey = executionKey))).foldl
      (fun newest f => match newest with
        | none => some f
        | some n => if n.at_ < f.at_ then some f else some n) none
    newest.map (fun f => .finished f.runToken f.outcome)

/-- `Connect`, for one key the scheduler fenced. -/
def State.fence (e : Config) (s : State) (key : String) : State :=
  match s.running.get? (runKey e.tenant key) with
  | none => s
  | some cur =>
    { s with
      running := s.running.delete (fun x => decide (x.key = runKey e.tenant key))
      tasks := s.tasks.modify cur.task (fun t => { t with cancelled := true, fenced := true }) }

inductive Act
  | run (req : RunRequest)
  /-- The handler of a task is called. -/
  | start (i : Nat)
  /-- The handler of a task returns. -/
  | finish (i : Nat) (ctx : Option ContextErr) (summary : String) (err : Option String)
  | settle (i : Nat)
  | cancel (tenant executionKey runToken : String)
  | getExecution (tenant executionKey : String)
  | fence (key : String)
  | tick (d : Nat)
  deriving DecidableEq, Repr

def State.next (e : Config) (s : State) : Act → Option State
  | .run req => some (s.run e req).1
  | .start i =>
    match s.tasks[i]? with
    | some t =>
      if t.phase = .spawned then some { s with tasks := s.tasks.set i { t with phase := .executing } } else none
    | none => none
  | .finish i ctx summary err =>
    match s.tasks[i]? with
    | some t =>
      -- a cancelled context has an error
      if t.phase = .executing ∧ (t.cancelled → ctx ≠ none) then
        some { s with tasks := s.tasks.set i { t with phase := .returned (outcomeOf ctx summary err) } }
      else none
    | none => none
  | .settle i =>
    match s.tasks[i]? with
    | some t =>
      match t.phase with
      | .returned outcome => some (s.settle i t outcome)
      | _ => none
    | none => none
  | .cancel tenant executionKey runToken =>
    match s.cancel tenant executionKey runToken with
    | .error _ => some s
    | .ok i => some { s with tasks := cancelTask s.tasks i }
  | .getExecution _ _ => some s
  | .fence key => some (s.fence e key)
  | .tick d => some { s with now := s.now + d }

def State.new (now : Int) : State := ⟨.empty, .empty, [], now⟩

def Step (e : Config) (s : State) (a : Act) (s' : State) : Prop := s.next e a = some s'

/-! ## What a step does -/

/-- What the tables know of a task. -/
structure View where
  attempt : Attempt
  fenced  : Bool
  settled : Bool
  deriving DecidableEq, Repr

def Task.view (t : Task) : View := ⟨t.toAttempt, t.fenced, decide (t.phase = .settled)⟩

def view (tasks : List Task) (i : Nat) : Option View := (tasks[i]?).map Task.view

variable {e : Config} {s s' : State} {a : Act} {tasks : List Task} {i : Nat} {t t' : Task}

theorem view_eq_some {v : View} : view tasks i = some v ↔ ∃ t, tasks[i]? = some t ∧ t.view = v := Option.map_eq_some_iff

theorem view_set (h : tasks[i]? = some t) (t' : Task) :
    view (tasks.set i t') = Function.update (view tasks) i (some t'.view) := by
  funext j
  obtain ⟨hi, -⟩ := List.getElem?_eq_some_iff.1 h
  by_cases hj : j = i
  · subst hj
    simp [view, hi]
  · simp [view, Function.update_of_ne hj, List.getElem?_set_ne (Ne.symm hj)]

theorem view_set_same (h : tasks[i]? = some t) (hv : t'.view = t.view) : view (tasks.set i t') = view tasks := by
  rw [view_set h, hv]
  exact Function.update_eq_self_iff.2 (view_eq_some.2 ⟨t, h, rfl⟩).symm

theorem view_modify_same {f : Task → Task} (hf : ∀ t, (f t).view = t.view) : view (tasks.modify i f) = view tasks := by
  funext j
  unfold view
  rw [List.getElem?_modify]
  cases tasks[j]? with
  | none => rfl
  | some t => by_cases hij : i = j <;> simp [hij, hf]

theorem view_append (tasks : List Task) (t : Task) :
    view (tasks ++ [t]) = Function.update (view tasks) tasks.length (some t.view) := by
  funext j
  by_cases hj : j = tasks.length
  · subst hj
    simp [view]
  · rw [Function.update_of_ne hj]
    unfold view
    rcases Nat.lt_or_gt_of_ne hj with hlt | hgt
    · rw [List.getElem?_append_left hlt]
    · rw [List.getElem?_eq_none (by simp; omega), List.getElem?_eq_none (by omega)]

/-- All that a step can do to the tables. -/
inductive Effect (e : Config) (s : State) (a : Act) (s' : State) : Prop
  | none (hrunning : s'.running = s.running) (hdone : s'.done = s.done) (hview : view s'.tasks = view s.tasks)
      (hnow : s.now ≤ s'.now)
  | accepted (req : RunRequest) (ha : a = .run req) (hdone : s.done.get? req.attemptKey = Option.none)
      (hrunning : s.running.get? req.runKey = Option.none) (hroom : (s.running.rows.length : Int) < e.capacity)
      (hanswer : (s.run e req).2 = .accepted)
      (hs : s' = { s with
        running := s.running.upsert ⟨req.toAttempt, s.tasks.length, s.now⟩
        tasks := s.tasks ++ [⟨req.toAttempt, .spawned, false, false⟩] })
  | settled (i : Nat) (t : Task) (outcome : Outcome) (ht : s.tasks[i]? = some t) (hp : t.phase = .returned outcome)
      (hs : s' = s.settle i t outcome)
  | fenced (x : Execution) (hx : s.running.get? x.key = some x)
      (hs : s' = { s with
        running := s.running.delete (fun y => decide (y.key = x.key))
        tasks := s.tasks.modify x.task (fun t => { t with cancelled := true, fenced := true }) })

theorem State.run_cases (e : Config) (s : State) (req : RunRequest) :
    (s.run e req).1 = s ∨ s.done.get? req.attemptKey = none ∧ s.running.get? req.runKey = none ∧
      (s.running.rows.length : Int) < e.capacity ∧ (s.run e req).2 = .accepted ∧
      (s.run e req).1 = { s with
        running := s.running.upsert ⟨req.toAttempt, s.tasks.length, s.now⟩
        tasks := s.tasks ++ [⟨req.toAttempt, .spawned, false, false⟩] } := by
  by_cases hh : req.handlerKey ∉ e.handlers
  · exact .inl (by rw [State.run, if_pos hh])
  cases hd : s.done.get? req.attemptKey with
  | some fin => exact .inl (by rw [State.run, if_neg hh, hd])
  | none =>
    cases hr : s.running.get? req.runKey with
    | some cur => exact .inl (by rw [State.run, if_neg hh, hd, hr])
    | none =>
      by_cases hc : (s.running.rows.length : Int) ≥ e.capacity
      · exact .inl (by rw [State.run, if_neg hh, hd, hr]; simp only [if_pos hc])
      · refine .inr ⟨rfl, rfl, not_le.1 hc, ?_, ?_⟩ <;>
        · rw [State.run, if_neg hh, hd, hr]
          simp only [if_neg hc]

/-- **All that a step can do.** -/
theorem Step.effect (h : Step e s a s') : Effect e s a s' := by
  cases a with
  | run req =>
    obtain rfl := Option.some.inj h
    rcases s.run_cases e req with hsame | ⟨hdone, hrunning, hroom, hanswer, hs⟩
    · rw [hsame]
      exact .none rfl rfl rfl (le_refl _)
    · exact .accepted req rfl hdone hrunning hroom hanswer hs
  | start i =>
    simp only [Step, State.next] at h
    split at h
    · rename_i t ht
      split at h
      · rename_i hp
        obtain rfl := Option.some.inj h
        exact .none rfl rfl (view_set_same ht (by simp [Task.view, hp])) (le_refl _)
      · cases h
    · cases h
  | finish i ctx summary err =>
    simp only [Step, State.next] at h
    split at h
    · rename_i t ht
      split at h
      · rename_i hp
        obtain rfl := Option.some.inj h
        exact .none rfl rfl (view_set_same ht (by simp [Task.view, hp.1])) (le_refl _)
      · cases h
    · cases h
  | settle i =>
    simp only [Step, State.next] at h
    split at h
    · rename_i t ht
      split at h
      · rename_i outcome hp
        exact .settled i t outcome ht hp (Option.some.inj h).symm
      · cases h
    · cases h
  | cancel tenant executionKey runToken =>
    simp only [Step, State.next] at h
    split at h
    · obtain rfl := Option.some.inj h
      exact .none rfl rfl rfl (le_refl _)
    · obtain rfl := Option.some.inj h
      exact .none rfl rfl (view_modify_same (fun _ => rfl)) (le_refl _)
  | getExecution tenant executionKey =>
    obtain rfl := Option.some.inj h
    exact .none rfl rfl rfl (le_refl _)
  | fence key =>
    obtain rfl := Option.some.inj h
    unfold State.fence
    cases hg : s.running.get? (runKey e.tenant key) with
    | none => exact .none rfl rfl rfl (le_refl _)
    | some x =>
      have hk : x.key = runKey e.tenant key := Table.get?_key hg
      rw [← hk] at hg ⊢
      exact .fenced x hg rfl
  | tick d =>
    obtain rfl := Option.some.inj h
    exact .none rfl rfl rfl (by simp)

theorem Effect.now_le (h : Effect e s a s') : s.now ≤ s'.now := by
  cases h with
  | none _ _ _ hnow => exact hnow
  | accepted req _ _ _ _ _ hs => rw [hs]
  | settled i t outcome _ _ hs => rw [hs]; exact le_refl _
  | fenced x _ hs => rw [hs]

/-! ## What the tables say -/

/-- The attempts that have a task, and what the tables say of them. -/
structure Inv (e : Config) (t₀ : Int) (s : State) : Prop where
  /-- A task that is neither fenced nor settled has its entry. -/
  entered : ∀ i v, view s.tasks i = some v → v.fenced = false → v.settled = false →
    ∃ x, s.running.get? v.attempt.runKey = some x ∧ x.task = i ∧ x.runToken = v.attempt.runToken
  /-- A settled one is remembered. -/
  remembered : ∀ i v, view s.tasks i = some v → v.settled = true → s.done.get? v.attempt.attemptKey ≠ none
  /-- An execution has one task at a time. -/
  alone : ∀ i j v w, view s.tasks i = some v → view s.tasks j = some w → v.settled = false → w.settled = false →
    v.attempt.runKey = w.attempt.runKey → i = j
  /-- An attempt has one task. -/
  once : ∀ i j v w, view s.tasks i = some v → view s.tasks j = some w → v.attempt = w.attempt → i = j
  started : t₀ ≤ s.now
  recent : ∀ f ∈ s.done.rows, t₀ ≤ f.at_
  bounded : (s.running.rows.length : Int) ≤ max 0 e.capacity

/-- Nothing of the execution is still unwinding. -/
def Clear (s : State) (req : RunRequest) : Prop :=
  ∀ i v, view s.tasks i = some v → v.attempt.runKey = req.runKey → v.settled = true ∨ v.fenced = false

variable {t₀ : Int}

theorem Inv.new (e : Config) (now : Int) : Inv e now (State.new now) where
  entered := fun i v h => by cases h
  remembered := fun i v h => by cases h
  alone := fun i j v w h => by cases h
  once := fun i j v w h => by cases h
  started := le_refl _
  recent := fun f hf => by cases hf
  bounded := le_max_left _ _

theorem Inv.congr (h : Inv e t₀ s) (hrunning : s'.running = s.running) (hdone : s'.done = s.done)
    (hview : view s'.tasks = view s.tasks) (hnow : s.now ≤ s'.now) : Inv e t₀ s' := by
  obtain ⟨h1, h2, h3, h4, h5, h6, h7⟩ := h
  rw [← hrunning, ← hview] at h1
  rw [← hdone, ← hview] at h2
  rw [← hview] at h3 h4
  rw [← hdone] at h6
  rw [← hrunning] at h7
  exact ⟨h1, h2, h3, h4, h5.trans hnow, h6, h7⟩

theorem update_eq_some {f : Nat → Option View} {i j : Nat} {v w : View} (h : Function.update f i (some v) j = some w) :
    j = i ∧ w = v ∨ j ≠ i ∧ f j = some w := by
  by_cases hj : j = i
  · subst hj
    rw [Function.update_self, Option.some.injEq] at h
    exact .inl ⟨rfl, h.symm⟩
  · rw [Function.update_of_ne hj] at h
    exact .inr ⟨hj, h⟩

theorem Inv.accepted (h : Inv e t₀ s) {req : RunRequest} (hdone : s.done.get? req.attemptKey = none)
    (hrunning : s.running.get? req.runKey = none) (hroom : (s.running.rows.length : Int) < e.capacity)
    (hclear : Clear s req) :
    Inv e t₀ { s with
      running := s.running.upsert ⟨req.toAttempt, s.tasks.length, s.now⟩
      tasks := s.tasks ++ [⟨req.toAttempt, .spawned, false, false⟩] } := by
  -- no task of this execution is left
  have hgone : ∀ i v, view s.tasks i = some v → v.settled = false → v.attempt.runKey ≠ req.runKey := by
    intro i v hv hs hk
    rcases hclear i v hv hk with hset | hf
    · rw [hs] at hset
      cases hset
    · obtain ⟨x, hx, -⟩ := h.entered i v hv hf hs
      rw [hk, hrunning] at hx
      cases hx
  -- and none of this attempt
  have hnew : ∀ i v, view s.tasks i = some v → v.attempt ≠ req.toAttempt := by
    intro i v hv ha
    cases hs : v.settled with
    | false => exact hgone i v hv hs (by rw [ha])
    | true => exact h.remembered i v hv hs (by rw [ha]; exact hdone)
  refine ⟨fun i v hv hf hs => ?_, fun i v hv hs => ?_, fun i j v w hv hw hsv hsw hk => ?_, fun i j v w hv hw ha => ?_,
    h.started, h.recent, ?_⟩
  · rw [view_append] at hv
    rw [Table.get?_upsert]
    rcases update_eq_some hv with ⟨rfl, rfl⟩ | ⟨-, hv⟩
    · exact ⟨_, if_pos rfl, rfl, rfl⟩
    · obtain ⟨x, hx, hxi⟩ := h.entered i v hv hf hs
      exact ⟨x, (if_neg (Ne.symm (hgone i v hv hs))).trans hx, hxi⟩
  · rw [view_append] at hv
    rcases update_eq_some hv with ⟨rfl, rfl⟩ | ⟨-, hv⟩
    · cases hs
    · exact h.remembered i v hv hs
  · rw [view_append] at hv hw
    rcases update_eq_some hv with ⟨rfl, rfl⟩ | ⟨-, hv⟩ <;> rcases update_eq_some hw with ⟨rfl, rfl⟩ | ⟨-, hw⟩
    · rfl
    · exact absurd hk.symm (hgone j w hw hsw)
    · exact absurd hk (hgone i v hv hsv)
    · exact h.alone i j v w hv hw hsv hsw hk
  · rw [view_append] at hv hw
    rcases update_eq_some hv with ⟨rfl, rfl⟩ | ⟨-, hv⟩ <;> rcases update_eq_some hw with ⟨rfl, rfl⟩ | ⟨-, hw⟩
    · rfl
    · exact absurd ha.symm (hnew j w hw)
    · exact absurd ha (hnew i v hv)
    · exact h.once i j v w hv hw ha
  · have := Table.length_upsert_le s.running ⟨req.toAttempt, s.tasks.length, s.now⟩
    show ((s.running.upsert _).rows.length : Int) ≤ _
    omega

/-- In ten minutes nothing is forgotten. -/
theorem forgetOld_eq {done : Table Finished.key} {now : Int} (hnow : now ≤ t₀ + keep)
    (h : ∀ f ∈ done.rows, t₀ ≤ f.at_) : forgetOld done now = done := by
  refine Table.ext_of (List.filter_eq_self.2 (fun f hf => ?_))
  have := h f hf
  simp only [Bool.not_eq_true', decide_eq_false_iff_not, not_lt]
  omega

theorem Inv.settled (h : Inv e t₀ s) (hnow : s.now ≤ t₀ + keep) {outcome : Outcome} (ht : s.tasks[i]? = some t)
    (hp : t.phase = .returned outcome) : Inv e t₀ (s.settle i t outcome) := by
  have hi : view s.tasks i = some t.view := view_eq_some.2 ⟨t, ht, rfl⟩
  have hlive : t.view.settled = false := by simp [Task.view, hp]
  have hrecent : ∀ f ∈ (s.done.upsert ⟨t.toAttempt, outcome, s.now⟩).rows, t₀ ≤ f.at_ := by
    intro f hf
    rcases Table.mem_upsert hf with hf | rfl
    · exact h.recent f hf
    · exact h.started
  unfold State.settle
  rw [forgetOld_eq hnow hrecent]
  refine ⟨fun j w hw hf hs => ?_, fun j w hw hs => ?_, fun j k v w hv hw hsv hsw hk => ?_, fun j k v w hv hw ha => ?_,
    h.started, hrecent, ?_⟩
  · rw [view_set ht] at hw
    rcases update_eq_some hw with ⟨rfl, rfl⟩ | ⟨hj, hw⟩
    · simp [Task.view] at hs
    · obtain ⟨x, hx, hxj⟩ := h.entered j w hw hf hs
      have hne : w.attempt.runKey ≠ t.runKey := fun hk => hj (h.alone j i w t.view hw hi hs hlive hk)
      exact ⟨x, (Table.get?_delete_key_ne s.running hne).trans hx, hxj⟩
  · rw [view_set ht] at hw
    rw [Table.get?_upsert]
    split
    · exact Option.some_ne_none _
    · rename_i hne
      rcases update_eq_some hw with ⟨rfl, rfl⟩ | ⟨-, hw⟩
      · exact absurd rfl hne
      · exact h.remembered j w hw hs
  · rw [view_set ht] at hv hw
    rcases update_eq_some hv with ⟨rfl, rfl⟩ | ⟨-, hv⟩
    · simp [Task.view] at hsv
    rcases update_eq_some hw with ⟨rfl, rfl⟩ | ⟨-, hw⟩
    · simp [Task.view] at hsw
    exact h.alone j k v w hv hw hsv hsw hk
  · -- the attempt of the task is as it was
    have hold : ∀ j v, view (s.tasks.set i { t with phase := .settled }) j = some v →
        ∃ v', view s.tasks j = some v' ∧ v'.attempt = v.attempt := by
      intro j v hv
      rw [view_set ht] at hv
      rcases update_eq_some hv with ⟨rfl, rfl⟩ | ⟨-, hv⟩
      · exact ⟨t.view, hi, rfl⟩
      · exact ⟨v, hv, rfl⟩
    obtain ⟨v', hv', hav⟩ := hold j v hv
    obtain ⟨w', hw', haw⟩ := hold k w hw
    exact h.once j k v' w' hv' hw' (hav.trans (ha.trans haw.symm))
  · have : (s.running.rows.filter (fun x => !decide (x.key = t.runKey))).length ≤ s.running.rows.length :=
      List.length_filter_le ..
    have := h.bounded
    show ((s.running.rows.filter (fun x => !decide (x.key = t.runKey))).length : Int) ≤ _
    omega

theorem view_fence {i j : Nat} {w : View}
    (h : view (tasks.modify i (fun t => { t with cancelled := true, fenced := true })) j = some w) :
    ∃ v, view tasks j = some v ∧ v.attempt = w.attempt ∧ v.settled = w.settled ∧
      (w.fenced = false → j ≠ i ∧ v.fenced = false) := by
  unfold view at h ⊢
  rw [List.getElem?_modify] at h
  cases ht : tasks[j]? with
  | none => simp [ht] at h
  | some t =>
    by_cases hij : i = j
    · simp only [ht, hij, Option.map_eq_map, Option.map_some, if_true, Option.some.injEq] at h
      subst h
      exact ⟨t.view, rfl, rfl, rfl, fun hf => by cases hf⟩
    · simp only [ht, hij, Option.map_eq_map, Option.map_some, if_false, Option.some.injEq] at h
      subst h
      exact ⟨t.view, rfl, rfl, rfl, fun hf => ⟨Ne.symm hij, hf⟩⟩

theorem Inv.fenced (h : Inv e t₀ s) {x : Execution} (hx : s.running.get? x.key = some x) :
    Inv e t₀ { s with
      running := s.running.delete (fun y => decide (y.key = x.key))
      tasks := s.tasks.modify x.task (fun t => { t with cancelled := true, fenced := true }) } := by
  refine ⟨fun j w hw hf hs => ?_, fun j w hw hs => ?_, fun j k v w hv hw hsv hsw hk => ?_, fun j k v w hv hw ha => ?_,
    h.started, h.recent, ?_⟩
  · obtain ⟨v, hv, ha, hset, hfence⟩ := view_fence hw
    obtain ⟨hj, hvf⟩ := hfence hf
    obtain ⟨y, hy, hyj, hyt⟩ := h.entered j v hv hvf (hset.trans hs)
    have hne : v.attempt.runKey ≠ x.key := by
      intro hk
      rw [hk, hx, Option.some.injEq] at hy
      subst hy
      exact hj hyj.symm
    rw [← ha]
    exact ⟨y, (Table.get?_delete_key_ne s.running hne).trans hy, hyj, hyt⟩
  · obtain ⟨v, hv, ha, hset, -⟩ := view_fence hw
    rw [← ha]
    exact h.remembered j v hv (hset.trans hs)
  · obtain ⟨v', hv', hav, hsetv, -⟩ := view_fence hv
    obtain ⟨w', hw', haw, hsetw, -⟩ := view_fence hw
    exact h.alone j k v' w' hv' hw' (hsetv.trans hsv) (hsetw.trans hsw) (by rw [hav, haw, hk])
  · obtain ⟨v', hv', hav, -⟩ := view_fence hv
    obtain ⟨w', hw', haw, -⟩ := view_fence hw
    exact h.once j k v' w' hv' hw' (hav.trans (ha.trans haw.symm))
  · have : (s.running.rows.filter (fun y => !decide (y.key = x.key))).length ≤ s.running.rows.length :=
      List.length_filter_le ..
    have := h.bounded
    show ((s.running.rows.filter (fun y => !decide (y.key = x.key))).length : Int) ≤ _
    omega

/-- **A step keeps what the tables say**, if it accepts nothing while something of the execution unwinds. -/
theorem Inv.step (h : Inv e t₀ s) (hst : Step e s a s') (hnow : s.now ≤ t₀ + keep)
    (hclear : ∀ req, a = .run req → (s.run e req).2 = .accepted → Clear s req) : Inv e t₀ s' := by
  cases hst.effect with
  | none hrunning hdone hview hle => exact h.congr hrunning hdone hview hle
  | accepted req ha hdone hrunning hroom hanswer hs =>
    rw [hs]
    exact h.accepted hdone hrunning hroom (hclear req ha hanswer)
  | settled i t outcome ht hp hs =>
    rw [hs]
    exact h.settled hnow ht hp
  | fenced x hx hs =>
    rw [hs]
    exact h.fenced hx

/-- The step accepts no `Run` while a fenced handler of the same execution has not ended. -/
def Spaced (e : Config) (x : State × Act × State) : Prop :=
  ∀ req, x.2.1 = Act.run req → (x.1.run e req).2 = .accepted → Clear x.1 req

theorem Inv.run {tr : List (State × Act × State)} (h : Inv e t₀ s) (hr : Sys.Run (Step e) s tr s')
    (hnow : s'.now ≤ t₀ + keep) (hspaced : ∀ x ∈ tr, Spaced e x) : Inv e t₀ s' := by
  -- the clock only goes forward, so the bound holds all along
  refine Sys.Run.invariant_of (I := fun s => s.now ≤ t₀ + keep → Inv e t₀ s) (Spaced e)
    (fun _ => h) (fun s a s' hI hC hst hb => ?_) hr hspaced hnow
  have hle : s.now ≤ t₀ + keep := hst.effect.now_le.trans hb
  exact (hI hle).step hst hle hC

/-! ## Handlers -/

def State.which (s : State) (p : Task → Bool) : List Nat :=
  (List.range s.tasks.length).filter (fun i => (s.tasks[i]?).any p)

def State.started (s : State) (a : Attempt) : List Nat :=
  s.which (fun t => decide (t.toAttempt = a) && decide (t.phase ≠ .spawned))

/-- The handlers that execute and have not been fenced. -/
def State.executing (s : State) : List Nat := s.which (fun t => decide (t.phase = .executing) && !t.fenced)

theorem mem_which {p : Task → Bool} : i ∈ s.which p → ∃ t, s.tasks[i]? = some t ∧ p t = true := by
  intro h
  exact (Option.any_eq_true ..).1 (List.mem_filter.1 h).2

theorem nodup_which (s : State) (p : Task → Bool) : (s.which p).Nodup := List.nodup_range.filter _

theorem Inv.started_le_one (h : Inv e t₀ s) (a : Attempt) : (s.started a).length ≤ 1 := by
  have hsame : ∀ i ∈ s.started a, ∀ j ∈ s.started a, i = j := by
    intro i hi j hj
    obtain ⟨t, ht, hp⟩ := mem_which hi
    obtain ⟨u, hu, hq⟩ := mem_which hj
    simp only [Bool.and_eq_true, decide_eq_true_eq] at hp hq
    exact h.once i j t.view u.view (view_eq_some.2 ⟨t, ht, rfl⟩) (view_eq_some.2 ⟨u, hu, rfl⟩) (hp.1.trans hq.1.symm)
  have hnodup : (s.started a).Nodup := nodup_which s _
  cases hl : s.started a with
  | nil => simp
  | cons i l =>
    rw [hl] at hsame hnodup
    cases l with
    | nil => simp
    | cons j l =>
      have hij : i = j := hsame i (by simp) j (by simp)
      exact absurd (hij ▸ List.mem_cons_self) (List.nodup_cons.1 hnodup).1

theorem Inv.entry (h : Inv e t₀ s) (ht : s.tasks[i]? = some t) (hp : t.phase = .executing) (hf : t.fenced = false) :
    ∃ x, s.running.get? t.runKey = some x ∧ x.task = i ∧ x.runToken = t.runToken :=
  h.entered i t.view (view_eq_some.2 ⟨t, ht, rfl⟩) hf (by simp [Task.view, hp])

theorem Inv.executing_le (h : Inv e t₀ s) : (s.executing.length : Int) ≤ max 0 e.capacity := by
  have hsub : s.executing ⊆ s.running.rows.map Execution.task := by
    intro i hi
    obtain ⟨t, ht, hp⟩ := mem_which hi
    simp only [Bool.and_eq_true, decide_eq_true_eq, Bool.not_eq_true'] at hp
    obtain ⟨x, hx, hxi, -⟩ := h.entry ht hp.1 hp.2
    exact List.mem_map.2 ⟨x, Table.mem_of_get? hx, hxi⟩
  have hle := (List.subperm_of_subset (nodup_which s _) hsub).length_le
  rw [List.length_map] at hle
  have := h.bounded
  have : (s.executing.length : Int) ≤ s.running.rows.length := by exact_mod_cast hle
  omega

/-- **An attempt is started once, and its handler is in the table for as long as it executes**, in ten minutes in which
no `Run` is accepted while a fenced handler of the same execution has not ended. -/
theorem attempt_started_once {now : Int} {tr : List (State × Act × State)} (h : Sys.Run (Step e) (State.new now) tr s)
    (htime : s.now ≤ now + keep) (hspaced : ∀ x ∈ tr, Spaced e x) :
    (∀ a, (s.started a).length ≤ 1) ∧
    (∀ i t, s.tasks[i]? = some t → t.phase = .executing → t.fenced = false →
      ∃ x, s.running.get? t.runKey = some x ∧ x.task = i ∧
        s.getExecution t.tenant t.executionKey = some (.running t.runToken x.startedAt)) ∧
    (s.executing.length : Int) ≤ max 0 e.capacity := by
  have hinv := (Inv.new e now).run h htime hspaced
  refine ⟨hinv.started_le_one, fun i t ht hp hf => ?_, hinv.executing_le⟩
  obtain ⟨x, hx, hxi, hxt⟩ := hinv.entry ht hp hf
  refine ⟨x, hx, hxi, ?_⟩
  have hget : s.running.get? (runKey t.tenant t.executionKey) = some x := hx
  rw [State.getExecution, hget, ← hxt]

def sampleExecutor : Config := ⟨"acme", 1, ["sync"]⟩

def sampleRun (runToken : String) : RunRequest := ⟨⟨"acme", "m:sync:r1", runToken⟩, "sync"⟩

theorem attempt_started_once_sample : ∃ tr s, Sys.Run (Step sampleExecutor) (State.new 0) tr s ∧ s.executing = [0] ∧
    (s.executing.length : Int) ≤ max 0 1 := by
  have hplay : Sys.play (State.next sampleExecutor) (State.new 0) [.run (sampleRun "t1"), .start 0] = some (_, _) := rfl
  have hrun : Sys.Run (Step sampleExecutor) (State.new 0) _ _ := Sys.run_play hplay
  refine ⟨_, _, hrun, by decide, (attempt_started_once hrun (by decide) ?_).2.2⟩
  intro x hx
  simp only [List.mem_cons, List.not_mem_nil, or_false] at hx
  rcases hx with rfl | rfl
  · intro req _ _ i v hv
    cases hv
  · intro req hreq
    cases hreq

/-- **A fenced handler that still unwinds**: a `Run` of the same attempt starts it again; and a `Run` of the next
attempt loses its entry to the first when that ends. -/
theorem fenced_attempt_started_twice :
    (∃ tr s, Sys.Run (Step sampleExecutor) (State.new 0) tr s ∧ s.now = 0 ∧
      s.started (sampleRun "t1").toAttempt = [0, 1]) ∧
    ∃ tr s, Sys.Run (Step sampleExecutor) (State.new 0) tr s ∧ s.now = 0 ∧ s.executing = [1] ∧ s.running.rows = [] := by
  constructor
  · obtain ⟨tr, s, hrun, hs⟩ := Sys.play_checked (State.next sampleExecutor) (State.new 0)
      [.run (sampleRun "t1"), .start 0, .fence "m:sync:r1", .run (sampleRun "t1"), .start 1]
      (fun _ s => decide (s.now = 0 ∧ s.started (sampleRun "t1").toAttempt = [0, 1])) (by decide)
    exact ⟨tr, s, hrun, of_decide_eq_true hs⟩
  · obtain ⟨tr, s, hrun, hs⟩ := Sys.play_checked (State.next sampleExecutor) (State.new 0)
      [.run (sampleRun "t1"), .start 0, .fence "m:sync:r1", .run (sampleRun "t2"), .start 1,
       .finish 0 (some .canceled) "" none, .settle 0]
      (fun _ s => decide (s.now = 0 ∧ s.executing = [1] ∧ s.running.rows = [])) (by decide)
    exact ⟨tr, s, hrun, of_decide_eq_true hs⟩

end Reference
end GoJob
