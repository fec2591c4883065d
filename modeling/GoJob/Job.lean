import Mathlib
/-!
# Job — the shared types (`job.go`, `errors.go`)

Two clocks run through everything.  A business instant (`Instant`) is a count of nanoseconds and comes from the
scheduler's own clock; an ownership instant (`Utc`) is a whole second of the database's `UTC_TIMESTAMP()`.
-/
namespace GoJob

/-- A business instant or duration, in nanoseconds. -/
abbrev Instant := Int

/-- A reading of the database clock, in seconds. -/
abbrev Utc := Int

/-- One second of business time. -/
def second : Instant := 1000000000

inductive ScheduleKind
  | cron | fixedDelay
  deriving DecidableEq, Repr

inductive ConcurrencyPolicy
  | queue | forbid
  deriving DecidableEq, Repr

inductive MisfirePolicy
  | skip | fireOnce
  deriving DecidableEq, Repr

inductive TriggerType
  | cron | manual | poll
  deriving DecidableEq, Repr

inductive Status
  | ready | dispatching | running | cancelRequested | success | dead | cancelled | skipped
  deriving DecidableEq, Repr

namespace Status

/-- The column value. -/
def text : Status → String
  | ready => "ready"
  | dispatching => "dispatching"
  | running => "running"
  | cancelRequested => "cancel_requested"
  | success => "success"
  | dead => "dead"
  | cancelled => "cancelled"
  | skipped => "skipped"

/-- `Status.Terminal`, and the set `('success', 'dead', 'cancelled', 'skipped')` the statements spell out. -/
def terminal : Status → Bool
  | success | dead | cancelled | skipped => true
  | _ => false

/-- The set `('dispatching', 'running', 'cancel_requested')`: an attempt owns the row. -/
def held : Status → Bool
  | dispatching | running | cancelRequested => true
  | _ => false

/-- The set `('dispatching', 'running')`: what a cancel may still move. -/
def cancellable : Status → Bool
  | dispatching | running => true
  | _ => false

/-- **A status is claimable, owned or over.** -/
theorem trichotomy (s : Status) : s = ready ∨ s.held = true ∨ s.terminal = true := by
  cases s <;> simp [held, terminal]

theorem not_terminal_of_held {s : Status} (h : s.held = true) : s.terminal = false := by
  cases s <;> simp_all [held, terminal]

end Status

/-- `TerminalReason`; `empty` is Go's `""`. -/
inductive TerminalReason
  | handlerConfirmed | fenced | timeout | budgetExhausted | permanentFailure | retired | concurrencySkipped | empty
  deriving DecidableEq, Repr

inductive AttemptOutcome
  | success | failed | unknown | fenced
  deriving DecidableEq, Repr

/-! ## Errors -/

/-- The sentinel an error wraps, which is what callers branch on; `other` wraps none. -/
inductive Sentinel
  | contended | fenced | missingState | protocol | notRunnable | noSuchExecution | capElapsed | noSuchAttempt
  | noSuchJob | staleVersion | other
  deriving DecidableEq, Repr

/-- An error: its sentinel and the text after it. -/
structure Err where
  kind   : Sentinel
  detail : String
  deriving DecidableEq, Repr

/-! ## Definitions -/

/-- `gojob.Definition`: a job's configuration as the scheduler handles it.  Durations are in nanoseconds. -/
structure Definition where
  jobName       : String
  handlerKey    : String
  executorGroup : String
  scheduleKind  : ScheduleKind
  scheduleExpr  : String
  enabled       : Bool
  retired       : Bool
  concurrency   : ConcurrencyPolicy
  misfire       : MisfirePolicy
  maxAttempts   : Nat
  maxRecoveries : Nat
  lease         : Int
  timeout       : Int
  params        : String
  description   : String
  version       : Nat
  updatedBy     : String
  deriving DecidableEq, Repr

/-- Two's-complement wrap-around to 64 bits. -/
def wrap64 (x : Int) : Int := x.bmod (2 ^ 64)

def parseDigits : List Char → Option Nat
  | [] => none
  | cs => cs.foldl
      (fun acc c => acc.bind (fun n => if c.isDigit then some (n * 10 + (c.toNat - 48)) else none)) (some 0)

/-- `strconv.ParseInt(s, 10, 64)`: an optional sign, at least one digit, and a value that fits 64 bits. -/
def parseInt (s : String) : Option Int :=
  let value : Option Int := match s.toList with
    | '-' :: cs => (parseDigits cs).map (fun n => -(n : Int))
    | '+' :: cs => (parseDigits cs).map (fun n => (n : Int))
    | cs        => (parseDigits cs).map (fun n => (n : Int))
  value.filter (fun n => decide (-(2 ^ 63) ≤ n) && decide (n < 2 ^ 63))

/-- `Definition.Delay`: the pause between passes.  `time.Duration(ms) * time.Millisecond` wraps. -/
def Definition.delay (d : Definition) : Except Err Instant :=
  match d.scheduleKind with
  | .cron => .ok 0
  | .fixedDelay =>
    match parseInt d.scheduleExpr with
    | none => .error ⟨.other, "gojob: job " ++ d.jobName.quote ++ " has schedule_kind FIXED_DELAY but schedule_expr " ++
        d.scheduleExpr.quote ++ " is not a number of milliseconds"⟩
    | some ms =>
      if ms ≤ 0 then
        .error ⟨.other, "gojob: job " ++ d.jobName.quote ++ " has a fixed delay of " ++ toString ms ++
          " ms; a poller with no pause would run flat out"⟩
      else .ok (wrap64 (ms * 1000000))

end GoJob
