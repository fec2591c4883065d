import GoJob.Job
/-!
# Body — what the admin API accepts as a job (`admin/jobs.go`)

A request's durations are whole numbers of seconds, and of milliseconds in a poll's schedule expression.  `toDefinition`
multiplies them out to nanoseconds in 64 bits and checks the products, so what passes the checks is the requested
duration or one that wrapped around onto a sensible value.
-/
namespace GoJob

/-- The functions outside the API: whether a text is a JSON object or `null`, and `Duration.String`. -/
structure Api where
  isObject     : String → Bool
  durationText : Instant → String

/-- `jobBody`; an `int` of the source has 64 bits. -/
structure JobBody where
  jobName        : String
  handlerKey     : String
  executorGroup  : String := ""
  scheduleKind   : String
  scheduleExpr   : String
  enabled        : Bool := true
  concurrency    : String := ""
  misfire        : String := ""
  maxAttempts    : Int64 := 0
  maxRecoveries  : Int64 := 0
  leaseSeconds   : Int64 := 0
  timeoutSeconds : Int64 := 0
  params         : String := ""
  description    : String := ""
  deriving DecidableEq

/-- A check: `badRequest(message)` if `p`, and the rest otherwise. -/
def reject {α : Type} (p : Prop) [Decidable p] (message : String) (rest : Except String α) : Except String α :=
  if p then .error message else rest

@[simp] theorem reject_ok {α : Type} {p : Prop} [Decidable p] {m : String} {x : Except String α} {a : α} :
    reject p m x = .ok a ↔ ¬ p ∧ x = .ok a := by
  unfold reject
  by_cases hp : p <;> simp [hp]

/-! ## Identifiers -/

/-- What `checkIdentifier` lets through: letters, digits and three signs.  A colon separates the fields of a key. -/
def identifierChar (r : Char) : Bool :=
  (decide ('a' ≤ r) && decide (r ≤ 'z')) || (decide ('A' ≤ r) && decide (r ≤ 'Z')) ||
    (decide ('0' ≤ r) && decide (r ≤ '9')) || decide (r = '.') || decide (r = '-') || decide (r = '_')

def checkIdentifier (field value : String) (max : Nat) : Except String Unit :=
  reject (value = "") (field ++ " is required") <|
  reject (max < value.utf8ByteSize) (field ++ " must be at most " ++ toString max ++ " characters") <|
  match value.toList.find? (fun r => !identifierChar r) with
  | none => .ok ()
  | some r => .error (field ++ " may contain only letters, digits and . - _ :  (found " ++ r.toString.quote ++ ")")

/-- A name that passed the check. -/
structure Identifier (value : String) (max : Nat) : Prop where
  filled : value ≠ ""
  short  : value.utf8ByteSize ≤ max
  chars  : ∀ r ∈ value.toList, identifierChar r = true

theorem checkIdentifier_ok {field value : String} {max : Nat} :
    checkIdentifier field value max = .ok () ↔ Identifier value max := by
  unfold checkIdentifier
  simp only [reject_ok, not_lt]
  cases hf : value.toList.find? (fun r => !identifierChar r) with
  | none =>
    have hall : ∀ r ∈ value.toList, identifierChar r = true := by simpa using List.find?_eq_none.1 hf
    exact ⟨fun h => ⟨h.1, h.2.1, hall⟩, fun h => ⟨h.filled, h.short, rfl⟩⟩
  | some r =>
    have hr : identifierChar r = false := by simpa using List.find?_some hf
    refine ⟨fun h => by simp at h, fun h => ?_⟩
    rw [h.chars r (List.mem_of_find?_eq_some hf)] at hr
    cases hr

/-! ## Definitions -/

def scheduleKindOf : String → Option ScheduleKind
  | "CRON"        => some .cron
  | "FIXED_DELAY" => some .fixedDelay
  | _             => none

/-- With `DefaultConcurrencyPolicy`. -/
def concurrencyOf : String → Option ConcurrencyPolicy
  | ""       => some .queue
  | "QUEUE"  => some .queue
  | "FORBID" => some .forbid
  | _        => none

/-- With `DefaultMisfirePolicy`. -/
def misfireOf : String → Option MisfirePolicy
  | ""          => some .fireOnce
  | "SKIP"      => some .skip
  | "FIRE_ONCE" => some .fireOnce
  | _           => none

/-- A count, or the default where none was sent. -/
def countOf (n : Int64) (default : Int) : Int := if n.toInt = 0 then default else n.toInt

/-- `time.Duration(n) * time.Second`, or the default where that is zero. -/
def secondsOf (n : Int64) (default : Int) : Int :=
  let product := wrap64 (n.toInt * second)
  if product = 0 then default * second else product

def maxParamsBytes : Nat := 65536

/-- The definition a body describes, with the defaults filled in. -/
def JobBody.draft (b : JobBody) (kind : ScheduleKind) (concurrency : ConcurrencyPolicy) (misfire : MisfirePolicy) :
    Definition where
  jobName := b.jobName
  handlerKey := b.handlerKey
  executorGroup := b.executorGroup
  scheduleKind := kind
  scheduleExpr := b.scheduleExpr
  enabled := b.enabled
  retired := false
  concurrency := concurrency
  misfire := misfire
  maxAttempts := (countOf b.maxAttempts 3).toNat
  maxRecoveries := (countOf b.maxRecoveries 3).toNat
  lease := secondsOf b.leaseSeconds 60
  timeout := secondsOf b.timeoutSeconds 900
  params := b.params
  description := b.description
  version := 0
  updatedBy := ""

/-- The bounds on a fixed delay.  The source asks `Delay` twice, with the same answer. -/
def checkDelay (api : Api) (d : Definition) : Except String Unit :=
  match d.scheduleKind with
  | .cron => .ok ()
  | .fixedDelay =>
    match d.delay with
    | .error err => .error err.detail
    | .ok delay =>
      reject (24 * 3600 * second < delay)
        ("a fixed delay of " ++ api.durationText delay ++ " is longer than a day; use a CRON schedule") (.ok ())

/-- The names and texts of a definition. -/
def checkTexts (api : Api) (d : Definition) : Except String Unit := do
  checkIdentifier "job_name" d.jobName 128
  checkIdentifier "handler_key" d.handlerKey 128
  if d.executorGroup ≠ "" then checkIdentifier "executor_group" d.executorGroup 64
  reject (512 < d.description.utf8ByteSize) "description must be at most 512 characters" <|
    reject (d.params ≠ "" ∧ maxParamsBytes < d.params.utf8ByteSize)
      "params must be at most 64 KiB; they are copied onto every execution and sent on every dispatch" <|
    reject (d.params ≠ "" ∧ api.isObject d.params = false) "params must be a JSON object" (.ok ())

def JobBody.toDefinition (api : Api) (b : JobBody) : Except String Definition :=
  reject (b.jobName = "" ∨ b.handlerKey = "") "job_name and handler_key are required" <|
  match scheduleKindOf b.scheduleKind with
  | none => .error "schedule_kind must be CRON or FIXED_DELAY"
  | some kind =>
    reject (b.scheduleExpr = "") "schedule_expr is required" <|
    match concurrencyOf b.concurrency with
    | none => .error "concurrency_policy must be QUEUE or FORBID"
    | some concurrency =>
      match misfireOf b.misfire with
      | none => .error "misfire_policy must be SKIP or FIRE_ONCE"
      | some misfire =>
        let d := b.draft kind concurrency misfire
        let attempts := countOf b.maxAttempts 3
        let recoveries := countOf b.maxRecoveries 3
        reject (attempts < 1 ∨ 100 < attempts) "max_attempts must be between 1 and 100" <|
        reject (recoveries < 1 ∨ 100 < recoveries) "max_recoveries must be between 1 and 100" <|
        reject (d.lease < 10 * second) "lease_seconds must be at least 10" <|
        reject (d.timeout < second ∨ 7 * 24 * 3600 * second < d.timeout)
          "timeout_seconds must be between 1 and 604800" <| do
          checkDelay api d
          reject (d.timeout < d.lease)
            ("lease_seconds (" ++ toString (d.lease.tdiv second) ++ ") must not exceed timeout_seconds (" ++
              toString (d.timeout.tdiv second) ++ ")") <| do
            checkTexts api d
            return d

/-! ## What acceptance says -/

/-- What the checks establish, whatever the products were. -/
structure Accepted (b : JobBody) (d : Definition) : Prop where
  kind    : scheduleKindOf b.scheduleKind = some d.scheduleKind
  expr    : d.scheduleExpr = b.scheduleExpr
  lease   : d.lease = secondsOf b.leaseSeconds 60
  timeout : d.timeout = secondsOf b.timeoutSeconds 900
  least   : 10 * second ≤ d.lease
  ordered : d.lease ≤ d.timeout
  most    : d.timeout ≤ 604800 * second
  delay   : d.scheduleKind = .fixedDelay → ∃ delay, d.delay = .ok delay ∧ delay ≤ 24 * 3600 * second

theorem checkDelay_ok {api : Api} {d : Definition} {x : Unit} (h : checkDelay api d = .ok x) :
    d.scheduleKind = .fixedDelay → ∃ delay, d.delay = .ok delay ∧ delay ≤ 24 * 3600 * second := by
  intro hk
  unfold checkDelay at h
  rw [hk] at h
  cases hd : d.delay with
  | error err =>
    rw [hd] at h
    cases h
  | ok delay =>
    rw [hd] at h
    exact ⟨delay, rfl, not_lt.1 (reject_ok.1 h).1⟩

theorem JobBody.toDefinition_ok {api : Api} {b : JobBody} {d : Definition} (h : b.toDefinition api = .ok d) :
    Accepted b d := by
  unfold JobBody.toDefinition at h
  obtain ⟨-, h⟩ := reject_ok.1 h
  cases hk : scheduleKindOf b.scheduleKind with
  | none => rw [hk] at h; cases h
  | some kind =>
    rw [hk] at h
    obtain ⟨-, h⟩ := reject_ok.1 h
    cases hc : concurrencyOf b.concurrency with
    | none => rw [hc] at h; cases h
    | some concurrency =>
      rw [hc] at h
      cases hm : misfireOf b.misfire with
      | none => rw [hm] at h; cases h
      | some misfire =>
        rw [hm] at h
        obtain ⟨-, h⟩ := reject_ok.1 h
        obtain ⟨-, h⟩ := reject_ok.1 h
        obtain ⟨hleast, h⟩ := reject_ok.1 h
        obtain ⟨hmost, h⟩ := reject_ok.1 h
        cases hd : checkDelay api (b.draft kind concurrency misfire) with
        | error m => rw [hd] at h; cases h
        | ok x =>
          rw [hd] at h
          obtain ⟨hord, h⟩ := reject_ok.1 h
          cases ht : checkTexts api (b.draft kind concurrency misfire) with
          | error m => rw [ht] at h; cases h
          | ok y =>
            rw [ht] at h
            obtain rfl := Except.ok.inj h
            exact ⟨hk, rfl, rfl, rfl, not_lt.1 hleast, not_lt.1 hord, not_lt.1 (not_or.1 hmost).2, checkDelay_ok hd⟩

/-! ## Durations -/

/-- The number fits the 64 bits of a `Duration`. -/
def Fits (n : Int) : Prop := -(2 ^ 63) ≤ n ∧ n < 2 ^ 63

instance (n : Int) : Decidable (Fits n) := inferInstanceAs (Decidable (_ ∧ _))

/-- **A product is exact as long as it fits.** -/
theorem wrap64_eq_iff {n : Int} : wrap64 n = n ↔ Fits n := by
  unfold wrap64 Fits
  rw [Int.bmod_def]
  split <;> omega

/-- What was asked for: the number of seconds, or the default in place of zero. -/
def requested (n : Int64) (default : Int) : Int := if n.toInt = 0 then default else n.toInt

/-- A product that wraps around onto zero is taken for a request of the default. -/
theorem secondsOf_eq_iff (n : Int64) {default : Int} (hd : Fits (default * second)) :
    secondsOf n default = requested n default * second ↔ Fits (n.toInt * second) := by
  unfold secondsOf requested
  by_cases hn : n.toInt = 0
  · rw [hn]
    simp [wrap64, Fits]
  dsimp only
  rw [if_neg hn]
  by_cases hz : wrap64 (n.toInt * second) = 0
  · rw [if_pos hz]
    have hne : n.toInt * second ≠ 0 := mul_ne_zero hn (by decide)
    refine ⟨fun h => h ▸ hd, fun h => ?_⟩
    rw [wrap64_eq_iff.2 h] at hz
    exact absurd hz hne
  · rw [if_neg hz, wrap64_eq_iff]

/-- **The durations of a definition are those of the request**, in exact numbers and within the documented bounds. -/
structure AsRequested (b : JobBody) (d : Definition) : Prop where
  lease   : d.lease = requested b.leaseSeconds 60 * second
  timeout : d.timeout = requested b.timeoutSeconds 900 * second
  least   : 10 ≤ requested b.leaseSeconds 60
  ordered : requested b.leaseSeconds 60 ≤ requested b.timeoutSeconds 900
  most    : requested b.timeoutSeconds 900 ≤ 604800
  delay   : d.scheduleKind = .fixedDelay → ∃ ms, parseInt b.scheduleExpr = some ms ∧ d.delay = .ok (ms * 1000000) ∧
    0 < ms * 1000000 ∧ ms * 1000000 ≤ 24 * 3600 * second

/-- No product of the request overflows. -/
structure InRange (b : JobBody) : Prop where
  lease   : Fits (b.leaseSeconds.toInt * second)
  timeout : Fits (b.timeoutSeconds.toInt * second)
  delay   : b.scheduleKind = "FIXED_DELAY" → ∀ ms, parseInt b.scheduleExpr = some ms → Fits (ms * 1000000)

theorem scheduleKindOf_fixedDelay {s : String} : scheduleKindOf s = some .fixedDelay ↔ s = "FIXED_DELAY" := by
  unfold scheduleKindOf
  split <;> simp_all

theorem delay_ok {d : Definition} {delay : Instant} (hk : d.scheduleKind = .fixedDelay) (h : d.delay = .ok delay) :
    ∃ ms, parseInt d.scheduleExpr = some ms ∧ 0 < ms ∧ delay = wrap64 (ms * 1000000) := by
  unfold Definition.delay at h
  rw [hk] at h
  cases hp : parseInt d.scheduleExpr with
  | none => rw [hp] at h; cases h
  | some ms =>
    rw [hp] at h
    by_cases hpos : ms ≤ 0
    · have h : (if ms ≤ 0 then _ else _ : Except Err Instant) = .ok delay := h
      rw [if_pos hpos] at h
      cases h
    · have h : (if ms ≤ 0 then _ else Except.ok (wrap64 (ms * 1000000)) : Except Err Instant) = .ok delay := h
      rw [if_neg hpos] at h
      exact ⟨ms, rfl, not_le.1 hpos, (Except.ok.inj h).symm⟩

/-- **What is accepted has the requested durations exactly if no product overflowed.** -/
theorem accepted_durations {api : Api} {b : JobBody} {d : Definition} (h : b.toDefinition api = .ok d) :
    AsRequested b d ↔ InRange b := by
  have ha := b.toDefinition_ok h
  have hlease := secondsOf_eq_iff b.leaseSeconds (show Fits (60 * second) by decide)
  have htimeout := secondsOf_eq_iff b.timeoutSeconds (show Fits (900 * second) by decide)
  rw [← ha.lease] at hlease
  rw [← ha.timeout] at htimeout
  have hkind : d.scheduleKind = .fixedDelay ↔ b.scheduleKind = "FIXED_DELAY" := by
    rw [← scheduleKindOf_fixedDelay, ha.kind, Option.some.injEq]
  constructor
  · intro hr
    refine ⟨hlease.1 hr.lease, htimeout.1 hr.timeout, fun hk ms hms => ?_⟩
    obtain ⟨ms', hms', hexact, -⟩ := hr.delay (hkind.2 hk)
    obtain rfl := Option.some.inj (hms.symm.trans hms')
    obtain ⟨ms'', hms'', -, hwrap⟩ := delay_ok (hkind.2 hk) hexact
    rw [ha.expr, hms] at hms''
    obtain rfl := Option.some.inj hms''
    exact wrap64_eq_iff.1 hwrap.symm
  · intro hin
    have h₁ := hlease.2 hin.lease
    have h₂ := htimeout.2 hin.timeout
    have hleast := ha.least
    have hord := ha.ordered
    have hmost := ha.most
    rw [h₁] at hleast hord
    rw [h₂] at hord hmost
    have key : ∀ l t : Int, 10 * 1000000000 ≤ l * 1000000000 → l * 1000000000 ≤ t * 1000000000 →
        t * 1000000000 ≤ 604800 * 1000000000 → 10 ≤ l ∧ l ≤ t ∧ t ≤ 604800 := by omega
    obtain ⟨hl, ho, hm⟩ := key _ _ hleast hord hmost
    refine ⟨h₁, h₂, hl, ho, hm, fun hk => ?_⟩
    obtain ⟨delay, hdelay, hday⟩ := ha.delay hk
    obtain ⟨ms, hms, hpos, rfl⟩ := delay_ok hk hdelay
    rw [ha.expr] at hms
    have hexact := wrap64_eq_iff.2 (hin.delay (hkind.1 hk) ms hms)
    rw [hexact] at hdelay hday
    exact ⟨ms, hms, hdelay, by omega, hday⟩

/-! ## Requests -/

def plainApi : Api := ⟨fun _ => true, fun _ => ""⟩

/-- A poll with the given delay, lease and cap. -/
def pollBody (scheduleExpr : String) (leaseSeconds timeoutSeconds : Int64) : JobBody where
  jobName := "sync"
  handlerKey := "handler"
  scheduleKind := "FIXED_DELAY"
  scheduleExpr := scheduleExpr
  leaseSeconds := leaseSeconds
  timeoutSeconds := timeoutSeconds

def pollDraft (scheduleExpr : String) (leaseSeconds timeoutSeconds : Int64) : Definition :=
  (pollBody scheduleExpr leaseSeconds timeoutSeconds).draft .fixedDelay .queue .fireOnce

theorem accepted_durations_poll : (pollBody "1000" 30 60).toDefinition plainApi = .ok (pollDraft "1000" 30 60) ∧
    (AsRequested (pollBody "1000" 30 60) (pollDraft "1000" 30 60) ↔ InRange (pollBody "1000" 30 60)) :=
  ⟨by decide +kernel, @accepted_durations plainApi _ _ (by decide +kernel)⟩

/-- **Three requests that wrap around**: a lease of 2^55 s is taken for none at all, a cap of 18446744134 s for one of
60 s, and a delay of 18446744073710 ms, which is no day but centuries, for less than a millisecond. -/
theorem wrapped_durations_accepted :
    (∃ d, (pollBody "1000" 36028797018963968 900).toDefinition plainApi = .ok d ∧ d.lease = 60 * second) ∧
    (∃ d, (pollBody "1000" 30 18446744134).toDefinition plainApi = .ok d ∧ d.timeout = 60290448384) ∧
    (∃ d, (pollBody "18446744073710" 30 60).toDefinition plainApi = .ok d ∧ d.delay = .ok 448384) :=
  ⟨⟨pollDraft "1000" 36028797018963968 900, by decide +kernel⟩, ⟨pollDraft "1000" 30 18446744134, by decide +kernel⟩,
    ⟨pollDraft "18446744073710" 30 60, by decide +kernel⟩⟩

end GoJob
