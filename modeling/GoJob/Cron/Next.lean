import GoJob.Bisect
import GoJob.Cron.Meaning
import GoJob.Cron.Civil
/-!
# Cron.Next — the search for the next fire (`cron/cron.go`)

The search walks over wall times, skipping the months, days, hours, minutes and seconds that do not match, and turns
the first one that matches into an instant.  A wall time the clock never shows fires when the gap that holds it ends,
and one it shows twice fires the first time (`Cal.Zone.Due`).
-/
namespace GoJob
namespace Cron

open Cal (Zone)

def matchesDay (e : Expression) (d : Cal.Date) : Bool :=
  let dom := isSet e.dom d.day
  let dow := isSet e.dow d.weekday
  if e.domRestricted && e.dowRestricted then dom || dow
  else if e.domRestricted then dom
  else if e.dowRestricted then dow
  else true

/-- The loop of `gapEnd`, over instants in seconds. -/
def gapEnd (z : Zone) (c : Civil) : Int :=
  let probe (mid : Int) : Id Bool := pure (c.after (civilOf (z.wall mid)))
  (Id.run (Bisect.bisect Bisect.unit_width Bisect.true_dist probe (c.secs - 48 * 3600) (c.secs + 48 * 3600))).2

/-- `resolve`: the earlier of the two candidates that show `c`, or the end of the gap. -/
def resolve (z : Zone) (c : Civil) : Int :=
  let offBefore := z.off (c.secs - Cal.day)
  let offAfter := z.off (c.secs + Cal.day)
  let best := [offBefore, offAfter].foldl (fun best off =>
    let cand := c.secs - off
    if c = civilOf (z.wall cand) ∧ (best.all fun b => decide (cand < b)) then some cand else best) none
  match best with
  | some best => best
  | none      => gapEnd z c

/-- `searchLimit`, in seconds. -/
def searchLimit : Int := 12 * 366 * Cal.day

theorem search_decreases {limit t t' : Civil} (h : ¬ t.after limit = true) (ht : t.secs < t'.secs) :
    (limit.secs + 1 - t'.secs).toNat < (limit.secs + 1 - t.secs).toNat := by
  rw [Civil.after_iff] at h
  omega

/-- The loop of `Next`. -/
def search (z : Zone) (e : Expression) (after : Instant) (limit t : Civil) : Except Err Instant :=
  if t.after limit then .error ⟨.other, "cron " ++ e.src.quote ++ ": no fire instant within 105408h0m0s"⟩
  else if !isSet e.month t.month then search z e after limit t.nextMonth
  else if !matchesDay e t.toDate then search z e after limit t.nextDay
  else if !isSet e.hour t.hour then search z e after limit t.nextHour
  else if !isSet e.minute t.min then search z e after limit t.nextMinute
  else if !isSet e.second t.sec then search z e after limit t.nextSecond
  else if after < resolve z t * second then .ok (resolve z t * second)
  else search z e after limit t.nextSecond
termination_by (limit.secs + 1 - t.secs).toNat
decreasing_by
  · exact search_decreases (by assumption) t.lt_nextMonth
  · exact search_decreases (by assumption) t.lt_nextDay
  · exact search_decreases (by assumption) t.lt_nextHour
  · exact search_decreases (by assumption) t.lt_nextMinute
  · exact search_decreases (by assumption) (by simp)
  · exact search_decreases (by assumption) (by simp)

/-- The second at which the search starts: the first after `after`. -/
def startOf (after : Instant) : Int := after / second + 1

def next (z : Zone) (e : Expression) (after : Instant) : Except Err Instant :=
  let limit := civilOf (z.wall ((after + searchLimit * second) / second))
  search z e after limit (civilOf (z.wall (startOf after)))

/-! ## Fires -/

/-- **The rule for the days**: of two restricted fields either decides, and otherwise both have to hold the day. -/
def DayMatches (e : Expression) (d : Cal.Date) : Prop :=
  if e.domRestricted = true ∧ e.dowRestricted = true then isSet e.dom d.day = true ∨ isSet e.dow d.weekday = true
  else isSet e.dom d.day = true ∧ isSet e.dow d.weekday = true

/-- The wall time matches the six fields. -/
structure Matches (e : Expression) (c : Civil) : Prop where
  month  : isSet e.month c.month = true
  day    : DayMatches e c.toDate
  hour   : isSet e.hour c.hour = true
  minute : isSet e.minute c.min = true
  second : isSet e.second c.sec = true

instance (e : Expression) (d : Cal.Date) : Decidable (DayMatches e d) := by
  unfold DayMatches
  infer_instance

instance (e : Expression) (c : Civil) : Decidable (Matches e c) :=
  decidable_of_iff (isSet e.month c.month = true ∧ DayMatches e c.toDate ∧ isSet e.hour c.hour = true ∧
      isSet e.minute c.min = true ∧ isSet e.second c.sec = true)
    ⟨fun h => ⟨h.1, h.2.1, h.2.2.1, h.2.2.2.1, h.2.2.2.2⟩, fun h => ⟨h.month, h.day, h.hour, h.minute, h.second⟩⟩

/-- **The fire instants of an expression in a zone.** -/
def Fires (z : Zone) (e : Expression) : Set Instant :=
  {f | ∃ c u, Matches e c ∧ z.Due c.secs u ∧ f = u * GoJob.second}

/-- A day field that is not restricted holds every day. -/
structure Flagged (e : Expression) : Prop where
  dom : e.domRestricted = false → ∀ d, 1 ≤ d → d ≤ 31 → isSet e.dom d = true
  dow : e.dowRestricted = false → ∀ d, d < 7 → isSet e.dow d = true

theorem matchesDay_iff {e : Expression} (h : Flagged e) (d : Cal.Date) : matchesDay e d = true ↔ DayMatches e d := by
  have hdom := fun hr => h.dom hr d.day d.day_pos d.day_le_31
  have hdow := fun hr => h.dow hr d.weekday d.weekday_lt
  unfold matchesDay DayMatches
  cases h₁ : e.domRestricted with
  | true =>
    cases h₂ : e.dowRestricted with
    | true => simp
    | false => simp [hdow h₂]
  | false =>
    cases h₂ : e.dowRestricted with
    | true => simp [hdom h₁]
    | false => simp [hdom h₁, hdow h₂]

/-! ## Resolving a wall time -/

variable {z : Zone} {e : Expression} {c t : Civil} {u : Int}

theorem eq_civilOf_iff {s : Int} : c = civilOf s ↔ s = c.secs := by
  constructor
  · rintro rfl
    exact (secs_civilOf s).symm
  · rintro rfl
    exact (Civil.civilOf_secs c).symm

/-- **The bisection ends at the end of the gap.** -/
theorem gapEnd_due (h : ∀ v, z.wall v ≠ c.secs) : z.Due c.secs (gapEnd z c) := by
  have hlo := z.wall_bounds (c.secs - 48 * 3600)
  have hhi := z.wall_bounds (c.secs + 48 * 3600)
  have hprobe : ∀ x, c.secs - 48 * 3600 < x → x < c.secs + 48 * 3600 →
      (pure (c.after (civilOf (z.wall x))) : Id Bool) = pure (c.after (civilOf (z.wall x))) := fun _ _ _ => rfl
  obtain ⟨a, b, heq, -, hab, -, hd, ha, hb⟩ :=
    Bisect.bisect_pure Bisect.unit_width Bisect.true_dist hprobe (by omega)
  have hend : gapEnd z c = b := congrArg Prod.snd heq
  simp only [Civil.after_iff, secs_civilOf, Bool.eq_false_iff, ne_eq] at ha hb
  unfold Cal.day at hlo hhi
  have hwa : z.wall a < c.secs := by
    rcases ha with rfl | ha
    · omega
    · exact ha
  have hwb : c.secs < z.wall b := by
    rcases hb with rfl | hb
    · omega
    · exact lt_of_le_of_ne (by omega) (Ne.symm (h b))
  have hba : b - 1 = a := by omega
  rw [hend]
  exact Or.inr ⟨h, hba ▸ hwa, hwb⟩

/-- **Resolving a wall time gives the instant at which it is due.** -/
theorem resolve_due (z : Zone) (c : Civil) : z.Due c.secs (resolve z c) := by
  unfold resolve
  simp only [List.foldl_cons, List.foldl_nil, eq_civilOf_iff, Option.all_none, and_true]
  generalize hb : c.secs - z.off (c.secs - Cal.day) = before
  generalize ha : c.secs - z.off (c.secs + Cal.day) = later
  have hcand : ∀ {v}, z.wall v = c.secs → v = before ∨ v = later := fun hv => by
    have := Zone.eq_of_wall hv
    rwa [hb, ha] at this
  by_cases hwb : z.wall before = c.secs
  · rw [if_pos hwb]
    by_cases hwa : z.wall later = c.secs ∧ later < before
    · rw [if_pos (by simpa using hwa)]
      dsimp only
      refine Or.inl ⟨hwa.1, fun v hv hvc => ?_⟩
      have := hcand hvc
      omega
    · rw [if_neg (by simpa using hwa)]
      dsimp only
      refine Or.inl ⟨hwb, fun v hv hvc => ?_⟩
      rcases hcand hvc with rfl | rfl
      · omega
      · exact hwa ⟨hvc, hv⟩
  · rw [if_neg hwb]
    by_cases hwa : z.wall later = c.secs
    · rw [if_pos (by simpa using hwa)]
      dsimp only
      refine Or.inl ⟨hwa, fun v hv hvc => ?_⟩
      rcases hcand hvc with rfl | rfl
      · exact hwb hvc
      · omega
    · rw [if_neg (by simpa using hwa)]
      refine gapEnd_due fun v hvc => ?_
      rcases hcand hvc with rfl | rfl
      · exact hwb hvc
      · exact hwa hvc

/-- A wall time is shown by an instant, seconds or finer, if by a second. -/
theorem shows_iff {t : Instant} : civilOf (z.wall (t / second)) = c ↔ z.wall (t / second) = c.secs := by
  rw [eq_comm, eq_civilOf_iff]

/-- **A wall time resolves by the two rules of daylight saving**: to the first instant that shows it and, where none
does, to the first second whose wall clock is not before it, which is where the bisection ends. -/
theorem resolve_rules (z : Zone) (c : Civil) :
    ((∃ t : Instant, civilOf (z.wall (t / second)) = c) →
      IsLeast {t : Instant | civilOf (z.wall (t / second)) = c} (resolve z c * second)) ∧
    ((∀ t : Instant, civilOf (z.wall (t / second)) ≠ c) →
      IsLeast {u : Int | c.after (civilOf (z.wall u)) = false} (resolve z c) ∧ gapEnd z c = resolve z c) := by
  have hsec : ∀ u : Int, u * second / second = u := fun u => Int.mul_ediv_cancel u (by decide)
  have hreach := Zone.due_iff.1 (resolve_due z c)
  constructor
  · rintro ⟨t, ht⟩
    rcases resolve_due z c with ⟨hshown, -⟩ | ⟨hno, -⟩
    · refine ⟨?_, fun t' ht' => ?_⟩
      · show civilOf (z.wall (resolve z c * second / second)) = c
        rw [hsec, hshown, Civil.civilOf_secs]
      · have hle : resolve z c ≤ t' / second := by
          by_contra hlt
          have := hreach.2 (t' / second) (not_le.1 hlt)
          rw [shows_iff.1 ht'] at this
          exact lt_irrefl _ this
        exact (Int.le_ediv_iff_mul_le (by decide)).1 hle
    · exact absurd (shows_iff.1 ht) (hno _)
  · intro hno
    have hgap : ∀ v, z.wall v ≠ c.secs := by
      intro v hv
      refine hno (v * second) (shows_iff.2 ?_)
      rw [hsec, hv]
    refine ⟨⟨?_, fun u hu => ?_⟩, (gapEnd_due hgap).unique (resolve_due z c)⟩
    · show c.after _ = false
      rw [Bool.eq_false_iff, ne_eq, Civil.after_iff, secs_civilOf]
      exact not_lt.2 hreach.1
    · have hu : c.after (civilOf (z.wall u)) = false := hu
      rw [Bool.eq_false_iff, ne_eq, Civil.after_iff, secs_civilOf] at hu
      by_contra hlt
      exact hu (hreach.2 u (not_le.1 hlt))

/-! ## The walk -/

/-- The step the loop takes from a wall time: it leaves the first field that does not match. -/
def advance (e : Expression) (t : Civil) : Civil :=
  if !isSet e.month t.month then t.nextMonth
  else if !matchesDay e t.toDate then t.nextDay
  else if !isSet e.hour t.hour then t.nextHour
  else if !isSet e.minute t.min then t.nextMinute
  else t.nextSecond

theorem lt_advance (e : Expression) (t : Civil) : t.secs < (advance e t).secs := by
  unfold advance
  split_ifs
  · exact t.lt_nextMonth
  · exact t.lt_nextDay
  · exact t.lt_nextHour
  · exact t.lt_nextMinute
  · simp

/-- **A step passes over no wall time that matches.** -/
theorem advance_le (hf : Flagged e) (hc : Matches e c) (hlt : t.secs < c.secs) : (advance e t).secs ≤ c.secs := by
  have ht := le_of_lt hlt
  unfold advance
  split_ifs with hmonth hday hhour hminute
  · refine not_lt.1 fun hpast => ?_
    rw [← Civil.month_eq ht hpast, hc.month] at hmonth
    cases hmonth
  · refine not_lt.1 fun hpast => ?_
    rw [← Civil.date_eq ht hpast, (matchesDay_iff hf _).2 hc.day] at hday
    cases hday
  · refine not_lt.1 fun hpast => ?_
    rw [← (Civil.hour_eq ht hpast).2, hc.hour] at hhour
    cases hhour
  · refine not_lt.1 fun hpast => ?_
    rw [← (Civil.min_eq ht hpast).2.2, hc.minute] at hminute
    cases hminute
  · rw [Civil.secs_nextSecond]
    omega

/-! ## The search -/

/-- A wall time the search has to stop at. -/
def Stops (z : Zone) (e : Expression) (after : Instant) (c : Civil) : Prop :=
  Matches e c ∧ after < resolve z c * second

theorem search_stops (hf : Flagged e) {after : Instant} {limit : Civil} (hlimit : t.after limit = false)
    (hs : Stops z e after t) : search z e after limit t = .ok (resolve z t * second) := by
  obtain ⟨hm, hdue⟩ := hs
  unfold search
  rw [if_neg (by simp [hlimit]), if_neg (by simp [hm.month]), if_neg (by simp [(matchesDay_iff hf _).2 hm.day]),
    if_neg (by simp [hm.hour]), if_neg (by simp [hm.minute]), if_neg (by simp [hm.second]), if_pos hdue]

theorem search_advance (hf : Flagged e) {after : Instant} {limit : Civil} (hlimit : t.after limit = false)
    (hs : ¬ Stops z e after t) : search z e after limit t = search z e after limit (advance e t) := by
  rw [search.eq_def, advance, if_neg (by simp [hlimit])]
  split_ifs with hmonth hday hhour hminute hsecond hdue
  all_goals try rfl
  -- every field matches
  simp only [Bool.not_eq_true', Bool.not_eq_false] at hmonth hday hhour hminute hsecond
  exact absurd ⟨⟨hmonth, (matchesDay_iff hf _).1 hday, hhour, hminute, hsecond⟩, hdue⟩ hs

/-- **The search stops at the first wall time that matches and is due later than `after`.** -/
theorem search_eq (hf : Flagged e) {after : Instant} {limit : Civil} (hc : Stops z e after c) (ht : t.secs ≤ c.secs)
    (hlimit : c.secs ≤ limit.secs) (hmin : ∀ c', Stops z e after c' → t.secs ≤ c'.secs → c.secs ≤ c'.secs) :
    search z e after limit t = .ok (resolve z c * second) := by
  induction hn : (c.secs - t.secs).toNat using Nat.strong_induction_on generalizing t with
  | _ n ih =>
    have hafter : t.after limit = false := by
      rw [Bool.eq_false_iff, ne_eq, Civil.after_iff]
      omega
    rcases ht.eq_or_lt with heq | hlt
    · obtain rfl := Civil.secs_injective heq
      exact search_stops hf hafter hc
    · -- no wall time before `c` stops the search, and the step does not pass `c`
      have hns : ¬ Stops z e after t := fun hs => not_lt.2 (hmin t hs (le_refl _)) hlt
      have hlater := lt_advance e t
      rw [search_advance hf hafter hns]
      exact ih _ (by omega) (advance_le hf hc.1 hlt) (fun c' h' hle => hmin c' h' (by omega)) rfl

end Cron
end GoJob
