import GoJob.Cron.Fire
/-!
# Cron.Walk — the walk over plain fields (`civil` in `cron/cron.go`)

The source keeps a wall time in six integers that nothing ties together, and its steps carry from one to the next by
hand.  From a valid wall time they reach valid ones only, and are the steps of `Civil`.  The walk therefore visits later
and later wall times, and the first that matches is the least that does.
-/
namespace GoJob
namespace Cron

/-- `civil`, as the source has it. -/
structure RawCivil where
  year  : Int
  month : Int
  day   : Int
  hour  : Int
  min   : Int
  sec   : Int
  deriving DecidableEq, Repr

namespace RawCivil

/-! ## The source's steps -/

/-- The year and the month `time.Date` makes of any two integers. -/
def normMonth (year month : Int) : Int × Nat := (year + (month - 1) / 12, ((month - 1) % 12 + 1).toNat)

/-- `daysIn`: the day before the first of the next month. -/
def daysIn (month year : Int) : Int := Cal.daysIn (normMonth year month).2 (normMonth year month).1

/-- `time.Date(year, month, day, ...).Weekday()`. -/
def weekday (year month day : Int) : Int :=
  let (y, m) := normMonth year month
  (Cal.daysBeforeYear y + (Cal.daysBeforeMonth (Cal.isLeap y) m + (day - 1)) - Cal.epoch + 4) % 7

def matchesDay (e : Expression) (year month day : Int) : Bool :=
  let dom := isSet e.dom day.toNat
  let dow := isSet e.dow (weekday year month day).toNat
  if e.domRestricted && e.dowRestricted then dom || dow
  else if e.domRestricted then dom
  else if e.dowRestricted then dow
  else true

def after (c o : RawCivil) : Bool :=
  if c.year ≠ o.year then decide (o.year < c.year)
  else if c.month ≠ o.month then decide (o.month < c.month)
  else if c.day ≠ o.day then decide (o.day < c.day)
  else if c.hour ≠ o.hour then decide (o.hour < c.hour)
  else if c.min ≠ o.min then decide (o.min < c.min)
  else decide (o.sec < c.sec)

def rollDay (c : RawCivil) : RawCivil :=
  if c.day + 1 > daysIn c.month c.year then
    if c.month + 1 > 12 then { c with day := 1, month := 1, year := c.year + 1 }
    else { c with day := 1, month := c.month + 1 }
  else { c with day := c.day + 1 }

def rollHour (c : RawCivil) : RawCivil :=
  if c.hour + 1 > 23 then rollDay { c with hour := 0 } else { c with hour := c.hour + 1 }

def rollMinute (c : RawCivil) : RawCivil :=
  if c.min + 1 > 59 then rollHour { c with min := 0 } else { c with min := c.min + 1 }

def nextSecond (c : RawCivil) : RawCivil :=
  if c.sec + 1 > 59 then rollMinute { c with sec := 0 } else { c with sec := c.sec + 1 }

def nextMinute (c : RawCivil) : RawCivil := rollMinute { c with sec := 0 }

def nextHour (c : RawCivil) : RawCivil := rollHour { c with sec := 0, min := 0 }

def nextDay (c : RawCivil) : RawCivil := rollDay { c with sec := 0, min := 0, hour := 0 }

def nextMonth (c : RawCivil) : RawCivil :=
  if c.month + 1 > 12 then { c with sec := 0, min := 0, hour := 0, day := 1, month := 1, year := c.year + 1 }
  else { c with sec := 0, min := 0, hour := 0, day := 1, month := c.month + 1 }

/-- The `switch` in the loop of `Next`; where every field matches and the loop goes on, it goes on by a second. -/
def advance (e : Expression) (t : RawCivil) : RawCivil :=
  if !isSet e.month t.month.toNat then t.nextMonth
  else if !matchesDay e t.year t.month t.day then t.nextDay
  else if !isSet e.hour t.hour.toNat then t.nextHour
  else if !isSet e.minute t.min.toNat then t.nextMinute
  else t.nextSecond

/-! ## Valid wall times -/

/-- A date of the Gregorian calendar and a time of the day. -/
structure Valid (c : RawCivil) : Prop where
  month : 1 ≤ c.month ∧ c.month ≤ 12
  day   : 1 ≤ c.day ∧ c.day ≤ Cal.daysIn c.month.toNat c.year
  hour  : 0 ≤ c.hour ∧ c.hour < 24
  min   : 0 ≤ c.min ∧ c.min < 60
  sec   : 0 ≤ c.sec ∧ c.sec < 60

end RawCivil

/-- The fields of a wall time. -/
def Civil.raw (c : Civil) : RawCivil := ⟨c.year, c.month, c.day, c.hour, c.min, c.sec⟩

variable {e : Expression} {c t : Civil} {r : RawCivil}

theorem Civil.valid_raw (c : Civil) : c.raw.Valid where
  month := ⟨Int.ofNat_le.2 c.month_pos, Int.ofNat_le.2 c.month_le⟩
  day := ⟨Int.ofNat_le.2 c.day_pos, Int.ofNat_le.2 c.day_le⟩
  hour := ⟨Int.natCast_nonneg _, Int.ofNat_lt.2 c.hour_lt⟩
  min := ⟨Int.natCast_nonneg _, Int.ofNat_lt.2 c.min_lt⟩
  sec := ⟨Int.natCast_nonneg _, Int.ofNat_lt.2 c.sec_lt⟩

/-- Valid fields are the fields of a wall time. -/
theorem RawCivil.Valid.exists_civil (h : r.Valid) : ∃ c : Civil, c.raw = r := by
  obtain ⟨year, month, day, hour, min, sec⟩ := r
  obtain ⟨⟨hm₁, hm₂⟩, ⟨hd₁, hd₂⟩, ⟨hh₁, hh₂⟩, ⟨hn₁, hn₂⟩, hs₁, hs₂⟩ := h
  dsimp only at *
  refine ⟨⟨⟨year, month.toNat, day.toNat, by omega, by omega, by omega, by omega⟩,
    hour.toNat, min.toNat, sec.toNat, by omega, by omega, by omega⟩, ?_⟩
  simp only [Civil.raw, RawCivil.mk.injEq]
  exact ⟨trivial, Int.toNat_of_nonneg (by omega), Int.toNat_of_nonneg (by omega), Int.toNat_of_nonneg hh₁,
    Int.toNat_of_nonneg hn₁, Int.toNat_of_nonneg hs₁⟩

/-! ## The steps are those of `Civil` -/

theorem normMonth_raw (c : Civil) : RawCivil.normMonth c.year c.month = (c.year, c.month) := by
  have h₁ := c.month_pos
  have h₂ := c.month_le
  unfold RawCivil.normMonth
  rw [Prod.mk.injEq]
  omega

theorem daysIn_raw (c : Civil) : RawCivil.daysIn c.month c.year = Cal.daysIn c.month c.year := by
  unfold RawCivil.daysIn
  rw [normMonth_raw]

theorem weekday_raw (c : Civil) : (RawCivil.weekday c.year c.month c.day).toNat = c.weekday := by
  have := c.day_pos
  unfold RawCivil.weekday
  rw [normMonth_raw]
  unfold Cal.Date.weekday Cal.Date.days Cal.Date.yearDay
  dsimp only
  push_cast
  rw [Nat.cast_sub this]
  rfl

theorem matchesDay_raw (e : Expression) (c : Civil) :
    RawCivil.matchesDay e c.year c.month c.day = matchesDay e c.toDate := by
  unfold RawCivil.matchesDay matchesDay
  rw [weekday_raw, Int.toNat_natCast]

theorem after_raw (c t : Civil) : c.raw.after t.raw = c.after t := by
  simp only [RawCivil.after, Civil.after, Civil.raw, ne_eq, Int.natCast_inj, Int.ofNat_lt]
  split_ifs <;> rfl

theorem rollDay_raw (c : Civil) : c.raw.rollDay = c.rollDay.raw := by
  have hdays : RawCivil.daysIn c.raw.month c.raw.year = Cal.daysIn c.month c.year := daysIn_raw c
  have hday : c.raw.day = c.day := rfl
  have hmonth : c.raw.month = c.month := rfl
  unfold RawCivil.rollDay Civil.rollDay rollDate rollMonth
  by_cases hlast : Cal.daysIn c.month c.year < c.day + 1
  · rw [dif_pos hlast, if_pos (by omega)]
    by_cases hdec : 12 < c.month + 1
    · rw [dif_pos hdec, if_pos (by omega)]
      rfl
    · rw [dif_neg hdec, if_neg (by omega)]
      rfl
  · rw [dif_neg hlast, if_neg (by omega)]
    rfl

theorem rollHour_raw (c : Civil) : c.raw.rollHour = c.rollHour.raw := by
  have hhour : c.raw.hour = c.hour := rfl
  unfold RawCivil.rollHour Civil.rollHour
  by_cases h : 23 < c.hour + 1
  · rw [dif_pos h, if_pos (by omega)]
    exact rollDay_raw { c with hour := 0, hour_lt := by omega }
  · rw [dif_neg h, if_neg (by omega)]
    rfl

theorem rollMinute_raw (c : Civil) : c.raw.rollMinute = c.rollMinute.raw := by
  have hmin : c.raw.min = c.min := rfl
  unfold RawCivil.rollMinute Civil.rollMinute
  by_cases h : 59 < c.min + 1
  · rw [dif_pos h, if_pos (by omega)]
    exact rollHour_raw { c with min := 0, min_lt := by omega }
  · rw [dif_neg h, if_neg (by omega)]
    rfl

theorem nextSecond_raw (c : Civil) : c.raw.nextSecond = c.nextSecond.raw := by
  have hsec : c.raw.sec = c.sec := rfl
  unfold RawCivil.nextSecond Civil.nextSecond
  by_cases h : 59 < c.sec + 1
  · rw [dif_pos h, if_pos (by omega)]
    exact rollMinute_raw { c with sec := 0, sec_lt := by omega }
  · rw [dif_neg h, if_neg (by omega)]
    rfl

theorem nextMonth_raw (c : Civil) : c.raw.nextMonth = c.nextMonth.raw := by
  have hmonth : c.raw.month = c.month := rfl
  unfold RawCivil.nextMonth Civil.nextMonth rollMonth
  by_cases hdec : 12 < c.month + 1
  · rw [dif_pos hdec, if_pos (by omega)]
    rfl
  · rw [dif_neg hdec, if_neg (by omega)]
    rfl

/-- **The walk over plain fields is the walk over wall times.** -/
theorem advance_raw (e : Expression) (c : Civil) : c.raw.advance e = (advance e c).raw := by
  have hmonth : c.raw.month.toNat = c.month := Int.toNat_natCast _
  have hhour : c.raw.hour.toNat = c.hour := Int.toNat_natCast _
  have hmin : c.raw.min.toNat = c.min := Int.toNat_natCast _
  have hday : RawCivil.matchesDay e c.raw.year c.raw.month c.raw.day = matchesDay e c.toDate := matchesDay_raw e c
  unfold RawCivil.advance advance
  rw [hmonth, hhour, hmin, hday]
  split_ifs
  · exact nextMonth_raw c
  · exact rollDay_raw
      { c with sec := 0, min := 0, hour := 0, sec_lt := by omega, min_lt := by omega, hour_lt := by omega }
  · exact rollHour_raw { c with sec := 0, min := 0, sec_lt := by omega, min_lt := by omega }
  · exact rollMinute_raw { c with sec := 0, sec_lt := by omega }
  · exact nextSecond_raw c

theorem iterate_advance_raw (e : Expression) (c : Civil) (n : Nat) :
    (RawCivil.advance e)^[n] c.raw = ((advance e)^[n] c).raw := by
  induction n generalizing c with
  | zero => rfl
  | succ n ih => rw [Function.iterate_succ_apply, Function.iterate_succ_apply, advance_raw, ih]

/-! ## The walk -/

/-- **The walk stops at the first match**: before it gets there nothing matches. -/
theorem exists_iterate_eq (hf : Flagged e) (hc : Matches e c) (ht : t.secs ≤ c.secs)
    (hmin : ∀ c', Matches e c' → t.secs ≤ c'.secs → c.secs ≤ c'.secs) :
    ∃ n, (advance e)^[n] t = c ∧ ∀ m < n, ¬ Matches e ((advance e)^[m] t) := by
  induction hn : (c.secs - t.secs).toNat using Nat.strong_induction_on generalizing t with
  | _ n ih =>
    rcases ht.eq_or_lt with heq | hlt
    · exact ⟨0, Civil.secs_injective heq, fun m hm => absurd hm (Nat.not_lt_zero m)⟩
    · have hlater := lt_advance e t
      obtain ⟨k, hk, hnone⟩ := ih _ (by omega) (advance_le hf hc hlt) (fun c' h' hle => hmin c' h' (by omega)) rfl
      refine ⟨k + 1, hk, fun m hm => ?_⟩
      cases m with
      | zero => exact fun hm => not_lt.2 (hmin t hm (le_refl _)) hlt
      | succ m => exact hnone m (by omega)

/-- The fields match an expression. -/
def RawCivil.Matches (e : Expression) (r : RawCivil) : Prop := ∃ c : Civil, c.raw = r ∧ Cron.Matches e c

theorem Civil.raw_injective (h : c.raw = t.raw) : c = t := by
  have hnot : ∀ {c t : Civil}, c.raw = t.raw → ¬ t.secs < c.secs := by
    intro c t h hlt
    rw [← Civil.after_iff, ← after_raw, h, after_raw, Civil.after_iff] at hlt
    exact lt_irrefl _ hlt
  exact Civil.secs_injective (le_antisymm (not_lt.1 (hnot h)) (not_lt.1 (hnot h.symm)))

theorem matches_raw : c.raw.Matches e ↔ Matches e c := by
  constructor
  · rintro ⟨c', heq, hm⟩
    exact Civil.raw_injective heq ▸ hm
  · exact fun hm => ⟨c, rfl, hm⟩

/-- From any wall time on there is a least match. -/
theorem exists_least_match {expr : String} (h : parse expr = .ok e) (t : Civil) :
    ∃ c, Matches e c ∧ t.secs ≤ c.secs ∧ ∀ c', Matches e c' → t.secs ≤ c'.secs → c.secs ≤ c'.secs := by
  obtain ⟨texts, -, htexts, hok⟩ := parse_inv h
  obtain ⟨c₀, hm₀, hle₀, -⟩ := exists_matches htexts ((rejectUnsatisfiable_ok_iff htexts).1 hok) t.secs
  obtain ⟨s, ⟨c, rfl, hc, hle⟩, hmin⟩ := Int.exists_least_of_bdd
    (P := fun s => ∃ c : Civil, c.secs = s ∧ Matches e c ∧ t.secs ≤ c.secs)
    ⟨t.secs, fun s ⟨c, hs, _, hle⟩ => hs ▸ hle⟩ ⟨c₀.secs, c₀, rfl, hm₀, hle₀⟩
  exact ⟨c, hc, hle, fun c' h' hle' => hmin c'.secs ⟨c', rfl, h', hle'⟩⟩

theorem flagged_of_parse {expr : String} (h : parse expr = .ok e) : Flagged e := by
  obtain ⟨texts, -, htexts, -⟩ := parse_inv h
  exact flagged htexts

/-- **The calendar walk skips no match.**  From valid fields it visits only valid ones, each later than the one before,
and the first that matches is the least match from the start on. -/
theorem walk_skips_no_match {expr : String} (h : parse expr = .ok e) {s : RawCivil} (hs : s.Valid) :
    (∀ n, ((RawCivil.advance e)^[n] s).Valid) ∧
    (∀ n, ((RawCivil.advance e)^[n + 1] s).after ((RawCivil.advance e)^[n] s) = true) ∧
    ∃ n, ((RawCivil.advance e)^[n] s).Matches e ∧ (∀ m < n, ¬ ((RawCivil.advance e)^[m] s).Matches e) ∧
      ∀ c : RawCivil, c.Valid → c.Matches e → s.after c = false → ((RawCivil.advance e)^[n] s).after c = false := by
  obtain ⟨t, rfl⟩ := hs.exists_civil
  simp only [iterate_advance_raw, matches_raw]
  refine ⟨fun n => Civil.valid_raw _, fun n => ?_, ?_⟩
  · rw [after_raw, Civil.after_iff, Function.iterate_succ_apply']
    exact lt_advance e _
  · obtain ⟨c, hc, hle, hmin⟩ := exists_least_match h t
    obtain ⟨n, rfl, hnone⟩ := exists_iterate_eq (flagged_of_parse h) hc hle hmin
    refine ⟨n, hc, hnone, fun r hr hm hfrom => ?_⟩
    obtain ⟨c', rfl⟩ := hr.exists_civil
    rw [after_raw, Bool.eq_false_iff, ne_eq, Civil.after_iff, not_lt] at hfrom ⊢
    exact hmin c' (matches_raw.1 hm) hfrom

/-- The 29th of February, from the first of March 1999 on. -/
theorem walk_skips_no_match_leap_day : ∃ e, parse "0 0 0 29 2 *" = .ok e ∧
    ∃ n, ((RawCivil.advance e)^[n] ⟨1999, 3, 1, 0, 0, 0⟩).Matches e := by
  have hok : (parse "0 0 0 29 2 *").toOption.isSome = true := by decide +kernel
  cases he : parse "0 0 0 29 2 *" with
  | error d => rw [he] at hok; cases hok
  | ok e =>
    have hs : RawCivil.Valid ⟨1999, 3, 1, 0, 0, 0⟩ := by constructor <;> decide
    obtain ⟨n, hm, -⟩ := (walk_skips_no_match he hs).2.2
    exact ⟨e, rfl, n, hm⟩

end Cron
end GoJob
