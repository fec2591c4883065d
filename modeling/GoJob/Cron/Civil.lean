import GoJob.Zone
import GoJob.Calendar
/-!
# Cron.Civil — wall-clock values (`civil` in `cron/cron.go`)

A wall time without a zone, and the steps by which the search walks over it.  Wall times are in order, one for each
second (`Civil.secs`, `civilOf`); a step to the next minute, hour, day or month passes over the wall times of this one.
-/
namespace GoJob
namespace Cron

structure Civil extends Cal.Date where
  hour : Nat
  min  : Nat
  sec  : Nat
  hour_lt : hour < 24
  min_lt  : min < 60
  sec_lt  : sec < 60
  deriving DecidableEq

namespace Civil

/-- `utc().Unix()`. -/
def secs (c : Civil) : Int := c.days * Cal.day + (c.hour * 3600 + c.min * 60 + c.sec : Nat)

end Civil

/-- `civilOf`, of what a wall clock shows. -/
def civilOf (s : Int) : Civil where
  toDate := Cal.ofDays (s / Cal.day)
  hour := (s % Cal.day / 3600).toNat
  min := (s % Cal.day % 3600 / 60).toNat
  sec := (s % 60).toNat
  hour_lt := by unfold Cal.day; omega
  min_lt := by unfold Cal.day; omega
  sec_lt := by omega

@[simp] theorem secs_civilOf (s : Int) : (civilOf s).secs = s := by
  unfold Civil.secs civilOf
  simp only [Cal.days_ofDays]
  unfold Cal.day
  omega

namespace Civil

variable {c t : Civil}

theorem days_eq (c : Civil) : c.days = c.secs / Cal.day := by
  have h₁ := c.hour_lt
  have h₂ := c.min_lt
  have h₃ := c.sec_lt
  unfold secs Cal.day
  omega

theorem secs_injective (h : c.secs = t.secs) : c = t := by
  have hd : c.toDate = t.toDate := Cal.Date.days_injective (by rw [days_eq, days_eq, h])
  obtain ⟨d, h₁, m₁, s₁, _, _, _⟩ := c
  obtain ⟨d', h₂, m₂, s₂, _, _, _⟩ := t
  dsimp only at hd
  subst hd
  unfold secs at h
  dsimp only at h
  congr 1 <;> omega

@[simp] theorem civilOf_secs (c : Civil) : civilOf c.secs = c := secs_injective (secs_civilOf _)

/-! ## Order -/

def after (c o : Civil) : Bool :=
  if c.year ≠ o.year then decide (o.year < c.year)
  else if c.month ≠ o.month then decide (o.month < c.month)
  else if c.day ≠ o.day then decide (o.day < c.day)
  else if c.hour ≠ o.hour then decide (o.hour < c.hour)
  else if c.min ≠ o.min then decide (o.min < c.min)
  else decide (o.sec < c.sec)

/-- **`after` compares the seconds.** -/
theorem after_iff : c.after t = true ↔ t.secs < c.secs := by
  have h₁ := c.hour_lt
  have h₂ := c.min_lt
  have h₃ := c.sec_lt
  have h₄ := t.hour_lt
  have h₅ := t.min_lt
  have h₆ := t.sec_lt
  unfold after
  rcases c.toDate.eq_or_before t.toDate with hd | hd | hd
  · have hdays : c.days = t.days := by rw [hd]
    rw [if_neg (by simp [hd]), if_neg (by simp [hd]), if_neg (by simp [hd])]
    unfold secs
    rw [hdays]
    split_ifs <;> simp only [decide_eq_true_eq] <;> omega
  · have hlt := hd.days_lt
    have hno : ¬ t.secs < c.secs := by
      unfold secs Cal.day
      omega
    simp only [hno, iff_false]
    unfold Cal.Date.Before at hd
    split_ifs <;> simp only [decide_eq_true_eq] <;> omega
  · have hlt := hd.days_lt
    have hyes : t.secs < c.secs := by
      unfold secs Cal.day
      omega
    simp only [hyes, iff_true]
    unfold Cal.Date.Before at hd
    split_ifs <;> simp only [decide_eq_true_eq] <;> omega

end Civil

/-! ## Steps -/

/-- The first of the next month. -/
def rollMonth (d : Cal.Date) : Cal.Date :=
  if hm : 12 < d.month + 1 then ⟨d.year + 1, 1, 1, by omega, by omega, by omega, (by decide : 1 ≤ 31)⟩
  else ⟨d.year, d.month + 1, 1, by omega, by omega, by omega, le_trans (by decide) (Cal.monthLength_le _ _).1⟩

/-- `rollDay`, of the date. -/
def rollDate (d : Cal.Date) : Cal.Date :=
  if h : Cal.daysIn d.month d.year < d.day + 1 then rollMonth d
  else ⟨d.year, d.month, d.day + 1, d.month_pos, d.month_le, by omega, by omega⟩

theorem rollDate_eq (d : Cal.Date) : (rollDate d).days = d.days + 1 := by
  have h₁ : d.day ≤ Cal.monthLength (Cal.isLeap d.year) d.month := d.day_le
  have h₂ := d.day_pos
  have h₃ := d.month_pos
  have h₄ := d.month_le
  unfold rollDate rollMonth Cal.Date.days Cal.Date.yearDay Cal.daysIn
  split
  · rename_i hlast
    split
    · have hm : d.month = 12 := by omega
      have hdec := Cal.daysBeforeMonth_december (Cal.isLeap d.year)
      have hjan : Cal.daysBeforeMonth (Cal.isLeap (d.year + 1)) 1 = 0 := by
        cases Cal.isLeap (d.year + 1) <;> rfl
      dsimp only
      rw [Cal.daysBeforeYear_succ, hjan]
      rw [hm] at h₁ hlast ⊢
      omega
    · have hsucc := Cal.daysBeforeMonth_succ (Cal.isLeap d.year) d.month_pos (by omega)
      dsimp only
      rw [hsucc]
      omega
  · dsimp only
    omega

/-- The dates before the next month's first are in this month. -/
theorem rollMonth_spec {d e : Cal.Date} (h : d.days ≤ e.days) (hlt : e.days < (rollMonth d).days) :
    e.year = d.year ∧ e.month = d.month := by
  have hge : ¬ e.Before d := fun hb => by
    have := hb.days_lt
    omega
  have hb : e.Before (rollMonth d) := Cal.Date.before_iff.2 hlt
  have h₁ := d.month_le
  have h₂ := e.month_le
  have h₃ := e.month_pos
  have h₄ := e.day_pos
  unfold Cal.Date.Before at hge hb
  unfold rollMonth at hb
  split at hb <;> dsimp only at hb <;> omega

theorem lt_rollMonth (d : Cal.Date) : d.days < (rollMonth d).days := by
  refine Cal.Date.Before.days_lt ?_
  unfold Cal.Date.Before rollMonth
  split <;> dsimp only <;> omega

namespace Civil

variable {c t : Civil}

def rollDay (c : Civil) : Civil := { c with toDate := rollDate c.toDate }

def rollHour (c : Civil) : Civil :=
  if h : 23 < c.hour + 1 then rollDay { c with hour := 0, hour_lt := by omega }
  else { c with hour := c.hour + 1, hour_lt := by omega }

def rollMinute (c : Civil) : Civil :=
  if h : 59 < c.min + 1 then rollHour { c with min := 0, min_lt := by omega }
  else { c with min := c.min + 1, min_lt := by omega }

def nextSecond (c : Civil) : Civil :=
  if h : 59 < c.sec + 1 then rollMinute { c with sec := 0, sec_lt := by omega }
  else { c with sec := c.sec + 1, sec_lt := by omega }

def nextMinute (c : Civil) : Civil := rollMinute { c with sec := 0, sec_lt := by omega }

def nextHour (c : Civil) : Civil := rollHour { c with sec := 0, min := 0, sec_lt := by omega, min_lt := by omega }

def nextDay (c : Civil) : Civil :=
  rollDay { c with sec := 0, min := 0, hour := 0, sec_lt := by omega, min_lt := by omega, hour_lt := by omega }

def nextMonth (c : Civil) : Civil :=
  { toDate := rollMonth c.toDate, sec := 0, min := 0, hour := 0, sec_lt := by omega, min_lt := by omega,
    hour_lt := by omega }

theorem secs_rollDay (c : Civil) : c.rollDay.secs = c.secs + 86400 := by
  unfold rollDay secs
  dsimp only
  rw [rollDate_eq]
  unfold Cal.day
  omega

theorem secs_rollHour (c : Civil) : c.rollHour.secs = c.secs + 3600 := by
  have := c.hour_lt
  unfold rollHour
  split
  · rw [secs_rollDay]
    unfold secs
    dsimp only
    omega
  · unfold secs
    dsimp only
    omega

theorem secs_rollMinute (c : Civil) : c.rollMinute.secs = c.secs + 60 := by
  have := c.min_lt
  unfold rollMinute
  split
  · rw [secs_rollHour]
    unfold secs
    dsimp only
    omega
  · unfold secs
    dsimp only
    omega

@[simp] theorem secs_nextSecond (c : Civil) : c.nextSecond.secs = c.secs + 1 := by
  have := c.sec_lt
  unfold nextSecond
  split
  · rw [secs_rollMinute]
    unfold secs
    dsimp only
    omega
  · unfold secs
    dsimp only
    omega

@[simp] theorem secs_nextMinute (c : Civil) : c.nextMinute.secs = c.secs - c.sec + 60 := by
  unfold nextMinute
  rw [secs_rollMinute]
  unfold secs
  dsimp only
  omega

@[simp] theorem secs_nextHour (c : Civil) : c.nextHour.secs = c.secs - (c.min * 60 + c.sec : Nat) + 3600 := by
  unfold nextHour
  rw [secs_rollHour]
  unfold secs
  dsimp only
  omega

@[simp] theorem secs_nextDay (c : Civil) :
    c.nextDay.secs = c.secs - (c.hour * 3600 + c.min * 60 + c.sec : Nat) + 86400 := by
  unfold nextDay
  rw [secs_rollDay]
  unfold secs
  dsimp only
  omega

theorem secs_nextMonth (c : Civil) : c.nextMonth.secs = (rollMonth c.toDate).days * Cal.day := by
  unfold nextMonth secs
  simp

/-! ## What a step passes over -/

theorem date_eq (h : t.secs ≤ c.secs) (hlt : c.secs < t.nextDay.secs) : c.toDate = t.toDate := by
  have hd : c.days = t.days := by
    rw [secs_nextDay] at hlt
    rw [days_eq, days_eq]
    have h₁ := t.hour_lt
    have h₂ := t.min_lt
    have h₃ := t.sec_lt
    unfold secs Cal.day at *
    omega
  exact Cal.Date.days_injective hd

theorem month_eq (h : t.secs ≤ c.secs) (hlt : c.secs < t.nextMonth.secs) : c.month = t.month := by
  rw [secs_nextMonth] at hlt
  have h₁ : t.days ≤ c.days := by
    rw [days_eq, days_eq]
    exact Int.ediv_le_ediv (by decide) h
  have h₂ : c.days < (rollMonth t.toDate).days := by
    rw [days_eq]
    exact Int.ediv_lt_of_lt_mul (by decide) hlt
  exact (rollMonth_spec h₁ h₂).2

theorem hour_eq (h : t.secs ≤ c.secs) (hlt : c.secs < t.nextHour.secs) : c.toDate = t.toDate ∧ c.hour = t.hour := by
  have h₁ := t.hour_lt
  have h₂ := t.min_lt
  have h₃ := t.sec_lt
  have hd : c.toDate = t.toDate := date_eq h (by simp only [secs_nextHour, secs_nextDay] at *; omega)
  have h₄ := c.min_lt
  have h₅ := c.sec_lt
  have hdays : c.days = t.days := by rw [hd]
  refine ⟨hd, ?_⟩
  rw [secs_nextHour] at hlt
  unfold secs at h hlt
  rw [hdays] at h hlt
  omega

theorem min_eq (h : t.secs ≤ c.secs) (hlt : c.secs < t.nextMinute.secs) :
    c.toDate = t.toDate ∧ c.hour = t.hour ∧ c.min = t.min := by
  have h₁ := t.hour_lt
  have h₂ := t.min_lt
  have h₃ := t.sec_lt
  obtain ⟨hd, hh⟩ := hour_eq h (by simp only [secs_nextHour, secs_nextMinute] at *; omega)
  have h₅ := c.sec_lt
  have hdays : c.days = t.days := by rw [hd]
  refine ⟨hd, hh, ?_⟩
  rw [secs_nextMinute] at hlt
  unfold secs at h hlt
  rw [hdays, hh] at h hlt
  omega

theorem lt_nextMinute (t : Civil) : t.secs < t.nextMinute.secs := by
  have := t.sec_lt
  rw [secs_nextMinute]
  omega

theorem lt_nextHour (t : Civil) : t.secs < t.nextHour.secs := by
  have := t.sec_lt
  have := t.min_lt
  rw [secs_nextHour]
  omega

theorem lt_nextDay (t : Civil) : t.secs < t.nextDay.secs := by
  have := t.sec_lt
  have := t.min_lt
  have := t.hour_lt
  rw [secs_nextDay]
  omega

theorem lt_nextMonth (t : Civil) : t.secs < t.nextMonth.secs := by
  rw [secs_nextMonth]
  have h₁ := lt_rollMonth t.toDate
  have h₂ := t.sec_lt
  have h₃ := t.min_lt
  have h₄ := t.hour_lt
  unfold secs Cal.day
  omega

end Civil
end Cron
end GoJob
