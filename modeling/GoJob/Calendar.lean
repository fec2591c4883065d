import Mathlib.Data.Int.Order.Basic
import Mathlib.Data.List.Range
import Mathlib.Tactic.Linarith
/-!
# Calendar — Gregorian dates and day numbers

The proleptic Gregorian calendar: the dates are in order, one for each integer (`Date.days`, `ofDays`), counted from
1970-01-01.  A leap year is one of every eight years in a row.
-/
namespace Cal

/-- A year that has a 29th of February. -/
def isLeap (y : Int) : Bool := decide (y % 4 = 0) && (decide (y % 100 ≠ 0) || decide (y % 400 = 0))

theorem isLeap_iff {y : Int} : isLeap y = true ↔ y % 4 = 0 ∧ (y % 100 ≠ 0 ∨ y % 400 = 0) := by
  simp [isLeap]

/-- **Of eight years in a row one is a leap year**, also across a century that is none. -/
theorem exists_leap (y : Int) : ∃ k, y ≤ k ∧ k < y + 8 ∧ isLeap k = true := by
  -- The multiples of four among them are two, and at most one of them is a multiple of a hundred.
  by_cases h : isLeap ((y + 3) / 4 * 4) = true
  · exact ⟨_, by omega, by omega, h⟩
  · refine ⟨(y + 3) / 4 * 4 + 4, by omega, by omega, ?_⟩
    rw [isLeap_iff] at h ⊢
    omega

def monthLength (leap : Bool) : Nat → Nat
  | 2 => if leap then 29 else 28
  | 4 | 6 | 9 | 11 => 30
  | _ => 31

/-- The number of days of a month. -/
def daysIn (month : Nat) (year : Int) : Nat := monthLength (isLeap year) month

theorem monthLength_le (leap : Bool) (m : Nat) : 28 ≤ monthLength leap m ∧ monthLength leap m ≤ 31 := by
  unfold monthLength
  split <;> (try split) <;> omega

theorem monthLength_le_leap (leap : Bool) (m : Nat) : monthLength leap m ≤ monthLength true m := by
  unfold monthLength
  split <;> (try split) <;> simp

/-! ## Dates -/

structure Date where
  year  : Int
  month : Nat
  day   : Nat
  month_pos : 1 ≤ month
  month_le  : month ≤ 12
  day_pos   : 1 ≤ day
  day_le    : day ≤ daysIn month year
  deriving DecidableEq

theorem Date.day_le_31 (d : Date) : d.day ≤ 31 := le_trans d.day_le (monthLength_le _ _).2

/-- The days of the years before a year, from the year 1 on. -/
def daysBeforeYear (y : Int) : Int := 365 * (y - 1) + (y - 1) / 4 - (y - 1) / 100 + (y - 1) / 400

/-- The days of a year before a month. -/
def daysBeforeMonth (leap : Bool) (m : Nat) : Nat :=
  [0, 0, 31, 59, 90, 120, 151, 181, 212, 243, 273, 304, 334].getD m 0 + (if leap && decide (2 < m) then 1 else 0)

def yearLength (leap : Bool) : Nat := if leap then 366 else 365

theorem daysBeforeYear_succ (y : Int) : daysBeforeYear (y + 1) = daysBeforeYear y + yearLength (isLeap y) := by
  unfold daysBeforeYear yearLength
  by_cases h : isLeap y = true
  · rw [if_pos h]
    rw [isLeap_iff] at h
    omega
  · rw [if_neg h]
    rw [isLeap_iff] at h
    omega

theorem daysBeforeYear_lt {y z : Int} (h : y < z) : daysBeforeYear y + yearLength (isLeap y) ≤ daysBeforeYear z := by
  rw [← daysBeforeYear_succ]
  unfold daysBeforeYear
  omega

theorem daysBeforeMonth_le (leap : Bool) {m k : Nat} (hm : 1 ≤ m) (h : m < k) (hk : k ≤ 12) :
    daysBeforeMonth leap m + monthLength leap m ≤ daysBeforeMonth leap k := by
  have key : ∀ leap : Bool, ∀ k < 13, ∀ m < k, 1 ≤ m →
      daysBeforeMonth leap m + monthLength leap m ≤ daysBeforeMonth leap k := by decide
  exact key leap k (by omega) m h hm

theorem daysBeforeMonth_succ (leap : Bool) {m : Nat} (hm : 1 ≤ m) (h : m < 12) :
    daysBeforeMonth leap (m + 1) = daysBeforeMonth leap m + monthLength leap m := by
  have key : ∀ leap : Bool, ∀ m < 12, 1 ≤ m →
      daysBeforeMonth leap (m + 1) = daysBeforeMonth leap m + monthLength leap m := by decide
  exact key leap m h hm

theorem daysBeforeMonth_december (leap : Bool) : daysBeforeMonth leap 12 + monthLength leap 12 = yearLength leap := by
  cases leap <;> decide

theorem daysBeforeMonth_le_year (leap : Bool) {m : Nat} (hm : 1 ≤ m) (h : m ≤ 12) :
    daysBeforeMonth leap m + monthLength leap m ≤ yearLength leap := by
  have key : ∀ leap : Bool, ∀ m < 13, 1 ≤ m → daysBeforeMonth leap m + monthLength leap m ≤ yearLength leap := by
    decide
  exact key leap m (by omega) hm

/-- The day of the year, from 0. -/
def Date.yearDay (d : Date) : Nat := daysBeforeMonth (isLeap d.year) d.month + (d.day - 1)

theorem Date.yearDay_lt (d : Date) : d.yearDay < yearLength (isLeap d.year) := by
  have h₁ := daysBeforeMonth_le_year (isLeap d.year) d.month_pos d.month_le
  have h₂ : d.day ≤ monthLength (isLeap d.year) d.month := d.day_le
  have h₃ := d.day_pos
  unfold Date.yearDay
  omega

/-- The day number of 1970-01-01 is 0. -/
def epoch : Int := 719162

def Date.days (d : Date) : Int := daysBeforeYear d.year + d.yearDay - epoch

/-- Earlier in the calendar. -/
def Date.Before (d e : Date) : Prop :=
  d.year < e.year ∨ d.year = e.year ∧ (d.month < e.month ∨ d.month = e.month ∧ d.day < e.day)

/-- **Day numbers follow the calendar.** -/
theorem Date.Before.days_lt {d e : Date} (h : d.Before e) : d.days < e.days := by
  unfold Date.days
  rcases h with h | ⟨hy, h⟩
  · have h₁ := daysBeforeYear_lt h
    have h₂ := d.yearDay_lt
    omega
  · rw [hy]
    have hlt : d.yearDay < e.yearDay := by
      have h₁ : d.day ≤ monthLength (isLeap d.year) d.month := d.day_le
      have h₂ := d.day_pos
      unfold Date.yearDay
      rw [hy] at h₁ ⊢
      rcases h with h | ⟨hm, h⟩
      · have h₃ := daysBeforeMonth_le (isLeap e.year) d.month_pos h e.month_le
        omega
      · rw [hm]
        omega
    omega

theorem Date.eq_or_before (d e : Date) : d = e ∨ d.Before e ∨ e.Before d := by
  unfold Date.Before
  by_cases h : d.year = e.year ∧ d.month = e.month ∧ d.day = e.day
  · left
    obtain ⟨y, m, k, _, _, _, _⟩ := d
    obtain ⟨y', m', k', _, _, _, _⟩ := e
    obtain ⟨rfl, rfl, rfl⟩ := h
    rfl
  · right
    omega

theorem Date.before_iff {d e : Date} : d.Before e ↔ d.days < e.days := by
  refine ⟨Before.days_lt, fun h => ?_⟩
  rcases d.eq_or_before e with rfl | hb | hb
  · omega
  · exact hb
  · have := hb.days_lt
    omega

theorem Date.days_injective {d e : Date} (h : d.days = e.days) : d = e := by
  rcases d.eq_or_before e with rfl | hb | hb
  · rfl
  · have := hb.days_lt
    omega
  · have := hb.days_lt
    omega

/-! ## The date of a day number -/

/-- The year a day falls in, with the days counted from the year 1. -/
def yearOf (n : Int) : Int :=
  let y := 400 * n / 146097 + 1
  if daysBeforeYear (y + 1) ≤ n then y + 1 else y

theorem yearOf_spec (n : Int) : daysBeforeYear (yearOf n) ≤ n ∧ n < daysBeforeYear (yearOf n + 1) := by
  -- A guess by the mean length of a year is right or one short.
  have hlow : daysBeforeYear (400 * n / 146097 + 1) ≤ n := by unfold daysBeforeYear; omega
  have hhigh : n < daysBeforeYear (400 * n / 146097 + 1 + 1 + 1) := by unfold daysBeforeYear; omega
  unfold yearOf
  dsimp only
  split
  · rename_i h
    exact ⟨h, hhigh⟩
  · rename_i h
    exact ⟨hlow, by omega⟩

/-- The month of a day of the year. -/
def monthOf (leap : Bool) (yearDay : Nat) : Nat :=
  ((List.range' 2 11).filter fun m => decide (daysBeforeMonth leap m ≤ yearDay)).length + 1

theorem monthOf_spec {leap : Bool} {n : Nat} (h : n < yearLength leap) : 1 ≤ monthOf leap n ∧ monthOf leap n ≤ 12 ∧
    daysBeforeMonth leap (monthOf leap n) ≤ n ∧
    n < daysBeforeMonth leap (monthOf leap n) + monthLength leap (monthOf leap n) := by
  have key : ∀ leap : Bool, ∀ n < yearLength leap, 1 ≤ monthOf leap n ∧ monthOf leap n ≤ 12 ∧
      daysBeforeMonth leap (monthOf leap n) ≤ n ∧
      n < daysBeforeMonth leap (monthOf leap n) + monthLength leap (monthOf leap n) := by decide +kernel
  exact key leap n h

/-- The date of a day of the year. -/
def ofYearDay (y : Int) (n : Nat) (h : n < yearLength (isLeap y)) : Date where
  year := y
  month := monthOf (isLeap y) n
  day := n - daysBeforeMonth (isLeap y) (monthOf (isLeap y) n) + 1
  month_pos := (monthOf_spec h).1
  month_le := (monthOf_spec h).2.1
  day_pos := Nat.le_add_left 1 _
  day_le := by
    have h := (monthOf_spec h).2.2
    unfold daysIn
    omega

theorem yearDay_ofYearDay {y : Int} {n : Nat} (h : n < yearLength (isLeap y)) : (ofYearDay y n h).yearDay = n := by
  have h := (monthOf_spec h).2.2
  unfold Date.yearDay ofYearDay
  dsimp only
  omega

theorem yearDay_lt (n : Int) : (n - daysBeforeYear (yearOf n)).toNat < yearLength (isLeap (yearOf n)) := by
  have h := yearOf_spec n
  rw [daysBeforeYear_succ] at h
  omega

def ofDays (n : Int) : Date := ofYearDay (yearOf (n + epoch)) _ (yearDay_lt (n + epoch))

@[simp] theorem days_ofDays (n : Int) : (ofDays n).days = n := by
  have h := (yearOf_spec (n + epoch)).1
  unfold Date.days ofDays
  rw [yearDay_ofYearDay]
  show daysBeforeYear (yearOf (n + epoch)) + _ - epoch = n
  omega

@[simp] theorem ofDays_days (d : Date) : ofDays d.days = d := Date.days_injective (days_ofDays _)

/-- **Every date of a leap year comes within nine years**: from day `n` on, some `base` has the days of a month of a
leap year behind it. -/
theorem exists_leap_month {m : Nat} (hm : 1 ≤ m) (hm' : m ≤ 12) (n : Int) :
    ∃ base, n ≤ base ∧ base < n + 9 * 366 ∧ ∀ d, 1 ≤ d → d ≤ monthLength true m →
      ∃ x : Date, x.month = m ∧ x.day = d ∧ x.days = base + d := by
  obtain ⟨k, hk₁, hk₂, hleap⟩ := exists_leap (yearOf (n + epoch) + 1)
  have hy := yearOf_spec (n + epoch)
  have hlow : daysBeforeYear (yearOf (n + epoch) + 1) ≤ daysBeforeYear k := by
    unfold daysBeforeYear
    omega
  have hhigh : daysBeforeYear k ≤ daysBeforeYear (yearOf (n + epoch)) + 8 * 366 := by
    unfold daysBeforeYear
    omega
  have hyear := daysBeforeMonth_le_year true hm hm'
  have hlen := monthLength_le true m
  refine ⟨daysBeforeYear k + daysBeforeMonth true m - 1 - epoch, by omega, ?_, fun d hd hd' => ?_⟩
  · have : yearLength true = 366 := rfl
    omega
  · refine ⟨⟨k, m, d, hm, hm', hd, by unfold daysIn; rw [hleap]; exact hd'⟩, rfl, rfl, ?_⟩
    unfold Date.days Date.yearDay
    dsimp only
    rw [hleap]
    omega

/-- `0` for Sunday. -/
def Date.weekday (d : Date) : Nat := ((d.days + 4) % 7).toNat

theorem Date.weekday_lt (d : Date) : d.weekday < 7 := by
  unfold Date.weekday
  omega

end Cal
