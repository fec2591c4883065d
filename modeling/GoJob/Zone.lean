import Mathlib.Data.Int.LeastGreatest
import Mathlib.Tactic.Linarith
/-!
# Zone — wall clocks of a time zone

A zone gives every instant an offset, and its wall clock shows the instant moved by it.  Offsets are below a day, and
two transitions are at least four days apart.  A wall time is shown once, twice or not at all; in each case it has one
instant at which it is due (`Due`): the first that shows it, or the one at which the gap that holds it ends.  That is
the first instant whose wall clock has reached it (`due_iff`).
-/
namespace Cal

/-- The seconds of a day. -/
def day : Int := 86400

/-- A time zone: offsets in seconds east of UTC, of instants in seconds. -/
structure Zone where
  off    : Int → Int
  small  : ∀ u, -day < off u ∧ off u < day
  sparse : ∀ {s t}, s < t → off (s - 1) ≠ off s → off (t - 1) ≠ off t → 4 * day ≤ t - s

namespace Zone

variable {z : Zone} {c u v : Int}

/-- What the wall clock shows. -/
def wall (z : Zone) (u : Int) : Int := u + z.off u

theorem wall_bounds (z : Zone) (u : Int) : u - day < z.wall u ∧ z.wall u < u + day := by
  have := z.small u
  unfold wall
  omega

/-- **When a wall time is due**: the first instant that shows it or, in a gap, the end of the gap. -/
def Due (z : Zone) (c u : Int) : Prop :=
  (z.wall u = c ∧ ∀ v < u, z.wall v ≠ c) ∨ ((∀ v, z.wall v ≠ c) ∧ z.wall (u - 1) < c ∧ c < z.wall u)

/-- The wall clock reaches `c` for the first time. -/
def Reaches (z : Zone) (c u : Int) : Prop := c ≤ z.wall u ∧ ∀ v < u, z.wall v < c

theorem exists_reaches (z : Zone) (c : Int) : ∃ u, z.Reaches c u := by
  obtain ⟨u, hu, hmin⟩ := Int.exists_least_of_bdd (P := fun u => c ≤ z.wall u)
    ⟨c - day, fun u hu => by have := z.wall_bounds u; omega⟩ ⟨c + day, by have := z.wall_bounds (c + day); omega⟩
  refine ⟨u, hu, fun v hv => ?_⟩
  by_contra hle
  have := hmin v (by omega)
  omega

theorem Reaches.unique (hu : z.Reaches c u) (hv : z.Reaches c v) : u = v := by
  rcases lt_trichotomy u v with h | h | h
  · have := hv.2 u h
    have := hu.1
    omega
  · exact h
  · have := hu.2 v h
    have := hv.1
    omega

/-- A later wall time is not reached earlier. -/
theorem Reaches.mono {c' : Int} (hu : z.Reaches c u) (hv : z.Reaches c' v) (h : c ≤ c') : u ≤ v := by
  by_contra hlt
  have := hu.2 v (by omega)
  have := hv.1
  omega

/-- Offsets change by transitions only. -/
theorem off_eq_of_const {a b : Int} (hab : a ≤ b) (h : ∀ t, a < t → t ≤ b → z.off (t - 1) = z.off t) :
    z.off b = z.off a := by
  obtain ⟨n, rfl⟩ := Int.le.dest hab
  induction n with
  | zero => simp
  | succ n ih =>
    have hstep := h (a + (n + 1 : Nat)) (by omega) (by omega)
    have heq : a + ((n + 1 : Nat) : Int) - 1 = a + n := by omega
    rw [← hstep, heq]
    exact ih (by omega) fun t h₁ h₂ => h t h₁ (by omega)

/-- **A window of four days has two offsets at most**: that of its begin and that of its end. -/
theorem off_window {a b : Int} (hab : b - a ≤ 4 * day) (hu : a ≤ u) (hub : u ≤ b) :
    z.off u = z.off a ∨ z.off u = z.off b := by
  by_contra hne
  push Not at hne
  have before : ∃ t, a < t ∧ t ≤ u ∧ z.off (t - 1) ≠ z.off t := by
    by_contra hno
    push Not at hno
    exact hne.1 (off_eq_of_const hu hno)
  have after : ∃ t, u < t ∧ t ≤ b ∧ z.off (t - 1) ≠ z.off t := by
    by_contra hno
    push Not at hno
    exact hne.2 (off_eq_of_const hub hno).symm
  obtain ⟨s, hs₁, hs₂, hs⟩ := before
  obtain ⟨t, ht₁, ht₂, ht⟩ := after
  have := z.sparse (show s < t by omega) hs ht
  omega

/-- The end of a gap is a transition. -/
theorem off_ne_of_gap (h₁ : z.wall (u - 1) < c) (h₂ : c < z.wall u) : z.off (u - 1) ≠ z.off u := by
  unfold wall at h₁ h₂
  omega

/-- The wall clock reaches what is in a gap at its end. -/
theorem reaches_of_gap (h₁ : z.wall (u - 1) < c) (h₂ : c < z.wall u) : z.Reaches c u := by
  obtain ⟨r, hr⟩ := z.exists_reaches c
  have hru : r ≤ u := by
    by_contra hlt
    have := hr.2 u (by omega)
    omega
  have hle := hr.1
  rcases lt_or_eq_of_le hru with hlt | rfl
  · -- The wall clock would have gone back within two days of the gap.
    exfalso
    have hw := z.wall_bounds r
    have hw₁ := z.wall_bounds (u - 1)
    have hconst : z.off (u - 1) = z.off r := off_eq_of_const (by omega) fun t ht₁ ht₂ => by
      by_contra ht
      have := z.sparse (show t < u by omega) ht (off_ne_of_gap h₁ h₂)
      unfold day at *
      omega
    unfold wall at h₁ hle
    omega
  · exact hr

/-- **What is in a gap is never shown.** -/
theorem wall_ne_of_gap (hu : z.Reaches c u) (hne : z.wall u ≠ c) (v : Int) : z.wall v ≠ c := by
  have hcu : c < z.wall u := lt_of_le_of_ne hu.1 (Ne.symm hne)
  rcases lt_trichotomy v u with h | rfl | h
  · have := hu.2 v h
    omega
  · exact hne
  · -- The gap's end is the only transition around, so the wall clock goes on from there.
    intro hv
    have hgap := off_ne_of_gap (hu.2 (u - 1) (by omega)) hcu
    have hu' := z.wall_bounds u
    have hv' := z.wall_bounds v
    have hw := z.wall_bounds (u - 1)
    have hconst : z.off v = z.off u := off_eq_of_const (by omega) fun t h₁ h₂ => by
      by_contra ht
      have := z.sparse h₁ hgap ht
      have := hu.2 (u - 1) (by omega)
      unfold day at *
      omega
    unfold wall at hv hcu
    omega

/-- **A wall time is due when the wall clock reaches it first.** -/
theorem due_iff : z.Due c u ↔ z.Reaches c u := by
  obtain ⟨r, hr⟩ := z.exists_reaches c
  constructor
  · rintro (⟨hu, hmin⟩ | ⟨hno, h₁, h₂⟩)
    · have hshown : z.wall r = c := by
        by_contra hne
        exact wall_ne_of_gap hr hne u hu
      have hru : r = u := by
        rcases lt_trichotomy r u with h | h | h
        · exact absurd hshown (hmin r h)
        · exact h
        · have := hr.2 u h
          omega
      exact hru ▸ hr
    · -- Both `u` and `r` end a gap that holds `c`, and there is one transition around.
      have hcr : c < z.wall r := lt_of_le_of_ne hr.1 (Ne.symm (hno r))
      have hgu := off_ne_of_gap h₁ h₂
      have hgr := off_ne_of_gap (hr.2 (r - 1) (by omega)) hcr
      have hw := z.wall_bounds u
      have hw₁ := z.wall_bounds (u - 1)
      have hr' := z.wall_bounds r
      have hr₁ := z.wall_bounds (r - 1)
      have hlast := hr.2 (r - 1) (by omega)
      have hru : r = u := by
        rcases lt_trichotomy r u with h | h | h
        · have := z.sparse h hgr hgu
          unfold day at *
          omega
        · exact h
        · have := hr.2 u h
          omega
      exact hru ▸ hr
  · intro hu
    by_cases hc : z.wall u = c
    · exact Or.inl ⟨hc, fun v hv => by have := hu.2 v hv; omega⟩
    · exact Or.inr ⟨wall_ne_of_gap hu hc, hu.2 _ (by omega), lt_of_le_of_ne hu.1 (Ne.symm hc)⟩

theorem Due.unique (hu : z.Due c u) (hv : z.Due c v) : u = v := (due_iff.1 hu).unique (due_iff.1 hv)

/-- What shows a wall time has the offset of the day before it or of the day after it. -/
theorem eq_of_wall (h : z.wall u = c) : u = c - z.off (c - day) ∨ u = c - z.off (c + day) := by
  have hb := z.wall_bounds u
  have hw := off_window (z := z) (a := c - day) (b := c + day) (u := u) (by unfold day; omega) (by omega) (by omega)
  unfold wall at h
  omega

end Zone

/-- The zone of UTC. -/
def Zone.utc : Zone where
  off _ := 0
  small _ := by decide
  sparse _ h := absurd rfl h

end Cal
