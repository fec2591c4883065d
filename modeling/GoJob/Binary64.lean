import Mathlib
/-!
# Binary64 — the nearest double to a rational number

A finite double is an integer below `2^53` in absolute value times a power of two that is at least `2^-1074`, and it is
below `2^1024`; the two zeros are one value here.  Rounding keeps 53 bits: it divides by the value of the last bit that
is kept (`ulp`), rounds to an integer, a tie to the even one, and multiplies back.  No double is nearer
(`round_nearest`), so a number that is a double stays as it is (`round_eq_self_iff`).
-/
namespace Binary64

variable {q d : ℚ}

/-- The values of the finite doubles. -/
def IsDouble (q : ℚ) : Prop := |q| < 2 ^ 1024 ∧ ∃ m e : ℤ, |m| < 2 ^ 53 ∧ -1074 ≤ e ∧ q = m * 2 ^ e

theorem isDouble_intCast {n : ℤ} (h : |n| < 2 ^ 53) : IsDouble n := by
  refine ⟨?_, n, 0, h, by decide, by simp⟩
  have h : |(n : ℚ)| < 2 ^ 53 := by exact_mod_cast h
  exact h.trans (pow_lt_pow_right₀ one_lt_two (by norm_num))

/-! ## To an integer -/

/-- The nearest integer, and of two the even one. -/
def roundEven (x : ℚ) : ℤ :=
  if x - ⌊x⌋ < 1 / 2 ∨ (x - ⌊x⌋ = 1 / 2 ∧ Even ⌊x⌋) then ⌊x⌋ else ⌊x⌋ + 1

theorem roundEven_cases (x : ℚ) :
    (roundEven x = ⌊x⌋ ∧ x - ⌊x⌋ ≤ 1 / 2) ∨ (roundEven x = ⌊x⌋ + 1 ∧ 1 / 2 ≤ x - ⌊x⌋) := by
  unfold roundEven
  split
  · rename_i h
    exact .inl ⟨rfl, h.elim le_of_lt (fun h => h.1.le)⟩
  · rename_i h
    exact .inr ⟨rfl, not_lt.1 (fun hlt => h (.inl hlt))⟩

theorem roundEven_nearest (x : ℚ) (z : ℤ) : |x - roundEven x| ≤ |x - z| := by
  have hlo := Int.floor_le x
  have hhi := Int.lt_floor_add_one x
  -- no integer lies strictly between the floor and the next one
  rcases le_or_gt z ⌊x⌋ with hz | hz
  · have hz : (z : ℚ) ≤ ⌊x⌋ := by exact_mod_cast hz
    rw [abs_of_nonneg (by linarith : 0 ≤ x - z)]
    rcases roundEven_cases x with ⟨h, hx⟩ | ⟨h, hx⟩ <;> rw [h, abs_le] <;> push_cast <;> constructor <;> linarith
  · have hz : (⌊x⌋ : ℚ) + 1 ≤ z := by exact_mod_cast hz
    rw [abs_of_nonpos (by linarith : x - z ≤ 0)]
    rcases roundEven_cases x with ⟨h, hx⟩ | ⟨h, hx⟩ <;> rw [h, abs_le] <;> push_cast <;> constructor <;> linarith

theorem abs_roundEven_le {x : ℚ} {n : ℤ} (h : |x| < n) : |roundEven x| ≤ n := by
  obtain ⟨hlo, hhi⟩ := abs_lt.1 h
  have hf : -n ≤ ⌊x⌋ := Int.le_floor.2 (by push_cast; exact hlo.le)
  have hg : ⌊x⌋ < n := Int.floor_lt.2 hhi
  rw [abs_le]
  rcases roundEven_cases x with ⟨h, -⟩ | ⟨h, -⟩ <;> rw [h] <;> omega

/-! ## To a double -/

/-- The exponent of the last bit that is kept. -/
def ulp (q : ℚ) : ℤ := max (-1074) (Int.log 2 |q| - 52)

/-- The nearest double, if the exponents had no upper bound. -/
def round (q : ℚ) : ℚ := roundEven (q / 2 ^ ulp q) * 2 ^ ulp q

theorem abs_lt_ulp (q : ℚ) : |q| < 2 ^ 53 * 2 ^ ulp q := by
  have hlog : Int.log 2 |q| + 1 ≤ 53 + ulp q := by
    have := le_max_right (-1074) (Int.log 2 |q| - 52)
    unfold ulp
    omega
  calc |q| < 2 ^ (Int.log 2 |q| + 1) := by exact_mod_cast Int.lt_zpow_succ_log_self Nat.one_lt_two |q|
    _ ≤ 2 ^ (53 + ulp q) := zpow_le_zpow_right₀ one_le_two hlog
    _ = 2 ^ 53 * 2 ^ ulp q := by rw [zpow_add₀ two_ne_zero]; norm_cast

theorem isDouble_round (h : |round q| < 2 ^ 1024) : IsDouble (round q) := by
  have hpos : (0 : ℚ) < 2 ^ ulp q := by positivity
  have hn : |roundEven (q / 2 ^ ulp q)| ≤ 2 ^ 53 := by
    refine abs_roundEven_le ?_
    rw [abs_div, abs_of_pos hpos, div_lt_iff₀ hpos]
    exact_mod_cast abs_lt_ulp q
  refine ⟨h, ?_⟩
  rcases hn.lt_or_eq with hn | hn
  · exact ⟨_, ulp q, hn, le_max_left .., rfl⟩
  · -- the rounding carried into the next power of two
    have carry : ∀ n : ℤ, |n| = 2 ^ 53 → ∃ m : ℤ, |m| < 2 ^ 53 ∧ n = m * 2 := by
      intro n hn
      rcases (abs_eq (by positivity)).1 hn with rfl | rfl
      · exact ⟨2 ^ 52, by norm_num, by norm_num⟩
      · exact ⟨-2 ^ 52, by norm_num, by norm_num⟩
    obtain ⟨m, hm, hmn⟩ := carry _ hn
    refine ⟨m, ulp q + 1, hm, (le_max_left (-1074) _).trans (Int.le_add_one le_rfl), ?_⟩
    rw [round, hmn, zpow_add_one₀ two_ne_zero]
    push_cast
    ring

/-- Nothing on the grid that is rounded to is nearer. -/
theorem round_nearest_grid (q : ℚ) (n : ℤ) : |q - round q| ≤ |q - n * 2 ^ ulp q| := by
  have hpos : (0 : ℚ) < 2 ^ ulp q := by positivity
  have scale : ∀ z : ℤ, |q - z * 2 ^ ulp q| = |q / 2 ^ ulp q - z| * 2 ^ ulp q := by
    intro z
    rw [← abs_of_pos hpos, ← abs_mul, abs_of_pos hpos, sub_mul, div_mul_cancel₀ _ hpos.ne']
  rw [round, scale, scale]
  exact mul_le_mul_of_nonneg_right (roundEven_nearest _ n) hpos.le

/-- Above the subnormal numbers, 53 bits reach up to the power of two that begins the number's binade. -/
theorem binade_le (hq : q ≠ 0) (h : -1074 < ulp q) : 2 ^ 52 * 2 ^ ulp q ≤ |q| := by
  have hulp : ulp q = Int.log 2 |q| - 52 := by
    unfold ulp at h ⊢
    exact max_eq_right (by omega)
  have hlog : (2 : ℚ) ^ Int.log 2 |q| ≤ |q| := by
    exact_mod_cast Int.zpow_log_le_self Nat.one_lt_two (abs_pos.2 hq)
  rwa [hulp, zpow_sub₀ two_ne_zero, mul_div_assoc', show (2 : ℚ) ^ (52 : ℤ) = 2 ^ 52 by norm_cast,
    mul_div_cancel_left₀ _ (by positivity)]

theorem abs_le_of_finer {m e : ℤ} (hm : |m| < 2 ^ 53) (he : e < ulp q) : |(m : ℚ) * 2 ^ e| ≤ 2 ^ 52 * 2 ^ ulp q := by
  have hm : |(m : ℚ)| ≤ 2 ^ 53 := by exact_mod_cast hm.le
  have hpow : (2 : ℚ) ^ e ≤ 2 ^ (ulp q - 1) := zpow_le_zpow_right₀ one_le_two (by omega)
  calc |(m : ℚ) * 2 ^ e| = |(m : ℚ)| * 2 ^ e := by rw [abs_mul, abs_of_pos (by positivity : (0 : ℚ) < 2 ^ e)]
    _ ≤ 2 ^ 53 * 2 ^ (ulp q - 1) := by gcongr
    _ = 2 ^ 52 * 2 ^ ulp q := by rw [zpow_sub_one₀ two_ne_zero]; ring

/-- **No double is nearer.** -/
theorem round_nearest (hd : IsDouble d) : |q - round q| ≤ |q - d| := by
  rcases eq_or_ne q 0 with rfl | hq
  · simp [round, roundEven]
  obtain ⟨-, m, e, hm, he, rfl⟩ := hd
  rcases le_or_gt (ulp q) e with hle | hlt
  · -- a coarser double lies on the grid
    obtain ⟨k, hk⟩ := Int.le.dest hle
    have hgrid : (m : ℚ) * 2 ^ e = ((m * 2 ^ k : ℤ) : ℚ) * 2 ^ ulp q := by
      rw [← hk, zpow_add₀ two_ne_zero, zpow_natCast]
      push_cast
      ring
    rw [hgrid]
    exact round_nearest_grid q _
  · -- a finer one lies below the beginning of the binade, which is on the grid
    have hlarge := binade_le hq (lt_of_le_of_lt he hlt)
    have hsmall := abs_le_of_finer hm hlt
    have htri : |q| - |(m : ℚ) * 2 ^ e| ≤ |q - m * 2 ^ e| := abs_sub_abs_le_abs_sub ..
    refine le_trans ?_ htri
    rcases lt_or_gt_of_ne hq with hneg | hpos
    · refine (round_nearest_grid q (-2 ^ 52)).trans ?_
      rw [abs_of_neg hneg] at hlarge ⊢
      rw [abs_of_nonpos (by push_cast; linarith)]
      push_cast
      linarith
    · refine (round_nearest_grid q (2 ^ 52)).trans ?_
      rw [abs_of_pos hpos] at hlarge ⊢
      rw [abs_of_nonneg (by push_cast; linarith)]
      push_cast
      linarith

theorem round_eq_self (hq : IsDouble q) : round q = q := by
  have h := round_nearest (q := q) hq
  rw [sub_self, abs_zero, abs_nonpos_iff, sub_eq_zero] at h
  exact h.symm

/-- A number in range is one that does not round to `2^1024` or beyond. -/
def InRange (q : ℚ) : Prop := |round q| < 2 ^ 1024

instance (q : ℚ) : Decidable (InRange q) := inferInstanceAs (Decidable (_ < _))

/-- **A number in range is its nearest double exactly if it is a double.** -/
theorem round_eq_self_iff (h : InRange q) : round q = q ↔ IsDouble q := by
  refine ⟨fun heq => ?_, round_eq_self⟩
  rw [← heq]
  exact isDouble_round h

end Binary64
