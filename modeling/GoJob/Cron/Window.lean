import GoJob.Fires
import GoJob.Cron.Fire
/-!
# Cron.Window — the last fire and the number of fires (`cron/window.go`)

Both go forwards only: the last fire is found by bisection and the number by counting, with nothing but `Next`.  They
are exact if `Next` is, for fires on whole seconds.
-/
namespace GoJob
namespace Cron

open Cal (Zone)

variable {nxt : Instant → Except Err Instant} {F : Set Instant}

/-- `hi.Sub(lo)`, of a later instant and an earlier one: a `Duration` has 64 bits. -/
def sub (lo hi : Int) : Int := min (hi - lo) (2 ^ 63 - 1)

theorem sub_le (lo hi : Int) : sub lo hi ≤ hi - lo := min_le_left _ _

/-- `Latest`; `none` is `ok = false`. -/
def latest (nxt : Instant → Except Err Instant) (t horizon : Instant) : Except Err (Option Instant) := do
  let lo := t - horizon - 1
  let first ← nxt lo
  if t < first then return none
  let ends ← Bisect.bisect (w := second) (by decide) sub_le (fun mid => do let n ← nxt mid; return !decide (t < n)) lo t
  let last ← nxt ends.1
  return some last

/-- The loop of `CountBetween`, with `k` rounds to go. -/
def countLoop (nxt : Instant → Except Err Instant) (t : Instant) : Nat → Instant → Nat → Except Err (Nat × Bool)
  | 0, cur, n => do
    let next ← nxt cur
    return (n, decide (t < next))
  | k + 1, cur, n => do
    let next ← nxt cur
    if t < next then return (n, true)
    countLoop nxt t k next (n + 1)

def countBetween (nxt : Instant → Except Err Instant) (s t : Instant) (limit : Nat) : Except Err (Nat × Bool) :=
  countLoop nxt t limit s 0

/-! ## The last fire -/

section
variable {t horizon : Int}

/-- `Next` is exact in the window. -/
def Exact (nxt : Instant → Except Err Instant) (F : Set Instant) (a b : Int) : Prop :=
  ∀ s, a ≤ s → s ≤ b → ∃ n, nxt s = .ok n ∧ IsLeast {f ∈ F | s < f} n

theorem latest_of_late {first : Int} (hfirst : nxt (t - horizon - 1) = .ok first) (hlate : t < first) :
    latest nxt t horizon = .ok none := by
  unfold latest
  dsimp only
  rw [hfirst]
  show (if t < first then _ else _) = _
  rw [if_pos hlate]
  rfl

/-- The next fire behind `x` is not behind `t`. -/
def early (nxt : Instant → Except Err Instant) (t x : Int) : Bool :=
  match nxt x with
  | .ok n    => !decide (t < n)
  | .error _ => false

theorem early_iff {x n : Int} (h : nxt x = .ok n) : early nxt t x = true ↔ n ≤ t := by
  unfold early
  rw [h]
  simp

/-- A fire in the window: the bisection ends at two ends with the last one between them, a second apart at most. -/
theorem latest_of_fire {first : Int} (hwhole : ∀ f ∈ F, f % second = 0) (hh : 0 ≤ horizon)
    (hnext : Exact nxt F (t - horizon - 1) t) (hfirst : nxt (t - horizon - 1) = .ok first) (hle : first ≤ t) :
    ∃ last, latest nxt t horizon = .ok (some last) ∧ IsGreatest (F ∩ Set.Icc (t - horizon) t) last := by
  have hprobe : ∀ x, t - horizon - 1 < x → x < t →
      (do let n ← nxt x; return !decide (t < n) : Except Err Bool) = pure (early nxt t x) := by
    intro x h₁ h₂
    obtain ⟨n, hn, -⟩ := hnext x (by omega) (by omega)
    unfold early
    rw [hn]
    rfl
  obtain ⟨a, b, heq, hloa, hab, hbhi, hd, ha, hb⟩ :=
    Bisect.bisect_pure (w := second) (by decide) sub_le hprobe (by omega)
  obtain ⟨last, hlast, ⟨hF, halast⟩, -⟩ := hnext a hloa (by omega)
  obtain ⟨m, hm, -, hmleast⟩ := hnext b (by omega) hbhi
  have hearly : last ≤ t := by
    rcases ha with rfl | ha
    · cases hfirst.symm.trans hlast
      exact hle
    · exact (early_iff hlast).1 ha
  -- Behind the upper end there is no fire in the window.
  have hnone : ∀ f ∈ F, f ≤ t → f ≤ b := by
    intro f hf hft
    by_contra hlt
    rcases hb with rfl | hb
    · exact hlt hft
    · rw [Bool.eq_false_iff, ne_eq, early_iff hm] at hb
      exact hb (le_trans (hmleast ⟨hf, not_le.1 hlt⟩) hft)
  have hclose : b - a ≤ 1000000000 := by
    unfold sub second at hd
    omega
  refine ⟨last, ?_, ⟨hF, ?_, hearly⟩, ?_⟩
  · unfold latest
    dsimp only
    rw [hfirst]
    show (if t < first then _ else _) = _
    rw [if_neg (not_lt.2 hle)]
    show (Bisect.bisect _ _ _ _ _ >>= _) = _
    rw [heq]
    show (nxt a >>= _) = _
    rw [hlast]
    rfl
  · have : a < last := halast
    show t - horizon ≤ last
    omega
  · -- Two fires in the last second would be the same.
    rintro f ⟨hf, -, hft⟩
    have key : ∀ l f : Int, l % 1000000000 = 0 → f % 1000000000 = 0 → a < l → f ≤ b → f ≤ l := by omega
    exact key last f (hwhole last hF) (hwhole f hf) halast (hnone f hf hft)

/-- **The last fire is found or there is none**, whatever the horizon. -/
theorem latest_cases (hwhole : ∀ f ∈ F, f % second = 0)
    (hlo : ∃ n, nxt (t - horizon - 1) = .ok n ∧ IsLeast {f ∈ F | t - horizon - 1 < f} n)
    (hnext : Exact nxt F (t - horizon - 1) t) :
    (latest nxt t horizon = .ok none ∧ F ∩ Set.Icc (t - horizon) t = ∅) ∨
      ∃ last, latest nxt t horizon = .ok (some last) ∧ IsGreatest (F ∩ Set.Icc (t - horizon) t) last := by
  obtain ⟨first, hfirst, ⟨hF, hlt⟩, hleast⟩ := hlo
  by_cases hlate : t < first
  · refine Or.inl ⟨latest_of_late hfirst hlate, ?_⟩
    rw [Set.eq_empty_iff_forall_notMem]
    rintro f ⟨hf, h₁, h₂⟩
    exact absurd (le_trans (hleast ⟨hf, Int.sub_one_lt_iff.2 h₁⟩) h₂) (not_le.2 hlate)
  · have key : ∀ h f : Int, t - h - 1 < f → ¬ t < f → 0 ≤ h := by omega
    exact Or.inr (latest_of_fire hwhole (key horizon first hlt hlate) hnext hfirst (not_lt.1 hlate))

/-- **The last fire by bisection is exact**, if `Next` is exact in the window and fires are on whole seconds. -/
theorem latest_exact (hwhole : ∀ f ∈ F, f % second = 0) (hh : 0 ≤ horizon)
    (hnext : Exact nxt F (t - horizon - 1) t) :
    ∃ r, latest nxt t horizon = .ok r ∧ (∀ f, r = some f ↔ IsGreatest (F ∩ Set.Icc (t - horizon) t) f) ∧
      (r = none ↔ F ∩ Set.Icc (t - horizon) t = ∅) := by
  rcases latest_cases hwhole (hnext _ (le_refl _) (by omega)) hnext with ⟨hnone, hempty⟩ | ⟨last, hlast, hgreat⟩
  · refine ⟨none, hnone, fun f => ?_, by simp [hempty]⟩
    rw [hempty]
    simp [IsGreatest]
  · refine ⟨some last, hlast, fun f => ⟨fun h => Option.some.inj h ▸ hgreat, fun h => ?_⟩, ?_⟩
    · rw [h.unique hgreat]
    · simp only [reduceCtorEq, false_iff]
      exact (Set.nonempty_of_mem hgreat.1).ne_empty

theorem latest_exact_ten_seconds : ∃ r, latest everyTen.next (25 * second + 5) (7 * second) = .ok r ∧
    (∀ f, r = some f ↔
      IsGreatest ({f | tenSeconds ∣ f} ∩ Set.Icc (25 * second + 5 - 7 * second) (25 * second + 5)) f) ∧
    (r = none ↔ {f | tenSeconds ∣ f} ∩ Set.Icc (25 * second + 5 - 7 * second) (25 * second + 5) = ∅) :=
  latest_exact everyTen_fires.whole (by decide) fun _ _ _ => ⟨_, rfl, everyTen_fires.next rfl⟩

end

/-! ## The number of fires -/

/-- A fire in the window leaves one less behind it. -/
theorem ncard_fires {cur t n : Int} (hleast : IsLeast {f ∈ F | cur < f} n) (hle : n ≤ t) :
    (F ∩ Set.Ioc cur t).ncard = (F ∩ Set.Ioc n t).ncard + 1 := by
  have hset : F ∩ Set.Ioc cur t = insert n (F ∩ Set.Ioc n t) := by
    ext f
    simp only [Set.mem_inter_iff, Set.mem_Ioc, Set.mem_insert_iff]
    constructor
    · rintro ⟨hf, h₁, h₂⟩
      rcases lt_or_eq_of_le (hleast.2 ⟨hf, h₁⟩) with h | h
      · exact Or.inr ⟨hf, h, h₂⟩
      · exact Or.inl h.symm
    · rintro (rfl | ⟨hf, h₁, h₂⟩)
      · exact ⟨hleast.1.1, hleast.1.2, hle⟩
      · exact ⟨hf, lt_trans hleast.1.2 h₁, h₂⟩
  have hfin : (F ∩ Set.Ioc n t).Finite := (Set.finite_Ioc n t).inter_of_right F
  rw [hset, Set.ncard_insert_of_notMem (fun h => lt_irrefl _ h.2.1) hfin]

/-- A fire behind the window leaves nothing in it. -/
theorem fires_empty {cur t n : Int} (hleast : IsLeast {f ∈ F | cur < f} n) (hlate : t < n) : F ∩ Set.Ioc cur t = ∅ := by
  rw [Set.eq_empty_iff_forall_notMem]
  rintro f ⟨hf, h₁, h₂⟩
  exact absurd (le_trans (hleast.2 ⟨hf, h₁⟩) h₂) (not_le.2 hlate)

/-- The loop counts what lies in the window, and the probe behind it sees whether anything is left. -/
theorem countLoop_exact (hnext : ∀ s, ∃ n, nxt s = .ok n ∧ IsLeast {f ∈ F | s < f} n) (t : Int) (k n : Nat)
    (cur : Int) : countLoop nxt t k cur n =
      .ok (n + min k (F ∩ Set.Ioc cur t).ncard, decide ((F ∩ Set.Ioc cur t).ncard ≤ k)) := by
  induction k generalizing cur n with
  | zero =>
    obtain ⟨next, hn, hleast⟩ := hnext cur
    unfold countLoop
    rw [hn]
    show Except.ok (n, decide (t < next)) = _
    by_cases hlate : t < next
    · simp [fires_empty hleast hlate, hlate]
    · simp [ncard_fires hleast (not_lt.1 hlate), hlate]
  | succ k ih =>
    obtain ⟨next, hn, hleast⟩ := hnext cur
    unfold countLoop
    rw [hn]
    show (if t < next then Except.ok (n, true) else countLoop nxt t k next (n + 1)) = _
    by_cases hlate : t < next
    · simp [fires_empty hleast hlate, hlate]
    · rw [if_neg hlate, ih, ncard_fires hleast (not_lt.1 hlate), Nat.add_min_add_right]
      simp only [Nat.add_le_add_iff_right]
      rw [Nat.add_assoc, Nat.add_comm 1]

/-- **The count is exact up to its limit**, and says whether the limit cut it off. -/
theorem countBetween_exact (hnext : ∀ s, ∃ n, nxt s = .ok n ∧ IsLeast {f ∈ F | s < f} n) (s t : Instant) (limit : Nat) :
    ∃ n exact, countBetween nxt s t limit = .ok (n, exact) ∧ n = min limit (F ∩ Set.Ioc s t).ncard ∧
      (exact = true ↔ (F ∩ Set.Ioc s t).ncard ≤ limit) :=
  ⟨_, _, countLoop_exact hnext t limit 0 s, Nat.zero_add _, decide_eq_true_iff⟩

theorem countBetween_exact_ten_seconds : ∃ n exact,
    countBetween everyTen.next (5 * second) (40 * second) 4 = .ok (n, exact) ∧
      n = min 4 ({f | tenSeconds ∣ f} ∩ Set.Ioc (5 * second) (40 * second)).ncard ∧
      (exact = true ↔ ({f | tenSeconds ∣ f} ∩ Set.Ioc (5 * second) (40 * second)).ncard ≤ 4) :=
  countBetween_exact (fun _ => ⟨_, rfl, everyTen_fires.next rfl⟩) _ _ _

/-! ## Schedules -/

/-- An expression in a zone, as the store uses it. -/
def schedule (z : Zone) (e : Expression) : Schedule where
  next := next z e
  latest := latest (next z e)
  countBetween := countBetween (next z e)

/-- **An expression is a schedule of its fire instants** in a zone whose clock does not jump over a match, or lands on
one. -/
theorem schedule_fires {expr : String} {e : Expression} {z : Zone} (h : parse expr = .ok e)
    (hjump : ∀ after, JumpedOver z e after → Matches e (civilOf (z.wall (startOf after)))) :
    (schedule z e).Fires (Fires z e) := by
  have htotal : ∀ s, ∃ n, next z e s = .ok n ∧ IsLeast {f ∈ Fires z e | s < f} n := fun s => next_least h (hjump s)
  have hnext : ∀ {s n}, next z e s = .ok n → IsLeast {f ∈ Fires z e | s < f} n := by
    intro s n hn
    obtain ⟨n', hn', hleast⟩ := htotal s
    cases hn.symm.trans hn'
    exact hleast
  have hwhole : ∀ f ∈ Fires z e, f % second = 0 := by
    rintro f ⟨c, u, -, -, rfl⟩
    exact Int.mul_emod_left u second
  refine ⟨hwhole, hnext, fun hc => ?_, fun {t horizon f} hl => ?_⟩
  · cases hc.symm.trans (countLoop_exact htotal _ _ _ _)
    exact Nat.zero_add _
  · rcases latest_cases hwhole (htotal (t - horizon - 1)) (fun s _ _ => htotal s) with
      ⟨hnone, -⟩ | ⟨last, hlast, hgreat⟩
    · cases hnone.symm.trans hl
    · cases hl.symm.trans hlast
      exact hgreat

end Cron
end GoJob
