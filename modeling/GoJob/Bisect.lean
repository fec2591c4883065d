import Mathlib.Tactic.Linarith
/-!
# Bisect — bisection with fallible probes

The loop narrows an interval whose lower end has a property and whose upper end has not, until the distance of the two
is small enough.  The distance may be less than the real one (a saturating difference), and a probe runs in any monad.
-/
namespace Bisect

variable {m : Type → Type} [Monad m] {w : Int} {dist : Int → Int → Int} {lo hi : Int}

/-- Narrow `lo`, `hi` down to the distance `w`: a probe that holds becomes the lower end. -/
def bisect (hw : 1 ≤ w) (hd : ∀ lo hi, dist lo hi ≤ hi - lo) (probe : Int → m Bool) (lo hi : Int) : m (Int × Int) :=
  if w < dist lo hi then do
    if ← probe (lo + dist lo hi / 2) then bisect hw hd probe (lo + dist lo hi / 2) hi
    else bisect hw hd probe lo (lo + dist lo hi / 2)
  else pure (lo, hi)
termination_by (hi - lo).toNat
decreasing_by
  · have := hd lo hi
    omega
  · have := hd lo hi
    omega

/-- A loop over whole numbers, down to neighbours. -/
theorem unit_width : (1 : Int) ≤ 1 := le_refl 1

theorem true_dist (lo hi : Int) : hi - lo ≤ hi - lo := le_refl (hi - lo)

/-- **The ends keep their properties**, if the probes in between do not fail. -/
theorem bisect_pure [LawfulMonad m] (hw : 1 ≤ w) (hd : ∀ lo hi, dist lo hi ≤ hi - lo) {probe : Int → m Bool}
    {q : Int → Bool} (hp : ∀ x, lo < x → x < hi → probe x = pure (q x)) (hlt : lo < hi) :
    ∃ a b, bisect hw hd probe lo hi = pure (a, b) ∧ lo ≤ a ∧ a < b ∧ b ≤ hi ∧ dist a b ≤ w ∧
      (a = lo ∨ q a = true) ∧ (b = hi ∨ q b = false) := by
  induction hn : (hi - lo).toNat using Nat.strong_induction_on generalizing lo hi with
  | _ n ih =>
    have hle := hd lo hi
    unfold bisect
    by_cases hfar : w < dist lo hi
    · have hmid₁ : lo < lo + dist lo hi / 2 := by omega
      have hmid₂ : lo + dist lo hi / 2 < hi := by omega
      rw [if_pos hfar, hp _ hmid₁ hmid₂, pure_bind]
      cases hq : q (lo + dist lo hi / 2) with
      | true =>
        obtain ⟨a, b, heq, h₁, h₂, h₃, h₄, h₅, h₆⟩ :=
          ih (hi - (lo + dist lo hi / 2)).toNat (by omega) (fun x h₁ h₂ => hp x (by omega) h₂) hmid₂ rfl
        refine ⟨a, b, heq, by omega, h₂, h₃, h₄, Or.inr ?_, h₆⟩
        exact h₅.elim (fun h => h ▸ hq) id
      | false =>
        obtain ⟨a, b, heq, h₁, h₂, h₃, h₄, h₅, h₆⟩ :=
          ih ((lo + dist lo hi / 2) - lo).toNat (by omega) (fun x h₁ h₂ => hp x h₁ (by omega)) hmid₁ rfl
        refine ⟨a, b, heq, h₁, h₂, by omega, h₄, h₅, Or.inr ?_⟩
        exact h₆.elim (fun h => h ▸ hq) id
    · rw [if_neg hfar]
      exact ⟨lo, hi, rfl, by omega, hlt, by omega, by omega, Or.inl rfl, Or.inl rfl⟩

end Bisect
