import GoJob.Runs
/-!
# FencedLock — a lock whose owner is numbered

One lock, at most one holder, and an epoch that every change of ownership raises.  A holder is known by its token and
the epoch it was given; the pair is *current* while the lock shows both.  The epoch never falls and only a release
leaves it in place, so a pair that has stopped being current is spent for ever (`Guards.spent_of_lost`), with no
assumption on tokens, and the epochs handed out along a run are 1, 2, 3 and so on (`Numbers.grants`).
-/
namespace Sys

structure Lock (τ : Type) where
  holder : Option τ
  epoch  : Nat

namespace Lock

variable {τ : Type}

/-- One step of the lock: a free lock is acquired, a held one is taken over or released, or nothing happens. -/
inductive Step : Lock τ → Lock τ → Prop
  | stay (l : Lock τ) : Step l l
  | acquire (t : τ) (n : Nat) : Step ⟨none, n⟩ ⟨some t, n + 1⟩
  | adopt (t : τ) (n : Nat) : Step ⟨some t, n⟩ ⟨some t, n + 1⟩
  | release (t : τ) (n : Nat) : Step ⟨some t, n⟩ ⟨none, n⟩

def Current (l : Lock τ) (t : τ) (n : Nat) : Prop := l.holder = some t ∧ l.epoch = n

/-- No holder can own epoch `n` any more. -/
def Spent (l : Lock τ) (n : Nat) : Prop := n < l.epoch ∨ (n = l.epoch ∧ l.holder = none)

theorem Spent.not_current {l : Lock τ} {n : Nat} (h : l.Spent n) (t : τ) : ¬ l.Current t n := by
  rintro ⟨ht, rfl⟩
  rcases h with h | ⟨-, h⟩
  · exact Nat.lt_irrefl _ h
  · rw [ht] at h; cases h

theorem Step.spent {l l' : Lock τ} {n : Nat} (h : Step l l') (hn : l.Spent n) : l'.Spent n := by
  cases h with
  | stay => exact hn
  | acquire t m =>
    left
    rcases hn with hn | ⟨rfl, -⟩
    · exact Nat.lt_succ_of_lt hn
    · exact Nat.lt_succ_self _
  | adopt t m =>
    rcases hn with hn | ⟨-, hn⟩
    · exact Or.inl (Nat.lt_succ_of_lt hn)
    · cases hn
  | release t m =>
    rcases hn with hn | ⟨-, hn⟩
    · exact Or.inl hn
    · cases hn

/-- A step after which a current pair is not current has spent its epoch. -/
theorem Step.spent_of_lost {l l' : Lock τ} {t : τ} {n : Nat} (h : Step l l') (hc : l.Current t n)
    (hn : ¬ l'.Current t n) : l'.Spent n := by
  obtain ⟨ht, rfl⟩ := hc
  cases h with
  | stay => exact absurd ⟨ht, rfl⟩ hn
  | acquire => cases ht
  | adopt => exact Or.inl (Nat.lt_succ_self _)
  | release => exact Or.inr ⟨rfl, rfl⟩

end Lock

variable {σ α τ : Type} {step : σ → α → σ → Prop}

/-- A system each of whose steps, from a state in `I`, moves the lock `π` reads off by one lock step. -/
structure Guards (step : σ → α → σ → Prop) (I : σ → Prop) (π : σ → Lock τ) : Prop where
  inv  : ∀ s a s', I s → step s a s' → I s'
  lock : ∀ s a s', I s → step s a s' → Lock.Step (π s) (π s')

theorem Guards.spent {I : σ → Prop} {π : σ → Lock τ} (g : Guards step I π) {s s' : σ} {tr : List (σ × α × σ)} {n : Nat}
    (hr : Run step s tr s') (hI : I s) (hn : (π s).Spent n) : I s' ∧ (π s').Spent n :=
  Run.invariant (I := fun x => I x ∧ (π x).Spent n) ⟨hI, hn⟩
    (fun x a x' h hst => ⟨g.inv x a x' h.1 hst, (g.lock x a x' h.1 hst).spent h.2⟩) hr

/-- **A pair current once and not current later is spent by then.** -/
theorem Guards.spent_of_lost {I : σ → Prop} {π : σ → Lock τ} (g : Guards step I π) {s s' : σ}
    {tr : List (σ × α × σ)} {t : τ} {n : Nat} (hr : Run step s tr s') (hI : I s) (hc : (π s).Current t n)
    (hl : ¬ (π s').Current t n) : (π s').Spent n := by
  have key : I s' ∧ ((π s').Current t n ∨ (π s').Spent n) :=
    Run.invariant (I := fun x => I x ∧ ((π x).Current t n ∨ (π x).Spent n)) ⟨hI, Or.inl hc⟩ (fun x a x' h hst => by
      refine ⟨g.inv x a x' h.1 hst, ?_⟩
      have hL := g.lock x a x' h.1 hst
      rcases h.2 with hcur | hsp
      · by_cases hx : (π x').Current t n
        · exact Or.inl hx
        · exact Or.inr (hL.spent_of_lost hcur hx)
      · exact Or.inr (hL.spent hsp)) hr
  exact key.2.resolve_left hl

/-! ## Numbered grants -/

/-- A step hands out the next number, which the counter then shows, or none, and the counter stays. -/
def Numbers (step : σ → α → σ → Prop) (counter : σ → Nat) (grant : σ × α × σ → Option Nat) : Prop :=
  ∀ s a s', step s a s' → (grant (s, a, s') = none ∧ counter s' = counter s) ∨
    (grant (s, a, s') = some (counter s + 1) ∧ counter s' = counter s + 1)

section numbers

variable {counter : σ → Nat} {grant : σ × α × σ → Option Nat} {s₀ s : σ} {tr : List (σ × α × σ)}

/-- **The numbers a run hands out are 1, 2, 3 and so on**, up to what the counter shows. -/
theorem Numbers.grants (h : Numbers step counter grant) (h₀ : counter s₀ = 0) (hr : Run step s₀ tr s) :
    tr.filterMap grant = List.range' 1 (counter s) := by
  induction hr with
  | nil => rw [h₀]; rfl
  | snoc _ hst ih =>
    rw [List.filterMap_append, ih]
    rcases h _ _ _ hst with ⟨hg, hc⟩ | ⟨hg, hc⟩
    · simp [hg, hc]
    · rw [hc, List.range'_1_concat]
      simp [hg, Nat.add_comm]

/-- A later grant is of a greater number. -/
theorem Numbers.lt (h : Numbers step counter grant) (h₀ : counter s₀ = 0) (hr : Run step s₀ tr s)
    {pre pre' : List (σ × α × σ)} {x x' : σ × α × σ} {m n : Nat} (hx : pre ++ [x] <+: pre') (hx' : pre' ++ [x'] <+: tr)
    (hm : grant x = some m) (hn : grant x' = some n) : m < n := by
  obtain ⟨post, rfl⟩ := hx'
  rw [List.append_assoc, List.singleton_append] at hr
  obtain ⟨hpre, hst, -⟩ := hr.cut
  have hmem : m ∈ pre'.filterMap grant :=
    List.mem_filterMap.2 ⟨x, hx.subset (List.mem_append_right _ (List.mem_singleton_self _)), hm⟩
  rw [h.grants h₀ hpre, List.mem_range'_1] at hmem
  rcases h _ _ _ hst with ⟨hg, -⟩ | ⟨hg, -⟩
  · rw [hn] at hg; cases hg
  · rw [hn] at hg
    have := Option.some.inj hg
    omega

end numbers

end Sys
