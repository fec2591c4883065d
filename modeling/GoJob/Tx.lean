import GoJob.Table
/-!
# Tx — transactions that roll back

A transaction reads and writes one database value and may fail; what it wrote is visible afterwards only if it did not
(`commit`).  A successful sequence is two successful halves (`bind_ok`), which is how every proof about a transaction
takes one apart.
-/
namespace Rel

/-- A transaction over databases `σ` that fails with an `ε` or returns an `α`. -/
abbrev Tx (σ ε α : Type) := StateT σ (Except ε) α

namespace Tx

variable {σ ε α β : Type}

@[simp] theorem bind_ok {x : Tx σ ε α} {f : α → Tx σ ε β} {s : σ} {r : β × σ} :
    (x >>= f) s = .ok r ↔ ∃ a s', x s = .ok (a, s') ∧ f a s' = .ok r := by
  show (x s >>= fun p => f p.1 p.2) = .ok r ↔ _
  cases x s with
  | error e => simp [Bind.bind, Except.bind]
  | ok p =>
    obtain ⟨a, s'⟩ := p
    simp [Bind.bind, Except.bind]

theorem bind_of_ok {x : Tx σ ε α} {f : α → Tx σ ε β} {s s' : σ} {a : α} (h : x s = .ok (a, s')) :
    (x >>= f) s = f a s' := by
  show (x s >>= fun p => f p.1 p.2) = _
  rw [h]
  rfl

theorem get_run (s : σ) : (get : Tx σ ε σ) s = .ok (s, s) := rfl

theorem bind_of_error {x : Tx σ ε α} {f : α → Tx σ ε β} {s : σ} {e : ε} (h : x s = .error e) :
    (x >>= f) s = .error e := by
  show (x s >>= fun p => f p.1 p.2) = _
  rw [h]
  rfl

@[simp] theorem pure_ok {a : α} {s : σ} {r : α × σ} : (pure a : Tx σ ε α) s = .ok r ↔ (a, s) = r := by
  show Except.ok (a, s) = .ok r ↔ _
  simp

@[simp] theorem throw_ok {e : ε} {s : σ} {r : α × σ} : (throw e : Tx σ ε α) s = .ok r ↔ False := by
  show Except.error e = .ok r ↔ _
  simp

theorem get_bind_ok {f : σ → Tx σ ε α} {s : σ} {r : α × σ} : (get >>= f : Tx σ ε α) s = .ok r ↔ f s s = .ok r :=
  Iff.rfl

@[simp] theorem get_ok {s : σ} {r : σ × σ} : (get : Tx σ ε σ) s = .ok r ↔ (s, s) = r := by
  show Except.ok (s, s) = .ok r ↔ _
  simp

@[simp] theorem set_ok {s t : σ} {r : PUnit × σ} : (set t : Tx σ ε PUnit) s = .ok r ↔ (PUnit.unit, t) = r := by
  show Except.ok (PUnit.unit, t) = .ok r ↔ _
  simp

@[simp] theorem ite_ok {p : Prop} [Decidable p] {x y : Tx σ ε α} {s : σ} {r : α × σ} :
    (if p then x else y) s = .ok r ↔ (p ∧ x s = .ok r) ∨ (¬ p ∧ y s = .ok r) := by
  by_cases hp : p <;> simp [hp]

/-- Two programs agree where their first halves do, and their second halves wherever those lead. -/
theorem bind_agree {x y : Tx σ ε α} {f g : α → Tx σ ε β} {s : σ} (hxy : x s = y s)
    (hfg : ∀ a s', y s = .ok (a, s') → f a s' = g a s') : (x >>= f) s = (y >>= g) s := by
  cases h : y s with
  | error e => rw [bind_of_error h, bind_of_error (hxy.trans h)]
  | ok r => rw [bind_of_ok h, bind_of_ok (hxy.trans h), hfg r.1 r.2 h]

/-- The database after a call: what the transaction left if it succeeded, the one before it otherwise. -/
def commit (x : Tx σ ε α) (s : σ) : σ :=
  match x s with
  | .ok r    => r.2
  | .error _ => s

theorem commit_of_ok {x : Tx σ ε α} {s : σ} {r : α × σ} (h : x s = .ok r) : x.commit s = r.2 := by
  unfold commit; rw [h]

theorem commit_of_error {x : Tx σ ε α} {s : σ} {e : ε} (h : x s = .error e) : x.commit s = s := by
  unfold commit; rw [h]

/-- **A call either fails and changes nothing, or succeeds with what it leaves.** -/
theorem commit_cases (x : Tx σ ε α) (s : σ) :
    (∃ e, x s = .error e ∧ x.commit s = s) ∨ ∃ a, x s = .ok (a, x.commit s) := by
  cases h : x s with
  | error e => exact Or.inl ⟨e, rfl, commit_of_error h⟩
  | ok r => exact Or.inr ⟨r.1, by rw [commit_of_ok h]⟩

/-! ## What a transaction leaves alone -/

variable {γ : Type} {f : σ → γ}

/-- The transaction leaves the part `f` of the database as it is.  A class, so that a program inherits it from its
parts. -/
class Keeps (f : σ → γ) (x : Tx σ ε α) : Prop where
  keeps : ∀ {s r}, x s = .ok r → f r.2 = f s

instance (a : α) : Keeps f (pure a : Tx σ ε α) := ⟨fun h => by rw [← pure_ok.1 h]⟩

instance (e : ε) : Keeps f (throw e : Tx σ ε α) := ⟨fun h => (throw_ok.1 h).elim⟩

instance : Keeps f (get : Tx σ ε σ) := ⟨fun h => by rw [← get_ok.1 h]⟩

theorem Keeps.seq {x : Tx σ ε α} {k : α → Tx σ ε β} (hx : Keeps f x) (hk : ∀ a, Keeps f (k a)) : Keeps f (x >>= k) := by
  refine ⟨fun h => ?_⟩
  obtain ⟨a, s', h₁, h₂⟩ := bind_ok.1 h
  exact ((hk a).keeps h₂).trans (hx.keeps h₁)

instance (x : Tx σ ε α) (k : α → Tx σ ε β) [hx : Keeps f x] [hk : ∀ a, Keeps f (k a)] : Keeps f (x >>= k) := hx.seq hk

theorem Keeps.ite {p : Prop} [Decidable p] {x y : Tx σ ε α} (hx : Keeps f x) (hy : Keeps f y) :
    Keeps f (if p then x else y) := by
  split
  · exact hx
  · exact hy

instance (p : Prop) [Decidable p] (x y : Tx σ ε α) [hx : Keeps f x] [hy : Keeps f y] :
    Keeps f (if p then x else y) := hx.ite hy

/-! ## How a transaction can fail -/

/-- From `s` the transaction fails, if at all, with an error that `P` admits. -/
def FailsOnly (P : ε → Prop) (x : Tx σ ε α) (s : σ) : Prop := ∀ e, x s = .error e → P e

namespace FailsOnly

variable {P Q : ε → Prop} {s : σ}

theorem of_ok {x : Tx σ ε α} {r : α × σ} (h : x s = .ok r) : FailsOnly P x s := fun e he => by
  rw [h] at he; cases he

theorem throws {e : ε} (h : P e) : FailsOnly P (throw e : Tx σ ε α) s := fun e' he => by
  have he : Except.error e = (.error e' : Except ε (α × σ)) := he
  cases he
  exact h

theorem returns (a : α) : FailsOnly P (pure a : Tx σ ε α) s := of_ok rfl

/-- The second half only has to be looked at where the first one leads. -/
theorem seq {x : Tx σ ε α} {f : α → Tx σ ε β} (hx : FailsOnly P x s)
    (hf : ∀ a s', x s = .ok (a, s') → FailsOnly P (f a) s') : FailsOnly P (x >>= f) s := by
  intro e he
  cases h : x s with
  | error e' =>
    rw [bind_of_error h] at he
    exact Except.error.inj he ▸ hx e' h
  | ok r =>
    rw [bind_of_ok h] at he
    exact hf r.1 r.2 h e he

theorem after {x : Tx σ ε α} {f : α → Tx σ ε β} {a : α} {s' : σ} (hx : x s = .ok (a, s'))
    (hf : FailsOnly P (f a) s') : FailsOnly P (x >>= f) s := by
  intro e he
  rw [bind_of_ok hx] at he
  exact hf e he

theorem ite {p : Prop} [Decidable p] {x y : Tx σ ε α} (hx : p → FailsOnly P x s) (hy : ¬ p → FailsOnly P y s) :
    FailsOnly P (if p then x else y) s := by
  split
  · exact hx ‹_›
  · exact hy ‹_›

theorem mono {x : Tx σ ε α} (h : FailsOnly P x s) (himp : ∀ e, P e → Q e) : FailsOnly Q x s := fun e he =>
  himp e (h e he)

end FailsOnly

end Tx
end Rel
