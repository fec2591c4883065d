import GoJob.Runs
/-!
# Calls — one caller's steps among everybody's

A call is a program of atomic steps: it reads the state, or takes an action and goes on with the answer.  Others act
before its first step, between any two of them and after its last (`Exec`).  A proof takes a call apart from the front:
each of its steps follows a run of the others (`Exec.read_inv`, `Exec.call_inv`), and so does its return
(`Exec.ret_inv`).
-/
namespace Sys

/-- A call that returns a `ρ`.  A read says what it looks at and also sees a `γ` of the environment's choosing. -/
inductive Prog (σ α β τ γ ρ : Type)
  | ret (r : ρ)
  | read (q : τ) (k : γ → σ → Prog σ α β τ γ ρ)
  | call (a : α) (k : β → Prog σ α β τ γ ρ)

/-- What happens while a call runs: its own actions and reads, and the actions of others, with the number of steps the
call had made by then. -/
inductive Event (σ ℓ τ : Type)
  | other (n : Nat) (x : σ × ℓ × σ)
  | own (x : σ × ℓ × σ)
  | read (q : τ) (s : σ)

variable {σ α κ β τ γ ρ ℓ : Type}

/-- The step an event is; a read is none. -/
def Event.step? : Event σ ℓ τ → Option (σ × ℓ × σ)
  | .other _ x => some x
  | .own x     => some x
  | .read _ _  => none

/-- The history of a call. -/
def steps (ev : List (Event σ ℓ τ)) : List (σ × ℓ × σ) := ev.filterMap Event.step?

/-- Only others act. -/
def others (n : Nat) (tr : List (σ × ℓ × σ)) : List (Event σ ℓ τ) := tr.map (.other n)

@[simp] theorem steps_nil : steps ([] : List (Event σ ℓ τ)) = [] := rfl

@[simp] theorem steps_append (ev ev' : List (Event σ ℓ τ)) : steps (ev ++ ev') = steps ev ++ steps ev' :=
  List.filterMap_append

@[simp] theorem steps_own (x : σ × ℓ × σ) (ev : List (Event σ ℓ τ)) : steps (.own x :: ev) = x :: steps ev := rfl

@[simp] theorem steps_read (q : τ) (s : σ) (ev : List (Event σ ℓ τ)) : steps (.read q s :: ev) = steps ev := rfl

@[simp] theorem steps_others (n : Nat) (tr : List (σ × ℓ × σ)) : steps (others n tr : List (Event σ ℓ τ)) = tr := by
  unfold steps others
  rw [List.filterMap_map]
  exact List.filterMap_some

/-- What others did once the call had made `p` steps. -/
def since (p : Nat) (ev : List (Event σ ℓ τ)) : List (σ × ℓ × σ) :=
  ev.filterMap fun e => match e with
    | .other n x => if p ≤ n then some x else none
    | _          => none

@[simp] theorem since_append (p : Nat) (ev ev' : List (Event σ ℓ τ)) :
    since p (ev ++ ev') = since p ev ++ since p ev' :=
  List.filterMap_append

@[simp] theorem since_own (p : Nat) (x : σ × ℓ × σ) (ev : List (Event σ ℓ τ)) :
    since p (.own x :: ev) = since p ev := rfl

@[simp] theorem since_read (p : Nat) (q : τ) (s : σ) (ev : List (Event σ ℓ τ)) :
    since p (.read q s :: ev) = since p ev := rfl

theorem since_others {p n : Nat} (h : p ≤ n) (tr : List (σ × ℓ × σ)) :
    since p (others n tr : List (Event σ ℓ τ)) = tr := by
  unfold since others
  rw [List.filterMap_map]
  simp [h]

theorem since_others_lt {p n : Nat} (h : n < p) (tr : List (σ × ℓ × σ)) :
    since p (others n tr : List (Event σ ℓ τ)) = [] := by
  unfold since others
  rw [List.filterMap_map]
  simp [Nat.not_le.2 h]

/-- Nobody else acts while the call runs. -/
def Alone (ev : List (Event σ ℓ τ)) : Prop := ∀ n x, .other n x ∉ ev

theorem Alone.others {n : Nat} {tr : List (σ × ℓ × σ)} {ev : List (Event σ ℓ τ)} (h : Alone (others n tr ++ ev)) :
    tr = [] ∧ Alone ev := by
  constructor
  · cases tr with
    | nil => rfl
    | cons y tr => exact absurd (by simp [Sys.others]) (h n y)
  · intro m y hy
    exact h m y (List.mem_append_right _ hy)

theorem Alone.tail {x : Event σ ℓ τ} {ev : List (Event σ ℓ τ)} (h : Alone (x :: ev)) : Alone ev := fun n y hy =>
  h n y (List.mem_cons_of_mem _ hy)

/-- The state the call first reads. -/
def firstRead (ev : List (Event σ ℓ τ)) : Option σ :=
  ev.findSome? fun e => match e with
    | .read _ s => some s
    | _         => none

theorem firstRead_others (n : Nat) (tr : List (σ × ℓ × σ)) (q : τ) (s : σ) (ev : List (Event σ ℓ τ)) :
    firstRead (others n tr ++ .read q s :: ev) = some s := by
  induction tr with
  | nil => rfl
  | cons x tr ih => exact ih

/-- The call with `n` steps made and `p` to go, from one state to another: its events and what it returns. -/
inductive Exec (step : σ → α × κ → σ → Prop) (answer : σ → α × κ → β) :
    Nat → Prog σ α β τ γ ρ → σ → List (Event σ (α × κ) τ) → ρ → σ → Prop
  | ret {n r s} : Exec step answer n (.ret r) s [] r s
  | other {n p s l s' ev r s''} : step s l s' → Exec step answer n p s' ev r s'' →
      Exec step answer n p s (.other n (s, l, s') :: ev) r s''
  | read {n q k s ev r s'} (g : γ) : Exec step answer (n + 1) (k g s) s ev r s' →
      Exec step answer n (.read q k) s (.read q s :: ev) r s'
  | call {n a k s c s' ev r s''} : step s (a, c) s' → Exec step answer (n + 1) (k (answer s (a, c))) s' ev r s'' →
      Exec step answer n (.call a k) s (.own (s, (a, c), s') :: ev) r s''

namespace Exec

variable {step : σ → α × κ → σ → Prop} {answer : σ → α × κ → β} {n : Nat} {s s' : σ} {r r' : ρ}
  {ev : List (Event σ (α × κ) τ)}

/-- **A call is a run**, of the caller's actions and everybody else's. -/
theorem run {p : Prog σ α β τ γ ρ} (h : Exec step answer n p s ev r s') : Run step s (steps ev) s' := by
  induction h with
  | ret => exact .nil
  | other hst _ ih => exact (Run.single hst).append ih
  | read _ _ ih => exact ih
  | call hst _ ih => exact (Run.single hst).append ih

/-- Every read finds a state that the steps before it lead to. -/
theorem read_mem {p : Prog σ α β τ γ ρ} (h : Exec step answer n p s ev r s') {q : τ} {x : σ} (hx : .read q x ∈ ev) :
    ∃ pre post, steps ev = pre ++ post ∧ Run step s pre x ∧ Run step x post s' := by
  induction h with
  | ret => cases hx
  | other hst _ ih =>
    rcases List.mem_cons.1 hx with hx | hx
    · cases hx
    · obtain ⟨pre, post, heq, hr, hr'⟩ := ih hx
      exact ⟨_ :: pre, post, congrArg (_ :: ·) heq, (Run.single hst).append hr, hr'⟩
  | read g he ih =>
    rcases List.mem_cons.1 hx with hx | hx
    · cases hx
      exact ⟨[], _, rfl, .nil, he.run⟩
    · exact ih hx
  | call hst _ ih =>
    rcases List.mem_cons.1 hx with hx | hx
    · cases hx
    · obtain ⟨pre, post, heq, hr, hr'⟩ := ih hx
      exact ⟨_ :: pre, post, congrArg (_ :: ·) heq, (Run.single hst).append hr, hr'⟩

theorem ret_inv (h : Exec step answer n (.ret r' : Prog σ α β τ γ ρ) s ev r s') :
    ∃ tr, ev = others n tr ∧ Run step s tr s' ∧ r = r' := by
  generalize hp : (Prog.ret r' : Prog σ α β τ γ ρ) = p at h
  induction h with
  | ret =>
    cases hp
    exact ⟨[], rfl, .nil, rfl⟩
  | other hst _ ih =>
    obtain ⟨tr, rfl, hr, rfl⟩ := ih hp
    exact ⟨_ :: tr, rfl, (Run.single hst).append hr, rfl⟩
  | read => cases hp
  | call => cases hp

theorem read_inv {q : τ} {k : γ → σ → Prog σ α β τ γ ρ} (h : Exec step answer n (.read q k) s ev r s') :
    ∃ tr s₁ g ev', ev = others n tr ++ .read q s₁ :: ev' ∧ Run step s tr s₁ ∧
      Exec step answer (n + 1) (k g s₁) s₁ ev' r s' := by
  generalize hp : Prog.read q k = p at h
  induction h with
  | ret => cases hp
  | other hst _ ih =>
    obtain ⟨tr, s₁, g, ev', rfl, hr, hx⟩ := ih hp
    exact ⟨_ :: tr, s₁, g, ev', rfl, (Run.single hst).append hr, hx⟩
  | read g hx =>
    cases hp
    exact ⟨[], _, g, _, rfl, .nil, hx⟩
  | call => cases hp

theorem call_inv {a : α} {k : β → Prog σ α β τ γ ρ} (h : Exec step answer n (.call a k) s ev r s') :
    ∃ tr s₁ c s₂ ev', ev = others n tr ++ .own (s₁, (a, c), s₂) :: ev' ∧ Run step s tr s₁ ∧ step s₁ (a, c) s₂ ∧
      Exec step answer (n + 1) (k (answer s₁ (a, c))) s₂ ev' r s' := by
  generalize hp : Prog.call a k = p at h
  induction h with
  | ret => cases hp
  | other hst _ ih =>
    obtain ⟨tr, s₁, c, s₂, ev', rfl, hr, hst', hx⟩ := ih hp
    exact ⟨_ :: tr, s₁, c, s₂, ev', rfl, (Run.single hst).append hr, hst', hx⟩
  | read => cases hp
  | call hst hx =>
    cases hp
    exact ⟨[], _, _, _, _, rfl, .nil, hst, hx⟩

/-! A call that runs alone takes its steps one after the other. -/

theorem ret_alone (h : Exec step answer n (.ret r' : Prog σ α β τ γ ρ) s ev r s') (ha : Alone ev) :
    s' = s ∧ r = r' := by
  obtain ⟨tr, rfl, hr, rfl⟩ := ret_inv h
  rw [← List.append_nil (others n tr)] at ha
  obtain ⟨rfl, -⟩ := ha.others
  exact ⟨hr.eq_of_nil, rfl⟩

theorem read_alone {q : τ} {k : γ → σ → Prog σ α β τ γ ρ} (h : Exec step answer n (.read q k) s ev r s')
    (ha : Alone ev) : ∃ g ev', ev = .read q s :: ev' ∧ Alone ev' ∧ Exec step answer (n + 1) (k g s) s ev' r s' := by
  obtain ⟨tr, s₁, g, ev', rfl, hr, hx⟩ := read_inv h
  obtain ⟨rfl, ha⟩ := ha.others
  obtain rfl := hr.eq_of_nil
  exact ⟨g, ev', rfl, ha.tail, hx⟩

theorem call_alone {a : α} {k : β → Prog σ α β τ γ ρ} (h : Exec step answer n (.call a k) s ev r s') (ha : Alone ev) :
    ∃ c s₁ ev', ev = .own (s, (a, c), s₁) :: ev' ∧ Alone ev' ∧ step s (a, c) s₁ ∧
      Exec step answer (n + 1) (k (answer s (a, c))) s₁ ev' r s' := by
  obtain ⟨tr, s₁, c, s₂, ev', rfl, hr, hst, hx⟩ := call_inv h
  obtain ⟨rfl, ha⟩ := ha.others
  obtain rfl := hr.eq_of_nil
  exact ⟨c, s₂, ev', rfl, ha.tail, hst, hx⟩

end Exec
end Sys
