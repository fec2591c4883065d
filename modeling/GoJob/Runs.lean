import Mathlib
/-!
# Runs — labelled steps and their histories

A run is remembered as the list of its steps, each with the state before it, its label and the state after it, newest
last.  An invariant is proved once for a step (`Run.invariant`), also when only some steps are allowed
(`Run.invariant_of`) and when it speaks about the history itself (`Run.history`).
-/
namespace Sys

variable {σ α : Type} {step : σ → α → σ → Prop}

/-- A run from `s₀`: its steps in order, and the state they lead to. -/
inductive Run (step : σ → α → σ → Prop) (s₀ : σ) : List (σ × α × σ) → σ → Prop
  | nil : Run step s₀ [] s₀
  | snoc {tr : List (σ × α × σ)} {s s' : σ} {a : α} :
      Run step s₀ tr s → step s a s' → Run step s₀ (tr ++ [(s, a, s')]) s'

theorem Run.single {s s' : σ} {a : α} (h : step s a s') : Run step s [(s, a, s')] s' :=
  (Run.nil.snoc h : Run step s ([] ++ [(s, a, s')]) s')

theorem Run.eq_of_nil {s₀ s : σ} (h : Run step s₀ [] s) : s = s₀ := by
  generalize htr : ([] : List (σ × α × σ)) = tr at h
  cases h with
  | nil => rfl
  | snoc => simp at htr

/-- **What starts true of an empty history and survives a step is true of every run.** -/
theorem Run.history {s₀ : σ} {J : List (σ × α × σ) → σ → Prop} (h₀ : J [] s₀)
    (hs : ∀ tr s a s', Run step s₀ tr s → J tr s → step s a s' → J (tr ++ [(s, a, s')]) s') :
    ∀ {tr s}, Run step s₀ tr s → J tr s := by
  intro tr s h
  induction h with
  | nil => exact h₀
  | snoc hr hst ih => exact hs _ _ _ _ hr ih hst

theorem Run.invariant {s₀ : σ} {I : σ → Prop} (h₀ : I s₀) (hs : ∀ s a s', I s → step s a s' → I s') :
    ∀ {tr s}, Run step s₀ tr s → I s :=
  Run.history (J := fun _ s => I s) h₀ (fun _ s a s' _ h hst => hs s a s' h hst)

/-- **An invariant of the steps that meet a condition holds along every run all of whose steps meet it.** -/
theorem Run.invariant_of {s₀ : σ} {I : σ → Prop} (C : σ × α × σ → Prop) (h₀ : I s₀)
    (hs : ∀ s a s', I s → C (s, a, s') → step s a s' → I s') :
    ∀ {tr s}, Run step s₀ tr s → (∀ x ∈ tr, C x) → I s := by
  intro tr s h
  induction h with
  | nil => exact fun _ => h₀
  | snoc hr hst ih =>
    intro hc
    exact hs _ _ _ (ih (fun x hx => hc x (List.mem_append_left _ hx)))
      (hc _ (List.mem_append_right _ (List.mem_singleton_self _))) hst

theorem Run.append {s₀ s₁ s₂ : σ} {tr₁ tr₂ : List (σ × α × σ)} (h₁ : Run step s₀ tr₁ s₁) (h₂ : Run step s₁ tr₂ s₂) :
    Run step s₀ (tr₁ ++ tr₂) s₂ := by
  induction h₂ with
  | nil => rw [List.append_nil]; exact h₁
  | snoc _ hst ih => rw [← List.append_assoc]; exact .snoc ih hst

/-- **A run is cut at any of its steps**, into the run before it, the step and the run after it. -/
theorem Run.cut {s₀ : σ} {pre post : List (σ × α × σ)} {x : σ × α × σ} {s : σ}
    (h : Run step s₀ (pre ++ x :: post) s) : Run step s₀ pre x.1 ∧ step x.1 x.2.1 x.2.2 ∧ Run step x.2.2 post s := by
  generalize htr : pre ++ x :: post = tr at h
  induction h generalizing post with
  | nil => simp at htr
  | snoc hr hst ih =>
    -- The last step of the run is `x` itself, or the last step of `post`.
    rcases List.eq_nil_or_concat' post with rfl | ⟨post, y, rfl⟩
    · obtain ⟨rfl, hx⟩ := List.append_inj' htr rfl
      cases hx
      exact ⟨hr, hst, .nil⟩
    · rw [← List.cons_append, ← List.append_assoc] at htr
      obtain ⟨hinit, hy⟩ := List.append_inj' htr rfl
      cases hy
      obtain ⟨hpre, hstep, hpost⟩ := ih hinit
      exact ⟨hpre, hstep, hpost.snoc hst⟩

theorem Run.split {s₀ : σ} {tr : List (σ × α × σ)} {s : σ} (h : Run step s₀ tr s) {x : σ × α × σ} (hx : x ∈ tr) :
    ∃ pre post, tr = pre ++ x :: post ∧ Run step s₀ pre x.1 ∧ step x.1 x.2.1 x.2.2 ∧ Run step x.2.2 post s := by
  obtain ⟨pre, post, rfl⟩ := List.append_of_mem hx
  exact ⟨pre, post, rfl, h.cut⟩

/-- Every recorded step was taken, after the steps recorded before it. -/
theorem Run.mem_step {s₀ : σ} {tr : List (σ × α × σ)} {s : σ} (h : Run step s₀ tr s) {x : σ × α × σ} (hx : x ∈ tr) :
    ∃ pre, pre ++ [x] <+: tr ∧ Run step s₀ pre x.1 ∧ step x.1 x.2.1 x.2.2 := by
  obtain ⟨pre, post, rfl, hpre, hstep, -⟩ := h.split hx
  exact ⟨pre, ⟨post, by simp⟩, hpre, hstep⟩

/-- **A run seen through a projection**: the steps it sees are steps there, and the others leave it as it was. -/
theorem Run.project {τ β : Type} {step' : τ → β → τ → Prop} (f : σ → τ) (g : α → Option β)
    (hsome : ∀ {s a s' b}, step s a s' → g a = some b → step' (f s) b (f s'))
    (hnone : ∀ {s a s'}, step s a s' → g a = none → f s' = f s) {s₀ s : σ} {tr : List (σ × α × σ)}
    (h : Run step s₀ tr s) :
    Run step' (f s₀) (tr.filterMap fun x => (g x.2.1).map fun b => (f x.1, b, f x.2.2)) (f s) := by
  induction h with
  | nil => exact .nil
  | @snoc tr s s' a hr hst ih =>
    rw [List.filterMap_append]
    cases hb : g a with
    | none => simpa [hb, hnone hst hb] using ih
    | some b => simpa [hb] using ih.snoc (hsome hst hb)

/-- What is read off a projected run is read off the run. -/
theorem filterMap_project {τ β γ : Type} (f : σ → τ) (g : α → Option β) (k : τ × β × τ → Option γ)
    (tr : List (σ × α × σ)) :
    (tr.filterMap fun x => (g x.2.1).map fun b => (f x.1, b, f x.2.2)).filterMap k =
      tr.filterMap fun x => (g x.2.1).bind fun b => k (f x.1, b, f x.2.2) := by
  rw [List.filterMap_filterMap]
  congr 1
  funext x
  rw [Option.bind_map]
  rfl

/-- **What holds is what the last step about it said.**  If each step opens a fact, closes it or leaves it alone, the
fact holds exactly if some step opened it and none has closed it since. -/
theorem Run.since {P : σ → Prop} {opens closes : σ × α × σ → Prop}
    (h : ∀ {s a s'}, step s a s' → (P s' ↔ opens (s, a, s') ∨ P s ∧ ¬ closes (s, a, s'))) {s₀ s : σ}
    {tr : List (σ × α × σ)} (h₀ : ¬ P s₀) (hr : Run step s₀ tr s) :
    P s ↔ ∃ pre x post, tr = pre ++ x :: post ∧ opens x ∧ ∀ y ∈ post, ¬ closes y := by
  induction hr with
  | nil => simp [h₀]
  | @snoc tr s s' a hr hst ih =>
    rw [h hst, ih]
    constructor
    · rintro (hopen | ⟨⟨pre, x, post, rfl, hopen, hpost⟩, hclose⟩)
      · exact ⟨tr, _, [], rfl, hopen, by simp⟩
      · refine ⟨pre, x, post ++ [(s, a, s')], by simp, hopen, fun y hy => ?_⟩
        rcases List.mem_append.1 hy with hy | hy
        · exact hpost y hy
        · rw [List.mem_singleton.1 hy]; exact hclose
    · rintro ⟨pre, x, post, heq, hopen, hpost⟩
      rcases List.eq_nil_or_concat' post with rfl | ⟨post, y, rfl⟩
      · obtain ⟨rfl, hx⟩ := List.append_inj' heq rfl
        cases hx
        exact Or.inl hopen
      · rw [← List.cons_append, ← List.append_assoc] at heq
        obtain ⟨rfl, hy⟩ := List.append_inj' heq rfl
        cases hy
        exact Or.inr ⟨⟨pre, x, post, rfl, hopen, fun z hz => hpost z (by simp [hz])⟩, hpost _ (by simp)⟩

/-! ## Steps that can be computed -/

/-- Plays labels one after the other, and remembers the steps; `none` if one is refused. -/
def play (next : σ → α → Option σ) : σ → List α → Option (List (σ × α × σ) × σ)
  | s, []      => some ([], s)
  | s, a :: as => (next s a).bind fun s' => (play next s' as).map fun p => ((s, a, s') :: p.1, p.2)

/-- **What can be played is a run.** -/
theorem run_play {next : σ → α → Option σ} : ∀ {as : List α} {s s' : σ} {tr : List (σ × α × σ)},
    play next s as = some (tr, s') → Run (fun s a s' => next s a = some s') s tr s'
  | [], _, _, _, h => by cases h; exact .nil
  | a :: as, s, _, _, h => by
    obtain ⟨s₁, hs, h⟩ := Option.bind_eq_some_iff.1 h
    obtain ⟨⟨tr, s₂⟩, hp, heq⟩ := Option.map_eq_some_iff.1 h
    cases heq
    have hone : Run (fun s a s' => next s a = some s') s [(s, a, s₁)] s₁ := .single hs
    exact hone.append (run_play hp)

theorem play_checked (next : σ → α → Option σ) (s : σ) (as : List α) (q : List (σ × α × σ) → σ → Bool)
    (h : (play next s as).any (fun p => q p.1 p.2) = true) :
    ∃ tr s', Run (fun s a s' => next s a = some s') s tr s' ∧ q tr s' = true := by
  obtain ⟨⟨tr, s'⟩, hp, hq⟩ := (Option.any_eq_true _ _).1 h
  exact ⟨tr, s', run_play hp, hq⟩

end Sys
