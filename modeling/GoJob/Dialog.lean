import GoJob.Runs
/-!
# Dialog — threads that ask and go on with the answer

A thread is a tree: it asks a question, whose kind decides what an answer looks like, and the answer decides how it goes
on.  It runs among others (`Exec`), who act before, between and after its questions.  What it said and heard is a list
of exchanges; a fact about every such list, whatever the others did, is proved on `Talk`, which takes a thread apart
along its binds.
-/
namespace Sys

/-- A thread that returns a `ρ`; `R q` is what a question `q` may be answered with. -/
inductive Dialog {Q : Type} (R : Q → Type) (ρ : Type)
  | done (r : ρ)
  | ask (q : Q) (k : R q → Dialog R ρ)

/-- A question, its answer, and the states between which it was answered. -/
structure Exchange (σ : Type) {Q : Type} (R : Q → Type) where
  before   : σ
  question : Q
  answer   : R question
  after    : σ

namespace Dialog

variable {Q : Type} {R : Q → Type} {σ ℓ ρ ρ' : Type}

def bind : Dialog R ρ → (ρ → Dialog R ρ') → Dialog R ρ'
  | .done r,  f => f r
  | .ask q k, f => .ask q fun a => (k a).bind f

instance : Monad (Dialog R) where
  pure := .done
  bind := Dialog.bind

/-- Ask one question. -/
def say (q : Q) : Dialog R (R q) := .ask q .done

/-- What happens while a thread runs: the steps of others, and its own exchanges. -/
inductive Event (σ ℓ : Type) {Q : Type} (R : Q → Type)
  | other (x : σ × ℓ × σ)
  | own (x : Exchange σ R)

/-- The thread's part of what happened. -/
def own (ev : List (Event σ ℓ R)) : List (Exchange σ R) :=
  ev.filterMap fun e => match e with
    | .own x   => some x
    | .other _ => none

variable (sem : σ → (q : Q) → R q → σ → Prop)

/-- An exchange that the environment can have. -/
def Fair (x : Exchange σ R) : Prop := sem x.before x.question x.answer x.after

/-- A thread among others who step by `other`, from one state to another: what happened, and what it returned. -/
inductive Exec (other : σ → ℓ → σ → Prop) : Dialog R ρ → σ → List (Event σ ℓ R) → ρ → σ → Prop
  | done {r s} : Exec other (.done r) s [] r s
  | other {p s l s' ev r s''} : other s l s' → Exec other p s' ev r s'' →
      Exec other p s (.other (s, l, s') :: ev) r s''
  | ask {q k s a s' ev r s''} : sem s q a s' → Exec other (k a) s' ev r s'' →
      Exec other (.ask q k) s (.own ⟨s, q, a, s'⟩ :: ev) r s''

/-- A complete dialog, with each exchange answered at a moment of its own. -/
inductive Talk : Dialog R ρ → List (Exchange σ R) → ρ → Prop
  | done {r} : Talk (.done r) [] r
  | ask {q k s a s' xs r} : sem s q a s' → Talk (k a) xs r → Talk (.ask q k) (⟨s, q, a, s'⟩ :: xs) r

variable {sem}

theorem Exec.talk {other : σ → ℓ → σ → Prop} {p : Dialog R ρ} {s s' : σ} {ev : List (Event σ ℓ R)} {r : ρ}
    (h : Exec sem other p s ev r s') : Talk sem p (own ev) r := by
  induction h with
  | done => exact .done
  | other _ _ ih => exact ih
  | ask hq _ ih => exact .ask hq ih

theorem Talk.fair {p : Dialog R ρ} {xs : List (Exchange σ R)} {r : ρ} (h : Talk sem p xs r) : ∀ x ∈ xs, Fair sem x := by
  induction h with
  | done => simp
  | ask hq _ ih => exact List.forall_mem_cons.2 ⟨hq, ih⟩

variable {xs : List (Exchange σ R)} {r : ρ}

@[simp] theorem talk_pure {r' : ρ} : Talk sem (pure r' : Dialog R ρ) xs r ↔ xs = [] ∧ r = r' := by
  constructor
  · intro h
    cases h
    exact ⟨rfl, rfl⟩
  · rintro ⟨rfl, rfl⟩
    exact .done

/-- **A dialog in two parts is a dialog of the first and then one of the second.** -/
theorem talk_bind {p : Dialog R ρ'} {f : ρ' → Dialog R ρ} :
    Talk sem (p >>= f) xs r ↔ ∃ ys a zs, xs = ys ++ zs ∧ Talk sem p ys a ∧ Talk sem (f a) zs r := by
  constructor
  · intro h
    induction p generalizing xs with
    | done a => exact ⟨[], a, xs, rfl, .done, h⟩
    | ask q k ih =>
      cases h with
      | ask hq h =>
        obtain ⟨ys, a, zs, rfl, hp, hf⟩ := ih _ h
        exact ⟨_ :: ys, a, zs, rfl, .ask hq hp, hf⟩
  · rintro ⟨ys, a, zs, rfl, hp, hf⟩
    induction hp with
    | done => exact hf
    | ask hq _ ih => exact .ask hq (ih hf)

/-- A question first. -/
theorem talk_ask {q : Q} {f : R q → Dialog R ρ} :
    Talk sem (say q >>= f) xs r ↔ ∃ s a s' zs, xs = ⟨s, q, a, s'⟩ :: zs ∧ sem s q a s' ∧ Talk sem (f a) zs r := by
  constructor
  · intro h
    cases h with
    | ask hq h => exact ⟨_, _, _, _, rfl, hq, h⟩
  · rintro ⟨s, a, s', zs, rfl, hq, h⟩
    exact .ask hq h

/-! ## What a thread may ask -/

/-- Every question satisfies `P`, and what the thread returns satisfies `post`. -/
def Asks (P : Q → Prop) (post : ρ → Prop) : Dialog R ρ → Prop
  | .done r  => post r
  | .ask q k => P q ∧ ∀ a, (k a).Asks P post

section asks

variable {P : Q → Prop} {post : ρ → Prop} {post' : ρ' → Prop}

theorem asks_pure (h : post r) : (pure r : Dialog R ρ).Asks P post := h

theorem Asks.mono {P' : Q → Prop} {post' : ρ → Prop} (hP : ∀ q, P q → P' q) (hpost : ∀ r, post r → post' r) :
    ∀ {p : Dialog R ρ}, p.Asks P post → p.Asks P' post'
  | .done _,  h => hpost _ h
  | .ask _ _, h => ⟨hP _ h.1, fun a => (h.2 a).mono hP hpost⟩

theorem Asks.bind {f : ρ → Dialog R ρ'} : ∀ {p : Dialog R ρ}, p.Asks P post → (∀ a, post a → (f a).Asks P post') →
    (p >>= f).Asks P post'
  | .done _,  h, hf => hf _ h
  | .ask _ _, h, hf => ⟨h.1, fun a => (h.2 a).bind hf⟩

theorem asks_ask {q : Q} {f : R q → Dialog R ρ} (hq : P q) (hf : ∀ a, (f a).Asks P post) : (say q >>= f).Asks P post :=
  ⟨hq, hf⟩

theorem asks_any : ∀ p : Dialog R ρ, p.Asks (fun _ => True) (fun _ => True)
  | .done _  => True.intro
  | .ask _ k => ⟨True.intro, fun a => asks_any (k a)⟩

/-- **Whatever a thread hears, it asks only what it may.** -/
theorem Talk.asks {p : Dialog R ρ} (h : Talk sem p xs r) (hp : p.Asks P post) : (∀ x ∈ xs, P x.question) ∧ post r := by
  induction h with
  | done => exact ⟨by simp, hp⟩
  | ask _ _ ih => exact ⟨List.forall_mem_cons.2 ⟨hp.1, (ih (hp.2 _)).1⟩, (ih (hp.2 _)).2⟩

end asks

/-! ## Pre- and postconditions -/

section triples

variable {other : σ → ℓ → σ → Prop} {p : Dialog R ρ}

theorem exec_bind {f : ρ → Dialog R ρ'} {s s' : σ} {ev : List (Event σ ℓ R)} {r : ρ'}
    (h : Exec sem other (p >>= f) s ev r s') :
    ∃ ev₁ a s₁ ev₂, ev = ev₁ ++ ev₂ ∧ Exec sem other p s ev₁ a s₁ ∧ Exec sem other (f a) s₁ ev₂ r s' := by
  induction p generalizing s ev with
  | done a => exact ⟨[], a, s, ev, rfl, .done, h⟩
  | ask q k ih =>
    generalize hp : (ask q k >>= f : Dialog R ρ') = d at h
    induction h with
    | done => cases hp
    | other hl _ ih' =>
      obtain ⟨ev₁, a, s₁, ev₂, rfl, h₁, h₂⟩ := ih' ih hp
      exact ⟨_ :: ev₁, a, s₁, ev₂, rfl, .other hl h₁, h₂⟩
    | ask hq h ih' =>
      cases hp
      obtain ⟨ev₁, a, s₁, ev₂, rfl, h₁, h₂⟩ := ih _ h
      exact ⟨_ :: ev₁, a, s₁, ev₂, rfl, .ask hq h₁, h₂⟩

/-- What holds of every exchange may be taken for a rule of the environment. -/
theorem Exec.strengthen {s s' : σ} {ev : List (Event σ ℓ R)} {r : ρ} {U : Exchange σ R → Prop}
    (h : Exec sem other p s ev r s') (hU : ∀ x ∈ own ev, U x) :
    Exec (fun s q a s' => sem s q a s' ∧ U ⟨s, q, a, s'⟩) other p s ev r s' := by
  induction h with
  | done => exact .done
  | other hl _ ih => exact .other hl (ih hU)
  | ask hq _ ih =>
    obtain ⟨hx, hU⟩ := List.forall_mem_cons.1 (show ∀ x ∈ _ :: own _, U x from hU)
    exact .ask ⟨hq, hx⟩ (ih hU)

variable (sem other) in
/-- Whenever the thread starts in `B` and returns, `A` holds of what it returned and where. -/
def Triple (B : σ → Prop) (p : Dialog R ρ) (A : ρ → σ → Prop) : Prop :=
  ∀ s ev r s', B s → Exec sem other p s ev r s' → A r s'

variable (other) in
/-- The others leave it true. -/
def Stable (I : σ → Prop) : Prop := ∀ s l s', I s → other s l s' → I s'

variable {B : σ → Prop} {A : ρ → σ → Prop}

theorem Triple.mono {B' : σ → Prop} {A' : ρ → σ → Prop} (h : Triple sem other B p A)
    (hpre : ∀ s, B' s → B s) (hpost : ∀ r s, A r s → A' r s) : Triple sem other B' p A' :=
  fun s ev r s' hs hx => hpost r s' (h s ev r s' (hpre s hs) hx)

theorem Triple.done (h : ∀ s, B s → A r s) (hst : Stable other (A r)) :
    Triple sem other B (pure r : Dialog R ρ) A := by
  intro s ev r' s' hs hx
  have hpost := h s hs
  clear hs
  generalize hp : (pure r : Dialog R ρ) = d at hx
  induction hx with
  | done =>
    cases hp
    exact hpost
  | other hl _ ih => exact ih (hst _ _ _ hpost hl) hp
  | ask => cases hp

theorem Triple.ask {q : Q} {f : R q → Dialog R ρ} {m : R q → σ → Prop} (hst : Stable other B)
    (hq : ∀ s a s', B s → sem s q a s' → m a s') (hf : ∀ a, Triple sem other (m a) (f a) A) :
    Triple sem other B (say q >>= f) A := by
  intro s ev r s' hs hx
  generalize hp : (say q >>= f : Dialog R ρ) = d at hx
  induction hx with
  | done => cases hp
  | other hl _ ih => exact ih (hst _ _ _ hs hl) hp
  | ask hq' h =>
    cases hp
    exact hf _ _ _ _ _ (hq _ _ _ hs hq') h

theorem Triple.seq {p : Dialog R ρ'} {f : ρ' → Dialog R ρ} {m : ρ' → σ → Prop} (hp : Triple sem other B p m)
    (hf : ∀ a, Triple sem other (m a) (f a) A) : Triple sem other B (p >>= f) A := by
  intro s ev r s' hs hx
  obtain ⟨ev₁, a, s₁, ev₂, -, h₁, h₂⟩ := exec_bind hx
  exact hf a _ _ _ _ (hp _ _ _ _ hs h₁) h₂

/-- What is known of the answers so far. -/
theorem Triple.given {φ : Prop} (h : φ → Triple sem other B p A) : Triple sem other (fun s => B s ∧ φ) p A :=
  fun s ev r s' hs hx => h hs.2 s ev r s' hs.1 hx

theorem Triple.or {B' : σ → Prop} (h : Triple sem other B p A) (h' : Triple sem other B' p A) :
    Triple sem other (fun s => B s ∨ B' s) p A :=
  fun s ev r s' hs hx => hs.elim (fun hs => h s ev r s' hs hx) fun hs => h' s ev r s' hs hx

theorem Triple.ex {ι : Type} {B : ι → σ → Prop} (h : ∀ i, Triple sem other (B i) p A) :
    Triple sem other (fun s => ∃ i, B i s) p A :=
  fun s ev r s' hs hx => hs.elim fun i hs => h i s ev r s' hs hx

theorem Triple.and {B' : σ → Prop} {A' : ρ → σ → Prop} (h : Triple sem other B p A)
    (h' : Triple sem other B' p A') :
    Triple sem other (fun s => B s ∧ B' s) p (fun r s => A r s ∧ A' r s) :=
  fun s ev r s' hs hx => ⟨h s ev r s' hs.1 hx, h' s ev r s' hs.2 hx⟩

/-- **An invariant of everything a thread may ask is one of the thread.** -/
theorem Asks.triple {P : Q → Prop} {post : ρ → Prop} {I : σ → Prop} (hst : Stable other I)
    (hI : ∀ q s a s', P q → I s → sem s q a s' → I s') :
    ∀ {p : Dialog R ρ}, p.Asks P post → Triple sem other I p (fun _ => I)
  | .done _, _ => .done (fun _ h => h) hst
  | .ask q k, h => .ask (f := k) hst (fun s a s' hs hq => hI q s a s' h.1 hs hq) fun a => (h.2 a).triple hst hI

end triples

/-! ## Concrete dialogs -/

/-- A dialog with an environment that follows a script: the exchanges, the result and the state it ends in. -/
def drive {τ : Type} (next : τ → σ → (q : Q) → R q × σ × τ) : τ → σ → Dialog R ρ → List (Exchange σ R) × ρ × σ
  | _, s, .done r  => ([], r, s)
  | t, s, .ask q k =>
    let rest := drive next (next t s q).2.2 (next t s q).2.1 (k (next t s q).1)
    (⟨s, q, (next t s q).1, (next t s q).2.1⟩ :: rest.1, rest.2)

theorem exec_drive {τ : Type} {other : σ → ℓ → σ → Prop} {next : τ → σ → (q : Q) → R q × σ × τ}
    (h : ∀ t s q, sem s q (next t s q).1 (next t s q).2.1) : ∀ (t : τ) (s : σ) (p : Dialog R ρ),
      Exec sem other p s ((drive next t s p).1.map .own) (drive next t s p).2.1 (drive next t s p).2.2
  | _, _, .done _  => .done
  | _, _, .ask _ _ => .ask (h _ _ _) (exec_drive h _ _ _)

/-- The same where the environment may refuse to answer. -/
def drive? (next : σ → (q : Q) → Option (R q × σ)) : σ → Dialog R ρ → Option (List (Exchange σ R) × ρ × σ)
  | s, .done r  => some ([], r, s)
  | s, .ask q k =>
    (next s q).bind fun x => (drive? next x.2 (k x.1)).map fun rest => (⟨s, q, x.1, x.2⟩ :: rest.1, rest.2)

theorem exec_drive? {other : σ → ℓ → σ → Prop} {next : σ → (q : Q) → Option (R q × σ)}
    {p : Dialog R ρ} {s s' : σ} {xs : List (Exchange σ R)} {r : ρ} (hd : drive? next s p = some (xs, r, s'))
    (h : ∀ s q a s', next s q = some (a, s') → sem s q a s') : Exec sem other p s (xs.map .own) r s' := by
  induction p generalizing s xs with
  | done r =>
    cases hd
    exact .done
  | ask q k ih =>
    obtain ⟨⟨a, s₁⟩, ha, hd⟩ := Option.bind_eq_some_iff.1 hd
    obtain ⟨⟨xs, r, s'⟩, hrest, hd⟩ := Option.map_eq_some_iff.1 hd
    cases hd
    exact .ask (h _ _ _ _ ha) (ih _ hrest)

theorem mem_drive? {next : σ → (q : Q) → Option (R q × σ)} {p : Dialog R ρ} {s s' : σ} {xs : List (Exchange σ R)}
    {r : ρ} (hd : drive? next s p = some (xs, r, s')) :
    ∀ x ∈ xs, next x.before x.question = some (x.answer, x.after) := by
  induction p generalizing s xs with
  | done r =>
    cases hd
    simp
  | ask q k ih =>
    obtain ⟨⟨a, s₁⟩, ha, hd⟩ := Option.bind_eq_some_iff.1 hd
    obtain ⟨⟨xs, r, s'⟩, hrest, hd⟩ := Option.map_eq_some_iff.1 hd
    cases hd
    exact List.forall_mem_cons.2 ⟨ha, ih _ hrest⟩

@[simp] theorem own_map (xs : List (Exchange σ R)) : own (xs.map .own : List (Event σ ℓ R)) = xs := by
  unfold own
  rw [List.filterMap_map]
  exact List.filterMap_some

end Dialog
end Sys
