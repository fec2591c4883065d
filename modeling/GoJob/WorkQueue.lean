import GoJob.Runs
/-!
# WorkQueue — a queue of leased work

Tasks belong to lanes.  A task waits, is held by somebody or is done, and of a lane's tasks at most one is held.  A lane
counts how often it changed hands, and the holder of a task has the number it was given.  A system *refines* another one
if each of its steps is a few steps of the other (`Refines`), and then so is each of its runs.
-/
namespace Sys

/-! ## Refinement -/

section refinement

variable {σ α τ β : Type}

/-- From a state in `I`, every step is a run of the abstract system between the two abstractions, whose labels `R`
allows. -/
structure Refines (step : σ → α → σ → Prop) (I : σ → Prop) (abs : σ → τ) (astep : τ → β → τ → Prop)
    (R : σ × α × σ → List β → Prop) : Prop where
  inv       : ∀ s a s', I s → step s a s' → I s'
  simulates : ∀ s a s', I s → step s a s' → ∃ atr, Run astep (abs s) atr (abs s') ∧ R (s, a, s') (atr.map (·.2.1))

variable {step : σ → α → σ → Prop} {I : σ → Prop} {abs : σ → τ} {astep : τ → β → τ → Prop}
  {R : σ × α × σ → List β → Prop}

/-- **A run is a run of the abstract system**, one block of its steps for each step. -/
theorem Refines.run (h : Refines step I abs astep R) {s₀ s : σ} {tr : List (σ × α × σ)} (h₀ : I s₀)
    (hr : Run step s₀ tr s) : ∃ blocks : List (List (τ × β × τ)), Run astep (abs s₀) blocks.flatten (abs s) ∧
      List.Forall₂ (fun x b => R x (b.map (·.2.1))) tr blocks := by
  suffices hall : I s ∧ ∃ blocks : List (List (τ × β × τ)), Run astep (abs s₀) blocks.flatten (abs s) ∧
      List.Forall₂ (fun x b => R x (b.map (·.2.1))) tr blocks from hall.2
  refine Run.history (J := fun tr s => I s ∧ ∃ blocks : List (List (τ × β × τ)),
    Run astep (abs s₀) blocks.flatten (abs s) ∧ List.Forall₂ (fun x b => R x (b.map (·.2.1))) tr blocks)
    ⟨h₀, [], .nil, .nil⟩ ?_ hr
  rintro tr s a s' - ⟨hI, blocks, hrun, hall⟩ hst
  obtain ⟨atr, hatr, hR⟩ := h.simulates s a s' hI hst
  refine ⟨h.inv s a s' hI hst, blocks ++ [atr], ?_, List.rel_append hall (.cons hR .nil)⟩
  rw [List.flatten_append, List.flatten_singleton]
  exact hrun.append hatr

/-- What the blocks of a run say step by step, they say of the run. -/
theorem filterMap_blocks {γ : Type} {f : β → Option γ} {g : σ × α × σ → Option γ} {tr : List (σ × α × σ)}
    {blocks : List (List (τ × β × τ))}
    (h : List.Forall₂ (fun x b => (b.map (·.2.1)).filterMap f = (g x).toList) tr blocks) :
    (blocks.flatten.map (·.2.1)).filterMap f = tr.filterMap g := by
  induction h with
  | nil => rfl
  | @cons x _ tr _ hx _ ih =>
    have hone : (x :: tr).filterMap g = (g x).toList ++ tr.filterMap g := by
      cases hg : g x <;> simp [hg]
    rw [List.flatten_cons, List.map_append, List.filterMap_append, hx, ih, hone]

end refinement

/-! ## The queue -/

inductive Phase (τ ο : Type)
  | waiting
  | held (holder : τ) (number : Nat)
  | done (outcome : ο)

structure Task (κ τ ο : Type) where
  lane  : κ
  phase : Phase τ ο

/-- The tasks, and how often each lane has changed hands. -/
structure WorkQueue (ι κ τ ο : Type) where
  task   : ι → Option (Task κ τ ο)
  grants : κ → Nat

/-- What can be done to a queue.  A holder gives its task back or finishes it; a task that waits can be dropped, and one
that is done revived or forgotten. -/
inductive QueueOp (ι κ τ ο : Type)
  | post (i : ι) (j : κ)
  | take (i : ι) (t : τ)
  | handOver (i : ι)
  | giveBack (i : ι) (t : τ)
  | finish (i : ι) (t : τ) (o : ο)
  | drop (i : ι) (o : ο)
  | revive (i : ι)
  | forget (i : ι)

variable {ι κ τ ο : Type}

def Phase.holder? : Phase τ ο → Option τ
  | .held t _ => some t
  | _         => none

namespace WorkQueue

def empty : WorkQueue ι κ τ ο := ⟨fun _ => none, fun _ => 0⟩

def holder? (q : WorkQueue ι κ τ ο) (i : ι) : Option τ := (q.task i).bind (·.phase.holder?)

/-- Nobody holds a task of the lane. -/
def Free (q : WorkQueue ι κ τ ο) (j : κ) : Prop := ∀ i t n, q.task i ≠ some ⟨j, .held t n⟩

/-- The lane changes hands. -/
def grant [DecidableEq κ] (q : WorkQueue ι κ τ ο) (j : κ) : WorkQueue ι κ τ ο :=
  { q with grants := Function.update q.grants j (q.grants j + 1) }

@[simp] theorem task_grant [DecidableEq κ] (q : WorkQueue ι κ τ ο) (j : κ) : (q.grant j).task = q.task := rfl

variable [DecidableEq ι]

def set (q : WorkQueue ι κ τ ο) (i : ι) (x : Option (Task κ τ ο)) : WorkQueue ι κ τ ο :=
  { q with task := Function.update q.task i x }

@[simp] theorem task_set (q : WorkQueue ι κ τ ο) (i k : ι) (x : Option (Task κ τ ο)) :
    (q.set i x).task k = if k = i then x else q.task k := by
  simp [set, Function.update_apply]

theorem holder?_set (q : WorkQueue ι κ τ ο) (i k : ι) (x : Option (Task κ τ ο)) :
    (q.set i x).holder? k = if k = i then x.bind (·.phase.holder?) else q.holder? k := by
  rw [holder?, task_set]
  split <;> rfl

theorem ext_set {q q' : WorkQueue ι κ τ ο} {i : ι} {x : Option (Task κ τ ο)}
    (ht : ∀ k, q'.task k = if k = i then x else q.task k) (hg : q'.grants = q.grants) : q' = q.set i x := by
  obtain ⟨task, grants⟩ := q'
  obtain rfl : task = (q.set i x).task := funext fun k => by rw [task_set]; exact ht k
  obtain rfl : grants = q.grants := hg
  rfl

variable [DecidableEq κ]

/-- **The queue's steps**, where the outcomes in `again` may be revived. -/
inductive Step (again : ο → Prop) : WorkQueue ι κ τ ο → QueueOp ι κ τ ο → WorkQueue ι κ τ ο → Prop
  | post {q i j} (h : q.task i = none) : Step again q (.post i j) (q.set i (some ⟨j, .waiting⟩))
  | take {q i j t} (h : q.task i = some ⟨j, .waiting⟩) (hf : q.Free j) :
      Step again q (.take i t) ((q.grant j).set i (some ⟨j, .held t (q.grants j + 1)⟩))
  | handOver {q i j t n} (h : q.task i = some ⟨j, .held t n⟩) :
      Step again q (.handOver i) ((q.grant j).set i (some ⟨j, .held t (q.grants j + 1)⟩))
  | giveBack {q i j t n} (h : q.task i = some ⟨j, .held t n⟩) :
      Step again q (.giveBack i t) (q.set i (some ⟨j, .waiting⟩))
  | finish {q i j t n o} (h : q.task i = some ⟨j, .held t n⟩) :
      Step again q (.finish i t o) (q.set i (some ⟨j, .done o⟩))
  | drop {q i j o} (h : q.task i = some ⟨j, .waiting⟩) : Step again q (.drop i o) (q.set i (some ⟨j, .done o⟩))
  | revive {q i j o} (h : q.task i = some ⟨j, .done o⟩) (ha : again o) :
      Step again q (.revive i) (q.set i (some ⟨j, .waiting⟩))
  | forget {q i j o} (h : q.task i = some ⟨j, .done o⟩) : Step again q (.forget i) (q.set i none)

variable {again : ο → Prop}

/-- **Tasks that change one by one** make a run, if each change is a step wherever the others stand. -/
theorem run_each (f : ι → QueueOp ι κ τ ο) : ∀ {L : List ι} {q q' : WorkQueue ι κ τ ο}, L.Nodup →
    q'.grants = q.grants → (∀ i, i ∉ L → q'.task i = q.task i) →
    (∀ i ∈ L, ∀ p : WorkQueue ι κ τ ο, p.task i = q.task i → Step again p (f i) (p.set i (q'.task i))) →
    ∃ atr, Run (Step again) q atr q' ∧ atr.map (·.2.1) = L.map f
  | [], q, q', _, hg, hout, _ => by
    obtain ⟨task, grants⟩ := q'
    obtain rfl : task = q.task := funext fun i => hout i (by simp)
    obtain rfl : grants = q.grants := hg
    exact ⟨[], .nil, rfl⟩
  | i :: L, q, q', hnd, hg, hout, hin => by
    obtain ⟨hi, hnd⟩ := List.nodup_cons.1 hnd
    have hstep := hin i (by simp) q rfl
    obtain ⟨atr, hrun, hlabels⟩ := run_each f (q := q.set i (q'.task i)) hnd hg
      (fun k hk => by
        rw [task_set]
        split
        · rename_i h; rw [h]
        · rename_i h; exact hout k (by simp [h, hk]))
      (fun k hk p hp => by
        have hki : k ≠ i := fun h => hi (h ▸ hk)
        rw [task_set, if_neg hki] at hp
        exact hin k (by simp [hk]) p hp)
    exact ⟨_, (Run.single hstep).append hrun, by simp [hlabels]⟩

end WorkQueue

/-! ## The ledger of a task -/

def QueueOp.target : QueueOp ι κ τ ο → ι
  | .post i _ | .take i _ | .handOver i | .giveBack i _ | .finish i _ _ | .drop i _ | .revive i | .forget i => i

def QueueOp.taker? : QueueOp ι κ τ ο → Option τ
  | .take _ t => some t
  | _         => none

def QueueOp.closer? : QueueOp ι κ τ ο → Option τ
  | .giveBack _ t | .finish _ t _ => some t
  | _                             => none

variable [DecidableEq ι]

/-- Who took task `i` with this operation. -/
def QueueOp.taken (i : ι) (a : QueueOp ι κ τ ο) : Option τ := if a.target = i then a.taker? else none

/-- Who gave task `i` back or finished it with this operation. -/
def QueueOp.closed (i : ι) (a : QueueOp ι κ τ ο) : Option τ := if a.target = i then a.closer? else none

variable [DecidableEq κ] {again : ο → Prop} {q q' : WorkQueue ι κ τ ο} {a : QueueOp ι κ τ ο}

open WorkQueue

/-- A step that takes a task finds it free, and one that closes it finds it held. -/
theorem WorkQueue.Step.ledger (h : WorkQueue.Step again q a q') (i : ι) :
    (q.holder? i).toList ++ (a.taken i).toList = (a.closed i).toList ++ (q'.holder? i).toList := by
  -- A step sets one task; whoever holds another one goes on holding it.
  have move : ∀ {x : Option (Task κ τ ο)} {p : WorkQueue ι κ τ ο}, q' = p.set a.target x → p.task = q.task →
      (q.holder? a.target).toList ++ a.taker?.toList = a.closer?.toList ++ (x.bind (·.phase.holder?)).toList →
      (q.holder? i).toList ++ (a.taken i).toList = (a.closed i).toList ++ (q'.holder? i).toList := by
    intro x p hq hp hk
    rw [hq, holder?_set, QueueOp.taken, QueueOp.closed]
    by_cases hi : a.target = i
    · subst hi
      simpa using hk
    · simp [hi, Ne.symm hi, holder?, hp]
  cases h with
  | post h | take h | handOver h | giveBack h | finish h | drop h | revive h | forget h =>
    exact move rfl rfl (by simp [QueueOp.target, QueueOp.taker?, QueueOp.closer?, holder?, h, Phase.holder?])

/-- **Whoever took a task closed it before the next one took it**: its holder at the start and those who took it are
those who closed it, in order, and then its holder at the end. -/
theorem WorkQueue.ledger {atr : List (WorkQueue ι κ τ ο × QueueOp ι κ τ ο × WorkQueue ι κ τ ο)}
    (hr : Run (WorkQueue.Step again) q atr q') (i : ι) :
    (q.holder? i).toList ++ (atr.map (·.2.1)).filterMap (·.taken i) =
      (atr.map (·.2.1)).filterMap (·.closed i) ++ (q'.holder? i).toList := by
  have one : ∀ f : QueueOp ι κ τ ο → Option τ, ∀ a, [a].filterMap f = (f a).toList := fun f a => by
    cases h : f a <;> simp [h]
  induction hr with
  | nil => simp
  | snoc _ hst ih =>
    rw [List.map_append, List.filterMap_append, List.filterMap_append, ← List.append_assoc, ih, List.map_singleton, one,
      one, List.append_assoc, List.append_assoc, hst.ledger i]

end Sys
