import GoJob.Lookup
/-!
# Staleness — how long an instance acts on a registry read

The fence lets an instance act for the staleness limit after its last refresh.  A pass refreshes it at its end, with
the instant of the refresh and not with that of the read the pass was made on.
-/
namespace GoJob
namespace Runtime

open Rel

variable {limit : Instant} {r r' : Registry} {tr : List (Registry × (Op × Instant) × Registry)} {t : Instant}

/-- A registry read that began at `t` has been completed. -/
def ReadFrom (tr : List (Registry × (Op × Instant) × Registry)) (t : Instant) : Prop :=
  ∃ x ∈ tr, ∃ rows, x.2.1.1 = .read rows ∧ x.1.pass = some (.polling t)

/-- When the read of a pass began, until the pass has refreshed the fence. -/
def Pass.readAt : Pass → Option Instant
  | .polling t | .read t _ | .applied t _ | .retiring t _ _ _ | .observing t _ _ _ _
  | .reporting t _ _ _ _ _ _ => some t
  | .admitting _ | .beginning _ _ | .announcing _ _ => none

/-- The same, once the read is completed. -/
def Pass.knownAt : Pass → Option Instant
  | .polling _ => none
  | p => p.readAt

section
variable {now : Instant} {op : Op}

theorem Move.readAt (h : Move limit now r op r') (ht : r'.pass.bind Pass.readAt = some t) :
    (op = .poll ∧ t = now) ∨ r.pass.bind Pass.readAt = some t := by
  cases h <;> simp_all [Pass.readAt, Registry.modify, Registry.setAdmission, Registry.endAdmit, Registry.publish,
    Registry.remove]

theorem Move.knownAt (h : Move limit now r op r') (ht : r'.pass.bind Pass.knownAt = some t) :
    (∃ rows, op = .read rows ∧ r.pass = some (.polling t)) ∨ r.pass.bind Pass.knownAt = some t := by
  cases h <;> simp_all [Pass.readAt, Pass.knownAt, Registry.modify, Registry.setAdmission, Registry.endAdmit,
    Registry.publish, Registry.remove]

/-- Only a refresh moves the fence. -/
theorem Move.lastRead (h : Move limit now r op r') : r'.lastRead = r.lastRead ∨
    ∃ t rows held, op = .refresh ∧ r.pass = some (.observing t rows held [] true) ∧ now - t ≤ limit ∧
      r'.lastRead = some now := by
  cases h with
  | refresh hp ht => exact Or.inr ⟨_, _, _, rfl, hp, ht, rfl⟩
  | _ => exact Or.inl rfl

end

/-! ## The reads of a run -/

/-- What the trace says about the read of the pass: it began at a step, no read that was completed began later, and it
was completed once the pass is past it. -/
structure Reads (tr : List (Registry × (Op × Instant) × Registry)) (r : Registry) : Prop where
  begun  : ∀ t, r.pass.bind Pass.readAt = some t → ∃ x ∈ tr, x.2.1.2 = t
  latest : ∀ t, r.pass.bind Pass.readAt = some t → ∀ t', ReadFrom tr t' → t' ≤ t
  known  : ∀ t, r.pass.bind Pass.knownAt = some t → ReadFrom tr t
  past   : ∀ t, ReadFrom tr t → ∃ x ∈ tr, x.2.1.2 = t

theorem ReadFrom.mono {tr' : List (Registry × (Op × Instant) × Registry)} (h : ReadFrom tr t) :
    ReadFrom (tr ++ tr') t := by
  obtain ⟨x, hx, hread⟩ := h
  exact ⟨x, List.mem_append_left _ hx, hread⟩

theorem readFrom_snoc {x : Registry × (Op × Instant) × Registry} :
    ReadFrom (tr ++ [x]) t ↔ ReadFrom tr t ∨ ∃ rows, x.2.1.1 = .read rows ∧ x.1.pass = some (.polling t) := by
  unfold ReadFrom
  simp only [List.mem_append, List.mem_singleton]
  constructor
  · rintro ⟨y, hy | rfl, hread⟩
    · exact Or.inl ⟨y, hy, hread⟩
    · exact Or.inr hread
  · rintro (⟨y, hy, hread⟩ | hread)
    · exact ⟨y, Or.inl hy, hread⟩
    · exact ⟨x, Or.inr rfl, hread⟩

theorem Reads.step {op : Op} {now : Instant} (h : Reads tr r) (hm : Move limit now r op r')
    (hnow : ∀ x ∈ tr, x.2.1.2 ≤ now) : Reads (tr ++ [(r, (op, now), r')]) r' := by
  have hstep : ∀ {t}, (∃ x ∈ tr, x.2.1.2 = t) → ∃ x ∈ tr ++ [(r, (op, now), r')], x.2.1.2 = t :=
    fun ⟨x, hx, ht⟩ => ⟨x, List.mem_append_left _ hx, ht⟩
  refine ⟨fun t ht => ?_, fun t ht t' ht' => ?_, fun t ht => ?_, fun t ht => ?_⟩
  · rcases hm.readAt ht with ⟨-, rfl⟩ | ht
    · exact ⟨(r, (op, t), r'), by simp, rfl⟩
    · exact hstep (h.begun t ht)
  · rcases hm.readAt ht with ⟨rfl, rfl⟩ | ht
    · -- A new read begins after all that were completed.
      rcases readFrom_snoc.1 ht' with hr | ⟨rows, hop, -⟩
      · obtain ⟨x, hx, rfl⟩ := h.past t' hr
        exact hnow x hx
      · cases hop
    · rcases readFrom_snoc.1 ht' with hr | ⟨rows, -, hp⟩
      · exact h.latest t ht t' hr
      · have hp : r.pass = some (.polling t') := hp
        rw [hp] at ht
        exact (Option.some.inj ht).le
  · rcases hm.knownAt ht with ⟨rows, hop, hp⟩ | ht
    · exact readFrom_snoc.2 (Or.inr ⟨rows, hop, hp⟩)
    · exact (h.known t ht).mono
  · rcases readFrom_snoc.1 ht with hr | ⟨rows, -, hp⟩
    · exact hstep (h.past t hr)
    · have hp : r.pass = some (.polling t) := hp
      exact hstep (h.begun t (by rw [hp]; rfl))

/-- The last of the recorded instants is the latest. -/
theorem times_snoc {x : Registry × (Op × Instant) × Registry}
    (h : ((tr ++ [x]).map (·.2.1.2)).Pairwise (· ≤ ·)) :
    (tr.map (·.2.1.2)).Pairwise (· ≤ ·) ∧ ∀ y ∈ tr, y.2.1.2 ≤ x.2.1.2 := by
  rw [List.map_append, List.pairwise_append] at h
  exact ⟨h.1, fun y hy => h.2.2 _ (List.mem_map_of_mem hy) _ (by simp)⟩

theorem reads_run (hr : Sys.Run (Steps limit) {} tr r) (hmono : (tr.map (·.2.1.2)).Pairwise (· ≤ ·)) : Reads tr r := by
  refine Sys.Run.history (J := fun tr r => (tr.map (·.2.1.2)).Pairwise (· ≤ ·) → Reads tr r) ?_ ?_ hr hmono
  · intro _
    refine ⟨fun t ht => ?_, fun t ht => ?_, fun t ht => ?_, fun t ht => ?_⟩
    · cases ht
    · cases ht
    · cases ht
    · obtain ⟨x, hx, -⟩ := ht
      cases hx
  · intro tr r a r' _ ih hst hmono
    obtain ⟨hmono, hnow⟩ := times_snoc hmono
    exact (ih hmono).step (Move.of_step hst) hnow

/-! ## The fence -/

/-- **A stale instance is fenced within the limit**, in the state of a run: whenever the fence lets it act, a completed
read began no longer than the limit ago. -/
def FencedInTime (limit : Instant) (tr : List (Registry × (Op × Instant) × Registry)) (r : Registry) : Prop :=
  ∀ t, (∀ x ∈ tr, x.2.1.2 ≤ t) → Control.fenceHealthy limit t r.lastRead = true →
    ∃ t', ReadFrom tr t' ∧ t - limit ≤ t'

/-- A pass that may refresh the fence does so at the instant its read began. -/
def RefreshesAtOnce (limit : Instant) (x : Registry × (Op × Instant) × Registry) : Prop :=
  ∀ t rows held, x.2.1.1 = .refresh → x.1.pass = some (.observing t rows held [] true) → x.2.1.2 - t ≤ limit →
    x.2.1.2 ≤ t

theorem fenceHealthy_iff {now : Instant} {last : Option Instant} :
    Control.fenceHealthy limit now last = true ↔ ∃ t, last = some t ∧ now - t ≤ limit := by
  unfold Control.fenceHealthy
  cases last <;> simp

/-- A fence refreshed at once holds the instant a completed read began. -/
theorem lastRead_known (hr : Sys.Run (Steps limit) {} tr r) (hmono : (tr.map (·.2.1.2)).Pairwise (· ≤ ·))
    (honce : ∀ x ∈ tr, RefreshesAtOnce limit x) : ∀ t, r.lastRead = some t → ∃ t', ReadFrom tr t' ∧ t ≤ t' := by
  refine Sys.Run.history (J := fun tr r => (tr.map (·.2.1.2)).Pairwise (· ≤ ·) → (∀ x ∈ tr, RefreshesAtOnce limit x) →
    ∀ t, r.lastRead = some t → ∃ t', ReadFrom tr t' ∧ t ≤ t') ?_ ?_ hr hmono honce
  · intro _ _ t ht
    cases ht
  · intro tr r a r' hr ih hst hmono honce t ht
    obtain ⟨hmono, hnow⟩ := times_snoc hmono
    rcases (Move.of_step hst).lastRead with heq | ⟨t', rows, held, hop, hp, hle, hnew⟩
    · obtain ⟨t', hread, hle⟩ := ih hmono (fun x hx => honce x (List.mem_append_left _ hx)) t (heq ▸ ht)
      exact ⟨t', hread.mono, hle⟩
    · have hat := honce (r, a, r') (by simp) t' rows held hop hp hle
      have hknown := (reads_run hr hmono).known t' (by rw [hp]; rfl)
      cases hnew.symm.trans ht
      exact ⟨t', hknown.mono, hat⟩

/-- A pass over an empty registry that reads at 0 and refreshes the fence at `t`. -/
def idlePass (t : Instant) : List (Op × Instant) :=
  [(.poll, 0), (.read .empty, 0), (.apply, t), (.snapshot, t), (.retired, t), (.refresh, t)]

/-- Every refresh of the fence in these steps is at the instant its read began. -/
def refreshAtOnce (tr : List (Registry × (Op × Instant) × Registry)) : Bool :=
  tr.all (fun x => match x.2.1.1, x.1.pass with
    | .refresh, some (.observing t _ _ _ _) => decide (x.2.1.2 ≤ t)
    | _, _ => true)

/-- The instants of these steps are in order. -/
def inOrder (tr : List (Registry × (Op × Instant) × Registry)) : Bool :=
  decide ((tr.map (·.2.1.2)).Pairwise (· ≤ ·))

/-- The reads these steps completed began before `t`. -/
def readsBefore (t : Instant) (tr : List (Registry × (Op × Instant) × Registry)) : Bool :=
  tr.all (fun x => match x.1.pass with
    | some (.polling t') => decide (t' < t)
    | _ => true)

end Runtime
end GoJob
