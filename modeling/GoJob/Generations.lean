import GoJob.Control
import GoJob.Runs
/-!
# Generations — what a tenant's generation stands for (`control/registry.go`)

Every accepted change of a tenant's row moves its generation by one, and no row is deleted.  So a generation stands for
one row: whoever reads a generation again reads the row they knew, and nothing happened to it in between.  A tenant
moves to another schema only while it is disabled, so an instance that saw it enabled before and after the move is at
least three generations behind.
-/
namespace GoJob
namespace Control

open Rel Sys

/-! ## The calls -/

/-- A call that writes the registry or the observations. -/
inductive Call
  | addTenant (name dsn schemaUUID actor reason : String)
  | setTenantEnabled (name : String) (enabled : Bool) (actor reason : String)
  | setTenantDSN (name dsn schemaUUID actor reason : String) (quiescedElsewhere : Bool) (liveness : Instant)
  | observe (name instanceId : String) (generation : Nat) (quiesced : Bool)
  deriving DecidableEq

def Store.call (s : Store) (now : Instant) : Call → Except Err Store
  | .addTenant name dsn schemaUUID actor reason => s.addTenant name dsn schemaUUID actor reason
  | .setTenantEnabled name enabled actor reason => s.setTenantEnabled name enabled actor reason
  | .setTenantDSN name dsn schemaUUID actor reason quiescedElsewhere liveness =>
    s.setTenantDSN now name dsn schemaUUID actor reason quiescedElsewhere liveness
  | .observe name instanceId generation quiesced => .ok (s.observe now name instanceId generation quiesced)

/-- The control database and its clock. -/
structure Plane where
  store : Store
  now   : Instant

/-- One call, at an instant; a refused one leaves the database as it was. -/
def Plane.step (p : Plane) (l : Call × Instant) : Option Plane :=
  if p.now ≤ l.2 then some ⟨(p.store.call l.2 l.1).toOption.getD p.store, l.2⟩ else none

def Plane.Step (p : Plane) (l : Call × Instant) (p' : Plane) : Prop := p.step l = some p'

abbrev Plane.History := List (Plane × (Call × Instant) × Plane)

variable {s s' : Store} {p p' : Plane} {l : Call × Instant} {name : String} {t t' : Tenant} {tr : Plane.History}

theorem Plane.Step.eq (h : p.Step l p') : p' = ⟨(p.store.call l.2 l.1).toOption.getD p.store, l.2⟩ := by
  unfold Plane.Step Plane.step at h
  split at h
  · exact (Option.some.inj h).symm
  · cases h

theorem Plane.Step.commit (h : p.Step l p') : p'.store = p.store ∨ p.store.call l.2 l.1 = .ok p'.store := by
  obtain rfl := h.eq
  cases hc : p.store.call l.2 l.1 with
  | error e => exact Or.inl rfl
  | ok s => exact Or.inr rfl

theorem audited_ok {actor action : String} (h : audited actor action s = .ok s') : s' = s := by
  unfold audited at h
  split at h
  · cases h
  · exact (Except.ok.inj h).symm

/-! ## What a call does to a row -/

/-- **Everything a call may do to a row**: turn it on or off, or move it while it is off. -/
inductive Edited (t : Tenant) : Tenant → Prop
  | kept : Edited t t
  | switched : Edited t { t with enabled := !t.enabled, generation := t.generation + 1, positive := Nat.succ_pos _ }
  | moved {dsn schemaUUID : String} (h : t.enabled = false) : Edited t { t with
      dsn := dsn, schemaUUID := schemaUUID, generation := t.generation + 1, positive := Nat.succ_pos _ }

theorem addTenant_ok {n dsn schemaUUID actor reason : String}
    (h : s.addTenant n dsn schemaUUID actor reason = .ok s') : s'.observations = s.observations ∧
      ∀ {name t}, s.registry.get? name = some t → s'.registry.get? name = some t := by
  unfold Store.addTenant at h
  repeat' split at h
  all_goals try cases h
  rename_i hn
  obtain rfl := audited_ok h
  refine ⟨rfl, fun {name t} ht => ?_⟩
  have hne : n ≠ name := fun heq => by
    subst heq
    rw [Table.get?_eq_none_iff_notMem.2 hn] at ht
    cases ht
  show (s.registry.insert _ hn).get? name = some t
  rw [Table.get?_insert, if_neg hne]
  exact ht

theorem setTenantEnabled_ok {n actor reason : String} {enabled : Bool}
    (h : s.setTenantEnabled n enabled actor reason = .ok s') : s'.observations = s.observations ∧
      ∀ {name t}, s.registry.get? name = some t → ∃ t', s'.registry.get? name = some t' ∧ Edited t t' := by
  unfold Store.setTenantEnabled at h
  split at h
  · cases h
  split at h
  case isFalse => cases h
  rename_i hflip
  obtain rfl := audited_ok h
  refine ⟨rfl, fun {name t} ht => ?_⟩
  by_cases hn : name = n
  · subst hn
    rw [ht, Option.any_some, decide_eq_true_eq] at hflip
    obtain rfl : enabled = !t.enabled := by cases enabled <;> cases ht : t.enabled <;> simp_all
    refine ⟨_, ?_, .switched⟩
    simp [Table.get?_modify, ht]
  · exact ⟨t, by simp [Table.get?_modify, hn, ht], .kept⟩

theorem setTenantDSN_ok {now liveness : Instant} {n dsn schemaUUID actor reason : String} {quiet : Bool}
    (h : s.setTenantDSN now n dsn schemaUUID actor reason quiet liveness = .ok s') : quiet = true ∧
    ∃ t, s.registry.get? n = some t ∧ t.enabled = false ∧ s.blockers now n t.generation liveness = [] ∧
      s'.observations = s.observations ∧ ∀ k, s'.registry.get? k = if k = n then
        some { t with dsn := dsn, schemaUUID := schemaUUID, generation := t.generation + 1, positive := Nat.succ_pos _ }
        else s.registry.get? k := by
  unfold Store.setTenantDSN at h
  repeat' split at h
  all_goals try cases h
  rename_i hquiet _ t ht hblock hoff
  obtain rfl := audited_ok h
  refine ⟨by simpa using hquiet, t, ht, by simpa using hoff, not_not.1 hblock, rfl, fun k => ?_⟩
  by_cases hk : k = n
  · subst hk; simp [Table.get?_modify, ht]
  · simp [Table.get?_modify, hk]

theorem Plane.Step.edited (h : p.Step l p') (ht : p.store.registry.get? name = some t) :
    ∃ t', p'.store.registry.get? name = some t' ∧ Edited t t' := by
  obtain ⟨c, now⟩ := l
  rcases h.commit with hsame | hok
  · exact ⟨t, by rw [hsame, ht], .kept⟩
  · cases c with
    | addTenant => exact ⟨t, (addTenant_ok hok).2 ht, .kept⟩
    | setTenantEnabled => exact (setTenantEnabled_ok hok).2 ht
    | setTenantDSN n =>
      obtain ⟨-, r, hr, hoff, -, -, hrows⟩ := setTenantDSN_ok hok
      rw [hrows]
      by_cases hn : name = n
      · subst hn
        obtain rfl := Option.some.inj (hr.symm.trans ht)
        exact ⟨_, if_pos rfl, .moved hoff⟩
      · exact ⟨t, by rw [if_neg hn, ht], .kept⟩
    | observe => exact ⟨t, Except.ok.inj hok ▸ ht, .kept⟩

/-! ## Runs -/

/-- **What a row can have become.**  A move costs a generation, and so does each switch before and after it. -/
structure Since (t t' : Tenant) : Prop where
  generation : t.generation ≤ t'.generation
  same       : t'.generation = t.generation → t' = t
  apart      : t'.dsn ≠ t.dsn ∨ t'.schemaUUID ≠ t.schemaUUID →
    t.generation + t.enabled.toNat + 1 + t'.enabled.toNat ≤ t'.generation

theorem Since.refl (t : Tenant) : Since t t := ⟨le_refl _, fun _ => rfl, by simp⟩

theorem Since.edit {t'' : Tenant} (h : Since t t') (he : Edited t' t'') : Since t t'' := by
  have hgen := h.generation
  cases he with
  | kept => exact h
  | switched =>
    refine ⟨by show _ ≤ t'.generation + 1; omega, fun hg => ?_, fun hd => ?_⟩
    · have : t'.generation + 1 = t.generation := hg
      omega
    · have := h.apart hd
      show _ + 1 + (!t'.enabled).toNat ≤ t'.generation + 1
      cases ht : t'.enabled <;> simp [ht] at this ⊢ <;> omega
  | moved hoff =>
    refine ⟨by show _ ≤ t'.generation + 1; omega, fun hg => ?_, fun _ => ?_⟩
    · have : t'.generation + 1 = t.generation := hg
      omega
    · -- A row that was on has been turned off since, which took a generation.
      have hswitch : t.enabled.toNat ≤ t'.generation - t.generation := by
        rcases Nat.eq_or_lt_of_le hgen with heq | hlt
        · rw [← h.same heq.symm, hoff]; exact Nat.zero_le _
        · exact (Bool.toNat_le _).trans (by omega)
      show _ + t'.enabled.toNat ≤ t'.generation + 1
      rw [hoff]
      simp only [Bool.toNat_false]
      omega

/-- No row is lost along a run. -/
theorem since_run (hr : Run Plane.Step p tr p') (ht : p.store.registry.get? name = some t) :
    ∃ t', p'.store.registry.get? name = some t' ∧ Since t t' := by
  induction hr with
  | nil => exact ⟨t, ht, .refl t⟩
  | snoc _ hst ih =>
    obtain ⟨t₁, ht₁, hs⟩ := ih
    obtain ⟨t₂, ht₂, he⟩ := hst.edited ht₁
    exact ⟨t₂, ht₂, hs.edit he⟩

/-- **Nothing happened to a row between two moments at one generation.** -/
theorem row_between {q : Plane} {tr' : Plane.History} (hr : Run Plane.Step p tr q) (hr' : Run Plane.Step q tr' p')
    (ht : p.store.registry.get? name = some t) (ht' : p'.store.registry.get? name = some t')
    (hg : t'.generation = t.generation) : q.store.registry.get? name = some t := by
  obtain ⟨t₁, ht₁, hs₁⟩ := since_run hr ht
  obtain ⟨t₂, ht₂, hs₂⟩ := since_run hr' ht₁
  obtain rfl := Option.some.inj (ht'.symm.trans ht₂)
  have := hs₁.generation
  have := hs₂.generation
  rw [ht₁, hs₁.same (by omega)]

theorem row_kept (hr : Run Plane.Step p tr p') (ht : p.store.registry.get? name = some t)
    (ht' : p'.store.registry.get? name = some t') (hg : t'.generation = t.generation) :
    t' = t ∧ ∀ x ∈ tr, x.1.store.registry.get? name = some t := by
  refine ⟨Option.some.inj (ht'.symm.trans (row_between hr .nil ht ht' hg)), fun x hx => ?_⟩
  obtain ⟨pre, post, -, hpre, hst, hpost⟩ := hr.split hx
  exact row_between hpre ((Run.single hst).append hpost) ht ht' hg

/-- A row that was read enabled, or whose DSN was read, is the row itself. -/
theorem tenants_row {unreadable : List String} (h : (s.tenants unreadable).get? name = some t)
    (hread : t.enabled = true ∨ name ∉ unreadable) : s.registry.get? name = some t := by
  rw [Store.tenants, Table.get?_update] at h
  obtain ⟨r, hr, rfl⟩ := Option.map_eq_some_iff.1 h
  have hname : r.name = name := Table.get?_key hr
  by_cases hm : r.name ∈ unreadable
  · rcases hread with he | hn
    · simp [hm] at he
    · exact absurd (hname ▸ hm) hn
  · simp [hm, hr]

/-- A tenant is added, turned off, moved and turned on again. -/
def movedTenant : List (Call × Instant) :=
  [(.addTenant "acme" "old" "u1" "operator" "new", 0), (.setTenantEnabled "acme" false "operator" "move", 1),
    (.setTenantDSN "acme" "new" "u2" "operator" "move" true 90, 2),
    (.setTenantEnabled "acme" true "operator" "moved", 3)]

/-! ## Observations -/

/-- What a step records of an instance. -/
def observed (name instanceId : String) (x : Plane × (Call × Instant) × Plane) : Option Observation :=
  match x.2.1.1 with
  | .observe n i generation quiesced =>
    if n = name ∧ i = instanceId then some ⟨n, i, generation, quiesced, utc x.2.1.2⟩ else none
  | _ => none

theorem Plane.Step.observation {inst : String} (h : p.Step l p') : p'.store.observations.get? (name, inst) =
    (observed name inst (p, l, p')).or (p.store.observations.get? (name, inst)) := by
  obtain ⟨c, now⟩ := l
  have kept : ((∀ n i g q, c ≠ .observe n i g q) → p.store.call now c = .ok p'.store →
      p'.store.observations = p.store.observations) := fun hc hok => by
    cases c with
    | addTenant => exact (addTenant_ok hok).1
    | setTenantEnabled => exact (setTenantEnabled_ok hok).1
    | setTenantDSN =>
      obtain ⟨-, _, -, -, -, hobs, -⟩ := setTenantDSN_ok hok
      exact hobs
    | observe => exact absurd rfl (hc _ _ _ _)
  cases c with
  | observe n i g q =>
    rw [h.eq]
    show (p.store.observations.upsert ⟨n, i, g, q, utc now⟩).get? (name, inst) = _
    rw [Table.get?_upsert]
    show (if (n, i) = (name, inst) then _ else _) = _
    by_cases hk : n = name ∧ i = inst <;> simp [observed, hk, Prod.ext_iff]
  | _ =>
    rcases h.commit with hsame | hok
    · rw [hsame]; rfl
    · rw [kept (by simp) hok]; rfl

/-- **The table has each instance's last word.** -/
theorem observation_is_last {t₀ : Instant} {inst : String} (hr : Run Plane.Step ⟨.empty, t₀⟩ tr p) :
    p.store.observations.get? (name, inst) = (tr.filterMap (observed name inst)).getLast? := by
  induction hr with
  | nil => rfl
  | snoc _ hst ih =>
    rw [hst.observation, ih, List.filterMap_append, List.getLast?_append]
    congr 1
    simp only [List.filterMap_cons, List.filterMap_nil]
    split <;> simp_all

/-- Nobody blocks: every instance heard of lately has acknowledged the generation, with nothing in hand. -/
theorem acknowledged {now liveness : Instant} {generation : Nat} {o : Observation} {inst : String}
    (h : s.blockers now name generation liveness = []) (ho : s.observations.get? (name, inst) = some o)
    (hlive : o.live now liveness = true) : generation ≤ o.generation ∧ o.quiesced = true := by
  have hname : o.tenant = name := congrArg Prod.fst (Table.get?_key ho)
  by_contra hnot
  have hmem : o.instanceId ∈ s.blockers now name generation liveness := by
    refine (List.mem_insertionSort _).2 (List.mem_map_of_mem (List.mem_filter.2 ⟨Table.mem_of_get? ho, ?_⟩))
    rw [not_and_or, not_le, Bool.not_eq_true] at hnot
    simpa [hname, hlive] using hnot
  rw [h] at hmem
  cases hmem

end Control
end GoJob
