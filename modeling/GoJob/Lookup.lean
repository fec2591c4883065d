import GoJob.Registry
/-!
# Lookup — what a callback is told about a tenant

A tenant that is published is available, and one that was seen enabled is pending; any other is unknown, and an executor
that is told so throws its result away.  A read puts every tenant it reports enabled into one of the two maps.  A
retirement takes its tenant out of both, also when the tenant was enabled again while it drained.
-/
namespace GoJob
namespace Runtime

open Rel

variable {limit : Instant} {r r' : Registry} {rows : Rows} {name : String}

/-! ## What a read does to `seen` -/

theorem Registry.lookup_see_ne {seen : AList (fun _ : String => Nat)} {t : Control.Tenant} (h : name ≠ t.name) :
    (r.see seen t).lookup name = seen.lookup name := by
  unfold Registry.see
  repeat' split
  all_goals simp [h]

/-- One row decides about its own name. -/
theorem Registry.lookup_see {seen : AList (fun _ : String => Nat)} {t : Control.Tenant} :
    (r.see seen t).lookup t.name = if t.enabled then some (max ((seen.lookup t.name).getD 0) t.generation)
      else if t.name ∈ r.tenants then seen.lookup t.name else none := by
  unfold Registry.see
  by_cases he : t.enabled = true
  · by_cases hg : (seen.lookup t.name).getD 0 < t.generation
    · simp [he, hg, Nat.max_eq_right hg.le]
    · -- Generations are positive, so the name is there already.
      have hpos := t.positive
      cases hs : seen.lookup t.name with
      | none => rw [hs] at hg; exact absurd hpos hg
      | some g =>
        rw [hs] at hg
        simp only [Option.getD_some, not_lt] at hg
        simp [he, hs, Nat.not_lt.2 hg, Nat.max_eq_left hg]
  · by_cases hm : t.name ∈ r.tenants <;> simp [he, hm]

theorem Registry.lookup_foldl_see : ∀ (l : List Control.Tenant) (seen : AList (fun _ : String => Nat)),
    (l.map Control.Tenant.name).Nodup → (l.foldl r.see seen).lookup name =
      match l.find? (fun t => t.name = name) with
      | none   => seen.lookup name
      | some t => (r.see seen t).lookup name
  | [], _, _ => rfl
  | t :: l, seen, hn => by
    rw [List.map_cons, List.nodup_cons] at hn
    rw [List.foldl_cons, Registry.lookup_foldl_see l _ hn.2]
    by_cases ht : t.name = name
    · have hrest : l.find? (fun t => t.name = name) = none := List.find?_eq_none.2 (fun u hu hname => hn.1 (by
        rw [ht, ← of_decide_eq_true hname]
        exact List.mem_map_of_mem hu))
      simp [hrest, ht]
    · rw [List.find?_cons_of_neg (by simpa using ht)]
      cases hf : l.find? (fun t => t.name = name) with
      | none => exact Registry.lookup_see_ne (Ne.symm ht)
      | some u =>
        have hu : u.name = name := by simpa using List.find?_some hf
        subst hu
        simp only [Registry.lookup_see, Registry.lookup_see_ne (Ne.symm ht)]

theorem lookup_foldl_forget : ∀ (keys : List String) (seen : AList (fun _ : String => Nat)),
    (keys.foldl (forget rows) seen).lookup name =
      if name ∈ keys ∧ rows.get? name = none then none else seen.lookup name
  | [], _ => by simp
  | k :: keys, seen => by
    rw [List.foldl_cons, lookup_foldl_forget keys]
    unfold forget
    by_cases hk : name = k
    · subst hk
      cases hr : rows.get? name <;> simp
    · have hlook : (if (rows.get? k).isSome then seen else seen.erase k).lookup name = seen.lookup name := by
        split
        · rfl
        · exact AList.lookup_erase_ne hk
      rw [hlook]
      simp [hk]

/-- **`seen` after a read**, name by name. -/
theorem Registry.lookup_seenAfter : (r.seenAfter rows).lookup name =
    match rows.get? name with
    | none   => none
    | some t => if t.enabled then some (max ((r.seen.lookup name).getD 0) t.generation)
      else if name ∈ r.tenants then r.seen.lookup name else none := by
  unfold Registry.seenAfter
  simp only [lookup_foldl_forget]
  have hfold : (rows.rows.foldl r.see r.seen).lookup name = _ := Registry.lookup_foldl_see rows.rows r.seen rows.nodup
  cases hr : rows.get? name with
  | none =>
    split
    · rfl
    · rename_i hk
      simp only [and_true, ← AList.mem_keys] at hk
      exact AList.lookup_eq_none.2 hk
  | some t =>
    have ht : t.name = name := Table.get?_key hr
    have hfind : rows.rows.find? (fun t => t.name = name) = some t := hr
    rw [if_neg (by simp), hfold, hfind]
    subst ht
    exact Registry.lookup_see

/-! ## The answer -/

/-- Every tenant the last read reported enabled is available or pending. -/
def Registry.Answers (r : Registry) : Prop :=
  ∀ name t, r.last.get? name = some t → t.enabled = true → name ∈ r.tenants ∨ name ∈ r.seen

/-- A retirement that the step finishes is of a tenant the last read did not report enabled. -/
def RetiresDisabled (x : Registry × (Op × Instant) × Registry) : Prop :=
  ∀ n d t, x.2.1.1 = .finish n → x.1.retirements[n]? = some d → x.1.last.get? d.name = some t → t.enabled = false

/-- The steps of one instance, whatever the control database answers. -/
def Steps (limit : Instant) (r : Registry) (l : Op × Instant) (r' : Registry) : Prop := r.step limit l.2 l.1 = some r'

theorem Registry.Answers.step {l : Op × Instant} (h : r.Answers) (hc : RetiresDisabled (r, l, r'))
    (hs : Steps limit r l r') : r'.Answers := by
  obtain ⟨op, now⟩ := l
  cases Move.of_step hs with
  | apply =>
    intro name t ht he
    refine Or.inr (AList.lookup_isSome.1 ?_)
    show ((r.seenAfter _).lookup name).isSome = true
    rw [Registry.lookup_seenAfter, ht]
    simp [he]
  | publish =>
    intro name t ht he
    exact (h name t ht he).imp_left (fun hm => (AList.mem_insert _).2 (Or.inr hm))
  | @finish n d hd =>
    intro name t ht he
    have hne : name ≠ d.name := fun heq => by
      subst heq
      rw [hc n d t rfl hd ht] at he; cases he
    refine (h name t ht he).imp (fun hm => ?_) (fun hm => AList.mem_erase.2 ⟨hne, hm⟩)
    show name ∈ if r.tenants.lookup d.name = some d.object then r.tenants.erase d.name else r.tenants
    split
    · exact AList.mem_erase.2 ⟨hne, hm⟩
    · exact hm
  | _ => exact h

/-- **A live tenant is never unknown, as long as no retirement ends for a tenant that the last read reported
enabled.**  Its callbacks are then never told NOT_FOUND. -/
theorem live_tenant_is_known {tr : List (Registry × (Op × Instant) × Registry)} (hr : Sys.Run (Steps limit) {} tr r)
    (hc : ∀ x ∈ tr, RetiresDisabled x) (name : String) :
    (r.lookup name = .unknown → ∀ t, r.last.get? name = some t → t.enabled = false) ∧
    ∀ t, r.last.get? name = some t → t.enabled = true →
      (r.lookup name = .available ∨ r.lookup name = .pending) ∧
      ∀ fenced, Server.resolve fenced name (r.lookup name) ≠ .error ⟨.notFound, "unknown tenant"⟩ := by
  have hinv : r.Answers := Sys.Run.invariant_of (I := Registry.Answers) RetiresDisabled
    (fun _ _ ht => by cases ht) (fun _ _ _ h hx hs => h.step hx hs) hr hc
  have hknown : ∀ t, r.last.get? name = some t → t.enabled = true →
      r.lookup name = .available ∨ r.lookup name = .pending := by
    intro t ht he
    unfold Registry.lookup
    rcases hinv name t ht he with hm | hm
    · exact Or.inl (if_pos hm)
    · by_cases htn : name ∈ r.tenants
      · exact Or.inl (if_pos htn)
      · exact Or.inr (by rw [if_neg htn, if_pos hm])
  refine ⟨fun hu t ht => ?_, fun t ht he => ⟨hknown t ht he, fun fenced => ?_⟩⟩
  · by_contra he
    rw [Bool.not_eq_false] at he
    rcases hknown t ht he with h | h <;> rw [hu] at h <;> cases h
  · rcases hknown t ht he with h | h <;> rw [h] <;> unfold Server.resolve <;> repeat' split
    all_goals simp_all

/-! ## A tenant enabled again while it drains -/

/-- The row of `acme` at a generation. -/
def acme (generation : Nat) (enabled : Bool) (h : 0 < generation := by decide) : Control.Tenant :=
  ⟨"acme", "dsn", "uuid", enabled, generation, h⟩

def only (t : Control.Tenant) : Rows := ⟨[t], List.nodup_singleton _⟩

/-- A pass admits `acme` at generation 1. -/
def admitted : List (Op × Instant) :=
  [(.poll, 0), (.read (only (acme 1 true)), 0), (.apply, 0), (.snapshot, 0), (.retired, 0), (.refresh, 0),
    (.check (acme 1 true), 0), (.begin, 0), (.announce true true, 0), (.done, 0), (.confirm "acme", 1),
    (.confirmed "acme" (some (1, true)), 1), (.publish "acme", 1), (.settle "acme" true, 1), (.settled "acme" true, 1)]

/-- The next pass finds it disabled and starts to retire it. -/
def disabled : List (Op × Instant) :=
  [(.poll, 2), (.read (only (acme 2 false)), 2), (.apply, 2), (.snapshot, 2), (.retire "acme" 0, 2), (.retired, 2),
    (.refresh, 2), (.done, 2)]

/-- The one after that finds it enabled again. -/
def enabledAgain : List (Op × Instant) := [(.poll, 3), (.read (only (acme 3 true)), 3), (.apply, 3)]

theorem live_tenant_is_known_reenabled : ∃ tr r, Sys.Run (Steps 30) {} tr r ∧
    r.last.get? "acme" = some (acme 3 true) ∧ (r.lookup "acme" = .available ∨ r.lookup "acme" = .pending) := by
  obtain ⟨tr, r, hr, hq⟩ := Sys.play_checked (fun r l => Registry.step 30 l.2 r l.1) {}
    (admitted ++ disabled ++ [(.finish 0, 2)] ++ enabledAgain)
    (fun tr r => tr.all (fun x => match x.2.1.1 with
        | .finish n => (x.1.retirements[n]?).all (fun d => (x.1.last.get? d.name).all (fun t => !t.enabled))
        | _ => true) && decide (r.last.get? "acme" = some (acme 3 true))) (by decide +kernel)
  simp only [Bool.and_eq_true, List.all_eq_true, decide_eq_true_eq] at hq
  refine ⟨tr, r, hr, hq.2, ((live_tenant_is_known hr (fun x hx n d t hop hd ht => ?_) "acme").2 _ hq.2 rfl).1⟩
  have hx := hq.1 x hx
  rw [hop] at hx
  simpa [hd, ht] using hx

/-- The retirement ends after the read that found `acme` enabled again, and its callbacks are told to give up. -/
theorem reenabled_tenant_is_unknown : ∃ tr r t, Sys.Run (Steps 30) {} tr r ∧ r.last.get? "acme" = some t ∧
    t.enabled = true ∧ r.lookup "acme" = .unknown ∧
    Server.resolve false "acme" (r.lookup "acme") = .error ⟨.notFound, "unknown tenant"⟩ := by
  obtain ⟨tr, r, hr, hq⟩ := Sys.play_checked (fun r l => Registry.step 30 l.2 r l.1) {}
    (admitted ++ disabled ++ enabledAgain ++ [(.finish 0, 4)])
    (fun _ r => decide (r.last.get? "acme" = some (acme 3 true)) && decide (r.lookup "acme" = .unknown))
    (by decide +kernel)
  simp only [Bool.and_eq_true, decide_eq_true_eq] at hq
  exact ⟨tr, r, acme 3 true, hr, hq.1, rfl, hq.2, by rw [hq.2]; rfl⟩

end Runtime
end GoJob
