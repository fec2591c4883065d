import GoJob.Lookup
/-!
# Engines — one live engine for a tenant

An engine is started when its tenant is published and stopped when a retirement of it ends.  In between it has to be
what the map of tenants holds for its name, or nothing will ever retire it.  Two checks keep a second admission away:
the pass looks the name up in the map, and then, in another locked section, among the admissions.  An admission that
ends between the two is seen by neither.
-/
namespace GoJob
namespace Runtime

variable {limit : Instant} {r r' : Registry} {name : String}

/-- The step ends a retirement of object `k`, whose engine it stops. -/
def Stops (x : Registry × (Op × Instant) × Registry) (k : Nat) : Prop :=
  ∃ n d, x.2.1.1 = .finish n ∧ x.1.retirements[n]? = some d ∧ d.object = k

/-- Object `k` was published and no step has stopped its engine. -/
def LiveEngine (tr : List (Registry × (Op × Instant) × Registry)) (r : Registry) (k : Nat) (e : Tenant) : Prop :=
  r.objects[k]? = some e ∧ ∀ x ∈ tr, ¬ Stops x k

/-- When an admission begins, nothing is published under its name. -/
def BeginsUnrouted (x : Registry × (Op × Instant) × Registry) : Prop :=
  ∀ todo w, x.2.1.1 = .begin → x.1.pass = some (.beginning todo w) → w.name ∉ x.1.tenants

/-- An entry of `admitting` whose admission has not published anything. -/
def unpublished : Option Admission → Bool
  | none   => true
  | some a => a.stage.failing

/-- What the flags and the map know of each other. -/
structure Registry.Disjoint (r : Registry) : Prop where
  /-- Nothing is published under the name of an admission that has yet to publish. -/
  alone : ∀ name a, r.admitting.lookup name = some a → unpublished a = true → name ∉ r.tenants
  /-- The pass that announces an admission holds its flag. -/
  flagged : ∀ todo w, r.pass = some (.announcing todo w) → r.admitting.lookup w.name = some none

/-! ## The flags and the map -/

theorem Registry.lookup_of_admission {a : Admission} (h : r.admission? name = some a) :
    r.admitting.lookup name = some (some a) := by
  unfold Registry.admission? at h
  cases hl : r.admitting.lookup name with
  | none => rw [hl] at h; cases h
  | some o => rw [hl] at h; exact congrArg some h

/-- The flags change under one name only, to an admission that is published or has a free name. -/
theorem Registry.Disjoint.admission (h : r.Disjoint) {a : Admission} (ha : r.admission? name = some a)
    {o : AList (fun _ : String => Option Admission)} (ho : ∀ n, n ≠ name → o.lookup n = r.admitting.lookup n)
    (hn : ∀ b, o.lookup name = some b → unpublished b = true → name ∉ r.tenants) :
    ({ r with admitting := o } : Registry).Disjoint := by
  refine ⟨fun n b hb hu => ?_, fun todo w hp => ?_⟩
  · by_cases heq : n = name
    · subst heq; exact hn b hb hu
    · exact h.alone n b ((ho n heq) ▸ hb) hu
  · have hflag := h.flagged todo w hp
    -- An admission in flight is not the bare flag of the pass.
    have hne : w.name ≠ name := fun heq => by
      rw [heq, Registry.lookup_of_admission ha] at hflag; cases hflag
    exact (ho _ hne).trans hflag

theorem Registry.Disjoint.set {a : Admission} {stage : Stage} (h : r.Disjoint) (ha : r.admission? name = some a)
    (hf : stage.failing = true → a.stage.failing = true) : (r.setAdmission name a stage).Disjoint := by
  refine h.admission ha (fun n hn => AList.lookup_insert_ne hn) (fun b hb hu => ?_)
  rw [AList.lookup_insert] at hb
  cases hb
  exact h.alone name _ (Registry.lookup_of_admission ha) (hf hu)

theorem Registry.Disjoint.endAdmit {a : Admission} (h : r.Disjoint) (ha : r.admission? name = some a) :
    (r.endAdmit name).Disjoint := by
  refine h.admission ha (fun n hn => AList.lookup_erase_ne hn) (fun b hb => ?_)
  rw [AList.lookup_erase] at hb
  cases hb

/-- **Publishing never replaces an entry.** -/
theorem Registry.Disjoint.free (h : r.Disjoint) {a : Admission} (ha : r.admission? name = some a)
    (hs : a.stage.failing = true) : name ∉ r.tenants :=
  h.alone name _ (Registry.lookup_of_admission ha) hs

theorem Registry.Disjoint.step {l : Op × Instant} (h : r.Disjoint) (hc : BeginsUnrouted (r, l, r'))
    (hs : Steps limit r l r') : r'.Disjoint := by
  obtain ⟨op, now⟩ := l
  cases Move.of_step hs with
  | poll | read | readFailed | apply | snapshot | keep | skip | retire | retired | look | report | lapse | refresh
  | routed | check | busy | done => exact ⟨h.alone, fun _ _ hp => by cases hp⟩
  | postpone | survey | acknowledge => exact ⟨h.alone, h.flagged⟩
  | @begin todo w hp hf =>
    refine ⟨fun n a ha hu => ?_, fun todo' w' hp' => ?_⟩
    · by_cases heq : n = w.name
      · subst heq; exact hc todo w rfl hp
      · exact h.alone n a ((AList.lookup_insert_ne heq) ▸ ha) hu
    · cases hp'; exact AList.lookup_insert _
  | @unannounced todo w wrote hp =>
    refine ⟨fun n a ha hu => ?_, fun _ _ hp' => by cases hp'⟩
    have hne : n ≠ w.name := fun heq => by
      rw [heq] at ha
      exact absurd (ha.symm.trans (AList.lookup_erase _ _)) (by simp)
    exact h.alone n a ((AList.lookup_erase_ne hne) ▸ ha) hu
  | @announce todo w hp =>
    refine ⟨fun n a ha hu => ?_, fun _ _ hp' => by cases hp'⟩
    by_cases heq : n = w.name
    · subst heq
      exact h.alone _ none (h.flagged _ _ hp) rfl
    · exact h.alone n a ((AList.lookup_insert_ne heq) ▸ ha) hu
  | confirm ha hst => exact h.set ha (fun _ => by rw [hst]; rfl)
  | confirmed ha hst => exact h.set ha (fun _ => by rw [hst]; rfl)
  | abandon _ ha => exact h.endAdmit ha
  | settle ha => exact h.set ha (fun hf => by cases hf)
  | settled ha => exact h.endAdmit ha
  | @publish name a t ha =>
    have hset : (r.setAdmission name a .published).Disjoint := h.set ha (fun hf => by cases hf)
    refine ⟨fun n b hb hu hmem => ?_, hset.flagged⟩
    rcases (AList.mem_insert _).1 hmem with rfl | hmem
    · -- The name is published now, and its admission says so.
      have hpub : (r.setAdmission n a .published).admitting.lookup n = some (some { a with stage := .published }) :=
        AList.lookup_insert _
      obtain rfl := Option.some.inj (hpub.symm.trans hb)
      cases hu
    · exact hset.alone n b hb hu hmem
  | @finish n d =>
    refine ⟨fun name a ha hu hmem => h.alone name a ha hu ?_, h.flagged⟩
    unfold Registry.remove at hmem
    simp only at hmem
    split at hmem
    · exact (AList.mem_erase.1 hmem).2
    · exact hmem

/-! ## The engines -/

theorem Registry.modify_name {k i : Nat} {f : Tenant → Tenant} {e : Tenant} (h : (r.objects.modify k f)[i]? = some e)
    (hf : ∀ t, (f t).name = t.name) : ∃ e₀, r.objects[i]? = some e₀ ∧ e₀.name = e.name := by
  rw [List.getElem?_modify] at h
  obtain ⟨e₀, he₀, rfl⟩ := Option.map_eq_some_iff.1 h
  refine ⟨e₀, he₀, ?_⟩
  split
  · exact (hf e₀).symm
  · rfl

/-- Every live engine is the entry of its name. -/
def Routed (tr : List (Registry × (Op × Instant) × Registry)) (r : Registry) : Prop :=
  ∀ k e, LiveEngine tr r k e → r.tenants.lookup e.name = some k

theorem Routed.step {tr : List (Registry × (Op × Instant) × Registry)} {l : Op × Instant} (h : Routed tr r)
    (hd : r.Disjoint) (hs : Steps limit r l r') : Routed (tr ++ [(r, l, r')]) r' := by
  intro k e hk
  obtain ⟨hobj, hlive⟩ := hk
  have hbefore : ∀ x ∈ tr, ¬ Stops x k := fun x hx => hlive x (List.mem_append_left _ hx)
  have hnow : ¬ Stops (r, l, r') k := hlive _ (List.mem_append_right _ (List.mem_singleton_self _))
  obtain ⟨op, now⟩ := l
  cases Move.of_step hs with
  | retire | postpone =>
    -- A mark on a tenant does not change its name.
    obtain ⟨e₀, he₀, hname⟩ := Registry.modify_name hobj (fun _ => rfl)
    exact hname ▸ h k e₀ ⟨he₀, hbefore⟩
  | @publish name a t ha hst =>
    have hfree := hd.free ha (by rw [hst]; rfl)
    show (r.tenants.insert name r.objects.length).lookup e.name = some k
    rcases Nat.lt_trichotomy k r.objects.length with hlt | rfl | hgt
    · have he : r.objects[k]? = some e := by
        rw [← hobj]; exact (List.getElem?_append_left hlt).symm
      have hold := h k e ⟨he, hbefore⟩
      have hne : e.name ≠ name := fun heq => hfree (heq ▸ AList.lookup_isSome.1 (by rw [hold]; rfl))
      rw [AList.lookup_insert_ne hne]
      exact hold
    · have he : e.name = name := by
        have : some _ = some e := (List.getElem?_concat_length).symm.trans hobj
        exact congrArg Tenant.name (Option.some.inj this).symm
      rw [he, AList.lookup_insert]
    · have hnone : (r.publish name a).objects[k]? = none := List.getElem?_eq_none (by simp [Registry.publish]; omega)
      rw [hnone] at hobj
      cases hobj
  | @finish n d hget =>
    have hold := h k e ⟨hobj, hbefore⟩
    have hne : d.object ≠ k := fun heq => hnow ⟨n, d, rfl, hget, heq⟩
    show (if r.tenants.lookup d.name = some d.object then r.tenants.erase d.name else r.tenants).lookup e.name = some k
    split
    · rename_i hcur
      have hname : e.name ≠ d.name := fun heq => hne (by rw [heq, hcur] at hold; exact Option.some.inj hold)
      rw [AList.lookup_erase_ne hname]
      exact hold
    · exact hold
  | _ => exact h k e ⟨hobj, hbefore⟩

/-- **One live engine for a tenant, as long as no admission begins for a name that is published.**  Every engine that
was started and not stopped is the entry of its name, there is at most one, and a publication never replaces an
entry. -/
theorem one_live_engine {tr : List (Registry × (Op × Instant) × Registry)} (hr : Sys.Run (Steps limit) {} tr r)
    (hc : ∀ x ∈ tr, BeginsUnrouted x) :
    (∀ k e, LiveEngine tr r k e → r.tenants.lookup e.name = some k) ∧
    (∀ k k' e e', LiveEngine tr r k e → LiveEngine tr r k' e' → e.name = e'.name → k = k') ∧
    ∀ x ∈ tr, ∀ name, x.2.1.1 = .publish name → x.2.2.objects ≠ x.1.objects → name ∉ x.1.tenants := by
  have hdisj : ∀ {tr r}, Sys.Run (Steps limit) {} tr r → (∀ x ∈ tr, BeginsUnrouted x) → r.Disjoint :=
    Sys.Run.invariant_of (I := Registry.Disjoint) BeginsUnrouted
      ⟨fun _ _ h => (by cases h), fun _ _ h => (by cases h)⟩ (fun _ _ _ h hx hs => h.step hx hs)
  have hrouted : Routed tr r := by
    refine Sys.Run.history (J := fun tr r => (∀ x ∈ tr, BeginsUnrouted x) → Routed tr r)
      (fun _ k e hk => by cases hk.1) ?_ hr hc
    intro tr r l r' hr ih hs hc
    have hc' : ∀ x ∈ tr, BeginsUnrouted x := fun x hx => hc x (List.mem_append_left _ hx)
    exact (ih hc').step (hdisj hr hc') hs
  refine ⟨hrouted, fun k k' e e' hk hk' hname => ?_, fun x hx name hop hne => ?_⟩
  · have hentry := hrouted k e hk
    rw [hname, hrouted k' e' hk'] at hentry
    exact (Option.some.inj hentry).symm
  · obtain ⟨pre, hpre, hrun, hstep⟩ := hr.mem_step hx
    have hd := hdisj hrun (fun y hy => hc y (hpre.subset (List.mem_append_left _ hy)))
    obtain ⟨r₁, ⟨op, now⟩, r₂⟩ := x
    have hst : Steps limit r₁ (.publish name, now) r₂ := hop ▸ hstep
    cases Move.of_step hst with
    | abandon => exact absurd rfl hne
    | publish ha hstage => exact hd.free ha (by rw [hstage]; rfl)

/-! ## An admission that ends between two checks -/

/-- A pass that finds `acme` enabled at generation 1 and nothing published, up to its look at the map. -/
def findsFree (now : Instant) : List (Op × Instant) :=
  [(.poll, now), (.read (only (acme 1 true Nat.one_pos)), now), (.apply, now), (.snapshot, now), (.retired, now),
    (.refresh, now), (.check (acme 1 true Nat.one_pos), now)]

/-- The rest of the pass, and the admission it starts up to its publication. -/
def admits (now : Instant) : List (Op × Instant) :=
  [(.begin, now), (.announce true true, now), (.done, now), (.confirm "acme", now),
    (.confirmed "acme" (some (1, true)), now)]

/-- No admission of these begins for a published name. -/
def beginsUnrouted (tr : List (Registry × (Op × Instant) × Registry)) : Bool :=
  tr.all (fun x => match x.2.1.1, x.1.pass with
    | .begin, some (.beginning _ w) => decide (w.name ∉ x.1.tenants)
    | _, _ => true)

theorem one_live_engine_admitted : ∃ tr r e, Sys.Run (Steps 30) {} tr r ∧ LiveEngine tr r 0 e ∧
    r.tenants.lookup "acme" = some 0 := by
  obtain ⟨tr, r, hr, hq⟩ := Sys.play_checked (fun r l => Registry.step 30 l.2 r l.1) {}
    (findsFree 0 ++ admits 1 ++ [(.publish "acme", 2)])
    (fun tr r => beginsUnrouted tr && decide (r.objects.map Tenant.name = ["acme"]) &&
      tr.all (fun x => match x.2.1.1 with | .finish _ => false | _ => true)) (by decide +kernel)
  simp only [Bool.and_eq_true, decide_eq_true_eq, beginsUnrouted, List.all_eq_true] at hq
  obtain ⟨⟨hc, hobj⟩, hquiet⟩ := hq
  obtain ⟨e, he, hname⟩ : ∃ e, r.objects[0]? = some e ∧ e.name = "acme" := by
    cases ho : r.objects with
    | nil => rw [ho] at hobj; cases hobj
    | cons e l => rw [ho] at hobj; exact ⟨e, rfl, (List.cons.inj hobj).1⟩
  have hlive : LiveEngine tr r 0 e := ⟨he, fun x hx hstop => by
    obtain ⟨n, d, hop, -, -⟩ := hstop
    have := hquiet x hx
    rw [hop] at this
    cases this⟩
  refine ⟨tr, r, e, hr, hlive, ?_⟩
  rw [← hname]
  refine (one_live_engine hr (fun x hx todo w hop hp => ?_)).1 0 e hlive
  have := hc x hx
  rw [hop, hp] at this
  exact of_decide_eq_true this

/-- **A second admission replaces a running engine's entry**: the first one published and ended between the two checks
of the pass.  The first engine runs on, and nothing will retire it. -/
theorem second_admission_replaces_entry : ∃ tr r e e', Sys.Run (Steps 30) {} tr r ∧ LiveEngine tr r 0 e ∧
    LiveEngine tr r 1 e' ∧ e.name = e'.name ∧ r.tenants.lookup e.name ≠ some 0 := by
  obtain ⟨tr, r, hr, hq⟩ := Sys.play_checked (fun r l => Registry.step 30 l.2 r l.1) {}
    (findsFree 0 ++ admits 1 ++ findsFree 2 ++ [(.publish "acme", 2), (.settle "acme" true, 2),
      (.settled "acme" true, 2)] ++ admits 3 ++ [(.publish "acme", 4)])
    (fun tr r => decide (r.objects.map Tenant.name = ["acme", "acme"]) && decide (r.tenants.lookup "acme" = some 1) &&
      tr.all (fun x => match x.2.1.1 with | .finish _ => false | _ => true)) (by decide +kernel)
  simp only [Bool.and_eq_true, decide_eq_true_eq, List.all_eq_true] at hq
  obtain ⟨⟨hobj, hcur⟩, hquiet⟩ := hq
  have hlive : ∀ k x, x ∈ tr → ¬ Stops x k := fun k x hx hstop => by
    obtain ⟨n, d, hop, -, -⟩ := hstop
    have := hquiet x hx
    rw [hop] at this
    cases this
  obtain ⟨e, e', ho, hname, hname'⟩ : ∃ e e', r.objects = [e, e'] ∧ e.name = "acme" ∧ e'.name = "acme" := by
    cases ho : r.objects with
    | nil => rw [ho] at hobj; cases hobj
    | cons e l =>
      cases l with
      | nil => simp [ho] at hobj
      | cons e' l =>
        rw [ho] at hobj
        obtain ⟨h₁, hrest⟩ := List.cons.inj hobj
        obtain ⟨h₂, hnil⟩ := List.cons.inj hrest
        exact ⟨e, e', by rw [List.map_eq_nil_iff.1 hnil], h₁, h₂⟩
  refine ⟨tr, r, e, e', hr, ⟨by rw [ho]; rfl, hlive 0⟩, ⟨by rw [ho]; rfl, hlive 1⟩, hname.trans hname'.symm, ?_⟩
  rw [hname, hcur]
  decide

end Runtime
end GoJob
