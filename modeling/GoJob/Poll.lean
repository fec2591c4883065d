import GoJob.Clock
/-!
# Poll — the loop of a fixed-delay job

A poll loop alternates between its clock and one pass: the pass clears the clock when it is created and restarts it
when it ends.  Two invariants say so.  The loop is not stranded: a job that should be polling has a clock or a pass.
And it does not fork: there is at most one pass, and none while the clock runs.  Both have one way around them, a claim
of a pass whose runtime cap has elapsed and the revival of a pass by an operator, and hold along every run without it.
-/
namespace GoJob

variable {env : Env} {c : Ctx} {db db' : DB} {a : Action}

/-! ## How a pass ends -/

/-- How a commit can end a live poll pass. -/
inductive PassEnd (c : Ctx) (db' : DB) : Action → ExecRow → Prop
  | late {p : ClaimParams} {r : Runnable} {e : ExecRow} (hi : e.id = p.executionId) (hs : e.status = .ready)
      (hc : past e.timeoutAt (c.utc 2) = true) : PassEnd c db' (.claim p r) e
  | settled {b : Action} {d : DefinitionRow} {s : StateRow} {e : ExecRow} (hd : db'.def? e.jobName = some d)
      (hs : db'.state? e.jobName = some s) (h : d.scheduleKind = .fixedDelay →
        ∃ t, d.toDefinition.delay = .ok t ∧ s.nextPollAt = some (datetime (c.now + t))) : PassEnd c db' b e
  | retired {b : Action} {d : DefinitionRow} {e : ExecRow} (hd : db'.def? e.jobName = some d)
      (hr : d.retired = true) : PassEnd c db' b e

/-- A pass that `settlePollClock` saw, under the definition it read. -/
theorem PollSettled.passEnd {k : String} {d : DefinitionRow} {s₁ s' : StateRow} {i : Nat} {e e' : ExecRow}
    (hp : PollSettled c d e' s₁ s') (hd : db.def? k = some d) (hf : OnBoth db db' k s' i e') (hs : s₁.jobName = k)
    (hj : e.jobName = k) (hi : e'.toExecInfo = e.toExecInfo) (hpoll : e.triggerType = .poll) :
    e'.status.terminal = false ∨ PassEnd c db' a e := by
  have hd' : db'.def? e.jobName = some d := by rw [hf.defs, hj]; exact hd
  have hs' : db'.state? e.jobName = some s' := by rw [hj]; exact hf.state?
  cases hp with
  | idle h =>
    by_cases hk : d.scheduleKind = .fixedDelay
    · exact Or.inl (h hk (by rw [hi, hj, hs]) (by rw [hi]; exact hpoll))
    · exact Or.inr (.settled hd' hs' (fun h => absurd h hk))
  | restart t _ ht => exact Or.inr (.settled hd' hs' (fun _ => ⟨t, ht, rfl⟩))

/-- **A live pass stays live, or ends in one of three ways.** -/
theorem Commit.passEnd {issued : List String} {j : String} {i : Nat} {e : ExecRow} (h : Commit env c db a db')
    (hinv : HolderInv db issued) (he : db.Pass j i e) : (∃ e', db'.Pass j i e') ∨ PassEnd c db' a e := by
  have keep : db'.exec? i = db.exec? i → (∃ e', db'.Pass j i e') ∨ PassEnd c db' a e := fun hx =>
    Or.inl ⟨e, hx.trans he.row, he.job, he.poll, he.live⟩
  have touch : ∀ {k : Nat} {x x' : ExecRow}, db.exec? k = some x →
      (∀ l, db'.exec? l = if l = k then some x' else db.exec? l) → x'.toExecInfo = x.toExecInfo →
      (x = e → x'.status.terminal = false ∨ PassEnd c db' a e) → (∃ e', db'.Pass j i e') ∨ PassEnd c db' a e := by
    intro k x x' hx hf hinfo hend
    by_cases hik : i = k
    · subst hik
      obtain rfl := Option.some.inj (hx.symm.trans he.row)
      rcases hend rfl with hlive | hpe
      · exact Or.inl ⟨x', by rw [hf, if_pos rfl], by rw [hinfo]; exact he.job, by rw [hinfo]; exact he.poll, hlive⟩
      · exact Or.inr hpe
    · exact keep (by rw [hf, if_neg hik])
  cases h with
  | idle _ _ hx => exact keep (hx i)
  | exec hx hm _ _ hlive _ _ hf => exact touch hx hf.execs hm.info (fun _ => Or.inl hlive)
  | expire hx hm ht hf =>
    refine touch hx hf.execs hm.info (fun hxe => Or.inr ?_)
    subst hxe
    cases hm with
    | expire hi hj hs hc => exact .late hi hs hc
    | dispatch => cases ht
    | skip => cases ht
    | defer _ hs => exact absurd (hs.symm.trans ht) (by decide)
  | acquire _ _ _ hx _ _ _ _ _ _ hf => exact touch hx hf.execs rfl (fun _ => Or.inl rfl)
  | renew _ hx _ hm hf => exact touch hx hf.execs rfl (fun hxe => Or.inl (hxe ▸ he.live))
  | adopt _ hx _ _ hm hf =>
    refine touch hx hf.execs hm.info (fun hxe => Or.inl ?_)
    cases hm with
    | adopt => simp only [adoptWrite]; split <;> [rfl; exact hxe ▸ he.live]
  | close hcl =>
    obtain ⟨ls, lf, ha, hd, hs, hx, ho, hr, hm, hp, hf, -⟩ := hcl
    refine touch hx hf.execs hm.info (fun hxe => ?_)
    subst hxe
    obtain ⟨hj, -, -⟩ := hinv.holder hs (StateRow.owned_iff.1 ho).1 hx (ExecRow.owned_iff.1 hr).1
    have hname := DB.state?_jobName hs
    exact hp.passEnd hd hf (by exact hname) hj hm.info he.poll
  | skip hd hs hx hm ht hl hp hf =>
    refine touch hx hf.execs hm.info (fun hxe => ?_)
    subst hxe
    obtain ⟨hj, -⟩ := hm.ended_by_claim (by rw [ht]; rfl)
    exact hp.passEnd hd hf (DB.state?_jobName hs) hj hm.info he.poll
  | clock _ _ _ hf => exact keep (hf.execs i)
  | pause _ hf => exact keep (hf.execs i)
  | create _ _ _ _ hi _ hf =>
    refine keep ((hf.execs i).trans (if_neg ?_))
    rintro rfl
    exact absurd he.row (by rw [DB.exec?_eq_none_of_lt hi]; simp)
  | retire hd hr hdefs hs hrows hnew =>
    obtain ⟨e', he', ⟨rfl, -⟩ | hm⟩ := hrows i e he.row
    · exact keep (he'.trans he.row.symm)
    · exact Or.inr (.retired (by rw [hdefs, if_pos hm.of_retire.1]) rfl)
  | reap _ _ hrows _ _ _ =>
    rcases hrows i e he.row with hx | ⟨-, hexp⟩
    · exact keep (hx.trans he.row.symm)
    · have := ExecRow.terminal_of_expired hexp
      rw [he.live] at this; cases this
  | revive _ _ hx hm hf => exact touch hx hf.execs rfl (fun _ => Or.inl rfl)
  | catalog hs => exact keep (catalog_exec? hs i)

/-! ## The loop is not stranded -/

/-- A job that should be polling: enabled, not retired, and its clocks computed from its present definition. -/
structure InDatePoll (db : DB) (j : String) (d : DefinitionRow) (s : StateRow) : Prop where
  defn    : db.def? j = some d
  state   : db.state? j = some s
  kind    : d.scheduleKind = .fixedDelay
  enabled : d.enabled = true
  retired : d.retired = false
  version : s.configVersion = d.version

structure LoopInv (db : DB) : Prop where
  version : ∀ j d s, db.def? j = some d → db.state? j = some s → s.configVersion ≤ d.version
  loop    : ∀ j d s, InDatePoll db j d s → s.nextPollAt ≠ none ∨ db.Outstanding j

theorem LoopInv.init : LoopInv DB.empty where
  version _ _ _ h := by cases h
  loop _ _ _ h := by cases h.defn

/-- An edit leaves every clock of its job out of date, and a new job starts with the clock it needs. -/
theorem LoopInv.catalogStep (h : LoopInv db) (hs : CatalogStep c db db') : LoopInv db' := by
  have pass : (∀ k, db'.exec? k = db.exec? k) → ∀ j, db.Outstanding j → db'.Outstanding j := by
    rintro hx j ⟨i, e, he⟩
    exact ⟨i, e, (hx i).trans he.row, he.job, he.poll, he.live⟩
  cases hs with
  | create d next x hp hd hs hdefs hstates hx =>
    refine ⟨fun j d' s' hd' hs' => ?_, fun j d' s' hp' => ?_⟩
    · rw [hdefs] at hd'
      rw [hstates] at hs'
      split at hd'
      · rename_i hj
        rw [if_pos hj] at hs'
        obtain rfl := Option.some.inj hd'
        obtain rfl := Option.some.inj hs'
        exact le_refl 1
      · rename_i hj
        rw [if_neg hj] at hs'
        exact h.version j d' s' hd' hs'
    · obtain ⟨hd', hs', hk, he, hr, hv⟩ := hp'
      rw [hdefs] at hd'
      rw [hstates] at hs'
      split at hd'
      · rename_i hj
        rw [if_pos hj] at hs'
        obtain rfl := Option.some.inj hd'
        obtain rfl := Option.some.inj hs'
        left
        have hk : d.scheduleKind = .fixedDelay := hk
        have he : d.enabled = true := he
        simp [newState, hk, he]
      · rename_i hj
        rw [if_neg hj] at hs'
        exact (h.loop j d' s' ⟨hd', hs', hk, he, hr, hv⟩).imp_right (pass hx j)
  | edit k d w hd hret hdefs hs hx =>
    have hedit : ∀ j d' s', db'.def? j = some d' → db'.state? j = some s' →
        (db.def? j = some d' ∧ db.state? j = some s') ∨ s'.configVersion < d'.version := by
      intro j d' s' hd' hs'
      rw [hdefs] at hd'
      rw [hs] at hs'
      split at hd'
      · rename_i hj
        subst hj
        obtain rfl := Option.some.inj hd'
        have := h.version j d s' hd hs'
        have := w.version d
        omega
      · exact Or.inl ⟨hd', hs'⟩
    refine ⟨fun j d' s' hd' hs' => ?_, fun j d' s' hp => ?_⟩
    · rcases hedit j d' s' hd' hs' with ⟨h₁, h₂⟩ | hlt
      · exact h.version j d' s' h₁ h₂
      · exact hlt.le
    · obtain ⟨hd', hs', hk, he, hr, hv⟩ := hp
      rcases hedit j d' s' hd' hs' with ⟨h₁, h₂⟩ | hlt
      · exact (h.loop j d' s' ⟨h₁, h₂, hk, he, hr, hv⟩).imp_right (pass hx j)
      · omega
  | audit hd hs hx =>
    refine ⟨fun j d' s' hd' hs' => h.version j d' s' (hd j ▸ hd') (hs j ▸ hs'), fun j d' s' hp => ?_⟩
    obtain ⟨hd', hs', hk, he, hr, hv⟩ := hp
    exact (h.loop j d' s' ⟨hd j ▸ hd', hs j ▸ hs', hk, he, hr, hv⟩).imp_right (pass hx j)

theorem LoopInv.catalog (h : LoopInv db) (hs : Relation.ReflTransGen (CatalogStep c) db db') : LoopInv db' := by
  induction hs with
  | refl => exact h
  | tail _ hs ih => exact ih.catalogStep hs

theorem ClockEffect.version {j : String} (hfx : ClockEffect env c db db' a j) (h : LoopInv db) (d' : DefinitionRow)
    (s' : StateRow) (hd' : db'.def? j = some d') (hs' : db'.state? j = some s') : s'.configVersion ≤ d'.version := by
  cases hfx with
  | kept hd hs =>
    obtain ⟨s, hs₀, -, -, hv⟩ := clocks_kept hs hs'
    rw [hv]
    exact h.version j d' s (hd ▸ hd') hs₀
  | retired hd hd₁ _ hv hs =>
    obtain rfl := Option.some.inj (hd'.symm.trans hd₁)
    have := h.version j _ s' hd (hs ▸ hs')
    omega
  | settled t hd hd₁ hs hs₁ hcols =>
    obtain rfl := Option.some.inj (hd'.symm.trans hd₁)
    obtain rfl := Option.some.inj (hs'.symm.trans hs₁)
    simp only [StateRow.clockCols, Prod.mk.injEq] at hcols
    rw [hcols.2.2]
    exact h.version j _ _ hd hs
  | moved hd hs hm hf =>
    obtain rfl := Option.some.inj ((hf.defs j ▸ hd').symm.trans hd)
    rw [hf.states, if_pos rfl] at hs'
    obtain rfl := Option.some.inj hs'
    cases hm <;> exact le_refl _
  | created hd hs _ hm _ hf =>
    obtain rfl := Option.some.inj ((hf.defs j ▸ hd').symm.trans hd)
    obtain rfl := Option.some.inj (hs'.symm.trans hf.state?)
    cases hm with
    | cron => exact le_refl _
    | poll =>
      have := h.version j _ _ hd hs
      exact this
    | manual => exact h.version j _ _ hd hs

theorem Clocks.polling {compile : Compile} {s : StateRow} {d : DefinitionRow} {fire poll : Option Instant}
    (h : Clocks c db compile s d fire poll) (hk : d.scheduleKind = .fixedDelay) (he : d.enabled = true)
    (hr : d.retired = false) : poll ≠ none ∨ db.Outstanding d.jobName := by
  cases h with
  | parked hoff =>
    rcases hoff with hoff | hoff
    · rw [he] at hoff; cases hoff
    · rw [hr] at hoff; cases hoff
  | cron _ _ _ _ hk' => rw [hk] at hk'; cases hk'
  | running t => exact Or.inl (by simp)
  | out _ _ _ _ ho => exact Or.inr ho
  | start => exact Or.inl (by simp)

/-- **A job that should be polling after a commit** has a clock, has a pass, or should have been polling before with
the clock it has now. -/
theorem ClockEffect.polling {j : String} {d : DefinitionRow} {s' : StateRow} (hfx : ClockEffect env c db db' a j)
    (hp : InDatePoll db' j d s') :
    (s'.nextPollAt ≠ none ∨ db'.Outstanding j) ∨ ∃ s, InDatePoll db j d s ∧ s'.nextPollAt = s.nextPollAt := by
  cases hfx with
  | kept hd hs =>
    obtain ⟨s, hs₀, -, hn, hv⟩ := clocks_kept hs hp.state
    exact Or.inr ⟨s, ⟨hd ▸ hp.defn, hs₀, hp.kind, hp.enabled, hp.retired, hv ▸ hp.version⟩, hn⟩
  | retired _ hd' hr =>
    obtain rfl := Option.some.inj (hp.defn.symm.trans hd')
    rw [hp.retired] at hr; cases hr
  | settled t _ _ _ hs' hcols =>
    obtain rfl := Option.some.inj (hp.state.symm.trans hs')
    simp only [StateRow.clockCols, Prod.mk.injEq] at hcols
    exact Or.inl (Or.inl (by rw [hcols.2.1]; simp))
  | moved hd hs hm hf =>
    obtain rfl := Option.some.inj ((hf.defs j ▸ hp.defn).symm.trans hd)
    have hs' := hp.state
    rw [hf.states, if_pos rfl] at hs'
    obtain rfl := Option.some.inj hs'
    have clocks : ∀ {compile s fire poll}, Clocks c db compile s d fire poll →
        poll ≠ none ∨ db'.Outstanding j := fun hck => by
      refine (hck.polling hp.kind hp.enabled hp.retired).imp_right ?_
      rintro ⟨i, e, he⟩
      rw [DB.def?_jobName hd] at he
      exact ⟨i, e, (hf.execs i).trans he.row, he.job, he.poll, he.live⟩
    cases hm with
    | recompute _ _ hck => exact Or.inl (clocks hck)
    | cronDrift _ _ _ hck => exact Or.inl (clocks hck)
    | pollDrift _ _ hck => exact Or.inl (clocks hck)
    | advance _ _ _ _ hcron => exact absurd (hp.kind.symm.trans hcron.kind) (by decide)
  | created hd hs hj hm _ hf =>
    obtain rfl := Option.some.inj ((hf.defs j ▸ hp.defn).symm.trans hd)
    obtain rfl := Option.some.inj (hp.state.symm.trans hf.state?)
    cases hm with
    | cron _ _ _ _ _ hcron => exact absurd (hp.kind.symm.trans hcron.kind) (by decide)
    | poll => exact Or.inl (Or.inr ⟨_, _, hf.exec?, hj, rfl, rfl⟩)
    | manual => exact Or.inr ⟨_, ⟨hd, hs, hp.kind, hp.enabled, hp.retired, hp.version⟩, rfl⟩

/-- A claim of a ready poll pass of a fixed-delay job whose runtime cap has elapsed: `Claim` ends the pass without
restarting the clock. -/
def LatePollClaim (db : DB) (a : Action) (c : Ctx) : Prop :=
  ∃ p r e d, a = .claim p r ∧ db.exec? p.executionId = some e ∧ e.triggerType = .poll ∧ e.status = .ready ∧
    past e.timeoutAt (c.utc 2) = true ∧ db.def? e.jobName = some d ∧ d.scheduleKind = .fixedDelay

/-- **One commit keeps every loop going**, unless it is a late claim. -/
theorem LoopInv.commit {issued : List String} (h : LoopInv db) (hinv : HolderInv db issued)
    (hl : ¬ LatePollClaim db a c) (hc : Commit env c db a db') : LoopInv db' := by
  rcases hc.clockEffect hinv with hcat | hfx
  · exact h.catalog hcat
  refine ⟨fun j => (hfx j).version h, fun j d s' hp => ?_⟩
  rcases (hfx j).polling hp with hdone | ⟨s, hp₀, hn⟩
  · exact hdone
  rcases h.loop j d s hp₀ with hne | ⟨i, e, he⟩
  · exact Or.inl (hn ▸ hne)
  rcases hc.passEnd hinv he with ⟨e', he'⟩ | hend
  · exact Or.inr ⟨i, e', he'⟩
  obtain rfl := he.job
  cases hend with
  | late hi hst hcap =>
    refine absurd ⟨_, _, e, d, rfl, ?_, he.poll, hst, hcap, hp₀.defn, hp₀.kind⟩ hl
    rw [← hi, DB.exec?_id he.row]
    exact he.row
  | settled hd' hs' hset =>
    obtain rfl := Option.some.inj (hp.defn.symm.trans hd')
    obtain rfl := Option.some.inj (hp.state.symm.trans hs')
    obtain ⟨t, _, ht⟩ := hset hp.kind
    exact Or.inl (by simp [ht])
  | retired hd' hr =>
    obtain rfl := Option.some.inj (hp.defn.symm.trans hd')
    rw [hp.retired] at hr; cases hr

/-- **A poll loop is not stranded**, in any state of a run without late claims: a job that should be polling has a
clock or a pass. -/
theorem poll_loop_goes_on {u : Utc} {tr : List (World × (Action × Ctx) × World)} {w : World}
    (hr : Sys.Run (Step env) (World.init u) tr w) (hl : ∀ x ∈ tr, ¬ LatePollClaim x.1.db x.2.1.1 x.2.1.2)
    {j : String} {d : DefinitionRow} {s : StateRow} (hp : InDatePoll w.db j d s) :
    s.nextPollAt ≠ none ∨ w.db.Outstanding j := by
  have hinv := Sys.Run.invariant_of (I := fun w => HolderInv w.db w.issued ∧ LoopInv w.db)
    (fun x => ¬ LatePollClaim x.1.db x.2.1.1 x.2.1.2) ⟨HolderInv.init, LoopInv.init⟩
    (fun w l w' h hl hst => ⟨h.1.step hst, h.2.commit h.1 hl hst.commit⟩) hr hl
  exact hinv.2.loop j d s hp

theorem poll_loop_goes_on_first : ∃ s, ((World.init 0).play bareEnv firstPass).db.state? "sync" = some s ∧
    (s.nextPollAt ≠ none ∨ ((World.init 0).play bareEnv firstPass).db.Outstanding "sync") := by
  refine ⟨_, rfl, poll_loop_goes_on (World.run_play bareEnv firstPass (World.init 0) (by decide)) ?_
    ⟨rfl, rfl, rfl, rfl, rfl, rfl⟩⟩
  rintro x hx ⟨p, r, e, d, ha, -⟩
  simp only [firstPass, World.trace, List.mem_cons, List.not_mem_nil, or_false] at hx
  rcases hx with rfl | rfl <;> cases ha

/-- The pass is claimed at second 2 under a cap of 60 s, refused, and claimed again after the cap. -/
def strandedPass : List (Action × Int) :=
  claimedPass ++ [(.refuse ⟨1, "sync", "pass-1", "scheduler", "executor", "t1", 5⟩ 1, 3), (claimPass "t2", 70)]

/-- **A late claim strands the loop**: no clock, no pass, and the definition asks for both. -/
theorem late_claim_strands_loop : ∃ w d s, Reachable bareEnv w ∧ InDatePoll w.db "sync" d s ∧
    d.toDefinition.delay = .ok second ∧ s.nextPollAt = none ∧ ¬ w.db.Outstanding "sync" :=
  ⟨(World.init 0).play bareEnv strandedPass, Option.get _ (by decide +kernel), Option.get _ (by decide +kernel),
    reachable_play bareEnv 0 strandedPass (by decide +kernel),
    ⟨(Option.some_get _).symm, (Option.some_get _).symm, by decide +kernel, by decide +kernel, by decide +kernel,
      by decide +kernel⟩, by decide +kernel, by decide +kernel, by decide +kernel⟩

/-! ## One pass at a time -/

structure PassInv (db : DB) : Prop where
  one   : ∀ j i k e x, db.Pass j i e → db.Pass j k x → i = k
  clock : ∀ j i e s, db.Pass j i e → db.state? j = some s → s.nextPollAt = none
  state : ∀ i e, db.exec? i = some e → (db.state? e.jobName).isSome = true

theorem PassInv.init : PassInv DB.empty where
  one _ _ _ _ _ h := by cases h.row
  clock _ _ _ _ h := by cases h.row
  state _ _ h := by cases h

/-- Where a live pass after a commit comes from. -/
inductive PassOrigin (env : Env) (c : Ctx) (db db' : DB) (j : String) (i : Nat) : Action → Prop
  | old {b : Action} {e : ExecRow} (h : db.Pass j i e) : PassOrigin env c db db' j i b
  | created {b : Action} {t : Instant} {s s' : StateRow} {e : ExecRow} (hs : db.state? j = some s)
      (ht : s.nextPollAt = some t) (hn : s'.nextPollAt = none) (hf : OnBoth db db' j s' i e) (hi : db.exec? i = none)
      (hb : ∀ j k x y, b ≠ .authorizedRetry j k x y) : PassOrigin env c db db' j i b
  | revived {k x y : String} {e : ExecRow} (he : db.exec? i = some e) (hk : e.executionKey = k) (hj : e.jobName = j)
      (hp : e.triggerType = .poll) (hs : e.status = .dead) : PassOrigin env c db db' j i (.authorizedRetry j k x y)

theorem Commit.passOrigin {j : String} {i : Nat} {e' : ExecRow} (h : Commit env c db a db') (he' : db'.Pass j i e') :
    PassOrigin env c db db' j i a := by
  cases he : db.exec? i with
  | none =>
    obtain ⟨k, d, s, s', hd, hs, hj, hm, hf, -, -⟩ := h.new he he'.row
    obtain rfl : k = j := hj.symm.trans he'.job
    have hpoll := he'.poll
    cases hm with
    | cron => cases hpoll
    | manual => cases hpoll
    | poll id t _ _ _ _ ht => exact .created hs ht rfl hf he (fun _ _ _ _ h => by cases h)
  | some e =>
    rcases h.moved he he'.row with rfl | hm
    · exact .old ⟨he, he'.job, he'.poll, he'.live⟩
    · have hj : e.jobName = j := by rw [← hm.info]; exact he'.job
      have hp : e.triggerType = .poll := by rw [← hm.info]; exact he'.poll
      cases hl : e.status.terminal with
      | false => exact .old ⟨he, hj, hp, hl⟩
      | true =>
        obtain ⟨j', k, x, y, rfl, hk, hj', hs⟩ := hm.revived hl
        obtain rfl : j' = j := hj'.symm.trans hj
        exact .revived he hk hj hp hs

theorem Commit.rowJob_state {i : Nat} {e' : ExecRow} (h : Commit env c db a db')
    (hst : ∀ i e, db.exec? i = some e → (db.state? e.jobName).isSome = true) (he' : db'.exec? i = some e') :
    (db'.state? e'.jobName).isSome = true := by
  cases he : db.exec? i with
  | none =>
    obtain ⟨_, _, _, _, -, -, hj, -, hf, -⟩ := h.new he he'
    rw [hj, hf.state?]; rfl
  | some e =>
    rw [h.info he he']
    exact h.lockEffect.state_isSome (hst i e he)

theorem PassInv.catalog (h : PassInv db) (hs : Relation.ReflTransGen (CatalogStep c) db db') : PassInv db' := by
  have back : ∀ {j i e}, db'.Pass j i e → db.Pass j i e := fun he =>
    ⟨(catalog_exec? hs _).symm.trans he.row, he.job, he.poll, he.live⟩
  refine ⟨fun j i k e x he hx => h.one j i k e x (back he) (back hx), fun j i e s he hs' => ?_, fun i e he => ?_⟩
  · obtain ⟨s₀, hs₀⟩ := Option.isSome_iff_exists.1 (h.state i e (back he).row)
    rw [he.job] at hs₀
    obtain rfl := Option.some.inj ((catalog_state? hs hs₀).symm.trans hs')
    exact h.clock j i e s₀ (back he) hs₀
  · rw [catalog_exec? hs] at he
    obtain ⟨s, hs₀⟩ := Option.isSome_iff_exists.1 (h.state i e he)
    rw [catalog_state? hs hs₀]; rfl

theorem Clocks.poll_none {compile : Compile} {s : StateRow} {d : DefinitionRow} {fire poll : Option Instant}
    (h : Clocks c db compile s d fire poll) (hn : s.nextPollAt = none) (ho : db.Outstanding d.jobName) :
    poll = none := by
  cases h with
  | parked => rfl
  | cron => rfl
  | running t _ _ _ ht => rw [hn] at ht; cases ht
  | out => rfl
  | start _ _ _ _ hno => exact absurd ho hno

/-- An operator's retry of a dead poll pass while the job's loop goes on: its clock runs, or another pass is out. -/
def ForkingRevival (db : DB) (a : Action) : Prop :=
  ∃ j k x y i e, a = .authorizedRetry j k x y ∧ db.exec? i = some e ∧ e.executionKey = k ∧ e.jobName = j ∧
    e.triggerType = .poll ∧ e.status = .dead ∧
    (db.Outstanding j ∨ ∃ s t, db.state? j = some s ∧ s.nextPollAt = some t)

/-- No clock runs beside a pass that was there before. -/
theorem ClockEffect.old_pass {j : String} {i : Nat} {e e' : ExecRow} {s' : StateRow}
    (hfx : ClockEffect env c db db' a j) (h : PassInv db) (he : db.Pass j i e) (he' : db'.Pass j i e')
    (hs' : db'.state? j = some s') : s'.nextPollAt = none := by
  cases hfx with
  | kept hd hs =>
    obtain ⟨s, hs₀, -, hn, -⟩ := clocks_kept hs hs'
    exact hn.trans (h.clock j i e s he hs₀)
  | retired _ _ _ _ hs => exact h.clock j i e s' he (hs ▸ hs')
  | settled t _ _ _ _ _ hj hend =>
    -- The pass that ended was the only one, so it is this one.
    obtain rfl := h.one j i _ e _ he ⟨hend.old, hj, hend.poll, hend.live⟩
    obtain rfl := Option.some.inj (he'.row.symm.trans hend.new)
    exact absurd (he'.live.symm.trans hend.ended) (by decide)
  | moved hd hs hm hf =>
    have hn := h.clock j i e _ he hs
    have ho : db.Outstanding _ := ⟨i, e, (DB.def?_jobName hd).symm ▸ he⟩
    rw [hf.states, if_pos rfl] at hs'
    obtain rfl := Option.some.inj hs'
    cases hm with
    | recompute _ _ hck => exact hck.poll_none hn ho
    | cronDrift _ _ _ hck => exact hck.poll_none hn ho
    | pollDrift _ _ hck => exact hck.poll_none hn ho
    | advance => exact hn
  | created hd hs hj hm hi hf =>
    have hn := h.clock j i e _ he hs
    obtain rfl := Option.some.inj (hs'.symm.trans hf.state?)
    cases hm with
    | cron => exact hn
    | poll => rfl
    | manual => exact hn

/-- Nor beside one that an operator revived while the loop was at rest. -/
theorem ClockEffect.revived_pass {j k x y : String} {i : Nat} {e e' : ExecRow} {s' : StateRow}
    (hfx : ClockEffect env c db db' (.authorizedRetry j k x y) j) (he : db.exec? i = some e) (hd : e.status = .dead)
    (he' : db'.Pass j i e') (hn : ∀ s, db.state? j = some s → s.nextPollAt = none) (hs' : db'.state? j = some s') :
    s'.nextPollAt = none := by
  cases hfx with
  | kept _ hs =>
    obtain ⟨s, hs₀, -, hkept, -⟩ := clocks_kept hs hs'
    exact hkept.trans (hn s hs₀)
  | retired _ _ _ _ hs => exact hn s' (hs ▸ hs')
  | settled t hd₀ hd₁ hs₀ hs₁ hcols hj hend =>
    rename_i d₀ s₀ s₁ z z'
    have hne : i ≠ z.id := by
      rintro rfl
      obtain rfl := Option.some.inj (he.symm.trans hend.old)
      exact absurd hend.live (by rw [hd]; decide)
    have hrow := he'.row
    rw [hend.other i hne, he] at hrow
    obtain rfl := Option.some.inj hrow
    exact absurd he'.live (by rw [hd]; decide)
  | moved _ _ hm _ => cases hm
  | created _ _ _ hm _ _ => cases hm

/-- **One commit does not fork a loop**, unless it revives a pass of one that goes on. -/
theorem PassInv.commit {issued : List String} (h : PassInv db) (hinv : HolderInv db issued)
    (hf : ¬ ForkingRevival db a) (hc : Commit env c db a db') : PassInv db' := by
  rcases hc.clockEffect hinv with hcat | hfx
  · exact h.catalog hcat
  refine ⟨fun j i k e' x' he' hx' => ?_, fun j i e' s' he' hs' => ?_, fun i e' he' => hc.rowJob_state h.state he'⟩
  · cases hc.passOrigin he' with
    | old he =>
      cases hc.passOrigin hx' with
      | old hx => exact h.one j i k _ _ he hx
      | created hs ht => exact absurd (h.clock j i _ _ he hs) (by rw [ht]; simp)
      | revived hx hk hj hp hd => exact absurd ⟨j, _, _, _, k, _, rfl, hx, hk, hj, hp, hd, Or.inl ⟨i, _, he⟩⟩ hf
    | created hs ht _ hb hi hna =>
      cases hc.passOrigin hx' with
      | old hx => exact absurd (h.clock j k _ _ hx hs) (by rw [ht]; simp)
      | created _ _ _ _ hk =>
        by_contra hne
        have hrow := hx'.row
        rw [hb.execs, if_neg (Ne.symm hne), hk] at hrow
        cases hrow
      | revived => exact absurd rfl (hna _ _ _ _)
    | revived he hk hj hp hd =>
      generalize ha : Action.authorizedRetry j _ _ _ = b at hc
      cases hc.passOrigin hx' with
      | old hx => exact absurd ⟨j, _, _, _, i, _, rfl, he, hk, hj, hp, hd, Or.inl ⟨k, _, hx⟩⟩ hf
      | created _ _ _ _ _ hna => exact absurd ha.symm (hna _ _ _ _)
      | revived hx hk' =>
        cases ha
        exact DB.exec?_key_inj he hx (hk.trans hk'.symm)
  · cases hc.passOrigin he' with
    | old he => exact (hfx j).old_pass h he he' hs'
    | created _ _ hn hb =>
      obtain rfl := Option.some.inj (hs'.symm.trans hb.state?)
      exact hn
    | revived he hk hj hp hd =>
      refine (hfx j).revived_pass he hd he' (fun s hs => ?_) hs'
      by_contra hne
      obtain ⟨t, ht⟩ := Option.ne_none_iff_exists'.1 hne
      exact hf ⟨j, _, _, _, i, _, rfl, he, hk, hj, hp, hd, Or.inr ⟨s, t, hs, ht⟩⟩

/-- **One poll pass at a time**, in any state of a run without forking revivals, and no clock beside it. -/
theorem one_poll_pass {u : Utc} {tr : List (World × (Action × Ctx) × World)} {w : World}
    (hr : Sys.Run (Step env) (World.init u) tr w) (hf : ∀ x ∈ tr, ¬ ForkingRevival x.1.db x.2.1.1) (j : String) :
    (∀ i k e x, w.db.Pass j i e → w.db.Pass j k x → i = k) ∧
      (w.db.Outstanding j → ∀ s, w.db.state? j = some s → s.nextPollAt = none) := by
  have hinv := Sys.Run.invariant_of (I := fun w => HolderInv w.db w.issued ∧ PassInv w.db)
    (fun x => ¬ ForkingRevival x.1.db x.2.1.1) ⟨HolderInv.init, PassInv.init⟩
    (fun w l w' h hl hst => ⟨h.1.step hst, h.2.commit h.1 hl hst.commit⟩) hr hf
  exact ⟨hinv.2.one j, fun ⟨i, e, he⟩ s hs => hinv.2.clock j i e s he hs⟩

theorem one_poll_pass_first : ((World.init 0).play bareEnv firstPass).db.Outstanding "sync" ∧
    ∃ s, ((World.init 0).play bareEnv firstPass).db.state? "sync" = some s ∧ s.nextPollAt = none := by
  have hout : ((World.init 0).play bareEnv firstPass).db.Outstanding "sync" := by decide +kernel
  refine ⟨hout, Option.get _ (by decide +kernel), (Option.some_get _).symm, ?_⟩
  refine (one_poll_pass (World.run_play bareEnv firstPass (World.init 0) (by decide)) ?_ "sync").2 hout _
    (Option.some_get _).symm
  rintro x hx ⟨j, k, y, z, i, e, ha, -⟩
  simp only [firstPass, World.trace, List.mem_cons, List.not_mem_nil, or_false] at hx
  rcases hx with rfl | rfl <;> cases ha

/-- The pass ends dead, which restarts the clock; an operator revives it; and the clock then makes a second one. -/
def forkedPass : List (Action × Int) :=
  claimedPass ++
    [(.complete ⟨"sync", 1, "pass-1", "scheduler", "t1", 1⟩ { status := .dead, attemptOutcome := .failed }, 3),
     (.authorizedRetry "sync" "pass-1" "operator" "again", 4),
     (.materializePoll "sync" "pass-2" (fun _ => .error ⟨.other, "no schedule"⟩), 5)]

/-- **A revival forks the loop**: two live passes of one job. -/
theorem revival_forks_loop : ∃ w e x, Reachable bareEnv w ∧ w.db.Pass "sync" 1 e ∧ w.db.Pass "sync" 2 x :=
  ⟨(World.init 0).play bareEnv forkedPass, Option.get _ (by decide +kernel), Option.get _ (by decide +kernel),
    reachable_play bareEnv 0 forkedPass (by decide +kernel),
    ⟨(Option.some_get _).symm, by decide +kernel, by decide +kernel, by decide +kernel⟩,
    ⟨(Option.some_get _).symm, by decide +kernel, by decide +kernel, by decide +kernel⟩⟩

end GoJob
