import GoJob.Fires
/-!
# OnTime — an instant that came up in time is not passed over

The fire clock of a job moves past an instant in two ways.  A due pass moves it from the instant it dealt with to the
next one, and what it leaves behind without an execution is older than the misfire threshold.  A recomputation moves it
to the first instant from now on, whatever it stood at: run against a clock that is behind, by a drift scan that read
its list of jobs before somebody else reconciled this one, it drops every instant in between.
-/
namespace GoJob

open Rel

variable {env : Env} {c : Ctx} {db db' : DB} {a : Action}

/-! ## Keys -/

/-- The kinds of `ExecutionKey`: a cron fire, a manual run, a poll pass. -/
def keyKinds : List String := ["c", "m", "p"]

/-- The text a key stands for. -/
def keyText (kind j disc : String) : String := kind ++ ":" ++ j ++ ":" ++ disc

/-- `ExecutionKey` is injective, which is what its digest is for: one key stands for one text. -/
def Env.Injective (env : Env) : Prop :=
  ∀ kind ∈ keyKinds, ∀ kind' ∈ keyKinds, ∀ j j' disc disc' key, executionKey env kind j disc = some key →
    executionKey env kind' j' disc' = some key → keyText kind j disc = keyText kind' j' disc'

theorem keyText_toList (kind j disc : String) :
    (keyText kind j disc).toList = kind.toList ++ ':' :: (j.toList ++ ':' :: disc.toList) := by
  simp [keyText, String.toList_append]

/-- Two texts that end in a part without a colon are equal part by part. -/
theorem keyText_inj {kind j j' disc disc' : String} (h : keyText kind j disc = keyText kind j' disc')
    (hd : ':' ∉ disc.toList) (hd' : ':' ∉ disc'.toList) : j = j' ∧ disc = disc' := by
  have hl := congrArg String.toList h
  rw [keyText_toList, keyText_toList, List.append_cancel_left_eq, List.cons.injEq] at hl
  have hrev := congrArg List.reverse hl.2
  simp only [List.reverse_append, List.reverse_cons, List.append_assoc, List.singleton_append] at hrev
  -- Read backwards, the last part ends at the first colon.
  have upto : ∀ {x : String} (y : List Char), ':' ∉ x.toList →
      (x.toList.reverse ++ ':' :: y).takeWhile (fun ch => decide (ch ≠ ':')) = x.toList.reverse := fun {x} y hx => by
    rw [List.takeWhile_append_of_pos]
    · simp
    · intro ch hch
      simp only [decide_eq_true_eq]
      rintro rfl
      exact hx (List.mem_reverse.1 hch)
  have hdisc := congrArg (List.takeWhile (fun ch => decide (ch ≠ ':'))) hrev
  rw [upto _ hd, upto _ hd'] at hdisc
  have hdisc : disc = disc' := String.toList_inj.1 (List.reverse_injective hdisc)
  subst hdisc
  rw [List.append_cancel_left_eq, List.cons.injEq] at hrev
  exact ⟨String.toList_inj.1 (List.reverse_injective hrev.2), rfl⟩

/-- A number is written without colons. -/
theorem colon_notMem_toString (n : Int) : ':' ∉ (toString n).toList := by
  have digits : ∀ m : Nat, ':' ∉ m.repr.toList := fun m hm => by
    rw [Nat.toList_repr] at hm
    have := Nat.isDigit_of_mem_toDigits (by decide) (by decide) hm
    simp at this
  rw [Int.toString_eq_repr, Int.repr_eq_if]
  split
  · exact digits _
  · rw [String.toList_append]
    intro hm
    rcases List.mem_append.1 hm with hm | hm
    · simp at hm
    · exact digits _ hm

/-- **A cron key stands for one instant of one job.** -/
theorem cronExecutionKey_inj (hi : env.Injective) {j j' key : String} {f f' : Instant}
    (h : cronExecutionKey env j f = some key) (h' : cronExecutionKey env j' f' = some key) :
    j = j' ∧ f / second = f' / second := by
  have htext := hi "c" (by decide) "c" (by decide) _ _ _ _ key h h'
  obtain ⟨hj, hd⟩ := keyText_inj htext (colon_notMem_toString _) (colon_notMem_toString _)
  rw [Int.toString_eq_repr, Int.toString_eq_repr] at hd
  exact ⟨hj, Int.repr_injective hd⟩

theorem keyText_kind {kind kind' j j' disc disc' : String} {x x' : Char} (hk : kind.toList = [x])
    (hk' : kind'.toList = [x']) (h : keyText kind j disc = keyText kind' j' disc') : x = x' := by
  have hl := congrArg String.toList h
  rw [keyText_toList, keyText_toList, hk, hk'] at hl
  exact (List.cons.inj hl).1

/-- What an execution's key stands for: a fire the history materialized, or a manual run or a poll pass. -/
inductive Keyed (env : Env) (tr : History) (e : ExecRow) : Prop
  | cron (hk : cronExecutionKey env e.jobName e.scheduledAt = some e.executionKey) (hw : e.scheduledAt % second = 0)
      (hf : (e.jobName, e.scheduledAt) ∈ tr.flatMap fired)
  | other (kind disc : String) (hkind : kind = "m" ∨ kind = "p")
      (hk : executionKey env kind e.jobName disc = some e.executionKey)

theorem Keyed.mono {tr tr' : History} {e e' : ExecRow} (h : Keyed env tr e) (hi : e'.toExecInfo = e.toExecInfo)
    (hsub : ∀ p ∈ tr.flatMap fired, p ∈ tr'.flatMap fired) : Keyed env tr' e' := by
  cases h with
  | cron hk hw hf => exact .cron (by rw [hi]; exact hk) (by rw [hi]; exact hw) (by rw [hi]; exact hsub _ hf)
  | other kind disc hkind hk => exact .other kind disc hkind (by rw [hi]; exact hk)

/-- **The execution under an instant's key is the instant's.** -/
theorem Keyed.fired {tr : History} {e : ExecRow} {j : String} {f : Instant} (h : Keyed env tr e) (hi : env.Injective)
    (hk : cronExecutionKey env j f = some e.executionKey) (hw : f % second = 0) : (j, f) ∈ tr.flatMap GoJob.fired := by
  cases h with
  | cron hk' hw' hf =>
    obtain ⟨rfl, hdiv⟩ := cronExecutionKey_inj hi hk hk'
    have hfe : f = e.scheduledAt := by
      rw [← Int.ediv_mul_cancel (Int.dvd_of_emod_eq_zero hw), hdiv, Int.ediv_mul_cancel (Int.dvd_of_emod_eq_zero hw')]
    rw [hfe]
    exact hf
  | other kind disc hkind hk' =>
    exfalso
    rcases hkind with rfl | rfl
    · exact absurd (keyText_kind rfl rfl (hi "c" (by decide) "m" (by decide) _ _ _ _ _ hk hk')) (by decide)
    · exact absurd (keyText_kind rfl rfl (hi "c" (by decide) "p" (by decide) _ _ _ _ _ hk hk')) (by decide)

/-- The engine makes the key of a poll pass from a fresh identifier. -/
def Action.PollKeyed (env : Env) : Action → Prop
  | .materializePoll j key _ => ∃ id, executionKey env "p" j id = some key
  | _                        => True

/-- The clocks are whole and the keys stand for what they say, along every run. -/
theorem keyed_run {u : Utc} {tr : History} {w : World} (hr : Sys.Run (Step env) (World.init u) tr w)
    (hl : ∀ x ∈ tr, x.2.1.1.Lawful) (hpoll : ∀ x ∈ tr, x.2.1.1.PollKeyed env) :
    w.db.WholeClocks ∧ ∀ i e, w.db.exec? i = some e → Keyed env tr e := by
  refine Sys.Run.history (J := fun tr w => (∀ x ∈ tr, x.2.1.1.Lawful) → (∀ x ∈ tr, x.2.1.1.PollKeyed env) →
    w.db.WholeClocks ∧ ∀ i e, w.db.exec? i = some e → Keyed env tr e) ?_ ?_ hr hl hpoll
  · exact fun _ _ => ⟨fun _ _ _ hs => (by cases hs), fun _ _ he => (by cases he)⟩
  · intro tr w l w' hr ih hst hl hpoll
    obtain ⟨hwhole, hkeyed⟩ := ih (fun x hx => hl x (List.mem_append_left _ hx))
      (fun x hx => hpoll x (List.mem_append_left _ hx))
    have hlaw : l.1.Lawful := hl (w, l, w') (by simp)
    have hkey : l.1.PollKeyed env := hpoll (w, l, w') (by simp)
    have hsub : ∀ p ∈ tr.flatMap fired, p ∈ (tr ++ [(w, l, w')]).flatMap fired := fun p hp => by
      rw [List.flatMap_append]
      exact List.mem_append_left _ hp
    refine ⟨hst.commit.wholeClocks (HolderInv.run hr) hlaw hwhole, fun i e' he' => ?_⟩
    cases he : w.db.exec? i with
    | some e => exact (hkeyed i e he).mono (hst.commit.info he he') hsub
    | none =>
      obtain ⟨b, hb⟩ : ∃ b, l.1 = b := ⟨_, rfl⟩
      have hnew := hst.commit.new he he'
      rw [hb] at hnew hkey
      obtain ⟨j, d, s, s', -, hs, hj, hm, -⟩ := hnew
      cases hm with
      | poll id =>
        obtain ⟨disc, hdisc⟩ := hkey
        exact .other "p" disc (Or.inr rfl) hdisc
      | manual key merged id _ hk => exact .other "m" _ (Or.inl rfl) hk
      | cron key id due fireAt next _ hdue hp hk =>
        have hfire := hst.commit.newFire hlaw hwhole he he' rfl
        refine .cron hfire.key (datetime_mod fireAt) ?_
        rw [List.flatMap_append]
        exact List.mem_append_right _ (by simpa using mem_fired.2 ⟨i, _, he, he', rfl, rfl⟩)

/-! ## What a pass leaves behind -/

/-- The calls the job's clock is exposed to bring the schedule of its definition, with the fire instants `F`. -/
def Action.Follows (j : String) (d : DefinitionRow) (F : Set Instant) : Action → Prop
  | .materializeCron k compile _ => k = j → ∀ sched, compile d.toDefinition = .ok sched → sched.Fires F
  | .recompute k compile         => k = j → ∀ sched, compile d.toDefinition = .ok sched → sched.Fires F
  | .materializePoll k _ _       => k ≠ j
  | _                            => True

/-- The step moves the job's fire clock past the instant. -/
def MovesPast (x : World × (Action × Ctx) × World) (j : String) (f : Instant) : Prop :=
  ∃ s s' t t', x.1.db.state? j = some s ∧ s.nextFireAt = some t ∧ x.2.2.db.state? j = some s' ∧
    s'.nextFireAt = some t' ∧ t ≤ f ∧ f < t'

/-- A `Recompute` of the job while its fire clock is behind the business time. -/
def RecomputesLate (j : String) (db : DB) (a : Action) (c : Ctx) : Prop :=
  ∃ compile s t, a = .recompute j compile ∧ db.state? j = some s ∧ s.nextFireAt = some t ∧ t < c.now

/-- **A due pass under FIRE_ONCE leaves nothing behind that came up in time**, apart from the instant it creates. -/
theorem DuePass.left_behind {compile : Compile} {grace due fireAt next f : Instant} {d : DefinitionRow} {create : Bool}
    {F : Set Instant} (h : DuePass c compile grace d due fireAt create next) (hm : d.misfire = .fireOnce)
    (hF : ∀ sched, compile d.toDefinition = .ok sched → sched.Fires F) (hf : f ∈ F) (hle : due ≤ f)
    (hlt : f < datetime next) : f < c.now - grace ∨ (create = true ∧ f = fireAt) := by
  obtain ⟨-, sched, hc, ⟨n, x, hn, hcase⟩, hnext⟩ := h
  have hF := hF sched hc
  rw [if_neg (by rw [hm]; simp)] at hnext
  obtain ⟨⟨hnF, -⟩, hleast⟩ := hF.next hnext
  rw [datetime_whole (hF.whole _ hnF)] at hlt
  -- `next` is the first instant after the one dealt with.
  have hup : f ≤ fireAt := by
    by_contra hgt
    exact absurd (hleast ⟨hf, not_le.1 hgt⟩) (not_le.2 hlt)
  rcases hcase with ⟨-, rfl, rfl⟩ | ⟨-, hskip, -⟩ | ⟨hn0, -, ⟨-, rfl, -⟩ | ⟨hlat, -⟩⟩
  · exact Or.inr ⟨rfl, le_antisymm hup hle⟩
  · rw [hm] at hskip; cases hskip
  · have hne : (F ∩ Set.Ioc (fireAt - 1) (c.now - grace - 1)).ncard ≠ 0 := by
      intro h0
      rw [hF.count hn, h0] at hn0
      exact hn0 (Nat.min_zero _)
    obtain ⟨g, -, hg₁, hg₂⟩ := Set.nonempty_of_ncard_ne_zero hne
    have hg : fireAt ≤ g := Int.le_of_sub_one_lt hg₁
    exact Or.inl (by linarith)
  · obtain ⟨⟨-, -, hhi⟩, -⟩ := hF.latest hlat
    exact Or.inl (by linarith)

/-- **A recomputation of a clock that is not behind passes nothing.** -/
theorem Clocks.nothing_passed {compile : Compile} {s : StateRow} {d : DefinitionRow} {t t' f : Instant}
    {fire poll : Option Instant} {F : Set Instant} (h : Clocks c db compile s d fire poll)
    (hF : ∀ sched, compile d.toDefinition = .ok sched → sched.Fires F) (hfire : fire = some t') (hnow : c.now ≤ t)
    (hf : f ∈ F) (hle : t ≤ f) : t' ≤ f := by
  cases h with
  | cron sched next _ _ _ hc hn =>
    have hF := hF sched hc
    obtain ⟨⟨hnF, -⟩, hleast⟩ := hF.next hn
    rw [datetime_whole (hF.whole _ hnF)] at hfire
    obtain rfl := Option.some.inj hfire
    exact hleast ⟨hf, lt_of_lt_of_le (Int.sub_one_lt_of_le hnow) hle⟩
  | _ => cases hfire

/-! ## Along a run -/

/-- The job has this definition, and its clock was computed from it. -/
structure DB.Reconciled (db : DB) (j : String) (d : DefinitionRow) : Prop where
  defn  : db.def? j = some d
  state : ∃ s, db.state? j = some s ∧ InDateCron s d

/-- **A reconciled clock stays reconciled until the definition is edited.** -/
theorem DB.Reconciled.commit {issued : List String} {j : String} {d : DefinitionRow} (h : db.Reconciled j d)
    (hc : Commit env c db a db') (hinv : HolderInv db issued) (hd' : db'.def? j = some d) : db'.Reconciled j d := by
  obtain ⟨hd, s, hs, hin⟩ := h
  have version : ∀ {s'}, db'.state? j = some s' → s'.configVersion = d.version → db'.Reconciled j d :=
    fun {s'} hs' hv => ⟨hd', s', hs', hin.enabled, hin.retired, hin.kind, hv⟩
  rcases hc.clockEffect hinv with hcat | hfx
  · exact version (catalog_state? hcat hs) hin.version
  · cases hfx j with
    | kept _ hcols =>
      rw [hs, Option.map_some] at hcols
      obtain ⟨s', hs', hcols⟩ := Option.map_eq_some_iff.1 hcols
      exact version hs' ((StateRow.clockCols_eq hcols).2.2.trans hin.version)
    | retired _ _ _ _ hst => exact version (hst.trans hs) hin.version
    | settled t _ _ hs₁ hs' hcols =>
      obtain rfl := Option.some.inj (hs.symm.trans hs₁)
      simp only [StateRow.clockCols, Prod.mk.injEq] at hcols
      exact version hs' (hcols.2.2.trans hin.version)
    | moved hd₁ hs₁ hm hf =>
      obtain rfl := Option.some.inj (hd.symm.trans hd₁)
      have hs' := hf.states j
      rw [if_pos rfl] at hs'
      cases hm <;> exact version hs' rfl
    | created hd₁ hs₁ _ hm _ hf =>
      obtain rfl := Option.some.inj (hd.symm.trans hd₁)
      obtain rfl := Option.some.inj (hs.symm.trans hs₁)
      cases hm with
      | cron => exact version hf.state? rfl
      | poll => exact version hf.state? hin.version
      | manual => exact version hf.state? hin.version

/-- What became of an instant that a step moved past: an execution by then, or too late under the pass's threshold. -/
def Accounted (tr : History) (x : World × (Action × Ctx) × World) (j : String) (f : Instant) : Prop :=
  (j, f) ∈ (tr ++ [x]).flatMap fired ∨
    ∃ compile grace, x.2.1.1 = .materializeCron j compile grace ∧ f < x.2.1.2.now - grace

/-- **One step accounts for every instant it moves past**, unless it recomputes a clock that is behind. -/
theorem Step.accounted {tr : History} {w w' : World} {l : Action × Ctx} {j : String} {d : DefinitionRow}
    {F : Set Instant} {f : Instant} (hst : Step env w l w') (hinv : HolderInv w.db w.issued) (hi : env.Injective)
    (hkeyed : ∀ i e, w.db.exec? i = some e → Keyed env tr e) (hrec : w.db.Reconciled j d)
    (hm : d.misfire = .fireOnce) (hF : l.1.Follows j d F) (hlate : ¬ RecomputesLate j w.db l.1 l.2) (hf : f ∈ F)
    (hp : MovesPast (w, l, w') j f) : Accounted tr (w, l, w') j f := by
  obtain ⟨s, s', t, t', hs, ht, hs', ht', hle, hlt⟩ := hp
  obtain ⟨hd, s₀, hs₀, hin⟩ := hrec
  obtain rfl := Option.some.inj (hs.symm.trans hs₀)
  have still : s'.nextFireAt = s.nextFireAt → Accounted tr (w, l, w') j f := fun hn => by
    rw [ht, ht'] at hn
    obtain rfl := Option.some.inj hn
    exact absurd hlt (not_lt.2 hle)
  obtain ⟨⟨b, c⟩, rfl⟩ : ∃ l₀, l = l₀ := ⟨_, rfl⟩
  rcases hst.commit.clockEffect hinv with hcat | hfx
  · exact still (congrArg StateRow.nextFireAt (Option.some.inj (hs'.symm.trans (catalog_state? hcat hs))))
  · cases hfx j with
    | kept _ hcols =>
      obtain ⟨s₁, hs₁, hn, -⟩ := clocks_kept hcols hs'
      obtain rfl := Option.some.inj (hs.symm.trans hs₁)
      exact still hn
    | retired _ _ _ _ hsame =>
      exact still (congrArg StateRow.nextFireAt (Option.some.inj (hs'.symm.trans (hsame.trans hs))))
    | settled _ _ _ hs₁ hs₂ hcols =>
      obtain rfl := Option.some.inj (hs.symm.trans hs₁)
      obtain rfl := Option.some.inj (hs'.symm.trans hs₂)
      simp only [StateRow.clockCols, Prod.mk.injEq] at hcols
      exact still hcols.1
    | moved hd₁ hs₁ hmove hfr =>
      obtain rfl := Option.some.inj (hd.symm.trans hd₁)
      obtain rfl := Option.some.inj (hs.symm.trans hs₁)
      obtain rfl : d.jobName = j := DB.def?_jobName hd
      rw [hfr.states, if_pos rfl] at hs'
      obtain rfl := Option.some.inj hs'
      cases hmove with
      | recompute fire poll hck =>
        have hnow : c.now ≤ t := by
          by_contra hbehind
          exact hlate ⟨_, s, t, rfl, hs, ht, not_le.1 hbehind⟩
        exact absurd hlt (not_lt.2 (hck.nothing_passed (hF rfl) ht' hnow hf hle))
      | cronDrift _ _ hout _ => exact absurd hin hout
      | pollDrift _ _ _ => exact absurd rfl hF
      | advance due fireAt next create _ hdue hpass hkey =>
        obtain rfl := Option.some.inj (ht.symm.trans hdue)
        obtain rfl := Option.some.inj ht'
        rcases hpass.left_behind hm (hF rfl) hf hle hlt with hold | ⟨hcr, rfl⟩
        · exact Or.inr ⟨_, _, rfl, hold⟩
        · -- The key was taken, so the instant has had its execution before.
          obtain ⟨i, e, he, hk⟩ := hkey hcr
          obtain ⟨-, sched, hc, -⟩ := hpass
          rw [Accounted, List.flatMap_append]
          exact Or.inl (List.mem_append_left _ ((hkeyed i e he).fired hi hk ((hF rfl sched hc).whole f hf)))
    | created hd₁ hs₁ hj hcreate hid hfr =>
      obtain rfl := Option.some.inj (hd.symm.trans hd₁)
      obtain rfl := Option.some.inj (hs.symm.trans hs₁)
      obtain rfl := Option.some.inj (hs'.symm.trans hfr.state?)
      cases hcreate with
      | cron key id due fireAt next _ hdue hpass hk =>
        obtain rfl := Option.some.inj (ht.symm.trans hdue)
        obtain rfl := Option.some.inj ht'
        rcases hpass.left_behind hm (hF hj) hf hle hlt with hold | ⟨-, rfl⟩
        · exact Or.inr ⟨_, _, by rw [← hj]; rfl, hold⟩
        · obtain ⟨-, sched, hc, -⟩ := hpass
          have hat : datetime f = f := datetime_whole ((hF hj sched hc).whole f hf)
          rw [Accounted, List.flatMap_append, List.flatMap_singleton]
          exact Or.inl (List.mem_append_right _ (mem_fired.2 ⟨_, _, DB.exec?_eq_none_of_lt hid, hfr.exec?, rfl,
            Prod.ext hj hat⟩))
      | poll => exact still rfl
      | manual => exact still rfl

/-! ## Every ten seconds -/

/-- A digest that keeps the whole text. -/
def plainEnv : Env := ⟨fun full => full, fun defaults _ => .ok defaults⟩

/-- The key of a long text starts with a mark that no kind does. -/
theorem executionKey_plainEnv (kind j disc : String) : executionKey plainEnv kind j disc = some (keyText kind j disc) ∨
    executionKey plainEnv kind j disc = some ("~" ++ keyText kind j disc) := by
  unfold executionKey
  by_cases hshort : (keyText kind j disc).utf8ByteSize ≤ maxExecutionKey
  · exact Or.inl (if_pos hshort)
  · refine Or.inr ((if_neg hshort).trans ?_)
    have hroom : maxExecutionKey - ("~" ++ keyText kind j disc).utf8ByteSize = 0 := by
      rw [String.utf8ByteSize_append]
      omega
    show (takeBytes (keyText kind j disc).toList
      (maxExecutionKey - ("~" ++ keyText kind j disc).utf8ByteSize)).map _ = _
    rw [hroom]
    simp [takeBytes, plainEnv, keyText]

theorem plainEnv_injective : plainEnv.Injective := by
  intro kind hk kind' hk' j j' disc disc' key h h'
  have marked : ∀ kind ∈ keyKinds, ∀ j disc text, keyText kind j disc ≠ "~" ++ text := by
    intro kind hk j disc text heq
    have hl := congrArg String.toList heq
    rw [keyText_toList, String.toList_append] at hl
    simp only [keyKinds, List.mem_cons, List.not_mem_nil, or_false] at hk
    rcases hk with rfl | rfl | rfl <;> simp at hl
  rcases executionKey_plainEnv kind j disc with h₁ | h₁ <;> rcases executionKey_plainEnv kind' j' disc' with h₂ | h₂ <;>
    rw [h₁] at h <;> rw [h₂] at h' <;> have heq := Option.some.inj (h.trans h'.symm)
  · exact heq
  · exact absurd heq (marked kind hk _ _ _)
  · exact absurd heq.symm (marked kind' hk' _ _ _)
  · exact String.toList_inj.1 (List.append_cancel_left (by
      simpa [String.toList_append] using congrArg String.toList heq : "~".toList ++ _ = "~".toList ++ _))

/-- A job on that schedule is created, edited, and reconciled with its edit at second 2. -/
def reconciledJob : List (Action × Int) :=
  [(.createJob (sampleJob "sync" .cron "*/10 * * * * *") (10 * second) "operator" "new", 0),
   (.updateJob { sampleJob "sync" .cron "*/10 * * * * *" with description := "edited" } 1 "operator" "edit", 1),
   (.recompute "sync" (fun _ => .ok everyTen), 2)]

def reconciledWorld : World := (World.init 0).play plainEnv reconciledJob

def reconciledDef : DefinitionRow := Option.get (reconciledWorld.db.def? "sync") (by decide +kernel)

theorem reconciledWorld_reconciled : reconciledWorld.db.Reconciled "sync" reconciledDef :=
  ⟨(Option.some_get _).symm, Option.get (reconciledWorld.db.state? "sync") (by decide +kernel),
    (Option.some_get _).symm, by decide +kernel, by decide +kernel, by decide +kernel, by decide +kernel⟩

theorem reconciledJob_calls : ∀ x ∈ (World.init 0).trace plainEnv reconciledJob,
    x.2.1.1.Lawful ∧ x.2.1.1.PollKeyed plainEnv := by
  intro x hx
  simp only [reconciledJob, World.trace, List.mem_cons, List.not_mem_nil, or_false] at hx
  rcases hx with rfl | rfl | rfl
  · exact ⟨trivial, trivial⟩
  · exact ⟨trivial, trivial⟩
  · exact ⟨everyTen_lawful, trivial⟩

/-- The world after one more call about the job. -/
theorem reconciledWorld_step (a : Action) (hm : a.mints = none) (t : Int) (ht : 2 ≤ t) :
    Step plainEnv reconciledWorld (a, Ctx.at_ t) (reconciledWorld.call plainEnv a t) := by
  refine ⟨?_, fun _ => le_refl t, fun x hx => ?_, rfl, rfl⟩
  · exact le_trans (by decide +kernel : reconciledWorld.utc ≤ 2) ht
  · rw [hm] at hx; cases hx

end GoJob
