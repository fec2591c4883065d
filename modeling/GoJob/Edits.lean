import GoJob.Trail
/-!
# Edits — a definition is replaced only as it was read

`UpdateJob` names the version it was written against.  Every change of a definition raises its version, so a row at that
version is the row the operator read: nothing that happened in between is overwritten, and of two edits written against
one version only the first succeeds.
-/
namespace GoJob

open Rel Tx

variable {env : Env} {c : Ctx} {w w₁ w₂ w₃ w' : World} {l : Action × Ctx} {j : String}

/-- **A step leaves a definition alone or raises its version.** -/
theorem Step.def_raised (hst : Step env w l w') (hw : Explained w.db) {d : DefinitionRow} (hd : w.db.def? j = some d) :
    ∃ d', w'.db.def? j = some d' ∧ (d' = d ∨ d.version < d'.version) := by
  obtain ⟨hkeeps, rs, hs⟩ := hst.explained
  have hv : w'.db.version j = w.db.version j + (rs.filter (·.edits j)).length := by
    rw [(hkeeps hw).version j, hw.version j, DB.editsOf, show w'.db.audits = _ from hs.audits, List.filter_append,
      List.length_append, DB.editsOf]
  by_cases hrs : rs.filter (·.edits j) = []
  · have hsame : w'.db.def? j = w.db.def? j := hs.defs j (fun r hr => by
      simpa using List.filter_eq_nil_iff.1 hrs r hr)
    exact ⟨d, hsame.trans hd, Or.inl rfl⟩
  · have hpos := List.length_pos_iff.2 hrs
    have hold : w.db.version j = d.version := by simp [DB.version, hd]
    cases hd' : w'.db.def? j with
    | none =>
      have : w'.db.version j = 0 := by simp [DB.version, hd']
      omega
    | some d' =>
      have : w'.db.version j = d'.version := by simp [DB.version, hd']
      exact ⟨d', rfl, Or.inr (by omega)⟩

section run

variable {u : Utc} {tr₁ tr₂ : History}

/-- Along a run a definition's version never falls, and a definition at the same version is the same. -/
theorem def_run (hr₁ : Sys.Run (Step env) (World.init u) tr₁ w₁) (hr₂ : Sys.Run (Step env) w₁ tr₂ w₂)
    {d : DefinitionRow} (hd : w₁.db.def? j = some d) :
    ∃ d', w₂.db.def? j = some d' ∧ (d' = d ∨ d.version < d'.version) := by
  induction hr₂ with
  | nil => exact ⟨d, hd, Or.inl rfl⟩
  | snoc hr hst ih =>
    obtain ⟨d₁, hd₁, hle⟩ := ih
    obtain ⟨d₂, hd₂, hstep⟩ := hst.def_raised (.run (hr₁.append hr)) hd₁
    refine ⟨d₂, hd₂, ?_⟩
    rcases hle with rfl | hlt
    · exact hstep
    · rcases hstep with rfl | hlt'
      · exact Or.inr hlt
      · exact Or.inr (lt_trans hlt hlt')

theorem updateJob_ok {db db' : DB} {d : Definition} {v : Nat} {x y : String} {t : Unit}
    (h : updateJob c d v x y db = .ok (t, db')) : ∃ r hp, db.def? d.jobName = some r ∧ r.version = v ∧
      db'.def? d.jobName = some ((editWrite d x hp).run r) := by
  obtain ⟨_, h⟩ := check_ok h
  obtain ⟨n, _, h₁, h⟩ := Tx.bind_ok.1 h
  obtain ⟨hn, h⟩ := check_ok h
  obtain ⟨r, hp, hd, hg, rfl⟩ := editDefinition_ok hn h₁
  obtain ⟨_, rfl⟩ := audit_ok h
  exact ⟨r, hp, hd, by simpa using hg, by simp [hd]⟩

theorem editDefinition_missed {db : DB} {d : Definition} {r : DefinitionRow} {x context : String}
    {g : DefinitionRow → Bool} (hd : db.def? d.jobName = some r) (hg : g r = false) :
    editDefinition d x g context db = .ok (0, db) := by
  unfold editDefinition
  split
  · rename_i hp
    obtain ⟨n, db', h⟩ : ∃ n db', updateDefinition d.jobName g (editWrite d x hp) db = .ok (n, db') := ⟨_, _, rfl⟩
    rcases updateDefinition_ok h with ⟨r', hr', hg', -⟩ | ⟨-, rfl, rfl⟩
    · rw [Option.some.inj (hd.symm.trans hr'), hg'] at hg
      cases hg
    · exact h
  · rw [Tx.bind_of_ok (Tx.get_run db), hd, Option.any_some, hg]
    rfl

/-- An edit written against another version than the row's is refused. -/
theorem updateJob_stale {db : DB} {d : Definition} {r : DefinitionRow} {v : Nat} {x y : String}
    (hd : db.def? d.jobName = some r) (hv : r.version ≠ v) (hx : x ≠ "") (hy : y ≠ "") :
    ∃ detail, updateJob c d v x y db = .error ⟨.staleVersion, detail⟩ := by
  unfold updateJob
  rw [if_neg (by simp [hx, hy]), Tx.bind_of_ok (editDefinition_missed hd (decide_eq_false hv)), if_pos rfl]
  exact ⟨_, rfl⟩

/-- **No edit is lost.**  Whoever edits a definition against the version they read replaces exactly the row they read:
it was not touched in between.  From then on every edit written against that version is refused as stale. -/
theorem no_edit_is_lost {d : Definition} {r : DefinitionRow} {x y : String} {t : Unit}
    (hr₁ : Sys.Run (Step env) (World.init u) tr₁ w₁) (hread : w₁.db.def? d.jobName = some r)
    (hr₂ : Sys.Run (Step env) w₁ tr₂ w₂) (hst : Step env w₂ (.updateJob d r.version x y, c) w₃)
    (hok : updateJob c d r.version x y w₂.db = .ok (t, w₃.db)) :
    (∀ z ∈ tr₂, z.1.db.def? d.jobName = some r) ∧ w₂.db.def? d.jobName = some r ∧
    (∃ hp, w₃.db.def? d.jobName = some ((editWrite d x hp).run r)) ∧
    ∀ w tr₃, Sys.Run (Step env) w₃ tr₃ w → ∀ c' (d' : Definition) x' y', d'.jobName = d.jobName → x' ≠ "" → y' ≠ "" →
      ∃ detail, updateJob c' d' r.version x' y' w.db = .error ⟨.staleVersion, detail⟩ := by
  obtain ⟨r₂, hp, hr, hv, hnew⟩ := updateJob_ok hok
  have hrow : w₂.db.def? d.jobName = some r := by
    obtain ⟨r', hr', rfl | hlt⟩ := def_run hr₁ hr₂ hread
    · exact hr'
    · obtain rfl := Option.some.inj (hr.symm.trans hr')
      omega
  obtain rfl := Option.some.inj (hr.symm.trans hrow)
  refine ⟨fun z hz => ?_, hrow, ⟨hp, hnew⟩, fun w tr₃ hr₃ c' d' x' y' hj hx hy => ?_⟩
  · -- A row between two moments at one version is at that version.
    obtain ⟨pre, post, -, hpre, hz, hpost⟩ := hr₂.split hz
    obtain ⟨r', hr', hbefore⟩ := def_run hr₁ hpre hread
    obtain ⟨r'', hr'', hafter⟩ := def_run (hr₁.append hpre) ((Sys.Run.single hz).append hpost) hr'
    obtain rfl := Option.some.inj (hrow.symm.trans hr'')
    rcases hbefore with rfl | hlt
    · exact hr'
    · rcases hafter with rfl | hlt'
      · exact hr'
      · omega
  · obtain ⟨r', hr', hlater⟩ := def_run ((hr₁.append hr₂).append (.single hst)) hr₃ hnew
    have hup : ((editWrite d x hp).run r₂).version = r₂.version + 1 := (editWrite d x hp).version r₂
    refine updateJob_stale (hj ▸ hr') ?_ hx hy
    rcases hlater with rfl | hlt <;> omega

end run

/-- Two operators edit a job they both read at version 1: the second edit is refused. -/
theorem no_edit_is_lost_twice :
    ∃ detail, updateJob (Ctx.at_ 2) (sampleJob "sync" .fixedDelay "3000") 1 "deputy" "slower still"
      ((World.init 0).play bareEnv (firstPass.take 1 ++
        [(.updateJob (sampleJob "sync" .fixedDelay "2000") 1 "operator" "slower", 1)])).db =
          .error ⟨.staleVersion, detail⟩ :=
  (no_edit_is_lost (d := sampleJob "sync" .fixedDelay "2000") (x := "operator") (y := "slower")
    (World.run_play bareEnv (firstPass.take 1) (World.init 0) (by decide)) rfl .nil
    (World.step_call bareEnv (t := 1) (by decide) rfl) rfl).2.2.2 _ _ .nil (Ctx.at_ 2)
      (sampleJob "sync" .fixedDelay "3000") "deputy" "slower still" rfl (by decide) (by decide)

end GoJob
