import GoJob.Attempts
import GoJob.Budget
import GoJob.Scans
/-!
# Reaping — retention deletes exactly what is old

A retention pass deletes the oldest of the executions that are past their window, as many as its batch holds, each with
its attempts, and nothing else.  So after `k` passes the first `k` batches are gone and the rest is as it was.  Whatever
else happens in between, no attempt is ever left behind without its execution.
-/
namespace GoJob

open Rel Tx

variable {env : Env} {c : Ctx} {db db₁ db' : DB}

/-! ## Deleting a list of executions -/

/-- `db'` is `db` without the executions in `L` and their attempts. -/
structure Without (db : DB) (L : List ExecRow) (db' : DB) : Prop where
  rows     : db'.executions.table.rows = db.executions.table.rows.filter (fun e => decide (e.id ∉ L.map (·.id)))
  attempts : db'.attempts.rows = db.attempts.rows.filter (fun r => decide (r.executionKey ∉ L.map (·.executionKey)))
  defs     : db'.definitions = db.definitions
  states   : db'.states = db.states
  audits   : db'.audits = db.audits

theorem Without.nil : Without db [] db := ⟨by simp, by simp, rfl, rfl, rfl⟩

theorem Without.trans {L M : List ExecRow} (h : Without db L db₁) (h' : Without db₁ M db') :
    Without db (L ++ M) db' where
  rows := by
    rw [h'.rows, h.rows, List.filter_filter]
    refine List.filter_congr (fun e _ => ?_)
    rw [← Bool.decide_and, decide_eq_decide, List.map_append, List.mem_append, not_or, and_comm]
  attempts := by
    rw [h'.attempts, h.attempts, List.filter_filter]
    refine List.filter_congr (fun r _ => ?_)
    rw [← Bool.decide_and, decide_eq_decide, List.map_append, List.mem_append, not_or, and_comm]
  defs := h'.defs.trans h.defs
  states := h'.states.trans h.states
  audits := h'.audits.trans h.audits

theorem Without.exec? {L : List ExecRow} (h : Without db L db') (i : Nat) :
    db'.exec? i = if i ∈ L.map (·.id) then none else db.exec? i := by
  refine Option.ext (fun e => ?_)
  rw [DB.exec?, Table.get?_eq_some, h.rows, List.mem_filter, decide_eq_true_eq]
  split
  · rename_i hi
    simp only [reduceCtorEq, iff_false]
    rintro ⟨⟨-, hne⟩, rfl⟩
    exact hne hi
  · rename_i hi
    rw [DB.exec?, Table.get?_eq_some]
    constructor
    · rintro ⟨⟨he, -⟩, hk⟩
      exact ⟨he, hk⟩
    · rintro ⟨he, rfl⟩
      exact ⟨⟨he, hi⟩, rfl⟩

/-- An execution that is gone is one of the list, and so its attempts are gone. -/
theorem Without.attempts_gone {L : List ExecRow} (h : Without db L db') (hL : ∀ x ∈ L, x ∈ db.executions.table.rows)
    {i : Nat} {e : ExecRow} (he : db.exec? i = some e) (hgone : db'.exec? i = none) {r : AttemptRow}
    (hr : r ∈ db'.attempts.rows) : r.executionKey ≠ e.executionKey := by
  have hi : i ∈ L.map (·.id) := by
    by_contra hi
    rw [h.exec? i, if_neg hi, he] at hgone; cases hgone
  obtain ⟨x, hx, rfl⟩ := List.mem_map.1 hi
  obtain rfl := Option.some.inj ((DB.mem_iff.1 (hL x hx)).symm.trans he)
  rw [h.attempts, List.mem_filter, decide_eq_true_eq] at hr
  exact fun hk => hr.2 (hk ▸ List.mem_map_of_mem hx)

/-- One candidate goes, with its attempts. -/
theorem reapOne_run {e : ExecRow} (he : e ∈ db.executions.table.rows) (ht : e.status.terminal = true) :
    ∃ db', reapOne e.id e.executionKey db = .ok ((), db') ∧ Without db [e] db' := by
  have hn : db.executions.table.rows.countP
      (fun x => decide (x.id = e.id) && decide (x.executionKey = e.executionKey) && x.status.terminal) = 1 := by
    refine Table.countP_at (DB.mem_iff.1 he) (by simp [ht]) (fun x hx => ?_)
    simp only [Bool.and_eq_true, decide_eq_true_eq] at hx
    exact hx.1.1
  refine ⟨(db.setAttempts (db.attempts.delete (fun a => decide (a.executionKey = e.executionKey)))).deleteExecs
    (fun x => decide (x.id = e.id) && decide (x.executionKey = e.executionKey) && x.status.terminal),
    ?_, ?rows, ?attempts, rfl, rfl, rfl⟩
  · unfold reapOne
    rw [Tx.bind_of_ok (Tx.get_run db)]
    refine (Tx.bind_of_ok (a := PUnit.unit) rfl).trans ?_
    rw [if_neg (not_not.2 hn)]
    rfl
  case rows =>
    show db.executions.table.rows.filter _ = _
    refine List.filter_congr (fun x hx => ?_)
    by_cases hid : x.id = e.id
    · obtain rfl := Table.eq_of_mem hx he hid
      simp [ht]
    · simp [hid]
  case attempts =>
    show db.attempts.rows.filter _ = _
    refine List.filter_congr (fun r _ => ?_)
    simp

theorem reapAll_run : ∀ {L : List ExecRow} (db : DB) (n : Nat), (L.map (·.id)).Nodup →
    (∀ e ∈ L, e ∈ db.executions.table.rows ∧ e.status.terminal = true) →
    ∃ db', reapAll L n db = .ok (n + L.length, db') ∧ Without db L db'
  | [], db, n, _, _ => ⟨db, rfl, .nil⟩
  | e :: L, db, n, hnd, hall => by
    obtain ⟨hne, hnd⟩ := List.nodup_cons.1 hnd
    obtain ⟨he, ht⟩ := hall e (by simp)
    obtain ⟨db₁, h₁, hw₁⟩ := reapOne_run he ht
    obtain ⟨db₂, h₂, hw₂⟩ := reapAll_run db₁ (n + 1) hnd (fun x hx => by
      obtain ⟨hrow, hterm⟩ := hall x (by simp [hx])
      refine ⟨?_, hterm⟩
      rw [hw₁.rows, List.mem_filter]
      refine ⟨hrow, decide_eq_true (fun hid => hne ?_)⟩
      rw [List.map_singleton, List.mem_singleton] at hid
      exact List.mem_map.2 ⟨x, hx, hid⟩)
    refine ⟨db₂, ?_, hw₁.trans hw₂⟩
    rw [reapAll, Tx.bind_of_ok h₁, h₂, List.length_cons]
    congr 2
    omega

/-! ## A pass -/

theorem ExecRow.older_iff {a b : ExecRow} : a.older b = true ↔ ScanLe (fun e => e.finishedAt.getD 0) a b := by
  simp [ExecRow.older]

instance : IsTrans ExecRow (fun a b => a.older b = true) := ⟨fun _ _ _ h h' =>
  ExecRow.older_iff.2 (IsTrans.trans _ _ _ (ExecRow.older_iff.1 h) (ExecRow.older_iff.1 h'))⟩

instance : Std.Total (fun a b : ExecRow => a.older b = true) := ⟨fun a b => by
  rw [ExecRow.older_iff, ExecRow.older_iff]
  exact Std.Total.total a b⟩

/-- The executions a pass may delete, oldest first. -/
def DB.reapable (db : DB) (c : Ctx) (s o : Instant) : List ExecRow :=
  (db.executions.table.rows.filter (fun e => e.expired (c.now - s) (c.now - o) && !c.busyExec e.id)).insertionSort
    (fun a b => a.older b)

theorem DB.mem_reapable {s o : Instant} {e : ExecRow} : e ∈ db.reapable c s o ↔
    e ∈ db.executions.table.rows ∧ e.expired (c.now - s) (c.now - o) = true ∧ c.busyExec e.id = false := by
  simp [DB.reapable]

theorem DB.reapable_nodup (db : DB) (c : Ctx) (s o : Instant) : ((db.reapable c s o).map (·.id)).Nodup :=
  (((List.perm_insertionSort _ _).map _).nodup_iff).2
    (db.executions.table.nodup.sublist (List.filter_sublist.map _))

theorem reapExecutions_run {s o : Instant} {limit : Int} (hs : 0 < s) (ho : 0 < o) (hl : 0 < limit) (db : DB) :
    ∃ db', reapExecutions c s o limit db = .ok (((db.reapable c s o).take limit.toNat).length, db') ∧
      Without db ((db.reapable c s o).take limit.toNat) db' := by
  obtain ⟨db', h, hw⟩ := reapAll_run (L := (db.reapable c s o).take limit.toNat) db 0
    ((db.reapable_nodup c s o).sublist ((List.take_sublist _ _).map _)) (fun e he => by
      obtain ⟨hrow, hexp, -⟩ := DB.mem_reapable.1 (List.mem_of_mem_take he)
      exact ⟨hrow, ExecRow.terminal_of_expired hexp⟩)
  refine ⟨db', ?_, hw⟩
  rw [Nat.zero_add] at h
  unfold reapExecutions
  rw [if_neg (not_le.2 hs), if_neg (not_le.2 ho), if_neg (not_le.2 hl), Tx.bind_of_ok (Tx.get_run db)]
  exact h

/-- A list without those of its first `n` elements, told apart by a key, is the rest. -/
theorem filter_take_eq_drop {α κ : Type} [DecidableEq κ] (f : α → κ) {L : List α} (h : (L.map f).Nodup) (n : Nat) :
    L.filter (fun x => decide (f x ∉ (L.take n).map f)) = L.drop n := by
  have hnd := h
  conv at hnd => arg 1; rw [← List.take_append_drop n L]
  rw [List.map_append, List.nodup_append] at hnd
  conv => lhs; arg 2; rw [← List.take_append_drop n L]
  rw [List.filter_append]
  have hfirst : (L.take n).filter (fun x => decide (f x ∉ (L.take n).map f)) = [] :=
    List.filter_eq_nil_iff.2 (fun x hx h => of_decide_eq_true h (List.mem_map_of_mem hx))
  have hrest : (L.drop n).filter (fun x => decide (f x ∉ (L.take n).map f)) = L.drop n :=
    List.filter_eq_self.2 (fun x hx => decide_eq_true fun hm => hnd.2.2 _ hm _ (List.mem_map_of_mem hx) rfl)
  rw [hfirst, hrest, List.nil_append]

/-- **What a batch leaves to be reaped is the rest of the list.** -/
theorem Without.reapable {s o : Instant} {n : Nat} (h : Without db ((db.reapable c s o).take n) db') :
    db'.reapable c s o = (db.reapable c s o).drop n := by
  have hperm : (db'.reapable c s o).Perm ((db.reapable c s o).drop n) := by
    rw [← filter_take_eq_drop (·.id) (db.reapable_nodup c s o) n]
    refine (List.perm_insertionSort _ _).trans ?_
    rw [h.rows, List.filter_comm]
    exact ((List.perm_insertionSort _ _).filter _).symm
  refine hperm.eq_of_pairwise (fun a b ha hb hab hba => ?_) (List.pairwise_insertionSort _ _)
    ((List.pairwise_insertionSort _ _).sublist (List.drop_sublist _ _))
  have ha := (DB.mem_reapable.1 (List.mem_of_mem_drop (hperm.mem_iff.1 ha))).1
  exact Table.eq_of_mem ha (DB.mem_reapable.1 (List.mem_of_mem_drop hb)).1
    ((ExecRow.older_iff.1 hab).id_eq (ExecRow.older_iff.1 hba))

/-! ## Pass after pass -/

/-- The schema after `k` passes in a row. -/
def reapPasses (c : Ctx) (s o : Instant) (limit : Int) : Nat → DB → DB
  | 0, db     => db
  | k + 1, db => (reapExecutions c s o limit).commit (reapPasses c s o limit k db)

theorem reapPasses_without {s o : Instant} {limit : Int} (hs : 0 < s) (ho : 0 < o) (hl : 0 < limit) (db : DB) :
    ∀ k, Without db ((db.reapable c s o).take (k * limit.toNat)) (reapPasses c s o limit k db)
  | 0 => by simpa [reapPasses] using .nil
  | k + 1 => by
    have hk := reapPasses_without hs ho hl db k
    obtain ⟨db', hrun, hw⟩ := reapExecutions_run (c := c) hs ho hl (reapPasses c s o limit k db)
    rw [reapPasses, Tx.commit_of_ok hrun]
    rw [hk.reapable] at hw
    have h := hk.trans hw
    rwa [← List.take_add, ← Nat.succ_mul] at h

/-- **Retention deletes exactly what is old, oldest first.**  Of the executions that are past their window and that
nobody has locked, `k` passes delete the first `k` batches, each with its attempts, and nothing else; each pass answers
with the number of executions it deleted; and enough passes leave none of them. -/
theorem retention_is_exact {s o : Instant} {limit : Int} (hs : 0 < s) (ho : 0 < o) (hl : 0 < limit) (c : Ctx) (db : DB)
    (k : Nat) :
    let gone := (db.reapable c s o).take (k * limit.toNat)
    let left := reapPasses c s o limit k db
    (∀ i, left.exec? i = if i ∈ gone.map (·.id) then none else db.exec? i) ∧
    (∀ r, r ∈ left.attempts.rows ↔ r ∈ db.attempts.rows ∧ r.executionKey ∉ gone.map (·.executionKey)) ∧
    left.definitions = db.definitions ∧ left.states = db.states ∧ left.audits = db.audits ∧
    (∃ db', reapExecutions c s o limit left =
      .ok (min limit.toNat ((db.reapable c s o).length - k * limit.toNat), db')) ∧
    ((db.reapable c s o).length ≤ k * limit.toNat → left.reapable c s o = []) := by
  intro gone left
  have hw : Without db gone left := reapPasses_without hs ho hl db k
  refine ⟨hw.exec?, fun r => ?_, hw.defs, hw.states, hw.audits, ?_, fun hlen => ?_⟩
  · rw [hw.attempts, List.mem_filter, decide_eq_true_eq]
  · obtain ⟨db', hrun, -⟩ := reapExecutions_run (c := c) hs ho hl left
    rw [hw.reapable, List.length_take, List.length_drop] at hrun
    exact ⟨db', hrun⟩
  · rw [hw.reapable]
    exact List.drop_eq_nil_of_le hlen

/-- The reported pass is a day old: one pass of an hour's retention deletes it, and the next finds nothing. -/
theorem retention_is_exact_ended :
    (reapPasses (Ctx.at_ 86400) (3600 * second) (3600 * second) 10 1
      ((World.init 0).play bareEnv endedPass).db).reapable (Ctx.at_ 86400) (3600 * second) (3600 * second) = [] :=
  (retention_is_exact (by decide) (by decide) (by decide) (Ctx.at_ 86400)
    ((World.init 0).play bareEnv endedPass).db 1).2.2.2.2.2.2 (by decide +kernel)

/-! ## No attempt without its execution -/

/-- Every attempt has its execution, which has been charged for it. -/
def DB.Whole (db : DB) : Prop :=
  ∀ r ∈ db.attempts.rows, ∃ i e, db.exec? i = some e ∧ e.executionKey = r.executionKey ∧ r.attemptNo ≤ e.attemptNo

/-- A step that deletes an execution deletes its attempts. -/
theorem Step.attempts_deleted {w w' : World} {l : Action × Ctx} (hst : Step env w l w') {i : Nat} {e : ExecRow}
    (he : w.db.exec? i = some e) (hgone : w'.db.exec? i = none) {r : AttemptRow} (hr : r ∈ w'.db.attempts.rows) :
    r.executionKey ≠ e.executionKey := by
  obtain ⟨a, c⟩ := l
  have hrow := hst.commit.row he
  rw [hgone] at hrow
  rcases Tx.commit_cases (a.tx env c) w.db with ⟨_, _, hsame⟩ | ⟨u, hok⟩
  · rw [hst.db, hsame, he] at hgone; cases hgone
  · rw [← hst.db] at hok
    cases hrow with
    | delete =>
      obtain ⟨n, hok⟩ := unit_ok hok
      obtain ⟨hs, h⟩ := check_ok hok
      obtain ⟨ho, h⟩ := check_ok h
      obtain ⟨hl, -⟩ := check_ok h
      obtain ⟨db', hrun, hw⟩ := reapExecutions_run (c := c) (not_le.1 hs) (not_le.1 ho) (not_le.1 hl) w.db
      obtain rfl : w'.db = db' := (Prod.mk.inj (Except.ok.inj (hok.symm.trans hrun))).2
      exact hw.attempts_gone (fun x hx => (DB.mem_reapable.1 (List.mem_of_mem_take hx)).1) he hgone hr

theorem DB.Whole.step {u : Utc} {tr : History} {w w' : World} {l : Action × Ctx}
    (hr : Sys.Run (Step env) (World.init u) tr w) (hst : Step env w l w') (hread : ReadsKey tr (w, l, w'))
    (h : w.db.Whole) : w'.db.Whole := by
  intro r hrow
  have old : r ∈ w.db.attempts.rows → ∃ i e, w'.db.exec? i = some e ∧ e.executionKey = r.executionKey ∧
      r.attemptNo ≤ e.attemptNo := fun hold => by
    obtain ⟨i, e, he, hk, hle⟩ := h r hold
    cases he' : w'.db.exec? i with
    | none => exact absurd hk.symm (hst.attempts_deleted he he' hrow)
    | some e' =>
      have hi := congrArg ExecInfo.executionKey (hst.commit.info he he')
      refine ⟨i, e', he', hi.trans hk, le_trans hle ?_⟩
      rcases hst.charge he he' with h | ⟨h, -⟩ <;> omega
  rcases Tx.commit_cases (l.1.tx env l.2) w.db with ⟨_, _, hsame⟩ | ⟨_, hok⟩
  · rw [← hst.db] at hsame
    exact old (hsame ▸ hrow)
  · rw [← hst.db] at hok
    cases l.1.history_of_ok hok with
    | kept _ hkept => exact old (hkept ▸ hrow)
    | reaped _ hsub => exact old (hsub r hrow)
    | recorded hend hcl =>
      rename_i k
      obtain ⟨_, _, ha, -, -, he, -, -, hm, -, hf, hrec⟩ := hcl
      obtain ⟨o, -, hatt⟩ := hrec k hend
      rw [hatt] at hrow
      rcases DB.mem_of_addAttempt hrow with hold | rfl
      · exact old hold
      · -- The row is new: it is of the execution the call ended, under the number that has then.
        rcases Action.ending_of_closing ha with ⟨p, n, hrefuse⟩ | ⟨k', hk', hid, -⟩
        · rw [hrefuse] at hend; cases hend
        · obtain rfl : k = k' := Option.some.inj (hend.symm.trans hk')
          rw [← hid] at he hf
          have hkey := (congrArg ExecInfo.executionKey hm.info).trans (hread.key hr hend he)
          exact ⟨k.executionId, _, hf.exec?, hkey, le_refl _⟩

end GoJob
