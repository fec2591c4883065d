import GoJob.OnTime
import GoJob.Server
/-!
# InFlight — what a returning executor may keep

An executor that registers again declares the attempts it is running, and is told which of them to abandon.  The answer
is computed from the execution row alone: a row that is not finished and carries the declared token is the executor's.
That misses one kind of row.  An operator's retry of a `dead` execution makes it `ready` without taking the token of its
last attempt off it, so the handler of an attempt the scheduler has ended is told to go on.
-/
namespace GoJob

open Rel

variable {env : Env} {db : DB}

/-! ## Reading a row by its key -/

theorem DB.executionByKey_some {u : Utc} {key : String} {row : Stale} (h : db.executionByKey u key = some row) :
    ∃ i e, db.exec? i = some e ∧ e.executionKey = key ∧ row = e.toStale u := by
  obtain ⟨e, he, rfl⟩ := Option.map_eq_some_iff.1 h
  have hmem := List.mem_of_find?_eq_some he
  have hkey : e.executionKey = key := by simpa using List.find?_some he
  exact ⟨e.id, e, DB.mem_iff.1 hmem, hkey, rfl⟩

theorem DB.executionByKey_of {i : Nat} {e : ExecRow} (he : db.exec? i = some e) (u : Utc) :
    db.executionByKey u e.executionKey = some (e.toStale u) := by
  have hmem : e ∈ db.executions.table.rows := Table.mem_of_get? he
  cases hx : db.executionByKey u e.executionKey with
  | none =>
    have hnone := List.find?_eq_none.1 (Option.map_eq_none_iff.1 hx) e hmem
    simp at hnone
  | some row =>
    obtain ⟨k, x, hk, hkey, rfl⟩ := DB.executionByKey_some hx
    obtain rfl := DB.exec?_key_inj hk he hkey
    rw [Option.some.inj (hk.symm.trans he)]

/-! ## Keys are not empty -/

theorem executionKey_ne_empty {kind j d key : String} (h : executionKey env kind j d = some key) : key ≠ "" := by
  have ne : ∀ (x y : String) (ch : Char), ch ∈ y.toList → x ++ y ≠ "" := fun x y ch hc he => by
    have := congrArg String.toList he
    rw [String.toList_append] at this
    have hnil : y.toList = [] := (List.append_eq_nil_iff.1 this).2
    rw [hnil] at hc; cases hc
  unfold executionKey at h
  simp only at h
  split at h
  · obtain rfl := Option.some.inj h
    rw [String.append_assoc]
    exact ne _ _ ':' (by simp)
  · obtain ⟨cs, -, rfl⟩ := Option.map_eq_some_iff.1 h
    exact ne _ _ '~' (by simp)

/-- **Every execution has a key**, when the passes of polls are keyed as the engine keys them. -/
theorem key_ne_empty {u : Utc} {tr : History} {w : World} (hr : Sys.Run (Step env) (World.init u) tr w)
    (hpoll : ∀ x ∈ tr, x.2.1.1.PollKeyed env) {i : Nat} {e : ExecRow} (he : w.db.exec? i = some e) :
    e.executionKey ≠ "" := by
  refine Sys.Run.invariant_of (I := fun w => ∀ i e, w.db.exec? i = some e → e.executionKey ≠ "")
    (fun x => x.2.1.1.PollKeyed env) ?_ ?_ hr hpoll i e he
  · intro i e he; cases he
  · intro w l w' ih hkey hst i e' he'
    cases he : w.db.exec? i with
    | some e => rw [hst.commit.info he he']; exact ih i e he
    | none =>
      obtain ⟨b, hb⟩ : ∃ b, l.1 = b := ⟨_, rfl⟩
      have hnew := hst.commit.new he he'
      simp only [hb] at hkey hnew
      obtain ⟨_, _, _, _, -, -, -, hm, -⟩ := hnew
      cases hm with
      | cron _ _ _ _ _ _ _ _ hk => exact executionKey_ne_empty hk
      | poll =>
        obtain ⟨_, hk⟩ := hkey
        exact executionKey_ne_empty hk
      | manual _ _ _ _ hk => exact executionKey_ne_empty hk

/-! ## The fenced list -/

/-- The declaration names a row that carries its token and has such a status. -/
def Server.InFlight.On (c : Server.InFlight) (db : DB) (p : Status → Prop) : Prop :=
  ∃ i e, db.exec? i = some e ∧ e.executionKey = c.executionKey ∧ e.runToken = some c.runToken ∧ p e.status

/-- The declared attempt is the one that holds the execution. -/
abbrev Server.InFlight.Held (c : Server.InFlight) (db : DB) : Prop := c.On db (fun s => s.held = true)

theorem Status.open_cases {s : Status} (h : s.terminal = false) : s.held = true ∨ s = .ready := by
  cases s <;> simp_all [Status.terminal, Status.held]

/-- **What `reconcileInFlight` lets pass**: a declaration without a key, or one that names an unfinished row carrying
its token. -/
theorem Server.supersedes_eq_false {u : Utc} {c : Server.InFlight} : Server.supersedes db u c = false ↔
    c.executionKey = "" ∨ (c.runToken ≠ "" ∧ c.On db (fun s => s.terminal = false)) := by
  unfold Server.supersedes
  by_cases hk : c.executionKey = ""
  · simp [hk]
  · rw [if_neg hk]
    constructor
    · intro h
      refine Or.inr ?_
      cases hx : db.executionByKey u c.executionKey with
      | none => rw [hx] at h; cases h
      | some row =>
        obtain ⟨i, e, he, hkey, rfl⟩ := DB.executionByKey_some hx
        simp only [hx, Bool.or_eq_false_iff, decide_eq_false_iff_not, not_not] at h
        obtain ⟨⟨hopen, hne⟩, htok⟩ := h
        refine ⟨htok ▸ hne, i, e, he, hkey, ?_, hopen⟩
        cases ht : e.runToken with
        | none => simp [ExecRow.toStale, ht] at hne
        | some t => simpa [ExecRow.toStale, ht] using htok
    · rintro (h | ⟨hne, i, e, he, hkey, ht, hopen⟩)
      · exact absurd h hk
      · rw [← hkey, DB.executionByKey_of he u]
        simp [ExecRow.toStale, ht, hopen, hne]

theorem Server.mem_reconcileInFlight {claims : List (Server.InFlight × DB × Utc)} {key : String} :
    key ∈ Server.reconcileInFlight claims ↔
      ∃ p ∈ claims, p.1.executionKey = key ∧ Server.supersedes p.2.1 p.2.2 p.1 = true := by
  simp only [Server.reconcileInFlight, List.mem_map, List.mem_filter]
  constructor
  · rintro ⟨p, ⟨hp, hs⟩, hk⟩
    exact ⟨p, hp, hk, hs⟩
  · rintro ⟨p, hp, hk, hs⟩
    exact ⟨p, ⟨hp, hs⟩, hk⟩

/-- A declaration that is let pass although no attempt holds the execution under its token: it names no key, or a
`ready` row that still carries the token of an attempt that has ended. -/
def Server.InFlight.Stray (c : Server.InFlight) (db : DB) : Prop :=
  c.executionKey = "" ∨ (c.runToken ≠ "" ∧ c.On db (fun s => s = .ready))

/-- A declaration that is fenced: it names a key, and no unfinished row carries its token. -/
def Server.InFlight.Refuted (c : Server.InFlight) (db : DB) : Prop :=
  c.executionKey ≠ "" ∧ (c.runToken = "" ∨ ¬ c.On db (fun s => s.terminal = false))

theorem Server.supersedes_iff {u : Utc} {c : Server.InFlight} : Server.supersedes db u c = true ↔ c.Refuted db := by
  rw [← Bool.not_eq_false, Server.supersedes_eq_false, Server.InFlight.Refuted, not_or, not_and_or, not_ne_iff]

theorem Server.InFlight.not_held_of_stray {c : Server.InFlight} (hne : ∀ i e, db.exec? i = some e → e.executionKey ≠ "")
    (h : c.Stray db) : ¬ c.Held db := by
  rintro ⟨i, e, he, hkey, -, hheld⟩
  rcases h with h | ⟨-, k, x, hx, hxkey, -, hready⟩
  · exact hne i e he (hkey.trans h)
  · obtain rfl := DB.exec?_key_inj he hx (hkey.trans hxkey.symm)
    obtain rfl := Option.some.inj (he.symm.trans hx)
    rw [hready] at hheld; cases hheld

/-- A poll job, its first pass keyed as the engine keys it, and the claim of it under `t1`. -/
def keyedPass : List (Action × Int) :=
  [(.createJob (sampleJob "sync" .fixedDelay "1000") 0 "operator" "new", 0),
   (.materializePoll "sync" "p:sync:1" (fun _ => .error ⟨.other, "no schedule"⟩), 1),
   (.claim ⟨1, "sync", "p:sync:1", "scheduler", "executor", "t1", 5⟩ (fun _ _ _ => .ok ()), 2)]

/-- The runtime cap elapses, the scheduler fences the attempt, and an operator asks for another one. -/
def revivedPass : List (Action × Int) :=
  keyedPass ++ [(.accept 1 "t1" 1 60, 3), (.fenceTimedOut (scannedPass "p:sync:1" 1), 63),
    (.authorizedRetry "sync" "p:sync:1" "operator" "again", 64)]

theorem revivedPass_keyed : ∀ x ∈ (World.init 0).trace bareEnv revivedPass, x.2.1.1.PollKeyed bareEnv := by
  intro x hx
  simp only [revivedPass, keyedPass, List.cons_append, List.nil_append, World.trace, List.mem_cons, List.not_mem_nil,
    or_false] at hx
  rcases hx with rfl | rfl | rfl | rfl | rfl | rfl
  · trivial
  · exact ⟨"1", by decide⟩
  all_goals trivial

end GoJob
