import GoJob.Fires
import GoJob.Poll
/-!
# WallClock — a fixed delay on the wall clock of the business zone

The clocks of `job_state` are `DATETIME` columns: what is stored is what the wall clock of the business zone shows, and
what is read back is the first instant that shows it.  A delay is waited unless an earlier instant shows the same as
its end, as happens when the wall clock is set back.
-/
namespace GoJob

open Rel

/-! ## What is stored and read back -/

/-- The business `Location`, in seconds: its offsets, and the instant a reading is read back as.  The reading of an
instant is read back as the first instant that shows it. -/
structure Location where
  off   : Int → Int
  back  : Int → Int
  shows : ∀ u, back (u + off u) + off (back (u + off u)) = u + off u
  first : ∀ u, back (u + off u) ≤ u

namespace Location

variable (l : Location)

/-- What the wall clock shows at an instant, as a `DATETIME` holds it. -/
def reading (t : Instant) : Int := t / second + l.off (t / second)

/-- An instant that went through a `DATETIME` column. -/
def stored (t : Instant) : Instant := l.back (l.reading t) * second

variable {l}

theorem stored_div (t : Instant) : l.stored t / second = l.back (l.reading t) :=
  Int.mul_ediv_cancel _ (by decide)

theorem reading_stored (t : Instant) : l.reading (l.stored t) = l.reading t := by
  unfold reading
  rw [stored_div]
  exact l.shows (t / second)

@[simp] theorem stored_stored (t : Instant) : l.stored (l.stored t) = l.stored t := by
  unfold stored
  rw [show l.reading (l.back (l.reading t) * second) = l.reading t from reading_stored t]

/-- **A whole second comes back as it went in** when no earlier one shows the same. -/
theorem stored_eq {t : Instant} (hw : t % second = 0)
    (h : ∀ v : Int, v < t / second → l.reading (v * second) ≠ l.reading t) : l.stored t = t := by
  have hle : l.back (l.reading t) ≤ t / second := l.first (t / second)
  have hshow : l.reading (l.back (l.reading t) * second) = l.reading t := reading_stored t
  have heq : l.back (l.reading t) = t / second := by
    rcases lt_or_eq_of_le hle with hlt | heq
    · exact absurd hshow (h _ hlt)
    · exact heq
  rw [stored, heq]
  exact Int.ediv_mul_cancel (Int.dvd_of_emod_eq_zero hw)

end Location

variable {l : Location}

/-- The row after its clocks have been stored and read back. -/
def StateRow.reread (l : Location) (s : StateRow) : StateRow :=
  { s with nextFireAt := s.nextFireAt.map l.stored, nextPollAt := s.nextPollAt.map l.stored }

/-- The database as the next transaction reads it. -/
def DB.reread (db : DB) (l : Location) : DB :=
  { db with states := db.states.update (fun _ => true) (StateRow.reread l) (fun _ => rfl) }

section reread

variable (db : DB) (l : Location)

@[simp] theorem DB.def?_reread (j : String) : (db.reread l).def? j = db.def? j := rfl
@[simp] theorem DB.exec?_reread (i : Nat) : (db.reread l).exec? i = db.exec? i := rfl

@[simp] theorem DB.state?_reread (j : String) : (db.reread l).state? j = (db.state? j).map (StateRow.reread l) := by
  refine (Table.get?_update db.states (fun _ => true) (StateRow.reread l) (fun _ => rfl) j).trans ?_
  simp [DB.state?]

end reread

variable {env : Env} {w w' : World} {db db' : DB}

/-- A step of the server over `DATETIME` columns. -/
def LocalStep (env : Env) (l : Location) (w : World) (x : Action × Ctx) (w' : World) : Prop :=
  ∃ w₁, Step env w x w₁ ∧ w' = { w₁ with db := w₁.db.reread l }

theorem HolderInv.reread {issued : List String} (h : HolderInv db issued) : HolderInv (db.reread l) issued where
  issued := h.issued
  tokens := h.tokens
  toAgree := by
    refine h.toAgree.quiet ⟨fun j => ?_, fun i => RowKept.refl _⟩
    rw [DB.state?_reread]
    cases db.state? j with
    | none => exact .absent
    | some s => exact .row rfl

theorem HolderInv.localStep {x : Action × Ctx} (h : HolderInv w.db w.issued) (hst : LocalStep env l w x w') :
    HolderInv w'.db w'.issued := by
  obtain ⟨w₁, hst, rfl⟩ := hst
  exact (h.step hst).reread

theorem HolderInv.localRun {u : Utc} {tr : History} (hr : Sys.Run (LocalStep env l) (World.init u) tr w) :
    HolderInv w.db w.issued :=
  Sys.Run.invariant (I := fun w => HolderInv w.db w.issued) HolderInv.init (fun _ _ _ h hst => h.localStep hst) hr

/-! ## The clock while the delay is waited -/

/-- A live pass of the job ends. -/
def DB.EndsPass (db : DB) (j : String) (db' : DB) : Prop :=
  ∃ i e e', db.Pass j i e ∧ db'.exec? i = some e' ∧ e'.status.terminal = true

/-- A pass of the job is created. -/
def DB.CreatesPass (db : DB) (j : String) (db' : DB) : Prop :=
  ∃ i e, db.exec? i = none ∧ db'.exec? i = some e ∧ e.jobName = j ∧ e.triggerType = .poll

/-- The job's poll clock stands at `t`. -/
def DB.PollsAt (db : DB) (j : String) (t : Instant) : Prop := ∃ s, db.state? j = some s ∧ s.nextPollAt = some t

/-- The definition of a job that polls. -/
structure DefinitionRow.Polls (d : DefinitionRow) : Prop where
  kind    : d.scheduleKind = .fixedDelay
  enabled : d.enabled = true
  retired : d.retired = false

section clock

variable {c : Ctx} {a : Action} {j : String} {d : DefinitionRow} {t : Instant} {issued : List String}

theorem DB.PollsAt.reread (h : db.PollsAt j t) : (db.reread l).PollsAt j (l.stored t) := by
  obtain ⟨s, hs, ht⟩ := h
  exact ⟨s.reread l, by rw [DB.state?_reread, hs, Option.map_some], by rw [StateRow.reread, ht, Option.map_some]⟩

/-- A creation finds the clock of a job that polls, and the clock has run out. -/
theorem Commit.creates_pass (h : Commit env c db a db') (hnew : db.CreatesPass j db') :
    ∃ d s t, db.def? j = some d ∧ d.Polls ∧ db.state? j = some s ∧ s.nextPollAt = some t ∧ t ≤ c.now := by
  obtain ⟨i, e, hn, he, rfl, hpoll⟩ := hnew
  obtain ⟨_, d, s, _, hd, hs, rfl, hm, _⟩ := h.new hn he
  cases hm with
  | cron => cases hpoll
  | poll _ t hen hret hk _ ht hle => exact ⟨d, s, t, hd, ⟨hk, hen, hret⟩, hs, ht, hle⟩
  | manual => cases hpoll

theorem Clocks.keeps_poll {compile : Compile} {s : StateRow} {fire poll : Option Instant}
    (h : Clocks c db compile s d fire poll) (hd : d.Polls) (ht : s.nextPollAt = some t) : poll = some t := by
  cases h with
  | parked hoff => rw [hd.enabled, hd.retired] at hoff; simp at hoff
  | cron _ _ _ _ hk => rw [hd.kind] at hk; cases hk
  | running t' _ _ _ ht' => rw [← ht', ht]
  | out _ _ _ hn => rw [ht] at hn; cases hn
  | start _ _ _ hn => rw [ht] at hn; cases hn

theorem Ends.endsPass {e e' : ExecRow} (h : Ends db db' e e') (hj : e.jobName = j) : db.EndsPass j db' :=
  ⟨e.id, e, e', ⟨h.old, hj, h.poll, h.live⟩, h.new, h.ended⟩

/-- **A running clock runs on** through every commit that leaves the definition, and neither ends a pass of the job
nor creates one. -/
theorem Commit.pollsAt (h : Commit env c db a db') (hinv : HolderInv db issued) (hd : db.def? j = some d)
    (hd' : db'.def? j = some d) (hp : d.Polls) (hend : ¬ db.EndsPass j db') (hnew : ¬ db.CreatesPass j db')
    (ht : db.PollsAt j t) : db'.PollsAt j t := by
  obtain ⟨s, hs, hpoll⟩ := ht
  rcases h.clockEffect hinv with hcat | hfx
  · exact ⟨s, catalog_state? hcat hs, hpoll⟩
  have clocks : ∀ {compile fire poll n}, Clocks c db compile s d fire poll →
      ((normalizeWrite fire poll n).run s).nextPollAt = some t := fun hck => hck.keeps_poll hp hpoll
  cases hfx j with
  | kept _ hcols =>
    rw [hs] at hcols
    obtain ⟨s', hs', heq⟩ := Option.map_eq_some_iff.1 hcols
    exact ⟨s', hs', (StateRow.clockCols_eq heq).2.1.trans hpoll⟩
  | retired _ hd₁ hr =>
    obtain rfl := Option.some.inj (hd'.symm.trans hd₁)
    rw [hp.retired] at hr
    cases hr
  | settled _ _ _ _ _ _ hj he => exact absurd (he.endsPass hj) hend
  | moved hd₁ hs₁ hm hf =>
    obtain rfl := Option.some.inj (hd.symm.trans hd₁)
    obtain rfl := Option.some.inj (hs.symm.trans hs₁)
    refine ⟨_, by rw [hf.states, if_pos rfl], ?_⟩
    cases hm with
    | recompute _ _ hck => exact clocks hck
    | cronDrift _ _ _ hck => exact clocks hck
    | pollDrift _ _ hck => exact clocks hck
    | advance _ _ _ _ hcron => exact absurd (hp.kind.symm.trans hcron.kind) (by decide)
  | created hd₁ hs₁ hj hm hi hf =>
    obtain rfl := Option.some.inj (hd.symm.trans hd₁)
    obtain rfl := Option.some.inj (hs.symm.trans hs₁)
    refine ⟨_, hf.state?, ?_⟩
    cases hm with
    | cron _ _ _ _ _ hcron => exact absurd (hp.kind.symm.trans hcron.kind) (by decide)
    | poll => exact absurd ⟨_, _, DB.exec?_eq_none_of_lt hi, hf.exec?, hj, rfl⟩ hnew
    | manual => exact hpoll

/-- What ends a pass leaves the job's definition, unless it retires the job. -/
theorem Commit.def?_of_ends (h : Commit env c db a db') (hinv : HolderInv db issued) (hend : db.EndsPass j db')
    (hd : db'.def? j = some d) (hr : d.retired = false) : db.def? j = some d := by
  obtain ⟨i, e, e', hpass, he', hterm⟩ := hend
  rcases h.clockEffect hinv with hcat | hfx
  · have hlive := hpass.live
    obtain rfl := Option.some.inj ((catalog_exec? hcat i ▸ he').symm.trans hpass.row)
    rw [hlive] at hterm
    cases hterm
  · cases hfx j with
    | kept hd₀ => rw [← hd₀, hd]
    | retired _ hd₁ hr₁ =>
      obtain rfl := Option.some.inj (hd.symm.trans hd₁)
      rw [hr] at hr₁
      cases hr₁
    | settled _ hd₀ hd₁ => rw [hd₀, ← hd₁, hd]
    | moved _ _ _ hf => rw [← hf.defs, hd]
    | created _ _ _ _ _ hf => rw [← hf.defs, hd]

/-- **The end of a pass restarts the clock** at the end of the delay. -/
theorem Commit.restarts (h : Commit env c db a db') (hinv : HolderInv db issued) (hend : db.EndsPass j db')
    (hl : ¬ LatePollClaim db a c) (hd : db'.def? j = some d) (hp : d.Polls) (ht : d.toDefinition.delay = .ok t) :
    db'.PollsAt j (datetime (c.now + t)) := by
  obtain ⟨i, e, e', hpass, he', hterm⟩ := hend
  rcases h.passEnd hinv hpass with ⟨x, hx⟩ | hpe
  · obtain rfl := Option.some.inj (he'.symm.trans hx.row)
    rw [hx.live] at hterm
    cases hterm
  have hrow := hpass.row
  obtain rfl := hpass.job
  cases hpe with
  | late hi hst hcap =>
    have hd₀ := h.def?_of_ends hinv ⟨i, e, e', hpass, he', hterm⟩ hd hp.retired
    refine absurd ⟨_, _, e, d, rfl, ?_, hpass.poll, hst, hcap, hd₀, hp.kind⟩ hl
    rw [← hi, DB.exec?_id hrow]
    exact hrow
  | settled hd₁ hs hset =>
    obtain rfl := Option.some.inj (hd.symm.trans hd₁)
    obtain ⟨t', ht', hpoll⟩ := hset hp.kind
    obtain rfl := Except.ok.inj (ht.symm.trans ht')
    exact ⟨_, hs, hpoll⟩
  | retired hd₁ hr =>
    obtain rfl := Option.some.inj (hd.symm.trans hd₁)
    rw [hp.retired] at hr
    cases hr

/-! ## Over `DATETIME` columns -/

variable {x : Action × Ctx}

theorem LocalStep.creates_pass (hst : LocalStep env l w x w') (hnew : w.db.CreatesPass j w'.db) :
    ∃ d s t, w.db.def? j = some d ∧ d.Polls ∧ w.db.state? j = some s ∧ s.nextPollAt = some t ∧ t ≤ x.2.now := by
  obtain ⟨w₁, hst, rfl⟩ := hst
  exact hst.commit.creates_pass hnew

theorem LocalStep.pollsAt (hst : LocalStep env l w x w') (hinv : HolderInv w.db w.issued) (hd : w.db.def? j = some d)
    (hd' : w'.db.def? j = some d) (hp : d.Polls) (hend : ¬ w.db.EndsPass j w'.db) (hnew : ¬ w.db.CreatesPass j w'.db)
    (ht : w.db.PollsAt j (l.stored t)) : w'.db.PollsAt j (l.stored t) := by
  obtain ⟨w₁, hst, rfl⟩ := hst
  have h := (hst.commit.pollsAt hinv hd hd' hp hend hnew ht).reread (l := l)
  rwa [Location.stored_stored] at h

theorem LocalStep.restarts (hst : LocalStep env l w x w') (hinv : HolderInv w.db w.issued)
    (hend : w.db.EndsPass j w'.db) (hl : ¬ LatePollClaim w.db x.1 x.2) (hd : w'.db.def? j = some d) (hp : d.Polls)
    (ht : d.toDefinition.delay = .ok t) : w'.db.PollsAt j (l.stored (datetime (x.2.now + t))) := by
  obtain ⟨w₁, hst, rfl⟩ := hst
  exact (hst.commit.restarts hinv hend hl hd hp ht).reread

end clock

/-! ## The delay -/

/-! ## A clock that is set back -/

/-- A zone an hour ahead of UTC until second 7200, when the wall clock goes back to UTC. -/
def setBack : Location where
  off u := if u < 7200 then 3600 else 0
  back r := if r < 10800 then r - 3600 else r
  shows u := by
    split <;> split <;> split <;> omega
  first u := by
    split <;> split <;> omega

/-- `DuePoll`, of one job: the readings are compared. -/
def DB.DuePoll (db : DB) (l : Location) (now : Instant) (j : String) : Prop :=
  ∃ s t, db.state? j = some s ∧ s.nextPollAt = some t ∧ l.reading t ≤ l.reading now ∧ s.opsPaused = false

def World.localCall (env : Env) (l : Location) (w : World) (x : Action × Int) : World :=
  { w.call env x.1 x.2 with db := (w.call env x.1 x.2).db.reread l }

theorem World.localStep_call {a : Action} {t : Int} (hle : w.utc ≤ t)
    (hf : a.mints.all (fun x => decide (x ∉ w.issued)) = true) :
    LocalStep env l w (a, Ctx.at_ t) (w.localCall env l (a, t)) :=
  ⟨_, World.step_call env hle hf, rfl⟩

theorem World.run_localCalls (env : Env) (l : Location) : ∀ (calls : List (Action × Int)) (w : World),
    Timely w.utc w.issued calls = true → ∃ tr, Sys.Run (LocalStep env l) w tr (calls.foldl (World.localCall env l) w)
  | [], _, _ => ⟨[], .nil⟩
  | (a, t) :: calls, w, h => by
    simp only [Timely, Bool.and_eq_true, decide_eq_true_eq] at h
    obtain ⟨⟨hle, hf⟩, h⟩ := h
    obtain ⟨tr, hr⟩ := World.run_localCalls env l calls (w.localCall env l (a, t)) h
    exact ⟨_, (Sys.Run.single (World.localStep_call hle hf)).append hr⟩

/-- A poll job and its first pass, claimed at second `n`. -/
def pollCalls (expr : String) (n : Int) : List (Action × Int) :=
  [(.createJob (sampleJob "sync" .fixedDelay expr) 0 "operator" "new", n - 2),
   (.materializePoll "sync" "pass-1" (fun _ => .error ⟨.other, "no schedule"⟩), n - 1), (claimPass "t1", n)]

def localPass (expr : String) (n : Int) : World :=
  (pollCalls expr n).foldl (World.localCall bareEnv setBack) (World.init 0)

def passDone : Action :=
  .complete ⟨"sync", 1, "pass-1", "scheduler", "t1", 1⟩ { status := .success, attemptOutcome := .success }

def nextPass : Action := .materializePoll "sync" "pass-2" (fun _ => .error ⟨.other, "no schedule"⟩)

/-- The pass has ended at second `m`. -/
def localDone (expr : String) (n m : Int) : World := (localPass expr n).localCall bareEnv setBack (passDone, m)

theorem passDone_not_late (db : DB) (c : Ctx) : ¬ LatePollClaim db passDone c := by
  rintro ⟨_, _, _, _, ha, _⟩
  cases ha

theorem setBack_first {m : Int} (hm : m < 7200) (v : Int) (hv : v < m) :
    setBack.reading (v * second) ≠ setBack.reading (m * second) := by
  have key : ∀ n : Int, n * second / second = n := fun n => Int.mul_ediv_cancel n (by decide)
  unfold Location.reading
  rw [key, key]
  show v + (if v < 7200 then 3600 else 0) ≠ m + (if m < 7200 then 3600 else 0)
  rw [if_pos hm, if_pos (by omega)]
  omega

end GoJob
