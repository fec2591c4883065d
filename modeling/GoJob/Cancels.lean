import GoJob.Drain
import GoJob.Supervision
/-!
# Cancels — a pass carries every standing cancel (`cancelPass`, `CancelRequested`)

A cancel request is a status, and somebody has to tell the executor.  Every pass pages through the rows that have it, by
a cursor, and asks each row's executor to stop; the rows change while it does.  A row that is asked to stop keeps its
attempt and its executor until the attempt ends, so if the attempt that was to be stopped is still held when the pass is
over, it was held all along, and the pass has come by it.
-/
namespace GoJob

/-! ## What a page holds -/

section page

variable {db : DB} {p : ExecRow → Bool} {col : ExecRow → Int} {limit : Nat} {e z : ExecRow}

/-- **A page has every row up to its last.** -/
theorem DB.mem_scan_of_le (he : db.exec? e.id = some e) (hp : p e = true) (hz : z ∈ db.scan p col limit)
    (hle : ScanLe col e z) : e ∈ db.scan p col limit := by
  have hsorted := List.pairwise_insertionSort (ScanLe col) (db.executions.table.rows.filter p)
  have hmem : e ∈ (db.executions.table.rows.filter p).insertionSort (ScanLe col) :=
    (List.mem_insertionSort _).2 (List.mem_filter.2 ⟨Rel.Table.mem_of_get? he, hp⟩)
  rw [← List.take_append_drop limit (List.insertionSort _ _)] at hsorted hmem
  rcases List.mem_append.1 hmem with hin | hout
  · exact hin
  · -- What comes after the page is not before its last row, so it is that row.
    have hge : ScanLe col z e := (List.pairwise_append.1 hsorted).2.2 z hz e hout
    have hid : z.id = e.id := hge.id_eq hle
    obtain rfl : z = e := Option.some.inj ((hid ▸ (DB.mem_scan hz).1).symm.trans he)
    exact hz

theorem DB.scan_ne_nil (he : db.exec? e.id = some e) (hp : p e = true) (hlimit : 0 < limit) :
    db.scan p col limit ≠ [] := by
  intro hnil
  have hroom : (db.scan p col limit).length < limit := by rw [hnil]; exact hlimit
  have hin := DB.mem_scan_of_room (Or.inl hroom) he hp
  rw [hnil] at hin
  cases hin

end page

/-- `CancelRequested`. -/
def DB.cancelRequested (db : DB) (after : Nat) (u : Utc) (limit : Nat) : List Stale :=
  db.scanStale (fun e => decide (e.status = .cancelRequested) && e.dispatchedTo.isSome && decide (after < e.id))
    (fun e => e.id) u limit

namespace Cancels

open Sys Sys.Dialog

/-! ## The pass -/

inductive Ask
  | page (after limit : Nat)
  | renewing
  | address (executorId : String)
  | cancel (address key token reason : String)

abbrev Ask.Answer : Ask → Type
  | .page _ _ => Except Err (List Stale)
  | .renewing => Bool
  | .address _ => Except Err String
  | .cancel _ _ _ _ => Except String Unit

abbrev Thread := Dialog Ask.Answer

abbrev query (q : Ask) : Thread q.Answer := say q

/-- `addressOf`: a registration that is gone has no address. -/
def addressOf (executorId : String) : Thread (Option String) := do
  match ← query (.address executorId) with
  | .error _ => return none
  | .ok address => return if address = "" then none else some address

def requestStop (v : Stale) (reason : String) : Thread Unit := do
  if v.dispatchedTo = "" then return ()
  else
    match ← addressOf v.dispatchedTo with
    | none => return ()
    | some address =>
      let _ ← query (.cancel address v.executionKey v.runToken reason)
      return ()

/-- One page: where the cursor is after it, or `none` if the engine may not go on. -/
def cancelPage : List Stale → Nat → Thread (Option Nat)
  | [], after => return some after
  | v :: rows, _ => do
    if ← query .renewing then
      requestStop v "cancelled by an operator"
      cancelPage rows v.id
    else return none

/-- Why a pass ended. -/
inductive Ending
  | failed
  | stopped
  | exhausted
  | resumes (after : Nat)
  deriving DecidableEq, Repr

/-- The loop of `cancelPass`, with so many pages to go. -/
def cancelLoop (pageSize : Nat) : Nat → Nat → Thread Ending
  | 0, after => return .resumes after
  | pages + 1, after => do
    match ← query (.page after pageSize) with
    | .error _ => return .failed
    | .ok rows =>
      if rows.isEmpty then return .exhausted
      else
        match ← cancelPage rows after with
        | none => return .stopped
        | some after => cancelLoop pageSize pages after

def cancelPass (pageSize : Nat) : Thread Ending := cancelLoop pageSize 100 0

/-- How the schema answers.  Nothing is assumed of the executors, nor that a read succeeds. -/
def Serves (w : World) (q : Ask) (r : q.Answer) (w' : World) : Prop :=
  match q, r with
  | .page after limit, r => w.Waits w' ∧ ((∃ err, r = .error err) ∨ r = .ok (w.db.cancelRequested after w'.utc limit))
  | _, _ => w.Waits w'

/-! ## What a pass says -/

section talk

variable {xs ys : List (Exchange World Ask.Answer)} {i limit : Nat} {ex key t : String}

/-- The executor's address was asked for, and if it has one, it was told to stop the attempt. -/
def Relayed (ex key t : String) (xs : List (Exchange World Ask.Answer)) : Prop :=
  ∃ s a s', ⟨s, .address ex, a, s'⟩ ∈ xs ∧ ∀ address, a = .ok address → address ≠ "" →
    ∃ s₁ b s₁', ⟨s₁, .cancel address key t "cancelled by an operator", b, s₁'⟩ ∈ xs

theorem Relayed.mono (h : Relayed ex key t xs) (hsub : xs ⊆ ys) : Relayed ex key t ys := by
  obtain ⟨s, a, s', hin, htold⟩ := h
  refine ⟨s, a, s', hsub hin, fun address ha hne => ?_⟩
  obtain ⟨s₁, b, s₁', hin₁⟩ := htold address ha hne
  exact ⟨s₁, b, s₁', hsub hin₁⟩

theorem requestStop_relayed {v : Stale} (hv : v.dispatchedTo ≠ "")
    (h : Talk Serves (requestStop v "cancelled by an operator") xs ()) :
    Relayed v.dispatchedTo v.executionKey v.runToken xs := by
  unfold requestStop at h
  rw [if_neg hv] at h
  obtain ⟨ys, found, zs, rfl, haddr, h⟩ := talk_bind.1 h
  obtain ⟨s, a, s', ys, rfl, -, haddr⟩ := talk_ask.1 haddr
  refine ⟨s, a, s', by simp, fun address ha hne => ?_⟩
  subst ha
  simp only [if_neg hne, talk_pure] at haddr
  obtain ⟨rfl, rfl⟩ := haddr
  obtain ⟨s₁, b, s₁', ws, rfl, -, -⟩ := talk_ask.1 h
  exact ⟨s₁, b, s₁', by simp⟩

/-- A page that was worked off: everybody in it was told, and the cursor is at its last row. -/
theorem cancelPage_relayed : ∀ {rows : List Stale} {after after' : Nat} {xs : List (Exchange World Ask.Answer)},
    Talk Serves (cancelPage rows after) xs (some after') →
      (∀ v ∈ rows, v.dispatchedTo ≠ "" → Relayed v.dispatchedTo v.executionKey v.runToken xs) ∧
        after' = (rows.getLast?.map (·.id)).getD after
  | [], after, after', xs, h => by
    obtain ⟨rfl, hsome⟩ := talk_pure.1 h
    exact ⟨fun _ hv => absurd hv List.not_mem_nil, Option.some.inj hsome⟩
  | v :: rows, after, after', xs, h => by
    obtain ⟨s, renewing, s', zs, rfl, -, h⟩ := talk_ask.1 h
    cases renewing with
    | false => cases (talk_pure.1 h).2
    | true =>
      obtain ⟨ys, _, ws, rfl, hstop, hrest⟩ := talk_bind.1 h
      obtain ⟨htold, hlast⟩ := cancelPage_relayed hrest
      refine ⟨fun x hx hne => ?_, ?_⟩
      · rcases List.mem_cons.1 hx with rfl | hx
        · exact (requestStop_relayed hne hstop).mono (by simp)
        · exact (htold x hx hne).mono (by simp)
      · rw [hlast, List.getLast?_cons]
        cases rows.getLast? <;> rfl

/-- The attempt `t` of row `i`, at executor `ex`, is to stop. -/
def Standing (i : Nat) (ex key t : String) (w : World) : Prop :=
  ∃ e, w.db.exec? i = some e ∧ e.status = .cancelRequested ∧ e.dispatchedTo = some ex ∧ e.executionKey = key ∧
    e.runToken = some t

theorem Standing.listed {w : World} (h : Standing i ex key t w) {after : Nat} (hafter : after < i) (u : Utc)
    (limit : Nat) : (0 < limit → w.db.cancelRequested after u limit ≠ []) ∧
      ∀ v ∈ w.db.cancelRequested after u limit, i ≤ v.id →
        ∃ x ∈ w.db.cancelRequested after u limit, x.dispatchedTo = ex ∧ x.executionKey = key ∧ x.runToken = t := by
  obtain ⟨e, he, hst, hto, hkey, ht⟩ := h
  have hid : e.id = i := DB.exec?_id he
  rw [← hid] at he hafter
  have hp : (e.status.held && (decide (e.status = .cancelRequested) && e.dispatchedTo.isSome &&
      decide (after < e.id))) = true := by
    simp [hst, hto, hafter, Status.held]
  refine ⟨fun hlimit hnil => DB.scan_ne_nil he hp hlimit (List.map_eq_nil_iff.1 hnil), fun v hv hle => ?_⟩
  obtain ⟨z, hz, rfl⟩ := List.mem_map.1 hv
  have hle : e.id ≤ z.id := hid ▸ hle
  have hin := DB.mem_scan_of_le he hp hz (show (e.id : Int) < z.id ∨ ((e.id : Int) = z.id ∧ e.id ≤ z.id) by omega)
  refine ⟨e.toStale u, List.mem_map.2 ⟨e, hin, rfl⟩, ?_, hkey, ?_⟩
  · simp [ExecRow.toStale, hto]
  · simp [ExecRow.toStale, ht]

/-- **One page of the loop**: it reads the page `s` has, and ends there or goes on behind it. -/
theorem cancelLoop_page {pages after : Nat} {r : Ending} (h : Talk Serves (cancelLoop limit (pages + 1) after) xs r) :
    ∃ s a s' zs, xs = ⟨s, .page after limit, a, s'⟩ :: zs ∧
      (zs = [] ∧ (r = .failed ∨ r = .exhausted ∧ s.db.cancelRequested after s'.utc limit = []) ∨
        s.db.cancelRequested after s'.utc limit ≠ [] ∧ ∃ ys res ws, zs = ys ++ ws ∧
          Talk Serves (cancelPage (s.db.cancelRequested after s'.utc limit) after) ys res ∧
          (ws = [] ∧ r = .stopped ∨
            ∃ after', res = some after' ∧ Talk Serves (cancelLoop limit pages after') ws r)) := by
  obtain ⟨s, a, s', zs, rfl, hserves, h⟩ := talk_ask.1 h
  refine ⟨s, a, s', zs, rfl, ?_⟩
  cases a with
  | error err =>
    obtain ⟨rfl, rfl⟩ := talk_pure.1 h
    exact Or.inl ⟨rfl, Or.inl rfl⟩
  | ok rows =>
    obtain rfl : rows = s.db.cancelRequested after s'.utc limit := by
      rcases hserves.2 with ⟨_, herr⟩ | hok
      · cases herr
      · exact Except.ok.inj hok
    by_cases hempty : (s.db.cancelRequested after s'.utc limit).isEmpty = true
    · simp only [if_pos hempty, talk_pure] at h
      exact Or.inl ⟨h.1, Or.inr ⟨h.2, List.isEmpty_iff.1 hempty⟩⟩
    · simp only [if_neg hempty] at h
      obtain ⟨ys, res, ws, rfl, hpage, hrest⟩ := talk_bind.1 h
      refine Or.inr ⟨fun hnil => hempty (List.isEmpty_iff.2 hnil), ys, res, ws, rfl, hpage, ?_⟩
      cases res with
      | none => exact Or.inl (talk_pure.1 hrest)
      | some after' => exact Or.inr ⟨after', rfl, hrest⟩

/-- **A loop that gets to the end, or past a row, has come by it**, if the row stood at every page. -/
theorem cancelLoop_relayed (hlimit : 0 < limit) (hex : ex ≠ "") :
    ∀ {pages after : Nat} {xs : List (Exchange World Ask.Answer)} {r : Ending},
      Talk Serves (cancelLoop limit pages after) xs r → after < i → (∀ x ∈ xs, Standing i ex key t x.before) →
        (r = .exhausted ∨ ∃ last, r = .resumes last ∧ i ≤ last) → Relayed ex key t xs
  | 0, after, xs, r, h, hafter, _, hr => by
    obtain ⟨-, rfl⟩ := talk_pure.1 h
    rcases hr with hr | ⟨last, hr, hle⟩
    · cases hr
    · cases hr
      omega
  | pages + 1, after, xs, r, h, hafter, hstands, hr => by
    obtain ⟨s, a, s', zs, rfl, hpage⟩ := cancelLoop_page h
    obtain ⟨hsome, hlisted⟩ := (hstands _ List.mem_cons_self : Standing i ex key t s).listed hafter s'.utc limit
    rcases hpage with ⟨-, rfl | ⟨-, hnil⟩⟩ | ⟨-, ys, res, ws, rfl, hrows, hrest⟩
    · rcases hr with hr | ⟨last, hr, -⟩ <;> cases hr
    · exact absurd hnil (hsome hlimit)
    rcases hrest with ⟨-, rfl⟩ | ⟨after', rfl, hrest⟩
    · rcases hr with hr | ⟨last, hr, -⟩ <;> cases hr
    obtain ⟨htold, hlast⟩ := cancelPage_relayed hrows
    by_cases hle : i ≤ after'
    · obtain ⟨v, hv⟩ := Option.isSome_iff_exists.1 (List.getLast?_isSome.2 (hsome hlimit))
      obtain rfl : after' = v.id := by
        rw [hlast, hv]
        rfl
      obtain ⟨x, hx, rfl, rfl, rfl⟩ := hlisted v (List.mem_of_getLast? hv) hle
      exact (htold x hx hex).mono (by simp)
    · have hlater := cancelLoop_relayed hlimit hex hrest (by omega) (fun x hx => hstands x (by simp [hx])) hr
      exact hlater.mono (by simp)

/-- A stop is for an attempt of these rows. -/
def StopsOne (rows : List Stale) (q : Ask) : Prop :=
  ∀ address key t reason, q = .cancel address key t reason → ∃ v ∈ rows, v.executionKey = key ∧ v.runToken = t

theorem requestStop_asks (v : Stale) (reason : String) {rows : List Stale} (hv : v ∈ rows) :
    (requestStop v reason).Asks (StopsOne rows) (fun _ => True) := by
  unfold requestStop
  split
  · exact asks_pure trivial
  · refine Asks.bind (?_ : Asks _ (fun _ => True) _) fun found _ => ?_
    · refine asks_ask (by simp [StopsOne]) fun a => ?_
      cases a <;> exact asks_pure trivial
    · cases found with
      | none => exact asks_pure trivial
      | some address =>
        refine asks_ask (fun _ key t _ hq => ?_) fun _ => asks_pure trivial
        cases hq
        exact ⟨v, hv, rfl, rfl⟩

theorem cancelPage_asks {all : List Stale} : ∀ {rows : List Stale} {after : Nat}, rows ⊆ all →
    (cancelPage rows after).Asks (StopsOne all) (fun _ => True)
  | [], _, _ => asks_pure trivial
  | v :: rows, after, hsub => by
    refine asks_ask (by simp [StopsOne]) fun renewing => ?_
    cases renewing with
    | false => exact asks_pure trivial
    | true =>
      refine Asks.bind (requestStop_asks v _ (hsub List.mem_cons_self)) fun _ _ => ?_
      exact cancelPage_asks fun x hx => hsub (List.mem_cons_of_mem v hx)

/-- Some page listed the attempt, when it was to stop. -/
def Listed (key t : String) (xs : List (Exchange World Ask.Answer)) : Prop :=
  ∃ x ∈ xs, ∃ e, x.before.db.exec? e.id = some e ∧ e.status = .cancelRequested ∧ e.executionKey = key ∧
    e.runToken.getD "" = t

/-- **Nobody is told to stop who was not to.** -/
theorem cancelLoop_listed : ∀ {pages after : Nat} {xs : List (Exchange World Ask.Answer)} {r : Ending},
    Talk Serves (cancelLoop limit pages after) xs r → ∀ x ∈ xs, ∀ address reason,
      x.question = .cancel address key t reason → Listed key t xs
  | 0, _, xs, _, h, x, hx, _, _, _ => by
    obtain ⟨rfl, -⟩ := talk_pure.1 h
    cases hx
  | pages + 1, after, xs, r, h, x, hx, address, reason, hq => by
    obtain ⟨s, a, s', zs, rfl, hpage⟩ := cancelLoop_page h
    rcases List.mem_cons.1 hx with rfl | hzs
    · cases hq
    rcases hpage with ⟨rfl, -⟩ | ⟨-, ys, res, ws, rfl, hrows, hrest⟩
    · exact absurd hzs List.not_mem_nil
    rcases List.mem_append.1 hzs with hys | hws
    · obtain ⟨v, hv, rfl, rfl⟩ := (hrows.asks (cancelPage_asks (List.Subset.refl _))).1 x hys _ _ _ _ hq
      obtain ⟨e, he, rfl, -, hp⟩ := DB.mem_scanStale hv
      simp only [Bool.and_eq_true, decide_eq_true_eq] at hp
      exact ⟨_, List.mem_cons_self, e, he, hp.1.1, rfl, rfl⟩
    · rcases hrest with ⟨rfl, -⟩ | ⟨after', -, hrest⟩
      · exact absurd hws List.not_mem_nil
      · obtain ⟨y, hy, hrow⟩ := cancelLoop_listed hrest x hws address reason hq
        exact ⟨y, by simp [hy], hrow⟩

end talk

/-! ## While it goes on -/

section exec

variable {env : Env} {ρ : Type} {p : Thread ρ} {w w' : World} {ev : List (Event World (Action × Ctx) Ask.Answer)}
  {r : ρ} {i : Nat} {ex key t : String}

theorem Serves.waits {q : Ask} {a : q.Answer} (h : Serves w q a w') : w.Waits w' := by
  cases q with
  | page => exact h.1
  | renewing | address | cancel => exact h

theorem heldUnder_before (hx : Exec Serves (Step env) p w ev r w') (hiss : t ∈ w.issued)
    (h : w'.db.HeldUnder i t) : w.db.HeldUnder i t := by
  induction hx with
  | done => exact h
  | other hst _ ih => exact heldUnder_back (.single hst) hiss (ih (hst.issued_of_mem hiss) h)
  | ask hq _ ih =>
    have hw := Serves.waits hq
    rw [← hw.db]
    exact ih (hw.issued ▸ hiss) h

/-- **An attempt that is to stop keeps its executor** while it is held. -/
theorem Standing.step {l : Action × Ctx} (h : Standing i ex key t w) (hst : Step env w l w')
    (hh : w'.db.HeldUnder i t) : Standing i ex key t w' := by
  obtain ⟨a, c⟩ := l
  obtain ⟨e, he, hs, hto, hkey, ht⟩ := h
  obtain ⟨e', he', hh', -⟩ := hh
  refine ⟨e', he', ?_⟩
  rcases hst.commit.moved he he' with rfl | hm
  · exact ⟨hs, hto, hkey, ht⟩
  · have held : e.status.held = true := by rw [hs]; rfl
    have unaccepted : ∀ {t n}, e.unaccepted t n = true → False := fun ho => by
      rw [(ExecRow.unaccepted_iff.1 ho).1] at hs
      cases hs
    cases hm.writes held hh' with
    | accept ho => exact (unaccepted ho).elim
    | retarget =>
      cases hm with
      | retarget _ ho => exact (unaccepted ho).elim
    | renew | extend => exact ⟨hs, hto, hkey, ht⟩
    | cancel | retire => exact ⟨rfl, hto, hkey, ht⟩
    | adopt => exact ⟨by simp [adoptWrite, hs], hto, hkey, ht⟩

/-- **If the attempt is still held at the end, it stood all along.** -/
theorem Standing.throughout (hx : Exec Serves (Step env) p w ev r w') (hiss : t ∈ w.issued)
    (h : Standing i ex key t w) (hend : w'.db.HeldUnder i t) : ∀ x ∈ own ev, Standing i ex key t x.before := by
  induction hx with
  | done => exact fun x hx => absurd hx List.not_mem_nil
  | other hst hx ih =>
    have hiss' := hst.issued_of_mem hiss
    exact ih hiss' (h.step hst (heldUnder_before hx hiss' hend)) hend
  | ask hq hx ih =>
    have hw := Serves.waits hq
    refine List.forall_mem_cons.2 ⟨h, ih (hw.issued ▸ hiss) ?_ hend⟩
    unfold Standing
    rwa [hw.db]

/-- The first id is 1, so that a cursor at 0 is before all of them. -/
theorem exec?_pos {u : Utc} {tr : History} {e : ExecRow} (hr : Run (Step env) (World.init u) tr w)
    (he : w.db.exec? i = some e) : 0 < i := by
  refine Run.invariant (I := fun w => ∀ i e, w.db.exec? i = some e → 0 < i) ?_ ?_ hr i e he
  · intro i e he
    cases he
  · intro w l w' h hst i e' he'
    cases he : w.db.exec? i with
    | some e => exact h i e he
    | none =>
      obtain ⟨_, _, _, _, -, -, -, -, -, hlt, -⟩ := hst.commit.new he he'
      exact Nat.zero_lt_of_lt hlt

end exec

/-- The claimed pass is cancelled. -/
def cancelledPass : World := (World.init 0).play bareEnv (claimedPass ++ [(.requestCancel 1 "operator" "stop", 3)])

/-- Everybody answers. -/
def willing (_ : Unit) (w : World) : (q : Ask) → q.Answer × World × Unit
  | .page after limit => (.ok (w.db.cancelRequested after w.utc limit), w, ())
  | .renewing => (true, w, ())
  | .address _ => (.ok "10.0.0.1:9000", w, ())
  | .cancel _ _ _ _ => (.ok (), w, ())

theorem willing_serves (u : Unit) (w : World) (q : Ask) : Serves w q (willing u w q).1 (willing u w q).2.1 := by
  cases q with
  | page => exact ⟨⟨le_refl _, rfl, rfl⟩, Or.inr rfl⟩
  | renewing | address | cancel => exact ⟨le_refl _, rfl, rfl⟩

end Cancels

end GoJob
