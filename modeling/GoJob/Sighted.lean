import GoJob.Cap
import GoJob.Leases
import GoJob.Scans
import GoJob.Statements
import GoJob.TokenLife
/-!
# Sighted — what is left of a snapshot

A scheduler acts on a row it read some time ago.  The token it read sits on that row or on none, the epoch has not gone
back, and as long as both are the same some facts about the row still hold: a lease that had run out is still out, and a
row that had been accepted is not waiting for an answer again.
-/
namespace GoJob

open Rel Tx

variable {env : Env} {c : Ctx} {a : Action} {i n : Nat} {t : String} {w w' : World} {P : Utc → ExecRow → Prop}

/-- Row `i` was seen held under `t` at epoch `n`, and then had `P`. -/
structure Sighted (P : Utc → ExecRow → Prop) (i : Nat) (t : String) (n : Nat) (w : World) : Prop where
  issued : t ∈ w.issued
  row    : ∀ k e, w.db.exec? k = some e → e.status.held = true → e.runToken = some t →
    k = i ∧ n ≤ e.fenceEpoch ∧ (e.fenceEpoch = n → P w.utc e)

/-- A fact that lasts as long as the row is held at one epoch. -/
def Lasting (env : Env) (P : Utc → ExecRow → Prop) : Prop := ∀ {w l w' e e'}, Step env w l w' →
  e' = e ∨ ExecMove l.2 l.1 e e' → e.status.held = true → e'.status.held = true → e'.runToken = e.runToken →
  e'.fenceEpoch = e.fenceEpoch → (∀ t, e.runToken = some t → t ∈ w.issued) → P w.utc e → P w'.utc e'

/-- The clock may move on between two calls: a call that is refused changes nothing else. -/
theorem World.waits (env : Env) {z : Utc} (h : w.utc ≤ z) : ∃ l, Step env w l { w with utc := z } :=
  ⟨(.retire "" "" "", Ctx.at_ z), h, fun _ => le_refl z, fun _ hm => (by cases hm), rfl, rfl⟩

/-- State rows are never deleted. -/
theorem state_kept {tr : History} (hr : Sys.Run (Step env) w tr w') {j : String}
    (h : (w.db.state? j).isSome = true) : (w'.db.state? j).isSome = true :=
  Sys.Run.invariant (I := fun w => (w.db.state? j).isSome = true) h
    (fun _ _ _ h hst => hst.commit.lockEffect.state_isSome h) hr

/-! ## Facts that last -/

/-- The lease has run out. -/
def Expired (u : Utc) (e : ExecRow) : Prop := past e.leaseUntil u = true

/-- An executor has accepted the attempt. -/
def Taken (_ : Utc) (e : ExecRow) : Prop := e.status ≠ .dispatching

theorem live_not_past {col : Option Utc} {u v : Utc} (h : live col v = true) (hle : u ≤ v) : past col u = false := by
  obtain ⟨l, rfl, hl⟩ := (Option.any_eq_true _ _).1 h
  have hl : v ≤ l := by simpa using hl
  simpa [past] using le_trans hle hl

/-- **A lease that has run out is not renewed.** -/
theorem Expired.lasting : Lasting env Expired := by
  intro w l w' e e' hst hmove hh hh' htok hn hiss hp
  rcases hmove with rfl | hm
  · exact past_later hp hst.utc_le
  · by_cases hren : ∃ k m, l.1 = .renew k m
    · obtain ⟨k, m, hren⟩ := hren
      rw [hren] at hm
      cases hm with
      | renew _ _ _ hl =>
        rw [Expired, live_not_past hl (hst.le_utc 1)] at hp
        cases hp
    · have hsame := hm.lease hh' hn (fun k m heq => hren ⟨k, m, heq⟩) hh
      unfold Expired
      rw [hsame]
      exact past_later hp hst.utc_le

theorem Taken.lasting : Lasting env Taken := by
  intro w l w' e e' hst hmove hh hh' htok hn hiss hp
  rcases hmove with rfl | hm
  · exact hp
  · intro hd
    rcases hm.dispatching hd with ⟨hs, -⟩ | ⟨t, hmint, ht⟩
    · exact hp hs
    · exact hst.fresh t hmint (hiss t (htok ▸ ht))

theorem Lasting.trivial : Lasting env (fun _ _ => True) := fun _ _ _ _ _ _ _ _ => True.intro

/-! ## Sights -/

namespace Sighted

/-- What a step makes of the fact, at the epoch that was seen. -/
theorem step_to {Q : Utc → ExecRow → Prop} (h : Sighted P i t n w) {l : Action × Ctx} (hst : Step env w l w')
    (hPQ : ∀ e e', w.db.exec? i = some e → e.status.held = true → e'.status.held = true → e'.runToken = e.runToken →
      e'.fenceEpoch = e.fenceEpoch → e' = e ∨ ExecMove l.2 l.1 e e' → e.runToken = some t → P w.utc e → Q w'.utc e') :
    Sighted Q i t n w' := by
  refine ⟨hst.issued_of_mem h.issued, fun k e' he' hh' ht' => ?_⟩
  obtain ⟨e, he, hh, ht, -, hstay, -⟩ := hst.held_before h.issued he' hh' ht'
  obtain ⟨rfl, hle, hp⟩ := h.row k e he hh ht
  refine ⟨rfl, le_trans hle hstay.epoch, fun hn => ?_⟩
  -- The epoch only goes up, so it was the same before the step.
  have hsame : e.fenceEpoch = n := le_antisymm (hn ▸ hstay.epoch) hle
  exact hPQ e e' he hh hh' hstay.token (hn.trans hsame.symm) (hst.commit.moved he he') ht (hp hsame)

theorem step (h : Sighted P i t n w) (hP : Lasting env P) {l : Action × Ctx} (hst : Step env w l w') :
    Sighted P i t n w' := by
  refine h.step_to hst fun e e' he hh hh' htok hn hmove ht hp => ?_
  refine hP hst hmove hh hh' htok hn (fun t' ht' => ?_) hp
  rw [← Option.some.inj (ht.symm.trans ht')]
  exact h.issued

theorem run (h : Sighted P i t n w) (hP : Lasting env P) {tr : History} (hr : Sys.Run (Step env) w tr w') :
    Sighted P i t n w' :=
  Sys.Run.invariant (I := Sighted P i t n) h (fun _ _ _ h hst => h.step hP hst) hr

/-- A row that is held under its token is a sight of itself. -/
theorem of_held {e : ExecRow} (hinv : HolderInv w.db w.issued) (he : w.db.exec? i = some e)
    (ht : e.runToken = some t) (hp : P w.utc e) : Sighted P i t e.fenceEpoch w := by
  refine ⟨hinv.issued i e t he ht, fun k x hx _ hxt => ?_⟩
  obtain rfl := hinv.tokens k i x e t hx he hxt ht
  obtain rfl := Option.some.inj (hx.symm.trans he)
  exact ⟨rfl, le_refl _, fun _ => hp⟩

/-- **A page is read off the rows.** -/
theorem of_scan {p : ExecRow → Bool} {col : ExecRow → Int} {u : Utc} {limit : Nat} {v : Stale}
    (hinv : HolderInv w.db w.issued) (hv : v ∈ w.db.scanStale p col u limit)
    (hp : ∀ e, w.db.exec? v.id = some e → p e = true → P u e) :
    Sighted P v.id v.runToken v.fenceEpoch { w with utc := u } := by
  obtain ⟨e, he, hve, hh, hpe⟩ := DB.mem_scanStale hv
  obtain ⟨s, -, hes⟩ := hinv.held _ e he hh
  obtain ⟨t', ht'⟩ := Option.ne_none_iff_exists'.1 hes.some_
  have htok : e.runToken = some v.runToken := by rw [hve, ht']; simp [ExecRow.toStale, ht']
  have hsight : Sighted P v.id v.runToken e.fenceEpoch { w with utc := u } := of_held hinv he htok (hp e he hpe)
  rw [hve] at hsight ⊢
  exact hsight

/-- **A lock still held under the pair that was seen is held by the row that was seen.** -/
theorem found (h : Sighted P i t n w) (hinv : HolderInv w.db w.issued) {j : String} {s : StateRow}
    (hs : w.db.state? j = some s) (hstill : s.stillHeld t n = true) :
    ∃ e, w.db.exec? i = some e ∧ e.jobName = j ∧ e.status.held = true ∧ e.owned t n = true ∧ s.owned t n = true ∧
      P w.utc e := by
  simp only [StateRow.stillHeld, Bool.and_eq_true, decide_eq_true_eq] at hstill
  obtain ⟨⟨hheld, htok⟩, hn⟩ := hstill
  have hkind : s.activeKind ≠ none := Option.isSome_iff_ne_none.1 hheld
  obtain ⟨k, e, he, hej, hh⟩ := hinv.lock j s hs hkind
  obtain ⟨s', hs', hes⟩ := hinv.held k e he hh
  rw [hej, hs] at hs'
  obtain rfl := Option.some.inj hs'
  obtain ⟨t', ht'⟩ := Option.ne_none_iff_exists'.1 hes.some_
  have htt : t' = t := by rw [hes.token, ht'] at htok; exact htok
  subst htt
  obtain ⟨rfl, -, hp⟩ := h.row k e he hh ht'
  have hen : e.fenceEpoch = n := hes.epoch.symm.trans hn
  exact ⟨e, he, hej, hh, ExecRow.owned_iff.2 ⟨ht', hen⟩, StateRow.owned_iff.2 ⟨hes.token.trans ht', hn⟩, hp hen⟩

end Sighted

/-! ## Acting on a sight -/

/-- What a call may be told about a row that was read earlier. -/
def MovedOn (err : Err) : Prop := err.kind = .contended ∨ err.kind = .capElapsed ∨ err.kind = .noSuchExecution

/-- **The recovery calls all start alike**: they lock the state row, give up if it has moved on, and lock the row that
was seen.  What follows finds that row held under the pair that was read. -/
theorem Sighted.located_failsOnly {Q : Err → Prop} (hsight : Sighted P i t n w) (hinv : HolderInv w.db w.issued)
    (hQ : ∀ err, MovedOn err → Q err) {j detail : String}
    (hno : w.db.state? j = none → Q ⟨.missingState, "job " ++ j.quote⟩) {α : Type} {u : Utc} {f : Stale → StoreM α}
    (hf : ∀ s e, w.db.state? j = some s → w.db.exec? i = some e → e.jobName = j → e.status.held = true →
      e.owned t n = true → s.owned t n = true → P w.utc e → FailsOnly Q (f (e.toStale u)) w.db) :
    FailsOnly Q (do
      let s ← lockState c j
      if s.stillHeld t n = false then fail .contended detail
      else
        let cur ← lockExecution i u
        f cur) w.db := by
  refine (lockState_failsOnly hno (hQ _ (Or.inl rfl))).seq fun s db₁ h₁ => ?_
  obtain ⟨hs, rfl⟩ := lockState_ok h₁
  refine .ite (fun _ => .throws (hQ _ (Or.inl rfl))) fun hstill => ?_
  rw [Bool.not_eq_false] at hstill
  obtain ⟨e, he, hj, hh, ho, hso, hp⟩ := hsight.found hinv hs hstill
  refine (lockExecution_fails (hQ _ (Or.inr (Or.inr rfl)))).seq fun cur db₁ h₁ => ?_
  obtain ⟨⟨e₁, he₁, rfl⟩, rfl⟩ := lockExecution_ok h₁
  obtain rfl := Option.some.inj (he.symm.trans he₁)
  exact hf s e hs he hj hh ho hso hp

end GoJob
