import GoJob.Dispatch
/-!
# Sends — what one dispatch does after a reply it could not read

A `Run` whose outcome is unknown may have started the handler.  The engine then stays with the executor it sent to, and
leaves the row held with that target recorded, as long as no later reply is a refusal: a refused re-send makes it forget
the earlier one.
-/
namespace GoJob

open Rel Sys Dialog

/-- One question of an engine's thread, and its answer. -/
abbrev Said := Exchange World Ask.Answer

namespace Said

/-- The request a `Run` carried and how its reply was classified. -/
def sent? : Said → Option (RunSpec × DispatchAnswer)
  | ⟨_, .run spec, reply, _⟩ => some (spec, (classifyRun spec reply).answer)
  | _ => none

/-- The executor may have started the handler. -/
def Ambiguous (x : Said) : Prop := x.sent?.map Prod.snd = some .unknown

/-- The executor declined, or nothing was sent. -/
def Declined (x : Said) : Prop := x.sent?.map Prod.snd = some .refused

instance : DecidablePred Ambiguous := fun x => inferInstanceAs (Decidable (x.sent?.map Prod.snd = some .unknown))

instance : DecidablePred Declined := fun x => inferInstanceAs (Decidable (x.sent?.map Prod.snd = some .refused))

/-- `Refuse` or `Retarget` is called. -/
def Releases (x : Said) : Prop :=
  match x.question with
  | .call (.refuse _ _)   => True
  | .call (.retarget _ _) => True
  | _ => False

/-- The execution, if it is held, stays held with its target. -/
def KeepsRow (x : Said) (i : Nat) : Prop :=
  ∀ e, x.before.db.exec? i = some e → e.status.held = true →
    ∃ e', x.after.db.exec? i = some e' ∧ e'.status.held = true ∧ e'.dispatchedTo = e.dispatchedTo

/-- After `x`, the exchange `y` leaves the execution `i` where it is. -/
structure LeavesIt (i : Nat) (x y : Said) : Prop where
  held : ¬ y.Releases
  same : ∀ s s', x.sent? = some s → y.sent? = some s' → s'.1.address = s.1.address
  row  : y.KeepsRow i

end Said

open Said

/-- After an unknown outcome nothing is released and nobody else is sent the execution `i`. -/
def Unreleased (i : Nat) (xs : List Said) : Prop := xs.Pairwise fun x y => x.Ambiguous → LeavesIt i x y

/-- No call is refused after one whose outcome was unknown. -/
def NoLateRefusal (xs : List Said) : Prop := xs.Pairwise fun x y => x.Ambiguous → ¬ y.Declined

instance : DecidablePred NoLateRefusal := fun xs =>
  inferInstanceAs (Decidable (xs.Pairwise fun x y => x.Ambiguous → ¬ y.Declined))

variable {env : Env} {liveness : Int} {cfg : Config} {h : Holder} {d : Definition} {target : Executor}
  {deadline : Instant} {spec : RunSpec} {left attempt : Nat} {remaining : Int} {xs : List Said}

/-! ## What a thread asks of one executor -/

/-- A question that is no `Run`, and that writes nothing but an acceptance. -/
def Ask.quiet : Ask → Prop
  | .call (.accept _ _ _ _) => True
  | .call _ => False
  | .claim _ _ => False
  | .run _ => False
  | _ => True

/-- What an attempt with one request asks: its calls of `Run` differ only in the budget. -/
def Ask.within (spec : RunSpec) (q : Ask) : Prop :=
  q.quiet ∨ ∃ remaining, q = .run { spec with remainingTimeout := remaining }

theorem refreshBudget_quiet : (refreshBudget h target deadline).Asks Ask.quiet fun _ => True := by
  refine asks_ask trivial fun now => ?_
  split
  · exact asks_ask trivial fun _ => trivial
  refine asks_ask trivial fun stop => ?_
  split
  · trivial
  refine asks_ask trivial fun cur => ?_
  cases cur with
  | error => trivial
  | ok cur => dsimp only; split <;> trivial

/-- A reply is settled without another `Run`, as a refusal only if it is one. -/
theorem settleReply_quiet (res : RunResult) :
    (settleReply cfg h res).Asks Ask.quiet fun a => res.answer ≠ .refused → a ≠ some .refused := by
  unfold settleReply
  split
  · split
    · exact asks_pure (by simp)
    refine asks_ask trivial fun a => ?_
    cases a with
    | ok => exact asks_pure (by simp)
    | error => exact asks_ask trivial fun _ => asks_pure (by simp)
  · rename_i hans
    exact asks_pure fun hr => absurd hans hr
  · exact asks_pure (by simp)

theorem sendOnce_asks : (sendOnce cfg h d target deadline spec attempt remaining).Asks (Ask.within spec)
    fun _ => True := by
  refine asks_ask (.inl trivial) fun stop => ?_
  split
  · trivial
  refine asks_ask (.inl trivial) fun ownership => ?_
  split
  · exact asks_ask (.inl trivial) fun _ => trivial
  have hbudget : (if 0 < attempt then refreshBudget h target deadline else return some remaining).Asks
      (Ask.within spec) fun _ => True := by
    split
    · exact refreshBudget_quiet.mono (fun _ => .inl) fun _ _ => trivial
    · trivial
  refine hbudget.bind fun budget _ => ?_
  cases budget with
  | none => trivial
  | some remaining =>
    refine asks_ask (.inl trivial) fun now => ?_
    split
    · exact asks_ask (.inl trivial) fun _ => trivial
    refine asks_ask (.inr ⟨_, rfl⟩) fun reply => ?_
    exact ((settleReply_quiet _).mono (fun _ => .inl) fun _ => id).bind fun _ _ => trivial

theorem settledOr_asks {resend : Int → Thread DispatchAnswer} {P : Ask → Prop}
    (h : ∀ remaining, (resend remaining).Asks P fun _ => True) :
    ∀ round, (settledOr resend round).Asks P fun _ => True
  | (_, some _) => trivial
  | (_, none)   => h _

theorem attemptDispatch_asks : (attemptDispatch cfg h d target deadline spec left attempt remaining).Asks
    (Ask.within spec) fun _ => True := by
  induction left generalizing attempt remaining with
  | zero =>
    refine sendOnce_asks.bind fun round _ => settledOr_asks (fun _ => ?_) round
    exact asks_ask (.inl trivial) fun _ => trivial
  | succ left ih =>
    refine sendOnce_asks.bind fun round _ => settledOr_asks (fun _ => ?_) round
    refine asks_ask (.inl trivial) fun go => ?_
    split
    · exact ih
    · trivial

/-! ## How an attempt ends -/

/-- A dialog that settles on an answer: a refusal is its last exchange, and else no reply was one. -/
structure Settles (xs : List Said) (a : Option DispatchAnswer) : Prop where
  last : a = some .refused → ∃ ys x, xs = ys ++ [x] ∧ x.Declined
  none : a ≠ some .refused → ∀ x ∈ xs, ¬ x.Declined

theorem Settles.prepend {a : Option DispatchAnswer} (hx : Settles xs a) (ys : List Said)
    (hy : ∀ y ∈ ys, ¬ y.Declined) : Settles (ys ++ xs) a := by
  constructor
  · intro ha
    obtain ⟨zs, x, rfl, hd⟩ := hx.last ha
    exact ⟨ys ++ zs, x, (List.append_assoc ..).symm, hd⟩
  · intro ha x hm
    rcases List.mem_append.1 hm with hm | hm
    · exact hy x hm
    · exact hx.none ha x hm

theorem not_declined_of_quiet {x : Said} (h : x.question.quiet) : ¬ x.Declined := by
  obtain ⟨s, q, a, s'⟩ := x
  intro hs
  cases q <;> first | exact h | cases hs

theorem Settles.of_quiet {a : Option DispatchAnswer} (h : ∀ x ∈ xs, x.question.quiet) (ha : a ≠ some .refused) :
    Settles xs a :=
  ⟨fun h => absurd h ha, fun _ x hx => not_declined_of_quiet (h x hx)⟩

theorem Settles.cons {x : Said} {a : Option DispatchAnswer} (hx : x.question.quiet) (h : Settles xs a) :
    Settles (x :: xs) a :=
  h.prepend [x] fun _ hy => List.mem_singleton.1 hy ▸ not_declined_of_quiet hx

theorem Settles.nil {a : Option DispatchAnswer} (ha : a ≠ some .refused) : Settles [] a :=
  .of_quiet (by simp) ha

theorem settleReply_settles {w w' : World} {sent : RunSpec} {reply : RunReply} {a : Option DispatchAnswer}
    (ht : Talk (Serves env liveness) (settleReply cfg h (classifyRun sent reply)) xs a) :
    Settles (⟨w, .run sent, reply, w'⟩ :: xs) a := by
  by_cases hr : (classifyRun sent reply).answer = .refused
  · unfold settleReply at ht
    rw [hr] at ht
    obtain ⟨rfl, rfl⟩ := talk_pure.1 ht
    exact ⟨fun _ => ⟨[], _, rfl, congrArg some hr⟩, fun ha => absurd rfl ha⟩
  · obtain ⟨hq, ha⟩ := ht.asks (settleReply_quiet _)
    refine (Settles.of_quiet hq (ha hr)).prepend [_] fun y hy => ?_
    obtain rfl := List.mem_singleton.1 hy
    exact fun hs => hr (Option.some.inj hs)

theorem sendOnce_settles {round : Int × Option DispatchAnswer}
    (ht : Talk (Serves env liveness) (sendOnce cfg h d target deadline spec attempt remaining) xs round) :
    Settles xs round.2 := by
  obtain ⟨_, stop, _, xs, rfl, -, ht⟩ := talk_ask.1 ht
  refine Settles.cons trivial ?_
  split at ht
  · obtain ⟨rfl, rfl⟩ := talk_pure.1 ht
    exact .nil (by simp)
  obtain ⟨_, ownership, _, xs, rfl, -, ht⟩ := talk_ask.1 ht
  refine Settles.cons trivial ?_
  split at ht
  · obtain ⟨_, _, _, xs, rfl, -, ht⟩ := talk_ask.1 ht
    obtain ⟨rfl, rfl⟩ := talk_pure.1 ht
    exact .cons trivial (.nil (by simp))
  obtain ⟨ys, budget, xs, rfl, hb, ht⟩ := talk_bind.1 ht
  have hys : ∀ y ∈ ys, ¬ Declined y := by
    split at hb
    · exact fun y hy => not_declined_of_quiet ((hb.asks refreshBudget_quiet).1 y hy)
    · obtain ⟨rfl, -⟩ := talk_pure.1 hb
      simp
  refine Settles.prepend ?_ ys hys
  cases budget with
  | none =>
    obtain ⟨rfl, rfl⟩ := talk_pure.1 ht
    exact .nil (by simp)
  | some remaining =>
    obtain ⟨_, now, _, xs, rfl, -, ht⟩ := talk_ask.1 ht
    refine Settles.cons trivial ?_
    split at ht
    · obtain ⟨_, _, _, xs, rfl, -, ht⟩ := talk_ask.1 ht
      obtain ⟨rfl, rfl⟩ := talk_pure.1 ht
      exact .cons trivial (.nil (by simp))
    obtain ⟨_, reply, _, xs, rfl, -, ht⟩ := talk_ask.1 ht
    obtain ⟨xs, a, zs, rfl, hs, ht⟩ := talk_bind.1 ht
    obtain ⟨rfl, rfl⟩ := talk_pure.1 ht
    rw [List.append_nil]
    exact settleReply_settles hs

theorem settledOr_settles {resend : Int → Thread DispatchAnswer} {ys : List Said} {a : DispatchAnswer}
    {round : Int × Option DispatchAnswer} (hs : Settles ys round.2)
    (ht : Talk (Serves env liveness) (settledOr resend round) xs a)
    (h : ∀ remaining, Talk (Serves env liveness) (resend remaining) xs a → Settles xs (some a)) :
    Settles (ys ++ xs) (some a) := by
  obtain ⟨remaining, _ | a'⟩ := round
  · exact (h remaining ht).prepend ys (hs.none (by simp))
  · obtain ⟨rfl, rfl⟩ := talk_pure.1 ht
    rw [List.append_nil]
    exact hs

/-- **An attempt that ends in a refusal ends with the refused call, and one that does not was never refused.** -/
theorem attemptDispatch_settles {a : DispatchAnswer} (ht : Talk (Serves env liveness)
    (attemptDispatch cfg h d target deadline spec left attempt remaining) xs a) : Settles xs (some a) := by
  induction left generalizing attempt remaining xs with
  | zero =>
    obtain ⟨ys, round, zs, rfl, hs, ht⟩ := talk_bind.1 ht
    refine settledOr_settles (sendOnce_settles hs) ht fun _ ht => ?_
    obtain ⟨_, _, _, xs, rfl, -, ht⟩ := talk_ask.1 ht
    obtain ⟨rfl, rfl⟩ := talk_pure.1 ht
    exact .cons trivial (.nil (by simp))
  | succ left ih =>
    obtain ⟨ys, round, zs, rfl, hs, ht⟩ := talk_bind.1 ht
    refine settledOr_settles (sendOnce_settles hs) ht fun _ ht => ?_
    obtain ⟨_, go, _, xs, rfl, -, ht⟩ := talk_ask.1 ht
    refine Settles.cons trivial ?_
    split at ht
    · exact ih ht
    · obtain ⟨rfl, rfl⟩ := talk_pure.1 ht
      exact .nil (by simp)

/-! ## What an attempt leaves alone -/

theorem accept_keeps {c : Ctx} {i : Nat} {t : String} {n : Nat} {l : Int} {db : DB} {j : Nat} {e : ExecRow}
    (he : db.exec? j = some e) (hh : e.status.held = true) :
    ∃ e', ((accept c i t n l).commit db).exec? j = some e' ∧ e'.status.held = true ∧
      e'.dispatchedTo = e.dispatchedTo := by
  rcases Tx.commit_cases (accept c i t n l) db with ⟨err, -, hc⟩ | ⟨_, hok⟩
  · exact ⟨e, by rw [hc, he], hh, rfl⟩
  · obtain ⟨_, _, _, hdb⟩ := casExec_ok hok
    rw [hdb, DB.exec?_setExec]
    by_cases hj : j = i
    · subst hj
      exact ⟨(acceptWrite c l (c.utc 0)).run e, by simp [he], rfl, rfl⟩
    · exact ⟨e, by simp [hj, he], hh, rfl⟩

theorem Transacts.accept_keepsRow {w w' : World} {i : Nat} {t : String} {n : Nat} {l : Int}
    {f : Ctx → Except Err Unit} {r : Except Err Unit} (hx : Transacts env w (.accept i t n l) f r w') (j : Nat) :
    ∀ e, w.db.exec? j = some e → e.status.held = true →
      ∃ e', w'.db.exec? j = some e' ∧ e'.status.held = true ∧ e'.dispatchedTo = e.dispatchedTo := by
  intro e he hh
  rcases hx with ⟨c, hst, -⟩ | ⟨rfl, -⟩
  · rw [hst.db]
    exact accept_keeps he hh
  · exact ⟨e, he, hh, rfl⟩

theorem keepsRow_of_within {x : Said} (hx : Fair (Serves env liveness) x) (hq : x.question.within spec) (i : Nat) :
    x.KeepsRow i := by
  obtain ⟨w, q, a, w'⟩ := x
  intro e he hh
  have same : w' = w → ∃ e', w'.db.exec? i = some e' ∧ e'.status.held = true ∧ e'.dispatchedTo = e.dispatchedTo := by
    rintro rfl
    exact ⟨e, he, hh, rfl⟩
  rcases hq with hq | ⟨remaining, rfl⟩
  · cases q with
    | call act =>
      cases act with
      | accept => exact hx.accept_keepsRow i e he hh
      | _ => exact hq.elim
    | claim | run => exact hq.elim
    | definition | executionByKey => exact same hx.1
    | _ => exact same hx
  · exact same hx

/-- **Inside one attempt every exchange leaves the execution with its executor.** -/
theorem leavesIt_of_within {x y : Said} (hy : Fair (Serves env liveness) y) (hx : x.question.within spec)
    (hq : y.question.within spec) (i : Nat) : LeavesIt i x y := by
  refine ⟨?_, ?_, keepsRow_of_within hy hq i⟩
  · obtain ⟨w, q, a, w'⟩ := y
    rcases hq with hq | ⟨remaining, rfl⟩
    · intro hr
      cases q with
      | call act => cases act <;> first | exact hr | exact hq
      | _ => exact hr
    · exact id
  · have address_of {z : Said} (hz : z.question.within spec) : ∀ t, z.sent? = some t → t.1.address = spec.address := by
      obtain ⟨w, q, a, w'⟩ := z
      intro t ht
      rcases hz with hz | ⟨remaining, rfl⟩
      · cases q <;> first | exact hz.elim | cases ht
      · cases ht
        rfl
    intro t t' ht ht'
    rw [address_of hx t ht, address_of hq t' ht']

/-! ## The whole dispatch -/

/-- A question that is neither a `Run` nor a claim. -/
def Ask.noSend : Ask → Prop
  | .run _ => False
  | .claim _ _ => False
  | _ => True

theorem not_ambiguous_of_noSend {x : Said} (h : x.question.noSend) : ¬ x.Ambiguous := by
  obtain ⟨s, q, a, s'⟩ := x
  intro hs
  cases q <;> first | exact h | cases hs

theorem releaseUndispatchable_noSend {p : ClaimParams} {epoch : Nat} :
    (releaseUndispatchable p epoch).Asks Ask.noSend fun _ => True :=
  asks_ask trivial fun _ => ⟨trivial, fun _ => trivial⟩

theorem releaseUndispatchable_releases {p : ClaimParams} {epoch : Nat} {r : Unit}
    (ht : Talk (Serves env liveness) (releaseUndispatchable p epoch) xs r) : ∃ x ∈ xs, Releases x := by
  obtain ⟨_, _, _, xs, rfl, -, -⟩ := talk_ask.1 ht
  exact ⟨_, List.mem_cons_self, trivial⟩

variable {x : Delivery}

theorem reroute_noSend : (x.reroute target).Asks Ask.noSend fun _ => True := by
  refine asks_ask trivial fun cur => ?_
  cases cur with
  | error => exact releaseUndispatchable_noSend.bind fun _ _ => trivial
  | ok cur =>
    dsimp only
    split
    · exact releaseUndispatchable_noSend.bind fun _ _ => trivial
    refine asks_ask trivial fun moved => ?_
    cases moved with
    | ok => trivial
    | error err =>
      dsimp only
      split
      · exact asks_ask trivial fun _ => trivial
      · exact releaseUndispatchable_noSend.bind fun _ _ => trivial

/-- Going on to another executor begins with a `Retarget`, or ends with a `Refuse`. -/
theorem reroute_releases {r : Option Int} (ht : Talk (Serves env liveness) (x.reroute target) xs r) :
    ∃ y ∈ xs, Releases y := by
  obtain ⟨_, cur, _, xs, rfl, -, ht⟩ := talk_ask.1 ht
  suffices hs : ∃ y ∈ xs, Releases y by
    obtain ⟨y, hy, hr⟩ := hs
    exact ⟨y, List.mem_cons_of_mem _ hy, hr⟩
  have released (ht : Talk (Serves env liveness)
      (releaseUndispatchable x.claimed x.holder.fenceEpoch >>= fun _ => pure none) xs r) : ∃ y ∈ xs, Releases y := by
    obtain ⟨ys, _, zs, rfl, ht, -⟩ := talk_bind.1 ht
    obtain ⟨y, hy, hr⟩ := releaseUndispatchable_releases ht
    exact ⟨y, List.mem_append_left _ hy, hr⟩
  cases cur with
  | error => exact released ht
  | ok cur =>
    dsimp only at ht
    split at ht
    · exact released ht
    obtain ⟨_, _, _, xs, rfl, -, -⟩ := talk_ask.1 ht
    exact ⟨_, List.mem_cons_self, trivial⟩

theorem tryEach_releases : ∀ {targets : List Executor} {r : Unit} {xs : List Said},
    Talk (Serves env liveness) (x.tryEach none targets) xs r → ∃ y ∈ xs, Releases y
  | [], _, _, ht => releaseUndispatchable_releases ht
  | _ :: _, _, _, ht => by
    obtain ⟨ys, _, zs, rfl, ht, -⟩ := talk_bind.1 ht
    obtain ⟨y, hy, hr⟩ := reroute_releases ht
    exact ⟨y, List.mem_append_left _ hy, hr⟩

/-- Exchanges before the first ambiguous one are not constrained. -/
theorem pairwise_after {B : Said → Said → Prop} {ys zs : List Said} (h : ∀ y ∈ ys, ¬ y.Ambiguous) :
    (ys ++ zs).Pairwise (fun x y => x.Ambiguous → B x y) ↔ zs.Pairwise fun x y => x.Ambiguous → B x y := by
  rw [List.pairwise_append]
  refine ⟨fun h => h.2.1, fun hz => ⟨?_, hz, fun y hy _ _ ha => absurd ha (h y hy)⟩⟩
  exact List.pairwise_of_forall_mem_list fun y hy _ _ ha => absurd ha (h y hy)

theorem unreleased_iff_append {i : Nat} {zs : List Said} (ys : List Said) (hy : ∀ y ∈ ys, y.question.noSend)
    (h : Unreleased i zs ↔ NoLateRefusal zs) : Unreleased i (ys ++ zs) ↔ NoLateRefusal (ys ++ zs) := by
  have hno : ∀ y ∈ ys, ¬ Ambiguous y := fun y hm => not_ambiguous_of_noSend (hy y hm)
  exact (pairwise_after hno).trans (h.trans (pairwise_after hno).symm)

theorem unreleased_iff_of_noSend {i : Nat} (h : ∀ y ∈ xs, y.question.noSend) : Unreleased i xs ↔ NoLateRefusal xs := by
  rw [← List.append_nil xs]
  exact unreleased_iff_append xs h ⟨fun _ => .nil, fun _ => .nil⟩

theorem tryEach_iff (i : Nat) : ∀ {targets : List Executor} {first : Option Int} {r : Unit} {xs : List Said},
    Talk (Serves env liveness) (x.tryEach first targets) xs r → (Unreleased i xs ↔ NoLateRefusal xs)
  | [], _, _, xs, ht => unreleased_iff_of_noSend (ht.asks releaseUndispatchable_noSend).1
  | target :: targets, first, _, _, ht => by
    obtain ⟨ys, budget, zs, rfl, hb, ht⟩ := talk_bind.1 ht
    have hq : ∀ y ∈ ys, y.question.noSend := by
      cases first with
      | some remaining =>
        obtain ⟨rfl, -⟩ := talk_pure.1 hb
        simp
      | none => exact (hb.asks reroute_noSend).1
    refine unreleased_iff_append ys hq ?_
    cases budget with
    | none =>
      obtain ⟨rfl, -⟩ := talk_pure.1 ht
      exact unreleased_iff_of_noSend (by simp)
    | some remaining =>
      obtain ⟨as, a, bs, rfl, ha, ht⟩ := talk_bind.1 ht
      have hwithin : ∀ y ∈ as, y.question.within (x.spec target remaining) := (ha.asks attemptDispatch_asks).1
      have hsettles := attemptDispatch_settles ha
      have hfair := ha.fair
      -- The dispatch ends here: nothing was refused, and whatever followed an unknown outcome stayed with the executor.
      have ends (hbs : ∀ y ∈ bs, y.question.quiet) (hfb : ∀ y ∈ bs, Fair (Serves env liveness) y)
          (hne : a ≠ .refused) : Unreleased i (as ++ bs) ↔ NoLateRefusal (as ++ bs) := by
        have hw : ∀ y ∈ as ++ bs, y.question.within (x.spec target remaining) := fun y hy =>
          (List.mem_append.1 hy).elim (hwithin y) fun hy => .inl (hbs y hy)
        have hf : ∀ y ∈ as ++ bs, Fair (Serves env liveness) y := fun y hy =>
          (List.mem_append.1 hy).elim (hfair y) (hfb y)
        have hd : ∀ y ∈ as ++ bs, ¬ Declined y := fun y hy =>
          (List.mem_append.1 hy).elim (hsettles.none (by simpa using hne) y) fun hy => not_declined_of_quiet (hbs y hy)
        exact ⟨fun _ => List.pairwise_of_forall_mem_list fun _ _ y hy _ => hd y hy,
          fun _ => List.pairwise_of_forall_mem_list fun y hy z hz _ =>
            leavesIt_of_within (hf z hz) (hw y hy) (hw z hz) i⟩
      cases a with
      | accepted =>
        obtain ⟨rfl, -⟩ := talk_pure.1 ht
        exact ends (by simp) (by simp) (by simp)
      | unknown =>
        have hq : (query (.untrack x.holder.executionId x.holder.fenceEpoch)).Asks Ask.quiet fun _ => True :=
          ⟨trivial, fun _ => trivial⟩
        exact ends (ht.asks hq).1 ht.fair (by simp)
      | refused =>
        -- Whichever of the two holds, no outcome before the refusal was unknown.
        have hnone (hp : Unreleased i (as ++ bs) ∨ NoLateRefusal (as ++ bs)) : ∀ y ∈ as, ¬ Ambiguous y := by
          intro y hy hamb
          rcases hp with hp | hp
          · obtain ⟨z, hz, hr⟩ := tryEach_releases ht
            exact ((List.pairwise_append.1 hp).2.2 y hy z hz hamb).held hr
          · obtain ⟨cs, z, rfl, hd⟩ := hsettles.last rfl
            rcases List.mem_append.1 hy with hy | hy
            · have hcs := (List.pairwise_append.1 (List.pairwise_append.1 hp).1).2.2
              exact hcs y hy z List.mem_cons_self hamb hd
            · obtain rfl := List.mem_singleton.1 hy
              cases hamb.symm.trans hd
        have ih := tryEach_iff i ht
        constructor
        · intro hp
          exact (pairwise_after (hnone (.inl hp))).2 (ih.1 ((pairwise_after (hnone (.inl hp))).1 hp))
        · intro hp
          exact (pairwise_after (hnone (.inr hp))).2 (ih.2 ((pairwise_after (hnone (.inr hp))).1 hp))

/-- **An ambiguous send is left to recovery exactly when no later call is refused.**  Whatever the executors reply and
whatever happens to the schema meanwhile, one dispatch neither releases the execution nor sends it to another executor
after an outcome it does not know, and leaves a held row held with its target, if and only if no `Run` after that one is
classified as refused. -/
theorem dispatch_unreleased_iff {snapshot : Stale} {targets : List Executor} {p : ClaimParams} {w w' : World}
    {ev : List (Event World (Action × Ctx) Ask.Answer)} {r : Unit}
    (hx : Exec (Serves env cfg.executorLiveness) (Step env) (dispatch cfg h d snapshot targets p) w ev r w') :
    Unreleased h.executionId (own ev) ↔ NoLateRefusal (own ev) := by
  have ht := hx.talk
  unfold dispatch at ht
  split at ht
  · exact unreleased_iff_of_noSend (ht.asks releaseUndispatchable_noSend).1
  split at ht
  · exact unreleased_iff_of_noSend (ht.asks releaseUndispatchable_noSend).1
  obtain ⟨s, now, s', xs, hxs, -, ht⟩ := talk_ask.1 ht
  rw [hxs]
  refine unreleased_iff_append [⟨s, .now, now, s'⟩] ?_ (tryEach_iff h.executionId ht)
  simp [Ask.noSend]

/-- An engine with the limits the program sets. -/
def sampleConfig : Config := ⟨"scheduler", "acme", 30, 5, 60 * second, 60, fun _ => some none⟩

/-- Two executors that declare the handler. -/
def executors : List Executor :=
  [⟨"executor", "", "10.0.0.1:9000", 4, 0, ["handler"], 0⟩, ⟨"spare", "", "10.0.0.2:9000", 4, 0, ["handler"], 0⟩]

/-- The pass that `claimedPass` claimed, as its dispatch reads it. -/
def claimedHolder : Holder := ⟨"sync", 1, "pass-1", "scheduler", "t1", 1⟩

def claimedSnapshot : Stale where
  id := 1
  executionKey := "pass-1"
  jobName := "sync"
  status := .dispatching
  dispatchedTo := "executor"
  runToken := "t1"
  fenceEpoch := 1
  attemptNo := 0
  maxAttempts := 2
  recoveryCount := 0
  maxRecoveries := 2
  timeoutExpired := false
  silenceExpired := false
  leaseLive := true
  remainingTimeout := 60 * second
  scheduledAt := 0
  params := none

/-- Its dispatch to two executors. -/
def claimedDispatch : Thread Unit :=
  dispatch sampleConfig claimedHolder (sampleJob "sync" .fixedDelay "1000") claimedSnapshot executors
    ⟨1, "sync", "pass-1", "scheduler", "executor", "t1", 5⟩

/-- That dispatch, with the replies its calls of `Run` get. -/
def dispatched (script : List RunReply) : List Said × Unit × World :=
  claimedDispatch.drive (obliging bareEnv sampleConfig.executorLiveness ⟨executors, 2⟩) script
    ((World.init 0).play bareEnv claimedPass)

theorem dispatched_exec (script : List RunReply) : Exec (Serves bareEnv sampleConfig.executorLiveness) (Step bareEnv)
    claimedDispatch ((World.init 0).play bareEnv claimedPass) ((dispatched script).1.map .own) (dispatched script).2.1
    (dispatched script).2.2 :=
  exec_drive (obliging_serves bareEnv sampleConfig.executorLiveness ⟨executors, 2⟩) script _ claimedDispatch

/-- The reply to the first call is lost and the second finds the executor running the attempt. -/
theorem dispatch_unreleased_iff_found :
    (dispatched [.failed, .alreadyExists "t1"]).1.any (fun x => decide x.Ambiguous) = true ∧
      Unreleased 1 (dispatched [.failed, .alreadyExists "t1"]).1 := by
  refine ⟨by decide +kernel, ?_⟩
  have h := (dispatch_unreleased_iff (dispatched_exec [.failed, .alreadyExists "t1"])).2
  rw [own_map] at h
  exact h (by decide +kernel)

/-- The reply to the first call is lost, and the executor, restarted meanwhile, declines the second: the execution is
then recorded against another executor and sent to it. -/
theorem refused_resend_reroutes : ∃ ev r w', Exec (Serves bareEnv sampleConfig.executorLiveness) (Step bareEnv)
      claimedDispatch ((World.init 0).play bareEnv claimedPass) ev r w' ∧
    (own ev).filterMap (fun x : Said => x.sent?.map fun s => (s.1.address, s.2)) =
      [("10.0.0.1:9000", .unknown), ("10.0.0.1:9000", .refused), ("10.0.0.2:9000", .accepted)] ∧
    ¬ Unreleased 1 (own ev) := by
  refine ⟨_, _, _, dispatched_exec [.failed, .response "" "" true, .response "" "" false], ?_, ?_⟩
  · rw [own_map]
    decide +kernel
  · rw [own_map]
    intro hp
    have hsame := hp.imp (S := fun x y : Said => x.Ambiguous →
      ∀ s ∈ x.sent?, ∀ s' ∈ y.sent?, s'.1.address = s.1.address) fun h ha s hs s' hs' => (h ha).same s s' hs hs'
    revert hsame
    decide +kernel

end GoJob
