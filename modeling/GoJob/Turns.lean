import GoJob.Dispatch
/-!
# Turns — which executor is tried first (`passes.go`)

`pickExecutors` sorts the live executors by health and headroom and then rotates those that tie with the first, by a
counter that every job of the engine shares.  The rotation moves nothing past an executor it does not tie with, so the
order stays; and as the counter goes up by one, each of the leaders has its turn.
-/
namespace GoJob

/-! ## One call -/

/-- `int(e.rotation.Add(1))`: the counter is a `uint64`, and the conversion keeps the bits. -/
def turn (counter : UInt64) : Int := (counter + 1).toBitVec.toInt

/-- `pickExecutors` behind its query: the order, and the counter it leaves.  A negative index panics. -/
def pick (healthy : String → Bool) (live : List Executor) (counter : UInt64) : Option (List Executor) × UInt64 :=
  let lead := leaders healthy (live.insertionSort (preferred healthy))
  if 1 < lead then
    (if (turn counter).tmod lead < 0 then none else some (ranked healthy (turn counter).toNat live), counter + 1)
  else (some (ranked healthy 0 live), counter)

theorem turn_eq {counter : UInt64} (h : counter.toNat < 2 ^ 63 - 1) :
    turn counter = counter.toNat + 1 ∧ (counter + 1).toNat = counter.toNat + 1 := by
  have hadd : (counter + 1).toNat = counter.toNat + 1 := by
    rw [UInt64.toNat_add]
    exact Nat.mod_eq_of_lt (show counter.toNat + 1 < 2 ^ 64 by omega)
  refine ⟨?_, hadd⟩
  unfold turn
  rw [BitVec.toInt_eq_toNat_of_lt (by rw [UInt64.toNat_toBitVec, hadd]; omega), UInt64.toNat_toBitVec, hadd]
  rfl

section order

variable {healthy : String → Bool} {live : List Executor}

theorem preferred_total (x y : Executor) : preferred healthy x y ∨ preferred healthy y x := by
  unfold preferred
  cases healthy x.executorId <;> cases healthy y.executorId <;> simp [le_total]

theorem preferred_trans {x y z : Executor} (h : preferred healthy x y) (h' : preferred healthy y z) :
    preferred healthy x z := by
  unfold preferred at *
  rcases h with ⟨hx, hy⟩ | ⟨hxy, hle⟩ <;> rcases h' with ⟨hy', hz⟩ | ⟨hyz, hle'⟩
  · exact Or.inl ⟨hx, hz⟩
  · exact Or.inl ⟨hx, hyz ▸ hy⟩
  · exact Or.inl ⟨hxy ▸ hy', hz⟩
  · exact Or.inr ⟨hxy.trans hyz, le_trans hle' hle⟩

instance : Std.Total (preferred healthy) := ⟨preferred_total⟩

instance : IsTrans Executor (preferred healthy) := ⟨fun _ _ _ => preferred_trans⟩

theorem leaders_le : ∀ l : List Executor, leaders healthy l ≤ l.length
  | [] => le_refl _
  | _ :: _ => (List.takeWhile_prefix _).length_le

/-- The leaders tie. -/
theorem mem_leaders {l : List Executor} {x y : Executor} (hx : x ∈ l.take (leaders healthy l))
    (hy : y ∈ l.take (leaders healthy l)) : healthy x.executorId = healthy y.executorId ∧ headroom x = headroom y := by
  cases l with
  | nil => cases hx
  | cons a l =>
    have htie : ∀ z ∈ (a :: l).take (leaders healthy (a :: l)),
        healthy z.executorId = healthy a.executorId ∧ headroom z = headroom a := fun z hz => by
      rw [leaders, ← List.prefix_iff_eq_take.1 (List.takeWhile_prefix _)] at hz
      simpa using List.mem_takeWhile_imp hz
    obtain ⟨hx₁, hx₂⟩ := htie x hx
    obtain ⟨hy₁, hy₂⟩ := htie y hy
    exact ⟨hx₁.trans hy₁.symm, hx₂.trans hy₂.symm⟩

/-- **The order is the sorted list with its leaders rotated.** -/
theorem ranked_eq (r : Nat) : ranked healthy r live =
    ((live.insertionSort (preferred healthy)).take
        (leaders healthy (live.insertionSort (preferred healthy)))).rotate r ++
      (live.insertionSort (preferred healthy)).drop (leaders healthy (live.insertionSort (preferred healthy))) := by
  unfold ranked
  generalize live.insertionSort (preferred healthy) = sorted
  have hlen : (sorted.take (leaders healthy sorted)).length = leaders healthy sorted := by
    rw [List.length_take, min_eq_left (leaders_le sorted)]
  dsimp only
  split
  · rename_i hlead
    have hn : r % leaders healthy sorted < leaders healthy sorted := Nat.mod_lt _ (by omega)
    rw [← List.rotate_mod, hlen, List.rotate_eq_drop_append_take (by omega), List.take_take, min_eq_left hn.le]
  · rename_i hlead
    have hone : (sorted.take (leaders healthy sorted)).rotate r = sorted.take (leaders healthy sorted) := by
      rw [← List.rotate_mod, hlen]
      have : leaders healthy sorted = 0 ∨ leaders healthy sorted = 1 := by omega
      rcases this with h | h <;> simp [h, Nat.mod_one]
    rw [hone, List.take_append_drop]

theorem ranked_perm (r : Nat) : (ranked healthy r live).Perm live := by
  rw [ranked_eq]
  refine ((List.rotate_perm _ r).append_right _).trans ?_
  rw [List.take_append_drop]
  exact List.perm_insertionSort _ live

/-- **Rotating the leaders keeps the order**, as they tie. -/
theorem ranked_ordered (r : Nat) : (ranked healthy r live).Pairwise (preferred healthy) := by
  have hsorted := List.pairwise_insertionSort (preferred healthy) live
  rw [ranked_eq]
  generalize live.insertionSort (preferred healthy) = sorted at hsorted ⊢
  rw [← List.take_append_drop (leaders healthy sorted) sorted, List.pairwise_append] at hsorted
  refine List.pairwise_append.2 ⟨List.pairwise_of_forall_mem_list fun x hx y hy => ?_, hsorted.2.1, fun x hx y hy => ?_⟩
  · obtain ⟨hh, hr⟩ := mem_leaders (List.mem_rotate.1 hx) (List.mem_rotate.1 hy)
    exact Or.inr ⟨hh, hr.symm.le⟩
  · exact hsorted.2.2 x (List.mem_rotate.1 hx) y hy

/-- **A call gives the order of its turn**, which is what the thread of `pickExecutors` returns if its question for the
turn is answered by the counter. -/
theorem pick_eq {counter : UInt64} (h : counter.toNat < 2 ^ 63 - 1) :
    (pick healthy live counter).1 = some (ranked healthy (counter.toNat + 1) live) := by
  have hturn := (turn_eq h).1
  unfold pick
  dsimp only
  split
  · rw [hturn, if_neg (not_lt.2 (Int.tmod_nonneg _ (by omega)))]
    rfl
  · rename_i hlead
    unfold ranked
    dsimp only
    rw [if_neg hlead, if_neg hlead]

end order

/-! ## Calls in a row -/

/-- What one call sees: the health table and the live executors. -/
structure PickCall where
  healthy : String → Bool
  live    : List Executor

/-- The call sees the list in this order, and its first `k` executors, and no more, tie. -/
def PickCall.Sees (x : PickCall) (sorted : List Executor) (k : Nat) : Prop :=
  x.live.insertionSort (preferred x.healthy) = sorted ∧ leaders x.healthy sorted = k

/-- The orders that calls in a row give. -/
def picks : List PickCall → UInt64 → List (Option (List Executor))
  | [], _ => []
  | x :: xs, counter => (pick x.healthy x.live counter).1 :: picks xs (pick x.healthy x.live counter).2

/-- Who is tried first. -/
def firsts (xs : List PickCall) (counter : UInt64) : List (Option Executor) :=
  (picks xs counter).map fun order => order.bind List.head?

section turns

variable {sorted : List Executor} {k : Nat}

theorem PickCall.Sees.length {x : PickCall} (h : x.Sees sorted k) : (sorted.take k).length = k := by
  rw [List.length_take, ← h.2, min_eq_left (leaders_le sorted)]

theorem PickCall.Sees.head? {x : PickCall} (h : x.Sees sorted k) (hk : 0 < k) (r : Nat) :
    (ranked x.healthy r x.live).head? = (sorted.take k)[r % k]? := by
  have hlen := h.length
  rw [ranked_eq, h.1, h.2, List.head?_append_of_ne_nil, ← List.rotate_mod, hlen, List.head?_rotate]
  · rw [hlen]
    exact Nat.mod_lt r hk
  · rw [← List.length_pos_iff, List.length_rotate, hlen]
    exact hk

/-- **The leaders are tried first in the order of the counter.** -/
theorem firsts_eq (hk : 1 < k) : ∀ (xs : List PickCall) (counter : UInt64), (∀ x ∈ xs, x.Sees sorted k) →
    counter.toNat + xs.length ≤ 2 ^ 63 - 1 →
    firsts xs counter = (List.range' (counter.toNat + 1) xs.length).map fun r => (sorted.take k)[r % k]?
  | [], _, _, _ => rfl
  | x :: xs, counter, hsees, hle => by
    have hx := hsees x List.mem_cons_self
    rw [List.length_cons] at hle
    have hlt : counter.toNat < 2 ^ 63 - 1 := by omega
    have hadd := (turn_eq hlt).2
    have hcounter : (pick x.healthy x.live counter).2 = counter + 1 := by
      unfold pick
      rw [hx.1, hx.2]
      dsimp only
      rw [if_pos hk]
    have ih := firsts_eq hk xs (counter + 1) (fun y hy => hsees y (List.mem_cons_of_mem _ hy)) (by rw [hadd]; omega)
    unfold firsts at ih ⊢
    rw [picks, hcounter, pick_eq hlt, List.map_cons, ih, List.length_cons, List.range'_succ, List.map_cons,
      Option.bind_some, hx.head? (by omega), hadd]

/-- A call that sees one leader puts it first. -/
theorem firsts_one {x : PickCall} (h : x.Sees sorted 1) (counter : UInt64) :
    firsts [x] counter = (sorted.take 1).map some := by
  have hpick : (pick x.healthy x.live counter).1 = some (ranked x.healthy 0 x.live) := by
    unfold pick
    rw [h.1, h.2]
    rfl
  obtain ⟨a, ha⟩ := List.length_eq_one_iff.1 h.length
  show [(pick x.healthy x.live counter).1.bind List.head?] = _
  rw [hpick, Option.bind_some, h.head? Nat.one_pos, ha]
  rfl

/-- **`k` calls in a row try each of the `k` leaders first once.** -/
theorem firsts_perm {xs : List PickCall} {counter : UInt64} (hsees : ∀ x ∈ xs, x.Sees sorted k) (hlen : xs.length = k)
    (hle : counter.toNat + k ≤ 2 ^ 63 - 1) : (firsts xs counter).Perm ((sorted.take k).map some) := by
  have hcases : k = 0 ∨ k = 1 ∨ 1 < k := by omega
  rcases hcases with rfl | rfl | hk
  · rw [List.length_eq_zero_iff.1 hlen]
    exact .refl _
  · obtain ⟨x, rfl⟩ := List.length_eq_one_iff.1 hlen
    rw [firsts_one (hsees x (List.mem_singleton_self x))]
  · obtain ⟨x, hx⟩ := List.exists_mem_of_length_pos (l := xs) (by omega)
    have htake := (hsees x hx).length
    -- The turns of the counter read the leaders off as a rotation does.
    have hrot : firsts xs counter = ((sorted.take k).rotate (counter.toNat + 1)).map some := by
      rw [firsts_eq hk xs counter hsees (by omega), hlen]
      refine List.ext_getElem (by rw [List.length_map, List.length_map, List.length_rotate, List.length_range', htake])
        fun i h₁ h₂ => ?_
      have hmod : (i + (counter.toNat + 1)) % (sorted.take k).length < (sorted.take k).length := Nat.mod_lt _ (by omega)
      rw [List.getElem_map, List.getElem_map, List.getElem_range', List.getElem_rotate, ← List.getElem?_eq_getElem hmod,
        htake, show counter.toNat + 1 + 1 * i = i + (counter.toNat + 1) by omega]
    rw [hrot]
    exact (List.rotate_perm _ _).map some

end turns

/-- **Executors are ordered and take turns.**  While the counter is below `2 ^ 63 - 1`, a call returns the executors it
found, the healthy ones first and each class by its headroom; and of `k` calls in a row that see the same order with `k`
leaders, each leader is first in one. -/
theorem executors_take_turns :
    (∀ (healthy : String → Bool) (live : List Executor) (counter : UInt64), counter.toNat < 2 ^ 63 - 1 →
      ∃ order, (pick healthy live counter).1 = some order ∧ order.Perm live ∧ order.Pairwise (preferred healthy)) ∧
    ∀ (xs : List PickCall) (sorted : List Executor) (counter : UInt64), (∀ x ∈ xs, x.Sees sorted xs.length) →
      counter.toNat + xs.length ≤ 2 ^ 63 - 1 →
      (firsts xs counter).Perm ((sorted.take xs.length).map some) ∧
      ((sorted.map (·.executorId)).Nodup → ∀ y ∈ sorted.take xs.length, (firsts xs counter).count (some y) = 1) := by
  refine ⟨fun healthy live counter h => ?_, fun xs sorted counter hsees hle => ?_⟩
  · exact ⟨_, pick_eq h, ranked_perm _, ranked_ordered _⟩
  · have hperm := firsts_perm hsees rfl hle
    refine ⟨hperm, fun hnodup y hy => ?_⟩
    rw [hperm.count_eq]
    have htake : ((sorted.take xs.length).map some).Nodup :=
      (hnodup.of_map.sublist (List.take_sublist _ _)).map (Option.some_injective _)
    exact List.count_eq_one_of_mem htake (List.mem_map_of_mem hy)

/-- Two idle executors and a busy one, as two calls of a new engine see them. -/
def idlePair : PickCall where
  healthy _ := true
  live := [⟨"a", "", "", 4, 0, ["handler"], 0⟩, ⟨"b", "", "", 2, 1, ["handler"], 0⟩,
    ⟨"c", "", "", 4, 0, ["handler"], 0⟩]

theorem executors_take_turns_idle : ∀ x ∈ (idlePair.live.insertionSort (preferred idlePair.healthy)).take 2,
    (firsts [idlePair, idlePair] 0).count (some x) = 1 := by
  have hsees : ∀ x ∈ [idlePair, idlePair], x.Sees (idlePair.live.insertionSort (preferred idlePair.healthy)) 2 := by
    intro x hx
    obtain rfl : x = idlePair := by simpa using hx
    exact ⟨rfl, by decide⟩
  exact (executors_take_turns.2 [idlePair, idlePair] _ 0 hsees (by decide)).2 (by decide)

end GoJob
