import GoJob.Binary64
import GoJob.Body
import GoJob.CommitJob
import GoJob.Json
/-!
# Params — from a job's parameters to a `Run` request (`store/admin.go`, `engine/passes.go`, `dispatch/client.go`)

A job's parameters are a JSON object, and a trigger may override some of its members.  `mergeParams` merges the two as
raw messages and touches no number.  `decodeParams` then reads the merged object into a `map[string]any`, where every
number is a `float64`, so an integer of more than 53 bits reaches the executor as its nearest double
(`params_exact_iff`).
-/
namespace GoJob

open Rel

variable {Text : Type}

/-! ## The library -/

/-- `map[string]json.RawMessage`. -/
abbrev RawMembers (Text : Type) := Table (Prod.fst : String × Text → String)

/-- The raw messages are the texts of these members, in any order. -/
def RawMembers.Denote (m : RawMembers Text) (value : Text → Option (Json ℚ)) (ms : List (String × Json ℚ)) : Prop :=
  (m.rows.map (fun r => (r.1, value r.2))).Perm (ms.map (fun x => (x.1, some x.2)))

/-- `encoding/json` and a JSON column.  `value` is what a text means; `members` is `json.Unmarshal` into a
`map[string]json.RawMessage`, where `null` gives the nil map; `marshal` is `json.Marshal` of such a map; `column` is the
text that reads back from the column a text was written to. -/
structure JsonLibrary (Text : Type) where
  length  : Text → Nat
  value   : Text → Option (Json ℚ)
  members : Text → Option (Option (RawMembers Text))
  marshal : RawMembers Text → Except String Text
  column  : Text → Text
  value_empty     : ∀ t, length t = 0 → value t = none
  members_null    : ∀ t, value t = some .null → members t = some none
  members_obj     : ∀ t ms, value t = some (.obj ms) → ∃ m, members t = some (some m) ∧ m.Denote value ms
  marshal_members : ∀ m : RawMembers Text, (∀ r ∈ m.rows, (value r.2).isSome = true) →
    ∃ t ms, marshal m = .ok t ∧ value t = some (.obj ms) ∧ m.Denote value ms
  column_empty    : ∀ t, length t = 0 → length (column t) = 0
  value_column    : ∀ t, value (column t) = value t

namespace JsonLibrary

variable (L : JsonLibrary Text)

/-- `json.Unmarshal` into a `map[string]any`: every number becomes its nearest double, and one out of range is an error.
`null` gives the nil map. -/
def unmarshal (t : Text) : Option (Option (List (String × Json ℚ))) :=
  match L.value t with
  | some .null => some none
  | some (.obj ms) =>
    if ∀ q ∈ (Json.obj ms).nums, Binary64.InRange q then
      some (some (ms.map (fun m => (m.1, m.2.map Binary64.round))))
    else none
  | _ => none

/-! ## The path of the parameters -/

/-- The checks of a job's parameters in `toDefinition`. -/
def acceptJob (t : Text) : Except String Unit :=
  reject (0 < L.length t ∧ maxParamsBytes < L.length t)
    "params must be at most 64 KiB; they are copied onto every execution and sent on every dispatch" <|
  reject (0 < L.length t ∧ (L.unmarshal t).isNone = true) "params must be a JSON object" (.ok ())

/-- The checks of an override in `triggerJob`. -/
def acceptOverride (t : Text) : Except String Unit :=
  reject (0 < L.length t ∧ maxParamsBytes < L.length t)
    ("params must be at most " ++ toString maxParamsBytes ++ " bytes") <|
  reject (0 < L.length t ∧ (L.unmarshal t).isNone = true) "params must be a JSON object" <|
  reject (0 < L.length t ∧ (L.unmarshal t).any Option.isNone = true)
    "params is JSON null; omit it to use the job's defaults" (.ok ())

/-- `for k, v := range top { base[k] = v }`. -/
def overlay (base top : RawMembers Text) : RawMembers Text := top.rows.foldl Table.upsert base

def mergeParams (defaults override : Text) : Except Err Text :=
  if L.length override = 0 then .ok defaults
  else if L.length defaults = 0 then .ok override
  else
    match L.members defaults, L.members override with
    | none, _ => .error ⟨.protocol, "the job's stored parameters are not a JSON object"⟩
    | some _, none => .error ⟨.protocol, "the override is not a JSON object"⟩
    | some _, some none => .error ⟨.protocol, "the override is JSON null, not an object"⟩
    | some base, some (some top) =>
      match L.marshal (overlay (base.getD .empty) top) with
      | .error e => .error ⟨.other, "encode merged parameters: " ++ e⟩
      | .ok out =>
        if maxParamsBytes < L.length out then
          .error ⟨.protocol, "the merged parameters are " ++ toString (L.length out) ++ " bytes; the limit is " ++
            toString maxParamsBytes⟩
        else .ok out

/-- `decodeParams`.  `structpb.NewStruct` has a value of each shape that the decoder produces, so what is decoded is
what the request carries. -/
def decodeParams (raw : Text) : Option (List (String × Json ℚ)) :=
  if L.length raw = 0 then some [] else (L.unmarshal raw).map (·.getD [])

/-! ## What a text configures -/

/-- The members of the object that a text means; an absent text and `null` have none. -/
def object (t : Text) : List (String × Json ℚ) :=
  match L.value t with
  | some (.obj ms) => ms
  | _ => []

/-- The value configured for a name: the override's, or else the default's. -/
def configured (defaults override : Text) (k : String) : Option (Json ℚ) :=
  ((L.object override).lookup k).or ((L.object defaults).lookup k)

/-- A text that can be decoded. -/
def Readable (t : Text) : Prop :=
  L.length t = 0 ∨ L.value t = some .null ∨
    ∃ ms, L.value t = some (.obj ms) ∧ ∀ q ∈ (Json.obj ms).nums, Binary64.InRange q

variable {L} {t defaults override merged : Text}

theorem object_of_obj {ms : List (String × Json ℚ)} (h : L.value t = some (.obj ms)) : L.object t = ms := by
  simp [object, h]

theorem object_of_empty (h : L.length t = 0) : L.object t = [] := by
  simp [object, L.value_empty t h]

theorem object_column (t : Text) : L.object (L.column t) = L.object t := by
  simp [object, L.value_column]

theorem Readable.column (h : L.Readable t) : L.Readable (L.column t) := by
  unfold Readable
  rw [L.value_column]
  exact h.imp_left (L.column_empty t)

theorem unmarshal_some {x : Option (List (String × Json ℚ))} (h : L.unmarshal t = some x) :
    (L.value t = some .null ∧ x = none) ∨
      ∃ ms, L.value t = some (.obj ms) ∧ (∀ q ∈ (Json.obj ms).nums, Binary64.InRange q) ∧
        x = some (ms.map (fun m => (m.1, m.2.map Binary64.round))) := by
  unfold unmarshal at h
  split at h
  · rename_i hv
    exact .inl ⟨hv, (Option.some.inj h).symm⟩
  · rename_i ms hv
    split at h
    · rename_i hr
      exact .inr ⟨ms, hv, hr, (Option.some.inj h).symm⟩
    · cases h
  · cases h

theorem readable_of_acceptJob (h : L.acceptJob t = .ok ()) : L.Readable t := by
  obtain ⟨-, hn, -⟩ : _ ∧ _ ∧ _ := by simpa only [acceptJob, reject_ok] using h
  rcases Nat.eq_zero_or_pos (L.length t) with hz | hpos
  · exact .inl hz
  · obtain ⟨x, hx⟩ : ∃ x, L.unmarshal t = some x := Option.ne_none_iff_exists'.1 (by simpa [hpos] using hn)
    exact .inr ((unmarshal_some hx).imp And.left (fun ⟨ms, hv, hr, _⟩ => ⟨ms, hv, hr⟩))

/-- An override that is accepted is absent or an object. -/
theorem object_of_acceptOverride (h : L.acceptOverride t = .ok ()) :
    L.length t = 0 ∨ ∃ ms, L.value t = some (.obj ms) ∧ ∀ q ∈ (Json.obj ms).nums, Binary64.InRange q := by
  obtain ⟨-, hn, hnull, -⟩ : _ ∧ _ ∧ _ ∧ _ := by simpa only [acceptOverride, reject_ok] using h
  rcases Nat.eq_zero_or_pos (L.length t) with hz | hpos
  · exact .inl hz
  · obtain ⟨x, hx⟩ : ∃ x, L.unmarshal t = some x := Option.ne_none_iff_exists'.1 (by simpa [hpos] using hn)
    rcases unmarshal_some hx with ⟨-, rfl⟩ | ⟨ms, hv, hr, -⟩
    · simp [hpos, hx] at hnull
    · exact .inr ⟨ms, hv, hr⟩

/-- **What can be decoded is sent member by member, with the nearest doubles.** -/
theorem decodeParams_readable (h : L.Readable t) :
    ∃ sent, L.decodeParams t = some sent ∧
      ∀ k, sent.lookup k = ((L.object t).lookup k).map (Json.map Binary64.round) := by
  unfold decodeParams
  by_cases hz : L.length t = 0
  · exact ⟨[], if_pos hz, by simp [object_of_empty hz]⟩
  rw [if_neg hz]
  rcases h with h | h | ⟨ms, hv, hr⟩
  · exact absurd h hz
  · exact ⟨[], by simp [unmarshal, h], by simp [object, h]⟩
  · refine ⟨_, by simp only [unmarshal, hv, if_pos hr]; rfl, fun k => ?_⟩
    rw [object_of_obj hv]
    exact Json.lookup_mapped ..

/-- The numbers that a text with members has in them are in range. -/
theorem Readable.inRange (h : L.Readable t) {k : String} {v : Json ℚ} (hk : (L.object t).lookup k = some v) :
    ∀ q ∈ v.nums, Binary64.InRange q := by
  intro q hq
  rcases h with h | h | ⟨ms, hv, hr⟩
  · simp [object_of_empty h] at hk
  · simp [object, h] at hk
  · rw [object_of_obj hv] at hk
    obtain ⟨before, after, rfl, -⟩ := List.lookup_eq_some_iff.1 hk
    exact hr q (Json.mem_nums_obj.2 ⟨(k, v), by simp, hq⟩)

end JsonLibrary

/-! ## Merging -/

namespace RawMembers.Denote

variable {m : RawMembers Text} {value : Text → Option (Json ℚ)} {ms : List (String × Json ℚ)}

theorem nodup (h : m.Denote value ms) : (ms.map Prod.fst).Nodup := by
  have hp := h.map Prod.fst
  simp only [List.map_map, Function.comp_def] at hp
  exact hp.nodup_iff.1 m.nodup

theorem lookup (h : m.Denote value ms) (k : String) : (m.get? k).map (fun r => value r.2) = (ms.lookup k).map some := by
  ext v
  have := h.mem_iff (a := (k, v))
  simpa [Table.get?_eq_some, Json.lookup_eq_some_iff_mem h.nodup, and_assoc, and_comm] using this

theorem isSome (h : m.Denote value ms) {k : String} {r : String × Text} (hr : m.get? k = some r) :
    (value r.2).isSome = true := by
  have hl := h.lookup k
  rw [hr, Option.map_some, eq_comm, Option.map_eq_some_iff] at hl
  obtain ⟨v, -, hv⟩ := hl
  exact hv ▸ rfl

end RawMembers.Denote

namespace JsonLibrary

variable {L : JsonLibrary Text} {t defaults override merged : Text}

theorem get?_overlay (base top : RawMembers Text) (k : String) :
    (overlay base top).get? k = (top.get? k).or (base.get? k) := Table.get?_foldl_upsert base top.nodup k

/-- `json.Unmarshal` into raw messages finds the members; the nil map has none. -/
theorem members_readable (h : L.Readable t) (hz : L.length t ≠ 0) :
    ∃ m, L.members t = some m ∧ (m.getD .empty).Denote L.value (L.object t) := by
  rcases h with h | h | ⟨ms, hv, -⟩
  · exact absurd h hz
  · exact ⟨none, L.members_null t h, by simp [object, h, RawMembers.Denote, Table.empty]⟩
  · obtain ⟨m, hm, hden⟩ := L.members_obj t ms hv
    exact ⟨some m, hm, by rwa [object_of_obj hv]⟩

/-- **A merge has the override's members and the defaults' others**, each with the value it had. -/
theorem mergeParams_ok (hd : L.Readable defaults)
    (ho : L.length override = 0 ∨
      ∃ ms, L.value override = some (.obj ms) ∧ ∀ q ∈ (Json.obj ms).nums, Binary64.InRange q)
    (h : L.mergeParams defaults override = .ok merged) :
    L.Readable merged ∧ ∀ k, (L.object merged).lookup k = L.configured defaults override k := by
  unfold mergeParams at h
  unfold configured
  by_cases hoz : L.length override = 0
  · rw [if_pos hoz] at h
    cases h
    exact ⟨hd, by simp [object_of_empty hoz]⟩
  have hro : L.Readable override := ho.imp_right .inr
  rw [if_neg hoz] at h
  by_cases hdz : L.length defaults = 0
  · rw [if_pos hdz] at h
    cases h
    exact ⟨hro, by simp [object_of_empty hdz]⟩
  rw [if_neg hdz] at h
  obtain ⟨base, hbase, hdenb⟩ := members_readable hd hdz
  obtain ⟨ms, hv, -⟩ := ho.resolve_left hoz
  obtain ⟨top, htop, hdent⟩ := L.members_obj override ms hv
  rw [← object_of_obj hv] at hdent
  -- every raw message of the merged map came with one of the two
  have hraw : ∀ r ∈ (overlay (base.getD .empty) top).rows, (L.value r.2).isSome = true := by
    intro r hr
    have hg := Table.get?_of_mem hr
    rw [get?_overlay, Option.or_eq_some_iff] at hg
    exact hg.elim hdent.isSome (fun hg => hdenb.isSome hg.2)
  obtain ⟨out, ms', hout, hval, hden⟩ := L.marshal_members _ hraw
  simp only [hbase, htop, hout] at h
  split at h
  · cases h
  cases h
  have hlook : ∀ k, ms'.lookup k = ((L.object override).lookup k).or ((L.object defaults).lookup k) := by
    intro k
    have hk := hden.lookup k
    rw [get?_overlay, Option.map_or, hdent.lookup, hdenb.lookup, ← Option.map_or] at hk
    exact (Option.map_injective (Option.some_injective _) hk).symm
  refine ⟨.inr (.inr ⟨ms', hval, fun q hq => ?_⟩), fun k => by rw [object_of_obj hval, hlook k]⟩
  obtain ⟨m, hm, hq⟩ := Json.mem_nums_obj.1 hq
  have hk := hlook m.1
  rw [(Json.lookup_eq_some_iff_mem hden.nodup).2 hm, eq_comm, Option.or_eq_some_iff] at hk
  exact hk.elim (fun hk => hro.inRange hk q hq) (fun hk => hd.inRange hk.2 q hq)

/-! ## Exactness -/

/-- A number as it should arrive: an integer as it is, and any other number as its nearest double. -/
def faithful (q : ℚ) : ℚ := if q.isInt then q else Binary64.round q

theorem round_eq_faithful_iff {q : ℚ} (h : Binary64.InRange q) :
    Binary64.round q = faithful q ↔ (q.isInt = true → Binary64.IsDouble q) := by
  unfold faithful
  split
  · rename_i hi
    rw [Binary64.round_eq_self_iff h]
    simp [hi]
  · rename_i hi
    simp [hi]

/-- **The parameters arrive exactly if every integer in them, at any depth, is a double.** -/
theorem params_exact_iff (hd : L.acceptJob defaults = .ok ()) (ho : L.acceptOverride override = .ok ())
    (hm : L.mergeParams (L.column defaults) override = .ok merged) :
    ∃ sent, L.decodeParams (L.column merged) = some sent ∧
      ((∀ k, sent.lookup k = (L.configured defaults override k).map (Json.map faithful)) ↔
        ∀ k v, L.configured defaults override k = some v → ∀ q ∈ v.nums, q.isInt = true → Binary64.IsDouble q) := by
  obtain ⟨hr, hlook⟩ := mergeParams_ok (readable_of_acceptJob hd).column (object_of_acceptOverride ho) hm
  obtain ⟨sent, hsent, hl⟩ := decodeParams_readable hr.column
  refine ⟨sent, hsent, forall_congr' (fun k => ?_)⟩
  have hc : (L.object merged).lookup k = L.configured defaults override k := by
    rw [hlook, configured, configured, object_column]
  rw [hl, object_column, hc]
  cases hk : L.configured defaults override k with
  | none => simp
  | some v =>
    have hin := hr.inRange (hc.trans hk)
    rw [Option.map_some, Option.map_some, Option.some.injEq, Json.map_eq_map_iff]
    constructor
    · intro h w hw q hq
      cases hw
      exact (round_eq_faithful_iff (hin q hq)).1 (h q hq)
    · exact fun h q hq => (round_eq_faithful_iff (hin q hq)).2 (h v rfl q hq)

/-- **The run that a trigger creates carries the merge** of its override over the parameters the job has then. -/
theorem trigger_params {L : JsonLibrary String} {env : Env} {c : Ctx} {db db' : DB} {j r x y params : String}
    {k : Option String} {i : Nat} {e : ExecRow} (henv : env.mergeParams = L.mergeParams)
    (h : trigger env c j r x y params db = .ok (k, db')) (hi : db.exec? i = none) (he : db'.exec? i = some e) :
    ∃ d merged, db.def? j = some d ∧ L.mergeParams d.toDefinition.params params = .ok merged ∧
      e.params = nullString merged := by
  rcases trigger_ok h with rfl | ⟨s, d, key, merged, i', -, hd, -, hmerged, -, -, -, hon⟩
  · rw [hi] at he
    cases he
  · rw [hon.execs i] at he
    split at he
    · cases he
      exact ⟨d, merged, hd, henv ▸ hmerged, rfl⟩
    · rw [hi] at he
      cases he

/-! ## A library whose texts are values -/

/-- No two members of an object in the value share a name. -/
def distinct : Json ℚ → Bool :=
  Json.fold { null := true, bool := fun _ => true, num := fun _ => true, str := fun _ => true,
              arr := fun vs => vs.all id,
              obj := fun ms => decide (ms.map Prod.fst).Nodup && ms.all Prod.snd }

theorem distinct_obj {ms : List (String × Json ℚ)} :
    distinct (.obj ms) = true ↔ (ms.map Prod.fst).Nodup ∧ ∀ m ∈ ms, distinct m.2 = true := by
  unfold distinct
  simp [Function.comp_def]

/-- The raw messages of an object. -/
def rawMembers : Json ℚ → Option (Option (RawMembers (Option (Json ℚ))))
  | .null => some none
  | .obj ms =>
    if h : (ms.map Prod.fst).Nodup then
      some (some ⟨ms.map (fun m => (m.1, some m.2)), by simpa [Function.comp_def] using h⟩)
    else none
  | _ => none

theorem rows_of_values {rows : List (String × Option (Json ℚ))} (h : ∀ r ∈ rows, (r.2.filter distinct).isSome = true) :
    ∃ ms : List (String × Json ℚ), rows = ms.map (fun x => (x.1, some x.2)) ∧ ∀ x ∈ ms, distinct x.2 = true := by
  induction rows with
  | nil => exact ⟨[], rfl, by simp⟩
  | cons r rows ih =>
    obtain ⟨hr, h⟩ := List.forall_mem_cons.1 h
    obtain ⟨ms, rfl, hall⟩ := ih h
    obtain ⟨v, hv⟩ := Option.isSome_iff_exists.1 hr
    obtain ⟨hrv, hdist⟩ := Option.filter_eq_some_iff.1 hv
    exact ⟨(r.1, v) :: ms, by rw [List.map_cons, ← hrv], List.forall_mem_cons.2 ⟨hdist, hall⟩⟩

/-- Every text is a value or empty. -/
def ofValues : JsonLibrary (Option (Json ℚ)) where
  length t := if t.isSome then 1 else 0
  value t := t.filter distinct
  members t := (t.filter distinct).bind rawMembers
  marshal m := .ok (some (.obj (m.rows.filterMap (fun r => r.2.map (fun v => (r.1, v))))))
  column t := t
  value_empty t h := by
    cases t with
    | none => rfl
    | some v => simp at h
  members_null t h := by
    rw [h]
    rfl
  members_obj t ms h := by
    obtain ⟨rfl, hdist⟩ : t = some (.obj ms) ∧ distinct (.obj ms) = true := by
      simpa [Option.filter_eq_some_iff] using h
    obtain ⟨hnodup, hall⟩ := distinct_obj.1 hdist
    refine ⟨_, by rw [h, Option.bind_some, rawMembers, dif_pos hnodup], ?_⟩
    unfold RawMembers.Denote
    rw [List.map_map]
    refine List.Perm.of_eq (List.map_congr_left (fun m hm => ?_))
    simp [hall m hm]
  marshal_members m h := by
    obtain ⟨ms, hms, hall⟩ := rows_of_values h
    have hread : m.rows.filterMap (fun r => r.2.map (fun v => (r.1, v))) = ms := by
      rw [hms, List.filterMap_map]
      exact (List.filterMap_congr (fun x _ => rfl)).trans List.filterMap_some
    have hnodup : (ms.map Prod.fst).Nodup := by simpa [hms, Function.comp_def] using m.nodup
    refine ⟨_, ms, rfl, ?_, List.Perm.of_eq ?_⟩
    · rw [hread]
      exact Option.filter_eq_some_iff.2 ⟨rfl, distinct_obj.2 ⟨hnodup, hall⟩⟩
    · rw [hms, List.map_map]
      exact List.map_congr_left (fun x hx => by simp [hall x hx])
  column_empty t h := h
  value_column t := rfl

def regional : Option (Json ℚ) := some (.obj [("region", .str "PH"), ("batch", .num 500)])

def smallBatch : Option (Json ℚ) := some (.obj [("batch", .num 100)])

/-- The override of the batch leaves the region, and both arrive as they were written. -/
theorem params_exact_iff_batch :
    ∃ sent, ofValues.decodeParams (some (.obj [("region", .str "PH"), ("batch", .num 100)])) = some sent ∧
      ∀ k, sent.lookup k = (ofValues.configured regional smallBatch k).map (Json.map faithful) := by
  have hd : ofValues.acceptJob regional = .ok () := by decide +kernel
  have ho : ofValues.acceptOverride smallBatch = .ok () := by decide +kernel
  obtain ⟨sent, hsent, hiff⟩ := params_exact_iff hd ho rfl
  refine ⟨sent, hsent, hiff.2 (fun k v hv q hq _ => ?_)⟩
  have hbatch : q = ((100 : ℤ) : ℚ) := by
    have hv : (List.lookup k [("batch", Json.num 100)]).or
        (List.lookup k [("region", Json.str "PH"), ("batch", Json.num 500)]) = some v := hv
    by_cases hb : k = "batch"
    · subst hb
      cases hv
      simpa using hq
    · by_cases hr : k = "region"
      · subst hr
        cases hv
        simp at hq
      · simp [List.lookup_cons, beq_false_of_ne hb, beq_false_of_ne hr] at hv
  rw [hbatch]
  exact Binary64.isDouble_intCast (by decide)

/-- An account number of 54 bits: accepted, stored and sent as its neighbour. -/
def ledger : Option (Json ℚ) := some (.obj [("account", .num 9007199254740993)])

theorem account_rounded :
    ofValues.acceptJob ledger = .ok () ∧ ofValues.acceptOverride none = .ok () ∧
      ofValues.mergeParams (ofValues.column ledger) none = .ok ledger ∧
      ofValues.configured ledger none "account" = some (.num 9007199254740993) ∧
      ∃ sent, ofValues.decodeParams (ofValues.column ledger) = some sent ∧
        sent.lookup "account" = some (.num 9007199254740992) := by
  have hd : ofValues.acceptJob ledger = .ok () := by decide +kernel
  obtain ⟨sent, hsent, hl⟩ := decodeParams_readable (readable_of_acceptJob hd).column
  have hround : Binary64.round 9007199254740993 = 9007199254740992 := by decide +kernel
  refine ⟨hd, by decide +kernel, rfl, rfl, sent, hsent, (hl "account").trans ?_⟩
  exact congrArg (fun q => some (Json.num q)) hround

end JsonLibrary
end GoJob
