import Mathlib
/-!
# Table — rows under a primary key

A relational table is a list of rows no two of which share a key, and the distinctness travels with the table.  An
`UPDATE` maps the rows its predicate selects and keeps every key; what a client learns from it is how many rows
*changed*, not how many matched (`changed`).  A predicate that pins the key selects at most one row, so such an update
either modifies that row or does nothing at all (`update_at_eq_modify`, `update_at_eq_self`).
-/
namespace Rel

/-- A list of rows with pairwise distinct primary keys. -/
structure Table {κ ρ : Type} (key : ρ → κ) where
  rows  : List ρ
  nodup : (rows.map key).Nodup

namespace Table

variable {κ ρ : Type} {key : ρ → κ}

def empty : Table key := ⟨[], List.nodup_nil⟩

theorem ext_of {t u : Table key} (h : t.rows = u.rows) : t = u := by
  cases t; cases u; cases h; rfl

theorem eq_of_mem {t : Table key} {r r' : ρ} (h : r ∈ t.rows) (h' : r' ∈ t.rows) (hk : key r = key r') : r = r' :=
  List.inj_on_of_nodup_map t.nodup h h' hk

/-- `UPDATE ... SET f WHERE p`. -/
def update (t : Table key) (p : ρ → Bool) (f : ρ → ρ) (hf : ∀ r, key (f r) = key r) : Table key where
  rows := t.rows.map (fun r => if p r then f r else r)
  nodup := by
    rw [List.map_map, List.map_congr_left (g := key)]
    · exact t.nodup
    · intro r _
      by_cases hp : p r <;> simp [hp, hf]

/-- `DELETE ... WHERE p`. -/
def delete (t : Table key) (p : ρ → Bool) : Table key where
  rows := t.rows.filter (fun r => !p r)
  nodup := t.nodup.sublist (List.Sublist.map key List.filter_sublist)

/-- `INSERT`, of a row whose key is new. -/
def insert (t : Table key) (r : ρ) (h : key r ∉ t.rows.map key) : Table key where
  rows := t.rows ++ [r]
  nodup := by
    rw [List.map_append, List.nodup_append]
    refine ⟨t.nodup, by simp, ?_⟩
    intro a ha b hb hab
    rw [List.map_singleton, List.mem_singleton] at hb
    exact h (hb ▸ hab ▸ ha)

variable [DecidableEq κ]

/-- `SELECT ... WHERE key = k`. -/
def get? (t : Table key) (k : κ) : Option ρ := t.rows.find? (fun r => key r = k)

theorem get?_eq_some {t : Table key} {k : κ} {r : ρ} : t.get? k = some r ↔ r ∈ t.rows ∧ key r = k := by
  constructor
  · intro h
    exact ⟨List.mem_of_find?_eq_some h, by simpa using List.find?_some h⟩
  · rintro ⟨hr, hk⟩
    cases hg : t.get? k with
    | none => exact absurd hk (by simpa using List.find?_eq_none.1 hg r hr)
    | some x =>
      have hx : key x = k := by simpa using List.find?_some hg
      rw [eq_of_mem (List.mem_of_find?_eq_some hg) hr (hx.trans hk.symm)]

theorem get?_eq_none {t : Table key} {k : κ} : t.get? k = none ↔ ∀ r ∈ t.rows, key r ≠ k := by
  simp [get?, List.find?_eq_none]

theorem get?_eq_none_iff_notMem {t : Table key} {k : κ} : t.get? k = none ↔ k ∉ t.rows.map key := by
  simp [get?_eq_none, List.mem_map]

theorem get?_key {t : Table key} {k : κ} {r : ρ} (h : t.get? k = some r) : key r = k := (get?_eq_some.1 h).2

theorem mem_of_get? {t : Table key} {k : κ} {r : ρ} (h : t.get? k = some r) : r ∈ t.rows := (get?_eq_some.1 h).1

theorem get?_of_mem {t : Table key} {r : ρ} (h : r ∈ t.rows) : t.get? (key r) = some r := get?_eq_some.2 ⟨h, rfl⟩

theorem get?_update (t : Table key) (p : ρ → Bool) (f : ρ → ρ) (hf : ∀ r, key (f r) = key r) (k : κ) :
    (t.update p f hf).get? k = (t.get? k).map (fun r => if p r then f r else r) := by
  have hkey : ∀ r, key (if p r then f r else r) = key r := fun r => by by_cases hp : p r <;> simp [hp, hf]
  unfold get? update
  rw [List.find?_map]
  congr 2
  funext r
  simp [hkey]

theorem get?_delete (t : Table key) (p : ρ → Bool) (k : κ) :
    (t.delete p).get? k = (t.get? k).filter (fun r => !p r) := by
  cases hg : t.get? k with
  | none =>
    refine get?_eq_none.2 (fun r hr => get?_eq_none.1 hg r ?_)
    exact (List.mem_filter.1 hr).1
  | some r =>
    obtain ⟨hr, hk⟩ := get?_eq_some.1 hg
    rw [Option.filter_some]
    split
    · rename_i hp
      exact get?_eq_some.2 ⟨List.mem_filter.2 ⟨hr, hp⟩, hk⟩
    · rename_i hp
      refine get?_eq_none.2 (fun x hx hxk => hp ?_)
      obtain ⟨hx, hpx⟩ := List.mem_filter.1 hx
      rwa [eq_of_mem hr hx (hk.trans hxk.symm)]

theorem get?_insert (t : Table key) (r : ρ) (h : key r ∉ t.rows.map key) (k : κ) :
    (t.insert r h).get? k = if key r = k then some r else t.get? k := by
  split
  · rename_i hk
    exact get?_eq_some.2 ⟨List.mem_append_right _ (List.mem_singleton_self r), hk⟩
  · rename_i hk
    unfold get? insert
    rw [List.find?_append]
    simp [hk]

/-- `INSERT ... ON DUPLICATE KEY UPDATE`, of a whole row. -/
def upsert (t : Table key) (r : ρ) : Table key :=
  (t.delete (fun x => decide (key x = key r))).insert r (by simp [delete])

theorem get?_upsert (t : Table key) (r : ρ) (k : κ) :
    (t.upsert r).get? k = if key r = k then some r else t.get? k := by
  unfold upsert
  rw [get?_insert, get?_delete]
  split
  · rfl
  · rename_i hk
    cases hg : t.get? k with
    | none => rfl
    | some x =>
      rw [Option.filter_some, if_pos]
      simp [get?_key hg, Ne.symm hk]

theorem mem_upsert {t : Table key} {r x : ρ} (h : x ∈ (t.upsert r).rows) : x ∈ t.rows ∨ x = r := by
  rcases List.mem_append.1 h with h | h
  · exact .inl (List.mem_filter.1 h).1
  · exact .inr (List.mem_singleton.1 h)

theorem length_upsert_le (t : Table key) (r : ρ) : (t.upsert r).rows.length ≤ t.rows.length + 1 := by
  show ((t.rows.filter _) ++ [r]).length ≤ _
  rw [List.length_append]
  exact Nat.add_le_add_right (List.length_filter_le ..) 1

/-- Rows written over a table: one of theirs is found under its key, and the table's own under any other. -/
theorem get?_foldl_upsert (t : Table key) {rows : List ρ} (h : (rows.map key).Nodup) (k : κ) :
    (rows.foldl upsert t).get? k = (rows.find? (fun r => key r = k)).or (t.get? k) := by
  induction rows generalizing t with
  | nil => rfl
  | cons r rows ih =>
    obtain ⟨hr, h⟩ := List.nodup_cons.1 h
    rw [List.foldl_cons, ih (t.upsert r) h, get?_upsert, List.find?_cons]
    by_cases hk : key r = k
    · subst hk
      have hnone : rows.find? (fun x => key x = key r) = none :=
        List.find?_eq_none.2 (fun x hx heq => hr (of_decide_eq_true heq ▸ List.mem_map_of_mem hx))
      simp [hnone]
    · simp [hk]

/-- Deleting the row of one key leaves the others. -/
theorem get?_delete_key_ne (t : Table key) {k k' : κ} (h : k' ≠ k) :
    (t.delete (fun r => decide (key r = k))).get? k' = t.get? k' := by
  rw [get?_delete]
  cases hg : t.get? k' with
  | none => rfl
  | some r =>
    rw [Option.filter_some, get?_key hg, decide_eq_false h]
    rfl

/-! ## The row an update pins by its key -/

/-- An update of the row under `k`, whatever it holds. -/
def modify (t : Table key) (k : κ) (f : ρ → ρ) (hf : ∀ r, key (f r) = key r) : Table key :=
  t.update (fun r => decide (key r = k)) f hf

theorem get?_modify (t : Table key) (k : κ) (f : ρ → ρ) (hf : ∀ r, key (f r) = key r) (k' : κ) :
    (t.modify k f hf).get? k' = if k' = k then (t.get? k).map f else t.get? k' := by
  unfold modify
  rw [get?_update]
  cases hg : t.get? k' with
  | none =>
    by_cases hk : k' = k
    · subst hk; simp [hg]
    · simp [hk]
  | some x =>
    have hx := get?_key hg
    by_cases hk : k' = k
    · subst hk; simp [hg, hx]
    · simp [hk, hx]

/-- A row guard under a pinned key, `WHERE key = k AND g`. -/
def at_ (key : ρ → κ) (k : κ) (g : ρ → Bool) (r : ρ) : Bool := decide (key r = k) && g r

theorem update_at_eq_modify {t : Table key} {k : κ} {r : ρ} {g : ρ → Bool} {f : ρ → ρ}
    (hf : ∀ r, key (f r) = key r) (hr : t.get? k = some r) (hg : g r = true) :
    t.update (at_ key k g) f hf = t.modify k f hf := by
  refine ext_of (List.map_congr_left (fun x hx => ?_))
  by_cases hxk : key x = k
  · have hxr : x = r := eq_of_mem hx (mem_of_get? hr) (hxk.trans (get?_key hr).symm)
    subst hxr
    simp [at_, hxk, hg]
  · simp [at_, hxk]

theorem update_at_eq_self {t : Table key} {k : κ} {g : ρ → Bool} {f : ρ → ρ} (hf : ∀ r, key (f r) = key r)
    (h : ∀ r, t.get? k = some r → g r = false) : t.update (at_ key k g) f hf = t := by
  refine ext_of ?_
  show t.rows.map _ = t.rows
  refine (List.map_congr_left (fun x hx => ?_)).trans (List.map_id' t.rows)
  by_cases hxk : key x = k
  · simp [at_, hxk, h x (get?_eq_some.2 ⟨hx, hxk⟩)]
  · simp [at_, hxk]

theorem countP_at {t : Table key} {k : κ} {r : ρ} {q : ρ → Bool} (hr : t.get? k = some r) (hq : q r = true)
    (hk : ∀ x, q x = true → key x = k) : t.rows.countP q = 1 := by
  have hf : t.rows.filter q = [r] := by
    refine List.perm_singleton.1 ((List.perm_ext_iff_of_nodup ?_ (List.nodup_singleton r)).2 (fun x => ?_))
    · exact (List.Nodup.of_map key t.nodup).filter q
    · rw [List.mem_filter, List.mem_singleton]
      constructor
      · rintro ⟨hx, hqx⟩
        exact eq_of_mem hx (mem_of_get? hr) ((hk x hqx).trans (get?_key hr).symm)
      · rintro rfl
        exact ⟨mem_of_get? hr, hq⟩
  rw [List.countP_eq_length_filter, hf, List.length_singleton]

variable [DecidableEq ρ]

/-- How many rows an update changed: those it selects and gives another value. -/
def changed (t : Table key) (p : ρ → Bool) (f : ρ → ρ) : Nat := t.rows.countP (fun r => p r && decide (f r ≠ r))

theorem changed_at_eq_one {t : Table key} {k : κ} {r : ρ} {g : ρ → Bool} {f : ρ → ρ} (hne : ∀ x, f x ≠ x)
    (hr : t.get? k = some r) (hg : g r = true) : t.changed (at_ key k g) f = 1 := by
  refine countP_at hr ?_ (fun x hx => ?_)
  · simp [at_, get?_key hr, hg, hne r]
  · simp only [at_, Bool.and_eq_true, decide_eq_true_eq] at hx
    exact hx.1.1

theorem changed_at_eq_zero {t : Table key} {k : κ} {g : ρ → Bool} {f : ρ → ρ}
    (h : ∀ r, t.get? k = some r → g r = false) : t.changed (at_ key k g) f = 0 := by
  refine List.countP_eq_zero.2 (fun x hx hq => ?_)
  simp only [at_, Bool.and_eq_true, decide_eq_true_eq] at hq
  have := h x (get?_eq_some.2 ⟨hx, hq.1.1⟩)
  rw [hq.1.2] at this
  cases this

omit [DecidableEq κ] in
theorem exists_of_changed {t : Table key} {p : ρ → Bool} {f : ρ → ρ} (h : t.changed p f ≠ 0) :
    ∃ r ∈ t.rows, p r = true := by
  obtain ⟨r, hr, hp⟩ := List.countP_pos_iff.1 (Nat.pos_of_ne_zero h)
  exact ⟨r, hr, (Bool.and_eq_true _ _ ▸ hp).1⟩

end Table
end Rel
