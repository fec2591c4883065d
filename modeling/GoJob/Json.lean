import Mathlib
/-!
# Json — values, and their numbers

A JSON value over a type of numbers.  Everything about the numbers of a value goes through the one recursion `fold`:
`map` puts others in their place and `nums` lists them, at any depth, so two functions give the same value exactly if
they agree on the numbers in it (`map_eq_map_iff`).
-/

/-- A JSON value with its numbers in `N`. -/
inductive Json (N : Type)
  | null
  | bool (b : Bool)
  | num (n : N)
  | str (s : String)
  | arr (vs : List (Json N))
  | obj (ms : List (String × Json N))

namespace Json

variable {N M A : Type}

/-! ## Recursion and induction -/

/-- What a recursion makes of each kind of value, given what it made of the parts. -/
structure Algebra (N A : Type) where
  null : A
  bool : Bool → A
  num  : N → A
  str  : String → A
  arr  : List A → A
  obj  : List (String × A) → A

mutual

def fold (a : Algebra N A) : Json N → A
  | null   => a.null
  | bool b => a.bool b
  | num n  => a.num n
  | str s  => a.str s
  | arr vs => a.arr (foldList a vs)
  | obj ms => a.obj (foldMembers a ms)

def foldList (a : Algebra N A) : List (Json N) → List A
  | []      => []
  | v :: vs => fold a v :: foldList a vs

def foldMembers (a : Algebra N A) : List (String × Json N) → List (String × A)
  | []      => []
  | m :: ms => (m.1, fold a m.2) :: foldMembers a ms

end

@[simp] theorem fold_arr (a : Algebra N A) (vs : List (Json N)) : fold a (arr vs) = a.arr (vs.map (fold a)) := by
  have h : foldList a vs = vs.map (fold a) := by
    induction vs with
    | nil => rfl
    | cons v vs ih => simp [foldList, ih]
  rw [fold, h]

@[simp] theorem fold_obj (a : Algebra N A) (ms : List (String × Json N)) :
    fold a (obj ms) = a.obj (ms.map (fun m => (m.1, fold a m.2))) := by
  have h : foldMembers a ms = ms.map (fun m => (m.1, fold a m.2)) := by
    induction ms with
    | nil => rfl
    | cons m ms ih => simp [foldMembers, ih]
  rw [fold, h]

/-- Induction on a value: what holds of all parts of a value holds of the value. -/
theorem induct {P : Json N → Prop} (null : P null) (bool : ∀ b, P (bool b)) (num : ∀ n, P (num n))
    (str : ∀ s, P (str s)) (arr : ∀ vs, (∀ v ∈ vs, P v) → P (arr vs))
    (obj : ∀ ms, (∀ m ∈ ms, P m.2) → P (obj ms)) (v : Json N) : P v := by
  refine @Json.rec N P (fun vs => ∀ v ∈ vs, P v) (fun ms => ∀ m ∈ ms, P m.2) (fun m => P m.2)
    null bool num str arr obj ?_ ?_ ?_ ?_ ?_ v
  · simp
  · intro v vs hv hvs
    exact List.forall_mem_cons.2 ⟨hv, hvs⟩
  · simp
  · intro m ms hm hms
    exact List.forall_mem_cons.2 ⟨hm, hms⟩
  · intro k v hv
    exact hv

/-! ## The numbers of a value -/

/-- The value with other numbers. -/
def map (f : N → M) : Json N → Json M :=
  fold { null := null, bool := bool, num := fun n => num (f n), str := str, arr := arr, obj := obj }

@[simp] theorem map_null (f : N → M) : map f null = null := rfl
@[simp] theorem map_bool (f : N → M) (b : Bool) : map f (bool b) = bool b := rfl
@[simp] theorem map_num (f : N → M) (n : N) : map f (num n) = num (f n) := rfl
@[simp] theorem map_str (f : N → M) (s : String) : map f (str s) = str s := rfl

@[simp] theorem map_arr (f : N → M) (vs : List (Json N)) : map f (arr vs) = arr (vs.map (map f)) := fold_arr ..

@[simp] theorem map_obj (f : N → M) (ms : List (String × Json N)) :
    map f (obj ms) = obj (ms.map (fun m => (m.1, map f m.2))) := fold_obj ..

/-- The numbers in a value, at any depth. -/
def nums : Json N → List N :=
  fold { null := [], bool := fun _ => [], num := fun n => [n], str := fun _ => [],
         arr := List.flatten, obj := fun ms => (ms.map Prod.snd).flatten }

@[simp] theorem nums_null : nums (null : Json N) = [] := rfl
@[simp] theorem nums_bool (b : Bool) : nums (bool b : Json N) = [] := rfl
@[simp] theorem nums_num (n : N) : nums (num n) = [n] := rfl
@[simp] theorem nums_str (s : String) : nums (str s : Json N) = [] := rfl

@[simp] theorem mem_nums_arr {vs : List (Json N)} {n : N} : n ∈ nums (arr vs) ↔ ∃ v ∈ vs, n ∈ nums v := by
  unfold nums
  simp

@[simp] theorem mem_nums_obj {ms : List (String × Json N)} {n : N} : n ∈ nums (obj ms) ↔ ∃ m ∈ ms, n ∈ nums m.2 := by
  unfold nums
  simp

/-- **Two functions give the same value exactly if they agree on its numbers.** -/
theorem map_eq_map_iff {f g : N → M} (v : Json N) : map f v = map g v ↔ ∀ n ∈ nums v, f n = g n := by
  induction v using induct with
  | null => simp
  | bool b => simp
  | num n => simp
  | str s => simp
  | arr vs ih =>
    rw [map_arr, map_arr, arr.injEq, List.map_inj_left]
    simp only [mem_nums_arr, forall_exists_index, and_imp]
    exact ⟨fun h n v hv hn => (ih v hv).1 (h v hv) n hn, fun h v hv => (ih v hv).2 (fun n hn => h n v hv hn)⟩
  | obj ms ih =>
    rw [map_obj, map_obj, obj.injEq, List.map_inj_left]
    simp only [mem_nums_obj, forall_exists_index, and_imp, Prod.mk.injEq, true_and]
    exact ⟨fun h n m hm hn => (ih m hm).1 (h m hm) n hn, fun h m hm => (ih m hm).2 (fun n hn => h n m hm hn)⟩

/-! ## Members -/

theorem lookup_mapped (f : N → M) (ms : List (String × Json N)) (k : String) :
    (ms.map (fun m => (m.1, map f m.2))).lookup k = (ms.lookup k).map (map f) := by
  induction ms with
  | nil => rfl
  | cons m ms ih =>
    obtain ⟨x, v⟩ := m
    rw [List.map_cons, List.lookup_cons, List.lookup_cons, ih]
    cases k == x <;> rfl

/-- Under distinct names, the member of a name is the one that is found. -/
theorem lookup_eq_some_iff_mem {A : Type} {ms : List (String × A)} (h : (ms.map Prod.fst).Nodup) {k : String} {v : A} :
    ms.lookup k = some v ↔ (k, v) ∈ ms := by
  induction ms with
  | nil => simp
  | cons m ms ih =>
    obtain ⟨x, w⟩ := m
    obtain ⟨hx, h⟩ := List.nodup_cons.1 h
    rw [List.lookup_cons, List.mem_cons, Prod.mk.injEq]
    by_cases hk : k = x
    · subst hk
      have hmem : (k, v) ∉ ms := fun hm => hx (List.mem_map.2 ⟨_, hm, rfl⟩)
      simp [hmem, eq_comm]
    · rw [beq_false_of_ne hk]
      simp [hk, ih h]

end Json
