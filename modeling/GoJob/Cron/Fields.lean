import GoJob.Cron.Parse
/-!
# Cron.Fields — what a field means

The loop that fills a field's set marks an arithmetic progression, unless its counter wraps around: then it leaves the
set, and the program stops.  An expression that is read has the sets its elements denote.
-/
namespace GoJob
namespace Cron

variable {f : Field} {set set' : Bits f.size} {s : Step} {part : Text}

@[simp] theorem isSet_replicate (n i : Nat) : isSet (Vector.replicate n false) i = false := by
  unfold isSet
  by_cases h : i < n
  · simp [h]
  · simp [h]

theorem isSet_set {n i j : Nat} (set : Bits n) (h : i < n) :
    isSet (set.set i true h) j = (isSet set j || decide (j = i)) := by
  unfold isSet
  rw [Vector.getElem?_set]
  by_cases hij : j = i
  · simp [hij]
  · simp [hij, Ne.symm hij]

/-! ## The loop -/

/-- The values `a`, `a + k`, `a + 2 k` and so on, up to `b`. -/
def Progression (a b k v : Int) : Prop := a ≤ v ∧ v ≤ b ∧ k ∣ v - a

instance (a b k v : Int) : Decidable (Progression a b k v) := by unfold Progression; infer_instance

theorem progression_step {a b k v : Int} (hk : 1 ≤ k) (hab : a ≤ b) :
    Progression a b k v ↔ v = a ∨ Progression (a + k) b k v := by
  unfold Progression
  constructor
  · rintro ⟨h₁, h₂, c, hc⟩
    by_cases hv : v = a
    · exact Or.inl hv
    · right
      have hpos : 1 ≤ c := by
        by_contra hlt
        have : k * c ≤ 0 := mul_nonpos_of_nonneg_of_nonpos (by omega) (by omega)
        omega
      refine ⟨?_, h₂, c - 1, by rw [mul_sub, mul_one]; omega⟩
      have : k * 1 ≤ k * c := mul_le_mul_of_nonneg_left hpos (by omega)
      omega
  · rintro (rfl | ⟨h₁, h₂, c, hc⟩)
    · exact ⟨le_refl _, hab, by simp⟩
    · exact ⟨by omega, h₂, c + 1, by rw [mul_add, mul_one]; omega⟩

theorem wrap64_of_lt {x : Int} (h₀ : 0 ≤ x) (h : x < 2 ^ 63) : wrap64 x = x := by
  unfold wrap64
  rw [Int.bmod_def]
  split <;> omega

theorem wrap64_of_le {x : Int} (h : 2 ^ 63 ≤ x) (h' : x < 2 ^ 64) : wrap64 x = x - 2 ^ 64 := by
  unfold wrap64
  rw [Int.bmod_def]
  split <;> omega

/-- **The loop marks a progression**, if its first step stays in 64 bits. -/
theorem fill_ok {top v : Int} (h₀ : 0 ≤ v) (ht : top ≤ f.hi) (hs : v ≤ top → v + s.val < 2 ^ 63) :
    ∃ set', fill f set s top v = .ok set' ∧
      ∀ n : Nat, isSet set' n = (isSet set n || decide (Progression v top s.val n)) := by
  have hb := f.bounds
  have hp := s.pos
  induction hn : (top + 1 - v).toNat using Nat.strong_induction_on generalizing v set with
  | _ n ih =>
    unfold fill
    by_cases hv : v ≤ top
    · have hin : 0 ≤ v ∧ v < f.size := by omega
      have hlt := hs hv
      rw [if_pos hv, dif_pos hin, wrap64_of_lt (by omega) hlt]
      -- A second step is taken only if the first was short.
      obtain ⟨set', hset', hmem⟩ : ∃ set', fill f (set.set v.toNat true (by omega)) s top (v + s.val) = .ok set' ∧ _ :=
        ih (top + 1 - (v + s.val)).toNat (by omega) (by omega) (by omega) rfl
      refine ⟨set', hset', fun k => ?_⟩
      rw [hmem, isSet_set, Bool.or_assoc]
      congr 1
      rw [← Bool.decide_or, decide_eq_decide, progression_step hp hv]
      have : k = v.toNat ↔ (k : Int) = v := by omega
      rw [this]
    · rw [if_neg hv]
      refine ⟨set, rfl, fun k => ?_⟩
      have hno : ¬ Progression v top s.val k := fun h => hv (le_trans h.1 h.2.1)
      simp [hno]

/-- **The loop leaves the set** if its first step does not stay in 64 bits: the counter is negative then. -/
theorem fill_panic {top v : Int} (h₀ : 0 ≤ v) (hv : v ≤ top) (ht : top ≤ f.hi) (hs : 2 ^ 63 ≤ v + s.val) :
    fill f set s top v = .error (.panic (v + s.val - 2 ^ 64) f.size) := by
  have hb := f.bounds
  have hf := s.fits
  unfold fill
  rw [if_pos hv, dif_pos (by omega), wrap64_of_le hs (by omega)]
  unfold fill
  rw [if_pos (by omega), dif_neg (by omega)]

/-! ## Elements -/

theorem bind_ok {α β : Type} {x : Except Stop α} {g : α → Except Stop β} {b : β} :
    x >>= g = .ok b ↔ ∃ a, x = .ok a ∧ g a = .ok b := by
  cases x with
  | error e => simp [Bind.bind, Except.bind]
  | ok a => simp [Bind.bind, Except.bind]

theorem names_bounds {t : String} {v : Int} (h : f.names.lookup t = some v) : f.lo ≤ v ∧ v ≤ f.hi := by
  have key : ∀ f : Field, ∀ x ∈ f.names, f.lo ≤ x.2 ∧ x.2 ≤ f.hi := by
    intro f
    cases f <;> decide
  obtain ⟨l₁, l₂, hl, -⟩ := List.lookup_eq_some_iff.1 h
  exact key f (t, v) (by rw [hl]; simp)

theorem atom_bounds {t : Text} {v : Int} (h : atom f t = .ok v) : f.lo ≤ v ∧ v ≤ f.hi := by
  unfold atom at h
  dsimp only at h
  split at h
  · rename_i hn
    cases h
    exact names_bounds hn
  · split at h
    · cases h
    · split at h
      · cases h
      · rename_i hv
        cases h
        omega

theorem atom_star {v : Int} : atom f ['*'] ≠ .ok v := by
  cases f <;> exact fun h => by cases h

theorem cut_of_not_mem {c : Char} {t : Text} (h : c ∉ t) : cut c t = (t, none) := by
  have hall : ∀ x ∈ t, decide (x ≠ c) = true := fun x hx => by
    simp only [decide_eq_true_eq]
    rintro rfl
    exact h hx
  unfold cut
  rw [List.takeWhile_eq_self_iff.2 hall, List.dropWhile_eq_nil_iff.2 hall]
  rfl

theorem cut_append {c : Char} {a b : Text} (h : c ∉ a) : cut c (a ++ c :: b) = (a, some b) := by
  have hall : ∀ x ∈ a, decide (x ≠ c) = true := fun x hx => by
    simp only [decide_eq_true_eq]
    rintro rfl
    exact h hx
  unfold cut
  rw [List.takeWhile_append_of_pos hall, List.dropWhile_append_of_pos hall]
  simp

/-- A text is cut in no other way. -/
theorem cut_cases (c : Char) (t : Text) :
    (c ∉ t ∧ cut c t = (t, none)) ∨ ∃ a b, c ∉ a ∧ t = a ++ c :: b ∧ cut c t = (a, some b) := by
  by_cases h : c ∈ t
  · right
    obtain ⟨a, b, rfl, ha⟩ := List.eq_append_cons_of_mem h
    exact ⟨a, b, ha, rfl, cut_append ha⟩
  · exact Or.inl ⟨h, cut_of_not_mem h⟩

/-- What an element can be. -/
inductive Form
  | all (s : Step)
  | between (a b : Int) (s : Step)
  | value (v : Int)
  | every (v : Int) (s : Step)

/-- A text, with a step behind it or not: no step is a step of 1. -/
inductive Stepped (f : Field) (x : Text) : Text → Step → Prop
  | plain : Stepped f x x .one
  | slash {t : Text} {s : Step} (h : step f t = .ok s) : Stepped f x (x ++ '/' :: t) s

/-- **The elements of a list**: `*`, `a-b`, `*/s`, `a-b/s`, `v` and `v/s`. -/
inductive Reads (f : Field) : Text → Form → Prop
  | all {t : Text} {s : Step} (h : Stepped f ['*'] t s) : Reads f t (.all s)
  | between {x y t : Text} {a b : Int} {s : Step} (hx : '-' ∉ x) (hslash : '/' ∉ x ++ '-' :: y)
      (ha : atom f x = .ok a) (hb : atom f y = .ok b) (hab : a ≤ b) (h : Stepped f (x ++ '-' :: y) t s) :
      Reads f t (.between a b s)
  | value {x : Text} {v : Int} (hx : '-' ∉ x) (hslash : '/' ∉ x) (hv : atom f x = .ok v) : Reads f x (.value v)
  | every {x t : Text} {v : Int} {s : Step} (hx : '-' ∉ x) (hslash : '/' ∉ x) (hv : atom f x = .ok v)
      (h : step f t = .ok s) : Reads f (x ++ '/' :: t) (.every v s)

namespace Form

/-- What an element denotes: `v/s` is `v-max/s`. -/
def Denotes (f : Field) : Form → Int → Prop
  | all s         => Progression f.lo f.hi s.val
  | between a b s => Progression a b s.val
  | value v       => (· = v)
  | every v s     => Progression v f.hi s.val

/-- Where the loop begins and ends. -/
def loop (f : Field) : Form → Int × Int × Step
  | all s         => (f.lo, f.hi, s)
  | between a b s => (a, b, s)
  | value v       => (v, v, .one)
  | every v s     => (v, if 1 < s.val then f.hi else v, s)

/-- The form is `v/1`. -/
def Lone (v : Int) : Form → Prop
  | every w s => w = v ∧ s.val = 1
  | _ => False

end Form

theorem element_plain {x : Text} (hne : x ≠ []) (hslash : '/' ∉ x) :
    element f x = (do let ab ← range f x .one; return (ab.1, ab.2, .one)) := by
  unfold element
  rw [if_neg hne, cut_of_not_mem hslash]
  rfl

theorem element_slash {x t : Text} (hslash : '/' ∉ x) :
    element f (x ++ '/' :: t) = (do let s ← step f t; let ab ← range f x s; return (ab.1, ab.2, s)) := by
  unfold element
  rw [if_neg (by simp), cut_append hslash]

theorem element_of_stepped {x t : Text} {a b : Int} (hne : x ≠ []) (hslash : '/' ∉ x) (h : Stepped f x t s)
    (hr : range f x s = .ok (a, b)) : element f t = .ok (a, b, s) := by
  cases h with
  | plain =>
    rw [element_plain hne hslash]
    exact bind_ok.2 ⟨(a, b), hr, rfl⟩
  | slash h =>
    rw [element_slash hslash]
    exact bind_ok.2 ⟨s, h, bind_ok.2 ⟨(a, b), hr, rfl⟩⟩

theorem ne_star_of_atom {x : Text} {v : Int} (h : atom f x = .ok v) : x ≠ ['*'] := by
  rintro rfl
  exact atom_star h

theorem ne_nil_of_atom {x : Text} {v : Int} (h : atom f x = .ok v) : x ≠ [] := by
  rintro rfl
  revert h
  cases f <;> exact fun h => by cases h

theorem range_value {x : Text} {v : Int} (hx : '-' ∉ x) (hv : atom f x = .ok v) :
    range f x s = .ok (v, if 1 < s.val then f.hi else v) := by
  unfold range
  rw [if_neg (ne_star_of_atom hv), cut_of_not_mem hx]
  exact bind_ok.2 ⟨v, hv, rfl⟩

theorem range_dash {x y : Text} (hx : '-' ∉ x) :
    range f (x ++ '-' :: y) s = (do
      let a ← atom f x
      let b ← atom f y
      if b < a then .error (.error ("cron " ++ f.name ++ ": range " ++ (String.ofList (x ++ '-' :: y)).quote ++
        " is inverted"))
      else return (a, b)) := by
  have hstar : x ++ '-' :: y ≠ ['*'] := fun h => by
    have : '-' ∈ ['*'] := h ▸ by simp
    revert this
    decide
  unfold range
  rw [if_neg hstar, cut_append hx]

theorem range_between {x y : Text} {a b : Int} (hx : '-' ∉ x) (ha : atom f x = .ok a) (hb : atom f y = .ok b)
    (hab : a ≤ b) : range f (x ++ '-' :: y) s = .ok (a, b) := by
  rw [range_dash hx]
  exact bind_ok.2 ⟨a, ha, bind_ok.2 ⟨b, hb, by rw [if_neg (by omega)]; rfl⟩⟩

/-- The code reads every element as its form says. -/
theorem element_of_reads {φ : Form} (h : Reads f part φ) : element f part = .ok (φ.loop f) := by
  cases h with
  | all h => exact element_of_stepped (by simp) (by decide) h (if_pos rfl)
  | between hx hslash ha hb hab h =>
    exact element_of_stepped (by simp) hslash h (range_between hx ha hb hab)
  | value hx hslash hv => exact element_of_stepped (ne_nil_of_atom hv) hslash .plain (range_value hx hv)
  | every hx hslash hv h => exact element_of_stepped (ne_nil_of_atom hv) hslash (.slash h) (range_value hx hv)

/-- What stands before a step is one of three texts. -/
theorem range_inv {x : Text} {a b : Int} (h : range f x s = .ok (a, b)) :
    (x = ['*'] ∧ a = f.lo ∧ b = f.hi) ∨
      (∃ y z, x = y ++ '-' :: z ∧ '-' ∉ y ∧ atom f y = .ok a ∧ atom f z = .ok b ∧ a ≤ b) ∨
      ('-' ∉ x ∧ atom f x = .ok a ∧ b = if 1 < s.val then f.hi else a) := by
  unfold range at h
  by_cases hstar : x = ['*']
  · rw [if_pos hstar] at h
    cases h
    exact Or.inl ⟨hstar, rfl, rfl⟩
  · rw [if_neg hstar] at h
    obtain ⟨hx, hcut⟩ | ⟨y, z, hy, rfl, hcut⟩ := cut_cases '-' x
    · rw [hcut] at h
      obtain ⟨v, hv, h⟩ := bind_ok.1 h
      cases h
      exact Or.inr (Or.inr ⟨hx, hv, rfl⟩)
    · rw [hcut] at h
      obtain ⟨a', ha, h⟩ := bind_ok.1 h
      obtain ⟨b', hb, h⟩ := bind_ok.1 h
      split at h
      · cases h
      · cases h
        exact Or.inr (Or.inl ⟨y, z, rfl, hy, ha, hb, by omega⟩)

/-- An element the code reads has a form. -/
theorem reads_of_element {x : Int × Int × Step} (h : element f part = .ok x) :
    ∃ φ, Reads f part φ ∧ φ.loop f = x := by
  unfold element at h
  split at h
  · cases h
  obtain ⟨hslash, hcut⟩ | ⟨y, t, hslash, rfl, hcut⟩ := cut_cases '/' part
  · rw [hcut] at h
    obtain ⟨s, hs, h⟩ := bind_ok.1 h
    obtain ⟨⟨a, b⟩, hr, h⟩ := bind_ok.1 h
    cases hs
    cases h
    obtain ⟨rfl, rfl, rfl⟩ | ⟨y, z, rfl, hy, ha, hb, hab⟩ | ⟨hx, hv, rfl⟩ := range_inv hr
    · exact ⟨_, .all .plain, rfl⟩
    · exact ⟨_, .between hy hslash ha hb hab .plain, rfl⟩
    · exact ⟨_, .value hx hslash hv, rfl⟩
  · rw [hcut] at h
    obtain ⟨s, hs, h⟩ := bind_ok.1 h
    obtain ⟨⟨a, b⟩, hr, h⟩ := bind_ok.1 h
    cases h
    obtain ⟨rfl, rfl, rfl⟩ | ⟨y, z, rfl, hy, ha, hb, hab⟩ | ⟨hx, hv, rfl⟩ := range_inv hr
    · exact ⟨_, .all (.slash hs), rfl⟩
    · exact ⟨_, .between hy hslash ha hb hab (.slash hs), rfl⟩
    · exact ⟨_, .every hx hslash hv hs, rfl⟩

/-- The loop of an element stays in its field. -/
theorem element_bounds {a b : Int} (h : element f part = .ok (a, b, s)) : f.lo ≤ a ∧ a ≤ b ∧ b ≤ f.hi := by
  have hb := f.bounds
  obtain ⟨φ, hφ, hl⟩ := reads_of_element h
  cases hφ with
  | all _ =>
    cases hl
    omega
  | between _ _ ha hb' _ _ =>
    cases hl
    have := atom_bounds ha
    have := atom_bounds hb'
    omega
  | value _ _ hv =>
    cases hl
    have := atom_bounds hv
    omega
  | every _ _ hv _ =>
    cases hl
    have := atom_bounds hv
    split <;> omega

/-! ## Lists -/

/-- An element the code can read. -/
def Readable (f : Field) (part : Text) : Prop := ∃ x, element f part = .ok x

/-- An element whose step is so large that the first one leaves the 64 bits. -/
def Overflows (f : Field) (part : Text) : Prop :=
  ∃ a b s, element f part = .ok (a, b, s) ∧ 2 ^ 63 ≤ a + s.val

/-- An overflowing element stands before every element that cannot be read. -/
def OverflowReached : List (Field × Text) → Prop
  | [] => False
  | (f, part) :: rest => Overflows f part ∨ (Readable f part ∧ OverflowReached rest)

theorem overflowReached_append {l m : List (Field × Text)} :
    OverflowReached (l ++ m) ↔ OverflowReached l ∨ ((∀ x ∈ l, Readable x.1 x.2) ∧ OverflowReached m) := by
  induction l with
  | nil => simp [OverflowReached]
  | cons x l ih =>
    simp only [List.cons_append, OverflowReached, ih, List.forall_mem_cons]
    tauto

/-- **How reading the elements `l` ends**: the program stops at the first that overflows, an error names the first that
cannot be read, and otherwise `P` holds of what was read. -/
inductive Outcome {α : Type} (l : List (Field × Text)) (P : α → Prop) : Except Stop α → Prop
  | panic {i : Int} {n : Nat} (h : OverflowReached l) : Outcome l P (.error (.panic i n))
  | error {d : String} (h : ¬ OverflowReached l) (hr : ¬ ∀ x ∈ l, Readable x.1 x.2) : Outcome l P (.error (.error d))
  | ok {a : α} (h : ¬ OverflowReached l) (hr : ∀ x ∈ l, Readable x.1 x.2) (ha : P a) : Outcome l P (.ok a)

namespace Outcome

variable {α β : Type} {l m : List (Field × Text)} {P : α → Prop} {Q : β → Prop}

theorem pure {a : α} (h : P a) : Outcome [] P (.ok a) := .ok id (by simp) h

theorem bind {x : Except Stop α} {g : α → Except Stop β} (hx : Outcome l P x) (hg : ∀ a, P a → Outcome m Q (g a)) :
    Outcome (l ++ m) Q (x >>= g) := by
  cases hx with
  | panic h => exact .panic (overflowReached_append.2 (Or.inl h))
  | error h hr =>
    refine .error (fun hno => ?_) (fun hall => hr fun x hx => hall x (List.mem_append_left m hx))
    exact (overflowReached_append.1 hno).elim h fun h' => hr h'.1
  | @ok a h hr ha =>
    show Outcome (l ++ m) Q (g a)
    have hgo := hg a ha
    generalize g a = y at hgo
    cases hgo with
    | panic h' => exact .panic (overflowReached_append.2 (Or.inr ⟨hr, h'⟩))
    | error h' hr' =>
      refine .error (fun hno => ?_) (fun hall => hr' fun x hx => hall x (List.mem_append_right l hx))
      exact (overflowReached_append.1 hno).elim h fun hno => h' hno.2
    | ok h' hr' hb =>
      refine .ok (fun hno => ?_) (fun x hx => ?_) hb
      · exact (overflowReached_append.1 hno).elim h fun hno => h' hno.2
      · exact (List.mem_append.1 hx).elim (hr x) (hr' x)

theorem mono {P' : α → Prop} {x : Except Stop α} (hx : Outcome l P x) (h : ∀ a, P a → P' a) : Outcome l P' x := by
  cases hx with
  | panic h' => exact .panic h'
  | error h' hr => exact .error h' hr
  | ok h' hr ha => exact .ok h' hr (h _ ha)

theorem panics_iff {x : Except Stop α} (hx : Outcome l P x) :
    (∃ i n, x = .error (.panic i n)) ↔ OverflowReached l := by
  cases hx with
  | panic h => simp [h]
  | error h _ => simp [h]
  | ok h _ _ => simp [h]

end Outcome

theorem atom_error {t : Text} {e : Stop} (h : atom f t = .error e) : ∃ d, e = .error d := by
  unfold atom at h
  dsimp only at h
  split at h
  · cases h
  · split at h
    · cases h
      exact ⟨_, rfl⟩
    · split at h
      · cases h
        exact ⟨_, rfl⟩
      · cases h

theorem bind_error {α β : Type} {x : Except Stop α} {g : α → Except Stop β} {e : Stop} (h : x >>= g = .error e) :
    x = .error e ∨ ∃ a, x = .ok a ∧ g a = .error e := by
  cases x with
  | error e' =>
    cases h
    exact Or.inl rfl
  | ok a => exact Or.inr ⟨a, rfl, h⟩

theorem step_error {t : Text} {e : Stop} (h : step f t = .error e) : ∃ d, e = .error d := by
  unfold step at h
  split at h
  · split at h
    · cases h
    · cases h
      exact ⟨_, rfl⟩
  · cases h
    exact ⟨_, rfl⟩

theorem range_error {t : Text} {e : Stop} (h : range f t s = .error e) : ∃ d, e = .error d := by
  unfold range at h
  split at h
  · cases h
  split at h
  · obtain h | ⟨a, -, h⟩ := bind_error h
    · exact atom_error h
    · obtain h | ⟨b, -, h⟩ := bind_error h
      · exact atom_error h
      · split at h
        · cases h
          exact ⟨_, rfl⟩
        · cases h
  · obtain h | ⟨v, -, h⟩ := bind_error h
    · exact atom_error h
    · cases h

/-- Reading an element never stops the program. -/
theorem element_error {e : Stop} (h : element f part = .error e) : ∃ d, e = .error d := by
  unfold element at h
  split at h
  · cases h
    exact ⟨_, rfl⟩
  obtain ⟨hslash, hcut⟩ | ⟨y, t, hslash, rfl, hcut⟩ := cut_cases '/' part
  · rw [hcut] at h
    obtain h | ⟨s, -, h⟩ := bind_error h
    · cases h
    · obtain h | ⟨ab, -, h⟩ := bind_error h
      · exact range_error h
      · cases h
  · rw [hcut] at h
    obtain h | ⟨s, -, h⟩ := bind_error h
    · exact step_error h
    · obtain h | ⟨ab, -, h⟩ := bind_error h
      · exact range_error h
      · cases h

/-- The element gives the value to its field. -/
def Gives (f : Field) (part : Text) (v : Int) : Prop :=
  ∃ a b s, element f part = .ok (a, b, s) ∧ Progression a b s.val v

theorem parsePart_outcome (set : Bits f.size) (part : Text) :
    Outcome [(f, part)] (fun set' => ∀ n : Nat, isSet set' n = true ↔ isSet set n = true ∨ Gives f part n)
      (parsePart f set part) := by
  cases hel : element f part with
  | error e =>
    obtain ⟨d, rfl⟩ := element_error hel
    have hno : ¬ Readable f part := fun ⟨x, hx⟩ => by cases hel.symm.trans hx
    have hov : ¬ Overflows f part := fun ⟨a, b, s, h, _⟩ => hno ⟨_, h⟩
    have heq : parsePart f set part = .error (.error d) := by
      unfold parsePart
      rw [hel]
      rfl
    rw [heq]
    exact .error (by simp [OverflowReached, hno, hov]) (by simp [hno])
  | ok x =>
    obtain ⟨a, b, s⟩ := x
    have hb := element_bounds hel
    have h₀ : 0 ≤ a := le_trans f.bounds.1 hb.1
    have heq : parsePart f set part = fill f set s b a := by
      unfold parsePart
      rw [hel]
      rfl
    rw [heq]
    by_cases hs : 2 ^ 63 ≤ a + s.val
    · rw [fill_panic h₀ hb.2.1 hb.2.2 hs]
      exact .panic (Or.inl ⟨a, b, s, hel, hs⟩)
    · have hov : ¬ Overflows f part := fun ⟨a', b', s', h, hle⟩ => by
        cases hel.symm.trans h
        exact hs hle
      obtain ⟨set', hset, hmem⟩ : ∃ set', fill f set s b a = .ok set' ∧ _ := fill_ok h₀ hb.2.2 (fun _ => by omega)
      rw [hset]
      refine .ok (by simp [OverflowReached, hov]) (by simpa using ⟨_, hel⟩) (fun n => ?_)
      have hgives : Gives f part n ↔ Progression a b s.val n := by
        constructor
        · rintro ⟨a', b', s', h, hp⟩
          cases hel.symm.trans h
          exact hp
        · exact fun hp => ⟨a, b, s, hel, hp⟩
      rw [hmem, hgives]
      simp

/-- The elements of a field. -/
def elements (f : Field) (field : Text) : List (Field × Text) := (field.splitOn ',').map (Prod.mk f)

/-- What a field's set must be for the text of the field. -/
def Marked (field : Text) (set : Bits f.size) : Prop :=
  ∀ n : Nat, isSet set n = true ↔ ∃ part ∈ field.splitOn ',', Gives f part n

/-- **A field is the union of its elements.** -/
theorem parseInto_outcome (field : Text) : Outcome (elements f field) (Marked field) (parseInto f field) := by
  have key : ∀ (parts : List Text) (set : Bits f.size), Outcome (parts.map (Prod.mk f))
      (fun set' => ∀ n : Nat, isSet set' n = true ↔ isSet set n = true ∨ ∃ part ∈ parts, Gives f part n)
      (parts.foldlM (parsePart f) set) := by
    intro parts
    induction parts with
    | nil =>
      intro set
      exact Outcome.pure (by simp)
    | cons part parts ih =>
      intro set
      rw [List.foldlM_cons]
      refine Outcome.bind (parsePart_outcome set part) fun set₁ h₁ => (ih set₁).mono fun set₂ h₂ n => ?_
      rw [h₂, h₁]
      simp only [List.mem_cons, exists_eq_or_imp]
      tauto
  refine (key (field.splitOn ',') _).mono fun set h n => ?_
  rw [h]
  simp

end Cron
end GoJob
