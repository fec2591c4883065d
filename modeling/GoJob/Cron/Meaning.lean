import GoJob.Cron.Fields
/-!
# Cron.Meaning — what an expression means

The whole of `Parse`: when it stops the program, and which sets an accepted expression has.
-/
namespace GoJob
namespace Cron

variable {f : Field} {part : Text}

/-! ## Expressions -/

/-- The texts of the six fields, if there are six and no operator is used. -/
def fieldTexts (expr : String) : Option (Field → Text) :=
  match splitFields expr.toList with
  | [second, minute, hour, dom, month, dow] =>
    if [second, minute, hour, dom, month, dow].any (fun f => f.any (· ∈ operators)) then none
    else some fun
      | .second => second
      | .minute => minute
      | .hour   => hour
      | .dom    => dom
      | .month  => month
      | .dow    => dow
  | _ => none

/-- The elements of all fields, in the order they are read. -/
def allElements (t : Field → Text) : List (Field × Text) :=
  [Field.second, .minute, .hour, .dom, .month, .dow].flatMap fun f => elements f (t f)

/-- `Parse` behind the screening. -/
def parseTexts (expr : String) (t : Field → Text) : Except Stop Expression :=
  parseFields expr (t .second) (t .minute) (t .hour) (t .dom) (t .month) (t .dow)

theorem parse_of_none {expr : String} (h : fieldTexts expr = none) : ∃ d, parse expr = .error (.error d) := by
  unfold fieldTexts at h
  unfold parse
  generalize splitFields expr.toList = fs at h ⊢
  match fs with
  | [second, minute, hour, dom, month, dow] =>
    by_cases hop : ([second, minute, hour, dom, month, dow].any fun f => f.any (· ∈ operators)) = true
    · exact ⟨_, if_pos hop⟩
    · have hsome := h.symm.trans (if_neg hop)
      cases hsome
  | [] | [_] | [_, _] | [_, _, _] | [_, _, _, _] | [_, _, _, _, _] | _ :: _ :: _ :: _ :: _ :: _ :: _ :: _ =>
    exact ⟨_, rfl⟩

theorem parse_of_some {expr : String} {t : Field → Text} (h : fieldTexts expr = some t) :
    parse expr = (do let e ← parseTexts expr t; rejectUnsatisfiable e; return e) := by
  unfold fieldTexts at h
  unfold parse
  generalize splitFields expr.toList = fs at h ⊢
  match fs with
  | [second, minute, hour, dom, month, dow] =>
    by_cases hop : ([second, minute, hour, dom, month, dow].any fun f => f.any (· ∈ operators)) = true
    · have hnone := h.symm.trans (if_pos hop)
      cases hnone
    · obtain rfl := Option.some.inj (h.symm.trans (if_neg hop))
      exact if_neg hop
  | [] | [_] | [_, _] | [_, _, _] | [_, _, _, _] | [_, _, _, _, _] | _ :: _ :: _ :: _ :: _ :: _ :: _ :: _ => cases h

/-- The sets the six texts denote for the code, and the two flags. -/
structure Read (expr : String) (t : Field → Text) (e : Expression) : Prop where
  src    : e.src = expr
  second : Marked (f := .second) (t .second) e.second
  minute : Marked (f := .minute) (t .minute) e.minute
  hour   : Marked (f := .hour) (t .hour) e.hour
  dom    : Marked (f := .dom) (t .dom) e.dom
  month  : Marked (f := .month) (t .month) e.month
  dow    : ∃ dow : Bits 8, Marked (f := .dow) (t .dow) dow ∧ e.dow = foldSunday dow
  domRestricted : e.domRestricted = !allSet (e.dom.toList.drop 1)
  dowRestricted : e.dowRestricted = !allSet e.dow.toList

theorem parseTexts_outcome (expr : String) (t : Field → Text) :
    Outcome (allElements t) (Read expr t) (parseTexts expr t) := by
  refine Outcome.bind (parseInto_outcome _) fun second h₁ => Outcome.bind (parseInto_outcome _) fun minute h₂ =>
    Outcome.bind (parseInto_outcome _) fun hour h₃ => Outcome.bind (parseInto_outcome _) fun dom h₄ =>
    Outcome.bind (parseInto_outcome _) fun month h₅ => Outcome.bind (parseInto_outcome _) fun dow h₆ => ?_
  exact Outcome.pure ⟨rfl, h₁, h₂, h₃, h₄, h₅, ⟨dow, h₆, rfl⟩, rfl, rfl⟩

theorem rejectUnsatisfiable_error {e : Expression} {st : Stop} (h : rejectUnsatisfiable e = .error st) :
    ∃ d, st = .error d := by
  unfold rejectUnsatisfiable at h
  split at h
  · cases h
    exact ⟨_, rfl⟩
  split at h
  · cases h
    exact ⟨_, rfl⟩
  split at h
  · cases h
  split at h
  · cases h
  · cases h
    exact ⟨_, rfl⟩

theorem parse_inv {expr : String} {e : Expression} (h : parse expr = .ok e) :
    ∃ t, fieldTexts expr = some t ∧ parseTexts expr t = .ok e ∧ rejectUnsatisfiable e = .ok () := by
  cases ht : fieldTexts expr with
  | none =>
    obtain ⟨d, hd⟩ := parse_of_none ht
    cases h.symm.trans hd
  | some t =>
    rw [parse_of_some ht] at h
    obtain ⟨e', he, h⟩ := bind_ok.1 h
    obtain ⟨_, hr, h⟩ := bind_ok.1 h
    cases h
    exact ⟨t, rfl, he, hr⟩

/-- What is read has the sets its texts denote for the code, and every element could be read. -/
theorem parseTexts_read {expr : String} {t : Field → Text} {e : Expression} (h : parseTexts expr t = .ok e) :
    Read expr t e ∧ ∀ f, ∀ part ∈ (t f).splitOn ',', Readable f part := by
  have hout := parseTexts_outcome expr t
  rw [h] at hout
  cases hout with
  | ok _ hr hread =>
    refine ⟨hread, fun f part hp => hr (f, part) ?_⟩
    refine List.mem_flatMap.2 ⟨f, ?_, List.mem_map_of_mem hp⟩
    cases f <;> simp

theorem parse_panics_iff (expr : String) :
    (∃ i n, parse expr = .error (.panic i n)) ↔ ∃ t, fieldTexts expr = some t ∧ OverflowReached (allElements t) := by
  cases ht : fieldTexts expr with
  | none =>
    obtain ⟨d, hd⟩ := parse_of_none ht
    simp [hd]
  | some t =>
    have hiff : (∃ i n, parse expr = .error (.panic i n)) ↔ ∃ i n, parseTexts expr t = .error (.panic i n) := by
      rw [parse_of_some ht]
      cases hp : parseTexts expr t with
      | error st => rfl
      | ok e =>
        constructor
        · rintro ⟨i, n, h⟩
          obtain h | ⟨e', -, h⟩ := bind_error h
          · exact ⟨i, n, h⟩
          · obtain h | ⟨_, -, h⟩ := bind_error h
            · obtain ⟨d, hd⟩ := rejectUnsatisfiable_error h
              cases hd
            · cases h
        · rintro ⟨i, n, h⟩
          cases h
    rw [hiff, (parseTexts_outcome expr t).panics_iff]
    simp

/-- **Reading ends in an expression or an error** exactly if no step leaves the 64 bits: the texts have to pass the
screening for it, and an element behind one that cannot be read does not count. -/
theorem parse_returns_iff (expr : String) :
    ((∃ e, parse expr = .ok e) ∨ ∃ d, parse expr = .error (.error d)) ↔
      ∀ t, fieldTexts expr = some t → ¬ OverflowReached (allElements t) := by
  have key : ((∃ e, parse expr = .ok e) ∨ ∃ d, parse expr = .error (.error d)) ↔
      ¬ ∃ i n, parse expr = .error (.panic i n) := by
    cases parse expr with
    | ok e => simp
    | error st => cases st <;> simp
  rw [key, parse_panics_iff]
  push Not
  rfl

/-- The second value of the field would be 2 ^ 63; the counter becomes -2 ^ 63 instead. -/
theorem parse_largest_step_panics :
    parse "1/9223372036854775807 * * * * *" = .error (.panic (-9223372036854775808) 60) := by
  decide +kernel

/-! ## Denotation -/

namespace Field

/-- Sunday is 0 and 7. -/
def norm : Field → Int → Int
  | dow, v => v % 7
  | _, v => v

end Field

/-- The value is in the set of its field. -/
def Expression.has (e : Expression) : Field → Int → Bool
  | .second, v => isSet e.second v.toNat
  | .minute, v => isSet e.minute v.toNat
  | .hour, v   => isSet e.hour v.toNat
  | .dom, v    => isSet e.dom v.toNat
  | .month, v  => isSet e.month v.toNat
  | .dow, v    => isSet e.dow (v % 7).toNat

/-- **What an expression means**: each field is the union of its elements, and a day field is restricted if its set
omits a day. -/
structure Denoted (t : Field → Text) (e : Expression) : Prop where
  sets : ∀ f v, f.lo ≤ v → v ≤ f.hi → (e.has f v = true ↔
    ∃ w, f.norm w = f.norm v ∧ ∃ part ∈ (t f).splitOn ',', ∃ φ, Reads f part φ ∧ φ.Denotes f w)
  dom  : e.domRestricted = true ↔ ∃ v : Int, 1 ≤ v ∧ v ≤ 31 ∧ e.has .dom v = false
  dow  : e.dowRestricted = true ↔ ∃ v : Int, 0 ≤ v ∧ v ≤ 6 ∧ e.has .dow v = false

/-- The values behind `v` in an element `v/1` are in other elements of the field, or are the `v` of other such
elements. -/
def TailsGiven (f : Field) (field : Text) : Prop :=
  ∀ part ∈ field.splitOn ',', ∀ v s, Reads f part (.every v s) → s.val = 1 → ∀ u, v < u → u ≤ f.hi →
    ∃ w, f.norm w = f.norm u ∧ ∃ part' ∈ field.splitOn ',', ∃ φ, Reads f part' φ ∧ φ.Denotes f w ∧
      ∀ v', φ.Lone v' → w = v'

/-- The code gives a field what the element denotes, but `v/1` only gives `v`. -/
theorem gives_iff {v : Int} :
    Gives f part v ↔ ∃ φ, Reads f part φ ∧ φ.Denotes f v ∧ ∀ v', φ.Lone v' → v = v' := by
  have key : ∀ φ, Reads f part φ → (Progression (φ.loop f).1 (φ.loop f).2.1 (φ.loop f).2.2.val v ↔
      φ.Denotes f v ∧ ∀ v', φ.Lone v' → v = v') := by
    intro φ h
    cases h with
    | all h => simp [Form.loop, Form.Denotes, Form.Lone]
    | between => simp [Form.loop, Form.Denotes, Form.Lone]
    | value =>
      simp only [Form.loop, Form.Denotes, Form.Lone, Progression, Step.one, one_dvd, false_imp_iff, implies_true,
        and_true]
      omega
    | @every x t w s _ _ hw _ =>
      have hb := atom_bounds hw
      have hp := s.pos
      by_cases hs : 1 < s.val
      · have hne : s.val ≠ 1 := by omega
        simp [Form.loop, Form.Denotes, Form.Lone, hs, hne]
      · have hone : s.val = 1 := by omega
        simp only [Form.loop, Form.Denotes, Form.Lone, hone, Progression, one_dvd, and_true, lt_irrefl, if_false,
          forall_eq']
        omega
  constructor
  · rintro ⟨a, b, s, h, hp⟩
    obtain ⟨φ, hφ, hl⟩ := reads_of_element h
    refine ⟨φ, hφ, (key φ hφ).1 ?_⟩
    rw [hl]
    exact hp
  · rintro ⟨φ, hφ, hd⟩
    exact ⟨_, _, _, element_of_reads hφ, (key φ hφ).2 hd⟩

theorem Gives.bounds {v : Int} (h : Gives f part v) : 0 ≤ v ∧ v ≤ f.hi := by
  obtain ⟨a, b, s, hel, hp⟩ := h
  have hb := element_bounds hel
  have h₀ := f.bounds.1
  have h₁ := hp.1
  have h₂ := hp.2.1
  omega

theorem Marked.iff {field : Text} {set : Bits f.size} (h : Marked field set) {v : Int} (hv : 0 ≤ v) :
    isSet set v.toNat = true ↔ ∃ part ∈ field.splitOn ',', Gives f part v := by
  have := h v.toNat
  rwa [Int.toNat_of_nonneg hv] at this

theorem Marked.norm_iff (hf : f ≠ .dow) {field : Text} {set : Bits f.size} (h : Marked field set) {v : Int}
    (hv : 0 ≤ v) :
    isSet set v.toNat = true ↔ ∃ w, f.norm w = f.norm v ∧ ∃ part ∈ field.splitOn ',', Gives f part w := by
  rw [h.iff hv]
  cases f with
  | dow => exact absurd rfl hf
  | _ => simp [Field.norm]

theorem isSet_ofFn {n i : Nat} (g : Fin n → Bool) (h : i < n) : isSet (Vector.ofFn g) i = g ⟨i, h⟩ := by
  unfold isSet
  simp [h]

theorem isSet_foldSunday {dow : Bits 8} {i : Nat} (h : i < 7) :
    isSet (foldSunday dow) i = (isSet dow i || (decide (i = 0) && isSet dow 7)) := isSet_ofFn _ h

/-- The set of a field, in terms of its elements. -/
theorem Read.has_iff {expr : String} {t : Field → Text} {e : Expression} (h : Read expr t e) (f : Field) {v : Int}
    (hv : 0 ≤ v) : e.has f v = true ↔ ∃ w, f.norm w = f.norm v ∧ ∃ part ∈ (t f).splitOn ',', Gives f part w := by
  cases f with
  | second => exact h.second.norm_iff (by decide) hv
  | minute => exact h.minute.norm_iff (by decide) hv
  | hour => exact h.hour.norm_iff (by decide) hv
  | dom => exact h.dom.norm_iff (by decide) hv
  | month => exact h.month.norm_iff (by decide) hv
  | dow =>
    obtain ⟨dow, hm, hd⟩ := h.dow
    simp only [Expression.has, Field.norm, hd]
    rw [isSet_foldSunday (by omega)]
    simp only [Bool.or_eq_true, Bool.and_eq_true, decide_eq_true_eq]
    have hmod : isSet dow (v % 7).toNat = true ↔ _ := hm.iff (by omega)
    rw [hmod]
    have h7 : isSet dow 7 = true ↔ _ := hm.iff (v := 7) (by omega)
    constructor
    · rintro (⟨part, hp, hg⟩ | ⟨h0, h⟩)
      · exact ⟨v % 7, by omega, part, hp, hg⟩
      · exact ⟨7, by omega, h7.1 h⟩
    · rintro ⟨w, hw, part, hp, hg⟩
      have hb : 0 ≤ w ∧ w ≤ 7 := hg.bounds
      by_cases hw7 : w = 7
      · subst hw7
        exact Or.inr ⟨by omega, h7.2 ⟨part, hp, hg⟩⟩
      · have : w = v % 7 := by omega
        subst this
        exact Or.inl ⟨part, hp, hg⟩

/-- The entries of a slice, from some index on. -/
theorem mem_drop_iff {n k : Nat} (set : Bits n) (b : Bool) :
    b ∈ set.toList.drop k ↔ ∃ i, k ≤ i ∧ i < n ∧ isSet set i = b := by
  rw [List.mem_iff_getElem?]
  unfold isSet
  constructor
  · rintro ⟨i, hi⟩
    rw [List.getElem?_drop, Vector.getElem?_toList] at hi
    exact ⟨k + i, by omega, (Vector.getElem?_eq_some_iff.1 hi).1, by rw [hi]; rfl⟩
  · rintro ⟨i, hk, hi, rfl⟩
    refine ⟨i - k, ?_⟩
    rw [List.getElem?_drop, Nat.add_sub_cancel' hk, Vector.getElem?_toList, Vector.getElem?_eq_getElem hi]
    rfl

theorem not_allSet_iff (l : List Bool) : (!allSet l) = true ↔ false ∈ l := by
  simp [allSet]

theorem anySet_iff_mem (l : List Bool) : anySet l = true ↔ true ∈ l := by
  simp [anySet]

/-- The flags are read from the sets. -/
theorem Read.restricted {expr : String} {t : Field → Text} {e : Expression} (h : Read expr t e) :
    (e.domRestricted = true ↔ ∃ v : Int, 1 ≤ v ∧ v ≤ 31 ∧ e.has .dom v = false) ∧
      (e.dowRestricted = true ↔ ∃ v : Int, 0 ≤ v ∧ v ≤ 6 ∧ e.has .dow v = false) := by
  constructor
  · rw [h.domRestricted, not_allSet_iff, mem_drop_iff]
    constructor
    · rintro ⟨i, h₁, h₂, hi⟩
      exact ⟨i, by omega, by omega, by simpa [Expression.has] using hi⟩
    · rintro ⟨v, h₁, h₂, hv⟩
      exact ⟨v.toNat, by omega, by omega, hv⟩
  · have hdrop : e.dow.toList = e.dow.toList.drop 0 := rfl
    rw [h.dowRestricted, hdrop, not_allSet_iff, mem_drop_iff]
    constructor
    · rintro ⟨i, -, h₂, hi⟩
      have hmod : ((i : Int) % 7).toNat = i := by omega
      exact ⟨i, by omega, by omega, by simpa [Expression.has, hmod] using hi⟩
    · rintro ⟨v, h₁, h₂, hv⟩
      exact ⟨(v % 7).toNat, by omega, by omega, hv⟩

/-- **An accepted expression means what its elements say** exactly if no `v/1` stands for more than `v`: the step of 1
behind a value is dropped, so the values behind it have to come from elsewhere. -/
theorem parse_denotes_iff {expr : String} {e : Expression} (h : parse expr = .ok e) :
    ∃ t, fieldTexts expr = some t ∧ (Denoted t e ↔ ∀ f, TailsGiven f (t f)) := by
  obtain ⟨t, ht, hp, -⟩ := parse_inv h
  have hread := (parseTexts_read hp).1
  refine ⟨t, ht, fun hden f part hpart v s hr hs u hvu hu => ?_, fun htails => ⟨fun f v hlo hhi => ?_, ?_, ?_⟩⟩
  · -- The value is denoted by `v/1`, so it is in the set, so the code got it from some element.
    have hlo : f.lo ≤ v := by
      cases hr with
      | every _ _ hv _ => exact (atom_bounds hv).1
    have hb := f.bounds
    have hd : (Form.every v s).Denotes f u := ⟨by omega, hu, by rw [hs]; exact one_dvd _⟩
    have hhas := (hden.sets f u (by omega) hu).2 ⟨u, rfl, part, hpart, _, hr, hd⟩
    obtain ⟨w, hw, part', hp', hg⟩ := (hread.has_iff f (by omega)).1 hhas
    exact ⟨w, hw, part', hp', gives_iff.1 hg⟩
  · have hb := f.bounds
    rw [hread.has_iff f (by omega)]
    constructor
    · rintro ⟨w, hw, part, hp, hg⟩
      obtain ⟨φ, hφ, hd, -⟩ := gives_iff.1 hg
      exact ⟨w, hw, part, hp, φ, hφ, hd⟩
    · rintro ⟨w, hw, part, hp, φ, hφ, hd⟩
      by_cases hlone : ∀ v', φ.Lone v' → w = v'
      · exact ⟨w, hw, part, hp, gives_iff.2 ⟨φ, hφ, hd, hlone⟩⟩
      · push Not at hlone
        obtain ⟨v', hl, hne⟩ := hlone
        obtain ⟨s, rfl, hs⟩ : ∃ s, φ = .every v' s ∧ s.val = 1 := by
          cases φ with
          | every v'' s => exact ⟨s, by rw [hl.1], hl.2⟩
          | all s => exact hl.elim
          | between a b s => exact hl.elim
          | value v'' => exact hl.elim
        have hlt : v' < w := lt_of_le_of_ne hd.1 (Ne.symm hne)
        obtain ⟨w', hw', part', hp', ψ, hψ, hd', hl'⟩ := htails f part hp v' s hφ hs w hlt hd.2.1
        exact ⟨w', hw'.trans hw, part', hp', gives_iff.2 ⟨ψ, hψ, hd', hl'⟩⟩
  · exact hread.restricted.1
  · exact hread.restricted.2

theorem parse_denotes_weekdays : ∃ e, parse "0 30 3 */2 JAN,mar MON-FRI" = .ok e ∧
    ∃ t, fieldTexts "0 30 3 */2 JAN,mar MON-FRI" = some t ∧ (Denoted t e ↔ ∀ f, TailsGiven f (t f)) := by
  have hok : (parse "0 30 3 */2 JAN,mar MON-FRI").toOption.isSome = true := by decide +kernel
  cases he : parse "0 30 3 */2 JAN,mar MON-FRI" with
  | error st =>
    rw [he] at hok
    cases hok
  | ok e => exact ⟨e, rfl, parse_denotes_iff he⟩

/-- `5/1` is the fifth, and not every day from the fifth on as `5-31/1` is. -/
theorem parse_drops_step_one : ∃ e t, parse "0 0 0 5/1 * *" = .ok e ∧ fieldTexts "0 0 0 5/1 * *" = some t ∧
    Reads .dom (t .dom) (.every 5 .one) ∧ e.has .dom 6 = false ∧ ¬ Denoted t e ∧
    (parse "0 0 0 5-31/1 * *").map (fun e => e.has .dom 6) = .ok true := by
  have hhas : (parse "0 0 0 5/1 * *").map (fun e => e.has .dom 6) = .ok false := by decide +kernel
  have hdom : (fieldTexts "0 0 0 5/1 * *").map (fun t => t .dom) = some ['5', '/', '1'] := by decide +kernel
  cases he : parse "0 0 0 5/1 * *" with
  | error st =>
    rw [he] at hhas
    cases hhas
  | ok e =>
    obtain ⟨t, ht, -⟩ := parse_inv he
    rw [he] at hhas
    rw [ht] at hdom
    have hhas : e.has .dom 6 = false := Except.ok.inj hhas
    have hdom : t .dom = ['5'] ++ '/' :: ['1'] := Option.some.inj hdom
    have hr : Reads .dom (t .dom) (.every 5 .one) := by
      rw [hdom]
      exact .every (by decide) (by decide) (by decide +kernel) (by decide +kernel)
    refine ⟨e, t, rfl, ht, hr, hhas, fun hden => ?_, by decide +kernel⟩
    have hd : (Form.every 5 .one).Denotes .dom 6 := ⟨by decide, by decide, one_dvd _⟩
    have hin : t .dom ∈ (t .dom).splitOn ',' := by
      rw [hdom]
      decide
    have hset := (hden.sets .dom 6 (by decide) (by decide)).2 ⟨6, rfl, _, hin, _, hr, hd⟩
    rw [hhas] at hset
    cases hset

end Cron
end GoJob
