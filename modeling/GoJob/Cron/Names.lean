import GoJob.Cron.Meaning
/-!
# Cron.Names — names mean their numbers

A month or a weekday may be written as a name or as a number.  The two expressions are read alike, up to the texts of
the errors, but the screening for operators looks at the characters: a capital `L` or `W` in a name is taken for one.
-/
namespace GoJob
namespace Cron

variable {f : Field} {s : Step} {α β : Type}

/-! ## Results that differ in texts only -/

/-- **The same result**: `R` holds of what was read, both are rejected, or the program stops in the same place. -/
inductive Agree (R : α → β → Prop) : Except Stop α → Except Stop β → Prop
  | ok {a : α} {b : β} (h : R a b) : Agree R (.ok a) (.ok b)
  | error {d d' : String} : Agree R (.error (.error d)) (.error (.error d'))
  | panic {i : Int} {n : Nat} : Agree R (.error (.panic i n)) (.error (.panic i n))

theorem Agree.refl (x : Except Stop α) : Agree Eq x x := by
  cases x with
  | ok a => exact .ok rfl
  | error st =>
    cases st with
    | error d => exact .error
    | panic i n => exact .panic

theorem Agree.bind {γ δ : Type} {R : α → β → Prop} {S : γ → δ → Prop} {x : Except Stop α} {y : Except Stop β}
    {g : α → Except Stop γ} {k : β → Except Stop δ} (h : Agree R x y) (hg : ∀ a b, R a b → Agree S (g a) (k b)) :
    Agree S (x >>= g) (y >>= k) := by
  cases h with
  | ok h => exact hg _ _ h
  | error => exact .error
  | panic => exact .panic

/-! ## Replacing names -/

/-- A number in decimal digits. -/
def decimal (v : Int) : Text := (toString v).toList

/-- A value, or the number of a name in any case for the name. -/
inductive RenamesAtom (f : Field) : Text → Text → Prop
  | same (x : Text) : RenamesAtom f x x
  | name {x : Text} {v : Int} (h : f.names.lookup (String.ofList (x.map toUpper)) = some v) :
      RenamesAtom f x (decimal v)

/-- In a range, either end may be replaced. -/
inductive RenamesRange (f : Field) : Text → Text → Prop
  | alone {x x' : Text} (h : RenamesAtom f x x') : RenamesRange f x x'
  | between {x x' y y' : Text} (hx : '-' ∉ x) (h : RenamesAtom f x x') (h' : RenamesAtom f y y') :
      RenamesRange f (x ++ '-' :: y) (x' ++ '-' :: y')

/-- The step of an element stays. -/
inductive RenamesElement (f : Field) : Text → Text → Prop
  | plain {x x' : Text} (hx : '/' ∉ x) (h : RenamesRange f x x') : RenamesElement f x x'
  | step {x x' t : Text} (hx : '/' ∉ x) (h : RenamesRange f x x') :
      RenamesElement f (x ++ '/' :: t) (x' ++ '/' :: t)

/-- Any elements of a list may be replaced. -/
def RenamesField (f : Field) (field field' : Text) : Prop :=
  List.Forall₂ (RenamesElement f) (field.splitOn ',') (field'.splitOn ',')

/-- **The second expression has numbers for names** in the month and the day-of-week of the first. -/
structure Renames (expr expr' : String) : Prop where
  fields : ∃ second minute hour dom month dow month' dow',
    splitFields expr.toList = [second, minute, hour, dom, month, dow] ∧
      splitFields expr'.toList = [second, minute, hour, dom, month', dow'] ∧
      RenamesField .month month month' ∧ RenamesField .dow dow dow'

/-! ## Characters -/

/-- What is a capital letter in upper case. -/
theorem letter_of_toUpper {c : Char} (h : (toUpper c).isUpper = true) :
    c = 'ı' ∨ c = 'ſ' ∨ (97 ≤ c.toNat ∧ c.toNat ≤ 122) ∨ (65 ≤ c.toNat ∧ c.toNat ≤ 90) := by
  unfold toUpper at h
  by_cases h₁ : c = 'ı'
  · exact Or.inl h₁
  by_cases h₂ : c = 'ſ'
  · exact Or.inr (Or.inl h₂)
  rw [if_neg h₁, if_neg h₂] at h
  right; right
  unfold Char.toUpper at h
  split at h
  · rename_i hl
    simp only [UInt32.le_iff_toNat_le] at hl
    exact Or.inl ⟨hl.1, hl.2⟩
  · unfold Char.isUpper at h
    simp only [ge_iff_le, UInt32.le_iff_toNat_le, decide_eq_true_eq] at h
    exact Or.inr ⟨h.1, h.2⟩

theorem isSpace_of_toUpper {c : Char} (h : (toUpper c).isUpper = true) : isSpace c = false := by
  unfold isSpace
  obtain rfl | rfl | h | h := letter_of_toUpper h
  · decide
  · decide
  · simp
    omega
  · simp
    omega

/-- The texts of names are letters. -/
theorem isUpper_of_lookup {y : Text} {v : Int} (h : f.names.lookup (String.ofList y) = some v) :
    ∀ c ∈ y, c.isUpper = true := by
  have key : ∀ f : Field, ∀ x ∈ f.names, x.1.toList.all Char.isUpper = true := by
    intro f
    cases f <;> decide +kernel
  obtain ⟨l₁, l₂, hl, -⟩ := List.lookup_eq_some_iff.1 h
  have := key f (String.ofList y, v) (by rw [hl]; simp)
  simpa using this

theorem decimal_of_lookup {y : String} {v : Int} (h : f.names.lookup y = some v) :
    atom f (decimal v) = .ok v ∧ (decimal v).all Char.isDigit = true := by
  have key : ∀ f : Field, ∀ x ∈ f.names,
      atom f (decimal x.2) = .ok x.2 ∧ (decimal x.2).all Char.isDigit = true := by
    intro f
    cases f <;> decide +kernel
  obtain ⟨l₁, l₂, hl, -⟩ := List.lookup_eq_some_iff.1 h
  exact key f (y, v) (by rw [hl]; simp)

theorem atom_name {x : Text} {v : Int} (h : f.names.lookup (String.ofList (x.map toUpper)) = some v) :
    atom f x = .ok v := by
  have hsp : ∀ c ∈ x, isSpace c = false := fun c hc =>
    isSpace_of_toUpper (isUpper_of_lookup h _ (List.mem_map_of_mem hc))
  have hdrop : ∀ y : Text, (∀ c ∈ y, isSpace c = false) → y.dropWhile isSpace = y := by
    intro y hy
    cases y with
    | nil => rfl
    | cons c y => rw [List.dropWhile_cons_of_neg (by simp [hy])]
  have htrim : trimSpace x = x := by
    unfold trimSpace
    rw [hdrop x hsp, hdrop x.reverse (by simpa using hsp), List.reverse_reverse]
  unfold atom
  rw [htrim]
  dsimp only
  rw [h]

theorem RenamesAtom.subset {x x' : Text} (h : RenamesAtom f x x') {c : Char} (hd : c.isDigit = false) (hc : c ∈ x') :
    c ∈ x := by
  cases h with
  | same => exact hc
  | name h =>
    rw [List.all_eq_true.1 (decimal_of_lookup h).2 c hc] at hd
    cases hd

theorem RenamesRange.subset {x x' : Text} (h : RenamesRange f x x') {c : Char} (hd : c.isDigit = false) (hc : c ∈ x') :
    c ∈ x := by
  cases h with
  | alone h => exact h.subset hd hc
  | between hx h h' =>
    simp only [List.mem_append, List.mem_cons] at hc ⊢
    exact hc.imp (h.subset hd) (Or.imp_right (h'.subset hd))

theorem RenamesElement.subset {x x' : Text} (h : RenamesElement f x x') {c : Char} (hd : c.isDigit = false)
    (hc : c ∈ x') : c ∈ x := by
  cases h with
  | plain hx h => exact h.subset hd hc
  | step hx h =>
    simp only [List.mem_append] at hc ⊢
    exact hc.imp_left (h.subset hd)

theorem mem_iff_mem_splitOn {a c : Char} (h : c ≠ a) (l : Text) : c ∈ l ↔ ∃ part ∈ l.splitOn a, c ∈ part := by
  induction l with
  | nil => simp
  | cons x l ih =>
    rw [List.splitOn_cons_eq_if_modifyHead]
    by_cases hx : x = a
    · simp [hx, h, ih]
    · obtain ⟨first, rest, heq⟩ := List.exists_cons_of_ne_nil (List.splitOn_ne_nil a l)
      rw [heq] at ih ⊢
      simp only [List.mem_cons, exists_eq_or_imp] at ih
      simp [hx, ih, or_assoc]

theorem RenamesField.subset {field field' : Text} (h : RenamesField f field field') {c : Char}
    (hd : c.isDigit = false) (hcomma : c ≠ ',') (hc : c ∈ field') : c ∈ field := by
  rw [mem_iff_mem_splitOn hcomma] at hc ⊢
  obtain ⟨part', hp', hc⟩ := hc
  obtain ⟨i, hi, rfl⟩ := List.mem_iff_getElem.1 hp'
  obtain ⟨hlen, hget⟩ := List.forall₂_iff_get.1 h
  exact ⟨_, List.get_mem _ ⟨i, hlen ▸ hi⟩, (hget i (hlen ▸ hi) hi).subset hd hc⟩

/-- The characters of a number are digits, and those of a name are letters. -/
theorem RenamesAtom.mem {x x' : Text} (h : RenamesAtom f x x') {c : Char} (hd : c.isDigit = false)
    (hu : (toUpper c).isUpper = false) : c ∈ x' ↔ c ∈ x := by
  refine ⟨h.subset hd, fun hc => ?_⟩
  cases h with
  | same => exact hc
  | name h =>
    rw [isUpper_of_lookup h _ (List.mem_map_of_mem hc)] at hu
    cases hu

theorem RenamesRange.mem {x x' : Text} (h : RenamesRange f x x') {c : Char} (hd : c.isDigit = false)
    (hu : (toUpper c).isUpper = false) : c ∈ x' ↔ c ∈ x := by
  cases h with
  | alone h => exact h.mem hd hu
  | between hx h h' => simp [h.mem hd hu, h'.mem hd hu]

/-! ## Reading -/

/-- A replaced value is read as the name. -/
theorem RenamesAtom.agree {x x' : Text} (h : RenamesAtom f x x') : Agree Eq (atom f x) (atom f x') := by
  cases h with
  | same => exact Agree.refl _
  | name h =>
    rw [atom_name h, (decimal_of_lookup h).1]
    exact .ok rfl

theorem RenamesRange.agree {x x' : Text} (h : RenamesRange f x x') : Agree Eq (range f x s) (range f x' s) := by
  cases h with
  | alone h =>
    cases h with
    | same => exact Agree.refl _
    | name h =>
      have hx : '-' ∉ x := fun hc => by
        have := isUpper_of_lookup h _ (List.mem_map_of_mem hc)
        revert this
        decide
      have hx' := mt ((RenamesAtom.name h).mem (by decide) (by decide)).1 hx
      rw [range_value hx (atom_name h), range_value hx' (decimal_of_lookup h).1]
      exact .ok rfl
  | between hx h h' =>
    rw [range_dash hx, range_dash (mt (h.mem (by decide) (by decide)).1 hx)]
    refine h.agree.bind fun a _ ha => h'.agree.bind fun b _ hb => ?_
    subst ha hb
    split
    · exact .error
    · exact .ok rfl

theorem RenamesRange.nil_iff {x x' : Text} (h : RenamesRange f x x') : x' = [] ↔ x = [] := by
  cases h with
  | alone h =>
    cases h with
    | same => rfl
    | name h =>
      have hx := ne_nil_of_atom (atom_name h)
      have hx' := ne_nil_of_atom (decimal_of_lookup h).1
      exact ⟨fun h => absurd h hx', fun h => absurd h hx⟩
  | between => simp

theorem RenamesElement.agree {part part' : Text} (h : RenamesElement f part part') :
    Agree Eq (element f part) (element f part') := by
  cases h with
  | plain hx h =>
    have hx' := mt (h.mem (by decide) (by decide)).1 hx
    by_cases hne : part = []
    · rw [hne, h.nil_iff.2 hne]
      exact Agree.refl _
    · rw [element_plain hne hx, element_plain (mt h.nil_iff.1 hne) hx']
      exact h.agree.bind fun ab _ hab => .ok (by rw [hab])
  | step hx h =>
    rw [element_slash hx, element_slash (mt (h.mem (by decide) (by decide)).1 hx)]
    refine (Agree.refl _).bind fun s _ hs => ?_
    subst hs
    exact h.agree.bind fun ab _ hab => .ok (by rw [hab])

/-- **A field with numbers for names has the same set.** -/
theorem RenamesField.agree {field field' : Text} (h : RenamesField f field field') :
    Agree Eq (parseInto f field) (parseInto f field') := by
  have key : ∀ {l l' : List Text}, List.Forall₂ (RenamesElement f) l l' → ∀ set : Bits f.size,
      Agree Eq (l.foldlM (parsePart f) set) (l'.foldlM (parsePart f) set) := by
    intro l l' h
    induction h with
    | nil => exact fun set => Agree.refl _
    | cons h _ ih =>
      intro set
      rw [List.foldlM_cons, List.foldlM_cons]
      refine Agree.bind (R := Eq) (h.agree.bind fun x _ hx => ?_) fun set₁ _ hset => ?_
      · subst hx
        exact Agree.refl _
      · subst hset
        exact ih set₁
  exact key h _

/-! ## Expressions -/

/-- Some field holds a character of an operator. -/
def screened (expr : String) : Bool := (splitFields expr.toList).any fun f => f.any (· ∈ operators)

/-- The same sets and flags. -/
def SameSets (e e' : Expression) : Prop := e' = { e with src := e'.src }

theorem rejectUnsatisfiable_agree {e e' : Expression} (h : SameSets e e') :
    Agree Eq (rejectUnsatisfiable e) (rejectUnsatisfiable e') := by
  rw [h]
  unfold rejectUnsatisfiable
  dsimp only
  split_ifs
  · exact .error
  · exact .error
  · exact .ok rfl
  · exact .ok rfl
  · exact .error

theorem parseFields_agree {expr expr' : String} {second minute hour dom month dow month' dow' : Text}
    (hmonth : RenamesField .month month month') (hdow : RenamesField .dow dow dow') :
    Agree SameSets (parseFields expr second minute hour dom month dow)
      (parseFields expr' second minute hour dom month' dow') := by
  refine (Agree.refl _).bind fun second _ h₁ => (Agree.refl _).bind fun minute _ h₂ =>
    (Agree.refl _).bind fun hour _ h₃ => (Agree.refl _).bind fun dom _ h₄ =>
    hmonth.agree.bind fun month _ h₅ => hdow.agree.bind fun dow _ h₆ => ?_
  subst h₁ h₂ h₃ h₄ h₅ h₆
  exact .ok rfl

theorem Renames.screened {expr expr' : String} (h : Renames expr expr') (hs : screened expr' = true) :
    screened expr = true := by
  obtain ⟨second, minute, hour, dom, month, dow, month', dow', hf, hf', hmonth, hdow⟩ := h.fields
  have hop : ∀ c ∈ operators, c.isDigit = false ∧ c ≠ ',' := by
    intro c hc
    simp only [operators, List.mem_cons, List.not_mem_nil, or_false] at hc
    obtain rfl | rfl | rfl | rfl := hc <;> decide
  have key : ∀ {f : Field} {t t' : Text}, RenamesField f t t' → t'.any (· ∈ operators) = true →
      t.any (· ∈ operators) = true := by
    intro f t t' h ht
    simp only [List.any_eq_true, decide_eq_true_eq] at ht ⊢
    obtain ⟨c, hc, hcop⟩ := ht
    exact ⟨c, h.subset (hop c hcop).1 (hop c hcop).2 hc, hcop⟩
  unfold Cron.screened at hs ⊢
  rw [hf'] at hs
  rw [hf]
  simp only [List.any_cons, List.any_nil, Bool.or_eq_true] at hs ⊢
  exact hs.imp_right (Or.imp_right (Or.imp_right (Or.imp_right (Or.imp (key hmonth) (Or.imp_left (key hdow))))))

theorem parse_of_screened {expr : String} (h : screened expr = true) : ∃ d, parse expr = .error (.error d) := by
  unfold screened at h
  unfold parse
  split
  · rename_i heq
    rw [heq] at h
    rw [if_pos h]
    exact ⟨_, rfl⟩
  · exact ⟨_, rfl⟩

theorem Renames.agree {expr expr' : String} (h : Renames expr expr') (hs : Cron.screened expr = false) :
    Agree SameSets (parse expr) (parse expr') := by
  have hs' : Cron.screened expr' = false := Bool.eq_false_iff.2 fun hs' => by
    rw [h.screened hs'] at hs
    cases hs
  obtain ⟨second, minute, hour, dom, month, dow, month', dow', hf, hf', hmonth, hdow⟩ := h.fields
  unfold Cron.screened at hs hs'
  rw [hf] at hs
  rw [hf'] at hs'
  unfold parse
  rw [hf, hf']
  dsimp only
  rw [if_neg (by simp [hs]), if_neg (by simp [hs'])]
  exact (parseFields_agree hmonth hdow).bind fun e e' he =>
    (rejectUnsatisfiable_agree he).bind fun _ _ _ => .ok he

/-- **Names mean their numbers** if no capital `L` or `W` stands in a name that is replaced, or if one stands elsewhere:
such a name is screened out as an operator.  Where the numbers are accepted the condition is necessary. -/
theorem parse_renamed_iff {expr expr' : String} (h : Renames expr expr') :
    ((screened expr = true → screened expr' = true) → Agree SameSets (parse expr) (parse expr')) ∧
      ((∃ e', parse expr' = .ok e') → Agree SameSets (parse expr) (parse expr') →
        screened expr = true → screened expr' = true) := by
  constructor
  · intro hs
    cases hscr : screened expr with
    | false => exact h.agree hscr
    | true =>
      obtain ⟨d, hd⟩ := parse_of_screened hscr
      obtain ⟨d', hd'⟩ := parse_of_screened (hs hscr)
      rw [hd, hd']
      exact .error
  · rintro ⟨e', he'⟩ hag hscr
    obtain ⟨d, hd⟩ := parse_of_screened hscr
    rw [hd, he'] at hag
    cases hag

/-- A name that is a whole element. -/
theorem RenamesElement.of_name {x : Text} {v : Int} (h : f.names.lookup (String.ofList (x.map toUpper)) = some v)
    (hx : '/' ∉ x) : RenamesElement f x (decimal v) := .plain hx (.alone (.name h))

theorem parse_renamed_january : Renames "0 0 0 * jan,3 Mon-5/2" "0 0 0 * 1,3 1-5/2" ∧
    ((screened "0 0 0 * jan,3 Mon-5/2" = true → screened "0 0 0 * 1,3 1-5/2" = true) →
      Agree SameSets (parse "0 0 0 * jan,3 Mon-5/2") (parse "0 0 0 * 1,3 1-5/2")) := by
  have hmonth : RenamesField .month "jan,3".toList "1,3".toList :=
    .cons (.of_name (v := 1) (by decide +kernel) (by decide)) (.cons (.plain (by decide) (.alone (.same _))) .nil)
  have hrange : RenamesRange .dow "Mon-5".toList "1-5".toList :=
    .between (x := "Mon".toList) (by decide) (.name (v := 1) (by decide +kernel)) (.same ['5'])
  have hdow : RenamesField .dow "Mon-5/2".toList "1-5/2".toList := .cons (.step (t := ['2']) (by decide) hrange) .nil
  have h : Renames "0 0 0 * jan,3 Mon-5/2" "0 0 0 * 1,3 1-5/2" :=
    ⟨['0'], ['0'], ['0'], ['*'], _, _, _, _, by decide +kernel, by decide +kernel, hmonth, hdow⟩
  exact ⟨h, (parse_renamed_iff h).1⟩

/-- July in capitals is rejected, and the seventh month is not. -/
theorem parse_rejects_july : Renames "0 0 0 1 JUL *" "0 0 0 1 7 *" ∧
    ¬ Agree SameSets (parse "0 0 0 1 JUL *") (parse "0 0 0 1 7 *") := by
  constructor
  · have hmonth : RenamesField .month "JUL".toList ['7'] :=
      .cons (.of_name (v := 7) (by decide +kernel) (by decide)) .nil
    have hdow : RenamesField .dow ['*'] ['*'] := .cons (.plain (by decide) (.alone (.same _))) .nil
    exact ⟨['0'], ['0'], ['0'], ['1'], _, _, _, _, by decide +kernel, by decide +kernel, hmonth, hdow⟩
  · intro hag
    have hjul : (parse "0 0 0 1 JUL *").toOption.isSome = false := by decide +kernel
    have hnum : (parse "0 0 0 1 7 *").toOption.isSome = true := by decide +kernel
    generalize parse "0 0 0 1 JUL *" = x at hag hjul
    generalize parse "0 0 0 1 7 *" = y at hag hnum
    cases hag with
    | ok _ => cases hjul
    | error => cases hnum
    | panic => cases hnum

end Cron
end GoJob
