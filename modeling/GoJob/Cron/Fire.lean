import GoJob.Cron.Next
/-!
# Cron.Fire — an accepted expression fires

An expression is rejected exactly if no date matches it.  An accepted one has a matching date within nine years of any
day, so the search for the next fire ends before its limit.  What it finds is the next fire, with one exception: a wall
time in a gap that ends in the second behind `after` is passed over.
-/
namespace GoJob
namespace Cron

open Cal (Zone)

variable {z : Zone} {e : Expression} {expr : String} {t : Field → Text}

/-! ## Sets that are not empty -/

theorem anySet_of_isSet {n i : Nat} {set : Bits n} (hi : i < n) (h : isSet set i = true) :
    anySet set.toList = true := by
  rw [anySet_iff_mem]
  exact (mem_drop_iff (k := 0) set true).2 ⟨i, by omega, hi, h⟩

/-- Every field that is read holds a value. -/
theorem exists_has (h : parseTexts expr t = .ok e) (f : Field) : ∃ v, f.lo ≤ v ∧ v ≤ f.hi ∧ e.has f v = true := by
  obtain ⟨hread, hall⟩ := parseTexts_read h
  obtain ⟨part, rest, hsplit⟩ := List.exists_cons_of_ne_nil (List.splitOn_ne_nil ',' (t f))
  have hmem : part ∈ (t f).splitOn ',' := by simp [hsplit]
  obtain ⟨⟨a, b, s⟩, hel⟩ := hall f part hmem
  have hb := element_bounds hel
  refine ⟨a, hb.1, le_trans hb.2.1 hb.2.2, ?_⟩
  rw [hread.has_iff f (le_trans f.bounds.1 hb.1)]
  exact ⟨a, rfl, part, hmem, a, b, s, hel, le_refl a, hb.2.1, by simp⟩

/-- The flags of what is read are faithful. -/
theorem flagged (h : parseTexts expr t = .ok e) : Flagged e := by
  obtain ⟨hread, -⟩ := parseTexts_read h
  have hres := hread.restricted
  constructor
  · intro hno d hd hd'
    by_contra hset
    have : e.domRestricted = true :=
      hres.1.2 ⟨d, by omega, by omega, by simpa [Expression.has] using hset⟩
    rw [hno] at this
    cases this
  · intro hno d hd
    by_contra hset
    have hmod : ((d : Int) % 7).toNat = d := by omega
    have : e.dowRestricted = true :=
      hres.2.2 ⟨d, by omega, by omega, by simpa [Expression.has, hmod] using hset⟩
    rw [hno] at this
    cases this

/-! ## Satisfiable expressions -/

/-- Some date can match: the weekdays decide alone or besides, or a month has the day in a leap year. -/
def Satisfiable (e : Expression) : Prop :=
  e.domRestricted = false ∨ e.dowRestricted = true ∨
    ∃ m d, 1 ≤ m ∧ m ≤ 12 ∧ isSet e.month m = true ∧ 1 ≤ d ∧ d ≤ Cal.monthLength true m ∧ isSet e.dom d = true

/-- **The last check of `Parse` is whether a date can match.** -/
theorem rejectUnsatisfiable_ok_iff (h : parseTexts expr t = .ok e) :
    rejectUnsatisfiable e = .ok () ↔ Satisfiable e := by
  obtain ⟨vs, -, hs', hs⟩ := exists_has h .second
  obtain ⟨vm, -, hm', hm⟩ := exists_has h .minute
  obtain ⟨vh, -, hh', hh⟩ := exists_has h .hour
  obtain ⟨vo, -, ho', ho⟩ := exists_has h .month
  obtain ⟨vd, -, -, hd⟩ := exists_has h .dow
  simp only [Field.hi] at hs' hm' hh' ho'
  have hsecond : anySet e.second.toList = true := anySet_of_isSet (by omega) hs
  have hminute : anySet e.minute.toList = true := anySet_of_isSet (by omega) hm
  have hhour : anySet e.hour.toList = true := anySet_of_isSet (by omega) hh
  have hmonth : anySet e.month.toList = true := anySet_of_isSet (by omega) ho
  have hdow : anySet e.dow.toList = true := anySet_of_isSet (by omega) hd
  unfold rejectUnsatisfiable Satisfiable
  rw [if_neg (by simp [hsecond, hminute, hhour, hmonth]), if_neg (by simp [hdow]), hdow]
  have hleap : ∀ m, Cal.daysIn m 2024 = Cal.monthLength true m := fun m => rfl
  have hany : (List.range' 1 12).any (fun m => isSet e.month m &&
        (List.range' 1 (Cal.daysIn m 2024)).any (fun d => isSet e.dom d)) = true ↔
      ∃ m d, 1 ≤ m ∧ m ≤ 12 ∧ isSet e.month m = true ∧ 1 ≤ d ∧ d ≤ Cal.monthLength true m ∧ isSet e.dom d = true := by
    simp only [List.any_eq_true, Bool.and_eq_true, List.mem_range'_1, hleap]
    constructor
    · rintro ⟨m, hm, hset, d, hd, hdom⟩
      exact ⟨m, d, by omega, by omega, hset, by omega, by omega, hdom⟩
    · rintro ⟨m, d, hm₁, hm₂, hset, hd₁, hd₂, hdom⟩
      exact ⟨m, by omega, hset, d, by omega, hdom⟩
  rw [← hany]
  generalize (List.range' 1 12).any _ = found
  cases h₁ : e.domRestricted with
  | false => simp
  | true =>
    cases h₂ : e.dowRestricted with
    | true => simp
    | false => cases found <;> simp

/-- **A satisfiable expression has a matching date within ten years of any day.** -/
theorem exists_date (h : parseTexts expr t = .ok e) (hsat : Satisfiable e) (n : Int) :
    ∃ d : Cal.Date, n ≤ d.days ∧ d.days < n + 10 * 366 ∧ isSet e.month d.month = true ∧ DayMatches e d := by
  obtain ⟨vm, hm₁, hm₂, hm⟩ := exists_has h .month
  obtain ⟨vd, -, -, hd⟩ := exists_has h .dow
  have hflag := flagged h
  simp only [Field.lo, Field.hi] at hm₁ hm₂
  simp only [Expression.has] at hm hd
  by_cases hdow : e.dowRestricted = true
  · -- Some day of the first week of the month is the weekday.
    obtain ⟨base, hb₁, hb₂, hdates⟩ := Cal.exists_leap_month (m := vm.toNat) (by omega) (by omega) n
    have hlen := Cal.monthLength_le true vm.toNat
    obtain ⟨x, hx₁, -, hx₃⟩ := hdates ((vd - base - 5) % 7 + 1).toNat (by omega) (by omega)
    have hw : x.weekday = (vd % 7).toNat := by
      unfold Cal.Date.weekday
      omega
    refine ⟨x, by omega, by omega, by rw [hx₁]; exact hm, ?_⟩
    unfold DayMatches
    rw [hw]
    by_cases hdom : e.domRestricted = true
    · simp [hdom, hdow, hd]
    · have hall := hflag.dom (by simpa using hdom) x.day x.day_pos x.day_le_31
      simp [hdom, hd, hall]
  · have hweek := fun x : Cal.Date => hflag.dow (by simpa using hdow) x.weekday x.weekday_lt
    have key : ∃ m d, 1 ≤ m ∧ m ≤ 12 ∧ isSet e.month m = true ∧ 1 ≤ d ∧ d ≤ Cal.monthLength true m ∧
        isSet e.dom d = true := by
      rcases hsat with hdom | hno | hday
      · have hlen := Cal.monthLength_le true vm.toNat
        exact ⟨vm.toNat, 1, by omega, by omega, hm, le_refl 1, by omega, hflag.dom hdom 1 (by omega) (by omega)⟩
      · exact absurd hno hdow
      · exact hday
    obtain ⟨m, d, hm₁, hm₂, hset, hd₁, hd₂, hdom⟩ := key
    obtain ⟨base, hb₁, hb₂, hdates⟩ := Cal.exists_leap_month hm₁ hm₂ n
    have hlen := Cal.monthLength_le true m
    obtain ⟨x, hx₁, hx₂, hx₃⟩ := hdates d hd₁ hd₂
    refine ⟨x, by omega, by omega, by rw [hx₁]; exact hset, ?_⟩
    unfold DayMatches
    simp [hdow, hweek x, hx₂, hdom]

/-- A matching wall time comes within eleven years of any second. -/
theorem exists_matches (h : parseTexts expr t = .ok e) (hsat : Satisfiable e) (s : Int) :
    ∃ c, Matches e c ∧ s ≤ c.secs ∧ c.secs < s + 11 * 366 * Cal.day := by
  obtain ⟨d, hd₁, hd₂, hmonth, hday⟩ := exists_date h hsat ((s + 86399) / Cal.day)
  obtain ⟨vs, hs₁, hs₂, hs⟩ := exists_has h .second
  obtain ⟨vm, hm₁, hm₂, hm⟩ := exists_has h .minute
  obtain ⟨vh, hh₁, hh₂, hh⟩ := exists_has h .hour
  simp only [Field.lo, Field.hi] at hs₁ hs₂ hm₁ hm₂ hh₁ hh₂
  refine ⟨⟨d, vh.toNat, vm.toNat, vs.toNat, by omega, by omega, by omega⟩, ⟨hmonth, hday, hh, hm, hs⟩, ?_, ?_⟩
  · unfold Civil.secs
    dsimp only
    unfold Cal.day at *
    omega
  · unfold Civil.secs
    dsimp only
    unfold Cal.day at *
    omega

/-- A date that matches is a reason not to reject. -/
theorem Matches.satisfiable {c : Civil} (h : Matches e c) : Satisfiable e := by
  by_cases hdom : e.domRestricted = false
  · exact Or.inl hdom
  by_cases hdow : e.dowRestricted = true
  · exact Or.inr (Or.inl hdow)
  have hday := h.day
  unfold DayMatches at hday
  rw [if_neg (fun hboth => hdow hboth.2)] at hday
  have hle : c.day ≤ Cal.monthLength true c.month := le_trans c.day_le (Cal.monthLength_le_leap _ _)
  exact Or.inr (Or.inr ⟨c.month, c.day, c.month_pos, c.month_le, h.month, c.day_pos, hle, hday.1⟩)

/-! ## The next fire -/

theorem lt_mul_second {after u : Int} : after < u * second ↔ startOf after ≤ u := by
  unfold startOf second
  omega

/-- **The search succeeds**: it stops at the first matching wall time, from that of the second behind `after` on, that
is due later than `after`. -/
theorem next_eq (h : parseTexts expr t = .ok e) (hsat : Satisfiable e) (z : Zone) (after : Instant) :
    ∃ c, Stops z e after c ∧ z.wall (startOf after) ≤ c.secs ∧ next z e after = .ok (resolve z c * second) ∧
      ∀ c', Stops z e after c' → z.wall (startOf after) ≤ c'.secs → c.secs ≤ c'.secs := by
  -- A match a day later than the start is due later than `after`.
  obtain ⟨c₀, hm₀, hlo, hhi⟩ := exists_matches h hsat (startOf after + Cal.day)
  have hstart := z.wall_bounds (startOf after)
  have hstop₀ : Stops z e after c₀ := by
    refine ⟨hm₀, lt_mul_second.2 ?_⟩
    have hreach := Zone.due_iff.1 (resolve_due z c₀)
    have hwall := z.wall_bounds (resolve z c₀)
    have := hreach.1
    omega
  obtain ⟨s, ⟨c, rfl, hc, hle⟩, hmin⟩ := Int.exists_least_of_bdd
    (P := fun s => ∃ c : Civil, c.secs = s ∧ Stops z e after c ∧ z.wall (startOf after) ≤ c.secs)
    ⟨z.wall (startOf after), fun s ⟨c, hs, _, hle⟩ => hs ▸ hle⟩ ⟨c₀.secs, c₀, rfl, hstop₀, by omega⟩
  have hmin' : ∀ c', Stops z e after c' → z.wall (startOf after) ≤ c'.secs → c.secs ≤ c'.secs :=
    fun c' h' hle' => hmin c'.secs ⟨c', rfl, h', hle'⟩
  refine ⟨c, hc, hle, ?_, hmin'⟩
  unfold next
  refine search_eq (flagged h) hc (by rw [secs_civilOf]; exact hle) ?_ (fun c' h' hle' => hmin' c' h' ?_)
  · have hlim := z.wall_bounds ((after + searchLimit * second) / second)
    have hc₀ := hmin' c₀ hstop₀ (by omega)
    rw [secs_civilOf]
    unfold searchLimit startOf second Cal.day at *
    omega
  · rw [secs_civilOf] at hle'
    exact hle'

theorem satisfiable_iff (h : parseTexts expr t = .ok e) : Satisfiable e ↔ ∃ c, Matches e c := by
  constructor
  · intro hsat
    obtain ⟨c, hc, -⟩ := exists_matches h hsat 0
    exact ⟨c, hc⟩
  · rintro ⟨c, hc⟩
    exact hc.satisfiable

/-- **Accepted means it fires.**  What is read is rejected exactly if no wall time matches it, and the search for the
next fire of an accepted expression always finds one. -/
theorem accepted_fires (expr : String) :
    (∀ t e, parseTexts expr t = .ok e → ((∃ d, rejectUnsatisfiable e = .error d) ↔ ¬ ∃ c, Matches e c)) ∧
      ∀ e, parse expr = .ok e → ∀ z after, ∃ f ∈ Fires z e, after < f ∧ next z e after = .ok f := by
  refine ⟨fun t e h => ?_, fun e h z after => ?_⟩
  · rw [← satisfiable_iff h, ← rejectUnsatisfiable_ok_iff h]
    cases rejectUnsatisfiable e with
    | ok _ => simp
    | error d => simp
  · obtain ⟨t, -, ht, hok⟩ := parse_inv h
    obtain ⟨c, hc, -, hnext, -⟩ := next_eq ht ((rejectUnsatisfiable_ok_iff ht).1 hok) z after
    exact ⟨_, ⟨c, resolve z c, hc.1, resolve_due z c, rfl⟩, hc.2, hnext⟩

theorem accepted_fires_leap_day : ∃ e, parse "0 0 0 29 2 *" = .ok e ∧
    ∀ z after, ∃ f ∈ Fires z e, after < f ∧ next z e after = .ok f := by
  have hok : (parse "0 0 0 29 2 *").toOption.isSome = true := by decide +kernel
  cases he : parse "0 0 0 29 2 *" with
  | error st =>
    rw [he] at hok
    cases hok
  | ok e => exact ⟨e, rfl, (accepted_fires _).2 e he⟩

/-- A wall time that matches and that the clock jumps over when it goes on to the second behind `after`. -/
def JumpedOver (z : Zone) (e : Expression) (after : Instant) : Prop :=
  ∃ c, Matches e c ∧ z.wall (startOf after - 1) < c.secs ∧ c.secs < z.wall (startOf after)

/-- Without a jump over a match, or with one that lands on a match, the search finds the next fire. -/
theorem next_least (h : parse expr = .ok e) {after : Instant}
    (hjump : JumpedOver z e after → Matches e (civilOf (z.wall (startOf after)))) :
    ∃ n, next z e after = .ok n ∧ IsLeast {f ∈ Fires z e | after < f} n := by
  obtain ⟨t, -, ht, hok⟩ := parse_inv h
  obtain ⟨c, hc, hle, hnext, hmin⟩ := next_eq ht ((rejectUnsatisfiable_ok_iff ht).1 hok) z after
  have hreach := Zone.due_iff.1 (resolve_due z c)
  refine ⟨_, hnext, ⟨⟨c, resolve z c, hc.1, resolve_due z c, rfl⟩, hc.2⟩, ?_⟩
  rintro f ⟨⟨c', v, hm, hdue, rfl⟩, hv⟩
  have hreach' := Zone.due_iff.1 hdue
  have hv' := lt_mul_second.1 hv
  have hvres : v = resolve z c' := hdue.unique (resolve_due z c')
  have key : resolve z c ≤ v := by
    by_cases hlate : z.wall (startOf after) ≤ c'.secs
    · exact hreach.mono hreach' (hmin c' ⟨hm, hvres ▸ hv⟩ hlate)
    · -- An earlier wall time that is due later than `after` was jumped over, and so is due in the next second.
      have hbefore := hreach'.2 (startOf after - 1) (by omega)
      have hland := hjump ⟨c', hm, hbefore, by omega⟩
      have hreaches : z.Reaches (z.wall (startOf after)) (startOf after) :=
        ⟨le_refl _, fun w hw => by have := hreach'.2 w (by omega); omega⟩
      have hstop : Stops z e after (civilOf (z.wall (startOf after))) := by
        refine ⟨hland, lt_mul_second.2 ?_⟩
        have hr := Zone.due_iff.1 (resolve_due z (civilOf (z.wall (startOf after))))
        rw [secs_civilOf] at hr
        exact (hr.unique hreaches).ge
      have hcle := hmin _ hstop (by rw [secs_civilOf])
      rw [secs_civilOf] at hcle
      exact le_trans (hreach.mono hreaches hcle) hv'
  exact mul_le_mul_of_nonneg_right key (by decide)

/-- **`Next` is the next fire** exactly if the clock does not jump over a match on its way to the next second, or lands
on one: the search starts with the wall time of that second. -/
theorem next_least_iff (h : parse expr = .ok e) (z : Zone) (after : Instant) :
    (∃ n, next z e after = .ok n ∧ IsLeast {f ∈ Fires z e | after < f} n) ↔
      (JumpedOver z e after → Matches e (civilOf (z.wall (startOf after)))) := by
  refine ⟨?_, next_least h⟩
  rintro ⟨n, hn, -, hleast⟩ ⟨c', hm, h₁, h₂⟩
  obtain ⟨t, -, ht, hok⟩ := parse_inv h
  obtain ⟨c, hc, hle, hnext, -⟩ := next_eq ht ((rejectUnsatisfiable_ok_iff ht).1 hok) z after
  cases hnext.symm.trans hn
  -- The gap ends in the second behind `after`, so the next fire is then, and `c` is the wall time shown then.
  have hgap := Zone.reaches_of_gap h₁ h₂
  have hf := hleast ⟨⟨c', startOf after, hm, Zone.due_iff.2 hgap, rfl⟩, lt_mul_second.2 (le_refl _)⟩
  have hres : resolve z c = startOf after :=
    le_antisymm (le_of_mul_le_mul_right hf (by decide)) (lt_mul_second.1 hc.2)
  have hreach := (Zone.due_iff.1 (resolve_due z c)).1
  rw [hres] at hreach
  have hwall : c.secs = z.wall (startOf after) := le_antisymm hreach hle
  rw [← hwall, Civil.civilOf_secs]
  exact hc.1

theorem next_least_in_utc : ∃ e, parse "0 0 0 29 2 *" = .ok e ∧
    ((∃ n, next .utc e 0 = .ok n ∧ IsLeast {f ∈ Fires .utc e | 0 < f} n) ↔
      (JumpedOver .utc e 0 → Matches e (civilOf (Zone.utc.wall (startOf 0))))) := by
  have hok : (parse "0 0 0 29 2 *").toOption.isSome = true := by decide +kernel
  cases he : parse "0 0 0 29 2 *" with
  | error st =>
    rw [he] at hok
    cases hok
  | ok e => exact ⟨e, rfl, next_least_iff he .utc 0⟩

/-- A zone whose clock goes from 02:00:00 to 03:00:00 on the first day. -/
def spring : Zone where
  off u := if u < 7200 then 0 else 3600
  small u := by split <;> decide
  sparse {s t} hst hs ht := by
    have hs' : s = 7200 := by
      by_contra hne
      apply hs
      split_ifs <;> omega
    have ht' : t = 7200 := by
      by_contra hne
      apply ht
      split_ifs <;> omega
    omega

/-- 02:00:05 falls in the gap and fires when it ends, in the second behind 01:59:59; the search starts at 03:00:00 and
finds 03:00:05. -/
theorem next_passes_over_gap : ∃ e, parse "5 0 2,3 * * *" = .ok e ∧
    next spring e (7199 * second) = .ok (7205 * second) ∧
    7200 * second ∈ {f ∈ Fires spring e | 7199 * second < f} := by
  have heval : (parse "5 0 2,3 * * *").map
      (fun e => (next spring e (7199 * second), decide (Matches e (civilOf 7205)))) =
      .ok (.ok (7205 * second), true) := by decide +kernel
  cases he : parse "5 0 2,3 * * *" with
  | error st =>
    rw [he] at heval
    cases heval
  | ok e =>
    rw [he] at heval
    have hpair := Except.ok.inj heval
    have hmatch := of_decide_eq_true (congrArg Prod.snd hpair)
    have hgap : spring.Reaches (civilOf 7205).secs 7200 := by
      rw [secs_civilOf]
      exact Zone.reaches_of_gap (by decide) (by decide)
    exact ⟨e, rfl, congrArg Prod.fst hpair, ⟨civilOf 7205, 7200, hmatch, Zone.due_iff.2 hgap, rfl⟩, by decide⟩

end Cron
end GoJob
