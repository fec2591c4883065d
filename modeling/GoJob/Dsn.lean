import GoJob.Utf8
/-!
# Dsn — the connection defaults (`withDefaults` of `cmd/gojob/main.go`)

`withDefaults` adds `parseTime` and `loc` to a DSN.  It asks for a `?` and for `loc=` anywhere in the text, while the
driver looks for parameters after the last `/` only.  A password can answer for the parameters: then a default is left
out, or it is added to the name of the database.  Where the text answers for nothing but its parameters, the DSN keeps
everything it said and gets the defaults it did not say.
-/
namespace GoJob
namespace Dsn

/-- A text, as Go has it. -/
abbrev Text := List UInt8

def text (s : String) : Text := Utf8.encode s.toList

/-! ## Cutting a list -/

section Cut

variable {α : Type} [DecidableEq α] {a : α} {l x y : List α}

/-- The list before the first `a` and after it. -/
def cut (a : α) : List α → Option (List α × List α)
  | [] => none
  | b :: l => if b = a then some ([], l) else (cut a l).map (fun p => (b :: p.1, p.2))

/-- The list before the last `a` and after it. -/
def cutLast (a : α) (l : List α) : Option (List α × List α) :=
  (cut a l.reverse).map (fun p => (p.2.reverse, p.1.reverse))

theorem cut_eq_none (h : a ∉ l) : cut a l = none := by
  induction l with
  | nil => rfl
  | cons b l ih =>
    rw [List.mem_cons, not_or] at h
    rw [cut, if_neg (Ne.symm h.1), ih h.2]
    rfl

theorem cut_append (h : a ∉ x) (y : List α) : cut a (x ++ a :: y) = some (x, y) := by
  induction x with
  | nil => exact if_pos rfl
  | cons b x ih =>
    rw [List.mem_cons, not_or] at h
    rw [List.cons_append, cut, if_neg (Ne.symm h.1), ih h.2]
    rfl

theorem cut_eq_some (h : cut a l = some (x, y)) : l = x ++ a :: y ∧ a ∉ x := by
  by_cases hl : a ∈ l
  · obtain ⟨u, v, rfl, hu⟩ := List.eq_append_cons_of_mem hl
    rw [cut_append hu] at h
    cases h
    exact ⟨rfl, hu⟩
  · rw [cut_eq_none hl] at h
    cases h

theorem cutLast_append (x : List α) (h : a ∉ y) : cutLast a (x ++ a :: y) = some (x, y) := by
  unfold cutLast
  rw [List.reverse_append, List.reverse_cons, List.append_assoc, List.singleton_append,
    cut_append (by rwa [List.mem_reverse])]
  simp

theorem cutLast_eq_some (h : cutLast a l = some (x, y)) : l = x ++ a :: y ∧ a ∉ y := by
  obtain ⟨p, hp, hxy⟩ := Option.map_eq_some_iff.1 h
  obtain ⟨hl, hnot⟩ := cut_eq_some hp
  cases hxy
  refine ⟨?_, by rwa [List.mem_reverse]⟩
  rw [← List.reverse_reverse l, hl]
  simp

omit [DecidableEq α] in
theorem infix_intercalate {sep : List α} {L : List (List α)} (h : x ∈ L) : x <:+: sep.intercalate L := by
  induction L with
  | nil => cases h
  | cons y L ih =>
    cases L with
    | nil =>
      rw [List.mem_singleton] at h
      rw [h, List.intercalate_singleton]
    | cons z L =>
      rw [List.intercalate_cons_cons, List.append_assoc]
      rcases List.mem_cons.1 h with rfl | h
      · exact (List.prefix_append ..).isInfix
      · exact (ih h).trans ((List.suffix_append ..).trans (List.suffix_append ..)).isInfix

theorem infix_of_mem_splitOn (h : x ∈ l.splitOn a) : x <:+: l := by
  have hpart : x <:+: [a].intercalate (l.splitOn a) := infix_intercalate h
  rwa [List.intercalate_splitOn] at hpart

end Cut

/-! ## What the driver reads -/

/-- The part of a DSN in front of the last `/`. -/
structure Server where
  user   : Text
  passwd : Text
  net    : Text
  addr   : Text
  deriving DecidableEq, Repr

structure Config extends Server where
  dbName : Text
  params : List (Text × Text)
  deriving DecidableEq, Repr

/-- `user[:password]`. -/
def parseUser (s : Text) : Text × Text := (cut ':'.toUInt8 s).getD (s, [])

/-- `net[(address)]`. -/
def parseNet (s : Text) : Option (Text × Text) :=
  match cut '('.toUInt8 s with
  | none => some (s, [])
  | some (net, rest) => if rest.getLast? = some ')'.toUInt8 then some (net, rest.dropLast) else none

/-- `[user[:password]@][net[(address)]]`: the user ends at the last `@`. -/
def parseServer (s : Text) : Option Server :=
  let (user, host) := match cutLast '@'.toUInt8 s with
    | none => (([], []), s)
    | some (user, host) => (parseUser user, host)
  (parseNet host).map (fun host => ⟨user.1, user.2, host.1, host.2⟩)

/-- `name=value&...`. A piece without a `=` is passed over. -/
def parseParams (s : Text) : List (Text × Text) := (s.splitOn '&'.toUInt8).filterMap (cut '='.toUInt8)

/-- `dbname[?name=value&...]`. -/
def parseDatabase (s : Text) : Text × List (Text × Text) :=
  match cut '?'.toUInt8 s with
  | none => (s, [])
  | some (dbName, params) => (dbName, parseParams params)

/-- `ParseDSN`: the database follows the last `/`. -/
def parseDSN (dsn : Text) : Option Config := do
  let (server, database) ← cutLast '/'.toUInt8 dsn
  let server ← parseServer server
  return { server with dbName := (parseDatabase database).1, params := (parseDatabase database).2 }

/-! ## What is added -/

/-- `shouldEscape` for a query: all but letters, digits and `-_.~`. -/
def shouldEscape (b : UInt8) : Bool :=
  !(decide ('a'.toUInt8 ≤ b ∧ b ≤ 'z'.toUInt8 ∨ 'A'.toUInt8 ≤ b ∧ b ≤ 'Z'.toUInt8) ||
    decide ('0'.toUInt8 ≤ b ∧ b ≤ '9'.toUInt8) || decide (b ∈ text "-_.~"))

def upperhex : Text := text "0123456789ABCDEF"

def queryEscape (s : Text) : Text :=
  s.flatMap (fun b =>
    if b = ' '.toUInt8 then ['+'.toUInt8]
    else if shouldEscape b then
      ['%'.toUInt8, upperhex.getD (b.toNat / 16) '0'.toUInt8, upperhex.getD (b.toNat % 16) '0'.toUInt8]
    else [b])

def parseTimeName : Text := text "parseTime"

def locName : Text := text "loc"

/-- The map of `withDefaults`, for the name of a zone. -/
def defaults (zone : Text) : List (Text × Text) :=
  [(parseTimeName, text "true"), (locName, queryEscape zone)]

/-- `strings.Contains(dsn, k + "=")`. -/
def mentions (dsn k : Text) : Bool := decide (k ++ ['='.toUInt8] <:+: dsn)

/-- One round of the loop: what has been written, and the separator. -/
def addDefault (dsn : Text) (b : Text × UInt8) (p : Text × Text) : Text × UInt8 :=
  if mentions dsn p.1 then b else (b.1 ++ b.2 :: (p.1 ++ '='.toUInt8 :: p.2), '&'.toUInt8)

/-- `withDefaults`, for the order in which the map is walked. -/
def withDefaults (order : List (Text × Text)) (dsn : Text) : Text :=
  (order.foldl (addDefault dsn) (dsn, if '?'.toUInt8 ∈ dsn then '&'.toUInt8 else '?'.toUInt8)).1

/-! ## Defaults that are read back -/

/-- A default in the form `name=value`. -/
def written (p : Text × Text) : Text := p.1 ++ '='.toUInt8 :: p.2

/-- The defaults as they are written, the first after `sep`. -/
def joined : UInt8 → List (Text × Text) → Text
  | _, [] => []
  | sep, p :: ps => sep :: (written p ++ joined '&'.toUInt8 ps)

/-- Nothing in a default reads as another part of the DSN. -/
structure Plain (p : Text × Text) : Prop where
  name     : '='.toUInt8 ∉ p.1
  slash    : '/'.toUInt8 ∉ written p
  question : '?'.toUInt8 ∉ written p
  ampersand : '&'.toUInt8 ∉ written p

theorem upperhex_getD {n : Nat} (h : n < 16) : upperhex.getD n '0'.toUInt8 ∈ upperhex := by
  rw [List.getD_eq_getElem _ _ (show n < upperhex.length from h)]
  exact List.getElem_mem _

/-- What is escaped does not stand in an escaped text, unless the escapes are made of it. -/
theorem notMem_queryEscape {b : UInt8} (hb : shouldEscape b = true) (hne : b ∉ '+'.toUInt8 :: '%'.toUInt8 :: upperhex)
    (s : Text) : b ∉ queryEscape s := by
  simp only [List.mem_cons, not_or] at hne
  intro h
  obtain ⟨a, -, ha⟩ := List.mem_flatMap.1 h
  have hlt : a.toNat < 256 := a.toNat_lt
  split at ha
  · exact hne.1 (List.mem_singleton.1 ha)
  split at ha
  · simp only [List.mem_cons, List.not_mem_nil, or_false] at ha
    rcases ha with rfl | rfl | rfl
    · exact hne.2.1 rfl
    · exact hne.2.2 (upperhex_getD (by omega))
    · exact hne.2.2 (upperhex_getD (by omega))
  · rename_i hesc
    rw [List.mem_singleton.1 ha] at hb
    exact hesc hb

theorem plain_of_mem_defaults {zone : Text} {p : Text × Text} (h : p ∈ defaults zone) : Plain p := by
  simp only [defaults, List.mem_cons, List.not_mem_nil, or_false] at h
  rcases h with rfl | rfl
  · exact ⟨by decide, by decide, by decide, by decide⟩
  · have key : ∀ b, b ∉ locName ++ ['='.toUInt8] → shouldEscape b = true →
        b ∉ '+'.toUInt8 :: '%'.toUInt8 :: upperhex → b ∉ written (locName, queryEscape zone) := by
      intro b hname hesc hne
      simp only [List.mem_append, List.mem_singleton, not_or] at hname
      simp [written, hname, notMem_queryEscape hesc hne zone]
    have hname : '='.toUInt8 ∉ locName := by decide
    exact ⟨hname, key _ (by decide) (by decide) (by decide), key _ (by decide) (by decide) (by decide),
      key _ (by decide) (by decide) (by decide)⟩

theorem foldl_addDefault (dsn : Text) (order : List (Text × Text)) (out : Text) (sep : UInt8) :
    (order.foldl (addDefault dsn) (out, sep)).1 = out ++ joined sep (order.filter (fun p => !mentions dsn p.1)) := by
  induction order generalizing out sep with
  | nil => simp [joined]
  | cons p order ih =>
    rw [List.foldl_cons]
    cases hm : mentions dsn p.1 with
    | true =>
      rw [show addDefault dsn (out, sep) p = (out, sep) from if_pos hm, ih, List.filter_cons_of_neg (by simp [hm])]
    | false =>
      rw [show addDefault dsn (out, sep) p = (out ++ sep :: written p, _) from if_neg (by simp [hm]), ih,
        List.filter_cons_of_pos (by simp [hm])]
      simp [joined]

theorem parseParams_written {p : Text × Text} (hp : Plain p) (s : Text) :
    parseParams (s ++ '&'.toUInt8 :: written p) = parseParams s ++ [p] := by
  unfold parseParams
  rw [List.splitOn_append_cons_self, List.splitOn_eq_singleton hp.ampersand, List.filterMap_append]
  simp [written, cut_append hp.name]

theorem parseParams_joined {ps : List (Text × Text)} (hps : ∀ p ∈ ps, Plain p) (s : Text) :
    parseParams (s ++ joined '&'.toUInt8 ps) = parseParams s ++ ps := by
  induction ps generalizing s with
  | nil => simp [joined]
  | cons p ps ih =>
    have hp := hps p List.mem_cons_self
    rw [joined, ← List.cons_append, ← List.append_assoc, ih (fun q hq => hps q (List.mem_cons_of_mem p hq)),
      parseParams_written hp]
    simp

theorem notMem_joined {b sep : UInt8} {ps : List (Text × Text)} (hsep : b ≠ sep) (hamp : b ≠ '&'.toUInt8)
    (h : ∀ p ∈ ps, b ∉ written p) : b ∉ joined sep ps := by
  induction ps generalizing sep with
  | nil => simp [joined]
  | cons p ps ih =>
    have hp := h p List.mem_cons_self
    have hrest := ih hamp (fun q hq => h q (List.mem_cons_of_mem p hq))
    simp [joined, hsep, hp, hrest]

/-! ## The DSN with its defaults -/

variable {dsn left right zone : Text} {c : Config} {order ps : List (Text × Text)}

theorem parseDSN_eq (left : Text) (h : '/'.toUInt8 ∉ right) :
    parseDSN (left ++ '/'.toUInt8 :: right) = (parseServer left).map (fun server =>
      { server with dbName := (parseDatabase right).1, params := (parseDatabase right).2 }) := by
  unfold parseDSN
  rw [cutLast_append left h]
  cases hs : parseServer left <;> simp [hs]

theorem parseDSN_eq_some (h : parseDSN dsn = some c) :
    ∃ left right, dsn = left ++ '/'.toUInt8 :: right ∧ '/'.toUInt8 ∉ right ∧ parseServer left = some c.toServer ∧
      parseDatabase right = (c.dbName, c.params) := by
  cases hcut : cutLast '/'.toUInt8 dsn with
  | none => simp [parseDSN, hcut] at h
  | some p =>
    obtain ⟨left, right⟩ := p
    obtain ⟨rfl, hright⟩ := cutLast_eq_some hcut
    rw [parseDSN_eq left hright] at h
    obtain ⟨server, hserver, rfl⟩ := Option.map_eq_some_iff.1 h
    exact ⟨left, right, rfl, hright, hserver, rfl⟩

/-- What is written behind a DSN changes the part after its last `/` only. -/
theorem parseDSN_append {suffix : Text} (hserver : parseServer left = some c.toServer) (hright : '/'.toUInt8 ∉ right)
    (hsuffix : '/'.toUInt8 ∉ suffix) :
    parseDSN (left ++ '/'.toUInt8 :: right ++ suffix) = some { c.toServer with
      dbName := (parseDatabase (right ++ suffix)).1, params := (parseDatabase (right ++ suffix)).2 } := by
  have hboth : '/'.toUInt8 ∉ right ++ suffix := by simp [hright, hsuffix]
  rw [List.append_assoc, List.cons_append, parseDSN_eq left hboth, hserver]
  rfl

theorem parseDatabase_query (h : '?'.toUInt8 ∈ right) (hps : ∀ p ∈ ps, Plain p) :
    parseDatabase (right ++ joined '&'.toUInt8 ps) = ((parseDatabase right).1, (parseDatabase right).2 ++ ps) := by
  obtain ⟨dbName, params, rfl, hdb⟩ := List.eq_append_cons_of_mem h
  unfold parseDatabase
  rw [List.append_assoc, List.cons_append, cut_append hdb, cut_append hdb]
  simp [parseParams_joined hps]

theorem parseDatabase_bare (h : '?'.toUInt8 ∉ right) : parseDatabase right = (right, []) := by
  unfold parseDatabase
  rw [cut_eq_none h]

theorem parseDatabase_first (h : '?'.toUInt8 ∉ right) (hps : ∀ p ∈ ps, Plain p) (hne : ps ≠ []) :
    parseDatabase (right ++ joined '?'.toUInt8 ps) = (right, ps) := by
  obtain ⟨p, ps, rfl⟩ := List.exists_cons_of_ne_nil hne
  have hp := hps p List.mem_cons_self
  unfold parseDatabase
  rw [joined, cut_append h]
  show (right, parseParams (written p ++ joined '&'.toUInt8 ps)) = _
  rw [parseParams_joined (fun q hq => hps q (List.mem_cons_of_mem p hq))]
  unfold parseParams
  rw [List.splitOn_eq_singleton hp.ampersand]
  simp [written, cut_append hp.name]

theorem infix_of_mem_parseParams {s : Text} {p : Text × Text} (h : p ∈ parseParams s) :
    p.1 ++ ['='.toUInt8] <:+: s := by
  obtain ⟨piece, hpiece, hcut⟩ := List.mem_filterMap.1 h
  obtain ⟨rfl, -⟩ := cut_eq_some hcut
  refine List.IsInfix.trans ⟨[], p.2, ?_⟩ (infix_of_mem_splitOn hpiece)
  simp

theorem infix_of_mem_parseDatabase {p : Text × Text} (h : p ∈ (parseDatabase right).2) :
    p.1 ++ ['='.toUInt8] <:+: right := by
  by_cases hq : '?'.toUInt8 ∈ right
  · obtain ⟨dbName, params, rfl, hdb⟩ := List.eq_append_cons_of_mem hq
    unfold parseDatabase at h
    rw [cut_append hdb] at h
    exact (infix_of_mem_parseParams h).trans ((List.suffix_cons ..).trans (List.suffix_append ..)).isInfix
  · rw [parseDatabase_bare hq] at h
    cases h

theorem mentions_of_mem_params (h : parseDSN dsn = some c) {k : Text} (hk : k ∈ c.params.map Prod.fst) :
    mentions dsn k = true := by
  obtain ⟨left, right, rfl, -, -, hdb⟩ := parseDSN_eq_some h
  obtain ⟨p, hp, rfl⟩ := List.mem_map.1 hk
  have hin := infix_of_mem_parseDatabase (p := p) (by rw [hdb]; exact hp)
  exact decide_eq_true (hin.trans ((List.suffix_cons ..).trans (List.suffix_append ..)).isInfix)

/-- The DSN has a `?` after its last `/`. -/
def HasQuery (dsn : Text) : Prop := ∃ left right, cutLast '/'.toUInt8 dsn = some (left, right) ∧ '?'.toUInt8 ∈ right

theorem hasQuery_iff (h : '/'.toUInt8 ∉ right) : HasQuery (left ++ '/'.toUInt8 :: right) ↔ '?'.toUInt8 ∈ right := by
  unfold HasQuery
  rw [cutLast_append left h]
  simp

/-- The text of a DSN answers for nothing but its parameters. -/
structure Unambiguous (zone dsn : Text) (c : Config) : Prop where
  /-- A default that is mentioned is the name of a parameter. -/
  named : ∀ p ∈ defaults zone, mentions dsn p.1 = true → p.1 ∈ c.params.map Prod.fst
  /-- If a default is to be added, a `?` that stands anywhere stands after the last `/`. -/
  asked : (∃ p ∈ defaults zone, p.1 ∉ c.params.map Prod.fst) → '?'.toUInt8 ∈ dsn → HasQuery dsn

/-- The DSN reads as before, and has the defaults it did not name. -/
def Keeps (zone : Text) (c : Config) (out : Text) : Prop :=
  ∃ c' extra, parseDSN out = some c' ∧ c'.toServer = c.toServer ∧ c'.dbName = c.dbName ∧ c'.params = c.params ++ extra ∧
    extra.Perm ((defaults zone).filter (fun p => decide (p.1 ∉ c.params.map Prod.fst)))

def missing (order : List (Text × Text)) (dsn : Text) : List (Text × Text) :=
  order.filter (fun p => !mentions dsn p.1)

theorem withDefaults_eq (order : List (Text × Text)) (dsn : Text) :
    withDefaults order dsn = dsn ++ joined (if '?'.toUInt8 ∈ dsn then '&'.toUInt8 else '?'.toUInt8)
      (missing order dsn) := foldl_addDefault dsn order dsn _

theorem slash_notMem_joined {sep : UInt8} (hsep : '/'.toUInt8 ≠ sep) (hps : ∀ p ∈ ps, Plain p) :
    '/'.toUInt8 ∉ joined sep ps := notMem_joined hsep (by decide) (fun p hp => (hps p hp).slash)

/-- Where the separator is the right one, what is missing is added to the parameters. -/
theorem parseDSN_withDefaults (h : parseDSN dsn = some c) (hplain : ∀ p ∈ order, Plain p)
    (hq : missing order dsn ≠ [] → '?'.toUInt8 ∈ dsn → HasQuery dsn) :
    parseDSN (withDefaults order dsn) = some { c with params := c.params ++ missing order dsn } := by
  obtain ⟨left, right, rfl, hright, hserver, hdb⟩ := parseDSN_eq_some h
  have hps : ∀ p ∈ missing order (left ++ '/'.toUInt8 :: right), Plain p :=
    fun p hp => hplain p (List.mem_filter.1 hp).1
  rw [hasQuery_iff hright] at hq
  rw [withDefaults_eq]
  generalize missing order (left ++ '/'.toUInt8 :: right) = ps at *
  by_cases hin : '?'.toUInt8 ∈ right
  · rw [if_pos (by simp [hin]), parseDSN_append hserver hright (slash_notMem_joined (by decide) hps),
      parseDatabase_query hin hps, hdb]
  rw [parseDatabase_bare hin] at hdb
  by_cases hne : ps = []
  · subst hne
    rw [joined, List.append_nil, h, List.append_nil]
  · have hnot : '?'.toUInt8 ∉ left ++ '/'.toUInt8 :: right := fun hmem => hin (hq hne hmem)
    rw [if_neg hnot, parseDSN_append hserver hright (slash_notMem_joined (by decide) hps),
      parseDatabase_first hin hps hne]
    obtain ⟨hname, hparams⟩ := Prod.mk.inj hdb
    rw [← hparams, hname]
    rfl

/-- Where it is not, the defaults are read as a part of the database's name. -/
theorem parseDSN_withDefaults_misread (h : parseDSN dsn = some c) (hplain : ∀ p ∈ order, Plain p)
    (hne : missing order dsn ≠ []) (hin : '?'.toUInt8 ∈ dsn) (hq : ¬ HasQuery dsn) :
    ∃ c', parseDSN (withDefaults order dsn) = some c' ∧ c'.dbName ≠ c.dbName := by
  obtain ⟨left, right, rfl, hright, hserver, hdb⟩ := parseDSN_eq_some h
  have hps : ∀ p ∈ missing order (left ++ '/'.toUInt8 :: right), Plain p :=
    fun p hp => hplain p (List.mem_filter.1 hp).1
  rw [hasQuery_iff hright] at hq
  rw [parseDatabase_bare hq] at hdb
  rw [withDefaults_eq, if_pos hin, parseDSN_append hserver hright (slash_notMem_joined (by decide) hps)]
  have hbare : '?'.toUInt8 ∉ right ++ joined '&'.toUInt8 (missing order (left ++ '/'.toUInt8 :: right)) := by
    have hjoined : '?'.toUInt8 ∉ joined '&'.toUInt8 (missing order (left ++ '/'.toUInt8 :: right)) :=
      notMem_joined (by decide) (by decide) (fun p hp => (hps p hp).question)
    simp [hq, hjoined]
  refine ⟨_, rfl, ?_⟩
  obtain ⟨hname, -⟩ := Prod.mk.inj hdb
  obtain ⟨p, ps, hmissing⟩ := List.exists_cons_of_ne_nil hne
  rw [parseDatabase_bare hbare, ← hname, hmissing]
  simp [joined]

theorem Keeps.unambiguous (h : parseDSN dsn = some c) (horder : order.Perm (defaults zone))
    (hk : Keeps zone c (withDefaults order dsn)) : Unambiguous zone dsn c := by
  have hplain : ∀ p ∈ order, Plain p := fun p hp => plain_of_mem_defaults (horder.mem_iff.1 hp)
  obtain ⟨c', extra, hparse, -, hname, hparams, hextra⟩ := hk
  have hq : missing order dsn ≠ [] → '?'.toUInt8 ∈ dsn → HasQuery dsn := by
    intro hne hin
    by_contra hq
    obtain ⟨c'', hparse', hdb⟩ := parseDSN_withDefaults_misread h hplain hne hin hq
    rw [hparse, Option.some.injEq] at hparse'
    exact hdb (hparse' ▸ hname)
  rw [parseDSN_withDefaults h hplain hq, Option.some.injEq] at hparse
  subst hparse
  obtain rfl := List.append_cancel_left hparams
  have hiff : ∀ p ∈ defaults zone, mentions dsn p.1 = false ↔ p.1 ∉ c.params.map Prod.fst := by
    intro p hp
    have := hextra.mem_iff (a := p)
    simpa [missing, hp, horder.mem_iff] using this
  refine ⟨fun p hp hm => ?_, fun ⟨p, hp, hnot⟩ hin => hq ?_ hin⟩
  · by_contra hnot
    rw [(hiff p hp).2 hnot] at hm
    cases hm
  · have hmem : p ∈ missing order dsn := List.mem_filter.2 ⟨horder.mem_iff.2 hp, by simp [(hiff p hp).2 hnot]⟩
    exact List.ne_nil_of_mem hmem

theorem Unambiguous.keeps (h : parseDSN dsn = some c) (horder : order.Perm (defaults zone))
    (hu : Unambiguous zone dsn c) : Keeps zone c (withDefaults order dsn) := by
  have hplain : ∀ p ∈ order, Plain p := fun p hp => plain_of_mem_defaults (horder.mem_iff.1 hp)
  have hiff : ∀ p ∈ defaults zone, (!mentions dsn p.1) = decide (p.1 ∉ c.params.map Prod.fst) := by
    intro p hp
    by_cases hmem : p.1 ∈ c.params.map Prod.fst
    · simp [mentions_of_mem_params h hmem, hmem]
    · have : mentions dsn p.1 = false := Bool.eq_false_iff.2 (fun hm => hmem (hu.named p hp hm))
      simp [this, hmem]
  have hq : missing order dsn ≠ [] → '?'.toUInt8 ∈ dsn → HasQuery dsn := by
    intro hne hin
    obtain ⟨p, hp⟩ := List.exists_mem_of_ne_nil _ hne
    obtain ⟨hp, hm⟩ := List.mem_filter.1 hp
    have hp := horder.mem_iff.1 hp
    exact hu.asked ⟨p, hp, by simpa [hiff p hp] using hm⟩ hin
  refine ⟨_, missing order dsn, parseDSN_withDefaults h hplain hq, rfl, rfl, rfl, ?_⟩
  unfold missing
  rw [List.filter_congr (fun p hp => hiff p (horder.mem_iff.1 hp))]
  exact horder.filter _

/-- **The defaults keep a DSN exactly if its text answers for nothing but its parameters**, whatever the order in which
the map is walked. -/
theorem withDefaults_keeps_iff (h : parseDSN dsn = some c) (horder : order.Perm (defaults zone)) :
    Keeps zone c (withDefaults order dsn) ↔ Unambiguous zone dsn c :=
  ⟨Keeps.unambiguous h horder, Unambiguous.keeps h horder⟩

theorem withDefaults_keeps_timeout :
    Keeps (text "UTC")
      ⟨⟨text "gojob", text "secret", text "tcp", text "db:3306"⟩, text "jobs", [(text "timeout", text "5s")]⟩
      (withDefaults (defaults (text "UTC")) (text "gojob:secret@tcp(db:3306)/jobs?timeout=5s")) := by
  refine (withDefaults_keeps_iff (by decide) (List.Perm.refl _)).2 ⟨by decide, fun _ _ => ?_⟩
  exact ⟨text "gojob:secret@tcp(db:3306)", text "jobs?timeout=5s", by decide, by decide⟩

/-- A password with a `?`: the defaults become a part of the database's name. -/
theorem password_renames_database :
    parseDSN (text "gojob:what?@tcp(db:3306)/jobs") =
      some ⟨⟨text "gojob", text "what?", text "tcp", text "db:3306"⟩, text "jobs", []⟩ ∧
    parseDSN (withDefaults (defaults (text "UTC")) (text "gojob:what?@tcp(db:3306)/jobs")) =
      some ⟨⟨text "gojob", text "what?", text "tcp", text "db:3306"⟩, text "jobs&parseTime=true&loc=UTC", []⟩ := by
  constructor <;> decide

end Dsn
end GoJob
