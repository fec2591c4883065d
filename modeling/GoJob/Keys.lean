import GoJob.Body
import GoJob.OnTime
import GoJob.Utf8
/-!
# Keys — the bytes of an execution key (`materialize.go`)

A key is the readable text or, if that is too long for its column, the first 135 bytes of it and a mark with the digest
of all of it.  The cut counts bytes and can fall into the middle of a character, and then the key is no text.  And the
mark is only a mark as long as nobody writes it: a request id may end in one, and its key is then what the key of a
longer request is cut down to.
-/
namespace GoJob

open Utf8 (encode Boundary)

variable {env : Env} {kind j disc : String}

/-! ## Bytes -/

/-- `ExecutionKey` as Go computes it, on bytes. -/
def keyBytes (env : Env) (kind j disc : String) : List UInt8 :=
  let full := keyText kind j disc
  if full.utf8ByteSize ≤ maxExecutionKey then encode full.toList
  else
    let suffix := "~" ++ env.digest full
    (encode full.toList).take (maxExecutionKey - suffix.utf8ByteSize) ++ encode suffix.toList

/-- Cutting a text is cutting its bytes, where that gives a text. -/
theorem takeBytes_iff {cs a : List Char} {n : Nat} (hn : n ≤ (encode cs).length) :
    takeBytes cs n = some a ↔ encode a = (encode cs).take n := by
  induction cs generalizing n a with
  | nil =>
    obtain rfl : n = 0 := by simpa using hn
    simp only [takeBytes, Option.some.injEq, List.take_zero]
    exact ⟨fun h => h ▸ rfl, fun h => Utf8.encode_injective (by simp [h])⟩
  | cons c cs ih =>
    cases n with
    | zero =>
      simp only [takeBytes, Option.some.injEq, List.take_zero]
      exact ⟨fun h => h ▸ rfl, fun h => Utf8.encode_injective (by simp [h])⟩
    | succ n =>
      have hlen := String.length_utf8EncodeChar c
      show (if c.utf8Size ≤ n + 1 then (takeBytes cs (n + 1 - c.utf8Size)).map (c :: ·) else none) = _ ↔ _
      by_cases hc : c.utf8Size ≤ n + 1
      · have hroom : n + 1 - c.utf8Size ≤ (encode cs).length := by
          rw [Utf8.encode_cons, List.length_append] at hn
          omega
        rw [if_pos hc, Utf8.encode_cons, List.take_append, List.take_of_length_le (by omega), hlen]
        constructor
        · intro h
          obtain ⟨a', ha', rfl⟩ := Option.map_eq_some_iff.1 h
          rw [Utf8.encode_cons, (ih hroom).1 ha']
        · intro h
          cases a with
          | nil => exact absurd (List.append_eq_nil_iff.1 h.symm).1 (Utf8.encodeChar_ne_nil c)
          | cons d a =>
            obtain ⟨rfl, htail⟩ := Utf8.encodeChar_inj (c := d) (by simpa using h)
            rw [(ih hroom).2 htail]
            rfl
      · rw [if_neg hc]
        refine ⟨fun h => absurd h (Option.some_ne_none a).symm, fun h => ?_⟩
        -- A text of at least one byte begins with a whole character, and there is no room for this one.
        have hsplit : encode a ++ (encode (c :: cs)).drop (n + 1) = encode (c :: cs) := by
          rw [h, List.take_append_drop]
        obtain ⟨rest, hrest, -⟩ := Utf8.begins_of_encode hsplit
        have hlena : (encode a).length = n + 1 := by rw [h, List.length_take, min_eq_left hn]
        cases a with
        | nil => cases hlena
        | cons d a =>
          obtain ⟨rfl, -⟩ := List.cons.inj hrest
          rw [Utf8.encode_cons, List.length_append, hlen] at hlena
          omega

theorem executionKey_eq (env : Env) (kind j disc : String) : executionKey env kind j disc =
    if (keyText kind j disc).utf8ByteSize ≤ maxExecutionKey then some (keyText kind j disc)
    else (takeBytes (keyText kind j disc).toList
      (maxExecutionKey - ("~" ++ env.digest (keyText kind j disc)).utf8ByteSize)).map
        (fun cs => String.ofList cs ++ ("~" ++ env.digest (keyText kind j disc))) := rfl

/-- **A key is a text exactly if its bytes are.** -/
theorem executionKey_iff {k : String} : executionKey env kind j disc = some k ↔
    encode k.toList = keyBytes env kind j disc := by
  rw [executionKey_eq]
  unfold keyBytes
  dsimp only
  generalize keyText kind j disc = full
  by_cases hshort : full.utf8ByteSize ≤ maxExecutionKey
  · rw [if_pos hshort, if_pos hshort, Option.some.injEq]
    exact ⟨fun h => by rw [← h], fun h => (String.toList_inj.1 (Utf8.encode_injective h)).symm⟩
  rw [if_neg hshort, if_neg hshort]
  have hmark : encode ("~" ++ env.digest full).toList = 126 :: encode (env.digest full).toList := by
    rw [String.toList_append, Utf8.encode_append]
    rfl
  have hroom : maxExecutionKey - ("~" ++ env.digest full).utf8ByteSize ≤ (encode full.toList).length := by
    rw [Utf8.length_encode]
    omega
  constructor
  · intro h
    obtain ⟨a, ha, rfl⟩ := Option.map_eq_some_iff.1 h
    rw [String.toList_append, String.toList_ofList, Utf8.encode_append, (takeBytes_iff hroom).1 ha]
  · intro h
    -- The mark is ascii, so the text is cut in front of it.
    rw [hmark] at h
    obtain ⟨a, rest, hk, ha, hrest⟩ := Utf8.boundary_of_ascii (by decide) h
    rw [← hmark] at hrest
    rw [(takeBytes_iff hroom).2 ha, Option.map_some, Option.some.injEq]
    apply String.toList_inj.1
    rw [String.toList_append, String.toList_ofList, hk, Utf8.encode_injective hrest]

/-! ## Digests -/

def hexDigit (x : Char) : Bool := (decide ('0' ≤ x) && decide (x ≤ '9')) || (decide ('a' ≤ x) && decide (x ≤ 'f'))

/-- `hex.EncodeToString(sum[:12])`. -/
structure Digest (text : String) : Prop where
  length : text.toList.length = 24
  digits : ∀ x ∈ text.toList, hexDigit x = true

theorem Digest.of_all {text : String} (h : text.toList.length = 24) (hx : text.toList.all hexDigit = true) :
    Digest text := ⟨h, List.all_eq_true.1 hx⟩

/-- The digests are twelve bytes in hex. -/
def Env.Hex (env : Env) : Prop := ∀ full, Digest (env.digest full)

theorem hexDigit_ascii {x : Char} (h : hexDigit x = true) : x.toNat < 128 := by
  unfold hexDigit at h
  simp only [Bool.or_eq_true, Bool.and_eq_true, decide_eq_true_eq] at h
  rcases h with ⟨-, h⟩ | ⟨-, h⟩
  · exact lt_of_le_of_lt (Char.le_def.1 h) (by decide)
  · exact lt_of_le_of_lt (Char.le_def.1 h) (by decide)

theorem Digest.marked_size {text : String} (h : Digest text) : ("~" ++ text).utf8ByteSize = 25 := by
  rw [String.utf8ByteSize_append, ← Utf8.length_encode text,
    Utf8.length_encode_ascii fun x hx => hexDigit_ascii (h.digits x hx), h.length]
  rfl

/-- What a key leaves of a long text. -/
def keptBytes : Nat := 135

theorem keyBytes_short (h : (keyText kind j disc).utf8ByteSize ≤ maxExecutionKey) :
    keyBytes env kind j disc = encode (keyText kind j disc).toList := if_pos h

theorem keyBytes_long (hd : env.Hex) (h : ¬ (keyText kind j disc).utf8ByteSize ≤ maxExecutionKey) :
    keyBytes env kind j disc = (encode (keyText kind j disc).toList).take keptBytes ++
      encode ("~" ++ env.digest (keyText kind j disc)).toList := by
  unfold keyBytes
  dsimp only
  rw [if_neg h, (hd _).marked_size]
  rfl

/-! ## A key that is a text -/

theorem identifierChar_ascii {x : Char} (h : identifierChar x = true) : x.toNat < 128 := by
  unfold identifierChar at h
  simp only [Bool.or_eq_true, Bool.and_eq_true, decide_eq_true_eq] at h
  rcases h with ((((⟨-, h⟩ | ⟨-, h⟩) | ⟨-, h⟩) | h) | h) | h
  · exact lt_of_le_of_lt (Char.le_def.1 h) (by decide)
  · exact lt_of_le_of_lt (Char.le_def.1 h) (by decide)
  · exact lt_of_le_of_lt (Char.le_def.1 h) (by decide)
  · rw [h]; decide
  · rw [h]; decide
  · rw [h]; decide

theorem keyText_size (kind j disc : String) :
    (keyText kind j disc).utf8ByteSize = kind.utf8ByteSize + j.utf8ByteSize + disc.utf8ByteSize + 2 := by
  unfold keyText
  simp only [String.utf8ByteSize_append]
  have : (":" : String).utf8ByteSize = 1 := rfl
  omega

/-- **The key is a text unless the cut splits a character of the text.** -/
theorem executionKey_isSome_iff (hd : env.Hex) : (∃ k, executionKey env kind j disc = some k) ↔
    (keyText kind j disc).utf8ByteSize ≤ maxExecutionKey ∨ Boundary (keyText kind j disc).toList keptBytes := by
  by_cases hshort : (keyText kind j disc).utf8ByteSize ≤ maxExecutionKey
  · simp only [hshort, true_or, iff_true]
    exact ⟨_, executionKey_iff.2 (keyBytes_short hshort).symm⟩
  · have hn : keptBytes ≤ (encode (keyText kind j disc).toList).length := by
      rw [Utf8.length_encode]
      unfold maxExecutionKey at hshort
      unfold keptBytes
      omega
    rw [executionKey_eq, if_neg hshort, (hd _).marked_size, ← Utf8.take_text_iff hn]
    simp only [hshort, false_or]
    constructor
    · rintro ⟨k, hk⟩
      obtain ⟨a, ha, -⟩ := Option.map_eq_some_iff.1 hk
      exact ⟨a, (takeBytes_iff hn).1 ha⟩
    · rintro ⟨a, ha⟩
      exact ⟨_, Option.map_eq_some_iff.2 ⟨a, (takeBytes_iff hn).2 ha, rfl⟩⟩

theorem toString_ascii {n : Int} {x : Char} (h : x ∈ (toString n).toList) : x.toNat < 128 := by
  have digits : ∀ {m : Nat} {x : Char}, x ∈ m.repr.toList → x.toNat < 128 := by
    intro m x hx
    rw [Nat.toList_repr] at hx
    have hdigit := Nat.isDigit_of_mem_toDigits (by decide) (by decide) hx
    simp only [Char.isDigit, Bool.and_eq_true, decide_eq_true_eq] at hdigit
    exact lt_of_le_of_lt (Char.le_def.1 hdigit.2) (by decide)
  rw [Int.toString_eq_repr, Int.repr_eq_if] at h
  split at h
  · exact digits h
  · rw [String.toList_append] at h
    rcases List.mem_append.1 h with h | h
    · obtain rfl : x = '-' := by simpa using h
      decide
    · exact digits h

/-- **The key of a fire is always a text.** -/
theorem cronExecutionKey_some (hd : env.Hex) (hj : Identifier j 128) (f : Instant) :
    ∃ k, cronExecutionKey env j f = some k := by
  refine (executionKey_isSome_iff hd).2 ?_
  by_cases hshort : (keyText "c" j (toString (f / second))).utf8ByteSize ≤ maxExecutionKey
  · exact Or.inl hshort
  have hascii : ∀ x ∈ (keyText "c" j (toString (f / second))).toList, x.toNat < 128 := by
    intro x hx
    rw [keyText_toList] at hx
    simp only [List.mem_append, List.mem_cons] at hx
    rcases hx with hx | rfl | hx | rfl | hx
    · obtain rfl : x = 'c' := by simpa using hx
      decide
    · decide
    · exact identifierChar_ascii (hj.chars x hx)
    · decide
    · exact toString_ascii hx
  refine Or.inr (Utf8.boundary_ascii hascii ?_)
  rw [← Utf8.length_encode_ascii hascii, Utf8.length_encode]
  unfold maxExecutionKey at hshort
  unfold keptBytes
  omega

theorem length_keyBytes_le (hd : env.Hex) (kind j disc : String) :
    (keyBytes env kind j disc).length ≤ maxExecutionKey := by
  by_cases hshort : (keyText kind j disc).utf8ByteSize ≤ maxExecutionKey
  · rw [keyBytes_short hshort, Utf8.length_encode]
    exact hshort
  · rw [keyBytes_long hd hshort, List.length_append, List.length_take, Utf8.length_encode ("~" ++ _),
      (hd _).marked_size]
    unfold keptBytes maxExecutionKey
    omega

/-- **A manual key fits its column**, as a text of at most 160 characters, exactly if it is short or the request id can
be cut where the key is. -/
theorem manual_key_fits (hd : env.Hex) {r : String} (hj : Identifier j 128) :
    (∃ k, executionKey env "m" j r = some k ∧ encode k.toList = keyBytes env "m" j r ∧ k.length ≤ maxExecutionKey) ↔
      j.utf8ByteSize + r.utf8ByteSize + 3 ≤ maxExecutionKey ∨
        ∃ s t, r = s ++ t ∧ s.utf8ByteSize = 132 - j.utf8ByteSize := by
  have hsize : (keyText "m" j r).utf8ByteSize = j.utf8ByteSize + r.utf8ByteSize + 3 := by
    rw [keyText_size]
    have : ("m" : String).utf8ByteSize = 1 := rfl
    omega
  have hcut : Boundary (keyText "m" j r).toList keptBytes ↔
      ∃ s t, r = s ++ t ∧ s.utf8ByteSize = 132 - j.utf8ByteSize := by
    have hfront : (keyText "m" j r).toList = ("m:" ++ j ++ ":").toList ++ r.toList := by
      simp [keyText, String.toList_append]
    have hlen : (encode ("m:" ++ j ++ ":").toList).length = j.utf8ByteSize + 3 := by
      rw [Utf8.length_encode, String.utf8ByteSize_append, String.utf8ByteSize_append]
      have h₁ : ("m:" : String).utf8ByteSize = 2 := rfl
      have h₂ : (":" : String).utf8ByteSize = 1 := rfl
      omega
    have hkept : keptBytes = (encode ("m:" ++ j ++ ":").toList).length + (132 - j.utf8ByteSize) := by
      have := hj.short
      rw [hlen]
      unfold keptBytes
      omega
    rw [hfront, hkept, Utf8.boundary_append, Utf8.boundary_iff]
  rw [← hsize, ← hcut, ← executionKey_isSome_iff hd]
  constructor
  · rintro ⟨k, hk, -⟩
    exact ⟨k, hk⟩
  · rintro ⟨k, hk⟩
    have hbytes := executionKey_iff.1 hk
    refine ⟨k, hk, hbytes, le_trans (Utf8.length_le_size k) ?_⟩
    rw [← Utf8.length_encode, hbytes]
    exact length_keyBytes_le hd "m" j r

def zeros : String := "000000000000000000000000"

theorem zeros_digest : Digest zeros := .of_all (by decide +kernel) (by decide +kernel)

/-- A digest of nothing but zeros. -/
def zeroEnv : Env := ⟨fun _ => zeros, fun defaults _ => .ok defaults⟩

theorem zeroEnv_hex : zeroEnv.Hex := fun _ => zeros_digest

/-- A job name of 128 letters. -/
def longName : String := String.ofList (List.replicate 128 'a')

theorem longName_toList : longName.toList = List.replicate 128 'a' := String.toList_ofList

theorem longName_identifier : Identifier longName 128 where
  filled := by decide +kernel
  short := by
    rw [← Utf8.length_encode, longName_toList]
    decide +kernel
  chars r hr := by
    rw [longName_toList] at hr
    rw [List.eq_of_mem_replicate hr]
    decide

theorem manual_key_fits_long : (∃ k, executionKey zeroEnv "m" longName "nightly" = some k ∧
    encode k.toList = keyBytes zeroEnv "m" longName "nightly" ∧ k.length ≤ maxExecutionKey) ↔
      longName.utf8ByteSize + "nightly".utf8ByteSize + 3 ≤ maxExecutionKey ∨
        ∃ s t, "nightly" = s ++ t ∧ s.utf8ByteSize = 132 - longName.utf8ByteSize :=
  manual_key_fits zeroEnv_hex longName_identifier

/-- A request id of ten characters of three bytes each. -/
def euros : String := String.ofList (List.replicate 10 '€')

theorem executionKey_euros : executionKey zeroEnv "m" longName euros = none := by
  have heuros : euros.toList = List.replicate 10 '€' := String.toList_ofList
  rw [executionKey_eq, if_neg (by decide +kernel), keyText_toList, longName_toList, heuros, Option.map_eq_none_iff]
  decide +kernel

def longJob : List (Action × Int) := [(.createJob (sampleJob longName .fixedDelay "1000") 0 "operator" "new", 0)]

/-- **A cut splits a character**: the key is no text, and the insertion is refused because of it. -/
theorem split_character_refused : Identifier longName 128 ∧ euros ≠ "" ∧ euros.length ≤ 64 ∧
    executionKey zeroEnv "m" longName euros = none ∧ Reachable zeroEnv ((World.init 0).play zeroEnv longJob) ∧
      (trigger zeroEnv (Ctx.at_ 1) longName euros "operator" "now" ""
        ((World.init 0).play zeroEnv longJob).db).map Prod.fst =
          .error ⟨.other, "insert execution: incorrect string value"⟩ :=
  ⟨longName_identifier, by decide +kernel, by decide +kernel, executionKey_euros,
    reachable_play zeroEnv 0 longJob (by decide), by decide +kernel⟩

/-! ## Different keys -/

/-- What a key is made of. -/
structure KeyParts where
  kind          : String
  jobName       : String
  discriminator : String
  deriving DecidableEq, Repr

namespace KeyParts

variable {a b : KeyParts}

def text (a : KeyParts) : String := keyText a.kind a.jobName a.discriminator

def bytes (a : KeyParts) : List UInt8 := encode a.text.toList

def key (a : KeyParts) (env : Env) : List UInt8 := keyBytes env a.kind a.jobName a.discriminator

/-- The three places that build a key: the second of a fire, a request id, and a UUID. -/
inductive Built : KeyParts → Prop
  | cron {j : String} (hj : Identifier j 128) (t : Int) : Built ⟨"c", j, toString t⟩
  | manual {j r : String} (hj : Identifier j 128) (hr : r ≠ "") (hlen : r.length ≤ 64) : Built ⟨"m", j, r⟩
  | poll {j u : String} (hj : Identifier j 128) (hlen : u.length = 36)
      (hu : ∀ x ∈ u.toList, x = '-' ∨ hexDigit x = true) : Built ⟨"p", j, u⟩

theorem Built.plain (h : a.Built) : ':' ∉ a.kind.toList := by
  cases h with
  | cron => show ':' ∉ "c".toList; decide
  | manual => show ':' ∉ "m".toList; decide
  | poll => show ':' ∉ "p".toList; decide

theorem Built.name (h : a.Built) : ':' ∉ a.jobName.toList := by
  have key : ∀ {j : String}, Identifier j 128 → ':' ∉ j.toList := by
    intro j hj hc
    exact absurd (hj.chars ':' hc) (by decide)
  cases h with
  | cron hj => exact key hj
  | manual hj => exact key hj
  | poll hj => exact key hj

/-- Two lists are cut at their first colon in the same place. -/
theorem append_colon_inj {l l' r r' : List Char} (h : l ++ ':' :: r = l' ++ ':' :: r') (hl : ':' ∉ l) (hl' : ':' ∉ l') :
    l = l' ∧ r = r' := by
  induction l generalizing l' with
  | nil =>
    cases l' with
    | nil => exact ⟨rfl, (List.cons.inj h).2⟩
    | cons x l' => exact absurd (List.cons.inj h).1 fun hx => hl' (by simp [← hx])
  | cons x l ih =>
    cases l' with
    | nil => exact absurd (List.cons.inj h).1 fun hx => hl (by simp [hx])
    | cons x' l' =>
      obtain ⟨rfl, htail⟩ := List.cons.inj h
      obtain ⟨rfl, rfl⟩ := ih htail (fun hm => hl (by simp [hm])) (fun hm => hl' (by simp [hm]))
      exact ⟨rfl, rfl⟩

/-- **A text stands for one kind, one job and one discriminator.** -/
theorem text_inj (ha : a.Built) (hb : b.Built) (h : a.text = b.text) : a = b := by
  have hl := congrArg String.toList h
  rw [text, text, keyText_toList, keyText_toList] at hl
  obtain ⟨hk, hl⟩ := append_colon_inj hl ha.plain hb.plain
  obtain ⟨hj, hd⟩ := append_colon_inj hl ha.name hb.name
  cases a
  cases b
  simp only [mk.injEq]
  exact ⟨String.toList_inj.1 hk, String.toList_inj.1 hj, String.toList_inj.1 hd⟩

theorem bytes_inj (h : a.bytes = b.bytes) : a.text = b.text := String.toList_inj.1 (Utf8.encode_injective h)

theorem length_bytes (a : KeyParts) : a.bytes.length = a.text.utf8ByteSize := Utf8.length_encode _

theorem key_short (h : a.bytes.length ≤ maxExecutionKey) : a.key env = a.bytes :=
  keyBytes_short (by rwa [length_bytes] at h)

theorem key_long (hd : env.Hex) (h : ¬ a.bytes.length ≤ maxExecutionKey) :
    a.key env = a.bytes.take keptBytes ++ encode ("~" ++ env.digest a.text).toList :=
  keyBytes_long hd (by rwa [length_bytes] at h)

/-- A text of exactly 160 bytes looks like the key of a longer one: it begins with what that key keeps, and goes on with
a mark and some digest. -/
def Imitates (a b : KeyParts) : Prop :=
  a.bytes.length = maxExecutionKey ∧ maxExecutionKey < b.bytes.length ∧
    ∃ digest, Digest digest ∧ a.bytes = b.bytes.take keptBytes ++ encode ("~" ++ digest).toList

theorem length_marked {digest : String} (h : Digest digest) : (encode ("~" ++ digest).toList).length = 25 := by
  rw [Utf8.length_encode, h.marked_size]

/-- A short text and a long one have the same key only by imitation. -/
theorem imitates_of_key (hd : env.Hex) (ha : a.bytes.length ≤ maxExecutionKey) (hb : ¬ b.bytes.length ≤ maxExecutionKey)
    (h : a.key env = b.key env) : a.Imitates b := by
  rw [key_short ha, key_long hd hb] at h
  have hlen := congrArg List.length h
  rw [List.length_append, List.length_take, length_marked (hd _)] at hlen
  unfold keptBytes at hlen
  unfold maxExecutionKey at ha hb
  refine ⟨?_, not_le.1 hb, _, hd _, h⟩
  unfold maxExecutionKey
  omega

/-- Two long texts have the same key only if their digests are the same. -/
theorem digest_of_key (hd : env.Hex) (ha : ¬ a.bytes.length ≤ maxExecutionKey) (hb : ¬ b.bytes.length ≤ maxExecutionKey)
    (h : a.key env = b.key env) : env.digest a.text = env.digest b.text := by
  rw [key_long hd ha, key_long hd hb] at h
  obtain ⟨-, hmark⟩ := List.append_inj' h (by rw [length_marked (hd _), length_marked (hd _)])
  have htext := String.toList_inj.1 (Utf8.encode_injective hmark)
  have hl := congrArg String.toList htext
  rw [String.toList_append, String.toList_append] at hl
  exact String.toList_inj.1 (List.append_cancel_left hl)

/-- **Keys of different texts are different**, if neither imitates the other and their digests do not collide. -/
theorem text_of_key (hd : env.Hex) (hcol : env.digest a.text = env.digest b.text → a.text = b.text)
    (hab : ¬ a.Imitates b) (hba : ¬ b.Imitates a) (h : a.key env = b.key env) : a.text = b.text := by
  by_cases ha : a.bytes.length ≤ maxExecutionKey
  · by_cases hb : b.bytes.length ≤ maxExecutionKey
    · rw [key_short ha, key_short hb] at h
      exact bytes_inj h
    · exact absurd (imitates_of_key hd ha hb h) hab
  · by_cases hb : b.bytes.length ≤ maxExecutionKey
    · exact absurd (imitates_of_key hd hb ha h.symm) hba
    · exact hcol (digest_of_key hd ha hb h)

/-- Some other digest. -/
def another (digest : String) : String := if digest = zeros then "ffffffffffffffffffffffff" else zeros

theorem another_digest (digest : String) : Digest (another digest) := by
  unfold another
  split
  · exact .of_all (by decide +kernel) (by decide +kernel)
  · exact zeros_digest

theorem another_ne (digest : String) : another digest ≠ digest := by
  unfold another
  by_cases hz : digest = zeros
  · rw [if_pos hz, hz]
    decide
  · rw [if_neg hz]
    exact Ne.symm hz

/-- A digest that is `digest` for one text and something else for every other. -/
def oneDigest (full digest : String) : Env where
  digest s := if s = full then digest else another digest
  mergeParams defaults _ := .ok defaults

theorem oneDigest_hex {full digest : String} (h : Digest digest) : (oneDigest full digest).Hex := by
  intro s
  show Digest (if s = full then digest else another digest)
  split
  · exact h
  · exact another_digest digest

theorem oneDigest_self (full digest : String) : (oneDigest full digest).digest full = digest := if_pos rfl

theorem oneDigest_ne {full digest s : String} (h : s ≠ full) :
    (oneDigest full digest).digest s ≠ (oneDigest full digest).digest full := by
  rw [oneDigest_self]
  show (if s = full then digest else another digest) ≠ digest
  rw [if_neg h]
  exact another_ne digest

/-- **An imitation collides** under the digest it was made for, although no two digests are the same. -/
theorem Imitates.collides (h : a.Imitates b) : ∃ env : Env, env.Hex ∧ env.digest a.text ≠ env.digest b.text ∧
    a.key env = b.key env := by
  obtain ⟨hlen, hlong, digest, hdigest, heq⟩ := h
  have hne : a.text ≠ b.text := by
    intro ht
    rw [length_bytes, ht, ← length_bytes] at hlen
    omega
  refine ⟨oneDigest b.text digest, oneDigest_hex hdigest, oneDigest_ne hne, ?_⟩
  rw [key_short hlen.le, key_long (oneDigest_hex hdigest) (not_le.2 hlong), oneDigest_self, heq]

end KeyParts

/-- **Execution keys are injective**, whatever digest does not collide on them, exactly if neither text imitates the key
of the other. -/
theorem execution_keys_differ {a b : KeyParts} (ha : a.Built) (hb : b.Built) (hne : a ≠ b) :
    (∀ env : Env, env.Hex → (env.digest a.text = env.digest b.text → a.text = b.text) → a.key env ≠ b.key env) ↔
      ¬ a.Imitates b ∧ ¬ b.Imitates a := by
  constructor
  · intro h
    refine ⟨fun hab => ?_, fun hba => ?_⟩
    · obtain ⟨env, hd, hcol, hkey⟩ := hab.collides
      exact h env hd (fun heq => absurd heq hcol) hkey
    · obtain ⟨env, hd, hcol, hkey⟩ := hba.collides
      exact h env hd (fun heq => absurd heq.symm hcol) hkey.symm
  · rintro ⟨hab, hba⟩ env hd hcol hkey
    exact hne (KeyParts.text_inj ha hb (KeyParts.text_of_key hd hcol hab hba hkey))

theorem sync_identifier : Identifier "sync" 128 :=
  checkIdentifier_ok.1 (show checkIdentifier "job_name" "sync" 128 = .ok () by decide +kernel)

theorem execution_keys_differ_requests :
    (∀ env : Env, env.Hex →
      (env.digest (KeyParts.mk "m" "sync" "r1").text = env.digest (KeyParts.mk "m" "sync" "r2").text →
        (KeyParts.mk "m" "sync" "r1").text = (KeyParts.mk "m" "sync" "r2").text) →
      (KeyParts.mk "m" "sync" "r1").key env ≠ (KeyParts.mk "m" "sync" "r2").key env) ↔
    ¬ (KeyParts.mk "m" "sync" "r1").Imitates ⟨"m", "sync", "r2"⟩ ∧
      ¬ (KeyParts.mk "m" "sync" "r2").Imitates ⟨"m", "sync", "r1"⟩ :=
  execution_keys_differ (.manual sync_identifier (by decide) (by decide))
    (.manual sync_identifier (by decide) (by decide)) (by decide)

/-- A request whose key is cut. -/
def cutRequest : KeyParts := ⟨"m", longName, "xxxxyyyyyyyyyyyyyyyyyyyyyyyyyyyyyy"⟩

/-- The first twelve bytes of the SHA-256 of its text. -/
def cutDigest : String := "8ed9c008006e6dd140855fc6"

/-- A request that ends in what the other is cut down to. -/
def marked : KeyParts := ⟨"m", longName, "xxxx~8ed9c008006e6dd140855fc6"⟩

theorem longName_bytes (disc : String) : (KeyParts.mk "m" longName disc).bytes =
    encode ("m".toList ++ ':' :: (List.replicate 128 'a' ++ ':' :: disc.toList)) := by
  show encode (keyText "m" longName disc).toList = _
  rw [keyText_toList, longName_toList]

theorem cutDigest_hex : (KeyParts.oneDigest cutRequest.text cutDigest).Hex :=
  KeyParts.oneDigest_hex (.of_all (by decide +kernel) (by decide +kernel))

/-- The one fits and the other is cut, to the same bytes. -/
theorem marked_key : marked.key (KeyParts.oneDigest cutRequest.text cutDigest) =
    cutRequest.key (KeyParts.oneDigest cutRequest.text cutDigest) := by
  have hm : marked.bytes = _ := longName_bytes _
  have hc : cutRequest.bytes = _ := longName_bytes _
  rw [KeyParts.key_short (by rw [hm]; decide +kernel), KeyParts.key_long cutDigest_hex (by rw [hc]; decide +kernel),
    KeyParts.oneDigest_self, hm, hc]
  decide +kernel

/-- **Two requests with one key**, and no digest collides. -/
theorem marked_request_collides : marked.Built ∧ cutRequest.Built ∧ marked ≠ cutRequest ∧
    (KeyParts.oneDigest cutRequest.text cutDigest).Hex ∧
    (KeyParts.oneDigest cutRequest.text cutDigest).digest marked.text ≠
      (KeyParts.oneDigest cutRequest.text cutDigest).digest cutRequest.text ∧
    marked.key (KeyParts.oneDigest cutRequest.text cutDigest) =
      cutRequest.key (KeyParts.oneDigest cutRequest.text cutDigest) :=
  ⟨.manual longName_identifier (by decide) (by decide +kernel),
    .manual longName_identifier (by decide) (by decide +kernel), by decide +kernel,
    cutDigest_hex, KeyParts.oneDigest_ne (by decide +kernel), marked_key⟩

end GoJob
