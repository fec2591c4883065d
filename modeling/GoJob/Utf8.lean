import Mathlib
/-!
# Utf8 — where a text may be cut

A text is a list of characters, encoded one after the other.  The encoding of a character is never the beginning of
another's, so a run of bytes that begins a text is a text itself exactly if it ends between two characters.  A byte
below 128 is a character of its own, wherever it stands.
-/
namespace Utf8

variable {c d : Char} {cs ds : List Char} {x y : List UInt8} {n : Nat}

/-- The bytes of a text. -/
def encode (cs : List Char) : List UInt8 := cs.flatMap String.utf8EncodeChar

@[simp] theorem encode_nil : encode [] = [] := rfl

@[simp] theorem encode_cons (c : Char) (cs : List Char) : encode (c :: cs) = String.utf8EncodeChar c ++ encode cs :=
  List.flatMap_cons

@[simp] theorem encode_append (cs ds : List Char) : encode (cs ++ ds) = encode cs ++ encode ds := List.flatMap_append

theorem length_encode (s : String) : (encode s.toList).length = s.utf8ByteSize := by
  have key : ∀ cs : List Char, (encode cs).length = String.utf8Len cs := by
    intro cs
    induction cs with
    | nil => rfl
    | cons c cs ih => simp [ih, String.utf8Len_cons, Nat.add_comm]
  rw [key, ← String.utf8ByteSize_ofList, String.ofList_toList]

/-- A character has a byte at least. -/
theorem length_le_size (s : String) : s.length ≤ s.utf8ByteSize := by
  have key : ∀ cs : List Char, cs.length ≤ (encode cs).length := by
    intro cs
    induction cs with
    | nil => exact le_refl 0
    | cons c cs ih =>
      have := c.utf8Size_pos
      simp only [encode_cons, List.length_cons, List.length_append, String.length_utf8EncodeChar]
      omega
  rw [← length_encode, ← String.length_toList]
  exact key _

/-- **The first character of a text can be read off its bytes.** -/
theorem encodeChar_inj (h : String.utf8EncodeChar c ++ x = String.utf8EncodeChar d ++ y) : c = d ∧ x = y := by
  have h₁ := @ByteArray.utf8DecodeChar?_utf8EncodeChar_append x.toByteArray c
  have h₂ := @ByteArray.utf8DecodeChar?_utf8EncodeChar_append y.toByteArray d
  rw [← List.toByteArray_append, h, List.toByteArray_append, h₂] at h₁
  obtain rfl := Option.some.inj h₁
  exact ⟨rfl, List.append_cancel_left h⟩

theorem encodeChar_ne_nil (c : Char) : String.utf8EncodeChar c ≠ [] := by
  intro h
  have := c.utf8Size_pos
  rw [← String.length_utf8EncodeChar, h] at this
  exact absurd this (by decide)

/-- **A text that begins another one byte by byte begins it character by character.** -/
theorem begins_of_encode (h : encode cs ++ x = encode ds) : ∃ rest, cs ++ rest = ds ∧ encode rest = x := by
  induction cs generalizing ds with
  | nil => exact ⟨ds, rfl, h.symm⟩
  | cons c cs ih =>
    cases ds with
    | nil => exact absurd (List.append_eq_nil_iff.1 (List.append_eq_nil_iff.1 h).1).1 (encodeChar_ne_nil c)
    | cons d ds =>
      rw [encode_cons, encode_cons, List.append_assoc] at h
      obtain ⟨rfl, htail⟩ := encodeChar_inj h
      obtain ⟨rest, rfl, hx⟩ := ih htail
      exact ⟨rest, rfl, hx⟩

theorem encode_injective (h : encode cs = encode ds) : cs = ds := by
  obtain ⟨rest, rfl, hrest⟩ := begins_of_encode (x := []) (by simpa using h)
  cases rest with
  | nil => simp
  | cons r rest => exact absurd (List.append_eq_nil_iff.1 hrest).1 (encodeChar_ne_nil r)

/-- The text can be cut behind its first `n` bytes. -/
def Boundary (cs : List Char) (n : Nat) : Prop := ∃ a b, cs = a ++ b ∧ (encode a).length = n

/-- **The first bytes of a text are a text exactly if the cut is between two characters.** -/
theorem take_text_iff (hn : n ≤ (encode cs).length) : (∃ a, encode a = (encode cs).take n) ↔ Boundary cs n := by
  constructor
  · rintro ⟨a, ha⟩
    have hsplit : encode a ++ (encode cs).drop n = encode cs := by rw [ha, List.take_append_drop]
    obtain ⟨b, hab, -⟩ := begins_of_encode hsplit
    exact ⟨a, b, hab.symm, by rw [ha, List.length_take, min_eq_left hn]⟩
  · rintro ⟨a, b, rfl, rfl⟩
    exact ⟨a, by rw [encode_append, List.take_left]⟩

theorem boundary_iff {s : String} : Boundary s.toList n ↔ ∃ a b : String, s = a ++ b ∧ a.utf8ByteSize = n := by
  constructor
  · rintro ⟨a, b, hs, hn⟩
    refine ⟨String.ofList a, String.ofList b, ?_, ?_⟩
    · rw [← String.ofList_append, ← hs, String.ofList_toList]
    · rw [← length_encode, String.toList_ofList, hn]
  · rintro ⟨a, b, rfl, hn⟩
    exact ⟨a.toList, b.toList, String.toList_append, by rw [length_encode, hn]⟩

/-- What stands before the cut does not matter. -/
theorem boundary_append : Boundary (ds ++ cs) ((encode ds).length + n) ↔ Boundary cs n := by
  constructor
  · rintro ⟨a, b, hab, hlen⟩
    rcases List.append_eq_append_iff.1 hab with ⟨a', rfl, rfl⟩ | ⟨d', rfl, rfl⟩
    · rw [encode_append, List.length_append] at hlen
      exact ⟨a', b, rfl, by omega⟩
    · rw [encode_append, List.length_append] at hlen
      have hnil : encode d' = [] := List.length_eq_zero_iff.1 (by omega)
      obtain rfl : d' = [] := encode_injective hnil
      exact ⟨[], cs, rfl, by simp at hlen ⊢; omega⟩
  · rintro ⟨a, b, rfl, rfl⟩
    exact ⟨ds ++ a, b, by rw [List.append_assoc], by rw [encode_append, List.length_append]⟩

/-! ## Ascii -/

/-- The bytes of a character behind its first are continuation bytes. -/
theorem encodeChar_tail {b : UInt8} (h : b ∈ (String.utf8EncodeChar c).tail) : 128 ≤ b.toNat := by
  unfold String.utf8EncodeChar at h
  dsimp only at h
  split at h
  · cases h
  split at h
  · simp only [List.tail_cons, List.mem_singleton] at h
    subst h
    rw [UInt8.toNat_ofNat']
    omega
  split at h
  · simp only [List.tail_cons, List.mem_cons, List.not_mem_nil, or_false] at h
    rcases h with rfl | rfl
    · rw [UInt8.toNat_ofNat']; omega
    · rw [UInt8.toNat_ofNat']; omega
  · simp only [List.tail_cons, List.mem_cons, List.not_mem_nil, or_false] at h
    rcases h with rfl | rfl | rfl
    · rw [UInt8.toNat_ofNat']; omega
    · rw [UInt8.toNat_ofNat']; omega
    · rw [UInt8.toNat_ofNat']; omega

/-- **A byte below 128 begins a character.** -/
theorem boundary_of_ascii {b : UInt8} (hb : b.toNat < 128) (h : encode cs = x ++ b :: y) :
    ∃ a rest, cs = a ++ rest ∧ encode a = x ∧ encode rest = b :: y := by
  induction cs generalizing x with
  | nil => simp at h
  | cons c cs ih =>
    cases x with
    | nil => exact ⟨[], c :: cs, rfl, rfl, h⟩
    | cons z x =>
      -- The byte lies behind the first character, or it would be one of its continuation bytes.
      rw [encode_cons] at h
      obtain ⟨k, hk⟩ | ⟨k, hk⟩ := List.append_eq_append_iff.1 h
      · obtain ⟨hz, hrest⟩ := hk
        obtain ⟨a, rest, rfl, rfl, hr⟩ := ih hrest
        exact ⟨c :: a, rest, rfl, by rw [encode_cons, hz], hr⟩
      · obtain ⟨hc, hrest⟩ := hk
        cases k with
        | nil =>
          rw [List.nil_append] at hrest
          rw [List.append_nil] at hc
          refine ⟨[c], cs, rfl, by simp [hc], hrest.symm⟩
        | cons w k =>
          obtain ⟨rfl, -⟩ := List.cons.inj hrest
          have hmem : b ∈ (String.utf8EncodeChar c).tail := by simp [hc]
          exact absurd (encodeChar_tail hmem) (not_le.2 hb)

theorem encodeChar_ascii (h : c.toNat < 128) : String.utf8EncodeChar c = [UInt8.ofNat c.toNat] := by
  unfold String.utf8EncodeChar
  dsimp only
  rw [if_pos (by show c.toNat ≤ 127; omega)]
  rfl

/-- A text of ascii characters can be cut anywhere. -/
theorem length_encode_ascii (h : ∀ c ∈ cs, c.toNat < 128) : (encode cs).length = cs.length := by
  induction cs with
  | nil => rfl
  | cons c cs ih =>
    rw [encode_cons, encodeChar_ascii (h c (by simp)), List.length_append, ih fun d hd => h d (by simp [hd])]
    simp [Nat.add_comm]

theorem boundary_ascii (h : ∀ c ∈ cs, c.toNat < 128) (hn : n ≤ cs.length) : Boundary cs n := by
  refine ⟨cs.take n, cs.drop n, (List.take_append_drop n cs).symm, ?_⟩
  rw [length_encode_ascii fun c hc => h c (List.mem_of_mem_take hc), List.length_take, min_eq_left hn]

end Utf8
