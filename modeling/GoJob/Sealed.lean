import Mathlib
/-!
# Sealed — how DSNs are stored (`control/registry.go`)

A DSN is stored behind a tag byte, as it was typed or sealed with the installation's key.  Rows of earlier builds are
sealed and have no tag: they begin with a nonce.  `open` takes the first byte for a tag.  A nonce whose first byte is
`0x01` costs one failed attempt to unseal; one whose first byte is `0x00` makes the row read as plain text, with a key
or without.
-/
namespace GoJob
namespace Control

/-- A Go `string` or `[]byte`. -/
abbrev Bytes := List UInt8

def nonceSize : Nat := 12

/-- `cipher.AEAD`, under one key: it inverts its own output and rejects everything else. -/
structure Aead where
  encrypt : Bytes → Bytes → Bytes
  decrypt : Bytes → Bytes → Option Bytes
  inverts : ∀ nonce plain, nonce.length = nonceSize → decrypt nonce (encrypt nonce plain) = some plain
  rejects : ∀ nonce text plain, decrypt nonce text = some plain → text = encrypt nonce plain

def dsnPlain : UInt8 := 0x00

def dsnSealed : UInt8 := 0x01

/-- What `seal` and `open` read of `control.Store`: no key, no `aead`. -/
structure Vault where
  aead : Option Aead

/-- `seal`, with the nonce it reads: `Seal` appends to the nonce. -/
def Vault.seal (s : Vault) (nonce plain : Bytes) : Bytes :=
  match s.aead with
  | none => dsnPlain :: plain
  | some a => dsnSealed :: (nonce ++ a.encrypt nonce plain)

def Aead.unseal (a : Aead) (text : Bytes) : Except String Bytes :=
  if text.length < nonceSize then .error "control: stored DSN is shorter than a nonce"
  else match a.decrypt (text.take nonceSize) (text.drop nonceSize) with
    | some plain => .ok plain
    | none => .error "control: cannot decrypt DSN; is the encryption key the one it was stored with?"

def needsKey : String :=
  "control: this installation's DSNs are encrypted, but no -dsn-key was given; start with the key they were stored under"

/-- The end of `open`: rows without a tag are sealed. -/
def Vault.openUntagged (s : Vault) (stored : Bytes) : Except String Bytes :=
  match s.aead with
  | none => .error needsKey
  | some a => a.unseal stored

def Vault.open (s : Vault) (stored : Bytes) : Except String Bytes :=
  match stored with
  | [] => .error "control: stored DSN is empty"
  | tag :: rest =>
    if tag = dsnPlain then .ok rest
    else if tag = dsnSealed then
      match s.aead with
      | none => .error needsKey
      | some a =>
        match a.unseal rest with
        | .ok plain => .ok plain
        | .error _ => s.openUntagged stored
    else s.openUntagged stored

def keyless : Vault := ⟨none⟩

def Aead.vault (a : Aead) : Vault := ⟨some a⟩

section forms

variable {a : Aead} {nonce dsn : Bytes}

theorem unseal_encrypt (hn : nonce.length = nonceSize) : a.unseal (nonce ++ a.encrypt nonce dsn) = .ok dsn := by
  unfold Aead.unseal
  rw [if_neg (by rw [List.length_append, hn]; exact not_lt.2 (Nat.le_add_right _ _)), ← hn, List.take_left,
    List.drop_left, a.inverts nonce dsn hn]

/-- **Plain text reads back**, with a key or without. -/
theorem open_plain (s : Vault) : s.open (keyless.seal nonce dsn) = .ok dsn := rfl

/-- **A tagged row reads back with its key.** -/
theorem open_sealed (hn : nonce.length = nonceSize) : a.vault.open (a.vault.seal nonce dsn) = .ok dsn := by
  have htag : dsnSealed ≠ dsnPlain := by decide
  simp only [Vault.open, Vault.seal, Aead.vault, if_neg htag, ↓reduceIte, unseal_encrypt hn]

/-- How an untagged row is read, by the first byte of its nonce. -/
theorem open_untagged {first : UInt8} {nonce : Bytes} (hn : (first :: nonce).length = nonceSize) :
    a.vault.open (first :: nonce ++ a.encrypt (first :: nonce) dsn) =
      if first = dsnPlain then .ok (nonce ++ a.encrypt (first :: nonce) dsn)
      else if first = dsnSealed then
        .ok ((a.unseal (nonce ++ a.encrypt (first :: nonce) dsn)).toOption.getD dsn)
      else .ok dsn := by
  have hall : a.vault.openUntagged (first :: nonce ++ a.encrypt (first :: nonce) dsn) = .ok dsn := unseal_encrypt hn
  rw [List.cons_append] at hall ⊢
  unfold Vault.open
  dsimp only [Aead.vault] at hall ⊢
  split
  · rfl
  · split
    · cases hu : a.unseal (nonce ++ a.encrypt (first :: nonce) dsn) with
      | ok plain => rfl
      | error => exact hall
    · exact hall

/-- The row of an earlier build cannot be taken for another form: its nonce does not begin with the tag of plain text,
and if it begins with the tag of sealed text, the rest is no sealed text of something else. -/
def Unambiguous (a : Aead) (nonce dsn : Bytes) : Prop :=
  nonce.head? ≠ some dsnPlain ∧ (nonce.head? = some dsnSealed →
    ∀ plain, a.unseal (nonce.tail ++ a.encrypt nonce dsn) = .ok plain → plain = dsn)

/-- **What every stored form promises**: it reads back with the key, plain text also without it, and without the key a
sealed form is an error. -/
structure ReadsBack (a : Aead) (nonce dsn : Bytes) : Prop where
  plain           : ∀ s : Vault, s.open (keyless.seal nonce dsn) = .ok dsn
  tagged          : a.vault.open (a.vault.seal nonce dsn) = .ok dsn
  taggedKeyless   : (keyless.open (a.vault.seal nonce dsn)).toBool = false
  untagged        : a.vault.open (nonce ++ a.encrypt nonce dsn) = .ok dsn
  untaggedKeyless : (keyless.open (nonce ++ a.encrypt nonce dsn)).toBool = false

/-- **A stored DSN reads back in all three forms exactly if the untagged one is unambiguous.** -/
theorem stored_dsn_reads_back_iff (hn : nonce.length = nonceSize) :
    ReadsBack a nonce dsn ↔ Unambiguous a nonce dsn := by
  cases nonce with
  | nil => cases hn
  | cons first nonce =>
    have hplain : (first :: nonce).head? = some dsnPlain ↔ first = dsnPlain := by simp
    have hsealed : (first :: nonce).head? = some dsnSealed ↔ first = dsnSealed := by simp
    have hne : dsnSealed ≠ dsnPlain := by decide
    unfold Unambiguous
    rw [ne_eq, hplain, hsealed, List.tail_cons]
    constructor
    · intro h
      have hfirst : first ≠ dsnPlain := by
        rintro rfl
        cases h.untaggedKeyless
      refine ⟨hfirst, ?_⟩
      rintro rfl plain hu
      have hun := h.untagged
      rw [open_untagged hn, if_neg hfirst, if_pos rfl, hu] at hun
      exact Except.ok.inj hun
    · rintro ⟨hfirst, hrest⟩
      refine ⟨open_plain, open_sealed hn, rfl, ?_, ?_⟩
      · rw [open_untagged hn, if_neg hfirst]
        by_cases hs : first = dsnSealed
        · rw [if_pos hs]
          cases hu : a.unseal (nonce ++ a.encrypt (first :: nonce) dsn) with
          | ok plain => rw [hrest hs plain hu]; rfl
          | error => rfl
        · rw [if_neg hs]
      · rw [List.cons_append]
        unfold Vault.open
        dsimp only
        rw [if_neg hfirst]
        split <;> rfl

end forms

/-- A seal that prepends the nonce, which is not secret but is an `Aead`. -/
def echo : Aead where
  encrypt nonce plain := nonce ++ plain
  decrypt nonce text := if text.take nonce.length = nonce then some (text.drop nonce.length) else none
  inverts nonce plain _ := by simp
  rejects nonce text plain h := by
    split at h
    · rename_i hp
      cases h
      calc text = text.take nonce.length ++ text.drop nonce.length := (List.take_append_drop _ _).symm
        _ = nonce ++ text.drop nonce.length := by rw [hp]
    · cases h

def sampleDSN : Bytes := "u:p@/t".toUTF8.toList

theorem stored_dsn_reads_back_seven : ReadsBack echo (List.replicate 12 7) sampleDSN :=
  (stored_dsn_reads_back_iff (by decide)).2 ⟨by decide, fun h => by cases h⟩

/-- **A nonce that begins with `0x00`**: an earlier build's row opens as its own bytes, with the key and without. -/
theorem untagged_row_misread : echo.vault.open (List.replicate 12 0 ++ echo.encrypt (List.replicate 12 0) sampleDSN) =
      .ok (List.replicate 11 0 ++ echo.encrypt (List.replicate 12 0) sampleDSN) ∧
    keyless.open (List.replicate 12 0 ++ echo.encrypt (List.replicate 12 0) sampleDSN) =
      .ok (List.replicate 11 0 ++ echo.encrypt (List.replicate 12 0) sampleDSN) ∧
    List.replicate 11 0 ++ echo.encrypt (List.replicate 12 0) sampleDSN ≠ sampleDSN :=
  ⟨rfl, rfl, by decide +kernel⟩

end Control
end GoJob
