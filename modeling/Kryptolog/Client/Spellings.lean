import Mathlib.Data.List.TakeWhile
import Kryptolog.Client.Envelopes
import Kryptolog.Client.SignatureAgreement
import Kryptolog.Client.SignedBodies
import Kryptolog.Server.Spellings

/-! # One spelling for each value

The decoders and validators of the clients beside those of the server, on every string. Base64 is read alike on both
sides. In hexadecimal the patterns of the server end in `$`, which also matches before a line break.
-/

namespace Kryptolog.Client.Spellings
set_option autoImplicit false

open Script Fallible
open Server.Spellings (OpenSsl IsIdentityKey IsEncryptionKey hex withoutNewline)

/-! ## Base64 -/

/-- The pattern lets letters through and padding. -/
theorem letter_or_pad {s : List Char} (h : isB64Only s = true) {c : Char} (hc : c ∈ s) :
    (Base64.sextet c).isSome = true ∨ c = '=' := by
  rw [isB64Only, Bool.and_eq_true] at h
  rw [← List.takeWhile_append_dropWhile (p := fun c => (Base64.sextet c).isSome) (l := s)] at hc
  rcases List.mem_append.mp hc with hletter | hpad
  · exact .inl (List.mem_takeWhile_imp (p := fun c => (Base64.sextet c).isSome) hletter)
  · exact .inr (beq_iff_eq.mp (List.all_eq_true.mp h.2 c hpad))

theorem withoutNewline_toB64 (bytes : Bytes) : withoutNewline (toB64 bytes) = toB64 bytes := by
  refine if_neg fun hlast => ?_
  obtain ⟨c, hc, hline⟩ := List.mem_map.mp (List.mem_of_getLast? hlast)
  rw [Point.char.inj hline] at hc
  rcases letter_or_pad (isB64Only_encode bytes) hc with hletter | hpad
  · exact absurd hletter (by decide)
  · exact absurd hpad (by decide)

theorem head?_encode {bytes : Bytes} (h : bytes ≠ []) :
    ((Base64.encode bytes).head?.bind Base64.sextet).isSome = true := by
  have hletter : ∀ b : UInt8, (Base64.sextet (Base64.letter (b.toNat / 4))).isSome = true := by
    intro b
    have hb := b.toNat_lt
    exact isSome_sextet_letter _ (by omega)
  match bytes, h with
  | [a], _ => exact hletter a
  | [a, b], _ => exact hletter a
  | a :: b :: c :: rest, _ => exact hletter a

theorem b64Re_toB64 {bytes : Bytes} (h : bytes ≠ []) : Server.Spellings.b64Re (toB64 bytes) = true := by
  have hchars : chars (toB64 bytes) = some (Base64.encode bytes) := chars_eq_some.mpr rfl
  have hpattern := isB64Only_encode bytes
  rw [isB64Only, Bool.and_eq_true, decide_eq_true_eq] at hpattern
  rw [Server.Spellings.b64Re, withoutNewline_toB64, hchars, Option.any_some, head?_encode h]
  simp only [hpattern.1, hpattern.2, decide_true, Bool.and_self]

/-- `is_b64` accepts what `toB64` writes of some bytes. -/
theorem isB64_iff {value : Text} :
    Server.Spellings.isB64 value = true ↔ ∃ bytes : Bytes, bytes ≠ [] ∧ toB64 bytes = value := by
  constructor
  · intro h
    unfold Server.Spellings.isB64 at h
    split at h
    · cases h
    · next hne =>
      split at h
      · cases h
      · split at h
        · cases h
        · next decoded _ =>
          have hvalue : toB64 decoded = value := beq_iff_eq.mp h
          refine ⟨decoded, ?_, hvalue⟩
          rintro rfl
          exact hne (by rw [← hvalue]; rfl)
  · rintro ⟨bytes, hbytes, rfl⟩
    have hne : (toB64 bytes).isEmpty = false := by
      rw [toB64, ofChars, List.isEmpty_map]
      simpa using Base64.encode_ne_nil hbytes
    have hlength : (toB64 bytes).length % 4 = 0 := by
      rw [toB64, ofChars, List.length_map]
      exact length_of_decode (Base64.decode_encode bytes)
    have hchars : chars (toB64 bytes) = some (Base64.encode bytes) := chars_eq_some.mpr rfl
    have hdecode : Server.IdentitySignatures.b64decode (toB64 bytes) = .ok bytes := by
      rw [Server.IdentitySignatures.b64decode, hchars, Option.bind_some, Base64.decode_encode]
      rfl
    rw [Server.Spellings.isB64, hne, hlength, b64Re_toB64 hbytes, hdecode]
    exact beq_self_eq_true (toB64 bytes)

/-! ## Hexadecimal -/

section hexadecimal

variable {ssl : OpenSsl} {value : Text} {IsOne : Bytes → Prop} {n : ℕ}

/-- The validator of the clients for lowercase hexadecimal of some length accepts the spellings alone. -/
theorem isLowercase_iff : (value.length == 2 * n && value.consistsOf Hex.isLowercase) = true ↔
    ∃ bytes : Bytes, bytes.length = n ∧ toHex bytes = value := by
  rw [Bool.and_eq_true, beq_iff_eq, Server.Spellings.lowercase_iff]
  exact exists_congr fun bytes => and_congr_right fun _ => eq_comm

/-- The value is spelled with a line break after it. -/
def Broken (IsOne : Bytes → Prop) (value : Text) : Prop :=
  ∃ bytes, IsOne bytes ∧ value = toHex bytes ++ [.char '\n']

/-- The value is spelled. -/
def Spelled (IsOne : Bytes → Prop) (value : Text) : Prop := ∃ bytes, IsOne bytes ∧ value = toHex bytes

theorem accepts_iff : Server.Spellings.Accepts IsOne value ↔ Spelled IsOne value ∨ Broken IsOne value := by
  constructor
  · rintro ⟨bytes, hone, hvalue | hvalue⟩
    · exact .inl ⟨bytes, hone, hvalue⟩
    · exact .inr ⟨bytes, hone, hvalue⟩
  · rintro (⟨bytes, hone, hvalue⟩ | ⟨bytes, hone, hvalue⟩)
    · exact ⟨bytes, hone, .inl hvalue⟩
    · exact ⟨bytes, hone, .inr hvalue⟩

theorem not_spelled_of_broken (h : Broken IsOne value) {Other : Bytes → Prop} : ¬ Spelled Other value := by
  obtain ⟨bytes, -, rfl⟩ := h
  rintro ⟨other, -, hother⟩
  exact Server.Spellings.hex_ne_append_newline hother.symm

/-- The server accepts the spellings alone, unless this is one with a line break. -/
theorem accepts_iff_spelled :
    (Server.Spellings.Accepts IsOne value ↔ Spelled IsOne value) ↔ ¬ Broken IsOne value := by
  rw [accepts_iff]
  constructor
  · exact fun h hbroken => not_spelled_of_broken hbroken (h.mp (.inr hbroken))
  · exact fun hnot => or_iff_left hnot

end hexadecimal

/-! ## Both sides -/

/-- The string is read alike on both sides, and accepted in the one spelling that the clients write. -/
structure OneSpelling (ssl : OpenSsl) (s : Text) : Prop where
  decoders : (∃ bytes, fromB64 (some (.str s)) = .ok bytes) ↔ Server.Spellings.isB64 s = true
  image : Server.Spellings.isB64 s = true ↔ ∃ bytes : Bytes, bytes ≠ [] ∧ toB64 bytes = s
  inverse : ∀ bytes, fromB64 (some (.str s)) = .ok bytes ↔ bytes ≠ [] ∧ toB64 bytes = s
  address : Server.IdentitySignatures.isValidAddress s = true ↔
    Spelled (·.length = 48) s ∧ IdentitySignatures.isAddress s = true
  keyId : Server.Spellings.isValidKeyId s = true ↔
    Spelled (·.length = 16) s ∧ Envelopes.isEncryptionKeyId s = true
  identityKey : Server.Spellings.isValidIdentityKey ssl s = .ok true ↔
    Spelled (IsIdentityKey ssl) s ∧ IdentitySignatures.isIdentityKey s = true
  encryptionKey : Server.Spellings.isValidEncryptionKey ssl s = .ok true ↔
    Spelled (IsEncryptionKey ssl) s ∧ isHex s = true

/-- The string is one of these spellings with a line break after it. -/
def HasNewline (ssl : OpenSsl) (s : Text) : Prop :=
  Broken (·.length = 48) s ∨ Broken (·.length = 16) s ∨ Broken (IsIdentityKey ssl) s ∨ Broken (IsEncryptionKey ssl) s

section agreement

variable {ssl : OpenSsl} {s : Text}

theorem isHex_toHex {bytes : Bytes} (h : bytes ≠ []) : isHex (toHex bytes) = true := by
  have hdigit : ∀ n < 16, Server.isLowerHexDigit (Hex.digit n) = true := by decide
  have hall : Text.consistsOf Server.isLowerHexDigit (toHex bytes) = true := by
    refine List.all_eq_true.mpr fun p hp => ?_
    obtain ⟨c, hc, rfl⟩ := List.mem_map.mp hp
    obtain ⟨b, -, hc⟩ := List.mem_flatMap.mp hc
    have hb := b.toNat_lt
    rcases List.mem_pair.mp hc with rfl | rfl
    · exact hdigit _ (by omega)
    · exact hdigit _ (by omega)
  have hne : (toHex bytes).isEmpty = false := by
    cases bytes with
    | nil => exact absurd rfl h
    | cons b bytes => rfl
  rw [isHex, hall, hne]
  rfl

/-- What the clients write passes their own validators. -/
theorem spelled_and_iff {IsOne : Bytes → Prop} {test : Text → Bool}
    (h : ∀ bytes, IsOne bytes → test (toHex bytes) = true) :
    Spelled IsOne s ∧ test s = true ↔ Spelled IsOne s := by
  refine and_iff_left_of_imp ?_
  rintro ⟨bytes, hone, rfl⟩
  exact h bytes hone

theorem isAddress_of_length {bytes : Bytes} (h : bytes.length = 48) :
    IdentitySignatures.isAddress (toHex bytes) = true := (isLowercase_iff (n := 48)).mpr ⟨bytes, h, rfl⟩

theorem isEncryptionKeyId_of_length {bytes : Bytes} (h : bytes.length = 16) :
    Envelopes.isEncryptionKeyId (toHex bytes) = true := (isLowercase_iff (n := 16)).mpr ⟨bytes, h, rfl⟩

theorem isIdentityKey_of_key {bytes : Bytes} (h : IsIdentityKey ssl bytes) :
    IdentitySignatures.isIdentityKey (toHex bytes) = true := (isLowercase_iff (n := 2049)).mpr ⟨bytes, h.1, rfl⟩

theorem isHex_of_key {bytes : Bytes} (h : IsEncryptionKey ssl bytes) : isHex (toHex bytes) = true := by
  refine isHex_toHex ?_
  rintro rfl
  exact absurd h.1 (by decide)

/-- The two sides agree on every string but the accepted hexadecimal with a line break after it. -/
theorem oneSpelling_iff (ssl : OpenSsl) (s : Text) : OneSpelling ssl s ↔ ¬ HasNewline ssl s := by
  have hinverse : ∀ bytes, fromB64 (some (.str s)) = .ok bytes ↔ bytes ≠ [] ∧ toB64 bytes = s := by
    intro bytes
    rw [fromB64_eq_ok, Option.some.injEq, Value.str.injEq, and_comm, eq_comm]
  have hdecoders : (∃ bytes, fromB64 (some (.str s)) = .ok bytes) ↔ Server.Spellings.isB64 s = true :=
    (exists_congr hinverse).trans isB64_iff.symm
  rw [HasNewline, not_or, not_or, not_or, ← accepts_iff_spelled, ← accepts_iff_spelled, ← accepts_iff_spelled,
    ← accepts_iff_spelled, ← Server.Spellings.isValidAddress_iff, ← Server.Spellings.isValidKeyId_iff,
    ← Server.Spellings.isValidIdentityKey_iff, ← Server.Spellings.isValidEncryptionKey_iff]
  constructor
  · intro h
    exact ⟨h.address.trans (spelled_and_iff fun _ => isAddress_of_length),
      h.keyId.trans (spelled_and_iff fun _ => isEncryptionKeyId_of_length),
      h.identityKey.trans (spelled_and_iff fun _ => isIdentityKey_of_key),
      h.encryptionKey.trans (spelled_and_iff fun _ => isHex_of_key)⟩
  · rintro ⟨haddress, hkeyId, hidentityKey, hencryptionKey⟩
    exact {
      decoders := hdecoders
      image := isB64_iff
      inverse := hinverse
      address := haddress.trans (spelled_and_iff fun _ => isAddress_of_length).symm
      keyId := hkeyId.trans (spelled_and_iff fun _ => isEncryptionKeyId_of_length).symm
      identityKey := hidentityKey.trans (spelled_and_iff fun _ => isIdentityKey_of_key).symm
      encryptionKey := hencryptionKey.trans (spelled_and_iff fun _ => isHex_of_key).symm }

end agreement

/-- An address with a line break after it is accepted by the server. -/
theorem not_oneSpelling : ¬ ∀ (ssl : OpenSsl) (s : Text), OneSpelling ssl s := by
  intro hall
  have hbytes : (List.replicate 48 (0 : UInt8)).length = 48 := List.length_replicate
  have haccepted : Server.IdentitySignatures.isValidAddress (toHex (List.replicate 48 0) ++ [.char '\n']) = true :=
    Server.Spellings.isValidAddress_iff.mpr ⟨_, hbytes, .inr rfl⟩
  have hspelled := ((hall ⟨fun _ => true, fun _ => true⟩ _).address.mp haccepted).1
  have hbroken : Broken (·.length = 48) (toHex (List.replicate 48 0) ++ [.char '\n']) := ⟨_, hbytes, rfl⟩
  exact not_spelled_of_broken hbroken hspelled

end Kryptolog.Client.Spellings
