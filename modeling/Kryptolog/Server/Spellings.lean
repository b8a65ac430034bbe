import Kryptolog.Server.IdentitySignatures

/-! # The spellings that the server accepts

`security/crypto_validation.py` on any string: canonical base64, and the lowercase hexadecimal of addresses, key ids
and keys. Whether bytes are a point or an encapsulation key is for OpenSSL to say.
-/

namespace Kryptolog.Server.Spellings
set_option autoImplicit false

open Script Fallible IdentitySignatures

structure OpenSsl where
  /-- `EllipticCurvePublicKey.from_encoded_point(SECP384R1(), point)` returns. -/
  isP384Point : Bytes → Bool
  /-- `MLKEM768PublicKey.from_public_bytes(key)` returns. -/
  isMlKem768Key : Bytes → Bool

/-- A line break at the end, which `$` in a pattern lets through. -/
def withoutNewline (value : Text) : Text :=
  if value.getLast? = some (.char '\n') then value.dropLast else value

/-! ## Base64 -/

/-- `_B64_RE.match`. -/
def b64Re (value : Text) : Bool :=
  (chars (withoutNewline value)).any fun cs =>
    let padding := cs.dropWhile fun c => (Base64.sextet c).isSome
    (cs.head?.bind Base64.sextet).isSome && padding.length ≤ 2 && padding.all (· == '=')

def isB64 (value : Text) : Bool :=
  if value.isEmpty then false
  else if value.length % 4 != 0 || !b64Re value then false
  else
    match b64decode value with
    | .error _ => false
    | .ok decoded => ofChars (Base64.encode decoded) == value

/-! ## Keys -/

def isValidKeyId (value : Text) : Bool := matchLowercaseHex 32 value

section keys

variable (ssl : OpenSsl)

def isValidP384Point (point : Bytes) : Bool :=
  if point.length != p384PointBytes || point.head? != some 4 then false else ssl.isP384Point point

def isValidIdentityKey (value : Text) : Except PyException Bool :=
  if !matchLowercaseHex 4098 value then .ok false
  else do
    let raw ← bytesFromHex value
    .ok (isValidP384Point ssl (raw.drop mlDsa65PublicKeyBytes))

def isValidEncryptionKey (value : Text) : Except PyException Bool :=
  if !matchLowercaseHex 2562 value then .ok false
  else do
    let raw ← bytesFromHex value
    if !isValidP384Point ssl (raw.take p384PointBytes) then .ok false
    else .ok (ssl.isMlKem768Key (raw.drop p384PointBytes))

/-- The bytes are an identity key: an ML-DSA-65 key of any bytes, and a point. -/
def IsIdentityKey (key : Bytes) : Prop :=
  key.length = 2049 ∧ isValidP384Point ssl (key.drop mlDsa65PublicKeyBytes) = true

/-- The bytes are an encryption key. -/
def IsEncryptionKey (key : Bytes) : Prop :=
  key.length = 1281 ∧ isValidP384Point ssl (key.take p384PointBytes) = true ∧
    ssl.isMlKem768Key (key.drop p384PointBytes) = true

end keys

/-! ## What they accept -/

section accepted

variable {ssl : OpenSsl} {value : Text} {n : ℕ}

/-- The one spelling of some bytes. -/
def hex (bytes : Bytes) : Text := ofChars (Hex.encode bytes)

theorem length_hex (bytes : Bytes) : (hex bytes).length = 2 * bytes.length := by
  rw [hex, ofChars, List.length_map, Hex.length_encode]

theorem hex_inj {xs ys : Bytes} (h : hex xs = hex ys) : xs = ys := by
  have hchars : Hex.encode xs = Hex.encode ys :=
    List.map_injective_iff.mpr (fun _ _ hc => Point.char.inj hc) h
  have hxs := Hex.decode_encode xs
  rw [hchars, Hex.decode_encode] at hxs
  exact (Option.some.inj hxs).symm

/-- No spelling ends in a line break. -/
theorem hex_ne_append_newline {bytes : Bytes} {body : Text} : hex bytes ≠ body ++ [.char '\n'] := by
  intro h
  have hmem : Point.char '\n' ∈ hex bytes := h ▸ List.mem_append_right _ List.mem_cons_self
  obtain ⟨c, hc, hline⟩ := List.mem_map.mp hmem
  have hdigit := Hex.isLowercase_encode hc
  rw [Point.char.inj hline] at hdigit
  exact absurd hdigit (by decide)

/-- A text of lowercase digits, in pairs. -/
theorem lowercase_iff {body : Text} : body.length = 2 * n ∧ Text.consistsOf Hex.isLowercase body = true ↔
    ∃ bytes : Bytes, bytes.length = n ∧ body = hex bytes := by
  constructor
  · rintro ⟨hlength, hall⟩
    have hwell : body.isWellFormed = true := by
      refine List.all_eq_true.mpr fun p hp => ?_
      have hpoint := List.all_eq_true.mp hall p hp
      cases p with
      | char c => rfl
      | surrogate n => cases hpoint
    obtain ⟨cs, rfl⟩ := exists_chars hwell
    have hdigits : ∀ c ∈ cs, Hex.isLowercase c = true := by
      intro c hc
      exact List.all_eq_true.mp hall (.char c) (List.mem_map_of_mem hc)
    obtain ⟨bytes, rfl, hbytes⟩ := Hex.exists_encode hdigits (by rwa [List.length_map] at hlength)
    exact ⟨bytes, hbytes, rfl⟩
  · rintro ⟨bytes, hbytes, rfl⟩
    refine ⟨by rw [length_hex, hbytes], List.all_eq_true.mpr fun p hp => ?_⟩
    obtain ⟨c, hc, rfl⟩ := List.mem_map.mp hp
    exact Hex.isLowercase_encode hc

/-- The pattern matches the spelling of `n` bytes, and the same with one line break. -/
theorem matchLowercaseHex_iff (n : ℕ) (value : Text) : matchLowercaseHex (2 * n) value = true ↔
    ∃ bytes : Bytes, bytes.length = n ∧ (value = hex bytes ∨ value = hex bytes ++ [.char '\n']) := by
  have hmatch : matchLowercaseHex (2 * n) value = true ↔ (withoutNewline value).length = 2 * n ∧
      Text.consistsOf Hex.isLowercase (withoutNewline value) = true := by
    rw [matchLowercaseHex, Bool.and_eq_true, beq_iff_eq]
    rfl
  rw [hmatch, lowercase_iff]
  refine exists_congr fun bytes => and_congr_right fun _ => ?_
  unfold withoutNewline
  constructor
  · intro h
    split at h
    · next hlast =>
      rw [← h]
      exact .inr (List.dropLast_append_getLast? _ hlast).symm
    · exact .inl h
  · rintro (rfl | rfl)
    · split
      · next hlast =>
        have happend := List.dropLast_append_getLast? _ hlast
        exact absurd happend.symm hex_ne_append_newline
      · rfl
    · rw [if_pos List.getLast?_concat, List.dropLast_concat]

/-- `bytes.fromhex` skips the line break. -/
theorem bytesFromHex_newline (bytes : Bytes) : bytesFromHex (hex bytes ++ [.char '\n']) = .ok bytes := by
  have hspace : ∀ n < 16, isSpace (Hex.digit n) = false := by decide
  induction bytes with
  | nil => rfl
  | cons b bytes ih =>
    have hb := b.toNat_lt
    have hhigh := Hex.value_digit (b.toNat / 16) (by omega)
    have hlow := Hex.value_digit (b.toNat % 16) (by omega)
    have hskip := hspace (b.toNat / 16) (by omega)
    have hbyte : 16 * (b.toNat / 16) + b.toNat % 16 = b.toNat := Nat.div_add_mod _ _
    change bytesFromHex (.char (Hex.digit (b.toNat / 16)) :: .char (Hex.digit (b.toNat % 16)) ::
      (hex bytes ++ [.char '\n'])) = _
    rw [bytesFromHex]
    simp only [hskip, hhigh, hlow, ih, ok_bind, hbyte, UInt8.ofNat_toNat]
    rfl

/-- What a validator of some length accepts, with the test on the bytes. -/
def Accepts (IsOne : Bytes → Prop) (value : Text) : Prop :=
  ∃ bytes, IsOne bytes ∧ (value = hex bytes ∨ value = hex bytes ++ [.char '\n'])

theorem isValidAddress_iff : IdentitySignatures.isValidAddress value = true ↔ Accepts (·.length = 48) value :=
  matchLowercaseHex_iff 48 value

theorem isValidKeyId_iff : isValidKeyId value = true ↔ Accepts (·.length = 16) value :=
  matchLowercaseHex_iff 16 value

theorem bytesFromHex_of_spelling {bytes : Bytes} (h : value = hex bytes ∨ value = hex bytes ++ [.char '\n']) :
    bytesFromHex value = .ok bytes := by
  rcases h with rfl | rfl
  · exact bytesFromHex_encode bytes
  · exact bytesFromHex_newline bytes

/-- One spelling is not another with a line break. -/
theorem spelled_unique {xs ys : Bytes} (hx : value = hex xs ∨ value = hex xs ++ [.char '\n'])
    (hy : value = hex ys ∨ value = hex ys ++ [.char '\n']) : xs = ys := by
  have hread := bytesFromHex_of_spelling hx
  rw [bytesFromHex_of_spelling hy] at hread
  exact (Except.ok.inj hread).symm

/-- The pattern first, then a test on the bytes. -/
theorem matched_and_iff (n : ℕ) (check : Bytes → Except PyException Bool) (value : Text) :
    (if !matchLowercaseHex (2 * n) value then .ok false else bytesFromHex value >>= check) = .ok true ↔
      Accepts (fun bytes => bytes.length = n ∧ check bytes = .ok true) value := by
  have hmatch := matchLowercaseHex_iff n value
  split
  · next hno =>
    refine iff_of_false (by simp) ?_
    rintro ⟨bytes, ⟨hlength, -⟩, hspelled⟩
    rw [hmatch.mpr ⟨bytes, hlength, hspelled⟩] at hno
    cases hno
  · next hyes =>
    obtain ⟨bytes, hlength, hspelled⟩ := hmatch.mp (by simpa using hyes)
    rw [bytesFromHex_of_spelling hspelled, ok_bind]
    constructor
    · exact fun hcheck => ⟨bytes, ⟨hlength, hcheck⟩, hspelled⟩
    · rintro ⟨key, ⟨-, hcheck⟩, hspelled'⟩
      rwa [spelled_unique hspelled hspelled']

theorem isValidIdentityKey_iff :
    isValidIdentityKey ssl value = .ok true ↔ Accepts (IsIdentityKey ssl) value := by
  refine (matched_and_iff 2049 _ value).trans (exists_congr fun bytes => and_congr_left fun _ => ?_)
  exact and_congr_right fun _ => by rw [Except.ok.injEq]

theorem isValidEncryptionKey_iff :
    isValidEncryptionKey ssl value = .ok true ↔ Accepts (IsEncryptionKey ssl) value := by
  refine (matched_and_iff 1281 _ value).trans (exists_congr fun bytes => and_congr_left fun _ => ?_)
  rw [IsEncryptionKey]
  refine and_congr_right fun _ => ?_
  cases hpoint : isValidP384Point ssl (bytes.take p384PointBytes) with
  | false => simp
  | true => simp

end accepted

end Kryptolog.Server.Spellings
