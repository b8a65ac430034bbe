import Kryptolog.Library.ByteText
import Kryptolog.Library.Der
import Kryptolog.Library.Fallible
import Kryptolog.Library.Script

/-! # Signatures of identities, verified by the server

`verify_identity_signature` of `auth.py` down to the bytes, with the binding of keys to addresses
(`security/crypto_validation.py`). A Python string is given by its code points, as a string of the
clients is. SHA-2, ML-DSA, ECDSA and the DER of `cryptography` are parameters.
-/

namespace Kryptolog.Server.IdentitySignatures
set_option autoImplicit false

open Script Fallible

inductive PyException
  | invalidSignature
  | valueError
  | other (name : String)

/-- What the server gets from `hashlib` and `cryptography`. -/
structure Pyca where
  sha384 : Bytes → Bytes
  sha512 : Bytes → Bytes
  /-- `MLDSA65PublicKey.from_public_bytes(key).verify(signature, data, context)`. -/
  mldsaVerify : Bytes → Bytes → Bytes → Bytes → Except PyException Unit
  /-- `from_encoded_point(SECP384R1(), point).verify(signature, data, ECDSA(SHA384()))`. -/
  ecVerify : Bytes → Bytes → Bytes → Except PyException Unit
  decodeDssSignature : Bytes → Except PyException (ℕ × ℕ)
  encodeDssSignature : ℕ → ℕ → Bytes

/-! ## Texts -/

/-- `_lowercase_hex(length).match(value)`: the end of the pattern is also before a line break. -/
def matchLowercaseHex (length : ℕ) (value : Text) : Bool :=
  let body := if value.getLast? = some (.char '\n') then value.dropLast else value
  body.length == length && Text.consistsOf Hex.isLowercase body

/-- The white space of ASCII. -/
def isSpace (c : Char) : Bool := c == ' ' || (9 ≤ c.toNat && c.toNat ≤ 13)

/-- `bytes.fromhex`, which skips white space between the bytes. -/
def bytesFromHex : Text → Except PyException Bytes
  | [] => .ok []
  | .surrogate _ :: _ => .error .valueError
  | [.char c] => if isSpace c then .ok [] else .error .valueError
  | .char c :: p :: rest =>
    if isSpace c then bytesFromHex (p :: rest)
    else
      match p with
      | .surrogate _ => .error .valueError
      | .char d =>
        match Hex.value c, Hex.value d with
        | some x, some y => do
          let bytes ← bytesFromHex rest
          .ok (UInt8.ofNat (16 * x + y) :: bytes)
        | _, _ => .error .valueError

/-- `value.encode("utf-8")`. -/
def encodeUtf8 (value : Text) : Except PyException Bytes :=
  if value.isWellFormed then .ok value.encode else .error .valueError

/-- `base64.b64decode(value, validate=True)`. -/
def b64decode (value : Text) : Except PyException Bytes :=
  ((chars value).bind Base64.decode).elim (.error .valueError) .ok

/-- `_sig_bytes`. -/
def sigBytes (signature : Text) : Except PyException Bytes := do
  let decoded ← b64decode signature
  if ofChars (Base64.encode decoded) ≠ signature then .error .valueError else .ok decoded

/-! ## Addresses -/

section addresses

variable (pyca : Pyca)

def addressDomain : Bytes := Text.encode (lit "Kryptolog address v5\nalg=MLDSA65-ECDSA-P384-SHA512\n")

def isValidAddress (value : Text) : Bool := matchLowercaseHex 96 value

def addressOf (identityPublicKey : Text) : Except PyException Text :=
  if matchLowercaseHex 4098 identityPublicKey then do
    let key ← bytesFromHex identityPublicKey
    .ok (ofChars (Hex.encode (pyca.sha384 (addressDomain ++ key))))
  else .error .valueError

/-- `identity_binds_address`: `address_of` raises nothing but a `ValueError`. -/
def identityBindsAddress (identityPublicKey address : Text) : Bool :=
  isValidAddress address &&
    match addressOf pyca identityPublicKey with
    | .ok named => named == address
    | .error _ => false

/-! ## The composite signature -/

def compositePrefixBytes : Bytes := Text.encode (lit "CompositeAlgorithmSignatures2025")

def compositeP384Label : Bytes := Text.encode (lit "COMPSIG-MLDSA65-ECDSA-P384-SHA512")

def mlDsa65PublicKeyBytes : ℕ := 1952

def mlDsa65SignatureBytes : ℕ := 3309

def p384PointBytes : ℕ := 97

/-- `_P384_ORDER`. -/
def p384Order : ℕ :=
  0xFFFFFFFFFFFFFFFFFFFFFFFFFFFFFFFFFFFFFFFFFFFFFFFFC7634D81F4372DDF581A0DB248B0A77AECEC196ACCC52973

def derMin : ℕ := 8

def derMax : ℕ := 104

def compositeMessage (message ctx label : Bytes) : Except PyException Bytes :=
  if 255 < ctx.length then .error .valueError
  else .ok (compositePrefixBytes ++ label ++ [UInt8.ofNat ctx.length] ++ ctx ++ pyca.sha512 message)

/-- The checks of the two halves, which may raise. -/
def verifyHalves (mlPk point mlSig der m : Bytes) : Except PyException Bool := do
  let (r, s) ← pyca.decodeDssSignature der
  if p384Order / 2 < s ∨ pyca.encodeDssSignature r s ≠ der then .ok false
  else
    pyca.mldsaVerify mlPk mlSig m compositeP384Label
    pyca.ecVerify point der m
    .ok true

/-- `_verify_composite_p384`. -/
def verifyCompositeP384 (publicKey message signature ctx : Bytes) : Except PyException Bool :=
  if publicKey.length ≠ mlDsa65PublicKeyBytes + p384PointBytes then .ok false
  else if ¬(mlDsa65SignatureBytes + derMin ≤ signature.length ∧
      signature.length ≤ mlDsa65SignatureBytes + derMax) then .ok false
  else do
    let m ← compositeMessage pyca message ctx compositeP384Label
    let mlPk := publicKey.take mlDsa65PublicKeyBytes
    let point := publicKey.drop mlDsa65PublicKeyBytes
    let mlSig := signature.take mlDsa65SignatureBytes
    let der := signature.drop mlDsa65SignatureBytes
    if point.head? ≠ some 4 then .ok false
    else
      match verifyHalves pyca mlPk point mlSig der m with
      | .ok valid => .ok valid
      | .error .invalidSignature | .error .valueError => .ok false
      | .error (.other name) => .error (.other name)

/-- `verify_identity_signature`: every exception is a refusal. -/
def verifyIdentitySignature (identityPublicKey message signature : Text) : Bool :=
  match (do
    let key ← bytesFromHex identityPublicKey
    let text ← encodeUtf8 message
    let sig ← sigBytes signature
    verifyCompositeP384 pyca key text sig []) with
  | .ok valid => valid
  | .error _ => false

end addresses

/-! ## What the libraries decide -/

/-- The standards: SHA-2, ML-DSA-65 and ECDSA on P-384 with SHA-384. -/
structure Standards where
  sha384 : Bytes → Bytes
  sha512 : Bytes → Bytes
  /-- A public key, a context, a message and a signature. -/
  mldsa : Bytes → Bytes → Bytes → Bytes → Prop
  /-- A point, a message, and the two numbers of a signature. -/
  ecdsa : Bytes → Bytes → ℕ → ℕ → Prop

/-- The server's library follows the standards, and reads at least the DER that it writes. -/
structure Pyca.Follows (pyca : Pyca) (std : Standards) : Prop where
  sha384 : pyca.sha384 = std.sha384
  sha512 : pyca.sha512 = std.sha512
  mldsa : ∀ key signature message context,
    pyca.mldsaVerify key signature message context = .ok () ↔ std.mldsa key context message signature
  ecdsa : ∀ point message r s, (Der.pair r s).length ≤ derMax →
    (pyca.ecVerify point (Der.pair r s) message = .ok () ↔ std.ecdsa point message r s)
  reads : ∀ r s, (Der.pair r s).length ≤ derMax → pyca.decodeDssSignature (Der.pair r s) = .ok (r, s)
  writes : ∀ r s der, der.length ≤ derMax → (pyca.encodeDssSignature r s = der ↔ der = Der.pair r s)

/-- What both halves sign. -/
def signedMessage (std : Standards) (message : Bytes) : Bytes :=
  compositePrefixBytes ++ compositeP384Label ++ [0] ++ [] ++ std.sha512 message

/-- The composite signature of the standards, with a low second number and minimal DER. -/
structure Composite (std : Standards) (publicKey message signature : Bytes) : Prop where
  key : publicKey.length = mlDsa65PublicKeyBytes + p384PointBytes
  uncompressed : (publicKey.drop mlDsa65PublicKeyBytes).head? = some 4
  mldsa : std.mldsa (publicKey.take mlDsa65PublicKeyBytes) compositeP384Label (signedMessage std message)
    (signature.take mlDsa65SignatureBytes)
  size : mlDsa65SignatureBytes + derMin ≤ signature.length ∧ signature.length ≤ mlDsa65SignatureBytes + derMax
  ecdsa : ∃ r s, signature.drop mlDsa65SignatureBytes = Der.pair r s ∧ s ≤ p384Order / 2 ∧
    std.ecdsa (publicKey.drop mlDsa65PublicKeyBytes) (signedMessage std message) r s

section spec

variable {pyca : Pyca} {std : Standards}

theorem verifyHalves_eq_true (h : pyca.Follows std) {mlPk point mlSig der m : Bytes}
    (hder : der.length ≤ derMax) : verifyHalves pyca mlPk point mlSig der m = .ok true ↔
      std.mldsa mlPk compositeP384Label m mlSig ∧
        ∃ r s, der = Der.pair r s ∧ s ≤ p384Order / 2 ∧ std.ecdsa point m r s := by
  constructor
  · intro hok
    obtain ⟨⟨r, s⟩, -, hok⟩ := bind_eq_ok.mp hok
    simp only at hok
    split at hok
    · cases hok
    · next hcheck =>
      obtain ⟨hlow, hwritten⟩ := not_or.mp hcheck
      obtain rfl := (h.writes r s der hder).mp (not_not.mp hwritten)
      obtain ⟨⟨⟩, hml, hok⟩ := bind_eq_ok.mp hok
      obtain ⟨⟨⟩, hec, -⟩ := bind_eq_ok.mp hok
      exact ⟨(h.mldsa ..).mp hml, r, s, rfl, Nat.not_lt.mp hlow, (h.ecdsa _ _ r s hder).mp hec⟩
  · rintro ⟨hml, r, s, rfl, hlow, hec⟩
    have hwritten := (h.writes r s _ hder).mpr rfl
    rw [verifyHalves, h.reads r s hder, ok_bind]
    simp only
    rw [if_neg (not_or.mpr ⟨Nat.not_lt.mpr hlow, not_not.mpr hwritten⟩), (h.mldsa ..).mpr hml, ok_bind,
      (h.ecdsa _ _ r s hder).mpr hec, ok_bind]

/-- A signature passes on the server if it is one by the standards. -/
theorem verifyCompositeP384_eq_true (h : pyca.Follows std) (publicKey message signature : Bytes) :
    verifyCompositeP384 pyca publicKey message signature [] = .ok true ↔
      Composite std publicKey message signature := by
  have hmessage : compositeMessage pyca message [] compositeP384Label = .ok (signedMessage std message) := by
    rw [compositeMessage, if_neg (by simp), h.sha512]
    rfl
  constructor
  · intro hok
    unfold verifyCompositeP384 at hok
    split at hok
    · cases hok
    · next hkey =>
      split at hok
      · cases hok
      · next hsize =>
        have hsize := not_not.mp hsize
        rw [hmessage, ok_bind] at hok
        simp only at hok
        split at hok
        · cases hok
        · next hpoint =>
          have hder : (signature.drop mlDsa65SignatureBytes).length ≤ derMax := by
            rw [List.length_drop]
            omega
          split at hok
          · next valid hhalves =>
            cases hok
            obtain ⟨hml, hec⟩ := (verifyHalves_eq_true h hder).mp hhalves
            exact ⟨not_not.mp hkey, not_not.mp hpoint, hml, hsize, hec⟩
          · cases hok
          · cases hok
          · cases hok
  · rintro ⟨hkey, hpoint, hml, hsize, hec⟩
    have hder : (signature.drop mlDsa65SignatureBytes).length ≤ derMax := by
      rw [List.length_drop]
      omega
    have hhalves := (verifyHalves_eq_true h hder).mpr ⟨hml, hec⟩
    rw [verifyCompositeP384, if_neg (not_not.mpr hkey), if_neg (not_not.mpr hsize), hmessage, ok_bind]
    simp only
    rw [if_neg (not_not.mpr hpoint), hhalves]

theorem Composite.ne_nil {publicKey message signature : Bytes} (h : Composite std publicKey message signature) :
    signature ≠ [] := by
  rintro rfl
  exact absurd h.size.1 (by decide)

/-- Lowercase hexadecimal is read as the bytes that it was written for. -/
theorem bytesFromHex_encode (bytes : Bytes) : bytesFromHex (ofChars (Hex.encode bytes)) = .ok bytes := by
  have hspace : ∀ n < 16, isSpace (Hex.digit n) = false := by decide
  induction bytes with
  | nil => rfl
  | cons b bytes ih =>
    have hb := b.toNat_lt
    have hhigh := Hex.value_digit (b.toNat / 16) (by omega)
    have hlow := Hex.value_digit (b.toNat % 16) (by omega)
    have hskip := hspace (b.toNat / 16) (by omega)
    have hbyte : 16 * (b.toNat / 16) + b.toNat % 16 = b.toNat := Nat.div_add_mod _ _
    change bytesFromHex (.char (Hex.digit (b.toNat / 16)) :: .char (Hex.digit (b.toNat % 16)) ::
      ofChars (Hex.encode bytes)) = _
    rw [bytesFromHex]
    simp only [hskip, hhigh, hlow, ih, ok_bind, hbyte, UInt8.ofNat_toNat]
    rfl

/-- The one spelling of a signature. -/
theorem sigBytes_eq_ok {signature : Text} {decoded : Bytes} :
    sigBytes signature = .ok decoded ↔ signature = ofChars (Base64.encode decoded) := by
  constructor
  · intro hok
    obtain ⟨decoded', -, hok⟩ := bind_eq_ok.mp hok
    split at hok
    · cases hok
    · next hsame =>
      cases hok
      exact (not_not.mp hsame).symm
  · rintro rfl
    have hchars : chars (ofChars (Base64.encode decoded)) = some (Base64.encode decoded) := chars_eq_some.mpr rfl
    have hdecode : b64decode (ofChars (Base64.encode decoded)) = .ok decoded := by
      rw [b64decode, hchars, Option.bind_some, Base64.decode_encode]
      rfl
    rw [sigBytes, hdecode, ok_bind, if_neg (not_not.mpr rfl)]

/-- What the server accepts of a key in lowercase hexadecimal. -/
theorem verifyIdentitySignature_eq_true (h : pyca.Follows std) {message : Text}
    (hmessage : message.isWellFormed = true) (key : Bytes) (signature : Text) :
    verifyIdentitySignature pyca (ofChars (Hex.encode key)) message signature = true ↔
      ∃ sig, signature = ofChars (Base64.encode sig) ∧ Composite std key message.encode sig := by
  have hencode : encodeUtf8 message = .ok message.encode := if_pos hmessage
  rw [verifyIdentitySignature, bytesFromHex_encode, ok_bind, hencode, ok_bind]
  constructor
  · intro hok
    split at hok
    · next valid hvalid =>
      subst hok
      obtain ⟨sig, hsig, hvalid⟩ := bind_eq_ok.mp hvalid
      exact ⟨sig, sigBytes_eq_ok.mp hsig, (verifyCompositeP384_eq_true h ..).mp hvalid⟩
    · cases hok
  · rintro ⟨sig, hsig, hcomposite⟩
    rw [sigBytes_eq_ok.mpr hsig, ok_bind, (verifyCompositeP384_eq_true h ..).mpr hcomposite]

theorem matchLowercaseHex_encode {n : ℕ} {bytes : Bytes} (h : 2 * bytes.length = n) :
    matchLowercaseHex n (ofChars (Hex.encode bytes)) = true := by
  have hall : Text.consistsOf Hex.isLowercase (ofChars (Hex.encode bytes)) = true := by
    rw [Text.consistsOf, ofChars, List.all_map, List.all_eq_true]
    intro c hc
    exact Hex.isLowercase_encode hc
  have hlast : (ofChars (Hex.encode bytes)).getLast? ≠ some (.char '\n') := by
    intro hlast
    obtain ⟨c, hc, hline⟩ := List.mem_map.mp (List.mem_of_getLast? hlast)
    have hdigit := Hex.isLowercase_encode hc
    rw [Point.char.inj hline] at hdigit
    exact absurd hdigit (by decide)
  have hlength : (ofChars (Hex.encode bytes)).length = n := by
    rw [ofChars, List.length_map, Hex.length_encode, h]
  rw [matchLowercaseHex, if_neg hlast, hall, hlength, beq_self_eq_true]
  rfl

/-- A key in lowercase hexadecimal is bound to the address that is its digest. -/
theorem identityBindsAddress_encode (h : pyca.Follows std) {key digest : Bytes} (hkey : key.length = 2049)
    (hdigest : digest.length = 48) (haddress : std.sha384 (addressDomain ++ key) = digest) :
    identityBindsAddress pyca (ofChars (Hex.encode key)) (ofChars (Hex.encode digest)) = true := by
  have hvalid : isValidAddress (ofChars (Hex.encode digest)) = true :=
    matchLowercaseHex_encode (by rw [hdigest])
  have hnamed : addressOf pyca (ofChars (Hex.encode key)) = .ok (ofChars (Hex.encode digest)) := by
    rw [addressOf, if_pos (matchLowercaseHex_encode (by rw [hkey])), bytesFromHex_encode, ok_bind, h.sha384,
      haddress]
  rw [identityBindsAddress, hvalid, hnamed]
  exact beq_self_eq_true _

end spec

end Kryptolog.Server.IdentitySignatures
