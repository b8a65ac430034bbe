import Kryptolog.Client.Encoding
import Kryptolog.Server.IdentitySignatures

/-! # Signatures that both sides verify

`packages/crypto-core/src/identity.js` and the verification of `composite.js`, beside the server's. Both
accept the composite signatures of the standards in the one spelling that base64 and DER have for them,
and the bound on the second number leaves one ECDSA signature of the two that a pair of numbers gives.
-/

namespace Kryptolog.Client.IdentitySignatures
set_option autoImplicit false

open Script Fallible Server.IdentitySignatures

/-- What the clients get from their libraries. -/
structure Noble where
  sha384 : Bytes → Bytes
  sha512 : Bytes → Bytes
  /-- `ml_dsa65.verify(sig, m, pk, { context })`. -/
  mlDsa65Verify : Bytes → Bytes → Bytes → Bytes → Except String Bool
  /-- `p384.verify(sig, m, point, { format: 'der', lowS: true })`. -/
  p384Verify : Bytes → Bytes → Bytes → Except String Bool
  /-- The numbers that the decoder of `p384.verify` reads. -/
  decodeDer : Bytes → Option (ℕ × ℕ)

section operations

variable (noble : Noble)

/-! ## Addresses -/

def isAddress (value : Text) : Bool := value.length == 96 && value.consistsOf Hex.isLowercase

/-- `IDENTITY_KEY_RE`. -/
def isIdentityKey (value : Text) : Bool := value.length == 4098 && value.consistsOf Hex.isLowercase

/-- `ADDRESS_DOMAIN`. -/
def addressDomain : Bytes := Text.encode (lit "Kryptolog address v5\nalg=MLDSA65-ECDSA-P384-SHA512\n")

def addressOf (identityPublicKey : Text) : Except String Text := do
  refuseIf (!isIdentityKey identityPublicKey) "addressOf: an identity public key is 4098 lowercase hex characters"
  let key ← fromHex identityPublicKey
  .ok (toHex (noble.sha384 (addressDomain ++ key)))

def isAddressOf (address identityPublicKey : Text) : Bool :=
  isAddress address &&
    match addressOf noble identityPublicKey with
    | .ok named => named == address
    | .error _ => false

/-! ## The composite signature -/

/-- `PREFIX`. -/
def compositeSignaturePrefix : Bytes := Text.encode (lit "CompositeAlgorithmSignatures2025")

def p384Label : Bytes := Text.encode (lit "COMPSIG-MLDSA65-ECDSA-P384-SHA512")

/-- `messageFor(P384_LABEL)`. -/
def mldsa65P384Message (message ctx : Bytes) : Except String Bytes := do
  refuseIf (255 < ctx.length) "compositeMessage: context longer than 255 bytes"
  .ok (compositeSignaturePrefix ++ p384Label ++ [UInt8.ofNat ctx.length] ++ ctx ++ noble.sha512 message)

/-- The body of `mldsa65P384Verify`, which may throw: `ML_SIG` is 3309, `ML_PK` is 1952. -/
def verifyHalves (signature message publicKey ctx : Bytes) : Except String Bool :=
  if signature.length < 3309 + 8 ∨ 3309 + 104 < signature.length then .ok false
  else if publicKey.length ≠ 1952 + 97 then .ok false
  else
    let point := publicKey.drop 1952
    if point.head? ≠ some 4 then .ok false
    else do
      let m ← mldsa65P384Message noble message ctx
      let ml ← noble.mlDsa65Verify (signature.take 3309) m (publicKey.take 1952) p384Label
      if ml then noble.p384Verify (signature.drop 3309) m point else .ok false

/-- An exception is a refusal. -/
def caught (result : Except String Bool) : Bool :=
  match result with
  | .ok valid => valid
  | .error _ => false

def mldsa65P384Verify (signature message publicKey ctx : Bytes) : Bool :=
  caught (verifyHalves noble signature message publicKey ctx)

def verifyIdentitySignature (address identityPublicKey message signature : Text) : Bool :=
  if !isAddressOf noble address identityPublicKey then false
  else caught do
    let sig ← fromB64 (some (.str signature))
    let key ← fromHex identityPublicKey
    .ok (mldsa65P384Verify noble sig message.encode key [])

end operations

theorem caught_eq_true {result : Except String Bool} : caught result = true ↔ result = .ok true := by
  cases result with
  | error e => simp [caught]
  | ok valid => simp [caught]

/-- The clients' library follows the standards, reads minimal DER and nothing else, and refuses a high
second number. -/
structure Noble.Follows (noble : Noble) (std : Standards) : Prop where
  sha384 : noble.sha384 = std.sha384
  sha512 : noble.sha512 = std.sha512
  mldsa : ∀ signature message key context,
    noble.mlDsa65Verify signature message key context = .ok true ↔ std.mldsa key context message signature
  der : ∀ der r s, der.length ≤ derMax → (noble.decodeDer der = some (r, s) ↔ der = Der.pair r s)
  ecdsa : ∀ der message point, noble.p384Verify der message point = .ok true ↔
    ∃ r s, noble.decodeDer der = some (r, s) ∧ s ≤ p384Order / 2 ∧ std.ecdsa point message r s

section spec

variable {noble : Noble} {std : Standards}

theorem addressOf_eq_ok {identityPublicKey named : Text} (h : addressOf noble identityPublicKey = .ok named) :
    ∃ key : Bytes, identityPublicKey = toHex key ∧ key.length = 2049 ∧
      named = toHex (noble.sha384 (addressDomain ++ key)) := by
  obtain ⟨_, hkey, h⟩ := bind_eq_ok.mp h
  rw [refuseIf_eq_ok, Bool.not_eq_false', isIdentityKey, Bool.and_eq_true_iff, beq_iff_eq] at hkey
  obtain ⟨hlength, hlower⟩ := hkey
  obtain ⟨cs, hcs⟩ := exists_chars (isWellFormed_of_consistsOf hlower)
  subst hcs
  have hdigits : ∀ c ∈ cs, Hex.isLowercase c = true := fun c hc =>
    List.all_eq_true.mp hlower (.char c) (List.mem_map_of_mem hc)
  obtain ⟨key, rfl, hbytes⟩ := Hex.exists_encode (n := 2049) hdigits (by simpa using hlength)
  have hne : key ≠ [] := by
    rintro rfl
    cases hbytes
  have hread : fromHex (ofChars (Hex.encode key)) = .ok key := fromHex_toHex hne
  refine ⟨key, rfl, hbytes, ?_⟩
  change (fromHex (ofChars (Hex.encode key)) >>= _) = _ at h
  rw [hread, ok_bind] at h
  exact (Except.ok.inj h).symm

/-- A signature passes in the clients if it is one by the standards. -/
theorem mldsa65P384Verify_eq_true (h : noble.Follows std) (signature message publicKey : Bytes) :
    mldsa65P384Verify noble signature message publicKey [] = true ↔
      Composite std publicKey message signature := by
  have hmessage : mldsa65P384Message noble message [] = .ok (signedMessage std message) := by
    rw [mldsa65P384Message, h.sha512]
    rfl
  have hder (hsize : ¬(signature.length < 3309 + 8 ∨ 3309 + 104 < signature.length)) :
      (signature.drop 3309).length ≤ derMax := by
    rw [List.length_drop, derMax]
    omega
  rw [mldsa65P384Verify, caught_eq_true]
  constructor
  · intro hok
    unfold verifyHalves at hok
    split at hok
    · cases hok
    · next hsize =>
      split at hok
      · cases hok
      · next hkey =>
        simp only at hok
        split at hok
        · cases hok
        · next hpoint =>
          rw [hmessage, ok_bind] at hok
          obtain ⟨ml, hml, hok⟩ := bind_eq_ok.mp hok
          cases ml with
          | false => cases hok
          | true =>
            obtain ⟨r, s, hread, hlow, hec⟩ := (h.ecdsa ..).mp hok
            refine ⟨not_not.mp hkey, not_not.mp hpoint, (h.mldsa ..).mp hml, ?_, r, s,
              (h.der _ r s (hder hsize)).mp hread, hlow, hec⟩
            rw [not_or, Nat.not_lt, Nat.not_lt] at hsize
            exact hsize
  · rintro ⟨hkey, hpoint, hml, hsize, r, s, hpair, hlow, hec⟩
    have hsize : ¬(signature.length < 3309 + 8 ∨ 3309 + 104 < signature.length) := by
      rw [not_or, Nat.not_lt, Nat.not_lt]
      exact hsize
    have hread := (h.der _ r s (hder hsize)).mpr hpair
    have hkey : ¬publicKey.length ≠ 1952 + 97 := not_not.mpr hkey
    have hpoint : ¬(publicKey.drop 1952).head? ≠ some 4 := not_not.mpr hpoint
    rw [verifyHalves, if_neg hsize, if_neg hkey]
    simp only
    rw [if_neg hpoint, hmessage, ok_bind]
    have hfirst : noble.mlDsa65Verify (signature.take 3309) (signedMessage std message) (publicKey.take 1952)
        p384Label = .ok true := (h.mldsa ..).mpr hml
    rw [hfirst, ok_bind, if_pos rfl]
    exact (h.ecdsa ..).mpr ⟨r, s, hread, hlow, hec⟩

/-- What the clients accept of a key that is bound to the address. -/
theorem verifyIdentitySignature_eq_true (h : noble.Follows std) {address message signature : Text} {key : Bytes}
    (hbound : isAddressOf noble address (toHex key) = true) (hkey : key.length = 2049) :
    verifyIdentitySignature noble address (toHex key) message signature = true ↔
      ∃ sig, signature = toB64 sig ∧ Composite std key message.encode sig := by
  have hne : key ≠ [] := by
    rintro rfl
    cases hkey
  rw [verifyIdentitySignature, hbound, Bool.not_true, if_neg Bool.false_ne_true, caught_eq_true, bind_eq_ok]
  simp only [fromHex_toHex hne, ok_bind, Except.ok.injEq, fromB64_eq_ok, Option.some.injEq, Value.str.injEq,
    mldsa65P384Verify_eq_true h]
  constructor
  · rintro ⟨sig, ⟨hsig, -⟩, hcomposite⟩
    exact ⟨sig, hsig, hcomposite⟩
  · rintro ⟨sig, hsig, hcomposite⟩
    exact ⟨sig, ⟨hsig, hcomposite.ne_nil⟩, hcomposite⟩

end spec

/-! ## Agreement -/

/-- The server accepts the signature, with the key that the address names. -/
def serverAccepts (pyca : Pyca) (address identityPublicKey message signature : Text) : Bool :=
  identityBindsAddress pyca identityPublicKey address &&
    Server.IdentitySignatures.verifyIdentitySignature pyca identityPublicKey message signature

theorem p384Order_odd : p384Order % 2 = 1 := by decide

/-- Of a number and its negative modulo the order, one is above the half of the order. -/
theorem eq_of_low {s t : ℕ} (hs : s ≤ p384Order / 2) (ht : t ≤ p384Order / 2)
    (h : t = s ∨ t = p384Order - s) : t = s := by
  rcases h with h | h
  · exact h
  · have hodd := p384Order_odd
    generalize p384Order = n at *
    omega

/-- The pair of an accepted signature, as the clients read it. -/
theorem low_of_composite {noble : Noble} {std : Standards} (h : noble.Follows std)
    {publicKey message signature : Bytes} (hcomposite : Composite std publicKey message signature) {r s : ℕ}
    (hread : noble.decodeDer (signature.drop 3309) = some (r, s)) :
    s ≤ p384Order / 2 ∧ signature.drop 3309 = Der.pair r s := by
  obtain ⟨r', s', hpair, hlow, -⟩ := hcomposite.ecdsa
  have hlength : (signature.drop 3309).length ≤ derMax := by
    have hsize : signature.length ≤ 3309 + derMax := hcomposite.size.2
    rw [List.length_drop]
    omega
  have hread' := (h.der _ r' s' hlength).mpr hpair
  obtain ⟨rfl, rfl⟩ := Prod.mk.inj (Option.some.inj (hread'.symm.trans hread))
  exact ⟨hlow, hpair⟩

/-- Both sides accept the same signatures, and one spelling of each. -/
theorem signatures_agree {noble : Noble} {pyca : Pyca} {std : Standards} (hnoble : noble.Follows std)
    (hpyca : pyca.Follows std) {address identityPublicKey : Text}
    (hbound : isAddressOf noble address identityPublicKey = true) {message : Text}
    (hmessage : message.isWellFormed = true) :
    (∀ signature, verifyIdentitySignature noble address identityPublicKey message signature = true ↔
      serverAccepts pyca address identityPublicKey message signature = true) ∧
    ∀ signature signature' bytes bytes' r s s',
      verifyIdentitySignature noble address identityPublicKey message signature = true →
      verifyIdentitySignature noble address identityPublicKey message signature' = true →
      fromB64 (some (.str signature)) = .ok bytes → fromB64 (some (.str signature')) = .ok bytes' →
      bytes.take 3309 = bytes'.take 3309 → noble.decodeDer (bytes.drop 3309) = some (r, s) →
      noble.decodeDer (bytes'.drop 3309) = some (r, s') → s' = s ∨ s' = p384Order - s →
      signature = signature' := by
  obtain ⟨haddress, hnamed⟩ := Bool.and_eq_true_iff.mp hbound
  cases hof : addressOf noble identityPublicKey with
  | error e =>
    rw [hof] at hnamed
    cases hnamed
  | ok named =>
    rw [hof] at hnamed
    obtain rfl := beq_iff_eq.mp hnamed
    obtain ⟨key, rfl, hkey, hdigest⟩ := addressOf_eq_ok hof
    have hclient := fun signature => @verifyIdentitySignature_eq_true noble std hnoble named message signature key
      hbound hkey
    have hlength : (noble.sha384 (addressDomain ++ key)).length = 48 := by
      have hshape := (Bool.and_eq_true_iff.mp haddress).1
      rw [beq_iff_eq, hdigest, length_toHex] at hshape
      omega
    have hbinds : identityBindsAddress pyca (toHex key) named = true := by
      rw [hdigest]
      exact identityBindsAddress_encode hpyca hkey hlength (by rw [← hnoble.sha384]; rfl)
    refine ⟨fun signature => ?_, ?_⟩
    · rw [hclient, serverAccepts, hbinds, Bool.true_and]
      exact (Server.IdentitySignatures.verifyIdentitySignature_eq_true hpyca hmessage key signature).symm
    · intro signature signature' bytes bytes' r s s' haccepted haccepted' hbytes hbytes' hml hder hder' hpair
      obtain ⟨sig, rfl, hcomposite⟩ := (hclient _).mp haccepted
      obtain ⟨sig', rfl, hcomposite'⟩ := (hclient _).mp haccepted'
      obtain rfl := Except.ok.inj ((fromB64_toB64 hcomposite.ne_nil).symm.trans hbytes)
      obtain rfl := Except.ok.inj ((fromB64_toB64 hcomposite'.ne_nil).symm.trans hbytes')
      obtain ⟨low, hpairs⟩ := low_of_composite hnoble hcomposite hder
      obtain ⟨low', hpairs'⟩ := low_of_composite hnoble hcomposite' hder'
      obtain rfl := eq_of_low low low' hpair
      have hsame : sig = sig' := by
        rw [← List.take_append_drop 3309 sig, ← List.take_append_drop 3309 sig', hml, hpairs, hpairs']
      rw [hsame]

/-! ## A key that verifies everything -/

theorem consistsOf_toHex (bytes : Bytes) : Text.consistsOf Hex.isLowercase (toHex bytes) = true := by
  rw [Text.consistsOf, toHex, ofChars, List.all_map, List.all_eq_true]
  intro c hc
  exact Hex.isLowercase_encode hc

/-- A key is bound to its digest. -/
theorem isAddressOf_toHex (noble : Noble) {key : Bytes} (hkey : key.length = 2049)
    (hdigest : (noble.sha384 (addressDomain ++ key)).length = 48) :
    isAddressOf noble (toHex (noble.sha384 (addressDomain ++ key))) (toHex key) = true := by
  have hne : key ≠ [] := by
    rintro rfl
    cases hkey
  have hshape : isIdentityKey (toHex key) = true := by
    rw [isIdentityKey, consistsOf_toHex, length_toHex, hkey]
    rfl
  have haddress : isAddress (toHex (noble.sha384 (addressDomain ++ key))) = true := by
    rw [isAddress, consistsOf_toHex, length_toHex, hdigest]
    rfl
  have hnamed : addressOf noble (toHex key) = .ok (toHex (noble.sha384 (addressDomain ++ key))) := by
    rw [addressOf, hshape, fromHex_toHex hne]
    rfl
  rw [isAddressOf, haddress, hnamed]
  exact beq_self_eq_true _

def sampleStandards : Standards where
  sha384 _ := List.replicate 48 0
  sha512 _ := List.replicate 64 0
  mldsa _ _ _ _ := True
  ecdsa _ _ _ _ := True

def sampleNoble : Noble where
  sha384 := sampleStandards.sha384
  sha512 := sampleStandards.sha512
  mlDsa65Verify _ _ _ _ := .ok true
  p384Verify der _ _ := .ok ((Der.readPair der).any fun pair => pair.2 ≤ p384Order / 2)
  decodeDer := Der.readPair

def samplePyca : Pyca where
  sha384 := sampleStandards.sha384
  sha512 := sampleStandards.sha512
  mldsaVerify _ _ _ _ := .ok ()
  ecVerify _ _ _ := .ok ()
  decodeDssSignature der := (Der.readPair der).elim (.error .valueError) .ok
  encodeDssSignature := Der.pair

theorem derMax_le {der : Bytes} (h : der.length ≤ derMax) : der.length ≤ 129 := h.trans (by decide)

theorem follows_sampleNoble : sampleNoble.Follows sampleStandards where
  sha384 := rfl
  sha512 := rfl
  mldsa _ _ _ _ := iff_of_true rfl trivial
  der _ _ _ hder := Der.readPair_eq_some (derMax_le hder)
  ecdsa der message point := by
    have hverify : sampleNoble.p384Verify der message point =
        .ok ((Der.readPair der).any fun pair => pair.2 ≤ p384Order / 2) := rfl
    rw [hverify, Except.ok.injEq, Option.any_eq_true]
    constructor
    · rintro ⟨⟨r, s⟩, hread, hlow⟩
      exact ⟨r, s, hread, of_decide_eq_true hlow, trivial⟩
    · rintro ⟨r, s, hread, hlow, -⟩
      exact ⟨(r, s), hread, decide_eq_true hlow⟩

theorem follows_samplePyca : samplePyca.Follows sampleStandards where
  sha384 := rfl
  sha512 := rfl
  mldsa _ _ _ _ := iff_of_true rfl trivial
  ecdsa _ _ _ _ _ := iff_of_true rfl trivial
  reads r s hder := by
    have hread : Der.readPair (Der.pair r s) = some (r, s) := (Der.readPair_eq_some (derMax_le hder)).mpr rfl
    change (Der.readPair (Der.pair r s)).elim _ _ = _
    rw [hread]
    rfl
  writes _ _ _ _ := eq_comm

def sampleKey : Bytes := List.replicate 1952 0 ++ 4 :: List.replicate 96 0

def sampleSignature : Bytes := List.replicate 3309 0 ++ Der.pair 1 1

theorem composite_sample (message : Bytes) : Composite sampleStandards sampleKey message sampleSignature where
  key := by
    rw [sampleKey, List.length_append, List.length_replicate, List.length_cons, List.length_replicate]
    rfl
  uncompressed := by
    rw [sampleKey, mlDsa65PublicKeyBytes, List.drop_left' List.length_replicate]
    rfl
  mldsa := trivial
  size := by
    have hpair : (Der.pair 1 1).length = 8 := by decide
    rw [sampleSignature, List.length_append, List.length_replicate, hpair]
    decide
  ecdsa := by
    refine ⟨1, 1, ?_, by decide, trivial⟩
    rw [sampleSignature, mlDsa65SignatureBytes, List.drop_left' List.length_replicate]

/-- What the clients accept here, the server accepts. -/
theorem signatures_agree_sample :
    serverAccepts samplePyca (toHex (List.replicate 48 0)) (toHex sampleKey) (lit "m") (toB64 sampleSignature) =
      true := by
  have hkey : sampleKey.length = 2049 := (composite_sample []).key
  have hbound : isAddressOf sampleNoble (toHex (List.replicate 48 0)) (toHex sampleKey) = true :=
    isAddressOf_toHex sampleNoble hkey List.length_replicate
  have haccepted := (verifyIdentitySignature_eq_true follows_sampleNoble hbound hkey).mpr
    ⟨sampleSignature, rfl, composite_sample (Text.encode (lit "m"))⟩
  exact ((signatures_agree follows_sampleNoble follows_samplePyca hbound (by decide)).1 _).mp haccepted

end Kryptolog.Client.IdentitySignatures
