import Kryptolog.Client.RoundTrips
import Kryptolog.Library.LengthPrefixed
import Kryptolog.Library.ParallelKem

/-! # The hybrid KEM

`packages/crypto-core/src/kem.js`: P-384 and ML-KEM-768 under CatKDF, the one suite of the envelopes.
The curve, ML-KEM, HKDF and SHA-384 are parameters. A KEM's random values are a string of bytes that
the generator gave, continued with zeros where it is too short.
-/

namespace Kryptolog.Client.HybridKem
set_option autoImplicit false

open Script Fallible ParallelKem LengthPrefixed Envelopes

/-- What the suite takes from its packages. -/
structure Noble where
  /-- `p384.utils.isValidSecretKey`. -/
  isValidSecretKey : Bytes → Bool
  /-- `p384.utils.randomSecretKey`, of the random bytes that it draws. -/
  randomSecretKey : Bytes → Bytes
  /-- `p384.getPublicKey`, uncompressed. -/
  getPublicKey : Bytes → Bytes
  /-- `p384.getSharedSecret`, compressed. -/
  getSharedSecret : Bytes → Bytes → Except String Bytes
  /-- `ml_kem768.keygen`: the public and the secret key. -/
  keygen : Bytes → Bytes × Bytes
  /-- `ml_kem768.encapsulate`, of a public key and the random bytes that it draws. -/
  encapsulate : Bytes → Bytes → Except String (Bytes × Bytes)
  /-- `ml_kem768.decapsulate`, of a ciphertext and a secret key. -/
  decapsulate : Bytes → Bytes → Except String Bytes
  /-- HKDF with SHA-384: the secret, the salt, the info and the length. -/
  hkdf : Bytes → Bytes → Bytes → ℕ → Bytes
  sha384 : Bytes → Bytes

def need (bytes : Bytes) (length : ℕ) (what : String) : Except String Unit :=
  refuseIf (bytes.length != length) s!"{what} must be {length} bytes"

/-- `n` bytes of what the generator gave. -/
def draw (random : Bytes) (start n : ℕ) : Bytes := (List.range n).map fun i => random.getD (start + i) 0

theorem length_draw (random : Bytes) (start n : ℕ) : (draw random start n).length = n := by
  simp [draw]

/-! ## The combiner -/

/-- Four bytes, the most significant first. -/
def lengthHead (n : ℕ) : Bytes :=
  [.ofNat (n / 16777216), .ofNat (n / 65536), .ofNat (n / 256), .ofNat n]

def lengthPrefixed (values : List Bytes) : Bytes := prefixed lengthHead values

def etsiMessage (cid : Bytes) (values : List Bytes) : Bytes := cid ++ lengthPrefixed values

structure CatKdf where
  psk : Bytes := []
  k1 : Bytes
  k2 : Bytes
  messageA : Bytes
  messageB : Bytes
  info : Bytes := []
  label : Bytes := []
  length : ℕ

/-- `CATKDF_CID`. -/
def catkdfCid : Bytes := [0x22, 0x21]

/-- `CATKDF_INFO`. -/
def catkdfInfo : Bytes := Text.encode (lit "Kryptolog/" ++ lit kemAlg ++ lit "/AES-GCM/v5")

/-- `P384_POINT`. -/
def p384Point : ℕ := 97

/-- `P384_SCALAR`. -/
def p384Scalar : ℕ := 48

/-- `MLKEM_SEED`. -/
def mlkemSeed : ℕ := 64

/-! The members of `CATKDF_LENGTHS`. -/

def publicKeyLength : ℕ := p384Point + 1184
def secretKeyLength : ℕ := p384Scalar + mlkemSeed
def cipherTextLength : ℕ := p384Point + 1088
def keyLength : ℕ := 32

/-- What both parties know: the keys of the recipient, the answers of the sender, the two secrets. -/
abbrev Shared := Exchange Bytes Bytes Bytes Bytes Bytes Bytes

/-- What `catkdfKey` asks of the combiner. -/
def catkdfOf (shared : Shared) : CatKdf where
  k1 := shared.key₁
  k2 := shared.key₂
  messageA := etsiMessage catkdfCid [[], shared.public₁, shared.public₂]
  messageB := etsiMessage catkdfCid [[], shared.cipher₁, shared.cipher₂]
  info := catkdfInfo
  length := keyLength

/-- What the context digests. -/
def CatKdf.transcript (input : CatKdf) : Bytes :=
  lengthPrefixed [input.info, input.messageA, input.messageB]

def CatKdf.secret (input : CatKdf) : Bytes := input.psk ++ input.k1 ++ input.k2

def uncompressedPoint (bytes : Bytes) (what : String) : Except String Bytes :=
  if bytes.head? = some 4 then .ok bytes else .error s!"{what} must be an uncompressed P-384 point"

section suite

variable (noble : Noble)

def etsiContextSha384 (values : List Bytes) : Bytes := noble.sha384 (lengthPrefixed values)

def catKdfHkdfSha384 (input : CatKdf) : Bytes :=
  noble.hkdf input.secret input.label
    (etsiContextSha384 noble [input.info, input.messageA, input.messageB]) input.length

def catkdfKey (shared : Shared) : Bytes := catKdfHkdfSha384 noble (catkdfOf shared)

/-! ## The suite -/

/-- The scalar and the ML-KEM seed of a secret key. -/
def catkdfHalves (secretKey : Bytes) : Except String (Bytes × Bytes) := do
  need secretKey secretKeyLength "CatKDF secret key"
  refuseIf (!noble.isValidSecretKey (secretKey.take p384Scalar)) "CatKDF secret key: P-384 scalar out of range"
  .ok (secretKey.take p384Scalar, secretKey.drop p384Scalar)

def ecdhX (scalar point : Bytes) : Except String Bytes := do
  let secret ← noble.getSharedSecret scalar point
  .ok (secret.drop 1)

def catkdfPublicKey (secretKey : Bytes) : Except String Bytes := do
  let (scalar, seed) ← catkdfHalves noble secretKey
  .ok (noble.getPublicKey scalar ++ (noble.keygen seed).1)

/-- `catkdfKeygen` of a secret key: the public key and the secret key. -/
def catkdfKeygenOf (secretKey : Bytes) : Except String (Bytes × Bytes) := do
  let publicKey ← catkdfPublicKey noble secretKey
  .ok (publicKey, secretKey)

/-- `catkdfKeygen` without one. -/
def catkdfKeygen (random : Bytes) : Except String (Bytes × Bytes) :=
  catkdfKeygenOf noble (noble.randomSecretKey (draw random 0 72) ++ draw random 72 mlkemSeed)

def catkdfEncapsulate (publicKey random : Bytes) : Except String (Bytes × Bytes) := do
  need publicKey publicKeyLength "CatKDF public key"
  let point ← uncompressedPoint (publicKey.take p384Point) "CatKDF public key"
  let encapsulationKey := publicKey.drop p384Point
  let ephemeral := noble.randomSecretKey (draw random 0 72)
  let k1 ← ecdhX noble ephemeral point
  let answer := noble.getPublicKey ephemeral
  let (cipherText, k2) ← noble.encapsulate encapsulationKey (draw random 72 32)
  .ok (answer ++ cipherText, catkdfKey noble ⟨point, encapsulationKey, answer, cipherText, k1, k2⟩)

def catkdfDecapsulate (cipherText secretKey : Bytes) : Except String Bytes := do
  need cipherText cipherTextLength "CatKDF ciphertext"
  let (scalar, seed) ← catkdfHalves noble secretKey
  let answer ← uncompressedPoint (cipherText.take p384Point) "CatKDF ciphertext"
  let (encapsulationKey, decapsulationKey) := noble.keygen seed
  let point := noble.getPublicKey scalar
  let k1 ← ecdhX noble scalar answer
  let k2 ← noble.decapsulate (cipherText.drop p384Point) decapsulationKey
  .ok (catkdfKey noble ⟨point, encapsulationKey, answer, cipherText.drop p384Point, k1, k2⟩)

/-- AES-GCM, as `CryptoPrimitives` has it. -/
structure Gcm where
  encrypt : Bytes → Bytes → Bytes → Bytes → Bytes
  decrypt : Bytes → Bytes → Bytes → Bytes → Option Bytes

/-- `KEM_SUITE`, and what else the envelopes are made with. -/
def primitives (gcm : Gcm) : CryptoPrimitives where
  gcmEncrypt := gcm.encrypt
  gcmDecrypt := gcm.decrypt
  publicKey := catkdfPublicKey noble
  encapsulate := catkdfEncapsulate noble
  decapsulate := catkdfDecapsulate noble
  sha384 := noble.sha384

def generateEncryptionKeyPair (random : Bytes) : Except String KeyPair := do
  let (publicKey, secretKey) ← catkdfKeygen noble random
  .ok ⟨toHex secretKey, toHex publicKey⟩

end suite

/-! ## The two halves side by side -/

section halves

variable (noble : Noble)

def agreement : Agreement String Bytes Bytes Bytes where
  publish := noble.getPublicKey
  agree := ecdhX noble

def mlkem : Kem String Bytes Bytes Bytes Bytes Bytes where
  publicKey seed := .ok (noble.keygen seed).1
  encapsulate := noble.encapsulate
  decapsulate cipherText seed := noble.decapsulate cipherText (noble.keygen seed).2

/-- The sender's side. -/
def sharedBySender (publicKey random : Bytes) : Except String Shared :=
  sent (agreement noble).kem (mlkem noble) (publicKey.take p384Point, publicKey.drop p384Point)
    (noble.randomSecretKey (draw random 0 72), draw random 72 32)

/-- The recipient's side. -/
def sharedByRecipient (cipherText secretKey : Bytes) : Except String Shared :=
  received (agreement noble).kem (mlkem noble) (cipherText.take p384Point, cipherText.drop p384Point)
    (secretKey.take p384Scalar, secretKey.drop p384Scalar)

variable {noble} {publicKey random cipherText secretKey key : Bytes}

theorem need_eq_ok {bytes : Bytes} {length : ℕ} {what : String} :
    need bytes length what = .ok () ↔ bytes.length = length := by
  rw [need, refuseIf_eq_ok]
  simp

theorem uncompressedPoint_eq_ok {bytes point : Bytes} {what : String} :
    uncompressedPoint bytes what = .ok point ↔ bytes.head? = some 4 ∧ point = bytes := by
  unfold uncompressedPoint
  split <;> simp_all [eq_comm]

theorem catkdfHalves_eq_ok {halves : Bytes × Bytes} : catkdfHalves noble secretKey = .ok halves ↔
    secretKey.length = secretKeyLength ∧ noble.isValidSecretKey (secretKey.take p384Scalar) = true ∧
      halves = (secretKey.take p384Scalar, secretKey.drop p384Scalar) := by
  constructor
  · intro h
    obtain ⟨_, hlength, h⟩ := bind_eq_ok.mp h
    obtain ⟨_, hvalid, h⟩ := bind_eq_ok.mp h
    rw [refuseIf_eq_ok, Bool.not_eq_false'] at hvalid
    exact ⟨need_eq_ok.mp hlength, hvalid, (Except.ok.inj h).symm⟩
  · rintro ⟨hlength, hvalid, rfl⟩
    rw [catkdfHalves, need_eq_ok.mpr hlength, ok_bind, hvalid]
    rfl

theorem catkdfPublicKey_eq_ok : catkdfPublicKey noble secretKey = .ok publicKey ↔
    secretKey.length = secretKeyLength ∧ noble.isValidSecretKey (secretKey.take p384Scalar) = true ∧
      publicKey = noble.getPublicKey (secretKey.take p384Scalar) ++
        (noble.keygen (secretKey.drop p384Scalar)).1 := by
  rw [catkdfPublicKey, bind_eq_ok]
  constructor
  · rintro ⟨_, hhalves, h⟩
    obtain ⟨hlength, hvalid, rfl⟩ := catkdfHalves_eq_ok.mp hhalves
    exact ⟨hlength, hvalid, (Except.ok.inj h).symm⟩
  · rintro ⟨hlength, hvalid, rfl⟩
    exact ⟨_, catkdfHalves_eq_ok.mpr ⟨hlength, hvalid, rfl⟩, rfl⟩

/-- Sealing is the parallel KEM on the parts of the public key. -/
theorem catkdfEncapsulate_eq_ok : catkdfEncapsulate noble publicKey random = .ok (cipherText, key) ↔
    publicKey.length = publicKeyLength ∧ (publicKey.take p384Point).head? = some 4 ∧
      ∃ shared, sharedBySender noble publicKey random = .ok shared ∧
        cipherText = shared.cipher₁ ++ shared.cipher₂ ∧ key = catkdfKey noble shared := by
  constructor
  · intro h
    obtain ⟨_, hlength, h⟩ := bind_eq_ok.mp h
    obtain ⟨point, hpoint, h⟩ := bind_eq_ok.mp h
    obtain ⟨k1, hk1, h⟩ := bind_eq_ok.mp h
    obtain ⟨⟨answer, k2⟩, hk2, h⟩ := bind_eq_ok.mp h
    obtain ⟨hhead, rfl⟩ := uncompressedPoint_eq_ok.mp hpoint
    refine ⟨need_eq_ok.mp hlength, hhead, _, ?_, (congrArg Prod.fst (Except.ok.inj h)).symm,
      (congrArg Prod.snd (Except.ok.inj h)).symm⟩
    simp only [sharedBySender, sent, Agreement.kem, agreement, mlkem, hk1, hk2, ok_bind]
  · rintro ⟨hlength, hhead, shared, hshared, rfl, rfl⟩
    obtain ⟨⟨c₁, k1⟩, hfirst, hshared⟩ := bind_eq_ok.mp hshared
    obtain ⟨⟨c₂, k2⟩, hsecond, hshared⟩ := bind_eq_ok.mp hshared
    obtain ⟨secret, hk1, hfirst⟩ := bind_eq_ok.mp hfirst
    cases hfirst
    cases hshared
    have hk1' : ecdhX noble (noble.randomSecretKey (draw random 0 72)) (publicKey.take p384Point) = .ok k1 := hk1
    have hk2 : noble.encapsulate (publicKey.drop p384Point) (draw random 72 32) = .ok (c₂, k2) := hsecond
    rw [catkdfEncapsulate, need_eq_ok.mpr hlength, ok_bind, uncompressedPoint_eq_ok.mpr ⟨hhead, rfl⟩, ok_bind]
    simp only [hk1', hk2, ok_bind]
    rfl

/-- Opening is the parallel KEM on the parts of the ciphertext and of the secret key. -/
theorem catkdfDecapsulate_eq_ok : catkdfDecapsulate noble cipherText secretKey = .ok key ↔
    cipherText.length = cipherTextLength ∧ (cipherText.take p384Point).head? = some 4 ∧
      secretKey.length = secretKeyLength ∧ noble.isValidSecretKey (secretKey.take p384Scalar) = true ∧
        ∃ shared, sharedByRecipient noble cipherText secretKey = .ok shared ∧ key = catkdfKey noble shared := by
  constructor
  · intro h
    obtain ⟨_, hlength, h⟩ := bind_eq_ok.mp h
    obtain ⟨_, hhalves, h⟩ := bind_eq_ok.mp h
    obtain ⟨answer, hanswer, h⟩ := bind_eq_ok.mp h
    obtain ⟨k1, hk1, h⟩ := bind_eq_ok.mp h
    obtain ⟨k2, hk2, h⟩ := bind_eq_ok.mp h
    obtain ⟨hhead, rfl⟩ := uncompressedPoint_eq_ok.mp hanswer
    obtain ⟨hsecret, hvalid, rfl⟩ := catkdfHalves_eq_ok.mp hhalves
    refine ⟨need_eq_ok.mp hlength, hhead, hsecret, hvalid, _, ?_, (Except.ok.inj h).symm⟩
    have hk1' : ecdhX noble (secretKey.take p384Scalar) (cipherText.take p384Point) = .ok k1 := hk1
    have hk2' : noble.decapsulate (cipherText.drop p384Point)
      (noble.keygen (secretKey.drop p384Scalar)).2 = .ok k2 := hk2
    simp only [sharedByRecipient, received, Agreement.kem, agreement, mlkem, hk1', hk2', ok_bind]
  · rintro ⟨hlength, hhead, hsecret, hvalid, shared, hshared, rfl⟩
    obtain ⟨_, hpublic₁, hshared⟩ := bind_eq_ok.mp hshared
    obtain ⟨_, hpublic₂, hshared⟩ := bind_eq_ok.mp hshared
    obtain ⟨k1, hk1, hshared⟩ := bind_eq_ok.mp hshared
    obtain ⟨k2, hk2, hshared⟩ := bind_eq_ok.mp hshared
    cases hpublic₁
    cases hpublic₂
    cases hshared
    have hk1' : ecdhX noble (secretKey.take p384Scalar) (cipherText.take p384Point) = .ok k1 := hk1
    have hk2' : noble.decapsulate (cipherText.drop p384Point)
      (noble.keygen (secretKey.drop p384Scalar)).2 = .ok k2 := hk2
    rw [catkdfDecapsulate, need_eq_ok.mpr hlength, ok_bind, catkdfHalves_eq_ok.mpr ⟨hsecret, hvalid, rfl⟩, ok_bind]
    simp only [uncompressedPoint_eq_ok.mpr ⟨hhead, rfl⟩, hk1', hk2', ok_bind]
    rfl

end halves

/-! ## What arrives -/

/-- The widths of what the packages give. -/
structure Noble.Sized (noble : Noble) : Prop where
  scalar_valid : ∀ random, random.length = 72 → noble.isValidSecretKey (noble.randomSecretKey random) = true
  point_length : ∀ scalar, noble.isValidSecretKey scalar = true → (noble.getPublicKey scalar).length = p384Point
  secret_length : ∀ scalar point secret, noble.getSharedSecret scalar point = .ok secret → secret.length = 49
  keygen_length : ∀ seed, seed.length = mlkemSeed → (noble.keygen seed).1.length = 1184
  cipherText_length : ∀ key random cipherText shared,
    noble.encapsulate key random = .ok (cipherText, shared) → cipherText.length = 1088

/-- The two parties of P-384 agree, and what ML-KEM encapsulates it decapsulates. -/
structure Noble.Lawful (noble : Noble) : Prop extends noble.Sized where
  valid_length : ∀ scalar, noble.isValidSecretKey scalar = true → scalar.length = p384Scalar
  uncompressed : ∀ scalar, noble.isValidSecretKey scalar = true → (noble.getPublicKey scalar).head? = some 4
  agrees : ∀ a b, noble.isValidSecretKey a = true → noble.isValidSecretKey b = true → ∃ secret,
    noble.getSharedSecret a (noble.getPublicKey b) = .ok secret ∧
      noble.getSharedSecret b (noble.getPublicKey a) = .ok secret
  delivers : ∀ seed random, seed.length = mlkemSeed → random.length = 32 → ∃ cipherText shared,
    noble.encapsulate (noble.keygen seed).1 random = .ok (cipherText, shared) ∧
      noble.decapsulate cipherText (noble.keygen seed).2 = .ok shared
  hkdf_length : ∀ secret salt info n, n ≤ 12240 → (noble.hkdf secret salt info n).length = n
  digest_length : ∀ input, (noble.sha384 input).length = 48

structure Gcm.Lawful (gcm : Gcm) : Prop where
  opens : ∀ key iv aad text, gcm.decrypt key iv aad (gcm.encrypt key iv aad text) = some text
  tagged : ∀ key iv aad text, (gcm.encrypt key iv aad text).length = text.length + 16

section delivery

variable {noble : Noble} {secretKey publicKey : Bytes}

theorem Noble.Sized.publicKey_length (h : noble.Sized) (hkey : catkdfPublicKey noble secretKey = .ok publicKey) :
    publicKey.length = publicKeyLength := by
  obtain ⟨hlength, hvalid, rfl⟩ := catkdfPublicKey_eq_ok.mp hkey
  have hseed : (secretKey.drop p384Scalar).length = mlkemSeed := by
    rw [List.length_drop, hlength]
    rfl
  rw [List.length_append, h.point_length _ hvalid, h.keygen_length _ hseed]
  rfl

theorem Noble.Lawful.agreement_arrives (h : noble.Lawful) {scalar ephemeral : Bytes}
    (hscalar : noble.isValidSecretKey scalar = true) (hephemeral : noble.isValidSecretKey ephemeral = true) :
    ∃ secret, (agreement noble).kem.Arrives scalar ephemeral
      (noble.getPublicKey scalar, noble.getPublicKey ephemeral, secret) := by
  obtain ⟨secret, hsent, hreceived⟩ := h.agrees ephemeral scalar hephemeral hscalar
  refine ⟨secret.drop 1, Agreement.arrives ?_ ?_⟩
  · change ecdhX noble ephemeral (noble.getPublicKey scalar) = _
    rw [ecdhX, hsent, ok_bind]
  · change ecdhX noble scalar (noble.getPublicKey ephemeral) = _
    rw [ecdhX, hreceived, ok_bind]

theorem Noble.Lawful.mlkem_arrives (h : noble.Lawful) {seed random : Bytes} (hseed : seed.length = mlkemSeed)
    (hrandom : random.length = 32) :
    ∃ exchange : Bytes × Bytes × Bytes, exchange.1 = (noble.keygen seed).1 ∧ exchange.2.1.length = 1088 ∧
      (mlkem noble).Arrives seed random exchange := by
  obtain ⟨cipherText, shared, hsent, hreceived⟩ := h.delivers seed random hseed hrandom
  exact ⟨((noble.keygen seed).1, cipherText, shared), rfl, h.cipherText_length _ _ _ _ hsent, rfl, hsent, hreceived⟩

theorem keyLength_le : keyLength ≤ 12240 := by decide

/-- What is encapsulated to the key that a seed names, the seed decapsulates. -/
theorem Noble.Lawful.encapsulates (h : noble.Lawful) (hkey : catkdfPublicKey noble secretKey = .ok publicKey)
    (random : Bytes) : ∃ cipherText key, catkdfEncapsulate noble publicKey random = .ok (cipherText, key) ∧
      catkdfDecapsulate noble cipherText secretKey = .ok key ∧ cipherText.length = cipherTextLength ∧
        key.length = keyLength := by
  have hpublic := h.publicKey_length hkey
  obtain ⟨hlength, hvalid, rfl⟩ := catkdfPublicKey_eq_ok.mp hkey
  have hseed : (secretKey.drop p384Scalar).length = mlkemSeed := by
    rw [List.length_drop, hlength]
    rfl
  have hephemeral := h.scalar_valid (draw random 0 72) (length_draw random 0 72)
  obtain ⟨secret, hfirst⟩ := h.agreement_arrives hvalid hephemeral
  obtain ⟨⟨encapsulationKey, cipherText, shared⟩, rfl, hcipher, hsecond⟩ :=
    h.mlkem_arrives hseed (length_draw random 72 32)
  obtain ⟨exchange, hsent, hreceived, hcipher₁, hcipher₂⟩ := sent_eq_received
    (secretKey.take p384Scalar, secretKey.drop p384Scalar)
    (noble.randomSecretKey (draw random 0 72), draw random 72 32) hfirst hsecond
  have hpoint := h.point_length _ hvalid
  have hanswer := h.point_length _ hephemeral
  have htake := @List.take_left' _ _ (noble.keygen (secretKey.drop p384Scalar)).1 _ hpoint
  have hdrop := @List.drop_left' _ _ (noble.keygen (secretKey.drop p384Scalar)).1 _ hpoint
  have htake' := @List.take_left' _ _ cipherText _ hanswer
  have hdrop' := @List.drop_left' _ _ cipherText _ hanswer
  have hlength' : (noble.getPublicKey (noble.randomSecretKey (draw random 0 72)) ++ cipherText).length =
      cipherTextLength := by
    rw [List.length_append, hanswer, hcipher]
    rfl
  refine ⟨_, catkdfKey noble exchange, catkdfEncapsulate_eq_ok.mpr ⟨hpublic, ?_, exchange, ?_, rfl, rfl⟩, ?_, ?_,
    h.hkdf_length _ _ _ _ keyLength_le⟩
  · rw [htake]
    exact h.uncompressed _ hvalid
  · rw [sharedBySender, htake, hdrop]
    exact hsent
  · rw [hcipher₁, hcipher₂]
    refine catkdfDecapsulate_eq_ok.mpr ⟨hlength', ?_, hlength, hvalid, exchange, ?_, rfl⟩
    · rw [htake']
      exact h.uncompressed _ hephemeral
    · rw [sharedByRecipient, htake', hdrop']
      exact hreceived
  · rw [hcipher₁, hcipher₂]
    exact hlength'

theorem Noble.Lawful.sound (h : noble.Lawful) {gcm : Gcm} (hgcm : gcm.Lawful) : Sound (primitives noble gcm) where
  opens := hgcm.opens
  tagged := hgcm.tagged
  publicKey_length _ _ hkey := h.publicKey_length hkey
  encapsulates _ _ random hkey := h.encapsulates hkey random
  digest_length := h.digest_length

/-- A pair is made from any random bytes, and its seed names its public key. -/
theorem Noble.Lawful.generates (h : noble.Lawful) (gcm : Gcm) (random : Bytes) :
    ∃ pair, generateEncryptionKeyPair noble random = .ok pair ∧
      encryptionPublicKeyOf (primitives noble gcm) pair.seed = .ok pair.publicKey := by
  have hscalar := h.scalar_valid (draw random 0 72) (length_draw random 0 72)
  have hscalar_length := h.valid_length _ hscalar
  generalize hsecret : noble.randomSecretKey (draw random 0 72) ++ draw random 72 mlkemSeed = secretKey
  have hlength : secretKey.length = secretKeyLength := by
    rw [← hsecret, List.length_append, hscalar_length, length_draw]
    rfl
  have hvalid : noble.isValidSecretKey (secretKey.take p384Scalar) = true := by
    rw [← hsecret, List.take_left' hscalar_length]
    exact hscalar
  obtain ⟨publicKey, hkey⟩ : ∃ publicKey, catkdfPublicKey noble secretKey = .ok publicKey :=
    ⟨_, catkdfPublicKey_eq_ok.mpr ⟨hlength, hvalid, rfl⟩⟩
  refine ⟨⟨toHex secretKey, toHex publicKey⟩, ?_, ?_⟩
  · rw [generateEncryptionKeyPair, catkdfKeygen, catkdfKeygenOf, hsecret, hkey]
    rfl
  · rw [encryptionPublicKeyOf, fromHex_toHex (ne_nil_of_length hlength), ok_bind]
    change (catkdfPublicKey noble secretKey >>= _) = _
    rw [hkey]
    rfl

/-- Every pair that `generateEncryptionKeyPair` makes receives: what is sealed to its public key, under
any random values, opens with its seed. -/
theorem generated_pair_receives (h : noble.Lawful) {gcm : Gcm} (hgcm : gcm.Lawful) (random : Bytes) :
    ∃ pair, generateEncryptionKeyPair noble random = .ok pair ∧
      encryptionPublicKeyOf (primitives noble gcm) pair.seed = .ok pair.publicKey ∧
      (∀ (message : Text) sealing, message.isWellFormed = true → ∃ envelope,
        encryptMessage (primitives noble gcm) message pair.publicKey sealing = .ok envelope ∧
        (decryptMessage (primitives noble gcm) envelope pair.seed = .ok message ↔ ¬ Marked message)) ∧
      ∀ (sessionKey : Bytes) sealing, sessionKey ≠ [] → ∃ wrapped,
        wrapSessionKey (primitives noble gcm) (toHex sessionKey) pair.publicKey sealing = .ok wrapped ∧
        unwrapSessionKey (primitives noble gcm) wrapped pair.seed = .ok (toHex sessionKey) := by
  obtain ⟨pair, hpair, hpublic⟩ := h.generates gcm random
  refine ⟨pair, hpair, hpublic, fun message sealing hmessage => ?_, fun sessionKey sealing hne => ?_⟩
  · obtain ⟨_, envelope, -, hseal, -, hopen⟩ := (h.sound hgcm).kemOpen_kemSeal hpublic (.inl rfl)
      message.encode "KEM envelope" sealing
    refine ⟨envelope, hseal, ?_⟩
    rw [decryptMessage, hopen, ok_bind, Except.ok.injEq]
    exact decodeText_encode hmessage
  · obtain ⟨_, wrapped, -, hseal, -, hopen⟩ := (h.sound hgcm).kemOpen_kemSeal hpublic (.inr rfl)
      sessionKey "wrapped key" sealing
    refine ⟨wrapped, ?_, ?_⟩
    · rw [wrapSessionKey, fromHex_toHex hne, ok_bind, hseal]
    · rw [unwrapSessionKey, hopen, ok_bind]

end delivery

/-! ## A sample -/

def pad (n : ℕ) (bytes : Bytes) : Bytes := (bytes ++ List.replicate n 0).take n

theorem length_pad (n : ℕ) (bytes : Bytes) : (pad n bytes).length = n := by
  rw [pad, List.length_take, List.length_append, List.length_replicate]
  omega

theorem take_pad {m n : ℕ} {bytes : Bytes} (h : bytes.length = m) (hmn : m ≤ n) :
    (pad n bytes).take m = bytes := by
  rw [pad, List.take_take, min_eq_left hmn, List.take_left' h]

/-- Points that show their scalar, agreed on by adding bit by bit, and capsules that show their key. -/
def sampleNoble : Noble where
  isValidSecretKey scalar := scalar.length == 48
  randomSecretKey random := pad 48 random
  getPublicKey scalar := 4 :: pad 96 scalar
  getSharedSecret scalar point := .ok (2 :: pad 48 (List.zipWith (· ^^^ ·) scalar (point.drop 1)))
  keygen seed := (pad 1184 seed, seed)
  encapsulate _ random := .ok (pad 1088 random, random)
  decapsulate cipherText _ := .ok (cipherText.take 32)
  hkdf secret _ _ n := pad n secret
  sha384 input := pad 48 input

theorem zipWith_pad {a b : Bytes} (ha : a.length = 48) (hb : b.length = 48) :
    List.zipWith (· ^^^ ·) a (pad 96 b) = List.zipWith (· ^^^ ·) a b := by
  have hsplit : pad 96 b = b ++ (pad 96 b).drop 48 := by
    conv => lhs; rw [← List.take_append_drop 48 (pad 96 b), take_pad hb (by decide)]
  rw [hsplit, ← List.append_nil a, List.zipWith_append (ha.trans hb.symm), List.append_nil, List.zipWith_nil_left,
    List.append_nil]

theorem sized_sampleNoble : sampleNoble.Sized where
  scalar_valid random _ := beq_iff_eq.mpr (length_pad 48 random)
  point_length scalar _ := congrArg Nat.succ (length_pad 96 scalar)
  secret_length scalar point secret h := by
    rw [← Except.ok.inj h, List.length_cons, length_pad]
  keygen_length seed _ := length_pad 1184 seed
  cipherText_length key random cipherText shared h := by
    have hcipherText : pad 1088 random = cipherText := congrArg Prod.fst (Except.ok.inj h)
    rw [← hcipherText]
    exact length_pad 1088 random

theorem lawful_sampleNoble : sampleNoble.Lawful where
  toSized := sized_sampleNoble
  valid_length scalar h := beq_iff_eq.mp h
  uncompressed _ _ := rfl
  agrees a b ha hb := by
    have ha := beq_iff_eq.mp ha
    have hb := beq_iff_eq.mp hb
    refine ⟨2 :: pad 48 (List.zipWith (· ^^^ ·) a b), ?_, ?_⟩
    · change Except.ok (2 :: pad 48 (List.zipWith (· ^^^ ·) a (pad 96 b))) = _
      rw [zipWith_pad ha hb]
    · change Except.ok (2 :: pad 48 (List.zipWith (· ^^^ ·) b (pad 96 a))) = _
      rw [zipWith_pad hb ha, List.zipWith_comm]
      simp only [UInt8.xor_comm]
  delivers seed random _ hrandom := by
    refine ⟨_, _, rfl, ?_⟩
    change Except.ok ((pad 1088 random).take 32) = _
    rw [take_pad hrandom (by decide)]
  hkdf_length secret _ _ n _ := length_pad n secret
  digest_length input := length_pad 48 input

/-- AES-GCM that adds a tag and hides nothing. -/
def sampleGcm : Gcm := ⟨samplePrimitives.gcmEncrypt, samplePrimitives.gcmDecrypt⟩

theorem lawful_sampleGcm : sampleGcm.Lawful where
  opens := sound_samplePrimitives.opens
  tagged := sound_samplePrimitives.tagged

theorem generated_pair_receives_sample : ∃ pair, generateEncryptionKeyPair sampleNoble [] = .ok pair ∧
    ∃ envelope, encryptMessage (primitives sampleNoble sampleGcm) (lit "hello") pair.publicKey sampleRandomness =
      .ok envelope ∧ decryptMessage (primitives sampleNoble sampleGcm) envelope pair.seed = .ok (lit "hello") := by
  obtain ⟨pair, hpair, -, hreceives, -⟩ := generated_pair_receives lawful_sampleNoble lawful_sampleGcm []
  obtain ⟨envelope, hseal, hopen⟩ := hreceives (lit "hello") sampleRandomness (by decide)
  exact ⟨pair, hpair, envelope, hseal, hopen.mpr (by decide)⟩

/-! ## What a key says -/

/-- Two inputs that a function does not tell apart. -/
def Collides {α β : Type} (f : α → β) (x y : α) : Prop := x ≠ y ∧ f x = f y

/-- Who comes to a key. -/
inductive Party
  | sender (publicKey random : Bytes)
  | recipient (cipherText secretKey : Bytes)

/-- The public key, the ciphertext and the key. -/
structure Outcome where
  publicKey : Bytes
  cipherText : Bytes
  key : Bytes

section binding

variable (noble : Noble)

def Party.outcome : Party → Except String Outcome
  | sender publicKey random => do
    let (cipherText, key) ← catkdfEncapsulate noble publicKey random
    .ok ⟨publicKey, cipherText, key⟩
  | recipient cipherText secretKey => do
    let key ← catkdfDecapsulate noble cipherText secretKey
    let publicKey ← catkdfPublicKey noble secretKey
    .ok ⟨publicKey, cipherText, key⟩

def Party.shared : Party → Except String Shared
  | sender publicKey random => sharedBySender noble publicKey random
  | recipient cipherText secretKey => sharedByRecipient noble cipherText secretKey

/-- The secret and the context that HKDF makes the key of. -/
def hkdfInput (shared : Shared) : Bytes × Bytes :=
  ((catkdfOf shared).secret, noble.sha384 (catkdfOf shared).transcript)

def hkdfOf (input : Bytes × Bytes) : Bytes := noble.hkdf input.1 [] input.2 keyLength

/-- The widths of what both parties know. -/
structure Fits (shared : Shared) : Prop where
  public₁ : shared.public₁.length = p384Point
  public₂ : shared.public₂.length = 1184
  cipher₁ : shared.cipher₁.length = p384Point
  cipher₂ : shared.cipher₂.length = 1088
  key₁ : shared.key₁.length = p384Scalar

variable {noble} {party : Party} {outcome : Outcome}

theorem heads_lengthHead : Heads lengthHead 4294967296 where
  width := ⟨3, fun _ => rfl⟩
  injective m hm n hn h := by
    simp only [lengthHead, List.cons.injEq, and_true, ← UInt8.toNat_inj, UInt8.toNat_ofNat'] at h
    omega

theorem etsiMessage_inj {values values' : List Bytes} (h : ∀ value ∈ values, value.length < 4294967296)
    (h' : ∀ value ∈ values', value.length < 4294967296)
    (heq : etsiMessage catkdfCid values = etsiMessage catkdfCid values') : values = values' :=
  prefixed_inj heads_lengthHead h h' (List.append_cancel_left heq)

theorem length_message {a b : Bytes} {m n : ℕ} (ha : a.length = m) (hb : b.length = n) :
    (etsiMessage catkdfCid [[], a, b]).length = 14 + m + n := by
  simp only [etsiMessage, lengthPrefixed, prefixed, catkdfCid, lengthHead, List.flatMap_cons, List.flatMap_nil,
    List.length_append, List.length_cons, List.length_nil, ha, hb]
  omega

theorem length_catkdfInfo : catkdfInfo.length < 4294967296 := by decide

/-- The transcript says which keys and which answers it is about. -/
theorem transcript_inj {shared shared' : Shared} (h : Fits shared) (h' : Fits shared')
    (heq : (catkdfOf shared).transcript = (catkdfOf shared').transcript) :
    shared.public₁ = shared'.public₁ ∧ shared.public₂ = shared'.public₂ ∧
      shared.cipher₁ = shared'.cipher₁ ∧ shared.cipher₂ = shared'.cipher₂ := by
  have hbound {s : Shared} (hs : Fits s) : ∀ value ∈ [(catkdfOf s).info, (catkdfOf s).messageA,
      (catkdfOf s).messageB], value.length < 4294967296 := by
    have hA : (catkdfOf s).messageA.length = 14 + 97 + 1184 := length_message hs.public₁ hs.public₂
    have hB : (catkdfOf s).messageB.length = 14 + 97 + 1088 := length_message hs.cipher₁ hs.cipher₂
    refine List.forall_mem_cons.mpr ⟨length_catkdfInfo, List.forall_mem_cons.mpr ⟨by omega,
      List.forall_mem_cons.mpr ⟨by omega, ?_⟩⟩⟩
    simp
  have hparts {a b : Bytes} (ha : a.length < 4294967296) (hb : b.length < 4294967296) :
      ∀ value ∈ [[], a, b], value.length < 4294967296 := by
    simp [ha, hb]
  have hvalues := prefixed_inj heads_lengthHead (hbound h) (hbound h') heq
  simp only [List.cons.injEq, and_true] at hvalues
  obtain ⟨-, hA, hB⟩ := hvalues
  have hlt : p384Point < 4294967296 := by decide
  have hA := etsiMessage_inj (hparts (by rw [h.public₁]; exact hlt) (by rw [h.public₂]; omega))
    (hparts (by rw [h'.public₁]; exact hlt) (by rw [h'.public₂]; omega)) hA
  have hB := etsiMessage_inj (hparts (by rw [h.cipher₁]; exact hlt) (by rw [h.cipher₂]; omega))
    (hparts (by rw [h'.cipher₁]; exact hlt) (by rw [h'.cipher₂]; omega)) hB
  simp only [List.cons.injEq, and_true, true_and] at hA hB
  exact ⟨hA.1, hA.2, hB.1, hB.2⟩

theorem ecdhX_length (h : noble.Sized) {scalar point secret : Bytes}
    (hsecret : ecdhX noble scalar point = .ok secret) : secret.length = p384Scalar := by
  obtain ⟨compressed, hcompressed, hsecret⟩ := bind_eq_ok.mp hsecret
  rw [← Except.ok.inj hsecret, List.length_drop, h.secret_length _ _ _ hcompressed]
  rfl

/-- A party that has an outcome has it from what it shares. -/
theorem Party.of_outcome (h : noble.Sized) (houtcome : party.outcome noble = .ok outcome) :
    ∃ shared, party.shared noble = .ok shared ∧ Fits shared ∧ outcome =
      ⟨shared.public₁ ++ shared.public₂, shared.cipher₁ ++ shared.cipher₂, catkdfKey noble shared⟩ := by
  cases party with
  | sender publicKey random =>
    obtain ⟨⟨cipherText, key⟩, hkey, houtcome⟩ := bind_eq_ok.mp houtcome
    cases houtcome
    obtain ⟨hlength, -, shared, hshared, rfl, rfl⟩ := catkdfEncapsulate_eq_ok.mp hkey
    have hsent := hshared
    obtain ⟨⟨c₁, k₁⟩, hfirst, hsent⟩ := bind_eq_ok.mp hsent
    obtain ⟨⟨c₂, k₂⟩, hsecond, hsent⟩ := bind_eq_ok.mp hsent
    obtain ⟨secret, hsecret, hfirst⟩ := bind_eq_ok.mp hfirst
    cases hfirst
    cases hsent
    refine ⟨_, hshared, ⟨?_, ?_, ?_, ?_, ?_⟩, ?_⟩
    · rw [List.length_take, hlength]
      decide
    · rw [List.length_drop, hlength]
      rfl
    · exact h.point_length _ (h.scalar_valid _ (length_draw random 0 72))
    · exact h.cipherText_length _ _ _ _ hsecond
    · exact ecdhX_length h hsecret
    · rw [List.take_append_drop]
  | recipient cipherText secretKey =>
    obtain ⟨key, hkey, houtcome⟩ := bind_eq_ok.mp houtcome
    obtain ⟨publicKey, hpublic, houtcome⟩ := bind_eq_ok.mp houtcome
    cases houtcome
    obtain ⟨hlength, -, hsecretLength, hvalid, shared, hshared, rfl⟩ := catkdfDecapsulate_eq_ok.mp hkey
    obtain ⟨-, -, rfl⟩ := catkdfPublicKey_eq_ok.mp hpublic
    have hreceived := hshared
    obtain ⟨_, hpublic₁, hreceived⟩ := bind_eq_ok.mp hreceived
    obtain ⟨_, hpublic₂, hreceived⟩ := bind_eq_ok.mp hreceived
    obtain ⟨k₁, hfirst, hreceived⟩ := bind_eq_ok.mp hreceived
    obtain ⟨k₂, hsecond, hreceived⟩ := bind_eq_ok.mp hreceived
    cases hpublic₁
    cases hpublic₂
    cases hreceived
    refine ⟨_, hshared, ⟨?_, ?_, ?_, ?_, ?_⟩, ?_⟩
    · exact h.point_length _ hvalid
    · refine h.keygen_length _ ?_
      rw [List.length_drop, hsecretLength]
      rfl
    · rw [List.length_take, hlength]
      decide
    · rw [List.length_drop, hlength]
      rfl
    · exact ecdhX_length h hfirst
    · rw [List.take_append_drop]
      rfl

/-- Two parties that have one key agree on the public key, the ciphertext and both secrets, unless the
transcripts that they digested, or the inputs that they gave to HKDF, are different and collide. -/
theorem key_tells_exchange (h : noble.Sized) {party party' : Party} {outcome outcome' : Outcome}
    (houtcome : party.outcome noble = .ok outcome) (houtcome' : party'.outcome noble = .ok outcome')
    (hkey : outcome.key = outcome'.key) : ∃ shared shared', party.shared noble = .ok shared ∧
      party'.shared noble = .ok shared' ∧ ((shared = shared' ∧ outcome = outcome') ∨
        Collides noble.sha384 (catkdfOf shared).transcript (catkdfOf shared').transcript ∨
        Collides (hkdfOf noble) (hkdfInput noble shared) (hkdfInput noble shared')) := by
  obtain ⟨shared, hshared, hfits, rfl⟩ := Party.of_outcome h houtcome
  obtain ⟨shared', hshared', hfits', rfl⟩ := Party.of_outcome h houtcome'
  refine ⟨shared, shared', hshared, hshared', ?_⟩
  have hhkdf : hkdfOf noble (hkdfInput noble shared) = hkdfOf noble (hkdfInput noble shared') := hkey
  by_cases hinput : hkdfInput noble shared = hkdfInput noble shared'
  swap
  · exact .inr (.inr ⟨hinput, hhkdf⟩)
  have hsecret : ([] ++ shared.key₁) ++ shared.key₂ = ([] ++ shared'.key₁) ++ shared'.key₂ :=
    congrArg Prod.fst hinput
  have hdigest : noble.sha384 (catkdfOf shared).transcript = noble.sha384 (catkdfOf shared').transcript :=
    congrArg Prod.snd hinput
  by_cases htranscript : (catkdfOf shared).transcript = (catkdfOf shared').transcript
  swap
  · exact .inr (.inl ⟨htranscript, hdigest⟩)
  rw [List.nil_append, List.nil_append] at hsecret
  obtain ⟨hkey₁, hkey₂⟩ := List.append_inj hsecret (hfits.key₁.trans hfits'.key₁.symm)
  obtain ⟨hpublic₁, hpublic₂, hcipher₁, hcipher₂⟩ := transcript_inj hfits hfits' htranscript
  have hsame : shared = shared' := by
    cases shared
    cases shared'
    simp_all only
  exact .inl ⟨hsame, by rw [hsame]⟩

end binding

/-- The secret key of zeros. -/
def sampleSecretKey : Bytes := List.replicate 112 0

theorem key_tells_exchange_sample : ∃ publicKey cipherText outcome,
    (Party.sender publicKey []).outcome sampleNoble = .ok outcome ∧
      (Party.recipient cipherText sampleSecretKey).outcome sampleNoble = .ok outcome ∧
      ∃ shared shared', (Party.sender publicKey []).shared sampleNoble = .ok shared ∧
        (Party.recipient cipherText sampleSecretKey).shared sampleNoble = .ok shared' ∧
        ((shared = shared' ∧ outcome = outcome) ∨
          Collides sampleNoble.sha384 (catkdfOf shared).transcript (catkdfOf shared').transcript ∨
          Collides (hkdfOf sampleNoble) (hkdfInput sampleNoble shared) (hkdfInput sampleNoble shared')) := by
  obtain ⟨publicKey, hpublic⟩ : ∃ publicKey, catkdfPublicKey sampleNoble sampleSecretKey = .ok publicKey :=
    ⟨_, catkdfPublicKey_eq_ok.mpr ⟨List.length_replicate, by decide, rfl⟩⟩
  obtain ⟨cipherText, key, hsent, hreceived, -⟩ := lawful_sampleNoble.encapsulates hpublic []
  have hsender : (Party.sender publicKey []).outcome sampleNoble = .ok ⟨publicKey, cipherText, key⟩ := by
    rw [Party.outcome, hsent, ok_bind]
  have hrecipient : (Party.recipient cipherText sampleSecretKey).outcome sampleNoble =
      .ok ⟨publicKey, cipherText, key⟩ := by
    rw [Party.outcome, hreceived, ok_bind, hpublic, ok_bind]
  exact ⟨publicKey, cipherText, _, hsender, hrecipient, key_tells_exchange sized_sampleNoble hsender hrecipient rfl⟩

end Kryptolog.Client.HybridKem
