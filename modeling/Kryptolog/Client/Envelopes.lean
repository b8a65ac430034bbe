import Kryptolog.Client.AccountKeys
import Kryptolog.Client.Encoding

/-! # Envelopes

`packages/crypto-core/src/pqc.js` and `aead.js`: what is sealed to an encryption key, what is sealed
under a session key or a content key, and the chunks of a file. AES-GCM, the KEM suite and the digest
are parameters, and the random values of a sealing are arguments.
-/

namespace Kryptolog.Client.Envelopes
set_option autoImplicit false

open Script Fallible Runs

structure CryptoPrimitives where
  /-- AES-GCM of a key, an initialization vector, associated data and a text. -/
  gcmEncrypt : Bytes → Bytes → Bytes → Bytes → Bytes
  gcmDecrypt : Bytes → Bytes → Bytes → Bytes → Option Bytes
  /-- `KEM_SUITE.publicKey`. -/
  publicKey : Bytes → Except String Bytes
  /-- `KEM_SUITE.encapsulate`, with its random values: the ciphertext and the key. -/
  encapsulate : Bytes → Bytes → Except String (Bytes × Bytes)
  decapsulate : Bytes → Bytes → Except String Bytes
  sha384 : Bytes → Bytes

/-- What `crypto.getRandomValues` fills. -/
structure Iv where
  bytes : Bytes
  length_eq : bytes.length = 12

/-- The random values of one sealing to an encryption key. -/
structure Randomness where
  iv : Iv
  kem : Bytes

/-! ## Markers -/

/-- `FORMAT_VERSION`. -/
def formatVersion : Number := .ofNat 5

/-- `KEM_ALG`. -/
def kemAlg : String := "HKDFwSHA384_P384_ML-KEM-768_CatKDF"

/-- `KEM_ENVELOPE_ALG`. -/
def kemEnvelopeAlg : Text := lit kemAlg ++ lit "-A256GCM"

/-- `AEAD_ALG`. -/
def aeadAlg : Text := lit "A256GCM"

/-- A value in a message, where one is given. -/
def named (value : Option Value) (otherwise : String) : String :=
  match value with
  | none | some .null => otherwise
  | some v => shown (v.toText.getD [])

/-- Is the member this text? -/
def isText (value : Option Value) (text : Text) : Bool :=
  match value with
  | some (.str s) => s == text
  | _ => false

def isVersion (value : Option Value) : Bool :=
  match value with
  | some (.num n) => n == formatVersion
  | _ => false

def assertFormat (envelope : Value) (alg : Text) (what : String) : Except String Unit := do
  let version := named (envelope.get "v") "unversioned"
  let suite := named (envelope.get "alg") "(none)"
  refuseIf (!isObject envelope) s!"{what}: not an envelope"
  refuseIf (!isVersion (envelope.get "v"))
    (s!"{what}: format {version} is not supported (this client reads format 5). " ++
      "It was written by an older Kryptolog version and cannot be opened.")
  refuseIf (!isText (envelope.get "alg") alg) s!"{what}: unsupported algorithm {suite}"

/-- The associated data of an envelope. -/
def formatAad (alg : Text) (kid : Option Text) : Bytes :=
  Text.encode (lit "Kryptolog envelope\nv=5\nalg=" ++ alg ++
    match kid with
    | none => []
    | some kid => lit "\nkid=" ++ kid)

/-! ## Key ids -/

def keyIdHexLength : ℕ := 32

/-- `KEY_ID_DOMAIN`. -/
def keyIdDomain : Bytes := Text.encode (lit "Kryptolog encryption key id v5\nalg=" ++ lit kemAlg ++ lit "\n")

/-- `isEncryptionKeyId`, of a text: `KEY_ID_RE`. -/
def isEncryptionKeyId (value : Text) : Bool :=
  value.length == keyIdHexLength && value.consistsOf Hex.isLowercase

section operations

variable (prim : CryptoPrimitives)

def encryptionKeyId (encryptionPublicKeyHex : Text) : Except String Text := do
  let key ← fromHex encryptionPublicKeyHex
  .ok ((toHex (prim.sha384 (keyIdDomain ++ key))).take keyIdHexLength)

def encryptionPublicKeyOf (seedHex : Text) : Except String Text := do
  let seed ← fromHex seedHex
  let key ← prim.publicKey seed
  .ok (toHex key)

/-- `importKey` of a raw AES-GCM key. -/
def importKey (key : Bytes) : Except String Bytes :=
  if key.length = 16 ∨ key.length = 24 ∨ key.length = 32 then .ok key else .error "DataError"

/-- `crypto.subtle.decrypt`. -/
def subtleDecrypt (key iv aad sealed : Bytes) : Except String Bytes :=
  (prim.gcmDecrypt key iv aad sealed).elim (.error "OperationError") .ok

/-! ## The KEM envelope -/

/-- `{ v, alg, kid, kem, iv, [field] }`. -/
def kemEnvelope (kid : Text) (cipherText iv : Bytes) (field : String) (sealed : Bytes) : Value :=
  .obj [(lit "v", .num formatVersion), (lit "alg", .str kemEnvelopeAlg), (lit "kid", .str kid),
    (lit "kem", .str (toB64 cipherText)), (lit "iv", .str (toB64 iv)), (lit field, .str (toB64 sealed))]

def kemSeal (plaintext : Bytes) (encryptionPublicKeyHex : Text) (field : String) (random : Randomness) :
    Except String Value := do
  let kid ← encryptionKeyId prim encryptionPublicKeyHex
  let publicKey ← fromHex encryptionPublicKeyHex
  let (cipherText, key) ← prim.encapsulate publicKey random.kem
  let key ← importKey key
  let sealed := prim.gcmEncrypt key random.iv.bytes (formatAad kemEnvelopeAlg (some kid)) plaintext
  .ok (kemEnvelope kid cipherText random.iv.bytes field sealed)

/-- The id that an envelope names. -/
def kidOf (envelope : Value) (what : String) : Except String Text :=
  match envelope.get "kid" with
  | some (.str kid) =>
    if isEncryptionKeyId kid then .ok kid else .error s!"{what}: missing or malformed key id"
  | _ => .error s!"{what}: missing or malformed key id"

def kemOpen (envelope : Value) (encryptionSeedHex : Text) (field what : String) : Except String Bytes := do
  assertFormat envelope kemEnvelopeAlg what
  let kid ← kidOf envelope what
  let kem ← fromB64 (envelope.get "kem")
  let seed ← fromHex encryptionSeedHex
  let key ← prim.decapsulate kem seed
  let iv ← fromB64 (envelope.get "iv")
  let key ← importKey key
  let sealed ← fromB64 (envelope.get field)
  subtleDecrypt prim key iv (formatAad kemEnvelopeAlg (some kid)) sealed

def encryptMessage (message encryptionPublicKeyHex : Text) (random : Randomness) : Except String Value :=
  kemSeal prim message.encode encryptionPublicKeyHex "content" random

def decryptMessage (encryptedData : Value) (encryptionSeedHex : Text) : Except String Text := do
  let plaintext ← kemOpen prim encryptedData encryptionSeedHex "content" "KEM envelope"
  .ok (decodeText plaintext)

def wrapSessionKey (sessionKeyHex encryptionPublicKeyHex : Text) (random : Randomness) :
    Except String Value := do
  let sessionKey ← fromHex sessionKeyHex
  kemSeal prim sessionKey encryptionPublicKeyHex "encKey" random

def unwrapSessionKey (wrappedKey : Value) (encryptionSeedHex : Text) : Except String Text := do
  let sessionKey ← kemOpen prim wrappedKey encryptionSeedHex "encKey" "wrapped key"
  .ok (toHex sessionKey)

/-! ## The symmetric envelope -/

def importAesKey (keyHex : Text) : Except String Bytes := do
  let key ← fromHex keyHex
  importKey key

/-- `{ v, alg, iv, [field] }`. -/
def aeadEnvelope (iv : Bytes) (field : String) (sealed : Bytes) : Value :=
  .obj [(lit "v", .num formatVersion), (lit "alg", .str aeadAlg), (lit "iv", .str (toB64 iv)),
    (lit field, .str (toB64 sealed))]

def aeadEncrypt (plaintext keyHex : Text) (field : String) (iv : Iv) : Except String Value := do
  let key ← importAesKey keyHex
  let encrypted := prim.gcmEncrypt key iv.bytes (formatAad aeadAlg none) plaintext.encode
  .ok (aeadEnvelope iv.bytes field encrypted)

def aeadDecrypt (envelope : Value) (keyHex : Text) (field : String) : Except String Text := do
  assertFormat envelope aeadAlg "AES-GCM envelope"
  let key ← importAesKey keyHex
  let iv ← fromB64 (envelope.get "iv")
  let sealed ← fromB64 (envelope.get field)
  let decrypted ← subtleDecrypt prim key iv (formatAad aeadAlg none) sealed
  .ok (decodeText decrypted)

def encryptWithSessionKey (message sessionKeyHex : Text) (iv : Iv) : Except String Value :=
  aeadEncrypt prim message sessionKeyHex "content" iv

def decryptWithSessionKey (encryptedData : Value) (sessionKeyHex : Text) : Except String Text :=
  aeadDecrypt prim encryptedData sessionKeyHex "content"

def encryptSymmetric (content keyHex : Text) (iv : Iv) : Except String Value :=
  aeadEncrypt prim content keyHex "ciphertext" iv

def decryptSymmetric (encryptedObject : Value) (keyHex : Text) : Except String Text :=
  aeadDecrypt prim encryptedObject keyHex "ciphertext"

/-! ## The chunks of a file -/

def chunkAad (secretId chunkIndex : Text) : Text :=
  lit "Kryptolog/chunk/v1\nsecret=" ++ secretId ++ lit "\nindex=" ++ chunkIndex

def aadBytes (aad : Text) (fn : String) : Except String Bytes :=
  if aad.isEmpty then
    .error s!"{fn}: aad is required — build it with chunkAad(secretId, chunkIndex) (audit M-2)"
  else .ok aad.encode

def encryptChunk (chunkBytes : Bytes) (keyHex aad : Text) (iv : Iv) : Except String Value := do
  let additionalData ← aadBytes aad "encryptChunk"
  let key ← importAesKey keyHex
  let encrypted := prim.gcmEncrypt key iv.bytes additionalData chunkBytes
  .ok (.obj [(lit "iv", .str (toB64 iv.bytes)), (lit "ciphertext", .str (toB64 encrypted))])

def decryptChunk (ivB64 ciphertextB64 : Option Value) (keyHex aad : Text) : Except String Bytes := do
  let additionalData ← aadBytes aad "decryptChunk"
  let key ← importAesKey keyHex
  let iv ← fromB64 ivB64
  let sealed ← fromB64 ciphertextB64
  subtleDecrypt prim key iv additionalData sealed

end operations

end Kryptolog.Client.Envelopes
