import Kryptolog.Server.AccountDeletion

/-! # Identities and their keys

`routers/auth.py` with the key checks of `security/crypto_validation.py` and the rotation of
`security/key_rotation.py`. A login spends a challenge, proves possession of the identity key
that its address names, and registers, revives or updates the row of that address. A rotation
replaces the encryption key under a statement signed from the key that is served.

The rules of usernames and the curve arithmetic come from libraries, and whether the invite
filter lets a new identity in is decided by a table that nothing else here reads.
-/

namespace Kryptolog.Server
set_option autoImplicit false

open Tables Json Fallible

/-- What keys and usernames need from libraries. -/
structure KeyPrimitives extends Primitives where
  /-- `hashlib.sha384(domain + bytes.fromhex(key)).hexdigest()`. -/
  sha384OfKey : String → String → String
  isP384Point : List Char → Bool
  isMlKem768Key : List Char → Bool
  normalizeUsername : String → Except String String
  lowerUsername : String → String

/-! ## Keys -/

/-- The bytes that a hexadecimal text spells, as their hexadecimal text: `bytes.fromhex` skips the
line break that the pattern lets through. -/
def hexBytes (s : String) : String :=
  if s.toList.getLast? = some '\n' then String.ofList s.toList.dropLast else s

def addressDomain : String := "Kryptolog address v5\nalg=MLDSA65-ECDSA-P384-SHA512\n"

def keyIdDomain : String := s!"Kryptolog encryption key id v5\nalg={kemAlg}\n"

/-- `address_of`: `none` for what is no identity key. -/
def addressOf (prim : KeyPrimitives) (identityPublicKey : String) : Option String :=
  if matchHex 4098 identityPublicKey then
    some (prim.sha384OfKey addressDomain (hexBytes identityPublicKey))
  else none

def identityBindsAddress (prim : KeyPrimitives) (identityPublicKey address : String) : Bool :=
  isValidAddress address && addressOf prim identityPublicKey == some address

def isValidP384Point (prim : KeyPrimitives) (point : List Char) : Bool :=
  point.length == 2 * 97 && point.take 2 == ['0', '4'] && prim.isP384Point point

def isValidIdentityKey (prim : KeyPrimitives) (key : String) : Bool :=
  matchHex 4098 key && isValidP384Point prim ((hexBytes key).toList.drop (2 * 1952))

def isValidEncryptionKey (prim : KeyPrimitives) (key : String) : Bool :=
  matchHex 2562 key && isValidP384Point prim ((hexBytes key).toList.take (2 * 97)) &&
    prim.isMlKem768Key ((hexBytes key).toList.drop (2 * 97))

/-- `encryption_key_id`: a `ValueError` for what is no encryption key. -/
def encryptionKeyId (prim : KeyPrimitives) (key : String) : Except Fault String :=
  if matchHex 2562 key then
    .ok (String.ofList ((prim.sha384OfKey keyIdDomain (hexBytes key)).toList.take 32))
  else .error (.unhandled "ValueError")

/-- The truth value of an optional text. -/
def textPresent (text : Option String) : Bool := text.any (· != "")

/-- `User.set_encryption_key`, the only writer of the four columns. -/
def setEncryptionKey (prim : KeyPrimitives) (u : User) (key attestation : Option String) :
    Except Fault User :=
  if textPresent key then do
    let kid ← encryptionKeyId prim (key.getD "")
    .ok { u with
      encryptionPublicKey := key
      encryptionKeyAlg := some kemAlg
      encryptionKeyId := some kid
      encryptionKeyAttestation := attestation }
  else .ok { u with
    encryptionPublicKey := key
    encryptionKeyAlg := none
    encryptionKeyId := none
    encryptionKeyAttestation := none }

/-- `column ~ '^[0-9a-f]{n}$'`: in SQL the end is the end. -/
def hexColumn (n : ℕ) (text : String) : Bool :=
  text.toList.length == n && text.toList.all isLowerHexDigit

/-- The `CHECK`s of the table. -/
def User.checks (u : User) : Bool :=
  hexColumn 96 u.address.text && u.identityPublicKey.toList.length == 4098 &&
    match u.encryptionPublicKey, u.encryptionKeyAlg, u.encryptionKeyId with
    | none, none, none => true
    | some key, some alg, some kid => key.toList.length == 2562 && alg == kemAlg && hexColumn 32 kid
    | _, _, _ => false

/-! ## The payload of a login -/

/-- A login as the schema lets it through. -/
structure LoginRequest where
  address : String
  identityPublicKey : String
  signature : String
  nonce : String
  origin : String
  deployment : String
  encryptionPublicKey : Option String
  encryptionKeyAttestation : Option String
  username : Option String
  identityKey_le : identityPublicKey.toList.length ≤ 4098

/-- `auth.verify_signature` for a login: what the builder refuses does not verify. -/
def verifyLoginSignature (prim : Primitives) (req : LoginRequest) : Bool :=
  match loginMessage req.nonce req.origin req.deployment req.encryptionPublicKey with
  | .error _ => false
  | .ok message => prim.verifyIdentitySignature req.identityPublicKey message req.signature

/-- A statement that the identity key signed over an encryption key of the address. -/
def verifyAttestation (prim : Primitives) (address identityPublicKey key attestation : String) :
    Except NonCanonical Bool := do
  let message ← encryptionKeyAttestationMessage address key
  .ok (prim.verifyIdentitySignature identityPublicKey message attestation)

/-- `_verify_login_payload`. -/
def verifyLoginPayload (prim : KeyPrimitives) (cfg : Config) (req : LoginRequest)
    (address : Address) : Except Fault Unit := do
  checkSignedForThisServer cfg req.origin req.deployment
  refuseIf (!identityBindsAddress prim req.identityPublicKey address.text)
    (.http 400 "This identity key is not the one the address names.")
  refuseIf (!isValidIdentityKey prim req.identityPublicKey)
    (.http 400 "This identity key is malformed.")
  refuseIf (!verifyLoginSignature prim.toPrimitives req) (.http 401 "Invalid signature")
  let key := req.encryptionPublicKey.getD ""
  let attestation := req.encryptionKeyAttestation.getD ""
  refuseIf (key != "" && !isValidEncryptionKey prim key)
    (.http 400 ("encryption_public_key must be a lowercase-hex " ++
      "HKDFwSHA384_P384_ML-KEM-768 CatKDF public key"))
  refuseIf (key != "" && attestation == "")
    (.http 400 "An encryption key must come with its attestation.")
  if attestation != "" then do
    refuseIf (key == "") (.http 400 "Attestation without an encryption key")
    match verifyAttestation prim.toPrimitives address.text req.identityPublicKey key attestation with
    | .error exc => .error (.http 400 exc)
    | .ok valid => refuseIf (!valid) (.http 400 "Invalid encryption key attestation")
  else .ok ()

/-! ## The row of an identity -/

/-- `username_taken`. -/
def usernameTaken (prim : KeyPrimitives) (db : Database) (username : String) (except' : Address) :
    Bool :=
  db.users.any fun u =>
    u.username.any (prim.lowerUsername · == prim.lowerUsername username) && u.address != except'

/-- `_claim_username`: the name that was asked for, else the reserved one, else seven characters. -/
def claimUsername (prim : KeyPrimitives) (db : Database) (req : LoginRequest) (address : Address)
    (current : Option String) : Except Fault String := do
  let asked ← match req.username.map prim.normalizeUsername with
    | none => .ok none
    | some (.ok name) => .ok (some name)
    | some (.error exc) => .error (.http 400 exc)
  let name := ((asked.filter (· != "")).or (current.filter (· != ""))).getD
    (String.ofList (address.text.toList.take 7))
  refuseIf (usernameTaken prim db name address)
    (.http 409 s!"Username '{name}' is already taken. Please choose a different one.")
  .ok name

/-- The row that a first login inserts. -/
def newUserRow (prim : KeyPrimitives) (req : LoginRequest) (address : Address) (username : String) :
    Except Fault User :=
  setEncryptionKey prim
    ⟨address, req.identityPublicKey, some username, none, none, none, none, none, 0, none, false⟩
    req.encryptionPublicKey req.encryptionKeyAttestation

/-- The row of an account that left, as its return writes it. -/
def revivedRow (prim : KeyPrimitives) (now : Time) (req : LoginRequest) (username : String)
    (u : User) : Except Fault User := do
  let keyed ← setEncryptionKey prim
    { u with username := some username, identityPublicKey := req.identityPublicKey }
    req.encryptionPublicKey req.encryptionKeyAttestation
  .ok { keyed with keyChangedAt := some now, deletedAt := none }

/-- The row of an active account, as its login writes it. The date of a change is kept only where
there was a key before. -/
def updatedRow (prim : KeyPrimitives) (now : Time) (req : LoginRequest) (u : User) :
    Except Fault User :=
  if textPresent req.encryptionPublicKey && u.encryptionPublicKey != req.encryptionPublicKey then
    setEncryptionKey prim
      { u with keyChangedAt := if textPresent u.encryptionPublicKey then some now else u.keyChangedAt }
      req.encryptionPublicKey req.encryptionKeyAttestation
  else if textPresent req.encryptionKeyAttestation && !textPresent u.encryptionKeyAttestation then
    .ok { u with encryptionKeyAttestation := req.encryptionKeyAttestation }
  else .ok u

def mayRegister (u : User) : Bool := !u.blocked

/-- An `INSERT` or `UPDATE` of a row that a `CHECK` refuses. -/
def checkRow (u : User) : Except Fault Unit := refuseIf (!u.checks) (.unhandled "IntegrityError")

def setUser (db : Database) (row : User) : Database :=
  { db with
    users := db.users.update (·.address == row.address) (fun u => { row with address := u.address })
      (fun _ => rfl) }

def addUser (db : Database) (row : User) : Database := { db with users := db.users.insert row }

/-- `_upsert_identity`: the row behind a login, created, revived or updated. -/
def upsertIdentity (prim : KeyPrimitives) (db : Database) (now : Time) (admitted : Bool)
    (req : LoginRequest) (address : Address) : Except Fault (Database × User) :=
  match findUser db address with
  | none => do
    let username ← claimUsername prim db req address none
    let row ← newUserRow prim req address username
    checkRow row
    refuseIf (!admitted) (.http 403 "A valid invite code is required to register.")
    .ok (addUser db row, row)
  | some u =>
    if u.deletedAt.isSome then do
      refuseIf (!mayRegister u) (.http 410
        ("This account was deleted and this key can no longer be used. " ++
          "Create a new identity to register again."))
      let username ← claimUsername prim db req address u.username
      let row ← revivedRow prim now req username u
      checkRow row
      refuseIf (!admitted) (.http 403 "A valid invite code is required to register.")
      .ok (setUser db row, row)
    else do
      let row ← updatedRow prim now req u
      checkRow row
      .ok (setUser db row, row)

/-- `login`: the challenge is spent whatever happens next. -/
def login (prim : KeyPrimitives) (cfg : Config) (db : Database) (now : Time) (admitted : Bool)
    (req : LoginRequest) : Database × Except Fault Token :=
  let address := lower req.address
  let (claimed, won) := claimNonce db now address req.nonce
  if !won then (claimed, .error (.http 400 "Invalid or expired nonce."))
  else transaction claimed do
    verifyLoginPayload prim cfg req address
    let (db', row) ← upsertIdentity prim claimed now admitted req address
    .ok (db', ⟨row.address.text, row.tokenVersion⟩)

/-- `get_nonce`: five minutes, in milliseconds. -/
def getNonce (db : Database) (now : Time) (address value : String) : Except Fault (Database × String) :=
  if isValidAddress (lowerText address) then
    let live := db.nonces.delete fun n => decide (n.expiresAt ≤ now)
    .ok ({ db with nonces := live.insert ⟨value, lower address, now + 300000⟩ }, value)
  else .error (.http 400 "Invalid address")

def logout (db : Database) (caller : User) : Database :=
  { db with
    users := db.users.update (·.address == caller.address)
      (fun u => { u with tokenVersion := caller.tokenVersion + 1 }) (fun _ => rfl) }

/-! ## Rotation -/

structure EncryptionKeyRotation where
  id : ℕ
  userAddress : Address
  oldKid : String
  newKid : String
  alg : String
  ts : ℕ
  signature : String
  deriving DecidableEq

instance : Keyed EncryptionKeyRotation ℕ := ⟨EncryptionKeyRotation.id⟩

@[simp] theorem key_rotation (r : EncryptionKeyRotation) : Keyed.key r = r.id := rfl

/-- The database with the records of rotations. -/
structure Directory extends Database where
  rotations : Serial EncryptionKeyRotation

structure KeyRotationRequest where
  encryptionPublicKey : String
  encryptionKeyAttestation : String
  ts : ℕ
  signature : String

/-- Ten minutes, in milliseconds. -/
def rotationClockSkew : ℕ := 10 * 60 * 1000

/-- What `rotate` checks, with the two key ids it goes from and to. -/
def verifyRotation (prim : KeyPrimitives) (now : Time) (u : User) (req : KeyRotationRequest) :
    Except Fault (String × String) := do
  refuseIf (!textPresent u.encryptionPublicKey || !textPresent u.encryptionKeyId)
    (.http 409 "This identity has no encryption key to rotate.")
  refuseIf (!isValidEncryptionKey prim req.encryptionPublicKey)
    (.http 400 s!"The new key must be a lowercase-hex {kemAlg} public key.")
  refuseIf (u.encryptionPublicKey == some req.encryptionPublicKey)
    (.http 400 "The new key is the current key.")
  refuseIf (rotationClockSkew < ((now : ℤ) - req.ts).natAbs)
    (.http 400 "The rotation's timestamp is too far from the server's clock.")
  match verifyAttestation prim.toPrimitives u.address.text u.identityPublicKey
      req.encryptionPublicKey req.encryptionKeyAttestation with
  | .error _ => .error (.unhandled "NonCanonicalSignedBody")
  | .ok valid => do
    refuseIf (!valid) (.http 400 "Invalid encryption key attestation.")
    let oldKid := u.encryptionKeyId.getD ""
    let newKid ← encryptionKeyId prim req.encryptionPublicKey
    match keyRotationMessage u.address.text oldKid newKid req.ts with
    | .error _ => .error (.unhandled "NonCanonicalSignedBody")
    | .ok body => do
      refuseIf (!prim.verifyIdentitySignature u.identityPublicKey body req.signature)
        (.http 401 "Invalid rotation signature.")
      .ok (oldKid, newKid)

/-- `rotate`, behind the check of `_locked_active`. -/
def rotate (prim : KeyPrimitives) (d : Directory) (now : Time) (u : User) (req : KeyRotationRequest) :
    Except Fault Directory := do
  refuseIf (!u.active) (.http 410 "This account has been deleted.")
  let (oldKid, newKid) ← verifyRotation prim now u req
  let row ← setEncryptionKey prim u (some req.encryptionPublicKey)
    (some req.encryptionKeyAttestation)
  let row := { row with keyChangedAt := some now }
  checkRow row
  .ok { d with
    toDatabase := setUser d.toDatabase row
    rotations := d.rotations.insert
      (fun id => ⟨id, u.address, oldKid, newKid, kemAlg, req.ts, req.signature⟩) (fun _ => rfl) }

end Kryptolog.Server
