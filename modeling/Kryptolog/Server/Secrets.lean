import Kryptolog.Server.Authorization

/-! # The secret endpoints

`routers/secrets.py` and the quota of `security/quota.py`. An endpoint takes the database, the
time and the caller's row, and either faults or returns the next database with its response. A
fault leaves the database as it was, since the transaction is rolled back.
-/

namespace Kryptolog.Server
set_option autoImplicit false

open Tables Json Fallible

/-! ## Responses -/

structure SecretResponse where
  secret : Secret
  /-- The caller's own wrap, if there is one. -/
  encryptedKey : Option Document

/-- `SecretSummaryResponse`: a secret without its ciphertext. -/
structure SecretSummaryResponse where
  id : ℕ
  ownerAddress : Address
  name : String
  encryptedKey : Option Document

def Secret.summary (s : Secret) (key : Option Document) : SecretSummaryResponse :=
  ⟨s.id, s.ownerAddress, s.name, key⟩

/-! ## Loading and refusing -/

def secretNotFound : Fault := .http 404 "Secret not found"

/-- `_refuse`: 403 for who may read the secret, 404 for who may not even know of it. -/
def refuse (db : Database) (now : Time) (s : Secret) (a : Address) : Fault :=
  if canReadSecret db now s a then .http 403 "Not authorized" else secretNotFound

def loadSecret (db : Database) (now : Time) (secretId : ℕ) (a : Address)
    (allowed : Secret → Address → Bool) : Except Fault Secret :=
  match db.secrets.find? (·.id == secretId) with
  | none => .error secretNotFound
  | some s => if allowed s a then .ok s else .error (refuse db now s a)

def refuseIfWorkflowManaged (db : Database) (secretId : ℕ) (verb : String) : Except Fault Unit :=
  refuseIf (isWorkflowManaged db secretId)
    (.http 400 s!"Cannot {verb} a secret managed by a Multisig Workflow")

/-! ## Quota -/

/-- `stored_chars`: what the owner stores inline and in chunks. -/
def storedChars (db : Database) (a : Address) : ℕ :=
  let owned := db.secrets.where' (·.ownerAddress == a)
  let inline := (owned.map fun s => s.encryptedData.length + s.name.length).sum
  let chunks := (db.fileChunks.where' fun c => owned.any (·.id == c.secretId)).map
    (·.encryptedData.length)
  inline + chunks.sum

def checkNewBytes (cfg : Config) (db : Database) (a : Address) (newChars : ℕ) :
    Except Fault Unit :=
  refuseIf (cfg.maxStoredCharsPerUser < storedChars db a + newChars)
    (.http 413 (s!"Storage quota reached ({cfg.maxStoredCharsPerUser / (1024 * 1024)} MB " ++
      "per account). Delete some secrets or files to make room."))

def checkNewSecret (cfg : Config) (db : Database) (a : Address) (newChars : ℕ) :
    Except Fault Unit := do
  let owned := (db.secrets.where' (·.ownerAddress == a)).length
  refuseIf (cfg.maxSecretsPerUser < owned + 1)
    (.http 413 (s!"Secret quota reached ({cfg.maxSecretsPerUser} per account). " ++
      "Delete some to make room."))
  checkNewBytes cfg db a newChars

/-! ## Creating and changing -/

structure SecretCreate where
  name : String
  encryptedData : String
  encryptedKey : Document

/-- A secret and the owner's own grant, which never expires. -/
def insertSecretWithOwnerGrant (db : Database) (now : Time) (owner : Address)
    (data : SecretCreate) : Database :=
  { db with
    secrets := db.secrets.insert (fun id => ⟨id, owner, data.name, data.encryptedData⟩)
      (fun _ => rfl)
    accessGrants := db.accessGrants.insert
      (fun id => ⟨id, db.secrets.next, owner, data.encryptedKey, now, none⟩) (fun _ => rfl) }

def createSecretWithOwnerGrant (cfg : Config) (db : Database) (now : Time) (owner : Address)
    (data : SecretCreate) : Except Fault (Database × Secret) := do
  checkNewSecret cfg db owner (data.encryptedData.length + data.name.length)
  .ok (insertSecretWithOwnerGrant db now owner data,
    ⟨db.secrets.next, owner, data.name, data.encryptedData⟩)

def createSecret (cfg : Config) (db : Database) (now : Time) (caller : User)
    (data : SecretCreate) : Except Fault (Database × SecretResponse) := do
  let (db', secret) ← createSecretWithOwnerGrant cfg db now caller.address data
  .ok (db', ⟨secret, some data.encryptedKey⟩)

def updateSecret (cfg : Config) (db : Database) (now : Time) (caller : User) (secretId : ℕ)
    (data : SecretCreate) : Except Fault (Database × SecretResponse) := do
  let secret ← loadSecret db now secretId caller.address canManageSecret
  refuseIfWorkflowManaged db secretId "edit"
  let growth := (data.encryptedData.length + data.name.length) -
    (secret.encryptedData.length + secret.name.length)
  (if 0 < growth then checkNewBytes cfg db caller.address growth else .ok ())
  let edit (s : Secret) : Secret := { s with name := data.name, encryptedData := data.encryptedData }
  .ok ({ db with secrets := db.secrets.update (·.id == secretId) edit (fun _ => rfl) },
    ⟨edit secret, none⟩)

/-- `db.delete(secret)` after its grants went: the chunks cascade. -/
def deleteSecretRows (db : Database) (secretId : ℕ) : Database :=
  { db with
    accessGrants := db.accessGrants.delete (·.secretId == secretId)
    fileChunks := db.fileChunks.delete (·.secretId == secretId)
    secrets := db.secrets.delete (·.id == secretId) }

def deleteSecret (db : Database) (now : Time) (caller : User) (secretId : ℕ) :
    Except Fault Database := do
  let _ ← loadSecret db now secretId caller.address canManageSecret
  refuseIfWorkflowManaged db secretId "delete"
  .ok (deleteSecretRows db secretId)

/-! ## Sharing -/

structure AccessGrantCreate where
  secretId : ℕ
  granteeAddress : String
  encryptedKey : Document
  expiresIn : Option ℕ

/-- `_upsert_grant`: one grant for each secret and grantee. -/
def upsertGrant (db : Database) (now : Time) (secretId : ℕ) (grantee : Address)
    (key : Document) (expiresAt : Option Time) : Database :=
  let same (g : AccessGrant) : Bool := g.secretId == secretId && g.granteeAddress == grantee
  if db.accessGrants.any same then
    { db with
      accessGrants := db.accessGrants.update same
        (fun g => { g with encryptedKey := key, expiresAt := expiresAt, createdAt := now })
        (fun _ => rfl) }
  else
    { db with
      accessGrants := db.accessGrants.insert
        (fun id => ⟨id, secretId, grantee, key, now, expiresAt⟩) (fun _ => rfl) }

def shareSecret (db : Database) (now : Time) (caller : User) (grant : AccessGrantCreate) :
    Except Fault (Database × Option AccessGrant) := do
  let grantee := lower grant.granteeAddress
  let secret ← loadSecret db now grant.secretId caller.address canManageSecret
  refuseIfWorkflowManaged db grant.secretId "manually share"
  refuseIf (isOwnerGrant secret grantee) (.http 400 "You already own this secret")
  refuseIf (findActiveUser db grantee).isNone (.http 404 "Grantee not found")
  -- an absent lifetime and a zero one are both no expiry
  let expiresAt := match grant.expiresIn with
    | none | some 0 => none
    | some seconds => some (now + seconds)
  let db' := upsertGrant db now grant.secretId grantee grant.encryptedKey expiresAt
  .ok (db', db'.accessGrants.find? fun g =>
    g.secretId == grant.secretId && g.granteeAddress == grantee)

def grantNotFound : Fault := .http 404 "Grant not found"

def revokeGrant (db : Database) (now : Time) (caller : User) (grantId : ℕ) :
    Except Fault Database :=
  match db.accessGrants.find? (·.id == grantId) with
  | none => .error grantNotFound
  | some grant =>
    match db.secrets.find? (·.id == grant.secretId) with
    | none => .error (.unhandled "AttributeError")
    | some secret =>
      if !canManageGrant db grant caller.address then
        .error (if canReadSecret db now secret caller.address then .http 403 "Not authorized"
          else grantNotFound)
      else if isOwnerGrant secret grant.granteeAddress then
        .error (.http 400 "The owner's own access cannot be revoked; delete the secret")
      else do
        refuseIfWorkflowManaged db grant.secretId "manually revoke access to"
        .ok { db with accessGrants := db.accessGrants.delete (·.id == grantId) }

/-! ## Listing and reading -/

def page {α : Type} (limit offset : ℕ) (rows : List α) : List α := (rows.drop offset).take limit

/-- `get_secrets`: the caller's own secrets outside any workflow, newest first. -/
def getSecrets (db : Database) (caller : User) (limit offset : ℕ) : List SecretSummaryResponse :=
  let owned := db.secrets.where' fun s =>
    s.ownerAddress == caller.address && !isWorkflowManaged db s.id
  page limit offset <| owned.reverse.flatMap fun s =>
    (db.accessGrants.where' fun g => g.secretId == s.id && g.granteeAddress == caller.address).map
      fun g => s.summary (some g.encryptedKey)

/-- `get_secret_access`: the grants of a secret, after the expired ones are purged. -/
def getSecretAccess (db : Database) (now : Time) (caller : User) (secretId limit offset : ℕ) :
    Except Fault (Database × List AccessGrant) := do
  let _ ← loadSecret db now secretId caller.address canManageSecret
  let db' := purgeExpiredGrants db now (·.secretId == secretId)
  .ok (db', page limit offset (db'.accessGrants.where' (·.secretId == secretId)))

/-- `get_shared_secrets`: what others shared with the caller outside any workflow, newest first,
after the caller's expired grants are purged. -/
def getSharedSecrets (db : Database) (now : Time) (caller : User) (limit offset : ℕ) :
    Database × List (AccessGrant × SecretSummaryResponse) :=
  let db' := purgeExpiredGrants db now (·.granteeAddress == caller.address)
  let held := db'.accessGrants.where' fun g => g.granteeAddress == caller.address
  let shared := held.reverse.flatMap fun g =>
    (db'.secrets.where' fun s => s.id == g.secretId && s.ownerAddress != caller.address &&
      !isWorkflowManaged db' s.id).map fun s => (g, s.summary none)
  (db', page limit offset shared)

def getSecret (db : Database) (now : Time) (caller : User) (secretId : ℕ) :
    Except Fault SecretResponse := do
  let secret ← loadSecret db now secretId caller.address (canReadSecret db now)
  .ok ⟨secret, (findLiveGrant db now secret.id caller.address).map (·.encryptedKey)⟩

/-! ## File chunks -/

structure FileChunkUpload where
  secretId : ℕ
  chunkIndex : ℕ
  iv : String
  encryptedData : String

/-- `upload_chunk`. Base64 holds three bytes in four characters, so sizes compare in quarters. -/
def uploadChunk (cfg : Config) (db : Database) (now : Time) (caller : User)
    (chunk : FileChunkUpload) : Except Fault Database := do
  let _ ← loadSecret db now chunk.secretId caller.address canWriteSecret
  checkNewBytes cfg db caller.address chunk.encryptedData.length
  let stored := ((db.fileChunks.where' (·.secretId == chunk.secretId)).map
    (·.encryptedData.length)).sum
  refuseIf (4 * cfg.maxTotalFileSize < 3 * (stored + chunk.encryptedData.length))
    (.http 413 s!"File too large (max {cfg.maxTotalFileSize / (1024 * 1024)}MB)")
  refuseIf (db.fileChunks.any fun c =>
      c.secretId == chunk.secretId && c.chunkIndex == chunk.chunkIndex)
    (.http 409 s!"Chunk {chunk.chunkIndex} already uploaded for this secret")
  .ok { db with
    fileChunks := db.fileChunks.insert
      (fun id => ⟨id, chunk.secretId, chunk.chunkIndex, chunk.encryptedData, chunk.iv⟩)
      (fun _ => rfl) }

def getChunk (db : Database) (now : Time) (caller : User) (secretId chunkIndex : ℕ) :
    Except Fault FileChunk := do
  let _ ← loadSecret db now secretId caller.address (canReadSecret db now)
  match db.fileChunks.find? fun c => c.secretId == secretId && c.chunkIndex == chunkIndex with
  | some chunk => .ok chunk
  | none => .error (.http 404 s!"Chunk {chunkIndex} not found")

end Kryptolog.Server
