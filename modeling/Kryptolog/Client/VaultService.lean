import Kryptolog.Client.Backup
import Kryptolog.Library.Tasks

/-! # The vault of the web client

`services/vault.js` with `vaultRotation.js`, `vaultBackup.js` and `vaultBiometrics.js`: one service
object over `localStorage`, and what each operation does between its awaits. An operation that
changes the vault opens the stored one, changes it, seals it again and stores it.

A sealed vault opens under the key that sealed it and no other. Reading `localStorage` and writing
to it take no turn. The service also counts its locks, and records which changes it stored and what
it was that put a key in place: no operation reads these.
-/

namespace Kryptolog.Client
set_option autoImplicit false

open Script Fallible Tasks

abbrev Kdf := Text
abbrev VaultKey := Text

/-- What is stored: the descriptor that its key came from, and the vault under that key. -/
structure Sealed where
  kdf : Kdf
  key : VaultKey
  content : Vault

/-- What the code gets from libraries. -/
structure VaultPrimitives extends BackupPrimitives where
  suites : KeySuites
  deriveKey : Text → Kdf → VaultKey

/-- An account without its seeds. -/
structure ShownAccount where
  id : Text
  name : Text
  identityPublicKey : Text
  encryptionPublicKey : Text
  kid : Text
  retired : List (Text × Number × Number)
  deriving DecidableEq

def sanitize (a : Account) : ShownAccount :=
  ⟨a.id, a.name, a.identity.publicKey, a.encryption.publicKey, a.encryption.kid,
    a.retiredEncryption.map fun k => (k.kid, k.createdAt, k.retiredAt)⟩

structure ShownVault where
  accounts : List ShownAccount
  activeAccountId : Option Text
  deriving DecidableEq

def Vault.sanitize (v : Vault) : ShownVault := ⟨v.accounts.map Client.sanitize, v.activeAccountId⟩

/-! ## Changes of the vault -/

inductive VaultEdit
  /-- With the account that `generateAccount` returns. -/
  | addAccount (account : Account)
  | switchAccount (id : Text)
  | deleteAccount (id : Text)
  /-- With the key pair that is generated. -/
  | rotateEncryptionKey (fresh : KeyPair) (ts : Number)
  | revertEncryptionKeyRotation (newKid : Text) (now : Number)
  | destroyRetiredEncryptionKey (kid : Text)
  | importVault (jsonString : Text) (passphrase : Option Text) (now : Number)

/-- `withActiveAccount`. -/
def withActiveAccount (vault : Vault) (change : Account → Except String Account) : Except String Vault :=
  match vault.accounts.findIdx? fun a => some a.id == vault.activeAccountId with
  | none => .error "Active account not found in vault"
  | some i =>
    match vault.accounts[i]? with
    | none => .error "Active account not found in vault"
    | some account => do
      let changed ← change account
      .ok { vault with accounts := vault.accounts.set i changed }

/-- The account that becomes the active one when `id` is deleted. -/
def successorOf (vault : Vault) (id : Text) : Option Account := vault.accounts.find? (·.id != id)

namespace VaultEdit

/-- What an operation makes of the vault, and whether it stores it. -/
def change (prim : VaultPrimitives) (vault : Vault) : VaultEdit → Except String (Vault × Bool)
  | addAccount account => .ok ({ vault with accounts := vault.accounts ++ [account] }, true)
  | switchAccount id => do
    refuseIf (!vault.accounts.any (·.id == id)) "Account not found"
    .ok ({ vault with activeAccountId := some id }, true)
  | deleteAccount id => do
    refuseIf (vault.accounts.length ≤ 1) "Cannot delete last account"
    let rest := vault.accounts.filter (·.id != id)
    if vault.activeAccountId = some id then
      match successorOf vault id with
      | none => .error "TypeError"
      | some other => .ok (⟨rest, some other.id⟩, true)
    else .ok ({ vault with accounts := rest }, true)
  | rotateEncryptionKey fresh ts => do
    let changed ← withActiveAccount vault (Client.rotateAccountEncryptionKey prim.suites fresh ts)
    .ok (changed, true)
  | revertEncryptionKeyRotation newKid now => do
    let changed ← withActiveAccount vault fun a => Client.revertAccountEncryptionKeyRotation a newKid now
    .ok (changed, true)
  | destroyRetiredEncryptionKey kid => do
    let changed ← withActiveAccount vault fun a => Client.destroyRetiredEncryptionKey a kid
    .ok (changed, true)
  | importVault jsonString passphrase now => do
    let (changed, added) ← Client.importVault prim.suites prim.toBackupPrimitives now vault jsonString
      passphrase
    .ok (changed, 0 < added)

/-- The operation waits between opening the vault and sealing it. -/
def waits : VaultEdit → Bool
  | addAccount _ | rotateEncryptionKey _ _ | revertEncryptionKeyRotation _ _
  | destroyRetiredEncryptionKey _ => true
  | _ => false

/-- The operation waits for its backup to be decrypted before it opens the vault. -/
def waitsForBackup (prim : VaultPrimitives) : VaultEdit → Bool
  | importVault jsonString _ _ => (prim.parseJson jsonString).any isEncryptedVaultBlob
  | _ => false

end VaultEdit

/-! ## The service -/

/-- An operation that has begun: its number, whether it is an unlock or a setup, and how often the
service had been locked, and the cached keys dropped, when it began. -/
structure Caller where
  number : ℕ
  mayUnlock : Bool
  locksBefore : ℕ
  clearsBefore : ℕ

/-- The operations that put these in place. -/
structure Since where
  cachedKey : Caller
  signingKey : Caller
  unlocked : Caller

structure Service where
  stored : Option Sealed
  vault : Option ShownVault
  isLocked : Bool
  /-- `_cachedKey` with `_cachedKdf`. -/
  cachedKey : Option (VaultKey × Kdf)
  signingKey : Option Text
  cacheTTL : ℕ
  saves : List (ℕ × VaultEdit)
  /-- The calls of `lock`, and of `lock` and `clearKeyCache`. -/
  locks : ℕ
  clears : ℕ
  since : Since

namespace Service

def clearKeyCache (c : Service) : Service := { c with cachedKey := none, signingKey := none }

/-- `_cacheKey`: with a lifetime of 0 no key is kept. -/
def cacheKey (c : Service) (caller : Caller) (key : VaultKey) (kdf : Kdf) : Service :=
  if c.cacheTTL = 0 then c
  else
    { c with cachedKey := some (key, kdf), since := { c.since with cachedKey := caller } }

/-- The active account's seed is kept for messages. -/
def keepSigningKey (c : Service) (caller : Caller) (seed : Text) : Service :=
  { c with signingKey := some seed, since := { c.since with signingKey := caller } }

/-- The keys are dropped from outside: by a timer, or where the page is hidden. -/
def dropKeys (c : Service) : Service := { c.clearKeyCache with clears := c.clears + 1 }

def lock (c : Service) : Service :=
  { c.dropKeys with vault := none, isLocked := true, locks := c.locks + 1 }

def setCacheTTL (c : Service) (ms : ℕ) : Service :=
  let c := { c with cacheTTL := ms }
  if ms = 0 then c.dropKeys else c

/-- `localStorage.setItem('kryptolog_vault', …)`. -/
def store (c : Service) (sealed : Sealed) : Service := { c with stored := some sealed }

def openVault (c : Service) (caller : Caller) (v : Vault) : Service :=
  { c with
    vault := some v.sanitize
    isLocked := false
    since := { c.since with unlocked := caller } }

end Service

/-- What an operation does with the vault that it opens. -/
inductive Purpose
  | edit (edit : VaultEdit) (newKdf : Kdf)
  | signMessage
  /-- `sign`, `decrypt`, `unwrapSessionKey`, their batches, and the exports. -/
  | read

/-- What is sealed: a changed vault, or a new one. -/
inductive Saving
  | edit (edit : VaultEdit)
  | create

inductive VaultResult
  | edited (edit : VaultEdit)
  | nothingImported
  | created
  | unlocked (success : Bool)
  | read
  | locked
  | failed (message : String)

/-- Where an operation waits. -/
inductive VaultPoint
  | decryptingBackup (edit : VaultEdit) (password : Option Text) (newKdf : Kdf)
  /-- For a decryption under the cached key. -/
  | opening (purpose : Purpose) (password : Option Text) (blob : Sealed) (key : VaultKey)
  | derivingKey (purpose : Purpose) (password : Text) (blob : Sealed)
  | decrypting (purpose : Purpose) (password : Text) (blob : Sealed) (key : VaultKey)
  | loaded (purpose : Purpose) (password : Option Text) (vault : Vault)
  /-- For what a change computes. -/
  | changing (edit : VaultEdit) (password : Option Text) (newKdf : Kdf) (vault : Vault)
  | generating (password : Text) (newKdf : Kdf) (vault : Vault)
  | sealing (saving : Saving) (vault : Vault) (key : VaultKey) (kdf : Kdf)
  | sealingFresh (saving : Saving) (vault : Vault) (password : Text) (kdf : Kdf)
  | rederiving (saving : Saving) (vault : Vault) (password : Text) (kdf : Kdf)
  | saved (saving : Saving) (vault : Vault)
  | derivingUnlock (password : Text) (blob : Sealed)
  | decryptingUnlock (blob : Sealed) (key : VaultKey)
  | signing (seed : Text)
  /-- `verifyPassword`, before biometrics are enabled. -/
  | derivingCheck (password : Text) (blob : Sealed)
  | decryptingCheck (password : Text) (blob : Sealed) (key : VaultKey)
  | checked (password : Text)
  | done (result : VaultResult)

inductive VaultCall
  | edit (edit : VaultEdit) (password : Option Text) (newKdf : Kdf)
  /-- `setup` with the generated account, or `importNewVault`. -/
  | create (vault : Vault) (password : Text) (newKdf : Kdf) (generates : Bool)
  | unlock (password : Text)
  | signMessage (password : Option Text)
  | read (password : Option Text)
  | enableBiometrics (password : Text)
  | lock
  | clearKeyCache
  | setCacheTTL (ms : ℕ)

section operations

variable (prim : VaultPrimitives)

/-- The password is used, where there is one. -/
def derivation (purpose : Purpose) (password : Option Text) (blob : Sealed) : VaultPoint :=
  match given password with
  | none => .done (.failed "Password required")
  | some secret => .derivingKey purpose secret blob

/-- `_getFullVault`, up to its first await. -/
def getFullVault (c : Service) (purpose : Purpose) (password : Option Text) : VaultPoint :=
  match c.stored with
  | none => .done (.failed "No vault found")
  | some blob =>
    match c.cachedKey with
    | some (key, _) => .opening purpose password blob key
    | none => derivation purpose password blob

/-- `_save`, up to its first await. -/
def save (c : Service) (saving : Saving) (vault : Vault) (password : Option Text) (newKdf : Kdf) :
    VaultPoint :=
  match c.cachedKey with
  | some (key, kdf) => .sealing saving vault key kdf
  | none =>
    match given password with
    | none => .done (.failed "Password required to save")
    | some secret => .sealingFresh saving vault secret newKdf

/-- `deleteAccount` moves the active account of the shown vault before it saves. -/
def beforeSave (c : Service) (edit : VaultEdit) (before after : Vault) : Except String Service :=
  match edit with
  | .deleteAccount id =>
    if before.activeAccountId = some id then
      match c.vault with
      | none => .error "TypeError"
      | some shown => .ok { c with vault := some { shown with activeAccountId := after.activeAccountId } }
    else .ok c
  | _ => .ok c

/-- The shown vault after a change was stored. -/
def afterSave (c : Service) (edit : VaultEdit) (vault : Vault) : Except String Service :=
  match edit with
  | .importVault _ _ _ => .ok { c with vault := some vault.sanitize }
  | _ =>
    match c.vault with
    | none => .error "TypeError"
    | some shown =>
      let set (shown : ShownVault) : Except String Service := .ok { c with vault := some shown }
      match edit with
      | .addAccount account => set { shown with accounts := shown.accounts ++ [sanitize account] }
      | .switchAccount id => set { shown with activeAccountId := some id }
      | .deleteAccount id => set { shown with accounts := shown.accounts.filter (·.id != id) }
      | _ => set { shown with
          accounts := shown.accounts.map fun a =>
            ((vault.accounts.find? fun b => some b.id == vault.activeAccountId && b.id == a.id).map
              sanitize).getD a }

/-- With the vault open. -/
def withFullVault (caller : Caller) (c : Service) (purpose : Purpose) (password : Option Text) (vault : Vault) :
    Service × VaultPoint :=
  match purpose with
  | .edit edit newKdf =>
    match edit.change prim vault with
    | .error message => (c, .done (.failed message))
    | .ok (_, false) => (c, .done .nothingImported)
    | .ok (changed, true) =>
      match beforeSave c edit vault changed with
      | .error message => (c, .done (.failed message))
      | .ok c' =>
        if edit.waits then (c', .changing edit password newKdf changed)
        else (c', save c' (.edit edit) changed password newKdf)
  | .signMessage =>
    match vault.accounts.find? fun a => some a.id == vault.activeAccountId with
    | none => (c, .done (.failed "Active account not found in vault"))
    | some account => (c.keepSigningKey caller account.identity.seed, .signing account.identity.seed)
  | .read => (c, .done .read)

/-- A sealed vault is stored. The record says by which call. -/
def storeSealed (number : ℕ) (c : Service) (saving : Saving) (sealed : Sealed) : Service :=
  match saving with
  | .edit edit => { c.store sealed with saves := c.saves ++ [(number, edit)] }
  | .create => c.store sealed

/-- Up to the next await. -/
def VaultPoint.resume (caller : Caller) (c : Service) : VaultPoint → Option (Service × VaultPoint)
  | .decryptingBackup edit password newKdf => some (c, getFullVault c (.edit edit newKdf) password)
  | .opening purpose password blob key =>
    if key = blob.key then some (c, .loaded purpose password blob.content)
    else some (c.clearKeyCache, derivation purpose password blob)
  | .derivingKey purpose password blob =>
    some (c, .decrypting purpose password blob (prim.deriveKey password blob.kdf))
  | .decrypting purpose password blob key =>
    if key = blob.key then some (c.cacheKey caller key blob.kdf, .loaded purpose (some password) blob.content)
    else some (c, .done (.failed "OperationError"))
  | .loaded purpose password vault => some (withFullVault prim caller c purpose password vault)
  | .changing edit password newKdf vault => some (c, save c (.edit edit) vault password newKdf)
  | .generating password newKdf vault => some (c, save c .create vault (some password) newKdf)
  | .sealing saving vault key kdf =>
    some (storeSealed caller.number c saving ⟨kdf, key, vault⟩, .saved saving vault)
  | .sealingFresh saving vault password kdf => some (c, .rederiving saving vault password kdf)
  | .rederiving saving vault password kdf =>
    let key := prim.deriveKey password kdf
    some (storeSealed caller.number (c.cacheKey caller key kdf) saving ⟨kdf, key, vault⟩, .saved saving vault)
  | .saved (.edit edit) vault =>
    match afterSave c edit vault with
    | .error message => some (c, .done (.failed message))
    | .ok c' => some (c', .done (.edited edit))
  | .saved .create vault => some (c.openVault caller vault, .done .created)
  | .derivingUnlock password blob => some (c, .decryptingUnlock blob (prim.deriveKey password blob.kdf))
  | .decryptingUnlock blob key =>
    if key = blob.key then
      some ((c.cacheKey caller key blob.kdf).openVault caller blob.content, .done (.unlocked true))
    else some (c, .done (.unlocked false))
  | .signing _ => some (c, .done .read)
  | .derivingCheck password blob =>
    some (c, .decryptingCheck password blob (prim.deriveKey password blob.kdf))
  | .decryptingCheck password blob key =>
    if key = blob.key then some (c, .checked password)
    else some (c, .done (.failed "Your vault password is required to enable biometric unlock."))
  | .checked password => some (c, getFullVault c .read (some password))
  | .done _ => none

/-- Up to the first await. -/
def VaultCall.begin (c : Service) : VaultCall → Service × VaultPoint
  | .edit change password newKdf =>
    if c.isLocked then (c, .done (.failed "Vault locked"))
    else if change.waitsForBackup prim then (c, .decryptingBackup change password newKdf)
    else (c, getFullVault c (.edit change newKdf) password)
  | .create vault password newKdf generates =>
    if c.stored.isSome then (c, .done (.failed "Vault already exists"))
    else if generates then (c, .generating password newKdf vault)
    else (c, save c .create vault (some password) newKdf)
  | .unlock password =>
    match c.stored with
    | none => (c, .done (.failed "No vault found"))
    | some blob => (c, .derivingUnlock password blob)
  | .signMessage password =>
    if c.isLocked then (c, .done (.failed "Vault locked"))
    else
      match c.signingKey with
      | some seed => (c, .signing seed)
      | none => (c, getFullVault c .signMessage password)
  | .read password =>
    if c.isLocked then (c, .done (.failed "Vault locked")) else (c, getFullVault c .read password)
  | .enableBiometrics password =>
    match (given (some password)).bind fun secret => c.stored.map (secret, ·) with
    | none => (c, .done (.failed "Your vault password is required to enable biometric unlock."))
    | some (secret, blob) => (c, .derivingCheck secret blob)
  | .lock => (c.lock, .done .locked)
  | .clearKeyCache => (c.dropKeys, .done .locked)
  | .setCacheTTL ms => (c.setCacheTTL ms, .done .locked)

end operations

/-- The stored vault is read on the next turn. -/
def VaultPoint.opensVault : VaultPoint → Bool
  | .decryptingBackup _ _ _ | .checked _ => true
  | _ => false

/-- An operation under way: what began it, how many changes had been stored when it read the stored
vault, and where it is. -/
structure VaultTask where
  caller : Caller
  opened : ℕ
  point : VaultPoint

/-- A page that is loaded again starts with a locked service over the same store. -/
def Service.reload (c : Service) : Service :=
  { c with vault := none, isLocked := true, cachedKey := none, signingKey := none }

/-- `unlock`, `setup` and `importNewVault`. -/
def VaultCall.mayUnlock : VaultCall → Bool
  | create _ _ _ _ | unlock _ => true
  | _ => false

def vaultService (prim : VaultPrimitives) : Program Service VaultTask VaultCall where
  call n call c :=
    let out := VaultCall.begin prim c call
    (out.1, ⟨⟨n, call.mayUnlock, c.locks, c.clears⟩, c.saves.length, out.2⟩)
  resume t c := (VaultPoint.resume prim t.caller c t.point).map fun out =>
    (out.1, ⟨t.caller, if t.point.opensVault then c.saves.length else t.opened, out.2⟩)
  restart := Service.reload

end Kryptolog.Client
