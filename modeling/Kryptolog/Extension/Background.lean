import Kryptolog.Client.VaultService
import Kryptolog.Client.SignedBodies

/-! # The state of the extension's background

`trustkeys/src/background`: the state object with the storage beside it, the saving of the vault
(`utils.js`), the approval queue (`approvals.js`), and where a message waits. The handlers are in
`Extension.Handlers`.

A write to storage takes effect when it is called, and a read returns what was stored then. Awaits
between which nothing shared is read or written are one. A sealed vault opens under the key that
sealed it and no other, and a signature is given by the seed and the text that it is made of.

The state also records what no handler reads: the responses, what was released to whom, the vaults
that were sealed, and which operation put in place what it holds.
-/

namespace Kryptolog.Extension
set_option autoImplicit false

open Script Fallible Tasks
open Client (Account KeyPair Kdf VaultKey given)

/-! ## The vault -/

structure ExtensionVault where
  accounts : List Account
  activeAccountId : Option Text
  /-- The origins that hold a grant. -/
  permissions : List Text
  autoSignSites : List Text
  deriving DecidableEq

namespace ExtensionVault

def empty : ExtensionVault := ⟨[], none, [], []⟩

def activeAccount (v : ExtensionVault) : Option Account :=
  v.accounts.find? fun a => some a.id == v.activeAccountId

def permit (v : ExtensionVault) (origin : Text) : ExtensionVault :=
  { v with permissions := v.permissions.insert origin }

def withdraw (v : ExtensionVault) (origin : Text) : ExtensionVault :=
  { v with
    permissions := v.permissions.filter (· != origin)
    autoSignSites := v.autoSignSites.filter (· != origin) }

def setAutoSign (v : ExtensionVault) (origin : Text) (enabled : Bool) : ExtensionVault :=
  { v with
    autoSignSites :=
      if enabled then v.autoSignSites.insert origin else v.autoSignSites.filter (· != origin) }

def addAccount (v : ExtensionVault) (account : Account) : ExtensionVault :=
  { v with
    accounts := v.accounts ++ [account]
    activeAccountId := (given v.activeAccountId).or (some account.id) }

/-- The first account with the id of `account` is replaced. -/
def replaceAccount (v : ExtensionVault) (account : Account) : ExtensionVault :=
  { v with
    accounts := match v.accounts.findIdx? (·.id == account.id) with
      | some i => v.accounts.set i account
      | none => v.accounts }

/-- `deleteAccount`: the first account with the id is removed. -/
def deleteAccount (v : ExtensionVault) (id : Text) : Option ExtensionVault :=
  (v.accounts.findIdx? (·.id == id)).map fun i =>
    let accounts := v.accounts.eraseIdx i
    { v with
      accounts := accounts
      activeAccountId :=
        if v.activeAccountId = some id then accounts.head?.map (·.id) else v.activeAccountId }

/-- `importVault`: what is held stays, and what is new is added. -/
def addImported (v : ExtensionVault) (imported : List Account) : ExtensionVault :=
  let existing := v.accounts.map (·.id)
  { v with accounts := v.accounts ++ imported.filter fun acc => !existing.contains acc.id }

end ExtensionVault

/-- What is stored: `null` is sealed where no vault is in memory. -/
structure StoredVault where
  kdf : Kdf
  key : VaultKey
  content : Option ExtensionVault
  deriving DecidableEq

/-- What a change takes out of the vault. -/
inductive Removal
  | account (id : Text)
  | key (id kid : Text)
  deriving DecidableEq

/-- A vault that an operation sealed, and what the operation had taken out of it. -/
structure Sealing where
  owner : ℕ
  removes : Option Removal
  content : Option ExtensionVault

/-! ## Requests for approval -/

def maxPendingPerOrigin : ℕ := 3

def maxPendingTotal : ℕ := 10

/-- The `kind` of a signature. -/
inductive SignKind
  | text
  | content
  | login
  | accountDeletion
  | conversationErase
  | multisigApproval
  | message
  deriving DecidableEq

/-- What is asked for, and the account that the window shows. -/
inductive Approval
  | connect
  | sign (kind : SignKind) (account : Account) (body : Option Value)
  | decrypt (data : Value)
  | unwrapSessionKey (wrappedKey : Value)
  | decryptMany (items : Option Value)
  | unwrapManySessionKeys (wrappedKeys : Option Value)
  | rotate (account : Account) (ts : Number) (fresh : KeyPair)

/-- A pending request is known by the message that made it. -/
structure Pending where
  owner : ℕ
  origin : Text
  approval : Approval

/-! ## Responses -/

inductive Response
  | success
  | failed (error : Text)
  | unlocked (success : Bool)
  | connection (connected locked : Bool)
  | handshake
  | account (name address identityPublicKey encryptionPublicKey : Text)
  | signature (seed body : Text)
  | attestation (seed body : Text)
  | decrypted (text : Text)
  | decryptedMany (texts : List (Option Text))
  | generated (key : Text)
  /-- Of an encryption or a wrapping, to a public key and with random bytes. -/
  | sealed (publicKey : Text) (plaintext : Option Value) (random : Text)
  | rotated (encryptionPublicKey oldKid newKid seed : Text) (ts : Number)

/-- Why something was released. -/
inductive Grounds
  | approved (approval : Approval)
  /-- `SIGN_MESSAGE`, without a window, of a site that held the grant, or did not. -/
  | autoSigned (granted : Bool)
  /-- `GET_KEY_ATTESTATION`. -/
  | attested

/-- What a page was given that was made with the keys of an account. -/
structure Release where
  origin : Option Text
  grounds : Grounds
  account : Account
  /-- The page held its grant when the response was sent. -/
  connected : Bool
  /-- What was signed. -/
  body : Option Text

/-- A rotation that the page that made it may undo. -/
structure Rotation where
  origin : Text
  newKid : Text
  since : ℕ

/-! ## The state -/

inductive Initialization
  | notStarted
  | running
  | done
  | failed
  deriving DecidableEq

/-- An operation that has begun: its number, whether it is an unlock, a setup or an import, and how
many locks there were before it. -/
structure Caller where
  number : ℕ
  mayUnlock : Bool
  locksBefore : ℕ

/-- The operations that put these in place. -/
structure Since where
  vault : Caller
  vaultKey : Caller
  unlocked : Caller
  session : Caller

structure Background where
  isLocked : Bool
  hasPassword : Bool
  vault : Option ExtensionVault
  /-- `vaultKey` and `vaultKeyBytes`, with `vaultKdf`. -/
  vaultKey : Option (VaultKey × Kdf)
  pendingRequests : List Pending
  pendingRotation : Option Rotation
  popupWindowId : Option ℕ
  approvalWindowId : Option ℕ
  /-- `initPromise`. -/
  initialization : Initialization
  /-- `chrome.storage.local`. -/
  vaultData : Option StoredVault
  /-- The key in `chrome.storage.session`. -/
  session : Option (VaultKey × Kdf)
  locks : ℕ
  since : Since
  responses : List (ℕ × Response)
  releases : List Release
  /-- The requests whose handler runs, each with the message that approved it. -/
  handling : List (Pending × ℕ)
  /-- The sealed vaults that are not stored yet. -/
  sealings : List Sealing
  /-- The ones that were stored. -/
  stored : List Sealing

namespace Background

def respond (c : Background) (owner : ℕ) (r : Response) : Background :=
  { c with responses := c.responses ++ [(owner, r)] }

def fail (c : Background) (owner : ℕ) (error : Text) : Background := c.respond owner (.failed error)

/-- `vault.permissions[origin]`. -/
def isConnected (c : Background) (origin : Text) : Bool :=
  c.vault.any fun v => v.permissions.contains origin

def setVault (c : Background) (v : ExtensionVault) : Background := { c with vault := some v }

/-- `lock`, with the record that `lockWithSession` removes. -/
def lock (c : Background) : Background :=
  { c with
    vault := none
    pendingRotation := none
    isLocked := true
    vaultKey := none
    session := none
    locks := c.locks + 1 }

/-- `openVault`, once the vault is decrypted. -/
def openVault (c : Background) (caller : Caller) (v : ExtensionVault) (key : VaultKey × Kdf) : Background :=
  { c with
    vault := some v
    vaultKey := some key
    isLocked := false
    since := { c.since with vault := caller, vaultKey := caller, unlocked := caller } }

/-- `persistSession`. -/
def persistSession (c : Background) (caller : Caller) : Background :=
  match c.vaultKey with
  | none => c
  | some key => { c with session := some key, since := { c.since with session := caller } }

/-- `saveVault` keeps the key that it has sealed the vault with. -/
def adoptKey (c : Background) (caller : Caller) (key : VaultKey × Kdf) : Background :=
  { c with
    vaultKey := some key
    session := some key
    since := { c.since with vaultKey := caller, session := caller } }

/-- `isLocked = false`. -/
def markUnlocked (c : Background) (caller : Caller) : Background :=
  { c with
    isLocked := false
    since := { c.since with unlocked := if c.isLocked then caller else c.since.unlocked } }

def release (c : Background) (r : Release) : Background := { c with releases := c.releases ++ [r] }

/-! ### The approval queue -/

def pendingForOrigin (c : Background) (origin : Text) : ℕ :=
  (c.pendingRequests.filter (·.origin == origin)).length

def pending (c : Background) (owner : ℕ) : Option Pending :=
  c.pendingRequests.find? (·.owner == owner)

def removePending (c : Background) (owner : ℕ) : Background :=
  { c with pendingRequests := c.pendingRequests.filter (·.owner != owner) }

/-- A pending request settles without its handler. -/
def reject (c : Background) (owner : ℕ) (error : Text) : Background :=
  match c.pending owner with
  | none => c
  | some p => (c.removePending p.owner).fail p.owner error

def rejectAllApprovals (c : Background) (reason : Text) : Background :=
  { c with
    pendingRequests := []
    responses := c.responses ++ c.pendingRequests.map fun p => (p.owner, .failed reason) }

/-- `handleWindowClosed`. -/
def handleWindowClosed (c : Background) (windowId : ℕ) : Background :=
  let c := if c.popupWindowId = some windowId then { c with popupWindowId := none } else c
  if c.approvalWindowId = some windowId then
    { c with approvalWindowId := none }.rejectAllApprovals (lit "Approval window closed")
  else c

/-- A pending request is handed to its handler by the message `by_`. -/
def startHandler (c : Background) (p : Pending) (by_ : ℕ) : Background :=
  { c.removePending p.owner with handling := c.handling ++ [(p, by_)] }

/-- The handler ends: with a response, or with an error that nothing catches. -/
def endHandler (c : Background) (p : Pending) (by_ : ℕ) (r : Option Response) : Background :=
  let c := { c with handling := c.handling.filter fun h => h.1.owner != p.owner || h.2 != by_ }
  match r with
  | none => c
  | some r => c.respond p.owner r

/-- The sealed vault of an operation is stored. -/
def store (c : Background) (owner : ℕ) (blob : StoredVault) : Background :=
  { c with
    vaultData := some blob
    sealings := c.sealings.filter (·.owner != owner)
    stored := c.stored ++ c.sealings.filter (·.owner == owner) }

/-- A worker that starts anew has what is stored, and nothing else. -/
def restart (c : Background) : Background :=
  { c with
    isLocked := true
    hasPassword := false
    vault := none
    vaultKey := none
    pendingRequests := []
    pendingRotation := none
    popupWindowId := none
    approvalWindowId := none
    initialization := .notStarted
    handling := []
    sealings := [] }

end Background

end Kryptolog.Extension
