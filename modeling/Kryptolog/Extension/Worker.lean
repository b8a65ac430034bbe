import Kryptolog.Extension.Handlers

/-! # The service worker

Each message to the background and each event of the browser runs to its first await, and from one
await to the next. A message waits until the worker is initialized. A worker that is restarted
drops what was under way, and is initialized from what is stored.
-/

namespace Kryptolog.Extension
set_option autoImplicit false

open Script Tasks
open Client (given)

inductive Call
  | message (sender : Sender) (request : Request) (inputs : Inputs)
  /-- `initializeStorage`: the stored session has expired, or not. -/
  | start (expired : Bool) (inputs : Inputs)
  | idleAlarm (expired : Bool)
  | windowRemoved (windowId : ℕ)
  /-- The timer of a pending request. -/
  | timeout (owner : ℕ)

section worker

variable (prim : ExtensionPrimitives)

def dispatch (c : Background) (caller : Caller) (sender : Sender) (request : Request) (inputs : Inputs) :
    Background × Point :=
  let owner := caller.number
  if request.isInternal && !sender.isInternal then throw c owner "Unauthorized: Internal use only"
  else
    match request with
    | .inspect => answer c owner .success
    | .setupPassword password => handleSetupPassword prim c caller password inputs
    | .unlock password => startUnlock c owner .unlock password inputs
    | .lock => (c.lock, .clearing)
    | .destroyRetiredEncryptionKey kid => handleDestroyRetiredEncryptionKey c owner kid inputs
    | .resolveRequest requestId approved => settleApproval prim c owner requestId approved inputs
    | .addTrustedSite origin => handleAddTrustedSite prim c owner origin inputs
    | .removeTrustedSite origin => handleRemoveTrustedSite prim c owner origin inputs
    | .setSiteAutoSign origin enabled => handleSetSiteAutoSign c owner origin enabled inputs
    | .authorizeCurrentTab origin =>
      if !c.isLocked && c.isConnected origin then answer c owner .success
      else handleAddTrustedSite prim c owner origin inputs
    | .createAccount => changeVault c owner none (fun v => some (v.addAccount inputs.account)) inputs
    | .setActiveAccount id =>
      changeVault c owner none (fun v => some { v with activeAccountId := some id }) inputs
    | .deleteAccount id => changeVault c owner (some (.account id)) (fun v => v.deleteAccount id) inputs
    | .importKeys vaultObj password passphrase =>
      handleImportKeys prim c caller vaultObj password passphrase inputs
    | .checkConnection => handleCheckConnection c owner sender
    | .handshake => answer c owner .handshake
    | .connect => handleConnect c owner sender inputs
    | .getActiveAccount => handleGetActiveAccount c owner sender
    | .sign message => handleSign c owner sender message inputs
    | .signLogin nonce deployment => handleSignLogin c owner sender nonce deployment inputs
    | .signAccountDeletion nonce mode redactionKeys deployment =>
      handleSignAccountDeletion prim c owner sender nonce mode redactionKeys deployment inputs
    | .signConversationErase nonce kind conversation redactionKeys deployment =>
      handleSignConversationErase prim c owner sender nonce kind conversation redactionKeys deployment inputs
    | .signMultisigApproval workflowId secretId ciphertextSha384 =>
      handleSignMultisigApproval c owner sender workflowId secretId ciphertextSha384 inputs
    | .rotateEncryptionKey ts => handleRotateEncryptionKey c owner sender ts inputs
    | .revertEncryptionKeyRotation newKid => handleRevertEncryptionKeyRotation c owner sender newKid inputs
    | .signMessage message => handleSignMessage prim c owner sender message inputs
    | .getKeyAttestation => handleGetKeyAttestation c owner sender
    | .encrypt message publicKey => handleEncrypt prim c owner message publicKey inputs
    | .decrypt data => handleOpen c owner sender (.decrypt data) inputs
    | .generateSessionKey => (c, .answering (.generated inputs.random))
    | .wrapSessionKey sessionKey publicKey => handleWrapSessionKey prim c owner sessionKey publicKey inputs
    | .unwrapSessionKey wrappedKey => handleOpen c owner sender (.unwrapSessionKey wrappedKey) inputs
    | .decryptMany items => handleOpen c owner sender (.decryptMany items) inputs
    | .unwrapManySessionKeys wrappedKeys =>
      handleOpen c owner sender (.unwrapManySessionKeys wrappedKeys) inputs
    | .unknown type => answer c owner (.failed (lit "Unknown message type: " ++ type))

/-- The vault was decrypted with `key`, or not. -/
def decryptedWith (blob : StoredVault) (key : Client.VaultKey) : Option ExtensionVault :=
  if key = blob.key then blob.content else none

/-- A save is over. -/
def finishSave (c : Background) (caller : Caller) (after : After) : Background × Point :=
  match after with
  | .respond r => answer c caller.number r
  | .setUp password inputs => startUnlock (c.markUnlocked caller) caller.number .setUp password inputs
  | .imported =>
    if c.isLocked then throw c caller.number "Locked"
    else if c.vault.isNone then throw c caller.number typeError
    else answer c caller.number .success
  | .synced what =>
    if c.vault.isNone then failSync c caller.number what typeError else endSync c caller.number what
  | .connected p => (c.endHandler p caller.number (some .success), .done)
  | .rotated p active rotated ts now =>
    ({ c with pendingRotation := some ⟨p.origin, rotated.encryption.kid, millis now⟩ },
      .attesting p active rotated ts)

/-- The write to the store fails. -/
def failSave (c : Background) (caller : Caller) (after : After) : Background × Point :=
  match after with
  | .respond _ | .setUp _ _ | .imported => throw c caller.number "Failed to store the vault"
  | .synced what => failSync c caller.number what "Failed to store the vault"
  | .connected p | .rotated p _ _ _ _ => (c.endHandler p caller.number none, .done)

/-- The response reveals something that was sealed to the account. -/
def Response.reveals : Response → Bool
  | decrypted _ | decryptedMany _ => true
  | _ => false

/-- Up to the next await. -/
def Point.resume (caller : Caller) (c : Background) : Point → Option (Background × Point)
  | .arrived sender request inputs =>
    match c.initialization with
    | .done => some (dispatch prim c caller sender request inputs)
    | .failed => some (throw c caller.number "Initialization failed")
    | .notStarted | .running => none
  | .focusingPopup window focuses =>
    if focuses then some (throw c caller.number "Locked - Please unlock extension")
    else some ({ c with popupWindowId := none }, .creatingPopup window)
  | .creatingPopup window =>
    some (throw { c with popupWindowId := window.or c.popupWindowId } caller.number
      "Locked - Please unlock extension")
  | .focusing window focuses =>
    if focuses then some (c, .done) else some ({ c with approvalWindowId := none }, .creating window)
  | .creating (some windowId) => some ({ c with approvalWindowId := some windowId }, .done)
  | .creating none => some (c.reject caller.number (lit "Could not open the approval window"), .done)
  | .unlocking what password blob inputs =>
    let key := prim.deriveKey password blob.kdf
    match decryptedWith blob key with
    | some v => some (c.openVault caller v (key, blob.kdf), .opened what inputs)
    | none =>
      some (answer c caller.number (match what with | .unlock => .unlocked false | .setUp => .success))
  | .opened what inputs => some (c.persistSession caller, .persisted what inputs)
  | .persisted .setUp _ => some (answer c caller.number .success)
  | .persisted .unlock inputs => some (startSync prim c caller.number .unlock inputs)
  | .syncing what [] changed inputs =>
    if c.vault.isNone then some (failSync c caller.number what typeError)
    else if changed then
      match saveVaultWithSessionKey c caller.number (.synced what) none inputs with
      | .error e => some (failSync c caller.number what e)
      | .ok out => some out
    else some (endSync c caller.number what)
  | .syncing what (origin :: origins) changed inputs =>
    if inputs.revoked.contains origin then
      match c.vault with
      | none => some (failSync c caller.number what typeError)
      | some v => some (c.setVault (v.withdraw origin), .syncing what origins true inputs)
    else some (c, .syncing what origins changed inputs)
  | .restoring blob key inputs =>
    match decryptedWith blob key.1 with
    | some v => some (startSync prim (c.openVault c.since.session v key) caller.number .initialization inputs)
    | none => some ({ c with session := none, initialization := .done }, .done)
  | .clearing => some (answer c caller.number .success)
  | .checkingIdle expired => some (if expired then c.lock else c, .done)
  | .decryptingImport data password inputs => some (finishImport c caller data password inputs)
  | .rederiving after password inputs =>
    some (sealVault c caller.number after none (prim.deriveKey password inputs.kdf, inputs.kdf) true
      inputs.stores)
  | .sealing after sealed fresh stores =>
    if stores then
      some (c.store caller.number sealed,
        .stored after (if fresh then some (sealed.key, sealed.kdf) else none))
    else
      some (failSave { c with sealings := c.sealings.filter (·.owner != caller.number) } caller after)
  | .stored after (some key) => some ({ c with hasPassword := true }, .adopting after key)
  | .stored after none => some ({ c with hasPassword := true }, .saved after)
  | .adopting after key => some (c.adoptKey caller key, .saved after)
  | .saved after => some (finishSave c caller after)
  | .checkingHost origin inputs =>
    if inputs.hostPermission then some (trustSite c caller.number origin inputs)
    else some (throw c caller.number "Host permission not granted for this site")
  | .answering r => some (answer c caller.number r)
  | .signing sender grounds account body =>
    let signature : Response :=
      match grounds with
      | .attested => .attestation account.identity.seed body
      | _ => .signature account.identity.seed body
    if sender.isInternal then some (answer c caller.number signature)
    else
      some (answer (c.release ⟨sender.origin, grounds, account,
        sender.origin.any fun origin => c.isConnected origin, some body⟩) caller.number signature)
  | .signingApproved p account body =>
    some ((c.release ⟨some p.origin, .approved p.approval, account, c.isConnected p.origin, some body⟩)
      |>.endHandler p caller.number (some (.signature account.identity.seed body)), .done)
  | .revealing p account outcome =>
    let c := if outcome.any Response.reveals then
        c.release ⟨some p.origin, .approved p.approval, account, c.isConnected p.origin, none⟩
      else c
    some (c.endHandler p caller.number outcome, .done)
  | .attesting p account rotated ts =>
    some ((c.release ⟨some p.origin, .approved p.approval, account, c.isConnected p.origin, none⟩)
      |>.endHandler p caller.number (some (.rotated rotated.encryption.publicKey
        account.encryption.kid rotated.encryption.kid account.identity.seed ts)), .done)
  | .done => none

/-- Up to the first await that matters. -/
def initializeStorage (c : Background) (expired : Bool) (inputs : Inputs) : Background × Point :=
  let c := { c with
    initialization := .running
    hasPassword := c.vaultData.isSome
    session := if expired then none else c.session }
  match c.session, c.vaultData with
  | some key, some blob => (c, .restoring blob key inputs)
  | _, _ => ({ c with initialization := .done }, .done)

/-- Up to the first await. -/
def Call.begin (c : Background) : Call → Background × Point
  | .message sender request inputs => (c, .arrived sender request inputs)
  | .start expired inputs =>
    if c.initialization = .notStarted then initializeStorage c expired inputs else (c, .done)
  | .idleAlarm expired => if c.isLocked then (c, .done) else (c, .checkingIdle expired)
  | .windowRemoved windowId => (c.handleWindowClosed windowId, .done)
  | .timeout owner => (c.reject owner (lit "Approval timed out"), .done)

end worker

/-- The call is a message, whose sender waits for a response. -/
def Call.isMessage : Call → Bool
  | message _ _ _ => true
  | _ => false

/-- The password of the message may unlock the vault. -/
def Request.mayUnlock : Request → Bool
  | setupPassword _ | unlock _ | importKeys _ _ _ => true
  | _ => false

def Call.mayUnlock : Call → Bool
  | message _ request _ => request.mayUnlock
  | _ => false

structure ExtensionTask where
  caller : Caller
  isMessage : Bool
  point : Point

def extension (prim : ExtensionPrimitives) : Program Background ExtensionTask Call where
  call n call c :=
    let out := Call.begin c call
    (out.1, ⟨⟨n, call.mayUnlock, c.locks⟩, call.isMessage, out.2⟩)
  resume t c := (Point.resume prim t.caller c t.point).map fun out => (out.1, { t with point := out.2 })
  restart := Background.restart

/-! ## A worker with one account -/

def samplePrimitives : ExtensionPrimitives where
  parseJson _ := none
  decryptVault _ _ := .error "Incorrect password or corrupted data"
  suites := Client.sampleSuites
  deriveKey password kdf := password ++ kdf
  sha384Hex := id
  vaultPasswordProblem _ := none
  isDevOrigin _ := false
  isAllowedTrustedOrigin _ := true
  allowsDevAutoSign := false
  decryptMessage _ envelope := envelope.toText
  unwrapSessionKey _ envelope := envelope.toText
  isPublicKey _ := none
  isSessionKey _ := false

def sampleInputs : Inputs where
  now := Client.Number.zero
  kdf := []
  random := []
  account := Client.sampleAccount "new" []
  keyPair := ⟨[], []⟩
  focuses := true
  window := some 1
  revoked := []
  hostPermission := true
  stores := true

def samplePassword : Text := lit "password"

def sampleOrigin : Text := lit "https://app.example"

/-- Alice, whose site is connected. -/
def sampleVault : ExtensionVault where
  accounts := [Client.sampleAccount "old" []]
  activeAccountId := some (Client.sampleAccount "old" []).id
  permissions := [sampleOrigin]
  autoSignSites := []

/-- An initialized worker, locked, with the vault stored. -/
def sampleLocked : Background where
  isLocked := true
  hasPassword := true
  vault := none
  vaultKey := none
  pendingRequests := []
  pendingRotation := none
  popupWindowId := none
  approvalWindowId := none
  initialization := .done
  vaultData := some ⟨[], samplePassword, some sampleVault⟩
  session := none
  locks := 0
  since := ⟨⟨0, true, 0⟩, ⟨0, true, 0⟩, ⟨0, true, 0⟩, ⟨0, true, 0⟩⟩
  responses := []
  releases := []
  handling := []
  sealings := []
  stored := []

/-- The same worker, unlocked. -/
def sampleUnlocked : Background :=
  { sampleLocked with
    isLocked := false
    vault := some sampleVault
    vaultKey := some (samplePassword, []) }

/-- A message of the extension's own pages. -/
def ownMessage (request : Request) : Action Call := .call (.message ⟨true, none⟩ request sampleInputs)

/-- A message of the connected site. -/
def siteMessage (request : Request) : Action Call :=
  .call (.message ⟨false, some sampleOrigin⟩ request sampleInputs)

end Kryptolog.Extension
