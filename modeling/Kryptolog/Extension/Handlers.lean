import Kryptolog.Extension.Background

/-! # The handlers of the extension

`trustkeys/src/background`: the dispatch of `index.js`, and what each handler does between its
awaits. What comes from outside a handler (the clock, fresh keys, what the browser answers) is
given with the message.

A handler that runs on approval is a part of the message that approved it: what it throws is
caught by nobody.
-/

namespace Kryptolog.Extension
set_option autoImplicit false

open Script Fallible Tasks
open Client (Account KeyPair Kdf VaultKey VaultPrimitives given SigningContext domainSeparate
  loginChallengeBody accountDeletionBody conversationEraseBody multisigApprovalMessage
  encryptionKeyAttestationBody)

structure ExtensionPrimitives extends VaultPrimitives where
  sha384Hex : String → String
  vaultPasswordProblem : Text → Option Text
  isDevOrigin : Text → Bool
  isAllowedTrustedOrigin : Text → Bool
  /-- `__TRUSTKEYS_ALLOW_DEV_AUTOSIGN__`. -/
  allowsDevAutoSign : Bool
  /-- `decryptMessage` and `unwrapSessionKey` under a seed. -/
  decryptMessage : Text → Value → Option Text
  unwrapSessionKey : Text → Value → Option Text
  /-- A public key that can be encrypted to, and a session key that can be wrapped. -/
  isPublicKey : Value → Option Text
  isSessionKey : Value → Bool

structure Sender where
  /-- `isInternalSender`. -/
  isInternal : Bool
  /-- `getSenderOrigin`. -/
  origin : Option Text

/-- What a handler gets from outside. -/
structure Inputs where
  now : Number
  kdf : Kdf
  random : Text
  account : Account
  keyPair : KeyPair
  /-- The tracked window could be focused. -/
  focuses : Bool
  /-- The window that was created. -/
  window : Option ℕ
  /-- The origins whose host permission is gone. -/
  revoked : List Text
  hostPermission : Bool
  /-- The write to `chrome.storage.local` succeeds. -/
  stores : Bool

inductive Request
  -- of the extension's own pages
  /-- The requests that change nothing. -/
  | inspect
  | setupPassword (password : Text)
  | unlock (password : Text)
  | lock
  | destroyRetiredEncryptionKey (kid : Text)
  | resolveRequest (requestId : ℕ) (approved : Bool)
  | addTrustedSite (origin : Text)
  | removeTrustedSite (origin : Text)
  | setSiteAutoSign (origin : Text) (enabled : Bool)
  /-- `trustTabOrigin`, for a tab that the popup has named. -/
  | authorizeCurrentTab (origin : Text)
  | createAccount
  | setActiveAccount (id : Text)
  | deleteAccount (id : Text)
  | importKeys (vaultObj : Value) (password passphrase : Option Text)
  -- of pages
  | checkConnection
  | handshake
  | connect
  | getActiveAccount
  | sign (message : Option Value)
  | signLogin (nonce deployment : Value)
  | signAccountDeletion (nonce mode redactionKeys deployment : Value)
  | signConversationErase (nonce kind conversation redactionKeys deployment : Value)
  | signMultisigApproval (workflowId secretId ciphertextSha384 : Value)
  | rotateEncryptionKey (ts : Value)
  | revertEncryptionKeyRotation (newKid : Value)
  | signMessage (message : Option Value)
  | getKeyAttestation
  | encrypt (message publicKey : Option Value)
  | decrypt (data : Value)
  | generateSessionKey
  | wrapSessionKey (sessionKey publicKey : Value)
  | unwrapSessionKey (wrappedKey : Value)
  | decryptMany (items : Option Value)
  | unwrapManySessionKeys (wrappedKeys : Option Value)
  | unknown (type : Text)

/-- The flag `internal`. -/
def Request.isInternal : Request → Bool
  | inspect | setupPassword _ | unlock _ | lock | destroyRetiredEncryptionKey _ | resolveRequest _ _
  | addTrustedSite _ | removeTrustedSite _ | setSiteAutoSign _ _ | authorizeCurrentTab _
  | createAccount | setActiveAccount _ | deleteAccount _ | importKeys _ _ _ => true
  | _ => false

/-! ## Where a message waits -/

/-- What the vault is unlocked for. -/
inductive Unlocking
  | unlock
  | setUp

/-- What `syncDynamicScripts` is a part of. -/
inductive Syncing
  | unlock
  | initialization

/-- What follows a save. -/
inductive After
  | respond (r : Response)
  | setUp (password : Text) (inputs : Inputs)
  | imported
  | synced (what : Syncing)
  | connected (p : Pending)
  | rotated (p : Pending) (active rotated : Account) (ts : Number) (now : Number)

inductive Point
  | arrived (sender : Sender) (request : Request) (inputs : Inputs)
  | focusingPopup (window : Option ℕ) (focuses : Bool)
  | creatingPopup (window : Option ℕ)
  | focusing (window : Option ℕ) (focuses : Bool)
  | creating (window : Option ℕ)
  | unlocking (what : Unlocking) (password : Text) (blob : StoredVault) (inputs : Inputs)
  | opened (what : Unlocking) (inputs : Inputs)
  | persisted (what : Unlocking) (inputs : Inputs)
  | syncing (what : Syncing) (origins : List Text) (changed : Bool) (inputs : Inputs)
  | restoring (blob : StoredVault) (key : VaultKey × Kdf) (inputs : Inputs)
  | clearing
  | checkingIdle (expired : Bool)
  | decryptingImport (data : Except Text (ExtensionVault)) (password : Option Text) (inputs : Inputs)
  | rederiving (after : After) (password : Text) (inputs : Inputs)
  | sealing (after : After) (sealed : StoredVault) (fresh stores : Bool)
  | stored (after : After) (key : Option (VaultKey × Kdf))
  | adopting (after : After) (key : VaultKey × Kdf)
  | saved (after : After)
  | checkingHost (origin : Text) (inputs : Inputs)
  | answering (r : Response)
  /-- For a signature that needs no window. -/
  | signing (sender : Sender) (grounds : Grounds) (account : Account) (body : Text)
  /-- In the handler of a request that was approved. -/
  | signingApproved (p : Pending) (account : Account) (body : Text)
  | revealing (p : Pending) (account : Account) (outcome : Option Response)
  | attesting (p : Pending) (account rotated : Account) (ts : Number)
  | done

/-- An operation has ended, and `r` is its response. -/
def answer (c : Background) (owner : ℕ) (r : Response) : Background × Point := (c.respond owner r, .done)

/-- The error is caught by the dispatcher. -/
def throw (c : Background) (owner : ℕ) (error : String) : Background × Point :=
  answer c owner (.failed (lit error))

/-- A member of `null` is read. -/
def typeError : String := "Cannot read properties of null"

/-! ## Saving -/

/-- The vault in memory is sealed. -/
def sealVault (c : Background) (owner : ℕ) (after : After) (removes : Option Removal)
    (key : VaultKey × Kdf) (fresh stores : Bool) : Background × Point :=
  ({ c with sealings := c.sealings ++ [⟨owner, removes, c.vault⟩] },
    .sealing after ⟨key.2, key.1, c.vault⟩ fresh stores)

/-- `saveVaultWithSessionKey`, up to its first await. -/
def saveVaultWithSessionKey (c : Background) (owner : ℕ) (after : After) (removes : Option Removal)
    (inputs : Inputs) : Except String (Background × Point) :=
  match c.vault, c.vaultKey with
  | none, _ => .ok (c, .saved after)
  | some _, none => .error "Vault is locked"
  | some _, some key => .ok (sealVault c owner after removes key false inputs.stores)

/-- A save whose errors the dispatcher catches. -/
def saveAndRespond (c : Background) (owner : ℕ) (r : Response) (removes : Option Removal)
    (inputs : Inputs) : Background × Point :=
  match saveVaultWithSessionKey c owner (.respond r) removes inputs with
  | .error e => throw c owner e
  | .ok out => out

/-- The save of a handler, whose errors nothing catches. -/
def saveInHandler (c : Background) (by_ : ℕ) (p : Pending) (after : After) (inputs : Inputs) :
    Background × Point :=
  match saveVaultWithSessionKey c by_ after none inputs with
  | .error _ => (c.endHandler p by_ none, .done)
  | .ok out => out

/-! ## Windows and approvals -/

/-- `openTrackedWindow` for the approval window. -/
def openApprovalWindow (c : Background) (inputs : Inputs) : Background × Point :=
  match c.approvalWindowId with
  | some _ => (c, .focusing inputs.window inputs.focuses)
  | none => (c, .creating inputs.window)

def requestApproval (c : Background) (owner : ℕ) (origin : Text) (approval : Approval)
    (inputs : Inputs) : Background × Point :=
  if maxPendingTotal ≤ c.pendingRequests.length then
    throw c owner "Too many approval requests are already waiting"
  else if maxPendingPerOrigin ≤ c.pendingForOrigin origin then
    answer c owner (.failed (lit "Too many pending approvals for " ++ origin))
  else
    openApprovalWindow { c with pendingRequests := c.pendingRequests ++ [⟨owner, origin, approval⟩] }
      inputs

section handlers

variable (prim : ExtensionPrimitives)

/-- The text of a message to be signed: `TextEncoder` reads `undefined` as no text. -/
def messageText : Option Value → Option Text
  | none => some []
  | some v => v.toText

/-- `encryptionSeedFor`. -/
def encryptionSeedFor (account : Account) (envelope : Value) : Option Text :=
  match envelope.get "kid" with
  | some (.str kid) => (Client.encryptionKeyFor account kid).map (·.seed)
  | _ => none

/-- The items of a batch, each opened or `null`. -/
def openEach (account : Account) (open_ : Text → Value → Option Text) : Option Value → Response
  | some (.arr items) =>
    .decryptedMany (items.map fun item => (encryptionSeedFor account item).bind fun seed => open_ seed item)
  | _ => .failed (lit "Invalid input")

/-- `onApprove`, up to its first await. The request is in the queue no more. -/
def onApprove (c : Background) (by_ : ℕ) (p : Pending) (inputs : Inputs) : Background × Point :=
  match c.vault with
  | none => (c.endHandler p by_ none, .done)
  | some v =>
    match p.approval with
    | .connect => saveInHandler (c.setVault (v.permit p.origin)) by_ p (.connected p) inputs
    | .sign _ _ body =>
      match v.activeAccount with
      | none => (c.endHandler p by_ (some (.failed (lit "No active account"))), .done)
      | some active =>
        match messageText body with
        | none => (c.endHandler p by_ none, .done)
        | some text => (c, .signingApproved p active text)
    | .decrypt data =>
      match v.activeAccount with
      | none => (c.endHandler p by_ (some (.failed (lit "No active account"))), .done)
      | some active =>
        match encryptionSeedFor active data with
        | none => (c.endHandler p by_ none, .done)
        | some seed => (c, .revealing p active ((prim.decryptMessage seed data).map .decrypted))
    | .unwrapSessionKey wrappedKey =>
      match v.activeAccount with
      | none => (c.endHandler p by_ (some (.failed (lit "No active account"))), .done)
      | some active =>
        match encryptionSeedFor active wrappedKey with
        | none => (c.endHandler p by_ (some (.failed (lit "Unwrap failed"))), .done)
        | some seed =>
          (c, .revealing p active
            (some ((prim.unwrapSessionKey seed wrappedKey).elim (.failed (lit "Unwrap failed")) .decrypted)))
    | .decryptMany items =>
      match v.activeAccount with
      | none => (c.endHandler p by_ (some (.failed (lit "No active account"))), .done)
      | some active => (c, .revealing p active (some (openEach active prim.decryptMessage items)))
    | .unwrapManySessionKeys wrappedKeys =>
      match v.activeAccount with
      | none => (c.endHandler p by_ (some (.failed (lit "No active account"))), .done)
      | some active => (c, .revealing p active (some (openEach active prim.unwrapSessionKey wrappedKeys)))
    | .rotate shown ts fresh =>
      match v.activeAccount with
      | none => (c.endHandler p by_ (some (.failed (lit "The active account changed"))), .done)
      | some active =>
        if active.id = shown.id then
          match Client.rotateAccountEncryptionKey prim.suites fresh ts active with
          | .error _ => (c.endHandler p by_ none, .done)
          | .ok rotated =>
            saveInHandler (c.setVault (v.replaceAccount rotated)) by_ p
              (.rotated p active rotated ts inputs.now) inputs
        else (c.endHandler p by_ (some (.failed (lit "The active account changed"))), .done)

/-- `settleApproval`, with the response to the message that settles. -/
def settleApproval (c : Background) (by_ requestId : ℕ) (approved : Bool) (inputs : Inputs) :
    Background × Point :=
  match c.pending requestId with
  | none => answer c by_ .success
  | some p =>
    if approved then onApprove prim ((c.startHandler p by_).respond by_ .success) by_ p inputs
    else answer (c.reject p.owner (lit "Rejected")) by_ .success

/-! ## Signing -/

/-- `CONTEXT_PREFIX`. -/
def contextPrefix : Text := lit "Kryptolog Signed Message v1\ncontext="

/-- `contextOf`: the context of a text that begins as a signed body. -/
def contextOf : Option Value → Option Text
  | some (.str s) =>
    if contextPrefix.isPrefixOf s then
      some ((s.drop contextPrefix.length).takeWhile (· != .char '\n'))
    else none
  | _ => none

/-- `MESSAGE_SIGNING_PREFIX`. -/
def messageSigningPrefix : Text := domainSeparate SigningContext.message.text []

def isMessageBody : Option Value → Bool
  | some (.str s) => messageSigningPrefix.isPrefixOf s
  | _ => false

/-- A page may go on, with its origin and the active account. -/
def requireConnectedAccount (c : Background) (sender : Sender) : Except String (Text × Account) :=
  match sender.origin, c.vault with
  | none, _ => .error "Site not connected"
  | some _, none => .error typeError
  | some origin, some v =>
    if !v.permissions.contains origin then .error "Site not connected"
    else
      match v.activeAccount with
      | none => .error "No active account"
      | some account => .ok (origin, account)

def requestSignature (c : Background) (owner : ℕ) (sender : Sender) (kind : SignKind)
    (body : Option Value) (inputs : Inputs) : Background × Point :=
  match requireConnectedAccount c sender with
  | .error e => throw c owner e
  | .ok (origin, account) => requestApproval c owner origin (.sign kind account body) inputs

/-- A body that was built, or the error of its builder. -/
def requestBuilt (c : Background) (owner : ℕ) (sender : Sender) (kind : SignKind)
    (body : Except String Text) (inputs : Inputs) : Background × Point :=
  match body with
  | .error e => throw c owner e
  | .ok text => requestSignature c owner sender kind (some (.str text)) inputs

/-- `requireActiveAccount`. -/
def requireActiveAccount (c : Background) : Except String Account :=
  match c.vault with
  | none => .error typeError
  | some v =>
    match v.activeAccount with
    | none => .error "No active account"
    | some account => .ok account

def originValue (sender : Sender) : Value := sender.origin.elim .null .str

/-- A key of a redaction list: `REDACTION_KEY.test`, on the text of the entry. -/
def isRedactionKey (v : Value) : Bool :=
  match v.toText with
  | none => false
  | some s =>
    let rest (head : Text) : Bool :=
      head.isPrefixOf s && 1 ≤ (s.drop head.length).length && (s.drop head.length).length ≤ 20 &&
        Text.consistsOf Char.isDigit (s.drop head.length)
    rest (lit "dm:") || rest (lit "group:")

def redactionList (redactionKeys : Value) : Except String (List Value) :=
  match redactionKeys with
  | .null => .ok []
  | .arr keys =>
    if keys.length ≤ 1000 && keys.all isRedactionKey then .ok keys else .error "Invalid redaction list"
  | _ => .error "Invalid redaction list"

def handleSign (c : Background) (owner : ℕ) (sender : Sender) (message : Option Value)
    (inputs : Inputs) : Background × Point :=
  if c.isLocked then throw c owner "Locked"
  else if sender.isInternal then
    match requireActiveAccount c with
    | .error e => throw c owner e
    | .ok account =>
      match messageText message with
      | none => throw c owner "Cannot convert object to primitive value"
      | some text => (c, .answering (.signature account.identity.seed text))
  else
    match contextOf message with
    | none => requestSignature c owner sender .text message inputs
    | some context =>
      if context = SigningContext.content.text then
        requestSignature c owner sender .content message inputs
      else
        answer c owner (.failed (lit "TrustKeys does not sign \"" ++ context ++
          lit "\" bodies through sign(); use the dedicated API"))

def handleSignLogin (c : Background) (owner : ℕ) (sender : Sender) (nonce deployment : Value)
    (inputs : Inputs) : Background × Point :=
  if c.isLocked then throw c owner "Locked"
  else
    match requireActiveAccount c with
    | .error e => throw c owner e
    | .ok account =>
      requestBuilt c owner sender .login
        (loginChallengeBody nonce (originValue sender) deployment (.str account.encryption.publicKey)) inputs

def handleSignAccountDeletion (c : Background) (owner : ℕ) (sender : Sender)
    (nonce mode redactionKeys deployment : Value) (inputs : Inputs) : Background × Point :=
  if c.isLocked then throw c owner "Locked"
  else
    match redactionList redactionKeys with
    | .error e => throw c owner e
    | .ok keys =>
      match accountDeletionBody prim.sha384Hex nonce mode keys (originValue sender) deployment with
      | .error e => throw c owner e
      | .ok body =>
        -- the address that the window shows is read before the origin is checked
        match requireActiveAccount c with
        | .error e => throw c owner e
        | .ok _ => requestSignature c owner sender .accountDeletion (some (.str body)) inputs

def handleSignConversationErase (c : Background) (owner : ℕ) (sender : Sender)
    (nonce kind conversation redactionKeys deployment : Value) (inputs : Inputs) : Background × Point :=
  if c.isLocked then throw c owner "Locked"
  else
    match redactionList redactionKeys with
    | .error e => throw c owner e
    | .ok keys =>
      requestBuilt c owner sender .conversationErase
        (conversationEraseBody prim.sha384Hex nonce kind conversation keys (originValue sender) deployment)
        inputs

def isSafeInteger : Value → Bool
  | .num n => n.isSafeInteger
  | _ => false

def handleSignMultisigApproval (c : Background) (owner : ℕ) (sender : Sender)
    (workflowId secretId ciphertextSha384 : Value) (inputs : Inputs) : Background × Point :=
  if c.isLocked then throw c owner "Locked"
  else if !isSafeInteger workflowId || !isSafeInteger secretId ||
      !Client.isString (Client.isHexOfLength 96) ciphertextSha384 then
    throw c owner "Invalid workflow approval request"
  else
    requestBuilt c owner sender .multisigApproval
      (multisigApprovalMessage workflowId secretId ciphertextSha384) inputs

def handleSignMessage (c : Background) (owner : ℕ) (sender : Sender) (message : Option Value)
    (inputs : Inputs) : Background × Point :=
  if c.isLocked then throw c owner "Locked"
  else
    match message with
    | some (.str body) =>
      if !messageSigningPrefix.isPrefixOf body then
        throw c owner "signMessage only signs message-context payloads"
      else
        match c.vault with
        | none =>
          throw c owner (if !sender.isInternal && sender.origin.isNone then "Site not connected" else typeError)
        | some v =>
          let connected := sender.origin.any fun origin => v.permissions.contains origin
          if !sender.isInternal && !connected then throw c owner "Site not connected"
          else
            let granted := sender.origin.any fun origin => v.autoSignSites.contains origin
            let devAutoSign := prim.allowsDevAutoSign && sender.origin.any prim.isDevOrigin
            if sender.isInternal || devAutoSign || granted then
              match v.activeAccount with
              | none => throw c owner "No active account"
              | some account => (c, .signing sender (.autoSigned granted) account body)
            else requestSignature c owner sender .message (some (.str body)) inputs
    | _ => throw c owner "signMessage only signs message-context payloads"

/-- What a page may see of the active account, once its origin is connected. -/
def requireShownAccount (c : Background) (sender : Sender) (error : String) : Except String Account :=
  match c.vault with
  | none => .error typeError
  | some v =>
    if !sender.isInternal && !(sender.origin.any fun origin => v.permissions.contains origin) then
      .error error
    else requireActiveAccount c

def handleGetActiveAccount (c : Background) (owner : ℕ) (sender : Sender) : Background × Point :=
  if !sender.isInternal && sender.origin.isNone then throw c owner "Unknown sender origin"
  else if c.isLocked then throw c owner "Locked"
  else
    match requireShownAccount c sender "Not Connected" with
    | .error e => throw c owner e
    | .ok account => answer c owner
      (.account account.name account.id account.identity.publicKey account.encryption.publicKey)

def handleGetKeyAttestation (c : Background) (owner : ℕ) (sender : Sender) : Background × Point :=
  if !sender.isInternal && sender.origin.isNone then throw c owner "Unknown sender origin"
  else if c.isLocked then throw c owner "Locked"
  else
    match requireShownAccount c sender "Site not connected" with
    | .error e => throw c owner e
    | .ok account =>
      match encryptionKeyAttestationBody (.str account.id) (.str account.encryption.publicKey) with
      | .error e => throw c owner e
      | .ok body => (c, .signing sender .attested account body)

/-! ## Encryption -/

/-- An encryption to a public key, or the error for a value that is none. -/
def encryptTo (c : Background) (owner : ℕ) (publicKey : Value) (plaintext : Option Value)
    (inputs : Inputs) : Background × Point :=
  match prim.isPublicKey publicKey with
  | none => throw c owner "Invalid public key"
  | some key => (c, .answering (.sealed key plaintext inputs.random))

def handleEncrypt (c : Background) (owner : ℕ) (message publicKey : Option Value) (inputs : Inputs) :
    Background × Point :=
  match publicKey.filter Value.truthy with
  | some key => encryptTo prim c owner key message inputs
  | none =>
    if c.isLocked then throw c owner "Locked"
    else
      match requireActiveAccount c with
      | .error e => throw c owner e
      | .ok account => encryptTo prim c owner (.str account.encryption.publicKey) message inputs

def handleWrapSessionKey (c : Background) (owner : ℕ) (sessionKey publicKey : Value) (inputs : Inputs) :
    Background × Point :=
  if !sessionKey.truthy || !publicKey.truthy then throw c owner "Missing sessionKey or publicKey"
  else if !prim.isSessionKey sessionKey then throw c owner "Invalid session key"
  else encryptTo prim c owner publicKey (some sessionKey) inputs

/-- The requests to open something, each with its window. -/
def handleOpen (c : Background) (owner : ℕ) (sender : Sender) (approval : Approval) (inputs : Inputs) :
    Background × Point :=
  if c.isLocked then throw c owner "Locked"
  else
    match sender.origin, c.vault with
    | none, _ => throw c owner "Site not connected"
    | some _, none => throw c owner typeError
    | some origin, some v =>
      if !v.permissions.contains origin then throw c owner "Site not connected"
      else requestApproval c owner origin approval inputs

/-! ## Rotation -/

/-- `UNDO_WINDOW_MS` and `CLOCK_SKEW_MS`. -/
def undoWindowMs : ℕ := 5 * 60 * 1000

def clockSkewMs : ℕ := 10 * 60 * 1000

/-- The milliseconds of a date. -/
def millis (n : Number) : ℕ := Number.digitsValue n.spelling

/-- `Number.isSafeInteger(ts) && ts >= 0`, and not far from the clock. -/
def isRotationTime (now : Number) (ts : Value) : Option Number :=
  match ts with
  | .num n =>
    if n.isCount && millis now ≤ millis n + clockSkewMs && millis n ≤ millis now + clockSkewMs then some n
    else none
  | _ => none

def handleRotateEncryptionKey (c : Background) (owner : ℕ) (sender : Sender) (ts : Value)
    (inputs : Inputs) : Background × Point :=
  if c.isLocked then throw c owner "Locked"
  else
    match sender.origin, c.vault with
    | none, _ => throw c owner "Site not connected"
    | some _, none => throw c owner typeError
    | some origin, some v =>
      if !v.permissions.contains origin then throw c owner "Site not connected"
      else
        match isRotationTime inputs.now ts with
        | none => throw c owner "Invalid rotation timestamp"
        | some n =>
          match v.activeAccount with
          | none => throw c owner "No active account"
          | some account => requestApproval c owner origin (.rotate account n inputs.keyPair) inputs

/-- The rotation of this origin that may still be undone. -/
def undoable (c : Background) (origin : Text) (newKid : Value) (now : Number) : Bool :=
  c.pendingRotation.any fun pending =>
    pending.origin == origin && Client.isString (· == pending.newKid) newKid &&
      millis now ≤ pending.since + undoWindowMs

/-- `replaceActive`, with the account that a change makes of the active one. -/
def replaceActive (c : Background) (owner : ℕ) (change : Account → Except String Account)
    (removes : Account → Option Removal) (inputs : Inputs) : Background × Point :=
  match c.vault, requireActiveAccount c with
  | none, _ => throw c owner typeError
  | some _, .error e => throw c owner e
  | some v, .ok account =>
    match change account with
    | .error e => throw c owner e
    | .ok changed =>
      saveAndRespond (c.setVault (v.replaceAccount changed)) owner .success (removes account) inputs

def handleRevertEncryptionKeyRotation (c : Background) (owner : ℕ) (sender : Sender) (newKid : Value)
    (inputs : Inputs) : Background × Point :=
  match sender.origin with
  | none => throw c owner "Unknown sender origin"
  | some origin =>
    if c.isLocked then throw c owner "Locked"
    else if undoable c origin newKid inputs.now then
      match newKid with
      | .str kid =>
        replaceActive { c with pendingRotation := none } owner
          (fun a => Client.revertAccountEncryptionKeyRotation a kid inputs.now) (fun _ => none) inputs
      | _ => throw c owner "There is no rotation from this site to undo"
    else throw c owner "There is no rotation from this site to undo"

def handleDestroyRetiredEncryptionKey (c : Background) (owner : ℕ) (kid : Text) (inputs : Inputs) :
    Background × Point :=
  if c.isLocked then throw c owner "Locked"
  else
    replaceActive c owner (fun a => Client.destroyRetiredEncryptionKey a kid)
      (fun a => some (.key a.id kid)) inputs

/-! ## Connections -/

def handleCheckConnection (c : Background) (owner : ℕ) (sender : Sender) : Background × Point :=
  if c.isLocked then answer c owner (.connection false true)
  else
    match c.vault with
    | none => throw c owner typeError
    | some v => answer c owner
      (.connection (sender.origin.any fun origin => v.permissions.contains origin) false)

def handleConnect (c : Background) (owner : ℕ) (sender : Sender) (inputs : Inputs) : Background × Point :=
  match sender.origin with
  | none => throw c owner "Unknown sender origin"
  | some origin =>
    if c.isLocked then
      match c.popupWindowId with
      | some _ => (c, .focusingPopup inputs.window inputs.focuses)
      | none => (c, .creatingPopup inputs.window)
    else
      match c.vault with
      | none => throw c owner typeError
      | some v =>
        if v.permissions.contains origin then answer c owner .success
        else requestApproval c owner origin .connect inputs

/-- A site is trusted, once it is known to be allowed. -/
def trustSite (c : Background) (owner : ℕ) (origin : Text) (inputs : Inputs) : Background × Point :=
  match c.vault with
  | none => throw c owner typeError
  | some v => saveAndRespond (c.setVault (v.permit origin)) owner .success none inputs

/-- `handleAddTrustedSite`, up to its first await. -/
def handleAddTrustedSite (c : Background) (owner : ℕ) (origin : Text) (inputs : Inputs) :
    Background × Point :=
  if origin.isEmpty then throw c owner "Origin required"
  else if c.isLocked then throw c owner "Vault is locked"
  else if !prim.isAllowedTrustedOrigin origin then throw c owner "Only HTTPS sites can be trusted"
  else if prim.isDevOrigin origin then trustSite c owner origin inputs
  else (c, .checkingHost origin inputs)

def handleRemoveTrustedSite (c : Background) (owner : ℕ) (origin : Text) (inputs : Inputs) :
    Background × Point :=
  if origin.isEmpty then throw c owner "Origin required"
  else if c.isLocked then throw c owner "Vault is locked"
  else if prim.isDevOrigin origin then throw c owner "Cannot remove dev default origins"
  else
    match c.vault with
    | none => throw c owner typeError
    | some v => saveAndRespond (c.setVault (v.withdraw origin)) owner .success none inputs

def handleSetSiteAutoSign (c : Background) (owner : ℕ) (origin : Text) (enabled : Bool)
    (inputs : Inputs) : Background × Point :=
  if c.isLocked then throw c owner "Vault is locked"
  else
    match c.vault with
    | none => throw c owner (if origin.isEmpty then "Unknown site" else typeError)
    | some v =>
      if origin.isEmpty || !v.permissions.contains origin then throw c owner "Unknown site"
      else saveAndRespond (c.setVault (v.setAutoSign origin enabled)) owner .success none inputs

/-! ## Accounts -/

/-- A change of the vault that its owner makes. -/
def changeVault (c : Background) (owner : ℕ) (removes : Option Removal)
    (change : ExtensionVault → Option ExtensionVault) (inputs : Inputs) : Background × Point :=
  if c.isLocked then throw c owner "Locked"
  else
    match c.vault with
    | none => throw c owner typeError
    | some v =>
      match change v with
      | none => throw c owner "Account not found"
      | some v' => saveAndRespond (c.setVault v') owner .success removes inputs

/-- The accounts of a backup, with what the file says beside them. -/
def vaultOfBackup (data : Value) (accounts : List Account) : ExtensionVault where
  accounts := accounts
  activeAccountId :=
    match data.get "activeAccountId" with
    | some (.str id) => some id
    | _ => none
  permissions := grants (data.get "permissions")
  autoSignSites := grants (data.get "autoSignSites")
where
  grants : Option Value → List Text
    | some (.obj fields) => (fields.filter fun f => f.2.truthy).map (·.1)
    | _ => []

/-- The imported vault is merged into the one in memory, or takes its place where there is none. -/
def mergeImport (c : Background) (caller : Caller) (imported : ExtensionVault) : Background :=
  match c.vault with
  | none => { c with vault := some imported, since := { c.since with vault := caller } }
  | some v => c.setVault (v.addImported imported.accounts)

/-- `importVault` once the backup is decrypted: up to the next await. -/
def finishImport (c : Background) (caller : Caller) (data : Except Text ExtensionVault)
    (password : Option Text) (inputs : Inputs) : Background × Point :=
  match data with
  | .error e => answer c caller.number (.failed e)
  | .ok imported =>
    let c := { (mergeImport c caller imported).markUnlocked caller with
      hasPassword := true }
    match given password with
    | some secret => (c, .rederiving .imported secret inputs)
    | none =>
      match saveVaultWithSessionKey c caller.number .imported none inputs with
      | .error e => throw c caller.number e
      | .ok out => out

/-- The accounts that a decrypted backup holds, each parsed. -/
def readBackup (now : Number) (data : Value) : Except Text ExtensionVault :=
  match Client.accountsOf data with
  | none => .error (lit "Invalid vault data: missing accounts")
  | some raw =>
    match raw.mapM (Client.parseAccount prim.suites now) with
    | .error e => .error (lit e)
    | .ok accounts => .ok (vaultOfBackup data accounts)

def handleImportKeys (c : Background) (caller : Caller) (vaultObj : Value)
    (password passphrase : Option Text) (inputs : Inputs) : Background × Point :=
  if !vaultObj.truthy then throw c caller.number "No vault data received"
  else if (given password).isNone && c.isLocked then throw c caller.number "Session locked"
  else if c.isLocked then throw c caller.number "Locked"
  else if c.vault.isNone then throw c caller.number typeError
  else
    let parsed := match vaultObj with
      | .str text => prim.parseJson text
      | other => some other
    match parsed with
    | none => throw c caller.number "Invalid import format (not JSON)"
    | some data =>
      if (Client.accountsOf data).isSome then
        finishImport c caller (readBackup prim inputs.now data) password inputs
      else
        match (given passphrase).or (given password) with
        | none => throw c caller.number "Backup passphrase required for encrypted .kvault file"
        | some secret =>
          (c, .decryptingImport
            (match prim.decryptVault data secret with
              | .error e => .error (lit e)
              | .ok data => readBackup prim inputs.now data) password inputs)

/-! ## Locking and unlocking -/

def handleSetupPassword (c : Background) (caller : Caller) (password : Text) (inputs : Inputs) :
    Background × Point :=
  if c.hasPassword then throw c caller.number "Password already set"
  else
    match prim.vaultPasswordProblem password with
    | some problem => answer c caller.number (.failed problem)
    | none =>
      ({ c with vault := some .empty, since := { c.since with vault := caller } },
        .rederiving (.setUp password inputs) password inputs)

/-- `unlock`, up to its first await that matters. -/
def startUnlock (c : Background) (owner : ℕ) (what : Unlocking) (password : Text) (inputs : Inputs) :
    Background × Point :=
  match c.vaultData with
  | none => throw c owner "No vault found"
  | some blob => (c, .unlocking what password blob inputs)

/-- `syncDynamicScripts` is over. -/
def endSync (c : Background) (owner : ℕ) (what : Syncing) : Background × Point :=
  match what with
  | .unlock => answer c owner (.unlocked true)
  | .initialization => ({ c with initialization := .done }, .done)

def failSync (c : Background) (owner : ℕ) (what : Syncing) (error : String) : Background × Point :=
  match what with
  | .unlock => throw c owner error
  | .initialization => ({ c with initialization := .failed }, .done)

/-- The origins whose host permission is asked for. -/
def startSync (c : Background) (owner : ℕ) (what : Syncing) (inputs : Inputs) : Background × Point :=
  match c.vault with
  | none => endSync c owner what
  | some v => (c, .syncing what (v.permissions.filter fun origin => !prim.isDevOrigin origin) false inputs)

end handlers

end Kryptolog.Extension
