import Kryptolog.Server.Secrets

/-! # The multisig endpoints

`routers/multisig.py`. A workflow is built around a new secret. Signers approve the SHA-384 of
its stored ciphertext, and the approval that reaches the quorum completes the workflow and
releases the recipients' keys in the same transaction.
-/

namespace Kryptolog.Server
set_option autoImplicit false

open Tables Json Fallible

def loadWorkflowOr404 (db : Database) (workflowId : ℕ) : Except Fault MultisigWorkflow :=
  match db.workflows.find? (·.id == workflowId) with
  | some w => .ok w
  | none => .error (.http 404 "Workflow not found")

/-- The signer rows of a workflow. -/
def signersOf (db : Database) (workflowId : ℕ) : List MultisigWorkflowSigner :=
  db.signers.where' (·.workflowId == workflowId)

/-- The recipient rows of a workflow. -/
def recipientsOf (db : Database) (workflowId : ℕ) : List MultisigWorkflowRecipient :=
  db.recipients.where' (·.workflowId == workflowId)

/-! ## Responses -/

/-- `MultisigWorkflowSummaryResponse`: a workflow without its secret's ciphertext. -/
structure MultisigWorkflowSummaryResponse where
  workflow : MultisigWorkflow
  secret : SecretSummaryResponse
  ownerEncryptedKey : Option Document
  signers : List MultisigWorkflowSigner
  recipients : List MultisigWorkflowRecipient

/-- `MultisigWorkflowResponse`: one workflow with its secret's ciphertext. -/
structure MultisigWorkflowResponse extends MultisigWorkflowSummaryResponse where
  encryptedData : String

def workflowSummary (db : Database) (w : MultisigWorkflow) (s : Secret)
    (secretKey ownerKey : Option Document) : MultisigWorkflowSummaryResponse :=
  ⟨w, s.summary secretKey, ownerKey, signersOf db w.id, recipientsOf db w.id⟩

/-- A workflow as the response model validates it, which needs its secret. -/
def workflowResponse (db : Database) (w : MultisigWorkflow) (secretKey ownerKey : Option Document) :
    Except Fault MultisigWorkflowResponse :=
  match db.secrets.find? (·.id == w.secretId) with
  | some s => .ok ⟨workflowSummary db w s secretKey ownerKey, s.encryptedData⟩
  | none => .error (.unhandled "ResponseValidationError")

/-! ## Creating -/

/-- Wrapped keys by address, as a request carries them. -/
abbrev KeyMap := List (String × Document)

/-- `{k.lower(): v for k, v in keys.items()}.get(a)`: of two spellings the later one counts. -/
def KeyMap.keyOf (keys : KeyMap) (a : Address) : Option Document :=
  (keys.reverse.find? fun entry => lower entry.1 == a).map (·.2)

structure MultisigWorkflowCreate where
  name : String
  secretData : SecretCreate
  signers : List String
  recipients : List String
  signerKeys : KeyMap
  recipientKeys : KeyMap
  threshold : ℕ

/-- `dict.fromkeys(a.lower() for a in …)`. -/
def normalizedAddresses (addresses : List String) : List Address := (addresses.map lower).eraseDups

/-- The row of a new workflow. -/
def newWorkflowRow (owner : Address) (secretId : ℕ) (req : MultisigWorkflowCreate) (id : ℕ) :
    MultisigWorkflow :=
  ⟨id, req.name, owner, secretId, .pending, some req.threshold, none, none⟩

/-- The rows of a new workflow around the secret that `createSecretWithOwnerGrant` made. -/
def insertWorkflow (db : Database) (owner : Address) (secretId : ℕ) (req : MultisigWorkflowCreate) :
    Database :=
  let id := db.workflows.next
  { db with
    workflows := db.workflows.insert (newWorkflowRow owner secretId req) (fun _ => rfl)
    signers := db.signers.insertAll
      (fun a rowId => ⟨rowId, id, a, false, none, none, req.signerKeys.keyOf a⟩)
      (fun _ _ => rfl) (normalizedAddresses req.signers)
    recipients := db.recipients.insertAll
      (fun a rowId => ⟨rowId, id, a, req.recipientKeys.keyOf a⟩)
      (fun _ _ => rfl) (normalizedAddresses req.recipients) }

/-- A new workflow with its secret. -/
def insertSecretAndWorkflow (db : Database) (now : Time) (owner : Address)
    (req : MultisigWorkflowCreate) : Database :=
  insertWorkflow (insertSecretWithOwnerGrant db now owner req.secretData) owner db.secrets.next req

def createMultisigWorkflow (cfg : Config) (db : Database) (now : Time) (caller : User)
    (req : MultisigWorkflowCreate) : Except Fault (Database × MultisigWorkflowResponse) := do
  let signers := normalizedAddresses req.signers
  let recipients := normalizedAddresses req.recipients
  refuseIf signers.isEmpty (.http 400 "At least one signer is required")
  refuseIf (req.threshold < 1 || signers.length < req.threshold)
    (.http 400 "threshold must be between 1 and the number of signers")
  refuseIf (signers.any fun a => (req.signerKeys.keyOf a).isNone)
    (.http 400 "Every signer needs a wrapped key")
  refuseIf ((signers ++ recipients).any fun a => (findActiveUser db a).isNone)
    (.http 400 "All signers and recipients must be registered users")
  let (db', secret) ← createSecretWithOwnerGrant cfg db now caller.address req.secretData
  let db'' := insertWorkflow db' caller.address secret.id req
  let w ← loadWorkflowOr404 db'' db'.workflows.next
  .ok (db'', ← workflowResponse db'' w (some req.secretData.encryptedKey) none)

/-! ## Signing -/

/-- The text a signer of the workflow approves, over the ciphertext of its secret. -/
def approvalMessage (prim : Primitives) (w : MultisigWorkflow) (s : Secret) : String :=
  multisigApprovalMessage w.id w.secretId (prim.sha384Hex s.encryptedData)

def verifyApproval (prim : Primitives) (db : Database) (w : MultisigWorkflow) (signer : User)
    (signature : String) : Except Fault Unit :=
  match db.secrets.find? (·.id == w.secretId) with
  | none => .error (.http 404 "Workflow secret not found")
  | some s => refuseIf
    (!prim.verifyIdentitySignature signer.identityPublicKey (approvalMessage prim w s) signature)
    (.http 400 "Invalid approval signature")

/-- How many signatures a workflow needs: its threshold, or every signer for a legacy row. -/
def quorum (db : Database) (w : MultisigWorkflow) : ℕ :=
  match w.threshold with
  | some (n + 1) => n + 1
  | _ => (signersOf db w.id).length

/-- The signer rows of a workflow that have signed. -/
def signedRows (db : Database) (w : MultisigWorkflow) : List MultisigWorkflowSigner :=
  (signersOf db w.id).filter (·.hasSigned)

def isCompletingSignature (db : Database) (w : MultisigWorkflow) : Bool :=
  quorum db w ≤ (signedRows db w).length + 1

def Option.holdsKey (key : Option Document) : Bool := key.any Document.truthy

def releaseRecipientKeys (db : Database) (w : MultisigWorkflow) (supplied : KeyMap) :
    Except Fault Database :=
  let rows := recipientsOf db w.id
  if rows.isEmpty then .ok db
  else if supplied.any fun entry => !rows.any (·.userAddress == lower entry.1) then
    .error (.http 400
      "Recipient keys supplied for addresses that are not recipients of this workflow")
  else
    let release (r : MultisigWorkflowRecipient) : MultisigWorkflowRecipient :=
      { r with encryptedKey := (supplied.keyOf r.userAddress).or r.encryptedKey }
    let missing := (rows.map release).filter fun r => !Option.holdsKey r.encryptedKey
    if missing.isEmpty then
      .ok { db with
        recipients := db.recipients.update (·.workflowId == w.id) release (fun _ => rfl) }
    else
      let names := (missing.map (·.userAddress.text)).insertionSort (· ≤ ·)
      .error (.http 400 ("Cannot complete: no encrypted key for recipient(s) " ++
        ", ".intercalate names ++
        ". Completing without them would release the secret to nobody and " ++
        "leave a workflow that can no longer be signed or deleted."))

structure MultisigSignatureRequest where
  signature : String
  recipientKeys : KeyMap

/-- The signer row with its signature recorded. -/
def MultisigWorkflowSigner.sign (s : MultisigWorkflowSigner) (signature : String) (now : Time) :
    MultisigWorkflowSigner :=
  { s with hasSigned := true, signature := some signature, signedAt := some now }

def recordSignature (db : Database) (signerId : ℕ) (signature : String) (now : Time) : Database :=
  { db with signers := db.signers.update (·.id == signerId) (·.sign signature now) (fun _ => rfl) }

def setStatus (db : Database) (workflowId : ℕ) (status : Status) : Database :=
  { db with
    workflows := db.workflows.update (·.id == workflowId) (fun w => { w with status := status })
      (fun _ => rfl) }

/-- The release and the status change, which ride the completing signature's transaction. -/
def completeWorkflow (db : Database) (w : MultisigWorkflow) (supplied : KeyMap) :
    Except Fault Database := do
  let released ← releaseRecipientKeys db w supplied
  .ok (setStatus released w.id .completed)

/-- What `/sign` and `/reject` both ask first: an open workflow that the caller signs. -/
def openForSigner (db : Database) (caller : User) (workflowId : ℕ) :
    Except Fault (MultisigWorkflow × MultisigWorkflowSigner) := do
  let w ← loadWorkflowOr404 db workflowId
  match findWorkflowSigner db w.id caller.address with
  | none => .error (.http 403 "You are not a signer for this workflow")
  | some signer =>
    if w.status != .pending then .error (.http 400 s!"Workflow is {w.status.text}")
    else .ok (w, signer)

def signMultisigWorkflow (prim : Primitives) (db : Database) (now : Time) (caller : User)
    (workflowId : ℕ) (req : MultisigSignatureRequest) :
    Except Fault (Database × MultisigWorkflowResponse) := do
  let (w, signer) ← openForSigner db caller workflowId
  refuseIf signer.hasSigned (.http 400 "Already signed")
  verifyApproval prim db w caller req.signature
  let completing := isCompletingSignature db w
  refuseIf (!req.recipientKeys.isEmpty && !completing)
    (.http 400 "Recipient keys may only be provided with the final signature")
  let signed := recordSignature db signer.id req.signature now
  let db' ← (if completing then completeWorkflow signed w req.recipientKeys else .ok signed)
  let w' ← loadWorkflowOr404 db' workflowId
  .ok (db', ← workflowResponse db' w' none none)

/-! ## Rejecting and deleting -/

def rejectMultisigWorkflow (db : Database) (now : Time) (caller : User) (workflowId : ℕ) :
    Except Fault (Database × MultisigWorkflowResponse) := do
  let (w, _) ← openForSigner db caller workflowId
  let db' := { db with
    workflows := db.workflows.update (·.id == w.id)
      (fun w => { w with
        status := .rejected, rejectedBy := some caller.address, rejectedAt := some now })
      (fun _ => rfl) }
  let w' ← loadWorkflowOr404 db' workflowId
  .ok (db', ← workflowResponse db' w' none none)

/-- The rows that go with a workflow: signers, recipients, the workflow, its secret. -/
def deleteWorkflowRows (db : Database) (w : MultisigWorkflow) : Database :=
  deleteSecretRows { db with
    signers := db.signers.delete (·.workflowId == w.id)
    recipients := db.recipients.delete (·.workflowId == w.id)
    workflows := db.workflows.delete (·.id == w.id) } w.secretId

def deleteMultisigWorkflow (db : Database) (caller : User) (workflowId : ℕ) :
    Except Fault Database := do
  let w ← loadWorkflowOr404 db workflowId
  refuseIf (!canDeleteWorkflow w caller.address)
    (.http 403 "Only the workflow owner may delete it")
  refuseIf (!workflowIsDeletable w) (.http 400 "Cannot delete a completed workflow")
  .ok (deleteWorkflowRows db w)

/-! ## Reading -/

/-- `list_multisig_workflows`: newest first. The owner's grant is added where the caller owns. -/
def listMultisigWorkflows (db : Database) (caller : User) (limit offset : ℕ) :
    List MultisigWorkflowSummaryResponse :=
  (page limit offset (readableWorkflows db caller.address).reverse).filterMap fun w =>
    (db.secrets.find? (·.id == w.secretId)).map fun s =>
      let grant := db.accessGrants.find? fun g =>
        g.secretId == s.id && g.granteeAddress == caller.address
      let key := if w.ownerAddress == caller.address then
        (grant.map (·.encryptedKey)).filter Document.truthy else none
      workflowSummary db w s key key

def getMultisigWorkflow (db : Database) (caller : User) (workflowId : ℕ) :
    Except Fault MultisigWorkflowResponse := do
  let w ← loadWorkflowOr404 db workflowId
  refuseIf (!canReadWorkflow db (some w) caller.address) (.http 403 "Not authorized")
  let grant := db.accessGrants.find? fun g =>
    g.secretId == w.secretId && g.granteeAddress == caller.address
  let key := grant.map (·.encryptedKey)
  workflowResponse db w key key

end Kryptolog.Server
