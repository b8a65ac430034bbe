import Kryptolog.Library.ReadCommitted
import Kryptolog.Server.Requests

/-! # The requests on workflows, statement by statement

`/sign`, `/reject`, the deletion of a workflow and the deletion of an account, each as the
transaction it runs: the `SELECT`s in their order, the `UPDATE`s and `DELETE`s where the code or
its flush issues them, and the row locks that these take. Sessions do not autoflush, so what an
endpoint sets on a loaded row is written at the commit, parents before children.

The statements on messages, groups and challenges are taken together where they follow each
other. No statement on a workflow reads or locks what they write.
-/

namespace Kryptolog.Server
set_option autoImplicit false

open Tables Json ReadCommitted

/-! ## Statements -/

/-- A row that a statement locks. -/
inductive RowKey
  | user (address : Address)
  | nonce (nonce : String)
  | secret (id : ℕ)
  | accessGrant (id : ℕ)
  | fileChunk (id : ℕ)
  | workflow (id : ℕ)
  | signer (id : ℕ)
  | recipient (id : ℕ)
  deriving DecidableEq

/-- What a statement changed, by the rows it took. -/
inductive Change
  | setStatus (workflowId : ℕ) (status : Status)
  | setRejected (workflowId : ℕ) (by' : Address) (at' : Time)
  | recordSignature (signerId : ℕ) (signature : String) (now : Time)
  | setKeys (workflowId : ℕ) (keys : List (ℕ × Document))
  | deleteSigners (ids : List ℕ)
  | deleteRecipients (rows : List MultisigWorkflowRecipient)
  | deleteGrants (ids : List ℕ)
  | deleteWorkflow (id : ℕ)
  | deleteChunks (ids : List ℕ)
  | deleteSecret (id : ℕ)
  | spendNonce (a : Address) (nonce : String)
  | redact (redactions : List Redaction)
  | deleteMessages (rows : List Carrier)
  | leaveGroups (a : Address)
  | deleteNonces (a : Address)
  | stripIdentity (a : Address) (mode : Mode) (now : Time)

/-- The recipient row with the key that was released to it. -/
def releaseKey (keys : List (ℕ × Document)) (r : MultisigWorkflowRecipient) :
    MultisigWorkflowRecipient :=
  { r with encryptedKey := (keys.lookup r.id).or r.encryptedKey }

def Change.apply (db : Database) : Change → Database
  | .setStatus id status => Kryptolog.Server.setStatus db id status
  | .setRejected id by' at' => { db with
      workflows := db.workflows.update (·.id == id)
        (fun w => { w with status := .rejected, rejectedBy := some by', rejectedAt := some at' })
        (fun _ => rfl) }
  | .recordSignature id signature now => Kryptolog.Server.recordSignature db id signature now
  | .setKeys id keys => { db with
      recipients := db.recipients.update (·.workflowId == id) (releaseKey keys) (fun _ => rfl) }
  | .deleteSigners ids => { db with signers := db.signers.delete fun r => ids.contains r.id }
  | .deleteRecipients rows => { db with
      recipients := db.recipients.delete fun r =>
        rows.any fun r₀ => r₀.id == r.id && r₀.workflowId == r.workflowId }
  | .deleteGrants ids => { db with accessGrants := db.accessGrants.delete fun g => ids.contains g.id }
  | .deleteWorkflow id => { db with workflows := db.workflows.delete (·.id == id) }
  | .deleteChunks ids => { db with fileChunks := db.fileChunks.delete fun c => ids.contains c.id }
  | .deleteSecret id => { db with secrets := db.secrets.delete (·.id == id) }
  | .spendNonce a nonce => { db with
      nonces := db.nonces.delete fun n => n.address == a && n.nonce == nonce }
  | .redact redactions => redactions.foldl setContent db
  | .deleteMessages rows =>
    let gone (kind : Kind) (row : Message) : Bool :=
      rows.any fun c => c.1 == kind && c.2.1.id == row.id
    { db with
      messages := db.messages.delete (gone .dm)
      groupMessages := db.groupMessages.delete (gone .group) }
  | .leaveGroups a => leaveAllGroups db a
  | .deleteNonces a => { db with nonces := db.nonces.delete (·.address == a) }
  | .stripIdentity a mode now => { db with
      users := db.users.update (·.address == a) (Kryptolog.Server.stripIdentity mode now)
        (fun _ => rfl) }

/-- The rows of a statement: those its snapshot selects, as they are now, where its condition
still selects them. -/
def matched {ρ : Type} [Keyed ρ ℕ] (snap cur : Serial ρ) (p : ρ → Bool) : List ρ :=
  (cur.toTable.where' p).filter fun r =>
    snap.toTable.any fun r₀ => Keyed.key r₀ == Keyed.key r && p r₀

/-- `SELECT id FROM multisig_workflows WHERE status = 'completed'`. -/
def releasedIds (db : Database) : List ℕ :=
  (db.workflows.where' (·.status == .completed)).map (·.id)

/-- An `UPDATE` or a `DELETE` that a transaction has yet to issue. -/
inductive Write
  | updateStatus (workflowId : ℕ) (status : Status)
  | updateRejected (workflowId : ℕ) (by' : Address) (at' : Time)
  | updateSigner (signerId : ℕ) (signature : String) (now : Time)
  | updateKeys (workflowId : ℕ) (keys : List (ℕ × Document))
  | deleteSigners (workflowId : ℕ)
  | deleteRecipients (workflowId : ℕ)
  /-- The address's recipient rows on every workflow `NOT IN` the completed ones. -/
  | dropRecipients (a : Address)
  | deleteGrants (secretId : ℕ)
  | deleteGrantsHeld (a : Address)
  | deleteWorkflow (id : ℕ)
  | deleteChunks (secretId : ℕ)
  | deleteSecret (id : ℕ)
  | redactMessages (redactions : List Redaction)
  | deleteMessages (rows : List Carrier)
  | leaveGroups (a : Address)
  | deleteNonces (a : Address)
  | updateUser (a : Address) (mode : Mode) (now : Time)

/-- What a statement does with the rows `matched`: it locks them, and it changes them. -/
def onRows {ρ : Type} [Keyed ρ ℕ] (lock : ℕ → RowKey) (change : List ρ → Change) (rows : List ρ) :
    List RowKey × List Change := (rows.map fun r => lock (Keyed.key r), [change rows])

/-- A statement, from its snapshot and the state in which it has its locks. An `UPDATE` of a loaded
row that matches no row raises `StaleDataError`; a `DELETE` of one is a warning. -/
def Write.exec (snap cur : Database) : Write → Option (List RowKey × List Change)
  | .updateStatus id status =>
    match matched snap.workflows cur.workflows (·.id == id) with
    | [] => none
    | _ => some ([.workflow id], [.setStatus id status])
  | .updateRejected id by' at' =>
    match matched snap.workflows cur.workflows (·.id == id) with
    | [] => none
    | _ => some ([.workflow id], [.setRejected id by' at'])
  | .updateSigner id signature now =>
    match matched snap.signers cur.signers (·.id == id) with
    | [] => none
    | _ => some ([.signer id], [.recordSignature id signature now])
  | .updateKeys id keys =>
    let rows := matched snap.recipients cur.recipients fun r => (keys.lookup r.id).isSome
    if rows.length < keys.length then none
    else some (rows.map fun r => .recipient r.id, [.setKeys id keys])
  | .deleteSigners id => some (onRows .signer (fun rows => .deleteSigners (rows.map (·.id)))
      (matched snap.signers cur.signers (·.workflowId == id)))
  | .deleteRecipients id => some (onRows .recipient .deleteRecipients
      (matched snap.recipients cur.recipients (·.workflowId == id)))
  | .dropRecipients a => some (onRows .recipient .deleteRecipients
      (matched snap.recipients cur.recipients fun r =>
        r.userAddress == a && !(releasedIds snap).contains r.workflowId))
  | .deleteGrants id => some (onRows .accessGrant (fun rows => .deleteGrants (rows.map (·.id)))
      (matched snap.accessGrants cur.accessGrants (·.secretId == id)))
  | .deleteGrantsHeld a => some (onRows .accessGrant (fun rows => .deleteGrants (rows.map (·.id)))
      (matched snap.accessGrants cur.accessGrants (·.granteeAddress == a)))
  | .deleteWorkflow id =>
    match matched snap.workflows cur.workflows (·.id == id) with
    | [] => some ([], [])
    | _ => some ([.workflow id], [.deleteWorkflow id])
  | .deleteChunks id => some (onRows .fileChunk (fun rows => .deleteChunks (rows.map (·.id)))
      (matched snap.fileChunks cur.fileChunks (·.secretId == id)))
  | .deleteSecret id =>
    match matched snap.secrets cur.secrets (·.id == id) with
    | [] => some ([], [])
    | _ => some ([.secret id], [.deleteSecret id])
  | .redactMessages redactions => some ([], [.redact redactions])
  | .deleteMessages rows => some ([], [.deleteMessages rows])
  | .leaveGroups a => some ([], [.leaveGroups a])
  | .deleteNonces a => some ([], [.deleteNonces a])
  | .updateUser a mode now => some ([.user a], [.stripIdentity a mode now])

/-! ## Programs -/

/-- What a signer asks for. -/
inductive Verdict
  | sign (req : MultisigSignatureRequest)
  | reject

inductive WorkflowRequest
  | sign (workflowId : ℕ) (req : MultisigSignatureRequest)
  | reject (workflowId : ℕ)
  | delete (workflowId : ℕ)
  | deleteAccount (mode : Mode) (req : EraseRequest)

structure WorkflowCall where
  now : Time
  token : Token
  request : WorkflowRequest

/-- Where a request is, with what it has loaded. -/
inductive Point
  | authenticate (call : WorkflowCall)
  | lockWorkflow (now : Time) (caller : User) (workflowId : ℕ) (verdict : Verdict)
  | locateSigner (now : Time) (caller : User) (verdict : Verdict) (w : MultisigWorkflow)
  | verify (now : Time) (caller : User) (req : MultisigSignatureRequest) (w : MultisigWorkflow)
      (signer : MultisigWorkflowSigner)
  | countSignatures (now : Time) (req : MultisigSignatureRequest) (w : MultisigWorkflow)
      (signer : MultisigWorkflowSigner)
  | readRecipients (now : Time) (req : MultisigSignatureRequest) (w : MultisigWorkflow)
      (signer : MultisigWorkflowSigner)
  | loadWorkflow (caller : User) (workflowId : ℕ)
  | claimNonce (now : Time) (caller : User) (mode : Mode) (req : EraseRequest)
  | claimed (won : Bool) (now : Time) (caller : User) (mode : Mode) (req : EraseRequest)
  | lockUser (now : Time) (a : Address) (mode : Mode) (req : EraseRequest)
  | redact (now : Time) (author : User) (redactions : List (String × String))
  | recount (now : Time) (a : Address)
  | selectOwned (now : Time) (a : Address)
  | selectSecrets (now : Time) (a : Address)
  | checkManaged (now : Time) (a : Address) (todo : List Secret) (unmanaged : List ℕ)
  | write (todo : List Write) (next : Point)
  | committing
  | done
  | failed

/-- Issue the statements, then go on. -/
def Point.writes : List Write → Point → Point
  | [], next => next
  | todo, next => .write todo next

/-- The statements that go with a workflow, before the flush and at it. -/
def deleteChildren (w : MultisigWorkflow) : List Write :=
  [.deleteSigners w.id, .deleteRecipients w.id, .deleteGrants w.secretId]

def deleteSecrets (secretIds : List ℕ) : List Write :=
  secretIds.map .deleteChunks ++ secretIds.map .deleteSecret

def flushDeleted (ws : List MultisigWorkflow) : List Write :=
  ws.map (fun w => .deleteWorkflow w.id) ++ deleteSecrets (ws.map (·.secretId))

/-- The recipient rows whose key the completing signature changes. -/
def changedKeys (rows : List MultisigWorkflowRecipient) (supplied : KeyMap) : List (ℕ × Document) :=
  rows.filterMap fun r => (supplied.keyOf r.userAddress).bind fun key =>
    if r.encryptedKey == some key then none else some (r.id, key)

/-- The statements of the completing signature. -/
def completing (db : Database) (now : Time) (req : MultisigSignatureRequest) (w : MultisigWorkflow)
    (signer : MultisigWorkflowSigner) : List Write :=
  let keys := changedKeys (recipientsOf db w.id) req.recipientKeys
  [.updateStatus w.id .completed, .updateSigner signer.id req.signature now] ++
    if keys.isEmpty then [] else [.updateKeys w.id keys]

/-- What every deletion ends with: the challenges and the identity. -/
def leaveRows (now : Time) (a : Address) (mode : Mode) : List Write :=
  [.deleteNonces a, .updateUser a mode now]

namespace Point

def afterAuthenticate (db : Database) (call : WorkflowCall) : Point :=
  match getCurrentUser db call.token with
  | .error _ => .failed
  | .ok caller =>
    match call.request with
    | .sign id req => .lockWorkflow call.now caller id (.sign req)
    | .reject id => .lockWorkflow call.now caller id .reject
    | .delete id => .loadWorkflow caller id
    | .deleteAccount mode req => .claimNonce call.now caller mode req

/-- `SELECT … FOR UPDATE`: the row that the snapshot has, as it is once it is free. -/
def afterLockWorkflow (snap cur : Database) (now : Time) (caller : User) (workflowId : ℕ)
    (verdict : Verdict) : Outcome RowKey Change Point :=
  match loadWorkflowOr404 snap workflowId, loadWorkflowOr404 cur workflowId with
  | .ok _, .ok w => ⟨[.workflow w.id], [], .locateSigner now caller verdict w⟩
  | _, _ => ⟨[], [], .failed⟩

def afterLocateSigner (db : Database) (now : Time) (caller : User) (verdict : Verdict)
    (w : MultisigWorkflow) : Point :=
  match findWorkflowSigner db w.id caller.address with
  | none => .failed
  | some signer =>
    if w.status != .pending then .failed
    else match verdict with
      | .reject => .write [.updateRejected w.id caller.address now] .committing
      | .sign req => if signer.hasSigned then .failed else .verify now caller req w signer

def afterVerify (prim : Primitives) (db : Database) (now : Time) (caller : User)
    (req : MultisigSignatureRequest) (w : MultisigWorkflow) (signer : MultisigWorkflowSigner) :
    Point :=
  match verifyApproval prim db w caller req.signature with
  | .error _ => .failed
  | .ok _ => .countSignatures now req w signer

def afterCountSignatures (db : Database) (now : Time) (req : MultisigSignatureRequest)
    (w : MultisigWorkflow) (signer : MultisigWorkflowSigner) : Point :=
  if isCompletingSignature db w then .readRecipients now req w signer
  else if !req.recipientKeys.isEmpty then .failed
  else .write [.updateSigner signer.id req.signature now] .committing

def afterReadRecipients (db : Database) (now : Time) (req : MultisigSignatureRequest)
    (w : MultisigWorkflow) (signer : MultisigWorkflowSigner) : Point :=
  match releaseRecipientKeys db w req.recipientKeys with
  | .error _ => .failed
  | .ok _ => .write (completing db now req w signer) .committing

/-- The status is decided on here; the load takes no lock. -/
def afterLoadWorkflow (db : Database) (caller : User) (workflowId : ℕ) : Point :=
  match loadWorkflowOr404 db workflowId with
  | .error _ => .failed
  | .ok w =>
    if canDeleteWorkflow w caller.address && workflowIsDeletable w then
      .write (deleteChildren w ++ flushDeleted [w]) .committing
    else .failed

def afterClaimNonce (cur : Database) (now : Time) (caller : User) (mode : Mode)
    (req : EraseRequest) : Outcome RowKey Change Point :=
  let (_, won) := Kryptolog.Server.claimNonce cur now caller.address req.nonce
  if won then
    ⟨[.nonce req.nonce], [.spendNonce caller.address req.nonce], .claimed true now caller mode req⟩
  else ⟨[], [], .claimed false now caller mode req⟩

/-- `db.refresh(current_user, with_for_update=True)` and what is checked under the lock. -/
def afterLockUser (prim : Primitives) (cfg : Config) (cur : Database) (now : Time) (a : Address)
    (mode : Mode) (req : EraseRequest) : Outcome RowKey Change Point :=
  match findUser cur a with
  | none => ⟨[], [], .failed⟩
  | some user => ⟨[.user a], [],
    match authorizeDeletion prim cfg user mode req with
    | .error _ => .failed
    | .ok _ =>
      match mode with
      | .leave =>
        if req.redactions.isEmpty then
          .write (.leaveGroups a :: leaveRows now a .leave) .committing
        else .failed
      | .erase => .redact now user req.redactions⟩

def afterRedact (prim : Primitives) (db : Database) (now : Time) (author : User)
    (redactions : List (String × String)) : Point :=
  match verifiedRedactions prim db author redactions none with
  | .error _ => .failed
  | .ok pending => .write [.redactMessages pending] (.recount now author.address)

/-- A round that leaves carriers ends here. The last round goes on. -/
def afterRecount (db : Database) (now : Time) (a : Address) : Point :=
  match redactionKeys db a none, selectRows isKeyless (ownMessages db a none) with
  | .ok [], .ok rows =>
    .write [.deleteMessages rows, .leaveGroups a] (.selectOwned now a)
  | .ok (_ :: _), _ => .committing
  | _, _ => .failed

/-- `_erase_multisig`: the status of each owned workflow is decided on here. -/
def afterSelectOwned (db : Database) (now : Time) (a : Address) : Point :=
  let owned := db.workflows.where' fun w => w.ownerAddress == a && workflowIsDeletable w
  .write (owned.flatMap deleteChildren ++ [.dropRecipients a] ++ flushDeleted owned)
    (.selectSecrets now a)

/-- The end of the loop in `_erase_secrets`, and of the erase. -/
def checked (now : Time) (a : Address) (todo : List Secret) (unmanaged : List ℕ) : Point :=
  match todo with
  | [] => .write (.deleteGrantsHeld a :: leaveRows now a .erase ++ deleteSecrets unmanaged) .committing
  | _ => .checkManaged now a todo unmanaged

def afterSelectSecrets (db : Database) (now : Time) (a : Address) : Point :=
  checked now a (db.secrets.where' (·.ownerAddress == a)) []

/-- `is_workflow_managed` for one secret. -/
def afterCheckManaged (db : Database) (now : Time) (a : Address) (s : Secret) (rest : List Secret)
    (unmanaged : List ℕ) : Point :=
  if isWorkflowManaged db s.id then checked now a rest unmanaged
  else .write [.deleteGrants s.id] (checked now a rest (unmanaged ++ [s.id]))

end Point

/-- What a request does at a point. -/
def Point.op (prim : Primitives) (cfg : Config) : Point → Op Database RowKey Change Point
  | .authenticate call => .select fun db => afterAuthenticate db call
  | .lockWorkflow now caller id verdict =>
    .write fun snap cur => afterLockWorkflow snap cur now caller id verdict
  | .locateSigner now caller verdict w => .select fun db => afterLocateSigner db now caller verdict w
  | .verify now caller req w signer =>
    .select fun db => afterVerify prim db now caller req w signer
  | .countSignatures now req w signer => .select fun db => afterCountSignatures db now req w signer
  | .readRecipients now req w signer => .select fun db => afterReadRecipients db now req w signer
  | .loadWorkflow caller id => .select fun db => afterLoadWorkflow db caller id
  | .claimNonce now caller mode req => .write fun _ cur => afterClaimNonce cur now caller mode req
  | .claimed won now caller mode req =>
    .commit (if won then .lockUser now caller.address mode req else .failed)
  | .lockUser now a mode req => .write fun _ cur => afterLockUser prim cfg cur now a mode req
  | .redact now author redactions => .select fun db => afterRedact prim db now author redactions
  | .recount now a => .select fun db => afterRecount db now a
  | .selectOwned now a => .select fun db => afterSelectOwned db now a
  | .selectSecrets now a => .select fun db => afterSelectSecrets db now a
  | .checkManaged now a (s :: rest) unmanaged =>
    .select fun db => afterCheckManaged db now a s rest unmanaged
  | .write (stmt :: rest) next => .write fun snap cur =>
    match stmt.exec snap cur with
    | none => ⟨[], [], .failed⟩
    | some (locks, changes) => ⟨locks, changes, writes rest next⟩
  | .committing => .commit .done
  | .checkManaged _ _ [] _ | .write [] _ | .done | .failed => .halt

/-- The requests on workflows, concurrently. -/
def transactions (prim : Primitives) (cfg : Config) :
    Machine Database RowKey Change Point WorkflowCall where
  apply change db := change.apply db
  entry call := .authenticate call
  op := Point.op prim cfg

end Kryptolog.Server
