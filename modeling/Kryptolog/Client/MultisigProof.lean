import Kryptolog.Client.DecryptedContent

/-! # Proofs of a workflow, and their audit

`proof.js`, which writes the signatures of a workflow into a file and verifies such a file without the server,
and the parts of `ProofAudit.jsx` that read one and say what became of it.
-/

namespace Kryptolog.Client
set_option autoImplicit false

open Script

/-! ## Writing -/

/-- A user, as the server embeds one. -/
structure EmbeddedUser where
  identityPublicKey : Text
  username : Option Text

structure SignerEntry where
  userAddress : Text
  hasSigned : Bool
  signature : Option Text
  signedAt : Option Text
  user : Option EmbeddedUser

/-- A workflow with the ciphertext of its secret. -/
structure WorkflowDetail where
  id : Number
  secretId : Number
  name : Text
  status : Text
  createdAt : Text
  ownerAddress : Text
  owner : Option EmbeddedUser
  signers : List SignerEntry
  encryptedData : Option Text

/-- `PROOF_ALGORITHM`. -/
def proofAlgorithm : String := "MLDSA65-ECDSA-P384-SHA512"

/-- `PROOF_VERSION`. -/
def proofVersion : String := "3.0"

/-- `text || null`. -/
def textOrNull (text : Option Text) : Value :=
  match text.filter (· ≠ []) with
  | some s => .str s
  | none => .null

/-- `text`, a column that may be null. -/
def column : Option Text → Value
  | some s => .str s
  | none => .null

/-- An entry of the list of signatures. -/
def proofEntry (address : Text) (user : Option EmbeddedUser) (signature signedAt : Value) (role : String) : Value :=
  .obj [(lit "address", .str address), (lit "identity_public_key", textOrNull (user.map (·.identityPublicKey))),
    (lit "username", textOrNull (user.bind (·.username))), (lit "signature", signature), (lit "signed_at", signedAt),
    (lit "algorithm", .str (lit proofAlgorithm)), (lit "role", .str (lit role))]

/-- The entry of a signer who has signed. -/
def SignerEntry.proofEntry (s : SignerEntry) : Option Value :=
  if s.hasSigned then
    (s.signature.filter (· ≠ [])).map fun signature =>
      Client.proofEntry s.userAddress s.user (.str signature) (column s.signedAt) "signer"
  else none

/-- `a || b`, of a member that may be absent. -/
def orElse (a : Option Value) (b : Value) : Value := (a.filter Value.truthy).getD b

/-- `sha384Hex`, of a text. -/
def Viewer.sha384HexOfText (env : Viewer) (text : Text) : Text := env.sha384HexOfFile text.encode

/-- `downloadMultisigProof`: the proof that goes into the file, unless the creator's signature was not
verified. -/
def Viewer.downloadMultisigProof (env : Viewer) (workflow : WorkflowDetail) (shown : Interpretation)
    (exportedAt : Text) : Option Value :=
  if shown.creatorSignature.isSome && shown.verificationStatus != .verified then none
  else
    let creator := shown.creatorSignature.map fun signature =>
      proofEntry workflow.ownerAddress workflow.owner signature (.str workflow.createdAt) "creator"
    let ciphertextSha384 := (workflow.encryptedData.filter (· ≠ [])).map env.sha384HexOfText
    some (.obj [(lit "type", .str (lit "kryptolog_multisig_proof")), (lit "version", .str (lit proofVersion)),
      (lit "exported_at", .str exportedAt),
      (lit "workflow", .obj [(lit "id", .num workflow.id), (lit "name", .str workflow.name),
        (lit "status", .str workflow.status), (lit "created_at", .str workflow.createdAt),
        (lit "secret_id", .num workflow.secretId)]),
      (lit "document", .obj [
        (lit "content", orElse shown.creatorSignedContent (.str shown.rawDecryptedContent)),
        (lit "ciphertext_sha384", column ciphertextSha384)]),
      (lit "signatures", .arr (creator.toList ++ workflow.signers.filterMap SignerEntry.proofEntry))])

/-! ## Reading -/

/-- `value === text`. -/
def isLiteral (text : String) : Option Value → Bool
  | some (.str s) => s == lit text
  | _ => false

/-- The text of the bytes that a creator signs. -/
def contentMessage (content : Text) : Text := domainSeparate SigningContext.content.text content

/-- The text of the bytes that a signer signs. -/
def approvalMessage (workflowId secretId ciphertextSha384 : Text) : Text :=
  domainSeparate SigningContext.multisigApproval.text (lines [lit "workflow=" ++ workflowId,
    lit "secret=" ++ secretId, lit "ct=" ++ ciphertextSha384])

theorem multisigApprovalMessage_eq {workflowId secretId ciphertextSha384 : Value} {w s c : Text}
    (hw : workflowId.toText = some w) (hs : secretId.toText = some s) (hc : ciphertextSha384.toText = some c) :
    multisigApprovalMessage workflowId secretId ciphertextSha384 = .ok (approvalMessage w s c) := by
  simp only [multisigApprovalMessage, interpolate, hw, hs, hc]
  rfl

/-- What the audit says of an entry. -/
structure SignerResult where
  publicKey : Option Value
  algorithm : Option Value
  valid : Bool
  username : Option Value
  role : Option Value
  signedAt : Option Value

/-- `(entry.address || '').toLowerCase()`, where it does not throw. -/
def entryAddress (entry : Value) : Option Text :=
  match (entry.get "address").filter Value.truthy with
  | none => some []
  | some (.str s) => some (toLowerCase s)
  | some _ => none

namespace Viewer

variable (env : Viewer)

/-- `verifyIdentitySignature`, on a key that may be no text and a signature that may be absent. -/
def verifyEntrySignature (address : Text) (key : Option Value) (message : Text) (signature : Option Value) : Bool :=
  match key with
  | some (.str key) => env.verifyIdentitySignature address key message (signature.getD .null)
  | _ => false

/-- `valid`, of an entry whose role signs the message. -/
def entryValid (message : Option Text) (entry : Value) : Option Bool :=
  match message with
  | some message =>
    if isLiteral proofAlgorithm (entry.get "algorithm") then
      (entryAddress entry).map fun address =>
        env.verifyEntrySignature address (entry.get "identity_public_key") message (entry.get "signature")
    else some false
  | none => some false

/-- An entry of a proof. It throws on `null` and on an address that is no text. -/
def verifyEntry (creatorBody : Text) (approvalBody : Option Text) : Value → Option SignerResult
  | .null => none
  | entry =>
    (env.entryValid (if isLiteral "signer" (entry.get "role") then approvalBody else some creatorBody) entry).map
      fun valid => ⟨entry.get "address", entry.get "algorithm", valid, (entry.get "username").filter Value.truthy,
        entry.get "role", entry.get "signed_at"⟩

end Viewer

/-- `assertProofVersion`, where it does not throw. -/
def assertProofVersion (proof : Value) : Option Unit :=
  match proof.get "version" with
  | none | some .null => none
  | some v => v.toText.bind fun text => if lit "3." <+: text then some () else none

/-- `proofData.signatures || []`, where it can be iterated: of a text, its characters. -/
def proofEntries (proof : Value) : Option (List Value) :=
  match (proof.get "signatures").filter Value.truthy with
  | none => some []
  | some (.arr entries) => some entries
  | some (.str s) => some (s.map fun p => .str [p])
  | some _ => none

/-- A member of a member. -/
def member₂ (v : Value) (outer inner : String) : Option Value := (v.get outer).bind (·.get inner)

/-- `signerAddress === signer.address`. -/
def sameAddress : Option Text → Option Value → Bool
  | some address, some (.str named) => address == named
  | none, some .null => true
  | _, _ => false

/-- The approval that the signers of a proof have signed. -/
def approvalBody (proof : Value) : Option (Option Text) :=
  match member₂ proof "document" "ciphertext_sha384" with
  | none | some .null => some none
  | some ciphertext => do
    let workflowId ← memberText (member₂ proof "workflow" "id")
    let secretId ← memberText (member₂ proof "workflow" "secret_id")
    some (some (approvalMessage workflowId secretId (← ciphertext.toText)))

namespace Viewer

variable (env : Viewer)

/-- `verifyMultisigProofSignatures`. -/
def verifyMultisigProofSignatures (proof : Value) : Option (List SignerResult) := do
  let creatorBody := contentMessage (← memberText (member₂ proof "document" "content"))
  assertProofVersion proof
  let approval ← approvalBody proof
  (← proofEntries proof).mapM (env.verifyEntry creatorBody approval)

/-- `{ valid, signerAddress }`, of a single signature. It throws where the document is missing. -/
def singleVerdict (proof signer : Value) : Option (Bool × Option Text) :=
  if isLiteral proofAlgorithm (signer.get "algorithm") then
    match proof.get "document" with
    | none | some .null => none
    | some document => env.verifySignedDocument (document.get "content") ((proof.get "signature").getD .null)
        ((signer.get "identity_public_key").getD .null)
  else some (false, none)

/-- `verifySingleSignature`. It throws where the signer is missing. -/
def verifySingleSignature (proof : Value) : Option (List SignerResult) := do
  assertProofVersion proof
  match proof.get "signer" with
  | none | some .null => none
  | some signer => (env.singleVerdict proof signer).map fun (valid, signerAddress) =>
    [⟨signer.get "address", signer.get "algorithm", valid && sameAddress signerAddress (signer.get "address"),
      (signer.get "username").filter Value.truthy, none, none⟩]

/-- `verifyProof`: the results, where it comes to any. -/
def verifyProof (proof : Value) : Option (List SignerResult) :=
  if isLiteral "kryptolog_signed_document_proof" (proof.get "type") then env.verifySingleSignature proof
  else if isLiteral "kryptolog_multisig_proof" (proof.get "type") then env.verifyMultisigProofSignatures proof
  else none

end Viewer

/-- `allValid`. -/
def allValid (results : List SignerResult) : Bool := results.all (·.valid)

end Kryptolog.Client
