import Kryptolog.Server.Multisig

/-! # Deleting an account, erasing a conversation

`account_deletion.py` with the endpoints of `routers/account.py` and `routers/conversations.py`
that drive it. An erase goes in rounds. A round redacts messages under signatures of their
author, and while messages are left that hold both a key envelope and a ciphertext, that is all
it does. The round that leaves none deletes the author's other messages and completes.
-/

namespace Kryptolog.Server
set_option autoImplicit false

open Tables Json Fallible

/-! ## The messages in a scope -/

/-- A conversation by its kind and key, or every conversation. -/
abbrev Scope := Option (Kind × String)

/-- The message kinds that a scope reaches, in the order in which they are walked. -/
def Scope.kinds : Scope → List Kind
  | none => [.dm, .group]
  | some (kind, _) => [kind]

def inScope (kind : Kind) (row : Message) : Scope → Bool
  | none => true
  | some (k, key) => k == kind && row.target == key

/-- The author's messages in a scope, each with its kind, in the order of the walk. -/
def ownMessages (db : Database) (a : Address) (scope : Scope) : List (Kind × Message) :=
  scope.kinds.flatMap fun kind =>
    ((db.store kind).where' fun row => row.senderAddress == a && inScope kind row scope).map (kind, ·)

/-! ## Classifying a row -/

/-- `_payload`: `none` for a text that is no JSON object. `RecursionError` is not caught. -/
def payloadOf (content : Document) : Except Fault (Option Value) :=
  match content.loads with
  | .ok (.obj fields) => .ok (some (.obj fields))
  | .ok _ | .error .valueError => .ok none
  | .error .recursionError => .error (.unhandled "RecursionError")

/-- Does a payload hold both a key envelope and a ciphertext? -/
def isCarrier (payload : Value) : Bool :=
  present (payload.get "keys") && !isNone (payload.get "ct")

/-- `_is_signable`. The position is checked against zero and not against its upper bound. -/
def isSignable (payload : Value) : Bool :=
  let position : Option Value → Bool
    | some (.int z) => 0 ≤ z
    | _ => false
  isSignedIdentifier (payload.get "sid") && position (payload.get "ts") &&
    position (payload.get "seq") &&
    (payload.get "keys").any fun keys => (checkEnvelopeShape keys).isOk

def redactionKey (kind : Kind) (id : ℕ) : String := s!"{kind.text}:{id}"

/-- A row with its parsed payload. -/
abbrev Carrier := Kind × Message × Value

/-- The rows of a walk that a test on the payload selects. -/
def selectRows (test : Value → Bool) : List (Kind × Message) → Except Fault (List Carrier)
  | [] => .ok []
  | (kind, row) :: rows => do
    let payload ← payloadOf row.content
    let rest ← selectRows test rows
    match payload with
    | some p => .ok (if test p then (kind, row, p) :: rest else rest)
    | none => .ok rest

def envelopeCarriers (db : Database) (a : Address) (scope : Scope) : Except Fault (List Carrier) :=
  selectRows isCarrier (ownMessages db a scope)

/-- `redaction_keys`: what is left to redact, as a set of keys. -/
def redactionKeys (db : Database) (a : Address) (scope : Scope) : Except Fault (List String) := do
  let carriers ← envelopeCarriers db a scope
  .ok ((carriers.filter fun c => isSignable c.2.2).map fun c => redactionKey c.1 c.2.1.id)

/-- `kept_messages`: the rows that an erase leaves holding their content. -/
def keptMessages (db : Database) (a : Address) (scope : Scope) : Except Fault ℕ := do
  let rows := ownMessages db a scope
  let parsed ← selectRows (fun _ => true) rows
  .ok (rows.length - parsed.length +
    (parsed.filter fun c => isCarrier c.2.2 && !isSignable c.2.2).length)

/-! ## Redacting -/

/-- `RedactionRefused`, which both endpoints answer with 400. -/
def redactionRefused (detail : String) : Fault := .http 400 detail

/-- `_conv_and_gid`: the conversation that a message was delivered under, and the group id. -/
def convAndGid (kind : Kind) (row : Message) : String × String :=
  match kind with
  | .dm => (lowerText row.target, "")
  | .group => (row.target, row.target)

/-- `_redacted_content`: everything but the ciphertext is copied from the row. -/
def redactedContent (kind : Kind) (payload : Value) (signature gid : String) : Document :=
  let field (name : String) : Str × Value := (.uni name, (payload.get name).getD .null)
  let common := [field "v", field "sid", field "ts", field "seq", field "keys",
    (.uni "ct", .null), (.uni "sig", .str (.uni signature))]
  dumps (.obj (match kind with
    | .dm => common
    | .group => common ++ [(.uni "gid", .str (.uni gid))]))

/-- A character that `str.isdigit` accepts, with its value where it is a decimal. -/
def pyDigit (prim : Primitives) (c : Char) : Option (Option ℕ) :=
  if c.isDigit then some (some (c.toNat - 48))
  else if c.toNat < 128 then none
  else prim.unicodeDigit c

/-- `int(text)` for a text of digits: a digit that is no decimal raises `ValueError`. -/
def pyInt (prim : Primitives) (digits : List Char) : Except Fault ℕ :=
  digits.foldlM (fun n c =>
    match pyDigit prim c with
    | some (some d) => .ok (10 * n + d)
    | _ => .error (.unhandled "ValueError")) 0

def kindOfText (text : String) : Option Kind :=
  if text = "dm" then some .dm else if text = "group" then some .group else none

/-- The message that a key names: a kind, a colon and a number. -/
def parseKey (prim : Primitives) (key : String) : Except Fault (Kind × ℕ) := do
  let cs := key.toList
  let rawId := (cs.dropWhile (· != ':')).drop 1
  match kindOfText (String.ofList (cs.takeWhile (· != ':'))) with
  | some kind =>
    if !cs.contains ':' || rawId.isEmpty || !rawId.all fun c => (pyDigit prim c).isSome then
      .error (redactionRefused s!"{key} is not a message id")
    else .ok (kind, ← pyInt prim rawId)
  | none => .error (redactionRefused s!"{key} is not a message id")

def redactableRow (prim : Primitives) (db : Database) (a : Address) (key : String) (scope : Scope) :
    Except Fault Carrier := do
  let (kind, id) ← parseKey prim key
  match (db.store kind).find? fun row => row.id == id && row.senderAddress == a with
  | none => .error (redactionRefused s!"{key} is not one of your messages")
  | some row =>
    if !inScope kind row scope then
      .error (redactionRefused s!"{key} is not in this conversation")
    else match ← payloadOf row.content with
      | none => .error (redactionRefused s!"{key} is not a message this erase can redact")
      | some payload =>
        if !isCarrier payload || !isSignable payload then
          .error (redactionRefused s!"{key} is not a message this erase can redact")
        else .ok (kind, row, payload)

/-- Does the payload of a group message declare another group than it was delivered under? -/
def declaresOtherGroup (kind : Kind) (row : Message) (payload : Value) : Bool :=
  kind == .group && present (payload.get "gid") && !(payload.get "gid").any (·.eqStr row.target)

/-- The body that a redaction of the row signs. A group id that was not refused is the channel's,
whether the payload declares it or not. -/
def redactionBody (prim : Primitives) (a : Address) (c : Carrier) : Except NonCanonical String :=
  let (kind, row, payload) := c
  let (conv, gid) := convAndGid kind row
  messageSigningBody prim a.text conv gid (payload.get "sid") (payload.get "ts")
    (payload.get "seq") ((payload.get "keys").getD .null)

/-- A redaction that was verified: the row and its new content. -/
abbrev Redaction := Kind × ℕ × Document

/-- One turn of the loop in `_verified_redactions`. -/
def verifyRedaction (prim : Primitives) (db : Database) (author : User) (scope : Scope)
    (entry : String × String) : Except Fault Redaction := do
  let (key, signature) := entry
  let (kind, row, payload) ← redactableRow prim db author.address key scope
  refuseIf (declaresOtherGroup kind row payload)
    (redactionRefused s!"{key} declares a group it was not delivered under")
  match redactionBody prim author.address (kind, row, payload) with
  | .error exc => .error (redactionRefused s!"{key} cannot be signed for redaction: {exc}")
  | .ok body =>
    if prim.verifyIdentitySignature author.identityPublicKey body signature then
      .ok (kind, row.id, redactedContent kind payload signature (convAndGid kind row).2)
    else .error (redactionRefused s!"invalid redaction signature for {key}")

/-- `_verified_redactions`: every redaction of a round is verified before any is applied. -/
def verifiedRedactions (prim : Primitives) (db : Database) (author : User)
    (signatures : List (String × String)) (scope : Scope) : Except Fault (List Redaction) :=
  (signatures.insertionSort (fun a b => a.1 ≤ b.1)).mapM (verifyRedaction prim db author scope)

/-- `row.content = content`. -/
def setContent (db : Database) (r : Redaction) : Database :=
  db.setStore r.1 ((db.store r.1).update (·.id == r.2.1)
    (fun row => { row with content := r.2.2 }) (fun _ => rfl))

/-- `apply_redactions`: the database after a round, and how many redactions landed. -/
def applyRedactions (prim : Primitives) (db : Database) (author : User)
    (signatures : List (String × String)) (scope : Scope) : Except Fault (Database × ℕ) := do
  let pending ← verifiedRedactions prim db author signatures scope
  .ok (pending.foldl setContent db, pending.length)

/-! ## Deleting -/

/-- Does a payload carry no key envelope at all? -/
def isKeyless (payload : Value) : Bool := !present (payload.get "keys")

/-- `delete_own_messages`: what parses and carries nobody's key goes. -/
def deleteOwnMessages (db : Database) (a : Address) (scope : Scope) :
    Except Fault (Database × ℕ) := do
  let deletable ← selectRows isKeyless (ownMessages db a scope)
  let gone (kind : Kind) (row : Message) : Bool :=
    deletable.any fun c => c.1 == kind && c.2.1.id == row.id
  .ok ({ db with
      messages := db.messages.delete (gone .dm)
      groupMessages := db.groupMessages.delete (gone .group) },
    deletable.length)

/-- One membership in `_leave_all_groups`. -/
def leaveGroup (a : Address) (db : Database) (membership : GroupMember) : Database :=
  match db.groupChannels.find? (·.id == membership.channelId) with
  | none => db
  | some channel =>
    let remaining := db.groupMembers.where' fun m =>
      m.channelId == channel.id && m.userAddress != a
    let db' := if membership.role == "owner" then succeedGroupOwner db channel remaining else db
    { db' with
      groupMembers := db'.groupMembers.delete fun m =>
        m.channelId == channel.id && m.userAddress == a }

/-- A channel that still names the departed owner, in `_leave_all_groups`. -/
def settleOrphan (a : Address) (db : Database) (channel : GroupChannel) : Database :=
  succeedGroupOwner db channel
    (db.groupMembers.where' fun m => m.channelId == channel.id && m.userAddress != a)

def leaveAllGroups (db : Database) (a : Address) : Database :=
  let left := (db.groupMembers.where' (·.userAddress == a)).foldl (leaveGroup a) db
  (left.groupChannels.where' (·.ownerAddress == a)).foldl (settleOrphan a) left

/-- `_erase_multisig`: the workflows the API would let the owner delete, then the address's
recipient rows on everything not yet released. -/
def eraseMultisig (db : Database) (a : Address) : Database :=
  let owned := db.workflows.where' fun w => w.ownerAddress == a && workflowIsDeletable w
  let db' := owned.foldl deleteWorkflowRows db
  let released (id : ℕ) : Bool := db'.workflows.any fun w => w.id == id && w.status == .completed
  { db' with
    recipients := db'.recipients.delete fun r => r.userAddress == a && !released r.workflowId }

/-- `_erase_secrets`: the owned secrets that no workflow manages, then the grants held. -/
def eraseSecrets (db : Database) (a : Address) : Database :=
  let owned := db.secrets.where' fun s => s.ownerAddress == a && !isWorkflowManaged db s.id
  let db' := owned.foldl (fun db s => deleteSecretRows db s.id) db
  { db' with accessGrants := db'.accessGrants.delete (·.granteeAddress == a) }

def stripIdentity (mode : Mode) (now : Time) (u : User) : User :=
  { u with
    username := if mode = .erase then none else u.username
    encryptionPublicKey := none
    encryptionKeyAlg := none
    encryptionKeyId := none
    encryptionKeyAttestation := none
    keyChangedAt := none
    tokenVersion := u.tokenVersion + 1
    deletedAt := some now
    blocked := u.blocked || mode == .erase }

/-- What `delete_account` takes from the other tables: the memberships, and in an erase the
workflows and secrets. -/
def dropHoldings (db : Database) (a : Address) : Mode → Database
  | .leave => leaveAllGroups db a
  | .erase => eraseSecrets (eraseMultisig (leaveAllGroups db a) a) a

/-- `delete_account` after the messages: the holdings, the pending challenges, the identity. -/
def removeAccount (db : Database) (now : Time) (a : Address) (mode : Mode) : Database :=
  let dropped := dropHoldings db a mode
  { dropped with
    nonces := dropped.nonces.delete (·.address == a)
    users := dropped.users.update (·.address == a) (stripIdentity mode now) (fun _ => rfl) }

/-- `delete_account`. Messages go before groups: a channel takes its messages with it. -/
def deleteAccount (db : Database) (now : Time) (a : Address) (mode : Mode) : Except Fault Database :=
  match mode with
  | .leave => .ok (removeAccount db now a .leave)
  | .erase => (deleteOwnMessages db a none).map fun r => removeAccount r.1 now a .erase

/-! ## The endpoints -/

/-- `claim_nonce`: the database without the challenge, and whether there was one. -/
def claimNonce (db : Database) (now : Time) (a : Address) (nonce : String) : Database × Bool :=
  let claimed (n : Nonce) : Bool := n.address == a && n.nonce == nonce && now < n.expiresAt
  ({ db with nonces := db.nonces.delete claimed }, (db.nonces.where' claimed).length == 1)

def checkSignedForThisServer (cfg : Config) (origin deployment : String) : Except Fault Unit :=
  if !isCanonicalOrigin origin || !(cfg.loginOrigins.isEmpty || cfg.loginOrigins.contains origin) then
    .error (.http 400 "This login was signed for another site.")
  else if deployment != cfg.deploymentId then
    .error (.http 400 "This login was signed for another Kryptolog server.")
  else .ok ()

inductive EraseStatus
  | redacting
  | deleted
  | erased
  deriving DecidableEq, Repr

/-- `AccountDeleteResponse` and `ConversationEraseResponse`; `redacting` is answered with 409. -/
structure EraseResponse where
  status : EraseStatus
  redacted : ℕ
  deleted : ℕ
  kept : ℕ
  remaining : ℕ
  deriving DecidableEq, Repr

structure EraseRequest where
  nonce : String
  origin : String
  deployment : String
  signature : String
  redactions : List (String × String)

/-- A transaction: the database it started from stays when it faults. -/
def transaction {α : Type} (db : Database) : Except Fault (Database × α) → Database × Except Fault α
  | .ok (db', a) => (db', .ok a)
  | .error fault => (db, .error fault)

/-- The part of `_perform_deletion` after the challenge is spent, up to the verified signature. -/
def authorizeDeletion (prim : Primitives) (cfg : Config) (caller : User) (mode : Mode)
    (req : EraseRequest) : Except Fault Unit := do
  refuseIf (!(req.redactions.map (·.1)).Nodup) (.http 400 "Duplicate redaction id")
  refuseIf (!caller.active) (.http 410 "This account has already been deleted.")
  checkSignedForThisServer cfg req.origin req.deployment
  match accountDeletionMessage prim req.nonce mode (req.redactions.map (·.1)) req.origin
      req.deployment with
  | .error _ => .error (.unhandled "NonCanonicalSignedBody")
  | .ok message =>
    refuseIf (!prim.verifyIdentitySignature caller.identityPublicKey message req.signature)
      (.http 401 "Invalid deletion signature")

/-- The checks of a deletion, passed. -/
theorem authorizeDeletion_eq_ok {prim : Primitives} {cfg : Config} {caller : User} {mode : Mode}
    {req : EraseRequest} {message : String} (hkeys : (req.redactions.map (·.1)).Nodup)
    (hactive : caller.active = true)
    (hsite : checkSignedForThisServer cfg req.origin req.deployment = .ok ())
    (hmessage : accountDeletionMessage prim req.nonce mode (req.redactions.map (·.1)) req.origin
      req.deployment = .ok message)
    (hsigned : prim.verifyIdentitySignature caller.identityPublicKey message req.signature = true) :
    authorizeDeletion prim cfg caller mode req = .ok () := by
  simp [authorizeDeletion, hkeys, hactive, hsite, hmessage, hsigned, refuseIf, bind, Except.bind]

/-- The rounds of an account erase, once authorized. -/
def eraseAccount (prim : Primitives) (db : Database) (now : Time) (caller : User)
    (redactions : List (String × String)) : Except Fault (Database × EraseResponse) := do
  let (db', redacted) ← applyRedactions prim db caller redactions none
  let remaining := (← redactionKeys db' caller.address none).length
  if remaining ≠ 0 then
    .ok (db', ⟨.redacting, redacted, 0, 0, remaining⟩)
  else
    let kept ← keptMessages db' caller.address none
    .ok (← deleteAccount db' now caller.address .erase, ⟨.deleted, redacted, 0, kept, 0⟩)

def performDeletion (prim : Primitives) (cfg : Config) (db : Database) (now : Time) (caller : User)
    (mode : Mode) (req : EraseRequest) : Database × Except Fault EraseResponse :=
  let (claimed, won) := claimNonce db now caller.address req.nonce
  if !won then (claimed, .error (.http 400 "Invalid or expired nonce."))
  else transaction claimed do
    authorizeDeletion prim cfg caller mode req
    match mode with
    | .leave =>
      refuseIf (!req.redactions.isEmpty) (.http 400 "Leaving redacts nothing")
      .ok (← deleteAccount claimed now caller.address .leave, ⟨.deleted, 0, 0, 0, 0⟩)
    | .erase => eraseAccount prim claimed now caller req.redactions

/-- `_scope`: the conversation that a path names. -/
def scopeOfPath (kind : Kind) (conversation : String) : Except Fault (Kind × String) :=
  match kind with
  | .dm =>
    if isValidAddress (lowerText conversation) then .ok (.dm, lowerText conversation)
    else .error (.http 400 "Invalid conversation")
  | .group =>
    if isSignedIdentifierText conversation then .ok (.group, conversation)
    else .error (.http 400 "Invalid conversation")

/-- The part of `erase_conversation` after the challenge is spent, up to the verified signature. -/
def authorizeErase (prim : Primitives) (cfg : Config) (caller : User) (scope : Kind × String)
    (req : EraseRequest) : Except Fault Unit := do
  refuseIf (!(req.redactions.map (·.1)).Nodup) (.http 400 "Duplicate redaction id")
  checkSignedForThisServer cfg req.origin req.deployment
  match conversationEraseMessage prim req.nonce scope.1 scope.2 (req.redactions.map (·.1))
      req.origin req.deployment with
  | .error exc => .error (.http 400 exc)
  | .ok message =>
    refuseIf (!prim.verifyIdentitySignature caller.identityPublicKey message req.signature)
      (.http 401 "Invalid erase signature")

/-- The rounds of a conversation erase, once authorized. -/
def eraseScope (prim : Primitives) (db : Database) (caller : User) (scope : Kind × String)
    (redactions : List (String × String)) : Except Fault (Database × EraseResponse) := do
  let (db', redacted) ← applyRedactions prim db caller redactions (some scope)
  let remaining := (← redactionKeys db' caller.address (some scope)).length
  if remaining ≠ 0 then
    .ok (db', ⟨.redacting, redacted, 0, 0, remaining⟩)
  else
    let kept ← keptMessages db' caller.address (some scope)
    let (db'', deleted) ← deleteOwnMessages db' caller.address (some scope)
    .ok (db'', ⟨.erased, redacted, deleted, kept, 0⟩)

def eraseConversation (prim : Primitives) (cfg : Config) (db : Database) (now : Time)
    (caller : User) (kind : Kind) (conversation : String) (req : EraseRequest) :
    Database × Except Fault EraseResponse :=
  match scopeOfPath kind conversation with
  | .error fault => (db, .error fault)
  | .ok scope =>
    let (claimed, won) := claimNonce db now caller.address req.nonce
    if !won then (claimed, .error (.http 400 "Invalid or expired nonce."))
    else transaction claimed do
      authorizeErase prim cfg caller scope req
      eraseScope prim claimed caller scope req.redactions

end Kryptolog.Server
