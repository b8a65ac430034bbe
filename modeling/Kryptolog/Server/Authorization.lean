import Kryptolog.Server.CryptoValidation

/-! # Authorization

`security/authorization.py`: every "may this address do that" question the endpoints ask, over
the database. The rules for reading a workflow occur three times, as a predicate on one
workflow, inside the rule for reading a secret, and as a query over all workflows.
-/

namespace Kryptolog.Server
set_option autoImplicit false

open Tables Json

/-! ## Identities -/

def User.active (u : User) : Bool := u.deletedAt.isNone

def findUser (db : Database) (a : Address) : Option User := db.users.find? (·.address == a)

def findActiveUser (db : Database) (a : Address) : Option User := (findUser db a).filter User.active

/-- A decoded access token. -/
structure Token where
  sub : String
  tv : ℕ

def userForToken (db : Database) (token : Token) : Option User :=
  (findUser db (lower token.sub)).filter fun u => u.active && token.tv == u.tokenVersion

def getCurrentUser (db : Database) (token : Token) : Except Fault User :=
  match userForToken db token with
  | some u => .ok u
  | none => .error (.http 401 "Could not validate credentials")

/-! ## Secrets and grants -/

def AccessGrant.live (now : Time) (g : AccessGrant) : Bool :=
  match g.expiresAt with
  | none => true
  | some t => now < t

def findLiveGrant (db : Database) (now : Time) (secretId : ℕ) (a : Address) : Option AccessGrant :=
  db.accessGrants.find? fun g => g.secretId == secretId && g.granteeAddress == a && g.live now

def liveGrantsOf (db : Database) (now : Time) (a : Address) : List AccessGrant :=
  db.accessGrants.where' fun g => g.granteeAddress == a && g.live now

/-- `purge_expired_grants`: the grants in `scope` that have passed their expiry go. -/
def purgeExpiredGrants (db : Database) (now : Time) (scope : AccessGrant → Bool) : Database :=
  { db with accessGrants := db.accessGrants.delete fun g => !g.live now && scope g }

def isWorkflowManaged (db : Database) (secretId : ℕ) : Bool :=
  db.workflows.any fun w => w.secretId == secretId

/-! ## Workflows -/

def findWorkflowSigner (db : Database) (workflowId : ℕ) (a : Address) :
    Option MultisigWorkflowSigner :=
  db.signers.find? fun s => s.workflowId == workflowId && s.userAddress == a

def findWorkflowRecipient (db : Database) (workflowId : ℕ) (a : Address) :
    Option MultisigWorkflowRecipient :=
  db.recipients.find? fun r => r.workflowId == workflowId && r.userAddress == a

def canReadWorkflow (db : Database) (w : Option MultisigWorkflow) (a : Address) : Bool :=
  match w with
  | none => false
  | some w =>
    w.ownerAddress == a || (findWorkflowSigner db w.id a).isSome ||
      (w.status == .completed && (findWorkflowRecipient db w.id a).isSome)

def readableWorkflows (db : Database) (a : Address) : List MultisigWorkflow :=
  let signerIds := (db.signers.where' (·.userAddress == a)).map (·.workflowId)
  let recipientIds := (db.recipients.where' (·.userAddress == a)).map (·.workflowId)
  db.workflows.where' fun w =>
    w.ownerAddress == a || signerIds.contains w.id ||
      (recipientIds.contains w.id && w.status == .completed)

def canDeleteWorkflow (w : MultisigWorkflow) (a : Address) : Bool := w.ownerAddress == a

def workflowIsDeletable (w : MultisigWorkflow) : Bool := w.status != .completed

/-! ## Access to a secret -/

def canReadSecret (db : Database) (now : Time) (s : Secret) (a : Address) : Bool :=
  s.ownerAddress == a || (findLiveGrant db now s.id a).isSome ||
    canReadWorkflow db (db.workflows.find? fun w => w.secretId == s.id) a

def canWriteSecret (s : Secret) (a : Address) : Bool := s.ownerAddress == a

def canManageSecret (s : Secret) (a : Address) : Bool := canWriteSecret s a

def isOwnerGrant (s : Secret) (grantee : Address) : Bool := s.ownerAddress == grantee

def canManageGrant (db : Database) (g : AccessGrant) (a : Address) : Bool :=
  g.granteeAddress == a || (db.secrets.find? (·.id == g.secretId)).any (canManageSecret · a)

/-! ## Groups -/

/-- `succeed_group_owner`: the channel goes with its last member; else an admin, or the member
who joined first, becomes its owner. -/
def succeedGroupOwner (db : Database) (channel : GroupChannel) (remaining : List GroupMember) :
    Database :=
  let earliest := remaining.foldl (fun best m =>
    match best with
    | none => some m
    | some b => if m.joinedAt < b.joinedAt then some m else some b) (none : Option GroupMember)
  match (remaining.find? (·.role == "admin")).or earliest with
  | none =>
    { db with
      groupChannels := db.groupChannels.delete (·.id == channel.id)
      groupMembers := db.groupMembers.delete (·.channelId == channel.id)
      groupMessages := db.groupMessages.delete (·.target == channel.id) }
  | some successor =>
    { db with
      groupMembers := db.groupMembers.update (·.id == successor.id)
        (fun m => { m with role := "owner" }) (fun _ => rfl)
      groupChannels := db.groupChannels.update (·.id == channel.id)
        (fun c => { c with ownerAddress := successor.userAddress }) (fun _ => rfl) }

end Kryptolog.Server
