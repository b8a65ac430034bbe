import Kryptolog.Library.Runs
import Kryptolog.Server.Identity

/-! # Messages and groups

`routers/messenger.py` and `routers/groups.py` with the group predicates of
`security/authorization.py`. A departing owner hands the channel to a successor, and the last
member of a channel takes it along with its messages.

The encrypted name of a channel is not modelled, nor is what is pushed to other members.
-/

namespace Kryptolog.Server
set_option autoImplicit false

open Tables Json Fallible

/-! ## Predicates on members -/

def findGroupMember (db : Database) (channelId : String) (a : Address) : Option GroupMember :=
  db.groupMembers.find? fun m => m.channelId == channelId && m.userAddress == a

def isGroupMember (db : Database) (channelId : String) (a : Address) : Bool :=
  (findGroupMember db channelId a).isSome

def canAdministerGroup (member : Option GroupMember) : Bool :=
  member.any fun m => m.role == "owner" || m.role == "admin"

def canManageGroupRoles (member : Option GroupMember) : Bool := member.any (·.role == "owner")

def canRemoveGroupMember (member target : GroupMember) : Bool :=
  member.userAddress == target.userAddress || member.role == "owner" ||
    (member.role == "admin" && target.role == "member")

def loadChannelOr404 (db : Database) (channelId : String) : Except Fault GroupChannel :=
  match db.groupChannels.find? (·.id == channelId) with
  | some channel => .ok channel
  | none => .error (.http 404 "Group not found")

def isMessengerCapable (prim : KeyPrimitives) (u : User) : Bool :=
  u.encryptionPublicKey.any (isValidEncryptionKey prim)

/-! ## Messages -/

def sendMessage (prim : KeyPrimitives) (db : Database) (caller : User) (recipientAddress : String)
    (content : Document) : Except Fault Database := do
  let recipientAddr := lower recipientAddress
  refuseIf (recipientAddr == caller.address) (.http 400 "You cannot message yourself")
  match findActiveUser db recipientAddr with
  | none => .error (.http 404 "Recipient not found")
  | some recipient =>
    refuseIf (!isMessengerCapable prim recipient)
      (.http 400 "Recipient is not Messenger-capable (Missing PQC key)")
    .ok { db with
      messages := db.messages.insert
        (fun id => ⟨id, caller.address, recipientAddr.text, content⟩) (fun _ => rfl) }

def sendGroupMessage (db : Database) (caller : User) (channelId : String) (content : Document) :
    Except Fault Database := do
  let _ ← loadChannelOr404 db channelId
  refuseIf (!isGroupMember db channelId caller.address) (.http 403 "Not a member of this group")
  .ok { db with
    groupMessages := db.groupMessages.insert
      (fun id => ⟨id, caller.address, channelId, content⟩) (fun _ => rfl) }

/-! ## Groups -/

def maxGroupMembers : ℕ := 50

/-- The members that a new group will have, each once. -/
def memberAddrs (caller : User) (memberAddresses : List String) : List Address :=
  let named := (memberAddresses.map lower).dedup
  if named.contains caller.address then named else named ++ [caller.address]

/-- `create_group`. The id is `uuid.uuid4()`. -/
def createGroup (prim : KeyPrimitives) (db : Database) (now : Time) (caller : User)
    (channelId : String) (memberAddresses : List String) : Except Fault Database := do
  let addrs := memberAddrs caller memberAddresses
  refuseIf (maxGroupMembers < addrs.length) (.http 400 s!"Maximum {maxGroupMembers} members per group")
  let users := db.users.where' fun u => u.active && addrs.contains u.address
  refuseIf (addrs.any fun a => !users.any (·.address == a))
    (.http 404 "One or more users could not be found")
  match users.find? fun u => !isMessengerCapable prim u with
  | some u =>
    .error (.http 400 s!"User {u.address.text} is not Messenger-capable (no encryption key)")
  | none =>
    refuseIf (db.groupChannels.any (·.id == channelId)) (.unhandled "IntegrityError")
    .ok { db with
      groupChannels := db.groupChannels.insert ⟨channelId, caller.address⟩
      groupMembers := db.groupMembers.insertAll
        (fun a id => ⟨id, channelId, a, if a = caller.address then "owner" else "member", now⟩)
        (fun _ _ => rfl) addrs }

def addMember (prim : KeyPrimitives) (db : Database) (now : Time) (caller : User)
    (channelId userAddress : String) : Except Fault Database := do
  let _ ← loadChannelOr404 db channelId
  refuseIf (!canAdministerGroup (findGroupMember db channelId caller.address))
    (.http 403 "Only owners/admins can add members")
  let newAddr := lower userAddress
  refuseIf (isGroupMember db channelId newAddr) (.http 400 "User is already a member")
  match findActiveUser db newAddr with
  | none => .error (.http 404 "User not found")
  | some target =>
    refuseIf (!isMessengerCapable prim target)
      (.http 400 "User is not Messenger-capable (no encryption key)")
    refuseIf (maxGroupMembers ≤ (db.groupMembers.where' (·.channelId == channelId)).length)
      (.http 400 s!"Maximum {maxGroupMembers} members per group")
    .ok { db with
      groupMembers := db.groupMembers.insert
        (fun id => ⟨id, channelId, newAddr, "member", now⟩) (fun _ => rfl) }

/-- `remove_member`, also how a member leaves. -/
def removeMember (db : Database) (caller : User) (channelId memberAddress : String) :
    Except Fault Database := do
  let channel ← loadChannelOr404 db channelId
  let targetAddr := lower memberAddress
  match findGroupMember db channelId caller.address with
  | none => .error (.http 403 "Not a member of this group")
  | some callerMember =>
    match findGroupMember db channelId targetAddr with
    | none => .error (.http 404 "Member not found in group")
    | some target =>
      refuseIf (!canRemoveGroupMember callerMember target)
        (.http 403 "Only the owner removes admins or the owner; admins remove members")
      let remaining := db.groupMembers.where' fun m =>
        m.channelId == channelId && m.userAddress != targetAddr
      let db' := if target.role == "owner" then succeedGroupOwner db channel remaining else db
      -- where the channel went there is no member left for this to delete
      .ok { db' with
        groupMembers := db'.groupMembers.delete fun m =>
          m.channelId == channelId && m.userAddress == targetAddr }

def updateMemberRole (db : Database) (caller : User) (channelId memberAddress role : String) :
    Except Fault Database := do
  let _ ← loadChannelOr404 db channelId
  refuseIf (!canManageGroupRoles (findGroupMember db channelId caller.address))
    (.http 403 "Only the owner can manage roles")
  match findGroupMember db channelId (lower memberAddress) with
  | none => .error (.http 404 "Member not found")
  | some target =>
    refuseIf (target.role == "owner") (.http 400 "Cannot change owner role directly")
    let newRole := lowerText role
    refuseIf (!(["admin", "member"].contains newRole)) (.http 400 "Invalid role")
    .ok { db with
      groupMembers := db.groupMembers.update (·.id == target.id)
        (fun m => { m with role := newRole }) (fun _ => rfl) }

/-! ## Requests, one after the other -/

inductive Activity
  | sendMessage (recipientAddress : String) (content : Document)
  | sendGroupMessage (channelId : String) (content : Document)
  | createGroup (channelId : String) (memberAddresses : List String)
  | addMember (channelId userAddress : String)
  | removeMember (channelId memberAddress : String)
  | updateMemberRole (channelId memberAddress role : String)
  | depart (mode : Mode) (req : EraseRequest)

/-- A request of the account of a token, at an instant and with the challenges that wait then. -/
structure ActivityCall where
  now : Time
  challenges : Table Nonce
  token : Token
  activity : Activity

/-- What a request in one transaction leaves. -/
def commitOr (db : Database) : Except Fault Database → Database
  | .ok db' => db'
  | .error _ => db

def act (prim : KeyPrimitives) (cfg : Config) (db : Database) (call : ActivityCall) : Database :=
  let db := { db with nonces := call.challenges }
  match getCurrentUser db call.token with
  | .error _ => db
  | .ok caller =>
    match call.activity with
    | .sendMessage recipient content => commitOr db (sendMessage prim db caller recipient content)
    | .sendGroupMessage channelId content =>
      commitOr db (sendGroupMessage db caller channelId content)
    | .createGroup channelId members =>
      commitOr db (createGroup prim db call.now caller channelId members)
    | .addMember channelId user => commitOr db (addMember prim db call.now caller channelId user)
    | .removeMember channelId member => commitOr db (removeMember db caller channelId member)
    | .updateMemberRole channelId member role =>
      commitOr db (updateMemberRole db caller channelId member role)
    | .depart mode req => (performDeletion prim.toPrimitives cfg db call.now caller mode req).1

/-- Where histories of messages and groups start: users, and nothing said yet. -/
def Founded (db : Database) : Prop :=
  db.messages.rows = [] ∧ db.groupMessages.rows = [] ∧ db.groupChannels.rows = [] ∧
    db.groupMembers.rows = []

/-- What any sequence of sends, membership changes and departures leads to. -/
def InHistory (prim : KeyPrimitives) (cfg : Config) (db : Database) : Prop :=
  ∃ db₀ calls, Founded db₀ ∧ Runs.Run (Runs.ofFun (act prim cfg)) db₀ calls db

end Kryptolog.Server
