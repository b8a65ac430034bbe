import Mathlib.Data.List.Nodup
import Kryptolog.Library.Runs
import Kryptolog.Client.TrustedKeys

/-! # Open conversations

The panel of the messenger: `Messenger.jsx`, and the parts of `MessengerContext.jsx` and `groupEvents.js` that write
the open direct chat and the open group. Both are React state, and every setter that reads it is given a function of
the state before: the panel holds the state after all updates, and beside it the refs, which are as of the last
commit.
-/

namespace Kryptolog.Client
set_option autoImplicit false

open Script
open Server (Kind)
open Runs

/-! ## Conversations -/

inductive ChatId
  | dm (address : Text)
  | group (id : Text)
  deriving DecidableEq

def ChatId.kind : ChatId → Kind
  | dm _ => .dm
  | group _ => .group

/-- A message, and the conversation that it is posted in. -/
structure ChatMessage where
  id : ℕ
  chat : ChatId
  deriving DecidableEq

/-- A partner as the directory has it. -/
structure PartnerRecord where
  contact : Contact
  username : Text
  served : contact.IsServed

/-- A row of a member list: `user`, under the address of the row. -/
structure GroupRow where
  contact : Contact
  role : Text
  username : Text
  served : contact.IsServed

/-- The members of a group, each once. -/
structure MemberList where
  rows : List GroupRow
  distinct : (rows.map (·.contact.address)).Nodup

structure Channel where
  id : Text
  name : Text
  displayName : Option Text
  ownerAddress : Text
  members : MemberList

/-- `activeConversation`. -/
structure OpenDm where
  user : PartnerRecord
  messages : List ChatMessage

/-- `activeGroupConversation`. -/
structure OpenGroup where
  channel : Channel
  messages : List ChatMessage

def PartnerRecord.chat (user : PartnerRecord) : ChatId := .dm (toLowerCase user.contact.address)

def Channel.chat (channel : Channel) : ChatId := .group channel.id

def OpenDm.chat (c : OpenDm) : ChatId := c.user.chat

def OpenGroup.chat (g : OpenGroup) : ChatId := g.channel.chat

/-- A message is appended where no message has its id. -/
def appendMessage (messages : List ChatMessage) (m : ChatMessage) : List ChatMessage :=
  if messages.any (·.id == m.id) then messages else messages ++ [m]

namespace OpenDm

variable (c : OpenDm)

def append (m : ChatMessage) : OpenDm := { c with messages := appendMessage c.messages m }

/-- `applyPartner`, on the open chat. -/
def applyPartner (partner : PartnerRecord) : OpenDm :=
  if c.chat ≠ partner.chat then c
  else if c.user.username = partner.username ∧
    c.user.contact.encryptionPublicKey = partner.contact.encryptionPublicKey then c
  else { c with user := partner }

end OpenDm

/-- `GROUP_MEMBER_ADDED` carries no identity key and no attestation. -/
def GroupRow.ofEvent (row : GroupRow) : GroupRow where
  contact := { row.contact with identityPublicKey := [], encryptionKeyAttestation := [] }
  role := row.role
  username := row.username
  served := row.served

namespace MemberList

variable (l : MemberList)

/-- A member is added where no row has its address. -/
def add (row : GroupRow) : MemberList :=
  if h : l.rows.any (·.contact.address == row.contact.address) then l
  else
    { rows := l.rows ++ [row]
      distinct := by
        rw [List.map_append, List.nodup_append]
        refine ⟨l.distinct, List.nodup_singleton _, fun a ha b hb hab => h ?_⟩
        obtain ⟨m, hm, rfl⟩ := List.mem_map.mp ha
        exact List.any_eq_true.mpr ⟨m, hm, beq_iff_eq.mpr (hab.trans (List.mem_singleton.mp hb))⟩ }

def remove (address : Text) : MemberList where
  rows := l.rows.filter (·.contact.address ≠ address)
  distinct := l.distinct.sublist (List.filter_sublist.map _)

def setRole (address role : Text) : MemberList where
  rows := l.rows.map fun m => if m.contact.address = address then { m with role := role } else m
  distinct := by
    have haddress : ((l.rows.map fun m => if m.contact.address = address then { m with role := role } else m).map
        (·.contact.address)) = l.rows.map (·.contact.address) := by
      rw [List.map_map]
      refine List.map_congr_left fun m _ => ?_
      simp only [Function.comp_apply]
      split <;> rfl
    rw [haddress]
    exact l.distinct

end MemberList

namespace OpenGroup

variable (g : OpenGroup)

def append (m : ChatMessage) : OpenGroup := { g with messages := appendMessage g.messages m }

def setMembers (members : MemberList) : OpenGroup := { g with channel := { g.channel with members := members } }

def addMember (row : GroupRow) : OpenGroup := g.setMembers (g.channel.members.add row)

def removeMember (address : Text) : OpenGroup := g.setMembers (g.channel.members.remove address)

/-- The update of `GROUP_MEMBER_UPDATED`. -/
def updateMember (address role : Text) : OpenGroup :=
  { g with channel := { g.channel with
    members := g.channel.members.setRole address role
    ownerAddress := if role = lit "owner" then address else g.channel.ownerAddress } }

/-- The update of `GROUP_UPDATED`. -/
def rename (name : Text) : OpenGroup := { g with channel := { g.channel with name := name } }

/-- The update of `renameGroup`. -/
def entitle (name displayName : Text) : OpenGroup :=
  { g with channel := { g.channel with name := name, displayName := some displayName } }

/-- An update that begins by comparing the group with the one that it is for. -/
def patch (id : Text) (f : OpenGroup → OpenGroup) : OpenGroup := if g.channel.id = id then f g else g

end OpenGroup

/-! ## The panel -/

/-- What the user sees. -/
inductive ShownChat
  | dm (c : OpenDm)
  | group (g : OpenGroup)

def ShownChat.chat : ShownChat → ChatId
  | dm c => c.chat
  | group g => g.chat

def ShownChat.messages : ShownChat → List ChatMessage
  | dm c => c.messages
  | group g => g.messages

/-- `loadConversation` or `loadGroupConversation`, by the answer that it waits for. -/
inductive ChatLoad
  | lookup (user : PartnerRecord)
  | dmHistory (user : PartnerRecord)
  | details (channel : Channel)
  | groupHistory (channel : Channel)
  | ended

def ChatLoad.isEnded : ChatLoad → Bool
  | ended => true
  | _ => false

def ChatLoad.chat : ChatLoad → Option ChatId
  | lookup user | dmHistory user => some user.chat
  | details channel | groupHistory channel => some channel.chat
  | ended => none

structure Panel where
  dm : Option OpenDm
  group : Option OpenGroup
  /-- `activeConversationRef` and `activeGroupConversationRef`. -/
  dmRef : Option OpenDm
  groupRef : Option OpenGroup
  loads : List ChatLoad
  /-- The conversation that was opened last, and the load that it began. -/
  opened : Option (ChatId × ℕ)
  /-- The messages of that conversation that its history has, or that were sent or delivered since it was opened. -/
  due : List ℕ
  /-- An update threw, and React has taken the page down. -/
  broken : Bool

inductive PanelAction
  | openDm (user : PartnerRecord)
  | openGroup (channel : Channel)
  | back
  | lookup (i : ℕ) (found : Option PartnerRecord)
  | details (i : ℕ) (found : Option Channel)
  | history (i : ℕ) (rows : Option (List ChatMessage))
  /-- A send is answered. -/
  | sent (m : ChatMessage)
  /-- A live message has been decrypted. -/
  | arrive (m : ChatMessage)
  /-- A lookup of the directory is answered. -/
  | partner (record : PartnerRecord)
  | memberAdded (id : Text) (row : GroupRow)
  | memberUpdated (id address role : Text)
  | groupUpdated (id name : Text)
  | memberRemoved (id address : Text)
  /-- The client's own calls are answered. -/
  | addGroupMember (id : Text) (row : GroupRow)
  | removeGroupMember (id userAddress : Text)
  | renameGroup (id name displayName : Text)
  | commit

/-- The conversation that an answer, a send or an event is about. -/
def PanelAction.chat (loads : List ChatLoad) : PanelAction → Option ChatId
  | openDm _ | openGroup _ | back | commit => none
  | lookup i _ | details i _ | history i _ => loads[i]?.bind ChatLoad.chat
  | sent m | arrive m => some m.chat
  | partner record => some record.chat
  | memberAdded id _ | memberUpdated id _ _ | groupUpdated id _ | memberRemoved id _ | addGroupMember id _
  | removeGroupMember id _ | renameGroup id _ _ => some (.group id)

/-- The messages of a conversation, each once: what the server answers. -/
def isHistory (chat : ChatId) (rows : List ChatMessage) : Bool :=
  rows.all (·.chat = chat) && decide (rows.map (·.id)).Nodup

namespace Panel

def start : Panel where
  dm := none
  group := none
  dmRef := none
  groupRef := none
  loads := []
  opened := none
  due := []
  broken := false

variable (me : Text) (s : Panel)

/-- An open group is shown before an open direct chat. -/
def shown : Option ShownChat :=
  if s.broken then none
  else match s.group with
    | some g => some (.group g)
    | none => s.dm.map .dm

/-- The group of the last commit is the one with the id. -/
def refersTo (id : Text) : Bool := s.groupRef.any (·.channel.id = id)

/-- More messages of a conversation are due, if it was opened last. -/
def dueIn (chat : ChatId) (ids : List ℕ) : List ℕ :=
  if s.opened.map (·.1) = some chat then ids ++ s.due else s.due

/-- A step of a page that is up. -/
def take : PanelAction → Option Panel
  | .openDm user =>
    some { s with
      group := none
      dm := if user.contact.encryptionPublicKey.isEmpty then s.dm else some ⟨user, []⟩
      loads := s.loads ++ [if user.contact.encryptionPublicKey.isEmpty then .lookup user else .dmHistory user]
      opened := some (user.chat, s.loads.length)
      due := [] }
  | .openGroup channel =>
    some { s with
      dm := none
      group := some ⟨channel, []⟩
      loads := s.loads ++ [.details channel]
      opened := some (channel.chat, s.loads.length)
      due := [] }
  | .back => some { s with dm := none, group := none, opened := none, due := [] }
  | .lookup i found =>
    match s.loads[i]? with
    | some (.lookup user) =>
      if found.all (·.chat = user.chat) then
        some { s with dm := some ⟨found.getD user, []⟩, loads := s.loads.set i (.dmHistory (found.getD user)) }
      else none
    | _ => none
  | .details i found =>
    match s.loads[i]? with
    | some (.details channel) =>
      if found.all (·.id = channel.id) then
        some { s with loads := s.loads.set i (.groupHistory (found.getD channel)) }
      else none
    | _ => none
  | .history i none =>
    match s.loads[i]? with
    | some (.dmHistory _) | some (.groupHistory _) => some { s with loads := s.loads.set i .ended }
    | _ => none
  | .history i (some rows) =>
    match s.loads[i]? with
    | some (.dmHistory user) =>
      if isHistory user.chat rows then
        some { s with
          dm := some ⟨user, rows⟩
          loads := s.loads.set i .ended
          due := if s.opened = some (user.chat, i) then rows.map (·.id) ++ s.due else s.due }
      else none
    | some (.groupHistory channel) =>
      if isHistory channel.chat rows then
        some { s with
          group := some ⟨channel, rows⟩
          loads := s.loads.set i .ended
          due := if s.opened = some (channel.chat, i) then rows.map (·.id) ++ s.due else s.due }
      else none
    | _ => none
  | .sent m =>
    -- The message is appended to whatever is open.
    match m.chat with
    | .dm _ => some { s with dm := s.dm.map (·.append m), due := s.dueIn m.chat [m.id] }
    | .group _ => some { s with group := s.group.map (·.append m), due := s.dueIn m.chat [m.id] }
  | .arrive m =>
    match m.chat with
    | .dm _ => some { s with
        dm := if s.dmRef.any (·.chat = m.chat) then s.dm.map fun c => if c.chat = m.chat then c.append m else c
          else s.dm
        due := s.dueIn m.chat [m.id] }
    | .group id => some { s with
        group := if s.refersTo id then s.group.map (·.patch id (·.append m)) else s.group
        due := s.dueIn m.chat [m.id] }
  | .partner record => some { s with dm := s.dm.map (·.applyPartner record) }
  | .memberAdded id row =>
    some { s with
      group := if s.refersTo id then s.group.map (·.patch id (·.addMember row.ofEvent)) else s.group }
  | .memberUpdated id address role =>
    some { s with group := if s.refersTo id then s.group.map (·.patch id (·.updateMember address role)) else s.group }
  | .groupUpdated id name =>
    some { s with
      group := if s.refersTo id then s.group.map (·.rename name) else s.group
      broken := s.refersTo id && s.group.isNone }
  | .memberRemoved id address =>
    if address = me then
      if s.refersTo id then
        some { s with
          group := none
          opened := s.opened.filter (·.1 ≠ .group id) }
      else some s
    else
      some { s with
        group := if s.refersTo id then s.group.map (·.removeMember address) else s.group
        broken := s.refersTo id && s.group.isNone }
  | .addGroupMember id row => some { s with group := s.group.map (·.patch id (·.addMember row)) }
  | .removeGroupMember id userAddress =>
    some { s with group := s.group.map (·.patch id (·.removeMember (toLowerCase userAddress))) }
  | .renameGroup id name displayName =>
    some { s with group := s.group.map (·.patch id (·.entitle name displayName)) }
  | .commit => some { s with dmRef := s.dm, groupRef := s.group }

def step (a : PanelAction) : Option Panel := if s.broken then none else s.take me a

end Panel

end Kryptolog.Client
