import Mathlib.Data.String.Basic
import Kryptolog.Server.HistoryPages
import Kryptolog.Server.OwnerGrants

/-! # The paged lists

The endpoints that list a caller's workflows, conversations, groups and secrets. Each answers with a page of an
ordered query and assembles its rows afterwards, dropping what it cannot assemble. The constraints of `models.py`
leave nothing to drop, so that every page is a slice of one list.
-/

namespace Kryptolog.Server
set_option autoImplicit false

open Tables Json Fallible Pages

/-! ## The tables of the messenger -/

structure DatedChannel extends GroupChannel where
  name : String
  createdAt : Time

instance : Keyed DatedChannel String := ⟨fun c => c.id⟩

@[simp] theorem key_datedChannel (c : DatedChannel) : Keyed.key c = c.id := rfl

/-- The rows that the lists of conversations and groups read. -/
structure MessageStore where
  users : Table User
  tables : Messages
  /-- `is_read` of a direct message, by its id. -/
  isRead : ℕ → Bool
  channels : Table DatedChannel
  members : Serial GroupMember

/-! ## Conversations -/

structure ConversationResponse where
  user : User
  lastMessage : AgedMessage
  unreadCount : ℕ

def involves (a : Address) (m : AgedMessage) : Bool := m.senderAddress == a || m.target == a.text

/-- `partner_address_col`. -/
def partnerOf (a : Address) (m : AgedMessage) : String :=
  if m.senderAddress = a then m.target else m.senderAddress.text

/-- The messages whose id is the greatest of their conversation. -/
def latestMessages (s : MessageStore) (a : Address) : List AgedMessage :=
  let involved := (s.tables .dm).where' (involves a)
  (s.tables .dm).where' fun m => involves a m &&
    involved.all fun m' => partnerOf a m' != partnerOf a m || m'.id ≤ m.id

/-- `created_at.desc(), id.desc()`. -/
def newestFirst (m m' : AgedMessage) : Bool :=
  m'.createdAt < m.createdAt || (m'.createdAt == m.createdAt && m'.id ≤ m.id)

def unreadFrom (s : MessageStore) (a : Address) (partners : List String) (partner : Address) : ℕ :=
  if partners.contains partner.text then
    ((s.tables .dm).where' fun m => m.target == a.text && m.senderAddress == partner && !s.isRead m.id).length
  else 0

def findPartner (s : MessageStore) (a : Address) (m : AgedMessage) : Option User :=
  s.users.find? fun u => u.address.text == partnerOf a m

def getConversations (s : MessageStore) (caller : User) (limit offset : ℕ) : List ConversationResponse :=
  let latest := page limit offset ((latestMessages s caller.address).mergeSort newestFirst)
  let partners := latest.map (partnerOf caller.address)
  latest.filterMap fun m => (findPartner s caller.address m).map fun partner =>
    ⟨partner, m, unreadFrom s caller.address partners partner.address⟩

/-! ## Groups -/

structure GroupConversationResponse where
  channel : DatedChannel
  members : List (GroupMember × Option User)
  lastMessage : Option AgedMessage
  unreadCount : ℕ

def memberChannelIds (s : MessageStore) (a : Address) : List String :=
  (s.members.where' (·.userAddress == a)).map (·.channelId)

def messagesOf (s : MessageStore) (channelId : String) : List AgedMessage :=
  (s.tables .group).where' fun m => m.target == channelId

/-- `last_id`. -/
def lastId (s : MessageStore) (channelId : String) : Option ℕ := ((messagesOf s channelId).map fun m => m.id).max?

/-- The time of the last message, or else of the channel's creation. -/
def activity (s : MessageStore) (c : DatedChannel) : ℕ :=
  ((messagesOf s c.id).map AgedMessage.createdAt).max?.getD c.createdAt

/-- `activity.desc(), GroupChannel.id`. -/
def activeFirst (s : MessageStore) (c c' : DatedChannel) : Bool :=
  activity s c' < activity s c || (activity s c' == activity s c && c.id ≤ c'.id)

/-- The channel with its members and its last message. -/
def groupConversation (s : MessageStore) (c : DatedChannel) : GroupConversationResponse where
  channel := c
  members := (s.members.where' (·.channelId == c.id)).map fun m =>
    (m, s.users.find? fun u => u.address == m.userAddress)
  lastMessage := (lastId s c.id).bind fun last => (messagesOf s c.id).find? fun m => m.id == last
  unreadCount := 0

def listGroups (s : MessageStore) (caller : User) (limit offset : ℕ) : List GroupConversationResponse :=
  let mine := s.channels.where' fun c => (memberChannelIds s caller.address).contains c.id
  let channelIds := (page limit offset (mine.mergeSort (activeFirst s))).map fun c => c.id
  channelIds.filterMap fun cid => (s.channels.find? fun c => c.id == cid).map (groupConversation s)

/-! ## The bounds of a page -/

def workflowPageMax : ℕ := 100
def conversationPageMax : ℕ := 100
def groupPageMax : ℕ := 100
def secretPageMax : ℕ := 100
def grantPageMax : ℕ := 200

/-- `Query(…, ge=1, le=pageMax)`. -/
def checkPageLimit (pageMax limit : ℕ) : Except Fault Unit :=
  if limit < 1 then .error (.http 422 "query.limit: Input should be greater than or equal to 1")
  else if pageMax < limit then .error (.http 422 s!"query.limit: Input should be less than or equal to {pageMax}")
  else .ok ()

/-! ## What the database keeps -/

/-- The foreign key of a workflow, the unique constraint of grants, and rows in the order of their numbers. -/
structure Database.Constrained (db : Database) : Prop where
  workflowSecret : ∀ w ∈ db.workflows, ∃ s ∈ db.secrets, s.id = w.secretId
  oneGrant : ∀ g ∈ db.accessGrants, ∀ g' ∈ db.accessGrants,
    g.secretId = g'.secretId → g.granteeAddress = g'.granteeAddress → g = g'
  workflowsInOrder : db.workflows.InOrder
  secretsInOrder : db.secrets.InOrder
  grantsInOrder : db.accessGrants.InOrder

/-- The foreign keys of a direct message. -/
structure MessageStore.Constrained (s : MessageStore) : Prop where
  sender : ∀ m ∈ s.tables .dm, ∃ u ∈ s.users, u.address = m.senderAddress
  recipient : ∀ m ∈ s.tables .dm, ∃ u ∈ s.users, u.address.text = m.target

/-! ## Workflows -/

section workflows

variable {db : Database} {caller : User}

/-- One row of `list_multisig_workflows`, where its secret is there. -/
def workflowRow (db : Database) (caller : User) (w : MultisigWorkflow) : Option MultisigWorkflowSummaryResponse :=
  (db.secrets.find? (·.id == w.secretId)).map fun s =>
    let grant := db.accessGrants.find? fun g => g.secretId == s.id && g.granteeAddress == caller.address
    let key := if w.ownerAddress == caller.address then (grant.map (·.encryptedKey)).filter Document.truthy else none
    workflowSummary db w s key key

/-- Every row of the list. -/
def allWorkflows (db : Database) (caller : User) : List MultisigWorkflowSummaryResponse :=
  (readableWorkflows db caller.address).reverse.filterMap (workflowRow db caller)

theorem workflowRow_isSome (h : db.Constrained) {w : MultisigWorkflow}
    (hw : w ∈ (readableWorkflows db caller.address).reverse) : (workflowRow db caller w).isSome = true := by
  obtain ⟨s, hs, hid⟩ := h.workflowSecret w (mem_readableWorkflows.mp (List.mem_reverse.mp hw)).1
  obtain ⟨s', hfind⟩ := Table.find?_isSome (T := db.secrets.toTable) (p := (·.id == w.secretId)) hs (by simp [hid])
  rw [workflowRow, hfind]
  rfl

theorem listMultisigWorkflows_eq (h : db.Constrained) (limit offset : ℕ) :
    listMultisigWorkflows db caller limit offset = page limit offset (allWorkflows db caller) :=
  filterMap_slice (fun _ hw => workflowRow_isSome h hw) limit offset

theorem enumerates_workflows (h : db.Constrained) :
    Enumerates (fun w => w ∈ db.workflows ∧ canReadWorkflow db (some w) caller.address = true)
      (fun w w' => w'.id < w.id) ((allWorkflows db caller).map (·.workflow)) := by
  have hrows : (allWorkflows db caller).map (·.workflow) = (readableWorkflows db caller.address).reverse := by
    rw [allWorkflows, map_filterMap (k := id) (fun w row hrow => ?_), List.map_id, List.filter_eq_self.mpr]
    · exact fun w hw => workflowRow_isSome h hw
    · obtain ⟨s, -, rfl⟩ := Option.map_eq_some_iff.mp hrow
      rfl
  rw [hrows]
  refine ⟨fun w => ?_, ?_, ?_⟩
  · rw [List.mem_reverse, mem_readableWorkflows, canReadWorkflow_iff]
  · exact List.nodup_reverse.mpr ((List.Nodup.of_map _ db.workflows.nodup).filter _)
  · exact List.pairwise_reverse.mpr (h.workflowsInOrder.where' _)

end workflows

/-! ## Conversations, in order -/

section conversations

variable {s : MessageStore} {a : Address} {caller : User}

/-- One row of `get_conversations`, where the partner is there. -/
def conversationRow (s : MessageStore) (a : Address) (m : AgedMessage) : Option ConversationResponse :=
  (findPartner s a m).map fun partner => ⟨partner, m, unreadFrom s a [partnerOf a m] partner.address⟩

def allConversations (s : MessageStore) (a : Address) : List ConversationResponse :=
  ((latestMessages s a).mergeSort newestFirst).filterMap (conversationRow s a)

/-- The last message of the caller with one partner. -/
structure IsLatest (s : MessageStore) (a : Address) (m : AgedMessage) : Prop where
  stored : m ∈ s.tables .dm
  mine : m.senderAddress = a ∨ m.target = a.text
  latest : ∀ m' ∈ s.tables .dm, m'.senderAddress = a ∨ m'.target = a.text → partnerOf a m' = partnerOf a m →
    m'.id ≤ m.id

theorem involves_iff {m : AgedMessage} : involves a m = true ↔ m.senderAddress = a ∨ m.target = a.text := by
  simp [involves]

theorem mem_latestMessages {m : AgedMessage} : m ∈ latestMessages s a ↔ IsLatest s a m := by
  simp only [latestMessages, Table.mem_where', Serial.mem_toTable, Bool.and_eq_true, involves_iff, List.all_eq_true,
    Bool.or_eq_true, bne_iff_ne, decide_eq_true_eq]
  constructor
  · rintro ⟨hm, hmine, hall⟩
    exact ⟨hm, hmine, fun m' hm' hmine' hsame => (hall m' ⟨hm', hmine'⟩).resolve_left (absurd hsame)⟩
  · rintro ⟨hm, hmine, hall⟩
    refine ⟨hm, hmine, fun m' hm' => ?_⟩
    by_cases hsame : partnerOf a m' = partnerOf a m
    · exact .inr (hall m' hm'.1 hm'.2 hsame)
    · exact .inl hsame

theorem newestFirst_iff {m m' : AgedMessage} : newestFirst m m' = true ↔
    m'.createdAt < m.createdAt ∨ m'.createdAt = m.createdAt ∧ m'.id ≤ m.id := by
  simp [newestFirst]

theorem newestFirst_trans (m₁ m₂ m₃ : AgedMessage) (h : newestFirst m₁ m₂ = true) (h' : newestFirst m₂ m₃ = true) :
    newestFirst m₁ m₃ = true := by
  rw [newestFirst_iff] at h h' ⊢
  omega

theorem newestFirst_total (m m' : AgedMessage) : (newestFirst m m' || newestFirst m' m) = true := by
  rw [Bool.or_eq_true, newestFirst_iff, newestFirst_iff]
  omega

theorem findPartner_isSome (h : s.Constrained) {m : AgedMessage} (hm : m ∈ s.tables .dm) :
    (findPartner s a m).isSome = true := by
  obtain ⟨u, hu, haddress⟩ : ∃ u ∈ s.users, u.address.text = partnerOf a m := by
    rw [partnerOf]
    split
    · exact h.recipient m hm
    · obtain ⟨u, hu, haddress⟩ := h.sender m hm
      exact ⟨u, hu, by rw [haddress]⟩
  obtain ⟨u', hfind⟩ := Table.find?_isSome (T := s.users) (p := fun u => u.address.text == partnerOf a m) hu
    (by simp [haddress])
  rw [findPartner, hfind]
  rfl

theorem conversationRow_isSome (h : s.Constrained) {m : AgedMessage}
    (hm : m ∈ (latestMessages s a).mergeSort newestFirst) : (conversationRow s a m).isSome = true := by
  rw [conversationRow, Option.isSome_map]
  exact findPartner_isSome h (mem_latestMessages.mp (List.mem_mergeSort.mp hm)).stored

/-- The page counts what is unread for each of its own partners. -/
theorem getConversations_eq (h : s.Constrained) (limit offset : ℕ) :
    getConversations s caller limit offset = page limit offset (allConversations s caller.address) := by
  refine Eq.trans ?_ (filterMap_slice (fun m hm => conversationRow_isSome h hm) limit offset)
  refine List.filterMap_congr fun m hm => ?_
  cases hfind : findPartner s caller.address m with
  | none => rw [conversationRow, hfind, Option.map_none, Option.map_none]
  | some partner =>
    have haddress : partner.address.text = partnerOf caller.address m := by
      simpa using (Table.find?_mem hfind).2
    have hlisted : ∀ partners : List String, partnerOf caller.address m ∈ partners →
        partners.contains partner.address.text = true := by
      intro partners hpartner
      rw [haddress]
      exact List.contains_iff_mem.mpr hpartner
    rw [conversationRow, hfind, Option.map_some, Option.map_some, unreadFrom, unreadFrom,
      hlisted _ (List.mem_map_of_mem hm), hlisted _ List.mem_cons_self]

theorem enumerates_conversations (h : s.Constrained) :
    Enumerates (IsLatest s a) (fun m m' => m'.createdAt < m.createdAt ∨ m'.createdAt = m.createdAt ∧ m'.id < m.id)
      ((allConversations s a).map (·.lastMessage)) := by
  have hrows : (allConversations s a).map (·.lastMessage) = (latestMessages s a).mergeSort newestFirst := by
    rw [allConversations, map_filterMap (k := id) (fun m row hrow => ?_), List.map_id, List.filter_eq_self.mpr]
    · exact fun m hm => conversationRow_isSome h hm
    · obtain ⟨partner, -, rfl⟩ := Option.map_eq_some_iff.mp hrow
      rfl
  have hnodup : ((latestMessages s a).mergeSort newestFirst).Nodup :=
    (List.mergeSort_perm ..).nodup_iff.mpr (nodup_where' ..)
  rw [hrows]
  refine ⟨fun m => List.mem_mergeSort.trans mem_latestMessages, hnodup, ?_⟩
  have hsorted := List.pairwise_mergeSort newestFirst_trans newestFirst_total (latestMessages s a)
  refine (hsorted.and hnodup).imp_of_mem fun {m m'} hm hm' hle => ?_
  have hid : m'.id ≠ m.id := fun hid => hle.2 (Serial.eq_of_key
    (mem_latestMessages.mp (List.mem_mergeSort.mp hm)).stored
    (mem_latestMessages.mp (List.mem_mergeSort.mp hm')).stored hid.symm)
  have hnewest := newestFirst_iff.mp hle.1
  omega

/-- The user of a conversation is the one that its last message was exchanged with. -/
theorem user_of_conversation {c : ConversationResponse} (hc : c ∈ allConversations s a) :
    c.user ∈ s.users ∧ c.user.address.text = partnerOf a c.lastMessage := by
  obtain ⟨m, -, hrow⟩ := List.mem_filterMap.mp hc
  obtain ⟨partner, hfind, rfl⟩ := Option.map_eq_some_iff.mp hrow
  obtain ⟨hpartner, haddress⟩ := Table.find?_mem hfind
  exact ⟨hpartner, by simpa using haddress⟩

end conversations

/-! ## Groups, in order -/

section groups

variable {s : MessageStore} {a : Address} {caller : User}

/-- Every channel that the caller is a member of, the most active first. -/
def sortedChannels (s : MessageStore) (a : Address) : List DatedChannel :=
  (s.channels.where' fun c => (memberChannelIds s a).contains c.id).mergeSort (activeFirst s)

def allGroups (s : MessageStore) (a : Address) : List GroupConversationResponse :=
  (sortedChannels s a).map (groupConversation s)

theorem mem_sortedChannels {c : DatedChannel} : c ∈ sortedChannels s a ↔
    c ∈ s.channels ∧ ∃ m ∈ s.members, m.channelId = c.id ∧ m.userAddress = a := by
  rw [sortedChannels, List.mem_mergeSort, Table.mem_where', List.contains_iff_mem, memberChannelIds, List.mem_map]
  refine and_congr_right fun _ => exists_congr fun m => ?_
  rw [Table.mem_where', Serial.mem_toTable, beq_iff_eq, and_assoc, and_comm (a := m.userAddress = a)]

theorem activeFirst_iff {c c' : DatedChannel} : activeFirst s c c' = true ↔
    activity s c' < activity s c ∨ activity s c' = activity s c ∧ c.id ≤ c'.id := by
  simp [activeFirst]

theorem activeFirst_trans (c₁ c₂ c₃ : DatedChannel) (h : activeFirst s c₁ c₂ = true)
    (h' : activeFirst s c₂ c₃ = true) : activeFirst s c₁ c₃ = true := by
  rw [activeFirst_iff] at h h' ⊢
  rcases h with h | ⟨h, hid⟩
  · exact .inl (by omega)
  · rcases h' with h' | ⟨h', hid'⟩
    · exact .inl (by omega)
    · exact .inr ⟨by omega, hid.trans hid'⟩

theorem activeFirst_total (c c' : DatedChannel) : (activeFirst s c c' || activeFirst s c' c) = true := by
  rw [Bool.or_eq_true, activeFirst_iff, activeFirst_iff]
  rcases Nat.lt_trichotomy (activity s c') (activity s c) with h | h | h
  · exact .inl (.inl h)
  · rcases le_total c.id c'.id with hid | hid
    · exact .inl (.inr ⟨h, hid⟩)
    · exact .inr (.inr ⟨h.symm, hid⟩)
  · exact .inr (.inl h)

/-- The channel of an id that the page was made of is there. -/
theorem find?_channel {c : DatedChannel} (hc : c ∈ sortedChannels s a) :
    s.channels.find? (fun c' => c'.id == c.id) = some c :=
  Table.find?_key (T := s.channels) (mem_sortedChannels.mp hc).1

theorem listGroups_eq (limit offset : ℕ) :
    listGroups s caller limit offset = page limit offset (allGroups s caller.address) := by
  have hpage : ∀ cs : List DatedChannel, (∀ c ∈ cs, c ∈ sortedChannels s caller.address) →
      ((cs.map fun c => c.id).filterMap fun cid =>
        (s.channels.find? fun c => c.id == cid).map (groupConversation s)) = cs.map (groupConversation s) := by
    intro cs hcs
    rw [List.filterMap_map]
    refine (List.filterMap_congr fun c hc => ?_).trans (congrFun List.filterMap_eq_map cs)
    simp only [Function.comp_apply, find?_channel (hcs c hc), Option.map_some]
  refine (hpage _ fun c hc => List.mem_of_mem_drop (List.mem_of_mem_take hc)).trans ?_
  rw [page, List.map_take, List.map_drop]
  rfl

theorem enumerates_groups :
    Enumerates (fun c => c ∈ s.channels ∧ ∃ m ∈ s.members, m.channelId = c.id ∧ m.userAddress = a)
      (fun c c' => activity s c' < activity s c ∨ activity s c' = activity s c ∧ c.id < c'.id)
      ((allGroups s a).map (·.channel)) := by
  have hrows : (allGroups s a).map (·.channel) = sortedChannels s a := by
    rw [allGroups, List.map_map]
    exact List.map_id _
  have hnodup : (sortedChannels s a).Nodup :=
    (List.mergeSort_perm ..).nodup_iff.mpr ((List.Nodup.of_map _ s.channels.nodup).filter _)
  rw [hrows]
  refine ⟨fun c => mem_sortedChannels, hnodup, ?_⟩
  have hsorted := List.pairwise_mergeSort (activeFirst_trans (s := s)) activeFirst_total
    (s.channels.where' fun c => (memberChannelIds s a).contains c.id)
  refine (hsorted.and hnodup).imp_of_mem fun {c c'} hc hc' hle => ?_
  have hid : c.id ≠ c'.id := fun hid => hle.2 (Table.eq_of_key
    (mem_sortedChannels.mp hc).1 (mem_sortedChannels.mp hc').1 hid)
  exact (activeFirst_iff.mp hle.1).imp_right fun h => ⟨h.1, lt_of_le_of_ne h.2 hid⟩

end groups

/-! ## Secrets and grants, in order -/

section secrets

variable {db : Database} {caller : User} {now : Time}

/-- The caller's own secret outside any workflow, with the caller's grant. -/
structure IsOwnSecret (db : Database) (a : Address) (id : ℕ) : Prop where
  secret : ∃ s ∈ db.secrets, s.id = id ∧ s.ownerAddress = a
  unmanaged : isWorkflowManaged db id = false
  grant : ∃ g ∈ db.accessGrants, g.secretId = id ∧ g.granteeAddress = a

/-- A live grant of a secret of somebody else outside any workflow. -/
structure IsSharedGrant (db : Database) (now : Time) (a : Address) (g : AccessGrant) : Prop where
  stored : g ∈ db.accessGrants
  grantee : g.granteeAddress = a
  live : g.live now = true
  secret : ∃ s ∈ db.secrets, s.id = g.secretId ∧ s.ownerAddress ≠ a ∧ isWorkflowManaged db s.id = false

/-- One row of `get_secrets`, where the caller's grant is there. -/
def secretRow (db : Database) (a : Address) (s : Secret) : Option SecretSummaryResponse :=
  (db.accessGrants.find? fun g => g.secretId == s.id && g.granteeAddress == a).map fun g =>
    s.summary (some g.encryptedKey)

def allSecrets (db : Database) (a : Address) : List SecretSummaryResponse :=
  (db.secrets.where' fun s => s.ownerAddress == a && !isWorkflowManaged db s.id).reverse.filterMap (secretRow db a)

theorem getSecrets_eq (h : db.Constrained) (limit offset : ℕ) :
    getSecrets db caller limit offset = page limit offset (allSecrets db caller.address) := by
  rw [getSecrets, allSecrets, List.filterMap_eq_flatMap_toList]
  congr 2
  funext s
  rw [Table.where'_eq_toList, secretRow]
  · exact Option.toList_map.symm
  · intro g hg g' hg' hp hp'
    rw [Bool.and_eq_true, beq_iff_eq, beq_iff_eq] at hp hp'
    exact h.oneGrant g hg g' hg' (hp.1.trans hp'.1.symm) (hp.2.trans hp'.2.symm)

theorem secretRow_isSome {a : Address} {s : Secret} : (secretRow db a s).isSome = true ↔
    ∃ g ∈ db.accessGrants, g.secretId = s.id ∧ g.granteeAddress = a := by
  rw [secretRow, Option.isSome_map]
  constructor
  · intro hsome
    obtain ⟨g, hfind⟩ := Option.isSome_iff_exists.mp hsome
    obtain ⟨hg, hp⟩ := Table.find?_mem hfind
    rw [Bool.and_eq_true, beq_iff_eq, beq_iff_eq] at hp
    exact ⟨g, hg, hp⟩
  · rintro ⟨g, hg, hsecret, hgrantee⟩
    obtain ⟨g', hfind⟩ := Table.find?_isSome (T := db.accessGrants.toTable)
      (p := fun g => g.secretId == s.id && g.granteeAddress == a) hg (by simp [hsecret, hgrantee])
    rw [hfind]
    rfl

theorem enumerates_secrets (h : db.Constrained) :
    Enumerates (IsOwnSecret db caller.address) (fun id id' => id' < id)
      ((allSecrets db caller.address).map (·.id)) := by
  have hrows : (allSecrets db caller.address).map (·.id) =
      ((db.secrets.where' fun s => s.ownerAddress == caller.address && !isWorkflowManaged db s.id).reverse.filter
        fun s => (secretRow db caller.address s).isSome).map (·.id) := by
    refine map_filterMap (fun s row hrow => ?_) _
    obtain ⟨g, -, rfl⟩ := Option.map_eq_some_iff.mp hrow
    rfl
  have hordered : (((db.secrets.where' fun s =>
      s.ownerAddress == caller.address && !isWorkflowManaged db s.id).reverse.filter
        fun s => (secretRow db caller.address s).isSome).map (·.id)).Pairwise fun id id' => id' < id :=
    List.pairwise_map.mpr ((List.pairwise_reverse.mpr (h.secretsInOrder.where' _)).filter _)
  rw [hrows]
  refine ⟨fun id => ?_, hordered.imp fun hlt => (ne_of_lt hlt).symm, hordered⟩
  simp only [List.mem_map, List.mem_filter, List.mem_reverse, Table.mem_where', Serial.mem_toTable,
    Bool.and_eq_true, beq_iff_eq, Bool.not_eq_true', secretRow_isSome]
  constructor
  · rintro ⟨s, ⟨⟨hs, howner, hunmanaged⟩, hgrant⟩, rfl⟩
    exact ⟨⟨s, hs, rfl, howner⟩, hunmanaged, hgrant⟩
  · rintro ⟨⟨s, hs, rfl, howner⟩, hunmanaged, hgrant⟩
    exact ⟨s, ⟨⟨hs, howner, hunmanaged⟩, hgrant⟩, rfl⟩

/-- One row of `get_shared_secrets`, where the secret is somebody else's and in no workflow. -/
def sharedRow (db : Database) (a : Address) (g : AccessGrant) : Option (AccessGrant × SecretSummaryResponse) :=
  (db.secrets.find? fun s => s.id == g.secretId && s.ownerAddress != a && !isWorkflowManaged db s.id).map fun s =>
    (g, s.summary none)

def allShared (db : Database) (a : Address) : List (AccessGrant × SecretSummaryResponse) :=
  (db.accessGrants.where' fun g => g.granteeAddress == a).reverse.filterMap (sharedRow db a)

theorem getSharedSecrets_eq (limit offset : ℕ) : getSharedSecrets db now caller limit offset =
    (purgeExpiredGrants db now (·.granteeAddress == caller.address), page limit offset
      (allShared (purgeExpiredGrants db now (·.granteeAddress == caller.address)) caller.address)) := by
  rw [getSharedSecrets, allShared, List.filterMap_eq_flatMap_toList]
  congr 3
  funext g
  rw [Table.where'_eq_toList, sharedRow]
  · exact Option.toList_map.symm
  · intro s hs s' hs' hp hp'
    simp only [Bool.and_eq_true, beq_iff_eq] at hp hp'
    exact Serial.eq_of_key hs hs' (hp.1.1.trans hp'.1.1.symm)

theorem sharedRow_isSome {a : Address} {g : AccessGrant} : (sharedRow db a g).isSome = true ↔
    ∃ s ∈ db.secrets, s.id = g.secretId ∧ s.ownerAddress ≠ a ∧ isWorkflowManaged db s.id = false := by
  rw [sharedRow, Option.isSome_map]
  constructor
  · intro hsome
    obtain ⟨s, hfind⟩ := Option.isSome_iff_exists.mp hsome
    obtain ⟨hs, hp⟩ := Table.find?_mem hfind
    simp only [Bool.and_eq_true, beq_iff_eq, bne_iff_ne, Bool.not_eq_true'] at hp
    exact ⟨s, hs, hp.1.1, hp.1.2, hp.2⟩
  · rintro ⟨s, hs, hid, howner, hunmanaged⟩
    obtain ⟨s', hfind⟩ := Table.find?_isSome (T := db.secrets.toTable)
      (p := fun s => s.id == g.secretId && s.ownerAddress != a && !isWorkflowManaged db s.id) hs
      (by rw [hid] at hunmanaged; simp [hid, howner, hunmanaged])
    rw [hfind]
    rfl

theorem mem_purgeExpiredGrants {scope : AccessGrant → Bool} {g : AccessGrant} :
    g ∈ (purgeExpiredGrants db now scope).accessGrants ↔
      g ∈ db.accessGrants ∧ (scope g = true → g.live now = true) := by
  rw [purgeExpiredGrants, Serial.mem_delete]
  refine and_congr_right fun _ => ?_
  cases g.live now <;> cases scope g <;> simp

/-- Once the caller's expired grants are purged. -/
theorem enumerates_shared (h : db.Constrained) :
    Enumerates (IsSharedGrant db now caller.address) (fun g g' => g'.id < g.id)
      ((allShared (purgeExpiredGrants db now (·.granteeAddress == caller.address)) caller.address).map (·.1)) := by
  have hrows : (allShared (purgeExpiredGrants db now (·.granteeAddress == caller.address)) caller.address).map (·.1) =
      ((purgeExpiredGrants db now (·.granteeAddress == caller.address)).accessGrants.where'
        fun g => g.granteeAddress == caller.address).reverse.filter fun g =>
          (sharedRow (purgeExpiredGrants db now (·.granteeAddress == caller.address)) caller.address g).isSome := by
    rw [allShared, map_filterMap (k := id) (fun g row hrow => ?_), List.map_id]
    obtain ⟨s, -, rfl⟩ := Option.map_eq_some_iff.mp hrow
    rfl
  have hpurged : (purgeExpiredGrants db now (·.granteeAddress == caller.address)).accessGrants.InOrder :=
    h.grantsInOrder.delete
  rw [hrows]
  refine ⟨fun g => ?_, ?_, (List.pairwise_reverse.mpr (hpurged.where' _)).filter _⟩
  · simp only [List.mem_filter, List.mem_reverse, Table.mem_where', Serial.mem_toTable, mem_purgeExpiredGrants,
      beq_iff_eq, sharedRow_isSome]
    constructor
    · rintro ⟨⟨⟨hg, hlive⟩, hgrantee⟩, hsecret⟩
      exact ⟨hg, hgrantee, hlive hgrantee, hsecret⟩
    · rintro ⟨hg, hgrantee, hlive, hsecret⟩
      exact ⟨⟨⟨hg, fun _ => hlive⟩, hgrantee⟩, hsecret⟩
  · exact (List.nodup_reverse.mpr ((List.Nodup.of_map _ (Serial.toTable _).nodup).filter _)).filter _

/-- The grants of a secret, once the expired ones are purged. -/
theorem enumerates_access (h : db.Constrained) (now : Time) (secretId : ℕ) :
    Enumerates (fun g => g ∈ db.accessGrants ∧ g.secretId = secretId ∧ g.live now = true) (fun g g' => g.id < g'.id)
      ((purgeExpiredGrants db now (·.secretId == secretId)).accessGrants.where' (·.secretId == secretId)) := by
  have hpurged : (purgeExpiredGrants db now (·.secretId == secretId)).accessGrants.InOrder := h.grantsInOrder.delete
  refine ⟨fun g => ?_, (List.Nodup.of_map _ (Serial.toTable _).nodup).filter _, hpurged.where' _⟩
  simp only [Table.mem_where', Serial.mem_toTable, mem_purgeExpiredGrants, beq_iff_eq]
  constructor
  · rintro ⟨⟨hg, hlive⟩, hsecret⟩
    exact ⟨hg, hsecret, hlive hsecret⟩
  · rintro ⟨hg, hsecret, hlive⟩
    exact ⟨⟨hg, fun _ => hlive⟩, hsecret⟩

/-- Where no grant expires from one time to the other, a purge at either is the same. -/
theorem purgeExpiredGrants_congr {scope : AccessGrant → Bool} {t : Time}
    (h : ∀ g ∈ db.accessGrants, scope g = true → g.live t = g.live now) :
    purgeExpiredGrants db t scope = purgeExpiredGrants db now scope := by
  have htable : db.accessGrants.delete (fun g => !g.live t && scope g) =
      db.accessGrants.delete fun g => !g.live now && scope g := by
    refine Serial.delete_congr fun g hg => ?_
    cases hscope : scope g with
    | false => rw [Bool.and_false, Bool.and_false]
    | true => rw [h g hg hscope]
  rw [purgeExpiredGrants, htable]
  rfl

theorem purgeExpiredGrants_idem {scope : AccessGrant → Bool} :
    purgeExpiredGrants (purgeExpiredGrants db now scope) now scope = purgeExpiredGrants db now scope := by
  have htable : (purgeExpiredGrants db now scope).accessGrants.delete (fun g => !g.live now && scope g) =
      (purgeExpiredGrants db now scope).accessGrants := by
    refine Serial.delete_eq_self fun g hg => ?_
    have hlive := (mem_purgeExpiredGrants.mp hg).2
    cases hscope : scope g with
    | false => rw [Bool.and_false]
    | true => rw [hlive hscope]; rfl
  conv_lhs => rw [purgeExpiredGrants, htable]

end secrets

end Kryptolog.Server
