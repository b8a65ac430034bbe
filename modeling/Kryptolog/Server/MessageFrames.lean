import Kryptolog.Server.DirectoryIntegrity
import Kryptolog.Server.EraseFates
import Kryptolog.Server.Groups

/-! # What erasing and leaving do to the messages of others

An erase of a conversation reaches the rows that its caller wrote there, and a refused round no row
at all. A departing account takes no message of anybody else along, but for those of a channel it
owns and is alone in: that channel is torn down, and the messages of its former members with it.
-/

namespace Kryptolog.Server
set_option autoImplicit false

open Tables Json Fallible Runs

/-! ## The frame of a conversation erase -/

/-- The key of the conversation that a path names. -/
def conversationKey : Kind → String → String
  | .dm, conversation => lowerText conversation
  | .group, conversation => conversation

theorem scopeOfPath_ok {kind : Kind} {conversation : String} {scope : Kind × String}
    (h : scopeOfPath kind conversation = .ok scope) :
    scope = (kind, conversationKey kind conversation) := by
  cases kind with
  | dm =>
    rw [scopeOfPath] at h
    split at h
    · exact (Except.ok.inj h).symm
    · cases h
  | group =>
    rw [scopeOfPath] at h
    split at h
    · exact (Except.ok.inj h).symm
    · cases h

/-- The row was written by `a`, in exactly the conversation that a path names. -/
structure WroteIn (a : Address) (kind : Kind) (conversation : String) (k : Kind) (row : Message) :
    Prop where
  kind_eq : k = kind
  sender : row.senderAddress = a
  target : row.target = conversationKey kind conversation

section frame

variable {prim : Primitives} {cfg : Config} {db db₁ db' : Database} {author : User} {a : Address}
  {kind k : Kind} {conversation : String} {row : Message} {pending : List Redaction} {scope : Scope}
  {now : Time} {req : EraseRequest}

theorem wroteIn_iff : WroteIn a kind conversation k row ↔ row.senderAddress = a ∧
    inScope k row (some (kind, conversationKey kind conversation)) = true := by
  simp only [inScope, Bool.and_eq_true, beq_iff_eq]
  constructor
  · rintro ⟨hkind, hsender, htarget⟩
    exact ⟨hsender, hkind.symm, htarget⟩
  · rintro ⟨hsender, hkind, htarget⟩
    exact ⟨hkind.symm, hsender, htarget⟩

/-- Redactions leave every row in place that is not the author's in the scope, and bring none. -/
theorem Redacts.mem_iff (h : Redacts prim db db₁ author scope pending)
    (hnot : ¬ (row.senderAddress = author.address ∧ inScope k row scope = true)) :
    row ∈ db₁.store k ↔ row ∈ db.store k := by
  have hsame : ∀ row₀ ∈ db.store k,
      ¬ (row₀.senderAddress = author.address ∧ inScope k row₀ scope = true) →
        rewrite pending k row₀ = row₀ := by
    intro row₀ hrow₀ hnot₀
    rcases h.fate hrow₀ with ⟨-, heq⟩ | ⟨r, -, p, signature, rfl, hver, -⟩
    · exact heq
    · exact absurd (mem_ownMessages.mp hver.own).2 hnot₀
  constructor
  · intro hrow
    have hmem : row ∈ (db.store k).rows.map (rewrite pending k) := h.store k ▸ hrow
    obtain ⟨row₀, hrow₀, rfl⟩ := List.mem_map.mp hmem
    rw [inScope_rewrite, (rewrite_same pending k row₀).2.1] at hnot
    rw [hsame row₀ hrow₀ hnot]
    exact hrow₀
  · intro hrow
    have hmem := h.mem hrow
    rwa [hsame row hrow hnot] at hmem

theorem KeylessDeleted.mem_iff (h : KeylessDeleted db db' a scope)
    (hnot : ¬ (row.senderAddress = a ∧ inScope k row scope = true)) :
    row ∈ db'.store k ↔ row ∈ db.store k := by
  rw [h.mem k row, and_iff_left_iff_imp]
  exact fun _ hkey => hnot (mem_ownMessages.mp hkey.1).2

/-- A refused erase of a conversation changes no message row. -/
theorem eraseConversation_error {fault : Fault} {caller : User}
    (h : eraseConversation prim cfg db now caller kind conversation req = (db', .error fault)) :
    SameContents db db' := by
  have hclaimed : SameContents db (claimNonce db now caller.address req.nonce).1 :=
    .challenges db _
  simp only [eraseConversation] at h
  split at h
  · cases h
    exact .challenges db _
  · split at h
    · cases h
      exact hclaimed
    · rw [transaction_eq_error h]
      exact hclaimed

/-- An accepted one redacts, and where it completes it deletes. -/
theorem eraseConversation_ok {resp : EraseResponse} {caller : User}
    (h : eraseConversation prim cfg db now caller kind conversation req = (db', .ok resp)) :
    ∃ pending db₁,
      Redacts prim db db₁ caller (some (kind, conversationKey kind conversation)) pending ∧
      RoundEffect caller.address (some (kind, conversationKey kind conversation)) db₁ db' resp := by
  simp only [eraseConversation] at h
  split at h
  · cases h
  · next scope hscope =>
    obtain rfl := scopeOfPath_ok hscope
    split at h
    · cases h
    · obtain ⟨_, -, hround⟩ := bind_eq_ok.mp (transaction_eq_ok.mp h)
      obtain ⟨pending, db₁, hredacts, -, -, -, heffect⟩ := eraseScope_ok hround
      exact ⟨pending, db₁, hredacts.of_same (.challenges db _), heffect⟩

end frame

/-- An erase of a conversation, accepted or refused, changes, removes and adds no row but those
that the caller wrote in that conversation; a refused one leaves every row as it was. -/
theorem eraseConversation_frame (prim : Primitives) (cfg : Config) (db : Database) (now : Time)
    (caller : User) (kind : Kind) (conversation : String) (req : EraseRequest) :
    (∀ k row, ¬ WroteIn caller.address kind conversation k row →
      (row ∈ (eraseConversation prim cfg db now caller kind conversation req).1.store k ↔
        row ∈ db.store k)) ∧
    (∀ fault, (eraseConversation prim cfg db now caller kind conversation req).2 = .error fault →
      ∀ k, (eraseConversation prim cfg db now caller kind conversation req).1.store k =
        db.store k) := by
  rcases hr : eraseConversation prim cfg db now caller kind conversation req with ⟨db', fault | resp⟩
  · have hsame := eraseConversation_error hr
    exact ⟨fun k row _ => by rw [hsame.store k], fun _ _ k => hsame.store k⟩
  · obtain ⟨pending, db₁, hredacts, heffect⟩ := eraseConversation_ok hr
    refine ⟨fun k row hnot => ?_, fun fault h => by cases h⟩
    rw [wroteIn_iff] at hnot
    rw [← hredacts.mem_iff hnot]
    cases heffect with
    | redacting _ _ _ hsame => rw [hsame.store k]
    | done _ _ _ db₂ hdeleted _ hsame =>
      rw [hsame (fun h => by cases h)]
      exact hdeleted.mem_iff hnot

/-! ## Which channels a departure tears down -/

/-- The channel has a member other than `a`. -/
def HasOther (a : Address) (db : Database) (channel : String) : Prop :=
  ∃ m ∈ db.groupMembers, m.channelId = channel ∧ m.userAddress ≠ a

/-- There is a row for the channel. -/
def ChannelExists (db : Database) (channel : String) : Prop := ∃ c ∈ db.groupChannels, c.id = channel

/-- The row of the channel names `a` as its owner. -/
def NamesOwner (a : Address) (db : Database) (channel : String) : Prop :=
  ∃ c ∈ db.groupChannels, c.id = channel ∧ c.ownerAddress = a

/-- A membership of `a` in the channel has the owner's role. -/
def HoldsOwnerRole (a : Address) (db : Database) (channel : String) : Prop :=
  ∃ m ∈ db.groupMembers, m.channelId = channel ∧ m.userAddress = a ∧ m.role = "owner"

/-- A step of the departure of `a`, seen from one channel. It is torn down when the step gets to it
(`turn`) and there is no other member, and otherwise it keeps its messages. While there is no other
member it names the same owner. -/
structure ChannelStep (a : Address) (channel : String) (turn : Prop) (db db' : Database) : Prop where
  other : HasOther a db' channel ↔ HasOther a db channel
  exists_iff : ChannelExists db' channel ↔
    ChannelExists db channel ∧ ¬ (¬ HasOther a db channel ∧ turn)
  names : ¬ HasOther a db channel →
    (NamesOwner a db' channel ↔ NamesOwner a db channel ∧ ¬ turn)
  messages : ∀ x : Message, x.target = channel → (x ∈ db'.groupMessages ↔
    x ∈ db.groupMessages ∧ ¬ (¬ HasOther a db channel ∧ ChannelExists db channel ∧ turn))

section departure

variable {a : Address} {channel : String} {turn turn' : Prop} {db db₁ db₂ db' : Database}

theorem ChannelStep.refl (a : Address) (channel : String) (db : Database) :
    ChannelStep a channel False db db where
  other := Iff.rfl
  exists_iff := by simp
  names := by simp
  messages := by simp

theorem ChannelStep.trans (h : ChannelStep a channel turn db db₁)
    (h' : ChannelStep a channel turn' db₁ db₂) : ChannelStep a channel (turn ∨ turn') db db₂ where
  other := h'.other.trans h.other
  exists_iff := by
    rw [h'.exists_iff, h.exists_iff, h.other]
    grind
  names := by
    intro halone
    rw [h'.names (h.other.not.mpr halone), h.names halone]
    grind
  messages := by
    intro x hx
    rw [h'.messages x hx, h.messages x hx, h.exists_iff, h.other]
    grind

theorem ChannelStep.congr (h : ChannelStep a channel turn db db') (hiff : turn ↔ turn') :
    ChannelStep a channel turn' db db' := by
  rwa [propext hiff] at h

/-- A step that touches neither channels nor messages, and of the members only `a`. -/
theorem ChannelStep.of_members (hchannels : db'.groupChannels = db.groupChannels)
    (hmessages : db'.groupMessages = db.groupMessages)
    (hother : HasOther a db' channel ↔ HasOther a db channel) :
    ChannelStep a channel False db db' where
  other := hother
  exists_iff := by simp [ChannelExists, hchannels]
  names := by simp [NamesOwner, hchannels]
  messages := by simp [hmessages]

/-- The members of a channel other than `a`, as the departure lists them. -/
theorem remaining_eq_nil_iff : (db.groupMembers.where' fun m =>
    m.channelId == channel && m.userAddress != a) = [] ↔ ¬ HasOther a db channel := by
  rw [List.eq_nil_iff_forall_not_mem]
  constructor
  · rintro h ⟨m, hm, hid, hne⟩
    exact h m (Table.mem_where'.mpr ⟨hm, by simp [hid, hne]⟩)
  · intro h m hm
    obtain ⟨hm, htest⟩ := Table.mem_where'.mp hm
    exact h ⟨m, hm, by simpa using htest⟩

/-- The succession in a channel: with nobody left it goes, with its members and messages. -/
theorem succeedGroupOwner_step (a : Address) (db : Database) (c : GroupChannel) (channel : String)
    (hc : ChannelExists db c.id) : ChannelStep a channel (c.id = channel) db
      (succeedGroupOwner db c (db.groupMembers.where' fun m =>
        m.channelId == c.id && m.userAddress != a)) := by
  by_cases hleft : HasOther a db c.id
  · have hne := mt remaining_eq_nil_iff.mp (not_not.mpr hleft)
    have hnot : ¬ HasOther a db channel → c.id ≠ channel := fun halone e => halone (e ▸ hleft)
    generalize (db.groupMembers.where' fun m => m.channelId == c.id && m.userAddress != a) =
      remaining at hne
    simp only [succeedGroupOwner]
    split
    · next hnone => exact absurd (earliest_eq_none (Option.or_eq_none_iff.mp hnone).2) hne
    · next successor _ =>
      refine ⟨Serial.exists_update (by intro; rfl) fun m _ => Iff.rfl, ?_, fun halone => ?_, fun x _ => ?_⟩
      · rw [and_iff_left fun h => hnot h.1 h.2]
        exact Table.exists_update (by intro; rfl) fun c' _ => Iff.rfl
      · rw [and_iff_left (hnot halone)]
        refine Table.exists_update (by intro; rfl) fun c' hc' => ?_
        have hid : c'.id ≠ channel := fun e => hnot halone ((beq_iff_eq.mp hc').symm.trans e)
        exact iff_of_false (fun h => hid h.1) (fun h => hid h.1)
      · exact (and_iff_left fun h => hnot h.1 h.2.2).symm
  · rw [remaining_eq_nil_iff.mpr hleft]
    have hmem : HasOther a db channel → channel ≠ c.id := fun hother e => hleft (e ▸ hother)
    refine ⟨?_, ?_, fun _ => ?_, fun x hx => ?_⟩
    · constructor
      · rintro ⟨m, hm, h⟩
        exact ⟨m, (Serial.mem_delete.mp hm).1, h⟩
      · rintro ⟨m, hm, h⟩
        refine ⟨m, Serial.mem_delete.mpr ⟨hm, ?_⟩, h⟩
        simpa [h.1] using hmem ⟨m, hm, h⟩
    · constructor
      · rintro ⟨c', hc', hid⟩
        obtain ⟨hmem', hne⟩ := Table.mem_delete.mp hc'
        refine ⟨⟨c', hmem', hid⟩, fun h => ?_⟩
        simp [hid, h.2] at hne
      · rintro ⟨⟨c', hc', hid⟩, hnot⟩
        refine ⟨c', Table.mem_delete.mpr ⟨hc', ?_⟩, hid⟩
        have hne : c'.id ≠ c.id := fun e => hnot ⟨hid ▸ e ▸ hleft, (hid ▸ e).symm⟩
        simpa using hne
    · constructor
      · rintro ⟨c', hc', hid, howner⟩
        obtain ⟨hmem', hne⟩ := Table.mem_delete.mp hc'
        refine ⟨⟨c', hmem', hid, howner⟩, fun h => ?_⟩
        simp [hid, h] at hne
      · rintro ⟨⟨c', hc', hid, howner⟩, hnot⟩
        refine ⟨c', Table.mem_delete.mpr ⟨hc', ?_⟩, hid, howner⟩
        simpa [hid] using Ne.symm hnot
    · have hmessages : (succeedGroupOwner db c []).groupMessages =
          db.groupMessages.delete (·.target == c.id) := rfl
      rw [hmessages, Serial.mem_delete]
      refine and_congr_right fun _ => ?_
      rw [beq_eq_false_iff_ne, hx]
      constructor
      · exact fun hne h => hne h.2.2.symm
      · exact fun hnot e => hnot ⟨e ▸ hleft, e ▸ hc, e.symm⟩

theorem ChannelStep.of_missing (h : turn → ¬ ChannelExists db channel) :
    ChannelStep a channel turn db db where
  other := Iff.rfl
  exists_iff := by grind
  names := by
    have hexists : NamesOwner a db channel → ChannelExists db channel := fun ⟨c, hc, hid, _⟩ =>
      ⟨c, hc, hid⟩
    grind
  messages := by grind

/-- One membership that the departing account gives up. -/
theorem leaveGroup_step (a : Address) (db : Database) (m : GroupMember) (channel : String) :
    ChannelStep a channel (m.channelId = channel ∧ m.role = "owner") db (leaveGroup a db m) := by
  have hdrop : ∀ (d : Database) (c : GroupChannel), ChannelStep a channel False d { d with
      groupMembers := d.groupMembers.delete fun m =>
        m.channelId == c.id && m.userAddress == a } := by
    intro d c
    refine .of_members rfl rfl ⟨?_, ?_⟩
    · rintro ⟨m, hm, h⟩
      exact ⟨m, (Serial.mem_delete.mp hm).1, h⟩
    · rintro ⟨m, hm, h⟩
      exact ⟨m, Serial.mem_delete.mpr ⟨hm, by simp [h.2]⟩, h⟩
  simp only [leaveGroup]
  split
  · next hnone =>
    refine .of_missing fun h hexists => ?_
    obtain ⟨c, hc, hid⟩ := hexists
    simpa [hid, h.1] using Table.find?_none hnone hc
  · next c hfind =>
    obtain ⟨hc, htest⟩ := Table.find?_mem hfind
    have hid : c.id = m.channelId := beq_iff_eq.mp htest
    split
    · next howner =>
      refine ((succeedGroupOwner_step a db c channel ⟨c, hc, rfl⟩).trans (hdrop _ c)).congr ?_
      rw [or_false, hid, and_iff_left (beq_iff_eq.mp howner)]
    · next howner =>
      refine (hdrop db c).congr (iff_of_false id fun h => ?_)
      simp [h.2] at howner

theorem leaveGroups_step (a : Address) (channel : String) (ms : List GroupMember) (db : Database) :
    ChannelStep a channel (∃ m ∈ ms, m.channelId = channel ∧ m.role = "owner") db
      (ms.foldl (leaveGroup a) db) := by
  induction ms generalizing db with
  | nil => exact (ChannelStep.refl a channel db).congr (by simp)
  | cons m ms ih => exact ((leaveGroup_step a db m channel).trans (ih _)).congr (by simp)

/-- The channels that still name the departed account, each once. -/
theorem settleOrphans_step (a : Address) (channel : String) {cs : List GroupChannel} {db : Database}
    (hids : (cs.map (·.id)).Nodup) (hcs : ∀ c ∈ cs, ChannelExists db c.id) :
    ChannelStep a channel (∃ c ∈ cs, c.id = channel) db (cs.foldl (settleOrphan a) db) := by
  induction cs generalizing db with
  | nil => exact (ChannelStep.refl a channel db).congr (by simp)
  | cons c cs ih =>
    obtain ⟨hnotin, hids'⟩ := List.nodup_cons.mp hids
    obtain ⟨hc, hcs'⟩ := List.forall_mem_cons.mp hcs
    have hrest : ∀ c' ∈ cs, ChannelExists (settleOrphan a db c) c'.id := by
      intro c' hc'
      have hne : c.id ≠ c'.id := fun e => hnotin (List.mem_map.mpr ⟨c', hc', e.symm⟩)
      exact (succeedGroupOwner_step a db c c'.id hc).exists_iff.mpr
        ⟨hcs' c' hc', fun h => hne h.2⟩
    exact ((succeedGroupOwner_step a db c channel hc).trans (ih hids' hrest)).congr (by simp)

/-- The departure of `a` tears the channel down. -/
structure TakesAlong (a : Address) (db : Database) (channel : String) : Prop where
  alone : ¬ HasOther a db channel
  existing : ChannelExists db channel
  owner : HoldsOwnerRole a db channel ∨ NamesOwner a db channel

theorem leaveAllGroups_messages (a : Address) (db : Database) (x : Message) :
    x ∈ (leaveAllGroups db a).groupMessages ↔
      x ∈ db.groupMessages ∧ ¬ TakesAlong a db x.target := by
  have hleave := leaveGroups_step a x.target (db.groupMembers.where' (·.userAddress == a)) db
  generalize hleft : (db.groupMembers.where' (·.userAddress == a)).foldl (leaveGroup a) db = left
    at hleave
  have hcs : ∀ c ∈ left.groupChannels.where' (·.ownerAddress == a), ChannelExists left c.id :=
    fun c hc => ⟨c, (Table.mem_where'.mp hc).1, rfl⟩
  have hsettle : ChannelStep a x.target
      (∃ c ∈ left.groupChannels.where' (·.ownerAddress == a), c.id = x.target) left
      (leaveAllGroups db a) := by
    simp only [leaveAllGroups, hleft]
    exact settleOrphans_step a x.target
      (left.groupChannels.nodup.sublist (List.filter_sublist.map _)) hcs
  have hrole : (∃ m ∈ db.groupMembers.where' (·.userAddress == a),
      m.channelId = x.target ∧ m.role = "owner") ↔ HoldsOwnerRole a db x.target := by
    simp only [Table.mem_where', Serial.mem_toTable, beq_iff_eq, HoldsOwnerRole]
    exact exists_congr fun m => by grind
  have hnames : (∃ c ∈ left.groupChannels.where' (·.ownerAddress == a), c.id = x.target) ↔
      NamesOwner a left x.target := by
    simp only [Table.mem_where', beq_iff_eq, NamesOwner]
    exact exists_congr fun c => by grind
  rw [hsettle.messages x rfl, hleave.messages x rfl, hleave.other, hleave.exists_iff, hnames, hrole]
  have hleftNames := hleave.names
  rw [hrole] at hleftNames
  constructor
  · rintro ⟨⟨hx, hnot⟩, hnot'⟩
    refine ⟨hx, fun h => ?_⟩
    have halone := h.alone
    have hexisting := h.existing
    have howner := h.owner
    have hnamesLeft := hleftNames halone
    grind
  · rintro ⟨hx, hnot⟩
    refine ⟨⟨hx, fun h => hnot ⟨h.1, h.2.1, .inl h.2.2⟩⟩, fun h => ?_⟩
    exact hnot ⟨h.1, h.2.1.1, .inr ((hleftNames h.1).mp h.2.2).1⟩

theorem TakesAlong.congr {channel : String} (h : SameGroups db db') :
    TakesAlong a db' channel ↔ TakesAlong a db channel := by
  have hother : HasOther a db' channel ↔ HasOther a db channel := by rw [HasOther, h.1]; rfl
  have hexists : ChannelExists db' channel ↔ ChannelExists db channel := by
    rw [ChannelExists, h.2]; rfl
  have howner : (HoldsOwnerRole a db' channel ∨ NamesOwner a db' channel) ↔
      (HoldsOwnerRole a db channel ∨ NamesOwner a db channel) := by
    rw [HoldsOwnerRole, NamesOwner, h.1, h.2]; rfl
  constructor
  · rintro ⟨halone, hc, ho⟩
    exact ⟨hother.not.mp halone, hexists.mp hc, howner.mp ho⟩
  · rintro ⟨halone, hc, ho⟩
    exact ⟨hother.not.mpr halone, hexists.mpr hc, howner.mpr ho⟩

/-- Of the messages, removing an account takes those of the channels that it takes along. -/
theorem removeAccount_messages (db : Database) (now : Time) (a : Address) (mode : Mode) :
    (removeAccount db now a mode).messages = db.messages ∧
      (removeAccount db now a mode).groupMessages = (leaveAllGroups db a).groupMessages := by
  have hkeep : ∀ d : Database, (eraseSecrets (eraseMultisig d a) a).messages = d.messages ∧
      (eraseSecrets (eraseMultisig d a) a).groupMessages = d.groupMessages := by
    intro d
    have hrefl : ∀ d : Database, d.messages = d.messages ∧ d.groupMessages = d.groupMessages :=
      fun _ => ⟨rfl, rfl⟩
    have htrans : ∀ d₁ d₂ d₃ : Database,
        d₂.messages = d₁.messages ∧ d₂.groupMessages = d₁.groupMessages →
        d₃.messages = d₂.messages ∧ d₃.groupMessages = d₂.groupMessages →
        d₃.messages = d₁.messages ∧ d₃.groupMessages = d₁.groupMessages :=
      fun _ _ _ h h' => ⟨h'.1.trans h.1, h'.2.trans h.2⟩
    have hworkflows := foldl_rel hrefl htrans (f := deleteWorkflowRows) (fun _ _ => ⟨rfl, rfl⟩)
      (d.workflows.where' fun w => w.ownerAddress == a && workflowIsDeletable w) d
    have hsecrets := foldl_rel hrefl htrans (f := fun d (s : Secret) => deleteSecretRows d s.id)
      (fun _ _ => ⟨rfl, rfl⟩) ((eraseMultisig d a).secrets.where' fun s =>
        s.ownerAddress == a && !isWorkflowManaged (eraseMultisig d a) s.id) (eraseMultisig d a)
    exact htrans _ _ _ hworkflows hsecrets
  have hleave : (leaveAllGroups db a).messages = db.messages :=
    (leaveAllGroups_leftGroups a db).messages
  have hdropped : (dropHoldings db a mode).messages = db.messages ∧
      (dropHoldings db a mode).groupMessages = (leaveAllGroups db a).groupMessages := by
    cases mode with
    | leave => exact ⟨hleave, rfl⟩
    | erase =>
      obtain ⟨hmessages, hgroups⟩ := hkeep (leaveAllGroups db a)
      simp only [dropHoldings]
      exact ⟨hmessages.trans hleave, hgroups⟩
  unfold removeAccount
  generalize dropHoldings db a mode = dropped at hdropped
  exact hdropped

/-- The rows of other senders are the same in two databases. -/
def SameForeign (a : Address) (db db' : Database) : Prop :=
  ∀ k row, row.senderAddress ≠ a → (row ∈ db'.store k ↔ row ∈ db.store k)

/-- The request completes a departure. -/
def Departed (answer : Except Fault EraseResponse) : Prop :=
  ∃ resp, answer = .ok resp ∧ resp.status = .deleted

variable {prim : Primitives} {cfg : Config} {now : Time} {caller : User} {mode : Mode}
  {redactions : List (String × String)} {resp : EraseResponse}

theorem Redacts.sameForeign {pending : List Redaction}
    (h : Redacts prim db db₁ caller none pending) : SameForeign caller.address db db₁ :=
  fun _ _ hne => h.mem_iff fun hown => hne hown.1

theorem KeylessDeleted.sameForeign (h : KeylessDeleted db db₁ a none) : SameForeign a db db₁ :=
  fun _ _ hne => h.mem_iff fun hown => hne hown.1

/-- A round of an erase goes on, or it removes the account. -/
theorem eraseAccount_departs (h : eraseAccount prim db now caller redactions = .ok (db', resp)) :
    (resp.status ≠ .deleted ∧ SameForeign caller.address db db') ∨
      resp.status = .deleted ∧ ∃ db₁, SameForeign caller.address db db₁ ∧ SameGroups db db₁ ∧
        db' = removeAccount db₁ now caller.address .erase := by
  simp only [eraseAccount, bind_eq_ok] at h
  obtain ⟨⟨db₁, n⟩, happly, keys, -, h⟩ := h
  obtain ⟨pending, hredacts, -, -⟩ := applyRedactions_ok happly
  split at h
  · cases h
    exact .inl ⟨(fun h => by cases h), hredacts.sameForeign⟩
  · simp only [bind_eq_ok] at h
    obtain ⟨kept, -, db₂, hdelete, h⟩ := h
    cases h
    obtain ⟨⟨db₃, deleted⟩, hmessages, rfl⟩ := map_eq_ok.mp hdelete
    have hdeleted := deleteOwnMessages_ok hmessages
    refine .inr ⟨rfl, db₃, fun k row hne => ?_, ?_, rfl⟩
    · rw [hdeleted.sameForeign k row hne, hredacts.sameForeign k row hne]
    · exact ⟨hdeleted.groups.1.trans hredacts.groups.1, hdeleted.groups.2.trans hredacts.groups.2⟩

theorem performDeletion_departs {req : EraseRequest} {answer : Except Fault EraseResponse}
    (h : performDeletion prim cfg db now caller mode req = (db', answer)) :
    (¬ Departed answer ∧ SameForeign caller.address db db') ∨
      (Departed answer ∧ ∃ db₁, SameForeign caller.address db db₁ ∧ SameGroups db db₁ ∧
        db' = removeAccount db₁ now caller.address mode) := by
  have hstore : ∀ k, (claimNonce db now caller.address req.nonce).1.store k = db.store k :=
    (SameContents.challenges db _).store
  have hclaimed : SameForeign caller.address db (claimNonce db now caller.address req.nonce).1 :=
    fun k row _ => by rw [hstore k]
  have hrefused : ∀ fault, ¬ Departed (.error fault) := by
    rintro fault ⟨resp, hresp, -⟩
    cases hresp
  simp only [performDeletion] at h
  split at h
  · cases h
    exact .inl ⟨hrefused _, hclaimed⟩
  · cases answer with
    | error fault =>
      rw [transaction_eq_error h]
      exact .inl ⟨hrefused _, hclaimed⟩
    | ok resp =>
      obtain ⟨_, -, hbody⟩ := bind_eq_ok.mp (transaction_eq_ok.mp h)
      cases mode with
      | leave =>
        simp only [bind_eq_ok, deleteAccount] at hbody
        obtain ⟨_, -, db₁, hdelete, hbody⟩ := hbody
        cases hdelete
        cases hbody
        exact .inr ⟨⟨_, rfl, rfl⟩, _, hclaimed, ⟨rfl, rfl⟩, rfl⟩
      | erase =>
        have hround : eraseAccount prim (claimNonce db now caller.address req.nonce).1 now caller
            req.redactions = .ok (db', resp) := hbody
        rcases eraseAccount_departs hround with ⟨hstatus, hsame⟩ | ⟨hstatus, db₁, hsame, hgroups, rfl⟩
        · refine .inl ⟨?_, fun k row hne => ?_⟩
          · rintro ⟨resp', hresp, hdeleted⟩
            cases hresp
            exact hstatus hdeleted
          · rw [hsame k row hne, hclaimed k row hne]
        · refine .inr ⟨⟨resp, rfl, hstatus⟩, db₁, fun k row hne => ?_, hgroups, rfl⟩
          rw [hsame k row hne, hclaimed k row hne]

end departure

/-- A request to leave or to erase an account leaves every message of another account as it was,
but where it completes: then the messages of each channel that the account owns and is alone in go
with the channel. -/
theorem departure_frame (prim : Primitives) (cfg : Config) (db : Database) (now : Time)
    (caller : User) (mode : Mode) (req : EraseRequest) (k : Kind) (row : Message)
    (hforeign : row.senderAddress ≠ caller.address) :
    row ∈ (performDeletion prim cfg db now caller mode req).1.store k ↔
      row ∈ db.store k ∧ ¬ (k = .group ∧
        Departed (performDeletion prim cfg db now caller mode req).2 ∧
        TakesAlong caller.address db row.target) := by
  rcases hr : performDeletion prim cfg db now caller mode req with ⟨db', answer⟩
  rcases performDeletion_departs hr with ⟨hnot, hsame⟩ | ⟨hdeparted, db₁, hsame, hgroups, rfl⟩
  · rw [hsame k row hforeign, and_iff_left fun h => hnot h.2.1]
  · obtain ⟨hmessages, hgroupMessages⟩ := removeAccount_messages db₁ now caller.address mode
    have hrow := hsame k row hforeign
    cases k with
    | dm =>
      have hstore : (removeAccount db₁ now caller.address mode).store .dm = db₁.store .dm :=
        hmessages
      rw [hstore, hrow, and_iff_left fun h => by cases h.1]
    | group =>
      have hstore : row ∈ (removeAccount db₁ now caller.address mode).store .group ↔
          row ∈ (leaveAllGroups db₁ caller.address).groupMessages := by
        rw [← hgroupMessages]
        rfl
      rw [hstore, leaveAllGroups_messages, TakesAlong.congr hgroups]
      exact and_congr hrow (by simp [hdeparted])

/-! ## A group that outlives a member -/

/-- A user who can be reached. -/
def sampleReachable (name : String) : User :=
  ⟨lower name, name, some name, some (sampleKey '2'), none, none, none, none, 0, none, false⟩

theorem isMessengerCapable_sample (name : String) :
    isMessengerCapable sampleKeyPrimitives (sampleReachable name) = true := by
  have hall : (sampleKey '2').toList.all isLowerHexDigit = true := all_sampleKey (by decide)
  have htake : ('0' :: '4' :: List.replicate 2560 '2').take (2 * 97) =
      '0' :: '4' :: List.replicate 192 '2' := by
    rw [List.take_succ_cons, List.take_succ_cons, List.take_replicate]
    rfl
  have hpoint : isValidP384Point sampleKeyPrimitives ('0' :: '4' :: List.replicate 192 '2') = true := by
    rw [isValidP384Point, List.length_cons, List.length_cons, List.length_replicate]
    rfl
  have hvalid : isValidEncryptionKey sampleKeyPrimitives (sampleKey '2') = true := by
    rw [isValidEncryptionKey, matchHex_sampleKey (by decide), hexBytes_of_all hall, toList_sampleKey,
      htake, hpoint]
    rfl
  rw [isMessengerCapable, sampleReachable, Option.any_some, hvalid]

def samplePair : Database where
  __ := Database.empty
  users := ⟨[sampleReachable "alice", sampleReachable "bob"], by decide⟩

/-- Alice has made a group with Bob. -/
def sampleGroup : Database where
  __ := samplePair
  groupChannels := Table.empty.insert ⟨"g", lower "alice"⟩
  groupMembers := Serial.empty.insertAll
    (fun a id => ⟨id, "g", a, if a = lower "alice" then "owner" else "member", 0⟩)
    (fun _ _ => rfl) [lower "bob", lower "alice"]

theorem createGroup_sample :
    createGroup sampleKeyPrimitives samplePair 0 (sampleReachable "alice") "g" ["bob"] =
      .ok sampleGroup := by
  have haddrs : memberAddrs (sampleReachable "alice") ["bob"] = [lower "bob", lower "alice"] := by
    decide
  have husers : (samplePair.users.where' fun u =>
      u.active && [lower "bob", lower "alice"].contains u.address) =
        [sampleReachable "alice", sampleReachable "bob"] := rfl
  have hcapable : ([sampleReachable "alice", sampleReachable "bob"].find? fun u =>
      !isMessengerCapable sampleKeyPrimitives u) = none := by
    simp [isMessengerCapable_sample]
  simp only [createGroup, haddrs, husers, hcapable]
  rfl

/-- Bob writes in the group and leaves it, and Alice asks for a challenge. -/
def sampleAbandoned : Database :=
  [⟨0, .empty, ⟨"bob", 0⟩, .sendGroupMessage "g" (.json .null)⟩,
    ⟨0, challengeFor (lower "alice"), ⟨"bob", 0⟩, .removeMember "g" "bob"⟩].foldl
    (act sampleKeyPrimitives sampleConfig) sampleGroup

theorem inHistory_sampleAbandoned : InHistory sampleKeyPrimitives sampleConfig sampleAbandoned := by
  have hcreate : act sampleKeyPrimitives sampleConfig samplePair
      ⟨0, .empty, ⟨"alice", 0⟩, .createGroup "g" ["bob"]⟩ = sampleGroup := by
    change commitOr samplePair (createGroup sampleKeyPrimitives samplePair 0 (sampleReachable "alice") "g"
      ["bob"]) = sampleGroup
    rw [createGroup_sample]
    rfl
  exact ⟨samplePair, _, ⟨rfl, rfl, rfl, rfl⟩, .cons hcreate (.ofFun_foldl _ _ _)⟩

theorem takesAlong_sampleAbandoned : TakesAlong (lower "alice") sampleAbandoned "g" := by
  have hmembers : sampleAbandoned.groupMembers.rows = [⟨1, "g", lower "alice", "owner", 0⟩] := rfl
  have hchannels : sampleAbandoned.groupChannels.rows = [⟨"g", lower "alice"⟩] := rfl
  have hc : (⟨"g", lower "alice"⟩ : GroupChannel) ∈ sampleAbandoned.groupChannels := by
    rw [← Table.mem_rows, hchannels]
    exact List.mem_singleton_self _
  refine ⟨?_, ⟨_, hc, rfl⟩, .inr ⟨_, hc, rfl, rfl⟩⟩
  rintro ⟨m, hm, -, hne⟩
  rw [← Serial.mem_toTable, ← Table.mem_rows, hmembers] at hm
  obtain rfl := List.mem_singleton.mp hm
  exact hne rfl

/-- Alice signs the leave of her account, and where her challenge waits she departs. -/
theorem departs_sample : ∃ signature, ∀ db : Database,
    (claimNonce db 0 (sampleReachable "alice").address "0").2 = true →
    Departed (performDeletion sampleKeyPrimitives.toPrimitives sampleConfig db 0
      (sampleReachable "alice") .leave ⟨"0", "https://sample", "sample", signature, []⟩).2 := by
  obtain ⟨message, hmessage⟩ : ∃ message, accountDeletionMessage sampleKeyPrimitives.toPrimitives
      "0" .leave [] "https://sample" "sample" = .ok message := ⟨_, rfl⟩
  have hsite : checkSignedForThisServer sampleConfig "https://sample" "sample" = .ok () := by decide
  have hauth : authorizeDeletion sampleKeyPrimitives.toPrimitives sampleConfig (sampleReachable "alice")
      .leave ⟨"0", "https://sample", "sample", "alice" ++ message, []⟩ = .ok () :=
    authorizeDeletion_eq_ok List.nodup_nil rfl hsite hmessage (beq_self_eq_true _)
  refine ⟨"alice" ++ message, fun db hwon => ?_⟩
  simp only [performDeletion, hwon, hauth, Bool.not_true, Bool.false_eq_true, if_false]
  exact ⟨_, rfl, rfl⟩

/-- Alice leaves her account, and what Bob wrote in her group is gone. -/
theorem not_departure_kept : ∃ db, InHistory sampleKeyPrimitives sampleConfig db ∧
    ∃ caller ∈ db.users, ∃ req, ∃ row ∈ db.groupMessages, row.senderAddress ≠ caller.address ∧
      Departed (performDeletion sampleKeyPrimitives.toPrimitives sampleConfig db 0 caller .leave req).2 ∧
      row ∉ (performDeletion sampleKeyPrimitives.toPrimitives sampleConfig db 0 caller .leave
        req).1.groupMessages := by
  obtain ⟨signature, hsigned⟩ := departs_sample
  have hdeparted := hsigned sampleAbandoned (by decide)
  have hrow : (⟨0, lower "bob", "g", .json .null⟩ : Message) ∈ sampleAbandoned.groupMessages :=
    List.mem_singleton_self _
  refine ⟨sampleAbandoned, inHistory_sampleAbandoned, sampleReachable "alice", List.mem_cons_self,
    _, _, hrow, by decide, hdeparted, fun hmem => ?_⟩
  rcases hr : performDeletion sampleKeyPrimitives.toPrimitives sampleConfig sampleAbandoned 0
    (sampleReachable "alice") .leave ⟨"0", "https://sample", "sample", signature, []⟩ with
    ⟨db', answer⟩
  rw [hr] at hdeparted hmem
  rcases performDeletion_departs hr with ⟨hnot, -⟩ | ⟨-, db₁, -, hgroups, rfl⟩
  · exact hnot hdeparted
  · have hmem' := (removeAccount_messages db₁ 0 (sampleReachable "alice").address .leave).2 ▸ hmem
    exact ((leaveAllGroups_messages _ db₁ _).mp hmem').2
      ((TakesAlong.congr hgroups).mpr takesAlong_sampleAbandoned)

/-- Bob has written in the group, and Alice asks for a challenge. -/
def sampleTalked : Database :=
  act sampleKeyPrimitives sampleConfig sampleGroup
    ⟨0, challengeFor (lower "alice"), ⟨"bob", 0⟩, .sendGroupMessage "g" (.json .null)⟩

/-- While Bob is a member, what he wrote stays when Alice leaves. -/
theorem departure_frame_sample : ∃ signature,
    Departed (performDeletion sampleKeyPrimitives.toPrimitives sampleConfig sampleTalked 0
      (sampleReachable "alice") .leave ⟨"0", "https://sample", "sample", signature, []⟩).2 ∧
    (⟨0, lower "bob", "g", .json .null⟩ : Message) ∈
      (performDeletion sampleKeyPrimitives.toPrimitives sampleConfig sampleTalked 0
        (sampleReachable "alice") .leave
        ⟨"0", "https://sample", "sample", signature, []⟩).1.store .group := by
  obtain ⟨signature, hsigned⟩ := departs_sample
  have hforeign : (⟨0, lower "bob", "g", .json .null⟩ : Message).senderAddress ≠
      (sampleReachable "alice").address := by decide
  have hrow : (⟨0, lower "bob", "g", .json .null⟩ : Message) ∈ sampleTalked.store .group :=
    List.mem_singleton_self _
  have hbob : (⟨0, "g", lower "bob", "member", 0⟩ : GroupMember) ∈ sampleTalked.groupMembers :=
    List.mem_cons_self
  refine ⟨signature, hsigned sampleTalked (by decide),
    (departure_frame _ _ sampleTalked 0 (sampleReachable "alice") .leave _ .group _
      hforeign).mpr ⟨hrow, fun h => ?_⟩⟩
  exact h.2.2.alone ⟨_, hbob, rfl, hforeign⟩

end Kryptolog.Server
