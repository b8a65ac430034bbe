import Kryptolog.Server.MessageFrames

/-! # Who may change whose role

`RoleStep` lists what a request can do to the members of the groups. From it: every channel has one
owner, and nobody who is not the owner gains by any request, their own or another's, except that the
owner who leaves is succeeded by one member.
-/

namespace Kryptolog.Server
set_option autoImplicit false

open Tables Fallible Runs

/-- The account has the role in the channel. -/
def HasRole (db : Database) (channel : String) (a : Address) (role : String) : Prop :=
  ∃ m ∈ db.groupMembers, m.channelId = channel ∧ m.userAddress = a ∧ m.role = role

def IsMember (db : Database) (channel : String) (a : Address) : Prop :=
  ∃ m ∈ db.groupMembers, m.channelId = channel ∧ m.userAddress = a

/-! ## The succession rule -/

/-- An admin if there is one, else the member who joined first. -/
structure Succeeds (remaining : List GroupMember) (s : GroupMember) : Prop where
  mem : s ∈ remaining
  admin : ∀ m ∈ remaining, m.role = "admin" → s.role = "admin"
  first : s.role ≠ "admin" → ∀ m ∈ remaining, s.joinedAt ≤ m.joinedAt

def earlier (best : Option GroupMember) (m : GroupMember) : Option GroupMember :=
  match best with
  | none => some m
  | some b => if m.joinedAt < b.joinedAt then some m else some b

/-- Who `succeed_group_owner` chooses. -/
def successor (remaining : List GroupMember) : Option GroupMember :=
  (remaining.find? (·.role == "admin")).or (remaining.foldl earlier none)

theorem succeedGroupOwner_eq (db : Database) (channel : GroupChannel) (remaining : List GroupMember) :
    succeedGroupOwner db channel remaining =
      match successor remaining with
      | none =>
        { db with
          groupChannels := db.groupChannels.delete (·.id == channel.id)
          groupMembers := db.groupMembers.delete (·.channelId == channel.id)
          groupMessages := db.groupMessages.delete (·.target == channel.id) }
      | some s =>
        { db with
          groupMembers := db.groupMembers.update (·.id == s.id)
            (fun m => { m with role := "owner" }) (fun _ => rfl)
          groupChannels := db.groupChannels.update (·.id == channel.id)
            (fun c => { c with ownerAddress := s.userAddress }) (fun _ => rfl) } := rfl

theorem foldl_earlier {ms : List GroupMember} {b s : GroupMember} (h : ms.foldl earlier (some b) = some s) :
    s ∈ b :: ms ∧ ∀ m ∈ b :: ms, s.joinedAt ≤ m.joinedAt := by
  induction ms generalizing b with
  | nil =>
    obtain rfl : b = s := Option.some.inj h
    exact ⟨List.mem_singleton_self b, fun m hm => by rw [List.mem_singleton.mp hm]⟩
  | cons m ms ih =>
    rw [List.foldl_cons] at h
    by_cases hlt : m.joinedAt < b.joinedAt
    · rw [show earlier (some b) m = some m from if_pos hlt] at h
      obtain ⟨hs, hfirst⟩ := ih h
      refine ⟨List.mem_cons_of_mem b hs, fun x hx => ?_⟩
      rcases List.mem_cons.mp hx with rfl | hx
      · exact (hfirst m List.mem_cons_self).trans (Nat.le_of_lt hlt)
      · exact hfirst x hx
    · rw [show earlier (some b) m = some b from if_neg hlt] at h
      obtain ⟨hs, hfirst⟩ := ih h
      refine ⟨?_, fun x hx => ?_⟩
      · rcases List.mem_cons.mp hs with rfl | hs
        · exact List.mem_cons_self
        · exact List.mem_cons_of_mem _ (List.mem_cons_of_mem _ hs)
      · rcases List.mem_cons.mp hx with rfl | hx
        · exact hfirst _ List.mem_cons_self
        · rcases List.mem_cons.mp hx with rfl | hx
          · exact (hfirst b List.mem_cons_self).trans (Nat.le_of_not_lt hlt)
          · exact hfirst x (List.mem_cons_of_mem _ hx)

theorem successor_eq_none {remaining : List GroupMember} (h : successor remaining = none) :
    remaining = [] := by
  rw [successor, Option.or_eq_none_iff] at h
  exact earliest_eq_none h.2

theorem successor_eq_some {remaining : List GroupMember} {s : GroupMember}
    (h : successor remaining = some s) : Succeeds remaining s := by
  unfold successor at h
  cases hadmin : remaining.find? (·.role == "admin") with
  | some m =>
    rw [hadmin] at h
    obtain rfl : m = s := Option.some.inj h
    have hrole : m.role = "admin" := by simpa using List.find?_some hadmin
    exact ⟨List.mem_of_find?_eq_some hadmin, fun _ _ _ => hrole, fun hne => absurd hrole hne⟩
  | none =>
    rw [hadmin, Option.none_or] at h
    have hnone : ∀ m ∈ remaining, m.role ≠ "admin" := by simpa using List.find?_eq_none.mp hadmin
    cases remaining with
    | nil => cases h
    | cons b ms =>
      obtain ⟨hs, hfirst⟩ := foldl_earlier (b := b) h
      exact ⟨hs, fun m hm hrole => absurd hrole (hnone m hm), fun _ => hfirst⟩

/-! ## What a request can do -/

/-- One owner in every channel, who is the one that its row names. -/
structure Ordered (db : Database) : Prop where
  single : ∀ m ∈ db.groupMembers, ∀ m' ∈ db.groupMembers, m.channelId = m'.channelId →
    m.userAddress = m'.userAddress → m = m'
  owner : ∀ m ∈ db.groupMembers, ∀ m' ∈ db.groupMembers, m.channelId = m'.channelId →
    m.role = "owner" → m'.role = "owner" → m = m'
  channel : ∀ m ∈ db.groupMembers, ChannelExists db m.channelId
  owned : ∀ c ∈ db.groupChannels, HasRole db c.id c.ownerAddress "owner"

/-- What a request of `a` does to the groups. -/
inductive RoleStep (a : Address) (activity : Activity) (db db' : Database) : Prop
  | same (hmembers : db'.groupMembers = db.groupMembers) (hchannels : db'.groupChannels = db.groupChannels)
  | creates (channel : String) (hnew : ¬ ChannelExists db channel)
    (hmembers : ∀ m ∈ db'.groupMembers, m ∈ db.groupMembers ∨
      (m.channelId = channel ∧ m.role = if m.userAddress = a then "owner" else "member"))
    (hold : ∀ m ∈ db.groupMembers, m ∈ db'.groupMembers)
    (hsingle : ∀ m ∈ db'.groupMembers, ∀ m' ∈ db'.groupMembers, m.channelId = channel →
      m'.channelId = channel → m.userAddress = m'.userAddress → m ∉ db.groupMembers →
      m' ∉ db.groupMembers → m = m')
    (howner : IsMember db' channel a)
    (hchannels : ∀ c, c ∈ db'.groupChannels ↔ c ∈ db.groupChannels ∨ c = ⟨channel, a⟩)
  | adds (m : GroupMember) (hrole : m.role = "member") (hnew : ¬ IsMember db m.channelId m.userAddress)
    (hchannel : ChannelExists db m.channelId)
    (hmembers : ∀ x, x ∈ db'.groupMembers ↔ x ∈ db.groupMembers ∨ x = m)
    (hchannels : db'.groupChannels = db.groupChannels)
  | removes (target : GroupMember) (htarget : target ∈ db.groupMembers) (hrole : target.role ≠ "owner")
    (hallowed : target.userAddress = a ∨ HasRole db target.channelId a "owner" ∨ target.role = "member")
    (hmembers : ∀ x, x ∈ db'.groupMembers ↔ x ∈ db.groupMembers ∧
      ¬ (x.channelId = target.channelId ∧ x.userAddress = target.userAddress))
    (hchannels : db'.groupChannels = db.groupChannels)
  | disbands (channel address : String) (hactivity : activity = .removeMember channel address)
    (haddress : lower address = a) (howner : HasRole db channel a "owner")
    (halone : ∀ x ∈ db.groupMembers, x.channelId = channel → x.userAddress = a)
    (hmembers : ∀ x, x ∈ db'.groupMembers ↔ x ∈ db.groupMembers ∧ x.channelId ≠ channel)
    (hchannels : ∀ c, c ∈ db'.groupChannels ↔ c ∈ db.groupChannels ∧ c.id ≠ channel)
  | hands (channel address : String) (s : GroupMember) (hactivity : activity = .removeMember channel address)
    (haddress : lower address = a) (howner : HasRole db channel a "owner")
    (hs : Succeeds (db.groupMembers.where' fun m => m.channelId == channel && m.userAddress != a) s)
    (hmembers : ∀ x, x ∈ db'.groupMembers ↔ x = { s with role := "owner" } ∨
      (x ∈ db.groupMembers ∧ x.id ≠ s.id ∧ ¬ (x.channelId = channel ∧ x.userAddress = a)))
    (hchannels : ∀ c, c ∈ db'.groupChannels ↔ ∃ c₀ ∈ db.groupChannels,
      (if c₀.id = channel then { c₀ with ownerAddress := s.userAddress } else c₀) = c)
  | changes (m : GroupMember) (role : String) (hm : m ∈ db.groupMembers) (hold : m.role ≠ "owner")
    (hrole : role ≠ "owner") (howner : HasRole db m.channelId a "owner")
    (hmembers : ∀ x, x ∈ db'.groupMembers ↔ x = { m with role := role } ∨
      (x ∈ db.groupMembers ∧ x.id ≠ m.id))
    (hchannels : db'.groupChannels = db.groupChannels)

theorem findGroupMember_eq_some {db : Database} {channel : String} {a : Address} {m : GroupMember}
    (h : findGroupMember db channel a = some m) :
    m ∈ db.groupMembers ∧ m.channelId = channel ∧ m.userAddress = a := by
  obtain ⟨hm, htest⟩ := Table.find?_mem h
  simp only [Bool.and_eq_true, beq_iff_eq] at htest
  exact ⟨hm, htest.1, htest.2⟩

theorem isGroupMember_iff {db : Database} {channel : String} {a : Address} :
    isGroupMember db channel a = true ↔ IsMember db channel a := by
  constructor
  · intro h
    obtain ⟨m, hm⟩ := Option.isSome_iff_exists.mp h
    exact ⟨m, findGroupMember_eq_some hm⟩
  · rintro ⟨m, hm, hid, ha⟩
    have htest : (m.channelId == channel && m.userAddress == a) = true := by rw [hid, ha]; simp
    exact Option.isSome_iff_exists.mpr (Table.find?_isSome hm htest)

theorem loadChannelOr404_eq_ok {db : Database} {channel : String} {c : GroupChannel}
    (h : loadChannelOr404 db channel = .ok c) : c ∈ db.groupChannels ∧ c.id = channel := by
  unfold loadChannelOr404 at h
  split at h
  · next c' hc' =>
    cases h
    obtain ⟨hc, htest⟩ := Table.find?_mem hc'
    exact ⟨hc, beq_iff_eq.mp htest⟩
  · cases h

/-! ### Creating -/

theorem nodup_memberAddrs (caller : User) (memberAddresses : List String) :
    (memberAddrs caller memberAddresses).Nodup := by
  unfold memberAddrs
  simp only
  split
  · exact List.nodup_dedup _
  · next hnot =>
    rw [List.nodup_append]
    refine ⟨List.nodup_dedup _, List.nodup_singleton _, fun x hx y hy hxy => hnot ?_⟩
    rw [List.mem_singleton.mp hy] at hxy
    exact List.contains_iff_mem.mpr (hxy ▸ hx)

theorem mem_memberAddrs (caller : User) (memberAddresses : List String) :
    caller.address ∈ memberAddrs caller memberAddresses := by
  unfold memberAddrs
  simp only
  split
  · next h => exact List.contains_iff_mem.mp h
  · exact List.mem_append_right _ (List.mem_singleton_self _)

/-- The rows of a new group: one for each of the addresses. -/
theorem mem_newMembers (T : Serial GroupMember) (creator : Address) (channel : String) (now : Time)
    (addrs : List Address) : ∃ new : List GroupMember,
      (∀ m : GroupMember, m ∈ T.insertAll (fun (a : Address) (id : ℕ) =>
        (⟨id, channel, a, if a = creator then "owner" else "member", now⟩ : GroupMember))
        (fun _ _ => rfl) addrs ↔ m ∈ T ∨ m ∈ new) ∧
      new.map (·.userAddress) = addrs ∧
      ∀ m ∈ new, m.channelId = channel ∧ m.role = if m.userAddress = creator then "owner" else "member" := by
  obtain ⟨new, hrows, hcolumn, hmade⟩ := @Serial.rows_insertAll_column GroupMember _ Address
    (fun a id => ⟨id, channel, a, if a = creator then "owner" else "member", now⟩) (fun _ _ => rfl)
    GroupMember.userAddress (fun _ _ => rfl) addrs T
  refine ⟨new, fun m => ?_, hcolumn, fun m hm => ?_⟩
  · rw [← Serial.mem_toTable, ← Table.mem_rows, hrows, List.mem_append]
    rfl
  · obtain ⟨n, hn⟩ := hmade m hm
    rw [hn]
    exact ⟨rfl, rfl⟩

theorem createGroup_step {prim : KeyPrimitives} {db db' : Database} {now : Time} {caller : User}
    {channel : String} {memberAddresses : List String}
    (h : createGroup prim db now caller channel memberAddresses = .ok db') :
    RoleStep caller.address (.createGroup channel memberAddresses) db db' := by
  unfold createGroup at h
  obtain ⟨_, -, h⟩ := bind_eq_ok.mp h
  obtain ⟨_, -, h⟩ := bind_eq_ok.mp h
  split at h
  · cases h
  · obtain ⟨_, hfresh, h⟩ := bind_eq_ok.mp h
    cases h
    have hnew : ¬ ChannelExists db channel := by
      rintro ⟨c, hc, hid⟩
      rw [refuseIf_eq_ok, Table.any_eq_false] at hfresh
      simpa [hid] using hfresh c hc
    have hold : ∀ c ∈ db.groupChannels, c.id ≠ channel := fun c hc hid => hnew ⟨c, hc, hid⟩
    obtain ⟨new, hmem, hcolumn, hmade⟩ := mem_newMembers db.groupMembers caller.address channel now
      (memberAddrs caller memberAddresses)
    refine .creates channel hnew (fun m hm => ?_) (fun m hm => (hmem m).mpr (.inl hm))
      (fun m hm m' hm' _ _ ha hout hout' => ?_) ?_ fun c => ⟨fun hc => ?_, ?_⟩
    · exact ((hmem m).mp hm).imp id (hmade m)
    · have hin := ((hmem m).mp hm).resolve_left hout
      have hin' := ((hmem m').mp hm').resolve_left hout'
      refine List.inj_on_of_nodup_map ?_ hin hin' ha
      rw [hcolumn]
      exact nodup_memberAddrs ..
    · have ha := mem_memberAddrs caller memberAddresses
      rw [← hcolumn] at ha
      obtain ⟨m, hm, hma⟩ := List.mem_map.mp ha
      exact ⟨m, (hmem m).mpr (.inr hm), (hmade m hm).1, hma⟩
    · exact Table.mem_insert hc
    · rintro (hc | rfl)
      · exact Table.mem_insert_of_mem hc
      · exact Table.mem_insert_self hold

/-! ### Adding -/

theorem addMember_step {prim : KeyPrimitives} {db db' : Database} {now : Time} {caller : User}
    {channel userAddress : String} (h : addMember prim db now caller channel userAddress = .ok db') :
    RoleStep caller.address (.addMember channel userAddress) db db' := by
  unfold addMember at h
  obtain ⟨c, hc, h⟩ := bind_eq_ok.mp h
  obtain ⟨_, -, h⟩ := bind_eq_ok.mp h
  obtain ⟨_, hnew, h⟩ := bind_eq_ok.mp h
  obtain ⟨hc, hid⟩ := loadChannelOr404_eq_ok hc
  split at h
  · cases h
  · obtain ⟨_, -, h⟩ := bind_eq_ok.mp h
    obtain ⟨_, -, h⟩ := bind_eq_ok.mp h
    cases h
    refine .adds ⟨db.groupMembers.next, channel, lower userAddress, "member", now⟩ rfl ?_ ⟨c, hc, hid⟩
      (fun x => Serial.mem_insert) rfl
    rw [← isGroupMember_iff, refuseIf_eq_ok.mp hnew]
    exact Bool.false_ne_true

/-! ### Removing and leaving -/

theorem removeMember_step {db db' : Database} {caller : User} {channel memberAddress : String}
    (hdb : Ordered db) (h : removeMember db caller channel memberAddress = .ok db') :
    RoleStep caller.address (.removeMember channel memberAddress) db db' := by
  unfold removeMember at h
  obtain ⟨c, hc, h⟩ := bind_eq_ok.mp h
  obtain ⟨hc, rfl⟩ := loadChannelOr404_eq_ok hc
  simp only at h
  split at h
  · cases h
  · next callerMember hcaller =>
    split at h
    · cases h
    · next target htarget =>
      obtain ⟨_, hallowed, h⟩ := bind_eq_ok.mp h
      obtain ⟨hm, hmid, hma⟩ := findGroupMember_eq_some hcaller
      obtain ⟨ht, htid, hta⟩ := findGroupMember_eq_some htarget
      rw [refuseIf_eq_ok, Bool.not_eq_false'] at hallowed
      simp only [canRemoveGroupMember, Bool.or_eq_true, beq_iff_eq, Bool.and_eq_true] at hallowed
      by_cases howner : target.role = "owner"
      · -- the owner is the only one who may remove the owner
        have hself : callerMember = target := by
          rcases hallowed with (hsame | hrole) | ⟨-, hmember⟩
          · exact hdb.single _ hm _ ht (hmid.trans htid.symm) hsame
          · exact hdb.owner _ hm _ ht (hmid.trans htid.symm) hrole howner
          · rw [howner] at hmember
            exact absurd hmember (by decide)
        subst hself
        have haddress : lower memberAddress = caller.address := hta.symm.trans hma
        have hrole : HasRole db c.id caller.address "owner" := ⟨_, hm, hmid, hma, howner⟩
        rw [if_pos (beq_iff_eq.mpr howner), haddress, succeedGroupOwner_eq] at h
        split at h
        · next hnone =>
          have hremaining := successor_eq_none hnone
          cases h
          refine .disbands c.id memberAddress rfl haddress hrole (fun x hx hid => ?_) (fun x => ?_)
            fun c' => ?_
          · by_contra hne
            have hx' : x ∈ db.groupMembers.where' fun m =>
                m.channelId == c.id && m.userAddress != caller.address :=
              Table.mem_where'.mpr ⟨hx, by simp [hid, hne]⟩
            rw [hremaining] at hx'
            cases hx'
          · simp only [Serial.mem_delete, beq_eq_false_iff_ne, ne_eq, Bool.and_eq_false_iff]
            constructor
            · exact fun h => ⟨h.1.1, h.1.2⟩
            · exact fun h => ⟨h, .inl h.2⟩
          · rw [Table.mem_delete, beq_eq_false_iff_ne]
        · next s hs =>
          cases h
          have hchosen := successor_eq_some hs
          obtain ⟨hsmem, hstest⟩ := Table.mem_where'.mp hchosen.mem
          simp only [Bool.and_eq_true, beq_iff_eq, bne_iff_ne] at hstest
          refine .hands c.id memberAddress s rfl haddress hrole hchosen (fun x => ?_) fun c' => ?_
          · rw [Serial.mem_delete, Serial.mem_update]
            constructor
            · rintro ⟨⟨r, hr, rfl⟩, hx⟩
              split at hx
              · next hid =>
                rw [if_pos hid]
                obtain rfl : r = s := Serial.eq_of_key hr hsmem (beq_iff_eq.mp hid)
                exact .inl rfl
              · next hid =>
                rw [if_neg hid]
                exact .inr ⟨hr, fun e => hid (beq_iff_eq.mpr e), by simpa using hx⟩
            · rintro (rfl | ⟨hx, hid, hnot⟩)
              · refine ⟨⟨s, hsmem, if_pos (beq_self_eq_true _)⟩, ?_⟩
                simp [hstest.2]
              · exact ⟨⟨x, hx, if_neg (by simpa using hid)⟩, by simpa using hnot⟩
          · simp only [Table.mem_update, beq_iff_eq]
      · rw [if_neg (by simpa using howner)] at h
        cases h
        refine .removes target ht howner ?_ (fun x => ?_) rfl
        · rcases hallowed with (hsame | hrole) | ⟨-, hmember⟩
          · exact .inl (hsame.symm.trans hma)
          · exact .inr (.inl ⟨_, hm, hmid.trans htid.symm, hma, hrole⟩)
          · exact .inr (.inr hmember)
        · rw [Serial.mem_delete, htid, hta]
          simp

/-! ### Roles -/

theorem updateMemberRole_step {db db' : Database} {caller : User} {channel memberAddress role : String}
    (h : updateMemberRole db caller channel memberAddress role = .ok db') :
    RoleStep caller.address (.updateMemberRole channel memberAddress role) db db' := by
  unfold updateMemberRole at h
  obtain ⟨c, -, h⟩ := bind_eq_ok.mp h
  obtain ⟨_, hmanage, h⟩ := bind_eq_ok.mp h
  rw [refuseIf_eq_ok, Bool.not_eq_false', canManageGroupRoles, Option.any_eq_true] at hmanage
  obtain ⟨m, hfind, hrole⟩ := hmanage
  obtain ⟨hm, hmid, hma⟩ := findGroupMember_eq_some hfind
  split at h
  · cases h
  · next target htarget =>
    obtain ⟨ht, htid, -⟩ := findGroupMember_eq_some htarget
    obtain ⟨_, hold, h⟩ := bind_eq_ok.mp h
    obtain ⟨_, hnew, h⟩ := bind_eq_ok.mp h
    cases h
    rw [refuseIf_eq_ok, beq_eq_false_iff_ne] at hold
    have hnotOwner : lowerText role ≠ "owner" := by
      intro howner
      rw [howner] at hnew
      cases hnew
    refine .changes target (lowerText role) ht hold hnotOwner
      ⟨m, hm, hmid.trans htid.symm, hma, beq_iff_eq.mp hrole⟩ (fun x => ?_) rfl
    rw [Serial.mem_update]
    constructor
    · rintro ⟨r, hr, rfl⟩
      split
      · next hid =>
        obtain rfl : r = target := Serial.eq_of_key hr ht (beq_iff_eq.mp hid)
        exact .inl rfl
      · next hid => exact .inr ⟨hr, fun e => hid (beq_iff_eq.mpr e)⟩
    · rintro (rfl | ⟨hx, hid⟩)
      · exact ⟨target, ht, if_pos (beq_self_eq_true _)⟩
      · exact ⟨x, hx, if_neg (by simpa using hid)⟩

/-! ## One owner in every channel -/

theorem Ordered.step {a : Address} {activity : Activity} {db db' : Database} (hdb : Ordered db)
    (h : RoleStep a activity db db') : Ordered db' := by
  cases h with
  | same hmembers hchannels =>
    refine ⟨?_, ?_, ?_, ?_⟩
    · rw [hmembers]
      exact hdb.single
    · rw [hmembers]
      exact hdb.owner
    · rw [hmembers]
      unfold ChannelExists
      rw [hchannels]
      exact hdb.channel
    · rw [hchannels]
      unfold HasRole
      rw [hmembers]
      exact hdb.owned
  | creates channel hnew hmembers hold hsingle howner hchannels =>
    have hin : ∀ m ∈ db'.groupMembers, m.channelId = channel → m ∉ db.groupMembers :=
      fun m _ hid hm => hnew (hid ▸ hdb.channel m hm)
    have hout : ∀ m ∈ db'.groupMembers, m.channelId ≠ channel → m ∈ db.groupMembers := fun m hm hid =>
      (hmembers m hm).resolve_right fun h => hid h.1
    have hrole : ∀ m ∈ db'.groupMembers, m.channelId = channel → m.role = "owner" → m.userAddress = a := by
      intro m hm hid howner
      obtain ⟨-, hrole⟩ := (hmembers m hm).resolve_left (hin m hm hid)
      by_contra hne
      rw [if_neg hne, howner] at hrole
      exact absurd hrole (by decide)
    refine ⟨fun m hm m' hm' hid ha => ?_, fun m hm m' hm' hid hm₁ hm₂ => ?_, fun m hm => ?_, fun c hc => ?_⟩
    · by_cases hc : m.channelId = channel
      · exact hsingle m hm m' hm' hc (hid ▸ hc) ha (hin m hm hc) (hin m' hm' (hid ▸ hc))
      · exact hdb.single m (hout m hm hc) m' (hout m' hm' (hid ▸ hc)) hid ha
    · by_cases hc : m.channelId = channel
      · exact hsingle m hm m' hm' hc (hid ▸ hc) ((hrole m hm hc hm₁).trans (hrole m' hm' (hid ▸ hc) hm₂).symm)
          (hin m hm hc) (hin m' hm' (hid ▸ hc))
      · exact hdb.owner m (hout m hm hc) m' (hout m' hm' (hid ▸ hc)) hid hm₁ hm₂
    · by_cases hc : m.channelId = channel
      · exact ⟨⟨channel, a⟩, (hchannels _).mpr (.inr rfl), hc.symm⟩
      · obtain ⟨c, hc', hid⟩ := hdb.channel m (hout m hm hc)
        exact ⟨c, (hchannels c).mpr (.inl hc'), hid⟩
    · rcases (hchannels c).mp hc with hc | rfl
      · obtain ⟨m, hm, hrest⟩ := hdb.owned c hc
        exact ⟨m, hold m hm, hrest⟩
      · obtain ⟨m, hm, hid, ha⟩ := howner
        obtain ⟨-, hrole⟩ := (hmembers m hm).resolve_left (hin m hm hid)
        exact ⟨m, hm, hid, ha, by rw [hrole, if_pos ha]⟩
  | adds m₀ hrole hnew hchannel hmembers hchannels =>
    refine ⟨fun m hm m' hm' hid ha => ?_, fun m hm m' hm' hid hm₁ hm₂ => ?_, fun m hm => ?_, fun c hc => ?_⟩
    · rcases (hmembers m).mp hm with hm | rfl <;> rcases (hmembers m').mp hm' with hm' | rfl
      · exact hdb.single m hm m' hm' hid ha
      · exact absurd ⟨m, hm, hid, ha⟩ hnew
      · exact absurd ⟨m', hm', hid.symm, ha.symm⟩ hnew
      · rfl
    · have howner : ∀ x ∈ db'.groupMembers, x.role = "owner" → x ∈ db.groupMembers := by
        intro x hx hx'
        rcases (hmembers x).mp hx with hx | rfl
        · exact hx
        · rw [hrole] at hx'
          exact absurd hx' (by decide)
      exact hdb.owner m (howner m hm hm₁) m' (howner m' hm' hm₂) hid hm₁ hm₂
    · unfold ChannelExists
      rw [hchannels]
      rcases (hmembers m).mp hm with hm | rfl
      · exact hdb.channel m hm
      · exact hchannel
    · rw [hchannels] at hc
      obtain ⟨m, hm, hrest⟩ := hdb.owned c hc
      exact ⟨m, (hmembers m).mpr (.inl hm), hrest⟩
  | removes target htarget hrole hallowed hmembers hchannels =>
    have hsub : ∀ m ∈ db'.groupMembers, m ∈ db.groupMembers := fun m hm => ((hmembers m).mp hm).1
    refine ⟨fun m hm m' hm' => hdb.single m (hsub m hm) m' (hsub m' hm'),
      fun m hm m' hm' => hdb.owner m (hsub m hm) m' (hsub m' hm'), fun m hm => ?_, fun c hc => ?_⟩
    · unfold ChannelExists
      rw [hchannels]
      exact hdb.channel m (hsub m hm)
    · rw [hchannels] at hc
      obtain ⟨m, hm, hid, ha, howner⟩ := hdb.owned c hc
      refine ⟨m, (hmembers m).mpr ⟨hm, fun h => hrole ?_⟩, hid, ha, howner⟩
      rw [← hdb.single m hm target htarget h.1 h.2]
      exact howner
  | disbands channel address hactivity haddress howner halone hmembers hchannels =>
    have hsub : ∀ m ∈ db'.groupMembers, m ∈ db.groupMembers := fun m hm => ((hmembers m).mp hm).1
    refine ⟨fun m hm m' hm' => hdb.single m (hsub m hm) m' (hsub m' hm'),
      fun m hm m' hm' => hdb.owner m (hsub m hm) m' (hsub m' hm'), fun m hm => ?_, fun c hc => ?_⟩
    · obtain ⟨hm, hid⟩ := (hmembers m).mp hm
      obtain ⟨c, hc, hcid⟩ := hdb.channel m hm
      exact ⟨c, (hchannels c).mpr ⟨hc, by rw [hcid]; exact hid⟩, hcid⟩
    · obtain ⟨hc, hid⟩ := (hchannels c).mp hc
      obtain ⟨m, hm, hmid, hrest⟩ := hdb.owned c hc
      exact ⟨m, (hmembers m).mpr ⟨hm, by rw [hmid]; exact hid⟩, hmid, hrest⟩
  | hands channel address s hactivity haddress howner hs hmembers hchannels =>
    obtain ⟨hsmem, hstest⟩ := Table.mem_where'.mp hs.mem
    simp only [Bool.and_eq_true, beq_iff_eq, bne_iff_ne] at hstest
    obtain ⟨hsid, hsa⟩ := hstest
    obtain ⟨m₀, hm₀, hid₀, ha₀, hrole₀⟩ := howner
    -- the owner who leaves was the only one
    have hothers : ∀ m ∈ db.groupMembers, ¬ (m.channelId = channel ∧ m.userAddress = a) →
        m.channelId = channel → m.role ≠ "owner" := by
      intro m hm hnot hid hrole
      have heq := hdb.owner m hm m₀ hm₀ (hid.trans hid₀.symm) hrole hrole₀
      exact hnot ⟨hid, heq ▸ ha₀⟩
    refine ⟨fun m hm m' hm' hid ha => ?_, fun m hm m' hm' hid hm₁ hm₂ => ?_, fun m hm => ?_, fun c hc => ?_⟩
    · rcases (hmembers m).mp hm with rfl | ⟨hm, hne, hnot⟩ <;>
        rcases (hmembers m').mp hm' with rfl | ⟨hm', hne', hnot'⟩
      · rfl
      · exact absurd (congrArg GroupMember.id (hdb.single s hsmem m' hm' hid ha)).symm hne'
      · exact absurd (congrArg GroupMember.id (hdb.single m hm s hsmem hid ha)) hne
      · exact hdb.single m hm m' hm' hid ha
    · rcases (hmembers m).mp hm with rfl | ⟨hm, hne, hnot⟩ <;>
        rcases (hmembers m').mp hm' with rfl | ⟨hm', hne', hnot'⟩
      · rfl
      · exact absurd hm₂ (hothers m' hm' hnot' (hid.symm.trans hsid))
      · exact absurd hm₁ (hothers m hm hnot (hid.trans hsid))
      · exact hdb.owner m hm m' hm' hid hm₁ hm₂
    · have hkept : ∀ x, ChannelExists db x → ChannelExists db' x := by
        rintro x ⟨c, hc, rfl⟩
        refine ⟨_, (hchannels _).mpr ⟨c, hc, rfl⟩, ?_⟩
        split <;> rfl
      rcases (hmembers m).mp hm with rfl | ⟨hm, -⟩
      · exact hkept _ (hdb.channel s hsmem)
      · exact hkept _ (hdb.channel m hm)
    · obtain ⟨c₀, hc₀, rfl⟩ := (hchannels c).mp hc
      split
      · next hid => exact ⟨_, (hmembers _).mpr (.inl rfl), hsid.trans hid.symm, rfl, rfl⟩
      · next hid =>
        obtain ⟨m, hm, hmid, hrest⟩ := hdb.owned c₀ hc₀
        refine ⟨m, (hmembers m).mpr (.inr ⟨hm, fun e => hid ?_, fun h => hid (hmid.symm.trans h.1)⟩),
          hmid, hrest⟩
        rw [← hmid, Serial.eq_of_key hm hsmem e]
        exact hsid
  | changes m₀ role hm₀ hold hrole howner hmembers hchannels =>
    refine ⟨fun m hm m' hm' hid ha => ?_, fun m hm m' hm' hid hm₁ hm₂ => ?_, fun m hm => ?_, fun c hc => ?_⟩
    · rcases (hmembers m).mp hm with rfl | ⟨hm, hne⟩ <;> rcases (hmembers m').mp hm' with rfl | ⟨hm', hne'⟩
      · rfl
      · exact absurd (congrArg GroupMember.id (hdb.single m₀ hm₀ m' hm' hid ha)).symm hne'
      · exact absurd (congrArg GroupMember.id (hdb.single m hm m₀ hm₀ hid ha)) hne
      · exact hdb.single m hm m' hm' hid ha
    · rcases (hmembers m).mp hm with rfl | ⟨hm, hne⟩
      · exact absurd hm₁ hrole
      · rcases (hmembers m').mp hm' with rfl | ⟨hm', hne'⟩
        · exact absurd hm₂ hrole
        · exact hdb.owner m hm m' hm' hid hm₁ hm₂
    · unfold ChannelExists
      rw [hchannels]
      rcases (hmembers m).mp hm with rfl | ⟨hm, -⟩
      · exact hdb.channel m₀ hm₀
      · exact hdb.channel m hm
    · rw [hchannels] at hc
      obtain ⟨m, hm, hid, ha, howner⟩ := hdb.owned c hc
      refine ⟨m, (hmembers m).mpr (.inr ⟨hm, fun e => hold ?_⟩), hid, ha, howner⟩
      rw [← Serial.eq_of_key hm hm₀ e]
      exact howner

/-! ## The ladder -/

/-- The owner `a` has left the channel, and `b` alone has its place, by the rule. -/
structure Succession (db db' : Database) (channel : String) (a b : Address) : Prop where
  owned : HasRole db channel a "owner"
  left : ¬ IsMember db' channel a
  chosen : ∃ s ∈ db.groupMembers, s.channelId = channel ∧ s.userAddress = b ∧
    Succeeds (db.groupMembers.where' fun m => m.channelId == channel && m.userAddress != a) s
  only : ∀ x, HasRole db' channel x "owner" ↔ x = b
  others : ∀ m ∈ db.groupMembers, m.channelId = channel → m.userAddress ≠ a → m.userAddress ≠ b →
    m ∈ db'.groupMembers

/-- What a request of `a` may change. -/
structure Ladder (a : Address) (db db' : Database) : Prop where
  /-- An owner was the owner, has made the channel, or has succeeded the owner who left. -/
  owner : ∀ channel b, HasRole db' channel b "owner" → HasRole db channel b "owner" ∨
    (b = a ∧ ¬ ChannelExists db channel) ∨ Succession db db' channel a b
  /-- Only the owner touches the owner and the admins, apart from themself. -/
  kept : ∀ m ∈ db.groupMembers, m.role = "owner" ∨ m.role = "admin" →
    m.userAddress = a ∨ HasRole db m.channelId a "owner" ∨ m ∈ db'.groupMembers
  /-- Only the owner makes admins. -/
  admin : ∀ channel b, HasRole db' channel b "admin" →
    HasRole db channel b "admin" ∨ HasRole db channel a "owner"
  /-- A channel whose owner leaves has a successor, or is gone. -/
  departed : ∀ channel, HasRole db channel a "owner" → ¬ IsMember db' channel a →
    (∃ b, Succession db db' channel a b) ∨ ¬ ChannelExists db' channel

theorem Ladder.of_sub {a : Address} {db db' : Database}
    (hsub : ∀ m ∈ db'.groupMembers, m ∈ db.groupMembers)
    (hkept : ∀ m ∈ db.groupMembers, m.role = "owner" ∨ m.role = "admin" →
      m.userAddress = a ∨ HasRole db m.channelId a "owner" ∨ m ∈ db'.groupMembers)
    (hdeparted : ∀ channel, HasRole db channel a "owner" → ¬ IsMember db' channel a →
      (∃ b, Succession db db' channel a b) ∨ ¬ ChannelExists db' channel) : Ladder a db db' where
  owner _ _ := fun ⟨m, hm, h⟩ => .inl ⟨m, hsub m hm, h⟩
  kept := hkept
  admin _ _ := fun ⟨m, hm, h⟩ => .inl ⟨m, hsub m hm, h⟩
  departed := hdeparted

/-- The owner of a channel is still a member where the rows of owners are kept. -/
theorem departed_of_kept {a : Address} {db db' : Database}
    (h : ∀ m ∈ db.groupMembers, m.role = "owner" → m.userAddress = a → IsMember db' m.channelId a) :
    ∀ channel, HasRole db channel a "owner" → ¬ IsMember db' channel a →
      (∃ b, Succession db db' channel a b) ∨ ¬ ChannelExists db' channel := by
  rintro channel ⟨m, hm, rfl, ha, hrole⟩ hnot
  exact absurd (h m hm hrole ha) hnot

theorem RoleStep.succession {a : Address} {db db' : Database} {channel : String} {s : GroupMember}
    (hdb : Ordered db) (howner : HasRole db channel a "owner")
    (hs : Succeeds (db.groupMembers.where' fun m => m.channelId == channel && m.userAddress != a) s)
    (hmembers : ∀ x, x ∈ db'.groupMembers ↔ x = { s with role := "owner" } ∨
      (x ∈ db.groupMembers ∧ x.id ≠ s.id ∧ ¬ (x.channelId = channel ∧ x.userAddress = a))) :
    Succession db db' channel a s.userAddress := by
  obtain ⟨hsmem, hstest⟩ := Table.mem_where'.mp hs.mem
  simp only [Bool.and_eq_true, beq_iff_eq, bne_iff_ne] at hstest
  obtain ⟨hsid, hsa⟩ := hstest
  refine ⟨howner, ?_, ⟨s, hsmem, hsid, rfl, hs⟩, fun x => ⟨?_, ?_⟩, fun m hm hid hne hnes => ?_⟩
  · rintro ⟨m, hm, hid, hma⟩
    rcases (hmembers m).mp hm with rfl | ⟨-, -, hnot⟩
    · exact hsa hma
    · exact hnot ⟨hid, hma⟩
  · rintro ⟨m, hm, hid, rfl, hrole⟩
    rcases (hmembers m).mp hm with rfl | ⟨hm, -, hnot⟩
    · rfl
    · obtain ⟨m₀, hm₀, hid₀, ha₀, hrole₀⟩ := howner
      have heq := hdb.owner m hm m₀ hm₀ (hid.trans hid₀.symm) hrole hrole₀
      exact absurd ⟨hid, heq ▸ ha₀⟩ hnot
  · rintro rfl
    exact ⟨_, (hmembers _).mpr (.inl rfl), hsid, rfl, rfl⟩
  · refine (hmembers m).mpr (.inr ⟨hm, fun e => hnes ?_, fun h => hne h.2⟩)
    rw [Serial.eq_of_key hm hsmem e]

theorem RoleStep.ladder {a : Address} {activity : Activity} {db db' : Database} (hdb : Ordered db)
    (h : RoleStep a activity db db') : Ladder a db db' := by
  cases h with
  | same hmembers hchannels =>
    refine .of_sub (fun m hm => hmembers ▸ hm) (fun m hm _ => .inr (.inr (hmembers ▸ hm)))
      (departed_of_kept fun m hm _ ha => ⟨m, hmembers ▸ hm, rfl, ha⟩)
  | creates channel hnew hmembers hold hsingle howner hchannels =>
    refine ⟨?_, fun m hm _ => .inr (.inr (hold m hm)), ?_,
      departed_of_kept fun m hm _ ha => ⟨m, hold m hm, rfl, ha⟩⟩
    · rintro x b ⟨m, hm, rfl, rfl, hrole⟩
      rcases hmembers m hm with hm | ⟨hid, hmrole⟩
      · exact .inl ⟨m, hm, rfl, rfl, hrole⟩
      · refine .inr (.inl ⟨?_, by rw [hid]; exact hnew⟩)
        by_contra hne
        rw [if_neg hne, hrole] at hmrole
        exact absurd hmrole (by decide)
    · rintro x b ⟨m, hm, rfl, rfl, hrole⟩
      rcases hmembers m hm with hm | ⟨-, hmrole⟩
      · exact .inl ⟨m, hm, rfl, rfl, hrole⟩
      · rw [hrole] at hmrole
        split at hmrole <;> exact absurd hmrole (by decide)
  | adds m₀ hrole hnew hchannel hmembers hchannels =>
    refine ⟨?_, fun m hm _ => .inr (.inr ((hmembers m).mpr (.inl hm))), ?_,
      departed_of_kept fun m hm _ ha => ⟨m, (hmembers m).mpr (.inl hm), rfl, ha⟩⟩
    · rintro x b ⟨m, hm, hid, hb, howner⟩
      rcases (hmembers m).mp hm with hm | rfl
      · exact .inl ⟨m, hm, hid, hb, howner⟩
      · rw [hrole] at howner
        exact absurd howner (by decide)
    · rintro x b ⟨m, hm, hid, hb, hadmin⟩
      rcases (hmembers m).mp hm with hm | rfl
      · exact .inl ⟨m, hm, hid, hb, hadmin⟩
      · rw [hrole] at hadmin
        exact absurd hadmin (by decide)
  | removes target htarget hrole hallowed hmembers hchannels =>
    refine .of_sub (fun m hm => ((hmembers m).mp hm).1) (fun m hm hpower => ?_)
      (departed_of_kept fun m hm howner ha => ⟨m, (hmembers m).mpr ⟨hm, fun h => hrole ?_⟩, rfl, ha⟩)
    · by_cases hsame : m.channelId = target.channelId ∧ m.userAddress = target.userAddress
      · obtain rfl := hdb.single m hm target htarget hsame.1 hsame.2
        rcases hallowed with hself | howner | hmember
        · exact .inl hself
        · exact .inr (.inl howner)
        · rw [hmember] at hpower
          exact absurd hpower (by decide)
      · exact .inr (.inr ((hmembers m).mpr ⟨hm, hsame⟩))
    · rw [← hdb.single m hm target htarget h.1 h.2]
      exact howner
  | disbands channel address hactivity haddress howner halone hmembers hchannels =>
    refine .of_sub (fun m hm => ((hmembers m).mp hm).1) (fun m hm _ => ?_) ?_
    · by_cases hid : m.channelId = channel
      · exact .inl (halone m hm hid)
      · exact .inr (.inr ((hmembers m).mpr ⟨hm, hid⟩))
    · rintro x ⟨m, hm, rfl, ha, -⟩ hnot
      right
      rintro ⟨c, hc, hid⟩
      obtain ⟨-, hne⟩ := (hchannels c).mp hc
      exact hnot ⟨m, (hmembers m).mpr ⟨hm, hid ▸ hne⟩, rfl, ha⟩
  | hands channel address s hactivity haddress howner hs hmembers hchannels =>
    have hsuccession := RoleStep.succession hdb howner hs hmembers
    obtain ⟨hsmem, hstest⟩ := Table.mem_where'.mp hs.mem
    simp only [Bool.and_eq_true, beq_iff_eq, bne_iff_ne] at hstest
    obtain ⟨hsid, -⟩ := hstest
    refine ⟨?_, fun m hm _ => ?_, ?_, ?_⟩
    · rintro x b ⟨m, hm, rfl, rfl, hrole⟩
      rcases (hmembers m).mp hm with rfl | ⟨hm, -⟩
      · exact .inr (.inr (by rw [hsid]; exact hsuccession))
      · exact .inl ⟨m, hm, rfl, rfl, hrole⟩
    · by_cases hid : m.channelId = channel
      · exact .inr (.inl (hid ▸ howner))
      · refine .inr (.inr ((hmembers m).mpr (.inr ⟨hm, fun e => hid ?_, fun h => hid h.1⟩)))
        rw [Serial.eq_of_key hm hsmem e]
        exact hsid
    · rintro x b ⟨m, hm, rfl, rfl, hrole⟩
      rcases (hmembers m).mp hm with rfl | ⟨hm, -⟩
      · exact absurd hrole (by decide : ("owner" : String) ≠ "admin")
      · exact .inl ⟨m, hm, rfl, rfl, hrole⟩
    · rintro x ⟨m, hm, rfl, ha, hrole⟩ hnot
      by_cases hid : m.channelId = channel
      · exact .inl ⟨s.userAddress, by rw [hid]; exact hsuccession⟩
      · refine absurd ⟨m, (hmembers m).mpr (.inr ⟨hm, fun e => hid ?_, fun h => hid h.1⟩), rfl, ha⟩ hnot
        rw [Serial.eq_of_key hm hsmem e]
        exact hsid
  | changes m₀ role hm₀ hold hrole howner hmembers hchannels =>
    have hkeep : ∀ m ∈ db.groupMembers, m.id ≠ m₀.id → m ∈ db'.groupMembers := fun m hm hid =>
      (hmembers m).mpr (.inr ⟨hm, hid⟩)
    refine ⟨?_, fun m hm _ => ?_, ?_, departed_of_kept fun m hm howner ha => ⟨m, hkeep m hm fun e => hold ?_,
      rfl, ha⟩⟩
    · rintro x b ⟨m, hm, hid, hb, howner⟩
      rcases (hmembers m).mp hm with rfl | ⟨hm, -⟩
      · exact absurd howner hrole
      · exact .inl ⟨m, hm, hid, hb, howner⟩
    · by_cases hid : m.id = m₀.id
      · obtain rfl := Serial.eq_of_key hm hm₀ hid
        exact .inr (.inl howner)
      · exact .inr (.inr (hkeep m hm hid))
    · rintro x b ⟨m, hm, rfl, hb, hadmin⟩
      rcases (hmembers m).mp hm with rfl | ⟨hm, -⟩
      · exact .inr howner
      · exact .inl ⟨m, hm, rfl, hb, hadmin⟩
    · rw [← Serial.eq_of_key hm hm₀ e]
      exact howner

/-! ## Histories -/

def Activity.isDeparture : Activity → Bool
  | depart _ _ => true
  | _ => false

/-- The caller of a request, where its token is one. -/
def CalledBy (db : Database) (call : ActivityCall) (a : Address) : Prop :=
  ∀ caller, getCurrentUser db call.token = .ok caller → caller.address = a

theorem commitOr_step {a : Address} {activity : Activity} {db : Database} {result : Except Fault Database}
    (h : ∀ db', result = .ok db' → RoleStep a activity db db') :
    RoleStep a activity db (commitOr db result) := by
  cases result with
  | error e => exact .same rfl rfl
  | ok db' => exact h db' rfl

/-- Challenges are no part of a group. -/
theorem RoleStep.of_nonces {a : Address} {activity : Activity} {db db' : Database} {nonces : Table Nonce}
    (h : RoleStep a activity { db with nonces := nonces } db') : RoleStep a activity db db' := by
  cases h with
  | same hmembers hchannels => exact .same hmembers hchannels
  | creates channel hnew hmembers hold hsingle howner hchannels =>
    exact .creates channel hnew hmembers hold hsingle howner hchannels
  | adds m hrole hnew hchannel hmembers hchannels => exact .adds m hrole hnew hchannel hmembers hchannels
  | removes target htarget hrole hallowed hmembers hchannels =>
    exact .removes target htarget hrole hallowed hmembers hchannels
  | disbands channel address hactivity haddress howner halone hmembers hchannels =>
    exact .disbands channel address hactivity haddress howner halone hmembers hchannels
  | hands channel address s hactivity haddress howner hs hmembers hchannels =>
    exact .hands channel address s hactivity haddress howner hs hmembers hchannels
  | changes m role hm hold hrole howner hmembers hchannels =>
    exact .changes m role hm hold hrole howner hmembers hchannels

theorem act_step {prim : KeyPrimitives} {cfg : Config} {db : Database} {call : ActivityCall} {a : Address}
    (hdb : Ordered db) (hcall : call.activity.isDeparture = false) (ha : CalledBy db call a) :
    RoleStep a call.activity db (act prim cfg db call) := by
  have hdb' : Ordered { db with nonces := call.challenges } :=
    ⟨hdb.single, hdb.owner, hdb.channel, hdb.owned⟩
  refine RoleStep.of_nonces (?_ : RoleStep a call.activity { db with nonces := call.challenges } _)
  unfold act
  simp only
  split
  · exact .same rfl rfl
  · next caller hcaller =>
    obtain rfl := ha caller hcaller
    cases hactivity : call.activity with
    | sendMessage recipient content =>
      refine commitOr_step fun db' h => ?_
      unfold sendMessage at h
      obtain ⟨_, -, h⟩ := bind_eq_ok.mp h
      split at h
      · cases h
      · obtain ⟨_, -, h⟩ := bind_eq_ok.mp h
        cases h
        exact .same rfl rfl
    | sendGroupMessage channel content =>
      refine commitOr_step fun db' h => ?_
      unfold sendGroupMessage at h
      obtain ⟨_, -, h⟩ := bind_eq_ok.mp h
      obtain ⟨_, -, h⟩ := bind_eq_ok.mp h
      cases h
      exact .same rfl rfl
    | createGroup channel members => exact commitOr_step fun db' h => createGroup_step h
    | addMember channel user => exact commitOr_step fun db' h => addMember_step h
    | removeMember channel member => exact commitOr_step fun db' h => removeMember_step hdb' h
    | updateMemberRole channel member role => exact commitOr_step fun db' h => updateMemberRole_step h
    | depart mode req =>
      rw [hactivity] at hcall
      cases hcall

/-- Every request has some caller, if only a refused one. -/
theorem exists_calledBy (db : Database) (call : ActivityCall) : ∃ a, CalledBy db call a := by
  cases hcaller : getCurrentUser db call.token with
  | error e => exact ⟨lower "", fun caller h => by rw [hcaller] at h; cases h⟩
  | ok caller =>
    refine ⟨caller.address, fun caller' h => ?_⟩
    rw [hcaller] at h
    rw [Except.ok.inj h]

theorem Ordered.of_founded {db : Database} (h : Founded db) : Ordered db := by
  obtain ⟨-, -, hchannels, hmembers⟩ := h
  have hno : ∀ m : GroupMember, m ∉ db.groupMembers := by
    intro m hm
    rw [← Serial.mem_toTable, ← Table.mem_rows, hmembers] at hm
    cases hm
  refine ⟨fun m hm => absurd hm (hno m), fun m hm => absurd hm (hno m), fun m hm => absurd hm (hno m),
    fun c hc => ?_⟩
  rw [← Table.mem_rows, hchannels] at hc
  cases hc

/-- What requests to the groups lead to, in any order and from any callers. -/
def GroupRun (prim : KeyPrimitives) (cfg : Config) : Database → List ActivityCall → Database → Prop :=
  Run (restrict (fun _ call => call.activity.isDeparture = false) (ofFun (act prim cfg)))

theorem Ordered.run {prim : KeyPrimitives} {cfg : Config} {db db' : Database} {calls : List ActivityCall}
    (hdb : Ordered db) (h : GroupRun prim cfg db calls db') : Ordered db' := by
  refine h.invariant (fun s call t hs hst => ?_) hdb
  obtain ⟨hcall, rfl⟩ := hst
  obtain ⟨a, ha⟩ := exists_calledBy s call
  exact hs.step (act_step hs hcall ha)

/-- The owner asks to leave the channel. -/
def LeavesChannel (db : Database) (o : Address) (channel : String) (call : ActivityCall) : Prop :=
  ∃ caller address, getCurrentUser db call.token = .ok caller ∧ caller.address = o ∧
    call.activity = .removeMember channel address ∧ lower address = o

theorem Ordered.owner_eq {db : Database} (hdb : Ordered db) {channel : String} {a b : Address}
    (ha : HasRole db channel a "owner") (hb : HasRole db channel b "owner") : a = b := by
  obtain ⟨m, hm, hid, rfl, hrole⟩ := ha
  obtain ⟨m', hm', hid', rfl, hrole'⟩ := hb
  rw [hdb.owner m hm m' hm' (hid.trans hid'.symm) hrole hrole']

/-- A request that is not the owner's leave leaves the owner in place. -/
theorem RoleStep.owner_stays {a o : Address} {activity : Activity} {db db' : Database} {channel : String}
    (hdb : Ordered db) (h : RoleStep a activity db db') (ho : HasRole db channel o "owner")
    (hstays : ∀ address, activity = .removeMember channel address → lower address = a → a ≠ o) :
    HasRole db' channel o "owner" := by
  obtain ⟨m, hm, hid, hmo, hrole⟩ := id ho
  cases h with
  | same hmembers hchannels => exact ⟨m, hmembers ▸ hm, hid, hmo, hrole⟩
  | creates _ _ _ hold => exact ⟨m, hold m hm, hid, hmo, hrole⟩
  | adds m₀ _ _ _ hmembers => exact ⟨m, (hmembers m).mpr (.inl hm), hid, hmo, hrole⟩
  | removes target htarget hnot _ hmembers =>
    refine ⟨m, (hmembers m).mpr ⟨hm, fun hsame => hnot ?_⟩, hid, hmo, hrole⟩
    rw [← hdb.single m hm target htarget hsame.1 hsame.2]
    exact hrole
  | disbands channel' address hactivity haddress howner _ hmembers =>
    refine ⟨m, (hmembers m).mpr ⟨hm, fun hsame => ?_⟩, hid, hmo, hrole⟩
    obtain rfl : channel = channel' := hid.symm.trans hsame
    exact hstays address hactivity haddress (hdb.owner_eq howner ho)
  | hands channel' address s hactivity haddress howner hs hmembers =>
    have hne : channel ≠ channel' := by
      rintro rfl
      exact hstays address hactivity haddress (hdb.owner_eq howner ho)
    obtain ⟨hsmem, hstest⟩ := Table.mem_where'.mp hs.mem
    simp only [Bool.and_eq_true, beq_iff_eq, bne_iff_ne] at hstest
    refine ⟨m, (hmembers m).mpr (.inr ⟨hm, fun e => hne ?_, fun hsame => hne (hid.symm.trans hsame.1)⟩),
      hid, hmo, hrole⟩
    rw [← hid, Serial.eq_of_key hm hsmem e]
    exact hstest.1
  | changes m₀ role hm₀ hold _ _ hmembers =>
    refine ⟨m, (hmembers m).mpr (.inr ⟨hm, fun e => hold ?_⟩), hid, hmo, hrole⟩
    rw [← Serial.eq_of_key hm hm₀ e]
    exact hrole

/-- Over a run in which the owner does not leave, the owner stays, and nobody else is one. -/
theorem owner_stays {prim : KeyPrimitives} {cfg : Config} {db db' : Database} {calls : List ActivityCall}
    {channel : String} {o : Address} (hdb : Ordered db) (ho : HasRole db channel o "owner")
    (h : Run (restrict (fun s call => call.activity.isDeparture = false ∧ ¬ LeavesChannel s o channel call)
      (ofFun (act prim cfg))) db calls db') (b : Address) : HasRole db' channel b "owner" ↔ b = o := by
  obtain ⟨hdb', ho'⟩ : Ordered db' ∧ HasRole db' channel o "owner" := by
    refine h.invariant (I := fun s => Ordered s ∧ HasRole s channel o "owner")
      (fun s call t hs hst => ?_) ⟨hdb, ho⟩
    obtain ⟨⟨hcall, hstays⟩, rfl⟩ := hst
    obtain ⟨a, ha⟩ := exists_calledBy s call
    have hstep := (act_step hs.1 hcall ha : RoleStep a call.activity s (act prim cfg s call))
    refine ⟨hs.1.step hstep, ?_⟩
    cases hcaller : getCurrentUser s call.token with
    | error e =>
      have hsame : act prim cfg s call = { s with nonces := call.challenges } := by
        have hrefused : getCurrentUser { s with nonces := call.challenges } call.token = .error e := hcaller
        unfold act
        simp only [hrefused]
      rw [hsame]
      exact hs.2
    | ok caller =>
      refine hstep.owner_stays hs.1 hs.2 fun address hactivity haddress hao => ?_
      exact hstays ⟨caller, address, hcaller, (ha caller hcaller).trans hao, hactivity, haddress.trans hao⟩
  constructor
  · exact fun hb => hdb'.owner_eq hb ho'
  · rintro rfl
    exact ho'

/-- Whatever the requests before it, a request keeps the ladder; and while the owner of a channel does
not leave it, no requests of others make anyone else its owner. -/
theorem group_role_ladder (prim : KeyPrimitives) (cfg : Config) {db₀ db : Database}
    {calls : List ActivityCall} (hdb₀ : Founded db₀) (hrun : GroupRun prim cfg db₀ calls db) :
    (∀ call a, call.activity.isDeparture = false → CalledBy db call a →
      Ladder a db (act prim cfg db call)) ∧
    ∀ channel o more db', HasRole db channel o "owner" →
      Run (restrict (fun s call => call.activity.isDeparture = false ∧ ¬ LeavesChannel s o channel call)
        (ofFun (act prim cfg))) db more db' →
      ∀ b, HasRole db' channel b "owner" ↔ b = o := by
  have hdb : Ordered db := (Ordered.of_founded hdb₀).run hrun
  exact ⟨fun call a hcall ha => (act_step hdb hcall ha).ladder hdb,
    fun channel o more db' ho hmore => owner_stays hdb ho hmore⟩

/-- Bob gives himself a role in vain, is given it by Alice, and Alice stays the owner; when she leaves
he succeeds her. -/
theorem group_role_ladder_sample :
    Ladder (lower "alice") sampleGroup (act sampleKeyPrimitives sampleConfig sampleGroup
      ⟨0, .empty, ⟨"alice", 0⟩, .removeMember "g" "alice"⟩) ∧
    ∀ b, HasRole ([⟨0, .empty, ⟨"bob", 0⟩, .updateMemberRole "g" "bob" "admin"⟩,
        ⟨0, .empty, ⟨"alice", 0⟩, .updateMemberRole "g" "bob" "admin"⟩].foldl
        (act sampleKeyPrimitives sampleConfig) sampleGroup) "g" b "owner" ↔ b = lower "alice" := by
  have hcreate : act sampleKeyPrimitives sampleConfig samplePair
      ⟨0, .empty, ⟨"alice", 0⟩, .createGroup "g" ["bob"]⟩ = sampleGroup := by
    change commitOr samplePair (createGroup sampleKeyPrimitives samplePair 0 (sampleReachable "alice") "g"
      ["bob"]) = sampleGroup
    rw [createGroup_sample]
    rfl
  obtain ⟨hladder, hstays⟩ := group_role_ladder sampleKeyPrimitives sampleConfig
    (⟨rfl, rfl, rfl, rfl⟩ : Founded samplePair) (.single ⟨rfl, hcreate⟩)
  have hmore := (Run.ofFun_foldl (act sampleKeyPrimitives sampleConfig)
    [⟨0, .empty, ⟨"bob", 0⟩, .updateMemberRole "g" "bob" "admin"⟩,
      ⟨0, .empty, ⟨"alice", 0⟩, .updateMemberRole "g" "bob" "admin"⟩] sampleGroup).restrict_mem
  refine ⟨hladder _ _ rfl fun caller hcaller => ?_, hstays "g" (lower "alice") _ _ ?_
    (hmore.mono fun s call t hst => ⟨?_, hst.2⟩)⟩
  · have hfound : getCurrentUser sampleGroup ⟨"alice", 0⟩ = .ok (sampleReachable "alice") := rfl
    rw [← Except.ok.inj (hfound.symm.trans hcaller)]
    rfl
  · refine ⟨⟨1, "g", lower "alice", "owner", 0⟩, ?_, rfl, rfl, rfl⟩
    exact List.mem_cons_of_mem _ List.mem_cons_self
  · have hcall : ∃ caller, call = ⟨0, .empty, ⟨caller, 0⟩, .updateMemberRole "g" "bob" "admin"⟩ := by
      rcases List.mem_cons.mp hst.1 with rfl | hmem
      · exact ⟨_, rfl⟩
      · exact ⟨_, List.mem_singleton.mp hmem⟩
    obtain ⟨caller, rfl⟩ := hcall
    refine ⟨rfl, ?_⟩
    rintro ⟨_, _, _, _, hactivity, _⟩
    cases hactivity

end Kryptolog.Server
