import Kryptolog.Library.TrackedPoints
import Kryptolog.Server.GroupRoles
import Kryptolog.Server.Transactions

/-! # The size of a group

`POST /groups`, `POST /groups/{id}/members` and `DELETE /groups/{id}/members/{address}`, statement by
statement. The channel is loaded with its members, and an added member is counted against those.
Sessions do not autoflush: what is added or set is written at the commit, while the `DELETE` of a
member is issued where it stands.

An `INSERT` of a member waits for whoever writes the same pair, and for whoever deletes the channel.
-/

namespace Kryptolog.Server
set_option autoImplicit false

open Tables ReadCommitted Runs

inductive GroupRequest
  /-- The id is `uuid.uuid4()`. -/
  | create (channelId : String) (memberAddresses : List String)
  | addMember (channelId userAddress : String)
  | removeMember (channelId memberAddress : String)

structure GroupCall where
  token : Token
  now : Time
  request : GroupRequest

/-- A row that a statement locks, or an entry of `uq_group_member_channel_user`. -/
inductive GroupLock
  | channel (id : String)
  | membership (channelId : String) (a : Address)
  | member (id : ℕ)
  | message (id : ℕ)
  deriving DecidableEq

inductive GroupChange
  | insertChannel (id : String) (owner : Address)
  | insertMembers (channelId : String) (entries : List (Address × String)) (now : Time)
  | deleteMembers (rows : List GroupMember)
  | setOwner (channelId : String) (owner : Address)
  | setRole (memberId : ℕ) (role : String)
  | deleteMessages (ids : List ℕ)
  /-- With the users whose memberships refer to the channel, if they have any. -/
  | deleteChannel (id : String) (users : List Address)

def memberRow (channelId : String) (now : Time) (entry : Address × String) (id : ℕ) : GroupMember :=
  ⟨id, channelId, entry.1, entry.2, now⟩

theorem key_memberRow (channelId : String) (now : Time) (entry : Address × String) (id : ℕ) :
    Keyed.key (memberRow channelId now entry id) = id := rfl

namespace GroupChange

def apply (c : Database) : GroupChange → Database
  | insertChannel id owner => { c with groupChannels := c.groupChannels.insert ⟨id, owner⟩ }
  | insertMembers channelId entries now => { c with
      groupMembers := c.groupMembers.insertAll (memberRow channelId now) (key_memberRow channelId now)
        entries }
  | deleteMembers rows => { c with
      groupMembers := c.groupMembers.delete fun m => rows.any (·.id == m.id) }
  | setOwner channelId owner => { c with
      groupChannels := c.groupChannels.update (·.id == channelId)
        (fun ch => { ch with ownerAddress := owner }) (fun _ => rfl) }
  | setRole memberId role => { c with
      groupMembers := c.groupMembers.update (·.id == memberId) (fun m => { m with role := role })
        (fun _ => rfl) }
  | deleteMessages ids => { c with
      groupMessages := c.groupMessages.delete fun m => ids.contains m.id }
  | deleteChannel id _ => { c with groupChannels := c.groupChannels.delete (·.id == id) }

def locks : GroupChange → List GroupLock
  | insertChannel id _ => [.channel id]
  | insertMembers channelId entries _ => entries.map fun e => .membership channelId e.1
  | deleteMembers rows => rows.flatMap fun m => [.member m.id, .membership m.channelId m.userAddress]
  | setOwner channelId _ => [.channel channelId]
  | setRole memberId _ => [.member memberId]
  | deleteMessages ids => ids.map .message
  | deleteChannel id users => .channel id :: users.map (.membership id)

/-- Does the change take rows away, or only write columns of theirs? -/
def isRemoval : GroupChange → Bool
  | deleteMembers _ | setOwner _ _ | setRole _ _ | deleteMessages _ => true
  | _ => false

end GroupChange

/-! ## The transactions -/

/-- Who asks what about whose membership of a channel. -/
structure Visit where
  now : Time
  caller : User
  channelId : String
  address : Address

/-- Where the transaction is, with what it has loaded and changed so far. -/
inductive GroupPoint
  | authenticate (call : GroupCall)
  | findUsers (now : Time) (caller : User) (channelId : String) (addrs : List Address)
  | insertChannel (now : Time) (caller : Address) (channelId : String) (addrs : List Address)
  | insertMembers (now : Time) (caller : Address) (channelId : String) (addrs : List Address)
  | created (now : Time) (caller : Address) (channelId : String) (addrs : List Address)
  | loadChannel (adding : Bool) (visit : Visit)
  | findCaller (adding : Bool) (visit : Visit) (channel : GroupChannel) (members : List GroupMember)
  | isMember (visit : Visit) (members : List GroupMember)
  | findActiveUser (visit : Visit) (members : List GroupMember)
  | insertMember (visit : Visit)
  | added (visit : Visit)
  | findTarget (visit : Visit) (channel : GroupChannel) (members : List GroupMember)
      (callerMember : GroupMember)
  | deleteMember (channel : GroupChannel) (address : Address) (successor : Option GroupMember)
  | updateOwner (channel : GroupChannel) (successor : GroupMember) (done : List GroupChange)
  | updateSuccessor (successor : GroupMember) (done : List GroupChange)
  | removed (done : List GroupChange)
  | loadMessages (channelId : String) (members : List GroupMember)
  | deleteMessages (channelId : String) (messages : List ℕ) (members : List GroupMember)
  | deleteMembers (channelId : String) (messages : List ℕ) (members : List GroupMember)
  | deleteChannel (channelId : String) (messages : List ℕ) (members : List GroupMember)
  | deletedChannel (channelId : String) (messages : List ℕ) (members : List GroupMember)
      (users : List Address)
  | ended

/-- The members of a new group with their roles. -/
def newEntries (caller : Address) (addrs : List Address) : List (Address × String) :=
  addrs.map fun a => (a, if a = caller then "owner" else "member")

namespace GroupPoint

def log : GroupPoint → List GroupChange
  | insertMembers _ caller channelId _ => [.insertChannel channelId caller]
  | created now caller channelId addrs =>
    [.insertChannel channelId caller, .insertMembers channelId (newEntries caller addrs) now]
  | added visit => [.insertMembers visit.channelId [(visit.address, "member")] visit.now]
  | updateOwner _ _ done | updateSuccessor _ done | removed done => done
  | deleteMembers _ messages _ => [.deleteMessages messages]
  | deleteChannel _ messages members => [.deleteMessages messages, .deleteMembers members]
  | deletedChannel channelId messages members users =>
    [.deleteMessages messages, .deleteMembers members, .deleteChannel channelId users]
  | _ => []

def locks (p : GroupPoint) : List GroupLock := p.log.flatMap GroupChange.locks

end GroupPoint

abbrev GroupOutcome := Outcome GroupLock GroupChange GroupPoint

/-- The way on after a statement that changed rows. -/
def changedGroup (change : GroupChange) (next : GroupPoint) : GroupOutcome :=
  ⟨change.locks, [change], next⟩

/-- A refusal, with its rollback. -/
def refusedGroup : GroupOutcome := ⟨[], [], .ended⟩

/-- The instance that a session has loaded before keeps the columns that it had then. -/
def User.known (caller u : User) : User := if u.address = caller.address then caller else u

/-- The same for the members of a channel. -/
def asLoaded (loaded : List GroupMember) (m : GroupMember) : GroupMember :=
  (loaded.find? (·.id == m.id)).getD m

/-- The channel as a snapshot and the state behind it have it. -/
def channelMatched (snap cur : Database) (channelId : String) : Bool :=
  snap.groupChannels.any (·.id == channelId) && cur.groupChannels.any (·.id == channelId)

/-- The `INSERT` of members, under the foreign key and the unique constraint. -/
def insertRows (cur : Database) (channelId : String) (entries : List (Address × String)) (now : Time)
    (next : GroupPoint) : GroupOutcome :=
  if !cur.groupChannels.any (·.id == channelId) ||
    entries.any (fun e => isGroupMember cur channelId e.1) then refusedGroup
  else changedGroup (.insertMembers channelId entries now) next

/-- What is left to write once the member is deleted. -/
def afterRemoval (channel : GroupChannel) (successor : Option GroupMember) (done : List GroupChange) :
    GroupPoint :=
  match successor with
  | none => .removed done
  | some s => .updateOwner channel s done

def GroupPoint.op (prim : KeyPrimitives) :
    GroupPoint → Op Database GroupLock GroupChange GroupPoint
  | .authenticate call => .select fun c =>
    match getCurrentUser c call.token with
    | .error _ => .ended
    | .ok caller =>
      match call.request with
      | .create channelId memberAddresses =>
        let addrs := memberAddrs caller memberAddresses
        if maxGroupMembers < addrs.length then .ended
        else .findUsers call.now caller channelId addrs
      | .addMember channelId userAddress =>
        .loadChannel true ⟨call.now, caller, channelId, lower userAddress⟩
      | .removeMember channelId memberAddress =>
        .loadChannel false ⟨call.now, caller, channelId, lower memberAddress⟩
  | .findUsers now caller channelId addrs => .select fun c =>
    let users := (c.users.where' fun u => u.active && addrs.contains u.address).map caller.known
    if addrs.any (fun a => !users.any (·.address == a)) || users.any (!isMessengerCapable prim ·) then
      .ended
    else .insertChannel now caller.address channelId addrs
  | .insertChannel now caller channelId addrs => .write fun _ cur =>
    if cur.groupChannels.any (·.id == channelId) then refusedGroup
    else changedGroup (.insertChannel channelId caller) (.insertMembers now caller channelId addrs)
  | .insertMembers now caller channelId addrs => .write fun _ cur =>
    insertRows cur channelId (newEntries caller addrs) now (.created now caller channelId addrs)
  | .created _ _ _ _ => .commit .ended
  | .loadChannel adding visit => .select fun c =>
    match c.groupChannels.find? (·.id == visit.channelId) with
    | none => .ended
    | some channel =>
      .findCaller adding visit channel (c.groupMembers.where' (·.channelId == visit.channelId))
  | .findCaller adding visit channel members => .select fun c =>
    match findGroupMember c visit.channelId visit.caller.address with
    | none => .ended
    | some m =>
      let callerMember := asLoaded members m
      if !adding then .findTarget visit channel members callerMember
      else if canAdministerGroup (some callerMember) then .isMember visit members
      else .ended
  | .isMember visit members => .select fun c =>
    if isGroupMember c visit.channelId visit.address then .ended else .findActiveUser visit members
  | .findActiveUser visit members => .select fun c =>
    match findUser c visit.address with
    | none => .ended
    | some u =>
      let target := visit.caller.known u
      if !target.active || !isMessengerCapable prim target then .ended
      else if maxGroupMembers ≤ members.length then .ended
      else .insertMember visit
  | .insertMember visit => .write fun _ cur =>
    insertRows cur visit.channelId [(visit.address, "member")] visit.now (.added visit)
  | .added _ => .commit .ended
  | .findTarget visit channel members callerMember => .select fun c =>
    match findGroupMember c visit.channelId visit.address with
    | none => .ended
    | some m =>
      let target := asLoaded (callerMember :: members) m
      if !canRemoveGroupMember callerMember target then .ended
      else if target.role == "owner" then
        match successor (members.filter (·.userAddress != visit.address)) with
        | none => .loadMessages channel.id members
        | some s => .deleteMember channel visit.address (some s)
      else .deleteMember channel visit.address none
  | .deleteMember channel address successor => .write fun snap cur =>
    let change := .deleteMembers (matched snap.groupMembers cur.groupMembers fun m =>
      m.channelId == channel.id && m.userAddress == address)
    changedGroup change (afterRemoval channel successor [change])
  | .updateOwner channel s done => .write fun snap cur =>
    -- a column that keeps its value is not written
    if channel.ownerAddress = s.userAddress then ⟨[], [], .updateSuccessor s done⟩
    else if !channelMatched snap cur channel.id then refusedGroup
    else changedGroup (.setOwner channel.id s.userAddress)
      (.updateSuccessor s (done ++ [.setOwner channel.id s.userAddress]))
  | .updateSuccessor s done => .write fun snap cur =>
    if s.role = "owner" then ⟨[], [], .removed done⟩
    else if (matched snap.groupMembers cur.groupMembers (·.id == s.id)).isEmpty then refusedGroup
    else changedGroup (.setRole s.id "owner") (.removed (done ++ [.setRole s.id "owner"]))
  | .removed _ => .commit .ended
  | .loadMessages channelId members => .select fun c =>
    .deleteMessages channelId ((c.groupMessages.where' (·.target == channelId)).map (·.id)) members
  | .deleteMessages channelId messages members => .write fun snap cur =>
    let ids := (matched snap.groupMessages cur.groupMessages (messages.contains ·.id)).map (·.id)
    changedGroup (.deleteMessages ids) (.deleteMembers channelId ids members)
  | .deleteMembers channelId messages members => .write fun snap cur =>
    let rows := matched snap.groupMembers cur.groupMembers fun m => members.any (·.id == m.id)
    changedGroup (.deleteMembers rows) (.deleteChannel channelId messages rows)
  | .deleteChannel channelId messages members => .write fun snap cur =>
    if !channelMatched snap cur channelId then
      ⟨[], [], .removed [.deleteMessages messages, .deleteMembers members]⟩
    -- members and messages refer to their channel
    else if cur.groupMembers.any (·.channelId == channelId) ||
      cur.groupMessages.any (·.target == channelId) then refusedGroup
    else
      let users := cur.users.rows.map (·.address)
      changedGroup (.deleteChannel channelId users) (.deletedChannel channelId messages members users)
  | .deletedChannel _ _ _ _ => .commit .ended
  | .ended => .halt

def memberships (prim : KeyPrimitives) :
    Machine Database GroupLock GroupChange GroupPoint GroupCall where
  apply e c := e.apply c
  entry := .authenticate
  op := GroupPoint.op prim

/-! ## What the points say -/

section tracking

variable {prim : KeyPrimitives} {p : GroupPoint}

/-- A statement of an insert tells what it changed, or is refused. -/
theorem next_insertRows (cur : Database) (channelId : String) (entries : List (Address × String))
    (now : Time) (next : GroupPoint) :
    (insertRows cur channelId entries now next).next = .ended ∨
      (insertRows cur channelId entries now next = changedGroup (.insertMembers channelId entries now) next ∧
        cur.groupChannels.any (·.id == channelId) = true) := by
  unfold insertRows
  split
  · exact .inl rfl
  · next h =>
    rw [Bool.or_eq_true, not_or, Bool.not_eq_true, Bool.not_eq_false'] at h
    exact .inr ⟨rfl, h.1⟩

theorem log_afterRemoval (channel : GroupChannel) (successor : Option GroupMember)
    (done : List GroupChange) : (afterRemoval channel successor done).log = done := by
  cases successor <;> rfl

/-- A reading statement ends the request, or goes on without a change so far. -/
theorem log_of_group_select {next : Database → GroupPoint} (c : Database)
    (h : (memberships prim).op p = .select next) :
    p.log = [] ∧ (next c = .ended ∨ (next c).log = []) := by
  cases p with
  | authenticate call =>
    cases h
    refine ⟨rfl, ?_⟩
    dsimp only
    split
    · exact .inl rfl
    · split
      · split
        · exact .inl rfl
        · exact .inr rfl
      · exact .inr rfl
      · exact .inr rfl
  | findUsers | loadChannel | isMember =>
    cases h
    refine ⟨rfl, ?_⟩
    dsimp only
    split
    · exact .inl rfl
    · exact .inr rfl
  | findCaller adding visit channel members =>
    cases h
    refine ⟨rfl, ?_⟩
    dsimp only
    split
    · exact .inl rfl
    · split
      · exact .inr rfl
      · split
        · exact .inr rfl
        · exact .inl rfl
  | findActiveUser visit members =>
    cases h
    refine ⟨rfl, ?_⟩
    dsimp only
    split
    · exact .inl rfl
    · split
      · exact .inl rfl
      · split
        · exact .inl rfl
        · exact .inr rfl
  | findTarget visit channel members callerMember =>
    cases h
    refine ⟨rfl, ?_⟩
    dsimp only
    split
    · exact .inl rfl
    · split
      · exact .inl rfl
      · split
        · split <;> exact .inr rfl
        · exact .inr rfl
  | loadMessages channelId members =>
    cases h
    exact ⟨rfl, .inr rfl⟩
  | insertChannel | insertMembers | created | insertMember | added | deleteMember | updateOwner
  | updateSuccessor | removed | deleteMessages | deleteMembers | deleteChannel | deletedChannel
  | ended => cases h

/-- A writing statement is refused, or tells what it changed and what it holds for that. -/
theorem log_of_group_write {exec : Database → Database → GroupOutcome} (snap cur : Database)
    (h : (memberships prim).op p = .write exec) :
    (exec snap cur).next = .ended ∨ ((exec snap cur).next.log = p.log ++ (exec snap cur).effects ∧
      (exec snap cur).locks = (exec snap cur).effects.flatMap GroupChange.locks) := by
  have hone : ∀ change next, (changedGroup change next).locks =
      (changedGroup change next).effects.flatMap GroupChange.locks := by
    intro change next
    rw [changedGroup, List.flatMap_singleton]
  cases p with
  | insertChannel now caller channelId addrs =>
    cases h
    dsimp only
    split
    · exact .inl rfl
    · exact .inr ⟨rfl, hone _ _⟩
  | insertMembers now caller channelId addrs =>
    cases h
    rcases next_insertRows cur channelId (newEntries caller addrs) now
      (.created now caller channelId addrs) with hended | ⟨hchanged, -⟩
    · exact .inl hended
    · simp only [hchanged]
      exact .inr ⟨rfl, hone _ _⟩
  | insertMember visit =>
    cases h
    rcases next_insertRows cur visit.channelId [(visit.address, "member")] visit.now
      (.added visit) with hended | ⟨hchanged, -⟩
    · exact .inl hended
    · simp only [hchanged]
      exact .inr ⟨rfl, hone _ _⟩
  | deleteMember channel address successor =>
    cases h
    exact .inr ⟨log_afterRemoval _ _ _, hone _ _⟩
  | updateOwner channel s done =>
    cases h
    dsimp only
    split
    · exact .inr ⟨(List.append_nil done).symm, rfl⟩
    · split
      · exact .inl rfl
      · exact .inr ⟨rfl, hone _ _⟩
  | updateSuccessor s done =>
    cases h
    dsimp only
    split
    · exact .inr ⟨(List.append_nil done).symm, rfl⟩
    · split
      · exact .inl rfl
      · exact .inr ⟨rfl, hone _ _⟩
  | deleteMessages | deleteMembers =>
    cases h
    exact .inr ⟨rfl, hone _ _⟩
  | deleteChannel channelId messages members =>
    cases h
    dsimp only
    split
    · exact .inr ⟨rfl, rfl⟩
    · split
      · exact .inl rfl
      · exact .inr ⟨rfl, hone _ _⟩
  | authenticate | findUsers | created | loadChannel | findCaller | isMember | findActiveUser | added
  | findTarget | removed | loadMessages | deletedChannel | ended => cases h

theorem ended_of_group_commit {next : GroupPoint} (h : (memberships prim).op p = .commit next) :
    next = .ended := by
  cases p with
  | created | added | removed | deletedChannel =>
    cases h
    rfl
  | _ => cases h

theorem tracking_memberships : Tracking (memberships prim) GroupPoint.log GroupPoint.locks where
  entry call := ⟨rfl, rfl⟩
  select p next c h := by
    obtain ⟨hnone, hended | hlog⟩ := log_of_group_select c h
    · left
      rw [hended]
      rfl
    · refine .inr ⟨hlog.trans hnone.symm, ?_⟩
      rw [GroupPoint.locks, hlog]
      exact List.nil_subset _
  write p exec snap cur h := by
    rcases log_of_group_write snap cur h with hended | ⟨hlog, hlocks⟩
    · left
      rw [hended]
      rfl
    · refine .inr ⟨hlog, ?_⟩
      rw [GroupPoint.locks, GroupPoint.locks, hlog, List.flatMap_append, hlocks]
      exact List.Subset.refl _
  commit p next h := by
    rw [ended_of_group_commit h]
    exact ⟨rfl, rfl⟩

end tracking

/-! ## What is counted -/

def memberCount (c : Database) (channelId : String) : ℕ :=
  (c.groupMembers.where' (·.channelId == channelId)).length

/-- Every member is one of a channel that exists. -/
def Referenced (c : Database) : Prop :=
  ∀ m ∈ c.groupMembers, c.groupChannels.any (·.id == m.channelId) = true

section counts

variable {c d e : Database} {id channelId : String}

theorem memberCount_eq : memberCount c id =
    c.groupMembers.toTable.total fun m => if m.channelId == id then 1 else 0 := Table.length_where'

theorem memberCount_eq_zero (h : ∀ m ∈ c.groupMembers, m.channelId ≠ id) : memberCount c id = 0 := by
  rw [memberCount, List.length_eq_zero_iff, Table.where', List.filter_eq_nil_iff]
  exact fun m hm => by simpa using h m hm

theorem memberCount_insert_of_ne {entries : List (Address × String)} {now : Time} (hne : channelId ≠ id) :
    memberCount ((GroupChange.insertMembers channelId entries now).apply c) id = memberCount c id :=
  congrArg List.length (Serial.where'_insertAll_old fun _ _ => beq_eq_false_iff_ne.mpr hne)

theorem memberCount_insert (c : Database) (id : String) (entries : List (Address × String)) (now : Time) :
    memberCount ((GroupChange.insertMembers id entries now).apply c) id =
      memberCount c id + entries.length := by
  obtain ⟨new, hrows, hnew⟩ := Serial.rows_insertAll (memberRow id now) (key_memberRow id now) entries
    c.groupMembers
  have hall : ∀ m ∈ new, (m.channelId == id) = true := by
    intro m hm
    obtain ⟨i, hi, rfl⟩ := List.mem_iff_getElem.mp hm
    obtain ⟨n, hn⟩ := (List.forall₂_iff_get.mp hnew).2 i (by rw [hnew.length_eq]; exact hi) hi
    rw [List.get_eq_getElem] at hn
    rw [hn]
    exact beq_self_eq_true id
  change (List.filter _ (Serial.insertAll _ _ _ _).rows).length = _
  rw [hrows, List.filter_append, List.length_append, List.filter_eq_self.mpr hall, hnew.length_eq]
  rfl

/-- Nothing new: the same users and channels, and no other members. -/
structure Shrinks (c d : Database) : Prop where
  users : d.users = c.users
  channels : ∀ id, d.groupChannels.any (·.id == id) = c.groupChannels.any (·.id == id)
  members : ∀ m ∈ d.groupMembers, ∃ m₀ ∈ c.groupMembers, m₀.id = m.id ∧ m₀.channelId = m.channelId
  count : ∀ id, memberCount d id ≤ memberCount c id

theorem Shrinks.refl (c : Database) : Shrinks c c :=
  ⟨rfl, fun _ => rfl, fun m hm => ⟨m, hm, rfl, rfl⟩, fun _ => le_rfl⟩

theorem Shrinks.trans (h : Shrinks c d) (h' : Shrinks d e) : Shrinks c e := by
  refine ⟨h'.users.trans h.users, fun id => (h'.channels id).trans (h.channels id), fun m hm => ?_,
    fun id => (h'.count id).trans (h.count id)⟩
  obtain ⟨m₁, hm₁, hid₁, hchannel₁⟩ := h'.members m hm
  obtain ⟨m₀, hm₀, hid₀, hchannel₀⟩ := h.members m₁ hm₁
  exact ⟨m₀, hm₀, hid₀.trans hid₁, hchannel₀.trans hchannel₁⟩

theorem Shrinks.referenced (h : Shrinks c d) (hc : Referenced c) : Referenced d := by
  intro m hm
  obtain ⟨m₀, hm₀, -, hchannel⟩ := h.members m hm
  rw [h.channels, ← hchannel]
  exact hc m₀ hm₀

theorem shrinks_removal {change : GroupChange} (h : change.isRemoval = true) :
    Shrinks c (change.apply c) := by
  cases change with
  | deleteMembers rows =>
    refine ⟨rfl, fun _ => rfl, fun m hm => ⟨m, (Serial.mem_delete.mp hm).1, rfl, rfl⟩, fun id => ?_⟩
    rw [memberCount_eq, memberCount_eq]
    exact Table.total_delete_le
  | setOwner channelId owner =>
    refine ⟨rfl, fun id => ?_, fun m hm => ⟨m, hm, rfl, rfl⟩, fun _ => le_rfl⟩
    rw [Bool.eq_iff_iff, Table.any_eq_true, Table.any_eq_true]
    exact Table.exists_update (by intro; rfl) fun _ _ => Iff.rfl
  | setRole memberId role =>
    refine ⟨rfl, fun _ => rfl, fun m hm => ?_, fun id => ?_⟩
    · obtain ⟨m₀, hm₀, rfl⟩ := Serial.mem_update.mp hm
      exact ⟨m₀, hm₀, by split <;> rfl, by split <;> rfl⟩
    · rw [memberCount_eq, memberCount_eq]
      refine le_of_eq (Table.total_update_eq (by intro; rfl) ?_)
      exact fun _ _ _ => rfl
  | deleteMessages ids => exact ⟨rfl, fun _ => rfl, fun m hm => ⟨m, hm, rfl, rfl⟩, fun _ => le_rfl⟩
  | insertChannel | insertMembers | deleteChannel => cases h

theorem after_memberships {prim : KeyPrimitives} (c : Database) (es : List GroupChange) :
    (memberships prim).after c es = es.foldl (fun c e => e.apply c) c := rfl

theorem shrinks_removals {es : List GroupChange} (h : ∀ e ∈ es, e.isRemoval = true) :
    Shrinks c (es.foldl (fun c e => e.apply c) c) := by
  induction es generalizing c with
  | nil => exact .refl c
  | cons e es ih =>
    obtain ⟨he, hes⟩ := List.forall_mem_cons.mp h
    exact (shrinks_removal he).trans (ih hes)

theorem any_channel_insert {owner : Address} (h : c.groupChannels.any (·.id == channelId) = false) :
    ((GroupChange.insertChannel channelId owner).apply c).groupChannels.any (·.id == id) =
      (c.groupChannels.any (·.id == id) || channelId == id) := by
  have hfresh : ∀ ch ∈ c.groupChannels, Keyed.key ch ≠ Keyed.key (⟨channelId, owner⟩ : GroupChannel) :=
    fun ch hch => beq_eq_false_iff_ne.mp (Table.any_eq_false.mp h ch hch)
  rw [Bool.eq_iff_iff, Bool.or_eq_true, Table.any_eq_true, Table.any_eq_true]
  constructor
  · rintro ⟨ch, hch, hid⟩
    rcases Table.mem_insert hch with hch | rfl
    · exact .inl ⟨ch, hch, hid⟩
    · exact .inr hid
  · rintro (⟨ch, hch, hid⟩ | hid)
    · exact ⟨ch, Table.mem_insert_of_mem hch, hid⟩
    · exact ⟨_, Table.mem_insert_self hfresh, hid⟩

theorem mem_insertMembers {entries : List (Address × String)} {now : Time} {m : GroupMember}
    (hm : m ∈ ((GroupChange.insertMembers channelId entries now).apply c).groupMembers) :
    m ∈ c.groupMembers ∨ m.channelId = channelId := by
  rcases Serial.mem_insertAll hm with hm | ⟨b, -, n, rfl⟩
  · exact .inl hm
  · exact .inr rfl

end counts

/-! ## What the points know -/

/-- What a point knows: whether the channel of an insert exists, and that no member is left of a channel
that was deleted. -/
def GroupPoint.Knows (c : Database) : GroupPoint → Prop
  | .findUsers _ _ _ addrs | .insertChannel _ _ _ addrs => addrs.length ≤ maxGroupMembers
  | .insertMembers _ _ channelId addrs | .created _ _ channelId addrs =>
    addrs.length ≤ maxGroupMembers ∧ c.groupChannels.any (·.id == channelId) = false
  | .insertMember visit => ∃ u ∈ c.users, u.address = visit.address
  | .added visit => (∃ u ∈ c.users, u.address = visit.address) ∧
      c.groupChannels.any (·.id == visit.channelId) = true
  | .updateOwner _ _ done | .updateSuccessor _ done | .removed done => ∀ e ∈ done, e.isRemoval = true
  | .deletedChannel channelId _ members users => (∀ u ∈ c.users, u.address ∈ users) ∧
      ∀ m ∈ c.groupMembers, m.channelId = channelId → members.any (·.id == m.id) = true
  | _ => True

/-- An added member is committed while the channel still has room. -/
def HasRoom (c : Database) : GroupPoint → Prop
  | .added visit => memberCount c visit.channelId < maxGroupMembers
  | _ => True

section knows

variable {prim : KeyPrimitives} {c d : Database} {p q : GroupPoint}

theorem group_select {next : Database → GroupPoint} (h : (memberships prim).op p = .select next)
    (hp : p.Knows c) : (next c).Knows c := by
  cases p with
  | authenticate call =>
    cases h
    dsimp only
    split
    · trivial
    · split
      · split
        · trivial
        · next hlength => exact Nat.le_of_not_lt hlength
      · trivial
      · trivial
  | findUsers now caller channelId addrs =>
    cases h
    dsimp only
    split
    · trivial
    · exact hp
  | loadChannel | isMember =>
    cases h
    dsimp only
    split <;> trivial
  | findCaller adding visit channel members =>
    cases h
    dsimp only
    split
    · trivial
    · split
      · trivial
      · split <;> trivial
  | findActiveUser visit members =>
    cases h
    dsimp only
    split
    · trivial
    · next u hu =>
      split
      · trivial
      · split
        · trivial
        · obtain ⟨hmem, haddress⟩ := Table.find?_mem hu
          exact ⟨u, hmem, beq_iff_eq.mp haddress⟩
  | findTarget visit channel members callerMember =>
    cases h
    dsimp only
    split
    · trivial
    · split
      · trivial
      · split
        · split <;> trivial
        · trivial
  | loadMessages channelId members =>
    cases h
    trivial
  | insertChannel | insertMembers | created | insertMember | added | deleteMember | updateOwner
  | updateSuccessor | removed | deleteMessages | deleteMembers | deleteChannel | deletedChannel
  | ended => cases h

theorem isRemoval_append {done : List GroupChange} {e : GroupChange}
    (h : ∀ e ∈ done, e.isRemoval = true) (he : e.isRemoval = true) :
    ∀ e' ∈ done ++ [e], e'.isRemoval = true := by
  intro e' he'
  rcases List.mem_append.mp he' with he' | he'
  · exact h e' he'
  · rw [List.mem_singleton.mp he']
    exact he

theorem isRemoval_deletions (messages : List ℕ) (members : List GroupMember) :
    ∀ e ∈ [GroupChange.deleteMessages messages, .deleteMembers members], e.isRemoval = true := by
  intro e he
  rcases List.mem_cons.mp he with rfl | he
  · rfl
  · rw [List.mem_singleton.mp he]
    rfl

theorem group_write {exec : Database → Database → GroupOutcome} (snap : Database)
    (h : (memberships prim).op p = .write exec) (hp : p.Knows c) :
    (exec snap ((memberships prim).after c p.log)).next.Knows c := by
  cases p with
  | insertChannel now caller channelId addrs =>
    cases h
    dsimp only
    split
    · trivial
    · next hfree => exact ⟨hp, Bool.not_eq_true _ ▸ hfree⟩
  | insertMembers now caller channelId addrs =>
    cases h
    rcases next_insertRows ((memberships prim).after c _) channelId (newEntries caller addrs) now
      (.created now caller channelId addrs) with hended | ⟨hchanged, -⟩
    · rw [hended]
      trivial
    · dsimp only
      rw [hchanged]
      exact hp
  | insertMember visit =>
    cases h
    rcases next_insertRows ((memberships prim).after c _) visit.channelId [(visit.address, "member")]
      visit.now (.added visit) with hended | ⟨hchanged, hchannel⟩
    · rw [hended]
      trivial
    · dsimp only
      rw [hchanged]
      exact ⟨hp, hchannel⟩
  | deleteMember channel address successor =>
    cases h
    have hone : ∀ e ∈ [GroupChange.deleteMembers (matched snap.groupMembers
        ((memberships prim).after c []).groupMembers fun m =>
          m.channelId == channel.id && m.userAddress == address)], e.isRemoval = true := by
      intro e he
      rw [List.mem_singleton.mp he]
      rfl
    cases successor with
    | none => exact hone
    | some s => exact hone
  | updateOwner channel s done =>
    cases h
    dsimp only
    split
    · exact hp
    · split
      · trivial
      · exact isRemoval_append hp rfl
  | updateSuccessor s done =>
    cases h
    dsimp only
    split
    · exact hp
    · split
      · trivial
      · exact isRemoval_append hp rfl
  | deleteMessages | deleteMembers =>
    cases h
    trivial
  | deleteChannel channelId messages members =>
    cases h
    dsimp only
    split
    · exact isRemoval_deletions messages members
    · split
      · trivial
      · next hfree =>
        rw [Bool.or_eq_true, not_or, Bool.not_eq_true, Bool.not_eq_true] at hfree
        refine ⟨fun u hu => List.mem_map_of_mem hu, fun m hm hid => ?_⟩
        by_contra hkept
        have hmem : m ∈ ((memberships prim).after c
            (GroupPoint.deleteChannel channelId messages members).log).groupMembers :=
          Serial.mem_delete.mpr ⟨hm, Bool.not_eq_true _ ▸ hkept⟩
        have hne := Table.any_eq_false.mp hfree.1 m hmem
        exact absurd hid (beq_eq_false_iff_ne.mp hne)
  | authenticate | findUsers | created | loadChannel | findCaller | isMember | findActiveUser | added
  | findTarget | removed | loadMessages | deletedChannel | ended => cases h

/-! ## Commits -/

/-- What a commit makes of channels and members, by the locks that its transaction held. -/
structure Regroups (c d : Database) (locks : List GroupLock) : Prop where
  users : d.users = c.users
  made : ∀ id, d.groupChannels.any (·.id == id) = true →
    c.groupChannels.any (·.id == id) = true ∨ .channel id ∈ locks
  gone : ∀ id, c.groupChannels.any (·.id == id) = true →
    d.groupChannels.any (·.id == id) = true ∨ ∀ u ∈ c.users, .membership id u.address ∈ locks
  members : ∀ m ∈ d.groupMembers, (∃ m₀ ∈ c.groupMembers, m₀.id = m.id ∧ m₀.channelId = m.channelId) ∨
    .channel m.channelId ∈ locks ∨ ∃ u ∈ c.users, .membership m.channelId u.address ∈ locks

theorem Shrinks.regroups (h : Shrinks c d) (locks : List GroupLock) : Regroups c d locks :=
  ⟨h.users, fun id hid => .inl (h.channels id ▸ hid), fun id hid => .inl ((h.channels id).trans hid),
    fun m hm => .inl (h.members m hm)⟩

theorem any_channel_delete {id channelId : String} (users : List Address) :
    ((GroupChange.deleteChannel channelId users).apply c).groupChannels.any (·.id == id) = true ↔
      c.groupChannels.any (·.id == id) = true ∧ id ≠ channelId := by
  rw [Table.any_eq_true, Table.any_eq_true]
  constructor
  · rintro ⟨ch, hch, hid⟩
    obtain ⟨hmem, hkept⟩ := Table.mem_delete.mp hch
    have hch' := beq_iff_eq.mp hid
    exact ⟨⟨ch, hmem, hid⟩, hch' ▸ beq_eq_false_iff_ne.mp hkept⟩
  · rintro ⟨⟨ch, hch, hid⟩, hne⟩
    have hch' := beq_iff_eq.mp hid
    exact ⟨ch, Table.mem_delete.mpr ⟨hch, beq_eq_false_iff_ne.mpr (hch' ▸ hne)⟩, hid⟩

theorem group_regroups {next : GroupPoint} (hop : (memberships prim).op p = .commit next) (hp : p.Knows c) :
    Regroups c ((memberships prim).after c p.log) p.locks := by
  cases p with
  | created now caller channelId addrs =>
    have hlock : GroupLock.channel channelId ∈ (GroupPoint.created now caller channelId addrs).locks :=
      List.mem_cons_self
    refine ⟨rfl, fun id hid => ?_, fun id hid => .inl ?_, fun m hm => ?_⟩
    · rcases Bool.or_eq_true_iff.mp ((any_channel_insert hp.2).symm.trans hid) with hid | hid
      · exact .inl hid
      · exact .inr (beq_iff_eq.mp hid ▸ hlock)
    · exact (any_channel_insert hp.2).trans (Bool.or_eq_true_iff.mpr (.inl hid))
    · rcases mem_insertMembers hm with hm | hchannel
      · exact .inl ⟨m, hm, rfl, rfl⟩
      · exact .inr (.inl (hchannel ▸ hlock))
  | added visit =>
    obtain ⟨⟨u, hu, haddress⟩, -⟩ := hp
    refine ⟨rfl, fun id hid => .inl hid, fun id hid => .inl hid, fun m hm => ?_⟩
    rcases mem_insertMembers hm with hm | hchannel
    · exact .inl ⟨m, hm, rfl, rfl⟩
    · refine .inr (.inr ⟨u, hu, ?_⟩)
      rw [hchannel, haddress]
      exact List.mem_cons_self
  | removed done => exact (shrinks_removals hp).regroups _
  | deletedChannel channelId messages members users =>
    have hshrinks := shrinks_removals (c := c) (isRemoval_deletions messages members)
    refine ⟨rfl, fun id hid => .inl ((any_channel_delete users).mp hid).1, fun id hid => ?_,
      fun m hm => .inl (hshrinks.members m hm)⟩
    by_cases heq : id = channelId
    · right
      intro u hu
      have hmem : GroupLock.membership id u.address ∈
          (GroupChange.deleteChannel channelId users).locks := by
        rw [heq]
        exact List.mem_cons_of_mem _ (List.mem_map_of_mem (hp.1 u hu))
      exact List.mem_flatMap.mpr ⟨_, List.mem_cons_of_mem _ (List.mem_cons_of_mem _ List.mem_cons_self), hmem⟩
    · exact .inl ((any_channel_delete users).mpr ⟨hid, heq⟩)
  | _ => cases hop

/-- The commits of others, under other locks, leave what a point knows. -/
theorem knows_of_regroups {locks : List GroupLock} (h : Regroups c d locks) (hq : q.Knows c)
    (hdisjoint : locks.Disjoint q.locks) : q.Knows d := by
  have habsent : ∀ id, c.groupChannels.any (·.id == id) = false → .channel id ∈ q.locks →
      d.groupChannels.any (·.id == id) = false := by
    intro id hid hlock
    by_contra hpresent
    rcases h.made id (Bool.not_eq_false _ ▸ hpresent) with hold | hheld
    · rw [hid] at hold
      cases hold
    · exact hdisjoint hheld hlock
  have huser : ∀ a, (∃ u ∈ c.users, u.address = a) → ∃ u ∈ d.users, u.address = a := by
    intro a hu
    rw [h.users]
    exact hu
  cases q with
  | findUsers | insertChannel => exact hq
  | insertMembers | created => exact ⟨hq.1, habsent _ hq.2 List.mem_cons_self⟩
  | insertMember visit => exact huser _ hq
  | added visit =>
    refine ⟨huser _ hq.1, ?_⟩
    rcases h.gone _ hq.2 with hkept | hheld
    · exact hkept
    · obtain ⟨u, hu, haddress⟩ := hq.1
      have hlock : GroupLock.membership visit.channelId u.address ∈ (GroupPoint.added visit).locks := by
        rw [haddress]
        exact List.mem_cons_self
      exact absurd hlock (hdisjoint (hheld u hu))
  | updateOwner | updateSuccessor | removed => exact hq
  | deletedChannel channelId messages members users =>
    obtain ⟨husers, hleft⟩ := hq
    have hlocks : ∀ k ∈ (GroupChange.deleteChannel channelId users).locks,
        k ∈ (GroupPoint.deletedChannel channelId messages members users).locks := fun k hk =>
      List.mem_flatMap.mpr ⟨_, List.mem_cons_of_mem _ (List.mem_cons_of_mem _ List.mem_cons_self), hk⟩
    refine ⟨h.users ▸ husers, fun m hm hid => ?_⟩
    rcases h.members m hm with ⟨m₀, hm₀, hid₀, hchannel₀⟩ | hheld | ⟨u, hu, hheld⟩
    · exact hid₀ ▸ hleft m₀ hm₀ (hchannel₀.trans hid)
    · exact absurd (hlocks _ (hid ▸ List.mem_cons_self)) (hdisjoint hheld)
    · refine absurd (hlocks _ ?_) (hdisjoint hheld)
      rw [hid]
      exact List.mem_cons_of_mem _ (List.mem_map_of_mem (husers u hu))
  | authenticate | loadChannel | findCaller | isMember | findActiveUser | findTarget | deleteMember
  | loadMessages | deleteMessages | deleteMembers | deleteChannel | ended => trivial

/-- Every member has a channel, and no channel has more members than the limit. -/
structure Limited (c : Database) : Prop where
  referenced : Referenced c
  count : ∀ id, memberCount c id ≤ maxGroupMembers

theorem Shrinks.limited (h : Shrinks c d) (hc : Limited c) : Limited d :=
  ⟨h.referenced hc.referenced, fun id => (h.count id).trans (hc.count id)⟩

theorem group_commit {next : GroupPoint} (hc : Limited c) (hop : (memberships prim).op p = .commit next)
    (hp : p.Knows c) (hroom : HasRoom c p) : Limited ((memberships prim).after c p.log) := by
  cases p with
  | created now caller channelId addrs =>
    obtain ⟨hlength, habsent⟩ := hp
    have hnone : memberCount c channelId = 0 := by
      refine memberCount_eq_zero fun m hm hid => ?_
      rw [← hid, hc.referenced m hm] at habsent
      cases habsent
    refine ⟨fun m hm => ?_, fun id => ?_⟩
    · refine (any_channel_insert habsent).trans (Bool.or_eq_true_iff.mpr ?_)
      rcases mem_insertMembers hm with hm | hchannel
      · exact .inl (hc.referenced m hm)
      · exact .inr (beq_iff_eq.mpr hchannel.symm)
    · by_cases hid : channelId = id
      · subst hid
        have hsame : memberCount ((GroupChange.insertChannel channelId caller).apply c) channelId =
            memberCount c channelId := rfl
        refine (memberCount_insert _ channelId (newEntries caller addrs) now).le.trans ?_
        change memberCount ((GroupChange.insertChannel channelId caller).apply c) channelId + _ ≤ _
        rw [hsame, hnone, Nat.zero_add, newEntries, List.length_map]
        exact hlength
      · exact (memberCount_insert_of_ne hid).le.trans (hc.count id)
  | added visit =>
    refine ⟨fun m hm => ?_, fun id => ?_⟩
    · rcases mem_insertMembers hm with hm | hchannel
      · exact hc.referenced m hm
      · rw [hchannel]
        exact hp.2
    · by_cases hid : visit.channelId = id
      · subst hid
        exact (memberCount_insert c visit.channelId [(visit.address, "member")] visit.now).le.trans hroom
      · exact (memberCount_insert_of_ne hid).le.trans (hc.count id)
  | removed done => exact (shrinks_removals hp).limited hc
  | deletedChannel channelId messages members users =>
    have hshrinks := shrinks_removals (c := c) (isRemoval_deletions messages members)
    have hlimited := hshrinks.limited hc
    refine ⟨fun m hm => (any_channel_delete users).mpr ⟨hlimited.referenced m hm, fun hid => ?_⟩,
      hlimited.count⟩
    obtain ⟨hold, hkept⟩ := Serial.mem_delete.mp hm
    rw [hp.2 m hold hid] at hkept
    cases hkept
  | _ => cases hop

theorem pointRule_memberships : PointRule (memberships prim) GroupPoint.log GroupPoint.locks Limited
    (fun c p => p.Knows c) HasRoom where
  entry c call _ := trivial
  select c p next _ hp h := by
    obtain ⟨hnone, -⟩ := log_of_group_select c h
    rw [hnone]
    exact group_select h hp
  write c p exec snap _ hp h := group_write snap h hp
  commit c p next hc hp h hroom := by
    refine ⟨group_commit hc h hp hroom, ?_⟩
    rw [ended_of_group_commit h]
    trivial
  stable c p next q _ hp h _ hq hdisjoint := knows_of_regroups (group_regroups h hp) hq hdisjoint

end knows

section alone

variable {prim : KeyPrimitives} {c d : Database} {caller u : User} {m : GroupMember} {channelId : String}

theorem known_of_mem (hcaller : caller ∈ c.users) (hu : u ∈ c.users) : caller.known u = u := by
  unfold User.known
  split
  · next h => exact Table.eq_of_key hcaller hu h.symm
  · rfl

theorem asLoaded_of_mem (hm : m ∈ c.groupMembers) :
    asLoaded (c.groupMembers.where' (·.channelId == channelId)) m = m := by
  unfold asLoaded
  cases hfind : (c.groupMembers.where' (·.channelId == channelId)).find? (·.id == m.id) with
  | none => rfl
  | some m' =>
    have hm' : m' ∈ c.groupMembers := (Table.mem_where'.mp (List.mem_of_find?_eq_some hfind)).1
    have hid := List.find?_some hfind
    exact Serial.eq_of_key hm' hm (beq_iff_eq.mp hid)

/-- What lets `add_member` through. -/
structure Invitable (prim : KeyPrimitives) (c : Database) (caller : User) (channelId : String)
    (newAddr : Address) (channel : GroupChannel) (member : GroupMember) (target : User) : Prop where
  found : c.groupChannels.find? (·.id == channelId) = some channel
  belongs : findGroupMember c channelId caller.address = some member
  administers : canAdministerGroup (some member) = true
  fresh : isGroupMember c channelId newAddr = false
  reached : findUser c newAddr = some target
  active : target.active = true
  capable : isMessengerCapable prim target = true
  room : memberCount c channelId < maxGroupMembers

theorem invitable_of_addMember {now : Time} {userAddress : String}
    (h : addMember prim c now caller channelId userAddress = .ok d) :
    (∃ channel member target, Invitable prim c caller channelId (lower userAddress) channel member target) ∧
      d = (GroupChange.insertMembers channelId [(lower userAddress, "member")] now).apply c := by
  unfold addMember at h
  obtain ⟨channel, hchannel, h⟩ := Fallible.bind_eq_ok.mp h
  obtain ⟨_, hadmin, h⟩ := Fallible.bind_eq_ok.mp h
  obtain ⟨_, hfresh, h⟩ := Fallible.bind_eq_ok.mp h
  rw [Fallible.refuseIf_eq_ok, Bool.not_eq_false'] at hadmin
  rw [Fallible.refuseIf_eq_ok] at hfresh
  have hfound : c.groupChannels.find? (·.id == channelId) = some channel := by
    unfold loadChannelOr404 at hchannel
    split at hchannel
    · next found hfind => exact Except.ok.inj hchannel ▸ hfind
    · cases hchannel
  obtain ⟨member, hmember, hadministers⟩ : ∃ m, findGroupMember c channelId caller.address = some m ∧
      canAdministerGroup (some m) = true := by
    cases hm : findGroupMember c channelId caller.address with
    | none =>
      rw [hm] at hadmin
      cases hadmin
    | some m => exact ⟨m, rfl, hm ▸ hadmin⟩
  split at h
  · cases h
  · next target htarget =>
    obtain ⟨_, hcapable, h⟩ := Fallible.bind_eq_ok.mp h
    obtain ⟨_, hroom, h⟩ := Fallible.bind_eq_ok.mp h
    rw [Fallible.refuseIf_eq_ok, Bool.not_eq_false'] at hcapable
    rw [Fallible.refuseIf_eq_ok, decide_eq_false_iff_not, Nat.not_le] at hroom
    obtain ⟨hfind, hactive⟩ := Option.filter_eq_some_iff.mp htarget
    exact ⟨⟨channel, member, target, hfound, hmember, hadministers, hfresh, hfind, hactive, hcapable,
      hroom⟩, (Except.ok.inj h).symm⟩

/-- The reading steps of a session, and its one `INSERT`. -/
def addingActions (i : ℕ) : List (Action GroupCall) :=
  [.select i, .select i, .select i, .select i, .select i, .start i, .finish i]

/-- Where nobody writes the same pair, a session adds the member that `add_member` adds. -/
theorem adding_run {now : Time} {token : Token} {userAddress : String} {i : ℕ}
    {s : State Database GroupLock GroupChange GroupPoint}
    (hcaller : getCurrentUser s.committed token = .ok caller)
    (hadd : addMember prim s.committed now caller channelId userAddress = .ok d)
    (hsession : s.session i =
      some (.fresh (.authenticate ⟨token, now, .addMember channelId userAddress⟩)))
    (hfree : s.lockedFor i (.membership channelId (lower userAddress)) = false) :
    Run (ofPartial (memberships prim).step) s (addingActions i)
      (s.put i (some ⟨.added ⟨now, caller, channelId, lower userAddress⟩, none,
        [.membership channelId (lower userAddress)],
        [.insertMembers channelId [(lower userAddress, "member")] now]⟩)) := by
  obtain ⟨⟨channel, member, target, h⟩, -⟩ := invitable_of_addMember hadd
  have hmember : member ∈ s.committed.groupMembers := (Table.find?_mem h.belongs).1
  have hload : asLoaded (s.committed.groupMembers.where' (·.channelId == channelId)) member = member :=
    asLoaded_of_mem hmember
  have hknown := known_of_mem (getCurrentUser_ok hcaller).1 (Table.find?_mem h.reached).1
  have hroom : ¬ maxGroupMembers ≤ memberCount s.committed channelId := Nat.not_le_of_lt h.room
  have hexists : s.committed.groupChannels.any (·.id == channelId) = true :=
    Table.any_eq_true.mpr ⟨channel, Table.find?_mem h.found⟩
  let visit : Visit := ⟨now, caller, channelId, lower userAddress⟩
  let members := s.committed.groupMembers.where' (·.channelId == channelId)
  have hstart : (memberships prim).step s (.select i) =
      some (s.put i (some (.fresh (.loadChannel true visit)))) := by
    rw [Machine.select_eq hsession rfl]
    change some (s.put i (some (Session.goto _ (match getCurrentUser s.committed token with
      | .error _ => _
      | .ok caller => _)))) = _
    rw [hcaller]
    rfl
  have hstep : ∀ (p q : GroupPoint) {next : Database → GroupPoint},
      (memberships prim).op p = .select next → next s.committed = q →
      (memberships prim).step (s.put i (some (.fresh p))) (.select i) =
        some (s.put i (some (.fresh q))) := by
    intro p q next hop hq
    rw [Machine.select_eq (State.session_put_self hsession) hop, State.put_put, ← hq]
    rfl
  have hchannel := hstep (.loadChannel true visit) (.findCaller true visit channel members) rfl (by
    simp only [visit, h.found]
    rfl)
  have hmembership := hstep (.findCaller true visit channel members) (.isMember visit members) rfl (by
    simp only [visit, members, h.belongs, hload, h.administers]
    rfl)
  have hnew := hstep (.isMember visit members) (.findActiveUser visit members) rfl (by
    simp only [visit, h.fresh]
    rfl)
  have htarget := hstep (.findActiveUser visit members) (.insertMember visit) rfl (by
    simp only [visit, h.reached, hknown, h.active, h.capable]
    exact if_neg hroom)
  have hinsert : insertRows s.committed channelId [(lower userAddress, "member")] now (.added visit) =
      changedGroup (.insertMembers channelId [(lower userAddress, "member")] now) (.added visit) := by
    unfold insertRows
    rw [hexists, List.any_cons, h.fresh]
    rfl
  have hlocks : (changedGroup (.insertMembers channelId [(lower userAddress, "member")] now)
      (.added visit)).locks.any ((s.put i (some (.fresh (.insertMember visit)))).lockedFor i) = false := by
    rw [State.lockedFor_put]
    change (s.lockedFor i (.membership channelId (lower userAddress)) || false) = false
    rw [hfree, Bool.or_false]
  have hop : (memberships prim).op (.insertMember visit) = .write fun _ cur =>
      insertRows cur channelId [(lower userAddress, "member")] now (.added visit) := rfl
  have hwrite := Machine.write_run (State.session_put_self hsession) hop hinsert hlocks
  rw [State.put_put] at hwrite
  exact .cons hstart (.cons hchannel (.cons hmembership (.cons hnew (.cons htarget hwrite))))

end alone

/-! ## Two invitations into the last place -/

def sampleName (n : ℕ) : String := String.ofList (List.replicate n 'a')

theorem sampleName_inj {m n : ℕ} (h : lower (sampleName m) = lower (sampleName n)) : m = n := by
  have htext : ∀ k, (lower (sampleName k)).text.toList = List.replicate k 'a' := by
    intro k
    change (lowerText (sampleName k)).toList = _
    rw [lowerText, sampleName, String.toList_ofList, String.toList_ofList, List.map_replicate]
    rfl
  have hlist := congrArg (fun a => a.text.toList.length) h
  simpa only [htext, List.length_replicate] using hlist

def sampleHall : Database where
  __ := Database.empty
  users := ⟨(List.range 51).map fun n => sampleReachable (sampleName n), by
    rw [List.map_map]
    exact List.nodup_range.map fun m n h => sampleName_inj h⟩
  groupChannels := Table.empty.insert ⟨"g", lower (sampleName 0)⟩

/-- A group of 49, all of them admins, and two users who are not in it. -/
def sampleCrowd : Database :=
  (GroupChange.insertMembers "g" ((List.range 49).map fun n =>
    (lower (sampleName n), if n = 0 then "owner" else "admin")) 0).apply sampleHall

theorem mem_users_sampleCrowd {n : ℕ} (hn : n < 51) :
    sampleReachable (sampleName n) ∈ sampleCrowd.users := by
  have husers : sampleCrowd.users.rows = (List.range 51).map fun n => sampleReachable (sampleName n) := rfl
  rw [← Table.mem_rows, husers]
  exact List.mem_map.mpr ⟨n, List.mem_range.mpr hn, rfl⟩

theorem mem_sampleCrowd {m : GroupMember} (hm : m ∈ sampleCrowd.groupMembers) :
    m.channelId = "g" ∧ canAdministerGroup (some m) = true ∧
      ∃ n < 49, m.userAddress = lower (sampleName n) := by
  rcases Serial.mem_insertAll hm with hm | ⟨entry, hentry, id, rfl⟩
  · cases hm
  · obtain ⟨n, hn, rfl⟩ := List.mem_map.mp hentry
    refine ⟨rfl, ?_, n, List.mem_range.mp hn, rfl⟩
    by_cases hzero : n = 0 <;> simp [canAdministerGroup, memberRow, hzero]

theorem memberCount_sampleCrowd : memberCount sampleCrowd "g" = 49 := by
  refine (memberCount_insert sampleHall "g" _ 0).trans ?_
  rw [memberCount_eq_zero fun m hm => (by cases hm), List.length_map, List.length_range]

theorem limited_sampleCrowd : Limited sampleCrowd := by
  refine ⟨fun m hm => ?_, fun id => ?_⟩
  · rw [(mem_sampleCrowd hm).1]
    rfl
  · by_cases hid : id = "g"
    · rw [hid, memberCount_sampleCrowd]
      decide
    · refine (memberCount_eq_zero fun m hm => ?_).le.trans (Nat.zero_le _)
      rw [(mem_sampleCrowd hm).1]
      exact fun h => hid h.symm

def User.token (u : User) : Token := ⟨u.address.text, u.tokenVersion⟩

/-- One of the admins invites one of the two. -/
def sampleInvitation (n : ℕ) : GroupCall :=
  ⟨(sampleReachable (sampleName n)).token, 0, .addMember "g" (sampleName (n + 49))⟩

def sampleGuest (n : ℕ) : GroupChange :=
  .insertMembers "g" [(lower (sampleName (n + 49)), "member")] 0

theorem addMember_sampleCrowd {n : ℕ} (hn : n < 2) :
    addMember sampleKeyPrimitives sampleCrowd 0 (sampleReachable (sampleName n)) "g" (sampleName (n + 49)) =
      .ok ((sampleGuest n).apply sampleCrowd) := by
  have hchannel : loadChannelOr404 sampleCrowd "g" = .ok ⟨"g", lower (sampleName 0)⟩ := rfl
  have hbelongs : (findGroupMember sampleCrowd "g" (lower (sampleName n))).isSome = true := by
    rcases Nat.le_one_iff_eq_zero_or_eq_one.mp (Nat.le_of_lt_succ hn) with rfl | rfl <;> decide +kernel
  obtain ⟨member, hmember⟩ := Option.isSome_iff_exists.mp hbelongs
  have hadmin : canAdministerGroup (findGroupMember sampleCrowd "g" (lower (sampleName n))) = true := by
    rw [hmember]
    exact (mem_sampleCrowd (Table.find?_mem hmember).1).2.1
  have hfresh : isGroupMember sampleCrowd "g" (lower (sampleName (n + 49))) = false := by
    rw [isGroupMember, Option.isSome_eq_false_iff, Option.isNone_iff_eq_none]
    refine List.find?_eq_none.mpr fun m hm => ?_
    obtain ⟨-, -, k, hk, haddress⟩ := mem_sampleCrowd hm
    rw [Bool.and_eq_true, not_and, haddress]
    intro _ heq
    have hsame := sampleName_inj (beq_iff_eq.mp heq)
    omega
  have hfind := findUser_of_mem (mem_users_sampleCrowd (n := n + 49) (by omega))
  have htarget : findActiveUser sampleCrowd (lower (sampleName (n + 49))) =
      some (sampleReachable (sampleName (n + 49))) := by
    have haddress : lower (sampleName (n + 49)) = (sampleReachable (sampleName (n + 49))).address := rfl
    rw [haddress, findActiveUser, hfind]
    rfl
  have hroom := memberCount_sampleCrowd
  rw [memberCount] at hroom
  have haddress : (sampleReachable (sampleName n)).address = lower (sampleName n) := rfl
  simp only [addMember, hchannel, Fallible.ok_bind, haddress, hadmin, hfresh, htarget,
    isMessengerCapable_sample, hroom, Bool.not_true, Fallible.refuseIf, Bool.false_eq_true, if_false]
  rfl

theorem getCurrentUser_sampleCrowd {n : ℕ} (hn : n < 51) :
    getCurrentUser sampleCrowd (sampleReachable (sampleName n)).token =
      .ok (sampleReachable (sampleName n)) := by
  have hactive : (sampleReachable (sampleName n)).active = true := rfl
  exact getCurrentUser_of_active (mem_users_sampleCrowd hn) hactive

/-- An invited member, on the way into the group. -/
def sampleAdded (n : ℕ) : Session Database GroupLock GroupChange GroupPoint :=
  ⟨.added ⟨0, sampleReachable (sampleName n), "g", lower (sampleName (n + 49))⟩, none,
    [.membership "g" (lower (sampleName (n + 49)))], [sampleGuest n]⟩

theorem invitation_run {n i : ℕ} (hn : n < 2) {s : State Database GroupLock GroupChange GroupPoint}
    (hc : s.committed = sampleCrowd)
    (hsession : s.session i = some (.fresh (.authenticate (sampleInvitation n))))
    (hfree : s.lockedFor i (.membership "g" (lower (sampleName (n + 49)))) = false) :
    Run (ofPartial (memberships sampleKeyPrimitives).step) s (addingActions i)
      (s.put i (some (sampleAdded n))) := by
  have hcaller : getCurrentUser s.committed (sampleReachable (sampleName n)).token =
      .ok (sampleReachable (sampleName n)) := by
    rw [hc]
    exact getCurrentUser_sampleCrowd (by omega)
  have hadd := addMember_sampleCrowd hn
  rw [← hc] at hadd
  exact adding_run hcaller hadd hsession hfree

theorem memberCount_sampleGuest (c : Database) (n : ℕ) :
    memberCount ((sampleGuest n).apply c) "g" = memberCount c "g" + 1 :=
  memberCount_insert c "g" [(lower (sampleName (n + 49)), "member")] 0

theorem mem_channels_sampleCrowd : ⟨"g", lower (sampleName 0)⟩ ∈ sampleCrowd.groupChannels :=
  Table.mem_insert_self fun ch hch => (by cases hch)

end Kryptolog.Server
