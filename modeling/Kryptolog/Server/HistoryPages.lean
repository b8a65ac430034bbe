import Kryptolog.Library.Pages
import Kryptolog.Server.Groups
import Kryptolog.Server.Retention

/-! # The pages of a history

`POST /messages/history` and `POST /groups/{id}/history` order a conversation's messages by the time of their
creation and by nothing else. How the database lists messages of one time is its own choice at each request: the
`orderBy` below.
-/

namespace Kryptolog.Server
set_option autoImplicit false

open Tables Json Fallible Pages

/-! ## The endpoints -/

/-- `limit` with the bounds of `HistoryRequest` and `GroupHistoryRequest`. -/
structure HistoryLimit where
  rows : ℕ
  positive : 1 ≤ rows
  bounded : rows ≤ 100

/-- The messages between the two, either way. -/
def isBetween (a partner : Address) (r : AgedMessage) : Bool :=
  (r.senderAddress == a && r.target == partner.text) || (r.senderAddress == partner && r.target == a.text)

def dmRows (tables : Messages) (a partner : Address) : List AgedMessage := (tables .dm).where' (isBetween a partner)

def channelRows (tables : Messages) (channelId : String) : List AgedMessage :=
  (tables .group).where' fun r => r.target == channelId

/-- `get_message_history`. -/
def getMessageHistory (orderBy : List AgedMessage → List AgedMessage) (tables : Messages) (caller : User)
    (partnerAddress : String) (limit : HistoryLimit) (offset : ℕ) : List AgedMessage :=
  (page limit.rows offset (orderBy (dmRows tables caller.address (lower partnerAddress)))).reverse

/-- `get_group_history`. -/
def getGroupHistory (orderBy : List AgedMessage → List AgedMessage) (db : Database) (tables : Messages)
    (caller : User) (channelId : String) (limit : HistoryLimit) (offset : ℕ) : Except Fault (List AgedMessage) := do
  refuseIf (!isGroupMember db channelId caller.address) (.http 403 "Not a member of this group")
  .ok (page limit.rows offset (orderBy (channelRows tables channelId))).reverse

/-! ## What a reader puts together -/

/-- `ORDER BY created_at DESC`. -/
def OrdersByTime (orderBy : List AgedMessage → List AgedMessage) : Prop :=
  ∀ rows, Orders AgedMessage.createdAt rows (orderBy rows)

/-- The first `n` pages of a history, each older one before the newer ones. -/
def assembled (history : ℕ → List AgedMessage) (n : ℕ) : List AgedMessage :=
  (List.range n).reverse.flatMap history

/-- Every message once, in the order of their times. -/
structure IsChronicle (rows shown : List AgedMessage) : Prop where
  perm : shown.Perm rows
  chronological : shown.Pairwise fun r r' => r.createdAt ≤ r'.createdAt

/-- However each answer orders messages of one time, the pages up to the last message are the conversation. -/
def DmPagesPartition (tables : Messages) (caller : User) (partnerAddress : String) (limit : HistoryLimit) : Prop :=
  ∀ orderBy : ℕ → List AgedMessage → List AgedMessage, (∀ i, OrdersByTime (orderBy i)) →
    ∀ n, (dmRows tables caller.address (lower partnerAddress)).length ≤ n * limit.rows →
      IsChronicle (dmRows tables caller.address (lower partnerAddress))
        (assembled (fun i => getMessageHistory (orderBy i) tables caller partnerAddress limit (i * limit.rows)) n)

/-- The same of a group's messages, where the requests are answered. -/
def GroupPagesPartition (db : Database) (tables : Messages) (caller : User) (channelId : String)
    (limit : HistoryLimit) : Prop :=
  ∀ orderBy : ℕ → List AgedMessage → List AgedMessage, (∀ i, OrdersByTime (orderBy i)) →
    ∀ n, (channelRows tables channelId).length ≤ n * limit.rows → ∀ history : ℕ → List AgedMessage,
      (∀ i, getGroupHistory (orderBy i) db tables caller channelId limit (i * limit.rows) = .ok (history i)) →
        IsChronicle (channelRows tables channelId) (assembled history n)

/-- A page of the conversation ends between two messages of one time. -/
def SplitsTie (rows : List AgedMessage) (limit : HistoryLimit) : Prop :=
  ∃ k, CutsTie AgedMessage.createdAt rows (k * limit.rows)

/-! ## The pages of one ordering after another -/

section pages

variable {rows : List AgedMessage} {limit : HistoryLimit}

theorem nodup_where' (T : Serial AgedMessage) (p : AgedMessage → Bool) : (T.where' p).Nodup :=
  (List.Nodup.of_map _ T.nodup).filter p

/-- Older pages first is the reverse of the order in which the pages are asked for. -/
theorem assembled_eq (lists : ℕ → List AgedMessage) (limit n : ℕ) :
    assembled (fun i => (page limit (i * limit) (lists i)).reverse) n = (pages limit lists n).reverse := by
  rw [pages, List.reverse_flatMap]
  rfl

theorem isChronicle_reverse {xs : List AgedMessage} :
    IsChronicle rows xs.reverse ↔ Orders AgedMessage.createdAt rows xs := by
  constructor
  · intro h
    exact ⟨(List.reverse_perm xs).symm.trans h.perm, List.pairwise_reverse.mp h.chronological⟩
  · intro h
    exact ⟨(List.reverse_perm xs).trans h.perm, List.pairwise_reverse.mpr h.descends⟩

/-- The order of the rows in question is all that an answer reads of the database's choice. -/
theorem exists_orderBy {lists : ℕ → List AgedMessage}
    (h : ∀ i, Orders AgedMessage.createdAt rows (lists i)) :
    ∃ orderBy : ℕ → List AgedMessage → List AgedMessage,
      (∀ i, OrdersByTime (orderBy i)) ∧ ∀ i, orderBy i rows = lists i := by
  classical
  obtain ⟨sort, hsort⟩ := Classical.axiomOfChoice (exists_orders AgedMessage.createdAt)
  refine ⟨fun i => Function.update sort rows (lists i), fun i xs => ?_, fun i => Function.update_self ..⟩
  show Orders AgedMessage.createdAt xs (Function.update sort rows (lists i) xs)
  by_cases hxs : xs = rows
  · rw [hxs, Function.update_self]
    exact h i
  · rw [Function.update_of_ne hxs]
    exact hsort xs

/-- Pages of one conversation, whatever order each answer chooses. -/
theorem chronicles_iff (hnodup : rows.Nodup) :
    (∀ orderBy : ℕ → List AgedMessage → List AgedMessage, (∀ i, OrdersByTime (orderBy i)) →
        ∀ n, rows.length ≤ n * limit.rows → IsChronicle rows
          (assembled (fun i => (page limit.rows (i * limit.rows) (orderBy i rows)).reverse) n)) ↔
      ¬ SplitsTie rows limit := by
  rw [SplitsTie, not_exists, ← pages_iff hnodup limit.positive]
  constructor
  · intro h lists hlists n hn
    obtain ⟨orderBy, horder, hsame⟩ := exists_orderBy hlists
    have hchronicle := h orderBy horder n hn
    simp only [hsame] at hchronicle
    rw [assembled_eq] at hchronicle
    exact isChronicle_reverse.mp hchronicle
  · intro h orderBy horder n hn
    rw [assembled_eq]
    exact isChronicle_reverse.mpr (h (fun i => orderBy i rows) (fun i => horder i rows) n hn)

end pages

/-- The pages of a history are a partition of the conversation exactly where no page ends between two messages of
one time. -/
theorem history_pages_iff (db : Database) (tables : Messages) (caller : User) (partnerAddress channelId : String)
    (limit : HistoryLimit) :
    (DmPagesPartition tables caller partnerAddress limit ↔
        ¬ SplitsTie (dmRows tables caller.address (lower partnerAddress)) limit) ∧
      (GroupPagesPartition db tables caller channelId limit ↔
        (isGroupMember db channelId caller.address = true → ¬ SplitsTie (channelRows tables channelId) limit)) := by
  have hrows : (channelRows tables channelId).Nodup := nodup_where' ..
  refine ⟨chronicles_iff (nodup_where' ..), ?_⟩
  rw [← chronicles_iff hrows]
  constructor
  · intro h hmember orderBy horder n hn
    refine h orderBy horder n hn _ fun i => ?_
    rw [getGroupHistory, hmember]
    rfl
  · intro h orderBy horder n hn history hhistory
    have hmember : isGroupMember db channelId caller.address = true := by
      obtain ⟨_, hmember, -⟩ := bind_eq_ok.mp (hhistory 0)
      simpa using refuseIf_eq_ok.mp hmember
    have hpages : history = fun i => (page limit.rows (i * limit.rows)
        (orderBy i (channelRows tables channelId))).reverse := by
      funext i
      have hpage := hhistory i
      rw [getGroupHistory, hmember] at hpage
      exact (Except.ok.inj hpage).symm
    rw [hpages]
    exact h hmember orderBy horder n hn

section sample

theorem key_firstMessage (n : ℕ) : Keyed.key (firstMessage n) = n := rfl

/-- Two messages of one moment. -/
def twoMessages : Messages
  | .dm => (Serial.empty.insert firstMessage key_firstMessage).insert firstMessage key_firstMessage
  | .group => Serial.empty

def sampleReader : User := ⟨lower "a", "", none, none, none, none, none, none, 0, none, false⟩

theorem one_le_hundred : 1 ≤ 100 := by decide

def oneRow : HistoryLimit := ⟨1, le_rfl, one_le_hundred⟩

/-- Two messages of one moment, read one by one: one of them can come twice and the other not at all. -/
theorem not_history_partition : ¬ ∀ (db : Database) (tables : Messages) (caller : User)
    (partnerAddress channelId : String) (limit : HistoryLimit),
      DmPagesPartition tables caller partnerAddress limit ∧
        GroupPagesPartition db tables caller channelId limit := by
  intro h
  have hpages := (h Database.empty twoMessages sampleReader "b" "" oneRow).1
  refine (chronicles_iff (nodup_where' ..)).mp hpages ⟨1, 0, ?_, ?_⟩
  · decide +kernel
  · decide +kernel

end sample

end Kryptolog.Server
