import Kryptolog.Client.OpenChats

/-! # The conversation that is shown

Every answer to an opening replaces what is open, whether another conversation has been opened since or not, and a
finished send appends to whatever is open.
-/

namespace Kryptolog.Client
set_option autoImplicit false

open Script
open Server (Kind)
open Runs

/-! ## When answers come in their turn -/

def messageIds (messages : List ChatMessage) : List ℕ := messages.map (·.id)

namespace Panel

variable (me : Text) (s : Panel)

/-- The open conversation of a kind. -/
def holds : Kind → Option ChatId
  | .dm => s.dm.map (·.chat)
  | .group => s.group.map (·.chat)

def refHolds : Kind → Option ChatId
  | .dm => s.dmRef.map (·.chat)
  | .group => s.groupRef.map (·.chat)

/-- The messages of the open conversation of a kind. -/
def idsOf : Kind → List ℕ
  | .dm => (s.dm.map fun c => messageIds c.messages).getD []
  | .group => (s.group.map fun g => messageIds g.messages).getD []

def chatOf (i : ℕ) : Option ChatId := s.loads[i]?.bind ChatLoad.chat

/-- The opening of the conversation that was opened last has been answered in full. -/
def settled : Bool := s.opened.any fun o => s.loads[o.2]?.any ChatLoad.isEnded

/-- A direct chat may be replaced behind an open group. -/
def isBehind (i : ℕ) : Bool := (s.chatOf i).any (·.kind = .dm) && s.group.isSome

/-- An answer is one to the conversation that was opened last, and the history that comes last has every message
that is due. A finished send finds its conversation open, or none. A live message, after the history, and a change
to a group find the refs as the state is. -/
def Orderly : PanelAction → Prop
  | .lookup i _ => s.isBehind i = true ∨ (s.opened.map (·.1) = s.chatOf i ∧ s.settled = false)
  | .history i (some rows) => s.isBehind i = true ∨ (s.opened.map (·.1) = s.chatOf i ∧
      ((∀ id ∈ s.due, id ∈ messageIds rows) ∨ (s.settled = false ∧ s.opened.map (·.2) ≠ some i)))
  | .history i none => ∀ o ∈ s.opened.toList, o.2 = i → ∀ id ∈ s.due, id ∈ s.idsOf o.1.kind
  | .sent m => s.holds m.chat.kind = none ∨ s.holds m.chat.kind = some m.chat
  | .arrive m => s.opened.map (·.1) = some m.chat → s.settled = true → s.refHolds m.chat.kind = some m.chat
  | .groupUpdated id _ => s.refersTo id = true → s.holds .group = some (.group id)
  | .memberRemoved id address => s.refersTo id = true →
      s.holds .group = some (.group id) ∨ (address = me ∧ s.holds .group = none)
  | _ => True

instance : ∀ a, Decidable (s.Orderly me a)
  | .lookup .. | .history _ (some _) | .sent _ => inferInstanceAs (Decidable (_ ∨ _))
  | .history _ none => inferInstanceAs (Decidable (∀ o ∈ s.opened.toList, _ → ∀ id ∈ s.due, _))
  | .arrive _ => inferInstanceAs (Decidable (_ → _ → _))
  | .groupUpdated .. | .memberRemoved .. => inferInstanceAs (Decidable (_ → _))
  | .openDm _ | .openGroup _ | .back | .details .. | .partner _ | .memberAdded .. | .memberUpdated ..
  | .addGroupMember .. | .removeGroupMember .. | .renameGroup .. | .commit => .isTrue trivial

end Panel

/-! ## What orderly answers keep -/

/-- Messages of one conversation, each once. -/
structure IsRecord (chat : ChatId) (messages : List ChatMessage) : Prop where
  own : ∀ m ∈ messages, m.chat = chat
  nodup : (messageIds messages).Nodup

namespace Panel

/-- The panel shows the conversation that was opened last, or waits for its partner. -/
structure ShowsLast (s : Panel) (chat : ChatId) (i : ℕ) : Prop where
  load : ∃ load, s.loads[i]? = some load ∧ ∀ c, load.chat = some c → c = chat
  alone : chat.kind = .dm → s.group = none
  held : (∀ user, s.loads[i]? ≠ some (.lookup user)) → s.holds chat.kind = some chat
  due : s.loads[i]? = some .ended → ∀ id ∈ s.due, id ∈ s.idsOf chat.kind

structure Right (s : Panel) : Prop where
  sound : s.broken = false
  dms : ∀ c, s.dm = some c → IsRecord c.chat c.messages
  groups : ∀ g, s.group = some g → IsRecord g.chat g.messages
  last : ∀ chat i, s.opened = some (chat, i) → s.ShowsLast chat i
  closed : s.opened = none → s.group = none

end Panel

theorem IsRecord.nil (chat : ChatId) : IsRecord chat [] := ⟨by simp, List.nodup_nil⟩

theorem IsRecord.of_isHistory {chat : ChatId} {rows : List ChatMessage} (h : isHistory chat rows = true) :
    IsRecord chat rows := by
  rw [isHistory, Bool.and_eq_true, List.all_eq_true] at h
  exact ⟨fun m hm => of_decide_eq_true (h.1 m hm), of_decide_eq_true h.2⟩

theorem mem_appendMessage (messages : List ChatMessage) (m : ChatMessage) :
    m.id ∈ messageIds (appendMessage messages m) ∧
      ∀ id ∈ messageIds messages, id ∈ messageIds (appendMessage messages m) := by
  rw [appendMessage]
  split
  · next h =>
    obtain ⟨x, hx, hid⟩ := List.any_eq_true.mp h
    exact ⟨List.mem_map.mpr ⟨x, hx, eq_of_beq hid⟩, fun _ h => h⟩
  · simp only [messageIds, List.map_append, List.mem_append]
    exact ⟨.inr List.mem_cons_self, fun _ h => .inl h⟩

theorem IsRecord.append {chat : ChatId} {messages : List ChatMessage} {m : ChatMessage}
    (h : IsRecord chat messages) (hm : m.chat = chat) : IsRecord chat (appendMessage messages m) := by
  rw [appendMessage]
  split
  · exact h
  · next hfresh =>
    refine ⟨fun x hx => ?_, ?_⟩
    · rcases List.mem_append.mp hx with hx | hx
      · exact h.own x hx
      · rw [List.mem_singleton.mp hx, hm]
    · rw [messageIds, List.map_append, List.nodup_append]
      refine ⟨h.nodup, by simp, fun a ha b hb hab => hfresh ?_⟩
      obtain ⟨x, hx, rfl⟩ := List.mem_map.mp ha
      rw [List.map_singleton, List.mem_singleton] at hb
      exact List.any_eq_true.mpr ⟨x, hx, beq_iff_eq.mpr (hab.trans hb)⟩

section parts

variable (c : OpenDm) (g : OpenGroup) (m : ChatMessage)

theorem OpenDm.chat_ne (id : Text) : c.chat ≠ .group id := nofun

theorem OpenGroup.chat_ne (address : Text) : g.chat ≠ .dm address := nofun

theorem OpenDm.applyPartner_chat (partner : PartnerRecord) : (c.applyPartner partner).chat = c.chat := by
  rw [OpenDm.applyPartner]
  split
  · rfl
  · next hchat =>
    split
    · rfl
    · exact (not_not.mp hchat).symm

theorem OpenDm.applyPartner_messages (partner : PartnerRecord) :
    (c.applyPartner partner).messages = c.messages := by
  rw [OpenDm.applyPartner]
  split
  · rfl
  · split <;> rfl

theorem OpenDm.applyPartner_of_ne {partner : PartnerRecord} (h : c.chat ≠ partner.chat) :
    c.applyPartner partner = c := if_pos h

/-- A change to a group that leaves its id and its messages. -/
def KeepsMessages (F : OpenGroup → OpenGroup) : Prop := ∀ g, (F g).chat = g.chat ∧ (F g).messages = g.messages

theorem keepsMessages_addMember (row : GroupRow) : KeepsMessages (·.addMember row) := fun _ => ⟨rfl, rfl⟩

theorem KeepsMessages.patch {F : OpenGroup → OpenGroup} (h : KeepsMessages F) (id : Text) :
    KeepsMessages (·.patch id F) := by
  intro g
  simp only [OpenGroup.patch]
  split
  · exact h g
  · exact ⟨rfl, rfl⟩

theorem OpenGroup.patch_of_ne {id : Text} (h : g.chat ≠ .group id) (F : OpenGroup → OpenGroup) : g.patch id F = g :=
  if_neg fun hid => h (congrArg ChatId.group hid)

end parts

variable {me : Text} {s t : Panel} {a : PanelAction}

namespace Panel

theorem Right.of_opened {chat : ChatId} {i : ℕ} (hsound : t.broken = false) (hopened : t.opened = some (chat, i))
    (hdms : ∀ c, t.dm = some c → IsRecord c.chat c.messages)
    (hgroups : ∀ g, t.group = some g → IsRecord g.chat g.messages) (hlast : t.ShowsLast chat i) : t.Right := by
  refine ⟨hsound, hdms, hgroups, fun chat' i' h => ?_, fun h => nomatch hopened.symm.trans h⟩
  obtain ⟨rfl, rfl⟩ := Prod.mk.inj (Option.some.inj (hopened.symm.trans h))
  exact hlast

/-- A load that goes on is of its conversation still. -/
theorem ShowsLast.load_set {chat : ChatId} {i j : ℕ} (h : s.ShowsLast chat j) {before load : ChatLoad}
    (hi : s.loads[i]? = some before) (hload : ∀ c, load.chat = some c → s.chatOf i = some c) :
    ∃ load', (s.loads.set i load)[j]? = some load' ∧ ∀ c, load'.chat = some c → c = chat := by
  obtain ⟨old, hold, hchat⟩ := h.load
  by_cases hij : i = j
  · subst hij
    refine ⟨load, ?_, fun c hc => hchat c ?_⟩
    · rw [List.getElem?_set_self (List.getElem?_eq_some_iff.mp hi).1]
    · have := hload c hc
      rwa [chatOf, hold] at this
  · exact ⟨old, by rwa [List.getElem?_set_ne hij], hchat⟩

theorem settled_eq_true {chat : ChatId} {i : ℕ} (hopened : s.opened = some (chat, i))
    (hload : s.loads[i]? = some .ended) : s.settled = true := by
  simp [settled, hopened, hload, ChatLoad.isEnded]

/-- An answer after which the load still waits, or one that brings nothing. -/
theorem Right.waited (h : s.Right) {i : ℕ} {before load : ChatLoad} (hi : s.loads[i]? = some before)
    (hload : ∀ c, load.chat = some c → s.chatOf i = some c) (hbefore : ∀ user, before ≠ .lookup user)
    (hdue : load = .ended → ∀ chat, s.opened = some (chat, i) → ∀ id ∈ s.due, id ∈ s.idsOf chat.kind) :
    Right { s with loads := s.loads.set i load } := by
  refine ⟨h.sound, h.dms, h.groups, fun chat j hlast => ?_, h.closed⟩
  have hshows := h.last chat j hlast
  have hlen := (List.getElem?_eq_some_iff.mp hi).1
  refine ⟨hshows.load_set hi hload, hshows.alone, fun hlook => hshows.held fun user hu => ?_, fun hend => ?_⟩
  · by_cases hij : i = j
    · subst hij
      exact hbefore user (Option.some.inj (hi.symm.trans hu))
    · exact hlook user (by rwa [List.getElem?_set_ne hij])
  · by_cases hij : i = j
    · subst hij
      rw [List.getElem?_set_self hlen] at hend
      exact hdue (Option.some.inj hend) chat hlast
    · rw [List.getElem?_set_ne hij] at hend
      exact hshows.due hend

/-- A direct chat is replaced behind the open group. -/
theorem Right.behind (h : s.Right) {i : ℕ} {before load : ChatLoad} {c : OpenDm} (hi : s.loads[i]? = some before)
    (hload : ∀ c, load.chat = some c → s.chatOf i = some c) (hbehind : s.isBehind i = true)
    (hc : IsRecord c.chat c.messages) (hdm : t.dm = some c) (hgroup : t.group = s.group)
    (hloads : t.loads = s.loads.set i load) (hopened : t.opened = s.opened) (hdue : t.due = s.due)
    (hsound : t.broken = s.broken) : t.Right := by
  rw [isBehind, Bool.and_eq_true] at hbehind
  obtain ⟨chat, hchat, hkind⟩ := (Option.any_eq_true _ _).mp hbehind.1
  refine ⟨hsound.trans h.sound, fun c' hc' => ?_, fun g hg => h.groups g (hgroup ▸ hg), fun chat' j hlast => ?_,
    fun hclosed => hgroup.trans (h.closed (hopened ▸ hclosed))⟩
  · rw [← Option.some.inj (hdm.symm.trans hc')]
    exact hc
  rw [hopened] at hlast
  have hshows := h.last chat' j hlast
  have hkind' : chat'.kind = .group := by
    cases hk : chat'.kind with
    | dm => simp [hshows.alone hk] at hbehind
    | group => rfl
  have hij : i ≠ j := by
    rintro rfl
    obtain ⟨old, hold, hown⟩ := hshows.load
    rw [chatOf, hold] at hchat
    rw [← hown chat hchat, of_decide_eq_true hkind] at hkind'
    cases hkind'
  have hsame : t.loads[j]? = s.loads[j]? := by rw [hloads, List.getElem?_set_ne hij]
  refine ⟨hloads ▸ hshows.load_set hi hload, (fun hk => nomatch hkind'.symm.trans hk), fun hlook => ?_,
    fun hend => ?_⟩
  · have hheld := hshows.held fun user hu => hlook user (hsame.trans hu)
    rw [hkind'] at hheld ⊢
    rwa [holds, hgroup]
  · have hcover := hshows.due (hsame.symm.trans hend)
    rw [hkind'] at hcover ⊢
    rwa [idsOf, hgroup, hdue]

/-- An update in place. -/
theorem Right.updated (h : s.Right) {f : OpenDm → OpenDm} {F : OpenGroup → OpenGroup}
    (hf : ∀ c, s.dm = some c → (f c).chat = c.chat ∧ IsRecord c.chat (f c).messages)
    (hF : ∀ g, s.group = some g → (F g).chat = g.chat ∧ IsRecord g.chat (F g).messages)
    (hsound : t.broken = false) (hdm : t.dm = s.dm.map f) (hgroup : t.group = s.group.map F)
    (hloads : t.loads = s.loads) (hopened : t.opened = s.opened)
    (hdue : ∀ chat i, s.opened = some (chat, i) → s.loads[i]? = some .ended → s.holds chat.kind = some chat →
      ∀ id ∈ t.due, id ∈ t.idsOf chat.kind) : t.Right := by
  have hholds : ∀ k, t.holds k = s.holds k := by
    rintro (_ | _)
    · cases hc : s.dm with
      | none => simp [holds, hdm, hc]
      | some c => simp [holds, hdm, hc, (hf c hc).1]
    · cases hg : s.group with
      | none => simp [holds, hgroup, hg]
      | some g => simp [holds, hgroup, hg, (hF g hg).1]
  refine ⟨hsound, fun c hc => ?_, fun g hg => ?_, fun chat i hlast => ?_, fun hclosed => ?_⟩
  · obtain ⟨c', hc', rfl⟩ := Option.map_eq_some_iff.mp (hdm ▸ hc)
    rw [(hf c' hc').1]
    exact (hf c' hc').2
  · obtain ⟨g', hg', rfl⟩ := Option.map_eq_some_iff.mp (hgroup ▸ hg)
    rw [(hF g' hg').1]
    exact (hF g' hg').2
  · rw [hopened] at hlast
    have hshows := h.last chat i hlast
    refine ⟨hloads ▸ hshows.load, fun hk => ?_, fun hload => ?_, fun hload => ?_⟩
    · rw [hgroup, hshows.alone hk, Option.map_none]
    · rw [hholds]
      exact hshows.held (hloads ▸ hload)
    · rw [hloads] at hload
      exact hdue chat i hlast hload (hshows.held fun user hu => nomatch hload.symm.trans hu)
  · rw [hgroup, h.closed (hopened ▸ hclosed), Option.map_none]

/-- A change to the open group that leaves its messages. -/
theorem Right.regrouped (h : s.Right) {F : OpenGroup → OpenGroup} (hF : KeepsMessages F)
    (hsound : t.broken = false) (hdm : t.dm = s.dm) (hgroup : t.group = s.group.map F)
    (hloads : t.loads = s.loads) (hopened : t.opened = s.opened) (hdue : t.due = s.due) : t.Right := by
  refine h.updated (f := id) (fun c hc => ⟨rfl, h.dms c hc⟩) (fun g hg => ⟨(hF g).1, ?_⟩) hsound
    (by rw [hdm, Option.map_id, id]) hgroup hloads hopened fun chat i hlast hload _ id hid => ?_
  · rw [(hF g).2]
    exact h.groups g hg
  · have hids : t.idsOf chat.kind = s.idsOf chat.kind := by
      cases chat.kind with
      | dm => rw [idsOf, idsOf, hdm]
      | group => cases hg : s.group <;> simp [idsOf, hgroup, hg, (hF _).2]
    rw [hids]
    exact (h.last chat i hlast).due hload id (hdue ▸ hid)

/-- An answer to the conversation that was opened last. -/
theorem Right.answered (h : s.Right) {chat : ChatId} {i j : ℕ} {before load : ChatLoad}
    (hi : s.loads[i]? = some before) (hload : ∀ c, load.chat = some c → s.chatOf i = some c)
    (hlast : s.opened = some (chat, j))
    (hdms : ∀ c, t.dm = some c → IsRecord c.chat c.messages)
    (hgroups : ∀ g, t.group = some g → IsRecord g.chat g.messages)
    (halone : chat.kind = .dm → t.group = s.group) (hheld : t.holds chat.kind = some chat)
    (hloads : t.loads = s.loads.set i load) (hopened : t.opened = s.opened) (hsound : t.broken = s.broken)
    (hdue : t.loads[j]? = some .ended → ∀ id ∈ t.due, id ∈ t.idsOf chat.kind) : t.Right := by
  have hshows := h.last chat j hlast
  refine .of_opened (hsound.trans h.sound) (hopened.trans hlast) hdms hgroups
    ⟨hloads ▸ hshows.load_set hi hload, fun hk => (halone hk).trans (hshows.alone hk), fun _ => hheld, hdue⟩

theorem right_start : start.Right where
  sound := rfl
  dms _ hc := nomatch hc
  groups _ hg := nomatch hg
  last _ _ h := nomatch h
  closed _ := rfl

/-- A history is answered. -/
theorem Right.history (h : s.Right) {i : ℕ} {rows : List ChatMessage}
    (horderly : s.Orderly me (.history i (some rows))) {before : ChatLoad} {chat : ChatId}
    (hi : s.loads[i]? = some before) (hchat : before.chat = some chat) (hrows : isHistory chat rows = true)
    (hdms : ∀ c, t.dm = some c → c.chat = chat ∧ c.messages = rows ∨ s.dm = some c)
    (hgroups : ∀ g, t.group = some g → g.chat = chat ∧ g.messages = rows ∨ s.group = some g)
    (hbehind : s.isBehind i = true → t.Right) (halone : chat.kind = .dm → t.group = s.group)
    (hheld : t.holds chat.kind = some chat) (hids : t.idsOf chat.kind = messageIds rows)
    (hloads : t.loads = s.loads.set i .ended) (hopened : t.opened = s.opened) (hsound : t.broken = s.broken)
    (hdue : t.due = if s.opened = some (chat, i) then messageIds rows ++ s.due else s.due) : t.Right := by
  have hrecord := IsRecord.of_isHistory hrows
  have hof : s.chatOf i = some chat := by rw [chatOf, hi, Option.bind_some, hchat]
  obtain hback | ⟨hlast, hcover⟩ := horderly
  · exact hbehind hback
  rw [hof] at hlast
  obtain ⟨⟨chat', j⟩, hopen, hfirst⟩ := Option.map_eq_some_iff.mp hlast
  obtain rfl : chat' = chat := hfirst
  refine h.answered hi (by simp [ChatLoad.chat]) hopen (fun c hc => ?_) (fun g hg => ?_) halone hheld hloads hopened
    hsound fun hend id hid => ?_
  · rcases hdms c hc with ⟨rfl, rfl⟩ | hc
    · exact hrecord
    · exact h.dms c hc
  · rcases hgroups g hg with ⟨rfl, rfl⟩ | hg
    · exact hrecord
    · exact h.groups g hg
  · rw [hids]
    rw [hdue] at hid
    by_cases hij : i = j
    · subst hij
      rw [if_pos hopen, List.mem_append] at hid
      rcases hid with hid | hid
      · exact hid
      · rcases hcover with hcover | ⟨-, hne⟩
        · exact hcover id hid
        · simp [hopen] at hne
    · rw [hloads, List.getElem?_set_ne hij] at hend
      rw [if_neg (by simp [hopen, Ne.symm hij])] at hid
      rcases hcover with hcover | ⟨hsettled, -⟩
      · exact hcover id hid
      · simp [settled_eq_true hopen hend] at hsettled

/-- A change that the ref decides on. -/
theorem Right.regrouped_if (h : s.Right) {F : OpenGroup → OpenGroup} (hF : KeepsMessages F) {refers broken : Bool}
    (hsound : broken = false) :
    Right { s with group := if refers then s.group.map F else s.group, broken := broken } := by
  cases refers with
  | true => exact h.regrouped hF hsound rfl rfl rfl rfl rfl
  | false =>
    exact h.regrouped (F := fun g => g) (fun _ => ⟨rfl, rfl⟩) hsound rfl (by simp) rfl rfl rfl

theorem sound_of_holds {id : Text} (h : s.refersTo id = true → s.holds .group = some (.group id)) :
    (s.refersTo id && s.group.isNone) = false := by
  cases href : s.refersTo id with
  | false => rfl
  | true =>
    obtain ⟨g, hg, -⟩ := Option.map_eq_some_iff.mp (h href)
    simp [hg]

/-- A group that was opened last is open. -/
theorem ShowsLast.held_group {chat : ChatId} {i : ℕ} (h : s.ShowsLast chat i) (hk : chat.kind = .group) :
    s.holds .group = some chat := by
  refine hk ▸ h.held fun user hu => ?_
  obtain ⟨load, hload, hown⟩ := h.load
  obtain rfl := Option.some.inj (hload.symm.trans hu)
  rw [← hown _ rfl] at hk
  cases hk

/-- The user has been removed from a group. -/
theorem Right.left (h : s.Right) {id : Text}
    (horderly : s.holds .group = some (.group id) ∨ s.holds .group = none) :
    Right { s with group := none, opened := s.opened.filter (·.1 ≠ .group id) } := by
  refine ⟨h.sound, h.dms, nofun, fun chat i hlast => ?_, fun _ => rfl⟩
  obtain ⟨hlast, hne⟩ := Option.filter_eq_some_iff.mp hlast
  have hne : chat ≠ .group id := of_decide_eq_true hne
  have hshows := h.last chat i hlast
  have hk : chat.kind = .dm := by
    cases hk : chat.kind with
    | dm => rfl
    | group =>
      have hheld := hshows.held_group hk
      rcases horderly with horderly | horderly
      · exact absurd (Option.some.inj (hheld.symm.trans horderly)) hne
      · exact nomatch hheld.symm.trans horderly
  refine ⟨hshows.load, fun _ => rfl, fun hlook => ?_, fun hend => ?_⟩
  · have hheld := hshows.held hlook
    rw [hk] at hheld ⊢
    exact hheld
  · have hdue := hshows.due hend
    rw [hk] at hdue ⊢
    exact hdue

/-- A message is appended to open conversations that it is of. -/
theorem Right.received (h : s.Right) (m : ChatMessage) {f : OpenDm → OpenDm} {F : OpenGroup → OpenGroup}
    (hf : ∀ c, s.dm = some c → f c = c ∨ f c = c.append m ∧ m.chat = c.chat)
    (hF : ∀ g, s.group = some g → F g = g ∨ F g = g.append m ∧ m.chat = g.chat)
    (hnew : ∀ i, s.opened = some (m.chat, i) → s.loads[i]? = some .ended →
      (∀ c, s.dm = some c → c.chat = m.chat → f c = c.append m) ∧
        ∀ g, s.group = some g → g.chat = m.chat → F g = g.append m) :
    Right { s with dm := s.dm.map f, group := s.group.map F, due := s.dueIn m.chat [m.id] } := by
  refine h.updated (f := f) (F := F) (fun c hc => ?_) (fun g hg => ?_) h.sound rfl rfl rfl rfl
    fun chat i hlast hend hheld id hid => ?_
  · rcases hf c hc with heq | ⟨heq, hm⟩ <;> rw [heq]
    · exact ⟨rfl, h.dms c hc⟩
    · exact ⟨rfl, (h.dms c hc).append hm⟩
  · rcases hF g hg with heq | ⟨heq, hm⟩ <;> rw [heq]
    · exact ⟨rfl, h.groups g hg⟩
    · exact ⟨rfl, (h.groups g hg).append hm⟩
  -- What was due is there still, and the message is there if it is due.
  have hold : ∀ id ∈ s.idsOf chat.kind,
      id ∈ idsOf { s with dm := s.dm.map f, group := s.group.map F, due := s.dueIn m.chat [m.id] } chat.kind := by
    intro id hid
    cases hk : chat.kind with
    | dm =>
      cases hc : s.dm with
      | none => simp [idsOf, hk, hc] at hid
      | some c =>
        have hid : id ∈ messageIds c.messages := by simpa [idsOf, hk, hc] using hid
        rcases hf c hc with heq | ⟨heq, -⟩
        · simpa [idsOf, hc, heq] using hid
        · simpa [idsOf, hc, heq, OpenDm.append] using (mem_appendMessage c.messages m).2 id hid
    | group =>
      cases hg : s.group with
      | none => simp [idsOf, hk, hg] at hid
      | some g =>
        have hid : id ∈ messageIds g.messages := by simpa [idsOf, hk, hg] using hid
        rcases hF g hg with heq | ⟨heq, -⟩
        · simpa [idsOf, hg, heq] using hid
        · simpa [idsOf, hg, heq, OpenGroup.append] using (mem_appendMessage g.messages m).2 id hid
  have hid : id ∈ s.dueIn m.chat [m.id] := hid
  rw [dueIn] at hid
  split at hid
  · next hmine =>
    have hmine : chat = m.chat := by simpa [hlast] using hmine
    subst hmine
    rcases List.mem_cons.mp hid with rfl | hid
    · obtain ⟨hdm, hgroup⟩ := hnew i hlast hend
      cases hk : m.chat.kind with
      | dm =>
        rw [hk, holds, Option.map_eq_some_iff] at hheld
        obtain ⟨c, hc, hchat⟩ := hheld
        simpa [idsOf, hc, hdm c hc hchat, OpenDm.append] using (mem_appendMessage c.messages m).1
      | group =>
        rw [hk, holds, Option.map_eq_some_iff] at hheld
        obtain ⟨g, hg, hchat⟩ := hheld
        simpa [idsOf, hg, hgroup g hg hchat, OpenGroup.append] using (mem_appendMessage g.messages m).1
    · exact hold id ((h.last _ i hlast).due hend id hid)
  · exact hold id ((h.last chat i hlast).due hend id hid)

theorem right_open (h : s.Right) {chat : ChatId} {load : ChatLoad} {dm : Option OpenDm} {group : Option OpenGroup}
    (hload : load.chat = some chat) (hdm : dm = s.dm ∨ ∀ c, dm = some c → c.messages = [])
    (hgroup : ∀ g, group = some g → g.messages = []) (halone : chat.kind = .dm → group = none)
    (hheld : (∀ user, load ≠ .lookup user) →
      holds { s with dm := dm, group := group } chat.kind = some chat) :
    Right { s with
      dm := dm, group := group, loads := s.loads ++ [load], opened := some (chat, s.loads.length), due := [] } := by
  refine .of_opened h.sound rfl (fun c hc => ?_) (fun g hg => ?_) ⟨⟨load, by simp, fun c hc => ?_⟩, halone,
    fun hlook => hheld fun user hu => hlook user (by simp [hu]), fun _ id hid => nomatch hid⟩
  · rcases hdm with rfl | hdm
    · exact h.dms c hc
    · rw [hdm c hc]
      exact .nil _
  · rw [hgroup g hg]
    exact .nil _
  · exact Option.some.inj (hc.symm.trans hload)

theorem right_step (h : s.Right) (horderly : s.Orderly me a) (hstep : s.step me a = some t) : t.Right := by
  rw [step, h.sound, if_neg Bool.false_ne_true] at hstep
  cases a with
  | openDm user =>
    obtain rfl := Option.some.inj hstep
    by_cases hkey : user.contact.encryptionPublicKey.isEmpty = true
    · simp only [hkey, if_true]
      exact right_open h rfl (.inl rfl) nofun (fun _ => rfl) fun hlook => absurd rfl (hlook user)
    · simp only [hkey]
      exact right_open h rfl (.inr fun c hc => by obtain rfl := Option.some.inj hc; rfl) nofun (fun _ => rfl)
        fun _ => rfl
  | openGroup channel =>
    obtain rfl := Option.some.inj hstep
    exact right_open h rfl (.inr nofun) (fun g hg => by obtain rfl := Option.some.inj hg; rfl) nofun fun _ => rfl
  | back =>
    obtain rfl := Option.some.inj hstep
    exact ⟨h.sound, nofun, nofun, nofun, fun _ => rfl⟩
  | lookup i found =>
    rw [take] at hstep
    split at hstep
    · next user hi =>
      rw [Option.ite_none_right_eq_some] at hstep
      obtain ⟨hfound, hstep⟩ := hstep
      obtain rfl := Option.some.inj hstep
      have hof : s.chatOf i = some user.chat := by rw [chatOf, hi]; rfl
      have hchat : (found.getD user).chat = user.chat := by
        cases found with
        | none => rfl
        | some u => simpa using hfound
      have hload : ∀ c, (ChatLoad.dmHistory (found.getD user)).chat = some c → s.chatOf i = some c :=
        fun c hc => by rw [hof, ← hc, ChatLoad.chat, hchat]
      rcases horderly with hback | ⟨hlast, hsettled⟩
      · exact h.behind hi hload hback (.nil _) rfl rfl rfl rfl rfl rfl
      · rw [hof] at hlast
        obtain ⟨⟨chat, j⟩, hopen, hfirst⟩ := Option.map_eq_some_iff.mp hlast
        obtain rfl : chat = user.chat := hfirst
        refine h.answered hi hload hopen (fun c hc => ?_) h.groups (fun _ => rfl) ?_ rfl rfl rfl fun hend => ?_
        · obtain rfl := Option.some.inj hc
          exact .nil _
        · exact congrArg some hchat
        · have hlen := (List.getElem?_eq_some_iff.mp hi).1
          by_cases hij : i = j
          · subst hij
            simp [List.getElem?_set_self hlen] at hend
          · rw [List.getElem?_set_ne hij] at hend
            simp [settled_eq_true hopen hend] at hsettled
    · cases hstep
  | details i found =>
    rw [take] at hstep
    split at hstep
    · next channel hi =>
      rw [Option.ite_none_right_eq_some] at hstep
      obtain ⟨hfound, hstep⟩ := hstep
      obtain rfl := Option.some.inj hstep
      refine h.waited hi (fun c hc => ?_) nofun nofun
      have hid : (found.getD channel).id = channel.id := by
        cases found with
        | none => rfl
        | some found => simpa using hfound
      rw [chatOf, hi, ← hc, ChatLoad.chat, Channel.chat, hid]
      rfl
    · cases hstep
  | history i rows =>
    cases rows with
    | none =>
      rw [take] at hstep
      split at hstep
      · next user hi =>
        obtain rfl := Option.some.inj hstep
        exact h.waited hi (by simp [ChatLoad.chat]) nofun fun _ chat hlast =>
          horderly (chat, i) (by simp [hlast]) rfl
      · next channel hi =>
        obtain rfl := Option.some.inj hstep
        exact h.waited hi (by simp [ChatLoad.chat]) nofun fun _ chat hlast =>
          horderly (chat, i) (by simp [hlast]) rfl
      · cases hstep
    | some rows =>
      rw [take] at hstep
      split at hstep
      · next user hi =>
        rw [Option.ite_none_right_eq_some] at hstep
        obtain ⟨hrows, hstep⟩ := hstep
        obtain rfl := Option.some.inj hstep
        refine h.history horderly hi rfl hrows (fun c hc => .inl ?_) (fun g hg => .inr hg) (fun hback => ?_)
          (fun _ => rfl) rfl rfl rfl rfl rfl rfl
        · obtain rfl := Option.some.inj hc
          exact ⟨rfl, rfl⟩
        · refine h.behind (c := ⟨user, rows⟩) hi (by simp [ChatLoad.chat]) hback (.of_isHistory hrows) rfl rfl rfl
            rfl (if_neg ?_) rfl
          intro hlast
          rw [isBehind, (h.last _ _ hlast).alone rfl] at hback
          simp at hback
      · next channel hi =>
        rw [Option.ite_none_right_eq_some] at hstep
        obtain ⟨hrows, hstep⟩ := hstep
        obtain rfl := Option.some.inj hstep
        refine h.history horderly hi rfl hrows (fun c hc => .inr hc) (fun g hg => .inl ?_) (fun hback => ?_)
          nofun rfl rfl rfl rfl rfl rfl
        · obtain rfl := Option.some.inj hg
          exact ⟨rfl, rfl⟩
        · have hof : s.chatOf i = some channel.chat := by rw [chatOf, hi]; rfl
          simp [isBehind, hof, Channel.chat, ChatId.kind] at hback
      · cases hstep
  | sent m =>
    rw [take] at hstep
    split at hstep
    · next address hm =>
      obtain rfl := Option.some.inj hstep
      have hmine : ∀ c, s.dm = some c → m.chat = c.chat := by
        intro c hc
        have hheld : s.holds .dm = none ∨ s.holds .dm = some m.chat := by
          simpa [Orderly, hm, ChatId.kind] using horderly
        simpa [holds, hc, eq_comm] using hheld
      simpa using h.received m (f := (·.append m)) (F := id) (fun c hc => .inr ⟨rfl, hmine c hc⟩)
        (fun _ _ => .inl rfl) fun _ _ _ => ⟨fun _ _ _ => rfl, fun g _ hchat =>
          absurd (hchat.trans hm) (g.chat_ne address)⟩
    · next id hm =>
      obtain rfl := Option.some.inj hstep
      have hmine : ∀ g, s.group = some g → m.chat = g.chat := by
        intro g hg
        have hheld : s.holds .group = none ∨ s.holds .group = some m.chat := by
          simpa [Orderly, hm, ChatId.kind] using horderly
        simpa [holds, hg, eq_comm] using hheld
      simpa using h.received m (f := fun c => c) (F := (·.append m)) (fun _ _ => .inl rfl)
        (fun g hg => .inr ⟨rfl, hmine g hg⟩) fun _ _ _ => ⟨fun c _ hchat =>
          absurd (hchat.trans hm) (c.chat_ne id), fun _ _ _ => rfl⟩
  | arrive m =>
    rw [take] at hstep
    split at hstep
    · next address hm =>
      obtain rfl := Option.some.inj hstep
      by_cases href : s.dmRef.any (·.chat = m.chat) = true
      · rw [if_pos href]
        simpa using h.received m (f := fun c => if c.chat = m.chat then c.append m else c) (F := id)
          (fun c _ => by by_cases hc : c.chat = m.chat <;> simp [hc]) (fun _ _ => .inl rfl)
          fun _ _ _ => ⟨fun c _ hchat => if_pos hchat, fun g _ hchat => absurd (hchat.trans hm) (g.chat_ne address)⟩
      · rw [if_neg href]
        have hseen : ∀ i, s.opened = some (m.chat, i) → s.loads[i]? = some .ended →
            s.dmRef.any (·.chat = m.chat) = true := by
          intro i hlast hend
          have hrefs := horderly (by rw [hlast]; rfl) (settled_eq_true hlast hend)
          have hrefs : s.dmRef.map (·.chat) = some m.chat := by simpa [refHolds, hm, ChatId.kind] using hrefs
          obtain ⟨c, hc, hchat⟩ := Option.map_eq_some_iff.mp hrefs
          simp [hc, hchat]
        simpa using h.received m (f := fun c => c) (F := fun g => g) (fun _ _ => .inl rfl) (fun _ _ => .inl rfl)
          fun i hlast hend => absurd (hseen i hlast hend) href
    · next id hm =>
      obtain rfl := Option.some.inj hstep
      by_cases href : s.refersTo id = true
      · rw [if_pos href]
        simpa using h.received m (f := fun c => c) (F := (·.patch id (·.append m))) (fun _ _ => .inl rfl)
          (fun g _ => by
            by_cases hg : g.channel.id = id
            · exact .inr ⟨if_pos hg, by rw [hm, OpenGroup.chat, Channel.chat, hg]⟩
            · exact .inl (if_neg hg))
          fun _ _ _ => ⟨fun c _ hchat => absurd (hchat.trans hm) (c.chat_ne id), fun g _ hchat =>
            if_pos (ChatId.group.inj (hchat.trans hm))⟩
      · rw [if_neg href]
        have hseen : ∀ i, s.opened = some (m.chat, i) → s.loads[i]? = some .ended → s.refersTo id = true := by
          intro i hlast hend
          have hrefs := horderly (by rw [hlast]; rfl) (settled_eq_true hlast hend)
          have hrefs : s.groupRef.map (·.chat) = some m.chat := by simpa [refHolds, hm, ChatId.kind] using hrefs
          obtain ⟨g, hg, hchat⟩ := Option.map_eq_some_iff.mp hrefs
          have hid : g.channel.id = id := ChatId.group.inj (hchat.trans hm)
          simp [refersTo, hg, hid]
        simpa using h.received m (f := fun c => c) (F := fun g => g) (fun _ _ => .inl rfl) (fun _ _ => .inl rfl)
          fun i hlast hend => absurd (hseen i hlast hend) href
  | partner record =>
    obtain rfl := Option.some.inj hstep
    refine h.updated (f := (·.applyPartner record)) (F := id)
      (fun c hc => ⟨c.applyPartner_chat record, c.applyPartner_messages record ▸ h.dms c hc⟩)
      (fun g hg => ⟨rfl, h.groups g hg⟩) h.sound rfl (by rw [Option.map_id, id]) rfl rfl
      fun chat i hlast hend _ id hid => ?_
    have hids := (h.last chat i hlast).due hend id hid
    cases hk : chat.kind with
    | dm =>
      rw [hk] at hids
      rw [idsOf, Option.map_map]
      simpa only [idsOf, Function.comp_def, OpenDm.applyPartner_messages] using hids
    | group => rwa [hk] at hids
  | memberAdded id row =>
    obtain rfl := Option.some.inj hstep
    exact h.regrouped_if ((keepsMessages_addMember row.ofEvent).patch id) h.sound
  | memberUpdated id address role =>
    obtain rfl := Option.some.inj hstep
    exact h.regrouped_if (KeepsMessages.patch (F := (·.updateMember address role)) (fun _ => ⟨rfl, rfl⟩) id) h.sound
  | groupUpdated id name =>
    obtain rfl := Option.some.inj hstep
    exact h.regrouped_if (F := (·.rename name)) (fun _ => ⟨rfl, rfl⟩) (sound_of_holds horderly)
  | memberRemoved id address =>
    rw [take] at hstep
    split at hstep
    · next hme =>
      split at hstep
      · next href =>
        obtain rfl := Option.some.inj hstep
        exact h.left ((horderly href).imp_right And.right)
      · obtain rfl := Option.some.inj hstep
        exact h
    · next hme =>
      obtain rfl := Option.some.inj hstep
      exact h.regrouped_if (F := (·.removeMember address)) (fun _ => ⟨rfl, rfl⟩)
        (sound_of_holds fun href => (horderly href).resolve_right fun h => hme h.1)
  | addGroupMember id row =>
    obtain rfl := Option.some.inj hstep
    exact h.regrouped ((keepsMessages_addMember row).patch id) h.sound rfl rfl rfl rfl rfl
  | removeGroupMember id userAddress =>
    obtain rfl := Option.some.inj hstep
    exact h.regrouped (KeepsMessages.patch (F := (·.removeMember (toLowerCase userAddress))) (fun _ => ⟨rfl, rfl⟩) id)
      h.sound rfl rfl rfl rfl rfl
  | renameGroup id name displayName =>
    obtain rfl := Option.some.inj hstep
    exact h.regrouped (KeepsMessages.patch (F := (·.entitle name displayName)) (fun _ => ⟨rfl, rfl⟩) id)
      h.sound rfl rfl rfl rfl rfl
  | commit =>
    obtain rfl := Option.some.inj hstep
    exact ⟨h.sound, h.dms, h.groups, fun chat i hlast => ⟨(h.last chat i hlast).load, (h.last chat i hlast).alone,
      (h.last chat i hlast).held, (h.last chat i hlast).due⟩, h.closed⟩

/-! ## What is shown -/

theorem shown_eq (h : s.Right) :
    (∀ g, s.group = some g → s.shown = some (.group g)) ∧ (s.group = none → s.shown = s.dm.map .dm) := by
  refine ⟨fun g hg => ?_, fun hg => ?_⟩ <;> simp [shown, h.sound, hg]

theorem shown_congr (hbroken : t.broken = s.broken) (hgroup : t.group = s.group)
    (hdm : s.group = none → t.dm = s.dm) : t.shown = s.shown := by
  rw [shown, shown, hbroken, hgroup]
  cases hg : s.group with
  | none => rw [hdm hg]
  | some g => rfl

theorem map_eq_self {α : Type} {o : Option α} {f : α → α} (h : ∀ x, o = some x → f x = x) : o.map f = o :=
  (Option.map_congr h).trans Option.map_id'

/-- A step about another conversation than the one that is shown, and not about the one that was opened last. -/
theorem Right.shown_of_other (h : s.Right) (horderly : s.Orderly me a) (hstep : s.step me a = some t) {chat : ChatId}
    (hchat : a.chat s.loads = some chat) (hother : ∀ x, s.shown = some x → x.chat ≠ chat)
    (hlast : s.opened.map (·.1) ≠ some chat) : t.shown = s.shown := by
  rw [step, h.sound, if_neg Bool.false_ne_true] at hstep
  have hgroup : ∀ g, s.group = some g → g.chat ≠ chat := fun g hg => hother _ ((shown_eq h).1 g hg)
  have hdm : s.group = none → ∀ c, s.dm = some c → c.chat ≠ chat :=
    fun hg c hc => hother (.dm c) (by rw [(shown_eq h).2 hg, hc]; rfl)
  have hpatch : ∀ id, some chat = some (.group id) → ∀ F : OpenGroup → OpenGroup,
      s.group.map (·.patch id F) = s.group := by
    intro id hid F
    exact map_eq_self fun g hg => g.patch_of_ne (fun hg' => hgroup g hg (hg'.trans (Option.some.inj hid).symm)) F
  have hrefers : ∀ id, some chat = some (.group id) →
      (s.refersTo id = true → s.holds .group = some (.group id)) → s.refersTo id = false := by
    intro id hid href
    by_contra hr
    obtain ⟨g, hg, hgid⟩ := Option.map_eq_some_iff.mp (href (Bool.not_eq_false _ ▸ hr))
    exact hgroup g hg (hgid.trans (Option.some.inj hid).symm)
  have hanswer : ∀ i, s.chatOf i = some chat → (s.isBehind i = true ∨ s.opened.map (·.1) = s.chatOf i) →
      s.group ≠ none ∧ chat.kind = .dm := by
    intro i hi hturn
    rcases hturn with hback | hopen
    · rw [isBehind, Bool.and_eq_true, hi] at hback
      exact ⟨Option.isSome_iff_ne_none.mp hback.2, of_decide_eq_true hback.1⟩
    · exact absurd (hopen.trans hi) hlast
  cases a with
  | openDm | openGroup | back | commit => exact nomatch hchat
  | lookup i found =>
    have hbehind := hanswer i hchat (horderly.imp_right And.left)
    rw [take] at hstep
    split at hstep
    · rw [Option.ite_none_right_eq_some] at hstep
      obtain rfl := Option.some.inj hstep.2
      exact shown_congr rfl rfl fun hg => absurd hg hbehind.1
    · cases hstep
  | details i found =>
    rw [take] at hstep
    split at hstep
    · rw [Option.ite_none_right_eq_some] at hstep
      obtain rfl := Option.some.inj hstep.2
      exact shown_congr rfl rfl fun _ => rfl
    · cases hstep
  | history i rows =>
    cases rows with
    | none =>
      rw [take] at hstep
      split at hstep
      · obtain rfl := Option.some.inj hstep
        exact shown_congr rfl rfl fun _ => rfl
      · obtain rfl := Option.some.inj hstep
        exact shown_congr rfl rfl fun _ => rfl
      · cases hstep
    | some rows =>
      have hbehind := hanswer i hchat (horderly.imp_right And.left)
      rw [take] at hstep
      split at hstep
      · rw [Option.ite_none_right_eq_some] at hstep
        obtain rfl := Option.some.inj hstep.2
        exact shown_congr rfl rfl fun hg => absurd hg hbehind.1
      · next channel hi =>
        have hkind := hbehind.2
        rw [PanelAction.chat, hi] at hchat
        rw [← Option.some.inj hchat] at hkind
        cases hkind
      · cases hstep
  | sent m =>
    obtain rfl : m.chat = chat := Option.some.inj hchat
    rw [take] at hstep
    split at hstep
    · next address hm =>
      obtain rfl := Option.some.inj hstep
      refine shown_congr rfl rfl fun hg => ?_
      have hheld : s.holds .dm = none ∨ s.holds .dm = some m.chat := by
        simpa [Orderly, hm, ChatId.kind] using horderly
      cases hc : s.dm with
      | none => rfl
      | some c => exact absurd (by simpa [holds, hc] using hheld) (hdm hg c hc)
    · next id hm =>
      obtain rfl := Option.some.inj hstep
      have hheld : s.holds .group = none ∨ s.holds .group = some m.chat := by
        simpa [Orderly, hm, ChatId.kind] using horderly
      refine shown_congr rfl ?_ fun _ => rfl
      cases hg : s.group with
      | none => simp
      | some g => exact absurd (by simpa [holds, hg] using hheld) (hgroup g hg)
  | arrive m =>
    obtain rfl : m.chat = chat := Option.some.inj hchat
    rw [take] at hstep
    split at hstep
    · next address hm =>
      obtain rfl := Option.some.inj hstep
      refine shown_congr rfl rfl fun hg => ?_
      simp only
      rw [map_eq_self fun c hc => if_neg (hdm hg c hc), ite_self]
    · next id hm =>
      obtain rfl := Option.some.inj hstep
      refine shown_congr rfl ?_ fun _ => rfl
      simp only
      rw [hpatch id (congrArg some hm), ite_self]
  | partner record =>
    obtain rfl := Option.some.inj hstep
    refine shown_congr rfl rfl fun hg => map_eq_self fun c hc => c.applyPartner_of_ne fun heq => ?_
    exact hdm hg c hc (heq.trans (Option.some.inj hchat))
  | memberAdded id row =>
    obtain rfl := Option.some.inj hstep
    refine shown_congr rfl ?_ fun _ => rfl
    simp only
    rw [hpatch id hchat.symm, ite_self]
  | memberUpdated id address role =>
    obtain rfl := Option.some.inj hstep
    refine shown_congr rfl ?_ fun _ => rfl
    simp only
    rw [hpatch id hchat.symm, ite_self]
  | groupUpdated id name =>
    obtain rfl := Option.some.inj hstep
    have href := hrefers id hchat.symm horderly
    exact shown_congr (by simp [href, h.sound]) (by simp [href]) fun _ => rfl
  | memberRemoved id address =>
    rw [take] at hstep
    split at hstep
    · split at hstep
      · next href =>
        obtain rfl := Option.some.inj hstep
        rcases horderly href with hheld | ⟨-, hnone⟩
        · exact absurd (hrefers id hchat.symm fun _ => hheld) (by simp [href])
        · exact shown_congr rfl (Option.map_eq_none_iff.mp hnone).symm fun _ => rfl
      · obtain rfl := Option.some.inj hstep
        rfl
    · next hme =>
      obtain rfl := Option.some.inj hstep
      have href := hrefers id hchat.symm fun href => (horderly href).resolve_right fun h => hme h.1
      exact shown_congr (by simp [href, h.sound]) (by simp [href]) fun _ => rfl
  | addGroupMember id row =>
    obtain rfl := Option.some.inj hstep
    exact shown_congr rfl (hpatch id hchat.symm _) fun _ => rfl
  | removeGroupMember id userAddress =>
    obtain rfl := Option.some.inj hstep
    exact shown_congr rfl (hpatch id hchat.symm _) fun _ => rfl
  | renameGroup id name displayName =>
    obtain rfl := Option.some.inj hstep
    exact shown_congr rfl (hpatch id hchat.symm _) fun _ => rfl

end Panel

/-- Where every answer, send and event comes in its turn, the conversation that was opened last is shown once it is
answered, with its messages, and no other conversation changes it. -/
theorem shown_conversation {me : Text} {actions : List PanelAction} {s : Panel}
    (h : Run (restrict (Panel.Orderly me) (ofPartial (Panel.step me))) .start actions s) :
    (∀ o, s.opened = some o → s.settled = true →
        ∃ x, s.shown = some x ∧ x.chat = o.1 ∧ ∀ id ∈ s.due, id ∈ messageIds x.messages) ∧
      (∀ x, s.shown = some x → (∀ m ∈ x.messages, m.chat = x.chat) ∧ (messageIds x.messages).Nodup) ∧
      ∀ a t chat, s.Orderly me a → s.step me a = some t → a.chat s.loads = some chat →
        (∀ x, s.shown = some x → x.chat ≠ chat) → s.opened.map (·.1) ≠ some chat → t.shown = s.shown := by
  have hright : s.Right := h.invariant (fun _ _ _ hs hst => Panel.right_step hs hst.1 hst.2) Panel.right_start
  obtain ⟨hgroup, hdm⟩ := Panel.shown_eq hright
  refine ⟨fun o hopen hsettled => ?_, fun x hx => ?_,
    fun a t chat horderly hstep => hright.shown_of_other horderly hstep⟩
  · obtain ⟨chat, i⟩ := o
    have hshows := hright.last chat i hopen
    have hend : s.loads[i]? = some .ended := by
      obtain ⟨load, hload, -⟩ := hshows.load
      rw [Panel.settled, hopen] at hsettled
      cases load <;> simp [hload, ChatLoad.isEnded] at hsettled ⊢
    have hheld := hshows.held (by simp [hend])
    have hdue := hshows.due hend
    cases hk : chat.kind with
    | dm =>
      rw [hk, Panel.holds, Option.map_eq_some_iff] at hheld
      obtain ⟨c, hc, hchat⟩ := hheld
      refine ⟨.dm c, by rw [hdm (hshows.alone hk), hc]; rfl, hchat, fun id hid => ?_⟩
      simpa [hk, Panel.idsOf, hc, ShownChat.messages] using hdue id hid
    | group =>
      rw [hk, Panel.holds, Option.map_eq_some_iff] at hheld
      obtain ⟨g, hg, hchat⟩ := hheld
      refine ⟨.group g, hgroup g hg, hchat, fun id hid => ?_⟩
      simpa [hk, Panel.idsOf, hg, ShownChat.messages] using hdue id hid
  · cases hg : s.group with
    | some g =>
      obtain rfl := Option.some.inj ((hgroup g hg).symm.trans hx)
      exact ⟨(hright.groups g hg).own, (hright.groups g hg).nodup⟩
    | none =>
      rw [hdm hg, Option.map_eq_some_iff] at hx
      obtain ⟨c, hc, rfl⟩ := hx
      exact ⟨(hright.dms c hc).own, (hright.dms c hc).nodup⟩

/-! ## An answer overtaken -/

section sample

def uniformText (c : Char) : Text := List.replicate 96 (.char c)

def partnerAt (address : Text) (h : isHexOfLength 96 address = true) : PartnerRecord :=
  ⟨⟨address, lit "f", [], []⟩, [], h, rfl⟩

def partnerB : PartnerRecord := partnerAt (uniformText 'b') (by decide)

def partnerC : PartnerRecord := partnerAt (uniformText 'c') (by decide)

/-- A message is sent in a direct chat, and a group is opened while one is delivered in it. -/
def inTurn : List PanelAction :=
  [.openDm partnerB, .commit, .history 0 (some [⟨1, partnerB.chat⟩]), .sent ⟨2, partnerB.chat⟩,
    .openGroup ⟨lit "g", [], none, [], ⟨[], List.nodup_nil⟩⟩, .commit, .arrive ⟨3, .group (lit "g")⟩, .details 1 none,
    .history 1 (some [⟨3, .group (lit "g")⟩])]

def afterTurns : Panel :=
  after (fun s a => if decide (s.Orderly (lit "a") a) = true then s.step (lit "a") a else none) inTurn .start

theorem shown_conversation_sample :
    (∀ o, afterTurns.opened = some o → afterTurns.settled = true →
        ∃ x, afterTurns.shown = some x ∧ x.chat = o.1 ∧ ∀ id ∈ afterTurns.due, id ∈ messageIds x.messages) ∧
      (∀ x, afterTurns.shown = some x →
        (∀ m ∈ x.messages, m.chat = x.chat) ∧ (messageIds x.messages).Nodup) ∧
      ∀ a t chat, afterTurns.Orderly (lit "a") a → afterTurns.step (lit "a") a = some t →
        a.chat afterTurns.loads = some chat → (∀ x, afterTurns.shown = some x → x.chat ≠ chat) →
          afterTurns.opened.map (·.1) ≠ some chat → t.shown = afterTurns.shown :=
  shown_conversation (Run.restrict_after (fun _ _ => of_decide_eq_true) (by decide +kernel))

/-- The history of the chat that was opened first comes last. -/
def overtaken : List PanelAction :=
  [.openDm partnerB, .openDm partnerC, .commit, .history 1 (some [⟨2, partnerC.chat⟩]),
    .history 0 (some [⟨1, partnerB.chat⟩]), .commit]

def afterOvertaken : Panel := after (Panel.step (lit "a")) overtaken .start

theorem not_shown_conversation : ¬ ∀ (me : Text) (actions : List PanelAction) (s : Panel),
    Run (ofPartial (Panel.step me)) .start actions s → (∀ load ∈ s.loads, load.isEnded = true) →
      ∀ o, s.opened = some o → ∃ x, s.shown = some x ∧ x.chat = o.1 := by
  intro h
  have hrun : Run (ofPartial (Panel.step (lit "a"))) .start overtaken afterOvertaken :=
    Run.ofPartial_after (by decide +kernel)
  obtain ⟨x, hx, hchat⟩ := h (lit "a") overtaken afterOvertaken hrun (by decide +kernel)
    (partnerC.chat, 1) (by decide +kernel)
  have hshown : afterOvertaken.shown.map ShownChat.chat = some partnerB.chat := by decide +kernel
  rw [hx, Option.map_some, hchat] at hshown
  exact absurd hshown (by decide +kernel)

end sample

end Kryptolog.Client
