import Kryptolog.Extension.Turns

/-! # Every request is answered once

A message to the worker is in one place at most: with its own task, in the queue of the requests that
wait for approval, in the handler of one that was approved, or answered. No turn drops it, in the runs
in which a handler that is started on approval finds what it needs and stores what it saves.
-/

namespace Kryptolog.Extension
set_option autoImplicit false

open Script Runs Tasks
open Client (Kdf VaultKey)

variable {prim : ExtensionPrimitives}

/-! ## Where a message is -/

def Background.answers (c : Background) (owner : ℕ) : ℕ := c.responses.countP (·.1 == owner)

/-- The places where a message is, apart from its own task. -/
def Background.places (c : Background) (owner : ℕ) : ℕ :=
  c.pendingRequests.countP (·.owner == owner) + c.handling.countP (·.1.owner == owner) + c.answers owner

/-- What a task still does: it answers its own message, or it handles a request that was approved. -/
structure Role where
  owes : Bool
  handler : Option Pending

def After.role : After → Role
  | .respond _ | .setUp _ _ | .imported | .synced .unlock => ⟨true, none⟩
  | .synced .initialization => ⟨false, none⟩
  | .connected p | .rotated p _ _ _ _ => ⟨false, some p⟩

def Point.role : Point → Role
  | .arrived _ _ _ | .focusingPopup _ _ | .creatingPopup _ | .unlocking _ _ _ _ | .opened _ _
  | .persisted _ _ | .syncing .unlock _ _ _ | .clearing | .decryptingImport _ _ _ | .checkingHost _ _
  | .answering _ | .signing _ _ _ _ => ⟨true, none⟩
  | .rederiving after _ _ | .sealing after _ _ _ | .stored after _ | .adopting after _ | .saved after =>
    after.role
  | .signingApproved p _ _ | .revealing p _ _ | .attesting p _ _ _ => ⟨false, some p⟩
  | .focusing _ _ | .creating _ | .syncing .initialization _ _ _ | .restoring _ _ _ | .checkingIdle _
  | .done => ⟨false, none⟩

def Syncing.role : Syncing → Role
  | unlock => ⟨true, none⟩
  | initialization => ⟨false, none⟩

/-- The places of the message `k`, with the task `i` that takes a turn. -/
def Background.weight (c : Background) (i : ℕ) (a : Role) (k : ℕ) : ℕ :=
  c.places k + if k = i ∧ a.owes = true then 1 else 0

/-- A request is put at the end of the queue. -/
def Background.enqueue (c : Background) (p : Pending) : Background :=
  { c with pendingRequests := c.pendingRequests ++ [p] }

/-- The limits of the queue. -/
def Background.Limited (c : Background) : Prop :=
  c.pendingRequests.length ≤ maxPendingTotal ∧ ∀ origin, c.pendingForOrigin origin ≤ maxPendingPerOrigin

/-! ## Counting -/

theorem countP_filter_ne {α : Type} (f : α → ℕ) (L : List α) (o k : ℕ) :
    (L.filter fun x => f x != o).countP (fun x => f x == k) =
      if o = k then 0 else L.countP fun x => f x == k := by
  induction L with
  | nil => simp
  | cons x L ih =>
    by_cases hx : f x = o
    · simp only [List.filter_cons, List.countP_cons, hx, bne_self_eq_false, Bool.false_eq_true, if_false,
        ih, beq_iff_eq]
      split <;> simp
    · have hne : (f x != o) = true := by simpa using hx
      simp only [List.filter_cons, List.countP_cons, hne, if_true, ih, beq_iff_eq]
      split <;> split <;> omega

theorem places_respond (c : Background) (owner k : ℕ) (r : Response) :
    (c.respond owner r).places k = c.places k + if owner = k then 1 else 0 := by
  simp only [Background.places, Background.answers, Background.respond, List.countP_append,
    List.countP_singleton, beq_iff_eq]
  omega

theorem places_enqueue (c : Background) (p : Pending) (k : ℕ) :
    (c.enqueue p).places k = c.places k + if p.owner = k then 1 else 0 := by
  simp only [Background.places, Background.answers, Background.enqueue, List.countP_append,
    List.countP_singleton, beq_iff_eq]
  omega

theorem places_removePending (c : Background) (owner k : ℕ) :
    (c.removePending owner).places k + (if owner = k then c.pendingRequests.countP (·.owner == k) else 0) =
      c.places k := by
  have hcount := countP_filter_ne Pending.owner c.pendingRequests owner k
  simp only [Background.places, Background.answers, Background.removePending, hcount]
  split <;> omega

/-- The request is in the queue, and nowhere else. -/
theorem pending_once {c : Background} {owner : ℕ} {p : Pending} (h : c.pending owner = some p)
    (hc : c.places owner ≤ 1) : p.owner = owner ∧ c.pendingRequests.countP (·.owner == owner) = 1 := by
  have howner : p.owner = owner := by simpa using List.find?_some (p := fun q : Pending => q.owner == owner) h
  have hone : 1 ≤ c.pendingRequests.countP (·.owner == owner) :=
    List.countP_pos_iff.mpr ⟨p, List.mem_of_find?_eq_some h, by simpa using howner⟩
  refine ⟨howner, ?_⟩
  unfold Background.places at hc
  omega

/-- A request that leaves the queue for another place. -/
theorem places_moved {c : Background} {owner : ℕ} {p : Pending} (h : c.pending owner = some p)
    (hc : c.places owner ≤ 1) (k : ℕ) :
    (c.removePending p.owner).places k + (if p.owner = k then 1 else 0) = c.places k := by
  obtain ⟨rfl, hone⟩ := pending_once h hc
  have hremoved := places_removePending c p.owner k
  split at hremoved
  · next hk =>
    subst hk
    rw [if_pos rfl]
    omega
  · next hk =>
    rw [if_neg hk]
    omega

theorem places_reject {c : Background} {owner : ℕ} (hc : c.places owner ≤ 1) (error : Text) (k : ℕ) :
    (c.reject owner error).places k = c.places k := by
  unfold Background.reject
  split
  · rfl
  · next p hp =>
    rw [Background.fail, places_respond]
    exact places_moved hp hc k

theorem places_rejectAllApprovals (c : Background) (reason : Text) (k : ℕ) :
    (c.rejectAllApprovals reason).places k = c.places k := by
  have hcount : (c.pendingRequests.map fun p => (p.owner, Response.failed reason)).countP
      (fun x => x.1 == k) = c.pendingRequests.countP (·.owner == k) := by
    rw [List.countP_map]
    rfl
  simp only [Background.places, Background.answers, Background.rejectAllApprovals, List.countP_append,
    hcount, List.countP_nil]
  omega

theorem places_startHandler {c : Background} {owner : ℕ} {p : Pending} (hp : c.pending owner = some p)
    (hc : c.places owner ≤ 1) (by_ k : ℕ) : (c.startHandler p by_).places k = c.places k := by
  have hstarted : (c.startHandler p by_).places k =
      (c.removePending p.owner).places k + if p.owner = k then 1 else 0 := by
    simp only [Background.places, Background.answers, Background.startHandler, Background.removePending,
      List.countP_append, List.countP_singleton, beq_iff_eq]
    omega
  rw [hstarted]
  exact places_moved hp hc k

/-- What is left of the handlers when one ends. -/
theorem places_ended {c : Background} {p : Pending} {by_ : ℕ} (hp : (p, by_) ∈ c.handling)
    (hc : c.places p.owner ≤ 1) (k : ℕ) :
    (c.endHandler p by_ none).places k + (if p.owner = k then 1 else 0) = c.places k := by
  have hsplit := List.countP_eq_countP_filter_add c.handling (fun h => h.1.owner == k)
    fun h => h.1.owner != p.owner || h.2 != by_
  have hended : (c.endHandler p by_ none).places k = c.pendingRequests.countP (·.owner == k) +
      (c.handling.filter fun h => h.1.owner != p.owner || h.2 != by_).countP (·.1.owner == k) +
        c.answers k := rfl
  rw [hended]
  unfold Background.places at hc ⊢
  split
  · next hk =>
    subst hk
    have hhandled : 1 ≤ (c.handling.filter fun h => !(h.1.owner != p.owner || h.2 != by_)).countP
        (·.1.owner == p.owner) :=
      List.countP_pos_iff.mpr ⟨(p, by_), List.mem_filter.mpr ⟨hp, by simp⟩, by simp⟩
    omega
  · next hk =>
    have hnone : (c.handling.filter fun h => !(h.1.owner != p.owner || h.2 != by_)).countP
        (·.1.owner == k) = 0 := by
      rw [List.countP_eq_zero]
      intro h hh howner
      have hfiltered := (List.mem_filter.mp hh).2
      simp only [Bool.not_eq_true', Bool.or_eq_false_iff, bne_eq_false_iff_eq] at hfiltered
      exact hk (hfiltered.1.symm.trans (beq_iff_eq.mp howner))
    omega

/-! ## The limits -/

theorem Background.Limited.sublist {c d : Background} (h : c.Limited)
    (hsub : d.pendingRequests.Sublist c.pendingRequests) : d.Limited :=
  ⟨hsub.length_le.trans h.1, fun origin => ((hsub.filter _).length_le).trans (h.2 origin)⟩

/-- A request is put in the queue when there is room for it. -/
theorem Background.Limited.enqueue {c : Background} (h : c.Limited) {p : Pending}
    (htotal : c.pendingRequests.length < maxPendingTotal)
    (horigin : c.pendingForOrigin p.origin < maxPendingPerOrigin) :
    (c.enqueue p).Limited := by
  refine ⟨?_, fun origin => ?_⟩
  · simp only [Background.enqueue, List.length_append, List.length_singleton]
    omega
  · have hold := h.2 origin
    simp only [Background.pendingForOrigin, Background.enqueue, List.filter_append, List.length_append]
      at hold horigin ⊢
    by_cases hp : p.origin = origin
    · subst hp
      simp only [List.filter_singleton, beq_self_eq_true, cond_true, List.length_singleton]
      omega
    · have hne : (p.origin == origin) = false := by simpa using hp
      simp only [List.filter_singleton, hne, cond_false, List.length_nil]
      omega

/-! ## What a turn does -/

/-- The turn of the task `i`: no message gets into a second place, and where `strict` holds none is
dropped. The queue keeps its limits, and the handlers are those of their tasks. -/
structure Counted (strict : Prop) (i : ℕ) (c : Background) (a : Role) (d : Background) (b : Role) : Prop where
  atMost : ∀ k, d.weight i b k ≤ c.weight i a k
  exactly : strict → ∀ k, d.weight i b k = c.weight i a k
  limits : c.Limited → d.Limited
  handles : ∀ q, (q, i) ∈ d.handling ↔ b.handler = some q
  others : ∀ q j, j ≠ i → ((q, j) ∈ d.handling ↔ (q, j) ∈ c.handling)

/-- The queue, the handlers and the answers are as they were. -/
structure Still (c d : Background) : Prop where
  queue : d.pendingRequests = c.pendingRequests
  handling : d.handling = c.handling
  responses : d.responses = c.responses

theorem Still.refl (c : Background) : Still c c := ⟨rfl, rfl, rfl⟩

theorem Still.trans {c d e : Background} (h : Still c d) (h' : Still d e) : Still c e :=
  ⟨h'.queue.trans h.queue, h'.handling.trans h.handling, h'.responses.trans h.responses⟩

theorem Still.places {c d : Background} (h : Still c d) (k : ℕ) : d.places k = c.places k := by
  simp only [Background.places, Background.answers, h.queue, h.handling, h.responses]

theorem Counted.trans {strict : Prop} {i : ℕ} {c d e : Background} {a b r : Role} (h : Counted strict i c a d b)
    (h' : Counted strict i d b e r) : Counted strict i c a e r where
  atMost k := (h'.atMost k).trans (h.atMost k)
  exactly hs k := (h'.exactly hs k).trans (h.exactly hs k)
  limits hc := h'.limits (h.limits hc)
  handles := h'.handles
  others q j hj := (h'.others q j hj).trans (h.others q j hj)

section turn

variable {strict : Prop} {i : ℕ} {c d : Background} {a b : Role}

theorem Still.counted (h : Still c d) (hc : ∀ q, (q, i) ∈ c.handling ↔ a.handler = some q) (hab : b = a) :
    Counted strict i c a d b := by
  subst hab
  have hweight : ∀ k, d.weight i b k = c.weight i b k := by
    intro k
    rw [Background.weight, Background.weight, h.places]
  exact ⟨fun k => (hweight k).le, fun _ => hweight, fun hl => hl.sublist (h.queue ▸ .refl _),
    fun q => h.handling ▸ hc q, fun q j _ => h.handling ▸ Iff.rfl⟩

/-- The task answers its message. -/
theorem Still.answered (h : Still c d) (hc : ∀ q, (q, i) ∉ c.handling) (r : Response) :
    Counted strict i c ⟨true, none⟩ (d.respond i r) ⟨false, none⟩ := by
  have hweight : ∀ k, (d.respond i r).weight i ⟨false, none⟩ k = c.weight i ⟨true, none⟩ k := by
    intro k
    simp only [Background.weight, places_respond, h.places, Bool.false_eq_true, and_false, if_false, and_true,
      eq_comm (a := i)]
    omega
  refine ⟨fun k => (hweight k).le, fun _ => hweight, fun hl => hl.sublist (h.queue ▸ .refl _), fun q => ?_,
    fun q j _ => h.handling ▸ Iff.rfl⟩
  have hnone : (q, i) ∉ (d.respond i r).handling := h.handling ▸ hc q
  simp [hnone]

/-- A handler ends, with its response or without one. -/
theorem Still.ended (h : Still c d) {p : Pending} (hc : ∀ q, (q, i) ∈ c.handling ↔ some p = some q)
    (hplaces : c.places p.owner ≤ 1) (r : Option Response) (hr : strict → r.isSome = true) :
    Counted strict i c ⟨false, some p⟩ (d.endHandler p i r) ⟨false, none⟩ := by
  have hp : (p, i) ∈ d.handling := h.handling ▸ (hc p).mpr rfl
  have hended (k : ℕ) := places_ended hp ((h.places _).trans_le hplaces) k
  have hresponse : ∀ k, (d.endHandler p i r).places k =
      (d.endHandler p i none).places k + if r.isSome = true ∧ p.owner = k then 1 else 0 := by
    intro k
    cases r with
    | none => simp
    | some r =>
      simp only [Option.isSome_some, true_and]
      exact places_respond (d.endHandler p i none) p.owner k r
  have hhandling : (d.endHandler p i r).handling =
      d.handling.filter fun h => h.1.owner != p.owner || h.2 != i := by cases r <;> rfl
  have hqueue : (d.endHandler p i r).pendingRequests = d.pendingRequests := by cases r <;> rfl
  refine ⟨fun k => ?_, fun hs k => ?_, fun hl => hl.sublist (hqueue ▸ h.queue ▸ .refl _), fun q => ?_,
    fun q j hj => ?_⟩
  · have hk := hended k
    have hle : (if r.isSome = true ∧ p.owner = k then 1 else 0) ≤ if p.owner = k then 1 else 0 := by
      split
      · next hboth => rw [if_pos hboth.2]
      · exact Nat.zero_le _
    simp only [Background.weight, hresponse, ← h.places k, Bool.false_eq_true, and_false, if_false]
    omega
  · have hk := hended k
    simp only [Background.weight, hresponse, ← h.places k, hr hs, true_and, Bool.false_eq_true, and_false, if_false]
    omega
  · rw [hhandling, List.mem_filter, h.handling, hc]
    simp only [bne_self_eq_false, Bool.or_false, bne_iff_ne]
    constructor
    · rintro ⟨hq, hne⟩
      obtain rfl := Option.some.inj hq
      exact absurd rfl hne
    · intro hq
      cases hq
  · rw [hhandling, List.mem_filter, h.handling]
    simp [hj]

theorem counted_reject (hc : ∀ q, (q, i) ∈ c.handling ↔ a.handler = some q) {owner : ℕ}
    (hplaces : c.places owner ≤ 1) (error : Text) : Counted strict i c a (c.reject owner error) a := by
  have hweight : ∀ k, (c.reject owner error).weight i a k = c.weight i a k := by
    intro k
    rw [Background.weight, Background.weight, places_reject hplaces]
  have hhandling : (c.reject owner error).handling = c.handling := by
    unfold Background.reject
    split <;> rfl
  have hqueue : (c.reject owner error).pendingRequests.Sublist c.pendingRequests := by
    unfold Background.reject
    split
    · exact .refl _
    · exact List.filter_sublist
  exact ⟨fun k => (hweight k).le, fun _ => hweight, fun hl => hl.sublist hqueue, fun q => hhandling ▸ hc q,
    fun q j _ => hhandling ▸ Iff.rfl⟩

/-- An approved request is handed to its handler. -/
theorem counted_startHandler (hc : ∀ q, (q, i) ∉ c.handling) {owner : ℕ} {p : Pending}
    (hp : c.pending owner = some p) (hplaces : c.places owner ≤ 1) (r : Response) :
    Counted strict i c ⟨true, none⟩ ((c.startHandler p i).respond i r) ⟨false, some p⟩ := by
  have hweight : ∀ k, ((c.startHandler p i).respond i r).weight i ⟨false, some p⟩ k =
      c.weight i ⟨true, none⟩ k := by
    intro k
    simp only [Background.weight, places_respond, places_startHandler hp hplaces, Bool.false_eq_true, and_false,
      if_false, and_true, eq_comm (a := i)]
    omega
  refine ⟨fun k => (hweight k).le, fun _ => hweight, fun hl => hl.sublist List.filter_sublist, fun q => ?_,
    fun q j hj => ?_⟩
  · simp [Background.startHandler, Background.respond, Background.removePending, hc q, eq_comm (a := q)]
  · simp [Background.startHandler, Background.respond, Background.removePending, hj]

end turn

/-! ## The condition -/

/-- The handler of an approved request finds what it needs. -/
def handlerFinds (prim : ExtensionPrimitives) (c : Background) (p : Pending) : Bool :=
  match c.vault with
  | none => false
  | some v =>
    match p.approval with
    | .connect => c.vaultKey.isSome
    | .sign _ _ body => v.activeAccount.isNone || (messageText body).isSome
    | .decrypt data => v.activeAccount.all fun a => (encryptionSeedFor a data).isSome
    | .rotate shown ts fresh => v.activeAccount.all fun a => a.id != shown.id ||
      ((Client.rotateAccountEncryptionKey prim.suites fresh ts a).toOption.isSome && c.vaultKey.isSome)
    | _ => true

/-- Nothing is thrown in a handler on the next turn of the task. -/
def Point.catches (prim : ExtensionPrimitives) (c : Background) : Point → Bool
  | .arrived sender (.resolveRequest requestId true) _ =>
    !sender.isInternal || (c.pending requestId).all (handlerFinds prim c)
  | .revealing _ _ outcome => outcome.isSome
  | .sealing after _ _ stores => stores || after.role.handler.isNone
  | _ => true

def Catches (prim : ExtensionPrimitives) (c : Background) (t : ExtensionTask) : Prop :=
  t.point.catches prim c = true

/-! ## Turns -/

def Turned (strict : Prop) (i : ℕ) (c : Background) (a : Role) (out : Background × Point) : Prop :=
  Counted strict i c a out.1 out.2.role

section turns

variable {strict : Prop} {i : ℕ} {c d : Background} {p : Pending}

theorem turned_answer (h : Still c d) (hc : ∀ q, (q, i) ∉ c.handling) {r : Response} :
    Turned strict i c ⟨true, none⟩ (answer d i r) := h.answered hc r

theorem turned_throw (h : Still c d) (hc : ∀ q, (q, i) ∉ c.handling) {error : String} :
    Turned strict i c ⟨true, none⟩ (throw d i error) := turned_answer h hc

theorem notHandling (hc : ∀ q, (q, i) ∉ c.handling) : ∀ q, (q, i) ∈ c.handling ↔ (none : Option Pending) = some q :=
  fun q => ⟨fun hq => absurd hq (hc q), fun hq => by cases hq⟩

theorem turned_still {a : Role} (h : Still c d) (hc : ∀ q, (q, i) ∈ c.handling ↔ a.handler = some q) {q : Point}
    (hq : q.role = a) : Turned strict i c a (d, q) := h.counted hc hq

theorem still_save {owner : ℕ} {after : After} {removes : Option Removal} {inputs : Inputs}
    {out : Background × Point} (h : saveVaultWithSessionKey c owner after removes inputs = .ok out) :
    Still c out.1 ∧ out.2.role = after.role := by
  unfold saveVaultWithSessionKey at h
  split at h
  · cases h
    exact ⟨.refl c, rfl⟩
  · cases h
  · cases h
    exact ⟨⟨rfl, rfl, rfl⟩, rfl⟩

theorem turned_saveAndRespond (h : Still c d) (hc : ∀ q, (q, i) ∉ c.handling) {r : Response}
    {removes : Option Removal} {inputs : Inputs} :
    Turned strict i c ⟨true, none⟩ (saveAndRespond d i r removes inputs) := by
  unfold saveAndRespond
  split
  · exact turned_throw h hc
  · next hsave =>
    obtain ⟨hstill, hrole⟩ := still_save hsave
    exact turned_still (h.trans hstill) (notHandling hc) hrole

theorem turned_saveInHandler (h : Still c d) (hc : ∀ q, (q, i) ∈ c.handling ↔ some p = some q)
    (hplaces : c.places p.owner ≤ 1) {after : After} (hafter : after.role = ⟨false, some p⟩) {inputs : Inputs}
    (hkey : strict → d.vaultKey.isSome = true) :
    Turned strict i c ⟨false, some p⟩ (saveInHandler d i p after inputs) := by
  unfold saveInHandler
  split
  · next e he =>
    refine h.ended hc hplaces none fun hs => ?_
    obtain ⟨key, hsome⟩ := Option.isSome_iff_exists.mp (hkey hs)
    unfold saveVaultWithSessionKey at he
    rw [hsome] at he
    split at he <;> simp_all
  · next hsave =>
    obtain ⟨hstill, hrole⟩ := still_save hsave
    exact turned_still (h.trans hstill) hc (hrole.trans hafter)

theorem openApprovalWindow_eq (c : Background) (inputs : Inputs) :
    (openApprovalWindow c inputs).1 = c ∧ (openApprovalWindow c inputs).2.role = ⟨false, none⟩ := by
  unfold openApprovalWindow
  split <;> exact ⟨rfl, rfl⟩

theorem turned_requestApproval (hc : ∀ q, (q, i) ∉ c.handling) (origin : Text) (approval : Approval)
    (inputs : Inputs) : Turned strict i c ⟨true, none⟩ (requestApproval c i origin approval inputs) := by
  unfold requestApproval
  split
  · exact turned_throw (.refl c) hc
  · next htotal =>
    split
    · exact turned_answer (.refl c) hc
    · next horigin =>
      obtain ⟨hstate, hrole⟩ := openApprovalWindow_eq (c.enqueue ⟨i, origin, approval⟩) inputs
      have hweight : ∀ k, (c.enqueue ⟨i, origin, approval⟩).weight i ⟨false, none⟩ k =
          c.weight i ⟨true, none⟩ k := by
        intro k
        simp only [Background.weight, places_enqueue, Bool.false_eq_true, and_false, if_false, and_true,
          eq_comm (a := i)]
        omega
      have hcounted : Counted strict i c ⟨true, none⟩ (c.enqueue ⟨i, origin, approval⟩) ⟨false, none⟩ :=
        ⟨fun k => (hweight k).le, fun _ => hweight, fun hl => hl.enqueue (by omega) (by simpa using horigin),
          notHandling hc, fun q j _ => Iff.rfl⟩
      rw [← hstate, ← hrole] at hcounted
      exact hcounted

theorem turned_ended (hc : ∀ q, (q, i) ∈ c.handling ↔ some p = some q) (hplaces : c.places p.owner ≤ 1)
    (r : Response) : Turned strict i c ⟨false, some p⟩ (c.endHandler p i (some r), .done) :=
  (Still.refl c).ended hc hplaces (some r) fun _ => rfl

/-- A handler that throws. -/
theorem turned_thrown (hc : ∀ q, (q, i) ∈ c.handling ↔ some p = some q) (hplaces : c.places p.owner ≤ 1)
    (hcaught : ¬ strict) : Turned strict i c ⟨false, some p⟩ (c.endHandler p i none, .done) :=
  (Still.refl c).ended hc hplaces none fun hs => absurd hs hcaught

theorem turned_onApprove (hc : ∀ q, (q, i) ∈ c.handling ↔ some p = some q) (hplaces : c.places p.owner ≤ 1)
    (hfinds : strict → handlerFinds prim c p = true) (inputs : Inputs) :
    Turned strict i c ⟨false, some p⟩ (onApprove prim c i p inputs) := by
  unfold onApprove
  unfold handlerFinds at hfinds
  split
  · next hv =>
    rw [hv] at hfinds
    exact turned_thrown hc hplaces fun hs => Bool.false_ne_true (hfinds hs)
  · next v hv =>
    rw [hv] at hfinds
    split
    · next happroval =>
      rw [happroval] at hfinds
      refine turned_saveInHandler ?_ hc hplaces ?_ hfinds
      · exact ⟨rfl, rfl, rfl⟩
      · rfl
    · next kind account body happroval =>
      rw [happroval] at hfinds
      split
      · exact turned_ended hc hplaces _
      · next active hactive =>
        split
        · next htext =>
          refine turned_thrown hc hplaces fun hs => ?_
          simpa [hactive, htext] using hfinds hs
        · exact turned_still (.refl c) hc rfl
    · next data happroval =>
      rw [happroval] at hfinds
      split
      · exact turned_ended hc hplaces _
      · next active hactive =>
        split
        · next hseed =>
          refine turned_thrown hc hplaces fun hs => ?_
          simpa [hactive, hseed] using hfinds hs
        · exact turned_still (.refl c) hc rfl
    · split
      · exact turned_ended hc hplaces _
      · split
        · exact turned_ended hc hplaces _
        · exact turned_still (.refl c) hc rfl
    · split
      · exact turned_ended hc hplaces _
      · exact turned_still (.refl c) hc rfl
    · split
      · exact turned_ended hc hplaces _
      · exact turned_still (.refl c) hc rfl
    · next shown ts fresh happroval =>
      rw [happroval] at hfinds
      split
      · exact turned_ended hc hplaces _
      · next active hactive =>
        split
        · next hid =>
          split
          · next hrotate =>
            refine turned_thrown hc hplaces fun hs => ?_
            simpa [hactive, hid, hrotate, Except.toOption] using hfinds hs
          · next rotated hrotate =>
            refine turned_saveInHandler ?_ hc hplaces ?_ fun hs => ?_
            · exact ⟨rfl, rfl, rfl⟩
            · rfl
            · have hkey : c.vaultKey.isSome = true := by
                simpa [hactive, hid, hrotate, Except.toOption] using hfinds hs
              exact hkey
        · exact turned_ended hc hplaces _

theorem turned_settleApproval (hc : ∀ q, (q, i) ∉ c.handling) (hc' : ∀ k, c.weight i ⟨true, none⟩ k ≤ 1)
    (requestId : ℕ) (approved : Bool) (inputs : Inputs)
    (hfinds : strict → approved = true → (c.pending requestId).all (handlerFinds prim c) = true) :
    Turned strict i c ⟨true, none⟩ (settleApproval prim c i requestId approved inputs) := by
  have hplaces (k : ℕ) : c.places k ≤ 1 := (Nat.le_add_right _ _).trans (hc' k)
  unfold settleApproval
  split
  · exact turned_answer (.refl c) hc
  · next p hp =>
    split
    · next happroved =>
      have hstart := @counted_startHandler strict i c hc requestId p hp (hplaces _) .success
      have hbound : ((c.startHandler p i).respond i .success).places p.owner ≤ 1 :=
        ((Nat.le_add_right _ _).trans (hstart.atMost p.owner)).trans (hc' p.owner)
      refine hstart.trans (turned_onApprove hstart.handles hbound (fun hs => ?_) inputs)
      have hall := hfinds hs happroved
      rw [hp] at hall
      exact hall
    · have hreject := @counted_reject strict i c ⟨true, none⟩ (notHandling hc) p.owner (hplaces _) (lit "Rejected")
      refine hreject.trans (turned_answer (.refl _) fun q hq => ?_)
      cases (hreject.handles q).mp hq

theorem turned_failSync (hc : ∀ q, (q, i) ∉ c.handling) (what : Syncing) (error : String) :
    Turned strict i c what.role (failSync c i what error) := by
  cases what with
  | unlock => exact turned_throw (.refl c) hc
  | initialization => exact Still.counted ⟨rfl, rfl, rfl⟩ (notHandling hc) rfl

theorem turned_endSync (hc : ∀ q, (q, i) ∉ c.handling) (what : Syncing) :
    Turned strict i c what.role (endSync c i what) := by
  cases what with
  | unlock => exact turned_answer (.refl c) hc
  | initialization => exact Still.counted ⟨rfl, rfl, rfl⟩ (notHandling hc) rfl

theorem role_syncing (what : Syncing) (origins : List Text) (changed : Bool) (inputs : Inputs) :
    (Point.syncing what origins changed inputs).role = what.role := by cases what <;> rfl

theorem role_synced (what : Syncing) : (After.synced what).role = what.role := by cases what <;> rfl

theorem handler_syncing (what : Syncing) : what.role.handler = none := by cases what <;> rfl

theorem turned_startSync (h : Still c d) (hc : ∀ q, (q, i) ∉ c.handling) (what : Syncing) (inputs : Inputs) :
    Turned strict i c what.role (startSync prim d i what inputs) := by
  have hd : ∀ q, (q, i) ∉ d.handling := h.handling ▸ hc
  have hfirst : Counted strict i c what.role d what.role :=
    h.counted (handler_syncing what ▸ notHandling hc) rfl
  unfold startSync
  split
  · exact hfirst.trans (turned_endSync hd what)
  · exact turned_still h (handler_syncing what ▸ notHandling hc) (role_syncing ..)

theorem turned_startUnlock (h : Still c d) (hc : ∀ q, (q, i) ∉ c.handling) {what : Unlocking} {password : Text}
    {inputs : Inputs} : Turned strict i c ⟨true, none⟩ (startUnlock d i what password inputs) := by
  unfold startUnlock
  split
  · exact turned_throw h hc
  · exact turned_still h (notHandling hc) rfl

theorem still_mergeImport (c : Background) (caller : Caller) (imported : ExtensionVault) :
    Still c { (mergeImport c caller imported).markUnlocked caller with hasPassword := true } := by
  unfold mergeImport
  split <;> exact ⟨rfl, rfl, rfl⟩

theorem turned_finishImport {caller : Caller} (hc : ∀ q, (q, caller.number) ∉ c.handling)
    (data : Except Text ExtensionVault) (password : Option Text) (inputs : Inputs) :
    Turned strict caller.number c ⟨true, none⟩ (finishImport c caller data password inputs) := by
  unfold finishImport
  split
  · exact turned_answer (.refl c) hc
  · next imported =>
    have hmerged := still_mergeImport c caller imported
    simp only
    split
    · exact turned_still hmerged (notHandling hc) rfl
    · split
      · exact turned_throw hmerged hc
      · next hsave =>
        obtain ⟨hstill, hrole⟩ := still_save hsave
        exact turned_still (hmerged.trans hstill) (notHandling hc) hrole

theorem turned_finishSave {caller : Caller} {after : After}
    (hc : ∀ q, (q, caller.number) ∈ c.handling ↔ after.role.handler = some q)
    (hplaces : ∀ k, c.places k ≤ 1) : Turned strict caller.number c after.role (finishSave c caller after) := by
  have hnone (h : after.role.handler = none) : ∀ q, (q, caller.number) ∉ c.handling := by
    intro q hq
    have hhandler := (hc q).mp hq
    rw [h] at hhandler
    cases hhandler
  cases after with
  | respond r => exact turned_answer (.refl c) (hnone rfl)
  | setUp password inputs =>
    refine turned_startUnlock ?_ (hnone rfl)
    exact ⟨rfl, rfl, rfl⟩
  | imported =>
    unfold finishSave
    simp only
    split
    · exact turned_throw (.refl c) (hnone rfl)
    · split
      · exact turned_throw (.refl c) (hnone rfl)
      · exact turned_answer (.refl c) (hnone rfl)
  | synced what =>
    have hsyncing := hnone (role_synced what ▸ handler_syncing what)
    unfold finishSave
    simp only
    rw [role_synced]
    split
    · exact turned_failSync hsyncing what _
    · exact turned_endSync hsyncing what
  | connected p => exact turned_ended hc (hplaces _) _
  | rotated p active rotated ts now => exact Still.counted ⟨rfl, rfl, rfl⟩ hc rfl

theorem turned_failSave {caller : Caller} {after : After}
    (hc : ∀ q, (q, caller.number) ∈ c.handling ↔ after.role.handler = some q)
    (hplaces : ∀ k, c.places k ≤ 1) (hcaught : strict → after.role.handler = none) :
    Turned strict caller.number c after.role (failSave c caller after) := by
  have hnone (h : after.role.handler = none) : ∀ q, (q, caller.number) ∉ c.handling := by
    intro q hq
    have hhandler := (hc q).mp hq
    rw [h] at hhandler
    cases hhandler
  cases after with
  | respond | setUp | imported => exact turned_throw (.refl c) (hnone rfl)
  | synced what =>
    rw [role_synced]
    exact turned_failSync (hnone (role_synced what ▸ handler_syncing what)) what _
  | connected p => exact turned_thrown hc (hplaces _) fun hs => by cases hcaught hs
  | rotated p => exact turned_thrown hc (hplaces _) fun hs => by cases hcaught hs

theorem dispatched_turned {caller : Caller} {sender : Sender} {request : Request} {inputs : Inputs}
    {out : Background × Point} (h : Dispatched prim c caller sender request inputs out)
    (hc : ∀ q, (q, caller.number) ∉ c.handling) (hc' : ∀ k, c.weight caller.number ⟨true, none⟩ k ≤ 1)
    (hfinds : strict → ∀ id, request = .resolveRequest id true →
      (c.pending id).all (handlerFinds prim c) = true) : Turned strict caller.number c ⟨true, none⟩ out := by
  cases h with
  | answered rotation r =>
    refine turned_answer ?_ hc
    exact ⟨rfl, rfl, rfl⟩
  | waits q hq =>
    refine turned_still (.refl c) (notHandling hc) ?_
    cases q <;> first | rfl | cases hq
  | unlocks | decryptsImport | signs => exact turned_still (.refl c) (notHandling hc) rfl
  | setsUp | locks => exact Still.counted ⟨rfl, rfl, rfl⟩ (notHandling hc) rfl
  | changes =>
    refine turned_saveAndRespond ?_ hc
    exact ⟨rfl, rfl, rfl⟩
  | imports data password => exact turned_finishImport hc data password inputs
  | asks origin approval => exact turned_requestApproval hc origin approval inputs
  | settles id approved hrequest =>
    refine turned_settleApproval hc hc' id approved inputs fun hs happroved => hfinds hs id ?_
    rw [hrequest, happroved]

theorem still_persistSession (c : Background) (caller : Caller) : Still c (c.persistSession caller) := by
  unfold Background.persistSession
  split <;> exact ⟨rfl, rfl, rfl⟩

/-- The first turn of a message, of the extension's own pages or not. -/
theorem arrived_turned {caller : Caller} {sender : Sender} {request : Request} {inputs : Inputs}
    (hc : ∀ q, (q, caller.number) ∉ c.handling) (hc' : ∀ k, c.weight caller.number ⟨true, none⟩ k ≤ 1)
    (hcatches : strict → (Point.arrived sender request inputs).catches prim c = true) :
    Turned strict caller.number c ⟨true, none⟩ (dispatch prim c caller sender request inputs) := by
  cases hinternal : sender.isInternal with
  | true =>
    refine dispatched_turned dispatch_dispatched hc hc' fun hs id hrequest => ?_
    have hready := hcatches hs
    subst hrequest
    simpa [Point.catches, hinternal] using hready
  | false =>
    by_cases hrequest : ∃ id, request = .resolveRequest id true
    · obtain ⟨id, rfl⟩ := hrequest
      have hthrow : dispatch prim c caller sender (.resolveRequest id true) inputs =
          throw c caller.number "Unauthorized: Internal use only" := by
        simp [dispatch, Request.isInternal, hinternal]
      rw [hthrow]
      exact turned_throw (.refl c) hc
    · exact dispatched_turned dispatch_dispatched hc hc' fun _ id hid => absurd ⟨id, hid⟩ hrequest

theorem resume_turned {caller : Caller} {p : Point} {out : Background × Point}
    (h : Point.resume prim caller c p = some out)
    (hc : ∀ q, (q, caller.number) ∈ c.handling ↔ p.role.handler = some q)
    (hc' : ∀ k, c.weight caller.number p.role k ≤ 1) (hcatches : strict → p.catches prim c = true) :
    Turned strict caller.number c p.role out := by
  have hplaces (k : ℕ) : c.places k ≤ 1 := (Nat.le_add_right _ _).trans (hc' k)
  have hnone (h : p.role.handler = none) : ∀ q, (q, caller.number) ∉ c.handling := by
    intro q hq
    have hhandler := (hc q).mp hq
    rw [h] at hhandler
    cases hhandler
  cases p with
  | arrived sender request inputs =>
    simp only [Point.resume] at h
    split at h <;> cases h
    · exact arrived_turned (hnone rfl) hc' hcatches
    · exact turned_throw (.refl c) (hnone rfl)
  | focusingPopup window focuses =>
    simp only [Point.resume] at h
    split at h <;> cases h
    · exact turned_throw (.refl c) (hnone rfl)
    · exact Still.counted ⟨rfl, rfl, rfl⟩ hc rfl
  | creatingPopup window =>
    cases h
    refine turned_throw ?_ (hnone rfl)
    exact ⟨rfl, rfl, rfl⟩
  | focusing window focuses =>
    simp only [Point.resume] at h
    split at h <;> cases h <;> exact Still.counted ⟨rfl, rfl, rfl⟩ hc rfl
  | creating window =>
    cases window with
    | some windowId =>
      cases h
      exact Still.counted ⟨rfl, rfl, rfl⟩ hc rfl
    | none =>
      cases h
      exact counted_reject hc (hplaces _) _
  | unlocking what password blob inputs =>
    simp only [Point.resume] at h
    split at h <;> cases h
    · exact Still.counted ⟨rfl, rfl, rfl⟩ hc rfl
    · exact turned_answer (.refl c) (hnone rfl)
  | opened what inputs =>
    cases h
    exact (still_persistSession ..).counted hc rfl
  | persisted what inputs =>
    cases what with
    | setUp =>
      cases h
      exact turned_answer (.refl c) (hnone rfl)
    | unlock =>
      cases h
      exact turned_startSync (.refl c) (hnone rfl) .unlock inputs
  | syncing what origins changed inputs =>
    rw [role_syncing] at hc hc' hnone ⊢
    have hc := hnone (handler_syncing what)
    cases origins with
    | nil =>
      simp only [Point.resume] at h
      split at h
      · cases h
        exact turned_failSync hc what _
      · split at h
        · split at h <;> cases h
          · exact turned_failSync hc what _
          · next hsave =>
            obtain ⟨hstill, hrole⟩ := still_save hsave
            exact turned_still hstill (handler_syncing what ▸ notHandling hc) (hrole.trans (role_synced what))
        · cases h
          exact turned_endSync hc what
    | cons origin origins =>
      simp only [Point.resume] at h
      split at h
      · split at h <;> cases h
        · exact turned_failSync hc what _
        · exact Still.counted ⟨rfl, rfl, rfl⟩ (handler_syncing what ▸ notHandling hc) (role_syncing ..)
      · cases h
        exact Still.counted (.refl c) (handler_syncing what ▸ notHandling hc) (role_syncing ..)
  | restoring blob key inputs =>
    simp only [Point.resume] at h
    split at h <;> cases h
    · refine turned_startSync ?_ (hnone rfl) .initialization inputs
      exact ⟨rfl, rfl, rfl⟩
    · exact Still.counted ⟨rfl, rfl, rfl⟩ hc rfl
  | clearing =>
    cases h
    exact turned_answer (.refl c) (hnone rfl)
  | checkingIdle expired =>
    cases h
    split <;> exact Still.counted ⟨rfl, rfl, rfl⟩ hc rfl
  | decryptingImport data password inputs =>
    cases h
    exact turned_finishImport (hnone rfl) data password inputs
  | rederiving after password inputs =>
    cases h
    exact Still.counted ⟨rfl, rfl, rfl⟩ hc rfl
  | sealing after sealed fresh stores =>
    simp only [Point.resume] at h
    split at h
    · cases h
      exact Still.counted ⟨rfl, rfl, rfl⟩ hc rfl
    · next hstores =>
      cases h
      have hdropped : Still c { c with sealings := c.sealings.filter (·.owner != caller.number) } := ⟨rfl, rfl, rfl⟩
      refine (hdropped.counted hc rfl).trans (turned_failSave hc (fun k => hplaces k) fun hs => ?_)
      simpa [Point.catches, hstores] using hcatches hs
  | stored after key =>
    cases key <;> cases h <;> exact Still.counted ⟨rfl, rfl, rfl⟩ hc rfl
  | adopting after key =>
    cases h
    exact Still.counted ⟨rfl, rfl, rfl⟩ hc rfl
  | saved after =>
    cases h
    exact turned_finishSave hc hplaces
  | checkingHost origin inputs =>
    simp only [Point.resume] at h
    split at h <;> cases h
    · unfold trustSite
      split
      · exact turned_throw (.refl c) (hnone rfl)
      · refine turned_saveAndRespond ?_ (hnone rfl)
        exact ⟨rfl, rfl, rfl⟩
    · exact turned_throw (.refl c) (hnone rfl)
  | answering r =>
    cases h
    exact turned_answer (.refl c) (hnone rfl)
  | signing sender grounds account body =>
    simp only [Point.resume] at h
    split at h <;> cases h
    · exact turned_answer (.refl c) (hnone rfl)
    · refine turned_answer ?_ (hnone rfl)
      exact ⟨rfl, rfl, rfl⟩
  | signingApproved p account body =>
    cases h
    refine Still.ended ?_ hc (hplaces _) (some _) fun _ => rfl
    exact ⟨rfl, rfl, rfl⟩
  | revealing p account outcome =>
    cases h
    have hsome : strict → outcome.isSome = true := hcatches
    split
    · refine Still.ended ?_ hc (hplaces _) outcome hsome
      exact ⟨rfl, rfl, rfl⟩
    · exact Still.ended (.refl c) hc (hplaces _) outcome hsome
  | attesting p account rotated ts =>
    cases h
    refine Still.ended ?_ hc (hplaces _) (some _) fun _ => rfl
    exact ⟨rfl, rfl, rfl⟩
  | done => cases h

end turns

/-! ## Runs -/

/-- A worker that no message has reached. -/
structure Background.Fresh (c : Background) : Prop where
  queue : c.pendingRequests = []
  handling : c.handling = []
  responses : c.responses = []

/-- The queue keeps its limits, and every message is in one place at most. -/
structure Once (n : ℕ) (c : Background) : Prop where
  limited : c.Limited
  places : ∀ k, c.places k ≤ 1
  unseen : ∀ k, n ≤ k → c.places k = 0
  handlers : ∀ q j, (q, j) ∈ c.handling → j < n

/-- The handler that a task runs, and what is left to do for its own message. -/
structure OnceFact (strict : Prop) (c : Background) (i : ℕ) (t : ExtensionTask) : Prop where
  number : t.caller.number = i
  handles : ∀ q, (q, i) ∈ c.handling ↔ t.point.role.handler = some q
  atMost : c.weight i t.point.role i ≤ 1
  exactly : strict → t.isMessage = true → c.weight i t.point.role i = 1

theorem Background.Fresh.once {c : Background} (h : c.Fresh) : Once 0 c := by
  have hplaces : ∀ k, c.places k = 0 := by
    simp [Background.places, Background.answers, h.queue, h.handling, h.responses]
  refine ⟨⟨?_, fun origin => ?_⟩, fun k => ?_, fun k _ => hplaces k, fun q j hj => ?_⟩
  · simp [h.queue]
  · simp [Background.pendingForOrigin, h.queue]
  · rw [hplaces]
    exact Nat.zero_le 1
  · rw [h.handling] at hj
    cases hj

/-- What a call does before its first await. -/
theorem begin_counts (c : Background) (hc : ∀ k, c.places k ≤ 1) (call : Call) :
    (∀ k, (Call.begin c call).1.places k = c.places k) ∧ (Call.begin c call).1.handling = c.handling ∧
      (c.Limited → (Call.begin c call).1.Limited) ∧ (Call.begin c call).2.role = ⟨call.isMessage, none⟩ := by
  have hstill {d : Background} (h : Still c d) : (∀ k, d.places k = c.places k) ∧ d.handling = c.handling ∧
      (c.Limited → d.Limited) := ⟨h.places, h.handling, fun hl => hl.sublist (h.queue ▸ .refl _)⟩
  unfold Call.begin
  cases call with
  | message sender request inputs => exact ⟨fun _ => rfl, rfl, id, rfl⟩
  | start expired inputs =>
    simp only
    split
    · unfold initializeStorage
      simp only
      split
      · obtain ⟨hplaces, hhandling, hlimits⟩ := @hstill _ ⟨rfl, rfl, rfl⟩
        exact ⟨hplaces, hhandling, hlimits, rfl⟩
      · obtain ⟨hplaces, hhandling, hlimits⟩ := @hstill _ ⟨rfl, rfl, rfl⟩
        exact ⟨hplaces, hhandling, hlimits, rfl⟩
    · exact ⟨fun _ => rfl, rfl, id, rfl⟩
  | idleAlarm expired =>
    simp only
    split <;> exact ⟨fun _ => rfl, rfl, id, rfl⟩
  | windowRemoved windowId =>
    simp only [Background.handleWindowClosed]
    split <;> split
    · exact ⟨places_rejectAllApprovals _ _, rfl, fun hl => hl.sublist (List.nil_sublist _), rfl⟩
    · exact ⟨fun _ => rfl, rfl, id, rfl⟩
    · exact ⟨places_rejectAllApprovals _ _, rfl, fun hl => hl.sublist (List.nil_sublist _), rfl⟩
    · exact ⟨fun _ => rfl, rfl, id, rfl⟩
  | timeout owner =>
    refine ⟨places_reject (hc owner) _, ?_, fun hl => hl.sublist ?_, rfl⟩
    · simp only [Background.reject]
      split <;> rfl
    · simp only [Background.reject]
      split
      · exact .refl _
      · exact List.filter_sublist

theorem weight_self (c : Background) (i : ℕ) (a : Role) :
    c.weight i a i = c.places i + if a.owes = true then 1 else 0 := by
  simp [Background.weight]

theorem weight_other (c : Background) {i k : ℕ} (a : Role) (hk : k ≠ i) : c.weight i a k = c.places k := by
  simp [Background.weight, hk]

theorem OnceFact.turned {strict : Prop} {n i : ℕ} {c : Background} {t : ExtensionTask} {out : Background × Point}
    (ht : OnceFact strict c i t) (hc : Once n c) (hready : strict → Catches prim c t)
    (h : Point.resume prim t.caller c t.point = some out) : Turned strict i c t.point.role out := by
  obtain ⟨rfl, hhandles, hatMost, -⟩ := ht
  refine resume_turned h hhandles (fun k => ?_) hready
  by_cases hk : k = t.caller.number
  · rw [hk]
    exact hatMost
  · rw [weight_other c _ hk]
    exact hc.places k

theorem once_rule (prim : ExtensionPrimitives) (strict : Prop) :
    Rule (extension prim) Once (OnceFact strict) (fun _ _ => True)
      (fun c t => strict → Catches prim c t) where
  call n c call hc _ := by
    obtain ⟨hplaces, hhandling, hlimits, hrole⟩ := begin_counts c hc.places call
    have hunseen := hc.unseen n le_rfl
    refine ⟨⟨hlimits hc.limited, fun k => hplaces k ▸ hc.places k, fun k hk => ?_, fun q j hj => ?_⟩,
      ⟨rfl, fun q => ?_, ?_, fun _ hmessage => ?_⟩, fun j t _ ht => ⟨ht.number, ?_, ?_, ?_⟩⟩
    · exact (hplaces k).trans (hc.unseen k (by omega))
    · exact (hc.handlers q j (hhandling ▸ hj)).trans (Nat.lt_succ_self n)
    · have hnone : (q, n) ∉ c.handling := fun hq => absurd (hc.handlers q n hq) (lt_irrefl n)
      change (q, n) ∈ (Call.begin c call).1.handling ↔ (Call.begin c call).2.role.handler = some q
      rw [hhandling, hrole]
      simp [hnone]
    · change (Call.begin c call).1.weight n (Call.begin c call).2.role n ≤ 1
      rw [weight_self, hplaces, hunseen]
      split <;> omega
    · change (Call.begin c call).1.weight n (Call.begin c call).2.role n = 1
      have howes : call.isMessage = true := hmessage
      rw [weight_self, hplaces, hunseen, hrole, howes]
      rfl
    · exact fun q => hhandling ▸ ht.handles q
    · rw [weight_self]
      exact (congrArg (· + _) (hplaces j)).trans_le (weight_self c j _ ▸ ht.atMost)
    · intro hs hmessage
      rw [weight_self]
      exact (congrArg (· + _) (hplaces j)).trans (weight_self c j _ ▸ ht.exactly hs hmessage)
  resume n c i t d q hc hi hfact hready h := by
    obtain ⟨out, hresume, heq⟩ := Option.map_eq_some_iff.mp h
    cases heq
    have hturn := hfact.turned hc hready hresume
    obtain ⟨rfl, hhandles, hatMost, hexactly⟩ := hfact
    have hothers : ∀ k, k ≠ t.caller.number → out.1.places k ≤ c.places k := by
      intro k hk
      have hmost := hturn.atMost k
      rwa [weight_other _ _ hk, weight_other _ _ hk] at hmost
    have hsame : strict → ∀ k, k ≠ t.caller.number → out.1.places k = c.places k := by
      intro hs k hk
      have hexact := hturn.exactly hs k
      rwa [weight_other _ _ hk, weight_other _ _ hk] at hexact
    refine ⟨⟨hturn.limits hc.limited, fun k => ?_, fun k hk => ?_, fun r j hj => ?_⟩,
      ⟨rfl, hturn.handles, (hturn.atMost _).trans hatMost, fun hs hm => (hturn.exactly hs _).trans (hexactly hs hm)⟩,
      fun j r hj hr => ⟨hr.number, fun q => (hturn.others q j hj).trans (hr.handles q), ?_, fun hs hm => ?_⟩⟩
    · by_cases hk : k = t.caller.number
      · subst hk
        exact ((Nat.le_add_right _ _).trans (hturn.atMost _)).trans hatMost
      · exact (hothers k hk).trans (hc.places k)
    · have hk' := hothers k (by omega)
      have hzero := hc.unseen k hk
      omega
    · by_cases hji : j = t.caller.number
      · omega
      · exact hc.handlers r j ((hturn.others r j hji).mp hj)
    · have hmost := hr.atMost
      have hj' := hothers j hj
      rw [weight_self] at hmost ⊢
      omega
    · have hexact := hr.exactly hs hm
      have hj' := hsame hs j hj
      rw [weight_self] at hexact ⊢
      omega
  restart n c hc := by
    have hle : ∀ k, c.restart.places k ≤ c.places k := by
      intro k
      simp only [Background.places, Background.restart, List.countP_nil, Background.answers]
      omega
    refine ⟨hc.limited.sublist (List.nil_sublist _), fun k => (hle k).trans (hc.places k), fun k hk => ?_,
      fun q j hj => by cases hj⟩
    have hzero := hc.unseen k hk
    have hk' := hle k
    change c.restart.places k = 0
    omega

/-- In every state the queue keeps its limits, and no message is in two places: none is answered twice, and none
that was answered waits for an approval or is handled. -/
theorem requests_answered_once {c : Background} (hc : c.Fresh) {as : List (Action Call)}
    {s : State Background ExtensionTask} (h : Run (ofPartial (extension prim).step) (.start c) as s) :
    s.shared.pendingRequests.length ≤ maxPendingTotal ∧
    (∀ origin, s.shared.pendingForOrigin origin ≤ maxPendingPerOrigin) ∧
    ∀ owner, s.shared.pendingRequests.countP (·.owner == owner) +
      s.shared.handling.countP (·.1.owner == owner) + s.shared.responses.countP (·.1 == owner) ≤ 1 := by
  have hready : Run (restrict (Prepared (fun _ _ => True) fun c t => False → Catches prim c t)
      (ofPartial (extension prim).step)) (.start c) as s := by
    refine h.mono fun s a t hst => ⟨?_, hst⟩
    cases a with
    | call => trivial
    | resume i => exact fun _ _ hfalse => hfalse.elim
    | restart => trivial
  have hholds := (once_rule prim False).run_holds hready (.start hc.once)
  exact ⟨hholds.shared.limited.1, hholds.shared.limited.2, hholds.shared.places⟩

/-- Every handler is run by a task. -/
def Attended (s : State Background ExtensionTask) : Prop :=
  ∀ q j, (q, j) ∈ s.shared.handling → ∃ t, s.task j = some t ∧ t.point.role.handler = some q

theorem step_attended {strict : Prop} {s t : State Background ExtensionTask} {a : Action Call}
    (hs : Holds Once (OnceFact strict) s) (hattended : Attended s)
    (hready : Prepared (fun _ _ => True) (fun c t => strict → Catches prim c t) s a)
    (h : (extension prim).step s a = some t) : Attended t := by
  intro q j hq
  have ht := (once_rule prim strict).step_holds hs h hready
  have hlive : (t.task j).isSome = true := by
    cases a with
    | call call =>
      obtain rfl := Option.some.inj h
      have hhandling := (begin_counts s.shared hs.shared.places call).2.1
      obtain ⟨u, hu, -⟩ := hattended q j (hhandling ▸ hq)
      have hlt := State.lt_of_task hu
      simp only [State.task] at hu ⊢
      rw [List.getElem?_append_left hlt, hu]
      rfl
    | resume i =>
      obtain ⟨u, d, v, hu, hresume, rfl⟩ := Program.step_resume h
      by_cases hji : j = i
      · subst hji
        simp only [State.task, List.getElem?_set_self (State.lt_of_task hu)]
        rfl
      · obtain ⟨out, hout, heq⟩ := Option.map_eq_some_iff.mp hresume
        cases heq
        have hturn := (hs.tasks i u hu).turned hs.shared (hready u hu) hout
        obtain ⟨r, hr, -⟩ := hattended q j ((hturn.others q j hji).mp hq)
        simp only [State.task] at hr ⊢
        rw [List.getElem?_set_ne (Ne.symm hji), hr]
        rfl
    | restart =>
      obtain rfl := Option.some.inj h
      cases hq
  obtain ⟨u, hu⟩ := Option.isSome_iff_exists.mp hlive
  exact ⟨u, hu, ((ht.tasks j u hu).handles q).mp hq⟩

/-- Where nothing is thrown in a handler, a message that its own task is done with waits for an approval, is
handled by a task that runs, or was answered, and only one of these, and only once. -/
theorem request_settles {c : Background} (hc : c.Fresh) {as : List (Action Call)} {s : State Background ExtensionTask}
    (h : Run (restrict (Prepared (fun _ _ => True) (Catches prim)) (ofPartial (extension prim).step))
      (.start c) as s) :
    (∀ i t, s.task i = some t → t.isMessage = true → t.point.role.owes = false →
      s.shared.pendingRequests.countP (·.owner == i) + s.shared.handling.countP (·.1.owner == i) +
        s.shared.responses.countP (·.1 == i) = 1) ∧
    ∀ q j, (q, j) ∈ s.shared.handling → ∃ t, s.task j = some t ∧ t.point.role.handler = some q := by
  have hready : ∀ (s : State Background ExtensionTask) (a : Action Call),
      Prepared (fun _ _ => True) (Catches prim) s a →
        Prepared (fun _ _ => True) (fun c t => True → Catches prim c t) s a := by
    intro s a ha
    cases a with
    | call => trivial
    | resume i => exact fun t ht _ => ha t ht
    | restart => trivial
  have hfresh : Attended (.start c : State Background ExtensionTask) := by
    intro q j hq
    have hnone : (q, j) ∈ ([] : List (Pending × ℕ)) := hc.handling ▸ hq
    cases hnone
  obtain ⟨hholds, hattended⟩ := h.invariant (I := fun s => Holds Once (OnceFact True) s ∧ Attended s)
    (fun s a t hs hst => ⟨(once_rule prim True).step_holds hs.1 hst.2 (hready s a hst.1),
      step_attended hs.1 hs.2 (hready s a hst.1) hst.2⟩) ⟨.start hc.once, hfresh⟩
  refine ⟨fun i t ht hmessage howes => ?_, hattended⟩
  have hexact := (hholds.tasks i t ht).exactly trivial hmessage
  rw [weight_self, howes] at hexact
  exact hexact

/-! ## A sample -/

theorem sampleUnlocked_fresh : sampleUnlocked.Fresh := ⟨rfl, rfl, rfl⟩

/-- A site asks for a signature, and the extension's page approves it. -/
def approvedSignature : List (Action Call) :=
  [siteMessage (.sign (some (.str (lit "hello")))), .resume 0, .resume 0,
    ownMessage (.resolveRequest 0 true), .resume 1, .resume 1]

/-- `Prepared` for the run of the sample. -/
def catchesAll (s : State Background ExtensionTask) : Action Call → Bool
  | .resume i => (s.task i).all fun t => t.point.catches samplePrimitives s.shared
  | _ => true

theorem prepared_of_catchesAll {s : State Background ExtensionTask} {a : Action Call}
    (h : catchesAll s a = true) : Prepared (fun _ _ => True) (Catches samplePrimitives) s a := by
  cases a with
  | call r => trivial
  | resume i =>
    intro t ht
    rwa [catchesAll, ht, Option.all_some] at h
  | restart => trivial

/-- The signature is given once. -/
theorem requests_answered_once_sample : ∃ s, Run (ofPartial (extension samplePrimitives).step)
    (.start sampleUnlocked) approvedSignature s ∧ s.shared.responses.countP (·.1 == 0) = 1 ∧
      s.shared.pendingRequests.length ≤ maxPendingTotal := by
  have hrun : Run (ofPartial (extension samplePrimitives).step) (.start sampleUnlocked) approvedSignature _ :=
    Run.ofPartial_foldlM _ _ _ _ rfl
  exact ⟨_, hrun, rfl, (requests_answered_once sampleUnlocked_fresh hrun).1⟩

/-- Nothing of the request is left when the signature is given. -/
theorem request_settles_sample : ∃ s, Run (restrict (Prepared (fun _ _ => True) (Catches samplePrimitives))
    (ofPartial (extension samplePrimitives).step)) (.start sampleUnlocked) approvedSignature s ∧
      s.shared.pendingRequests.countP (·.owner == 0) + s.shared.handling.countP (·.1.owner == 0) +
        s.shared.responses.countP (·.1 == 0) = 1 := by
  have hrun : Run (restrict (Prepared (fun _ _ => True) (Catches samplePrimitives))
      (ofPartial (extension samplePrimitives).step)) (.start sampleUnlocked) approvedSignature _ :=
    Run.restrict_foldlM _ (fun _ _ => prepared_of_catchesAll) _ _ _ rfl
  exact ⟨_, hrun, (request_settles sampleUnlocked_fresh hrun).1 0 _ rfl rfl rfl⟩

end Kryptolog.Extension
