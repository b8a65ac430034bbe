import Kryptolog.Library.Runs
import Mathlib.Data.List.Basic
import Mathlib.Data.List.Nodup
import Mathlib.Logic.Function.Basic

/-! # Delivery over WebSockets

One worker of `websocket_manager.py`. A delivery goes through the list of an address while other coroutines
change it, and in shared mode a frame reaches the list through the fan-out subscription, or directly where the
worker believes that it has none.
-/

namespace Kryptolog.Server
set_option autoImplicit false

open Runs

/-! ## A list that changes under an iterator -/

section lists

variable {α : Type} [DecidableEq α] {l : List α} {x y : α} {i : ℕ}

/-- What is still to come can only get less when an element is removed. -/
theorem drop_erase_sublist (l : List α) (x : α) (i : ℕ) : ((l.erase x).drop i).Sublist (l.drop i) := by
  induction l generalizing i with
  | nil => simp
  | cons y l ih =>
    by_cases hxy : y = x
    · rw [hxy, List.erase_cons_head]
      cases i with
      | zero => exact List.sublist_cons_self x l
      | succ i => exact List.drop_sublist_drop_left l (Nat.le_succ i)
    · rw [List.erase_cons_tail (by simpa using hxy)]
      cases i with
      | zero => exact List.erase_sublist.cons_cons y
      | succ i => exact ih i

/-- No element is skipped where the removed one is still to come, or where nothing is. -/
theorem mem_drop_erase (hy : y ∈ l.drop i) (hne : y ≠ x) (h : x ∈ l.take i → l.length ≤ i) :
    y ∈ (l.erase x).drop i := by
  have hi : i < l.length := by
    by_contra hle
    rw [List.drop_of_length_le (by omega)] at hy
    cases hy
  have hx : x ∉ l.take i := fun hx => absurd (h hx) (by omega)
  have herase : l.erase x = l.take i ++ (l.drop i).erase x := by
    rw [← List.erase_append_right _ hx, List.take_append_drop]
  have hlen : (l.take i).length = i := by simp; omega
  rw [herase, List.drop_append_of_le_length (by omega), List.drop_of_length_le (by omega), List.nil_append]
  exact (List.mem_erase_of_ne hne).mpr hy

end lists

/-! ## A worker -/

/-- A frame, one for each call of `send_personal_message`. -/
structure PersonalMessage where
  id : ℕ
  address : String
  deriving DecidableEq

/-- The list of an address in `active_connections`, with the number of its lists that were deleted before. An
address without a list has the empty one. -/
structure Connections where
  epoch : ℕ
  sockets : List ℕ

/-- A socket leaves the list of an address. An empty list is deleted. -/
def Connections.remove (r : Connections) (x : ℕ) : Connections :=
  ⟨if (r.sockets.erase x).isEmpty then r.epoch + 1 else r.epoch, r.sockets.erase x⟩

/-- An iterator over a list: which list it is, and the index that it reads next. -/
structure Cursor where
  epoch : ℕ
  index : ℕ

/-- Where `send_personal_message` stands: at its publication, with whether Redis has taken the frame and handed
it to the subscription of this worker, at a `send_json` of its own loop, or done. -/
inductive SenderPoint
  | publishing (handed : Option Bool)
  | sending (cursor : Cursor)
  | done

/-- A worker. `live` is the subscription at Redis with the frames handed to it and not yet read, `listening` the
flag `_listening`, and `listener` the delivery that `_listen` awaits. -/
structure ConnectionManager where
  shared : Bool
  active : String → Connections
  known : List ℕ
  sender : PersonalMessage → Option SenderPoint
  live : Bool
  listening : Bool
  queue : List PersonalMessage
  listener : Option (PersonalMessage × Cursor)
  sent : List (ℕ × PersonalMessage)

inductive SocketAction
  | connect (socket : ℕ) (address : String)
  | disconnect (socket : ℕ) (address : String)
  | call (f : PersonalMessage)
  /-- Redis takes a frame that another worker publishes. -/
  | elsewhere (f : PersonalMessage)
  /-- Redis takes a frame that this worker publishes. -/
  | take (f : PersonalMessage)
  /-- `publish` returns, or raises. -/
  | answer (f : PersonalMessage) (ok : Bool)
  | resume (f : PersonalMessage)
  | read
  | resumeListener
  /-- The connection of the subscription is lost. -/
  | drop
  /-- `_listen` raises. -/
  | notice
  /-- Redis takes the new subscription. -/
  | subscribe
  | resubscribed

namespace ConnectionManager

/-- A worker without sockets. In shared mode it starts subscribed. -/
def start (shared : Bool) : ConnectionManager :=
  ⟨shared, fun _ => ⟨0, []⟩, [], fun _ => none, shared, shared, [], none, []⟩

variable (s : ConnectionManager)

/-- The socket that an iterator reads next, if its list is still that of the address. A deleted list is empty. -/
def next (f : PersonalMessage) (c : Cursor) : Option ℕ :=
  if (s.active f.address).epoch = c.epoch then (s.active f.address).sockets[c.index]? else none

/-- The loop of `_deliver_local` up to its next await, or its end. -/
def advance (f : PersonalMessage) (c : Cursor) : ConnectionManager × Option Cursor :=
  match s.next f c with
  | some socket => ({ s with sent := s.sent ++ [(socket, f)] }, some { c with index := c.index + 1 })
  | none => (s, none)

/-- `_deliver_local`, up to its first await. -/
def deliverLocal (f : PersonalMessage) : ConnectionManager × Option Cursor :=
  s.advance f ⟨(s.active f.address).epoch, 0⟩

/-- A loop of the sender goes on. -/
def proceed (f : PersonalMessage) (r : ConnectionManager × Option Cursor) : ConnectionManager :=
  { r.1 with sender := Function.update r.1.sender f (some (r.2.elim .done .sending)) }

/-- A loop of the listener goes on. -/
def listen (f : PersonalMessage) (r : ConnectionManager × Option Cursor) : ConnectionManager :=
  { r.1 with listener := r.2.map (f, ·) }

/-- Redis hands a frame to the subscription. -/
def hand (f : PersonalMessage) : List PersonalMessage := if s.live then s.queue ++ [f] else s.queue

def step : SocketAction → Option ConnectionManager
  | .connect x a =>
    if x ∈ s.known then none
    else some { s with
      known := x :: s.known
      active := Function.update s.active a { s.active a with sockets := (s.active a).sockets ++ [x] } }
  | .disconnect x a =>
    if x ∈ (s.active a).sockets then some { s with active := Function.update s.active a ((s.active a).remove x) }
    else some s
  | .call f =>
    if (s.sender f).isSome then none
    else if s.shared then some { s with sender := Function.update s.sender f (some (.publishing none)) }
    else some (proceed f (s.deliverLocal f))
  | .elsewhere f =>
    if (s.sender f).isSome || !s.shared then none
    else some { s with sender := Function.update s.sender f (some .done), queue := s.hand f }
  | .take f =>
    match s.sender f with
    | some (.publishing none) =>
      some { s with sender := Function.update s.sender f (some (.publishing (some s.live))), queue := s.hand f }
    | _ => none
  | .answer f ok =>
    match s.sender f with
    | some (.publishing handed) =>
      if ok && handed.isNone then none
      else if ok && s.listening then some { s with sender := Function.update s.sender f (some .done) }
      else some (proceed f (s.deliverLocal f))
    | _ => none
  | .resume f =>
    match s.sender f with
    | some (.sending c) => some (proceed f (s.advance f c))
    | _ => none
  | .read =>
    match s.queue, s.listener with
    | f :: rest, none => if s.listening then some (listen f ({ s with queue := rest }.deliverLocal f)) else none
    | _, _ => none
  | .resumeListener => s.listener.map fun l => listen l.1 (s.advance l.1 l.2)
  | .drop => if s.shared then some { s with live := false } else none
  | .notice =>
    if s.shared && s.listening && s.listener.isNone then
      some { s with listening := false, live := false, queue := [] }
    else none
  | .subscribe => if s.shared && !s.listening then some { s with live := true, queue := [] } else none
  | .resubscribed => if s.live && !s.listening then some { s with listening := true } else none

/-! ## Invariants -/

variable {s}

/-- A loop reads a socket, or it ends. -/
theorem advance_cases (s : ConnectionManager) (f : PersonalMessage) (c : Cursor) :
    (s.advance f c = (s, none) ∧
      (c.epoch = (s.active f.address).epoch → (s.active f.address).sockets.drop c.index = [])) ∨
    ∃ x, c.epoch = (s.active f.address).epoch ∧
      (s.active f.address).sockets.drop c.index = x :: (s.active f.address).sockets.drop (c.index + 1) ∧
      s.advance f c = ({ s with sent := s.sent ++ [(x, f)] }, some { c with index := c.index + 1 }) := by
  rw [advance, next]
  by_cases hepoch : (s.active f.address).epoch = c.epoch
  · rw [if_pos hepoch]
    cases hx : (s.active f.address).sockets[c.index]? with
    | none => exact .inl ⟨rfl, fun _ => List.drop_of_length_le (List.getElem?_eq_none_iff.mp hx)⟩
    | some x =>
      obtain ⟨hlt, rfl⟩ := List.getElem?_eq_some_iff.mp hx
      exact .inr ⟨_, hepoch.symm, List.drop_eq_getElem_cons hlt, rfl⟩
  · rw [if_neg hepoch]
    exact .inl ⟨rfl, fun h => absurd h.symm hepoch⟩

/-- The sockets of an address are distinct and known, and no socket was sent a frame twice. -/
structure Registered (s : ConnectionManager) : Prop where
  nodup : ∀ a, (s.active a).sockets.Nodup
  known : ∀ a, ∀ x ∈ (s.active a).sockets, x ∈ s.known
  sent_known : ∀ e ∈ s.sent, e.1 ∈ s.known
  sent : s.sent.Nodup

/-- The loop of a frame was not yet at the sockets that it has before it. -/
structure Ready (s : ConnectionManager) (f : PersonalMessage) (c : Cursor) : Prop where
  le : c.epoch ≤ (s.active f.address).epoch
  ahead : c.epoch = (s.active f.address).epoch →
    ∀ x ∈ (s.active f.address).sockets.drop c.index, (x, f) ∉ s.sent

/-- No socket was sent the frame. -/
def Untouched (s : ConnectionManager) (f : PersonalMessage) : Prop := ∀ x, (x, f) ∉ s.sent

/-- The frame was not handed to this worker, and no loop has begun. -/
def IsWaiting (s : ConnectionManager) (f : PersonalMessage) : Prop :=
  s.sender f = none ∨ s.sender f = some (.publishing none) ∨ s.sender f = some (.publishing (some false))

/-- A frame takes one way. -/
structure Routed (s : ConnectionManager) : Prop where
  sending : ∀ f c, s.sender f = some (.sending c) → s.Ready f c ∧ f ∉ s.queue ∧ ∀ d, s.listener ≠ some (f, d)
  listening : ∀ f c, s.listener = some (f, c) → s.Ready f c ∧ f ∉ s.queue
  queued : ∀ f ∈ s.queue, s.Untouched f
  queue : s.queue.Nodup
  waiting : ∀ f, s.IsWaiting f → s.Untouched f ∧ f ∉ s.queue ∧ ∀ d, s.listener ≠ some (f, d)

theorem Untouched.ready {f : PersonalMessage} (h : s.Untouched f) : s.Ready f ⟨(s.active f.address).epoch, 0⟩ :=
  ⟨Nat.le_refl _, fun _ x _ => h x⟩

theorem Registered.advance {f : PersonalMessage} {c : Cursor} (h : s.Registered) (hready : s.Ready f c) :
    (s.advance f c).1.Registered := by
  rcases advance_cases s f c with ⟨heq, -⟩ | ⟨x, hepoch, hdrop, heq⟩
  · rw [heq]
    exact h
  · have hx : x ∈ (s.active f.address).sockets.drop c.index := by
      rw [hdrop]
      exact List.mem_cons_self
    rw [heq]
    refine ⟨h.nodup, h.known, fun e he => ?_, ?_⟩
    · rcases List.mem_append.mp he with he | he
      · exact h.sent_known e he
      · rw [List.mem_singleton.mp he]
        exact h.known _ x (List.mem_of_mem_drop hx)
    · refine List.nodup_append'.mpr ⟨h.sent, List.nodup_singleton _, ?_⟩
      rw [List.disjoint_singleton]
      exact hready.ahead hepoch x hx

/-- The loop of a frame is ready for the sockets after the one that it reads. -/
theorem Ready.advance {f : PersonalMessage} {c d : Cursor} (h : s.Registered) (hready : s.Ready f c)
    (hd : (s.advance f c).2 = some d) : (s.advance f c).1.Ready f d := by
  rcases advance_cases s f c with ⟨heq, -⟩ | ⟨x, hepoch, hdrop, heq⟩
  · rw [heq] at hd
    cases hd
  · rw [heq] at hd ⊢
    obtain rfl := Option.some.inj hd
    refine ⟨hready.le, fun _ y hy hmem => ?_⟩
    have hnodup := (h.nodup f.address).sublist (List.drop_sublist c.index _)
    rw [hdrop] at hnodup
    have hold : y ∈ (s.active f.address).sockets.drop c.index := by
      rw [hdrop]
      exact List.mem_cons_of_mem _ hy
    rcases List.mem_append.mp hmem with hmem | hmem
    · exact hready.ahead hepoch y hold hmem
    · obtain ⟨rfl, -⟩ := Prod.mk.inj (List.mem_singleton.mp hmem)
      exact (List.nodup_cons.mp hnodup).1 hy

theorem mem_sent_advance {f g : PersonalMessage} {c : Cursor} {x : ℕ} (hne : g ≠ f) :
    (x, g) ∈ (s.advance f c).1.sent ↔ (x, g) ∈ s.sent := by
  rcases advance_cases s f c with ⟨heq, -⟩ | ⟨y, -, -, heq⟩
  · rw [heq]
  · rw [heq, List.mem_append, List.mem_singleton, Prod.mk.injEq]
    simp [hne]

section fields

variable (s : ConnectionManager) (f : PersonalMessage) (c : Cursor)

/-- A loop changes what was sent only. -/
theorem advance_rest : (s.advance f c).1 = { s with sent := (s.advance f c).1.sent } := by
  rcases advance_cases s f c with ⟨heq, -⟩ | ⟨y, -, -, heq⟩ <;> rw [heq]

@[simp] theorem advance_shared : (s.advance f c).1.shared = s.shared := by rw [advance_rest]

@[simp] theorem advance_active : (s.advance f c).1.active = s.active := by rw [advance_rest]

@[simp] theorem advance_sender : (s.advance f c).1.sender = s.sender := by rw [advance_rest]

@[simp] theorem advance_live : (s.advance f c).1.live = s.live := by rw [advance_rest]

@[simp] theorem advance_listening : (s.advance f c).1.listening = s.listening := by rw [advance_rest]

@[simp] theorem advance_queue : (s.advance f c).1.queue = s.queue := by rw [advance_rest]

@[simp] theorem advance_listener : (s.advance f c).1.listener = s.listener := by rw [advance_rest]

end fields

/-! ## What a step does -/

/-- The steps that a worker takes, without the branches in which it refuses. -/
def Takes (s t : ConnectionManager) : SocketAction → Prop
  | .connect x a => x ∉ s.known ∧ t = { s with
      known := x :: s.known
      active := Function.update s.active a { s.active a with sockets := (s.active a).sockets ++ [x] } }
  | .disconnect x a =>
    (x ∈ (s.active a).sockets ∧ t = { s with active := Function.update s.active a ((s.active a).remove x) }) ∨ t = s
  | .call f => s.sender f = none ∧
      ((s.shared = true ∧ t = { s with sender := Function.update s.sender f (some (.publishing none)) }) ∨
        (s.shared = false ∧ t = proceed f (s.deliverLocal f)))
  | .elsewhere f => s.sender f = none ∧ s.shared = true ∧
      t = { s with sender := Function.update s.sender f (some .done), queue := s.hand f }
  | .take f => s.sender f = some (.publishing none) ∧
      t = { s with sender := Function.update s.sender f (some (.publishing (some s.live))), queue := s.hand f }
  | .answer f ok => ∃ handed, s.sender f = some (.publishing handed) ∧
      ((ok = true ∧ s.listening = true ∧ handed.isSome = true ∧
          t = { s with sender := Function.update s.sender f (some .done) }) ∨
        (¬ (ok = true ∧ s.listening = true) ∧ t = proceed f (s.deliverLocal f)))
  | .resume f => ∃ c, s.sender f = some (.sending c) ∧ t = proceed f (s.advance f c)
  | .read => ∃ f rest, s.queue = f :: rest ∧ s.listener = none ∧
      t = listen f ({ s with queue := rest }.deliverLocal f)
  | .resumeListener => ∃ f c, s.listener = some (f, c) ∧ t = listen f (s.advance f c)
  | .drop => s.shared = true ∧ t = { s with live := false }
  | .notice => s.shared = true ∧ t = { s with listening := false, live := false, queue := [] }
  | .subscribe => s.listening = false ∧ s.shared = true ∧ t = { s with live := true, queue := [] }
  | .resubscribed => t = { s with listening := true }

theorem takes_of_step {t : ConnectionManager} {a : SocketAction} (h : s.step a = some t) : s.Takes t a := by
  cases a with
  | connect x a =>
    rw [step] at h
    split at h
    · cases h
    · next hx => exact ⟨hx, (Option.some.inj h).symm⟩
  | disconnect x a =>
    rw [step] at h
    split at h
    · next hx => exact .inl ⟨hx, (Option.some.inj h).symm⟩
    · exact .inr (Option.some.inj h).symm
  | call f =>
    rw [step] at h
    split at h
    · cases h
    · next hf =>
      refine ⟨Option.not_isSome_iff_eq_none.mp hf, ?_⟩
      split at h
      · next hshared => exact .inl ⟨hshared, (Option.some.inj h).symm⟩
      · next hshared => exact .inr ⟨by simpa using hshared, (Option.some.inj h).symm⟩
  | elsewhere f =>
    rw [step] at h
    split at h
    · cases h
    · next hf =>
      rw [Bool.or_eq_true, not_or] at hf
      exact ⟨Option.not_isSome_iff_eq_none.mp hf.1, by simpa using hf.2, (Option.some.inj h).symm⟩
  | take f =>
    rw [step] at h
    split at h
    · next hf => exact ⟨hf, (Option.some.inj h).symm⟩
    · cases h
  | answer f ok =>
    rw [step] at h
    split at h
    · next handed hf =>
      refine ⟨handed, hf, ?_⟩
      split at h
      · cases h
      · next htaken =>
        split at h
        · next hok =>
          obtain ⟨hok, hlistening⟩ := Bool.and_eq_true_iff.mp hok
          exact .inl ⟨hok, hlistening, by cases handed <;> simp_all, (Option.some.inj h).symm⟩
        · next hok => exact .inr ⟨by simpa using hok, (Option.some.inj h).symm⟩
    · cases h
  | resume f =>
    rw [step] at h
    split at h
    · next c hf => exact ⟨c, hf, (Option.some.inj h).symm⟩
    · cases h
  | read =>
    rw [step] at h
    split at h
    · next f rest hqueue hlistener =>
      split at h
      · exact ⟨f, rest, hqueue, hlistener, (Option.some.inj h).symm⟩
      · cases h
    · cases h
  | resumeListener =>
    obtain ⟨⟨f, c⟩, hlistener, rfl⟩ := Option.map_eq_some_iff.mp h
    exact ⟨f, c, hlistener, rfl⟩
  | drop =>
    rw [step] at h
    split at h
    · next hshared => exact ⟨hshared, (Option.some.inj h).symm⟩
    · cases h
  | notice =>
    rw [step] at h
    split at h
    · next hidle => exact ⟨(Bool.and_eq_true_iff.mp (Bool.and_eq_true_iff.mp hidle).1).1, (Option.some.inj h).symm⟩
    · cases h
  | subscribe =>
    rw [step] at h
    split at h
    · next hdown =>
      obtain ⟨hshared, hdown⟩ := Bool.and_eq_true_iff.mp hdown
      exact ⟨by simpa using hdown, hshared, (Option.some.inj h).symm⟩
    · cases h
  | resubscribed =>
    rw [step] at h
    split at h
    · exact (Option.some.inj h).symm
    · cases h

/-! ## One way for a frame -/

/-- A loop over the list of the frame's address. -/
def Loops (s : ConnectionManager) (f : PersonalMessage) (c : Cursor) : Prop :=
  s.sender f = some (.sending c) ∨ s.listener = some (f, c)

/-- A socket leaves while no loop over its list has passed it with others still to come; and a sender whose frame
was handed to the subscription of this worker finds its publication answered and the subscription up. -/
def Clean (s : ConnectionManager) : SocketAction → Prop
  | .disconnect x a => ∀ f c, f.address = a → s.Loops f c → c.epoch = (s.active a).epoch →
      x ∈ (s.active a).sockets.take c.index → (s.active a).sockets.length ≤ c.index
  | .answer f ok => s.sender f = some (.publishing (some true)) → ok = true ∧ s.listening = true
  | _ => True

variable {t : ConnectionManager} {f : PersonalMessage} {c : Cursor}

theorem Ready.congr (h : s.Ready f c) (hactive : t.active = s.active)
    (hsent : ∀ x, (x, f) ∈ t.sent → (x, f) ∈ s.sent) : t.Ready f c where
  le := hactive ▸ h.le
  ahead he x hx hmem := by
    rw [hactive] at he hx
    exact h.ahead he x hx (hsent x hmem)

theorem Registered.congr (h : s.Registered) (hactive : t.active = s.active) (hknown : t.known = s.known)
    (hsent : t.sent = s.sent) : t.Registered := by
  refine ⟨fun a => ?_, fun a => ?_, ?_, ?_⟩
  · rw [hactive]
    exact h.nodup a
  · rw [hactive, hknown]
    exact h.known a
  · rw [hsent, hknown]
    exact h.sent_known
  · rw [hsent]
    exact h.sent

theorem not_isWaiting (h : s.sender f = some .done ∨ s.sender f = some (.publishing (some true)) ∨
    ∃ c, s.sender f = some (.sending c)) : ¬ s.IsWaiting f := by
  rintro (hw | hw | hw) <;> simp [hw] at h

theorem Untouched.congr (h : s.Untouched f) (hsent : ∀ x, (x, f) ∈ t.sent → (x, f) ∈ s.sent) : t.Untouched f :=
  fun x hx => h x (hsent x hx)

/-- The sender goes through the list with its own loop. -/
theorem routed_proceed (h : s.Registered) (hr : s.Routed) (hready : s.Ready f c) (hqueue : f ∉ s.queue)
    (hlistener : ∀ d, s.listener ≠ some (f, d)) : (proceed f (s.advance f c)).Routed := by
  have hkept : ∀ g, g ≠ f → ∀ x, (x, g) ∈ (proceed f (s.advance f c)).sent → (x, g) ∈ s.sent :=
    fun g hne x hx => (mem_sent_advance hne).mp hx
  have hactive : (proceed f (s.advance f c)).active = s.active := advance_active s f c
  have hq : (proceed f (s.advance f c)).queue = s.queue := advance_queue s f c
  have hl : (proceed f (s.advance f c)).listener = s.listener := advance_listener s f c
  have hsender : ∀ g, g ≠ f → (proceed f (s.advance f c)).sender g = s.sender g := fun g hne => by
    simp [proceed, Function.update_of_ne hne]
  have hself : (proceed f (s.advance f c)).sender f = some ((s.advance f c).2.elim .done .sending) :=
    Function.update_self ..
  refine ⟨fun g d hg => ?_, fun g d hg => ?_, fun g hg => ?_, ?_, fun g hg => ?_⟩
  · rw [hq, hl]
    by_cases hne : g = f
    · subst hne
      refine ⟨?_, hqueue, hlistener⟩
      rw [hself] at hg
      cases hd : (s.advance g c).2 with
      | none =>
        rw [hd] at hg
        cases hg
      | some d' =>
        rw [hd] at hg
        obtain rfl : d' = d := by simpa using hg
        exact (hready.advance h hd).congr rfl fun x hx => hx
    · rw [hsender g hne] at hg
      obtain ⟨hready', hrest⟩ := hr.sending g d hg
      exact ⟨hready'.congr hactive (hkept g hne), hrest⟩
  · rw [hl] at hg
    have hne : g ≠ f := by
      rintro rfl
      exact hlistener d hg
    obtain ⟨hready', hrest⟩ := hr.listening g d hg
    rw [hq]
    exact ⟨hready'.congr hactive (hkept g hne), hrest⟩
  · rw [hq] at hg
    have hne : g ≠ f := by
      rintro rfl
      exact hqueue hg
    exact (hr.queued g hg).congr (hkept g hne)
  · rw [hq]
    exact hr.queue
  · have hne : g ≠ f := by
      rintro rfl
      refine not_isWaiting ?_ hg
      rw [hself]
      cases (s.advance g c).2 with
      | none => exact .inl rfl
      | some d => exact .inr (.inr ⟨d, rfl⟩)
    rw [IsWaiting, hsender g hne] at hg
    obtain ⟨huntouched, hrest⟩ := hr.waiting g hg
    rw [hq, hl]
    exact ⟨huntouched.congr (hkept g hne), hrest⟩

/-- The listener goes through the list. -/
theorem routed_listen (h : s.Registered) (hr : s.Routed) (hready : s.Ready f c) (hqueue : f ∉ s.queue)
    (hlistener : s.listener = none ∨ ∃ d, s.listener = some (f, d)) (hsending : ∀ d, s.sender f ≠ some (.sending d))
    (hwaiting : ¬ s.IsWaiting f) : (listen f (s.advance f c)).Routed := by
  have hkept : ∀ g, g ≠ f → ∀ x, (x, g) ∈ (listen f (s.advance f c)).sent → (x, g) ∈ s.sent :=
    fun g hne x hx => (mem_sent_advance hne).mp hx
  have hactive : (listen f (s.advance f c)).active = s.active := advance_active s f c
  have hq : (listen f (s.advance f c)).queue = s.queue := advance_queue s f c
  have hsender : (listen f (s.advance f c)).sender = s.sender := advance_sender s f c
  have hl : ∀ g d, (listen f (s.advance f c)).listener = some (g, d) → g = f ∧ (s.advance f c).2 = some d := by
    intro g d hg
    obtain ⟨d', hd', heq⟩ := Option.map_eq_some_iff.mp hg
    obtain ⟨rfl, rfl⟩ := Prod.mk.inj heq
    exact ⟨rfl, hd'⟩
  refine ⟨fun g d hg => ?_, fun g d hg => ?_, fun g hg => ?_, ?_, fun g hg => ?_⟩
  · rw [hsender] at hg
    have hne : g ≠ f := by
      rintro rfl
      exact hsending d hg
    obtain ⟨hready', hnot, -⟩ := hr.sending g d hg
    rw [hq]
    exact ⟨hready'.congr hactive (hkept g hne), hnot, fun d' hd' => hne (hl g d' hd').1⟩
  · obtain ⟨rfl, hd⟩ := hl g d hg
    rw [hq]
    exact ⟨(hready.advance h hd).congr rfl fun x hx => hx, hqueue⟩
  · rw [hq] at hg
    have hne : g ≠ f := by
      rintro rfl
      exact hqueue hg
    exact (hr.queued g hg).congr (hkept g hne)
  · rw [hq]
    exact hr.queue
  · rw [IsWaiting, hsender] at hg
    have hne : g ≠ f := by
      rintro rfl
      exact hwaiting hg
    obtain ⟨huntouched, hnot, -⟩ := hr.waiting g hg
    rw [hq]
    exact ⟨huntouched.congr (hkept g hne), hnot, fun d hd => hne (hl g d hd).1⟩

/-- The registry or the subscription changes, and no loop becomes unready. -/
theorem Routed.congr (hr : s.Routed) (hsender : t.sender = s.sender) (hqueue : t.queue.Sublist s.queue)
    (hlistener : t.listener = s.listener) (hsent : t.sent = s.sent) (hready : ∀ f c, s.Ready f c → t.Ready f c) :
    t.Routed := by
  have huntouched : ∀ g, s.Untouched g → t.Untouched g := fun g hg => hg.congr fun x hx => hsent ▸ hx
  refine ⟨fun g d hg => ?_, fun g d hg => ?_, fun g hg => ?_, hr.queue.sublist hqueue, fun g hg => ?_⟩
  · rw [hsender] at hg
    obtain ⟨hg, hnot, hrest⟩ := hr.sending g d hg
    rw [hlistener]
    exact ⟨hready g d hg, fun hmem => hnot (hqueue.mem hmem), hrest⟩
  · rw [hlistener] at hg
    obtain ⟨hg, hnot⟩ := hr.listening g d hg
    exact ⟨hready g d hg, fun hmem => hnot (hqueue.mem hmem)⟩
  · exact huntouched g (hr.queued g (hqueue.mem hg))
  · rw [IsWaiting, hsender] at hg
    obtain ⟨hg, hnot, hrest⟩ := hr.waiting g hg
    rw [hlistener]
    exact ⟨huntouched g hg, fun hmem => hnot (hqueue.mem hmem), hrest⟩

/-- The sender of a frame goes on without a loop, and waits only if it did. -/
theorem Routed.mark (hr : s.Routed) (p : SenderPoint) (hp : ∀ c, p ≠ .sending c)
    (hwaiting : p = .publishing none ∨ p = .publishing (some false) → s.IsWaiting f)
    (ht : t = { s with sender := Function.update s.sender f (some p) }) : t.Routed := by
  subst ht
  have hself : Function.update s.sender f (some p) f = some p := Function.update_self ..
  have hsender : ∀ g, g ≠ f → Function.update s.sender f (some p) g = s.sender g := fun g hne =>
    Function.update_of_ne hne ..
  have hready : ∀ g d, s.Ready g d → Ready { s with sender := Function.update s.sender f (some p) } g d :=
    fun g d hg => hg.congr rfl fun x hx => hx
  refine ⟨fun g d hg => ?_, fun g d hg => ?_, hr.queued, hr.queue, fun g hg => ?_⟩
  · by_cases hne : g = f
    · subst hne
      exact absurd (Option.some.inj (hself.symm.trans hg)) (hp d)
    · obtain ⟨hg, hrest⟩ := hr.sending g d ((hsender g hne).symm.trans hg)
      exact ⟨hready g d hg, hrest⟩
  · obtain ⟨hg, hrest⟩ := hr.listening g d hg
    exact ⟨hready g d hg, hrest⟩
  · by_cases hne : g = f
    · subst hne
      refine hr.waiting g (hwaiting ?_)
      simpa [IsWaiting] using hg
    · refine hr.waiting g ?_
      rw [IsWaiting] at hg ⊢
      simp only [hsender g hne] at hg
      exact hg

/-- A frame that waited is handed to the subscription. -/
theorem Routed.handed (hr : s.Routed) (p : SenderPoint) (hp : ∀ c, p ≠ .sending c) (hwaits : s.IsWaiting f)
    (hnot : p ≠ .publishing none ∧ p ≠ .publishing (some false))
    (ht : t = { s with sender := Function.update s.sender f (some p), queue := s.queue ++ [f] }) : t.Routed := by
  obtain ⟨huntouched, hfresh, hlistener⟩ := hr.waiting f hwaits
  have hmarked := hr.mark (f := f) p hp (fun h => absurd h (by simpa using hnot)) rfl
  subst ht
  have hself : Function.update s.sender f (some p) f = some p := Function.update_self ..
  have hmem : ∀ g, g ≠ f → g ∉ s.queue → g ∉ s.queue ++ [f] := by
    intro g hne hg hmem
    rcases List.mem_append.mp hmem with hmem | hmem
    · exact hg hmem
    · exact hne (List.mem_singleton.mp hmem)
  refine ⟨fun g d hg => ?_, fun g d hg => ?_, fun g hg => ?_, ?_, fun g hg => ?_⟩
  · have hne : g ≠ f := by
      rintro rfl
      exact absurd (Option.some.inj (hself.symm.trans hg)) (hp d)
    obtain ⟨hg, hnot, hrest⟩ := hmarked.sending g d hg
    exact ⟨hg.congr rfl fun x hx => hx, hmem g hne hnot, hrest⟩
  · have hne : g ≠ f := by
      rintro rfl
      exact hlistener d hg
    obtain ⟨hg, hnot⟩ := hmarked.listening g d hg
    exact ⟨hg.congr rfl fun x hx => hx, hmem g hne hnot⟩
  · rcases List.mem_append.mp hg with hg | hg
    · exact hr.queued g hg
    · rw [List.mem_singleton.mp hg]
      exact huntouched
  · refine List.nodup_append'.mpr ⟨hr.queue, List.nodup_singleton _, ?_⟩
    rwa [List.disjoint_singleton]
  · have hne : g ≠ f := by
      rintro rfl
      simp [IsWaiting, hnot.1, hnot.2] at hg
    obtain ⟨hg, hnot, hrest⟩ := hmarked.waiting g hg
    exact ⟨hg, hmem g hne hnot, hrest⟩

/-- Redis takes a frame that waited. -/
theorem Routed.hand (hr : s.Routed) (p : SenderPoint) (hp : ∀ c, p ≠ .sending c) (hwaits : s.IsWaiting f)
    (hnot : s.live = true → p ≠ .publishing none ∧ p ≠ .publishing (some false))
    (ht : t = { s with sender := Function.update s.sender f (some p), queue := s.hand f }) : t.Routed := by
  rw [ConnectionManager.hand] at ht
  split at ht
  · next hlive => exact hr.handed p hp hwaits (hnot hlive) ht
  · exact hr.mark p hp (fun _ => hwaits) ht

/-- A socket connects. -/
theorem ready_connect {x : ℕ} {a : String} (h : s.Registered) (hx : x ∉ s.known) (hready : s.Ready f c)
    (hactive : t.active =
      Function.update s.active a { s.active a with sockets := (s.active a).sockets ++ [x] })
    (hsent : t.sent = s.sent) : t.Ready f c := by
  by_cases ha : f.address = a
  · subst ha
    have hlist : t.active f.address =
        { s.active f.address with sockets := (s.active f.address).sockets ++ [x] } := by
      rw [hactive, Function.update_self]
    refine ⟨by rw [hlist]; exact hready.le, fun hepoch y hy hmem => ?_⟩
    rw [hlist] at hepoch hy
    rw [hsent] at hmem
    rw [List.drop_append] at hy
    rcases List.mem_append.mp hy with hy | hy
    · exact hready.ahead hepoch y hy hmem
    · rw [List.mem_singleton.mp (List.mem_of_mem_drop hy)] at hmem
      exact hx (h.sent_known _ hmem)
  · have hlist : t.active f.address = s.active f.address := by rw [hactive, Function.update_of_ne ha]
    refine ⟨hlist ▸ hready.le, fun hepoch y hy hmem => ?_⟩
    rw [hlist] at hepoch hy
    exact hready.ahead hepoch y hy (hsent ▸ hmem)

/-- A socket disconnects. -/
theorem ready_disconnect {x : ℕ} {a : String} (hready : s.Ready f c)
    (hactive : t.active = Function.update s.active a ((s.active a).remove x)) (hsent : t.sent = s.sent) :
    t.Ready f c := by
  by_cases ha : f.address = a
  · subst ha
    have hlist : t.active f.address = (s.active f.address).remove x := by rw [hactive, Function.update_self]
    have hle := hready.le
    refine ⟨?_, fun hepoch y hy hmem => ?_⟩
    · rw [hlist, Connections.remove]
      dsimp only
      split <;> omega
    · rw [hlist, Connections.remove] at hepoch hy
      dsimp only at hepoch hy
      refine hready.ahead ?_ y ((drop_erase_sublist _ x _).mem hy) (hsent ▸ hmem)
      split at hepoch <;> omega
  · have hlist : t.active f.address = s.active f.address := by rw [hactive, Function.update_of_ne ha]
    refine ⟨hlist ▸ hready.le, fun hepoch y hy hmem => ?_⟩
    rw [hlist] at hepoch hy
    exact hready.ahead hepoch y hy (hsent ▸ hmem)

theorem registered_connect {x : ℕ} {a : String} (h : s.Registered) (hx : x ∉ s.known) (ht : t = { s with
    known := x :: s.known
    active := Function.update s.active a { s.active a with sockets := (s.active a).sockets ++ [x] } }) :
    t.Registered := by
  have hself : t.active a = { s.active a with sockets := (s.active a).sockets ++ [x] } := by
    rw [ht]
    exact Function.update_self ..
  have hother : ∀ b, b ≠ a → t.active b = s.active b := fun b hne => by
    rw [ht]
    exact Function.update_of_ne hne ..
  have hknown : t.known = x :: s.known := by rw [ht]
  refine ⟨fun b => ?_, fun b y hy => ?_, fun e he => ?_, by rw [ht]; exact h.sent⟩
  · by_cases hne : b = a
    · rw [hne, hself]
      refine List.nodup_append'.mpr ⟨h.nodup a, List.nodup_singleton x, ?_⟩
      rw [List.disjoint_singleton]
      exact fun hmem => hx (h.known a x hmem)
    · rw [hother b hne]
      exact h.nodup b
  · rw [hknown]
    by_cases hne : b = a
    · rw [hne, hself] at hy
      rcases List.mem_append.mp hy with hy | hy
      · exact List.mem_cons_of_mem _ (h.known a y hy)
      · rw [List.mem_singleton.mp hy]
        exact List.mem_cons_self
    · rw [hother b hne] at hy
      exact List.mem_cons_of_mem _ (h.known b y hy)
  · rw [ht] at he
    rw [hknown]
    exact List.mem_cons_of_mem _ (h.sent_known e he)

theorem registered_disconnect {x : ℕ} {a : String} (h : s.Registered)
    (ht : t = { s with active := Function.update s.active a ((s.active a).remove x) }) : t.Registered := by
  have hsublist : ∀ b, (t.active b).sockets.Sublist (s.active b).sockets := by
    intro b
    rw [ht]
    by_cases hne : b = a
    · subst hne
      simp only [Function.update_self]
      exact List.erase_sublist
    · simp only [Function.update_of_ne hne]
      exact List.Sublist.refl _
  refine ⟨fun b => (h.nodup b).sublist (hsublist b), fun b y hy => ?_, ?_, ?_⟩
  · rw [ht]
    exact h.known b y ((hsublist b).mem hy)
  · rw [ht]
    exact h.sent_known
  · rw [ht]
    exact h.sent

theorem registered_proceed (h : s.Registered) (hready : s.Ready f c) :
    (proceed f (s.advance f c)).Registered := (h.advance hready).congr rfl rfl rfl

theorem registered_listen (h : s.Registered) (hready : s.Ready f c) : (listen f (s.advance f c)).Registered :=
  (h.advance hready).congr rfl rfl rfl

/-- A clean step sends no socket a frame twice. -/
theorem sound_step {a : SocketAction} (h : s.Registered) (hr : s.Routed) (hclean : s.Clean a)
    (hstep : s.step a = some t) : t.Registered ∧ t.Routed := by
  have htakes := takes_of_step hstep
  cases a with
  | connect x a =>
    obtain ⟨hx, rfl⟩ := htakes
    refine ⟨registered_connect h hx rfl, hr.congr rfl (List.Sublist.refl _) rfl rfl fun f c hready => ?_⟩
    exact ready_connect h hx hready rfl rfl
  | disconnect x a =>
    rcases htakes with ⟨hx, rfl⟩ | rfl
    · refine ⟨registered_disconnect h rfl, hr.congr rfl (List.Sublist.refl _) rfl rfl fun f c hready => ?_⟩
      exact ready_disconnect hready rfl rfl
    · exact ⟨h, hr⟩
  | call f =>
    obtain ⟨hnone, ⟨-, rfl⟩ | ⟨-, rfl⟩⟩ := htakes
    · exact ⟨h.congr rfl rfl rfl, hr.mark (.publishing none) nofun (fun _ => .inl hnone) rfl⟩
    · obtain ⟨huntouched, hqueue, hlistener⟩ := hr.waiting f (.inl hnone)
      exact ⟨registered_proceed h huntouched.ready, routed_proceed h hr huntouched.ready hqueue hlistener⟩
  | elsewhere f =>
    obtain ⟨hnone, -, rfl⟩ := htakes
    exact ⟨h.congr rfl rfl rfl, hr.hand .done nofun (.inl hnone) (fun _ => ⟨nofun, nofun⟩) rfl⟩
  | take f =>
    obtain ⟨hsender, rfl⟩ := htakes
    refine ⟨h.congr rfl rfl rfl,
      hr.hand (.publishing (some s.live)) nofun (.inr (.inl hsender)) (fun hlive => ?_) rfl⟩
    rw [hlive]
    exact ⟨nofun, nofun⟩
  | answer f ok =>
    obtain ⟨handed, hsender, ⟨-, -, -, rfl⟩ | ⟨hnot, rfl⟩⟩ := htakes
    · exact ⟨h.congr rfl rfl rfl, hr.mark .done nofun nofun rfl⟩
    · have hwaits : s.IsWaiting f := by
        cases handed with
        | none => exact .inr (.inl hsender)
        | some handed =>
          cases handed with
          | false => exact .inr (.inr hsender)
          | true => exact absurd (hclean hsender) hnot
      obtain ⟨huntouched, hqueue, hlistener⟩ := hr.waiting f hwaits
      exact ⟨registered_proceed h huntouched.ready, routed_proceed h hr huntouched.ready hqueue hlistener⟩
  | resume f =>
    obtain ⟨c, hsender, rfl⟩ := htakes
    obtain ⟨hready, hqueue, hlistener⟩ := hr.sending f c hsender
    exact ⟨registered_proceed h hready, routed_proceed h hr hready hqueue hlistener⟩
  | read =>
    obtain ⟨f, rest, hqueue, hlistener, rfl⟩ := htakes
    have hmem : f ∈ s.queue := by
      rw [hqueue]
      exact List.mem_cons_self
    have hnodup := hr.queue
    rw [hqueue] at hnodup
    have hrest : Routed { s with queue := rest } :=
      hr.congr rfl (by rw [hqueue]; exact List.sublist_cons_self f rest) rfl rfl fun g d hg =>
        hg.congr rfl fun x hx => hx
    have huntouched : Untouched { s with queue := rest } f := hr.queued f hmem
    have hregistered : Registered { s with queue := rest } := h.congr rfl rfl rfl
    refine ⟨registered_listen hregistered huntouched.ready, routed_listen hregistered hrest huntouched.ready
      (List.nodup_cons.mp hnodup).1 (.inl hlistener) (fun d hd => ?_) fun hwaits => ?_⟩
    · exact (hr.sending f d hd).2.1 hmem
    · exact (hr.waiting f hwaits).2.1 hmem
  | resumeListener =>
    obtain ⟨f, c, hlistener, rfl⟩ := htakes
    obtain ⟨hready, hqueue⟩ := hr.listening f c hlistener
    refine ⟨registered_listen h hready, routed_listen h hr hready hqueue (.inr ⟨c, hlistener⟩) (fun d hd => ?_)
      fun hwaits => ?_⟩
    · exact (hr.sending f d hd).2.2 c hlistener
    · exact (hr.waiting f hwaits).2.2 c hlistener
  | drop =>
    obtain ⟨-, rfl⟩ := htakes
    exact ⟨h.congr rfl rfl rfl,
      hr.congr rfl (List.Sublist.refl _) rfl rfl fun g d hg => hg.congr rfl fun x hx => hx⟩
  | notice =>
    obtain ⟨-, rfl⟩ := htakes
    exact ⟨h.congr rfl rfl rfl,
      hr.congr rfl (List.nil_sublist _) rfl rfl fun g d hg => hg.congr rfl fun x hx => hx⟩
  | subscribe =>
    obtain ⟨-, -, rfl⟩ := htakes
    exact ⟨h.congr rfl rfl rfl,
      hr.congr rfl (List.nil_sublist _) rfl rfl fun g d hg => hg.congr rfl fun x hx => hx⟩
  | resubscribed =>
    obtain rfl := htakes
    exact ⟨h.congr rfl rfl rfl,
      hr.congr rfl (List.Sublist.refl _) rfl rfl fun g d hg => hg.congr rfl fun x hx => hx⟩

theorem sound_start (shared : Bool) : (start shared).Registered ∧ (start shared).Routed := by
  refine ⟨⟨by simp [start], by simp [start], by simp [start], by simp [start]⟩, ?_⟩
  exact ⟨by simp [start], by simp [start], by simp [start], by simp [start], by simp [start, Untouched]⟩

/-! ## A socket that stays -/

/-- A socket was sent the frame, or the frame is still on its way to it. -/
def Due (s : ConnectionManager) (x : ℕ) (f : PersonalMessage) : Prop :=
  s.sender f = some (.publishing none) ∧ s.shared = true ∨ f ∈ s.queue ∨
    (∃ c, s.Loops f c ∧ c.epoch = (s.active f.address).epoch ∧ x ∈ (s.active f.address).sockets.drop c.index) ∨
    (x, f) ∈ s.sent

/-- A socket is registered and due a frame, and in shared mode the subscription is up. -/
structure Owed (s : ConnectionManager) (x : ℕ) (f : PersonalMessage) : Prop where
  registered : x ∈ (s.active f.address).sockets
  up : s.shared = true → s.live = true ∧ s.listening = true
  due : s.Due x f

/-- A loop reaches the sockets that are before it, or it has them still before it. -/
theorem due_advance {x : ℕ} (hepoch : c.epoch = (s.active f.address).epoch)
    (hx : x ∈ (s.active f.address).sockets.drop c.index) :
    (x, f) ∈ (s.advance f c).1.sent ∨ ∃ d, (s.advance f c).2 = some d ∧
      d.epoch = (s.active f.address).epoch ∧ x ∈ (s.active f.address).sockets.drop d.index := by
  rcases advance_cases s f c with ⟨-, hend⟩ | ⟨y, -, hdrop, heq⟩
  · rw [hend hepoch] at hx
    cases hx
  · rw [heq]
    rw [hdrop] at hx
    rcases List.mem_cons.mp hx with rfl | hx
    · exact .inl (by simp)
    · exact .inr ⟨_, rfl, hepoch, hx⟩

theorem sent_advance (s : ConnectionManager) (f : PersonalMessage) (c : Cursor) {e : ℕ × PersonalMessage}
    (he : e ∈ s.sent) :
    e ∈ (s.advance f c).1.sent := by
  rcases advance_cases s f c with ⟨heq, -⟩ | ⟨y, -, -, heq⟩
  · rwa [heq]
  · rw [heq]
    exact List.mem_append_left _ he

theorem mem_hand {g : PersonalMessage} (h : f ∈ s.queue) : f ∈ s.hand g := by
  rw [hand]
  split
  · exact List.mem_append_left _ h
  · exact h

variable {x : ℕ}

/-- A frame that was handed over waits no more. -/
theorem Due.publishing (h : s.Due x f) (hr : s.Routed) (hwaits : s.IsWaiting f) :
    s.sender f = some (.publishing none) ∧ s.shared = true := by
  obtain ⟨huntouched, hqueue, hlistener⟩ := hr.waiting f hwaits
  rcases h with h | h | ⟨c, hsending | hlistens, -⟩ | h
  · exact h
  · exact absurd h hqueue
  · exact absurd hwaits (not_isWaiting (.inr (.inr ⟨c, hsending⟩)))
  · exact absurd hlistens (hlistener c)
  · exact absurd h (huntouched x)

/-- The loop of a sender goes on. -/
theorem due_proceed {g : PersonalMessage} (hother : g ≠ f → s.Due x f)
    (hself : g = f → (x, f) ∈ s.sent ∨ (c.epoch = (s.active f.address).epoch ∧
      x ∈ (s.active f.address).sockets.drop c.index)) :
    (proceed g (s.advance g c)).Due x f := by
  have hactive : (proceed g (s.advance g c)).active = s.active := advance_active s g c
  by_cases hg : g = f
  · subst hg
    rcases hself rfl with h | ⟨hepoch, hx⟩
    · exact .inr (.inr (.inr (sent_advance s g c h)))
    · rcases due_advance hepoch hx with h | ⟨d, hd, hepoch, hx⟩
      · exact .inr (.inr (.inr h))
      · refine .inr (.inr (.inl ⟨d, .inl ?_, by rw [hactive]; exact hepoch, by rw [hactive]; exact hx⟩))
        rw [proceed, hd]
        exact Function.update_self ..
  · have hsender : (proceed g (s.advance g c)).sender f = s.sender f := by
      simp [proceed, Function.update_of_ne (Ne.symm hg)]
    rcases hother hg with ⟨h, hshared⟩ | h | ⟨d, h, hepoch, hx⟩ | h
    · exact .inl ⟨hsender.trans h, (advance_shared s g c).trans hshared⟩
    · refine .inr (.inl ?_)
      rw [proceed]
      simpa using h
    · refine .inr (.inr (.inl ⟨d, ?_, by rw [hactive]; exact hepoch, by rw [hactive]; exact hx⟩))
      exact h.imp hsender.trans (advance_listener s g c).trans
    · exact .inr (.inr (.inr (sent_advance s g c h)))

/-- The loop of the listener goes on. -/
theorem due_listen {g : PersonalMessage} (hother : g ≠ f → s.Due x f ∧ ∀ d, s.listener ≠ some (f, d))
    (hself : g = f → (x, f) ∈ s.sent ∨ (c.epoch = (s.active f.address).epoch ∧
      x ∈ (s.active f.address).sockets.drop c.index)) :
    (listen g (s.advance g c)).Due x f := by
  have hactive : (listen g (s.advance g c)).active = s.active := advance_active s g c
  have hsender : (listen g (s.advance g c)).sender = s.sender := advance_sender s g c
  by_cases hg : g = f
  · subst hg
    rcases hself rfl with h | ⟨hepoch, hx⟩
    · exact .inr (.inr (.inr (sent_advance s g c h)))
    · rcases due_advance hepoch hx with h | ⟨d, hd, hepoch, hx⟩
      · exact .inr (.inr (.inr h))
      · refine .inr (.inr (.inl ⟨d, .inr ?_, by rw [hactive]; exact hepoch, by rw [hactive]; exact hx⟩))
        rw [listen, hd]
        rfl
  · obtain ⟨hdue, hlistener⟩ := hother hg
    rcases hdue with ⟨h, hshared⟩ | h | ⟨d, h, hepoch, hx⟩ | h
    · exact .inl ⟨by rw [hsender]; exact h, (advance_shared s g c).trans hshared⟩
    · refine .inr (.inl ?_)
      rw [listen]
      simpa using h
    · refine .inr (.inr (.inl ⟨d, .inl ?_, by rw [hactive]; exact hepoch, by rw [hactive]; exact hx⟩))
      rw [hsender]
      exact h.resolve_right (hlistener d)
    · exact .inr (.inr (.inr (sent_advance s g c h)))

/-- The way of the frame is as it was. -/
theorem Due.congr (h : s.Due x f) (hsender : t.sender f = s.sender f) (hshared : t.shared = s.shared)
    (hqueue : f ∈ s.queue → f ∈ t.queue) (hlistener : t.listener = s.listener) (hsent : t.sent = s.sent)
    (hactive : ∀ c, s.Loops f c → c.epoch = (s.active f.address).epoch →
      x ∈ (s.active f.address).sockets.drop c.index →
        c.epoch = (t.active f.address).epoch ∧ x ∈ (t.active f.address).sockets.drop c.index) : t.Due x f := by
  rcases h with ⟨h, h'⟩ | h | ⟨c, h, hepoch, hx⟩ | h
  · exact .inl ⟨hsender.trans h, hshared.trans h'⟩
  · exact .inr (.inl (hqueue h))
  · exact .inr (.inr (.inl ⟨c, h.imp hsender.trans hlistener.trans, hactive c h hepoch hx⟩))
  · exact .inr (.inr (.inr (by rw [hsent]; exact h)))

/-- The registry changes, and the sockets before each loop over the list stay before it. -/
theorem Owed.registry (h : s.Owed x f) (ht : t = { s with active := t.active, known := t.known })
    (hregistered : x ∈ (t.active f.address).sockets) (hactive : ∀ c, s.Loops f c →
      c.epoch = (s.active f.address).epoch → x ∈ (s.active f.address).sockets.drop c.index →
        c.epoch = (t.active f.address).epoch ∧ x ∈ (t.active f.address).sockets.drop c.index) : t.Owed x f := by
  refine ⟨hregistered, ?_, h.due.congr ?_ ?_ (fun hmem => ?_) ?_ ?_ hactive⟩
  · rw [ht]
    exact h.up
  · rw [ht]
  · rw [ht]
  · rw [ht]
    exact hmem
  · rw [ht]
  · rw [ht]

theorem Owed.connect {y : ℕ} {b : String} (h : s.Owed x f) (ht : t = { s with
    known := y :: s.known
    active := Function.update s.active b { s.active b with sockets := (s.active b).sockets ++ [y] } }) :
    t.Owed x f := by
  by_cases hb : f.address = b
  · subst hb
    have hlist : t.active f.address =
        { s.active f.address with sockets := (s.active f.address).sockets ++ [y] } := by
      rw [ht]
      exact Function.update_self ..
    refine h.registry (by rw [ht]) ?_ fun c _ hepoch hx => ?_
    · rw [hlist]
      exact List.mem_append_left _ h.registered
    · rw [hlist, List.drop_append]
      exact ⟨hepoch, List.mem_append_left _ hx⟩
  · have hlist : t.active f.address = s.active f.address := by
      rw [ht]
      exact Function.update_of_ne hb ..
    refine h.registry (by rw [ht]) ?_ fun c _ hepoch hx => ?_
    · rw [hlist]
      exact h.registered
    · rw [hlist]
      exact ⟨hepoch, hx⟩

theorem Owed.disconnect {y : ℕ} {b : String} (h : s.Owed x f) (hne : b = f.address → x ≠ y)
    (hclean : s.Clean (.disconnect y b))
    (ht : t = { s with active := Function.update s.active b ((s.active b).remove y) }) : t.Owed x f := by
  by_cases hb : f.address = b
  · subst hb
    have hlist : t.active f.address = (s.active f.address).remove y := by
      rw [ht]
      exact Function.update_self ..
    have hstays : x ∈ (s.active f.address).sockets.erase y :=
      (List.mem_erase_of_ne (hne rfl)).mpr h.registered
    have hepoch' : ((s.active f.address).remove y).epoch = (s.active f.address).epoch := by
      have hnonempty : ((s.active f.address).sockets.erase y).isEmpty = false :=
        List.isEmpty_eq_false_iff.mpr (List.ne_nil_of_mem hstays)
      rw [Connections.remove, hnonempty]
      rfl
    refine h.registry (by rw [ht]) ?_ fun c hloops hepoch hx => ?_
    · rw [hlist]
      exact hstays
    · rw [hlist, hepoch']
      exact ⟨hepoch, mem_drop_erase hx (hne rfl) (hclean f c rfl hloops hepoch)⟩
  · have hlist : t.active f.address = s.active f.address := by
      rw [ht]
      exact Function.update_of_ne hb ..
    refine h.registry (by rw [ht]) ?_ fun c _ hepoch hx => ?_
    · rw [hlist]
      exact h.registered
    · rw [hlist]
      exact ⟨hepoch, hx⟩

/-- Another frame's sender is marked, and the queue keeps the frame. -/
theorem Owed.mark {g : PersonalMessage} (h : s.Owed x f) (hne : g ≠ f) (p : SenderPoint) {q : List PersonalMessage}
    (hq : f ∈ s.queue → f ∈ q) :
    Owed { s with sender := Function.update s.sender g (some p), queue := q } x f :=
  ⟨h.registered, h.up, h.due.congr (Function.update_of_ne (Ne.symm hne) ..) rfl hq rfl rfl
    fun _ _ hepoch hx => ⟨hepoch, hx⟩⟩

/-- A clean step leaves a socket that stays what it is due, while the subscription stays up. -/
theorem owed_step {a : SocketAction} (h : s.Owed x f) (hr : s.Routed) (hclean : s.Clean a)
    (hstays : a ≠ .disconnect x f.address) (hends : s.shared = true → a ≠ .drop ∧ a ≠ .notice)
    (hstep : s.step a = some t) : t.Owed x f := by
  have hup := h.up
  have htakes := takes_of_step hstep
  have hother : ∀ {g : PersonalMessage}, s.sender g = none → g ≠ f := by
    rintro g hnone rfl
    have := (h.due.publishing hr (.inl hnone)).1
    rw [hnone] at this
    cases this
  cases a with
  | connect y b => exact h.connect htakes.2
  | disconnect y b =>
    rcases htakes with ⟨-, ht⟩ | rfl
    · exact h.disconnect (fun hb hxy => hstays (by rw [hb, hxy])) hclean ht
    · exact h
  | call g =>
    obtain ⟨hnone, ⟨-, rfl⟩ | ⟨-, rfl⟩⟩ := htakes
    · exact h.mark (hother hnone) _ id
    · exact ⟨by simpa [proceed, deliverLocal] using h.registered, by simpa [proceed, deliverLocal] using hup,
        due_proceed (fun _ => h.due) fun heq => absurd heq (hother hnone)⟩
  | elsewhere g =>
    obtain ⟨hnone, -, rfl⟩ := htakes
    exact h.mark (hother hnone) _ mem_hand
  | take g =>
    obtain ⟨hsender, rfl⟩ := htakes
    by_cases hne : g = f
    · subst hne
      obtain ⟨-, hshared⟩ := h.due.publishing hr (.inr (.inl hsender))
      refine ⟨h.registered, hup, .inr (.inl ?_)⟩
      simp only [hand, (hup hshared).1, if_true]
      exact List.mem_append_right _ List.mem_cons_self
    · exact h.mark hne _ mem_hand
  | answer g ok =>
    obtain ⟨handed, hsender, ⟨-, -, htaken, rfl⟩ | ⟨hnot, rfl⟩⟩ := htakes
    · by_cases hne : g = f
      · subst hne
        refine ⟨h.registered, hup, ?_⟩
        rcases h.due with ⟨hpublishing, -⟩ | hmem | ⟨c, hsending | hlistens, hepoch, hx⟩ | hsent
        · obtain rfl : handed = none := by simpa using hsender.symm.trans hpublishing
          cases htaken
        · exact .inr (.inl hmem)
        · rw [hsender] at hsending
          cases hsending
        · exact .inr (.inr (.inl ⟨c, .inr hlistens, hepoch, hx⟩))
        · exact .inr (.inr (.inr hsent))
      · exact h.mark hne _ id
    · refine ⟨by simpa [proceed, deliverLocal] using h.registered, by simpa [proceed, deliverLocal] using hup,
        due_proceed (fun _ => h.due) fun heq => .inr ?_⟩
      subst heq
      exact ⟨rfl, h.registered⟩
  | resume g =>
    obtain ⟨c, hsender, rfl⟩ := htakes
    refine ⟨by simpa [proceed] using h.registered, by simpa [proceed] using hup,
      due_proceed (fun _ => h.due) fun heq => ?_⟩
    subst heq
    obtain ⟨-, hqueue, hlistener⟩ := hr.sending g c hsender
    rcases h.due with ⟨hpublishing, -⟩ | hmem | ⟨d, hsending | hlistens, hepoch, hx⟩ | hsent
    · rw [hsender] at hpublishing
      cases hpublishing
    · exact absurd hmem hqueue
    · obtain rfl : c = d := by simpa using hsender.symm.trans hsending
      exact .inr ⟨hepoch, hx⟩
    · exact absurd hlistens (hlistener d)
    · exact .inl hsent
  | read =>
    obtain ⟨g, rest, hqueue, hlistener, rfl⟩ := htakes
    refine ⟨by simpa [listen, deliverLocal] using h.registered, by simpa [listen, deliverLocal] using hup,
      due_listen (fun hne => ⟨?_, ?_⟩) fun heq => .inr ?_⟩
    · refine h.due.congr rfl rfl (fun hmem => ?_) rfl rfl fun _ _ hepoch hx => ⟨hepoch, hx⟩
      rw [hqueue] at hmem
      exact (List.mem_cons.mp hmem).resolve_left (Ne.symm hne)
    · intro d hd
      rw [hlistener] at hd
      cases hd
    · subst heq
      exact ⟨rfl, h.registered⟩
  | resumeListener =>
    obtain ⟨g, c, hlistener, rfl⟩ := htakes
    refine ⟨by simpa [listen] using h.registered, by simpa [listen] using hup,
      due_listen (fun hne => ⟨h.due, ?_⟩) fun heq => ?_⟩
    · intro d hd
      rw [hlistener] at hd
      obtain ⟨rfl, -⟩ := Prod.mk.inj (Option.some.inj hd)
      exact hne rfl
    · subst heq
      obtain ⟨-, hqueue⟩ := hr.listening g c hlistener
      rcases h.due with ⟨hpublishing, -⟩ | hmem | ⟨d, hsending | hlistens, hepoch, hx⟩ | hsent
      · exact absurd hlistener ((hr.waiting g (.inr (.inl hpublishing))).2.2 c)
      · exact absurd hmem hqueue
      · exact absurd hlistener ((hr.sending g d hsending).2.2 c)
      · obtain rfl : c = d := by simpa using hlistener.symm.trans hlistens
        exact .inr ⟨hepoch, hx⟩
      · exact .inl hsent
  | drop => exact absurd rfl (hends htakes.1).1
  | notice => exact absurd rfl (hends htakes.1).2
  | subscribe =>
    obtain ⟨hdown, hshared, -⟩ := htakes
    rw [(hup hshared).2] at hdown
    cases hdown
  | resubscribed =>
    obtain rfl := htakes
    exact ⟨h.registered, fun hshared => ⟨(hup hshared).1, rfl⟩,
      h.due.congr rfl rfl id rfl rfl fun _ _ hepoch hx => ⟨hepoch, hx⟩⟩

/-- A call owes the frame to the sockets that are registered. -/
theorem owed_call (hregistered : x ∈ (s.active f.address).sockets)
    (hup : s.shared = true → s.live = true ∧ s.listening = true) (hstep : s.step (.call f) = some t) :
    t.Owed x f := by
  obtain ⟨-, ⟨hshared, rfl⟩ | ⟨-, rfl⟩⟩ := takes_of_step hstep
  · exact ⟨hregistered, hup, .inl ⟨Function.update_self .., hshared⟩⟩
  · exact ⟨by simpa [proceed, deliverLocal] using hregistered, by simpa [proceed, deliverLocal] using hup,
      due_proceed (fun h => absurd rfl h) fun _ => .inr ⟨rfl, hregistered⟩⟩

theorem owed_elsewhere (hregistered : x ∈ (s.active f.address).sockets)
    (hup : s.shared = true → s.live = true ∧ s.listening = true) (hstep : s.step (.elsewhere f) = some t) :
    t.Owed x f := by
  obtain ⟨-, hshared, rfl⟩ := takes_of_step hstep
  refine ⟨hregistered, hup, .inr (.inl ?_)⟩
  simp only [hand, (hup hshared).1, if_true]
  exact List.mem_append_right _ List.mem_cons_self

/-- The delivery of a frame has ended. -/
def IsSettled (s : ConnectionManager) (f : PersonalMessage) : Prop :=
  s.sender f = some .done ∧ f ∉ s.queue ∧ ∀ c, s.listener ≠ some (f, c)

theorem Owed.sent (h : s.Owed x f) (hsettled : s.IsSettled f) : (x, f) ∈ s.sent := by
  obtain ⟨hdone, hqueue, hlistener⟩ := hsettled
  rcases h.due with ⟨hpublishing, -⟩ | hmem | ⟨c, hsending | hlistens, -⟩ | hsent
  · rw [hdone] at hpublishing
    cases hpublishing
  · exact absurd hmem hqueue
  · rw [hdone] at hsending
    cases hsending
  · exact absurd hlistens (hlistener c)
  · exact hsent

theorem shared_step {a : SocketAction} (hstep : s.step a = some t) : t.shared = s.shared := by
  have htakes := takes_of_step hstep
  cases a with
  | connect x a =>
    obtain ⟨-, rfl⟩ := htakes
    rfl
  | disconnect x a => rcases htakes with ⟨-, rfl⟩ | rfl <;> rfl
  | call f =>
    obtain ⟨-, ⟨-, rfl⟩ | ⟨-, rfl⟩⟩ := htakes
    · rfl
    · exact advance_shared ..
  | elsewhere f =>
    obtain ⟨-, -, rfl⟩ := htakes
    rfl
  | take f =>
    obtain ⟨-, rfl⟩ := htakes
    rfl
  | answer f ok =>
    obtain ⟨_, -, ⟨-, -, -, rfl⟩ | ⟨-, rfl⟩⟩ := htakes
    · rfl
    · exact advance_shared ..
  | resume f =>
    obtain ⟨c, -, rfl⟩ := htakes
    exact advance_shared ..
  | read =>
    obtain ⟨f, rest, -, -, rfl⟩ := htakes
    exact advance_shared ..
  | resumeListener =>
    obtain ⟨f, c, -, rfl⟩ := htakes
    exact advance_shared ..
  | drop =>
    obtain ⟨-, rfl⟩ := htakes
    rfl
  | notice =>
    obtain ⟨-, rfl⟩ := htakes
    rfl
  | subscribe =>
    obtain ⟨-, -, rfl⟩ := htakes
    rfl
  | resubscribed =>
    obtain rfl := htakes
    rfl

/-! ## Runs -/

theorem sound_run {as : List SocketAction} (h : Run (restrict Clean (ofPartial step)) s as t)
    (hs : s.Registered ∧ s.Routed) : t.Registered ∧ t.Routed :=
  h.invariant (I := fun s => s.Registered ∧ s.Routed) (fun _ _ _ hI hst => sound_step hI.1 hI.2 hst.1 hst.2) hs

theorem shared_run {as : List SocketAction} (h : Run (restrict Clean (ofPartial step)) s as t) :
    t.shared = s.shared :=
  h.invariant (I := fun t => t.shared = s.shared) (fun _ _ _ hI hst => (shared_step hst.2).trans hI) rfl

theorem owed_run {as : List SocketAction} (h : Run (restrict Clean (ofPartial step)) s as t)
    (hs : s.Registered ∧ s.Routed) (howed : s.Owed x f) (hstays : .disconnect x f.address ∉ as)
    (hends : s.shared = true → .drop ∉ as ∧ .notice ∉ as) : t.Owed x f := by
  refine (h.restrict_mem.invariant (I := fun t => (t.Registered ∧ t.Routed) ∧ t.shared = s.shared ∧ t.Owed x f)
    (fun u a v hI hst => ?_) ⟨hs, rfl, howed⟩).2.2
  obtain ⟨hsound, hshared, howed⟩ := hI
  obtain ⟨hmem, hclean, hstep⟩ := hst
  refine ⟨sound_step hsound.1 hsound.2 hclean hstep, (shared_step hstep).trans hshared,
    owed_step howed hsound.2 hclean ?_ (fun hup => ?_) hstep⟩
  · rintro rfl
    exact hstays hmem
  · obtain ⟨hdrop, hnotice⟩ := hends (hshared.symm.trans hup)
    exact ⟨fun h => hdrop (h ▸ hmem), fun h => hnotice (h ▸ hmem)⟩

end ConnectionManager

open ConnectionManager

/-- Where every step is clean, no socket is sent a frame twice, and a socket that is registered from the call to
the end of the delivery is sent it once, in local mode and while the subscription stays up. -/
theorem delivers_once (shared : Bool) (before : List SocketAction) (s : ConnectionManager)
    (h : Run (restrict Clean (ofPartial step)) (start shared) before s) :
    (∀ x f, s.sent.count (x, f) ≤ 1) ∧
    ∀ x f a s₁ as t, a = .call f ∨ a = .elsewhere f → x ∈ (s.active f.address).sockets →
      (shared = true → s.live = true ∧ s.listening = true) → s.step a = some s₁ →
      Run (restrict Clean (ofPartial step)) s₁ as t → .disconnect x f.address ∉ as →
      (shared = true → .drop ∉ as ∧ .notice ∉ as) → t.IsSettled f → t.sent.count (x, f) = 1 := by
  have hs := sound_run h (sound_start shared)
  refine ⟨fun x f => List.nodup_iff_count_le_one.mp hs.1.sent _, ?_⟩
  intro x f a s₁ as t ha hregistered hup hstep hrun hstays hends hsettled
  have hshared : s.shared = shared := shared_run h
  rw [← hshared] at hup hends
  have hs₁ : s₁.Registered ∧ s₁.Routed := by
    refine sound_step hs.1 hs.2 ?_ hstep
    rcases ha with rfl | rfl <;> trivial
  have howed : s₁.Owed x f := by
    rcases ha with rfl | rfl
    · exact owed_call hregistered hup hstep
    · exact owed_elsewhere hregistered hup hstep
  have ht := owed_run hrun hs₁ howed hstays (by rw [shared_step hstep]; exact hends)
  have hle := List.nodup_iff_count_le_one.mp (sound_run hrun hs₁).1.sent (x, f)
  have hpos := List.count_pos_iff.mpr (ht.sent hsettled)
  omega

/-! ## Sockets that leave, and a subscription that is lost -/

section sample

def hello : PersonalMessage := ⟨0, "a"⟩

/-- The state after actions that can all be taken. -/
def managerAfter (actions : List SocketAction) (s : ConnectionManager) : ConnectionManager :=
  (actions.foldlM step s).getD s

theorem run_managerAfter {actions : List SocketAction} {s : ConnectionManager}
    (h : (actions.foldlM step s).isSome = true) : Run (ofPartial step) s actions (managerAfter actions s) := by
  obtain ⟨t, ht⟩ := Option.isSome_iff_exists.mp h
  rw [managerAfter, ht]
  exact Run.ofPartial_foldlM step actions s t ht

/-- A frame goes to two sockets, and a third connects meanwhile. -/
theorem delivers_once_sample :
    (managerAfter [.connect 3 "a", .resume hello, .resume hello, .resume hello]
      (managerAfter [.connect 1 "a", .connect 2 "a", .call hello] (start false))).sent.count (2, hello) = 1 := by
  have hbefore : Run (restrict Clean (ofPartial step)) (start false) [.connect 1 "a", .connect 2 "a"] _ :=
    .cons ⟨trivial, rfl⟩ (.single ⟨trivial, rfl⟩)
  have hrun : Run (restrict Clean (ofPartial step))
      (managerAfter [.connect 1 "a", .connect 2 "a", .call hello] (start false))
      [.connect 3 "a", .resume hello, .resume hello, .resume hello] _ :=
    .cons ⟨trivial, rfl⟩ (.cons ⟨trivial, rfl⟩ (.cons ⟨trivial, rfl⟩ (.single ⟨trivial, rfl⟩)))
  exact (delivers_once false _ _ hbefore).2 2 hello (.call hello) _ _ _ (.inl rfl) (by decide) nofun rfl hrun
    nofun nofun ⟨rfl, nofun, nofun⟩

/-- Socket 1 leaves while the loop awaits its `send_json`: socket 2 moves to its place, and is skipped. In shared
mode the subscription delivers a frame and is lost before `publish` returns: the worker delivers it again. -/
theorem not_delivers_once :
    (¬ ∀ shared before s, Run (ofPartial step) (start shared) before s →
      ∀ x f a s₁ as t, a = .call f ∨ a = .elsewhere f → x ∈ (s.active f.address).sockets →
        (shared = true → s.live = true ∧ s.listening = true) → s.step a = some s₁ →
        Run (ofPartial step) s₁ as t → .disconnect x f.address ∉ as →
        (shared = true → .drop ∉ as ∧ .notice ∉ as) → t.IsSettled f → t.sent.count (x, f) = 1) ∧
    ¬ ∀ shared before s, Run (ofPartial step) (start shared) before s → ∀ x f, s.sent.count (x, f) ≤ 1 := by
  constructor
  · intro h
    have hsent := h false [.connect 1 "a", .connect 2 "a"] _ (run_managerAfter (by decide)) 2 hello (.call hello) _
      [.disconnect 1 "a", .resume hello] _ (.inl rfl) (by decide) nofun rfl (run_managerAfter (by decide)) nofun nofun
      ⟨rfl, nofun, nofun⟩
    exact absurd hsent (by decide)
  · intro h
    have hsent := h true [.connect 1 "a", .call hello, .take hello, .read, .resumeListener, .drop, .notice,
      .answer hello true] _ (run_managerAfter (by decide)) 1 hello
    exact absurd hsent (by decide)

end sample

end Kryptolog.Server
