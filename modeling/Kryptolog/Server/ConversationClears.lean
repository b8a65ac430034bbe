import Kryptolog.Library.Runs
import Kryptolog.Server.Models
import Mathlib.Data.List.Basic
import Mathlib.Logic.Function.Basic

/-! # Hiding a conversation

`clear_conversation` reads the newest message in one statement and stores its id in another, while messages
become visible in another order than their ids are drawn in. One user's clears and everybody's messages are
interleaved by statement; the answers reach the devices of the user in any order.
-/

namespace Kryptolog.Server
set_option autoImplicit false

open Runs

/-- A conversation of the user: `dm` and the partner's address, or `group` and the id of the channel. -/
abbrev Conversation := Kind × String

structure Sent where
  conversation : Conversation
  id : ℕ
  deriving DecidableEq

/-- Where a clear stands: past the checks of the request, with the newest id that it read, with the row that it
has written and holds locked, committed, and with the row that it read back as its answer. -/
inductive ClearPoint
  | asked
  | found (newest : ℕ)
  | written (marker : ℕ)
  | committed
  | answered (marker : ℕ)
  | ended
  deriving DecidableEq

structure ClearRequest where
  device : ℕ
  conversation : Conversation
  point : ClearPoint

/-- The sequences that the ids of messages are drawn from, the committed messages and those of open
transactions, the committed markers of the user, the clears, and the markers that each device applies. -/
structure Clears where
  sequence : Kind → ℕ
  messages : List Sent
  sending : List Sent
  marker : Conversation → Option ℕ
  requests : List ClearRequest
  shown : ℕ → Conversation → Option ℕ

inductive ClearAction
  | insert (m : Sent)
  | commit (m : Sent)
  | rollback (m : Sent)
  | ask (device : ℕ) (c : Conversation)
  | read (i : ℕ)
  | upsert (i : ℕ)
  | commitClear (i : ℕ)
  | reread (i : ℕ)
  | receive (i : ℕ)
  | lose (i : ℕ)

namespace Clears

def start : Clears := ⟨fun _ => 0, [], [], fun _ => none, [], fun _ _ => none⟩

variable (s : Clears)

/-- `func.max(id) or 0`. -/
def newest (c : Conversation) : ℕ := ((s.messages.filter (·.conversation = c)).map (·.id)).foldr max 0

/-- A message that the marker of a conversation covers. -/
def hides (c : Conversation) (id : ℕ) : Prop := ∃ k, s.marker c = some k ∧ id ≤ k

/-- A message that a device does not show: `visible` leaves out what its marker covers. -/
def hidesOn (device : ℕ) (c : Conversation) (id : ℕ) : Prop := ∃ k, s.shown device c = some k ∧ id ≤ k

def put (i : ℕ) (r : ClearRequest) : Clears := { s with requests := s.requests.set i r }

/-- Another clear of the conversation holds its row. -/
def isLocked (c : Conversation) : Bool := s.requests.any fun r => decide (r.conversation = c) && match r.point with
  | .written _ => true
  | _ => false

/-- One statement, one commit, or one answer. -/
def step : ClearAction → Option Clears
  -- the id is drawn when the row is inserted; a sequence may skip numbers
  | .insert m =>
    if s.sequence m.conversation.1 < m.id then
      some { s with sequence := Function.update s.sequence m.conversation.1 m.id, sending := m :: s.sending }
    else none
  | .commit m =>
    if m ∈ s.sending then some { s with messages := s.messages ++ [m], sending := s.sending.erase m } else none
  | .rollback m => if m ∈ s.sending then some { s with sending := s.sending.erase m } else none
  | .ask device c => some { s with requests := s.requests ++ [⟨device, c, .asked⟩] }
  | .read i => do
    let r ← s.requests[i]?
    match r.point with
    | .asked => some (s.put i { r with point := .found (s.newest r.conversation) })
    | _ => none
  | .upsert i => do
    let r ← s.requests[i]?
    match r.point with
    | .found n => if s.isLocked r.conversation then none else some (s.put i { r with point := .written n })
    | _ => none
  | .commitClear i => do
    let r ← s.requests[i]?
    match r.point with
    | .written n =>
      some { s.put i { r with point := .committed } with marker := Function.update s.marker r.conversation (some n) }
    | _ => none
  | .reread i => do
    let r ← s.requests[i]?
    match r.point with
    | .committed => (s.marker r.conversation).map fun n => s.put i { r with point := .answered n }
    | _ => none
  | .receive i => do
    let r ← s.requests[i]?
    match r.point with
    | .answered n => some { s.put i { r with point := .ended } with
        shown := Function.update s.shown r.device (Function.update (s.shown r.device) r.conversation (some n)) }
    | _ => none
  | .lose i => do
    let r ← s.requests[i]?
    some (s.put i { r with point := .ended })

/-! ## What a step does -/

/-- The steps that a state takes, without the branches in which it refuses. -/
def Takes (t : Clears) : ClearAction → Prop
  | .insert m => s.sequence m.conversation.1 < m.id ∧
      t = { s with sequence := Function.update s.sequence m.conversation.1 m.id, sending := m :: s.sending }
  | .commit m => m ∈ s.sending ∧ t = { s with messages := s.messages ++ [m], sending := s.sending.erase m }
  | .rollback m => t = { s with sending := s.sending.erase m }
  | .ask device c => t = { s with requests := s.requests ++ [⟨device, c, .asked⟩] }
  | .read i => ∃ r, s.requests[i]? = some r ∧ r.point = .asked ∧
      t = s.put i { r with point := .found (s.newest r.conversation) }
  | .upsert i => ∃ r n, s.requests[i]? = some r ∧ r.point = .found n ∧ t = s.put i { r with point := .written n }
  | .commitClear i => ∃ r n, s.requests[i]? = some r ∧ r.point = .written n ∧
      t = { s.put i { r with point := .committed } with
        marker := Function.update s.marker r.conversation (some n) }
  | .reread i => ∃ r n, s.requests[i]? = some r ∧ r.point = .committed ∧ s.marker r.conversation = some n ∧
      t = s.put i { r with point := .answered n }
  | .receive i => ∃ r n, s.requests[i]? = some r ∧ r.point = .answered n ∧
      t = { s.put i { r with point := .ended } with
        shown := Function.update s.shown r.device (Function.update (s.shown r.device) r.conversation (some n)) }
  | .lose i => ∃ r, s.requests[i]? = some r ∧ t = s.put i { r with point := .ended }

variable {s}

theorem takes_of_step {t : Clears} {a : ClearAction} (h : s.step a = some t) : s.Takes t a := by
  cases a with
  | insert m =>
    rw [step] at h
    split at h
    · next hlt => exact ⟨hlt, (Option.some.inj h).symm⟩
    · cases h
  | commit m =>
    rw [step] at h
    split at h
    · next hm => exact ⟨hm, (Option.some.inj h).symm⟩
    · cases h
  | rollback m =>
    rw [step] at h
    split at h
    · exact (Option.some.inj h).symm
    · cases h
  | ask device c => exact (Option.some.inj h).symm
  | read i =>
    obtain ⟨r, hr, h⟩ := Option.bind_eq_some_iff.mp h
    split at h
    · next hpoint => exact ⟨r, hr, hpoint, (Option.some.inj h).symm⟩
    · cases h
  | upsert i =>
    obtain ⟨r, hr, h⟩ := Option.bind_eq_some_iff.mp h
    split at h
    · next n hpoint =>
      split at h
      · cases h
      · exact ⟨r, n, hr, hpoint, (Option.some.inj h).symm⟩
    · cases h
  | commitClear i =>
    obtain ⟨r, hr, h⟩ := Option.bind_eq_some_iff.mp h
    split at h
    · next n hpoint => exact ⟨r, n, hr, hpoint, (Option.some.inj h).symm⟩
    · cases h
  | reread i =>
    obtain ⟨r, hr, h⟩ := Option.bind_eq_some_iff.mp h
    split at h
    · next hpoint =>
      obtain ⟨n, hn, rfl⟩ := Option.map_eq_some_iff.mp h
      exact ⟨r, n, hr, hpoint, hn, rfl⟩
    · cases h
  | receive i =>
    obtain ⟨r, hr, h⟩ := Option.bind_eq_some_iff.mp h
    split at h
    · next n hpoint => exact ⟨r, n, hr, hpoint, (Option.some.inj h).symm⟩
    · cases h
  | lose i =>
    obtain ⟨r, hr, h⟩ := Option.bind_eq_some_iff.mp h
    exact ⟨r, hr, (Option.some.inj h).symm⟩

/-! ## Newest messages -/

theorem le_newest {m : Sent} (h : m ∈ s.messages) : m.id ≤ s.newest m.conversation := by
  have hmem : m.id ∈ (s.messages.filter (·.conversation = m.conversation)).map (·.id) := by
    exact List.mem_map_of_mem (List.mem_filter.mpr ⟨h, by simp⟩)
  rw [newest]
  generalize (s.messages.filter (·.conversation = m.conversation)).map (·.id) = ids at hmem ⊢
  induction ids with
  | nil => cases hmem
  | cons id ids ih =>
    rw [List.foldr_cons]
    rcases List.mem_cons.mp hmem with heq | hmem
    · rw [heq]
      exact Nat.le_max_left _ _
    · exact (ih hmem).trans (Nat.le_max_right _ _)

theorem newest_le {c : Conversation} {b : ℕ} (h : ∀ m ∈ s.messages, m.conversation = c → m.id ≤ b) :
    s.newest c ≤ b := by
  have hids : ∀ id ∈ (s.messages.filter (·.conversation = c)).map (·.id), id ≤ b := by
    intro id hid
    obtain ⟨m, hm, rfl⟩ := List.mem_map.mp hid
    obtain ⟨hm, hc⟩ := List.mem_filter.mp hm
    exact h m hm (by simpa using hc)
  rw [newest]
  generalize (s.messages.filter (·.conversation = c)).map (·.id) = ids at hids ⊢
  induction ids with
  | nil => exact Nat.zero_le b
  | cons id ids ih =>
    obtain ⟨hid, hids⟩ := List.forall_mem_cons.mp hids
    exact Nat.max_le.mpr ⟨hid, ih hids⟩

/-- The newest id grows with the messages. -/
theorem newest_mono {t : Clears} (h : s.messages ⊆ t.messages) (c : Conversation) : s.newest c ≤ t.newest c := by
  refine newest_le fun m hm hc => ?_
  rw [← hc]
  exact le_newest (h hm)

/-! ## Clears in order -/

/-- The marker that a clear under way carries. A committed one is about to read the stored marker back. -/
def carried (s : Clears) (r : ClearRequest) : Option ℕ :=
  match r.point with
  | .found n | .written n | .answered n => some n
  | .committed => s.marker r.conversation
  | .asked | .ended => none

/-- When a clear reads, every message of the conversation that is in an open transaction has an id above the
newest committed one, and no message has become visible since another clear under way has read. -/
def InOrder (s : Clears) : ClearAction → Prop
  | .read i => ∀ r ∈ s.requests[i]?,
      (∀ m ∈ s.sending, m.conversation = r.conversation → s.newest r.conversation < m.id) ∧
      ∀ r' ∈ s.requests, r'.conversation = r.conversation → ∀ v ∈ s.carried r', v = s.newest r.conversation
  | _ => True

instance (s : Clears) : ∀ a, Decidable (s.InOrder a)
  | .read i => inferInstanceAs (Decidable (∀ r ∈ s.requests[i]?,
      (∀ m ∈ s.sending, m.conversation = r.conversation → s.newest r.conversation < m.id) ∧
      ∀ r' ∈ s.requests, r'.conversation = r.conversation → ∀ v ∈ s.carried r', v = s.newest r.conversation))
  | .insert _ | .commit _ | .rollback _ | .ask _ _ | .upsert _ | .commitClear _ | .reread _ | .receive _ | .lose _ =>
    .isTrue trivial

/-- No marker of a conversation is above a value, and the value covers no message that is still to come. -/
structure Covers (s : Clears) (c : Conversation) (v : ℕ) : Prop where
  marker : ∀ k, s.marker c = some k → k ≤ v
  shown : ∀ device k, s.shown device c = some k → k ≤ v
  le_newest : v ≤ s.newest c

structure Ordered (s : Clears) : Prop where
  drawn : ∀ m, m ∈ s.messages ∨ m ∈ s.sending → m.id ≤ s.sequence m.conversation.1
  newest : ∀ c, s.Covers c (s.newest c)
  requests : ∀ r ∈ s.requests, ∀ v, s.carried r = some v → s.Covers r.conversation v
  alike : ∀ r ∈ s.requests, ∀ r' ∈ s.requests, r.conversation = r'.conversation →
    ∀ v v', s.carried r = some v → s.carried r' = some v' → v = v'

theorem ordered_start : Ordered start where
  drawn := by simp [start]
  newest c := ⟨by simp [start], by simp [start], le_rfl⟩
  requests := by simp [start]
  alike := by simp [start]

theorem Covers.mono {t : Clears} {c : Conversation} {v : ℕ} (h : s.Covers c v) (hmarker : t.marker = s.marker)
    (hshown : t.shown = s.shown) (hnewest : s.newest c ≤ t.newest c) : t.Covers c v where
  marker k hk := h.marker k (hmarker ▸ hk)
  shown device k hk := h.shown device k (hshown ▸ hk)
  le_newest := h.le_newest.trans hnewest

theorem mem_of_getElem? {i : ℕ} {r : ClearRequest} (h : s.requests[i]? = some r) : r ∈ s.requests :=
  List.mem_of_getElem? h

theorem mem_put {i : ℕ} {r r' : ClearRequest} (h : r ∈ (s.put i r').requests) : r ∈ s.requests ∨ r = r' :=
  List.mem_or_eq_of_mem_set h

/-- A clear goes on with a marker that agrees with the others. -/
theorem Ordered.put (h : s.Ordered) (i : ℕ) (r' : ClearRequest)
    (hcovers : ∀ v, s.carried r' = some v → s.Covers r'.conversation v)
    (halike : ∀ v, s.carried r' = some v → ∀ r ∈ s.requests, r.conversation = r'.conversation →
      ∀ v', s.carried r = some v' → v' = v) : (s.put i r').Ordered where
  drawn := h.drawn
  newest c := (h.newest c).mono rfl rfl le_rfl
  requests r hr v hv := by
    rcases mem_put hr with hold | rfl
    · exact (h.requests r hold v hv).mono rfl rfl le_rfl
    · exact (hcovers v hv).mono rfl rfl le_rfl
  alike r hr r'' hr'' hc v v' hv hv' := by
    rcases mem_put hr with hold | rfl
    · rcases mem_put hr'' with hold'' | rfl
      · exact h.alike r hold r'' hold'' hc v v' hv hv'
      · exact halike v' hv' r hold hc v hv
    · rcases mem_put hr'' with hold'' | rfl
      · exact (halike v hv r'' hold'' hc.symm v' hv').symm
      · exact Option.some.inj (hv.symm.trans hv')

/-- A clear goes on with the marker that it carries. -/
theorem Ordered.put_kept (h : s.Ordered) {i : ℕ} {r r' : ClearRequest} (hr : s.requests[i]? = some r)
    (hc : r'.conversation = r.conversation) (hkept : ∀ v, s.carried r' = some v → s.carried r = some v) :
    (s.put i r').Ordered := by
  refine h.put i r' (fun v hv => ?_) (fun v hv r'' hr'' hc'' v' hv' => ?_)
  · rw [hc]
    exact h.requests r (mem_of_getElem? hr) v (hkept v hv)
  · exact h.alike r'' hr'' r (mem_of_getElem? hr) (hc''.trans hc) v' v hv' (hkept v hv)

/-- Messages and open transactions change, and no message goes. -/
theorem Ordered.with_messages {t : Clears} (h : s.Ordered) (hkept : s.messages ⊆ t.messages)
    (hdrawn : ∀ m, m ∈ t.messages ∨ m ∈ t.sending → m.id ≤ t.sequence m.conversation.1)
    (hmarker : t.marker = s.marker) (hshown : t.shown = s.shown) (hrequests : t.requests = s.requests) :
    t.Ordered where
  drawn := hdrawn
  newest c := by
    have hnewest := newest_mono hkept c
    have hcovers := h.newest c
    exact ⟨fun k hk => (hcovers.marker k (hmarker ▸ hk)).trans hnewest,
      fun device k hk => (hcovers.shown device k (hshown ▸ hk)).trans hnewest, le_rfl⟩
  requests r hr v hv := by
    rw [hrequests] at hr
    rw [carried, hmarker] at hv
    exact (h.requests r hr v hv).mono hmarker hshown (newest_mono hkept _)
  alike r hr r' hr' hc v v' hv hv' := by
    rw [hrequests] at hr hr'
    rw [carried, hmarker] at hv hv'
    exact h.alike r hr r' hr' hc v v' hv hv'

/-- A clear stores the marker that it carries, on the server or on a device. All others under way in the
conversation carry the same marker. -/
theorem Ordered.advance {t : Clears} (h : s.Ordered) {i n : ℕ} {r r' : ClearRequest}
    (hr : s.requests[i]? = some r) (hcarried : s.carried r = some n) (hr' : r'.conversation = r.conversation)
    (hnext : ∀ v, t.carried r' = some v → v = n) (hrequests : t.requests = (s.put i r').requests)
    (hmarker : t.marker r.conversation = some n ∨ t.marker r.conversation = s.marker r.conversation)
    (hshown : ∀ d, t.shown d r.conversation = some n ∨ t.shown d r.conversation = s.shown d r.conversation)
    (hother : ∀ c, c ≠ r.conversation → t.marker c = s.marker c ∧ ∀ d, t.shown d c = s.shown d c)
    (hnewest : ∀ c, t.newest c = s.newest c)
    (hdrawn : ∀ m, m ∈ t.messages ∨ m ∈ t.sending → m.id ≤ t.sequence m.conversation.1) : t.Ordered := by
  have hcovers := h.requests r (mem_of_getElem? hr) n hcarried
  have hsame : ∀ r'' ∈ t.requests, r''.conversation = r.conversation → ∀ v, t.carried r'' = some v → v = n := by
    intro r'' hr'' hc v hv
    rw [hrequests] at hr''
    rcases mem_put hr'' with hold | rfl
    · by_cases hcommitted : r''.point = .committed ∧ t.marker r.conversation = some n
      · rw [carried, hcommitted.1] at hv
        simp only at hv
        rw [hc, hcommitted.2] at hv
        exact (Option.some.inj hv).symm
      · refine h.alike r'' hold r (mem_of_getElem? hr) hc v n ?_ hcarried
        rw [carried] at hv ⊢
        cases hpoint : r''.point with
        | committed =>
          rw [hpoint] at hv
          simp only at hv ⊢
          rw [hc] at hv ⊢
          rcases hmarker with hn | hkept
          · exact absurd ⟨hpoint, hn⟩ hcommitted
          · rwa [hkept] at hv
        | asked | found | written | answered | ended =>
          rw [hpoint] at hv
          exact hv
    · exact hnext v hv
  have hrest : ∀ r'' ∈ t.requests, r''.conversation ≠ r.conversation → ∀ v, t.carried r'' = some v →
      r'' ∈ s.requests ∧ s.carried r'' = some v := by
    intro r'' hr'' hc v hv
    rw [hrequests] at hr''
    rcases mem_put hr'' with hold | rfl
    · rw [carried, (hother _ hc).1] at hv
      exact ⟨hold, hv⟩
    · exact absurd hr' hc
  have hkept : ∀ c, c ≠ r.conversation → ∀ v, s.Covers c v → t.Covers c v := by
    intro c hc v hcovers
    refine ⟨fun k hk => hcovers.marker k ?_, fun d k hk => hcovers.shown d k ?_, (hnewest c).symm ▸ hcovers.le_newest⟩
    · rw [← (hother c hc).1]
      exact hk
    · rw [← (hother c hc).2 d]
      exact hk
  have hcoversn : ∀ v, n ≤ v → v ≤ s.newest r.conversation → t.Covers r.conversation v := by
    intro v hn hv
    refine ⟨fun k hk => ?_, fun d k hk => ?_, (hnewest _).symm ▸ hv⟩
    · rcases hmarker with hm | hm <;> rw [hm] at hk
      · exact Option.some.inj hk ▸ hn
      · exact (hcovers.marker k hk).trans hn
    · rcases hshown d with hm | hm <;> rw [hm] at hk
      · exact Option.some.inj hk ▸ hn
      · exact (hcovers.shown d k hk).trans hn
  refine ⟨hdrawn, fun c => ?_, fun r'' hr'' v hv => ?_, fun r₁ hr₁ r₂ hr₂ hc v v' hv hv' => ?_⟩
  · rw [hnewest]
    by_cases hc : c = r.conversation
    · rw [hc]
      exact hcoversn _ hcovers.le_newest le_rfl
    · exact hkept c hc _ (h.newest c)
  · by_cases hc : r''.conversation = r.conversation
    · rw [hc, hsame r'' hr'' hc v hv]
      exact hcoversn n le_rfl hcovers.le_newest
    · obtain ⟨hold, hv⟩ := hrest r'' hr'' hc v hv
      exact hkept _ hc v (h.requests r'' hold v hv)
  · by_cases hc₁ : r₁.conversation = r.conversation
    · rw [hsame r₁ hr₁ hc₁ v hv, hsame r₂ hr₂ (hc.symm.trans hc₁) v' hv']
    · obtain ⟨hold, hv⟩ := hrest r₁ hr₁ hc₁ v hv
      obtain ⟨hold', hv'⟩ := hrest r₂ hr₂ (hc ▸ hc₁) v' hv'
      exact h.alike r₁ hold r₂ hold' hc v v' hv hv'

theorem Ordered.ask (h : s.Ordered) (device : ℕ) (c : Conversation) :
    Ordered { s with requests := s.requests ++ [⟨device, c, .asked⟩] } := by
  have hold : ∀ r ∈ s.requests ++ [⟨device, c, .asked⟩], ∀ v, s.carried r = some v → r ∈ s.requests := by
    intro r hr v hv
    rcases List.mem_append.mp hr with hr | hr
    · exact hr
    · rw [List.mem_singleton.mp hr] at hv
      cases hv
  exact ⟨h.drawn, fun c => (h.newest c).mono rfl rfl le_rfl,
    fun r hr v hv => (h.requests r (hold r hr v hv) v hv).mono rfl rfl le_rfl,
    fun r hr r' hr' hc v v' hv hv' => h.alike r (hold r hr v hv) r' (hold r' hr' v' hv') hc v v' hv hv'⟩

theorem sequence_le_update {kind : Kind} {id : ℕ} (h : s.sequence kind ≤ id) (k : Kind) :
    s.sequence k ≤ Function.update s.sequence kind id k := by
  by_cases hk : k = kind
  · rw [hk, Function.update_self]
    exact h
  · rw [Function.update_of_ne hk]

/-- A step in order keeps the clears in order. -/
theorem ordered_step {t : Clears} {a : ClearAction} (h : s.Ordered) (hin : s.InOrder a)
    (hstep : s.step a = some t) : t.Ordered := by
  have htakes := takes_of_step hstep
  cases a with
  | insert m =>
    obtain ⟨hlt, rfl⟩ := htakes
    have hgrows := sequence_le_update hlt.le
    refine h.with_messages (List.Subset.refl _) (fun m' hm' => ?_) rfl rfl rfl
    rcases hm' with hm' | hm'
    · exact (h.drawn m' (.inl hm')).trans (hgrows _)
    · rcases List.mem_cons.mp hm' with rfl | hm'
      · simp
      · exact (h.drawn m' (.inr hm')).trans (hgrows _)
  | commit m =>
    obtain ⟨hm, rfl⟩ := htakes
    refine h.with_messages (List.subset_append_left _ _) (fun m' hm' => ?_) rfl rfl rfl
    rcases hm' with hm' | hm'
    · rcases List.mem_append.mp hm' with hm' | hm'
      · exact h.drawn m' (.inl hm')
      · rw [List.mem_singleton.mp hm']
        exact h.drawn m (.inr hm)
    · exact h.drawn m' (.inr (List.mem_of_mem_erase hm'))
  | rollback m =>
    obtain rfl := htakes
    refine h.with_messages (List.Subset.refl _) (fun m' hm' => ?_) rfl rfl rfl
    exact h.drawn m' (hm'.imp_right List.mem_of_mem_erase)
  | ask device c =>
    obtain rfl := htakes
    exact h.ask device c
  | read i =>
    obtain ⟨r, hr, hpoint, rfl⟩ := htakes
    obtain ⟨-, halike⟩ := hin r hr
    refine h.put i _ (fun v hv => ?_) (fun v hv r' hr' hc v' hv' => ?_)
    · obtain rfl := Option.some.inj hv
      exact h.newest _
    · obtain rfl := Option.some.inj hv
      exact halike r' hr' hc v' hv'
  | upsert i =>
    obtain ⟨r, n, hr, hpoint, rfl⟩ := htakes
    refine h.put_kept hr rfl fun v hv => ?_
    rw [carried, hpoint]
    exact hv
  | commitClear i =>
    obtain ⟨r, n, hr, hpoint, rfl⟩ := htakes
    have hcarried : s.carried r = some n := by rw [carried, hpoint]
    have hr' : ({ r with point := .committed } : ClearRequest).conversation = r.conversation := rfl
    refine h.advance hr hcarried hr' (fun v hv => ?_) rfl
      (.inl (Function.update_self ..)) (fun d => .inr rfl)
      (fun c hc => ⟨Function.update_of_ne hc .., fun d => rfl⟩) (fun c => rfl) h.drawn
    rw [carried] at hv
    simp only [Function.update_self] at hv
    exact (Option.some.inj hv).symm
  | reread i =>
    obtain ⟨r, n, hr, hpoint, hn, rfl⟩ := htakes
    refine h.put_kept hr rfl fun v hv => ?_
    rw [carried, hpoint]
    exact hn.trans hv
  | receive i =>
    obtain ⟨r, n, hr, hpoint, rfl⟩ := htakes
    have hcarried : s.carried r = some n := by rw [carried, hpoint]
    have hr' : ({ r with point := .ended } : ClearRequest).conversation = r.conversation := rfl
    refine h.advance hr hcarried hr' (fun v hv => nomatch hv) rfl (.inr rfl)
      (fun d => ?_) (fun c hc => ⟨rfl, fun d => ?_⟩) (fun c => rfl) h.drawn
    · by_cases hd : d = r.device
      · rw [hd]
        simp
      · simp [Function.update_of_ne hd]
    · by_cases hd : d = r.device
      · rw [hd]
        simp [Function.update_of_ne hc]
      · simp [Function.update_of_ne hd]
  | lose i =>
    obtain ⟨r, hr, rfl⟩ := htakes
    exact h.put_kept hr rfl fun v hv => nomatch hv

/-- No marker goes back. -/
def Below (s t : Clears) : Prop :=
  (∀ c id, s.hides c id → t.hides c id) ∧ ∀ device c id, s.hidesOn device c id → t.hidesOn device c id

theorem below_refl (s : Clears) : s.Below s := ⟨fun _ _ h => h, fun _ _ _ h => h⟩

theorem Below.trans {t u : Clears} (h : s.Below t) (h' : t.Below u) : s.Below u :=
  ⟨fun c id hid => h'.1 c id (h.1 c id hid), fun d c id hid => h'.2 d c id (h.2 d c id hid)⟩

theorem below_of_eq {t : Clears} (hmarker : t.marker = s.marker) (hshown : t.shown = s.shown) : s.Below t := by
  refine ⟨fun c id h => ?_, fun d c id h => ?_⟩
  · rwa [hides, hmarker]
  · rwa [hidesOn, hshown]

theorem below_step {t : Clears} {a : ClearAction} (h : s.Ordered) (hstep : s.step a = some t) : s.Below t := by
  have htakes := takes_of_step hstep
  cases a with
  | insert m =>
    obtain ⟨-, rfl⟩ := htakes
    exact below_of_eq rfl rfl
  | commit m =>
    obtain ⟨-, rfl⟩ := htakes
    exact below_of_eq rfl rfl
  | rollback m =>
    obtain rfl := htakes
    exact below_of_eq rfl rfl
  | ask device c =>
    obtain rfl := htakes
    exact below_of_eq rfl rfl
  | read i =>
    obtain ⟨r, -, -, rfl⟩ := htakes
    exact below_of_eq rfl rfl
  | upsert i =>
    obtain ⟨r, n, -, -, rfl⟩ := htakes
    exact below_of_eq rfl rfl
  | commitClear i =>
    obtain ⟨r, n, hr, hpoint, rfl⟩ := htakes
    have hcovers := h.requests r (mem_of_getElem? hr) n (by rw [carried, hpoint])
    refine ⟨?_, fun d c id h => h⟩
    rintro c id ⟨k, hk, hid⟩
    by_cases hc : c = r.conversation
    · subst hc
      exact ⟨n, Function.update_self .., hid.trans (hcovers.marker k hk)⟩
    · exact ⟨k, (Function.update_of_ne hc ..).trans hk, hid⟩
  | reread i =>
    obtain ⟨r, n, -, -, -, rfl⟩ := htakes
    exact below_of_eq rfl rfl
  | receive i =>
    obtain ⟨r, n, hr, hpoint, rfl⟩ := htakes
    have hcovers := h.requests r (mem_of_getElem? hr) n (by rw [carried, hpoint])
    refine ⟨fun c id h => h, ?_⟩
    rintro d c id ⟨k, hk, hid⟩
    by_cases hd : d = r.device
    · by_cases hc : c = r.conversation
      · subst hc
        exact ⟨n, by simp [hd], hid.trans (hcovers.shown d k hk)⟩
      · exact ⟨k, by simpa [hd, Function.update_of_ne hc] using hd ▸ hk, hid⟩
    · exact ⟨k, by simpa [Function.update_of_ne hd] using hk, hid⟩
  | lose i =>
    obtain ⟨r, -, rfl⟩ := htakes
    exact below_of_eq rfl rfl

/-! ## Messages to come -/

/-- Every message of `t` is one of `s`, or of an open transaction of `s`, or its id was drawn after `s`. -/
structure Later (s t : Clears) : Prop where
  sequence : ∀ kind, s.sequence kind ≤ t.sequence kind
  messages : ∀ m, m ∈ t.messages ∨ m ∈ t.sending →
    m ∈ s.messages ∨ m ∈ s.sending ∨ s.sequence m.conversation.1 < m.id

theorem later_refl (s : Clears) : s.Later s := ⟨fun _ => le_rfl, fun _ h => h.imp_right .inl⟩

theorem Later.trans {t u : Clears} (h : s.Later t) (h' : t.Later u) : s.Later u where
  sequence kind := (h.sequence kind).trans (h'.sequence kind)
  messages m hm := by
    rcases h'.messages m hm with hm | hm | hlt
    · exact h.messages m (.inl hm)
    · exact h.messages m (.inr hm)
    · exact .inr (.inr ((h.sequence _).trans_lt hlt))

theorem later_of_eq {t : Clears} (hsequence : t.sequence = s.sequence) (hmessages : t.messages = s.messages)
    (hsending : t.sending = s.sending) : s.Later t where
  sequence kind := by rw [hsequence]
  messages m hm := by
    rw [hmessages, hsending] at hm
    exact hm.imp_right .inl

theorem later_step {t : Clears} {a : ClearAction} (hstep : s.step a = some t) : s.Later t := by
  have htakes := takes_of_step hstep
  cases a with
  | insert m =>
    obtain ⟨hlt, rfl⟩ := htakes
    refine ⟨sequence_le_update hlt.le, fun m' hm' => ?_⟩
    rcases hm' with hm' | hm'
    · exact .inl hm'
    · rcases List.mem_cons.mp hm' with rfl | hm'
      · exact .inr (.inr hlt)
      · exact .inr (.inl hm')
  | commit m =>
    obtain ⟨hm, rfl⟩ := htakes
    refine ⟨fun _ => le_rfl, fun m' hm' => ?_⟩
    rcases hm' with hm' | hm'
    · rcases List.mem_append.mp hm' with hm' | hm'
      · exact .inl hm'
      · rw [List.mem_singleton.mp hm']
        exact .inr (.inl hm)
    · exact .inr (.inl (List.mem_of_mem_erase hm'))
  | rollback m =>
    obtain rfl := htakes
    exact ⟨fun _ => le_rfl, fun m' hm' => hm'.imp_right fun hm' => .inl (List.mem_of_mem_erase hm')⟩
  | ask device c =>
    obtain rfl := htakes
    exact later_of_eq rfl rfl rfl
  | read i =>
    obtain ⟨r, -, -, rfl⟩ := htakes
    exact later_of_eq rfl rfl rfl
  | upsert i =>
    obtain ⟨r, n, -, -, rfl⟩ := htakes
    exact later_of_eq rfl rfl rfl
  | commitClear i =>
    obtain ⟨r, n, -, -, rfl⟩ := htakes
    exact later_of_eq rfl rfl rfl
  | reread i =>
    obtain ⟨r, n, -, -, -, rfl⟩ := htakes
    exact later_of_eq rfl rfl rfl
  | receive i =>
    obtain ⟨r, n, -, -, rfl⟩ := htakes
    exact later_of_eq rfl rfl rfl
  | lose i =>
    obtain ⟨r, -, rfl⟩ := htakes
    exact later_of_eq rfl rfl rfl

/-- Clear number `i` of a conversation has read `n`, and stores nothing else. -/
def Pursues (s : Clears) (i : ℕ) (c : Conversation) (n : ℕ) : Prop :=
  ∃ r, s.requests[i]? = some r ∧ r.conversation = c ∧ r.point ≠ .asked ∧
    ∀ v, r.point = .found v ∨ r.point = .written v → v = n

theorem Pursues.congr {t : Clears} {i n : ℕ} {c : Conversation} (h : s.Pursues i c n)
    (hrequests : t.requests = s.requests) : t.Pursues i c n := by
  rwa [Pursues, hrequests]

theorem Pursues.put {i j n : ℕ} {c : Conversation} {r r' : ClearRequest} (h : s.Pursues i c n)
    (hr : s.requests[j]? = some r) (hc : r'.conversation = r.conversation)
    (hnext : r.point ≠ .asked → r'.point ≠ .asked ∧
      ∀ v, r'.point = .found v ∨ r'.point = .written v → r.point = .found v ∨ r.point = .written v) :
    (s.put j r').Pursues i c n := by
  obtain ⟨r₀, hr₀, hc₀, hasked, hpoint⟩ := h
  by_cases hij : j = i
  · subst hij
    obtain rfl := Option.some.inj (hr₀.symm.trans hr)
    obtain ⟨hasked', hpoint'⟩ := hnext hasked
    have hlt := (List.getElem?_eq_some_iff.mp hr₀).1
    exact ⟨r', List.getElem?_set_self hlt, hc.trans hc₀, hasked', fun v hv => hpoint v (hpoint' v hv)⟩
  · exact ⟨r₀, (List.getElem?_set_ne hij).trans hr₀, hc₀, hasked, hpoint⟩

theorem pursues_step {t : Clears} {a : ClearAction} {i n : ℕ} {c : Conversation} (h : s.Pursues i c n)
    (hstep : s.step a = some t) : t.Pursues i c n := by
  have htakes := takes_of_step hstep
  cases a with
  | insert m =>
    obtain ⟨-, rfl⟩ := htakes
    exact h.congr rfl
  | commit m =>
    obtain ⟨-, rfl⟩ := htakes
    exact h.congr rfl
  | rollback m =>
    obtain rfl := htakes
    exact h.congr rfl
  | ask device c' =>
    obtain rfl := htakes
    obtain ⟨r, hr, hc, hpoint⟩ := h
    refine ⟨r, ?_, hc, hpoint⟩
    rw [List.getElem?_append_left (List.getElem?_eq_some_iff.mp hr).1]
    exact hr
  | read j =>
    obtain ⟨r, hr, hpoint, rfl⟩ := htakes
    exact h.put hr rfl fun hasked => absurd hpoint hasked
  | upsert j =>
    obtain ⟨r, v, hr, hpoint, rfl⟩ := htakes
    refine h.put hr rfl fun _ => ⟨nofun, fun w hw => ?_⟩
    obtain rfl : v = w := by simpa using hw
    exact .inl hpoint
  | commitClear j =>
    obtain ⟨r, v, hr, hpoint, rfl⟩ := htakes
    have hr' : ({ r with point := .committed } : ClearRequest).conversation = r.conversation := rfl
    refine (h.put hr hr' fun _ => ⟨nofun, fun w hw => ?_⟩).congr rfl
    rcases hw with hw | hw <;> cases hw
  | reread j =>
    obtain ⟨r, v, hr, hpoint, hv, rfl⟩ := htakes
    refine h.put hr rfl fun _ => ⟨nofun, fun w hw => ?_⟩
    rcases hw with hw | hw <;> cases hw
  | receive j =>
    obtain ⟨r, v, hr, hpoint, rfl⟩ := htakes
    have hr' : ({ r with point := .ended } : ClearRequest).conversation = r.conversation := rfl
    refine (h.put hr hr' fun _ => ⟨nofun, fun w hw => ?_⟩).congr rfl
    rcases hw with hw | hw <;> cases hw
  | lose j =>
    obtain ⟨r, hr, rfl⟩ := htakes
    refine h.put hr rfl fun _ => ⟨nofun, fun w hw => ?_⟩
    rcases hw with hw | hw <;> cases hw

/-! ## Runs -/

section runs

variable {t u : Clears} {as : List ClearAction}

theorem ordered_run (h : Run (restrict InOrder (ofPartial step)) s as t) (hs : s.Ordered) : t.Ordered :=
  h.invariant (fun _ _ _ hI hst => ordered_step hI hst.1 hst.2) hs

theorem below_run (h : Run (restrict InOrder (ofPartial step)) s as t) (hs : s.Ordered) : s.Below t :=
  Run.preserves below_refl (fun _ _ _ => Below.trans) (fun _ _ _ hI hst => ordered_step hI hst.1 hst.2)
    (fun _ _ _ hI hst => below_step hI hst.2) h hs

theorem later_run (h : Run (restrict InOrder (ofPartial step)) s as t) : s.Later t :=
  Run.preserves (I := fun _ => True) later_refl (fun _ _ _ => Later.trans) (fun _ _ _ _ _ => trivial)
    (fun _ _ _ _ hst => later_step hst.2) h trivial

theorem pursues_run {i n : ℕ} {c : Conversation} (h : Run (restrict InOrder (ofPartial step)) s as t)
    (hs : s.Pursues i c n) : t.Pursues i c n :=
  h.invariant (I := fun s => s.Pursues i c n) (fun _ _ _ hI hst => pursues_step hI hst.2) hs

theorem newest_le_sequence (h : s.Ordered) (c : Conversation) : s.newest c ≤ s.sequence c.1 :=
  newest_le fun m hm hc => hc ▸ h.drawn m (.inl hm)

/-- A clear commits the marker that it read. -/
theorem marker_of_pursues {i n : ℕ} {c : Conversation} (h : s.Pursues i c n)
    (hstep : s.step (.commitClear i) = some t) : t.marker c = some n := by
  obtain ⟨r, hr, rfl, -, hpoint⟩ := h
  obtain ⟨r', v, hr', hwritten, rfl⟩ := takes_of_step hstep
  obtain rfl := Option.some.inj (hr.symm.trans hr')
  obtain rfl := hpoint v (.inr hwritten)
  exact Function.update_self ..

end runs

end Clears

open Clears

/-- Where every clear reads in order, no marker goes back, on the server or on a device, and a clear hides no
message that was not committed when it read. -/
theorem clears_in_order (before : List ClearAction) (s : Clears)
    (h : Run (restrict InOrder (ofPartial step)) start before s) :
    (∀ after t, Run (restrict InOrder (ofPartial step)) s after t →
      (∀ c id, s.hides c id → t.hides c id) ∧ ∀ device c id, s.hidesOn device c id → t.hidesOn device c id) ∧
    ∀ i r s₁ middle t t₁ after u, s.requests[i]? = some r → restrict InOrder (ofPartial step) s (.read i) s₁ →
      Run (restrict InOrder (ofPartial step)) s₁ middle t → t.step (.commitClear i) = some t₁ →
      Run (restrict InOrder (ofPartial step)) t₁ after u →
      ∀ m ∈ u.messages, m.conversation = r.conversation → t₁.hides r.conversation m.id → m ∈ s.messages := by
  have hs := ordered_run h ordered_start
  refine ⟨fun after t hrun => below_run hrun hs, ?_⟩
  intro i r s₁ middle t t₁ after u hr hread hmiddle hcommit hafter m hm hc hhides
  obtain ⟨hin, hread⟩ := hread
  have hlater : s.Later u := (later_step hread).trans
    ((later_run hmiddle).trans ((later_step hcommit).trans (later_run hafter)))
  have hpursues : s₁.Pursues i r.conversation (s.newest r.conversation) := by
    obtain ⟨r', hr', -, rfl⟩ := takes_of_step hread
    obtain rfl := Option.some.inj (hr.symm.trans hr')
    refine ⟨_, List.getElem?_set_self (List.getElem?_eq_some_iff.mp hr).1, rfl, nofun, fun v hv => ?_⟩
    rcases hv with hv | hv
    · exact (ClearPoint.found.inj hv).symm
    · cases hv
  obtain ⟨k, hk, hid⟩ := hhides
  obtain rfl := Option.some.inj ((marker_of_pursues (pursues_run hmiddle hpursues) hcommit).symm.trans hk)
  rcases hlater.messages m (.inl hm) with hold | hsending | hlt
  · exact hold
  · have := (hin r hr).1 m hsending hc
    omega
  · have := newest_le_sequence hs r.conversation
    rw [hc] at hlt
    omega

/-! ## Overlapping clears and sends -/

section sample

/-- The message with an id, in the conversation with `p`. -/
def sentTo (id : ℕ) : Sent := ⟨(.dm, "p"), id⟩

/-- The state after actions that can all be taken. -/
def clearsAfter (actions : List ClearAction) (s : Clears) : Clears := (actions.foldlM step s).getD s

theorem run_clearsAfter {actions : List ClearAction} {s : Clears} (h : (actions.foldlM step s).isSome = true) :
    Run (ofPartial step) s actions (clearsAfter actions s) := by
  obtain ⟨t, ht⟩ := Option.isSome_iff_exists.mp h
  rw [clearsAfter, ht]
  exact Run.ofPartial_foldlM step actions s t ht

/-- Message 1 is hidden by a clear, and message 2 arrives. -/
def hideOne : List ClearAction :=
  [.insert (sentTo 1), .commit (sentTo 1), .ask 0 (.dm, "p"), .read 0, .upsert 0, .commitClear 0, .insert (sentTo 2),
    .commit (sentTo 2)]

theorem run_hideOne : ∃ s, Run (restrict InOrder (ofPartial step)) start hideOne s ∧ s.hides (.dm, "p") 1 :=
  ⟨_, Run.restrict_foldlM step (fun _ _ => of_decide_eq_true) hideOne start _ rfl, 1, rfl, le_rfl⟩

/-- Message 1 stays hidden. -/
theorem clears_in_order_sample : ∃ s, Run (restrict InOrder (ofPartial step)) start hideOne s ∧
    ∀ after t, Run (restrict InOrder (ofPartial step)) s after t → t.hides (.dm, "p") 1 := by
  obtain ⟨s, hrun, hhides⟩ := run_hideOne
  exact ⟨s, hrun, fun after t h => ((clears_in_order hideOne s hrun).1 after t h).1 _ _ hhides⟩

/-- Two clears: the second reads message 2, which the first has not seen, and is answered. -/
def overlapping : List ClearAction :=
  [.insert (sentTo 1), .commit (sentTo 1), .ask 0 (.dm, "p"), .ask 1 (.dm, "p"), .read 0, .insert (sentTo 2),
    .commit (sentTo 2), .read 1, .upsert 1, .commitClear 1, .reread 1, .receive 1]

/-- Message 1 is in an open transaction when a clear reads message 2. -/
def outOfOrder : List ClearAction :=
  [.insert (sentTo 1), .insert (sentTo 2), .commit (sentTo 2), .ask 0 (.dm, "p")]

/-- The first clear then stores its marker, and message 2 is visible again; and a clear hides message 1, which
commits after it. -/
theorem not_clears_in_order :
    (¬ ∀ before s, Run (ofPartial step) start before s → ∀ after t, Run (ofPartial step) s after t →
      ∀ c id, s.hides c id → t.hides c id) ∧
    ¬ ∀ before s, Run (ofPartial step) start before s →
      ∀ i r s₁ middle t t₁ after u, s.requests[i]? = some r → s.step (.read i) = some s₁ →
        Run (ofPartial step) s₁ middle t → t.step (.commitClear i) = some t₁ → Run (ofPartial step) t₁ after u →
        ∀ m ∈ u.messages, m.conversation = r.conversation → t₁.hides r.conversation m.id → m ∈ s.messages := by
  constructor
  · intro h
    obtain ⟨k, hk, hle⟩ := h overlapping _ (run_clearsAfter (by decide)) [.upsert 0, .commitClear 0] _
      (run_clearsAfter (by decide)) (.dm, "p") 2 ⟨2, rfl, le_rfl⟩
    have hone : (clearsAfter [.upsert 0, .commitClear 0] (clearsAfter overlapping start)).marker (.dm, "p") =
      some 1 := rfl
    obtain rfl := Option.some.inj (hone.symm.trans hk)
    exact absurd hle (by decide)
  · intro h
    have hmem := h outOfOrder _ (run_clearsAfter (by decide)) 0 ⟨0, (.dm, "p"), .asked⟩ _ [.upsert 0] _ _
      [.commit (sentTo 1)] _ rfl rfl (run_clearsAfter (by decide)) rfl (run_clearsAfter (by decide)) (sentTo 1)
      (by decide) rfl ⟨2, rfl, by decide⟩
    exact absurd hmem (by decide)

end sample

end Kryptolog.Server
