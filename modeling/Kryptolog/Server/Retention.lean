import Kryptolog.Library.Fallible
import Kryptolog.Server.Models

/-! # Message retention

`retention.py`: the purge of the messages that are older than the configured number of days. Times here count
microseconds from the first datetime that there is.
-/

namespace Kryptolog.Server
set_option autoImplicit false

open Tables Json Fallible

/-- A row of `messages` or `group_messages`, with its age. -/
structure AgedMessage extends Message where
  createdAt : ℕ

instance : Keyed AgedMessage ℕ := ⟨fun r => r.id⟩

@[simp] theorem key_agedMessage (r : AgedMessage) : Keyed.key r = r.id := rfl

/-- The tables of `_MODELS`. -/
abbrev Messages := Kind → Serial AgedMessage

/-- A day. -/
def dayLength : ℕ := 24 * 3600 * 10 ^ 6

/-- `SESSION_GRACE`. -/
def sessionGrace : ℕ := 48 * 3600 * 10 ^ 6

/-- `_BATCH`. -/
def purgeBatch : ℕ := 500

/-! ## The purge -/

/-- A session: one sender, one session id. -/
abbrev SessionId := Address × Str

/-- `_session_of`. It catches a `TypeError` and a `ValueError`. -/
def sessionOf (row : AgedMessage) : Except Fault (Option SessionId) :=
  match row.content.loads with
  | .ok payload =>
    match payload.get "sid" with
    | some (.str sid) => .ok (if sid.truthy then some (row.senderAddress, sid) else none)
    | _ => .ok none
  | .error .valueError => .ok none
  | .error .recursionError => .error (.unhandled "RecursionError")

/-- `now - timedelta(days=days)`. -/
def cutoffOf (now : ℕ) (days : ℕ) : Except Fault ℕ :=
  if days * dayLength ≤ now then .ok (now - days * dayLength) else .error (.unhandled "OverflowError")

/-- Sent from the cutoff on, within the grace. -/
def inWindow (cutoff : ℕ) (r : AgedMessage) : Bool := cutoff ≤ r.createdAt && r.createdAt < cutoff + sessionGrace

/-- The sessions that are still alive just past the cutoff. -/
def protectedSessions (rows : Serial AgedMessage) (cutoff : ℕ) : Except Fault (List SessionId) := do
  let sessions ← (rows.where' (inWindow cutoff)).mapM sessionOf
  .ok (sessions.filterMap id)

/-- The old rows with their sessions. -/
def oldRows (rows : Serial AgedMessage) (cutoff : ℕ) : Except Fault (List (ℕ × Option SessionId)) :=
  (rows.where' fun r => r.createdAt < cutoff).mapM fun r => (sessionOf r).map fun s => (r.id, s)

/-- `_session_of(row) not in protected`. -/
def isDoomed (alive : List SessionId) : Option SessionId → Bool
  | some s => !alive.contains s
  | none => true

def doomedIds (rows : Serial AgedMessage) (cutoff : ℕ) : Except Fault (List ℕ) := do
  let alive ← protectedSessions rows cutoff
  let old ← oldRows rows cutoff
  .ok ((old.filter fun e => isDoomed alive e.2).map (·.1))

/-- `doomed[start : start + _BATCH]`, of each start. -/
def batches (doomed : List ℕ) : List (List ℕ) :=
  (List.range (doomed.length / purgeBatch + 1)).map fun k => (doomed.drop (k * purgeBatch)).take purgeBatch

def deleteBatches (rows : Serial AgedMessage) (doomed : List ℕ) : Serial AgedMessage :=
  (batches doomed).foldl (fun rows ids => rows.delete fun r => ids.contains r.id) rows

/-- What was found for each kind. -/
def ofKind (dm group : List ℕ) : Kind → List ℕ
  | .dm => dm
  | .group => group

/-- `purge_expired_messages`: the tables afterwards, with the number of rows deleted from each. -/
def purgeExpiredMessages (tables : Messages) (days : ℕ) (now : ℕ) :
    Except Fault (Messages × (Kind → ℕ)) := do
  let cutoff ← cutoffOf now days
  let dm ← doomedIds (tables .dm) cutoff
  let group ← doomedIds (tables .group) cutoff
  .ok (fun kind => deleteBatches (tables kind) (ofKind dm group kind), fun kind => (ofKind dm group kind).length)

/-- The tables after a pass. A pass that fails is logged, and nothing of it is committed. -/
def afterPass (tables : Messages) (days : ℕ) (now : ℕ) : Messages :=
  ((purgeExpiredMessages tables days now).map (·.1)).toOption.getD tables

/-! ## What a pass keeps -/

/-- The row belongs to the session. -/
def AgedMessage.InSession (r : AgedMessage) (s : SessionId) : Prop := sessionOf r = .ok (some s)

/-- The row was sent before the cutoff. -/
def AgedMessage.IsBefore (r : AgedMessage) (days : ℕ) (now : ℕ) : Prop := r.createdAt + days * dayLength < now

/-- The parser gives up on the row. -/
def AgedMessage.IsTooDeep (r : AgedMessage) : Prop := ∃ raw, r.content = .tooDeep raw

/-- Every session spans less than 48 hours. -/
def IsShort (tables : Messages) : Prop :=
  ∀ kind, ∀ r ∈ tables kind, ∀ r' ∈ tables kind, ∀ s, r.InSession s → r'.InSession s →
    r'.createdAt < r.createdAt + sessionGrace

/-- The session has messages, and all of them were sent before the cutoff. -/
def IsOver (tables : Messages) (days : ℕ) (now : ℕ) (kind : Kind) (s : SessionId) : Prop :=
  (∃ r ∈ tables kind, r.InSession s) ∧ ∀ r ∈ tables kind, r.InSession s → r.IsBefore days now

/-- A pass keeps sessions whole and what is young enough, and deletes the sessions that are over. -/
structure KeepsSessions (tables after : Messages) (days : ℕ) (now : ℕ) : Prop where
  whole : ∀ kind s, (∀ r ∈ tables kind, r.InSession s → r ∈ after kind) ∨
    ∀ r ∈ tables kind, r.InSession s → r ∉ after kind
  young : ∀ kind, ∀ r ∈ tables kind, ¬ r.IsBefore days now → r ∈ after kind
  ended : ∀ kind s, IsOver tables days now kind s → ∀ r ∈ tables kind, r.InSession s → r ∉ after kind

section purge

variable {rows : Serial AgedMessage} {r : AgedMessage} {s : SessionId} {cutoff : ℕ} {ids : List ℕ}

/-! ### Batches -/

theorem mem_batches {doomed : List ℕ} {i : ℕ} : (∃ ids ∈ batches doomed, i ∈ ids) ↔ i ∈ doomed := by
  constructor
  · rintro ⟨ids, hids, hi⟩
    obtain ⟨k, -, rfl⟩ := List.mem_map.mp hids
    exact List.mem_of_mem_drop (List.mem_of_mem_take hi)
  · intro hi
    obtain ⟨n, hn, rfl⟩ := List.mem_iff_getElem.mp hi
    have hbatch : 0 < purgeBatch := by decide
    have hpos : n / purgeBatch * purgeBatch + n % purgeBatch = n := Nat.div_add_mod' n purgeBatch
    have hmod := Nat.mod_lt n hbatch
    refine ⟨_, List.mem_map.mpr ⟨n / purgeBatch, List.mem_range.mpr ?_, rfl⟩, ?_⟩
    · exact Nat.lt_succ_of_le (Nat.div_le_div_right hn.le)
    · refine List.mem_iff_getElem.mpr ⟨n % purgeBatch, ?_, ?_⟩
      · rw [List.length_take, List.length_drop]
        omega
      · rw [List.getElem_take, List.getElem_drop]
        simp only [hpos]

theorem mem_deleteBatches {doomed : List ℕ} :
    r ∈ deleteBatches rows doomed ↔ r ∈ rows ∧ r.id ∉ doomed := by
  have hfold : ∀ (bs : List (List ℕ)) (rows : Serial AgedMessage),
      r ∈ bs.foldl (fun rows ids => rows.delete fun r => ids.contains r.id) rows ↔
        r ∈ rows ∧ ∀ ids ∈ bs, r.id ∉ ids := by
    intro bs
    induction bs with
    | nil => simp
    | cons ids bs ih =>
      intro rows
      rw [List.foldl_cons, ih, List.forall_mem_cons]
      simp [and_assoc]
  rw [deleteBatches, hfold, ← mem_batches]
  simp

/-! ### Sessions -/

theorem sessionOf_isOk : (∃ session, sessionOf r = .ok session) ↔ ¬ r.IsTooDeep := by
  simp only [sessionOf, AgedMessage.IsTooDeep]
  cases r.content with
  | json v =>
    simp only [Document.loads_json]
    split <;> simp
  | notJson raw => simp [Document.loads]
  | tooDeep raw => simp [Document.loads]

/-- The window past the cutoff. -/
theorem mem_protectedSessions {alive : List SessionId} (h : protectedSessions rows cutoff = .ok alive) :
    s ∈ alive ↔ ∃ r ∈ rows, (cutoff ≤ r.createdAt ∧ r.createdAt < cutoff + sessionGrace) ∧ r.InSession s := by
  obtain ⟨sessions, hsessions, h⟩ := bind_eq_ok.mp h
  obtain rfl := Except.ok.inj h
  simp only [List.mem_filterMap, id_eq, exists_eq_right, mem_mapM hsessions]
  constructor
  · rintro ⟨r, hr, hs⟩
    obtain ⟨hr, hwindow⟩ := Table.mem_where'.mp hr
    exact ⟨r, hr, by simpa [inWindow] using hwindow, hs⟩
  · rintro ⟨r, hr, hwindow, hs⟩
    exact ⟨r, Table.mem_where'.mpr ⟨hr, by simpa [inWindow] using hwindow⟩, hs⟩

theorem isDoomed_iff {alive : List SessionId} {session : Option SessionId} (h : sessionOf r = .ok session) :
    isDoomed alive session = true ↔ ∀ s, r.InSession s → s ∉ alive := by
  cases session with
  | none =>
    refine iff_of_true rfl fun s hs => ?_
    cases h.symm.trans hs
  | some s =>
    simp only [isDoomed, Bool.not_eq_true', List.contains_eq_mem, decide_eq_false_iff_not]
    constructor
    · intro hs s' hs'
      obtain rfl := Option.some.inj (Except.ok.inj (h.symm.trans hs'))
      exact hs
    · intro hall
      exact hall s h

/-- An old row goes unless a row of its session lies in the window past the cutoff. -/
theorem mem_doomedIds (h : doomedIds rows cutoff = .ok ids) (hr : r ∈ rows) :
    r.id ∈ ids ↔ r.createdAt < cutoff ∧ ∀ s, r.InSession s →
      ¬ ∃ r' ∈ rows, (cutoff ≤ r'.createdAt ∧ r'.createdAt < cutoff + sessionGrace) ∧ r'.InSession s := by
  obtain ⟨alive, halive, h⟩ := bind_eq_ok.mp h
  obtain ⟨old, hold, h⟩ := bind_eq_ok.mp h
  obtain rfl := Except.ok.inj h
  have hentry : ∀ session, (r.id, session) ∈ old ↔ r.createdAt < cutoff ∧ sessionOf r = .ok session := by
    intro session
    rw [mem_mapM hold]
    constructor
    · rintro ⟨r', hr', hmap⟩
      obtain ⟨hr', hlt⟩ := Table.mem_where'.mp hr'
      obtain ⟨session', hsession, heq⟩ := map_eq_ok.mp hmap
      obtain ⟨hid, rfl⟩ := Prod.mk.inj heq
      obtain rfl := Serial.eq_of_key hr' hr hid
      exact ⟨by simpa using hlt, hsession⟩
    · rintro ⟨hlt, hsession⟩
      exact ⟨r, Table.mem_where'.mpr ⟨hr, by simpa using hlt⟩, map_eq_ok.mpr ⟨session, hsession, rfl⟩⟩
  have hsessions : r.createdAt < cutoff → ∃ session, sessionOf r = .ok session := by
    intro hlt
    obtain ⟨e, he⟩ := mapM_isOk.mp ⟨old, hold⟩ r (Table.mem_where'.mpr ⟨hr, by simpa using hlt⟩)
    obtain ⟨session, hsession, -⟩ := map_eq_ok.mp he
    exact ⟨session, hsession⟩
  simp only [← mem_protectedSessions halive]
  constructor
  · intro hid
    obtain ⟨⟨_, session⟩, he, rfl⟩ := List.mem_map.mp hid
    obtain ⟨he, hdoomed⟩ := List.mem_filter.mp he
    obtain ⟨hlt, hsession⟩ := (hentry session).mp he
    exact ⟨hlt, (isDoomed_iff hsession).mp hdoomed⟩
  · rintro ⟨hlt, hnone⟩
    obtain ⟨session, hsession⟩ := hsessions hlt
    exact List.mem_map.mpr ⟨(r.id, session), List.mem_filter.mpr
      ⟨(hentry session).mpr ⟨hlt, hsession⟩, (isDoomed_iff hsession).mpr hnone⟩, rfl⟩

/-- The doomed rows can be found where the parser gives up on none of the rows before the end of the window. -/
theorem doomedIds_isOk : (∃ ids, doomedIds rows cutoff = .ok ids) ↔
    ∀ r ∈ rows, r.createdAt < cutoff + sessionGrace → ¬ r.IsTooDeep := by
  have halive : (∃ alive, protectedSessions rows cutoff = .ok alive) ↔
      ∀ r ∈ rows, cutoff ≤ r.createdAt ∧ r.createdAt < cutoff + sessionGrace → ¬ r.IsTooDeep := by
    simp only [protectedSessions, bind_eq_ok]
    constructor
    · rintro ⟨_, sessions, hsessions, -⟩ r hr hwindow
      exact sessionOf_isOk.mp (mapM_isOk.mp ⟨sessions, hsessions⟩ r
        (Table.mem_where'.mpr ⟨hr, by simpa [inWindow] using hwindow⟩))
    · intro hall
      have hsessions : ∀ r ∈ rows.where' (inWindow cutoff), ∃ session, sessionOf r = .ok session := by
        intro r hr
        obtain ⟨hr, hwindow⟩ := Table.mem_where'.mp hr
        exact sessionOf_isOk.mpr (hall r hr (by simpa [inWindow] using hwindow))
      obtain ⟨sessions, hsessions⟩ := mapM_isOk.mpr hsessions
      exact ⟨_, sessions, hsessions, rfl⟩
  have hold : (∃ old, oldRows rows cutoff = .ok old) ↔ ∀ r ∈ rows, r.createdAt < cutoff → ¬ r.IsTooDeep := by
    rw [oldRows, mapM_isOk]
    constructor
    · intro hall r hr hlt
      obtain ⟨e, he⟩ := hall r (Table.mem_where'.mpr ⟨hr, by simpa using hlt⟩)
      obtain ⟨session, hsession, -⟩ := map_eq_ok.mp he
      exact sessionOf_isOk.mp ⟨session, hsession⟩
    · intro hall r hr
      obtain ⟨hr, hlt⟩ := Table.mem_where'.mp hr
      obtain ⟨session, hsession⟩ := sessionOf_isOk.mpr (hall r hr (by simpa using hlt))
      exact ⟨_, map_eq_ok.mpr ⟨session, hsession, rfl⟩⟩
  have hboth : (∃ ids, doomedIds rows cutoff = .ok ids) ↔
      (∃ alive, protectedSessions rows cutoff = .ok alive) ∧ ∃ old, oldRows rows cutoff = .ok old := by
    simp only [doomedIds, bind_eq_ok]
    constructor
    · rintro ⟨ids, alive, halive, old, hold, -⟩
      exact ⟨⟨alive, halive⟩, old, hold⟩
    · rintro ⟨⟨alive, halive⟩, old, hold⟩
      exact ⟨_, alive, halive, old, hold, rfl⟩
  rw [hboth, halive, hold]
  constructor
  · rintro ⟨hwindow, hlt⟩ r hr hend
    by_cases h : r.createdAt < cutoff
    · exact hlt r hr h
    · exact hwindow r hr ⟨by omega, hend⟩
  · intro hall
    exact ⟨fun r hr hwindow => hall r hr hwindow.2, fun r hr hlt => hall r hr (by omega)⟩

end purge

section retention

variable {tables : Messages} {days : ℕ} {now : ℕ}

theorem cutoffOf_eq (h : days * dayLength ≤ now) : cutoffOf now days = .ok (now - days * dayLength) := by
  rw [cutoffOf, if_pos h]

theorem purgeExpiredMessages_eq {cutoff : ℕ} {dm group : List ℕ} (hcutoff : cutoffOf now days = .ok cutoff)
    (hdm : doomedIds (tables .dm) cutoff = .ok dm) (hgroup : doomedIds (tables .group) cutoff = .ok group) :
    purgeExpiredMessages tables days now = .ok (fun kind => deleteBatches (tables kind) (ofKind dm group kind),
      fun kind => (ofKind dm group kind).length) := by
  rw [purgeExpiredMessages, hcutoff, ok_bind, hdm, ok_bind, hgroup, ok_bind]

/-- A pass that finds the doomed rows of each table deletes them. -/
theorem afterPass_of_ok {cutoff : ℕ} (hcutoff : cutoffOf now days = .ok cutoff)
    (hok : ∀ kind, ∃ ids, doomedIds (tables kind) cutoff = .ok ids) (kind : Kind) :
    ∃ ids, doomedIds (tables kind) cutoff = .ok ids ∧
      afterPass tables days now kind = deleteBatches (tables kind) ids := by
  obtain ⟨dm, hdm⟩ := hok .dm
  obtain ⟨group, hgroup⟩ := hok .group
  refine ⟨ofKind dm group kind, ?_, ?_⟩
  · cases kind with
    | dm => exact hdm
    | group => exact hgroup
  · rw [afterPass, purgeExpiredMessages_eq hcutoff hdm hgroup]
    rfl

/-- A pass that fails deletes nothing. -/
theorem afterPass_of_error {e : Fault} (h : purgeExpiredMessages tables days now = .error e) :
    afterPass tables days now = tables := by
  rw [afterPass, h]
  rfl

/-- A pass that comes to its end deletes, of each table, the rows from before the cutoff whose session has none
in the window. -/
theorem mem_afterPass {cutoff : ℕ} (hcutoff : cutoffOf now days = .ok cutoff)
    (hdeep : ∀ kind, ∀ r ∈ tables kind, r.createdAt < cutoff + sessionGrace → ¬ r.IsTooDeep)
    {kind : Kind} {r : AgedMessage} (hr : r ∈ tables kind) :
    r ∈ afterPass tables days now kind ↔ (r.createdAt < cutoff → ∃ s, r.InSession s ∧ ∃ r' ∈ tables kind,
      (cutoff ≤ r'.createdAt ∧ r'.createdAt < cutoff + sessionGrace) ∧ r'.InSession s) := by
  obtain ⟨ids, hids, hafter⟩ := afterPass_of_ok hcutoff (fun kind => doomedIds_isOk.mpr (hdeep kind)) kind
  rw [hafter, mem_deleteBatches, and_iff_right hr, mem_doomedIds hids hr, not_and]
  simp only [not_forall, not_not, exists_prop]

theorem isBefore_iff {cutoff : ℕ} (hcutoff : cutoffOf now days = .ok cutoff) (r : AgedMessage) :
    r.IsBefore days now ↔ r.createdAt < cutoff := by
  rw [cutoffOf] at hcutoff
  split at hcutoff
  · obtain rfl := Except.ok.inj hcutoff
    rw [AgedMessage.IsBefore]
    omega
  · cases hcutoff

theorem AgedMessage.InSession.eq {r : AgedMessage} {s s' : SessionId} (h : r.InSession s) (h' : r.InSession s') :
    s = s' := Option.some.inj (Except.ok.inj (h.symm.trans h'))

/-- A pass that comes to its end keeps sessions whole. -/
theorem keepsSessions_of_ok {cutoff : ℕ} (hcutoff : cutoffOf now days = .ok cutoff)
    (hdeep : ∀ kind, ∀ r ∈ tables kind, r.createdAt < cutoff + sessionGrace → ¬ r.IsTooDeep)
    (hshort : IsShort tables) : KeepsSessions tables (afterPass tables days now) days now := by
  have hgone : ∀ kind s, (∀ r ∈ tables kind, r.InSession s → r.createdAt < cutoff) →
      ∀ r ∈ tables kind, r.InSession s → r ∉ afterPass tables days now kind := by
    intro kind s hall r hr hs hafter
    obtain ⟨s', hs', r', hr', hwindow, hrs'⟩ := (mem_afterPass hcutoff hdeep hr).mp hafter (hall r hr hs)
    obtain rfl := hs.eq hs'
    exact absurd (hall r' hr' hrs') (by omega)
  refine ⟨fun kind s => ?_, fun kind r hr hyoung => ?_, fun kind s hover => ?_⟩
  · by_cases halive : ∀ r ∈ tables kind, r.InSession s → r.createdAt < cutoff
    · exact .inr (hgone kind s halive)
    · -- a row of the session from the cutoff on lies in the window of every old one
      left
      simp only [not_forall] at halive
      obtain ⟨r', hr', hs', hlate⟩ := halive
      intro r hr hs
      rw [mem_afterPass hcutoff hdeep hr]
      intro hold
      have hspan := hshort kind r hr r' hr' s hs hs'
      exact ⟨s, hs, r', hr', ⟨by omega, by omega⟩, hs'⟩
  · rw [isBefore_iff hcutoff] at hyoung
    rw [mem_afterPass hcutoff hdeep hr]
    exact fun hold => absurd hold hyoung
  · exact hgone kind s fun r hr hs => (isBefore_iff hcutoff r).mp (hover.2 r hr hs)

/-- A pass that deletes nothing keeps sessions whole where none is over. -/
theorem keepsSessions_self : KeepsSessions tables tables days now ↔ ∀ kind s, ¬ IsOver tables days now kind s := by
  constructor
  · rintro h kind s hover
    obtain ⟨r, hr, hs⟩ := hover.1
    exact h.ended kind s hover r hr hs hr
  · intro h
    exact ⟨fun kind s => .inl fun r hr _ => hr, fun kind r hr _ => hr, fun kind s hover => absurd hover (h kind s)⟩

/-- The parser gives up on a row before the end of the window: the pass fails. -/
theorem afterPass_of_tooDeep {cutoff : ℕ} (hcutoff : cutoffOf now days = .ok cutoff) {kind : Kind}
    {r : AgedMessage} (hr : r ∈ tables kind) (hend : r.createdAt < cutoff + sessionGrace) (hdeep : r.IsTooDeep) :
    afterPass tables days now = tables := by
  have hnot : ¬ ∃ ids, doomedIds (tables kind) cutoff = .ok ids := fun hok =>
    doomedIds_isOk.mp hok r hr hend hdeep
  cases hpurge : purgeExpiredMessages tables days now with
  | error e => exact afterPass_of_error hpurge
  | ok after =>
    obtain ⟨cutoff', hcutoff', hpurge⟩ := bind_eq_ok.mp hpurge
    obtain ⟨dm, hdm, hpurge⟩ := bind_eq_ok.mp hpurge
    obtain ⟨group, hgroup, -⟩ := bind_eq_ok.mp hpurge
    obtain rfl := Except.ok.inj (hcutoff.symm.trans hcutoff')
    cases kind with
    | dm => exact absurd ⟨dm, hdm⟩ hnot
    | group => exact absurd ⟨group, hgroup⟩ hnot

end retention

/-- Where every session spans less than 48 hours, a pass keeps sessions whole and deletes those that are over
exactly where the parser gives up on no row before the end of the window, or no session is over. -/
theorem retention_iff (tables : Messages) (days now : ℕ) (hshort : IsShort tables) :
    KeepsSessions tables (afterPass tables days now) days now ↔
      (∀ kind, ∀ r ∈ tables kind, r.createdAt + days * dayLength < now + sessionGrace → ¬ r.IsTooDeep) ∨
        ∀ kind s, ¬ IsOver tables days now kind s := by
  cases hcutoff : cutoffOf now days with
  | error e =>
    have hpurge : purgeExpiredMessages tables days now = .error e := by
      rw [purgeExpiredMessages, hcutoff]
      rfl
    have hnone : ∀ kind s, ¬ IsOver tables days now kind s := by
      rintro kind s ⟨⟨r, hr, hs⟩, hall⟩
      have hbefore : r.createdAt + days * dayLength < now := hall r hr hs
      rw [cutoffOf, if_pos (by omega)] at hcutoff
      cases hcutoff
    rw [afterPass_of_error hpurge, keepsSessions_self]
    exact iff_of_true hnone (.inr hnone)
  | ok cutoff =>
    have hend : ∀ r : AgedMessage,
        r.createdAt + days * dayLength < now + sessionGrace ↔ r.createdAt < cutoff + sessionGrace := by
      intro r
      rw [cutoffOf] at hcutoff
      split at hcutoff
      · obtain rfl := Except.ok.inj hcutoff
        omega
      · cases hcutoff
    simp only [hend]
    by_cases hdeep : ∀ kind, ∀ r ∈ tables kind, r.createdAt < cutoff + sessionGrace → ¬ r.IsTooDeep
    · exact iff_of_true (keepsSessions_of_ok hcutoff hdeep hshort) (.inl hdeep)
    · rw [or_iff_right hdeep]
      simp only [not_forall, not_not] at hdeep
      obtain ⟨kind, r, hr, hlt, hraw⟩ := hdeep
      rw [afterPass_of_tooDeep hcutoff hr hlt hraw, keepsSessions_self]

/-! ## A message that nests too deep -/

section sample

/-- The first message of a session, at the first moment. -/
def firstMessage (id : ℕ) : AgedMessage :=
  ⟨⟨id, lower "a", "b", .json (.obj [(.uni "sid", .str (.uni "s"))])⟩, 0⟩

def deepMessage (id : ℕ) : AgedMessage := ⟨⟨id, lower "c", "b", .tooDeep "["⟩, 0⟩

def sessionTables : Messages
  | .dm => Serial.empty.insert firstMessage fun _ => rfl
  | .group => Serial.empty

def deepTables : Messages
  | .dm => (Serial.empty.insert firstMessage fun _ => rfl).insert deepMessage fun _ => rfl
  | .group => Serial.empty

theorem mem_sessionTables {kind : Kind} {r : AgedMessage} (h : r ∈ sessionTables kind) : r = firstMessage 0 := by
  cases kind with
  | dm => exact List.mem_singleton.mp (show r ∈ [firstMessage 0] from h)
  | group => cases h

theorem isShort_sessionTables : IsShort sessionTables := by
  intro kind r hr r' hr' s _ _
  rw [mem_sessionTables hr, mem_sessionTables hr']
  decide

/-- The session is deleted ten days later. -/
theorem retention_iff_sample :
    KeepsSessions sessionTables (afterPass sessionTables 1 (10 * dayLength)) 1 (10 * dayLength) := by
  refine (retention_iff sessionTables 1 (10 * dayLength) isShort_sessionTables).mpr (.inl fun kind r hr _ => ?_)
  rw [mem_sessionTables hr]
  rintro ⟨raw, hraw⟩
  cases hraw

theorem mem_deepTables {r : AgedMessage} : r ∈ deepTables .dm ↔ r ∈ [firstMessage 0, deepMessage 1] := Iff.rfl

theorem createdAt_deepTables {kind : Kind} {r : AgedMessage} (h : r ∈ deepTables kind) : r.createdAt = 0 := by
  cases kind with
  | dm =>
    rcases List.mem_pair.mp (mem_deepTables.mp h) with rfl | rfl
    · rfl
    · rfl
  | group => cases h

/-- The session beside a message that nests too deep is never deleted. -/
theorem not_retention : ¬ ∀ (tables : Messages) (days now : ℕ), IsShort tables →
    KeepsSessions tables (afterPass tables days now) days now := by
  intro h
  have hshort : IsShort deepTables := by
    intro kind r hr r' hr' s _ _
    rw [createdAt_deepTables hr, createdAt_deepTables hr']
    decide
  have hfirst : firstMessage 0 ∈ deepTables .dm := mem_deepTables.mpr (by simp)
  have hdeep : deepMessage 1 ∈ deepTables .dm := mem_deepTables.mpr (by simp)
  have hcutoff : cutoffOf (10 * dayLength) 1 = .ok (9 * dayLength) := by decide +kernel
  have hkeeps := h deepTables 1 (10 * dayLength) hshort
  rw [afterPass_of_tooDeep hcutoff hdeep (by decide +kernel) ⟨_, rfl⟩] at hkeeps
  refine keepsSessions_self.mp hkeeps .dm (lower "a", .uni "s") ⟨⟨_, hfirst, rfl⟩, fun r hr _ => ?_⟩
  rw [AgedMessage.IsBefore, createdAt_deepTables hr]
  decide +kernel

end sample

end Kryptolog.Server
