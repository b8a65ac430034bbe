import Mathlib.Data.List.Sort
import Kryptolog.Library.TrackedPoints
import Kryptolog.Server.Transactions

/-! # Push subscriptions

`POST /notifications/subscribe`, `POST /notifications/unsubscribe` and the delivery job of `utils/push.py`, statement
by statement. The accounts do not change under them. What a push service answers is an input of the job.

A new row is numbered when it is committed. No other session can name it before.
-/

namespace Kryptolog.Server
set_option autoImplicit false

open Tables ReadCommitted Runs

structure PushSubscription where
  id : ℕ
  userAddress : Address
  endpoint : String
  p256dh : String
  auth : String
  createdAt : Time

instance : Keyed PushSubscription ℕ := ⟨PushSubscription.id⟩

structure PushSubscriptionCreate where
  endpoint : String
  p256dh : String
  auth : String

/-- What `send_push_notification` returns. -/
inductive Delivery
  | sent
  | failed
  | gone
  | unsafeEndpoint

/-- The service or the guard refused the endpoint for good. -/
def Delivery.isDead : Delivery → Bool
  | .gone | .unsafeEndpoint => true
  | _ => false

structure DeliveryJob where
  userAddress : String
  isFocused : Bool
  send : PushSubscription → Delivery

def DeliveryJob.targetAddr (job : DeliveryJob) : Address := lower job.userAddress

inductive PushRequest
  | subscribe (token : Token) (now : Time) (sub : PushSubscriptionCreate)
  | unsubscribe (token : Token) (endpoint : String)
  | notify (job : DeliveryJob)

/-- A request to subscribe with the caller that its token named. -/
structure Subscribing where
  token : Token
  caller : Address
  now : Time
  sub : PushSubscriptionCreate

structure Unsubscribing where
  token : Token
  caller : Address
  endpoint : String

/-- `MAX_SUBSCRIPTIONS_PER_USER`. -/
def maxSubscriptionsPerUser : ℕ := 10

inductive PushLock
  | user (a : Address)
  | subscription (id : ℕ)
  deriving DecidableEq

inductive PushChange
  | insert (s : Subscribing)
  /-- The columns that differ from the loaded row. -/
  | setKeys (id : ℕ) (p256dh auth : Option String)
  | delete (rows : List PushSubscription)

def Subscribing.row (s : Subscribing) (id : ℕ) : PushSubscription :=
  ⟨id, s.caller, s.sub.endpoint, s.sub.p256dh, s.sub.auth, s.now⟩

theorem Subscribing.key_row (s : Subscribing) (id : ℕ) : Keyed.key (s.row id) = id := rfl

def PushSubscription.assign (p256dh auth : Option String) (r : PushSubscription) : PushSubscription :=
  { r with p256dh := p256dh.getD r.p256dh, auth := auth.getD r.auth }

theorem PushSubscription.key_assign (p256dh auth : Option String) (r : PushSubscription) :
    Keyed.key (r.assign p256dh auth) = Keyed.key r := rfl

/-- The row is one of these, by its number. -/
def isAmong (rows : List PushSubscription) (id : ℕ) : Bool := rows.any (·.id == id)

namespace PushChange

def apply (c : Serial PushSubscription) : PushChange → Serial PushSubscription
  | insert s => c.insert s.row s.key_row
  | setKeys id p256dh auth =>
    c.update (·.id == id) (PushSubscription.assign p256dh auth) (PushSubscription.key_assign p256dh auth)
  | delete rows => c.delete fun r => isAmong rows r.id

def locks : PushChange → List PushLock
  | insert _ => []
  | setKeys id _ _ => [.subscription id]
  | delete rows => rows.map fun r => .subscription r.id

end PushChange

/-! ## The transactions -/

/-- Where the transaction is, with what it has loaded and changed so far. -/
inductive PushPoint
  | authenticate (request : PushRequest)
  | findExisting (s : Subscribing)
  | unchanged (s : Subscribing)
  | updateKeys (s : Subscribing) (existing : PushSubscription)
  | updated (s : Subscribing) (existing : PushSubscription)
  | dropStale (s : Subscribing)
  | lockOwner (s : Subscribing) (stale : List PushSubscription)
  | insertNew (s : Subscribing) (stale : List PushSubscription)
  | evict (s : Subscribing) (stale : List PushSubscription)
  | subscribed (s : Subscribing) (stale old : List PushSubscription)
  | deleteOwn (u : Unsubscribing)
  | unsubscribed (u : Unsubscribing) (rows : List PushSubscription)
  | loadSubscriptions (job : DeliveryJob)
  /-- The subscriptions left to send to; a commit expires what was loaded of them. -/
  | send (job : DeliveryJob) (loaded : Bool) (subs : List PushSubscription)
  | drop (job : DeliveryJob) (sub : PushSubscription) (rest : List PushSubscription)
  | dropped (job : DeliveryJob) (rows rest : List PushSubscription)
  | ended

/-- A column that the session sets on a loaded row is written where it is another value. -/
def setColumn (loaded new : String) : Option String := if loaded = new then none else some new

/-- The flush of the keys of a loaded row. -/
def Subscribing.keyChange (s : Subscribing) (existing : PushSubscription) : PushChange :=
  .setKeys existing.id (setColumn existing.p256dh s.sub.p256dh) (setColumn existing.auth s.sub.auth)

namespace PushPoint

def log : PushPoint → List PushChange
  | updated s existing => [s.keyChange existing]
  | lockOwner _ stale | insertNew _ stale => [.delete stale]
  | evict s stale => [.delete stale, .insert s]
  | subscribed s stale old => [.delete stale, .insert s, .delete old]
  | unsubscribed _ rows | dropped _ rows _ => [.delete rows]
  | _ => []

/-- The account whose row the transaction has locked. -/
def owner : PushPoint → Option Address
  | insertNew s _ | evict s _ | subscribed s _ _ => some s.caller
  | _ => none

def locks (p : PushPoint) : List PushLock := p.owner.toList.map .user ++ p.log.flatMap PushChange.locks

end PushPoint

abbrev PushOutcome := Outcome PushLock PushChange PushPoint

/-- The way on after a statement that changed rows. -/
def changedSubscriptions (change : PushChange) (next : PushPoint) : PushOutcome := ⟨change.locks, [change], next⟩

/-- The numbers of an account's subscriptions. -/
def idsOf (c : Serial PushSubscription) (a : Address) : List ℕ := (c.where' (·.userAddress == a)).map (·.id)

/-- `keep`: `ORDER BY id DESC LIMIT 10`. -/
def newest (c : Serial PushSubscription) (a : Address) : List ℕ :=
  ((idsOf c a).insertionSort (· ≥ ·)).take maxSubscriptionsPerUser

def PushPoint.op (accounts : Database) (isPushEndpoint : String → Bool) :
    PushPoint → Op (Serial PushSubscription) PushLock PushChange PushPoint
  | .authenticate request => .select fun _ =>
    match request with
    | .subscribe token now sub =>
      match getCurrentUser accounts token with
      | .error _ => .ended
      | .ok caller => if isPushEndpoint sub.endpoint then .findExisting ⟨token, caller.address, now, sub⟩ else .ended
    | .unsubscribe token endpoint =>
      match getCurrentUser accounts token with
      | .error _ => .ended
      | .ok caller => .deleteOwn ⟨token, caller.address, endpoint⟩
    | .notify job => if job.isFocused then .ended else .loadSubscriptions job
  | .findExisting s => .select fun c =>
    match c.find? fun r => r.endpoint == s.sub.endpoint && r.userAddress == s.caller with
    | none => .dropStale s
    | some existing =>
      -- no column differs, and no statement is sent
      if existing.p256dh = s.sub.p256dh ∧ existing.auth = s.sub.auth then .unchanged s
      else .updateKeys s existing
  | .updateKeys s existing => .write fun snap cur =>
    if (matched snap cur (·.id == existing.id)).isEmpty then ⟨[], [], .ended⟩
    else changedSubscriptions (s.keyChange existing) (.updated s existing)
  | .unchanged _ | .updated _ _ => .commit .ended
  | .dropStale s => .write fun snap cur =>
    let stale := matched snap cur fun r => r.endpoint == s.sub.endpoint && r.userAddress != s.caller
    changedSubscriptions (.delete stale) (.lockOwner s stale)
  | .lockOwner s stale => .write fun _ _ =>
    if (findUser accounts s.caller).isSome then ⟨[.user s.caller], [], .insertNew s stale⟩ else ⟨[], [], .ended⟩
  | .insertNew s stale => .write fun _ _ => changedSubscriptions (.insert s) (.evict s stale)
  | .evict s stale => .write fun snap cur =>
    let keep := newest snap s.caller
    let old := matched snap cur fun r => r.userAddress == s.caller && !keep.contains r.id
    changedSubscriptions (.delete old) (.subscribed s stale old)
  | .subscribed _ _ _ => .commit .ended
  | .deleteOwn u => .write fun snap cur =>
    let rows := matched snap cur fun r => r.userAddress == u.caller && r.endpoint == u.endpoint
    changedSubscriptions (.delete rows) (.unsubscribed u rows)
  | .unsubscribed _ _ => .commit .ended
  | .loadSubscriptions job => .select fun c => .send job true (c.where' (·.userAddress == job.targetAddr))
  | .send _ _ [] => .halt
  | .send job loaded (sub :: rest) => .select fun c =>
    match if loaded then some sub else c.find? (·.id == sub.id) with
    | none => .ended
    | some sub => if (job.send sub).isDead then .drop job sub rest else .send job loaded rest
  | .drop job sub rest => .write fun snap cur =>
    let rows := matched snap cur (·.id == sub.id)
    changedSubscriptions (.delete rows) (.dropped job rows rest)
  | .dropped job _ rest => .commit (.send job false rest)
  | .ended => .halt

def subscriptions (accounts : Database) (isPushEndpoint : String → Bool) :
    Machine (Serial PushSubscription) PushLock PushChange PushPoint PushRequest where
  apply e c := e.apply c
  entry := .authenticate
  op := PushPoint.op accounts isPushEndpoint

/-! ## What the changes keep -/

section changes

variable {c d e : Serial PushSubscription} {a : Address} {r : PushSubscription} {rows : List PushSubscription}

theorem isAmong_iff {id : ℕ} : isAmong rows id = true ↔ ∃ r ∈ rows, r.id = id := by
  simp only [isAmong, List.any_eq_true, beq_iff_eq]

theorem mem_idsOf {id : ℕ} : id ∈ idsOf c a ↔ ∃ r ∈ c, r.userAddress = a ∧ r.id = id := by
  simp only [idsOf, List.mem_map, Table.mem_where', Serial.mem_toTable, beq_iff_eq, and_assoc]

theorem nodup_idsOf : (idsOf c a).Nodup := c.nodup.sublist (List.filter_sublist.map _)

theorem mem_apply_insert {s : Subscribing} :
    r ∈ PushChange.apply c (.insert s) ↔ r ∈ c ∨ r = s.row c.next :=
  @Serial.mem_insert _ _ c s.row s.key_row r

theorem mem_apply_delete : r ∈ PushChange.apply c (.delete rows) ↔ r ∈ c ∧ isAmong rows r.id = false :=
  Serial.mem_delete

theorem idsOf_insert (s : Subscribing) :
    idsOf (PushChange.apply c (.insert s)) a = idsOf c a ++ if s.caller = a then [c.next] else [] := by
  have hrows : (PushChange.apply c (.insert s)).rows = c.rows ++ [s.row c.next] := rfl
  rw [idsOf, Table.where', hrows, List.filter_append, List.map_append]
  congr 1
  by_cases h : s.caller = a
  · have hmine : ((s.row c.next).userAddress == a) = true := beq_iff_eq.mpr h
    rw [if_pos h, List.filter_cons, if_pos hmine]
    rfl
  · have hother : ((s.row c.next).userAddress == a) ≠ true := fun hb => h (beq_iff_eq.mp hb)
    rw [if_neg h, List.filter_cons, if_neg hother]
    rfl

theorem idsOf_setKeys (id : ℕ) (p256dh auth : Option String) :
    idsOf (PushChange.apply c (.setKeys id p256dh auth)) a = idsOf c a := by
  have hwhere := Table.where'_update c.toTable (·.id == id) (·.userAddress == a)
    (PushSubscription.assign p256dh auth) (PushSubscription.key_assign p256dh auth) fun _ => rfl
  have happly : (PushChange.apply c (.setKeys id p256dh auth)).toTable = c.toTable.update (·.id == id)
    (PushSubscription.assign p256dh auth) (PushSubscription.key_assign p256dh auth) := rfl
  rw [idsOf, happly, hwhere, List.map_map, idsOf]
  refine List.map_congr_left fun r _ => ?_
  simp only [Function.comp_apply]
  split
  · rfl
  · rfl

theorem idsOf_delete (rows : List PushSubscription) :
    idsOf (PushChange.apply c (.delete rows)) a = (idsOf c a).filter fun id => !isAmong rows id := by
  have hrows : (PushChange.apply c (.delete rows)).rows = c.rows.filter fun r => !isAmong rows r.id := rfl
  rw [idsOf, Table.where', hrows, idsOf, Table.where', List.filter_map, List.filter_filter, List.filter_filter]
  congr 1
  refine List.filter_congr fun r _ => ?_
  rw [Function.comp_apply, Bool.and_comm]

/-- Only a subscription of an account adds to its rows. -/
theorem idsOf_sublist {es : List PushChange} (h : ∀ s, .insert s ∈ es → s.caller ≠ a) :
    (idsOf (es.foldl PushChange.apply c) a).Sublist (idsOf c a) := by
  induction es generalizing c with
  | nil => exact List.Sublist.refl _
  | cons change es ih =>
    have hrest := ih (c := change.apply c) fun s hs => h s (List.mem_cons_of_mem _ hs)
    refine hrest.trans ?_
    cases change with
    | insert s =>
      rw [idsOf_insert, if_neg (h s List.mem_cons_self), List.append_nil]
    | setKeys id p256dh auth => rw [idsOf_setKeys]
    | delete rows =>
      rw [idsOf_delete]
      exact List.filter_sublist

/-- The account and the endpoint of a row stay, and its number is not used again. -/
structure Evolves (c d : Serial PushSubscription) : Prop where
  next : c.next ≤ d.next
  rows : ∀ r' ∈ d, r'.id < c.next → ∃ r ∈ c, r.id = r'.id ∧ r.userAddress = r'.userAddress ∧ r.endpoint = r'.endpoint

theorem Evolves.refl (c : Serial PushSubscription) : Evolves c c := ⟨le_rfl, fun r hr _ => ⟨r, hr, rfl, rfl, rfl⟩⟩

theorem Evolves.trans (h : Evolves c d) (h' : Evolves d e) : Evolves c e := by
  refine ⟨h.next.trans h'.next, fun r'' hr'' hlt => ?_⟩
  obtain ⟨r', hr', hid', huser', hendpoint'⟩ := h'.rows r'' hr'' (hlt.trans_le h.next)
  obtain ⟨r, hr, hid, huser, hendpoint⟩ := h.rows r' hr' (hid' ▸ hlt)
  exact ⟨r, hr, hid.trans hid', huser.trans huser', hendpoint.trans hendpoint'⟩

theorem evolves_apply (change : PushChange) : Evolves c (change.apply c) := by
  cases change with
  | insert s =>
    refine ⟨Nat.le_succ _, fun r hr hlt => ?_⟩
    rcases mem_apply_insert.mp hr with hr | rfl
    · exact ⟨r, hr, rfl, rfl, rfl⟩
    · exact absurd hlt (Nat.lt_irrefl _)
  | setKeys id p256dh auth =>
    refine ⟨le_rfl, fun r hr _ => ?_⟩
    obtain ⟨r₀, hr₀, rfl⟩ := Serial.mem_update.mp hr
    refine ⟨r₀, hr₀, ?_⟩
    split
    · exact ⟨rfl, rfl, rfl⟩
    · exact ⟨rfl, rfl, rfl⟩
  | delete rows => exact ⟨le_rfl, fun r hr _ => ⟨r, (mem_apply_delete.mp hr).1, rfl, rfl, rfl⟩⟩

theorem evolves_foldl (es : List PushChange) : Evolves c (es.foldl PushChange.apply c) :=
  foldl_rel Evolves.refl (fun _ _ _ => Evolves.trans) (fun _ change => evolves_apply change) es c

/-- Whatever row has this number, it has this account and this endpoint. -/
structure Traced (c : Serial PushSubscription) (r : PushSubscription) : Prop where
  lt : r.id < c.next
  same : ∀ r' ∈ c, r'.id = r.id → r'.userAddress = r.userAddress ∧ r'.endpoint = r.endpoint

theorem traced_of_mem (h : r ∈ c) : Traced c r := by
  refine ⟨Serial.key_lt h, fun r' hr' hid => ?_⟩
  rw [Serial.eq_of_key hr' h hid]
  exact ⟨rfl, rfl⟩

theorem Traced.evolves (h : Traced c r) (hcd : Evolves c d) : Traced d r := by
  refine ⟨h.lt.trans_le hcd.next, fun r' hr' hid => ?_⟩
  obtain ⟨r₀, hr₀, hid₀, huser, hendpoint⟩ := hcd.rows r' hr' (hid ▸ h.lt)
  rw [← huser, ← hendpoint]
  exact h.same r₀ hr₀ (hid₀.trans hid)

theorem mem_matched_iff {p : PushSubscription → Bool} : r ∈ matched d c p ↔
    (r ∈ c ∧ p r = true) ∧ ∃ r₀ ∈ d, r₀.id = r.id ∧ p r₀ = true := by
  simp only [matched, List.mem_filter, Table.mem_where', Serial.mem_toTable, Table.any_eq_true, Bool.and_eq_true,
    beq_iff_eq]
  rfl

end changes

/-! ## What the points know -/

def Subscribing.request (s : Subscribing) : PushRequest := .subscribe s.token s.now s.sub

def Unsubscribing.request (u : Unsubscribing) : PushRequest := .unsubscribe u.token u.endpoint

/-- The token is one of this account. -/
def Authentic (accounts : Database) (token : Token) (a : Address) : Prop :=
  ∃ u, getCurrentUser accounts token = .ok u ∧ u.address = a

namespace PushPoint

/-- The request that a point serves. -/
def origin : PushPoint → Option PushRequest
  | authenticate request => some request
  | findExisting s | unchanged s | updateKeys s _ | updated s _ | dropStale s | lockOwner s _ | insertNew s _
  | evict s _ | subscribed s _ _ => some s.request
  | deleteOwn u | unsubscribed u _ => some u.request
  | loadSubscriptions job | send job _ _ | drop job _ _ | dropped job _ _ => some (.notify job)
  | ended => none

/-- The rows that a point has loaded and will name, or has named, by their numbers. -/
def rows : PushPoint → List PushSubscription
  | lockOwner _ stale | insertNew _ stale | evict _ stale => stale
  | subscribed _ stale old => stale ++ old
  | unsubscribed _ rows => rows
  | send _ _ subs => subs
  | drop _ sub rest => sub :: rest
  | dropped _ rows rest => rows ++ rest
  | _ => []

/-- Who asks, and whose the rows are. -/
def Sound (accounts : Database) : PushPoint → Prop
  | findExisting s | unchanged s | updateKeys s _ | updated s _ | dropStale s => Authentic accounts s.token s.caller
  | lockOwner s stale | insertNew s stale | evict s stale => Authentic accounts s.token s.caller ∧
    ∀ r ∈ stale, r.userAddress ≠ s.caller ∧ r.endpoint = s.sub.endpoint
  | subscribed s stale old => (Authentic accounts s.token s.caller ∧
    ∀ r ∈ stale, r.userAddress ≠ s.caller ∧ r.endpoint = s.sub.endpoint) ∧ ∀ r ∈ old, r.userAddress = s.caller
  | deleteOwn u => Authentic accounts u.token u.caller
  | unsubscribed u rows => Authentic accounts u.token u.caller ∧
    ∀ r ∈ rows, r.userAddress = u.caller ∧ r.endpoint = u.endpoint
  | send job _ subs => ∀ r ∈ subs, r.userAddress = job.targetAddr
  | drop job sub rest => ∀ r ∈ sub :: rest, r.userAddress = job.targetAddr
  | dropped job rows rest => ∀ r ∈ rows ++ rest, r.userAddress = job.targetAddr
  | _ => True

/-- After the eviction there is room for the new row. -/
def Room (c : Serial PushSubscription) : PushPoint → Prop
  | subscribed s _ old => ((idsOf c s.caller).filter fun id => !isAmong old id).length < maxSubscriptionsPerUser
  | _ => True

structure Facts (accounts : Database) (c : Serial PushSubscription) (p : PushPoint) : Prop where
  known : ∀ r ∈ p.rows, Traced c r
  sound : p.Sound accounts
  room : p.Room c

/-- The snapshot of the eviction was taken under the lock: the account has no other rows by now. -/
def Seen (c : Serial PushSubscription) (p : PushPoint) (snap : Serial PushSubscription) : Prop :=
  match p with
  | evict s _ => ∃ c₀, snap = p.log.foldl PushChange.apply c₀ ∧ Evolves c₀ c ∧ idsOf c s.caller ⊆ idsOf c₀ s.caller
  | _ => True

end PushPoint

/-- Every account is within the limit. -/
def Capped (c : Serial PushSubscription) : Prop := ∀ a, (idsOf c a).length ≤ maxSubscriptionsPerUser

/-- What a reading statement leads to. -/
inductive Reads (accounts : Database) (c : Serial PushSubscription) : PushPoint → PushPoint → Prop
  | refused (p : PushPoint) : Reads accounts c p .ended
  | subscribe {token : Token} {a : Address} (h : Authentic accounts token a) (now : Time)
      (sub : PushSubscriptionCreate) :
      Reads accounts c (.authenticate (.subscribe token now sub)) (.findExisting ⟨token, a, now, sub⟩)
  | unsubscribe {token : Token} {a : Address} (h : Authentic accounts token a) (endpoint : String) :
      Reads accounts c (.authenticate (.unsubscribe token endpoint)) (.deleteOwn ⟨token, a, endpoint⟩)
  | notify (job : DeliveryJob) : Reads accounts c (.authenticate (.notify job)) (.loadSubscriptions job)
  | fresh (s : Subscribing) : Reads accounts c (.findExisting s) (.dropStale s)
  | unchanged (s : Subscribing) : Reads accounts c (.findExisting s) (.unchanged s)
  | existing (s : Subscribing) (r : PushSubscription) : Reads accounts c (.findExisting s) (.updateKeys s r)
  | load (job : DeliveryJob) : Reads accounts c (.loadSubscriptions job)
      (.send job true (c.where' (·.userAddress == job.targetAddr)))
  | sent (job : DeliveryJob) (loaded : Bool) (sub : PushSubscription) (rest : List PushSubscription) :
      Reads accounts c (.send job loaded (sub :: rest)) (.send job loaded rest)
  | dead (job : DeliveryJob) (loaded : Bool) (sub : PushSubscription) (rest : List PushSubscription)
      {sub' : PushSubscription} (h : sub' = sub ∨ sub' ∈ c ∧ sub'.id = sub.id) :
      Reads accounts c (.send job loaded (sub :: rest)) (.drop job sub' rest)

section points

variable {accounts : Database} {isPushEndpoint : String → Bool} {c : Serial PushSubscription} {p q : PushPoint}

theorem reads_of_select {next : Serial PushSubscription → PushPoint} (c : Serial PushSubscription)
    (h : (subscriptions accounts isPushEndpoint).op p = .select next) : Reads accounts c p (next c) := by
  cases p with
  | authenticate request =>
    cases h
    cases request with
    | subscribe token now sub =>
      dsimp only
      split
      · exact .refused _
      · next caller hcaller =>
        split
        · exact .subscribe ⟨caller, hcaller, rfl⟩ now sub
        · exact .refused _
    | unsubscribe token endpoint =>
      dsimp only
      split
      · exact .refused _
      · next caller hcaller => exact .unsubscribe ⟨caller, hcaller, rfl⟩ endpoint
    | notify job =>
      dsimp only
      split
      · exact .refused _
      · exact .notify job
  | findExisting s =>
    cases h
    dsimp only
    split
    · exact .fresh s
    · next existing _ =>
      split
      · exact .unchanged s
      · exact .existing s existing
  | loadSubscriptions job =>
    cases h
    exact .load job
  | send job loaded subs =>
    cases subs with
    | nil => cases h
    | cons sub rest =>
      cases h
      dsimp only
      split
      · exact .refused _
      · next sub' hsub' =>
        -- a row that was loaded is taken as it is, else it is read again
        have hsame : sub' = sub ∨ sub' ∈ c ∧ sub'.id = sub.id := by
          split at hsub'
          · exact .inl (Option.some.inj hsub').symm
          · obtain ⟨hmem, hid⟩ := Table.find?_mem hsub'
            exact .inr ⟨hmem, beq_iff_eq.mp hid⟩
        split
        · exact .dead job loaded sub rest hsame
        · exact .sent job loaded sub rest
  | unchanged | updateKeys | updated | dropStale | lockOwner | insertNew | evict | subscribed | deleteOwn
  | unsubscribed | drop | dropped | ended => cases h

theorem tracking_subscriptions :
    Tracking (subscriptions accounts isPushEndpoint) PushPoint.log PushPoint.locks where
  entry _ := ⟨rfl, rfl⟩
  select p next c h := by
    have hreads := reads_of_select c h
    generalize next c = q at hreads
    cases hreads with
    | refused => exact .inl rfl
    | subscribe | unsubscribe | notify | fresh | unchanged | existing | load | sent | dead =>
      exact .inr ⟨rfl, List.Subset.refl _⟩
  write p exec snap cur h := by
    cases p with
    | updateKeys s existing =>
      cases h
      dsimp only
      split
      · exact .inl rfl
      · exact .inr ⟨rfl, by simp [PushPoint.locks, PushPoint.owner, PushPoint.log, changedSubscriptions]⟩
    | lockOwner s stale =>
      cases h
      dsimp only
      split
      · refine .inr ⟨rfl, ?_⟩
        simp [PushPoint.locks, PushPoint.owner, PushPoint.log]
      · exact .inl rfl
    | dropStale | deleteOwn | drop =>
      cases h
      exact .inr ⟨rfl, by simp [PushPoint.locks, PushPoint.owner, PushPoint.log, changedSubscriptions]⟩
    | insertNew s stale =>
      cases h
      exact .inr ⟨rfl, by simp [PushPoint.locks, PushPoint.owner, PushPoint.log, changedSubscriptions,
        PushChange.locks]⟩
    | evict s stale =>
      cases h
      exact .inr ⟨rfl, by simp [PushPoint.locks, PushPoint.owner, PushPoint.log, changedSubscriptions,
        PushChange.locks]⟩
    | send job loaded subs => cases subs <;> cases h
    | authenticate | findExisting | unchanged | updated | subscribed | unsubscribed | loadSubscriptions | dropped
    | ended => cases h
  commit p next h := by
    cases p with
    | send job loaded subs => cases subs <;> cases h
    | unchanged | updated | subscribed | unsubscribed | dropped =>
      cases h
      exact ⟨rfl, rfl⟩
    | authenticate | findExisting | updateKeys | dropStale | lockOwner | insertNew | evict | deleteOwn
    | loadSubscriptions | drop | ended => cases h

theorem facts_select {next : Serial PushSubscription → PushPoint} (hp : p.Facts accounts c)
    (h : (subscriptions accounts isPushEndpoint).op p = .select next) : (next c).Facts accounts c := by
  have hreads := reads_of_select c h
  generalize next c = q at hreads
  cases hreads with
  | refused | notify => exact ⟨fun _ hr => (List.not_mem_nil hr).elim, trivial, trivial⟩
  | subscribe hcaller | unsubscribe hcaller => exact ⟨fun _ hr => (List.not_mem_nil hr).elim, hcaller, trivial⟩
  | fresh | unchanged | existing => exact ⟨fun _ hr => (List.not_mem_nil hr).elim, hp.sound, trivial⟩
  | load job =>
    refine ⟨fun r hr => traced_of_mem (Table.mem_where'.mp hr).1, fun r hr => ?_, trivial⟩
    exact beq_iff_eq.mp (Table.mem_where'.mp hr).2
  | sent job loaded sub rest =>
    exact ⟨fun r hr => hp.known r (List.mem_cons_of_mem _ hr), fun r hr => hp.sound r (List.mem_cons_of_mem _ hr),
      trivial⟩
  | @dead job loaded sub rest sub' hsame =>
    have hsub : Traced c sub := hp.known sub List.mem_cons_self
    have hmine : sub.userAddress = job.targetAddr := hp.sound sub List.mem_cons_self
    have hknown : Traced c sub' := by
      rcases hsame with rfl | ⟨hmem, -⟩
      · exact hsub
      · exact traced_of_mem hmem
    have huser : sub'.userAddress = job.targetAddr := by
      rcases hsame with rfl | ⟨hmem, hid⟩
      · exact hmine
      · exact (hsub.same sub' hmem hid).1.trans hmine
    refine ⟨fun r hr => ?_, fun r hr => ?_, trivial⟩
    · rcases List.mem_cons.mp hr with rfl | hr
      · exact hknown
      · exact hp.known r (List.mem_cons_of_mem _ hr)
    · rcases List.mem_cons.mp hr with rfl | hr
      · exact huser
      · exact hp.sound r (List.mem_cons_of_mem _ hr)

theorem log_of_push_select {next : Serial PushSubscription → PushPoint}
    (h : (subscriptions accounts isPushEndpoint).op p = .select next) : p.log = [] := by
  cases p with
  | authenticate | findExisting | loadSubscriptions | send => rfl
  | unchanged | updateKeys | updated | dropStale | lockOwner | insertNew | evict | subscribed | deleteOwn
  | unsubscribed | drop | dropped | ended => cases h

/-! ## The eviction -/

section eviction

variable {s : Subscribing} {stale : List PushSubscription} {c₀ : Serial PushSubscription}

/-- The rows as the eviction finds them. -/
def beforeEviction (c : Serial PushSubscription) (s : Subscribing) (stale : List PushSubscription) :
    Serial PushSubscription := (PushPoint.evict s stale).log.foldl PushChange.apply c

/-- What the eviction takes, from the rows that its snapshot had. -/
def evicted (c₀ c : Serial PushSubscription) (s : Subscribing) (stale : List PushSubscription) :
    List PushSubscription :=
  matched (beforeEviction c₀ s stale) (beforeEviction c s stale)
    fun r => r.userAddress == s.caller && !(newest (beforeEviction c₀ s stale) s.caller).contains r.id

theorem mem_beforeEviction {r : PushSubscription} : r ∈ beforeEviction c s stale ↔
    (r ∈ c ∧ isAmong stale r.id = false) ∨ r = s.row c.next := by
  rw [beforeEviction, PushPoint.log, List.foldl_cons, List.foldl_cons, List.foldl_nil, mem_apply_insert,
    mem_apply_delete]
  rfl

theorem length_newest : (newest c s.caller).length ≤ maxSubscriptionsPerUser := List.length_take_le _ _

/-- The row that was just inserted is the newest. -/
theorem next_mem_newest : c.next ∈ newest (beforeEviction c s stale) s.caller := by
  have hown : c.next ∈ idsOf (beforeEviction c s stale) s.caller :=
    mem_idsOf.mpr ⟨s.row c.next, mem_beforeEviction.mpr (.inr rfl), rfl, rfl⟩
  have hle : ∀ id ∈ idsOf (beforeEviction c s stale) s.caller, id ≤ c.next := by
    intro id hid
    obtain ⟨r, hr, -, rfl⟩ := mem_idsOf.mp hid
    rcases mem_beforeEviction.mp hr with ⟨hr, -⟩ | rfl
    · exact (Serial.key_lt hr).le
    · exact le_rfl
  have hperm := List.perm_insertionSort (· ≥ ·) (idsOf (beforeEviction c s stale) s.caller)
  have hsorted := List.pairwise_insertionSort (· ≥ ·) (idsOf (beforeEviction c s stale) s.caller)
  rw [newest]
  cases hids : (idsOf (beforeEviction c s stale) s.caller).insertionSort (· ≥ ·) with
  | nil =>
    rw [hids] at hperm
    exact absurd (hperm.mem_iff.mpr hown) List.not_mem_nil
  | cons first rest =>
    rw [hids] at hperm hsorted
    -- the head is the greatest, and none is greater than the new number
    have hfirst : first ≤ c.next := hle first (hperm.mem_iff.mp List.mem_cons_self)
    have hge : c.next ≤ first := by
      rcases List.mem_cons.mp (hperm.mem_iff.mpr hown) with heq | hmem
      · exact heq.le
      · exact (List.pairwise_cons.mp hsorted).1 _ hmem
    rw [le_antisymm hge hfirst]
    exact List.mem_cons_self

variable (hstale : ∀ r ∈ stale, Traced c r ∧ r.userAddress ≠ s.caller) (hevolves : Evolves c₀ c)

include hstale in
theorem not_isAmong_stale {r : PushSubscription} (hr : r ∈ c) (huser : r.userAddress = s.caller) :
    isAmong stale r.id = false := by
  rw [Bool.eq_false_iff]
  intro hamong
  obtain ⟨r', hr', hid⟩ := isAmong_iff.mp hamong
  obtain ⟨hknown, hother⟩ := hstale r' hr'
  exact hother ((hknown.same r hr hid.symm).1.symm.trans huser)

include hevolves in
/-- The new row is not among what is evicted. -/
theorem mem_of_mem_evicted {r : PushSubscription} (h : r ∈ evicted c₀ c s stale) :
    r ∈ c ∧ r.userAddress = s.caller := by
  obtain ⟨⟨hr, hp⟩, r₀, hr₀, hid, hp₀⟩ := mem_matched_iff.mp h
  rw [Bool.and_eq_true, beq_iff_eq] at hp
  rcases mem_beforeEviction.mp hr with ⟨hr, -⟩ | rfl
  · exact ⟨hr, hp.1⟩
  · exfalso
    have hnext : r₀.id = c.next := hid
    have hsame : c₀.next = c.next := by
      rcases mem_beforeEviction.mp hr₀ with ⟨hr₀, -⟩ | rfl
      · have hlt : r₀.id < c₀.next := Serial.key_lt hr₀
        have hle := hevolves.next
        omega
      · exact hnext
    rw [Bool.and_eq_true, hnext, ← hsame, List.contains_iff_mem.mpr next_mem_newest] at hp₀
    exact absurd hp₀.2 (by simp)

include hstale in
/-- What the eviction leaves of the account's rows are nine of the newest at most, and the new one. -/
theorem room_evicted (hids : idsOf c s.caller ⊆ idsOf c₀ s.caller) :
    ((idsOf c s.caller).filter fun id => !isAmong (evicted c₀ c s stale) id).length < maxSubscriptionsPerUser := by
  have hkept : ∀ id ∈ (idsOf c s.caller).filter fun id => !isAmong (evicted c₀ c s stale) id,
      id ∈ newest (beforeEviction c₀ s stale) s.caller ∧ id < c₀.next := by
    intro id hid
    obtain ⟨hmem, hnot⟩ := List.mem_filter.mp hid
    obtain ⟨r, hr, huser, rfl⟩ := mem_idsOf.mp hmem
    obtain ⟨r₀, hr₀, huser₀, hid₀⟩ := mem_idsOf.mp (hids hmem)
    have hstale' : isAmong stale r.id = false := not_isAmong_stale hstale hr huser
    refine ⟨?_, hid₀ ▸ Serial.key_lt hr₀⟩
    by_contra hold
    have hevicted : r ∈ evicted c₀ c s stale := by
      refine mem_matched_iff.mpr ⟨⟨mem_beforeEviction.mpr (.inl ⟨hr, hstale'⟩), ?_⟩, r₀,
        mem_beforeEviction.mpr (.inl ⟨hr₀, hid₀ ▸ hstale'⟩), hid₀, ?_⟩
      · simp [huser, hold]
      · simp [huser₀, hid₀, hold]
    rw [isAmong_iff.mpr ⟨r, hevicted, rfl⟩] at hnot
    cases hnot
  have hnodup : (c₀.next :: (idsOf c s.caller).filter fun id => !isAmong (evicted c₀ c s stale) id).Nodup := by
    refine List.nodup_cons.mpr ⟨fun hmem => ?_, nodup_idsOf.filter _⟩
    exact Nat.lt_irrefl _ (hkept _ hmem).2
  have hsubset : (c₀.next :: (idsOf c s.caller).filter fun id => !isAmong (evicted c₀ c s stale) id) ⊆
      newest (beforeEviction c₀ s stale) s.caller := by
    intro id hid
    rcases List.mem_cons.mp hid with rfl | hid
    · exact next_mem_newest
    · exact (hkept id hid).1
  exact (List.subperm_of_subset hnodup hsubset).length_le.trans length_newest

end eviction

/-! ## The rule -/

/-- The rows of a statement are rows of the committed state. -/
theorem traced_of_mem_matched {snap : Serial PushSubscription} {t : PushSubscription → Bool} {r : PushSubscription}
    (h : r ∈ matched snap c t) : Traced c r ∧ t r = true :=
  ⟨traced_of_mem (mem_matched_iff.mp h).1.1, (mem_matched_iff.mp h).1.2⟩

theorem facts_write {exec : Serial PushSubscription → Serial PushSubscription → PushOutcome}
    {snap : Serial PushSubscription} (hp : p.Facts accounts c) (hseen : p.Seen c snap)
    (h : (subscriptions accounts isPushEndpoint).op p = .write exec) :
    (exec snap ((subscriptions accounts isPushEndpoint).after c p.log)).next.Facts accounts c := by
  have hended : PushPoint.ended.Facts accounts c := ⟨fun _ hr => (List.not_mem_nil hr).elim, trivial, trivial⟩
  cases p with
  | updateKeys s existing =>
    cases h
    dsimp only
    split
    · exact hended
    · exact ⟨fun _ hr => (List.not_mem_nil hr).elim, hp.sound, trivial⟩
  | dropStale s =>
    cases h
    refine ⟨fun r hr => (traced_of_mem_matched hr).1, ⟨hp.sound, fun r hr => ?_⟩, trivial⟩
    have htest := (traced_of_mem_matched hr).2
    rw [Bool.and_eq_true, beq_iff_eq, bne_iff_ne] at htest
    exact htest.symm
  | lockOwner s stale =>
    cases h
    dsimp only
    split
    · exact ⟨hp.known, hp.sound, trivial⟩
    · exact hended
  | insertNew s stale =>
    cases h
    exact ⟨hp.known, hp.sound, trivial⟩
  | evict s stale =>
    cases h
    obtain ⟨c₀, rfl, hevolves, hids⟩ := hseen
    have hold : ∀ r ∈ evicted c₀ c s stale, r ∈ c ∧ r.userAddress = s.caller := fun r =>
      mem_of_mem_evicted hevolves
    refine ⟨fun r hr => ?_, ⟨hp.sound, fun r hr => (hold r hr).2⟩, ?_⟩
    · rcases List.mem_append.mp hr with hr | hr
      · exact hp.known r hr
      · exact traced_of_mem (hold r hr).1
    · exact room_evicted (fun r hr => ⟨hp.known r hr, (hp.sound.2 r hr).1⟩) hids
  | deleteOwn u =>
    cases h
    refine ⟨fun r hr => (traced_of_mem_matched hr).1, ⟨hp.sound, fun r hr => ?_⟩, trivial⟩
    have htest := (traced_of_mem_matched hr).2
    rwa [Bool.and_eq_true, beq_iff_eq, beq_iff_eq] at htest
  | drop job sub rest =>
    cases h
    have hsub : Traced c sub := hp.known sub List.mem_cons_self
    refine ⟨fun r hr => ?_, fun r hr => ?_, trivial⟩
    · rcases List.mem_append.mp hr with hr | hr
      · exact (traced_of_mem_matched hr).1
      · exact hp.known r (List.mem_cons_of_mem _ hr)
    · rcases List.mem_append.mp hr with hr | hr
      · obtain ⟨⟨hmem, hid⟩, -⟩ := mem_matched_iff.mp hr
        exact (hsub.same r hmem (beq_iff_eq.mp hid)).1.trans (hp.sound sub List.mem_cons_self)
      · exact hp.sound r (List.mem_cons_of_mem _ hr)
  | send job loaded subs => cases subs <;> cases h
  | authenticate | findExisting | unchanged | updated | subscribed | unsubscribed | loadSubscriptions | dropped
  | ended => cases h

/-- An account's rows come with its own subscriptions, under its lock. -/
theorem owner_of_insert {next : PushPoint} {s : Subscribing}
    (h : (subscriptions accounts isPushEndpoint).op p = .commit next) (hs : .insert s ∈ p.log) :
    p.owner = some s.caller := by
  cases p with
  | send job loaded subs => cases subs <;> cases h
  | subscribed s' stale old =>
    have hsame : s = s' := by simpa [PushPoint.log] using hs
    rw [hsame]
    rfl
  | unchanged | updated | unsubscribed | dropped =>
    simp [PushPoint.log, Subscribing.keyChange] at hs
  | authenticate | findExisting | updateKeys | dropStale | lockOwner | insertNew | evict | deleteOwn
  | loadSubscriptions | drop | ended => cases h

theorem capped_commit {next : PushPoint} (hc : Capped c) (hp : p.Facts accounts c)
    (h : (subscriptions accounts isPushEndpoint).op p = .commit next) :
    Capped ((subscriptions accounts isPushEndpoint).after c p.log) := by
  intro a
  by_cases hquiet : ∀ s, .insert s ∈ p.log → s.caller ≠ a
  · exact (idsOf_sublist hquiet).length_le.trans (hc a)
  · push Not at hquiet
    obtain ⟨s, hs, rfl⟩ := hquiet
    cases p with
    | send job loaded subs => cases subs <;> cases h
    | subscribed s' stale old =>
      obtain rfl : s = s' := by simpa [PushPoint.log] using hs
      have hroom : ((idsOf c s.caller).filter fun id => !isAmong old id).length < maxSubscriptionsPerUser := hp.room
      have hafter : (idsOf ((subscriptions accounts isPushEndpoint).after c (PushPoint.subscribed s stale old).log)
          s.caller).length ≤ ((idsOf c s.caller).filter fun id => !isAmong old id).length + 1 := by
        change (idsOf (PushChange.apply (PushChange.apply (PushChange.apply c (.delete stale)) (.insert s))
          (.delete old)) s.caller).length ≤ _
        rw [idsOf_delete, idsOf_insert, if_pos rfl, idsOf_delete, List.filter_append, List.length_append]
        refine Nat.add_le_add ?_ (List.length_filter_le _ _)
        exact (List.filter_sublist.filter _).length_le
      omega
    | unchanged | updated | unsubscribed | dropped =>
      simp [PushPoint.log, Subscribing.keyChange] at hs
    | authenticate | findExisting | updateKeys | dropStale | lockOwner | insertNew | evict | deleteOwn
    | loadSubscriptions | drop | ended => cases h

theorem evolves_after (es : List PushChange) :
    Evolves c ((subscriptions accounts isPushEndpoint).after c es) := evolves_foldl es

theorem facts_commit {next : PushPoint} (hp : p.Facts accounts c)
    (h : (subscriptions accounts isPushEndpoint).op p = .commit next) :
    next.Facts accounts ((subscriptions accounts isPushEndpoint).after c p.log) := by
  cases p with
  | send job loaded subs => cases subs <;> cases h
  | unchanged | updated | subscribed | unsubscribed =>
    cases h
    exact ⟨fun _ hr => (List.not_mem_nil hr).elim, trivial, trivial⟩
  | dropped job rows rest =>
    cases h
    refine ⟨fun r hr => (hp.known r (List.mem_append_right _ hr)).evolves (evolves_after _), fun r hr => ?_, trivial⟩
    exact hp.sound r (List.mem_append_right _ hr)
  | authenticate | findExisting | updateKeys | dropStale | lockOwner | insertNew | evict | deleteOwn
  | loadSubscriptions | drop | ended => cases h

/-- A commit without the lock of an account brings no row of it. -/
theorem idsOf_after_sublist {next : PushPoint} {a : Address}
    (h : (subscriptions accounts isPushEndpoint).op p = .commit next) (hown : q.owner = some a)
    (hlocks : p.locks.Disjoint q.locks) :
    (idsOf ((subscriptions accounts isPushEndpoint).after c p.log) a).Sublist (idsOf c a) := by
  refine idsOf_sublist fun s hs heq => ?_
  have howner : p.owner = some a := heq ▸ owner_of_insert h hs
  refine hlocks (a := .user a) ?_ ?_
  · simp [PushPoint.locks, howner]
  · simp [PushPoint.locks, hown]

theorem rule_subscriptions : SnapshotRule (subscriptions accounts isPushEndpoint) PushPoint.log PushPoint.locks
    Capped (PushPoint.Facts accounts) fun c p => p.Seen c where
  entry c r _ := ⟨fun _ hr => (List.not_mem_nil hr).elim, trivial, trivial⟩
  select c p next _ hp h := by
    rw [log_of_push_select h]
    exact facts_select hp h
  start c p exec _ hp h := by
    cases p with
    | evict s stale => exact ⟨c, rfl, .refl c, List.Subset.refl _⟩
    | _ => trivial
  write c p exec snap _ hp h hseen := facts_write hp hseen h
  commit c p next hc hp h := ⟨capped_commit hc hp h, facts_commit hp h⟩
  stable c p next q _ _ h hq hlocks := by
    refine ⟨⟨fun r hr => (hq.known r hr).evolves (evolves_after _), hq.sound, ?_⟩, fun snap hsnap => ?_⟩
    · cases q with
      | subscribed s stale old =>
        have hsub := idsOf_after_sublist (c := c) h rfl hlocks
        exact (hsub.filter _).length_le.trans_lt hq.room
      | _ => trivial
    · cases q with
      | evict s stale =>
        obtain ⟨c₀, hsnap, hevolves, hids⟩ := hsnap
        have hsub := idsOf_after_sublist (c := c) h rfl hlocks
        exact ⟨c₀, hsnap, hevolves.trans (evolves_after _), fun id hid => hids (hsub.subset hid)⟩
      | _ => trivial

/-! ## The request behind a point -/

theorem origin_entry (r r' : PushRequest)
    (h : ((subscriptions accounts isPushEndpoint).entry r).origin = some r') : r' = r := (Option.some.inj h).symm

theorem origin_of_reads (h : Reads accounts c p q) (r : PushRequest) (hr : q.origin = some r) :
    p.origin = some r := by
  cases h with
  | refused => cases hr
  | subscribe | unsubscribe | notify | fresh | unchanged | existing | load | sent | dead => exact hr

theorem origin_next (p q : PushPoint) (h : (subscriptions accounts isPushEndpoint).Follows p q) (r : PushRequest)
    (hr : q.origin = some r) : p.origin = some r := by
  cases h with
  | select hop c => exact origin_of_reads (reads_of_select c hop) r hr
  | write hop snap cur =>
    cases p with
    | updateKeys | lockOwner =>
      cases hop
      dsimp only at hr
      split at hr
      · first | exact hr | cases hr
      · first | exact hr | cases hr
    | dropStale | insertNew | evict | deleteOwn | drop =>
      cases hop
      exact hr
    | send job loaded subs => cases subs <;> cases hop
    | authenticate | findExisting | unchanged | updated | subscribed | unsubscribed | loadSubscriptions | dropped
    | ended => cases hop
  | commit hop =>
    cases p with
    | send job loaded subs => cases subs <;> cases hop
    | unchanged | updated | subscribed | unsubscribed =>
      cases hop
      cases hr
    | dropped job rows rest =>
      cases hop
      exact hr
    | authenticate | findExisting | updateKeys | dropStale | lockOwner | insertNew | evict | deleteOwn
    | loadSubscriptions | drop | ended => cases hop

end points

/-! ## Runs -/

/-- The request registers the endpoint for the account. -/
def Subscribes (accounts : Database) (a : Address) (endpoint : String) : PushRequest → Prop
  | .subscribe token _ sub => Authentic accounts token a ∧ sub.endpoint = endpoint
  | _ => False

/-- The request may take the subscription away: as one of its own account, or by registering its endpoint. -/
def Removes (accounts : Database) (r : PushSubscription) : PushRequest → Prop
  | .subscribe token _ sub => ∃ a, Authentic accounts token a ∧
      (a = r.userAddress ∨ a ≠ r.userAddress ∧ sub.endpoint = r.endpoint)
  | .unsubscribe token endpoint => Authentic accounts token r.userAddress ∧ endpoint = r.endpoint
  | .notify job => job.targetAddr = r.userAddress

section runs

variable {accounts : Database} {isPushEndpoint : String → Bool} {c d : Serial PushSubscription} {p : PushPoint}
  {r : PushSubscription}

/-- The row is still there, of the same account and endpoint. -/
def Stays (d : Serial PushSubscription) (r : PushSubscription) : Prop :=
  ∃ r' ∈ d, r'.id = r.id ∧ r'.userAddress = r.userAddress ∧ r'.endpoint = r.endpoint

theorem stays_apply (h : Stays c r) (change : PushChange) :
    Stays (change.apply c) r ∨ ∃ rows, change = .delete rows ∧ isAmong rows r.id = true := by
  obtain ⟨r', hr', hid, huser, hendpoint⟩ := h
  cases change with
  | insert s => exact .inl ⟨r', mem_apply_insert.mpr (.inl hr'), hid, huser, hendpoint⟩
  | setKeys id p256dh auth =>
    refine .inl ⟨_, Serial.update_of_mem hr' (·.id == id) _ (PushSubscription.key_assign p256dh auth), ?_⟩
    split
    · exact ⟨hid, huser, hendpoint⟩
    · exact ⟨hid, huser, hendpoint⟩
  | delete rows =>
    cases hamong : isAmong rows r'.id with
    | false => exact .inl ⟨r', mem_apply_delete.mpr ⟨hr', hamong⟩, hid, huser, hendpoint⟩
    | true => exact .inr ⟨rows, rfl, hid ▸ hamong⟩

/-- Changes keep a row, or one of them deletes it. -/
theorem stays_foldl (h : Stays c r) (es : List PushChange) :
    Stays (es.foldl PushChange.apply c) r ∨ ∃ rows, .delete rows ∈ es ∧ isAmong rows r.id = true := by
  induction es generalizing c with
  | nil => exact .inl h
  | cons change es ih =>
    rcases stays_apply h change with hstays | ⟨rows, rfl, hamong⟩
    · rcases ih hstays with hstays | ⟨rows, hrows, hamong⟩
      · exact .inl hstays
      · exact .inr ⟨rows, List.mem_cons_of_mem _ hrows, hamong⟩
    · exact .inr ⟨rows, List.mem_cons_self, hamong⟩

/-- A row after some changes was there, or is one that they inserted. -/
theorem mem_foldl {es : List PushChange} (h : r ∈ es.foldl PushChange.apply c) :
    Stays c r ∨ ∃ s, .insert s ∈ es ∧ s.caller = r.userAddress ∧ s.sub.endpoint = r.endpoint := by
  induction es generalizing c with
  | nil => exact .inl ⟨r, h, rfl, rfl, rfl⟩
  | cons change es ih =>
    rcases ih h with ⟨r', hr', hid, huser, hendpoint⟩ | ⟨s, hs, hrest⟩
    · cases change with
      | insert s =>
        rcases mem_apply_insert.mp hr' with hr' | rfl
        · exact .inl ⟨r', hr', hid, huser, hendpoint⟩
        · exact .inr ⟨s, List.mem_cons_self, huser, hendpoint⟩
      | setKeys id p256dh auth =>
        obtain ⟨r₀, hr₀, rfl⟩ := Serial.mem_update.mp hr'
        refine .inl ⟨r₀, hr₀, ?_⟩
        revert hid huser hendpoint
        split
        · exact fun hid huser hendpoint => ⟨hid, huser, hendpoint⟩
        · exact fun hid huser hendpoint => ⟨hid, huser, hendpoint⟩
      | delete rows => exact .inl ⟨r', (mem_apply_delete.mp hr').1, hid, huser, hendpoint⟩
    · exact .inr ⟨s, List.mem_cons_of_mem _ hs, hrest⟩

/-- The request of a commit that deletes a row could take it away. -/
theorem removes_of_commit {next : PushPoint} {rows : List PushSubscription} (hp : p.Facts accounts c)
    (h : (subscriptions accounts isPushEndpoint).op p = .commit next) (hr : r ∈ c) (hrows : .delete rows ∈ p.log)
    (hamong : isAmong rows r.id = true) : ∃ request, p.origin = some request ∧ Removes accounts r request := by
  obtain ⟨r', hr', hid⟩ := isAmong_iff.mp hamong
  cases p with
  | send job loaded subs => cases subs <;> cases h
  | subscribed s stale old =>
    obtain ⟨⟨hcaller, hstale⟩, hold⟩ := hp.sound
    have hwhich : rows = stale ∨ rows = old := by simpa [PushPoint.log] using hrows
    refine ⟨s.request, rfl, s.caller, hcaller, ?_⟩
    rcases hwhich with rfl | rfl
    · obtain ⟨huser, hendpoint⟩ := (hp.known r' (List.mem_append_left _ hr')).same r hr hid.symm
      obtain ⟨hother, hsame⟩ := hstale r' hr'
      exact .inr ⟨fun heq => hother (huser ▸ heq.symm), hsame.symm.trans hendpoint.symm⟩
    · obtain ⟨huser, -⟩ := (hp.known r' (List.mem_append_right _ hr')).same r hr hid.symm
      exact .inl (huser.trans (hold r' hr')).symm
  | unsubscribed u rows' =>
    obtain ⟨hcaller, hmine⟩ := hp.sound
    obtain rfl : rows = rows' := by simpa [PushPoint.log] using hrows
    obtain ⟨huser, hendpoint⟩ := (hp.known r' hr').same r hr hid.symm
    obtain ⟨huser', hendpoint'⟩ := hmine r' hr'
    refine ⟨u.request, rfl, ?_, (hendpoint.trans hendpoint').symm⟩
    rw [huser, huser']
    exact hcaller
  | dropped job rows' rest =>
    obtain rfl : rows = rows' := by simpa [PushPoint.log] using hrows
    obtain ⟨huser, -⟩ := (hp.known r' (List.mem_append_left _ hr')).same r hr hid.symm
    exact ⟨.notify job, rfl, (huser.trans (hp.sound r' (List.mem_append_left _ hr'))).symm⟩
  | unchanged | updated => simp [PushPoint.log, Subscribing.keyChange] at hrows
  | authenticate | findExisting | updateKeys | dropStale | lockOwner | insertNew | evict | deleteOwn
  | loadSubscriptions | drop | ended => cases h

theorem subscribes_of_commit {next : PushPoint} {s : Subscribing} (hp : p.Facts accounts c)
    (h : (subscriptions accounts isPushEndpoint).op p = .commit next) (hs : .insert s ∈ p.log) :
    p.origin = some s.request ∧ Authentic accounts s.token s.caller := by
  cases p with
  | send job loaded subs => cases subs <;> cases h
  | subscribed s' stale old =>
    obtain rfl : s = s' := by simpa [PushPoint.log] using hs
    exact ⟨rfl, hp.sound.1.1⟩
  | unchanged | updated | unsubscribed | dropped => simp [PushPoint.log, Subscribing.keyChange] at hs
  | authenticate | findExisting | updateKeys | dropStale | lockOwner | insertNew | evict | deleteOwn
  | loadSubscriptions | drop | ended => cases h

variable {as : List (Action PushRequest)} {s s' : State (Serial PushSubscription) PushLock PushChange PushPoint}

abbrev PushState := State (Serial PushSubscription) PushLock PushChange PushPoint

/-- What holds of the committed rows and of every open transaction. -/
def ConsistentPush (accounts : Database) (isPushEndpoint : String → Bool) (s : PushState) : Prop :=
  Holds Capped (SnapshotLocal (subscriptions accounts isPushEndpoint) PushPoint.log PushPoint.locks
    (PushPoint.Facts accounts) fun c p => p.Seen c) s

theorem consistent_run (hc : Capped c)
    (h : Run (ofPartial (subscriptions accounts isPushEndpoint).step) (.start c) as s) :
    ConsistentPush accounts isPushEndpoint s :=
  SnapshotRule.run_holds tracking_subscriptions rule_subscriptions h (.start hc)

theorem evolves_step {a : Action PushRequest} (hs : ConsistentPush accounts isPushEndpoint s)
    (hstep : (subscriptions accounts isPushEndpoint).step s a = some s') : Evolves s.committed s'.committed := by
  rcases SnapshotRule.commit_effect hs hstep with ⟨-, heq⟩ | ⟨i, t, next, -, -, -, -, heq⟩
  · rw [heq]
    exact .refl _
  · rw [heq]
    exact evolves_after _

theorem evolves_run (hs : ConsistentPush accounts isPushEndpoint s)
    (h : Run (ofPartial (subscriptions accounts isPushEndpoint).step) s as s') :
    Evolves s.committed s'.committed := by
  induction h with
  | nil => exact .refl _
  | cons hstep hrun ih =>
    have hnext := SnapshotRule.run_holds tracking_subscriptions rule_subscriptions (.single hstep) hs
    exact (evolves_step hs hstep).trans (ih hnext)

/-- A row came with a subscription of its account for its endpoint. -/
theorem subscribed_of_mem (hc : Capped c)
    (h : Run (ofPartial (subscriptions accounts isPushEndpoint).step) (.start c) as s) (hr : r ∈ s.committed) :
    Stays c r ∨ ∃ request, .arrive request ∈ as ∧ Subscribes accounts r.userAddress r.endpoint request := by
  have hnow : Stays s.committed r := ⟨r, hr, rfl, rfl, rfl⟩
  rcases Run.appears (P := fun s => Stays s.committed r) h hnow with
    hstart | ⟨before, a, after, p, q, rfl, hbefore, hstep, -, hnot, r', hr', hid, huser, hendpoint⟩
  · exact .inl hstart
  · rcases SnapshotRule.commit_effect (consistent_run hc hbefore) hstep with
      ⟨-, heq⟩ | ⟨i, t, next, -, ht, hop, hfacts, heq⟩
    · rw [heq] at hr'
      exact absurd ⟨r', hr', hid, huser, hendpoint⟩ hnot
    · rw [heq] at hr'
      rcases mem_foldl hr' with ⟨r₀, hr₀, hid₀, huser₀, hendpoint₀⟩ | ⟨u, hu, hcaller, hsame⟩
      · exact absurd ⟨r₀, hr₀, hid₀.trans hid, huser₀.trans huser, hendpoint₀.trans hendpoint⟩ hnot
      · obtain ⟨horigin, hauthentic⟩ := subscribes_of_commit hfacts hop hu
        have harrived := arrived_of_origin PushPoint.origin origin_entry origin_next hbefore ht horigin
        refine .inr ⟨u.request, List.mem_append_left _ harrived, ?_, hsame.trans hendpoint⟩
        rw [← huser, ← hcaller]
        exact hauthentic

/-- A row that goes went with a request that may take it. -/
theorem removed_of_step {a : Action PushRequest} (hc : Capped c)
    (h : Run (ofPartial (subscriptions accounts isPushEndpoint).step) (.start c) as s)
    (hstep : (subscriptions accounts isPushEndpoint).step s a = some s') (hr : r ∈ s.committed) :
    Stays s'.committed r ∨ ∃ request, .arrive request ∈ as ∧ Removes accounts r request := by
  have hnow : Stays s.committed r := ⟨r, hr, rfl, rfl, rfl⟩
  rcases SnapshotRule.commit_effect (consistent_run hc h) hstep with ⟨-, heq⟩ | ⟨i, t, next, -, ht, hop, hfacts, heq⟩
  · rw [heq]
    exact .inl hnow
  · rw [heq]
    rcases stays_foldl hnow t.point.log with hstays | ⟨rows, hrows, hamong⟩
    · exact .inl hstays
    · obtain ⟨request, horigin, hremoves⟩ := removes_of_commit hfacts hop hr hrows hamong
      exact .inr ⟨request, arrived_of_origin PushPoint.origin origin_entry origin_next h ht horigin, hremoves⟩

/-- The committed subscription that a request registers is its caller's. -/
theorem registered_of_commit {i : ℕ} {t : Session (Serial PushSubscription) PushLock PushChange PushPoint}
    {u : Subscribing} {stale old : List PushSubscription} (hs : ConsistentPush accounts isPushEndpoint s)
    (ht : s.session i = some t) (hpoint : t.point = .subscribed u stale old)
    (hstep : (subscriptions accounts isPushEndpoint).step s (.commit i) = some s') :
    ∃ r ∈ s'.committed, r.userAddress = u.caller ∧ r.endpoint = u.sub.endpoint := by
  obtain ⟨t', next, ht', hop, rfl⟩ := Machine.step_commit hstep
  obtain rfl := Option.some.inj (ht.symm.trans ht')
  obtain ⟨⟨htracked, hfacts⟩, -⟩ := hs.sessions i t ht
  have hne := ne_halt_of_commit hop
  have hknown : ∀ r ∈ stale ++ old, Traced s.committed r := by
    have hall := (hfacts hne).known
    rwa [hpoint] at hall
  refine ⟨u.row s.committed.next, ?_, rfl, rfl⟩
  change u.row s.committed.next ∈ (subscriptions accounts isPushEndpoint).view s.committed t
  rw [htracked.view hne, hpoint]
  change _ ∈ PushChange.apply (PushChange.apply (PushChange.apply s.committed (.delete stale)) (.insert u))
    (.delete old)
  refine mem_apply_delete.mpr ⟨mem_apply_insert.mpr (.inr rfl), ?_⟩
  rw [Bool.eq_false_iff]
  intro hamong
  obtain ⟨r, hr, hid⟩ := isAmong_iff.mp hamong
  have hlt := (hknown r (List.mem_append_right _ hr)).lt
  exact Nat.lt_irrefl _ (hid ▸ hlt)

/-- In every interleaving of subscriptions, their removals and deliveries: no account has more than the allowed
number; a subscription came with a request of its account for its endpoint, keeps both, and goes with a request of
its account or with another account's registration of the endpoint. -/
theorem push_subscriptions_owned (accounts : Database) (isPushEndpoint : String → Bool) (c : Serial PushSubscription)
    (hc : Capped c) (as : List (Action PushRequest)) (s : PushState)
    (h : Run (ofPartial (subscriptions accounts isPushEndpoint).step) (.start c) as s) :
    (∀ a, (idsOf s.committed a).length ≤ maxSubscriptionsPerUser) ∧
    (∀ r ∈ s.committed, Stays c r ∨
      ∃ request, .arrive request ∈ as ∧ Subscribes accounts r.userAddress r.endpoint request) ∧
    (∀ i t u stale old s', s.session i = some t → t.point = .subscribed u stale old →
      (subscriptions accounts isPushEndpoint).step s (.commit i) = some s' →
        ∃ r ∈ s'.committed, r.userAddress = u.caller ∧ r.endpoint = u.sub.endpoint) ∧
    (∀ as' s', Run (ofPartial (subscriptions accounts isPushEndpoint).step) s as' s' → ∀ r ∈ s.committed,
      ∀ r' ∈ s'.committed, r'.id = r.id → r'.userAddress = r.userAddress ∧ r'.endpoint = r.endpoint) ∧
    ∀ a s', (subscriptions accounts isPushEndpoint).step s a = some s' → ∀ r ∈ s.committed,
      Stays s'.committed r ∨ ∃ request, .arrive request ∈ as ∧ Removes accounts r request := by
  have hs := consistent_run hc h
  refine ⟨hs.base, fun r => subscribed_of_mem hc h, fun i t u stale old s' => registered_of_commit hs, ?_,
    fun a s' hstep r => removed_of_step hc h hstep⟩
  intro as' s' h' r hr r' hr' hid
  exact ((traced_of_mem hr).evolves (evolves_run hs h')).same r' hr' hid

end runs

/-! ## Two accounts -/

section sample

def sampleSubscriber (name : String) : User :=
  ⟨lower name, name, some name, none, none, none, none, none, 0, none, false⟩

def sampleSubscribers : Database where
  __ := Database.empty
  users := (Table.empty.insert (sampleSubscriber "a")).insert (sampleSubscriber "b")

def sampleRegistration (name : String) : Subscribing := ⟨⟨name, 0⟩, lower name, 0, ⟨"e", "p", "k"⟩⟩

/-- The first account has registered an endpoint. -/
def sampleRegistered : Serial PushSubscription := PushChange.apply .empty (.insert (sampleRegistration "a"))

/-- The second account registers the same endpoint. -/
def sampleTakeover : List (Action PushRequest) :=
  [.arrive (sampleRegistration "b").request, .select 0, .select 0, .start 0, .finish 0, .start 0, .finish 0,
    .start 0, .finish 0, .start 0, .finish 0, .commit 0]

def samplePush : Machine (Serial PushSubscription) PushLock PushChange PushPoint PushRequest :=
  subscriptions sampleSubscribers fun _ => true

theorem capped_sampleRegistered : Capped sampleRegistered := by
  intro a
  rw [sampleRegistered, idsOf_insert]
  have hnone : idsOf Serial.empty a = [] := rfl
  rw [hnone, List.nil_append]
  split
  · decide
  · exact Nat.zero_le _

theorem sampleTakeover_runs :
    (sampleTakeover.foldlM samplePush.step (.start sampleRegistered)).isSome = true := by decide +kernel

theorem push_subscriptions_sample :
    (idsOf (after samplePush.step sampleTakeover (.start sampleRegistered)).committed (lower "b")).length ≤
      maxSubscriptionsPerUser :=
  (push_subscriptions_owned sampleSubscribers (fun _ => true) sampleRegistered capped_sampleRegistered
    sampleTakeover _ (Run.ofPartial_after sampleTakeover_runs)).1 (lower "b")

/-- The endpoint of the first account is the second's by the request of the second. -/
theorem not_never_repointed : ¬ ∀ (accounts : Database) (isPushEndpoint : String → Bool)
    (c : Serial PushSubscription) (as : List (Action PushRequest)) (s : PushState), Capped c →
    Run (ofPartial (subscriptions accounts isPushEndpoint).step) (.start c) as s → ∀ r₀ ∈ c,
      (∀ request, .arrive request ∈ as → ¬ Subscribes accounts r₀.userAddress r₀.endpoint request) →
        ∀ r ∈ s.committed, r.endpoint = r₀.endpoint → r.userAddress = r₀.userAddress := by
  intro hall
  have hrun : Run (ofPartial samplePush.step) (.start sampleRegistered) sampleTakeover _ :=
    Run.ofPartial_after sampleTakeover_runs
  have hrows : (after samplePush.step sampleTakeover (.start sampleRegistered)).committed.rows =
      [(sampleRegistration "b").row 1] := by rfl
  have hother : lower "b" ≠ lower "a" := by decide +kernel
  refine hother (hall sampleSubscribers (fun _ => true) sampleRegistered sampleTakeover _ capped_sampleRegistered hrun
    ((sampleRegistration "a").row 0) (mem_apply_insert.mpr (.inr rfl)) ?_ ((sampleRegistration "b").row 1) ?_ rfl)
  · intro request harrive
    have hrequest : request = (sampleRegistration "b").request := by
      simpa [sampleTakeover] using harrive
    rw [hrequest]
    rintro ⟨⟨u, hu, haddress⟩, -⟩
    have huser : getCurrentUser sampleSubscribers ⟨"b", 0⟩ = .ok (sampleSubscriber "b") := rfl
    obtain rfl := Except.ok.inj (huser.symm.trans hu)
    exact hother haddress
  · change _ ∈ (after samplePush.step sampleTakeover (.start sampleRegistered)).committed.rows
    rw [hrows]
    exact List.mem_cons_self

end sample

end Kryptolog.Server
