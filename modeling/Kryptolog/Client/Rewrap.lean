import Mathlib.Data.List.TakeWhile
import Kryptolog.Client.AccountKeys
import Kryptolog.Client.Mirror
import Kryptolog.Server.StaleWraps

/-! # Moving wrapped keys to a new encryption key

`rewrapStaleKeys` of `PQCContext.jsx` with the batch calls of `services/vault.js`, against the two
endpoints of the server. A page lists wraps that do not name the current key; those that open to a key
are sealed again and leave the list, and the offset counts the others.

What `JSON.parse` makes of a stored text and the sealing of the KEM are parameters.
-/

namespace Kryptolog.Client
set_option autoImplicit false

open Script Fallible
open Json (Document)
open Server (StaleWrap WrapKind Database Token Time Fault User)

/-- The two shapes of a wrapped key, by the member with the ciphertext. -/
inductive WrapShape
  | encKey
  | content
  deriving DecidableEq

def WrapShape.name : WrapShape → String
  | encKey => "encKey"
  | content => "content"

/-- What the page works with. -/
structure RewrapSession where
  /-- `JSON.parse`, where it does not throw. -/
  parseJson : Document → Option Value
  /-- `unwrapSessionKey` and `decryptMessagePQC`, with the seed that opens the envelope. -/
  openEnvelope : WrapShape → Value → Text → Except String Text
  /-- `JSON.stringify` of what `wrapSessionKey` or `encrypt` returns in the call for a row. -/
  sealedFor : WrapShape → WrapKind × ℕ → Text → Text → Document
  account : Account
  publicKey : Text
  token : Token
  now : Time

inductive RewrapError
  | typeError
  | request (fault : Fault)

/-- `/^[0-9a-f]{64}$/`. -/
def isFileKey (value : Text) : Bool := isHexOfLength 64 value

namespace RewrapSession

variable (s : RewrapSession)

/-! ## The batch calls -/

def openOne (shape : WrapShape) (envelope : Value) : Except String Text := do
  let seed ← encryptionSeedFor s.account envelope
  s.openEnvelope shape envelope seed

def openedAs : WrapShape → Value → Option Text
  | .encKey, blob => (s.openOne .encKey blob).toOption
  | .content, item =>
    match s.openOne .content item with
    | .ok text => some text
    | .error _ => some (lit "Error: Decryption Failed")

def unwrapManySessionKeys (wrappedKeys : List Value) : List (Option Text) :=
  wrappedKeys.map (s.openedAs .encKey)

def decryptMany (encryptedItems : List Value) : List (Option Text) :=
  encryptedItems.map (s.openedAs .content)

def openMany : WrapShape → List Value → List (Option Text)
  | .encKey => s.unwrapManySessionKeys
  | .content => s.decryptMany

/-! ## A page -/

/-- `e && has in e`: the operator `in` throws for a value that is no object. -/
def hasMember (shape : WrapShape) : Option Value → Except RewrapError Bool
  | none => .ok false
  | some (.obj fields) => .ok (fields.lookup (lit shape.name)).isSome
  | some (.arr _) => .ok false
  | some v => if v.truthy then .error .typeError else .ok false

/-- The results of a batch, each at the index of its envelope. -/
def place (shape : WrapShape) : List Bool → List (Option Text) → List (Option (WrapShape × Option Text)) →
    List (Option (WrapShape × Option Text))
  | true :: has, result :: results, _ :: opened => some (shape, result) :: place shape has results opened
  | _ :: has, results, o :: opened => o :: place shape has results opened
  | _, _, _ => []

def batch (shape : WrapShape) (envelopes : List (Option Value)) (opened : List (Option (WrapShape × Option Text))) :
    Except RewrapError (List (Option (WrapShape × Option Text))) := do
  let has ← envelopes.mapM (hasMember shape)
  let held := (envelopes.zip has).filterMap fun e => if e.2 then e.1 else none
  .ok (place shape has (s.openMany shape held) opened)

/-- The replacement of a wrap that opened to a key. -/
def replacement (w : StaleWrap) (opened : Option (WrapShape × Option Text)) : Option StaleWrap :=
  match opened with
  | some (shape, some value) =>
    if isFileKey value then some ⟨w.kind, w.id, s.sealedFor shape w.row value s.publicKey⟩ else none
  | _ => none

def itemsOf (page : List StaleWrap) : Except RewrapError (List StaleWrap) := do
  let envelopes := page.map fun w => s.parseJson w.encryptedKey
  let opened ← s.batch .encKey envelopes (page.map fun _ => none)
  let opened ← s.batch .content envelopes opened
  .ok ((page.zip opened).filterMap fun e => s.replacement e.1 e.2)

/-! ## The loop -/

def request {α : Type} : Except Fault α → Except RewrapError α
  | .ok a => .ok a
  | .error fault => .error (.request fault)

/-- `PAGE`. -/
def pageSize : ℕ := 100

structure Progress where
  db : Database
  unreadable : ℕ
  rewrapped : ℕ

/-- One turn of the loop: what it leaves, and whether it was the last. -/
def turn (p : Progress) : Except RewrapError (Progress × Bool) := do
  let page ← request (Server.listStaleWraps p.db s.now s.token pageSize p.unreadable)
  if page.isEmpty then .ok (p, true)
  else
    let items ← s.itemsOf page
    let unreadable := p.unreadable + (page.length - items.length)
    if items.isEmpty then .ok (⟨p.db, unreadable, p.rewrapped⟩, page.length < pageSize)
    else
      let db ← request (Server.rewrapKeys p.db s.now s.token items)
      .ok (⟨db, unreadable, p.rewrapped + items.length⟩, false)

/-- The loop, for so many turns at most. -/
def loop : ℕ → Progress → Option (Except RewrapError Progress)
  | 0, _ => none
  | fuel + 1, p =>
    match s.turn p with
    | .error e => some (.error e)
    | .ok (p, true) => some (.ok p)
    | .ok (p, false) => loop fuel p

/-- `rewrapStaleKeys`. -/
def rewrapStaleKeys (fuel : ℕ) (db : Database) : Option (Except RewrapError Progress) :=
  s.loop fuel ⟨db, 0, 0⟩

/-! ## What a wrap opens to -/

def memberOf (shape : WrapShape) : Option Value → Bool
  | some (.obj fields) => (fields.lookup (lit shape.name)).isSome
  | _ => false

/-- The operator `in` has an answer. -/
def enters : Option Value → Bool
  | none | some (.obj _) | some (.arr _) => true
  | some v => !v.truthy

/-- The key that a text opens to as a wrap of one shape. -/
def opensTo (shape : WrapShape) (d : Document) : Option Text :=
  match s.parseJson d with
  | some e => if memberOf shape (some e) then (s.openOne shape e).toOption.filter isFileKey else none
  | none => none

/-- The client can open the wrap to a key. -/
def openable (w : StaleWrap) : Bool :=
  (s.opensTo .encKey w.encryptedKey).isSome || (s.opensTo .content w.encryptedKey).isSome

/-- The wrap opens as one shape, and what it holds as the other does not open. -/
def overshadowed (w : StaleWrap) : Bool :=
  (s.opensTo .encKey w.encryptedKey).isSome && memberOf .content (s.parseJson w.encryptedKey) &&
    (s.opensTo .content w.encryptedKey).isNone

/-- The result for one envelope of a batch. -/
def placed (shape : WrapShape) (e : Option Value) (o : Option (WrapShape × Option Text)) :
    Option (WrapShape × Option Text) :=
  if memberOf shape e then some (shape, e.bind (s.openedAs shape)) else o

/-- The replacement that the loop sends for a wrap. -/
def reseal (w : StaleWrap) : Option StaleWrap :=
  let e := s.parseJson w.encryptedKey
  s.replacement w (s.placed .content e (s.placed .encKey e none))

section items

variable {s : RewrapSession} {shape : WrapShape} {e : Option Value} {envelopes : List (Option Value)}
  {has : List Bool} {opened : List (Option (WrapShape × Option Text))} {page items : List StaleWrap}
  {w item : StaleWrap} {key : Text}

theorem hasMember_eq : hasMember shape e =
    if enters e then .ok (memberOf shape e) else .error .typeError := by
  cases e with
  | none => rfl
  | some v => cases v <;> simp only [hasMember, enters, memberOf, if_true] <;> split <;> simp_all

theorem mapM_hasMember : envelopes.mapM (hasMember shape) = .ok has ↔
    (∀ e ∈ envelopes, enters e = true) ∧ has = envelopes.map (memberOf shape) := by
  rw [mapM_eq_ok]
  induction envelopes generalizing has with
  | nil => simp [List.forall₂_nil_left_iff]
  | cons e envelopes ih =>
    rw [List.forall₂_cons_left_iff, List.forall_mem_cons, List.map_cons]
    constructor
    · rintro ⟨b, rest, hb, hrest, rfl⟩
      obtain ⟨henter, rfl⟩ := ih.mp hrest
      rw [hasMember_eq] at hb
      split at hb
      · next h => exact ⟨⟨h, henter⟩, by rw [Except.ok.inj hb]⟩
      · cases hb
    · rintro ⟨⟨h, henter⟩, rfl⟩
      exact ⟨_, _, by rw [hasMember_eq, if_pos h], ih.mpr ⟨henter, rfl⟩, rfl⟩

theorem openMany_eq (vs : List Value) : s.openMany shape vs = vs.map (s.openedAs shape) := by
  cases shape <;> rfl

theorem place_eq (hlen : opened.length = envelopes.length) :
    place shape (envelopes.map (memberOf shape))
        (((envelopes.zip (envelopes.map (memberOf shape))).filterMap
          fun e => if e.2 then e.1 else none).map (s.openedAs shape)) opened =
      List.zipWith (s.placed shape) envelopes opened := by
  induction envelopes generalizing opened with
  | nil => rfl
  | cons e envelopes ih =>
    cases opened with
    | nil => cases hlen
    | cons o opened =>
      have hrest := ih (Nat.succ.inj hlen)
      cases hmember : memberOf shape e with
      | false => simp [place, placed, hmember, hrest]
      | true =>
        cases e with
        | none => cases hmember
        | some v => simp [place, placed, hmember, hrest]

theorem batch_eq_ok (hlen : opened.length = envelopes.length) {out : List (Option (WrapShape × Option Text))} :
    s.batch shape envelopes opened = .ok out ↔
      (∀ e ∈ envelopes, enters e = true) ∧ out = List.zipWith (s.placed shape) envelopes opened := by
  simp only [batch, bind_eq_ok, mapM_hasMember, openMany_eq]
  constructor
  · rintro ⟨_, ⟨henter, rfl⟩, hout⟩
    rw [place_eq hlen] at hout
    exact ⟨henter, (Except.ok.inj hout).symm⟩
  · rintro ⟨henter, rfl⟩
    exact ⟨_, ⟨henter, rfl⟩, by rw [place_eq hlen]⟩

/-- A page is resealed wrap by wrap, if each of its texts can be asked for its members. -/
theorem itemsOf_eq_ok : s.itemsOf page = .ok items ↔
    (∀ w ∈ page, enters (s.parseJson w.encryptedKey) = true) ∧ items = page.filterMap s.reseal := by
  have hplaced : ∀ shape (f : StaleWrap → Option (WrapShape × Option Text)),
      List.zipWith (s.placed shape) (page.map fun w => s.parseJson w.encryptedKey) (page.map f) =
        page.map fun w => s.placed shape (s.parseJson w.encryptedKey) (f w) := fun shape f => by
    rw [List.zipWith_map, List.zipWith_self]
  have hitems : ∀ f : StaleWrap → Option (WrapShape × Option Text),
      ((page.zip (page.map f)).filterMap fun e => s.replacement e.1 e.2) =
        page.filterMap fun w => s.replacement w (f w) := fun f => by
    have hzip : (page.map id).zip (page.map f) = page.map fun w => (w, f w) := List.zip_map'
    rw [List.map_id] at hzip
    rw [hzip, List.filterMap_map]
    rfl
  have henter : (∀ e ∈ page.map (fun w => s.parseJson w.encryptedKey), enters e = true) ↔
      ∀ w ∈ page, enters (s.parseJson w.encryptedKey) = true := List.forall_mem_map
  simp only [itemsOf, bind_eq_ok]
  constructor
  · rintro ⟨_, hfirst, _, hsecond, hout⟩
    obtain ⟨hall, rfl⟩ := (batch_eq_ok (by simp)).mp hfirst
    rw [hplaced] at hsecond
    obtain ⟨-, rfl⟩ := (batch_eq_ok (by simp)).mp hsecond
    rw [hplaced, hitems] at hout
    exact ⟨henter.mp hall, (Except.ok.inj hout).symm⟩
  · rintro ⟨hall, rfl⟩
    refine ⟨_, (batch_eq_ok (by simp)).mpr ⟨henter.mpr hall, rfl⟩, _, (batch_eq_ok (by simp)).mpr
      ⟨henter.mpr hall, rfl⟩, ?_⟩
    rw [hplaced, hplaced, hitems]
    rfl

theorem filter_openedAs (v : Value) :
    (s.openedAs shape v).filter isFileKey = (s.openOne shape v).toOption.filter isFileKey := by
  cases shape with
  | encKey => rfl
  | content =>
    simp only [openedAs]
    cases s.openOne .content v with
    | ok text => rfl
    | error e => exact Option.filter_some_neg (by decide)

theorem opensTo_eq (d : Document) : s.opensTo shape d = if memberOf shape (s.parseJson d) then
    ((s.parseJson d).bind (s.openedAs shape)).filter isFileKey else none := by
  unfold opensTo
  cases s.parseJson d with
  | none => rfl
  | some v => simp only [Option.bind_some, filter_openedAs]

theorem replacement_some {o : Option Text} : s.replacement w (some (shape, o)) =
    (o.filter isFileKey).map fun key => ⟨w.kind, w.id, s.sealedFor shape w.row key s.publicKey⟩ := by
  cases o with
  | none => rfl
  | some key =>
    simp only [replacement]
    split
    · next h => rw [Option.filter_some_pos h, Option.map_some]
    · next h => rw [Option.filter_some_neg (Bool.eq_false_iff.mpr h), Option.map_none]

/-- The member with the content decides. -/
theorem reseal_eq : s.reseal w =
    if memberOf .content (s.parseJson w.encryptedKey) then
      (s.opensTo .content w.encryptedKey).map fun key =>
        ⟨w.kind, w.id, s.sealedFor .content w.row key s.publicKey⟩
    else (s.opensTo .encKey w.encryptedKey).map fun key =>
        ⟨w.kind, w.id, s.sealedFor .encKey w.row key s.publicKey⟩ := by
  rw [opensTo_eq, opensTo_eq, reseal]
  simp only [placed]
  split
  · exact replacement_some
  · split
    · exact replacement_some
    · rfl

theorem of_reseal (h : s.reseal w = some item) : ∃ shape key, s.opensTo shape w.encryptedKey = some key ∧
    item = ⟨w.kind, w.id, s.sealedFor shape w.row key s.publicKey⟩ := by
  rw [reseal_eq] at h
  split at h
  all_goals
    obtain ⟨key, hkey, rfl⟩ := Option.map_eq_some_iff.mp h
    exact ⟨_, key, hkey, rfl⟩

theorem row_of_reseal (h : s.reseal w = some item) : item.row = w.row := by
  obtain ⟨_, _, -, rfl⟩ := of_reseal h
  rfl

theorem isFileKey_of_opensTo {d : Document} (h : s.opensTo shape d = some key) : isFileKey key = true := by
  rw [opensTo_eq] at h
  split at h
  · exact (Option.filter_eq_some_iff.mp h).2
  · cases h

theorem isSome_reseal (h : s.overshadowed w = false) : (s.reseal w).isSome = s.openable w := by
  have hcontent : memberOf .content (s.parseJson w.encryptedKey) = false →
      s.opensTo .content w.encryptedKey = none := fun h => by rw [opensTo_eq, h]; rfl
  unfold overshadowed at h
  rw [reseal_eq, openable]
  split
  · next hmember =>
    rw [hmember] at h
    cases hfirst : s.opensTo .encKey w.encryptedKey <;> cases hsecond : s.opensTo .content w.encryptedKey <;>
      simp_all
  · next hmember =>
    rw [hcontent (Bool.eq_false_iff.mpr hmember)]
    simp

theorem reseal_of_overshadowed (h : s.overshadowed w = true) :
    s.reseal w = none ∧ s.openable w = true := by
  simp only [overshadowed, Bool.and_eq_true, Option.isNone_iff_eq_none] at h
  obtain ⟨⟨hfirst, hmember⟩, hsecond⟩ := h
  exact ⟨by rw [reseal_eq, if_pos hmember, hsecond, Option.map_none], by rw [openable, hfirst, Bool.true_or]⟩

end items

/-! ## The run of the loop -/

/-- What the sealing of a page makes of a key: a wrap for the key id `kid`, which the page opens. -/
structure Seals (kid : Option String) : Prop where
  named : ∀ shape row key, isFileKey key = true →
    Server.isWrappedKeyFor (s.sealedFor shape row key s.publicKey) kid = .ok true
  opens : ∀ shape row key, isFileKey key = true →
    s.opensTo shape (s.sealedFor shape row key s.publicKey) = some key

def heldBy (db : Database) (caller : User) : List StaleWrap := Server.held db s.now caller.address

/-- The wraps of the caller that do not name the caller's key. -/
def staleOf (db : Database) (caller : User) : List StaleWrap :=
  (s.heldBy db caller).filter (·.isStale caller.encryptionKeyId)

/-- The loop has seen the first of the stale wraps, and has replaced those of them that it opened. -/
structure Reached (db₀ : Database) (caller : User) (p : Progress) (seen rest : List StaleWrap) : Prop where
  all : s.staleOf db₀ caller = seen ++ rest
  db : p.db = (seen.filterMap s.reseal).foldl Server.replaceWrap db₀
  unreadable : p.unreadable = (seen.filter fun w => (s.reseal w).isNone).length
  rewrapped : p.rewrapped = (seen.filterMap s.reseal).length
  readable : ∀ w ∈ seen, w.Readable
  enters : ∀ w ∈ seen, enters (s.parseJson w.encryptedKey) = true

section run

variable {s : RewrapSession} {db₀ : Database} {caller : User} {p q : Progress} {seen rest ws : List StaleWrap}
  {w item : StaleWrap} {last : Bool}

theorem map_row_resealed (ws : List StaleWrap) :
    (ws.filterMap s.reseal).map (·.row) = (ws.filter fun w => (s.reseal w).isSome).map (·.row) := by
  induction ws with
  | nil => rfl
  | cons w ws ih =>
    rw [List.filterMap_cons, List.filter_cons]
    cases h : s.reseal w with
    | none => exact ih
    | some item =>
      rw [Option.isSome_some, if_pos rfl, List.map_cons, List.map_cons, ih, row_of_reseal h]

namespace Reached

theorem nodup_held (db : Database) : ((s.heldBy db caller).map (·.row)).Nodup := Server.nodup_held

theorem nodup (h : s.Reached db₀ caller p seen rest) : ((seen ++ rest).map (·.row)).Nodup := by
  rw [← h.all]
  exact (nodup_held db₀).sublist (List.filter_sublist.map _)

theorem nodup_resealed (h : s.Reached db₀ caller p seen rest) :
    ((seen.filterMap s.reseal).map (·.row)).Nodup := by
  rw [map_row_resealed]
  exact h.nodup.sublist ((List.filter_sublist.trans (List.sublist_append_left seen rest)).map _)

theorem mem_held (h : s.Reached db₀ caller p seen rest) (hw : w ∈ seen ++ rest) : w ∈ s.heldBy db₀ caller :=
  (List.mem_filter.mp (h.all ▸ hw)).1

theorem held (h : s.Reached db₀ caller p seen rest) :
    s.heldBy p.db caller = (s.heldBy db₀ caller).map (·.after (seen.filterMap s.reseal)) := by
  rw [h.db]
  refine Server.held_replaceWraps (fun i hi => ?_) h.nodup_resealed
  obtain ⟨w, hw, hreseal⟩ := List.mem_filterMap.mp hi
  rw [row_of_reseal hreseal]
  exact List.mem_map_of_mem (h.mem_held (List.mem_append_left rest hw))

/-- A row has been replaced when its wrap is one that was seen and opened. -/
theorem mem_resealed (h : s.Reached db₀ caller p seen rest) (hw : w ∈ seen ++ rest) :
    w.row ∈ (seen.filterMap s.reseal).map (·.row) ↔ w ∈ seen ∧ (s.reseal w).isSome = true := by
  rw [map_row_resealed, List.mem_map]
  constructor
  · rintro ⟨v, hv, hrow⟩
    obtain ⟨hseen, hsome⟩ := List.mem_filter.mp hv
    have hsame : v = w := List.inj_on_of_nodup_map h.nodup (List.mem_append_left rest hseen) hw hrow
    exact hsame ▸ ⟨hseen, hsome⟩
  · rintro ⟨hseen, hsome⟩
    exact ⟨w, List.mem_filter.mpr ⟨hseen, hsome⟩, rfl⟩

/-- The wraps that were seen and not opened, and those not seen yet, are still stale. -/
theorem stale (h : s.Reached db₀ caller p seen rest) (hseals : s.Seals caller.encryptionKeyId) :
    s.staleOf p.db caller = (seen.filter fun w => (s.reseal w).isNone) ++ rest := by
  let items := seen.filterMap s.reseal
  have hafter : ∀ w ∈ s.heldBy db₀ caller, (w.after items).isStale caller.encryptionKeyId =
      (w.isStale caller.encryptionKeyId && !decide (w.row ∈ items.map (·.row))) := by
    intro w _
    by_cases hmem : w.row ∈ items.map (·.row)
    · obtain ⟨item, hitem, hrow⟩ := List.mem_map.mp hmem
      obtain ⟨v, -, hreseal⟩ := List.mem_filterMap.mp hitem
      obtain ⟨shape, key, hopens, rfl⟩ := of_reseal hreseal
      rw [Server.after_of_mem h.nodup_resealed hitem hrow,
        Server.isStale_of_isWrappedKeyFor (hseals.named shape v.row key (isFileKey_of_opensTo hopens)),
        decide_eq_true hmem, Bool.not_true, Bool.and_false]
    · rw [Server.after_of_not_mem hmem, decide_eq_false hmem, Bool.not_false, Bool.and_true]
  have hkept : (seen ++ rest).filter (fun w => !decide (w.row ∈ items.map (·.row))) =
      (seen.filter fun w => (s.reseal w).isNone) ++ rest := by
    rw [List.filter_append]
    congr 1
    · refine List.filter_congr fun w hw => ?_
      have hiff : w.row ∈ items.map (·.row) ↔ (s.reseal w).isSome = true :=
        (h.mem_resealed (List.mem_append_left rest hw)).trans (and_iff_right hw)
      simp only [hiff, Bool.decide_eq_true, Option.not_isSome]
    · refine List.filter_eq_self.mpr fun w hw => ?_
      have hunseen : w ∉ seen := fun hs =>
        (List.nodup_append.mp (List.Nodup.of_map _ h.nodup)).2.2 w hs w hw rfl
      have hnot : w.row ∉ items.map (·.row) := fun hmem =>
        hunseen ((h.mem_resealed (List.mem_append_right seen hw)).mp hmem).1
      rw [decide_eq_false hnot, Bool.not_false]
  calc s.staleOf p.db caller
      = ((s.heldBy db₀ caller).filter fun w => (w.after items).isStale caller.encryptionKeyId).map
          (·.after items) := by rw [staleOf, h.held, List.filter_map]; rfl
    _ = (((s.heldBy db₀ caller).filter (·.isStale caller.encryptionKeyId)).filter
          fun w => !decide (w.row ∈ items.map (·.row))).map (·.after items) := by
        rw [List.filter_filter]
        refine congrArg _ (List.filter_congr fun w hw => ?_)
        rw [hafter w hw, Bool.and_comm]
    _ = ((seen ++ rest).filter fun w => !decide (w.row ∈ items.map (·.row))).map (·.after items) := by
        rw [← h.all]; rfl
    _ = (seen ++ rest).filter fun w => !decide (w.row ∈ items.map (·.row)) := by
        refine (List.map_congr_left fun w hw => ?_).trans (List.map_id _)
        have hnot := (List.mem_filter.mp hw).2
        rw [Server.after_of_not_mem (by simpa using hnot)]
        rfl
    _ = (seen.filter fun w => (s.reseal w).isNone) ++ rest := hkept

theorem start (db₀ : Database) (caller : User) :
    s.Reached db₀ caller ⟨db₀, 0, 0⟩ [] (s.staleOf db₀ caller) :=
  ⟨rfl, rfl, rfl, rfl, fun _ hw => absurd hw List.not_mem_nil, fun _ hw => absurd hw List.not_mem_nil⟩

/-- The wraps that are held at a turn are as readable as those at the start. -/
theorem forall_readable (h : s.Reached db₀ caller p seen rest) (hseals : s.Seals caller.encryptionKeyId) :
    (∀ w ∈ s.heldBy p.db caller, w.Readable) ↔ ∀ w ∈ s.heldBy db₀ caller, w.Readable := by
  rw [h.held, List.forall_mem_map]
  refine forall₂_congr fun w hw => ?_
  by_cases hmem : w.row ∈ (seen.filterMap s.reseal).map (·.row)
  · obtain ⟨item, hitem, hrow⟩ := List.mem_map.mp hmem
    obtain ⟨v, hv, hreseal⟩ := List.mem_filterMap.mp hitem
    obtain ⟨shape, key, hopens, rfl⟩ := of_reseal hreseal
    have hsame : v = w := List.inj_on_of_nodup_map (nodup_held db₀)
      (h.mem_held (List.mem_append_left rest hv)) hw hrow
    rw [Server.after_of_mem h.nodup_resealed hitem hrow]
    exact ⟨fun _ => hsame ▸ h.readable v hv, fun _ => ⟨_, Server.wrappedKeyId_of_isWrappedKeyFor
      (hseals.named shape v.row key (isFileKey_of_opensTo hopens))⟩⟩
  · rw [Server.after_of_not_mem hmem]

theorem length_unsealed (ws : List StaleWrap) :
    (ws.filter fun w => (s.reseal w).isNone).length = ws.length - (ws.filterMap s.reseal).length := by
  have hparts : (ws.filter fun w => (s.reseal w).isNone).length + (ws.filterMap s.reseal).length =
      ws.length := by
    induction ws with
    | nil => rfl
    | cons w ws ih => cases h : s.reseal w <;> simp [h, ← ih] <;> omega
  omega

/-- The loop goes over a part of what it has not seen. -/
theorem step (h : s.Reached db₀ caller p seen (ws ++ rest)) (hread : ∀ w ∈ ws, w.Readable)
    (henter : ∀ w ∈ ws, RewrapSession.enters (s.parseJson w.encryptedKey) = true) :
    s.Reached db₀ caller ⟨(ws.filterMap s.reseal).foldl Server.replaceWrap p.db,
      p.unreadable + (ws.length - (ws.filterMap s.reseal).length),
      p.rewrapped + (ws.filterMap s.reseal).length⟩ (seen ++ ws) rest where
  all := h.all.trans (List.append_assoc seen ws rest).symm
  db := by rw [List.filterMap_append, List.foldl_append, h.db]
  unreadable := by rw [List.filter_append, List.length_append, h.unreadable, length_unsealed ws]
  rewrapped := by rw [List.filterMap_append, List.length_append, h.rewrapped]
  readable := List.forall_mem_append.mpr ⟨h.readable, hread⟩
  enters := List.forall_mem_append.mpr ⟨h.enters, henter⟩

theorem getCurrentUser (h : s.Reached db₀ caller p seen rest)
    (hcaller : Server.getCurrentUser db₀ s.token = .ok caller) :
    Server.getCurrentUser p.db s.token = .ok caller := by
  rw [h.db, Server.getCurrentUser_replaceWraps, hcaller]

/-- A page holds the next wraps that were not seen. -/
theorem page (h : s.Reached db₀ caller p seen rest) (hseals : s.Seals caller.encryptionKeyId)
    (hcaller : Server.getCurrentUser db₀ s.token = .ok caller) {page : List StaleWrap}
    (hpage : Server.listStaleWraps p.db s.now s.token pageSize p.unreadable = .ok page) :
    page = rest.take pageSize ∧ (∀ w ∈ page, w.Readable) ∧
      (page.length < pageSize → ∀ w ∈ s.heldBy db₀ caller, w.Readable) := by
  rw [Server.listStaleWraps, h.getCurrentUser hcaller, ok_bind] at hpage
  obtain ⟨hpage, hread, hshort⟩ := Server.stalePage_eq_ok (by decide) hpage
  refine ⟨hpage.trans ?_, hread, fun hlt => (h.forall_readable hseals).mp (hshort hlt)⟩
  have hstale := h.stale hseals
  rw [staleOf, heldBy] at hstale
  rw [hstale, h.unreadable, List.drop_left]

end Reached

theorem request_eq_ok {α : Type} {x : Except Fault α} {a : α} : request x = .ok a ↔ x = .ok a := by
  cases x <;> simp [request]

/-- A turn goes over a page of what it has not seen, and the last one over all of it. -/
theorem turn_reached (h : s.Reached db₀ caller p seen rest) (hseals : s.Seals caller.encryptionKeyId)
    (hcaller : Server.getCurrentUser db₀ s.token = .ok caller) (hturn : s.turn p = .ok (q, last)) :
    s.Reached db₀ caller q (seen ++ rest.take pageSize) (rest.drop pageSize) ∧
      (last = true → rest.drop pageSize = [] ∧ ∀ w ∈ s.heldBy db₀ caller, w.Readable) ∧
      (last = false → rest ≠ []) := by
  obtain ⟨page, hlist, hturn⟩ := bind_eq_ok.mp hturn
  obtain ⟨hpage, hread, hshort⟩ := h.page hseals hcaller (request_eq_ok.mp hlist)
  have hdone : page.length < pageSize → rest.drop pageSize = [] := fun hlt => by
    rw [hpage, List.length_take] at hlt
    exact List.drop_eq_nil_of_le (by omega)
  rw [← List.take_append_drop pageSize rest, ← hpage] at h
  by_cases hempty : page = []
  · rw [if_pos (List.isEmpty_iff.mpr hempty)] at hturn
    obtain ⟨rfl, rfl⟩ := Prod.mk.inj (Except.ok.inj hturn)
    have hlt : page.length < pageSize := hempty ▸ (by decide : 0 < pageSize)
    refine ⟨?_, fun _ => ⟨hdone hlt, hshort hlt⟩, fun hlast => (by cases hlast)⟩
    rw [hempty] at h
    rw [← hpage, hempty, List.append_nil]
    exact h
  · rw [if_neg fun hnil => hempty (List.isEmpty_iff.mp hnil)] at hturn
    have hrest : rest ≠ [] := fun hnil => hempty (by rw [hpage, hnil, List.take_nil])
    obtain ⟨items, hitems, hturn⟩ := bind_eq_ok.mp hturn
    obtain ⟨henter, rfl⟩ := itemsOf_eq_ok.mp hitems
    have hstep := h.step hread henter
    rw [← hpage]
    by_cases hnone : page.filterMap s.reseal = []
    · rw [if_pos (List.isEmpty_iff.mpr hnone)] at hturn
      obtain ⟨rfl, rfl⟩ := Prod.mk.inj (Except.ok.inj hturn)
      refine ⟨?_, fun hlt => ?_, fun _ => hrest⟩
      · rw [hnone] at hstep ⊢
        exact hstep
      · exact ⟨hdone (of_decide_eq_true hlt), hshort (of_decide_eq_true hlt)⟩
    · rw [if_neg fun hnil => hnone (List.isEmpty_iff.mp hnil)] at hturn
      obtain ⟨db, hdb, hturn⟩ := bind_eq_ok.mp hturn
      obtain ⟨rfl, rfl⟩ := Prod.mk.inj (Except.ok.inj hturn)
      have hrewrap := request_eq_ok.mp hdb
      rw [Server.rewrapKeys, h.getCurrentUser hcaller, ok_bind, Server.rewrap_eq_ok] at hrewrap
      obtain ⟨-, -, rfl⟩ := hrewrap
      exact ⟨hstep, fun hlast => (by cases hlast), fun _ => hrest⟩

/-- A turn passes when every wrap is readable and every text can be asked for its members. -/
theorem turn_ok (h : s.Reached db₀ caller p seen rest) (hseals : s.Seals caller.encryptionKeyId)
    (hcaller : Server.getCurrentUser db₀ s.token = .ok caller)
    (hread : ∀ w ∈ s.heldBy db₀ caller, w.Readable)
    (henter : ∀ w ∈ rest, enters (s.parseJson w.encryptedKey) = true) : ∃ r, s.turn p = .ok r := by
  have huser := h.getCurrentUser hcaller
  obtain ⟨page, hlist⟩ : ∃ page, Server.listStaleWraps p.db s.now s.token pageSize p.unreadable = .ok page := by
    rw [Server.listStaleWraps, huser]
    exact Server.stalePage_ok ((h.forall_readable hseals).mpr hread)
  obtain ⟨hpage, -, -⟩ := h.page hseals hcaller hlist
  have hrest : ∀ w ∈ page, w ∈ rest := fun w hw => List.mem_of_mem_take (hpage ▸ hw)
  have hitems : s.itemsOf page = .ok (page.filterMap s.reseal) :=
    itemsOf_eq_ok.mpr ⟨fun w hw => henter w (hrest w hw), rfl⟩
  have hrewrap : Server.rewrapKeys p.db s.now s.token (page.filterMap s.reseal) =
      .ok ((page.filterMap s.reseal).foldl Server.replaceWrap p.db) := by
    rw [Server.rewrapKeys, huser, ok_bind, Server.rewrap_eq_ok]
    refine ⟨Server.active_of_getCurrentUser hcaller, fun i hi => ?_, rfl⟩
    obtain ⟨w, hw, hreseal⟩ := List.mem_filterMap.mp hi
    obtain ⟨shape, key, hopens, rfl⟩ := of_reseal hreseal
    have hstale : w ∈ s.staleOf p.db caller := h.stale hseals ▸ List.mem_append_right _ (hrest w hw)
    exact ⟨List.mem_map_of_mem (f := (·.row)) (List.mem_filter.mp hstale).1,
      hseals.named shape w.row key (isFileKey_of_opensTo hopens)⟩
  rw [turn, hlist]
  simp only [request, ok_bind, hitems, hrewrap]
  split
  · exact ⟨_, rfl⟩
  · split <;> exact ⟨_, rfl⟩

/-- A run that ends has gone over every stale wrap. -/
theorem loop_reached (hseals : s.Seals caller.encryptionKeyId)
    (hcaller : Server.getCurrentUser db₀ s.token = .ok caller) {fuel : ℕ}
    (h : s.Reached db₀ caller p seen rest) (hloop : s.loop fuel p = some (.ok q)) :
    s.Reached db₀ caller q (s.staleOf db₀ caller) [] ∧ ∀ w ∈ s.heldBy db₀ caller, w.Readable := by
  induction fuel generalizing p seen rest with
  | zero => cases hloop
  | succ fuel ih =>
    rw [loop] at hloop
    cases hturn : s.turn p with
    | error e =>
      rw [hturn] at hloop
      cases hloop
    | ok r =>
      obtain ⟨p', last⟩ := r
      obtain ⟨hnext, hlast, -⟩ := turn_reached h hseals hcaller hturn
      rw [hturn] at hloop
      cases last with
      | false => exact ih hnext hloop
      | true =>
        obtain rfl := Except.ok.inj (Option.some.inj hloop)
        obtain ⟨hdone, hread⟩ := hlast rfl
        rw [hdone] at hnext
        have hall := hnext.all
        rw [List.append_nil] at hall
        exact ⟨hall ▸ hnext, hread⟩

/-- A turn that is not the last leaves fewer wraps to see, so the run ends. -/
theorem loop_ok (hseals : s.Seals caller.encryptionKeyId)
    (hcaller : Server.getCurrentUser db₀ s.token = .ok caller)
    (hread : ∀ w ∈ s.heldBy db₀ caller, w.Readable) {fuel : ℕ} (h : s.Reached db₀ caller p seen rest)
    (henter : ∀ w ∈ rest, enters (s.parseJson w.encryptedKey) = true) (hfuel : rest.length < fuel) :
    ∃ q, s.loop fuel p = some (.ok q) := by
  induction fuel generalizing p seen rest with
  | zero => exact absurd hfuel (Nat.not_lt_zero _)
  | succ fuel ih =>
    obtain ⟨⟨p', last⟩, hturn⟩ := turn_ok h hseals hcaller hread henter
    obtain ⟨hnext, -, hmore⟩ := turn_reached h hseals hcaller hturn
    rw [loop, hturn]
    cases last with
    | true => exact ⟨p', rfl⟩
    | false =>
      have hpos : 0 < rest.length := List.length_pos_of_ne_nil (hmore rfl)
      have hless : (rest.drop pageSize).length < fuel := by
        rw [List.length_drop, pageSize]
        omega
      exact ih hnext (fun w hw => henter w (List.mem_of_mem_drop hw)) hless

/-- The row of a wrap with another wrap of the same key, for the key id `kid`. -/
def Resealed (s : RewrapSession) (kid : Option String) (w item : StaleWrap) : Prop :=
  item.row = w.row ∧ Server.wrappedKeyId (some item.encryptedKey) = .ok kid ∧
    ∃ shape key, s.opensTo shape w.encryptedKey = some key ∧ s.opensTo shape item.encryptedKey = some key

/-- Every stale wrap that the client can open is replaced once, and every other is left and counted. -/
structure Moved (s : RewrapSession) (db₀ : Database) (caller : User) (p : Progress) : Prop where
  replaced : ∃ items, p.db = items.foldl Server.replaceWrap db₀ ∧ p.rewrapped = items.length ∧
    List.Forall₂ (s.Resealed caller.encryptionKeyId) ((s.staleOf db₀ caller).filter s.openable) items
  kept : ∀ w ∈ s.heldBy db₀ caller, (w ∈ s.staleOf db₀ caller → s.openable w = false) →
    w ∈ s.heldBy p.db caller
  left : s.staleOf p.db caller = (s.staleOf db₀ caller).filter fun w => !s.openable w
  counted : p.unreadable = ((s.staleOf db₀ caller).filter fun w => !s.openable w).length

/-- The server can read every wrap, the page can ask every stale one for its members, and none of those
opens in one shape while it has the member of the other and does not open as that. -/
structure Movable (s : RewrapSession) (db₀ : Database) (caller : User) : Prop where
  readable : ∀ w ∈ s.heldBy db₀ caller, w.Readable
  enters : ∀ w ∈ s.staleOf db₀ caller, RewrapSession.enters (s.parseJson w.encryptedKey) = true
  single : ∀ w ∈ s.staleOf db₀ caller, s.overshadowed w = false

theorem forall₂_reseal {kid : Option String} (hseals : s.Seals kid)
    (hsingle : ∀ w ∈ ws, s.overshadowed w = false) :
    List.Forall₂ (s.Resealed kid) (ws.filter s.openable) (ws.filterMap s.reseal) := by
  induction ws with
  | nil => exact .nil
  | cons w ws ih =>
    obtain ⟨hw, hws⟩ := List.forall_mem_cons.mp hsingle
    have hopenable := isSome_reseal hw
    rw [List.filter_cons, List.filterMap_cons, ← hopenable]
    cases hreseal : s.reseal w with
    | none => exact ih hws
    | some item =>
      obtain ⟨shape, key, hopens, rfl⟩ := of_reseal hreseal
      have hkey := isFileKey_of_opensTo hopens
      exact .cons ⟨rfl, Server.wrappedKeyId_of_isWrappedKeyFor (hseals.named shape w.row key hkey),
        shape, key, hopens, hseals.opens shape w.row key hkey⟩ (ih hws)

theorem filter_unsealed (hsingle : ∀ w ∈ ws, s.overshadowed w = false) :
    (ws.filter fun w => (s.reseal w).isNone) = ws.filter fun w => !s.openable w :=
  List.filter_congr fun w hw => by rw [← isSome_reseal (hsingle w hw), Option.not_isSome]

theorem Reached.moved (hseals : s.Seals caller.encryptionKeyId)
    (h : s.Reached db₀ caller q (s.staleOf db₀ caller) [])
    (hsingle : ∀ w ∈ s.staleOf db₀ caller, s.overshadowed w = false) : s.Moved db₀ caller q where
  replaced := ⟨_, h.db, h.rewrapped, forall₂_reseal hseals hsingle⟩
  kept := by
    intro w hw hclosed
    have hnot : w.row ∉ ((s.staleOf db₀ caller).filterMap s.reseal).map (·.row) := by
      rw [map_row_resealed, List.mem_map]
      rintro ⟨v, hv, hrow⟩
      obtain ⟨hstale, hsome⟩ := List.mem_filter.mp hv
      obtain rfl : v = w := List.inj_on_of_nodup_map (nodup_held db₀) (List.mem_filter.mp hstale).1 hw hrow
      have hopen := isSome_reseal (hsingle v hstale)
      rw [hsome, hclosed hstale] at hopen
      cases hopen
    rw [h.held, List.mem_map]
    exact ⟨w, hw, Server.after_of_not_mem hnot⟩
  left := by rw [h.stale hseals, List.append_nil, filter_unsealed hsingle]
  counted := by rw [h.unreadable, filter_unsealed hsingle]

/-- Where the loop has moved the wraps, none of them is opened in the one shape only and read in the other. -/
theorem Reached.single (hseals : s.Seals caller.encryptionKeyId)
    (h : s.Reached db₀ caller q (s.staleOf db₀ caller) []) (hmoved : s.Moved db₀ caller q) :
    ∀ w ∈ s.staleOf db₀ caller, s.overshadowed w = false := by
  intro w hw
  by_contra hshadow
  obtain ⟨hnone, hopen⟩ := reseal_of_overshadowed (Bool.eq_true_of_not_eq_false hshadow)
  have hleft := hmoved.left
  rw [h.stale hseals, List.append_nil] at hleft
  have hmem : w ∈ (s.staleOf db₀ caller).filter fun w => (s.reseal w).isNone :=
    List.mem_filter.mpr ⟨hw, by rw [hnone]; rfl⟩
  rw [hleft, List.mem_filter, hopen] at hmem
  cases hmem.2

/-- `rewrapStaleKeys` ends with every wrap moved that the client can open, if and only if each of the texts
is one that the server and the page can read. -/
theorem stale_keys_moved_iff (s : RewrapSession) (db₀ : Database) (caller : User)
    (hcaller : Server.getCurrentUser db₀ s.token = .ok caller) (hseals : s.Seals caller.encryptionKeyId) :
    (∃ fuel p, s.rewrapStaleKeys fuel db₀ = some (.ok p) ∧ s.Moved db₀ caller p) ↔ s.Movable db₀ caller := by
  have hstart := Reached.start (s := s) db₀ caller
  constructor
  · rintro ⟨fuel, p, hloop, hmoved⟩
    obtain ⟨hreached, hread⟩ := loop_reached hseals hcaller hstart hloop
    exact ⟨hread, hreached.enters, hreached.single hseals hmoved⟩
  · rintro ⟨hread, henter, hsingle⟩
    obtain ⟨p, hloop⟩ := loop_ok hseals hcaller hread hstart henter (Nat.lt_succ_self _)
    exact ⟨_, p, hloop, (loop_reached hseals hcaller hstart hloop).1.moved hseals hsingle⟩

end run

/-! ## A page of three wraps -/

def sampleDigits (n : ℕ) (c : Char) : String := String.ofList (List.replicate n c)

/-- An envelope to the key `kid`, with the text in the clear. -/
def sampleEnvelope (kid : String) (shape : WrapShape) (key : Text) : Json.Value :=
  .obj [(.uni "v", .int 5), (.uni "alg", .str (.uni Server.kemEnvelopeAlg)), (.uni "kid", .str (.uni kid)),
    (.uni "kem", .str (.uni (sampleDigits 1580 'A'))), (.uni "iv", .str (.uni (sampleDigits 16 'A'))),
    (.uni shape.name, .str (.uni (shown key)))]

def sampleEncryptionKey (c : Char) : EncryptionKey :=
  ⟨lit (sampleDigits 32 c), lit "seed", lit "public key", Number.zero⟩

/-- A page whose account has the key `2` and, retired, the key `1`. -/
def sampleSession : RewrapSession where
  parseJson d := match d with
    | .json v => some (toScript sampleReader v)
    | _ => none
  openEnvelope shape envelope _ := match envelope.get shape.name with
    | some (.str key) => .ok key
    | _ => .error "Malformed envelope"
  sealedFor shape _ key _ := .json (sampleEnvelope (sampleDigits 32 '2') shape key)
  account := ⟨lit "acct", lit "alice", Number.zero, ⟨lit "seed", lit "public key"⟩, sampleEncryptionKey '2',
    [⟨sampleEncryptionKey '1', Number.zero⟩]⟩
  publicKey := lit "public key"
  token := ⟨"alice", 0⟩
  now := 0

theorem isSome_base64Digit {c : Char} (h : Server.isLowerHexDigit c = true) :
    (Server.base64Digit c).isSome = true := by
  unfold Server.base64Digit
  rw [Server.isLowerHexDigit, Bool.or_eq_true] at h
  split
  · rfl
  · split
    · rfl
    · next hlower =>
      rcases h with h | h
      · rw [if_pos h]
        rfl
      · simp only [Bool.and_eq_true, decide_eq_true_eq] at h
        have hyes : c.isLower = true :=
          Bool.and_eq_true_iff.mpr ⟨decide_eq_true h.1, decide_eq_true (h.2.trans (by decide))⟩
        exact absurd hyes hlower

/-- A file key is a text of 64 digits. -/
theorem chars_of_isFileKey {key : Text} (h : isFileKey key = true) : ∃ cs : List Char,
    key = cs.map .char ∧ shown key = String.ofList cs ∧ cs.length = 64 ∧
      ∀ c ∈ cs, Server.isLowerHexDigit c = true := by
  rw [isFileKey, isHexOfLength, Bool.and_eq_true, beq_iff_eq] at h
  obtain ⟨hlen, hhex⟩ := h
  have hchars : ∀ ps : Text, Text.consistsOf Server.isLowerHexDigit ps = true → ∃ cs : List Char,
      ps = cs.map .char ∧ ∀ c ∈ cs, Server.isLowerHexDigit c = true := by
    intro ps hps
    induction ps with
    | nil => exact ⟨[], rfl, fun c hc => absurd hc List.not_mem_nil⟩
    | cons p ps ih =>
      rw [Text.consistsOf, List.all_cons, Bool.and_eq_true] at hps
      obtain ⟨cs, rfl, hcs⟩ := ih hps.2
      cases p with
      | surrogate u => cases hps.1
      | char c => exact ⟨c :: cs, rfl, List.forall_mem_cons.mpr ⟨hps.1, hcs⟩⟩
  obtain ⟨cs, rfl, hcs⟩ := hchars key hhex
  refine ⟨cs, rfl, ?_, by rw [← hlen, List.length_map], hcs⟩
  rw [shown, List.map_map]
  exact congrArg String.ofList (List.map_id' cs)

theorem b64Field_sampleDigits {n : ℕ} (hn : 0 < n) (h4 : n % 4 = 0) :
    Server.b64Field (some (.str (.uni (sampleDigits n 'A')))) = some (n * 3 / 4) := by
  have hne : List.replicate n 'A' ≠ [] := List.ne_nil_of_length_pos (by simpa using hn)
  have h := Server.b64Field_digits hne (by simpa using h4) fun c hc => by
      rw [(List.mem_replicate.mp hc).2]
      rfl
  rwa [List.length_replicate] at h

theorem isWrappedKeyFor_sampleEnvelope {kid : String} {shape : WrapShape} {key : Text}
    (hkid : Server.isValidKeyId kid = true) (hkey : isFileKey key = true) :
    Server.isWrappedKeyFor (.json (sampleEnvelope kid shape key)) (some kid) = .ok true := by
  obtain ⟨cs, -, hshown, hlen, hcs⟩ := chars_of_isFileKey hkey
  have hfield := Server.b64Field_digits (List.ne_nil_of_length_pos (by omega)) (by omega)
    fun c hc => isSome_base64Digit (hcs c hc)
  rw [← hshown, hlen] at hfield
  have hkem : Server.b64Field ((sampleEnvelope kid shape key).get "kem") = some 1185 :=
    @b64Field_sampleDigits 1580 (by decide) (by decide)
  have hiv : Server.b64Field ((sampleEnvelope kid shape key).get "iv") = some 12 :=
    @b64Field_sampleDigits 16 (by decide) (by decide)
  have hv : (sampleEnvelope kid shape key).get "v" = some (.int 5) := rfl
  have halg : (sampleEnvelope kid shape key).get "alg" = some (.str (.uni Server.kemEnvelopeAlg)) := rfl
  have hnamed : (sampleEnvelope kid shape key).get "kid" = some (.str (.uni kid)) := rfl
  have hnames : (sampleEnvelope kid shape key).fields.map (·.1) =
      Server.kemEnvelopeFields ++ [.uni shape.name] := rfl
  unfold Server.isWrappedKeyFor
  simp only [hkid, Document.loads, hnames, hkem, hiv, hv, halg, hnamed]
  cases shape with
  | encKey =>
    have hextra : ((Server.kemEnvelopeFields ++ [Json.Str.uni WrapShape.encKey.name]).filter fun n =>
        !Server.kemEnvelopeFields.contains n).dedup = [.uni "encKey"] := by decide
    have hall : Server.kemEnvelopeFields.all
        (Server.kemEnvelopeFields ++ [Json.Str.uni WrapShape.encKey.name]).contains = true := by decide
    have hwrapped : Server.b64Field ((sampleEnvelope kid .encKey key).get "encKey") = some 48 := hfield
    simp only [hextra, hall, hwrapped]
    simp [Json.Value.eqInt, Json.Value.eqStr, Server.formatVersion]
  | content =>
    have hextra : ((Server.kemEnvelopeFields ++ [Json.Str.uni WrapShape.content.name]).filter fun n =>
        !Server.kemEnvelopeFields.contains n).dedup = [.uni "content"] := by decide
    have hall : Server.kemEnvelopeFields.all
        (Server.kemEnvelopeFields ++ [Json.Str.uni WrapShape.content.name]).contains = true := by decide
    have hwrapped : Server.b64Field ((sampleEnvelope kid .content key).get "content") = some 48 := hfield
    simp only [hextra, hall, hwrapped]
    simp [Json.Value.eqInt, Json.Value.eqStr, Server.formatVersion]

theorem seals_sampleSession : sampleSession.Seals (some (sampleDigits 32 '2')) where
  named := fun _ _ _ hkey => isWrappedKeyFor_sampleEnvelope (by decide) hkey
  opens := by
    intro shape row key hkey
    obtain ⟨cs, hcs, hshown, -, -⟩ := chars_of_isFileKey hkey
    have hlit : lit (shown key) = key := by rw [hshown, lit, String.toList_ofList, hcs]
    have hopen : sampleSession.openOne shape
        (toScript sampleReader (sampleEnvelope (sampleDigits 32 '2') shape key)) = .ok (lit (shown key)) := by
      cases shape <;> rfl
    have hmember : memberOf shape
        (some (toScript sampleReader (sampleEnvelope (sampleDigits 32 '2') shape key))) = true := by
      cases shape <;> rfl
    change (if memberOf shape (some (toScript sampleReader (sampleEnvelope (sampleDigits 32 '2') shape key)))
      then _ else _) = _
    rw [if_pos hmember, hopen, hlit]
    exact Option.filter_some_pos hkey

def sampleCaller : User :=
  ⟨Server.lower "alice", "alice", some "alice", some "public key", none, some (sampleDigits 32 '2'), none, none, 0,
    none, false⟩

/-- Alice holds grants with the given keys. -/
def sampleHolding (keys : List Document) : Database where
  __ := Database.empty
  users := ⟨[sampleCaller], List.nodup_singleton _⟩
  accessGrants := Tables.Serial.empty.insertAll (fun key id => ⟨id, id, Server.lower "alice", key, 0, none⟩)
    (fun _ _ => rfl) keys

theorem getCurrentUser_sampleHolding (keys : List Document) :
    Server.getCurrentUser (sampleHolding keys) sampleSession.token = .ok sampleCaller := rfl

/-- A key sealed to the retired key, one sealed to a key that is gone, and one under the current key. -/
def sampleKeys : List Document :=
  [.json (sampleEnvelope (sampleDigits 32 '1') .encKey (lit (sampleDigits 64 'a'))),
    .json (sampleEnvelope (sampleDigits 32 '3') .content (lit (sampleDigits 64 'b'))),
    .json (sampleEnvelope (sampleDigits 32 '2') .content (lit (sampleDigits 64 'c')))]

theorem readable_of_json (kind : WrapKind) (id : ℕ) (v : Json.Value) :
    (⟨kind, id, .json v⟩ : StaleWrap).Readable := by
  unfold StaleWrap.Readable Server.wrappedKeyId
  simp only [Option.map_some, Document.loads]
  split <;> exact ⟨_, rfl⟩

theorem overshadowed_sample (kid : String) (shape : WrapShape) (key : Text) (id : ℕ) :
    sampleSession.overshadowed ⟨.grant, id, .json (sampleEnvelope kid shape key)⟩ = false := by
  cases shape with
  | encKey =>
    have hmember : memberOf .content
        (sampleSession.parseJson (.json (sampleEnvelope kid .encKey key))) = false := rfl
    rw [overshadowed, hmember, Bool.and_false, Bool.false_and]
  | content =>
    have hmember : memberOf .encKey
        (sampleSession.parseJson (.json (sampleEnvelope kid .content key))) = false := rfl
    rw [overshadowed, opensTo_eq, hmember]
    rfl

theorem movable_sample : sampleSession.Movable (sampleHolding sampleKeys) sampleCaller := by
  have hheld : ∀ w ∈ sampleSession.heldBy (sampleHolding sampleKeys) sampleCaller, ∃ id kid shape key,
      w = ⟨.grant, id, .json (sampleEnvelope kid shape key)⟩ :=
    List.forall_mem_cons.mpr ⟨⟨_, _, _, _, rfl⟩, List.forall_mem_cons.mpr ⟨⟨_, _, _, _, rfl⟩,
      List.forall_mem_cons.mpr ⟨⟨_, _, _, _, rfl⟩, fun _ hw => absurd hw List.not_mem_nil⟩⟩⟩
  refine ⟨fun w hw => ?_, fun w hw => ?_, fun w hw => ?_⟩
  · obtain ⟨id, kid, shape, key, rfl⟩ := hheld w hw
    exact readable_of_json _ _ _
  · obtain ⟨id, kid, shape, key, rfl⟩ := hheld w (List.mem_filter.mp hw).1
    rfl
  · obtain ⟨id, kid, shape, key, rfl⟩ := hheld w (List.mem_filter.mp hw).1
    exact overshadowed_sample kid shape key id

theorem stale_keys_moved_iff_sample : ∃ fuel p,
    sampleSession.rewrapStaleKeys fuel (sampleHolding sampleKeys) = some (.ok p) ∧
      sampleSession.Moved (sampleHolding sampleKeys) sampleCaller p :=
  (stale_keys_moved_iff sampleSession (sampleHolding sampleKeys) sampleCaller
    (getCurrentUser_sampleHolding sampleKeys) seals_sampleSession).mpr movable_sample

/-- A grant whose key is the text of a number. -/
theorem not_stale_keys_moved : ¬ ∀ (s : RewrapSession) (db₀ : Database) (caller : User),
    Server.getCurrentUser db₀ s.token = .ok caller → s.Seals caller.encryptionKeyId →
      ∃ fuel p, s.rewrapStaleKeys fuel db₀ = some (.ok p) ∧ s.Moved db₀ caller p := by
  intro h
  obtain ⟨fuel, p, hloop, -⟩ := h sampleSession (sampleHolding [.json (.int 5)]) sampleCaller
    (getCurrentUser_sampleHolding _) seals_sampleSession
  cases fuel with
  | zero => cases hloop
  | succ fuel =>
    have hturn : sampleSession.turn ⟨sampleHolding [.json (.int 5)], 0, 0⟩ = .error .typeError := rfl
    rw [rewrapStaleKeys, loop, hturn] at hloop
    cases hloop

end RewrapSession

end Kryptolog.Client
