import Kryptolog.Client.Messages

/-! # Trust on first use

The store of `trustedKeys.js`: the encryption key first seen for each contact, and the contacts seen attested.
What is stored may be any JSON, left by an older version or by hand.
-/

namespace Kryptolog.Client
set_option autoImplicit false

open Script

/-! ## Stored maps -/

namespace TrustStore

/-- `load`, of what `JSON.parse` makes of the stored text: the records under the names that are addresses. -/
def load : Option Value → List (Text × Value)
  | some (.obj fields) => fields.filter fun f => isAddress (.str f.1)
  | _ => []

/-- `save`, as it is read back. -/
def save (map : List (Text × Value)) : Option Value := some (.obj map)

/-- `map[name] = v`. -/
def put (map : List (Text × Value)) (name : Text) (v : Value) : List (Text × Value) :=
  if (map.lookup name).isSome then map.map fun f => if f.1 = name then (name, v) else f else map ++ [(name, v)]

/-- `load(store)[norm(address)]`. -/
def recordOf (stored : Option Value) (address : Text) : Option Value := (load stored).lookup (toLowerCase address)

/-- The record that a key is entered with, the time of the first kept. -/
def remember (now : Number) (stored : Option Value) (address key : Text) : Option Value :=
  let existing := recordOf stored address
  save (put (load stored) (toLowerCase address) (.obj
    [(lit "key", .str key),
      (lit "firstSeen", ((existing.bind (·.get "firstSeen")).filter Value.truthy).getD (.num now)),
      (lit "updatedAt", .num now)]))

theorem lookup_replace (map : List (Text × Value)) (name : Text) (v : Value) (b : Text) :
    (map.map fun f => if f.1 = name then (name, v) else f).lookup b =
      if b = name then (map.lookup b).map fun _ => v else map.lookup b := by
  induction map with
  | nil => simp
  | cons f map ih =>
    obtain ⟨k, w⟩ := f
    rw [List.map_cons]
    by_cases hk : k = name
    · subst hk
      by_cases hb : b = k
      · subst hb
        simp
      · have hne : (b == k) = false := by simpa using hb
        simpa [List.lookup_cons, hne, hb] using ih
    · by_cases hb : b = k
      · subst hb
        simp [hk]
      · have hne : (b == k) = false := by simpa using hb
        simpa [List.lookup_cons, hne, hk] using ih

theorem lookup_put (map : List (Text × Value)) (name : Text) (v : Value) (b : Text) :
    (put map name v).lookup b = if b = name then some v else map.lookup b := by
  rw [put]
  split
  · next hsome =>
    rw [lookup_replace]
    by_cases hb : b = name
    · subst hb
      obtain ⟨w, hw⟩ := Option.isSome_iff_exists.mp hsome
      simp [hw]
    · simp [hb]
  · next hnone =>
    have hnone : map.lookup name = none := Option.not_isSome_iff_eq_none.mp hnone
    rw [List.lookup_append]
    by_cases hb : b = name
    · subst hb
      simp [hnone]
    · have hne : (b == name) = false := by simpa using hb
      simp [List.lookup_cons, hne, hb]

/-- Every name of the map is an address. -/
def Addressed (map : List (Text × Value)) : Prop := ∀ f ∈ map, isAddress (.str f.1) = true

theorem addressed_load (stored : Option Value) : Addressed (load stored) := by
  intro f hf
  unfold load at hf
  split at hf
  · exact (List.mem_filter.mp hf).2
  · cases hf

theorem Addressed.put {map : List (Text × Value)} (h : Addressed map) {name : Text} (v : Value)
    (hname : isAddress (.str name) = true) : Addressed (TrustStore.put map name v) := by
  intro f hf
  rw [TrustStore.put] at hf
  split at hf
  · obtain ⟨g, hg, rfl⟩ := List.mem_map.mp hf
    split
    · exact hname
    · exact h g hg
  · rcases List.mem_append.mp hf with hf | hf
    · exact h f hf
    · rw [List.mem_singleton.mp hf]
      exact hname

theorem load_save {map : List (Text × Value)} (h : Addressed map) : load (save map) = map :=
  List.filter_eq_self.mpr h

theorem lookup_eq_none {map : List (Text × Value)} (h : Addressed map) {name : Text}
    (hname : isAddress (.str name) = false) : map.lookup name = none := by
  rw [List.lookup_eq_none_iff]
  intro f hf
  have := h f hf
  by_contra heq
  have heq : name = f.1 := by simpa using heq
  rw [heq, this] at hname
  cases hname

theorem lookup_filter_address (fields : List (Text × Value)) {name : Text} (h : isAddress (.str name) = true) :
    (fields.filter fun f => isAddress (.str f.1)).lookup name = fields.lookup name := by
  induction fields with
  | nil => rfl
  | cons f fields ih =>
    by_cases hf : isAddress (.str f.1) = true
    · rw [List.filter_cons, if_pos hf, List.lookup_cons, List.lookup_cons, ih]
    · have hne : (name == f.1) = false := by
        have : name ≠ f.1 := by
          rintro rfl
          exact hf h
        simpa using this
      rw [List.filter_cons, if_neg hf, ih, List.lookup_cons, hne]

/-- A record is found under an address only. -/
theorem recordOf_eq_some {stored : Option Value} {address : Text} {r : Value}
    (h : recordOf stored address = some r) : isAddress (.str (toLowerCase address)) = true := by
  cases haddress : isAddress (.str (toLowerCase address)) with
  | true => rfl
  | false =>
    rw [recordOf, lookup_eq_none (addressed_load stored) haddress] at h
    cases h

theorem recordOf_save_put {stored : Option Value} (name : Text) (v : Value) {address : Text}
    (haddress : isAddress (.str (toLowerCase address)) = true) :
    recordOf (save (put (load stored) name v)) address =
      if toLowerCase address = name then some v else recordOf stored address := by
  refine (lookup_filter_address _ haddress).trans ?_
  rw [lookup_put]
  rfl

end TrustStore

open TrustStore

/-! ## Pinned keys -/

inductive KeyState
  | new
  | unchanged
  | changed
  deriving DecidableEq

/-- A record of the directory. A text that is not served reads as the empty one. -/
structure Contact where
  address : Text
  encryptionPublicKey : Text
  identityPublicKey : Text
  encryptionKeyAttestation : Text

/-- Hexadecimal digits, or nothing. -/
def IsHexText (s : Text) : Prop := Text.consistsOf Server.isLowerHexDigit s = true

instance (s : Text) : Decidable (IsHexText s) := inferInstanceAs (Decidable (_ = true))

/-- What the server has checked of a record. -/
def Contact.IsServed (c : Contact) : Prop := isHexOfLength 96 c.address = true ∧ IsHexText c.encryptionPublicKey

instance (c : Contact) : Decidable c.IsServed := inferInstanceAs (Decidable (_ ∧ _))

section pins

variable (now : Number) (stored : Option Value)

def checkContactKey (address encryptionPublicKey : Text) : KeyState :=
  if encryptionPublicKey.isEmpty then .unchanged
  else match (recordOf stored address).filter Value.truthy with
    | none => .new
    | some r => if (r.get "key").any (isString (· == encryptionPublicKey)) then .unchanged else .changed

def pinnedKeyOf (address : Text) : Option Value :=
  ((recordOf stored address).bind (·.get "key")).filter fun v => !isNullish v

def trustContactKey (address encryptionPublicKey : Text) : Option Value :=
  if encryptionPublicKey.isEmpty then stored else remember now stored address encryptionPublicKey

def pinContactKey (user : Contact) : Option Value × KeyState :=
  let state := checkContactKey stored user.address user.encryptionPublicKey
  (if state = .new then trustContactKey now stored user.address user.encryptionPublicKey else stored, state)

/-- `assertKeyUnchanged`, and whether it does not throw. -/
def assertKeyUnchanged (user : Contact) : Option Value × Bool :=
  let (stored, state) := pinContactKey now stored user
  (stored, state != .changed)

end pins

/-! ## Import -/

def isRecord (r : Value) : Bool := (r.get "key").any (isString fun _ => true)

/-- One entry of an import: a record enters where none is. -/
def importEntry (map : List (Text × Value)) (entry : Text × Value) : List (Text × Value) :=
  let a := toLowerCase entry.1
  if isAddress (.str a) && isRecord entry.2 && !(map.lookup a).any Value.truthy then put map a entry.2 else map

/-- One store of an import. The entries of an array are named by numbers, which are no addresses. -/
def importStore (stored : Option Value) : Option Value → Option Value
  | some (.obj fields) => TrustStore.save (fields.foldl importEntry (TrustStore.load stored))
  | some (.arr _) => TrustStore.save (TrustStore.load stored)
  | _ => stored

/-- What `localStorage` holds under `STORE_KEY` and `ATTEST_KEY`, where it is JSON. -/
structure TrustStores where
  keys : Option Value
  attested : Option Value

def importTrustStores (data : Option Value) (s : TrustStores) : TrustStores :=
  ⟨importStore s.keys (data.bind (·.get "keys")), importStore s.attested (data.bind (·.get "attested"))⟩

/-! ## Attestation -/

inductive AttestationStatus
  | verified
  | unattested
  | invalid
  | downgraded
  deriving DecidableEq

/-- Whose client it is, and the check of an attestation: of an address, an identity key, an encryption key and
the attestation. -/
structure TrustGate where
  me : Text
  verifyEncryptionKeyAttestation : Text → Text → Text → Text → Bool

namespace TrustGate

variable (gate : TrustGate) (now : Number)

def attestationStatus (user : Contact) : AttestationStatus :=
  if user.encryptionPublicKey.isEmpty || user.encryptionKeyAttestation.isEmpty then .unattested
  else if user.identityPublicKey.isEmpty then .unattested
  else if gate.verifyEncryptionKeyAttestation (toLowerCase user.address) user.identityPublicKey
    user.encryptionPublicKey user.encryptionKeyAttestation then .verified
  else .invalid

def rememberAttested (stored : Option Value) (address encryptionPublicKey : Text) : Option Value :=
  if (toLowerCase address).isEmpty then stored else remember now stored address encryptionPublicKey

def wasEverAttested (s : TrustStores) (address : Text) : Bool := (recordOf s.attested address).any Value.truthy

def attestationVerdict (s : TrustStores) (user : Contact) : TrustStores × AttestationStatus :=
  match gate.attestationStatus user with
  | .verified =>
    ({ s with attested := rememberAttested now s.attested user.address user.encryptionPublicKey }, .verified)
  | .unattested => (s, if wasEverAttested s user.address then .downgraded else .unattested)
  | status => (s, status)

/-- `assertSafeRecipient`, and whether it does not throw. -/
def assertSafeRecipient (s : TrustStores) (user : Contact) : TrustStores × Bool :=
  let (s, verdict) := gate.attestationVerdict now s user
  (s, verdict = .verified)

/-! ## Uses -/

/-- The gate of `sendMessage`. -/
def sendGate (s : TrustStores) (user : Contact) : TrustStores × Bool :=
  if user.encryptionPublicKey.isEmpty then (s, false)
  else
    let (s, safe) := gate.assertSafeRecipient now s user
    if safe then
      let (keys, unchanged) := assertKeyUnchanged now s.keys user
      ({ s with keys := keys }, unchanged)
    else (s, false)

/-- `gateGroupMembers` on one member: whether a key is wrapped for it. -/
def gateMember (s : TrustStores) (user : Contact) : TrustStores × Bool :=
  if user.encryptionPublicKey.isEmpty then (s, false)
  else
    let (s, verdict) := gate.attestationVerdict now s user
    if verdict ≠ .verified then (s, false)
    else if user.address = toLowerCase gate.me then (s, true)
    else
      let (keys, state) := pinContactKey now s.keys user
      ({ s with keys := keys }, state != .changed)

/-- The verdict that the share dialog asks for: it blocks an invalid and a downgraded one. -/
def shareGate (s : TrustStores) (user : Contact) : TrustStores × Bool :=
  let (s, verdict) := gate.attestationVerdict now s user
  (s, verdict != .invalid && verdict != .downgraded)

end TrustGate

/-- What a client does with its stores. -/
inductive TrustEvent
  | send (user : Contact)
  | member (user : Contact)
  /-- `assertSafeRecipient` alone, before a name, a workflow or its release. -/
  | recipient (user : Contact)
  | share (user : Contact)
  | import_ (data : Option Value)
  /-- `trustContactKey`: the button of the key panel, and the record of a share that the user asked for. -/
  | confirm (address encryptionPublicKey : Text)

namespace TrustEvent

/-- The stores after an event, and whether it accepts the contact. -/
def step (gate : TrustGate) (now : Number) (s : TrustStores) : TrustEvent → TrustStores × Bool
  | send user => gate.sendGate now s user
  | member user => gate.gateMember now s user
  | recipient user => gate.assertSafeRecipient now s user
  | share user => gate.shareGate now s user
  | import_ data => (importTrustStores data s, false)
  | confirm address key => ({ s with keys := trustContactKey now s.keys address key }, false)

/-- The contact that an event asks to accept. -/
def contact : TrustEvent → Option Contact
  | send user | member user | recipient user | share user => some user
  | import_ _ | confirm _ _ => none

/-- The key that an event confirms for an address. -/
def confirmed (address : Text) : TrustEvent → Option Value
  | confirm address' key => if toLowerCase address' = toLowerCase address ∧ key ≠ [] then some (.str key) else none
  | _ => none

/-- Events, each at its time. -/
def run (gate : TrustGate) (s : TrustStores) (events : List (Number × TrustEvent)) : TrustStores :=
  events.foldl (fun s e => (e.2.step gate e.1 s).1) s

end TrustEvent

/-! ## What the operations keep -/

section keeps

variable {gate : TrustGate} {now : Number} {stored : Option Value} {s : TrustStores} {address : Text}
  {key r : Value} {user : Contact}

/-- A pinned key is in a record. -/
theorem pinnedKeyOf_eq_some : pinnedKeyOf stored address = some key ↔
    ∃ r, recordOf stored address = some r ∧ r.truthy = true ∧ r.get "key" = some key ∧ isNullish key = false := by
  rw [pinnedKeyOf, Option.filter_eq_some_iff, Option.bind_eq_some_iff]
  constructor
  · rintro ⟨⟨r, hr, hkey⟩, hnull⟩
    have htruthy : r.truthy = true := by
      cases r with
      | obj fields => rfl
      | _ => cases hkey
    exact ⟨r, hr, htruthy, hkey, by simpa using hnull⟩
  · rintro ⟨r, hr, -, hkey, hnull⟩
    exact ⟨⟨r, hr, hkey⟩, by simpa using hnull⟩

/-- The records of other addresses stay. -/
theorem recordOf_remember_ne (user key : Text) (h : toLowerCase address ≠ toLowerCase user) :
    recordOf (remember now stored user key) address = recordOf stored address := by
  cases haddress : isAddress (.str (toLowerCase address)) with
  | true => rw [remember, recordOf_save_put _ _ haddress, if_neg h]
  | false =>
    have hnone : ∀ stored, recordOf stored address = none := fun stored =>
      lookup_eq_none (addressed_load stored) haddress
    rw [hnone, hnone]

/-- The record of an address holds the key that is remembered. -/
theorem recordOf_remember (now : Number) (stored : Option Value) (user key : Text)
    (haddress : isAddress (.str (toLowerCase address)) = true) (h : toLowerCase address = toLowerCase user) :
    ∃ r, recordOf (remember now stored user key) address = some r ∧ r.truthy = true ∧
      r.get "key" = some (.str key) := by
  rw [remember, recordOf_save_put _ _ haddress, if_pos h]
  exact ⟨_, rfl, rfl, rfl⟩

/-- A confirmed key replaces the pinned one, for its address. -/
theorem pinnedKeyOf_trustContactKey (user text : Text) (h : pinnedKeyOf stored address = some key) :
    pinnedKeyOf (trustContactKey now stored user text) address =
      some (((TrustEvent.confirm user text).confirmed address).getD key) := by
  obtain ⟨r, hr, htruthy, hkey, hnull⟩ := pinnedKeyOf_eq_some.mp h
  rw [trustContactKey, TrustEvent.confirmed]
  by_cases htext : text = []
  · subst htext
    simp [h]
  · have hempty : text.isEmpty = false := by simpa using htext
    rw [hempty, if_neg Bool.false_ne_true]
    by_cases huser : toLowerCase user = toLowerCase address
    · rw [if_pos ⟨huser, htext⟩, pinnedKeyOf_eq_some]
      obtain ⟨r', hr', htruthy', hkey'⟩ :=
        recordOf_remember now stored user text (recordOf_eq_some hr) huser.symm
      exact ⟨r', hr', htruthy', hkey', rfl⟩
    · rw [if_neg (fun h => huser h.1), pinnedKeyOf, recordOf_remember_ne _ _ (Ne.symm huser)]
      exact h

/-- A first use pins no key over another. -/
theorem pinnedKeyOf_pinContactKey (h : pinnedKeyOf stored address = some key) :
    pinnedKeyOf (pinContactKey now stored user).1 address = some key := by
  rw [pinContactKey]
  split
  · next hnew =>
    have hne : toLowerCase user.address ≠ toLowerCase address := by
      intro heq
      obtain ⟨r, hr, htruthy, -⟩ := pinnedKeyOf_eq_some.mp h
      rw [recordOf, ← heq] at hr
      rw [checkContactKey, recordOf, hr, Option.filter_some, htruthy] at hnew
      simp only [if_true] at hnew
      split at hnew
      · cases hnew
      · split at hnew <;> cases hnew
    rw [pinnedKeyOf_trustContactKey _ _ h, TrustEvent.confirmed, if_neg (fun h => hne h.1)]
    rfl
  · exact h

/-- One entry of an import keeps the records that are there. -/
theorem lookup_importEntry {map : List (Text × Value)} {name : Text} (entry : Text × Value)
    (h : map.lookup name = some r) (htruthy : r.truthy = true) :
    (importEntry map entry).lookup name = some r := by
  simp only [importEntry]
  split
  · next hnew =>
    have hne : name ≠ toLowerCase entry.1 := by
      rintro rfl
      simp [h, htruthy] at hnew
    rw [lookup_put, if_neg hne, h]
  · exact h

theorem lookup_importEntries {map : List (Text × Value)} {name : Text} (entries : List (Text × Value))
    (h : map.lookup name = some r) (htruthy : r.truthy = true) :
    (entries.foldl importEntry map).lookup name = some r := by
  induction entries generalizing map with
  | nil => exact h
  | cons entry entries ih => exact ih (lookup_importEntry entry h htruthy)

theorem addressed_importEntries {map : List (Text × Value)} (h : Addressed map) (entries : List (Text × Value)) :
    Addressed (entries.foldl importEntry map) := by
  induction entries generalizing map with
  | nil => exact h
  | cons entry entries ih =>
    refine ih ?_
    simp only [importEntry]
    split
    · next hnew => exact h.put _ (by simp_all)
    · exact h

/-- An import keeps the records that are there. -/
theorem recordOf_importStore (incoming : Option Value) (h : recordOf stored address = some r)
    (htruthy : r.truthy = true) : recordOf (importStore stored incoming) address = some r := by
  unfold importStore
  split
  · next fields =>
    rw [recordOf, load_save (addressed_importEntries (addressed_load stored) fields)]
    exact lookup_importEntries fields h htruthy
  · rw [recordOf, load_save (addressed_load stored)]
    exact h
  · exact h

/-- An entry that an import leaves out: it is no record of an address, or the address has one. -/
def Settled (map : List (Text × Value)) (entry : Text × Value) : Prop :=
  (isAddress (.str (toLowerCase entry.1)) && isRecord entry.2) = true →
    ∃ r, map.lookup (toLowerCase entry.1) = some r ∧ r.truthy = true

variable {map : List (Text × Value)} {entry : Text × Value} {entries : List (Text × Value)}

theorem truthy_of_isRecord {v : Value} (h : isRecord v = true) : v.truthy = true := by
  cases v with
  | obj fields => rfl
  | _ => cases h

theorem Settled.importEntry_eq (h : Settled map entry) : importEntry map entry = map := by
  simp only [importEntry]
  split
  · next hnew =>
    obtain ⟨hentry, hnone⟩ := Bool.and_eq_true_iff.mp hnew
    obtain ⟨r, hr, htruthy⟩ := h hentry
    simp [hr, htruthy] at hnone
  · rfl

theorem settled_importEntry : Settled (importEntry map entry) entry := by
  intro hentry
  simp only [importEntry, hentry, Bool.true_and]
  split
  · refine ⟨entry.2, ?_, truthy_of_isRecord (Bool.and_eq_true_iff.mp hentry).2⟩
    rw [lookup_put, if_pos rfl]
  · next hsome =>
    simpa [Option.any_eq_true] using hsome

theorem Settled.importEntries (h : Settled map entry) : Settled (entries.foldl importEntry map) entry := by
  intro hentry
  obtain ⟨r, hr, htruthy⟩ := h hentry
  exact ⟨r, lookup_importEntries entries hr htruthy, htruthy⟩

theorem settled_importEntries : ∀ entry ∈ entries, Settled (entries.foldl importEntry map) entry := by
  induction entries generalizing map with
  | nil => simp
  | cons e entries ih =>
    rw [List.foldl_cons]
    exact List.forall_mem_cons.mpr ⟨settled_importEntry.importEntries, ih⟩

theorem importEntries_eq (h : ∀ entry ∈ entries, Settled map entry) : entries.foldl importEntry map = map := by
  induction entries with
  | nil => rfl
  | cons e entries ih =>
    obtain ⟨he, hentries⟩ := List.forall_mem_cons.mp h
    rw [List.foldl_cons, he.importEntry_eq]
    exact ih hentries

theorem importStore_importStore (incoming : Option Value) :
    importStore (importStore stored incoming) incoming = importStore stored incoming := by
  cases incoming with
  | none => rfl
  | some v =>
    cases v with
    | obj fields =>
      simp only [importStore]
      rw [load_save (addressed_importEntries (addressed_load stored) fields),
        importEntries_eq settled_importEntries]
    | arr items =>
      simp only [importStore]
      rw [load_save (addressed_load stored)]
    | _ => rfl

/-! ### Attestation -/

theorem attestationVerdict_keys : (gate.attestationVerdict now s user).1.keys = s.keys := by
  unfold TrustGate.attestationVerdict
  split <;> rfl

theorem wasEverAttested_iff : TrustGate.wasEverAttested s address = true ↔
    ∃ r, recordOf s.attested address = some r ∧ r.truthy = true := by
  rw [TrustGate.wasEverAttested, Option.any_eq_true]

/-- A contact that was seen attested stays so. -/
theorem wasEverAttested_attestationVerdict (h : TrustGate.wasEverAttested s address = true) :
    TrustGate.wasEverAttested (gate.attestationVerdict now s user).1 address = true := by
  unfold TrustGate.attestationVerdict
  split
  · obtain ⟨r, hr, htruthy⟩ := wasEverAttested_iff.mp h
    rw [wasEverAttested_iff, TrustGate.rememberAttested]
    split
    · exact ⟨r, hr, htruthy⟩
    · by_cases haddress : toLowerCase address = toLowerCase user.address
      · obtain ⟨r', hr', htruthy', -⟩ := recordOf_remember now s.attested user.address
          user.encryptionPublicKey (recordOf_eq_some hr) haddress
        exact ⟨r', hr', htruthy'⟩
      · exact ⟨r, (recordOf_remember_ne _ _ haddress).trans hr, htruthy⟩
  · exact h
  · exact h

/-- A contact that was seen attested is downgraded when it is served unattested. -/
theorem attestationVerdict_downgraded (h : TrustGate.wasEverAttested s user.address = true)
    (hunattested : gate.attestationStatus user = .unattested) :
    gate.attestationVerdict now s user = (s, .downgraded) := by
  rw [TrustGate.attestationVerdict, hunattested]
  simp [h]

/-! ### Events -/

variable {event : TrustEvent}

/-- The stores after a gate: those after the verdict, or with a first use pinned. -/
theorem sendGate_stores : (gate.sendGate now s user).1 = s ∨
    (gate.sendGate now s user).1 = (gate.attestationVerdict now s user).1 ∨
    (gate.sendGate now s user).1 =
      { (gate.attestationVerdict now s user).1 with keys := (pinContactKey now s.keys user).1 } := by
  rw [TrustGate.sendGate]
  split
  · exact .inl rfl
  · simp only
    split
    · refine .inr (.inr ?_)
      rw [show s.keys = (gate.attestationVerdict now s user).1.keys from attestationVerdict_keys.symm]
      rfl
    · exact .inr (.inl rfl)

theorem gateMember_stores : (gate.gateMember now s user).1 = s ∨
    (gate.gateMember now s user).1 = (gate.attestationVerdict now s user).1 ∨
    (gate.gateMember now s user).1 =
      { (gate.attestationVerdict now s user).1 with keys := (pinContactKey now s.keys user).1 } := by
  rw [TrustGate.gateMember]
  split
  · exact .inl rfl
  · simp only
    split
    · exact .inr (.inl rfl)
    · split
      · exact .inr (.inl rfl)
      · refine .inr (.inr ?_)
        rw [show s.keys = (gate.attestationVerdict now s user).1.keys from attestationVerdict_keys.symm]

/-- One event changes the pinned key of an address to what it confirms. -/
theorem pinnedKeyOf_step (h : pinnedKeyOf s.keys address = some key) :
    pinnedKeyOf (event.step gate now s).1.keys address = some ((event.confirmed address).getD key) := by
  have hgate : ∀ {s' : TrustStores} {user : Contact}, s' = s ∨ s' = (gate.attestationVerdict now s user).1 ∨
      s' = { (gate.attestationVerdict now s user).1 with keys := (pinContactKey now s.keys user).1 } →
        pinnedKeyOf s'.keys address = some key := by
    rintro s' user (rfl | rfl | rfl)
    · exact h
    · rw [attestationVerdict_keys]
      exact h
    · exact pinnedKeyOf_pinContactKey h
  cases event with
  | send user => exact hgate sendGate_stores
  | member user => exact hgate gateMember_stores
  | recipient user => exact hgate (.inr (.inl rfl))
  | share user => exact hgate (.inr (.inl rfl))
  | import_ data =>
    obtain ⟨r, hr, htruthy, hkey, hnull⟩ := pinnedKeyOf_eq_some.mp h
    exact pinnedKeyOf_eq_some.mpr ⟨r, recordOf_importStore _ hr htruthy, htruthy, hkey, hnull⟩
  | confirm user text => exact pinnedKeyOf_trustContactKey user text h

/-- No event forgets that a contact was seen attested. -/
theorem wasEverAttested_step (h : TrustGate.wasEverAttested s address = true) :
    TrustGate.wasEverAttested (event.step gate now s).1 address = true := by
  have hgate : ∀ {s' : TrustStores} {user : Contact}, s' = s ∨ s' = (gate.attestationVerdict now s user).1 ∨
      s' = { (gate.attestationVerdict now s user).1 with keys := (pinContactKey now s.keys user).1 } →
        TrustGate.wasEverAttested s' address = true := by
    rintro s' user (rfl | rfl | rfl)
    · exact h
    · exact wasEverAttested_attestationVerdict h
    · exact wasEverAttested_attestationVerdict h
  cases event with
  | send user => exact hgate sendGate_stores
  | member user => exact hgate gateMember_stores
  | recipient user => exact hgate (.inr (.inl rfl))
  | share user => exact hgate (.inr (.inl rfl))
  | import_ data =>
    obtain ⟨r, hr, htruthy⟩ := wasEverAttested_iff.mp h
    exact wasEverAttested_iff.mpr ⟨r, recordOf_importStore _ hr htruthy, htruthy⟩
  | confirm user text => exact h

/-- No event accepts an unattested key of a contact that was seen attested. -/
theorem step_refuses (h : TrustGate.wasEverAttested s user.address = true) (hcontact : event.contact = some user)
    (hunattested : gate.attestationStatus user = .unattested) : (event.step gate now s).2 = false := by
  have hverdict : gate.attestationVerdict now s user = (s, .downgraded) :=
    attestationVerdict_downgraded h hunattested
  cases event with
  | send user' =>
    obtain rfl : user' = user := Option.some.inj hcontact
    simp [TrustEvent.step, TrustGate.sendGate, TrustGate.assertSafeRecipient, hverdict]
  | member user' =>
    obtain rfl : user' = user := Option.some.inj hcontact
    simp [TrustEvent.step, TrustGate.gateMember, hverdict]
  | recipient user' =>
    obtain rfl : user' = user := Option.some.inj hcontact
    simp [TrustEvent.step, TrustGate.assertSafeRecipient, hverdict]
  | share user' =>
    obtain rfl : user' = user := Option.some.inj hcontact
    simp [TrustEvent.step, TrustGate.shareGate, hverdict]
  | import_ data => cases hcontact
  | confirm user' text => cases hcontact

variable {events : List (Number × TrustEvent)}

theorem run_append (event : Number × TrustEvent) : TrustEvent.run gate s (events ++ [event]) =
    (event.2.step gate event.1 (TrustEvent.run gate s events)).1 := by
  rw [TrustEvent.run, List.foldl_append]
  rfl

theorem pinnedKeyOf_run (h : pinnedKeyOf s.keys address = some key) :
    pinnedKeyOf (TrustEvent.run gate s events).keys address =
      some ((events.reverse.findSome? (·.2.confirmed address)).getD key) := by
  induction events using List.reverseRecOn with
  | nil => exact h
  | append_singleton events event ih =>
    rw [run_append, pinnedKeyOf_step ih, List.reverse_append, List.reverse_singleton, List.singleton_append,
      List.findSome?_cons]
    cases event.2.confirmed address <;> rfl

theorem wasEverAttested_run (h : TrustGate.wasEverAttested s address = true) :
    TrustGate.wasEverAttested (TrustEvent.run gate s events) address = true := by
  induction events using List.reverseRecOn with
  | nil => exact h
  | append_singleton events event ih =>
    rw [run_append]
    exact wasEverAttested_step ih

end keeps

/-- The pinned key of a contact is the one confirmed last, and the one pinned before where none is; an import
keeps every pin and is idempotent; and no event accepts an unattested key of a contact that was seen attested. -/
theorem trust_on_first_use (gate : TrustGate) (s : TrustStores) (events : List (Number × TrustEvent)) :
    (∀ address key, pinnedKeyOf s.keys address = some key →
      pinnedKeyOf (TrustEvent.run gate s events).keys address =
        some ((events.reverse.findSome? (·.2.confirmed address)).getD key)) ∧
    (∀ data, (∀ address key, pinnedKeyOf s.keys address = some key →
        pinnedKeyOf (importTrustStores data s).keys address = some key) ∧
      importTrustStores data (importTrustStores data s) = importTrustStores data s) ∧
    ∀ address, TrustGate.wasEverAttested s address = true → ∀ (now : Number) (event : TrustEvent) (user : Contact),
      event.contact = some user → toLowerCase user.address = toLowerCase address →
        gate.attestationStatus user = .unattested →
          (event.step gate now (TrustEvent.run gate s events)).2 = false := by
  refine ⟨fun address key h => pinnedKeyOf_run h, fun data => ⟨fun address key h => ?_, ?_⟩, ?_⟩
  · obtain ⟨r, hr, htruthy, hkey, hnull⟩ := pinnedKeyOf_eq_some.mp h
    exact pinnedKeyOf_eq_some.mpr ⟨r, recordOf_importStore _ hr htruthy, htruthy, hkey, hnull⟩
  · rw [importTrustStores, importTrustStores, importStore_importStore, importStore_importStore]
  · intro address h now event user hcontact haddress hunattested
    have hrun : TrustGate.wasEverAttested (TrustEvent.run gate s events) address = true := wasEverAttested_run h
    refine step_refuses ?_ hcontact hunattested
    rw [TrustGate.wasEverAttested, recordOf] at hrun ⊢
    rwa [haddress]

end Kryptolog.Client
