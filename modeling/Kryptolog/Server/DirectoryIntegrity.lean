import Kryptolog.Server.Identity
import Kryptolog.Server.WorkflowInvariant

/-! # The directory over runs

Challenges, logins, logouts, rotations and deletions, one after the other. Every row that these
leave names the key that its address is the hash of, and its encryption key is there with its
suite, its id and an attestation that verifies, or not at all.
-/

namespace Kryptolog.Server
set_option autoImplicit false

open Tables Json Fallible Runs

inductive DirectoryRequest
  | getNonce (address value : String)
  | login (admitted : Bool) (req : LoginRequest)
  | logout
  | rotate (req : KeyRotationRequest)
  | deleteAccount (mode : Mode) (req : EraseRequest)

structure DirectoryCall where
  now : Time
  token : Token
  request : DirectoryRequest

/-- The records of an account that was erased go with it. -/
def dropRotations (d : Directory) (a : Address) (mode : Mode) :
    Except Fault EraseResponse → Serial EncryptionKeyRotation
  | .ok response =>
    if mode = .erase ∧ response.status = .deleted then d.rotations.delete (·.userAddress == a)
    else d.rotations
  | .error _ => d.rotations

/-- An endpoint that needs a token. -/
def serveCaller (prim : KeyPrimitives) (cfg : Config) (d : Directory) (now : Time) (caller : User) :
    DirectoryRequest → Directory
  | .logout => { d with toDatabase := Kryptolog.Server.logout d.toDatabase caller }
  | .rotate req => (Kryptolog.Server.rotate prim d now caller req).toOption.getD d
  | .deleteAccount mode req =>
    let (db, answer) := performDeletion prim.toPrimitives cfg d.toDatabase now caller mode req
    { toDatabase := db, rotations := dropRotations d caller.address mode answer }
  | .getNonce _ _ | .login _ _ => d

/-- What a request commits. -/
def serveDirectory (prim : KeyPrimitives) (cfg : Config) (d : Directory) (call : DirectoryCall) :
    Directory :=
  match call.request with
  | .getNonce address value =>
    { d with toDatabase := (committed d.toDatabase (getNonce d.toDatabase call.now address value)).1 }
  | .login admitted req =>
    { d with toDatabase := (login prim cfg d.toDatabase call.now admitted req).1 }
  | request =>
    match getCurrentUser d.toDatabase call.token with
    | .error _ => d
    | .ok caller => serveCaller prim cfg d call.now caller request

inductive DirectoryEvent
  | call (c : DirectoryCall)
  | elsewhere

/-- One step of the server, as far as identities go. No other endpoint writes them. -/
def DirectoryStep (prim : KeyPrimitives) (cfg : Config) (d : Directory) (e : DirectoryEvent)
    (d' : Directory) : Prop :=
  match e with
  | .call c => serveDirectory prim cfg d c = d'
  | .elsewhere => d'.users = d.users ∧ d'.rotations = d.rotations

/-! ## Consistent rows -/

/-- The encryption key of a row with what is derived from it and what signs it, or none of them. -/
inductive KeysConsistent (prim : KeyPrimitives) (u : User) : Prop
  | absent : u.encryptionPublicKey = none → u.encryptionKeyAlg = none → u.encryptionKeyId = none →
      u.encryptionKeyAttestation = none → KeysConsistent prim u
  | present {key kid attestation : String} : u.encryptionPublicKey = some key →
      u.encryptionKeyAlg = some kemAlg → u.encryptionKeyId = some kid →
      encryptionKeyId prim key = .ok kid → u.encryptionKeyAttestation = some attestation →
      verifyAttestation prim.toPrimitives u.address.text u.identityPublicKey key attestation =
        .ok true →
      KeysConsistent prim u

structure Consistent (prim : KeyPrimitives) (u : User) : Prop where
  identity : addressOf prim u.identityPublicKey = some u.address.text
  length : u.identityPublicKey.toList.length = 4098
  keys : KeysConsistent prim u

/-- No two of these identity keys hash to one address. -/
def CollisionFree (prim : KeyPrimitives) (keys : Set String) : Prop :=
  ∀ key ∈ keys, ∀ key' ∈ keys,
    prim.sha384OfKey addressDomain key = prim.sha384OfKey addressDomain key' → key = key'

/-- The identity key that an event brings. -/
def DirectoryEvent.identityKey : DirectoryEvent → Option String
  | .call ⟨_, _, .login _ req⟩ => some req.identityPublicKey
  | _ => none

/-- The identity keys of a run: the stored ones, and those that its logins bring. -/
def identityKeys (d : Directory) (events : List DirectoryEvent) : Set String :=
  fun key => (∃ u ∈ d.users, u.identityPublicKey = key) ∨ ∃ e ∈ events, e.identityKey = some key

section rows

variable {prim : KeyPrimitives} {cfg : Config} {u row : User} {key attestation : Option String}

/-- What was accepted with a login or a rotation: a key comes with an attestation that verifies. -/
def Attested (prim : KeyPrimitives) (address identityPublicKey : String)
    (key attestation : Option String) : Prop :=
  textPresent key = true → ∃ k a, key = some k ∧ attestation = some a ∧
    verifyAttestation prim.toPrimitives address identityPublicKey k a = .ok true

theorem textPresent_iff {text : Option String} :
    textPresent text = true ↔ ∃ t, text = some t ∧ t ≠ "" := by
  cases text with
  | none => simp [textPresent]
  | some t => simp [textPresent]

/-- The setter keeps the rest of the row. -/
theorem setEncryptionKey_rest (h : setEncryptionKey prim u key attestation = .ok row) :
    row.address = u.address ∧ row.identityPublicKey = u.identityPublicKey := by
  unfold setEncryptionKey at h
  split at h
  · obtain ⟨kid, -, hrow⟩ := bind_eq_ok.mp h
    cases hrow
    exact ⟨rfl, rfl⟩
  · cases h
    exact ⟨rfl, rfl⟩

/-- The setter leaves the four columns consistent, where the `CHECK` lets the row in. -/
theorem setEncryptionKey_keys (h : setEncryptionKey prim u key attestation = .ok row)
    (hchecks : row.checks = true)
    (hatt : Attested prim u.address.text u.identityPublicKey key attestation) :
    KeysConsistent prim row := by
  unfold setEncryptionKey at h
  split at h
  · rename_i hkey
    obtain ⟨k, a, rfl, rfl, hver⟩ := hatt hkey
    obtain ⟨kid, hkid, hrow⟩ := bind_eq_ok.mp h
    cases hrow
    exact .present rfl rfl rfl hkid rfl hver
  · cases h
    -- the only key left without a text is the empty one, which the `CHECK` refuses
    cases key with
    | none => exact .absent rfl rfl rfl rfl
    | some k => simp [User.checks] at hchecks

/-- Only the key's columns and the dates of the row changed. -/
theorem KeysConsistent.congr (h : KeysConsistent prim u) (haddress : row.address = u.address)
    (hidentity : row.identityPublicKey = u.identityPublicKey)
    (hkey : row.encryptionPublicKey = u.encryptionPublicKey)
    (halg : row.encryptionKeyAlg = u.encryptionKeyAlg)
    (hkid : row.encryptionKeyId = u.encryptionKeyId)
    (hatt : row.encryptionKeyAttestation = u.encryptionKeyAttestation) :
    KeysConsistent prim row := by
  cases h with
  | absent h₁ h₂ h₃ h₄ =>
    exact .absent (hkey.trans h₁) (halg.trans h₂) (hkid.trans h₃) (hatt.trans h₄)
  | present h₁ h₂ h₃ h₄ h₅ h₆ =>
    refine .present (hkey.trans h₁) (halg.trans h₂) (hkid.trans h₃) h₄ (hatt.trans h₅) ?_
    rw [haddress, hidentity]
    exact h₆

theorem checkRow_eq_ok {v : Unit} : checkRow u = .ok v ↔ u.checks = true := by
  rw [checkRow, refuseIf_eq_ok]
  simp

theorem length_of_checks (h : u.checks = true) : u.identityPublicKey.toList.length = 4098 := by
  unfold User.checks at h
  rw [Bool.and_eq_true, Bool.and_eq_true, beq_iff_eq] at h
  exact h.1.2

end rows

/-! ## The payload -/

section login

variable {prim : KeyPrimitives} {cfg : Config} {req : LoginRequest} {address : Address} {v : Unit}

/-- What `_verify_login_payload` has established. -/
structure VerifiedLogin (prim : KeyPrimitives) (req : LoginRequest) (address : Address) : Prop where
  binds : addressOf prim req.identityPublicKey = some address.text
  attested : Attested prim address.text req.identityPublicKey req.encryptionPublicKey
    req.encryptionKeyAttestation
  key_of_attestation : textPresent req.encryptionKeyAttestation = true →
    textPresent req.encryptionPublicKey = true

theorem verified_of_payload (h : verifyLoginPayload prim cfg req address = .ok v) :
    VerifiedLogin prim req address := by
  simp only [verifyLoginPayload, bind_eq_ok, refuseIf_eq_ok] at h
  obtain ⟨-, -, -, hbinds, -, -, -, -, -, -, -, hcomes, hatt⟩ := h
  have hbind : addressOf prim req.identityPublicKey = some address.text := by
    rw [Bool.not_eq_false', identityBindsAddress, Bool.and_eq_true, beq_iff_eq] at hbinds
    exact hbinds.2
  have hpresent : ∀ {text : Option String}, textPresent text = true → text.getD "" ≠ "" ∧
      text = some (text.getD "") := by
    intro text htext
    obtain ⟨t, rfl, hne⟩ := textPresent_iff.mp htext
    exact ⟨hne, rfl⟩
  have hpresent' : ∀ {text : Option String}, text.getD "" ≠ "" → textPresent text = true := by
    intro text hne
    cases text with
    | none => exact absurd rfl hne
    | some t => exact textPresent_iff.mpr ⟨t, rfl, hne⟩
  have hsigned : req.encryptionKeyAttestation.getD "" ≠ "" →
      req.encryptionPublicKey.getD "" ≠ "" ∧
        verifyAttestation prim.toPrimitives address.text req.identityPublicKey
          (req.encryptionPublicKey.getD "") (req.encryptionKeyAttestation.getD "") = .ok true := by
    intro hne
    rw [if_pos (by simpa using hne)] at hatt
    simp only [bind_eq_ok, refuseIf_eq_ok] at hatt
    obtain ⟨-, hkey, hatt⟩ := hatt
    refine ⟨by simpa using hkey, ?_⟩
    split at hatt
    · cases hatt
    · rename_i valid hvalid
      rw [refuseIf_eq_ok, Bool.not_eq_false'] at hatt
      rw [hvalid, hatt]
  refine ⟨hbind, fun hkey => ?_, fun ha => hpresent' (hsigned (hpresent ha).1).1⟩
  obtain ⟨hne, hsome⟩ := hpresent hkey
  have hane : req.encryptionKeyAttestation.getD "" ≠ "" := by
    intro he
    rw [Bool.and_eq_false_iff] at hcomes
    rcases hcomes with hcomes | hcomes
    · exact hne (by simpa using hcomes)
    · rw [he] at hcomes
      cases hcomes
  have hasome := (hpresent (hpresent' hane)).2
  exact ⟨_, _, hsome, hasome, (hsigned hane).2⟩

end login

/-! ## The rows of a login -/

section upsert

variable {prim : KeyPrimitives} {cfg : Config} {db db' : Database} {now : Time} {admitted : Bool}
  {req : LoginRequest} {address : Address} {u row : User} {seen : Set String}

/-- A consistent row whose identity key is one of `seen`. -/
structure Known (prim : KeyPrimitives) (seen : Set String) (u : User) : Prop extends
    Consistent prim u where
  known : u.identityPublicKey ∈ seen

/-- A key of the length of the column has no line break to skip. -/
theorem addressOf_eq_some {key text : String} (h : addressOf prim key = some text)
    (hlength : key.toList.length ≤ 4098) : prim.sha384OfKey addressDomain key = text := by
  unfold addressOf at h
  split at h
  · rename_i hhex
    have hline : key.toList.getLast? ≠ some '\n' := by
      intro hline
      rw [matchHex, Bool.and_eq_true, beq_iff_eq, if_pos hline, List.length_dropLast] at hhex
      have hlen := hhex.1
      omega
    rw [hexBytes, if_neg hline] at h
    exact Option.some.inj h
  · cases h

/-- The identity key of a login is the stored one. -/
theorem identityKey_eq (hfree : CollisionFree prim seen) (hu : Known prim seen u)
    (haddress : u.address = address) (hver : VerifiedLogin prim req address)
    (hreq : req.identityPublicKey ∈ seen) : req.identityPublicKey = u.identityPublicKey := by
  refine hfree _ hreq _ hu.known ?_
  rw [addressOf_eq_some hver.binds req.identityKey_le,
    addressOf_eq_some hu.identity hu.length.le, haddress]

theorem newUserRow_known {username : String} (hver : VerifiedLogin prim req address)
    (hreq : req.identityPublicKey ∈ seen) (h : newUserRow prim req address username = .ok row)
    (hchecks : row.checks = true) : Known prim seen row ∧ row.address = address := by
  obtain ⟨haddress, hidentity⟩ := setEncryptionKey_rest h
  have hkeys := setEncryptionKey_keys h hchecks hver.attested
  refine ⟨⟨⟨?_, length_of_checks hchecks, hkeys⟩, ?_⟩, haddress⟩
  · rw [hidentity, haddress]
    exact hver.binds
  · rw [hidentity]
    exact hreq

theorem revivedRow_known {username : String} (hu : u.address = address)
    (hver : VerifiedLogin prim req address) (hreq : req.identityPublicKey ∈ seen)
    (h : revivedRow prim now req username u = .ok row) (hchecks : row.checks = true) :
    Known prim seen row ∧ row.address = address := by
  obtain ⟨keyed, hset, hrow⟩ := bind_eq_ok.mp h
  cases hrow
  obtain ⟨haddress, hidentity⟩ := setEncryptionKey_rest hset
  have hatt : Attested prim u.address.text req.identityPublicKey req.encryptionPublicKey
      req.encryptionKeyAttestation := by
    rw [hu]
    exact hver.attested
  have hkeys := setEncryptionKey_keys hset (show keyed.checks = true from hchecks) hatt
  refine ⟨⟨⟨?_, length_of_checks hchecks, hkeys.congr rfl rfl rfl rfl rfl rfl⟩, ?_⟩,
    haddress.trans hu⟩
  · change addressOf prim keyed.identityPublicKey = some keyed.address.text
    rw [hidentity, haddress, hu]
    exact hver.binds
  · change keyed.identityPublicKey ∈ seen
    rw [hidentity]
    exact hreq

theorem updatedRow_known (hfree : CollisionFree prim seen) (hu : Known prim seen u)
    (haddress : u.address = address) (hver : VerifiedLogin prim req address)
    (hreq : req.identityPublicKey ∈ seen) (h : updatedRow prim now req u = .ok row)
    (hchecks : row.checks = true) : Known prim seen row ∧ row.address = address := by
  have hkey := identityKey_eq hfree hu haddress hver hreq
  have hatt : Attested prim u.address.text u.identityPublicKey req.encryptionPublicKey
      req.encryptionKeyAttestation := by
    rw [haddress, ← hkey]
    exact hver.attested
  unfold updatedRow at h
  split at h
  · -- the key changes, or is published for the first time
    obtain ⟨hrest, hidentity⟩ := setEncryptionKey_rest h
    have hkeys := setEncryptionKey_keys h hchecks hatt
    refine ⟨⟨⟨?_, length_of_checks hchecks, hkeys⟩, ?_⟩, hrest.trans haddress⟩
    · rw [hidentity, hrest]
      exact hu.identity
    · rw [hidentity]
      exact hu.known
  · rename_i hsame
    split at h
    · -- the key that is stored gets its attestation
      rename_i hattest
      cases h
      refine ⟨⟨⟨hu.identity, hu.length, ?_⟩, hu.known⟩, haddress⟩
      rw [Bool.and_eq_true] at hattest
      have hpresent := hver.key_of_attestation hattest.1
      obtain ⟨k, a, hk, ha, hver'⟩ := hatt hpresent
      have hstored : u.encryptionPublicKey = req.encryptionPublicKey := by
        rw [hpresent, Bool.true_and, bne_iff_ne, ne_eq, not_not] at hsame
        exact hsame
      cases hu.keys with
      | absent hnone => rw [hstored, hk] at hnone; cases hnone
      | present hsome halg hkid hid _ _ =>
        have hk' := hsome.symm.trans (hstored.trans hk)
        cases hk'
        exact .present hsome halg hkid hid ha hver'
    · cases h
      exact ⟨hu, haddress⟩

/-- A row in the table of users, written at its key. -/
theorem mem_setUser (h : u ∈ (setUser db row).users) : u ∈ db.users ∨ u = row := by
  unfold setUser at h
  obtain ⟨u₀, hu₀, rfl⟩ := List.mem_map.mp (Table.mem_rows.mpr h)
  split
  · rename_i ha
    rw [beq_iff_eq] at ha
    right
    simp only [ha]
  · exact .inl hu₀

/-- The row behind a login is one that was there, or the one that the login leaves consistent. -/
theorem upsertIdentity_known (hfree : CollisionFree prim seen)
    (hdb : ∀ u ∈ db.users, Known prim seen u) (hver : VerifiedLogin prim req address)
    (hreq : req.identityPublicKey ∈ seen)
    (h : upsertIdentity prim db now admitted req address = .ok (db', row)) :
    ∀ u ∈ db'.users, Known prim seen u := by
  have hset : ∀ {row' : User}, Known prim seen row' ∧ row'.address = address →
      ∀ u ∈ (setUser db row').users, Known prim seen u := by
    intro row' hrow u hu
    rcases mem_setUser hu with hu | rfl
    · exact hdb u hu
    · exact hrow.1
  unfold upsertIdentity at h
  split at h
  · simp only [bind_eq_ok, checkRow_eq_ok] at h
    obtain ⟨name, -, row', hrow, -, hchecks, -, -, h⟩ := h
    cases h
    intro u hu
    rcases Table.mem_insert hu with hu | rfl
    · exact hdb u hu
    · exact (newUserRow_known hver hreq hrow hchecks).1
  · rename_i u₀ hfind
    obtain ⟨hmem, haddress⟩ := findUser_mem hfind
    split at h
    · simp only [bind_eq_ok, checkRow_eq_ok] at h
      obtain ⟨-, -, name, -, row', hrow, -, hchecks, -, -, h⟩ := h
      cases h
      exact hset (revivedRow_known haddress hver hreq hrow hchecks)
    · simp only [bind_eq_ok, checkRow_eq_ok] at h
      obtain ⟨row', hrow, -, hchecks, h⟩ := h
      cases h
      exact hset (updatedRow_known hfree (hdb u₀ hmem) haddress hver hreq hrow hchecks)

theorem login_known (hfree : CollisionFree prim seen) (hdb : ∀ u ∈ db.users, Known prim seen u)
    (hreq : req.identityPublicKey ∈ seen) :
    ∀ u ∈ (login prim cfg db now admitted req).1.users, Known prim seen u := by
  simp only [login]
  split
  · exact hdb
  · unfold transaction
    split
    · rename_i db' token h
      simp only [bind_eq_ok] at h
      obtain ⟨_, hpayload, ⟨db₁, row⟩, hupsert, h⟩ := h
      cases h
      have hclaimed : ∀ u ∈ (claimNonce db now (lower req.address) req.nonce).1.users,
          Known prim seen u := hdb
      exact upsertIdentity_known hfree hclaimed (verified_of_payload hpayload) hreq hupsert
    · exact hdb

end upsert

/-! ## Deletion and rotation -/

section steps

variable {prim : KeyPrimitives} {cfg : Config} {d d' : Directory} {now : Time} {caller u : User}
  {seen : Set String}

/-- A move writes the users only to strip them. -/
theorem Move.mem_users {p : Primitives} {uploads : ℕ → Prop} {db db' : Database}
    (h : Move p uploads db db') (hu : u ∈ db'.users) :
    u ∈ db.users ∨ ∃ mode now, ∃ u₀ ∈ db.users, u = stripIdentity mode now u₀ := by
  cases h with
  | messaging _ hmsg => exact .inl (hmsg.2 ▸ hu)
  | strip mode now a =>
    obtain ⟨u₀, hu₀, rfl⟩ := List.mem_map.mp (Table.mem_rows.mpr hu)
    split
    · exact .inr ⟨mode, now, u₀, hu₀, rfl⟩
    · exact .inl hu₀
  | complete w r signature now supplied _ _ _ hr =>
    obtain ⟨T, rfl, -⟩ := completeWorkflow_ok hr
    exact .inl hu
  | newSecret | editSecret | dropSecret | grants | uploadChunk | newWorkflow | sign | reject
  | dropWorkflow | dropRecipients | rewrapSigner | rewrapRecipient => exact .inl hu

theorem stripIdentity_known {mode : Mode} (hu : Known prim seen u) :
    Known prim seen (stripIdentity mode now u) :=
  ⟨⟨hu.identity, hu.length, .absent rfl rfl rfl rfl⟩, hu.known⟩

theorem performDeletion_known {mode : Mode} {req : EraseRequest} {db : Database}
    (hdb : ∀ u ∈ db.users, Known prim seen u) :
    ∀ u ∈ (performDeletion prim.toPrimitives cfg db now caller mode req).1.users,
      Known prim seen u := by
  have hmoves : Moves prim.toPrimitives (fun _ => True) db
      (performDeletion prim.toPrimitives cfg db now caller mode req).1 :=
    performDeletion_moves mode req
  refine hmoves.invariant (I := fun db => ∀ u ∈ db.users, Known prim seen u) ?_ hdb
  intro db db' hdb hmove u hu
  rcases hmove.mem_users hu with hu | ⟨mode, now, u₀, hu₀, rfl⟩
  · exact hdb u hu
  · exact stripIdentity_known (hdb u₀ hu₀)

/-- What `rotate` has established about the row and its request. -/
structure Rotated (prim : KeyPrimitives) (now : Time) (u : User) (req : KeyRotationRequest)
    (oldKid newKid : String) : Prop where
  served : u.encryptionKeyId = some oldKid
  recent : ((now : ℤ) - req.ts).natAbs ≤ rotationClockSkew
  attested : verifyAttestation prim.toPrimitives u.address.text u.identityPublicKey
    req.encryptionPublicKey req.encryptionKeyAttestation = .ok true
  new : encryptionKeyId prim req.encryptionPublicKey = .ok newKid
  signed : ∃ body, keyRotationMessage u.address.text oldKid newKid req.ts = .ok body ∧
    prim.verifyIdentitySignature u.identityPublicKey body req.signature = true

theorem rotated_of_verifyRotation {req : KeyRotationRequest} {kids : String × String}
    (h : verifyRotation prim now u req = .ok kids) : Rotated prim now u req kids.1 kids.2 := by
  simp only [verifyRotation, bind_eq_ok, refuseIf_eq_ok] at h
  obtain ⟨-, hpresent, -, -, -, -, -, hrecent, h⟩ := h
  have hkid : u.encryptionKeyId = some (u.encryptionKeyId.getD "") := by
    rw [Bool.or_eq_false_iff, Bool.not_eq_false', Bool.not_eq_false'] at hpresent
    obtain ⟨kid, hkid, -⟩ := textPresent_iff.mp hpresent.2
    rw [hkid]
    rfl
  rw [decide_eq_false_iff_not, not_lt] at hrecent
  split at h
  · cases h
  · rename_i valid hvalid
    simp only [bind_eq_ok, refuseIf_eq_ok] at h
    obtain ⟨-, hok, newKid, hnew, h⟩ := h
    split at h
    · cases h
    · rename_i body hbody
      simp only [bind_eq_ok, refuseIf_eq_ok] at h
      obtain ⟨-, hsigned, h⟩ := h
      cases h
      rw [Bool.not_eq_false'] at hok hsigned
      exact ⟨hkid, hrecent, hok ▸ hvalid, hnew, body, hbody, hsigned⟩

/-- What a rotation writes: the row of the caller, and one record. -/
theorem rotate_ok {req : KeyRotationRequest} (h : rotate prim d now caller req = .ok d') :
    ∃ oldKid newKid row, Rotated prim now caller req oldKid newKid ∧
      setEncryptionKey prim caller (some req.encryptionPublicKey)
        (some req.encryptionKeyAttestation) = .ok row ∧
      row.checks = true ∧
      d' = { d with
        toDatabase := setUser d.toDatabase { row with keyChangedAt := some now }
        rotations := d.rotations.insert
          (fun id => ⟨id, caller.address, oldKid, newKid, kemAlg, req.ts, req.signature⟩)
          (fun _ => rfl) } := by
  simp only [rotate, bind_eq_ok, checkRow_eq_ok] at h
  obtain ⟨-, -, ⟨oldKid, newKid⟩, hver, row, hset, -, hchecks, h⟩ := h
  cases h
  exact ⟨oldKid, newKid, row, rotated_of_verifyRotation hver, hset, hchecks, rfl⟩

theorem rotate_known {req : KeyRotationRequest} (hd : ∀ u ∈ d.users, Known prim seen u)
    (hcaller : caller ∈ d.users) (h : rotate prim d now caller req = .ok d') :
    ∀ u ∈ d'.users, Known prim seen u := by
  obtain ⟨oldKid, newKid, row, hrot, hset, hchecks, rfl⟩ := rotate_ok h
  obtain ⟨haddress, hidentity⟩ := setEncryptionKey_rest hset
  have hatt : Attested prim caller.address.text caller.identityPublicKey
      (some req.encryptionPublicKey) (some req.encryptionKeyAttestation) :=
    fun _ => ⟨_, _, rfl, rfl, hrot.attested⟩
  have hkeys := setEncryptionKey_keys hset hchecks hatt
  have hold := hd caller hcaller
  intro u hu
  rcases mem_setUser hu with hu | rfl
  · exact hd u hu
  · refine ⟨⟨?_, length_of_checks hchecks, hkeys.congr rfl rfl rfl rfl rfl rfl⟩, ?_⟩
    · change addressOf prim row.identityPublicKey = some row.address.text
      rw [hidentity, haddress]
      exact hold.identity
    · change row.identityPublicKey ∈ seen
      rw [hidentity]
      exact hold.known

theorem getNonce_users {db : Database} {address value : String} :
    (committed db (getNonce db now address value)).1.users = db.users := by
  unfold getNonce
  split <;> rfl

/-- One step keeps the rows consistent. -/
theorem DirectoryStep.known {e : DirectoryEvent} (hfree : CollisionFree prim seen)
    (hkey : ∀ key, e.identityKey = some key → key ∈ seen)
    (hd : ∀ u ∈ d.users, Known prim seen u) (h : DirectoryStep prim cfg d e d') :
    ∀ u ∈ d'.users, Known prim seen u := by
  cases e with
  | elsewhere => exact h.1 ▸ hd
  | call c =>
    obtain ⟨now, token, request⟩ := c
    subst h
    cases request with
    | getNonce address value =>
      simp only [serveDirectory, getNonce_users]
      exact hd
    | login admitted req => exact login_known hfree hd (hkey _ rfl)
    | logout =>
      simp only [serveDirectory]
      split
      · exact hd
      · intro u hu
        obtain ⟨u₀, hu₀, rfl⟩ := List.mem_map.mp (Table.mem_rows.mpr hu)
        have hold := hd u₀ hu₀
        split
        · exact ⟨⟨hold.identity, hold.length, hold.keys.congr rfl rfl rfl rfl rfl rfl⟩, hold.known⟩
        · exact hold
    | rotate req =>
      simp only [serveDirectory]
      split
      · exact hd
      · rename_i caller hcaller
        have hmem := (getCurrentUser_ok hcaller).1
        simp only [serveCaller]
        cases hrot : rotate prim d now caller req with
        | error fault => exact hd
        | ok d₁ => exact rotate_known hd hmem hrot
    | deleteAccount mode req =>
      simp only [serveDirectory]
      split
      · exact hd
      · exact performDeletion_known hd

/-! ## The records of rotations -/

/-- The rotation starts from the key that the directory served. -/
def StartsFromServed (prim : KeyPrimitives) (d : Directory) (r : EncryptionKeyRotation) : Prop :=
  ∃ u ∈ d.users, u.address = r.userAddress ∧ u.encryptionKeyId = some r.oldKid ∧
    ∃ key, u.encryptionPublicKey = some key ∧ encryptionKeyId prim key = .ok r.oldKid

theorem dropRotations_mem {a : Address} {mode : Mode} {answer : Except Fault EraseResponse}
    {r : EncryptionKeyRotation} (h : r ∈ dropRotations d a mode answer) : r ∈ d.rotations := by
  unfold dropRotations at h
  split at h
  · split at h
    · exact (Serial.mem_delete.mp h).1
    · exact h
  · exact h

/-- A record that a step adds is of a rotation from the served key. -/
theorem DirectoryStep.starts {e : DirectoryEvent} {r : EncryptionKeyRotation}
    (hd : ∀ u ∈ d.users, Known prim seen u) (h : DirectoryStep prim cfg d e d')
    (hr : r ∈ d'.rotations) (hnew : r ∉ d.rotations) : StartsFromServed prim d r := by
  cases e with
  | elsewhere => exact absurd (h.2 ▸ hr) hnew
  | call c =>
    obtain ⟨now, token, request⟩ := c
    subst h
    cases request with
    | getNonce | login => exact absurd hr hnew
    | logout =>
      simp only [serveDirectory] at hr
      split at hr
      · exact absurd hr hnew
      · exact absurd hr hnew
    | deleteAccount mode req =>
      simp only [serveDirectory] at hr
      split at hr
      · exact absurd hr hnew
      · exact absurd (dropRotations_mem hr) hnew
    | rotate req =>
      simp only [serveDirectory] at hr
      split at hr
      · exact absurd hr hnew
      · rename_i caller hcaller
        have hmem := (getCurrentUser_ok hcaller).1
        simp only [serveCaller] at hr
        cases hrot : rotate prim d now caller req with
        | error fault => rw [hrot] at hr; exact absurd hr hnew
        | ok d₁ =>
          rw [hrot] at hr
          obtain ⟨oldKid, newKid, row, hrotated, -, -, rfl⟩ := rotate_ok hrot
          rcases Serial.mem_insert.mp hr with hr | rfl
          · exact absurd hr hnew
          · refine ⟨caller, hmem, rfl, hrotated.served, ?_⟩
            cases (hd caller hmem).keys with
            | absent _ _ hkid => rw [hrotated.served] at hkid; cases hkid
            | present hkey _ hkid hid =>
              rw [hrotated.served] at hkid
              cases hkid
              exact ⟨_, hkey, hid⟩

end steps

/-! ## Runs -/

/-- Along every run the rows stay consistent, and every rotation that it records starts from the
key that was served when it was recorded. -/
theorem directory_integrity {prim : KeyPrimitives} {cfg : Config} {d₀ d : Directory}
    {events : List DirectoryEvent} (hstart : ∀ u ∈ d₀.users, Consistent prim u)
    (hfree : CollisionFree prim (identityKeys d₀ events))
    (hrun : Run (DirectoryStep prim cfg) d₀ events d) :
    (∀ u ∈ d.users, Consistent prim u) ∧
      ∀ r ∈ d.rotations, r ∈ d₀.rotations ∨ ∃ before e after p q, events = before ++ e :: after ∧
        Run (DirectoryStep prim cfg) d₀ before p ∧ DirectoryStep prim cfg p e q ∧
        Run (DirectoryStep prim cfg) q after d ∧ r ∉ p.rotations ∧ r ∈ q.rotations ∧
        StartsFromServed prim p r := by
  have hknown : ∀ {as p}, (∀ e ∈ as, e ∈ events) → Run (DirectoryStep prim cfg) d₀ as p →
      ∀ u ∈ p.users, Known prim (identityKeys d₀ events) u := by
    intro as p hsub hrun
    refine hrun.restrict_mem.invariant
      (I := fun p => ∀ u ∈ p.users, Known prim (identityKeys d₀ events) u) ?_ ?_
    · intro p e q hp hstep
      exact DirectoryStep.known hfree (fun key hkey => .inr ⟨e, hsub e hstep.1, hkey⟩) hp hstep.2
    · exact fun u hu => ⟨hstart u hu, .inl ⟨u, hu, rfl⟩⟩
  refine ⟨fun u hu => (hknown (fun _ he => he) hrun u hu).toConsistent, fun r hr => ?_⟩
  rcases hrun.appears (P := fun p => r ∈ p.rotations) hr with
    h | ⟨before, e, after, p, q, rfl, hbefore, hstep, hafter, hp, hq⟩
  · exact .inl h
  · have hrows := hknown (fun _ he => List.mem_append_left _ he) hbefore
    exact .inr ⟨before, e, after, p, q, rfl, hbefore, hstep, hafter, hp, hq,
      hstep.starts hrows hq hp⟩

def sampleText (n : ℕ) (c : Char) : String := String.ofList (List.replicate n c)

/-- An encryption key: an uncompressed point, then the same digit throughout. -/
def sampleKey (c : Char) : String := String.ofList ('0' :: '4' :: List.replicate 2560 c)

@[simp] theorem toList_sampleText (n : ℕ) (c : Char) :
    (sampleText n c).toList = List.replicate n c := String.toList_ofList

@[simp] theorem toList_sampleKey (c : Char) :
    (sampleKey c).toList = '0' :: '4' :: List.replicate 2560 c := String.toList_ofList

/-- A key hashes to its last digit, and a signature spells its key and body. -/
def sampleKeyPrimitives : KeyPrimitives where
  sha384Hex m := m
  verifyIdentitySignature key m signature := signature == key ++ m
  unicodeDigit _ := none
  sha384OfKey _ key := sampleText 96 (key.toList.getLastD '0')
  isP384Point _ := true
  isMlKem768Key _ := true
  normalizeUsername name := .ok name
  lowerUsername name := name

theorem hexBytes_of_all {s : String} (h : s.toList.all isLowerHexDigit = true) : hexBytes s = s :=
  if_neg (getLast?_ne_newline h)

section sample

variable {c : Char} (hhex : isLowerHexDigit c = true)

include hhex

theorem all_sampleKey : (sampleKey c).toList.all isLowerHexDigit = true := by
  have hrest : (List.replicate 2560 c).all isLowerHexDigit = true := by
    rw [List.all_replicate, hhex]
    rfl
  rw [toList_sampleKey, List.all_cons, List.all_cons, hrest]
  rfl

theorem matchHex_sampleKey : matchHex 2562 (sampleKey c) = true := by
  refine matchHex_of_all ?_ (all_sampleKey hhex)
  rw [toList_sampleKey, List.length_cons, List.length_cons, List.length_replicate]

theorem isHex_sampleKey : isHex (sampleKey c) = true := by
  rw [isHex, all_sampleKey hhex, toList_sampleKey]
  rfl

theorem encryptionKeyId_sample :
    encryptionKeyId sampleKeyPrimitives (sampleKey c) = .ok (sampleText 32 c) := by
  have htake : String.ofList ((sampleText 96 c).toList.take 32) = sampleText 32 c := by
    rw [toList_sampleText, List.take_replicate]
    rfl
  have hlast : (sampleKey c).toList.getLastD '0' = c := by
    rw [toList_sampleKey, List.getLastD_cons, List.getLastD_cons, List.getLastD_eq_getLast?,
      List.getLast?_replicate]
    rfl
  have hhash : sampleKeyPrimitives.sha384OfKey keyIdDomain (sampleKey c) = sampleText 96 c :=
    congrArg (sampleText 96) hlast
  rw [encryptionKeyId, if_pos (matchHex_sampleKey hhex), hexBytes_of_all (all_sampleKey hhex), hhash,
    htake]

end sample

/-- An identity key: a lattice half and an uncompressed point. -/
def sampleIdentity : String :=
  String.ofList (List.replicate 3904 '1' ++ '0' :: '4' :: List.replicate 192 '1')

theorem toList_sampleIdentity : sampleIdentity.toList =
    List.replicate 3904 '1' ++ '0' :: '4' :: List.replicate 192 '1' := String.toList_ofList

theorem length_sampleIdentity : sampleIdentity.toList.length = 4098 := by
  rw [toList_sampleIdentity, List.length_append, List.length_cons, List.length_cons,
    List.length_replicate, List.length_replicate]

theorem all_sampleIdentity : sampleIdentity.toList.all isLowerHexDigit = true := by
  rw [toList_sampleIdentity, List.all_append, List.all_cons, List.all_cons, List.all_replicate,
    List.all_replicate]
  decide

theorem addressOf_sample :
    addressOf sampleKeyPrimitives sampleIdentity = some (sampleText 96 '1') := by
  have hlast : sampleIdentity.toList.getLastD '0' = '1' := by
    rw [toList_sampleIdentity, List.getLastD_eq_getLast?, List.getLast?_append, List.getLast?_cons_cons,
      List.getLast?_cons, List.getLast?_replicate]
    rfl
  rw [addressOf, if_pos (matchHex_of_all length_sampleIdentity all_sampleIdentity),
    hexBytes_of_all all_sampleIdentity]
  exact congrArg (fun c => some (sampleText 96 c)) hlast

/-- The attestation that the sample identity signs for an encryption key. -/
def sampleAttestation (key : String) : String :=
  let address := sampleText 96 '1'
  sampleIdentity ++ domainSeparate "key-attestation"
    s!"address={address}\nencryption-alg={kemAlg}\nencryption={key}"

theorem isValidAddress_sample : isValidAddress (sampleText 96 '1') = true :=
  matchHex_replicate 96 (by decide)

theorem verifyAttestation_sample {key : String} (hkey : isHex key = true) :
    verifyAttestation sampleKeyPrimitives.toPrimitives (sampleText 96 '1') (sampleIdentity) key
      (sampleAttestation key) = .ok true := by
  simp [verifyAttestation, encryptionKeyAttestationMessage, isValidAddress_sample, hkey, refuseIf,
    bind, Except.bind, sampleKeyPrimitives, sampleAttestation]

/-- The sample identity, with the encryption key of a digit. -/
def sampleServed (c : Char) (keyChangedAt : Option Time) : User where
  address := ⟨sampleText 96 '1', by simp [lowerText, sampleText]⟩
  identityPublicKey := sampleIdentity
  username := some "alice"
  encryptionPublicKey := some (sampleKey c)
  encryptionKeyAlg := some kemAlg
  encryptionKeyId := some (sampleText 32 c)
  encryptionKeyAttestation := some (sampleAttestation (sampleKey c))
  keyChangedAt := keyChangedAt
  tokenVersion := 0
  deletedAt := none
  blocked := false

theorem consistent_sampleServed {c : Char} (hhex : isLowerHexDigit c = true)
    (keyChangedAt : Option Time) : Consistent sampleKeyPrimitives (sampleServed c keyChangedAt) where
  identity := addressOf_sample
  length := length_sampleIdentity
  keys := .present rfl rfl rfl (encryptionKeyId_sample hhex) rfl
    (verifyAttestation_sample (isHex_sampleKey hhex))

def sampleDirectory (c : Char) (keyChangedAt : Option Time)
    (rotations : Serial EncryptionKeyRotation) : Directory where
  __ := Database.empty
  users := ⟨[sampleServed c keyChangedAt], List.nodup_singleton _⟩
  rotations := rotations

theorem consistent_sampleDirectory {T : Serial EncryptionKeyRotation} :
    ∀ u ∈ (sampleDirectory '2' none T).users, Consistent sampleKeyPrimitives u := by
  intro u hu
  obtain rfl : u = sampleServed '2' none := List.mem_singleton.mp hu
  exact consistent_sampleServed (by decide) none

def sampleDirectoryLogout : DirectoryEvent := .call ⟨0, ⟨sampleText 96 '1', 0⟩, .logout⟩

theorem identityKeys_sample {events : List DirectoryEvent} {T : Serial EncryptionKeyRotation}
    (h : ∀ e ∈ events, e.identityKey = none) :
    CollisionFree sampleKeyPrimitives (identityKeys (sampleDirectory '2' none T) events) := by
  have hone : ∀ key ∈ identityKeys (sampleDirectory '2' none T) events,
      key = sampleIdentity := by
    rintro key (⟨u, hu, rfl⟩ | ⟨e, he, hkey⟩)
    · obtain rfl : u = sampleServed '2' none := List.mem_singleton.mp hu
      rfl
    · rw [h e he] at hkey
      cases hkey
  intro key hkey key' hkey' _
  rw [hone key hkey, hone key' hkey']

theorem directory_integrity_sample : ∃ d,
    Run (DirectoryStep sampleKeyPrimitives sampleConfig) (sampleDirectory '2' none .empty)
        [sampleDirectoryLogout] d ∧
      ∀ u ∈ d.users, Consistent sampleKeyPrimitives u := by
  have hrun : Run (DirectoryStep sampleKeyPrimitives sampleConfig) (sampleDirectory '2' none .empty)
      [sampleDirectoryLogout] _ := .single rfl
  refine ⟨_, hrun, (directory_integrity consistent_sampleDirectory (identityKeys_sample ?_) hrun).1⟩
  intro e he
  obtain rfl : e = sampleDirectoryLogout := List.mem_singleton.mp he
  rfl

end Kryptolog.Server
