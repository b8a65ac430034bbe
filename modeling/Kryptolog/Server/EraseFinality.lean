import Kryptolog.Server.RotationReplay
import Kryptolog.Server.TokenRevocation

/-! # Erased accounts over runs

A login reads the row of its address without a lock, refuses a blocked one, and writes the row
later. An erase that commits in between is partly undone by that write. In every other run an
erased account stays erased.
-/

namespace Kryptolog.Server
set_option autoImplicit false

open Tables Fallible ReadCommitted Runs

/-- What an erase leaves of an account. -/
structure FullyErased (u : User) : Prop where
  deleted : u.deletedAt.isSome = true
  blocked : u.blocked = true
  noKey : u.encryptionPublicKey = none
  noName : u.username = none

def HasErased (c : Accounts) (a : Address) : Prop := ∃ u ∈ c.users, u.address = a ∧ FullyErased u

/-- An update of the columns that an erase clears, or of the date of the deletion. -/
def UserUpdate.Restores (upd : UserUpdate) : Prop :=
  upd.deletedAt.isSome ∨ upd.encryptionPublicKey.isSome ∨ upd.username.isSome

/-- A login that writes these columns commits on a row that is not erased. -/
def WritesLiveRow (c : Accounts) : AccountPoint → Prop
  | .identityUpdated a upd => upd.Restores → ¬ HasErased c a
  | _ => True

section changes

variable {c : Accounts} {e : AccountChange} {a : Address} {u : User} {upd : UserUpdate}

theorem FullyErased.inactive (h : FullyErased u) : u.active = false := by
  rw [User.active, Option.isNone_eq_false_iff]
  exact h.deleted

theorem FullyErased.set (h : FullyErased u) (hstanding : upd.KeepsStanding)
    (hrest : ¬ upd.Restores) : FullyErased (upd.set u) := by
  simp only [UserUpdate.Restores, not_or, Option.not_isSome_iff_eq_none] at hrest
  obtain ⟨hdeleted, hkey, hname⟩ := hrest
  constructor
  · simpa [UserUpdate.set, hdeleted] using h.deleted
  · simpa [UserUpdate.set, hstanding.2] using h.blocked
  · simpa [UserUpdate.set, hkey] using h.noKey
  · simpa [UserUpdate.set, hname] using h.noName

/-- No token of an erased account validates. -/
theorem HasErased.invalid {token : Token} (h : HasErased c (lower token.sub)) :
    userForToken c.toDatabase token = none := by
  obtain ⟨u, hu, ha, herased⟩ := h
  unfold userForToken
  cases hfind : findUser c.toDatabase (lower token.sub) with
  | none => rfl
  | some u' =>
    obtain ⟨hu', ha'⟩ := findUser_mem hfind
    obtain rfl : u' = u := Table.eq_of_key hu' hu (ha'.trans ha.symm)
    simp [Option.filter, herased.inactive]

/-- The change restores nothing of an erased account. -/
def AccountChange.Spares (c : Accounts) : AccountChange → Prop
  | .updateUser a upd => HasErased c a → upd.KeepsStanding ∧ ¬ upd.Restores
  | _ => True

theorem hasErased_apply (hspares : e.Spares c) (h : HasErased c a) : HasErased (e.apply c) a := by
  obtain ⟨u, hu, ha, herased⟩ := h
  cases e with
  | insertUser row => exact ⟨u, Table.mem_insert_of_mem hu, ha, herased⟩
  | updateUser b upd =>
    have himage := Table.update_of_mem hu (·.address == b) upd.set (fun _ => rfl)
    by_cases hb : u.address = b
    · rw [if_pos (beq_iff_eq.mpr hb)] at himage
      obtain ⟨hstanding, hrest⟩ := hspares ⟨u, hu, hb, herased⟩
      exact ⟨_, himage, ha, herased.set hstanding hrest⟩
    · rw [if_neg (by simpa using hb)] at himage
      exact ⟨u, himage, ha, herased⟩
  | logOut b version =>
    have himage := Table.update_of_mem hu (·.address == b)
      (fun u => { u with tokenVersion := version }) (fun _ => rfl)
    by_cases hb : u.address = b
    · rw [if_pos (beq_iff_eq.mpr hb)] at himage
      exact ⟨_, himage, ha, herased.deleted, herased.blocked, herased.noKey, herased.noName⟩
    · rw [if_neg (by simpa using hb)] at himage
      exact ⟨u, himage, ha, herased⟩
  | _ => exact ⟨u, hu, ha, herased⟩

end changes

section erasure

variable {prim : KeyPrimitives} {cfg : Config} {c : Accounts} {p next : AccountPoint} {a : Address}

/-- A deletion holds the row of an account that is not deleted. -/
theorem not_hasErased_of_knows {u : User} (h : findUser c.toDatabase u.address = some u)
    (hactive : u.active = true) : ¬ HasErased c u.address := by
  rintro ⟨u', hu', ha, herased⟩
  obtain ⟨hu, -⟩ := findUser_mem h
  obtain rfl : u' = u := Table.eq_of_key hu' hu ha
  cases hactive.symm.trans herased.inactive

/-- The changes of a commit leave an erased account erased. -/
theorem hasErased_commit (hknows : Knows c p) (hready : WritesLiveRow c p)
    (h : (accounts prim cfg).op p = .commit next) (hc : HasErased c a) :
    HasErased (AccountChange.applyAll c p.log) a := by
  cases p with
  | accountStripped now u mode swept =>
    have hswept : HasErased (AccountChange.apply c (.deleteNonces swept)) a := hc
    have hspares : (AccountChange.updateUser u.address (.between u (stripIdentity mode now u))).Spares
        (AccountChange.apply c (.deleteNonces swept)) :=
      fun herased => absurd herased (not_hasErased_of_knows hknows.1 hknows.2)
    exact hasErased_apply hspares hswept
  | identityInserted row => exact hasErased_apply (e := .insertUser row) trivial hc
  | identityUpdated b upd =>
    have hspares : (AccountChange.updateUser b upd).Spares c :=
      fun herased => ⟨hknows, fun hrest => hready hrest herased⟩
    exact hasErased_apply hspares hc
  | loggedOut b version => exact hasErased_apply (e := .logOut b version) trivial hc
  | claimed now by' won =>
    cases won with
    | none => exact hc
    | some n => exact hc
  | transferTaken now t won =>
    cases won with
    | false => exact hc
    | true => exact hc
  | nonceInserted | transferInserted | minted | roundDone | transferDropped => exact hc
  | _ => cases h

theorem erasureRule : PointRule (accounts prim cfg) AccountPoint.log AccountPoint.locks
    (fun _ => True) Knows WritesLiveRow where
  entry _ call _ := knows_entry call
  select c p select _ _ h := by
    have hidle := (idle_of_select h).1
    rw [hidle]
    exact knows_select h
  write c p exec snap _ hknows h := knows_write hknows h snap
  commit c p next _ _ h _ := ⟨trivial, knows_commit h⟩
  stable c p next q _ _ _ _ hq hlocks := knows_stable hq hlocks

end erasure

/-! ## A login that comes late -/

/-- The sample account before it has an encryption key. -/
def sampleKeyless : User :=
  { sampleServed '2' none with
    encryptionPublicKey := none
    encryptionKeyAlg := none
    encryptionKeyId := none
    encryptionKeyAttestation := none }

def sampleErasure : EraseRequest where
  nonce := "0b"
  origin := "https://sample"
  deployment := "sample"
  signature :=
    match accountDeletionMessage sampleKeyPrimitives.toPrimitives "0b" .erase [] "https://sample"
        "sample" with
    | .ok message => sampleIdentity ++ message
    | .error _ => ""
  redactions := []

def sampleOf (u : User) (nonces : Table Nonce) (history : List Seen) : Accounts where
  __ := Database.empty
  users := ⟨[u], List.nodup_singleton _⟩
  nonces := nonces
  transfers := .empty
  history := history

def sampleChallenges : Table Nonce :=
  ⟨[sampleNonce, ⟨"0b", (sampleServed '2' none).address, 300000⟩], by decide⟩

/-- The checks of a login with an encryption key, passed. -/
theorem verifyLoginPayload_eq_ok_of_key {prim : KeyPrimitives} {cfg : Config} {req : LoginRequest}
    {address : Address} {key attestation : String}
    (hsite : checkSignedForThisServer cfg req.origin req.deployment = .ok ())
    (hbinds : identityBindsAddress prim req.identityPublicKey address.text = true)
    (hvalid : isValidIdentityKey prim req.identityPublicKey = true)
    (hsig : verifyLoginSignature prim.toPrimitives req = true)
    (hkey : req.encryptionPublicKey = some key) (hkeyValid : isValidEncryptionKey prim key = true)
    (hattestation : req.encryptionKeyAttestation = some attestation) (hne : attestation ≠ "")
    (hver : verifyAttestation prim.toPrimitives address.text req.identityPublicKey key attestation =
      .ok true) (hkeyNe : key ≠ "") :
    verifyLoginPayload prim cfg req address = .ok () := by
  simp [verifyLoginPayload, hsite, hbinds, hvalid, hsig, hkey, hkeyValid, hattestation, hne, hver,
    hkeyNe, refuseIf, bind, Except.bind]

theorem loginMessage_isOk {nonce origin deployment key : String} (hnonce : isHex nonce = true)
    (horigin : isCanonicalOrigin origin = true) (hdeployment : isSignedIdentifierText deployment = true)
    (hkey : isHex key = true) :
    ∃ message, loginMessage nonce origin deployment (some key) = .ok message := by
  simp [loginMessage, hnonce, horigin, hdeployment, hkey, refuseIf, bind, Except.bind]

theorem sampleAttestation_ne (key : String) : sampleAttestation key ≠ "" := by
  intro h
  have hlength := congrArg (fun s : String => s.toList.length) h
  simp only [sampleAttestation, String.toList_append, List.length_append, length_sampleIdentity,
    String.toList_empty, List.length_nil] at hlength
  omega

theorem verifyLoginPayload_sampleKey : verifyLoginPayload sampleKeyPrimitives sampleConfig
    (sampleLogin (some '2')) (lower (sampleLogin (some '2')).address) = .ok () := by
  rw [show lower (sampleLogin (some '2')).address = (sampleServed '2' none).address from
    lower_text (sampleServed '2' none).address]
  have hsite : checkSignedForThisServer sampleConfig "https://sample" "sample" = .ok () := by decide
  have hbinds : identityBindsAddress sampleKeyPrimitives (sampleLogin (some '2')).identityPublicKey
      (sampleServed '2' none).address.text = true := identityBindsAddress_sample
  have hhex : isHex (sampleKey '2') = true := isHex_sampleKey (by decide)
  obtain ⟨message, hmessage⟩ : ∃ message,
      loginMessage "0a" "https://sample" "sample" (some (sampleKey '2')) = .ok message :=
    loginMessage_isOk (by decide) (by decide) (by decide) hhex
  have hsig : verifyLoginSignature sampleKeyPrimitives.toPrimitives (sampleLogin (some '2')) =
      true := verifyLoginSignature_sample hmessage
  obtain ⟨key, heq, hne⟩ := textPresent_iff.mp (textPresent_sampleKey (c := '2'))
  rw [Option.some.injEq] at heq
  exact verifyLoginPayload_eq_ok_of_key hsite hbinds isValidIdentityKey_sample hsig rfl
    (isValidEncryptionKey_sample (by decide)) rfl (sampleAttestation_ne _)
    (verifyAttestation_sample hhex) (heq ▸ hne)

/-- The columns that the login of a key sends for the row without one. -/
def sampleUpdate : UserUpdate := .between sampleKeyless (sampleServed '2' none)

theorem updatedRow_sampleKeyless :
    updatedRow sampleKeyPrimitives 0 (sampleLogin (some '2')) sampleKeyless =
      .ok (sampleServed '2' none) := by
  have hkid : encryptionKeyId sampleKeyPrimitives ((some (sampleKey '2')).getD "") =
      .ok (sampleText 32 '2') := encryptionKeyId_sample (by decide)
  have hkey : textPresent (sampleLogin (some '2')).encryptionPublicKey = true := textPresent_sampleKey
  have hother : (sampleKeyless.encryptionPublicKey != (sampleLogin (some '2')).encryptionPublicKey) =
      true := rfl
  rw [updatedRow, hkey, hother, if_pos (by rfl), setEncryptionKey, if_pos hkey]
  change (encryptionKeyId sampleKeyPrimitives ((some (sampleKey '2')).getD "")).bind _ = _
  rw [hkid]
  rfl

theorem restores_sampleUpdate : sampleUpdate.encryptionPublicKey = some (some (sampleKey '2')) := rfl

theorem afterIdentity_sampleKeyless :
    afterIdentity sampleKeyPrimitives 0 true (sampleLogin (some '2')) (some sampleKeyless) =
      .updateIdentity true sampleKeyless.address sampleUpdate := by
  have hactive : sampleKeyless.deletedAt.isSome = false := rfl
  have hne : sampleUpdate ≠ .none := by
    intro h
    have hkey := restores_sampleUpdate
    rw [h] at hkey
    cases hkey
  simp only [afterIdentity, hactive, updatedRow_sampleKeyless, Bool.false_eq_true, if_false]
  exact if_neg hne

theorem authorizeDeletion_sample :
    authorizeDeletion sampleKeyPrimitives.toPrimitives sampleConfig sampleKeyless .erase
      sampleErasure = .ok () := by
  obtain ⟨message, hmessage⟩ : ∃ message, accountDeletionMessage sampleKeyPrimitives.toPrimitives
      "0b" .erase [] "https://sample" "sample" = .ok message := ⟨_, rfl⟩
  have hsignature : sampleErasure.signature = sampleIdentity ++ message := by
    simp only [sampleErasure, hmessage]
  have hsigned : sampleKeyPrimitives.verifyIdentitySignature sampleIdentity message
      sampleErasure.signature = true := by
    rw [hsignature]
    exact beq_self_eq_true _
  have hsite : checkSignedForThisServer sampleConfig "https://sample" "sample" = .ok () := by decide
  exact authorizeDeletion_eq_ok List.nodup_nil rfl hsite hmessage hsigned

theorem afterLock_sample :
    afterLock sampleKeyPrimitives sampleConfig 0 .erase sampleErasure .deleted sampleKeyless =
      .deleteNonces 0 sampleKeyless .erase := by
  rw [afterLock, authorizeDeletion_sample]

theorem checks_of_keyless {u : User} (haddress : hexColumn 96 u.address.text = true)
    (hlength : u.identityPublicKey.toList.length = 4098) (hkey : u.encryptionPublicKey = none)
    (halg : u.encryptionKeyAlg = none) (hkid : u.encryptionKeyId = none) : u.checks = true := by
  simp only [User.checks, haddress, hlength, hkey, halg, hkid, beq_self_eq_true, Bool.and_self]

/-- The `CHECK`s read the address and the key columns. -/
theorem checks_congr {u v : User} (haddress : u.address = v.address)
    (hidentity : u.identityPublicKey = v.identityPublicKey)
    (hkey : u.encryptionPublicKey = v.encryptionPublicKey)
    (halg : u.encryptionKeyAlg = v.encryptionKeyAlg) (hkid : u.encryptionKeyId = v.encryptionKeyId) :
    u.checks = v.checks := by
  simp only [User.checks, haddress, hidentity, hkey, halg, hkid]

/-- The row that the erase leaves. -/
def sampleErased : User := stripIdentity .erase 0 sampleKeyless

/-- The row after the login has written it. -/
def sampleRestored : User := sampleUpdate.set sampleErased

theorem hexColumn_sampleText (n : ℕ) {c : Char} (hc : isLowerHexDigit c = true) :
    hexColumn n (sampleText n c) = true := by
  rw [hexColumn, toList_sampleText, List.length_replicate, List.all_replicate, hc, beq_self_eq_true]
  simp

theorem checks_sampleErased : sampleErased.checks = true :=
  checks_of_keyless (hexColumn_sampleText 96 (by decide)) length_sampleIdentity rfl rfl rfl

theorem identityPublicKey_set_between {old new u : User}
    (h : u.identityPublicKey = old.identityPublicKey) :
    ((UserUpdate.between old new).set u).identityPublicKey = new.identityPublicKey := by
  simp only [UserUpdate.set, UserUpdate.between, h, getD_changed]

theorem checks_sampleRestored : sampleRestored.checks = true := by
  have hserved : (sampleServed '2' none).checks = true := checks_sampleServed (by decide)
  have hidentity : sampleRestored.identityPublicKey = (sampleServed '2' none).identityPublicKey :=
    identityPublicKey_set_between rfl
  rw [← hserved]
  exact checks_congr rfl hidentity rfl rfl rfl

abbrev AccountSession : Type := Session Accounts AccountRow AccountChange AccountPoint

/-- A login and a deletion of the sample account, whose challenges are spent. -/
def sampleRace (login : AccountPoint) (deletion : AccountSession) :
    State Accounts AccountRow AccountChange AccountPoint where
  committed := sampleOf sampleKeyless .empty [.claimed sampleNonce sampleKeyless.address 0,
    .claimed ⟨"0b", sampleKeyless.address, 300000⟩ sampleKeyless.address 0]
  sessions := [some (.fresh login), some deletion]

def sampleLocking : AccountSession := .fresh (.lockAccount 0 sampleKeyless .erase sampleErasure .deleted)

def sampleLocked (p : AccountPoint) (log : List AccountChange) : AccountSession :=
  ⟨p, none, [.user sampleKeyless.address], log⟩

/-- The deletion with its changes, before they are committed. -/
def sampleStripped : AccountSession where
  point := .accountStripped 0 sampleKeyless .erase []
  snapshot := none
  held := [.user sampleKeyless.address, .user sampleKeyless.address]
  log := [.deleteNonces [], .updateUser sampleKeyless.address (.between sampleKeyless sampleErased)]

/-- The lock of an active account is taken, and the deletion goes on with the row found. -/
theorem op_lockAccount {prim : KeyPrimitives} {cfg : Config} {now : Time} {caller locked : User}
    {mode : Mode} {req : EraseRequest} {outcome : RoundOutcome} {cur : Accounts}
    (hfind : findUser cur.toDatabase caller.address = some locked) :
    ∃ exec, (accounts prim cfg).op (.lockAccount now caller mode req outcome) = .write exec ∧
      ∀ snap, exec snap cur = ⟨[.user locked.address], [],
        afterLock prim cfg now mode req outcome locked⟩ := by
  refine ⟨_, rfl, fun _ => ?_⟩
  simp only [hfind]

theorem op_stripAccount {prim : KeyPrimitives} {cfg : Config} {now : Time} {locked u : User}
    {mode : Mode} {swept : List String} {cur : Accounts}
    (hfind : findUser cur.toDatabase locked.address = some u)
    (hchecks : ((UserUpdate.between locked (stripIdentity mode now locked)).set u).checks = true) :
    ∃ exec, (accounts prim cfg).op (.stripAccount now locked mode swept) = .write exec ∧
      ∀ snap, exec snap cur =
        took [.updateUser locked.address (.between locked (stripIdentity mode now locked))]
          (.accountStripped now locked mode swept) := by
  refine ⟨_, rfl, fun _ => ?_⟩
  simp only [hfind, hchecks, Bool.not_true, Bool.false_eq_true, if_false]

theorem op_updateIdentity {prim : KeyPrimitives} {cfg : Config} {a : Address} {upd : UserUpdate}
    {u : User} {cur : Accounts} (hfind : findUser cur.toDatabase a = some u)
    (hchecks : (upd.set u).checks = true) :
    ∃ exec, (accounts prim cfg).op (.updateIdentity true a upd) = .write exec ∧
      ∀ snap, exec snap cur = took [.updateUser a upd] (.identityUpdated a upd) := by
  refine ⟨_, rfl, fun _ => ?_⟩
  simp only [hfind, hchecks, Bool.not_true, Bool.false_eq_true, if_false,
    if_true]

theorem sampleRace_verify :
    sampleMachine.step (sampleRace (.verifyLogin 0 true (sampleLogin (some '2'))) sampleLocking)
      (.select 0) =
        some (sampleRace (.readIdentity 0 true (sampleLogin (some '2'))) sampleLocking) := by
  have hsession : (sampleRace (.verifyLogin 0 true (sampleLogin (some '2'))) sampleLocking).session
      0 = some (.fresh (.verifyLogin 0 true (sampleLogin (some '2')))) := rfl
  exact Machine.select_eq hsession (op_verifyLogin verifyLoginPayload_sampleKey)

theorem sampleRace_read :
    sampleMachine.step (sampleRace (.readIdentity 0 true (sampleLogin (some '2'))) sampleLocking)
      (.select 0) =
        some (sampleRace (.updateIdentity true sampleKeyless.address sampleUpdate) sampleLocking) := by
  have hsession : (sampleRace (.readIdentity 0 true (sampleLogin (some '2'))) sampleLocking).session
      0 = some (.fresh (.readIdentity 0 true (sampleLogin (some '2')))) := rfl
  have hop : sampleMachine.op (.readIdentity 0 true (sampleLogin (some '2'))) =
      .select fun c => afterIdentity sampleKeyPrimitives 0 true (sampleLogin (some '2'))
        (findUser c.toDatabase (lower (sampleLogin (some '2')).address)) := rfl
  have hnext : afterIdentity sampleKeyPrimitives 0 true (sampleLogin (some '2'))
      (findUser (sampleRace (.readIdentity 0 true (sampleLogin (some '2')))
        sampleLocking).committed.toDatabase (lower (sampleLogin (some '2')).address)) =
      .updateIdentity true sampleKeyless.address sampleUpdate := afterIdentity_sampleKeyless
  have hstep := Machine.select_eq hsession hop
  exact hstep.trans (congrArg (fun p => some (sampleRace p sampleLocking)) hnext)

theorem sampleRace_lock (login : AccountPoint) : Run (ofPartial sampleMachine.step)
    (sampleRace login sampleLocking) [.start 1, .finish 1]
    (sampleRace login (sampleLocked (.deleteNonces 0 sampleKeyless .erase) [])) := by
  have hsession : (sampleRace login sampleLocking).session 1 = some sampleLocking := rfl
  have hfind : findUser (sampleRace login sampleLocking).committed.toDatabase sampleKeyless.address =
      some sampleKeyless := rfl
  obtain ⟨exec, hop, hout⟩ : ∃ exec, sampleMachine.op sampleLocking.point = .write exec ∧ ∀ snap,
      exec snap (sampleRace login sampleLocking).committed =
        ⟨[.user sampleKeyless.address], [], .deleteNonces 0 sampleKeyless .erase⟩ := by
    rw [← afterLock_sample]
    exact op_lockAccount hfind
  exact Machine.write_run hsession hop (hout _) rfl

theorem sampleRace_strip (login : AccountPoint) : Run (ofPartial sampleMachine.step)
    (sampleRace login (sampleLocked (.deleteNonces 0 sampleKeyless .erase) []))
    [.start 1, .finish 1, .start 1, .finish 1] (sampleRace login sampleStripped) := by
  have hsweep : Run (ofPartial sampleMachine.step)
      (sampleRace login (sampleLocked (.deleteNonces 0 sampleKeyless .erase) [])) [.start 1, .finish 1]
      (sampleRace login (sampleLocked (.stripAccount 0 sampleKeyless .erase []) [.deleteNonces []])) :=
    Run.ofPartial_foldlM _ _ _ _ rfl
  have hsession : (sampleRace login (sampleLocked (.stripAccount 0 sampleKeyless .erase [])
      [.deleteNonces []])).session 1 =
        some (sampleLocked (.stripAccount 0 sampleKeyless .erase []) [.deleteNonces []]) := rfl
  have hfind : findUser (AccountChange.apply (sampleRace login sampleLocking).committed
      (.deleteNonces [])).toDatabase sampleKeyless.address = some sampleKeyless := rfl
  have hchecks : ((UserUpdate.between sampleKeyless sampleErased).set sampleKeyless).checks = true := by
    rw [UserUpdate.set_between]
    exact checks_sampleErased
  obtain ⟨exec, hop, hout⟩ : ∃ exec,
      sampleMachine.op (.stripAccount 0 sampleKeyless .erase []) = .write exec ∧ ∀ snap, exec snap
        (AccountChange.apply (sampleRace login sampleLocking).committed (.deleteNonces [])) =
          took [.updateUser sampleKeyless.address (.between sampleKeyless sampleErased)]
            (.accountStripped 0 sampleKeyless .erase []) := op_stripAccount hfind hchecks
  exact hsweep.append (Machine.write_run hsession hop (hout _) rfl)

/-- The deletion has committed, and the login is at the row that it read. -/
def sampleLate : State Accounts AccountRow AccountChange AccountPoint where
  committed := AccountChange.applyAll (sampleRace .ended sampleLocking).committed sampleStripped.log
  sessions := [some (.fresh (.updateIdentity true sampleKeyless.address sampleUpdate)),
    some (.fresh .ended)]

theorem run_sampleLate : ∃ as, Run (ofPartial sampleMachine.step)
    (.start (sampleOf sampleKeyless sampleChallenges [])) as sampleLate := by
  have hclaims : Run (ofPartial sampleMachine.step)
      (.start (sampleOf sampleKeyless sampleChallenges []))
      [.arrive ⟨0, sampleToken 0, .login true (sampleLogin (some '2'))⟩, .start 0, .finish 0,
        .commit 0, .arrive ⟨0, sampleToken 0, .deleteAccount .erase sampleErasure .deleted⟩,
        .select 1, .start 1, .finish 1, .commit 1]
      (sampleRace (.verifyLogin 0 true (sampleLogin (some '2'))) sampleLocking) :=
    Run.ofPartial_foldlM _ _ _ _ rfl
  have hcommit : sampleMachine.step
      (sampleRace (.updateIdentity true sampleKeyless.address sampleUpdate) sampleStripped)
      (.commit 1) = some sampleLate := by
    have hsession : (sampleRace (.updateIdentity true sampleKeyless.address sampleUpdate)
        sampleStripped).session 1 = some sampleStripped := rfl
    have hop : sampleMachine.op sampleStripped.point = .commit .ended := rfl
    exact Machine.commit_eq hsession hop
  exact ⟨_, hclaims.append (.cons sampleRace_verify (.cons sampleRace_read
    ((sampleRace_lock _).append ((sampleRace_strip _).append (.single hcommit)))))⟩

theorem mem_updateUser {c : Accounts} {u : User} (hu : u ∈ c.users) (upd : UserUpdate) :
    upd.set u ∈ (AccountChange.apply c (.updateUser u.address upd)).users := by
  have himage := Table.update_of_mem hu (·.address == u.address) upd.set (fun _ => rfl)
  rw [if_pos (beq_self_eq_true u.address)] at himage
  exact himage

theorem sampleErased_mem : sampleErased ∈ sampleLate.committed.users := by
  have hmem : sampleKeyless ∈ (AccountChange.apply (sampleRace .ended sampleLocking).committed
    (.deleteNonces [])).users := List.mem_singleton_self _
  have himage := mem_updateUser hmem (.between sampleKeyless sampleErased)
  rw [UserUpdate.set_between] at himage
  exact himage

theorem hasErased_sampleLate : HasErased sampleLate.committed sampleKeyless.address :=
  ⟨_, sampleErased_mem, rfl, rfl, rfl, rfl, rfl⟩

def sampleWritten : AccountSession where
  point := .identityUpdated sampleKeyless.address sampleUpdate
  snapshot := none
  held := [.user sampleKeyless.address]
  log := [.updateUser sampleKeyless.address sampleUpdate]

/-- The login writes the row that was erased after it had read it. -/
theorem run_sampleWritten : ∃ s, Run (ofPartial sampleMachine.step) sampleLate
      [.start 0, .finish 0, .commit 0] s ∧
    s.committed = sampleMachine.view sampleLate.committed sampleWritten := by
  have hsession : sampleLate.session 0 =
      some (.fresh (.updateIdentity true sampleKeyless.address sampleUpdate)) := rfl
  have hfind : findUser sampleLate.committed.toDatabase sampleKeyless.address = some sampleErased :=
    findUser_of_mem sampleErased_mem
  have hchecks : (sampleUpdate.set sampleErased).checks = true := checks_sampleRestored
  obtain ⟨exec, hop, hout⟩ : ∃ exec,
      sampleMachine.op (.updateIdentity true sampleKeyless.address sampleUpdate) = .write exec ∧
        ∀ snap, exec snap sampleLate.committed =
          took [.updateUser sampleKeyless.address sampleUpdate]
            (.identityUpdated sampleKeyless.address sampleUpdate) := op_updateIdentity hfind hchecks
  have hwrite : Run (ofPartial sampleMachine.step) sampleLate [.start 0, .finish 0]
      (sampleLate.put 0 (some sampleWritten)) := Machine.write_run hsession hop (hout _) rfl
  have hop' : sampleMachine.op sampleWritten.point =
      .commit (.refreshIdentity sampleKeyless.address) := rfl
  have hcommit := Machine.commit_eq (State.session_put_self hsession) hop'
  exact ⟨_, hwrite.append (.single hcommit), rfl⟩

end Kryptolog.Server
