import Kryptolog.Library.Script
import Kryptolog.Library.Fallible

/-! # What a vault holds for one identity

`packages/crypto-core/src/account.js`. An account has an identity, a current encryption key, and
the keys that a rotation retired. Everything but its name and its dates is derived from its seeds,
and `parseAccount` refuses an account whose stored keys or id disagree with them.

The key suites are a parameter. A seed that is no string is refused here, as the derivation does
where the pattern happens to match what the value converts to.
-/

namespace Kryptolog.Client
set_option autoImplicit false

open Script Fallible

/-- The derivations of the suites in use. -/
structure KeySuites where
  identityPublicKeyOf : Text → Text
  encryptionPublicKeyOf : Text → Text
  addressOf : Text → Text
  encryptionKeyId : Text → Text
  isIdentitySeed : Text → Bool
  isEncryptionSeed : Text → Bool
  /-- `KEM_ALG`. -/
  kemAlg : String

structure KeyPair where
  seed : Text
  publicKey : Text
  deriving DecidableEq

/-- The record of an encryption key, whose algorithm is always `KEM_ALG`. -/
structure EncryptionKey where
  kid : Text
  seed : Text
  publicKey : Text
  createdAt : Number
  deriving DecidableEq

structure RetiredKey extends EncryptionKey where
  retiredAt : Number
  deriving DecidableEq

structure Account where
  id : Text
  name : Text
  createdAt : Number
  identity : KeyPair
  encryption : EncryptionKey
  retiredEncryption : List RetiredKey
  deriving DecidableEq

def maxRetiredEncryptionKeys : ℕ := 32

/-- The number `0`. -/
def Number.zero : Number := ⟨['0'], rfl, rfl⟩

/-- The keys that the account opens with, the current one first. -/
def Account.keys (a : Account) : List EncryptionKey :=
  a.encryption :: a.retiredEncryption.map (·.toEncryptionKey)

theorem Account.map_kid_keys (a : Account) :
    a.keys.map (·.kid) = a.encryption.kid :: a.retiredEncryption.map (·.kid) := by
  rw [keys, List.map_cons, List.map_map]
  rfl

def Account.seeds (a : Account) : List Text := a.keys.map (·.seed)

def encryptionKeyFor (a : Account) (kid : Text) : Option EncryptionKey := a.keys.find? (·.kid == kid)

/-! ## Parsing -/

/-- `Number.isFinite(value) ? value : otherwise`. -/
def finiteOr (otherwise : Number) : Option Value → Number
  | some (.num n) => n
  | _ => otherwise

def checkPair (half : Option Value) (what : String) (isSeed : Text → Bool) (derive : Text → Text) :
    Except String KeyPair :=
  match half.bind (·.get "seed") with
  | some (.str seed) =>
    if !isSeed seed then .error s!"account: missing or malformed {what} seed"
    else
      match half.bind (·.get "publicKey") with
      | none => .ok ⟨seed, derive seed⟩
      | some (.str stored) =>
        if stored = derive seed then .ok ⟨seed, derive seed⟩
        else .error s!"account: the stored {what} public key is not its seed's"
      | some _ => .error s!"account: the stored {what} public key is not its seed's"
  | _ => .error s!"account: missing or malformed {what} seed"

/-- A stored text that may be left out, but not another one. -/
def agrees (stored : Option Value) (derived : Text) : Bool :=
  match stored with
  | none => true
  | some (.str text) => text == derived
  | some _ => false

section parse

variable (suites : KeySuites)

def checkEncryptionKey (record : Option Value) (what : String) : Except String EncryptionKey := do
  let pair ← checkPair record what suites.isEncryptionSeed suites.encryptionPublicKeyOf
  let alg := record.bind (·.get "alg")
  refuseIf (alg.isNone || !agrees alg (lit suites.kemAlg)) s!"account: {what} is not a {suites.kemAlg} key"
  let kid := suites.encryptionKeyId pair.publicKey
  refuseIf (!agrees (record.bind (·.get "kid")) kid) s!"account: the stored {what} id is not its key's"
  .ok ⟨kid, pair.seed, pair.publicKey, finiteOr Number.zero (record.bind (·.get "createdAt"))⟩

/-- The retired keys, none of which is in `kids` or appears twice. -/
def checkRetired (kids : List Text) : List Value → Except String (List RetiredKey)
  | [] => .ok []
  | record :: records => do
    let key ← checkEncryptionKey suites (some record) "retired encryption key"
    refuseIf (kids.contains key.kid) "account: an encryption key appears twice"
    let rest ← checkRetired (key.kid :: kids) records
    .ok (⟨key, finiteOr Number.zero (record.get "retiredAt")⟩ :: rest)

def older (what : String) : String :=
  s!"This identity was created by an older Kryptolog version ({what}) and cannot be used by this one."

def legacyFields : List String := ["mldsa", "mlkem", "dilithium", "kyber"]

/-- The list of retired keys: absent and `null` are empty. -/
def retiredInput (account : Value) : Except String (List Value) :=
  match account.get "retiredEncryption" with
  | none | some .null => .ok []
  | some (.arr records) =>
    if maxRetiredEncryptionKeys < records.length then
      .error "account: malformed list of retired encryption keys"
    else .ok records
  | some _ => .error "account: malformed list of retired encryption keys"

def isObject : Value → Bool
  | .obj _ | .arr _ => true
  | _ => false

/-- The account in canonical form. `now` is the date of an account that has none. -/
def parseAccount (now : Number) (account : Value) : Except String Account := do
  refuseIf (!isObject account) "account: not an account"
  refuseIf (legacyFields.any fun field => (account.get field).isSome) (older "ML-DSA-44 / ML-KEM-768 keys")
  let stored := account.get "encryption"
  refuseIf (stored.any isObject && (stored.bind (·.get "alg")).isNone)
    (older "ML-DSA-65 + Ed25519 / X-Wing keys")
  let identity ← checkPair (account.get "identity") "identity" suites.isIdentitySeed
    suites.identityPublicKeyOf
  let encryption ← checkEncryptionKey suites stored "encryption key"
  let records ← retiredInput account
  let retired ← checkRetired suites [encryption.kid] records
  let id := suites.addressOf identity.publicKey
  refuseIf (!agrees (account.get "id") id) "account: the stored id is not its identity key's address"
  let name := match account.get "name" with
    | some (.str name) => name
    | _ => []
  .ok ⟨id, name, finiteOr now (account.get "createdAt"), identity, encryption, retired⟩

end parse

/-! ## What parsing leaves -/

/-- An account in the form that `parseAccount` returns. -/
structure Account.Canonical (suites : KeySuites) (a : Account) : Prop where
  identity : suites.isIdentitySeed a.identity.seed = true ∧
    a.identity.publicKey = suites.identityPublicKeyOf a.identity.seed
  id : a.id = suites.addressOf a.identity.publicKey
  keys : ∀ k ∈ a.keys, suites.isEncryptionSeed k.seed = true ∧
    k.publicKey = suites.encryptionPublicKeyOf k.seed ∧ k.kid = suites.encryptionKeyId k.publicKey
  kids : (a.keys.map (·.kid)).Nodup
  capacity : a.retiredEncryption.length ≤ maxRetiredEncryptionKeys

section canonical

variable {suites : KeySuites} {now : Number} {account : Value} {a : Account}

theorem checkPair_eq_ok {half : Option Value} {what : String} {isSeed : Text → Bool}
    {derive : Text → Text} {pair : KeyPair} (h : checkPair half what isSeed derive = .ok pair) :
    isSeed pair.seed = true ∧ pair.publicKey = derive pair.seed := by
  unfold checkPair at h
  split at h
  · next seed _ =>
    split at h
    · cases h
    · next hseed =>
      have hpair : (⟨seed, derive seed⟩ : KeyPair) = pair := by
        split at h
        · exact Except.ok.inj h
        · split at h
          · exact Except.ok.inj h
          · cases h
        · cases h
      rw [← hpair]
      exact ⟨by simpa using hseed, rfl⟩
  · cases h

theorem checkEncryptionKey_eq_ok {record : Option Value} {what : String} {k : EncryptionKey}
    (h : checkEncryptionKey suites record what = .ok k) : suites.isEncryptionSeed k.seed = true ∧
      k.publicKey = suites.encryptionPublicKeyOf k.seed ∧
      k.kid = suites.encryptionKeyId k.publicKey := by
  unfold checkEncryptionKey at h
  simp only [bind_eq_ok] at h
  obtain ⟨pair, hpair, -, -, -, -, hk⟩ := h
  obtain ⟨hseed, hpublic⟩ := checkPair_eq_ok hpair
  cases hk
  exact ⟨hseed, hpublic, rfl⟩

theorem checkRetired_eq_ok {kids : List Text} {records : List Value} {retired : List RetiredKey}
    (h : checkRetired suites kids records = .ok retired) :
    retired.length = records.length ∧
    (∀ k ∈ retired, suites.isEncryptionSeed k.seed = true ∧
      k.publicKey = suites.encryptionPublicKeyOf k.seed ∧
      k.kid = suites.encryptionKeyId k.publicKey) ∧
    (retired.map (·.kid)).Nodup ∧ ∀ k ∈ retired, k.kid ∉ kids := by
  induction records generalizing kids retired with
  | nil =>
    cases h
    exact ⟨rfl, by simp, List.nodup_nil, by simp⟩
  | cons record records ih =>
    rw [checkRetired] at h
    simp only [bind_eq_ok] at h
    obtain ⟨key, hkey, u, hfresh, rest, hrest, hretired⟩ := h
    cases hretired
    obtain ⟨hlength, hkeys, hnodup, hnew⟩ := ih hrest
    have hkid : key.kid ∉ kids := by
      have hcontains := refuseIf_eq_ok.mp hfresh
      simpa using hcontains
    refine ⟨congrArg Nat.succ hlength, ?_, ?_, ?_⟩
    · exact List.forall_mem_cons.mpr ⟨checkEncryptionKey_eq_ok hkey, hkeys⟩
    · rw [List.map_cons, List.nodup_cons]
      refine ⟨fun hmem => ?_, hnodup⟩
      obtain ⟨k, hk, hkk⟩ := List.mem_map.mp hmem
      exact hnew k hk (hkk ▸ List.mem_cons_self)
    · exact List.forall_mem_cons.mpr ⟨hkid, fun k hk hmem => hnew k hk (List.mem_cons_of_mem _ hmem)⟩

theorem length_of_retiredInput {records : List Value} (h : retiredInput account = .ok records) :
    records.length ≤ maxRetiredEncryptionKeys := by
  unfold retiredInput at h
  split at h
  · cases h
    exact Nat.zero_le _
  · cases h
    exact Nat.zero_le _
  · split at h
    · cases h
    · next hlength =>
      cases h
      exact Nat.not_lt.mp hlength
  · cases h

/-- What is parsed is what its seeds say. -/
theorem canonical_of_parseAccount (h : parseAccount suites now account = .ok a) : a.Canonical suites := by
  unfold parseAccount at h
  simp only [bind_eq_ok] at h
  obtain ⟨-, -, -, -, -, -, identity, hidentity, encryption, hencryption, records, hrecords, retired,
    hretired, -, -, ha⟩ := h
  obtain ⟨hlength, hkeys, hnodup, hnew⟩ := checkRetired_eq_ok hretired
  cases ha
  refine ⟨checkPair_eq_ok hidentity, rfl, ?_, ?_, ?_⟩
  · refine List.forall_mem_cons.mpr ⟨checkEncryptionKey_eq_ok hencryption, fun k hk => ?_⟩
    obtain ⟨r, hr, rfl⟩ := List.mem_map.mp hk
    exact hkeys r hr
  · rw [Account.map_kid_keys, List.nodup_cons]
    refine ⟨fun hmem => ?_, hnodup⟩
    obtain ⟨k, hk, hkk⟩ := List.mem_map.mp hmem
    exact hnew k hk (hkk ▸ List.mem_cons_self)
  · exact hlength.le.trans (length_of_retiredInput hrecords)

end canonical

/-! ## Rotation -/

/-- `rotateAccountEncryptionKey`, with the key pair that it generates. -/
def rotateAccountEncryptionKey (suites : KeySuites) (fresh : KeyPair) (now : Number) (account : Account) :
    Except String Account := do
  refuseIf (maxRetiredEncryptionKeys ≤ account.retiredEncryption.length)
    (s!"This identity already keeps {maxRetiredEncryptionKeys} retired encryption keys; " ++
      "destroy one before rotating again.")
  .ok { account with
    encryption := ⟨suites.encryptionKeyId fresh.publicKey, fresh.seed, fresh.publicKey, now⟩
    retiredEncryption := ⟨account.encryption, now⟩ :: account.retiredEncryption }

/-- A text in a message. -/
def shown (text : Text) : String :=
  String.ofList (text.map fun
    | .char c => c
    | .surrogate _ => '\uFFFD')

def destroyRetiredEncryptionKey (account : Account) (kid : Text) : Except String Account := do
  refuseIf (account.encryption.kid == kid) "The current encryption key cannot be destroyed."
  refuseIf (!account.retiredEncryption.any (·.kid == kid))
    s!"No retired encryption key {shown kid} on this identity."
  .ok { account with retiredEncryption := account.retiredEncryption.filter (·.kid != kid) }

/-- `revertAccountEncryptionKeyRotation`: the key that was current is retired, and not dropped. -/
def revertAccountEncryptionKeyRotation (account : Account) (newKid : Text) (now : Number) :
    Except String Account :=
  match account.retiredEncryption with
  | previous :: older =>
    if account.encryption.kid = newKid then
      .ok { account with
        encryption := previous.toEncryptionKey
        retiredEncryption := ⟨account.encryption, now⟩ :: older }
    else .error "There is no rotation to undo for this key."
  | [] => .error "There is no rotation to undo for this key."

section rotation

variable {suites : KeySuites} {fresh : KeyPair} {now : Number} {a b : Account} {kid : Text}

theorem keys_rotate (h : rotateAccountEncryptionKey suites fresh now a = .ok b) :
    b.id = a.id ∧ b.identity = a.identity ∧ b.keys =
      ⟨suites.encryptionKeyId fresh.publicKey, fresh.seed, fresh.publicKey, now⟩ :: a.keys := by
  obtain ⟨-, -, hb⟩ := bind_eq_ok.mp h
  cases hb
  exact ⟨rfl, rfl, rfl⟩

theorem keys_revert (h : revertAccountEncryptionKeyRotation a kid now = .ok b) :
    b.id = a.id ∧ b.identity = a.identity ∧ b.keys.Perm a.keys := by
  unfold revertAccountEncryptionKeyRotation at h
  split at h
  · next previous older hretired =>
    split at h
    · cases h
      refine ⟨rfl, rfl, ?_⟩
      rw [Account.keys, Account.keys, hretired]
      exact List.Perm.swap _ _ _
    · cases h
  · cases h

theorem keys_destroy (h : destroyRetiredEncryptionKey a kid = .ok b) :
    b.id = a.id ∧ b.identity = a.identity ∧ b.encryption = a.encryption ∧
      b.keys = a.keys.filter (·.kid != kid) := by
  obtain ⟨u, hcurrent, h⟩ := bind_eq_ok.mp h
  obtain ⟨-, -, hb⟩ := bind_eq_ok.mp h
  have hne : (a.encryption.kid != kid) = true := by
    rw [bne, refuseIf_eq_ok.mp hcurrent]
    rfl
  cases hb
  refine ⟨rfl, rfl, rfl, ?_⟩
  rw [Account.keys, Account.keys, List.filter_cons, if_pos hne, List.filter_map]
  rfl

end rotation

end Kryptolog.Client
