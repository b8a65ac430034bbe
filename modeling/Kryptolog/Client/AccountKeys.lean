import Kryptolog.Client.Backup
import Kryptolog.Library.Runs

/-! # The keys of an account over its rotations

An account is an object that every operation of `account.js` parses before it works on it. What an
operation returns is in the form that parsing leaves, so it is parsed to itself, and what a sequence
of rotations, reverts and destructions does to the keys can be read off the records.
-/

namespace Kryptolog.Client
set_option autoImplicit false

open Script Fallible Runs

/-! ## The objects -/

section objects

variable (suites : KeySuites)

def KeyPair.value (pair : KeyPair) : Value :=
  .obj [(lit "seed", .str pair.seed), (lit "publicKey", .str pair.publicKey)]

def EncryptionKey.fields (key : EncryptionKey) : List (Text × Value) :=
  [(lit "alg", .str (lit suites.kemAlg)), (lit "kid", .str key.kid), (lit "seed", .str key.seed),
    (lit "publicKey", .str key.publicKey), (lit "createdAt", .num key.createdAt)]

def EncryptionKey.value (key : EncryptionKey) : Value := .obj (key.fields suites)

def RetiredKey.value (key : RetiredKey) : Value :=
  .obj (key.fields suites ++ [(lit "retiredAt", .num key.retiredAt)])

/-- The object of an account. -/
def Account.value (a : Account) : Value :=
  .obj [(lit "id", .str a.id), (lit "name", .str a.name), (lit "createdAt", .num a.createdAt),
    (lit "identity", a.identity.value), (lit "encryption", a.encryption.value suites),
    (lit "retiredEncryption", .arr (a.retiredEncryption.map (·.value suites)))]

end objects

/-! ## Parsing what was parsed -/

section canonical

variable {suites : KeySuites} {clock : Number} {a : Account}

theorem checkEncryptionKey_fields {key : EncryptionKey} {rest : List (Text × Value)} {what : String}
    (hseed : suites.isEncryptionSeed key.seed = true)
    (hpublic : key.publicKey = suites.encryptionPublicKeyOf key.seed)
    (hkid : key.kid = suites.encryptionKeyId key.publicKey) :
    checkEncryptionKey suites (some (.obj (key.fields suites ++ rest))) what = .ok key := by
  have hget : ∀ name v, (key.fields suites).lookup (lit name) = some v →
      (some (Value.obj (key.fields suites ++ rest))).bind (·.get name) = some v := by
    intro name v h
    rw [Option.bind_some, Value.get, List.lookup_append, h]
    rfl
  have hpair : checkPair (some (.obj (key.fields suites ++ rest))) what suites.isEncryptionSeed
      suites.encryptionPublicKeyOf = .ok ⟨key.seed, key.publicKey⟩ := by
    rw [checkPair, hget "seed" _ rfl, hget "publicKey" _ rfl]
    simp [hseed, ← hpublic]
  rw [checkEncryptionKey, hpair, ok_bind, hget "alg" _ rfl, hget "kid" _ rfl, hget "createdAt" _ rfl]
  simp [agrees, refuseIf, ← hkid, finiteOr, bind, Except.bind]

/-- A record with an id that its key determines. -/
def KeyRecord (suites : KeySuites) (key : EncryptionKey) : Prop :=
  suites.isEncryptionSeed key.seed = true ∧ key.publicKey = suites.encryptionPublicKeyOf key.seed ∧
    key.kid = suites.encryptionKeyId key.publicKey

theorem checkRetired_value {kids : List Text} {keys : List RetiredKey}
    (hkeys : ∀ k ∈ keys, KeyRecord suites k.toEncryptionKey) (hnodup : (keys.map (·.kid)).Nodup)
    (hnew : ∀ k ∈ keys, k.kid ∉ kids) :
    checkRetired suites kids (keys.map (·.value suites)) = .ok keys := by
  induction keys generalizing kids with
  | nil => rfl
  | cons key keys ih =>
    obtain ⟨⟨hseed, hpublic, hkid⟩, hrest⟩ := List.forall_mem_cons.mp hkeys
    obtain ⟨hfresh, hrestNew⟩ := List.forall_mem_cons.mp hnew
    rw [List.map_cons, List.nodup_cons] at hnodup
    have hlater : ∀ k ∈ keys, k.kid ∉ key.kid :: kids := by
      intro k hk hmem
      rcases List.mem_cons.mp hmem with heq | hmem
      · exact hnodup.1 (heq ▸ List.mem_map_of_mem hk)
      · exact hrestNew k hk hmem
    have hretired : (RetiredKey.value suites key).get "retiredAt" = some (.num key.retiredAt) := rfl
    have hfreshBool : kids.contains key.kid = false := by simpa using hfresh
    rw [List.map_cons, checkRetired, RetiredKey.value, checkEncryptionKey_fields hseed hpublic hkid,
      ok_bind, hfreshBool, ih hrest hnodup.2 hlater, ← RetiredKey.value, hretired]
    rfl

/-- An account in canonical form is parsed to itself. -/
theorem parseAccount_value (h : a.Canonical suites) (clock : Number) :
    parseAccount suites clock (a.value suites) = .ok a := by
  obtain ⟨⟨hseed, hpublic⟩, hid, hkeys, hkids, hcapacity⟩ := h
  obtain ⟨hcurrent, hretired⟩ := List.forall_mem_cons.mp hkeys
  rw [Account.map_kid_keys, List.nodup_cons] at hkids
  have hidentity : checkPair ((a.value suites).get "identity") "identity" suites.isIdentitySeed
      suites.identityPublicKeyOf = .ok a.identity := by
    change checkPair (some a.identity.value) _ _ _ = _
    have hpair : (some a.identity.value).bind (·.get "seed") = some (.str a.identity.seed) ∧
        (some a.identity.value).bind (·.get "publicKey") = some (.str a.identity.publicKey) := ⟨rfl, rfl⟩
    rw [checkPair, hpair.1, hpair.2]
    simp [hseed, ← hpublic]
  have hencryption : checkEncryptionKey suites ((a.value suites).get "encryption") "encryption key" =
      .ok a.encryption := by
    have hvalue : (a.value suites).get "encryption" = some (.obj (a.encryption.fields suites ++ [])) := by
      rw [List.append_nil]
      rfl
    rw [hvalue]
    exact checkEncryptionKey_fields hcurrent.1 hcurrent.2.1 hcurrent.2.2
  have hinput : retiredInput (a.value suites) = .ok (a.retiredEncryption.map (·.value suites)) := by
    change (if maxRetiredEncryptionKeys < (a.retiredEncryption.map (·.value suites)).length then _ else _) = _
    rw [List.length_map, if_neg (Nat.not_lt.mpr hcapacity)]
  have hrecords : checkRetired suites [a.encryption.kid] (a.retiredEncryption.map (·.value suites)) =
      .ok a.retiredEncryption := by
    refine checkRetired_value (fun k hk => hretired _ (List.mem_map_of_mem hk)) hkids.2 fun k hk hmem => ?_
    exact hkids.1 (List.mem_singleton.mp hmem ▸ List.mem_map_of_mem hk)
  have hagrees : agrees ((a.value suites).get "id") (suites.addressOf a.identity.publicKey) = true := by
    change (a.id == suites.addressOf a.identity.publicKey) = true
    rw [hid]
    exact beq_self_eq_true _
  unfold parseAccount
  simp only [hidentity, hencryption, hinput, hrecords, hagrees, ok_bind]
  change Except.ok (⟨suites.addressOf a.identity.publicKey, _, _, _, _, _⟩ : Account) = _
  rw [← hid]
  rfl

end canonical

/-! ## The operations on stored accounts -/

inductive KeyAction
  /-- With the pair that `generateEncryptionKeyPair` returns. -/
  | rotate (fresh : KeyPair) (now : Number)
  | revert (newKid : Text) (now : Number)
  | destroy (kid : Text)

/-- An operation on the object of an account, which it parses first. -/
def KeyAction.apply (suites : KeySuites) (clock : Number) (account : Value) (action : KeyAction) :
    Except String Account := do
  let current ← parseAccount suites clock account
  match action with
  | .rotate fresh now => rotateAccountEncryptionKey suites fresh now current
  | .revert newKid now => revertAccountEncryptionKeyRotation current newKid now
  | .destroy kid => destroyRetiredEncryptionKey current kid

/-- A generated pair belongs together, and its id is that of no key held so far. -/
def KeyAction.Fresh (suites : KeySuites) (a : Account) : KeyAction → Prop
  | .rotate fresh _ => suites.isEncryptionSeed fresh.seed = true ∧
      fresh.publicKey = suites.encryptionPublicKeyOf fresh.seed ∧
      suites.encryptionKeyId fresh.publicKey ∉ a.keys.map (·.kid)
  | _ => True

/-- An operation that succeeds on the account that the one before it returned. -/
def KeyStep (suites : KeySuites) (a : Account) (step : Number × KeyAction) (b : Account) : Prop :=
  step.2.apply suites step.1 (a.value suites) = .ok b

/-- The text that a message names a missing key by. -/
def missingKid (kid : Option Value) : Text :=
  match kid with
  | none | some .null => lit "(none)"
  | some v => v.toText.getD []

/-- `encryptionSeedFor`. -/
def encryptionSeedFor (account : Account) (envelope : Value) : Except String Text :=
  let kid := envelope.get "kid"
  let held := match kid with
    | some (.str text) => encryptionKeyFor account text
    | _ => none
  match held with
  | some key => .ok key.seed
  | none => .error s!"This was encrypted to a key ({shown (missingKid kid)}) this account no longer holds."

/-- The record of a generated pair. -/
def freshKey (suites : KeySuites) (fresh : KeyPair) (now : Number) : EncryptionKey :=
  ⟨suites.encryptionKeyId fresh.publicKey, fresh.seed, fresh.publicKey, now⟩

/-- What an operation that succeeds makes of the keys. -/
def KeyLaw (suites : KeySuites) (a : Account) (action : KeyAction) (b : Account) : Prop :=
  match action with
  | .rotate fresh now => b.encryption = freshKey suites fresh now ∧ b.keys = freshKey suites fresh now :: a.keys
  | .revert _ _ => ∃ previous older, a.retiredEncryption = previous :: older ∧
      b.encryption = previous.toEncryptionKey ∧ b.keys.Perm a.keys
  | .destroy kid => b.encryption = a.encryption ∧
      ∃ k ∈ a.retiredEncryption, k.kid = kid ∧ a.keys.Perm (k.toEncryptionKey :: b.keys)

/-- What holds of an account between two operations, and of the operations on it. -/
structure KeyAlgebra (suites : KeySuites) (a : Account) : Prop where
  reparsed : ∀ clock, parseAccount suites clock (a.value suites) = .ok a
  kids : (a.keys.map (·.kid)).Nodup
  capacity : a.retiredEncryption.length ≤ maxRetiredEncryptionKeys
  current : a.encryption.kid ∉ a.retiredEncryption.map (·.kid)
  law : ∀ clock action b, action.apply suites clock (a.value suites) = .ok b → KeyLaw suites a action b
  /-- A revert right after a rotation. -/
  undo : ∀ clock fresh now b, (KeyAction.rotate fresh now).apply suites clock (a.value suites) = .ok b →
    (KeyAction.rotate fresh now).Fresh suites a → ∀ clock' now', ∃ c,
      (KeyAction.revert b.encryption.kid now').apply suites clock' (b.value suites) = .ok c ∧
      c.encryption = a.encryption
  opens : ∀ k ∈ a.keys, ∀ envelope : Value, envelope.get "kid" = some (.str k.kid) →
    encryptionSeedFor a envelope = .ok k.seed

section algebra

variable {suites : KeySuites} {clock now : Number} {fresh : KeyPair} {kid : Text} {a b : Account}
  {action : KeyAction}

theorem apply_value (h : a.Canonical suites) : action.apply suites clock (a.value suites) =
    match action with
    | .rotate fresh now => rotateAccountEncryptionKey suites fresh now a
    | .revert newKid now => revertAccountEncryptionKeyRotation a newKid now
    | .destroy kid => destroyRetiredEncryptionKey a kid := by
  rw [KeyAction.apply, parseAccount_value h, ok_bind]

theorem rotate_eq_ok : rotateAccountEncryptionKey suites fresh now a = .ok b ↔
    a.retiredEncryption.length < maxRetiredEncryptionKeys ∧
      b = { a with
        encryption := freshKey suites fresh now
        retiredEncryption := ⟨a.encryption, now⟩ :: a.retiredEncryption } := by
  rw [rotateAccountEncryptionKey, bind_eq_ok]
  constructor
  · rintro ⟨u, hcapacity, hb⟩
    rw [refuseIf_eq_ok, decide_eq_false_iff_not, Nat.not_le] at hcapacity
    exact ⟨hcapacity, (Except.ok.inj hb).symm⟩
  · rintro ⟨hcapacity, rfl⟩
    exact ⟨(), refuseIf_eq_ok.mpr (decide_eq_false (Nat.not_le.mpr hcapacity)), rfl⟩

theorem revert_eq_ok : revertAccountEncryptionKeyRotation a kid now = .ok b ↔
    a.encryption.kid = kid ∧ ∃ previous older, a.retiredEncryption = previous :: older ∧
      b = { a with
        encryption := previous.toEncryptionKey
        retiredEncryption := ⟨a.encryption, now⟩ :: older } := by
  unfold revertAccountEncryptionKeyRotation
  cases hretired : a.retiredEncryption with
  | nil => simp
  | cons previous older =>
    by_cases hkid : a.encryption.kid = kid
    · simp only [hkid, if_true, true_and, List.cons.injEq, Except.ok.injEq]
      constructor
      · rintro rfl
        exact ⟨previous, older, ⟨rfl, rfl⟩, rfl⟩
      · rintro ⟨_, _, ⟨rfl, rfl⟩, rfl⟩
        rfl
    · simp [hkid]

theorem destroy_eq_ok (h : destroyRetiredEncryptionKey a kid = .ok b) :
    a.encryption.kid ≠ kid ∧ (∃ k ∈ a.retiredEncryption, k.kid = kid) ∧
      b = { a with retiredEncryption := a.retiredEncryption.filter (·.kid != kid) } := by
  obtain ⟨_, hcurrent, h⟩ := bind_eq_ok.mp h
  obtain ⟨_, hheld, hb⟩ := bind_eq_ok.mp h
  rw [refuseIf_eq_ok, beq_eq_false_iff_ne] at hcurrent
  rw [refuseIf_eq_ok, Bool.not_eq_false', List.any_eq_true] at hheld
  obtain ⟨k, hk, hkid⟩ := hheld
  exact ⟨hcurrent, ⟨k, hk, beq_iff_eq.mp hkid⟩, (Except.ok.inj hb).symm⟩

/-- An operation keeps the form that parsing leaves. -/
theorem Account.Canonical.step (h : a.Canonical suites) (hfresh : action.Fresh suites a)
    (hb : action.apply suites clock (a.value suites) = .ok b) : b.Canonical suites := by
  rw [apply_value h] at hb
  cases action with
  | rotate fresh now =>
    obtain ⟨hseed, hpublic, hnew⟩ := hfresh
    obtain ⟨hid, hidentity, hkeys⟩ := keys_rotate hb
    obtain ⟨hcapacity, rfl⟩ := rotate_eq_ok.mp hb
    refine ⟨h.identity, h.id, ?_, ?_, hcapacity⟩
    · rw [hkeys]
      exact List.forall_mem_cons.mpr ⟨⟨hseed, hpublic, rfl⟩, h.keys⟩
    · rw [hkeys, List.map_cons, List.nodup_cons]
      exact ⟨hnew, h.kids⟩
  | revert newKid now =>
    obtain ⟨hid, hidentity, hkeys⟩ := keys_revert hb
    obtain ⟨-, previous, older, hretired, rfl⟩ := revert_eq_ok.mp hb
    refine ⟨h.identity, h.id, fun k hk => h.keys k (hkeys.mem_iff.mp hk), ?_, ?_⟩
    · exact ((hkeys.map (·.kid)).nodup_iff).mpr h.kids
    · have hcapacity := h.capacity
      rw [hretired] at hcapacity
      exact hcapacity
  | destroy kid =>
    obtain ⟨hid, hidentity, -, hkeys⟩ := keys_destroy hb
    obtain ⟨-, -, rfl⟩ := destroy_eq_ok hb
    refine ⟨h.identity, h.id, ?_, ?_, (List.length_filter_le _ _).trans h.capacity⟩
    · rw [hkeys]
      exact fun k hk => h.keys k (List.mem_filter.mp hk).1
    · rw [hkeys]
      exact h.kids.sublist (List.filter_sublist.map _)

theorem Account.Canonical.run {steps : List (Number × KeyAction)}
    (h : Run (restrict (fun a step => step.2.Fresh suites a) (KeyStep suites)) a steps b)
    (ha : a.Canonical suites) : b.Canonical suites :=
  h.invariant (fun _ _ _ h hst => h.step hst.1 hst.2) ha

/-- Of keys with different ids, filtering one id out removes the key that has it. -/
theorem perm_cons_filter_kid {keys : List RetiredKey} {k : RetiredKey} (hk : k ∈ keys)
    (hnodup : (keys.map (·.kid)).Nodup) : keys.Perm (k :: keys.filter (·.kid != k.kid)) := by
  induction keys with
  | nil => cases hk
  | cons key keys ih =>
    rw [List.map_cons, List.nodup_cons] at hnodup
    rw [List.filter_cons]
    rcases List.mem_cons.mp hk with rfl | hk
    · have hrest : keys.filter (·.kid != k.kid) = keys := by
        refine List.filter_eq_self.mpr fun key hkey => bne_iff_ne.mpr fun heq => ?_
        exact hnodup.1 (heq ▸ List.mem_map_of_mem hkey)
      rw [if_neg (by simp), hrest]
    · have hne : key.kid ≠ k.kid := fun heq => hnodup.1 (heq ▸ List.mem_map_of_mem hk)
      rw [if_pos (bne_iff_ne.mpr hne)]
      exact ((ih hk hnodup.2).cons key).trans (.swap _ _ _)

theorem keyLaw_of_apply (h : a.Canonical suites)
    (hb : action.apply suites clock (a.value suites) = .ok b) : KeyLaw suites a action b := by
  rw [apply_value h] at hb
  cases action with
  | rotate fresh now =>
    obtain ⟨-, rfl⟩ := rotate_eq_ok.mp hb
    exact ⟨rfl, rfl⟩
  | revert newKid now =>
    obtain ⟨-, -, hkeys⟩ := keys_revert hb
    obtain ⟨-, previous, older, hretired, rfl⟩ := revert_eq_ok.mp hb
    exact ⟨previous, older, hretired, rfl, hkeys⟩
  | destroy kid =>
    obtain ⟨-, ⟨k, hk, rfl⟩, rfl⟩ := destroy_eq_ok hb
    have hkids := h.kids
    rw [Account.map_kid_keys, List.nodup_cons] at hkids
    have hperm := (perm_cons_filter_kid hk hkids.2).map (·.toEncryptionKey)
    exact ⟨rfl, k, hk, rfl, (hperm.cons a.encryption).trans (.swap _ _ _)⟩

theorem encryptionKeyFor_mem (hkids : (a.keys.map (·.kid)).Nodup) {k : EncryptionKey} (hk : k ∈ a.keys) :
    encryptionKeyFor a k.kid = some k := by
  unfold encryptionKeyFor
  cases hfind : a.keys.find? (·.kid == k.kid) with
  | none =>
    have hnone := List.find?_eq_none.mp hfind k hk
    exact absurd (beq_self_eq_true k.kid) hnone
  | some k' =>
    have hkid := List.find?_some hfind
    rw [List.inj_on_of_nodup_map hkids (List.mem_of_find?_eq_some hfind) hk (beq_iff_eq.mp hkid)]

theorem Account.Canonical.keyAlgebra (h : a.Canonical suites) : KeyAlgebra suites a where
  reparsed := parseAccount_value h
  kids := h.kids
  capacity := h.capacity
  current := by
    have hkids := h.kids
    rw [Account.map_kid_keys, List.nodup_cons] at hkids
    exact hkids.1
  law clock action b hb := keyLaw_of_apply h hb
  undo clock fresh now b hb hfresh clock' now' := by
    have hcanonical := h.step hfresh hb
    rw [apply_value h] at hb
    obtain ⟨-, rfl⟩ := rotate_eq_ok.mp hb
    rw [apply_value hcanonical]
    exact ⟨_, revert_eq_ok.mpr ⟨rfl, ⟨a.encryption, now⟩, a.retiredEncryption, rfl, rfl⟩, rfl⟩
  opens k hk envelope henvelope := by
    simp only [encryptionSeedFor, henvelope, encryptionKeyFor_mem h.kids hk]

end algebra

/-- Rotations, reverts and destructions that succeed keep an account in order, whatever object it was
parsed from, while every generated key is new to it. -/
theorem account_key_algebra {suites : KeySuites} {clock : Number} {account : Value} {a₀ a : Account}
    {steps : List (Number × KeyAction)} (hparse : parseAccount suites clock account = .ok a₀)
    (hrun : Run (restrict (fun a step => step.2.Fresh suites a) (KeyStep suites)) a₀ steps a) :
    (∀ action : KeyAction, action.apply suites clock account = action.apply suites clock (a₀.value suites)) ∧
      KeyAlgebra suites a := by
  have hcanonical := canonical_of_parseAccount hparse
  refine ⟨fun action => ?_, (hcanonical.run hrun).keyAlgebra⟩
  rw [KeyAction.apply, KeyAction.apply, hparse, parseAccount_value hcanonical]

/-- A rotation, its revert, and the destruction of the key that was not published. -/
theorem account_key_algebra_sample : ∃ steps a,
    parseAccount sampleSuites Number.zero (sampleRecord "first" []) = .ok (sampleAccount "first" []) ∧
    Run (restrict (fun a step => step.2.Fresh sampleSuites a) (KeyStep sampleSuites))
      (sampleAccount "first" []) steps a ∧ steps.length = 3 ∧ a = sampleAccount "first" [] ∧
    KeyAlgebra sampleSuites a := by
  have hparse : parseAccount sampleSuites Number.zero (sampleRecord "first" []) =
      .ok (sampleAccount "first" []) := rfl
  let pair : KeyPair := ⟨lit "second", lit "encryption second"⟩
  have hrotate : KeyStep sampleSuites (sampleAccount "first" []) (Number.zero, .rotate pair Number.zero)
      (sampleAccount "second" ["first"]) := rfl
  have hrevert : KeyStep sampleSuites (sampleAccount "second" ["first"])
      (Number.zero, .revert (lit "encryption second") Number.zero) (sampleAccount "first" ["second"]) := rfl
  have hdestroy : KeyStep sampleSuites (sampleAccount "first" ["second"])
      (Number.zero, .destroy (lit "encryption second")) (sampleAccount "first" []) := rfl
  have hrun : Run (restrict (fun a step => step.2.Fresh sampleSuites a) (KeyStep sampleSuites))
      (sampleAccount "first" []) [(Number.zero, .rotate pair Number.zero),
        (Number.zero, .revert (lit "encryption second") Number.zero),
        (Number.zero, .destroy (lit "encryption second"))] (sampleAccount "first" []) :=
    .cons ⟨⟨rfl, rfl, by decide⟩, hrotate⟩ (.cons ⟨trivial, hrevert⟩ (.single ⟨trivial, hdestroy⟩))
  exact ⟨_, _, hparse, hrun, rfl, rfl, (account_key_algebra hparse hrun).2⟩

end Kryptolog.Client
