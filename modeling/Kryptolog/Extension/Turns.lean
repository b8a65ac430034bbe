import Kryptolog.Extension.Worker

/-! # What a message leads to

`Dispatched` lists what the first turn of a message can do, with what was tested on the way: the
invariants of the worker go through its cases, and not through the handlers.
-/

namespace Kryptolog.Extension
set_option autoImplicit false

open Script Fallible
open Client (Account KeyPair EncryptionKey SigningContext loginChallengeBody accountDeletionBody
  conversationEraseBody multisigApprovalMessage encryptionKeyAttestationBody)

/-! ## The keys of a vault -/

/-- An encryption key that a vault holds for an identity. -/
structure HeldKey where
  id : Text
  identity : KeyPair
  key : EncryptionKey
  deriving DecidableEq

def accountKeys (a : Account) : List HeldKey := a.keys.map fun k => ⟨a.id, a.identity, k⟩

def ExtensionVault.heldKeys (v : ExtensionVault) : List HeldKey := v.accounts.flatMap accountKeys

/-- The removal is of exactly this account, or of exactly this key. -/
def Removal.takes (removal : Removal) (k : HeldKey) : Bool :=
  match removal with
  | .account id => k.id == id
  | .key id kid => k.id == id && k.key.kid == kid

/-- Every key of `v` is in `w`, but for the ones that were taken out of it. -/
def Covers (removes : Option Removal) (v w : List HeldKey) : Prop :=
  ∀ k ∈ v, k ∈ w ∨ removes.any (·.takes k) = true

theorem Covers.refl (removes : Option Removal) (v : List HeldKey) : Covers removes v v :=
  fun _ hk => .inl hk

theorem mem_heldKeys {v : ExtensionVault} {k : HeldKey} :
    k ∈ v.heldKeys ↔ ∃ a ∈ v.accounts, ∃ key ∈ a.keys, k = ⟨a.id, a.identity, key⟩ := by
  rw [ExtensionVault.heldKeys, List.mem_flatMap]
  refine exists_congr fun a => and_congr_right fun _ => ?_
  rw [accountKeys, List.mem_map]
  exact exists_congr fun key => and_congr_right fun _ => eq_comm

/-- A vault that has all the accounts has all the keys. -/
theorem covers_of_subset {v w : ExtensionVault} (removes : Option Removal)
    (h : ∀ a ∈ v.accounts, a ∈ w.accounts) : Covers removes v.heldKeys w.heldKeys := by
  intro k hk
  obtain ⟨a, ha, key, hkey, rfl⟩ := mem_heldKeys.mp hk
  exact .inl (mem_heldKeys.mpr ⟨a, h a ha, key, hkey, rfl⟩)

/-- The account is the one that is active. -/
theorem activeAccount_eq_some {v : ExtensionVault} {account : Account}
    (h : v.activeAccount = some account) : account ∈ v.accounts ∧
      v.accounts.find? (·.id == account.id) = some account := by
  have hid : (some account.id == v.activeAccountId) = true := by simpa using List.find?_some h
  refine ⟨List.mem_of_find?_eq_some h, ?_⟩
  have hactive : v.activeAccountId = some account.id := (beq_iff_eq.mp hid).symm
  rw [ExtensionVault.activeAccount, hactive] at h
  simpa using h

theorem findIdx?_of_find? {accounts : List Account} {account : Account} {id : Text}
    (h : accounts.find? (·.id == id) = some account) :
    ∃ i, accounts.findIdx? (·.id == id) = some i ∧ accounts[i]? = some account := by
  induction accounts with
  | nil => cases h
  | cons a as ih =>
    rw [List.find?_cons] at h
    rw [List.findIdx?_cons]
    cases ha : a.id == id with
    | true =>
      rw [ha] at h
      exact ⟨0, rfl, h⟩
    | false =>
      rw [ha] at h
      obtain ⟨i, hi, hget⟩ := ih h
      exact ⟨i + 1, by rw [hi]; rfl, hget⟩

/-- The active account is replaced by one that has its keys. -/
theorem covers_replaceAccount {v : ExtensionVault} {account changed : Account} {removes : Option Removal}
    (h : v.activeAccount = some account) (hid : changed.id = account.id)
    (hcovers : Covers removes (accountKeys account) (accountKeys changed)) :
    Covers removes v.heldKeys (v.replaceAccount changed).heldKeys := by
  obtain ⟨i, hi, hget⟩ := findIdx?_of_find? (activeAccount_eq_some h).2
  have haccounts : (v.replaceAccount changed).accounts = v.accounts.set i changed := by
    simp only [ExtensionVault.replaceAccount, hid, hi]
  have hlt : i < v.accounts.length := List.getElem?_eq_some_iff.mp hget |>.1
  have hchanged : changed ∈ v.accounts.set i changed := List.mem_set hlt changed
  intro k hk
  obtain ⟨a, ha, hmem⟩ := List.mem_flatMap.mp hk
  obtain ⟨j, hj⟩ := List.getElem?_of_mem ha
  by_cases hij : i = j
  · subst hij
    obtain rfl : account = a := Option.some.inj (hget.symm.trans hj)
    rcases hcovers k hmem with hin | htaken
    · refine .inl (List.mem_flatMap.mpr ⟨changed, ?_, hin⟩)
      rw [haccounts]
      exact hchanged
    · exact .inr htaken
  · refine .inl (List.mem_flatMap.mpr ⟨a, ?_, hmem⟩)
    rw [haccounts]
    refine List.mem_of_getElem? (i := j) ?_
    rw [List.getElem?_set_ne hij]
    exact hj

theorem covers_deleteAccount {v w : ExtensionVault} {id : Text} (h : v.deleteAccount id = some w) :
    Covers (some (.account id)) v.heldKeys w.heldKeys := by
  obtain ⟨i, hi, rfl⟩ := Option.map_eq_some_iff.mp h
  obtain ⟨hlt, hid, -⟩ := List.findIdx?_eq_some_iff_getElem.mp hi
  intro k hk
  obtain ⟨a, ha, hmem⟩ := List.mem_flatMap.mp hk
  by_cases hin : a ∈ v.accounts.eraseIdx i
  · exact .inl (List.mem_flatMap.mpr ⟨a, hin, hmem⟩)
  · right
    have ha' : a = v.accounts[i] := by
      obtain ⟨j, hj, rfl⟩ := List.getElem_of_mem ha
      by_contra hne
      refine hin (List.mem_eraseIdx_iff_getElem.mpr ⟨j, hj, ?_, rfl⟩)
      intro hij
      subst hij
      exact hne rfl
    obtain ⟨key, -, rfl⟩ := List.mem_map.mp hmem
    rw [ha']
    exact hid

/-! ## What a change of the vault does -/

/-- The vault has the keys it had, and the grants, but for what was taken out of it. -/
structure Changed (removes : Option Removal) (withdrawn : Option Text) (v w : ExtensionVault) : Prop where
  keys : Covers removes v.heldKeys w.heldKeys
  grants : ∀ origin ∈ v.permissions, origin ∈ w.permissions ∨ withdrawn = some origin

theorem changed_permit (v : ExtensionVault) (origin : Text) : Changed none none v (v.permit origin) where
  keys := covers_of_subset none fun _ ha => ha
  grants _ ho := .inl (List.mem_insert_of_mem ho)

theorem changed_withdraw (v : ExtensionVault) (origin : Text) :
    Changed none (some origin) v (v.withdraw origin) where
  keys := covers_of_subset none fun _ ha => ha
  grants o ho := by
    by_cases h : o = origin
    · exact .inr (congrArg some h.symm)
    · exact .inl (List.mem_filter.mpr ⟨ho, by simpa using h⟩)

theorem changed_setAutoSign (v : ExtensionVault) (origin : Text) (enabled : Bool) :
    Changed none none v (v.setAutoSign origin enabled) :=
  ⟨covers_of_subset none fun _ ha => ha, fun _ ho => .inl ho⟩

theorem changed_addAccount (v : ExtensionVault) (account : Account) :
    Changed none none v (v.addAccount account) :=
  ⟨covers_of_subset none fun _ ha => List.mem_append_left _ ha, fun _ ho => .inl ho⟩

theorem changed_activate (v : ExtensionVault) (id : Option Text) :
    Changed none none v { v with activeAccountId := id } :=
  ⟨covers_of_subset none fun _ ha => ha, fun _ ho => .inl ho⟩

theorem changed_addImported (v : ExtensionVault) (imported : List Account) :
    Changed none none v (v.addImported imported) :=
  ⟨covers_of_subset none fun _ ha => List.mem_append_left _ ha, fun _ ho => .inl ho⟩

theorem changed_deleteAccount {v w : ExtensionVault} {id : Text} (h : v.deleteAccount id = some w) :
    Changed (some (.account id)) none v w := by
  refine ⟨covers_deleteAccount h, fun o ho => .inl ?_⟩
  obtain ⟨i, -, rfl⟩ := Option.map_eq_some_iff.mp h
  exact ho

theorem changed_replaceAccount {v : ExtensionVault} {account changed : Account}
    {removes : Option Removal} (h : v.activeAccount = some account) (hid : changed.id = account.id)
    (hcovers : Covers removes (accountKeys account) (accountKeys changed)) :
    Changed removes none v (v.replaceAccount changed) :=
  ⟨covers_replaceAccount h hid hcovers, fun _ ho => .inl ho⟩

theorem covers_of_keys {a b : Account} (removes : Option Removal) (hid : b.id = a.id)
    (hidentity : b.identity = a.identity)
    (h : ∀ k ∈ a.keys, k ∈ b.keys ∨ removes.any (·.takes ⟨a.id, a.identity, k⟩) = true) :
    Covers removes (accountKeys a) (accountKeys b) := by
  intro k hk
  obtain ⟨key, hkey, rfl⟩ := List.mem_map.mp hk
  rcases h key hkey with hb | htaken
  · refine .inl (List.mem_map.mpr ⟨key, hb, ?_⟩)
    rw [hid, hidentity]
  · exact .inr htaken

theorem covers_rotate {suites : Client.KeySuites} {fresh : KeyPair} {now : Number} {a b : Account}
    (h : Client.rotateAccountEncryptionKey suites fresh now a = .ok b) :
    b.id = a.id ∧ Covers none (accountKeys a) (accountKeys b) := by
  obtain ⟨hid, hidentity, hkeys⟩ := Client.keys_rotate h
  refine ⟨hid, covers_of_keys none hid hidentity fun k hk => .inl ?_⟩
  rw [hkeys]
  exact List.mem_cons_of_mem _ hk

theorem covers_revert {kid : Text} {now : Number} {a b : Account}
    (h : Client.revertAccountEncryptionKeyRotation a kid now = .ok b) :
    b.id = a.id ∧ Covers none (accountKeys a) (accountKeys b) := by
  obtain ⟨hid, hidentity, hkeys⟩ := Client.keys_revert h
  exact ⟨hid, covers_of_keys none hid hidentity fun k hk => .inl (hkeys.mem_iff.mpr hk)⟩

theorem covers_destroy {kid : Text} {a b : Account} (h : Client.destroyRetiredEncryptionKey a kid = .ok b) :
    b.id = a.id ∧ Covers (some (.key a.id kid)) (accountKeys a) (accountKeys b) := by
  obtain ⟨hid, hidentity, -, hkeys⟩ := Client.keys_destroy h
  refine ⟨hid, covers_of_keys _ hid hidentity fun k hk => ?_⟩
  by_cases hkid : k.kid = kid
  · right
    simp only [Option.any_some, Removal.takes, hkid, beq_self_eq_true, Bool.and_self]
  · left
    rw [hkeys]
    exact List.mem_filter.mpr ⟨hk, by simpa using hkid⟩

/-! ## The first turn of a message -/

section dispatch

variable (prim : ExtensionPrimitives)

/-- The kinds of the generic request. -/
def SignKind.isGeneric : SignKind → Bool
  | text | content => true
  | _ => false

/-- What is known of a body that a page asks to be signed. -/
def SignKind.Describes (origin : Text) (body : Option Value) : SignKind → Prop
  | text => contextOf body = none
  | content => contextOf body = some SigningContext.content.text
  | login => ∃ nonce deployment key s, body = some (.str s) ∧
      loginChallengeBody nonce (.str origin) deployment key = .ok s
  | accountDeletion => ∃ nonce mode keys deployment s, body = some (.str s) ∧
      accountDeletionBody prim.sha384Hex nonce mode keys (.str origin) deployment = .ok s
  | conversationErase => ∃ nonce kind conversation keys deployment s, body = some (.str s) ∧
      conversationEraseBody prim.sha384Hex nonce kind conversation keys (.str origin) deployment = .ok s
  | multisigApproval => ∃ workflowId secretId ct s, body = some (.str s) ∧
      multisigApprovalMessage workflowId secretId ct = .ok s
  | message => isMessageBody body = true

/-- What is known of a request for approval when it is made. -/
def Asked (v : ExtensionVault) (origin : Text) (request : Request) : Approval → Prop
  | .connect => request = .connect
  | .sign kind account body => origin ∈ v.permissions ∧ v.activeAccount = some account ∧
      kind.Describes prim origin body ∧ (kind.isGeneric = true → request = .sign body)
  | .rotate account _ _ => origin ∈ v.permissions ∧ v.activeAccount = some account
  | _ => origin ∈ v.permissions

/-- What is known of something that is signed without a window. -/
def SignsSilently (v : ExtensionVault) (sender : Sender) (account : Account) (body : Text) :
    Grounds → Prop
  | .approved _ => False
  | .autoSigned granted => messageSigningPrefix.isPrefixOf body = true ∧
      (granted = true → ∃ origin, sender.origin = some origin ∧ origin ∈ v.autoSignSites) ∧
      (sender.isInternal = true ∨ granted = true ∨
        (prim.allowsDevAutoSign = true ∧ sender.origin.any prim.isDevOrigin = true))
  | .attested => ∃ address key,
      encryptionKeyAttestationBody address key = .ok body ∧ address = .str account.id

/-- The points where a message waits for nothing but its own answer. -/
def Point.isIdle : Point → Bool
  | .focusingPopup _ _ | .creatingPopup _ | .checkingHost _ _ | .answering _ => true
  | _ => false

/-- The request takes an account or a key out of the vault. -/
def Request.isRemoval : Request → Bool
  | deleteAccount _ | destroyRetiredEncryptionKey _ => true
  | _ => false

/-- What the first turn of a message does. -/
inductive Dispatched (c : Background) (caller : Caller) (sender : Sender) (request : Request)
    (inputs : Inputs) : Background × Point → Prop
  | answered (rotation : Option Rotation) (r : Response) :
    Dispatched c caller sender request inputs
      (answer { c with pendingRotation := rotation } caller.number r)
  | waits (q : Point) (hq : q.isIdle = true) : Dispatched c caller sender request inputs (c, q)
  | unlocks (password : Text) (blob : StoredVault) (hrequest : request = .unlock password)
    (hblob : c.vaultData = some blob) :
    Dispatched c caller sender request inputs (c, .unlocking .unlock password blob inputs)
  | setsUp (password : Text) (hrequest : request = .setupPassword password)
    (hpassword : c.hasPassword = false) (hproblem : prim.vaultPasswordProblem password = none) :
    Dispatched c caller sender request inputs
      ({ c with vault := some .empty, since := { c.since with vault := caller } },
        .rederiving (.setUp password inputs) password inputs)
  | locks (hrequest : request = .lock) : Dispatched c caller sender request inputs (c.lock, .clearing)
  | changes (rotation : Option Rotation) (removes : Option Removal) (withdrawn : Option Text)
    (v w : ExtensionVault) (hopen : c.isLocked = false) (hv : c.vault = some v)
    (hchanged : Changed removes withdrawn v w)
    (hremoves : removes.isSome = true → request.isRemoval = true)
    (hrequest : ∀ origin, withdrawn = some origin → request = .removeTrustedSite origin) :
    Dispatched c caller sender request inputs
      (saveAndRespond ({ c with pendingRotation := rotation }.setVault w) caller.number .success removes
        inputs)
  | imports (data : Except Text ExtensionVault) (password : Option Text) (hopen : c.isLocked = false)
    (hv : c.vault.isSome = true) (hmay : request.mayUnlock = true) :
    Dispatched c caller sender request inputs (finishImport c caller data password inputs)
  | decryptsImport (data : Except Text ExtensionVault) (password : Option Text)
    (hopen : c.isLocked = false) (hv : c.vault.isSome = true) (hmay : request.mayUnlock = true) :
    Dispatched c caller sender request inputs (c, .decryptingImport data password inputs)
  | asks (origin : Text) (approval : Approval) (v : ExtensionVault) (hopen : c.isLocked = false)
    (hv : c.vault = some v) (horigin : sender.origin = some origin)
    (hasked : Asked prim v origin request approval) :
    Dispatched c caller sender request inputs (requestApproval c caller.number origin approval inputs)
  | settles (requestId : ℕ) (approved : Bool) (hrequest : request = .resolveRequest requestId approved) :
    Dispatched c caller sender request inputs
      (settleApproval prim c caller.number requestId approved inputs)
  | signs (v : ExtensionVault) (grounds : Grounds) (account : Account) (body : Text)
    (hv : c.vault = some v) (haccount : v.activeAccount = some account)
    (hsender : sender.isInternal = true ∨ ∃ origin, sender.origin = some origin ∧ origin ∈ v.permissions)
    (hsigns : SignsSilently prim v sender account body grounds) :
    Dispatched c caller sender request inputs (c, .signing sender grounds account body)

variable {prim : ExtensionPrimitives} {c : Background} {caller : Caller} {sender : Sender}
  {request : Request} {inputs : Inputs}

theorem Dispatched.refused (r : Response) :
    Dispatched prim c caller sender request inputs (answer c caller.number r) :=
  .answered c.pendingRotation r

theorem Dispatched.thrown (error : String) :
    Dispatched prim c caller sender request inputs (throw c caller.number error) := .refused _

theorem requireActiveAccount_eq_ok {account : Account} (h : requireActiveAccount c = .ok account) :
    ∃ v, c.vault = some v ∧ v.activeAccount = some account := by
  unfold requireActiveAccount at h
  split at h
  · cases h
  · next v hv =>
    split at h
    · cases h
    · next a ha =>
      cases h
      exact ⟨v, hv, ha⟩

theorem requireConnectedAccount_eq_ok {origin : Text} {account : Account}
    (h : requireConnectedAccount c sender = .ok (origin, account)) :
    ∃ v, sender.origin = some origin ∧ c.vault = some v ∧ origin ∈ v.permissions ∧
      v.activeAccount = some account := by
  unfold requireConnectedAccount at h
  split at h
  · cases h
  · cases h
  · next o v ho hv =>
    split at h
    · cases h
    · next hcontains =>
      split at h
      · cases h
      · next a ha =>
        cases h
        exact ⟨v, ho, hv, by simpa using hcontains, ha⟩

theorem Dispatched.asksSignature {kind : SignKind} {body : Option Value} (hopen : c.isLocked = false)
    (hdescribes : ∀ origin, sender.origin = some origin → kind.Describes prim origin body)
    (hrequest : kind.isGeneric = true → request = .sign body) :
    Dispatched prim c caller sender request inputs
      (requestSignature c caller.number sender kind body inputs) := by
  unfold requestSignature
  split
  · exact .thrown _
  · next origin account h =>
    obtain ⟨v, horigin, hv, hgrant, hactive⟩ := requireConnectedAccount_eq_ok h
    exact .asks origin _ v hopen hv horigin ⟨hgrant, hactive, hdescribes origin horigin, hrequest⟩

theorem Dispatched.asksBuilt {kind : SignKind} {body : Except String Text} (hopen : c.isLocked = false)
    (hdescribes : ∀ origin s, sender.origin = some origin → body = .ok s →
      kind.Describes prim origin (some (.str s)))
    (hkind : kind.isGeneric = false) :
    Dispatched prim c caller sender request inputs
      (requestBuilt c caller.number sender kind body inputs) := by
  unfold requestBuilt
  split
  · exact .thrown _
  · next s =>
    refine .asksSignature hopen (fun origin ho => hdescribes origin s ho rfl) fun h => ?_
    rw [hkind] at h
    cases h

theorem Dispatched.opens {approval : Approval}
    (h : ∀ v origin, origin ∈ v.permissions → Asked prim v origin request approval) :
    Dispatched prim c caller sender request inputs
      (handleOpen c caller.number sender approval inputs) := by
  unfold handleOpen
  split
  · exact .thrown _
  · next hlocked =>
    split
    · exact .thrown _
    · exact .thrown _
    · next origin v horigin hv =>
      split
      · exact .thrown _
      · next hcontains =>
        exact .asks origin _ v (by simpa using hlocked) hv horigin (h v origin (by simpa using hcontains))

theorem Dispatched.changesVault {removes : Option Removal}
    {change : ExtensionVault → Option ExtensionVault}
    (hremoves : removes.isSome = true → request.isRemoval = true)
    (h : ∀ v w, change v = some w → Changed removes none v w) :
    Dispatched prim c caller sender request inputs
      (changeVault c caller.number removes change inputs) := by
  unfold changeVault
  split
  · exact .thrown _
  · next hlocked =>
    split
    · exact .thrown _
    · next v hv =>
      split
      · exact .thrown _
      · next w hw =>
        exact .changes c.pendingRotation removes none v w (by simpa using hlocked) hv (h v w hw) hremoves
          fun _ ho => by cases ho

theorem Dispatched.replacesActive {rotation : Option Rotation} {change : Account → Except String Account}
    {removes : Account → Option Removal} (hopen : c.isLocked = false)
    (hremoves : ∀ a, (removes a).isSome = true → request.isRemoval = true)
    (h : ∀ a b, change a = .ok b → b.id = a.id ∧ Covers (removes a) (accountKeys a) (accountKeys b)) :
    Dispatched prim c caller sender request inputs
      (replaceActive { c with pendingRotation := rotation } caller.number change removes inputs) := by
  unfold replaceActive
  split
  · exact .answered _ _
  · exact .answered _ _
  · next v account hv haccount =>
    split
    · exact .answered _ _
    · next changed hchange =>
      obtain ⟨v', hv', hactive⟩ := requireActiveAccount_eq_ok haccount
      obtain rfl : v = v' := Option.some.inj (hv.symm.trans hv')
      obtain ⟨hid, hcovers⟩ := h account changed hchange
      exact .changes rotation (removes account) none v _ hopen hv
        (changed_replaceAccount hactive hid hcovers) (hremoves account) fun _ ho => by cases ho

theorem dispatched_addTrustedSite (origin : Text) :
    Dispatched prim c caller sender request inputs
      (handleAddTrustedSite prim c caller.number origin inputs) := by
  unfold handleAddTrustedSite
  split
  · exact .thrown _
  · split
    · exact .thrown _
    · next hlocked =>
      split
      · exact .thrown _
      · split
        · unfold trustSite
          split
          · exact .thrown _
          · next v hv =>
            exact .changes c.pendingRotation none none v _ (by simpa using hlocked) hv (changed_permit ..)
              (fun h => (by cases h)) fun _ ho => by cases ho
        · exact .waits _ rfl

theorem dispatched_removeTrustedSite (origin : Text) :
    Dispatched prim c caller sender (.removeTrustedSite origin) inputs
      (handleRemoveTrustedSite prim c caller.number origin inputs) := by
  unfold handleRemoveTrustedSite
  split
  · exact .thrown _
  · split
    · exact .thrown _
    · next hlocked =>
      split
      · exact .thrown _
      · split
        · exact .thrown _
        · next v hv =>
          refine .changes c.pendingRotation none (some origin) v _ (by simpa using hlocked) hv
            (changed_withdraw ..) (fun h => (by cases h)) fun o ho => ?_
          rw [Option.some.inj ho]

theorem dispatched_setSiteAutoSign (origin : Text) (enabled : Bool) :
    Dispatched prim c caller sender request inputs
      (handleSetSiteAutoSign c caller.number origin enabled inputs) := by
  unfold handleSetSiteAutoSign
  split
  · exact .thrown _
  · next hlocked =>
    split
    · exact .thrown _
    · next v hv =>
      split
      · exact .thrown _
      · exact .changes c.pendingRotation none none v _ (by simpa using hlocked) hv
          (changed_setAutoSign ..) (fun h => (by cases h)) fun _ ho => by cases ho

theorem dispatched_setupPassword (password : Text) :
    Dispatched prim c caller sender (.setupPassword password) inputs
      (handleSetupPassword prim c caller password inputs) := by
  unfold handleSetupPassword
  split
  · exact .thrown _
  · next hpassword =>
    split
    · exact .refused _
    · next hproblem => exact .setsUp password rfl (by simpa using hpassword) hproblem

theorem dispatched_unlock (password : Text) :
    Dispatched prim c caller sender (.unlock password) inputs
      (startUnlock c caller.number .unlock password inputs) := by
  unfold startUnlock
  split
  · exact .thrown _
  · next blob hblob => exact .unlocks password blob rfl hblob

theorem dispatched_importKeys (vaultObj : Value) (password passphrase : Option Text) :
    Dispatched prim c caller sender (.importKeys vaultObj password passphrase) inputs
      (handleImportKeys prim c caller vaultObj password passphrase inputs) := by
  unfold handleImportKeys
  split
  · exact .thrown _
  · split
    · exact .thrown _
    · split
      · exact .thrown _
      · next hlocked =>
        split
        · exact .thrown _
        · next hvault =>
          have hopen : c.isLocked = false := by simpa using hlocked
          have hsome : c.vault.isSome = true := by
            rw [Option.isSome_iff_ne_none]
            exact fun h => hvault (by rw [h]; rfl)
          simp only
          split
          · exact .thrown _
          · split
            · exact .imports _ password hopen hsome rfl
            · split
              · exact .thrown _
              · exact .decryptsImport _ password hopen hsome rfl

theorem dispatched_connect : Dispatched prim c caller sender .connect inputs
    (handleConnect c caller.number sender inputs) := by
  unfold handleConnect
  split
  · exact .thrown _
  · next origin horigin =>
    split
    · split <;> exact .waits _ rfl
    · next hlocked =>
      split
      · exact .thrown _
      · next v hv =>
        split
        · exact .refused _
        · exact .asks origin .connect v (by simpa using hlocked) hv horigin rfl

theorem dispatched_checkConnection : Dispatched prim c caller sender request inputs
    (handleCheckConnection c caller.number sender) := by
  unfold handleCheckConnection
  split
  · exact .refused _
  · split
    · exact .thrown _
    · exact .refused _

theorem dispatched_getActiveAccount : Dispatched prim c caller sender request inputs
    (handleGetActiveAccount c caller.number sender) := by
  unfold handleGetActiveAccount
  split
  · exact .thrown _
  · split
    · exact .thrown _
    · split
      · exact .thrown _
      · exact .refused _

theorem requireShownAccount_eq_ok {error : String} {account : Account}
    (h : requireShownAccount c sender error = .ok account) :
    ∃ v, c.vault = some v ∧ v.activeAccount = some account ∧
      (sender.isInternal = true ∨ ∃ origin, sender.origin = some origin ∧ origin ∈ v.permissions) := by
  unfold requireShownAccount at h
  split at h
  · cases h
  · next v hv =>
    split at h
    · cases h
    · next hsender =>
      obtain ⟨v', hv', hactive⟩ := requireActiveAccount_eq_ok h
      obtain rfl : v = v' := Option.some.inj (hv.symm.trans hv')
      refine ⟨v, hv, hactive, ?_⟩
      cases hinternal : sender.isInternal with
      | true => exact .inl rfl
      | false =>
        right
        cases horigin : sender.origin with
        | none => simp [hinternal, horigin] at hsender
        | some origin => exact ⟨origin, rfl, by simpa [hinternal, horigin] using hsender⟩

theorem dispatched_getKeyAttestation : Dispatched prim c caller sender request inputs
    (handleGetKeyAttestation c caller.number sender) := by
  unfold handleGetKeyAttestation
  split
  · exact .thrown _
  · split
    · exact .thrown _
    · split
      · exact .thrown _
      · next account haccount =>
        split
        · exact .thrown _
        · next body hbody =>
          obtain ⟨v, hv, hactive, hsender⟩ := requireShownAccount_eq_ok haccount
          exact .signs v .attested account body hv hactive hsender ⟨_, _, hbody, rfl⟩

theorem dispatched_sign (message : Option Value) : Dispatched prim c caller sender (.sign message) inputs
    (handleSign c caller.number sender message inputs) := by
  unfold handleSign
  split
  · exact .thrown _
  · next hlocked =>
    have hopen : c.isLocked = false := by simpa using hlocked
    split
    · split
      · exact .thrown _
      · split
        · exact .thrown _
        · exact .waits _ rfl
    · split
      · next hcontext => exact .asksSignature hopen (fun _ _ => hcontext) fun _ => rfl
      · next context hcontext =>
        split
        · next hcontent =>
          rw [hcontent] at hcontext
          exact .asksSignature hopen (fun _ _ => hcontext) fun _ => rfl
        · exact .refused _

theorem originValue_eq {origin : Text} (h : sender.origin = some origin) :
    originValue sender = .str origin := by
  rw [originValue, h]
  rfl

theorem dispatched_signLogin (nonce deployment : Value) : Dispatched prim c caller sender request inputs
    (handleSignLogin c caller.number sender nonce deployment inputs) := by
  unfold handleSignLogin
  split
  · exact .thrown _
  · next hlocked =>
    split
    · exact .thrown _
    · refine .asksBuilt (by simpa using hlocked) (fun origin s ho hs => ?_) rfl
      rw [originValue_eq ho] at hs
      exact ⟨_, _, _, s, rfl, hs⟩

theorem dispatched_signAccountDeletion (nonce mode redactionKeys deployment : Value) :
    Dispatched prim c caller sender request inputs
      (handleSignAccountDeletion prim c caller.number sender nonce mode redactionKeys deployment inputs) := by
  unfold handleSignAccountDeletion
  split
  · exact .thrown _
  · next hlocked =>
    split
    · exact .thrown _
    · split
      · exact .thrown _
      · next body hbody =>
        split
        · exact .thrown _
        · refine .asksSignature (by simpa using hlocked) (fun origin ho => ?_) ?_
          · rw [originValue_eq ho] at hbody
            exact ⟨_, _, _, _, body, rfl, hbody⟩
          · exact fun h => by cases h

theorem dispatched_signConversationErase (nonce kind conversation redactionKeys deployment : Value) :
    Dispatched prim c caller sender request inputs
      (handleSignConversationErase prim c caller.number sender nonce kind conversation redactionKeys
        deployment inputs) := by
  unfold handleSignConversationErase
  split
  · exact .thrown _
  · next hlocked =>
    split
    · exact .thrown _
    · refine .asksBuilt (by simpa using hlocked) (fun origin s ho hs => ?_) rfl
      rw [originValue_eq ho] at hs
      exact ⟨_, _, _, _, _, s, rfl, hs⟩

theorem dispatched_signMultisigApproval (workflowId secretId ciphertextSha384 : Value) :
    Dispatched prim c caller sender request inputs
      (handleSignMultisigApproval c caller.number sender workflowId secretId ciphertextSha384 inputs) := by
  unfold handleSignMultisigApproval
  split
  · exact .thrown _
  · next hlocked =>
    split
    · exact .thrown _
    · exact .asksBuilt (by simpa using hlocked) (fun origin s _ hs => ⟨_, _, _, s, rfl, hs⟩) rfl

theorem dispatched_signMessage (message : Option Value) : Dispatched prim c caller sender request inputs
    (handleSignMessage prim c caller.number sender message inputs) := by
  unfold handleSignMessage
  split
  · exact .thrown _
  · next hlocked =>
    split
    · next body =>
      split
      · exact .thrown _
      · next hmessage =>
        have hbody : messageSigningPrefix.isPrefixOf body = true := by simpa using hmessage
        split
        · exact .thrown _
        · next v hv =>
          simp only
          split
          · exact .thrown _
          · next hsender =>
            split
            · next hsilent =>
              split
              · exact .thrown _
              · next account hactive =>
                refine .signs v _ account body hv hactive ?_ ⟨hbody, fun hgranted => ?_, ?_⟩
                · cases hinternal : sender.isInternal with
                  | true => exact .inl rfl
                  | false =>
                    right
                    cases horigin : sender.origin with
                    | none => simp [hinternal, horigin] at hsender
                    | some origin => exact ⟨origin, rfl, by simpa [hinternal, horigin] using hsender⟩
                · cases horigin : sender.origin with
                  | none => simp [horigin] at hgranted
                  | some origin => exact ⟨origin, rfl, by simpa [horigin] using hgranted⟩
                · simp only [Bool.or_eq_true, Bool.and_eq_true] at hsilent
                  rcases hsilent with (hinternal | hdev) | hgranted
                  · exact .inl hinternal
                  · exact .inr (.inr hdev)
                  · exact .inr (.inl hgranted)
            · refine .asksSignature (by simpa using hlocked) (fun _ _ => hbody) ?_
              exact fun h => by cases h
    · exact .thrown _

theorem dispatched_encryptTo (publicKey : Value) (plaintext : Option Value) :
    Dispatched prim c caller sender request inputs
      (encryptTo prim c caller.number publicKey plaintext inputs) := by
  unfold encryptTo
  split
  · exact .thrown _
  · exact .waits _ rfl

theorem dispatched_encrypt (message publicKey : Option Value) :
    Dispatched prim c caller sender request inputs
      (handleEncrypt prim c caller.number message publicKey inputs) := by
  unfold handleEncrypt
  split
  · exact dispatched_encryptTo ..
  · split
    · exact .thrown _
    · split
      · exact .thrown _
      · exact dispatched_encryptTo ..

theorem dispatched_wrapSessionKey (sessionKey publicKey : Value) :
    Dispatched prim c caller sender request inputs
      (handleWrapSessionKey prim c caller.number sessionKey publicKey inputs) := by
  unfold handleWrapSessionKey
  split
  · exact .thrown _
  · split
    · exact .thrown _
    · exact dispatched_encryptTo ..

theorem dispatched_rotateEncryptionKey (ts : Value) : Dispatched prim c caller sender request inputs
    (handleRotateEncryptionKey c caller.number sender ts inputs) := by
  unfold handleRotateEncryptionKey
  split
  · exact .thrown _
  · next hlocked =>
    split
    · exact .thrown _
    · exact .thrown _
    · next origin v horigin hv =>
      split
      · exact .thrown _
      · next hcontains =>
        split
        · exact .thrown _
        · split
          · exact .thrown _
          · next account hactive =>
            exact .asks origin _ v (by simpa using hlocked) hv horigin
              ⟨by simpa using hcontains, hactive⟩

theorem dispatched_revertEncryptionKeyRotation (newKid : Value) :
    Dispatched prim c caller sender request inputs
      (handleRevertEncryptionKeyRotation c caller.number sender newKid inputs) := by
  unfold handleRevertEncryptionKeyRotation
  split
  · exact .thrown _
  · split
    · exact .thrown _
    · next hlocked =>
      split
      · split
        · exact .replacesActive (by simpa using hlocked) (fun _ h => (by cases h))
            fun a b hb => covers_revert hb
        · exact .thrown _
      · exact .thrown _

theorem dispatched_destroyRetiredEncryptionKey (kid : Text) :
    Dispatched prim c caller sender (.destroyRetiredEncryptionKey kid) inputs
      (handleDestroyRetiredEncryptionKey c caller.number kid inputs) := by
  unfold handleDestroyRetiredEncryptionKey
  split
  · exact .thrown _
  · next hlocked =>
    exact .replacesActive (by simpa using hlocked) (fun _ _ => rfl) fun a b hb => covers_destroy hb

/-- Every message is dispatched to one of these. -/
theorem dispatch_dispatched : Dispatched prim c caller sender request inputs
    (dispatch prim c caller sender request inputs) := by
  unfold dispatch
  simp only
  split
  · exact .thrown _
  · cases request with
    | inspect | handshake => exact .refused _
    | setupPassword password => exact dispatched_setupPassword password
    | unlock password => exact dispatched_unlock password
    | lock => exact .locks rfl
    | destroyRetiredEncryptionKey kid => exact dispatched_destroyRetiredEncryptionKey kid
    | resolveRequest requestId approved => exact .settles requestId approved rfl
    | addTrustedSite origin => exact dispatched_addTrustedSite origin
    | removeTrustedSite origin => exact dispatched_removeTrustedSite origin
    | setSiteAutoSign origin enabled => exact dispatched_setSiteAutoSign origin enabled
    | authorizeCurrentTab origin =>
      simp only
      split
      · exact .refused _
      · exact dispatched_addTrustedSite origin
    | createAccount =>
      refine .changesVault (fun h => (by cases h)) fun v w hw => ?_
      cases hw
      exact changed_addAccount ..
    | setActiveAccount id =>
      refine .changesVault (fun h => (by cases h)) fun v w hw => ?_
      cases hw
      exact changed_activate ..
    | deleteAccount id => exact .changesVault (fun _ => rfl) fun v w hw => changed_deleteAccount hw
    | importKeys vaultObj password passphrase => exact dispatched_importKeys vaultObj password passphrase
    | checkConnection => exact dispatched_checkConnection
    | connect => exact dispatched_connect
    | getActiveAccount => exact dispatched_getActiveAccount
    | sign message => exact dispatched_sign message
    | signLogin nonce deployment => exact dispatched_signLogin nonce deployment
    | signAccountDeletion nonce mode redactionKeys deployment =>
      exact dispatched_signAccountDeletion nonce mode redactionKeys deployment
    | signConversationErase nonce kind conversation redactionKeys deployment =>
      exact dispatched_signConversationErase nonce kind conversation redactionKeys deployment
    | signMultisigApproval workflowId secretId ct => exact dispatched_signMultisigApproval workflowId secretId ct
    | rotateEncryptionKey ts => exact dispatched_rotateEncryptionKey ts
    | revertEncryptionKeyRotation newKid => exact dispatched_revertEncryptionKeyRotation newKid
    | signMessage message => exact dispatched_signMessage message
    | getKeyAttestation => exact dispatched_getKeyAttestation
    | encrypt message publicKey => exact dispatched_encrypt message publicKey
    | decrypt data => exact .opens fun v origin h => h
    | generateSessionKey => exact .waits _ rfl
    | wrapSessionKey sessionKey publicKey => exact dispatched_wrapSessionKey sessionKey publicKey
    | unwrapSessionKey wrappedKey => exact .opens fun v origin h => h
    | decryptMany items => exact .opens fun v origin h => h
    | unwrapManySessionKeys wrappedKeys => exact .opens fun v origin h => h
    | unknown type => exact .refused _

end dispatch

end Kryptolog.Extension
