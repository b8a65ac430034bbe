import Kryptolog.Client.AccountKeys
import Kryptolog.Client.VaultService
import Kryptolog.Server.RotationReplay
import Kryptolog.Server.ServedKeys

/-! # The served key and the vault that opens it

The vault of a device (`services/vault.js` with `vaultRotation.js`) and the directory are two stores.
A rotation is saved first and published afterwards, a sign-in publishes the key that the vault has,
and a request may be lost on its way, or its answer on the way back. Whatever the owner does next on
what came back, the key that the directory serves stays one that the saved vault holds, unless the
owner destroys just that key, deletes the account, or puts an older copy of it in its place.

The operations of the vault come one after another. An operation whose save fails changes nothing.
-/

namespace Kryptolog.Client
set_option autoImplicit false

open Script Fallible Runs
open Server (Address Directory DirectoryEvent DirectoryRequest DirectoryStep KeyPrimitives
  KeyRotationRequest LoginRequest lower)

/-! ## The two stores -/

/-- A request of `performServerLogin` or of `rotateEncryptionKey`, on its way. -/
inductive Publication
  | signIn (admitted : Bool) (req : LoginRequest)
  | rotation (token : Server.Token) (req : KeyRotationRequest)

def Publication.event (now : Server.Time) : Publication → DirectoryEvent
  | signIn admitted req => .call ⟨now, ⟨"", 0⟩, .login admitted req⟩
  | rotation token req => .call ⟨now, token, .rotate req⟩

/-- It brings the key for the address. -/
def Publication.Carries (a : Address) (key : String) : Publication → Prop
  | signIn _ req => lower req.address = a ∧ req.encryptionPublicKey = some key
  | rotation token req => lower token.sub = a ∧ req.encryptionPublicKey = key

structure Custody where
  /-- What is saved. -/
  vault : Vault
  directory : Directory
  flight : List Publication

inductive CustodyAction
  /-- An operation of the vault that publishes nothing, or whose caller goes away before it does. -/
  | edit (e : VaultEdit)
  | rotate (fresh : KeyPair) (ts : Number) (token : Server.Token) (req : KeyRotationRequest)
  | signIn (admitted : Bool) (req : LoginRequest)
  | deliver (i : ℕ) (now : Server.Time)
  | lose (i : ℕ)
  /-- Any other request that the server answers. -/
  | server (e : DirectoryEvent)

/-- `vaultService.getActiveAccount`. -/
def getActiveAccount (v : Vault) : Option Account := v.accounts.find? fun a => some a.id == v.activeAccountId

/-- The account has this address. -/
def Account.At (account : Account) (a : Address) : Prop := account.id = lit a.text

/-- A rotation is published once it is saved, under the token of the rotated account, and a sign-in
brings the key that the active account has. -/
inductive CustodyStep (prim : VaultPrimitives) (keys : KeyPrimitives) (cfg : Server.Config) :
    Custody → CustodyAction → Custody → Prop
  | edit {c : Custody} {e : VaultEdit} {v : Vault} {saves : Bool} (h : e.change prim c.vault = .ok (v, saves)) :
      CustodyStep prim keys cfg c (.edit e) { c with vault := if saves then v else c.vault }
  | rotate {c : Custody} {fresh : KeyPair} {ts : Number} {token : Server.Token} {req : KeyRotationRequest}
      {account : Account} {v : Vault}
      (h : (VaultEdit.rotateEncryptionKey fresh ts).change prim c.vault = .ok (v, true))
      (hactive : getActiveAccount c.vault = some account) (ha : account.At (lower token.sub))
      (hkey : lit req.encryptionPublicKey = fresh.publicKey) :
      CustodyStep prim keys cfg c (.rotate fresh ts token req)
        { c with vault := v, flight := c.flight ++ [.rotation token req] }
  | signIn {c : Custody} {admitted : Bool} {req : LoginRequest} {account : Account}
      (hactive : getActiveAccount c.vault = some account) (ha : account.At (lower req.address))
      (hkey : req.encryptionPublicKey.map lit = some account.encryption.publicKey) :
      CustodyStep prim keys cfg c (.signIn admitted req)
        { c with flight := c.flight ++ [.signIn admitted req] }
  | deliver {c : Custody} {i : ℕ} {now : Server.Time} {p : Publication} {d : Directory}
      (hp : c.flight[i]? = some p) (h : DirectoryStep keys cfg c.directory (p.event now) d) :
      CustodyStep prim keys cfg c (.deliver i now) { c with directory := d, flight := c.flight.eraseIdx i }
  | lose {c : Custody} {i : ℕ} :
      CustodyStep prim keys cfg c (.lose i) { c with flight := c.flight.eraseIdx i }
  | server {c : Custody} {e : DirectoryEvent} {d : Directory} (h : DirectoryStep keys cfg c.directory e d) :
      CustodyStep prim keys cfg c (.server e) { c with directory := d }

/-! ## The condition -/

/-- The directory serves the key for the address, or a request under way brings it. -/
def Awaited (c : Custody) (a : Address) (key : String) : Prop :=
  Server.Serves c.directory a key ∨ ∃ p ∈ c.flight, p.Carries a key

/-- A generated pair that belongs together, with an id that no key of the vault has. -/
def FreshPair (suites : KeySuites) (v : Vault) (fresh : KeyPair) (ts : Number) : Prop :=
  ∀ account ∈ v.accounts, (KeyAction.rotate fresh ts).Fresh suites account

/-- What is added is in the form that `generateAccount` returns, and what is destroyed, deleted or
replaced is not what the directory serves for the address. -/
def VaultEdit.Careful (prim : VaultPrimitives) (a : Address) (c : Custody) : VaultEdit → Prop
  | addAccount account => account.Canonical prim.suites
  | switchAccount _ | revertEncryptionKeyRotation _ _ => True
  | deleteAccount id => id ≠ lit a.text
  | rotateEncryptionKey fresh ts => FreshPair prim.suites c.vault fresh ts
  | destroyRetiredEncryptionKey kid =>
      ∀ key, Awaited c a key → kid ≠ prim.suites.encryptionKeyId (lit key)
  | importVault jsonString passphrase now =>
      ∀ imported, backupAccounts prim.suites prim.toBackupPrimitives now jsonString passphrase = .ok imported →
        ∀ copy ∈ imported, copy.At a → ∀ held ∈ c.vault.accounts, held.At a →
          ∀ k ∈ held.keys, ∃ k' ∈ copy.keys, k'.publicKey = k.publicKey

/-- Nobody but the owner signs requests that bring a key for the address. -/
def CustodyAction.Careful (prim : VaultPrimitives) (a : Address) (c : Custody) : CustodyAction → Prop
  | edit e => e.Careful prim a c
  | rotate fresh ts _ _ => FreshPair prim.suites c.vault fresh ts
  | server e => ∀ key, ¬ e.Publishes a key
  | _ => True

/-! ## What the vault keeps -/

/-- An account of the address holds a key with this public half. -/
def Holds (accounts : List Account) (a : Address) (publicKey : Text) : Prop :=
  ∃ account ∈ accounts, account.At a ∧ ∃ k ∈ account.keys, k.publicKey = publicKey

section vault

variable {prim : VaultPrimitives} {suites : KeySuites} {v w : Vault} {accounts : List Account}
  {account changed acc : Account} {a : Address} {publicKey : Text}
  {change : Account → Except String Account}

theorem withActiveAccount_ok (h : withActiveAccount v change = .ok w) :
    ∃ (i : ℕ) (account changed : Account), v.accounts[i]? = some account ∧ some account.id = v.activeAccountId ∧
      change account = .ok changed ∧ w.accounts = v.accounts.set i changed := by
  unfold withActiveAccount at h
  split at h
  · cases h
  · next i hi =>
    split at h
    · cases h
    · next account haccount =>
      obtain ⟨changed, hchanged, hw⟩ := bind_eq_ok.mp h
      cases hw
      obtain ⟨hlt, hid, -⟩ := List.findIdx?_eq_some_iff_getElem.mp hi
      obtain ⟨hlt', rfl⟩ := List.getElem?_eq_some_iff.mp haccount
      exact ⟨i, _, changed, haccount, beq_iff_eq.mp hid, hchanged, rfl⟩

theorem getActiveAccount_mem (h : getActiveAccount v = some account) :
    account ∈ v.accounts ∧ some account.id = v.activeAccountId :=
  ⟨List.mem_of_find?_eq_some h, by simpa using List.find?_some h⟩

/-- The account of one place makes way for another one. -/
theorem mem_or_mem_set {i : ℕ} (hi : accounts[i]? = some account) (hacc : acc ∈ accounts) :
    acc = account ∨ acc ∈ accounts.set i changed := by
  obtain ⟨j, hj⟩ := List.mem_iff_getElem?.mp hacc
  by_cases hij : i = j
  · subst hij
    exact .inl (Option.some.inj (hj.symm.trans hi))
  · refine .inr (List.mem_iff_getElem?.mpr ⟨j, ?_⟩)
    rw [List.getElem?_set_ne hij]
    exact hj

theorem Holds.set {i : ℕ} (h : Holds accounts a publicKey) (hi : accounts[i]? = some account)
    (hid : changed.id = account.id)
    (hkeys : ∀ k ∈ account.keys, k.publicKey = publicKey → k ∈ changed.keys) :
    Holds (accounts.set i changed) a publicKey := by
  obtain ⟨acc, hacc, hat, k, hk, hpublic⟩ := h
  have hor : acc = account ∨ acc ∈ accounts.set i changed := mem_or_mem_set hi hacc
  rcases hor with rfl | hmem
  · have hlt := (List.getElem?_eq_some_iff.mp hi).1
    exact ⟨changed, List.mem_set hlt changed, hid.trans hat, k, hkeys k hk hpublic, hpublic⟩
  · exact ⟨acc, hmem, hat, k, hk, hpublic⟩

theorem Holds.mono {accounts' : List Account} (h : Holds accounts a publicKey)
    (hsub : ∀ acc ∈ accounts, acc.At a → acc ∈ accounts') : Holds accounts' a publicKey := by
  obtain ⟨acc, hacc, hat, hk⟩ := h
  exact ⟨acc, hsub acc hacc hat, hat, hk⟩

theorem Holds.putAccount (h : Holds accounts a publicKey)
    (hacc : acc.At a → ∃ k ∈ acc.keys, k.publicKey = publicKey) :
    Holds (putAccount acc accounts) a publicKey := by
  induction accounts with
  | nil =>
    obtain ⟨b, hb, -⟩ := h
    cases hb
  | cons b bs ih =>
    obtain ⟨held, hheld, hat, hk⟩ := h
    unfold Client.putAccount
    by_cases hid : b.id = acc.id
    · rw [if_pos (beq_iff_eq.mpr hid)]
      rcases List.mem_cons.mp hheld with rfl | hheld
      · have hacc' : acc.At a := hid.symm.trans hat
        exact ⟨acc, List.mem_cons_self, hacc', hacc hacc'⟩
      · exact ⟨held, List.mem_cons_of_mem _ hheld, hat, hk⟩
    · rw [if_neg (by simpa using hid)]
      rcases List.mem_cons.mp hheld with rfl | hheld
      · exact ⟨held, List.mem_cons_self, hat, hk⟩
      · exact (ih ⟨held, hheld, hat, hk⟩).mono fun acc hacc _ => List.mem_cons_of_mem _ hacc

theorem Holds.putAll {imported : List Account} (h : Holds accounts a publicKey)
    (himported : ∀ copy ∈ imported, copy.At a → ∃ k ∈ copy.keys, k.publicKey = publicKey) :
    Holds (imported.foldl (fun accounts acc => Client.putAccount acc accounts) accounts) a publicKey := by
  induction imported generalizing accounts with
  | nil => exact h
  | cons copy imported ih =>
    obtain ⟨hcopy, hrest⟩ := List.forall_mem_cons.mp himported
    exact ih (h.putAccount hcopy) hrest

theorem mem_putAccount (h : acc ∈ putAccount account accounts) : acc = account ∨ acc ∈ accounts := by
  induction accounts with
  | nil => exact .inl (List.mem_singleton.mp h)
  | cons b bs ih =>
    unfold putAccount at h
    split at h
    · rcases List.mem_cons.mp h with rfl | h
      · exact .inl rfl
      · exact .inr (List.mem_cons_of_mem _ h)
    · rcases List.mem_cons.mp h with rfl | h
      · exact .inr List.mem_cons_self
      · exact (ih h).imp id (List.mem_cons_of_mem _)

theorem mem_putAll {imported : List Account}
    (h : acc ∈ imported.foldl (fun accounts acc => putAccount acc accounts) accounts) :
    acc ∈ imported ∨ acc ∈ accounts := by
  induction imported generalizing accounts with
  | nil => exact .inr h
  | cons copy imported ih =>
    rcases ih h with h | h
    · exact .inl (List.mem_cons_of_mem _ h)
    · rcases mem_putAccount h with rfl | h
      · exact .inl List.mem_cons_self
      · exact .inr h

theorem canonical_of_records {now : Number} {records : List Value} {imported : List Account}
    (h : records.mapM (parseAccount suites now) = .ok imported) (hacc : acc ∈ imported) :
    acc.Canonical suites := by
  obtain ⟨record, -, hparse⟩ := (mem_mapM h).mp hacc
  exact canonical_of_parseAccount hparse

theorem canonical_of_backupAccounts {backup : BackupPrimitives} {now : Number} {jsonString : Text}
    {passphrase : Option Text} {imported : List Account}
    (h : backupAccounts suites backup now jsonString passphrase = .ok imported) (hacc : acc ∈ imported) :
    acc.Canonical suites := by
  unfold backupAccounts at h
  split at h
  · cases h
  · split at h
    · split at h
      · cases h
      · obtain ⟨data, -, h⟩ := bind_eq_ok.mp h
        beta_reduce at h
        split at h
        · cases h
        · exact canonical_of_records h hacc
    · rw [ok_bind] at h
      beta_reduce at h
      split at h
      · cases h
      · exact canonical_of_records h hacc

/-- What one account becomes, the vault becomes. -/
theorem Holds.ofChange {P : Text → Prop} (hchange : withActiveAccount v change = .ok w)
    (hkept : ∀ account ∈ v.accounts, ∀ changed, change account = .ok changed → changed.id = account.id ∧
      ∀ k ∈ account.keys, P k.publicKey → k ∈ changed.keys)
    (hP : P publicKey) (h : Holds v.accounts a publicKey) : Holds w.accounts a publicKey := by
  obtain ⟨i, account, changed, hi, -, hchanged, hw⟩ := withActiveAccount_ok hchange
  obtain ⟨hid, hkeys⟩ := hkept account (List.mem_of_getElem? hi) changed hchanged
  rw [hw]
  exact h.set hi hid fun k hk hpublic => hkeys k hk (hpublic ▸ hP)

theorem canonical_change (hchange : withActiveAccount v change = .ok w)
    (hv : ∀ account ∈ v.accounts, account.Canonical suites)
    (hkept : ∀ account ∈ v.accounts, ∀ changed, change account = .ok changed → changed.Canonical suites) :
    ∀ account ∈ w.accounts, account.Canonical suites := by
  obtain ⟨i, account, changed, hi, -, hchanged, hw⟩ := withActiveAccount_ok hchange
  intro acc hacc
  rw [hw] at hacc
  rcases List.mem_or_eq_of_mem_set hacc with hacc | rfl
  · exact hv acc hacc
  · exact hkept account (List.mem_of_getElem? hi) acc hchanged

end vault

/-! ## The invariant -/

/-- The accounts are in order, and each key that is served or on its way is one that the vault holds. -/
structure Guarded (suites : KeySuites) (a : Address) (c : Custody) : Prop where
  canonical : ∀ account ∈ c.vault.accounts, account.Canonical suites
  held : ∀ key, Awaited c a key → Holds c.vault.accounts a (lit key)

section steps

variable {prim : VaultPrimitives} {keys : KeyPrimitives} {cfg : Server.Config} {a : Address} {c d : Custody}
  {v : Vault} {e : VaultEdit} {saves : Bool} {fresh : KeyPair} {ts : Number}

theorem edit_canonical (hg : Guarded prim.suites a c) (hcareful : e.Careful prim a c)
    (h : e.change prim c.vault = .ok (v, saves)) : ∀ account ∈ v.accounts, account.Canonical prim.suites := by
  have hstep : ∀ (action : KeyAction), ∀ account ∈ c.vault.accounts, action.Fresh prim.suites account →
      ∀ changed, action.apply prim.suites Number.zero (account.value prim.suites) = .ok changed →
        changed.Canonical prim.suites :=
    fun action account hmem hfresh changed hchanged => (hg.canonical account hmem).step hfresh hchanged
  cases e with
  | addAccount account =>
    cases h
    intro acc hacc
    rcases List.mem_append.mp hacc with hacc | hacc
    · exact hg.canonical acc hacc
    · exact List.mem_singleton.mp hacc ▸ hcareful
  | switchAccount id =>
    obtain ⟨-, -, h⟩ := bind_eq_ok.mp h
    cases h
    exact hg.canonical
  | deleteAccount id =>
    obtain ⟨-, -, h⟩ := bind_eq_ok.mp h
    have hrest : v.accounts = c.vault.accounts.filter (·.id != id) := by
      split at h
      · split at h <;> cases h
        rfl
      · cases h
        rfl
    rw [hrest]
    exact fun acc hacc => hg.canonical acc (List.mem_filter.mp hacc).1
  | rotateEncryptionKey fresh ts =>
    obtain ⟨changed, hchange, h⟩ := bind_eq_ok.mp h
    cases h
    refine canonical_change hchange hg.canonical fun account hmem changed hchanged => ?_
    refine hstep (.rotate fresh ts) account hmem (hcareful account hmem) changed ?_
    rwa [apply_value (hg.canonical account hmem)]
  | revertEncryptionKeyRotation newKid now =>
    obtain ⟨changed, hchange, h⟩ := bind_eq_ok.mp h
    cases h
    refine canonical_change hchange hg.canonical fun account hmem changed hchanged => ?_
    refine hstep (.revert newKid now) account hmem trivial changed ?_
    rwa [apply_value (hg.canonical account hmem)]
  | destroyRetiredEncryptionKey kid =>
    obtain ⟨changed, hchange, h⟩ := bind_eq_ok.mp h
    cases h
    refine canonical_change hchange hg.canonical fun account hmem changed hchanged => ?_
    refine hstep (.destroy kid) account hmem trivial changed ?_
    rwa [apply_value (hg.canonical account hmem)]
  | importVault jsonString passphrase now =>
    obtain ⟨⟨changed, count⟩, himport, h⟩ := bind_eq_ok.mp h
    cases h
    unfold importVault at himport
    split at himport
    · cases himport
    · next imported himported =>
      cases himport
      intro acc hacc
      rcases mem_putAll hacc with hacc | hacc
      · exact canonical_of_backupAccounts himported hacc
      · exact hg.canonical acc hacc

theorem edit_holds {key : String} (hg : Guarded prim.suites a c) (hcareful : e.Careful prim a c)
    (h : e.change prim c.vault = .ok (v, saves)) (hkey : Awaited c a key) : Holds v.accounts a (lit key) := by
  have hheld := hg.held key hkey
  cases e with
  | addAccount account =>
    cases h
    exact hheld.mono fun acc hacc _ => List.mem_append_left _ hacc
  | switchAccount id =>
    obtain ⟨-, -, h⟩ := bind_eq_ok.mp h
    cases h
    exact hheld
  | deleteAccount id =>
    obtain ⟨-, -, h⟩ := bind_eq_ok.mp h
    have hrest : v.accounts = c.vault.accounts.filter (·.id != id) := by
      split at h
      · split at h <;> cases h
        rfl
      · cases h
        rfl
    rw [hrest]
    refine hheld.mono fun acc hacc hat => List.mem_filter.mpr ⟨hacc, bne_iff_ne.mpr ?_⟩
    exact fun heq => hcareful (heq.symm.trans hat)
  | rotateEncryptionKey fresh ts =>
    obtain ⟨changed, hchange, h⟩ := bind_eq_ok.mp h
    cases h
    refine hheld.ofChange (P := fun _ => True) hchange (fun account _ changed hchanged => ?_) trivial
    obtain ⟨hid, -, hkeys⟩ := keys_rotate hchanged
    refine ⟨hid, fun k hk _ => ?_⟩
    rw [hkeys]
    exact List.mem_cons_of_mem _ hk
  | revertEncryptionKeyRotation newKid now =>
    obtain ⟨changed, hchange, h⟩ := bind_eq_ok.mp h
    cases h
    refine hheld.ofChange (P := fun _ => True) hchange (fun account _ changed hchanged => ?_) trivial
    obtain ⟨hid, -, hkeys⟩ := keys_revert hchanged
    exact ⟨hid, fun k hk _ => hkeys.mem_iff.mpr hk⟩
  | destroyRetiredEncryptionKey kid =>
    obtain ⟨changed, hchange, h⟩ := bind_eq_ok.mp h
    cases h
    refine hheld.ofChange (P := fun publicKey => publicKey = lit key) hchange
      (fun account hmem changed hchanged => ?_) rfl
    obtain ⟨hid, -, -, hkeys⟩ := keys_destroy hchanged
    refine ⟨hid, fun k hk hpublic => ?_⟩
    -- the destroyed key has the id of another public key
    have hkid : k.kid = prim.suites.encryptionKeyId (lit key) :=
      hpublic ▸ ((hg.canonical account hmem).keys k hk).2.2
    rw [hkeys]
    refine List.mem_filter.mpr ⟨hk, bne_iff_ne.mpr fun heq => ?_⟩
    exact hcareful key hkey (heq.symm.trans hkid)
  | importVault jsonString passphrase now =>
    obtain ⟨⟨changed, count⟩, himport, h⟩ := bind_eq_ok.mp h
    cases h
    unfold importVault at himport
    split at himport
    · cases himport
    · next imported himported =>
      cases himport
      refine hheld.putAll fun copy hcopy hat => ?_
      obtain ⟨held, hmem, hheldAt, k, hk, hpublic⟩ := hheld
      obtain ⟨k', hk', hsame⟩ := hcareful imported himported copy hcopy hat held hmem hheldAt k hk
      exact ⟨k', hk', hsame.trans hpublic⟩

/-- The key that a rotation makes is held from then on. -/
theorem rotate_holds {account : Account}
    (h : (VaultEdit.rotateEncryptionKey fresh ts).change prim c.vault = .ok (v, saves))
    (hactive : getActiveAccount c.vault = some account) (hat : account.At a) :
    Holds v.accounts a fresh.publicKey := by
  obtain ⟨w, hchange, h⟩ := bind_eq_ok.mp h
  cases h
  obtain ⟨i, rotated, changed, hi, hid, hchanged, hw⟩ := withActiveAccount_ok hchange
  obtain ⟨hsame, -, hkeys⟩ := keys_rotate hchanged
  have hat' : rotated.id = account.id :=
    Option.some.inj (hid.trans (getActiveAccount_mem hactive).2.symm)
  rw [hw]
  refine ⟨changed, List.mem_set (List.getElem?_eq_some_iff.mp hi).1 changed,
    (hsame.trans hat').trans hat, freshKey prim.suites fresh ts, ?_, rfl⟩
  rw [hkeys]
  exact List.mem_cons_self

theorem publishes_event {p : Publication} {now : Server.Time} {key : String} :
    (p.event now).Publishes a key ↔ p.Carries a key := by
  cases p <;> exact Iff.rfl

/-- A careful step keeps the invariant. -/
theorem CustodyStep.guarded {action : CustodyAction} (hg : Guarded prim.suites a c)
    (hcareful : action.Careful prim a c) (h : CustodyStep prim keys cfg c action d) :
    Guarded prim.suites a d := by
  cases h with
  | edit h =>
    next e v saves =>
    cases saves with
    | false => exact hg
    | true => exact ⟨edit_canonical hg hcareful h, fun key hkey => edit_holds hg hcareful h hkey⟩
  | rotate h hactive hat hkey =>
    next fresh ts token req account v =>
    have hfresh : (VaultEdit.rotateEncryptionKey fresh ts).Careful prim a c := hcareful
    refine ⟨edit_canonical hg hfresh h, ?_⟩
    rintro key (hserves | ⟨p, hp, hcarries⟩)
    · exact edit_holds hg hfresh h (.inl hserves)
    · rcases List.mem_append.mp hp with hp | hp
      · exact edit_holds hg hfresh h (.inr ⟨p, hp, hcarries⟩)
      · obtain rfl := List.mem_singleton.mp hp
        obtain ⟨rfl, rfl⟩ := hcarries
        rw [hkey]
        exact rotate_holds h hactive hat
  | signIn hactive hat hkey =>
    next admitted req account =>
    refine ⟨hg.canonical, ?_⟩
    rintro key (hserves | ⟨p, hp, hcarries⟩)
    · exact hg.held key (.inl hserves)
    · rcases List.mem_append.mp hp with hp | hp
      · exact hg.held key (.inr ⟨p, hp, hcarries⟩)
      · obtain rfl := List.mem_singleton.mp hp
        obtain ⟨rfl, hreq⟩ := hcarries
        rw [hreq] at hkey
        exact ⟨account, (getActiveAccount_mem hactive).1, hat, account.encryption, List.mem_cons_self,
          (Option.some.inj hkey).symm⟩
  | deliver hp h =>
    next i now p directory =>
    refine ⟨hg.canonical, ?_⟩
    rintro key (hserves | ⟨q, hq, hcarries⟩)
    · rcases h.serves hserves with hserves | hpublishes
      · exact hg.held key (.inl hserves)
      · exact hg.held key (.inr ⟨p, List.mem_of_getElem? hp, publishes_event.mp hpublishes⟩)
    · exact hg.held key (.inr ⟨q, List.mem_of_mem_eraseIdx hq, hcarries⟩)
  | lose =>
    refine ⟨hg.canonical, ?_⟩
    rintro key (hserves | ⟨q, hq, hcarries⟩)
    · exact hg.held key (.inl hserves)
    · exact hg.held key (.inr ⟨q, List.mem_of_mem_eraseIdx hq, hcarries⟩)
  | server h =>
    refine ⟨hg.canonical, ?_⟩
    rintro key (hserves | hflight)
    · rcases h.serves hserves with hserves | hpublishes
      · exact hg.held key (.inl hserves)
      · exact absurd hpublishes (hcareful key)
    · exact hg.held key (.inr hflight)

end steps

/-! ## Runs -/

/-- An account of the address opens what is sealed to the key, with a seed whose public half it is. -/
def Opens (suites : KeySuites) (v : Vault) (a : Address) (key : String) : Prop :=
  ∃ account ∈ v.accounts, account.At a ∧ ∃ seed, suites.encryptionPublicKeyOf seed = lit key ∧
    ∀ envelope : Value, envelope.get "kid" = some (.str (suites.encryptionKeyId (lit key))) →
      encryptionSeedFor account envelope = .ok seed

theorem Guarded.opens {suites : KeySuites} {a : Address} {c : Custody} {key : String}
    (hg : Guarded suites a c) (h : Awaited c a key) : Opens suites c.vault a key := by
  obtain ⟨account, hmem, hat, k, hk, hpublic⟩ := hg.held key h
  have hcanonical := hg.canonical account hmem
  obtain ⟨-, hderived, hkid⟩ := hcanonical.keys k hk
  refine ⟨account, hmem, hat, k.seed, hderived.symm.trans hpublic, fun envelope henvelope => ?_⟩
  refine hcanonical.keyAlgebra.opens k hk envelope ?_
  rw [henvelope, hkid, hpublic]

/-- At every point of a careful run, the saved vault opens what others seal to the key that the
directory serves for the address. -/
theorem served_key_opens {prim : VaultPrimitives} {keys : KeyPrimitives} {cfg : Server.Config} {a : Address}
    {c₀ c : Custody} {actions : List CustodyAction}
    (hcanonical : ∀ account ∈ c₀.vault.accounts, account.Canonical prim.suites)
    (hheld : ∀ key, Awaited c₀ a key → Holds c₀.vault.accounts a (lit key))
    (hrun : Run (restrict (CustodyAction.Careful prim a) (CustodyStep prim keys cfg)) c₀ actions c)
    {key : String} (hserves : Server.Serves c.directory a key) : Opens prim.suites c.vault a key := by
  have hguarded : Guarded prim.suites a c :=
    hrun.invariant (fun _ _ _ hg hstep => hstep.2.guarded hg hstep.1) ⟨hcanonical, hheld⟩
  exact hguarded.opens (.inl hserves)

/-! ## A rotation that is answered -/

section sample

variable (id key fresh : Text)

/-- The one address is `id`, and a seed is its own public half and its own id. -/
def custodyPrimitives : VaultPrimitives where
  toBackupPrimitives := sampleBackup "old" []
  suites :=
    { identityPublicKeyOf := fun seed => seed
      encryptionPublicKeyOf := fun seed => seed
      addressOf := fun _ => id
      encryptionKeyId := fun publicKey => publicKey
      isIdentitySeed := fun _ => true
      isEncryptionSeed := fun _ => true
      kemAlg := "kem" }
  deriveKey password kdf := password ++ kdf

def custodyAccount : Account := ⟨id, [], Number.zero, ⟨[], []⟩, ⟨key, key, key, Number.zero⟩, []⟩

def custodyVault : Vault := ⟨[custodyAccount id key], some id⟩

variable {id key fresh}

theorem custody_canonical {account : Account} (h : account ∈ (custodyVault id key).accounts) :
    account.Canonical (custodyPrimitives id).suites := by
  obtain rfl := List.mem_singleton.mp h
  refine ⟨⟨rfl, rfl⟩, rfl, fun k hk => ?_, List.nodup_singleton _, Nat.zero_le _⟩
  obtain rfl := List.mem_singleton.mp hk
  exact ⟨rfl, rfl, rfl⟩

theorem custody_fresh (hne : fresh ≠ key) :
    FreshPair (custodyPrimitives id).suites (custodyVault id key) ⟨fresh, fresh⟩ Number.zero := by
  intro account h
  obtain rfl := List.mem_singleton.mp h
  exact ⟨rfl, rfl, fun hkid => hne (List.mem_singleton.mp hkid)⟩

theorem custody_active : getActiveAccount (custodyVault id key) = some (custodyAccount id key) := by
  simp [getActiveAccount, custodyVault, custodyAccount]

theorem custody_rotated (id key fresh : Text) : ∃ v, (VaultEdit.rotateEncryptionKey ⟨fresh, fresh⟩ Number.zero).change
    (custodyPrimitives id) (custodyVault id key) = .ok (v, true) := by
  obtain ⟨rotated, hrotated⟩ : ∃ b, rotateAccountEncryptionKey (custodyPrimitives id).suites ⟨fresh, fresh⟩
      Number.zero (custodyAccount id key) = .ok b := ⟨_, rotate_eq_ok.mpr ⟨Nat.zero_lt_succ _, rfl⟩⟩
  have hindex : (custodyVault id key).accounts.findIdx?
      (fun b => some b.id == (custodyVault id key).activeAccountId) = some 0 := by
    simp [custodyVault, custodyAccount]
  have hplace : (custodyVault id key).accounts[0]? = some (custodyAccount id key) := rfl
  simp only [VaultEdit.change, withActiveAccount, hindex, hplace, hrotated, ok_bind]
  exact ⟨_, rfl⟩

theorem custody_holds {a : Address} {served : String} (ha : id = lit a.text) :
    Holds (custodyVault id (lit served)).accounts a (lit served) :=
  ⟨custodyAccount id (lit served), List.mem_cons_self, ha, _, List.mem_cons_self, rfl⟩

end sample

theorem lit_injective {s t : String} (h : lit s = lit t) : s = t :=
  String.toList_inj.mp (List.map_injective_iff.mpr (fun _ _ hc => Point.char.inj hc) h)

/-- The token of the sample identity, and its id in the vault. -/
def custodyToken : Server.Token := ⟨Server.sampleText 96 '1', 0⟩

def custodyId : Text := lit (Server.sampleText 96 '1')

def custodyAddress : Address := (Server.sampleServed '2' none).address

/-- The vault has the key that the directory serves, and nothing is under way. -/
def custodyStart : Custody :=
  ⟨custodyVault custodyId (lit (Server.sampleKey '2')), Server.sampleDirectory '2' none .empty, []⟩

theorem custodyStart_holds {key : String} (h : Awaited custodyStart custodyAddress key) :
    Holds custodyStart.vault.accounts custodyAddress (lit key) := by
  rcases h with ⟨u, hu, -, hkey⟩ | ⟨p, hp, -⟩
  · obtain rfl : u = Server.sampleServed '2' none := List.mem_singleton.mp hu
    have hserved : key = Server.sampleKey '2' := Option.some.inj hkey.symm
    rw [hserved]
    exact custody_holds rfl
  · cases hp

/-- The directory once the rotation is accepted. -/
def custodyDirectory : Directory :=
  Server.sampleDirectory '3' (some 0) (Tables.Serial.empty.insert (Server.sampleRecord '2' '3') fun _ => rfl)

theorem custody_delivered : DirectoryStep Server.sampleKeyPrimitives Server.sampleConfig
    custodyStart.directory (Server.sampleRotate '2' '3') custodyDirectory :=
  have h2 : Server.isLowerHexDigit '2' = true := rfl
  have h3 : Server.isLowerHexDigit '3' = true := rfl
  (Server.loggedStep_sample h2 h3 (by decide) []).1

theorem custodyId_at (key : Text) : (custodyAccount custodyId key).At (lower custodyToken.sub) := by
  simp [Account.At, custodyAccount, custodyId, custodyToken, lower, Server.lowerText, Server.sampleText]

/-- The rotation is saved, sent and answered, and the new key opens. -/
theorem served_key_opens_sample : ∃ actions c,
    Run (restrict (CustodyAction.Careful (custodyPrimitives custodyId) custodyAddress)
        (CustodyStep (custodyPrimitives custodyId) Server.sampleKeyPrimitives Server.sampleConfig))
      custodyStart actions c ∧
    Server.Serves c.directory custodyAddress (Server.sampleKey '3') ∧
    Opens (custodyPrimitives custodyId).suites c.vault custodyAddress (Server.sampleKey '3') := by
  have hne : lit (Server.sampleKey '3') ≠ lit (Server.sampleKey '2') :=
    fun h => Server.sampleKey_ne (by decide) (lit_injective h)
  have hsent : lit (Server.sampleRotation '2' '3').encryptionPublicKey = lit (Server.sampleKey '3') := by
    rw [Server.sampleRotation]
  -- the two sides are compared by name, and not by their thousands of digits
  have hpair : ∀ {x y : Text}, x = y → x = (⟨y, y⟩ : KeyPair).publicKey := fun h => h
  obtain ⟨v, hv⟩ := custody_rotated custodyId (lit (Server.sampleKey '2')) (lit (Server.sampleKey '3'))
  have hrotate : CustodyStep (custodyPrimitives custodyId) Server.sampleKeyPrimitives Server.sampleConfig
      custodyStart (.rotate ⟨lit (Server.sampleKey '3'), lit (Server.sampleKey '3')⟩ Number.zero custodyToken
        (Server.sampleRotation '2' '3')) _ :=
    .rotate hv custody_active (custodyId_at _) (hpair hsent)
  have hdeliver : CustodyStep (custodyPrimitives custodyId) Server.sampleKeyPrimitives Server.sampleConfig
      ⟨v, custodyStart.directory, [.rotation custodyToken (Server.sampleRotation '2' '3')]⟩
      (.deliver 0 0) _ := .deliver rfl custody_delivered
  have hrun : Run (restrict (CustodyAction.Careful (custodyPrimitives custodyId) custodyAddress)
      (CustodyStep (custodyPrimitives custodyId) Server.sampleKeyPrimitives Server.sampleConfig))
      custodyStart [.rotate ⟨lit (Server.sampleKey '3'), lit (Server.sampleKey '3')⟩ Number.zero custodyToken
        (Server.sampleRotation '2' '3'), .deliver 0 0] _ :=
    .cons ⟨custody_fresh hne, hrotate⟩ (.single ⟨trivial, hdeliver⟩)
  have hserves : Server.Serves custodyDirectory custodyAddress (Server.sampleKey '3') :=
    ⟨Server.sampleServed '3' (some 0), List.mem_singleton_self _, rfl, rfl⟩
  exact ⟨_, _, hrun, hserves,
    served_key_opens (fun _ => custody_canonical) (fun _ => custodyStart_holds) hrun hserves⟩

end Kryptolog.Client
