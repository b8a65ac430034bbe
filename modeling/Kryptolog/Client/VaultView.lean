import Kryptolog.Client.VaultEdits

/-! # The vault in memory and the vault in storage

One operation of the vault service after another. While one waits, the derived key may be dropped or the
service locked, and the write to `localStorage` may throw.
-/

namespace Kryptolog.Client.VaultView
set_option autoImplicit false

open Script Fallible Runs

/-- The operation under way, or the last one, and the service as it was when the operation began. -/
structure Session where
  service : Service
  before : Service
  point : VaultPoint

inductive Event
  | begin (call : VaultCall)
  | turn
  | storeThrows
  | dropKeys
  | lock
  | wipeVault

def isDone : VaultPoint → Bool
  | .done _ => true
  | _ => false

section sessions

variable (prim : VaultPrimitives) (caller : Caller)

/-- `localStorage.setItem` throws. A fresh key was kept before. -/
def storeThrows (c : Service) : VaultPoint → Option (Service × VaultPoint)
  | .sealing _ _ _ _ => some (c, .done (.failed "QuotaExceededError"))
  | .rederiving _ _ password kdf =>
    some (c.cacheKey caller (prim.deriveKey password kdf) kdf, .done (.failed "QuotaExceededError"))
  | _ => none

def wipeVault (c : Service) : Service :=
  { c.clearKeyCache with stored := none, vault := none, isLocked := true }

def step (s : Session) : Event → Option Session
  | .begin call =>
    let out := VaultCall.begin prim s.service call
    if isDone s.point then some ⟨out.1, s.service, out.2⟩ else none
  | .turn => (VaultPoint.resume prim caller s.service s.point).map fun out => ⟨out.1, s.before, out.2⟩
  | .storeThrows => (storeThrows prim caller s.service s.point).map fun out => ⟨out.1, s.before, out.2⟩
  | .dropKeys => some { s with service := s.service.dropKeys }
  | .lock => some { s with service := s.service.lock }
  | .wipeVault => if isDone s.point then some ⟨wipeVault s.service, s.service, .done .locked⟩ else none

end sessions

/-! ## The property -/

/-- What is in memory is what is stored, without the seeds, or nothing where the service is locked. -/
inductive InStep (c : Service) : Prop
  | locked (hlocked : c.isLocked = true) (hvault : c.vault = none)
  | unlocked (blob : Sealed) (hopen : c.isLocked = false) (hstored : c.stored = some blob)
    (hvault : c.vault = some blob.content.sanitize)

/-- Storage is as it was, and so is memory, unless the service was locked meanwhile. -/
structure Kept (before c : Service) : Prop where
  stored : c.stored = before.stored
  memory : c.vault = before.vault ∧ c.isLocked = before.isLocked ∨ c.vault = none ∧ c.isLocked = true

def fails : VaultResult → Bool
  | .failed _ | .unlocked false => true
  | _ => false

structure Settled (before c : Service) (result : VaultResult) : Prop where
  inStep : InStep c
  kept : fails result = true → Kept before c

/-! ## The condition -/

/-- The edit moves the pointer of the shown vault before it saves. -/
def movesPointer (v : Vault) : VaultEdit → Bool
  | .deleteAccount id => v.activeAccountId = some id
  | _ => false

def changesKeys : VaultEdit → Bool
  | .rotateEncryptionKey _ _ | .revertEncryptionKeyRotation _ _ | .destroyRetiredEncryptionKey _ => true
  | _ => false

/-- All copies of the active account look alike. -/
def Alike (w : Vault) : Prop :=
  ∀ a ∈ w.accounts, ∀ b ∈ w.accounts, some a.id = w.activeAccountId → some b.id = w.activeAccountId →
    sanitize a = sanitize b

/-- An open vault is edited: a pointer is moved where the save has a key, and keys are changed where no
other copy of the account is left behind. -/
structure SoundEdit (prim : VaultPrimitives) (c : Service) (password : Option Text) (v : Vault) (e : VaultEdit) :
    Prop where
  key : ∀ w, e.change prim v = .ok (w, true) → movesPointer v e = true → c.isLocked = false →
    c.cachedKey.isSome = true ∨ (given password).isSome = true
  copies : ∀ w, e.change prim v = .ok (w, true) → changesKeys e = true → Alike w

def SoundTurn (prim : VaultPrimitives) (c : Service) : VaultPoint → Prop
  | .loaded (.edit e _) password v => SoundEdit prim c password v e
  | .sealing (.edit _) _ _ _ | .rederiving (.edit _) _ _ _ => c.isLocked = false
  | _ => True

/-- The write may throw where the pointer was not moved. -/
def SoundThrow (c : Service) : VaultPoint → Prop
  | .sealing (.edit e) _ _ _ | .rederiving (.edit e) _ _ _ =>
    c.isLocked = false → ∀ blob, c.stored = some blob → movesPointer blob.content e = false
  | _ => True

/-- An edit that was stored is shown before the service is locked. -/
def SoundLock : VaultPoint → Prop
  | .saved (.edit _) _ => False
  | _ => True

def Sound (prim : VaultPrimitives) (s : Session) : Event → Prop
  | .turn => SoundTurn prim s.service s.point
  | .storeThrows => SoundThrow s.service s.point
  | .lock => SoundLock s.point
  | _ => True

/-! ## What is kept -/

variable {prim : VaultPrimitives} {caller : Caller} {before c d : Service}

/-- What an operation shares with the rest: storage, memory, and the lock. -/
structure Same (c d : Service) : Prop where
  stored : d.stored = c.stored
  vault : d.vault = c.vault
  isLocked : d.isLocked = c.isLocked

theorem Same.refl (c : Service) : Same c c := ⟨rfl, rfl, rfl⟩

theorem same_clearKeyCache (c : Service) : Same c c.clearKeyCache := ⟨rfl, rfl, rfl⟩

theorem same_dropKeys (c : Service) : Same c c.dropKeys := ⟨rfl, rfl, rfl⟩

theorem same_keepSigningKey (c : Service) (caller : Caller) (seed : Text) : Same c (c.keepSigningKey caller seed) :=
  ⟨rfl, rfl, rfl⟩

theorem same_cacheKey (c : Service) (caller : Caller) (key : VaultKey) (kdf : Kdf) :
    Same c (c.cacheKey caller key kdf) := by
  unfold Service.cacheKey
  split
  · exact .refl c
  · exact ⟨rfl, rfl, rfl⟩

theorem same_setCacheTTL (c : Service) (ms : ℕ) : Same c (c.setCacheTTL ms) := by
  unfold Service.setCacheTTL
  simp only
  split
  · exact ⟨rfl, rfl, rfl⟩
  · exact ⟨rfl, rfl, rfl⟩

theorem InStep.same (h : InStep c) (hsame : Same c d) : InStep d := by
  cases h with
  | locked hlocked hvault => exact .locked (hsame.isLocked.trans hlocked) (hsame.vault.trans hvault)
  | unlocked blob hopen hstored hvault =>
    exact .unlocked blob (hsame.isLocked.trans hopen) (hsame.stored.trans hstored) (hsame.vault.trans hvault)

theorem Kept.refl (c : Service) : Kept c c := ⟨rfl, .inl ⟨rfl, rfl⟩⟩

theorem Kept.same (h : Kept before c) (hsame : Same c d) : Kept before d where
  stored := hsame.stored.trans h.stored
  memory := by
    rw [hsame.vault, hsame.isLocked]
    exact h.memory

theorem Kept.lock (h : Kept before c) : Kept before c.lock := ⟨h.stored, .inr ⟨rfl, rfl⟩⟩

theorem Kept.inStep (h : Kept before c) (hbefore : InStep before) : InStep c := by
  rcases h.memory with ⟨hvault, hlocked⟩ | ⟨hvault, hlocked⟩
  · exact hbefore.same ⟨h.stored, hvault, hlocked⟩
  · exact .locked hlocked hvault

theorem Kept.settled (h : Kept before c) (hbefore : InStep before) (result : VaultResult) :
    Settled before c result := ⟨h.inStep hbefore, fun _ => h⟩

/-- What an unlocked service shows. -/
theorem InStep.shows {blob : Sealed} (h : InStep c) (hopen : c.isLocked = false) (hstored : c.stored = some blob) :
    c.vault = some blob.content.sanitize := by
  cases h with
  | locked hlocked _ =>
    rw [hopen] at hlocked
    cases hlocked
  | unlocked blob' _ hstored' hvault =>
    rw [hstored] at hstored'
    rw [hvault, Option.some.inj hstored']

theorem InStep.shows_nothing (h : InStep c) (hlocked : c.isLocked = true) : c.vault = none := by
  cases h with
  | locked _ hvault => exact hvault
  | unlocked _ hopen _ _ =>
    rw [hlocked] at hopen
    cases hopen

/-! ## What an edit shows -/

/-- What is shown of a vault while its change is saved. -/
def shownMeanwhile (e : VaultEdit) (v w : Vault) : ShownVault :=
  if movesPointer v e then { v.sanitize with activeAccountId := w.activeAccountId } else v.sanitize

theorem beforeSave_unlocked {e : VaultEdit} {v w : Vault} (h : c.vault = some v.sanitize) :
    beforeSave c e v w = .ok { c with vault := some (shownMeanwhile e v w) } := by
  have hsame : c = { c with vault := some v.sanitize } := by
    rw [← h]
  cases e with
  | deleteAccount id =>
    unfold beforeSave shownMeanwhile movesPointer
    by_cases hactive : v.activeAccountId = some id
    · simp only [if_pos hactive, h, decide_eq_true hactive, if_true]
    · simp only [if_neg hactive, decide_eq_false hactive, Bool.false_eq_true, if_false]
      exact congrArg _ hsame
  | _ => exact congrArg _ hsame

/-- Without a vault in memory an edit moves no pointer. -/
theorem beforeSave_locked {e : VaultEdit} {v w : Vault} (h : c.vault = none) :
    beforeSave c e v w = .error "TypeError" ∨ beforeSave c e v w = .ok c := by
  cases e with
  | deleteAccount id =>
    by_cases hactive : v.activeAccountId = some id
    · exact .inl (by simp only [beforeSave, if_pos hactive, h])
    · exact .inr (by simp only [beforeSave, if_neg hactive])
  | _ => exact .inr rfl

/-- The account as it is shown after a change of the active one. -/
def shownAs (w : Vault) (shown : ShownAccount) : ShownAccount :=
  ((w.accounts.find? fun b => some b.id == w.activeAccountId && b.id == shown.id).map sanitize).getD shown

theorem shownAs_active {w : Vault} (halike : Alike w) {a : Account} (ha : a ∈ w.accounts)
    (hactive : some a.id = w.activeAccountId) {shown : ShownAccount} (hshown : shown.id = a.id) :
    shownAs w shown = sanitize a := by
  have hfound : (w.accounts.find? fun b => some b.id == w.activeAccountId && b.id == shown.id).isSome = true := by
    rw [List.find?_isSome]
    exact ⟨a, ha, by simp [hactive, hshown]⟩
  obtain ⟨b, hb⟩ := Option.isSome_iff_exists.mp hfound
  have hb' := List.find?_some hb
  rw [Bool.and_eq_true, beq_iff_eq] at hb'
  rw [shownAs, hb]
  exact halike b (List.mem_of_find?_eq_some hb) a ha hb'.1 hactive

theorem shownAs_other {w : Vault} {shown : ShownAccount} (h : some shown.id ≠ w.activeAccountId) :
    shownAs w shown = shown := by
  have hnone : (w.accounts.find? fun b => some b.id == w.activeAccountId && b.id == shown.id) = none := by
    rw [List.find?_eq_none]
    intro b _ hb
    rw [Bool.and_eq_true, beq_iff_eq, beq_iff_eq] at hb
    exact h (hb.2 ▸ hb.1)
  rw [shownAs, hnone]
  rfl

/-- The account that changed is found in the vault that was stored, and what is found for the others looks
like them. -/
theorem shownAs_withActiveAccount {v w : Vault} {change : Account → Except String Account}
    (hid : ∀ a b, change a = .ok b → b.id = a.id) (h : withActiveAccount v change = .ok w) (halike : Alike w) :
    (⟨v.sanitize.accounts.map (shownAs w), v.activeAccountId⟩ : ShownVault) = w.sanitize := by
  unfold withActiveAccount at h
  split at h
  · cases h
  · next i hi =>
    split at h
    · cases h
    · next account haccount =>
      obtain ⟨changed, hchanged, hw⟩ := bind_eq_ok.mp h
      have hactive : some account.id = v.activeAccountId := by
        obtain ⟨hlt, hfirst, -⟩ := List.findIdx?_eq_some_iff_getElem.mp hi
        rw [List.getElem?_eq_getElem hlt] at haccount
        rw [← Option.some.inj haccount]
        exact beq_iff_eq.mp hfirst
      obtain rfl := Except.ok.inj hw
      have hall : (v.accounts.map sanitize).map (shownAs { v with accounts := v.accounts.set i changed }) =
          (v.accounts.set i changed).map sanitize := by
        apply List.ext_getElem?
        intro j
        rw [List.getElem?_map, List.getElem?_map, List.getElem?_map]
        by_cases hji : j = i
        · have hset : (v.accounts.set i changed)[j]? = some changed := by
            rw [hji, List.getElem?_set_self']
            rw [haccount]
            rfl
          rw [hset, hji, haccount]
          have hmem : changed ∈ v.accounts.set i changed := List.mem_of_getElem? hset
          exact congrArg some (shownAs_active halike hmem ((hid _ _ hchanged).symm ▸ hactive) (hid _ _ hchanged).symm)
        · have hset : (v.accounts.set i changed)[j]? = v.accounts[j]? := List.getElem?_set_ne (Ne.symm hji)
          rw [hset]
          cases ha : v.accounts[j]? with
          | none => rfl
          | some a =>
            have hmem : a ∈ v.accounts.set i changed := List.mem_of_getElem? (hset.trans ha)
            by_cases haactive : some a.id = v.activeAccountId
            · exact congrArg some (shownAs_active halike hmem haactive rfl)
            · exact congrArg some (shownAs_other haactive)
      exact congrArg (fun accounts => (⟨accounts, v.activeAccountId⟩ : ShownVault)) hall

/-- What is shown of a vault once its change is stored. -/
def shownAfter (e : VaultEdit) (shown : ShownVault) (w : Vault) : ShownVault :=
  match e with
  | .addAccount account => { shown with accounts := shown.accounts ++ [sanitize account] }
  | .switchAccount id => { shown with activeAccountId := some id }
  | .deleteAccount id => { shown with accounts := shown.accounts.filter (·.id != id) }
  | .importVault _ _ _ => w.sanitize
  | _ => { shown with accounts := shown.accounts.map (shownAs w) }

theorem afterSave_eq {e : VaultEdit} {shown : ShownVault} {w : Vault} (h : c.vault = some shown) :
    afterSave c e w = .ok { c with vault := some (shownAfter e shown w) } := by
  cases e with
  | importVault _ _ _ => rfl
  | _ =>
    simp only [afterSave, h]
    rfl

/-- Every edit shows what it stores. -/
theorem shownAfter_eq {e : VaultEdit} {v w : Vault} (hchange : e.change prim v = .ok (w, true))
    (halike : changesKeys e = true → Alike w) : shownAfter e (shownMeanwhile e v w) w = w.sanitize := by
  cases e with
  | addAccount account =>
    cases hchange
    simp [shownAfter, shownMeanwhile, movesPointer, Vault.sanitize]
  | switchAccount id =>
    obtain ⟨u, -, hok⟩ := bind_eq_ok.mp hchange
    cases hok
    rfl
  | deleteAccount id =>
    have hfilter : ((v.accounts.map sanitize).filter fun a => a.id != id) =
        (v.accounts.filter fun a => a.id != id).map sanitize := List.filter_map
    obtain ⟨u, -, hok⟩ := bind_eq_ok.mp hchange
    unfold shownAfter shownMeanwhile movesPointer
    by_cases hactive : v.activeAccountId = some id
    · rw [if_pos hactive] at hok
      split at hok
      · cases hok
      · cases hok
        simp only [decide_eq_true hactive, if_true, Vault.sanitize, hfilter]
    · rw [if_neg hactive] at hok
      cases hok
      simp only [decide_eq_false hactive, Bool.false_eq_true, if_false, Vault.sanitize, hfilter]
  | rotateEncryptionKey fresh ts =>
    obtain ⟨changed, hchanged, hok⟩ := bind_eq_ok.mp hchange
    cases hok
    exact shownAs_withActiveAccount (fun _ _ hb => (keys_rotate hb).1) hchanged (halike rfl)
  | revertEncryptionKeyRotation newKid now =>
    obtain ⟨changed, hchanged, hok⟩ := bind_eq_ok.mp hchange
    cases hok
    exact shownAs_withActiveAccount (fun _ _ hb => (keys_revert hb).1) hchanged (halike rfl)
  | destroyRetiredEncryptionKey kid =>
    obtain ⟨changed, hchanged, hok⟩ := bind_eq_ok.mp hchange
    cases hok
    exact shownAs_withActiveAccount (fun _ _ hb => (keys_destroy hb).1) hchanged (halike rfl)
  | importVault jsonString passphrase now => rfl

/-! ## The turns of an operation -/

/-- A change of the stored vault that is not stored yet. -/
structure Pending (prim : VaultPrimitives) (before c : Service) (e : VaultEdit) (blob : Sealed) (w : Vault) :
    Prop where
  stored : c.stored = some blob
  kept : before.stored = some blob
  change : e.change prim blob.content = .ok (w, true)
  alike : changesKeys e = true → Alike w
  memory : c.isLocked = false ∧ c.vault = some (shownMeanwhile e blob.content w) ∧ before.isLocked = false ∧
    before.vault = some blob.content.sanitize ∨ c.isLocked = true ∧ c.vault = none

/-- A change that is stored, and not shown yet. -/
structure Unshown (prim : VaultPrimitives) (c : Service) (e : VaultEdit) (v : Vault) (blob : Sealed) : Prop where
  isLocked : c.isLocked = false
  stored : c.stored = some blob
  change : e.change prim v = .ok (blob.content, true)
  alike : changesKeys e = true → Alike blob.content
  vault : c.vault = some (shownMeanwhile e v blob.content)

def Saves (prim : VaultPrimitives) (before c : Service) (w : Vault) : Saving → Prop
  | .edit e => ∃ blob, Pending prim before c e blob w
  | .create => Kept before c

def Stored (prim : VaultPrimitives) (c : Service) (w : Vault) : Saving → Prop
  | .edit e => ∃ v blob, Unshown prim c e v blob ∧ blob.content = w
  | .create => ∃ blob, c.stored = some blob ∧ blob.content = w

def PointFact (prim : VaultPrimitives) (before c : Service) : VaultPoint → Prop
  | .done result => Settled before c result
  | .opening _ _ blob _ | .derivingKey _ _ blob | .decrypting _ _ blob _ | .derivingUnlock _ blob
  | .decryptingUnlock blob _ => Kept before c ∧ c.stored = some blob
  | .loaded _ _ vault => Kept before c ∧ ∃ blob, c.stored = some blob ∧ blob.content = vault
  | .changing e _ _ w => ∃ blob, Pending prim before c e blob w ∧ movesPointer blob.content e = false
  | .sealing saving w _ _ | .sealingFresh saving w _ _ | .rederiving saving w _ _ => Saves prim before c w saving
  | .saved saving w => Stored prim c w saving
  | _ => Kept before c

theorem Pending.same {e : VaultEdit} {blob : Sealed} {w : Vault} (h : Pending prim before c e blob w)
    (hsame : Same c d) : Pending prim before d e blob w := by
  refine ⟨hsame.stored.trans h.stored, h.kept, h.change, h.alike, ?_⟩
  rw [hsame.isLocked, hsame.vault]
  exact h.memory

theorem Pending.lock {e : VaultEdit} {blob : Sealed} {w : Vault} (h : Pending prim before c e blob w) :
    Pending prim before c.lock e blob w := ⟨h.stored, h.kept, h.change, h.alike, .inr ⟨rfl, rfl⟩⟩

/-- Nothing has changed where no pointer was moved. -/
theorem Pending.unmoved {e : VaultEdit} {blob : Sealed} {w : Vault} (h : Pending prim before c e blob w)
    (hmoves : c.isLocked = false → movesPointer blob.content e = false) : Kept before c where
  stored := h.stored.trans h.kept.symm
  memory := by
    rcases h.memory with ⟨hopen, hvault, hbefore, hshown⟩ | ⟨hlocked, hvault⟩
    · have hsanitized : shownMeanwhile e blob.content w = blob.content.sanitize := by
        rw [shownMeanwhile, hmoves hopen]
        rfl
      rw [hsanitized] at hvault
      exact .inl ⟨hvault.trans hshown.symm, hopen.trans hbefore.symm⟩
    · exact .inr ⟨hvault, hlocked⟩

theorem Saves.same {w : Vault} {saving : Saving} (h : Saves prim before c w saving) (hsame : Same c d) :
    Saves prim before d w saving := by
  cases saving with
  | edit e =>
    obtain ⟨blob, hpending⟩ := h
    exact ⟨blob, hpending.same hsame⟩
  | create => exact Kept.same h hsame

theorem Saves.lock {w : Vault} {saving : Saving} (h : Saves prim before c w saving) :
    Saves prim before c.lock w saving := by
  cases saving with
  | edit e =>
    obtain ⟨blob, hpending⟩ := h
    exact ⟨blob, hpending.lock⟩
  | create => exact Kept.lock h

theorem Stored.same {w : Vault} {saving : Saving} (h : Stored prim c w saving) (hsame : Same c d) :
    Stored prim d w saving := by
  cases saving with
  | edit e =>
    obtain ⟨v, blob, hunshown, hw⟩ := h
    exact ⟨v, blob, ⟨hsame.isLocked.trans hunshown.isLocked, hsame.stored.trans hunshown.stored, hunshown.change,
      hunshown.alike, hsame.vault.trans hunshown.vault⟩, hw⟩
  | create =>
    obtain ⟨blob, hstored, hw⟩ := h
    exact ⟨blob, hsame.stored.trans hstored, hw⟩

theorem Settled.same {result : VaultResult} (h : Settled before c result) (hsame : Same c d) :
    Settled before d result := ⟨h.inStep.same hsame, fun hfails => (h.kept hfails).same hsame⟩

theorem PointFact.same {p : VaultPoint} (h : PointFact prim before c p) (hsame : Same c d) :
    PointFact prim before d p := by
  cases p with
  | done result => exact Settled.same h hsame
  | opening _ _ _ _ | derivingKey _ _ _ | decrypting _ _ _ _ | derivingUnlock _ _ | decryptingUnlock _ _ =>
    exact ⟨h.1.same hsame, hsame.stored.trans h.2⟩
  | loaded _ _ _ =>
    obtain ⟨hkept, blob, hstored, hcontent⟩ := h
    exact ⟨hkept.same hsame, blob, hsame.stored.trans hstored, hcontent⟩
  | changing _ _ _ _ =>
    obtain ⟨blob, hpending, hmoves⟩ := h
    exact ⟨blob, hpending.same hsame, hmoves⟩
  | sealing _ _ _ _ | sealingFresh _ _ _ _ | rederiving _ _ _ _ => exact Saves.same h hsame
  | saved _ _ => exact Stored.same h hsame
  | _ => exact Kept.same h hsame

theorem PointFact.lock {p : VaultPoint} (h : PointFact prim before c p) (hsound : SoundLock p) :
    PointFact prim before c.lock p := by
  cases p with
  | done result => exact ⟨.locked rfl rfl, fun hfails => (h.kept hfails).lock⟩
  | opening _ _ _ _ | derivingKey _ _ _ | decrypting _ _ _ _ | derivingUnlock _ _ | decryptingUnlock _ _ =>
    exact ⟨h.1.lock, h.2⟩
  | loaded _ _ _ =>
    obtain ⟨hkept, hblob⟩ := h
    exact ⟨hkept.lock, hblob⟩
  | changing _ _ _ _ =>
    obtain ⟨blob, hpending, hmoves⟩ := h
    exact ⟨blob, hpending.lock, hmoves⟩
  | sealing _ _ _ _ | sealingFresh _ _ _ _ | rederiving _ _ _ _ => exact Saves.lock h
  | saved saving _ =>
    cases saving with
    | edit e => exact absurd hsound id
    | create => exact h
  | _ => exact Kept.lock h

theorem derivation_fact {purpose : Purpose} {password : Option Text} {blob : Sealed} (hbefore : InStep before)
    (hkept : Kept before c) (hstored : c.stored = some blob) :
    PointFact prim before c (derivation purpose password blob) := by
  unfold derivation
  split
  · exact hkept.settled hbefore _
  · exact ⟨hkept, hstored⟩

theorem getFullVault_fact (purpose : Purpose) (password : Option Text) (hbefore : InStep before)
    (hkept : Kept before c) : PointFact prim before c (getFullVault c purpose password) := by
  unfold getFullVault
  split
  · exact hkept.settled hbefore _
  · next blob hstored =>
    split
    · exact ⟨hkept, hstored⟩
    · exact derivation_fact hbefore hkept hstored

/-- A save that has no key changes nothing. -/
theorem save_fact {saving : Saving} {w : Vault} {password : Option Text} (newKdf : Kdf) (hbefore : InStep before)
    (hsaves : Saves prim before c w saving)
    (hkey : c.cachedKey.isSome = true ∨ (given password).isSome = true ∨ Kept before c) :
    PointFact prim before c (save c saving w password newKdf) := by
  unfold save
  split
  · exact hsaves
  · next hnone =>
    split
    · next hgiven =>
      rcases hkey with hkey | hkey | hkept
      · rw [hnone] at hkey
        cases hkey
      · rw [hgiven] at hkey
        cases hkey
      · exact hkept.settled hbefore _
    · exact hsaves

/-- An edit that waits before it saves moves no pointer. -/
theorem movesPointer_of_waits {e : VaultEdit} (h : e.waits = true) (v : Vault) : movesPointer v e = false := by
  cases e with
  | deleteAccount id => cases h
  | _ => rfl

theorem pending_fact {e : VaultEdit} {blob : Sealed} {w : Vault} (password : Option Text) (newKdf : Kdf)
    (hbefore : InStep before) (h : Pending prim before c e blob w)
    (hkey : movesPointer blob.content e = true → c.isLocked = false →
      c.cachedKey.isSome = true ∨ (given password).isSome = true) :
    PointFact prim before c
      (if e.waits then .changing e password newKdf w else save c (.edit e) w password newKdf) := by
  by_cases hwaits : e.waits = true
  · rw [if_pos hwaits]
    exact ⟨blob, h, movesPointer_of_waits hwaits _⟩
  · rw [if_neg hwaits]
    refine save_fact newKdf hbefore ⟨blob, h⟩ ?_
    by_cases hmoves : movesPointer blob.content e = true ∧ c.isLocked = false
    · rcases hkey hmoves.1 hmoves.2 with hcached | hgiven
      · exact .inl hcached
      · exact .inr (.inl hgiven)
    · have hunmoved (hopen : c.isLocked = false) : movesPointer blob.content e = false :=
        Bool.eq_false_iff.mpr fun hpointer => hmoves ⟨hpointer, hopen⟩
      exact .inr (.inr (h.unmoved hunmoved))

theorem withFullVault_edit {e : VaultEdit} {newKdf : Kdf} {password : Option Text} {v w : Vault} {c' : Service}
    (hchange : e.change prim v = .ok (w, true)) (hbefore : beforeSave c e v w = .ok c') :
    withFullVault prim caller c (.edit e newKdf) password v =
      (c', if e.waits then .changing e password newKdf w else save c' (.edit e) w password newKdf) := by
  simp only [withFullVault, hchange, hbefore]
  split
  · rfl
  · rfl

theorem withFullVault_fact {purpose : Purpose} {password : Option Text} {blob : Sealed} (hbefore : InStep before)
    (hkept : Kept before c) (hstored : c.stored = some blob)
    (hsound : SoundTurn prim c (.loaded purpose password blob.content)) :
    PointFact prim before (withFullVault prim caller c purpose password blob.content).1
      (withFullVault prim caller c purpose password blob.content).2 := by
  cases purpose with
  | read => exact hkept.settled hbefore _
  | signMessage =>
    simp only [withFullVault]
    split
    · exact hkept.settled hbefore _
    · exact hkept.same (same_keepSigningKey ..)
  | edit e newKdf =>
    have hkeptStored : before.stored = some blob := hkept.stored.symm.trans hstored
    cases hchange : e.change prim blob.content with
    | error message =>
      simp only [withFullVault, hchange]
      exact hkept.settled hbefore _
    | ok out =>
      obtain ⟨w, stores⟩ := out
      cases stores with
      | false =>
        simp only [withFullVault, hchange]
        exact hkept.settled hbefore _
      | true =>
        have hstep := hkept.inStep hbefore
        have halike := hsound.copies w hchange
        cases hlocked : c.isLocked with
        | true =>
          have hvault := hstep.shows_nothing hlocked
          rcases beforeSave_locked (e := e) (v := blob.content) (w := w) hvault with herror | hok
          · simp only [withFullVault, hchange, herror]
            exact hkept.settled hbefore _
          · rw [withFullVault_edit hchange hok]
            refine pending_fact password newKdf hbefore
              ⟨hstored, hkeptStored, hchange, halike, .inr ⟨hlocked, hvault⟩⟩ fun _ hopen => ?_
            rw [hlocked] at hopen
            cases hopen
        | false =>
          have hvault := hstep.shows hlocked hstored
          have hmemory : before.isLocked = false ∧ before.vault = some blob.content.sanitize := by
            rcases hkept.memory with ⟨hsame, hopen⟩ | ⟨-, htrue⟩
            · exact ⟨hopen.symm.trans hlocked, hsame.symm.trans hvault⟩
            · rw [hlocked] at htrue
              cases htrue
          rw [withFullVault_edit hchange (beforeSave_unlocked hvault)]
          exact pending_fact password newKdf hbefore
            ⟨hstored, hkeptStored, hchange, halike, .inl ⟨hlocked, rfl, hmemory⟩⟩ (hsound.key w hchange)

/-- A sealed vault is stored. -/
theorem store_fact {saving : Saving} {w : Vault} (number : ℕ) (key : VaultKey) (kdf : Kdf)
    (hsaves : Saves prim before c w saving) (hopen : ∀ e, saving = .edit e → c.isLocked = false) :
    Stored prim (storeSealed number c saving ⟨kdf, key, w⟩) w saving := by
  cases saving with
  | create => exact ⟨_, rfl, rfl⟩
  | edit e =>
    obtain ⟨blob, hpending⟩ := hsaves
    have hunlocked := hopen e rfl
    rcases hpending.memory with ⟨-, hvault, -⟩ | ⟨hlocked, -⟩
    · exact ⟨blob.content, _, ⟨hunlocked, rfl, hpending.change, hpending.alike, hvault⟩, rfl⟩
    · rw [hunlocked] at hlocked
      cases hlocked

theorem saved_fact {e : VaultEdit} {w : Vault} (h : Stored prim c w (.edit e)) :
    ∃ d, afterSave c e w = .ok d ∧ InStep d := by
  obtain ⟨v, blob, hunshown, rfl⟩ := h
  refine ⟨_, afterSave_eq hunshown.vault, .unlocked blob hunshown.isLocked hunshown.stored ?_⟩
  exact congrArg some (shownAfter_eq hunshown.change hunshown.alike)

theorem resume_fact {p q : VaultPoint} (h : VaultPoint.resume prim caller c p = some (d, q))
    (hbefore : InStep before) (hfact : PointFact prim before c p) (hsound : SoundTurn prim c p) :
    PointFact prim before d q := by
  cases p with
  | decryptingBackup e password newKdf =>
    cases h
    exact getFullVault_fact _ _ hbefore hfact
  | opening purpose password blob key =>
    obtain ⟨hkept, hstored⟩ := hfact
    simp only [VaultPoint.resume] at h
    split at h
    · cases h
      exact ⟨hkept, blob, hstored, rfl⟩
    · cases h
      exact derivation_fact hbefore (hkept.same (same_clearKeyCache c)) hstored
  | derivingKey purpose password blob =>
    cases h
    exact hfact
  | decrypting purpose password blob key =>
    obtain ⟨hkept, hstored⟩ := hfact
    have hsame := same_cacheKey c caller key blob.kdf
    simp only [VaultPoint.resume] at h
    split at h
    · cases h
      exact ⟨hkept.same hsame, blob, hsame.stored.trans hstored, rfl⟩
    · cases h
      exact hkept.settled hbefore _
  | loaded purpose password vault =>
    obtain ⟨hkept, blob, hstored, rfl⟩ := hfact
    have hout : withFullVault prim caller c purpose password blob.content = (d, q) := Option.some.inj h
    obtain rfl : (withFullVault prim caller c purpose password blob.content).1 = d := congrArg Prod.fst hout
    obtain rfl : (withFullVault prim caller c purpose password blob.content).2 = q := congrArg Prod.snd hout
    exact withFullVault_fact hbefore hkept hstored hsound
  | changing e password newKdf vault =>
    obtain ⟨blob, hpending, hmoves⟩ := hfact
    cases h
    exact save_fact newKdf hbefore ⟨blob, hpending⟩ (.inr (.inr (hpending.unmoved fun _ => hmoves)))
  | generating password newKdf vault =>
    cases h
    exact save_fact newKdf hbefore hfact (.inr (.inr hfact))
  | sealing saving vault key kdf =>
    cases h
    refine store_fact _ key kdf hfact fun e he => ?_
    subst he
    exact hsound
  | sealingFresh saving vault password kdf =>
    cases h
    exact hfact
  | rederiving saving vault password kdf =>
    have hsame := same_cacheKey c caller (prim.deriveKey password kdf) kdf
    cases h
    refine store_fact _ _ kdf (Saves.same hfact hsame) fun e he => ?_
    subst he
    exact hsame.isLocked.trans hsound
  | saved saving vault =>
    cases saving with
    | edit e =>
      obtain ⟨d', hafter, hstep⟩ := saved_fact hfact
      simp only [VaultPoint.resume, hafter] at h
      cases h
      exact ⟨hstep, fun hfails => by cases hfails⟩
    | create =>
      obtain ⟨blob, hstored, rfl⟩ := hfact
      cases h
      exact ⟨.unlocked blob rfl hstored rfl, fun hfails => by cases hfails⟩
  | derivingUnlock password blob =>
    cases h
    exact hfact
  | decryptingUnlock blob key =>
    obtain ⟨hkept, hstored⟩ := hfact
    have hsame := same_cacheKey c caller key blob.kdf
    simp only [VaultPoint.resume] at h
    split at h
    · cases h
      exact ⟨.unlocked blob rfl (hsame.stored.trans hstored) rfl, fun hfails => by cases hfails⟩
    · cases h
      exact hkept.settled hbefore _
  | signing seed =>
    cases h
    exact Kept.settled hfact hbefore _
  | derivingCheck password blob =>
    cases h
    exact hfact
  | decryptingCheck password blob key =>
    simp only [VaultPoint.resume] at h
    split at h
    · cases h
      exact hfact
    · cases h
      exact Kept.settled hfact hbefore _
  | checked password =>
    cases h
    exact getFullVault_fact _ _ hbefore hfact
  | done result => cases h

theorem throw_fact {p q : VaultPoint} (h : storeThrows prim caller c p = some (d, q)) (hbefore : InStep before)
    (hfact : PointFact prim before c p) (hsound : SoundThrow c p) : PointFact prim before d q := by
  have hkept {saving : Saving} {w : Vault} (hsaves : Saves prim before c w saving)
      (hmoves : ∀ e, saving = .edit e → c.isLocked = false → ∀ blob, c.stored = some blob →
        movesPointer blob.content e = false) : Kept before c := by
    cases saving with
    | create => exact hsaves
    | edit e =>
      obtain ⟨blob, hpending⟩ := hsaves
      exact hpending.unmoved fun hopen => hmoves e rfl hopen blob hpending.stored
  cases p with
  | sealing saving vault key kdf =>
    cases h
    refine (hkept hfact fun e he => ?_).settled hbefore _
    subst he
    exact hsound
  | rederiving saving vault password kdf =>
    cases h
    refine ((hkept hfact fun e he => ?_).same (same_cacheKey ..)).settled hbefore _
    subst he
    exact hsound
  | _ => cases h

/-- Up to its first await an operation changes nothing but the keys that are kept, unless it is a lock. -/
theorem begin_fact (h : InStep c) (call : VaultCall) :
    PointFact prim c (VaultCall.begin prim c call).1 (VaultCall.begin prim c call).2 := by
  have hfailed (result : VaultResult) : Settled c c result := (Kept.refl c).settled h result
  cases call with
  | edit e password newKdf =>
    simp only [VaultCall.begin]
    split
    · exact hfailed _
    · split
      · exact .refl c
      · exact getFullVault_fact _ _ h (.refl c)
  | create vault password newKdf generates =>
    simp only [VaultCall.begin]
    split
    · exact hfailed _
    · split
      · exact .refl c
      · exact save_fact newKdf h (.refl c) (.inr (.inr (.refl c)))
  | unlock password =>
    simp only [VaultCall.begin]
    split
    · exact hfailed _
    · next blob hstored => exact ⟨.refl c, hstored⟩
  | signMessage password =>
    simp only [VaultCall.begin]
    split
    · exact hfailed _
    · split
      · exact .refl c
      · exact getFullVault_fact _ _ h (.refl c)
  | read password =>
    simp only [VaultCall.begin]
    split
    · exact hfailed _
    · exact getFullVault_fact _ _ h (.refl c)
  | enableBiometrics password =>
    simp only [VaultCall.begin]
    split
    · exact hfailed _
    · exact .refl c
  | lock => exact ⟨.locked rfl rfl, fun hfails => by cases hfails⟩
  | clearKeyCache => exact Settled.same (hfailed _) (same_dropKeys c)
  | setCacheTTL ms => exact Settled.same (hfailed _) (same_setCacheTTL c ms)

/-! ## Runs -/

structure Follows (prim : VaultPrimitives) (s : Session) : Prop where
  before : InStep s.before
  point : PointFact prim s.before s.service s.point

theorem Follows.step {s t : Session} {event : Event} (h : Follows prim s) (hsound : Sound prim s event)
    (hstep : step prim caller s event = some t) : Follows prim t := by
  have hidle (hdone : isDone s.point = true) : InStep s.service := by
    have hpoint := h.point
    cases hp : s.point with
    | done result =>
      rw [hp] at hpoint
      exact Settled.inStep hpoint
    | _ =>
      rw [hp] at hdone
      cases hdone
  cases event with
  | begin call =>
    obtain ⟨hdone, ht⟩ := Option.ite_none_right_eq_some.mp hstep
    cases ht
    exact ⟨hidle hdone, begin_fact (hidle hdone) call⟩
  | turn =>
    obtain ⟨⟨d, q⟩, hresume, rfl⟩ := Option.map_eq_some_iff.mp hstep
    exact ⟨h.before, resume_fact hresume h.before h.point hsound⟩
  | storeThrows =>
    obtain ⟨⟨d, q⟩, hthrow, rfl⟩ := Option.map_eq_some_iff.mp hstep
    exact ⟨h.before, throw_fact hthrow h.before h.point hsound⟩
  | dropKeys =>
    cases hstep
    exact ⟨h.before, h.point.same (same_dropKeys _)⟩
  | lock =>
    cases hstep
    exact ⟨h.before, h.point.lock hsound⟩
  | wipeVault =>
    obtain ⟨hdone, ht⟩ := Option.ite_none_right_eq_some.mp hstep
    cases ht
    exact ⟨hidle hdone, .locked rfl rfl, fun hfails => by cases hfails⟩

/-- After every operation memory is in step with storage, and an operation that fails leaves both as they
were. -/
theorem view_follows_storage (prim : VaultPrimitives) (caller : Caller) {first : Service} (hfirst : InStep first)
    {events : List Event} {s : Session}
    (hrun : Run (restrict (Sound prim) (ofPartial (step prim caller))) ⟨first, first, .done .locked⟩ events s)
    (result : VaultResult) (hdone : s.point = .done result) :
    InStep s.service ∧ (fails result = true → Kept s.before s.service) := by
  have hstart : Follows prim ⟨first, first, .done .locked⟩ := ⟨hfirst, (Kept.refl first).settled hfirst _⟩
  have hfollows := hrun.invariant (I := Follows prim) (fun s event t hs hstep => hs.step hstep.1 hstep.2) hstart
  have hpoint := hfollows.point
  rw [hdone] at hpoint
  exact ⟨Settled.inStep hpoint, Settled.kept hpoint⟩

/-! ## The active account is deleted -/

def sampleAccounts : Vault := ⟨[sampleAccount "old" [], otherAccount "bob"], some (sampleAccount "old" []).id⟩

def sampleTwo : Service :=
  { sampleService with
    stored := some ⟨[], sampleKey, sampleAccounts⟩
    vault := some sampleAccounts.sanitize }

def sampleStart : Session := ⟨sampleTwo, sampleTwo, .done .locked⟩

def deletion : Event := .begin (.edit (.deleteAccount (sampleAccount "old" []).id) none [])

/-- The key is dropped while the vault is opened: the pointer in memory has moved, and nothing is stored. -/
theorem not_view_follows_storage : ∃ s,
    Run (ofPartial (step sampleVaultPrimitives sampleService.since.unlocked)) sampleStart
      [deletion, .turn, .dropKeys, .turn] s ∧
    s.point = .done (.failed "Password required to save") ∧ ¬ InStep s.service ∧ ¬ Kept s.before s.service := by
  refine ⟨_, Run.ofPartial_foldlM _ _ _ _ rfl, rfl, fun h => ?_, fun h => ?_⟩
  · have hshown := h.shows rfl rfl
    have hpointer := congrArg (Option.map (·.activeAccountId)) hshown
    revert hpointer
    decide
  · rcases h.memory with ⟨hvault, -⟩ | ⟨hvault, -⟩
    · have hpointer := congrArg (Option.map (·.activeAccountId)) hvault
      revert hpointer
      decide
    · cases hvault

/-- The key is dropped once the change is being sealed. -/
theorem view_follows_storage_sample : ∃ s,
    Run (restrict (Sound sampleVaultPrimitives)
        (ofPartial (step sampleVaultPrimitives sampleService.since.unlocked))) sampleStart
      [deletion, .turn, .turn, .dropKeys, .turn, .turn] s ∧
    s.service.stored.map (·.content.accounts) = some [otherAccount "bob"] ∧ InStep s.service := by
  have hrun : Run (restrict (Sound sampleVaultPrimitives)
      (ofPartial (step sampleVaultPrimitives sampleService.since.unlocked))) sampleStart
      [deletion, .turn, .turn, .dropKeys, .turn, .turn] _ :=
    .cons ⟨trivial, rfl⟩ (.cons ⟨trivial, rfl⟩ (.cons ⟨⟨fun _ _ _ _ => .inl rfl, fun _ _ h => by cases h⟩, rfl⟩
      (.cons ⟨trivial, rfl⟩ (.cons ⟨rfl, rfl⟩ (.single ⟨trivial, rfl⟩)))))
  exact ⟨_, hrun, rfl, (view_follows_storage _ _ (.unlocked _ rfl rfl rfl) hrun _ rfl).1⟩

end Kryptolog.Client.VaultView
