import Kryptolog.Client.VaultService

/-! # Locks of the web client

What the service holds in memory was put there by operations that began after the keys were last
dropped, and the vault is open by an unlock or a setup that began after the last lock. This holds
of every run in which no operation that a lock overtook takes a turn that caches a key or opens the
vault.
-/

namespace Kryptolog.Client
set_option autoImplicit false

open Script Runs Tasks

variable {prim : VaultPrimitives}

/-- What is in memory was put there after the last lock. -/
structure Service.LockHolds (c : Service) : Prop where
  cachedKey : c.cachedKey.isSome = true → c.since.cachedKey.clearsBefore = c.clears
  signingKey : c.signingKey.isSome = true → c.since.signingKey.clearsBefore = c.clears
  unlocked : c.isLocked = false →
    c.since.unlocked.locksBefore = c.locks ∧ c.since.unlocked.mayUnlock = true

/-! ## The condition -/

/-- The next turn puts a key or a seed in memory. -/
def VaultPoint.keepsKey (c : Service) : VaultPoint → Bool
  | .decrypting _ _ blob key | .decryptingUnlock blob key => key == blob.key && c.cacheTTL != 0
  | .rederiving _ _ _ _ => c.cacheTTL != 0
  | .loaded .signMessage _ vault => vault.accounts.any fun a => some a.id == vault.activeAccountId
  | _ => false

/-- The next turn opens the vault. -/
def VaultPoint.opens : VaultPoint → Bool
  | .saved .create _ => true
  | .decryptingUnlock blob key => key == blob.key
  | _ => false

/-- No lock has come between the beginning of the operation and the turn that would undo it. -/
def NotOvertaken (c : Service) (t : VaultTask) : Prop :=
  (t.point.keepsKey c = true → t.caller.clearsBefore = c.clears) ∧
    (t.point.opens = true → t.caller.locksBefore = c.locks)

instance (c : Service) (t : VaultTask) : Decidable (NotOvertaken c t) :=
  inferInstanceAs (Decidable ((t.point.keepsKey c = true → t.caller.clearsBefore = c.clears) ∧
    (t.point.opens = true → t.caller.locksBefore = c.locks)))

/-! ## What a turn puts in memory -/

/-- A point on the way of an unlock or a setup. -/
def VaultPoint.unlocks : VaultPoint → Bool
  | .generating _ _ _ | .sealing .create _ _ _ | .sealingFresh .create _ _ _ | .rederiving .create _ _ _
  | .saved .create _ | .derivingUnlock _ _ | .decryptingUnlock _ _ => true
  | _ => false

/-- Only an unlock or a setup is on the way of one. -/
def MayUnlock (t : VaultTask) : Prop := t.point.unlocks = true → t.caller.mayUnlock = true

/-- What is in memory, with the counts that it is compared with. -/
structure SameMemory (c d : Service) : Prop where
  cachedKey : d.cachedKey = c.cachedKey
  signingKey : d.signingKey = c.signingKey
  isLocked : d.isLocked = c.isLocked
  counts : d.locks = c.locks ∧ d.clears = c.clears
  since : d.since = c.since

theorem SameMemory.refl (c : Service) : SameMemory c c := ⟨rfl, rfl, rfl, ⟨rfl, rfl⟩, rfl⟩

theorem Service.LockHolds.same {c d : Service} (h : c.LockHolds) (hsame : SameMemory c d) :
    d.LockHolds where
  cachedKey hsome := by
    rw [hsame.since, hsame.counts.2]
    exact h.cachedKey (hsame.cachedKey ▸ hsome)
  signingKey hsome := by
    rw [hsame.since, hsame.counts.2]
    exact h.signingKey (hsame.signingKey ▸ hsome)
  unlocked hopen := by
    rw [hsame.since, hsame.counts.1]
    exact h.unlocked (hsame.isLocked ▸ hopen)

theorem Service.LockHolds.clearKeyCache {c : Service} (h : c.LockHolds) : c.clearKeyCache.LockHolds where
  cachedKey hsome := by cases hsome
  signingKey hsome := by cases hsome
  unlocked := h.unlocked

theorem Service.LockHolds.dropKeys {c : Service} (h : c.LockHolds) : c.dropKeys.LockHolds where
  cachedKey hsome := by cases hsome
  signingKey hsome := by cases hsome
  unlocked := h.unlocked

theorem Service.lockHolds_lock (c : Service) : c.lock.LockHolds where
  cachedKey hsome := by cases hsome
  signingKey hsome := by cases hsome
  unlocked hopen := by cases hopen

theorem Service.lockHolds_reload (c : Service) : c.reload.LockHolds where
  cachedKey hsome := by cases hsome
  signingKey hsome := by cases hsome
  unlocked hopen := by cases hopen

theorem Service.LockHolds.setCacheTTL {c : Service} (h : c.LockHolds) (ms : ℕ) :
    (c.setCacheTTL ms).LockHolds := by
  have hset : ({ c with cacheTTL := ms } : Service).LockHolds := h.same ⟨rfl, rfl, rfl, ⟨rfl, rfl⟩, rfl⟩
  unfold Service.setCacheTTL
  split
  · exact hset.dropKeys
  · exact hset

theorem Service.LockHolds.cacheKey {c : Service} (h : c.LockHolds) {caller : Caller} (key : VaultKey)
    (kdf : Kdf) (hcaller : c.cacheTTL ≠ 0 → caller.clearsBefore = c.clears) :
    (c.cacheKey caller key kdf).LockHolds := by
  unfold Service.cacheKey
  split
  · exact h
  · next httl => exact ⟨fun _ => hcaller httl, h.signingKey, h.unlocked⟩

theorem Service.LockHolds.openVault {c : Service} (h : c.LockHolds) {caller : Caller} (v : Vault)
    (hcaller : caller.locksBefore = c.locks ∧ caller.mayUnlock = true) :
    (c.openVault caller v).LockHolds := ⟨h.cachedKey, h.signingKey, fun _ => hcaller⟩

theorem sameMemory_beforeSave {c d : Service} {edit : VaultEdit} {before after : Vault}
    (h : beforeSave c edit before after = .ok d) : SameMemory c d := by
  unfold beforeSave at h
  split at h
  · split at h
    · split at h
      · cases h
      · cases h
        exact ⟨rfl, rfl, rfl, ⟨rfl, rfl⟩, rfl⟩
    · cases h
      exact .refl c
  · cases h
    exact .refl c

theorem sameMemory_afterSave {c d : Service} {edit : VaultEdit} {v : Vault}
    (h : afterSave c edit v = .ok d) : SameMemory c d := by
  unfold afterSave at h
  split at h
  · cases h
    exact ⟨rfl, rfl, rfl, ⟨rfl, rfl⟩, rfl⟩
  · split at h
    · cases h
    · split at h <;> cases h <;> exact ⟨rfl, rfl, rfl, ⟨rfl, rfl⟩, rfl⟩

theorem sameMemory_storeSealed (number : ℕ) (c : Service) (saving : Saving) (sealed : Sealed) :
    SameMemory c (storeSealed number c saving sealed) := by
  cases saving <;> exact ⟨rfl, rfl, rfl, ⟨rfl, rfl⟩, rfl⟩

theorem unlocks_derivation (purpose : Purpose) (password : Option Text) (blob : Sealed) :
    (derivation purpose password blob).unlocks = false := by
  unfold derivation
  split <;> rfl

theorem unlocks_getFullVault (c : Service) (purpose : Purpose) (password : Option Text) :
    (getFullVault c purpose password).unlocks = false := by
  unfold getFullVault
  split
  · rfl
  · split
    · rfl
    · exact unlocks_derivation ..

theorem unlocks_save (c : Service) (edit : VaultEdit) (v : Vault) (password : Option Text) (newKdf : Kdf) :
    (save c (.edit edit) v password newKdf).unlocks = false := by
  unfold save
  split
  · rfl
  · split <;> rfl

/-- What a turn leads to. -/
structure LockTurn (p : VaultPoint) (d : Service) (q : VaultPoint) : Prop where
  holds : d.LockHolds
  unlocks : q.unlocks = true → p.unlocks = true

theorem withFullVault_lockTurn (prim : VaultPrimitives) {caller : Caller} {c : Service} {purpose : Purpose}
    {password : Option Text} {vault : Vault} (h : c.LockHolds)
    (hcaller : (VaultPoint.loaded purpose password vault).keepsKey c = true →
      caller.clearsBefore = c.clears) :
    LockTurn (.loaded purpose password vault) (withFullVault prim caller c purpose password vault).1
      (withFullVault prim caller c purpose password vault).2 := by
  cases purpose with
  | edit edit newKdf =>
    cases hchange : edit.change prim vault with
    | error message =>
      simp only [withFullVault, hchange]
      exact ⟨h, fun hu => by cases hu⟩
    | ok out =>
      obtain ⟨changed, stores⟩ := out
      cases stores with
      | false =>
        simp only [withFullVault, hchange]
        exact ⟨h, fun hu => by cases hu⟩
      | true =>
        cases hbefore : beforeSave c edit vault changed with
        | error message =>
          simp only [withFullVault, hchange, hbefore]
          exact ⟨h, fun hu => by cases hu⟩
        | ok c' =>
          have hc' := h.same (sameMemory_beforeSave hbefore)
          simp only [withFullVault, hchange, hbefore]
          split
          · exact ⟨hc', fun hu => by cases hu⟩
          · exact ⟨hc', fun hu => by rw [unlocks_save] at hu; cases hu⟩
  | signMessage =>
    unfold withFullVault
    cases hfind : vault.accounts.find? fun a => some a.id == vault.activeAccountId with
    | none => exact ⟨h, fun hu => by cases hu⟩
    | some account =>
      have hactive : (some account.id == vault.activeAccountId) = true := by
        simpa using List.find?_some hfind
      have hkeeps : caller.clearsBefore = c.clears :=
        hcaller (List.any_eq_true.mpr ⟨account, List.mem_of_find?_eq_some hfind, hactive⟩)
      exact ⟨⟨h.cachedKey, fun _ => hkeeps, h.unlocked⟩, fun hu => by cases hu⟩
  | read => exact ⟨h, fun hu => by cases hu⟩

theorem resume_lockTurn {caller : Caller} {c d : Service} {p q : VaultPoint}
    (h : VaultPoint.resume prim caller c p = some (d, q)) (hc : c.LockHolds)
    (hmay : p.unlocks = true → caller.mayUnlock = true)
    (hkeeps : p.keepsKey c = true → caller.clearsBefore = c.clears)
    (hopens : p.opens = true → caller.locksBefore = c.locks) : LockTurn p d q := by
  cases p with
  | decryptingBackup edit password newKdf =>
    cases h
    exact ⟨hc, fun hu => by rw [unlocks_getFullVault] at hu; cases hu⟩
  | checked password =>
    cases h
    exact ⟨hc, fun hu => by rw [unlocks_getFullVault] at hu; cases hu⟩
  | opening purpose password blob key =>
    simp only [VaultPoint.resume] at h
    split at h <;> cases h
    · exact ⟨hc, fun hu => by cases hu⟩
    · exact ⟨hc.clearKeyCache, fun hu => by rw [unlocks_derivation] at hu; cases hu⟩
  | derivingKey purpose password blob =>
    cases h
    exact ⟨hc, fun hu => by cases hu⟩
  | decrypting purpose password blob key =>
    simp only [VaultPoint.resume] at h
    split at h <;> cases h
    · next hkey =>
      refine ⟨hc.cacheKey key blob.kdf fun httl => hkeeps ?_, fun hu => by cases hu⟩
      simp only [VaultPoint.keepsKey, hkey, beq_self_eq_true, Bool.true_and, bne_iff_ne, ne_eq, httl,
        not_false_eq_true]
    · exact ⟨hc, fun hu => by cases hu⟩
  | loaded purpose password vault =>
    have hturn := withFullVault_lockTurn prim hc hkeeps
    rw [Option.some.inj h] at hturn
    exact hturn
  | changing edit password newKdf vault =>
    cases h
    exact ⟨hc, fun hu => by rw [unlocks_save] at hu; cases hu⟩
  | generating password newKdf vault =>
    cases h
    exact ⟨hc, fun _ => rfl⟩
  | sealing saving vault key kdf =>
    cases h
    refine ⟨hc.same (sameMemory_storeSealed ..), fun hu => ?_⟩
    cases saving with
    | edit edit => cases hu
    | create => rfl
  | sealingFresh saving vault password kdf =>
    cases h
    exact ⟨hc, fun hu => by cases saving <;> exact hu⟩
  | rederiving saving vault password kdf =>
    cases h
    refine ⟨(hc.cacheKey _ kdf fun httl => hkeeps ?_).same (sameMemory_storeSealed ..), fun hu => ?_⟩
    · simp only [VaultPoint.keepsKey, bne_iff_ne, ne_eq, httl, not_false_eq_true]
    · cases saving with
      | edit edit => cases hu
      | create => rfl
  | saved saving vault =>
    cases saving with
    | edit edit =>
      simp only [VaultPoint.resume] at h
      split at h
      · cases h
        exact ⟨hc, fun hu => by cases hu⟩
      · next c' hafter =>
        cases h
        exact ⟨hc.same (sameMemory_afterSave hafter), fun hu => by cases hu⟩
    | create =>
      cases h
      exact ⟨hc.openVault vault ⟨hopens rfl, hmay rfl⟩, fun hu => by cases hu⟩
  | derivingUnlock password blob =>
    cases h
    exact ⟨hc, fun _ => rfl⟩
  | decryptingUnlock blob key =>
    simp only [VaultPoint.resume] at h
    split at h <;> cases h
    · next hkey =>
      have hcached : (c.cacheKey caller key blob.kdf).LockHolds := by
        refine hc.cacheKey key blob.kdf fun httl => hkeeps ?_
        simp only [VaultPoint.keepsKey, hkey, beq_self_eq_true, Bool.true_and, bne_iff_ne, ne_eq, httl,
          not_false_eq_true]
      have hlocks : (c.cacheKey caller key blob.kdf).locks = c.locks := by
        unfold Service.cacheKey
        split <;> rfl
      refine ⟨hcached.openVault _ ⟨?_, hmay rfl⟩, fun hu => by cases hu⟩
      rw [hlocks]
      exact hopens (beq_iff_eq.mpr hkey)
    · exact ⟨hc, fun hu => by cases hu⟩
  | signing seed =>
    cases h
    exact ⟨hc, fun hu => by cases hu⟩
  | derivingCheck password blob =>
    cases h
    exact ⟨hc, fun hu => by cases hu⟩
  | decryptingCheck password blob key =>
    simp only [VaultPoint.resume] at h
    split at h <;> cases h <;> exact ⟨hc, fun hu => by cases hu⟩
  | done result => cases h

/-- What the first turn of a call leads to. -/
structure LockBegun (call : VaultCall) (out : Service × VaultPoint) : Prop where
  holds : out.1.LockHolds
  unlocks : out.2.unlocks = true → call.mayUnlock = true

theorem lockBegun_getFullVault {c : Service} (h : c.LockHolds) (call : VaultCall) (purpose : Purpose)
    (password : Option Text) : LockBegun call (c, getFullVault c purpose password) :=
  ⟨h, fun hu => by rw [unlocks_getFullVault] at hu; cases hu⟩

theorem begin_lockBegun {c : Service} (h : c.LockHolds) (call : VaultCall) :
    LockBegun call (VaultCall.begin prim c call) := by
  unfold VaultCall.begin
  cases call with
  | edit edit password newKdf =>
    simp only
    split
    · exact ⟨h, fun hu => by cases hu⟩
    · split
      · exact ⟨h, fun hu => by cases hu⟩
      · exact lockBegun_getFullVault h ..
  | create vault password newKdf generates =>
    simp only
    split
    · exact ⟨h, fun _ => rfl⟩
    · split <;> exact ⟨h, fun _ => rfl⟩
  | unlock password =>
    simp only
    split <;> exact ⟨h, fun _ => rfl⟩
  | signMessage password =>
    simp only
    split
    · exact ⟨h, fun hu => by cases hu⟩
    · split
      · exact ⟨h, fun hu => by cases hu⟩
      · exact lockBegun_getFullVault h ..
  | read password =>
    simp only
    split
    · exact ⟨h, fun hu => by cases hu⟩
    · exact lockBegun_getFullVault h ..
  | enableBiometrics password =>
    simp only
    split <;> exact ⟨h, fun hu => by cases hu⟩
  | lock => exact ⟨c.lockHolds_lock, fun hu => by cases hu⟩
  | clearKeyCache => exact ⟨h.dropKeys, fun hu => by cases hu⟩
  | setCacheTTL ms => exact ⟨h.setCacheTTL ms, fun hu => by cases hu⟩

theorem vaultLock_rule (prim : VaultPrimitives) :
    Rule (vaultService prim) (fun _ c => c.LockHolds) (fun _ _ t => MayUnlock t) (fun _ _ => True)
      NotOvertaken where
  call n c call hc _ := by
    obtain ⟨hholds, hmay⟩ := begin_lockBegun hc call
    exact ⟨hholds, hmay, fun j q _ hq => hq⟩
  resume n c i t d q hc hlt hfact hready h := by
    obtain ⟨⟨d', p⟩, hresume, heq⟩ := Option.map_eq_some_iff.mp h
    cases heq
    have hturn := resume_lockTurn hresume hc hfact hready.1 hready.2
    exact ⟨hturn.holds, fun hu => hfact (hturn.unlocks hu), fun j r _ hr => hr⟩
  restart n c _ := c.lockHolds_reload

theorem vault_run_lockHolds {c : Service} (hc : c.LockHolds) {as : List (Action VaultCall)}
    {s : State Service VaultTask}
    (hrun : Run (restrict (Prepared (fun _ _ => True) NotOvertaken) (ofPartial (vaultService prim).step))
      (.start c) as s) : s.shared.LockHolds :=
  ((vaultLock_rule prim).run_holds hrun (.start hc)).shared

end Kryptolog.Client
