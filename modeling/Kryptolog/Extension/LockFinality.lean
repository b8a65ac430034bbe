import Kryptolog.Extension.Turns
import Kryptolog.Client.VaultLock
import Kryptolog.Client.VaultEdits

/-! # A lock is final

In both programs that hold keys, the service of the web client and the background of the extension,
what is in memory or in session storage was put there by operations that began after the last lock,
and the vault is open by an unlock, a setup or an import that did. This holds of the runs in which no
operation that a lock overtook takes a turn that puts something back.
-/

namespace Kryptolog.Extension
set_option autoImplicit false

open Script Runs Tasks
open Client (Kdf VaultKey VaultPrimitives vaultService VaultCall VaultTask)

variable {prim : ExtensionPrimitives}

/-- What is in memory, and in session storage, was put there after the last lock. -/
structure LockHolds (c : Background) : Prop where
  vault : c.vault.isSome = true → c.since.vault.locksBefore = c.locks
  vaultKey : c.vaultKey.isSome = true → c.since.vaultKey.locksBefore = c.locks
  unlocked : c.isLocked = false →
    c.since.unlocked.locksBefore = c.locks ∧ c.since.unlocked.mayUnlock = true
  session : c.session.isSome = true →
    c.since.session.locksBefore = c.locks ∧ c.since.session.mayUnlock = true

/-! ## The condition -/

/-- The next turn puts something in memory or in session storage, or opens the vault. -/
def Point.installs (prim : ExtensionPrimitives) (c : Background) : Point → Bool
  | .arrived _ (.setupPassword password) _ =>
    !c.hasPassword && (prim.vaultPasswordProblem password).isNone
  | .unlocking _ password blob _ => (decryptedWith blob (prim.deriveKey password blob.kdf)).isSome
  | .opened _ _ => c.vaultKey.isSome
  | .restoring blob key _ => (decryptedWith blob key.1).isSome
  | .decryptingImport (.ok _) _ _ => c.isLocked || c.vault.isNone
  | .adopting _ _ => true
  | .saved (.setUp _ _) => c.isLocked
  | _ => false

/-- No lock has come between the beginning of the operation and the turn that would undo it. -/
def NotOvertaken (prim : ExtensionPrimitives) (c : Background) (t : ExtensionTask) : Prop :=
  t.point.installs prim c = true → t.caller.locksBefore = c.locks

instance (prim : ExtensionPrimitives) (c : Background) (t : ExtensionTask) :
    Decidable (NotOvertaken prim c t) :=
  inferInstanceAs (Decidable (t.point.installs prim c = true → t.caller.locksBefore = c.locks))

/-! ## What a turn puts in place -/

/-- The save of a setup opens the vault when it is over. -/
def After.unlocks : After → Bool
  | .setUp _ _ => true
  | _ => false

/-- A point on the way of an unlock, a setup or an import. -/
def Point.unlocks : Point → Bool
  | .arrived _ request _ => request.mayUnlock
  | .unlocking _ _ _ _ | .opened _ _ | .decryptingImport _ _ _ | .rederiving _ _ _ | .adopting _ _
  | .stored _ (some _) | .sealing _ _ true _ => true
  | .sealing after _ false _ | .stored after none | .saved after => after.unlocks
  | _ => false

/-- What a task may do with a lock: only some calls unlock, and a session is restored by the record of
the call that made it. -/
structure LockFact (c : Background) (t : ExtensionTask) : Prop where
  mayUnlock : t.point.unlocks = true → t.caller.mayUnlock = true
  before : t.caller.locksBefore ≤ c.locks
  restores : ∀ blob key inputs, t.point = .restoring blob key inputs → t.caller.locksBefore = c.locks →
    c.since.session.locksBefore = c.locks ∧ c.since.session.mayUnlock = true

/-- Nothing is put in place. -/
structure Subsides (c d : Background) : Prop where
  vault : d.vault.isSome = true → c.vault.isSome = true
  vaultKey : d.vaultKey.isSome = true → c.vaultKey.isSome = true
  isLocked : d.isLocked = c.isLocked
  session : d.session.isSome = true → c.session.isSome = true
  locks : d.locks = c.locks
  since : d.since = c.since

theorem Subsides.refl (c : Background) : Subsides c c := ⟨id, id, rfl, id, rfl, rfl⟩

theorem Subsides.trans {c d e : Background} (h : Subsides c d) (h' : Subsides d e) : Subsides c e where
  vault hsome := h.vault (h'.vault hsome)
  vaultKey hsome := h.vaultKey (h'.vaultKey hsome)
  isLocked := h'.isLocked.trans h.isLocked
  session hsome := h.session (h'.session hsome)
  locks := h'.locks.trans h.locks
  since := h'.since.trans h.since

theorem LockHolds.subsides {c d : Background} (h : LockHolds c) (hsub : Subsides c d) : LockHolds d where
  vault hsome := by
    rw [hsub.since, hsub.locks]
    exact h.vault (hsub.vault hsome)
  vaultKey hsome := by
    rw [hsub.since, hsub.locks]
    exact h.vaultKey (hsub.vaultKey hsome)
  unlocked hopen := by
    rw [hsub.since, hsub.locks]
    exact h.unlocked (hsub.isLocked ▸ hopen)
  session hsome := by
    rw [hsub.since, hsub.locks]
    exact h.session (hsub.session hsome)

theorem LockHolds.lock (c : Background) : LockHolds c.lock where
  vault hsome := by cases hsome
  vaultKey hsome := by cases hsome
  unlocked hopen := by cases hopen
  session hsome := by cases hsome

theorem LockHolds.restart {c : Background} (h : LockHolds c) : LockHolds c.restart where
  vault hsome := by cases hsome
  vaultKey hsome := by cases hsome
  unlocked hopen := by cases hopen
  session := h.session

theorem subsides_setVault {c : Background} (v : ExtensionVault) (h : c.vault.isSome = true) :
    Subsides c (c.setVault v) := ⟨fun _ => h, id, rfl, id, rfl, rfl⟩

theorem subsides_respond (c : Background) (owner : ℕ) (r : Response) : Subsides c (c.respond owner r) :=
  ⟨id, id, rfl, id, rfl, rfl⟩

theorem subsides_endHandler (c : Background) (p : Pending) (by_ : ℕ) (r : Option Response) :
    Subsides c (c.endHandler p by_ r) := by
  cases r <;> exact ⟨id, id, rfl, id, rfl, rfl⟩

theorem subsides_reject (c : Background) (owner : ℕ) (error : Text) :
    Subsides c (c.reject owner error) := by
  unfold Background.reject
  split
  · exact .refl c
  · exact ⟨id, id, rfl, id, rfl, rfl⟩

theorem subsides_handleWindowClosed (c : Background) (windowId : ℕ) :
    Subsides c (c.handleWindowClosed windowId) := by
  unfold Background.handleWindowClosed
  simp only
  split <;> split <;> exact ⟨id, id, rfl, id, rfl, rfl⟩

def Point.isRestoring : Point → Bool
  | .restoring _ _ _ => true
  | _ => false

/-- What a turn leads to. -/
structure LockTurn (caller : Caller) (c : Background) (out : Background × Point) : Prop where
  holds : LockHolds out.1
  locks : c.locks ≤ out.1.locks
  session : out.1.since.session = c.since.session ∨
    (out.1.since.session.locksBefore = c.locks ∧ out.1.since.session.mayUnlock = true)
  mayUnlock : out.2.unlocks = true → caller.mayUnlock = true
  restores : out.2.isRestoring = false

/-- The turn puts nothing in place, and is not on the way of doing so. -/
structure Harmless (c : Background) (out : Background × Point) : Prop where
  subsides : Subsides c out.1
  unlocks : out.2.unlocks = false
  restores : out.2.isRestoring = false

theorem Harmless.turn {caller : Caller} {c : Background} {out : Background × Point} (h : Harmless c out)
    (hc : LockHolds c) : LockTurn caller c out where
  holds := hc.subsides h.subsides
  locks := Nat.le_of_eq h.subsides.locks.symm
  session := .inl (congrArg Since.session h.subsides.since)
  mayUnlock hu := by
    rw [h.unlocks] at hu
    cases hu
  restores := h.restores

theorem Harmless.after {c d : Background} {out : Background × Point} (h : Harmless d out)
    (hsub : Subsides c d) : Harmless c out := ⟨hsub.trans h.subsides, h.unlocks, h.restores⟩

theorem harmless_answer (c : Background) (owner : ℕ) (r : Response) : Harmless c (answer c owner r) :=
  ⟨subsides_respond .., rfl, rfl⟩

theorem harmless_throw (c : Background) (owner : ℕ) (error : String) :
    Harmless c (throw c owner error) := harmless_answer ..

theorem harmless_endHandler (c : Background) (p : Pending) (by_ : ℕ) (r : Option Response) :
    Harmless c (c.endHandler p by_ r, .done) := ⟨subsides_endHandler .., rfl, rfl⟩

theorem subsides_sealVault (c : Background) (owner : ℕ) (after : After) (removes : Option Removal)
    (key : VaultKey × Kdf) (fresh stores : Bool) :
    Subsides c (sealVault c owner after removes key fresh stores).1 := ⟨id, id, rfl, id, rfl, rfl⟩

theorem save_harmless {c : Background} {owner : ℕ} {after : After} {removes : Option Removal} {inputs : Inputs}
    {out : Background × Point} (h : saveVaultWithSessionKey c owner after removes inputs = .ok out)
    (hafter : after.unlocks = false) : Harmless c out := by
  unfold saveVaultWithSessionKey at h
  split at h
  · cases h
    exact ⟨.refl c, hafter, rfl⟩
  · cases h
  · cases h
    exact ⟨subsides_sealVault .., hafter, rfl⟩

theorem harmless_saveAndRespond (c : Background) (owner : ℕ) (r : Response) (removes : Option Removal)
    (inputs : Inputs) : Harmless c (saveAndRespond c owner r removes inputs) := by
  unfold saveAndRespond
  split
  · exact harmless_throw ..
  · next h => exact save_harmless h rfl

theorem harmless_saveInHandler {c : Background} {by_ : ℕ} {p : Pending} {after : After} {inputs : Inputs}
    (hafter : after.unlocks = false) : Harmless c (saveInHandler c by_ p after inputs) := by
  unfold saveInHandler
  split
  · exact harmless_endHandler ..
  · next h => exact save_harmless h hafter

theorem harmless_requestApproval (c : Background) (owner : ℕ) (origin : Text) (approval : Approval)
    (inputs : Inputs) : Harmless c (requestApproval c owner origin approval inputs) := by
  unfold requestApproval
  split
  · exact harmless_throw ..
  · split
    · exact harmless_answer ..
    · unfold openApprovalWindow
      split <;> exact ⟨⟨id, id, rfl, id, rfl, rfl⟩, rfl, rfl⟩

theorem harmless_onApprove (c : Background) (by_ : ℕ) (p : Pending) (inputs : Inputs) :
    Harmless c (onApprove prim c by_ p inputs) := by
  unfold onApprove
  split
  · exact harmless_endHandler ..
  · next v hv =>
    have hset (w : ExtensionVault) : Subsides c (c.setVault w) := subsides_setVault w (by rw [hv]; rfl)
    split
    · exact (harmless_saveInHandler rfl).after (hset _)
    · split
      · exact harmless_endHandler ..
      · split
        · exact harmless_endHandler ..
        · exact ⟨.refl c, rfl, rfl⟩
    · split
      · exact harmless_endHandler ..
      · split
        · exact harmless_endHandler ..
        · exact ⟨.refl c, rfl, rfl⟩
    · split
      · exact harmless_endHandler ..
      · split
        · exact harmless_endHandler ..
        · exact ⟨.refl c, rfl, rfl⟩
    · split
      · exact harmless_endHandler ..
      · exact ⟨.refl c, rfl, rfl⟩
    · split
      · exact harmless_endHandler ..
      · exact ⟨.refl c, rfl, rfl⟩
    · split
      · exact harmless_endHandler ..
      · split
        · split
          · exact harmless_endHandler ..
          · exact (harmless_saveInHandler rfl).after (hset _)
        · exact harmless_endHandler ..

theorem harmless_settleApproval (c : Background) (by_ requestId : ℕ) (approved : Bool) (inputs : Inputs) :
    Harmless c (settleApproval prim c by_ requestId approved inputs) := by
  unfold settleApproval
  split
  · exact harmless_answer ..
  · split
    · exact (harmless_onApprove ..).after ⟨id, id, rfl, id, rfl, rfl⟩
    · exact (harmless_answer ..).after (subsides_reject ..)

theorem harmless_failSync (c : Background) (owner : ℕ) (what : Syncing) (error : String) :
    Harmless c (failSync c owner what error) := by
  cases what with
  | unlock => exact harmless_throw ..
  | initialization => exact ⟨⟨id, id, rfl, id, rfl, rfl⟩, rfl, rfl⟩

theorem harmless_endSync (c : Background) (owner : ℕ) (what : Syncing) :
    Harmless c (endSync c owner what) := by
  cases what with
  | unlock => exact harmless_answer ..
  | initialization => exact ⟨⟨id, id, rfl, id, rfl, rfl⟩, rfl, rfl⟩

theorem harmless_startSync (c : Background) (owner : ℕ) (what : Syncing) (inputs : Inputs) :
    Harmless c (startSync prim c owner what inputs) := by
  unfold startSync
  split
  · exact harmless_endSync ..
  · exact ⟨.refl c, rfl, rfl⟩

/-- An import that finds the vault open, or that no lock has overtaken. -/
theorem finishImport_turn {c : Background} {caller : Caller} {data : Except Text ExtensionVault}
    {password : Option Text} {inputs : Inputs} (hc : LockHolds c) (hmay : caller.mayUnlock = true)
    (hcaller : ∀ v, data = .ok v → (c.isLocked || c.vault.isNone) = true → caller.locksBefore = c.locks) :
    LockTurn caller c (finishImport c caller data password inputs) := by
  unfold finishImport
  split
  · exact (harmless_answer ..).turn hc
  · next imported =>
    have hmerged : LockHolds { (mergeImport c caller imported).markUnlocked caller with
        hasPassword := true } := by
      have hlocked : c.isLocked = true → caller.locksBefore = c.locks := fun h =>
        hcaller imported rfl (by rw [h]; rfl)
      have hopen : caller.locksBefore = c.locks ∧ caller.mayUnlock = true ∨ c.isLocked = false := by
        cases h : c.isLocked with
        | true => exact .inl ⟨hlocked h, hmay⟩
        | false => exact .inr rfl
      cases hv : c.vault with
      | none =>
        have hcall : caller.locksBefore = c.locks := hcaller imported rfl (by rw [hv]; simp)
        simp only [mergeImport, hv, Background.markUnlocked]
        refine ⟨fun _ => hcall, hc.vaultKey, fun _ => ?_, hc.session⟩
        split
        · exact ⟨hcall, hmay⟩
        · next hl => exact hc.unlocked (by simpa using hl)
      | some v =>
        simp only [mergeImport, hv, Background.markUnlocked, Background.setVault]
        refine ⟨fun _ => hc.vault (by rw [hv]; rfl), hc.vaultKey, fun _ => ?_, hc.session⟩
        split
        · next hl => exact ⟨hlocked hl, hmay⟩
        · next hl => exact hc.unlocked (by simpa using hl)
    have hlocks : (mergeImport c caller imported).locks = c.locks := by
      unfold mergeImport
      split <;> rfl
    have hsession : (mergeImport c caller imported).since.session = c.since.session := by
      unfold mergeImport
      split <;> rfl
    simp only
    split
    · exact ⟨hmerged, Nat.le_of_eq hlocks.symm, .inl hsession, fun _ => hmay, rfl⟩
    · split
      · exact ⟨hmerged.subsides (subsides_respond ..), Nat.le_of_eq hlocks.symm, .inl hsession,
          fun _ => hmay, rfl⟩
      · next out hout =>
        have hsave := save_harmless hout rfl
        refine ⟨hmerged.subsides hsave.subsides, ?_, ?_, fun _ => hmay, hsave.restores⟩
        · rw [hsave.subsides.locks]
          exact Nat.le_of_eq hlocks.symm
        · rw [hsave.subsides.since]
          exact .inl hsession

theorem dispatched_turn {c : Background} {caller : Caller} {sender : Sender} {request : Request}
    {inputs : Inputs} {out : Background × Point} (h : Dispatched prim c caller sender request inputs out)
    (hc : LockHolds c) (hmay : request.mayUnlock = true → caller.mayUnlock = true)
    (hinstalls : (Point.arrived sender request inputs).installs prim c = true →
      caller.locksBefore = c.locks) : LockTurn caller c out := by
  cases h with
  | answered rotation r =>
    refine Harmless.turn (Harmless.after (harmless_answer ..) ?_) hc
    exact ⟨id, id, rfl, id, rfl, rfl⟩
  | waits q hq => exact (Harmless.mk (.refl c) (by cases q <;> first | rfl | cases hq)
      (by cases q <;> first | rfl | cases hq)).turn hc
  | unlocks password blob hrequest hblob =>
    subst hrequest
    exact ⟨hc, Nat.le_refl _, .inl rfl, fun _ => hmay rfl, rfl⟩
  | setsUp password hrequest hpassword hproblem =>
    subst hrequest
    have hcaller : caller.locksBefore = c.locks := by
      refine hinstalls ?_
      simp [Point.installs, hpassword, hproblem]
    exact ⟨⟨fun _ => hcaller, hc.vaultKey, hc.unlocked, hc.session⟩, Nat.le_refl _, .inl rfl,
      fun _ => hmay rfl, rfl⟩
  | locks hrequest => exact ⟨.lock c, Nat.le_succ _, .inl rfl, fun hu => (by cases hu), rfl⟩
  | changes rotation removes withdrawn v w hopen hv hchanged hremoves hrequest =>
    refine ((harmless_saveAndRespond ..).after ?_).turn hc
    exact ⟨fun _ => by rw [hv]; rfl, id, rfl, id, rfl, rfl⟩
  | imports data password hopen hv hrequest =>
    refine finishImport_turn hc (hmay hrequest) fun _ _ hlocked => ?_
    rw [hopen, Bool.false_or, Option.isNone_iff_eq_none] at hlocked
    rw [hlocked] at hv
    cases hv
  | decryptsImport data password hopen hv hrequest =>
    exact ⟨hc, Nat.le_refl _, .inl rfl, fun _ => hmay hrequest, rfl⟩
  | asks origin approval v hopen hv horigin hasked => exact (harmless_requestApproval ..).turn hc
  | settles requestId approved hrequest => exact (harmless_settleApproval ..).turn hc
  | signs v grounds account body hv haccount hsender hsigns =>
    exact (Harmless.mk (.refl c) rfl rfl).turn hc

theorem startUnlock_turn {c : Background} {caller : Caller} {what : Unlocking} {password : Text}
    {inputs : Inputs} (hc : LockHolds c) (hmay : caller.mayUnlock = true) :
    LockTurn caller c (startUnlock c caller.number what password inputs) := by
  unfold startUnlock
  split
  · exact (harmless_throw ..).turn hc
  · exact ⟨hc, Nat.le_refl _, .inl rfl, fun _ => hmay, rfl⟩

theorem finishSave_turn {c : Background} {caller : Caller} {after : After} (hc : LockHolds c)
    (hmay : after.unlocks = true → caller.mayUnlock = true)
    (hinstalls : (Point.saved after).installs prim c = true → caller.locksBefore = c.locks) :
    LockTurn caller c (finishSave c caller after) := by
  cases after with
  | respond r => exact (harmless_answer ..).turn hc
  | setUp password inputs =>
    have hmarked : LockHolds (c.markUnlocked caller) := by
      refine ⟨hc.vault, hc.vaultKey, fun _ => ?_, hc.session⟩
      unfold Background.markUnlocked
      simp only
      split
      · next hlocked => exact ⟨hinstalls hlocked, hmay rfl⟩
      · next hlocked => exact hc.unlocked (by simpa using hlocked)
    have hturn : LockTurn caller (c.markUnlocked caller)
        (startUnlock (c.markUnlocked caller) caller.number .setUp password inputs) :=
      startUnlock_turn hmarked (hmay rfl)
    obtain ⟨hholds, hlocks, hsession, hunlocks, hrestores⟩ := hturn
    exact ⟨hholds, hlocks, hsession, hunlocks, hrestores⟩
  | imported =>
    unfold finishSave
    simp only
    split
    · exact (harmless_throw ..).turn hc
    · split
      · exact (harmless_throw ..).turn hc
      · exact (harmless_answer ..).turn hc
  | synced what =>
    unfold finishSave
    simp only
    split
    · exact (harmless_failSync ..).turn hc
    · exact (harmless_endSync ..).turn hc
  | connected p => exact (harmless_endHandler ..).turn hc
  | rotated p active rotated ts now =>
    refine Harmless.turn ⟨?_, rfl, rfl⟩ hc
    exact ⟨id, id, rfl, id, rfl, rfl⟩

theorem failSave_harmless (c : Background) (caller : Caller) (after : After) :
    Harmless c (failSave c caller after) := by
  cases after with
  | respond | setUp | imported => exact harmless_throw ..
  | synced what => exact harmless_failSync ..
  | connected | rotated => exact harmless_endHandler ..

theorem resume_turn {caller : Caller} {c : Background} {p : Point} {out : Background × Point}
    (h : Point.resume prim caller c p = some out) (hc : LockHolds c)
    (hmay : p.unlocks = true → caller.mayUnlock = true)
    (hinstalls : p.installs prim c = true → caller.locksBefore = c.locks)
    (hrestores : ∀ blob key inputs, p = .restoring blob key inputs → caller.locksBefore = c.locks →
      c.since.session.locksBefore = c.locks ∧ c.since.session.mayUnlock = true) :
    LockTurn caller c out := by
  cases p with
  | arrived sender request inputs =>
    simp only [Point.resume] at h
    split at h
    · cases h
      exact dispatched_turn dispatch_dispatched hc hmay hinstalls
    · cases h
      exact (harmless_throw ..).turn hc
    · cases h
    · cases h
  | focusingPopup window focuses =>
    simp only [Point.resume] at h
    split at h <;> cases h
    · exact (harmless_throw ..).turn hc
    · refine Harmless.turn ⟨?_, rfl, rfl⟩ hc
      exact ⟨id, id, rfl, id, rfl, rfl⟩
  | creatingPopup window =>
    cases h
    refine Harmless.turn (Harmless.after (harmless_throw ..) ?_) hc
    exact ⟨id, id, rfl, id, rfl, rfl⟩
  | focusing window focuses =>
    simp only [Point.resume] at h
    split at h <;> cases h
    · exact Harmless.turn ⟨.refl c, rfl, rfl⟩ hc
    · refine Harmless.turn ⟨?_, rfl, rfl⟩ hc
      exact ⟨id, id, rfl, id, rfl, rfl⟩
  | creating window =>
    cases window with
    | some windowId =>
      cases h
      refine Harmless.turn ⟨?_, rfl, rfl⟩ hc
      exact ⟨id, id, rfl, id, rfl, rfl⟩
    | none =>
      cases h
      exact (Harmless.mk (subsides_reject ..) rfl rfl).turn hc
  | unlocking what password blob inputs =>
    simp only [Point.resume] at h
    split at h
    · next v hv =>
      cases h
      have hcaller : caller.locksBefore = c.locks := hinstalls (by simp [Point.installs, hv])
      exact ⟨⟨fun _ => hcaller, fun _ => hcaller, fun _ => ⟨hcaller, hmay rfl⟩, hc.session⟩,
        Nat.le_refl _, .inl rfl, fun _ => hmay rfl, rfl⟩
    · cases h
      exact (harmless_answer ..).turn hc
  | opened what inputs =>
    cases h
    unfold Background.persistSession
    split
    · exact (Harmless.mk (.refl c) rfl rfl).turn hc
    · next key hkey =>
      have hcaller : caller.locksBefore = c.locks := hinstalls (by simp [Point.installs, hkey])
      exact ⟨⟨hc.vault, hc.vaultKey, hc.unlocked, fun _ => ⟨hcaller, hmay rfl⟩⟩, Nat.le_refl _,
        .inr ⟨hcaller, hmay rfl⟩, fun hu => (by cases hu), rfl⟩
  | persisted what inputs =>
    cases what with
    | setUp =>
      cases h
      exact (harmless_answer ..).turn hc
    | unlock =>
      cases h
      exact (harmless_startSync ..).turn hc
  | syncing what origins changed inputs =>
    cases origins with
    | nil =>
      simp only [Point.resume] at h
      split at h
      · cases h
        exact (harmless_failSync ..).turn hc
      · split at h
        · split at h
          · cases h
            exact (harmless_failSync ..).turn hc
          · next hsave =>
            cases h
            exact (save_harmless hsave rfl).turn hc
        · cases h
          exact (harmless_endSync ..).turn hc
    | cons origin origins =>
      simp only [Point.resume] at h
      split at h
      · split at h
        · cases h
          exact (harmless_failSync ..).turn hc
        · next v hv =>
          cases h
          exact (Harmless.mk (subsides_setVault _ (by rw [hv]; rfl)) rfl rfl).turn hc
      · cases h
        exact (Harmless.mk (.refl c) rfl rfl).turn hc
  | restoring blob key inputs =>
    simp only [Point.resume] at h
    split at h
    · next v hv =>
      cases h
      have hcaller : caller.locksBefore = c.locks := hinstalls (by simp [Point.installs, hv])
      have hsession := hrestores blob key inputs rfl hcaller
      have hopened : LockHolds (c.openVault c.since.session v key) :=
        ⟨fun _ => hsession.1, fun _ => hsession.1, fun _ => hsession, hc.session⟩
      obtain ⟨hholds, hlocks, hsame, hunlocks, hnot⟩ :=
        (harmless_startSync ..).turn (c := c.openVault c.since.session v key) hopened
      exact ⟨hholds, hlocks, hsame, hunlocks, hnot⟩
    · cases h
      refine Harmless.turn ⟨⟨id, id, rfl, fun hs => ?_, rfl, rfl⟩, rfl, rfl⟩ hc
      cases hs
  | clearing =>
    cases h
    exact (harmless_answer ..).turn hc
  | checkingIdle expired =>
    cases h
    split
    · exact ⟨.lock c, Nat.le_succ _, .inl rfl, fun hu => (by cases hu), rfl⟩
    · exact (Harmless.mk (.refl c) rfl rfl).turn hc
  | decryptingImport data password inputs =>
    cases h
    refine finishImport_turn hc (hmay rfl) fun v hv hlocked => hinstalls ?_
    rw [hv]
    exact hlocked
  | rederiving after password inputs =>
    cases h
    exact ⟨hc.subsides (subsides_sealVault ..), Nat.le_refl _, .inl rfl, fun _ => hmay rfl, rfl⟩
  | sealing after sealed fresh stores =>
    simp only [Point.resume] at h
    split at h
    · cases h
      refine ⟨hc.subsides ⟨id, id, rfl, id, rfl, rfl⟩, Nat.le_refl _, .inl rfl, fun hu => hmay ?_, rfl⟩
      cases fresh with
      | true => rfl
      | false => exact hu
    · cases h
      refine ((failSave_harmless ..).after ?_).turn hc
      exact ⟨id, id, rfl, id, rfl, rfl⟩
  | stored after key =>
    cases key with
    | some key =>
      cases h
      exact ⟨hc.subsides ⟨id, id, rfl, id, rfl, rfl⟩, Nat.le_refl _, .inl rfl, fun _ => hmay rfl, rfl⟩
    | none =>
      cases h
      exact ⟨hc.subsides ⟨id, id, rfl, id, rfl, rfl⟩, Nat.le_refl _, .inl rfl, fun hu => hmay hu, rfl⟩
  | adopting after key =>
    cases h
    have hcaller : caller.locksBefore = c.locks := hinstalls rfl
    exact ⟨⟨hc.vault, fun _ => hcaller, hc.unlocked, fun _ => ⟨hcaller, hmay rfl⟩⟩, Nat.le_refl _,
      .inr ⟨hcaller, hmay rfl⟩, fun _ => hmay rfl, rfl⟩
  | saved after =>
    cases h
    exact finishSave_turn hc hmay hinstalls
  | checkingHost origin inputs =>
    simp only [Point.resume] at h
    split at h
    · cases h
      unfold trustSite
      split
      · exact (harmless_throw ..).turn hc
      · next v hv =>
        exact ((harmless_saveAndRespond ..).after (subsides_setVault _ (by rw [hv]; rfl))).turn hc
    · cases h
      exact (harmless_throw ..).turn hc
  | answering r =>
    cases h
    exact (harmless_answer ..).turn hc
  | signing sender grounds account body =>
    simp only [Point.resume] at h
    split at h <;> cases h
    · exact (harmless_answer ..).turn hc
    · refine Harmless.turn (Harmless.after (harmless_answer ..) ?_) hc
      exact ⟨id, id, rfl, id, rfl, rfl⟩
  | signingApproved p account body =>
    cases h
    refine Harmless.turn (Harmless.after (harmless_endHandler ..) ?_) hc
    exact ⟨id, id, rfl, id, rfl, rfl⟩
  | revealing p account outcome =>
    cases h
    split
    · refine Harmless.turn (Harmless.after (harmless_endHandler ..) ?_) hc
      exact ⟨id, id, rfl, id, rfl, rfl⟩
    · exact (harmless_endHandler ..).turn hc
  | attesting p account rotated ts =>
    cases h
    refine Harmless.turn (Harmless.after (harmless_endHandler ..) ?_) hc
    exact ⟨id, id, rfl, id, rfl, rfl⟩
  | done => cases h

/-! ## Runs -/

/-- What the first turn of a call leads to. -/
structure LockBegun (c : Background) (call : Call) (out : Background × Point) : Prop where
  subsides : Subsides c out.1
  mayUnlock : out.2.unlocks = true → call.mayUnlock = true
  restores : ∀ blob key inputs, out.2 = .restoring blob key inputs → c.session.isSome = true

theorem initializeStorage_begun (c : Background) (expired : Bool) (inputs : Inputs) (call : Call) :
    LockBegun c call (initializeStorage c expired inputs) := by
  have hsession (hs : (if expired = true then none else c.session).isSome = true) :
      c.session.isSome = true := by
    split at hs
    · cases hs
    · exact hs
  unfold initializeStorage
  simp only
  split
  · next key blob hkey hblob =>
    refine ⟨⟨id, id, rfl, hsession, rfl, rfl⟩, fun hu => (by cases hu), fun _ _ _ _ => hsession ?_⟩
    rw [hkey]
    rfl
  · exact ⟨⟨id, id, rfl, hsession, rfl, rfl⟩, fun hu => (by cases hu), fun _ _ _ h => (by cases h)⟩

theorem begin_begun (c : Background) (call : Call) : LockBegun c call (Call.begin c call) := by
  unfold Call.begin
  cases call with
  | message sender request inputs => exact ⟨.refl c, id, fun _ _ _ h => (by cases h)⟩
  | start expired inputs =>
    simp only
    split
    · exact initializeStorage_begun ..
    · exact ⟨.refl c, fun hu => (by cases hu), fun _ _ _ h => (by cases h)⟩
  | idleAlarm expired =>
    simp only
    split <;> exact ⟨.refl c, fun hu => (by cases hu), fun _ _ _ h => (by cases h)⟩
  | windowRemoved windowId =>
    exact ⟨subsides_handleWindowClosed .., fun hu => (by cases hu), fun _ _ _ h => (by cases h)⟩
  | timeout owner =>
    exact ⟨subsides_reject .., fun hu => (by cases hu), fun _ _ _ h => (by cases h)⟩

/-- A task is not touched by what another one does. -/
theorem LockFact.frame {c d : Background} {t : ExtensionTask} (h : LockFact c t) (hlocks : c.locks ≤ d.locks)
    (hsession : d.since.session = c.since.session ∨
      (d.since.session.locksBefore = c.locks ∧ d.since.session.mayUnlock = true)) : LockFact d t where
  mayUnlock := h.mayUnlock
  before := h.before.trans hlocks
  restores blob key inputs hp hbefore := by
    have hsame : d.locks = c.locks := by
      have := h.before
      omega
    rw [hsame] at hbefore ⊢
    rcases hsession with hsession | hsession
    · rw [hsession]
      exact h.restores blob key inputs hp hbefore
    · exact hsession

theorem lock_rule (prim : ExtensionPrimitives) :
    Rule (extension prim) (fun _ c => LockHolds c) (fun c _ t => LockFact c t) (fun _ _ => True)
      (NotOvertaken prim) where
  call n c call hc _ := by
    obtain ⟨hsub, hmay, hrestores⟩ := begin_begun c call
    have hlocks : (Call.begin c call).1.locks = c.locks := hsub.locks
    have hsince : (Call.begin c call).1.since = c.since := hsub.since
    refine ⟨hc.subsides hsub, ⟨hmay, Nat.le_of_eq hlocks.symm, fun blob key inputs hp _ => ?_⟩,
      fun j q _ hq => hq.frame (Nat.le_of_eq hlocks.symm) (.inl (congrArg Since.session hsince))⟩
    change (Call.begin c call).1.since.session.locksBefore = (Call.begin c call).1.locks ∧
      (Call.begin c call).1.since.session.mayUnlock = true
    rw [hlocks, hsince]
    exact hc.session (hrestores blob key inputs hp)
  resume n c i t d q hc _ hfact hready h := by
    obtain ⟨out, hresume, heq⟩ := Option.map_eq_some_iff.mp h
    cases heq
    have hturn := resume_turn hresume hc hfact.mayUnlock hready hfact.restores
    refine ⟨hturn.holds, ⟨hturn.mayUnlock, hfact.before.trans hturn.locks, ?_⟩,
      fun j r _ hr => hr.frame hturn.locks hturn.session⟩
    intro blob key inputs hp
    have hrestores := hturn.restores
    have hp' : out.2 = .restoring blob key inputs := hp
    rw [hp'] at hrestores
    cases hrestores
  restart n c hc := hc.restart

theorem run_lockHolds {c : Background} (hc : LockHolds c) {as : List (Action Call)}
    {s : State Background ExtensionTask}
    (hrun : Run (restrict (Prepared (fun _ _ => True) (NotOvertaken prim)) (ofPartial (extension prim).step))
      (.start c) as s) : LockHolds s.shared :=
  ((lock_rule prim).run_holds hrun (.start hc)).shared

/-- The key is derived while the lock comes, and is put in place when it has gone. -/
def overtakenUnlock : List (Action Call) :=
  [ownMessage (.unlock samplePassword), .resume 0, ownMessage .lock, .resume 1, .resume 1, .resume 0]

def overtakenVaultUnlock : List (Action VaultCall) :=
  [.call (.unlock Client.sampleKey), .resume 0, .call .lock, .resume 0]

/-- The web client's service, locked. -/
def sampleLockedService : Client.Service := Client.sampleService.lock

/-- `Prepared` for the runs of the samples. -/
def undoesNoLock (s : State Background ExtensionTask) : Action Call → Bool
  | .resume i => (s.task i).all fun t => decide (NotOvertaken samplePrimitives s.shared t)
  | _ => true

theorem prepared_of_undoesNoLock {s : State Background ExtensionTask} {a : Action Call}
    (h : undoesNoLock s a = true) :
    Prepared (fun _ _ => True) (NotOvertaken samplePrimitives) s a := by
  cases a with
  | call r => trivial
  | resume i =>
    intro t ht
    rw [undoesNoLock, ht, Option.all_some] at h
    exact of_decide_eq_true h
  | restart => trivial

def undoesNoVaultLock (s : State Client.Service VaultTask) : Action VaultCall → Bool
  | .resume i => (s.task i).all fun t => decide (Client.NotOvertaken s.shared t)
  | _ => true

theorem prepared_of_undoesNoVaultLock {s : State Client.Service VaultTask} {a : Action VaultCall}
    (h : undoesNoVaultLock s a = true) : Prepared (fun _ _ => True) Client.NotOvertaken s a := by
  cases a with
  | call r => trivial
  | resume i =>
    intro t ht
    rw [undoesNoVaultLock, ht, Option.all_some] at h
    exact of_decide_eq_true h
  | restart => trivial

end Kryptolog.Extension
