import Kryptolog.Extension.Worker

/-! # The password of the vault, and imports

An import with a password seals the merged vault under that password, which nothing compares with the one that the
vault was opened with. An import without one seals it under the key of the session.
-/

namespace Kryptolog.Extension
set_option autoImplicit false

open Script Tasks
open Client (given VaultKey Kdf)

variable (prim : ExtensionPrimitives)

/-- An operation that runs to its end with nothing in between. -/
def Alone (caller : Caller) (out : Background × Point) (e : Background) : Prop :=
  Leads (fun c p => Point.resume prim caller c p) out (e, .done)

/-- The vault that is stored, as an unlock with the password opens it. -/
def Background.opensWith (c : Background) (password : Text) : Option ExtensionVault :=
  c.vaultData.bind fun blob => decryptedWith blob (prim.deriveKey password blob.kdf)

/-- The vault is unlocked, under the key that the password opens the stored vault with. -/
structure Background.UnlockedWith (c : Background) (password : Text) : Prop where
  unlocked : c.isLocked = false
  vault : c.vault.isSome = true
  key : ∃ blob, c.vaultData = some blob ∧ blob.content.isSome = true ∧ blob.key = prim.deriveKey password blob.kdf ∧
    c.vaultKey = some (blob.key, blob.kdf)

/-- The key that an import seals the vault with. -/
def importKey (c : Background) (password : Option Text) (inputs : Inputs) : Option (VaultKey × Kdf) :=
  match given password with
  | some secret => some (prim.deriveKey secret inputs.kdf, inputs.kdf)
  | none => c.vaultKey

section alone

variable {prim} {caller : Caller} {c e : Background} {p : Point} {out : Background × Point} {r : Response}
  {password : Option Text} {inputs : Inputs}

theorem Alone.resume (h : Alone prim caller (c, p) e) (hp : p.resume prim caller c = some out) :
    Alone prim caller out e := Leads.resume h hp rfl

theorem Alone.ended (h : Alone prim caller (c, .done) e) : e = c := (Leads.ended h rfl).1

theorem Alone.next (hp : p.resume prim caller c = some out) (h : Alone prim caller out e) :
    Alone prim caller (c, p) e := .head hp h

/-- The last response is that of an operation that has answered. -/
theorem Alone.answered (h : Alone prim caller (answer c caller.number r) e) :
    e = c.respond caller.number r ∧ e.responses.getLast? = some (caller.number, r) := by
  obtain rfl := h.ended
  exact ⟨rfl, List.getLast?_concat⟩

theorem Alone.failed {error : Text} (h : Alone prim caller (answer c caller.number (.failed error)) e) :
    e.responses.getLast? ≠ some (caller.number, .success) := by
  rw [h.answered.2]
  exact nofun

/-! ### The end of an import -/

/-- The vault in memory has been stored under a key, which the session keeps. -/
structure Sealed (c e : Background) (key : VaultKey × Kdf) : Prop where
  stored : e.vaultData = some ⟨key.2, key.1, c.vault⟩
  memory : e.vault = c.vault
  session : e.vaultKey = some key
  unlocked : e.isLocked = false

theorem Alone.imported (h : Alone prim caller (c, .saved .imported) e)
    (hsuccess : e.responses.getLast? = some (caller.number, .success)) :
    c.isLocked = false ∧ e = c.respond caller.number .success := by
  have hend := h.resume rfl
  rw [finishSave] at hend
  split at hend
  · exact absurd hsuccess hend.failed
  · next hlocked =>
    split at hend
    · exact absurd hsuccess hend.failed
    · exact ⟨by simpa using hlocked, hend.answered.1⟩

theorem sealed_of_sealVault {key : VaultKey × Kdf} (fresh : Bool) (hkey : fresh = false → c.vaultKey = some key)
    (h : Alone prim caller (sealVault c caller.number .imported none key fresh inputs.stores) e)
    (hsuccess : e.responses.getLast? = some (caller.number, .success)) : Sealed c e key := by
  cases hstores : inputs.stores with
  | false =>
    rw [hstores] at h
    exact absurd hsuccess (h.resume rfl).failed
  | true =>
    rw [hstores] at h
    have hstored := h.resume rfl
    cases fresh with
    | true =>
      obtain ⟨hunlocked, rfl⟩ := ((hstored.resume rfl).resume rfl).imported hsuccess
      exact ⟨rfl, rfl, rfl, hunlocked⟩
    | false =>
      obtain ⟨hunlocked, rfl⟩ := (hstored.resume rfl).imported hsuccess
      exact ⟨rfl, rfl, hkey rfl, hunlocked⟩

theorem sealed_of_merged {w : ExtensionVault} (hw : c.vault = some w)
    (h : Alone prim caller (match given password with
      | some secret => (c, .rederiving .imported secret inputs)
      | none =>
        match saveVaultWithSessionKey c caller.number .imported none inputs with
        | .error e => throw c caller.number e
        | .ok out => out) e)
    (hsuccess : e.responses.getLast? = some (caller.number, .success)) :
    ∃ key, importKey prim c password inputs = some key ∧ Sealed c e key := by
  rw [importKey]
  cases hgiven : given password with
  | some secret =>
    rw [hgiven] at h
    exact ⟨_, rfl, sealed_of_sealVault true (fun hfresh => nomatch hfresh) (h.resume rfl) hsuccess⟩
  | none =>
    rw [hgiven] at h
    cases hkey : c.vaultKey with
    | none =>
      simp only [saveVaultWithSessionKey, hw, hkey] at h
      exact absurd hsuccess h.failed
    | some key =>
      simp only [saveVaultWithSessionKey, hw, hkey] at h
      exact ⟨key, rfl, sealed_of_sealVault false (fun _ => hkey) h hsuccess⟩

/-- A decrypted backup is merged, and the vault sealed under the key of the password or that of the session. -/
theorem sealed_of_finishImport {data : Except Text ExtensionVault} {v : ExtensionVault} (hv : c.vault = some v)
    (h : Alone prim caller (finishImport c caller data password inputs) e)
    (hsuccess : e.responses.getLast? = some (caller.number, .success)) :
    ∃ imported key, importKey prim c password inputs = some key ∧
      Sealed (c.setVault (v.addImported imported)) e key := by
  cases data with
  | error error => exact absurd hsuccess h.failed
  | ok imported =>
    simp only [finishImport, mergeImport, hv] at h
    obtain ⟨key, hkey, hsealed⟩ := sealed_of_merged rfl h hsuccess
    exact ⟨imported.accounts, key, hkey, hsealed.stored, hsealed.memory, hsealed.session, hsealed.unlocked⟩

theorem sealed_of_handleImportKeys {vaultObj : Value} {passphrase : Option Text} {v : ExtensionVault}
    (hv : c.vault = some v)
    (h : Alone prim caller (handleImportKeys prim c caller vaultObj password passphrase inputs) e)
    (hsuccess : e.responses.getLast? = some (caller.number, .success)) :
    ∃ imported key, importKey prim c password inputs = some key ∧
      Sealed (c.setVault (v.addImported imported)) e key := by
  unfold handleImportKeys at h
  split at h
  · exact absurd hsuccess h.failed
  · split at h
    · exact absurd hsuccess h.failed
    · split at h
      · exact absurd hsuccess h.failed
      · split at h
        · exact absurd hsuccess h.failed
        · simp only at h
          split at h
          · exact absurd hsuccess h.failed
          · split at h
            · exact sealed_of_finishImport hv h hsuccess
            · split at h
              · exact absurd hsuccess h.failed
              · exact sealed_of_finishImport hv (h.resume rfl) hsuccess

/-- A successful import adds to the vault in memory, and seals it. -/
theorem sealed_of_import {sender : Sender} {vaultObj : Value} {passphrase : Option Text} {v : ExtensionVault}
    (hv : c.vault = some v)
    (h : Alone prim caller (c, .arrived sender (.importKeys vaultObj password passphrase) inputs) e)
    (hsuccess : e.responses.getLast? = some (caller.number, .success)) :
    ∃ imported key, importKey prim c password inputs = some key ∧
      Sealed (c.setVault (v.addImported imported)) e key := by
  cases hinit : c.initialization with
  | done =>
    have hdispatch := h.resume (by rw [Point.resume, hinit])
    simp only [dispatch] at hdispatch
    split at hdispatch
    · exact absurd hsuccess hdispatch.failed
    · exact sealed_of_handleImportKeys hv hdispatch hsuccess
  | failed =>
    have hfails := h.resume (by rw [Point.resume, hinit])
    exact absurd hsuccess (Alone.failed hfails)
  | notStarted =>
    obtain ⟨-, hdone⟩ := Leads.ended h (by rw [Point.resume, hinit])
    cases hdone
  | running =>
    obtain ⟨-, hdone⟩ := Leads.ended h (by rw [Point.resume, hinit])
    cases hdone

/-! ### The password -/

variable {pw : Text}

theorem Sealed.opensWith_iff {v : ExtensionVault} {key : VaultKey × Kdf} (h : Sealed (c.setVault v) e key) :
    e.opensWith prim pw = some v ↔ prim.deriveKey pw key.2 = key.1 := by
  rw [Background.opensWith, h.stored, Option.bind_some, decryptedWith]
  simp only
  split
  · next heq => exact iff_of_true rfl heq
  · next hne => exact iff_of_false nofun hne

/-- A vault that the password has unlocked. -/
theorem unlockedWith_of_unlock {blob : StoredVault} {v : ExtensionVault} (hblob : c.vaultData = some blob)
    (hopen : decryptedWith blob (prim.deriveKey pw blob.kdf) = some v) :
    (c.openVault caller v (prim.deriveKey pw blob.kdf, blob.kdf)).UnlockedWith prim pw := by
  rw [decryptedWith] at hopen
  split at hopen
  · next hkey => exact ⟨rfl, rfl, blob, hblob, by rw [hopen]; rfl, hkey.symm, by rw [← hkey]; rfl⟩
  · cases hopen

theorem Sealed.unlockedWith {v : ExtensionVault} {key : VaultKey × Kdf} (h : Sealed (c.setVault v) e key)
    (hkey : prim.deriveKey pw key.2 = key.1) : e.UnlockedWith prim pw where
  unlocked := h.unlocked
  vault := by
    rw [h.memory]
    rfl
  key := ⟨_, h.stored, rfl, hkey.symm, h.session⟩

end alone

variable {prim}

/-- After a successful import the password that the vault was unlocked with opens it, with all accounts, where no
password was given with the import, or one that gives the same key. -/
theorem import_keeps_password_iff {caller : Caller} {c e : Background} {pw : Text} (sender : Sender)
    (vaultObj : Value) (password passphrase : Option Text) (inputs : Inputs) (hc : c.UnlockedWith prim pw)
    (h : Alone prim caller (c, .arrived sender (.importKeys vaultObj password passphrase) inputs) e)
    (hsuccess : e.responses.getLast? = some (caller.number, .success)) :
    (e.UnlockedWith prim pw ∧ ∃ v w, c.vault = some v ∧ e.vault = some w ∧ e.opensWith prim pw = some w ∧
      v.accounts <+: w.accounts) ↔
        ∀ secret, given password = some secret → prim.deriveKey pw inputs.kdf = prim.deriveKey secret inputs.kdf := by
  obtain ⟨v, hv⟩ := Option.isSome_iff_exists.mp hc.vault
  obtain ⟨imported, key, hkey, hsealed⟩ := sealed_of_import hv h hsuccess
  have hcondition : prim.deriveKey pw key.2 = key.1 ↔
      ∀ secret, given password = some secret →
        prim.deriveKey pw inputs.kdf = prim.deriveKey secret inputs.kdf := by
    rw [importKey] at hkey
    cases hgiven : given password with
    | some secret =>
      rw [hgiven] at hkey
      obtain rfl := Option.some.inj hkey
      simp
    | none =>
      rw [hgiven] at hkey
      obtain ⟨blob, -, -, hblob, hsession⟩ := hc.key
      obtain rfl := Option.some.inj (hsession.symm.trans hkey)
      simp [hblob]
  rw [← hcondition]
  constructor
  · rintro ⟨-, v', w, -, hw, hopen, -⟩
    obtain rfl := Option.some.inj (hsealed.memory.symm.trans hw)
    exact hsealed.opensWith_iff.mp hopen
  · intro hderived
    exact ⟨hsealed.unlockedWith hderived, v, _, hv, hsealed.memory, hsealed.opensWith_iff.mpr hderived,
      List.prefix_append _ _⟩

/-! ## An import with another password -/

section sample

def sampleCaller : Caller := ⟨0, true, 0⟩

/-- A backup without accounts. -/
def emptyBackup : Value := .obj [(lit "accounts", .arr [])]

/-- An import of the extension's own pages. -/
def sampleImport (password : Option Text) : Point :=
  .arrived ⟨true, none⟩ (.importKeys emptyBackup password none) sampleInputs

theorem sampleUnlocked_unlockedWith : sampleUnlocked.UnlockedWith samplePrimitives samplePassword :=
  ⟨rfl, rfl, _, rfl, rfl, (List.append_nil _).symm, rfl⟩

/-- The import of the dashboard, which sends no password. -/
theorem import_keeps_password_sample :
    ∃ e, Alone samplePrimitives sampleCaller (sampleUnlocked, sampleImport none) e ∧
      e.UnlockedWith samplePrimitives samplePassword := by
  have halone : ∃ e, Alone samplePrimitives sampleCaller (sampleUnlocked, sampleImport none) e ∧
      e.responses.getLast? = some (sampleCaller.number, .success) :=
    ⟨_, .next rfl (.next rfl (.next rfl (.next rfl .refl))), rfl⟩
  obtain ⟨e, h, hsuccess⟩ := halone
  exact ⟨e, h, ((import_keeps_password_iff _ _ _ _ _ sampleUnlocked_unlockedWith h hsuccess).mpr nofun).1⟩

/-- A password that is not the one of the vault takes its place. -/
theorem not_import_keeps_password : ¬ ∀ (prim : ExtensionPrimitives) (caller : Caller) (c e : Background) (pw : Text)
    (sender : Sender) (vaultObj : Value) (password passphrase : Option Text) (inputs : Inputs),
    c.UnlockedWith prim pw →
    Alone prim caller (c, .arrived sender (.importKeys vaultObj password passphrase) inputs) e →
    e.responses.getLast? = some (caller.number, .success) →
      e.UnlockedWith prim pw ∧ ∃ v w, c.vault = some v ∧ e.vault = some w ∧ e.opensWith prim pw = some w ∧
        v.accounts <+: w.accounts := by
  intro h
  have halone : ∃ e, Alone samplePrimitives sampleCaller (sampleUnlocked, sampleImport (some (lit "other"))) e ∧
      e.responses.getLast? = some (sampleCaller.number, .success) ∧
      e.opensWith samplePrimitives samplePassword = none :=
    ⟨_, .next rfl (.next rfl (.next rfl (.next rfl (.next rfl (.next rfl .refl))))), rfl, by decide⟩
  obtain ⟨e, halone, hsuccess, hnone⟩ := halone
  obtain ⟨-, v, w, -, -, hopen, -⟩ := h samplePrimitives sampleCaller sampleUnlocked e samplePassword _ _ _ _ _
    sampleUnlocked_unlockedWith halone hsuccess
  cases hnone.symm.trans hopen

end sample

end Kryptolog.Extension
