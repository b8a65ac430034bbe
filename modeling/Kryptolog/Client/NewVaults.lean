import Kryptolog.Client.VaultView

/-! # Vaults that are set up or imported

`setup` (`services/vault.js`) and `importNewVault` (`services/vaultBackup.js`) store a new vault where there is none.
They save it as every operation does: under the key that is cached, whichever vault it was derived for, and under the
password only where no key is cached.
-/

namespace Kryptolog.Client
set_option autoImplicit false

open Script Fallible Tasks Runs

structure NewVaultPrimitives extends VaultPrimitives where
  vaultPasswordProblem : Text → Option String

inductive NewVault
  /-- With the account that `generateAccount` returns. -/
  | setup (account : Account)
  | importNewVault (jsonString : Text) (now : Number)

section creation

variable (prim : NewVaultPrimitives)

/-- The active account of a file, if the file has it, or else the first account. -/
def importedActive (data : Value) (accounts : List Account) : Option Text :=
  match data.get "activeAccountId" with
  | some (.str id) =>
    if !id.isEmpty && accounts.any (·.id == id) then some id else accounts.head?.map (·.id)
  | _ => accounts.head?.map (·.id)

/-- The vault that `importNewVault` reads from a file. -/
def importedVault (jsonString : Text) (now : Number) : Except String Vault :=
  match prim.parseJson jsonString with
  | none => .error "Invalid file: not valid JSON"
  | some data =>
    if isEncryptedVaultBlob data then .error "This is an encrypted .kvault backup — enter its passphrase"
    else
      match accountsOf data with
      | none | some [] => .error "Invalid vault file: no accounts found"
      | some raw => (raw.mapM (parseAccount prim.suites now)).map fun accounts =>
        ⟨accounts, importedActive data accounts⟩

namespace NewVault

def vault : NewVault → Except String Vault
  | setup account => .ok ⟨[account], some account.id⟩
  | importNewVault jsonString now => importedVault prim jsonString now

/-- What is said where a vault is stored already. -/
def refusal : NewVault → String
  | setup _ => "Vault already exists"
  | importNewVault _ _ => "A vault already exists on this device. Import accounts from Settings instead."

/-- `setup` waits for the keys of its account. -/
def generates : NewVault → Bool
  | setup _ => true
  | importNewVault _ _ => false

/-- `setup` or `importNewVault`, up to its first await. -/
def begin_ (new : NewVault) (password : Text) (newKdf : Kdf) (c : Service) : Service × VaultPoint :=
  if c.stored.isSome then (c, .done (.failed new.refusal))
  else
    match prim.vaultPasswordProblem password with
    | some problem => (c, .done (.failed problem))
    | none =>
      match new.vault prim with
      | .error message => (c, .done (.failed message))
      | .ok v => VaultCall.begin prim.toVaultPrimitives c (.create v password newKdf new.generates)

end NewVault

end creation

/-! ## Unlocking in a fresh page -/

section unlocking

variable (prim : VaultPrimitives) (caller : Caller)

/-- An operation of the service that runs to its end with nothing in between. -/
def Completes (out : Service × VaultPoint) (e : Service) (r : VaultResult) : Prop :=
  Leads (fun c p => VaultPoint.resume prim caller c p) out (e, .done r)

/-- The vault that an unlock with the password opens. -/
def Service.opensWith (c : Service) (password : Text) : Option Vault :=
  c.stored.bind fun blob => if prim.deriveKey password blob.kdf = blob.key then some blob.content else none

/-- In a fresh page the password opens the vault, and no other password opens anything. -/
structure BoundTo (e : Service) (v : Vault) (password : Text) : Prop where
  content : e.stored.map Sealed.content = some v
  opens : ∀ f r, Completes prim caller (VaultCall.begin prim e.reload (.unlock password)) f r →
    r = .unlocked true ∧ f.vault = some v.sanitize
  opensOnly : ∀ other f r, other ≠ password →
    Completes prim caller (VaultCall.begin prim e.reload (.unlock other)) f r →
    r = .unlocked false ∧ f.vault = none

/-- The key is derived from the bytes of the password, and from nothing else, without collisions. -/
def ReadsBytes : Prop :=
  ∀ p q kdf, prim.deriveKey p kdf = prim.deriveKey q kdf ↔ Text.encode p = Text.encode q

end unlocking

/-! ## Passwords with the same bytes -/

/-- As `TextEncoder` writes it. -/
def encodedPoint : Point → Point
  | .char c => .char c
  | .surrogate _ => .char '\uFFFD'

theorem neZero_surrogates : NeZero 2048 := ⟨by decide⟩

/-- A surrogate without its partner, by its number. -/
def loneSurrogate (n : ℕ) : Point := .surrogate (@Fin.ofNat 2048 neZero_surrogates n)

/-- With a lone surrogate for the character that is written for one. -/
def markedPoint (p : Point) : Point := if p = .char '\uFFFD' then loneSurrogate 0 else p

/-- Without a lone surrogate, and without the character that is written for one. -/
def isUnmistakable (password : Text) : Bool :=
  password.all fun p => !p.isSurrogate && p != .char '\uFFFD'

section passwords

variable {s t : Text}

theorem bytes_replaced : Point.bytes (.char '\uFFFD') = [239, 191, 189] := by decide +kernel

theorem encode_map_encodedPoint : Text.encode (s.map encodedPoint) = Text.encode s := by
  unfold Text.encode
  rw [List.flatMap_map]
  congr 1
  funext p
  cases p with
  | char c => rfl
  | surrogate n => exact bytes_replaced

theorem isWellFormed_map_encodedPoint : Text.isWellFormed (s.map encodedPoint) = true := by
  rw [Text.isWellFormed, List.all_eq_true]
  intro p hp
  obtain ⟨q, -, rfl⟩ := List.mem_map.mp hp
  cases q with
  | char c => rfl
  | surrogate n => rfl

/-- The bytes of such a password are those of no other string. -/
theorem eq_of_encode_eq (hs : isUnmistakable s = true) (h : Text.encode t = Text.encode s) : t = s := by
  rw [isUnmistakable, List.all_eq_true] at hs
  have hwell : s.isWellFormed = true := by
    rw [Text.isWellFormed, List.all_eq_true]
    exact fun p hp => (Bool.and_eq_true_iff.mp (hs p hp)).1
  have hencoded : t.map encodedPoint = s :=
    encode_inj isWellFormed_map_encodedPoint hwell (encode_map_encodedPoint.trans h)
  have hsame : t.map encodedPoint = t.map id := by
    refine List.map_congr_left fun p hp => ?_
    have hmem : encodedPoint p ∈ s := hencoded ▸ List.mem_map_of_mem hp
    cases p with
    | char c => rfl
    | surrogate n =>
      have hne := (Bool.and_eq_true_iff.mp (hs _ hmem)).2
      simp [encodedPoint] at hne
  rw [← hencoded, hsame, List.map_id]

theorem encode_map_markedPoint : Text.encode (s.map markedPoint) = Text.encode s := by
  unfold Text.encode
  rw [List.flatMap_map]
  congr 1
  funext p
  by_cases hp : p = .char '\uFFFD'
  · rw [markedPoint, if_pos hp, hp]
    exact bytes_replaced.symm
  · rw [markedPoint, if_neg hp]

theorem isUnmistakable_iff :
    isUnmistakable s = true ↔ ∀ t, Text.encode t = Text.encode s → t = s := by
  refine ⟨fun hs t h => eq_of_encode_eq hs h, fun h => ?_⟩
  have hencoded := (h _ encode_map_encodedPoint).trans (List.map_id s).symm
  have hmarked := (h _ encode_map_markedPoint).trans (List.map_id s).symm
  rw [isUnmistakable, List.all_eq_true]
  intro p hp
  have hpoint : encodedPoint p = p := List.map_inj_left.mp hencoded p hp
  have hchar : markedPoint p = p := List.map_inj_left.mp hmarked p hp
  cases p with
  | surrogate n => cases hpoint
  | char c =>
    have hne : Point.char c ≠ .char '\uFFFD' := by
      intro heq
      rw [heq] at hchar
      simp [markedPoint, loneSurrogate] at hchar
    simpa [Point.isSurrogate] using hne

end passwords

section created

variable {prim : VaultPrimitives} {caller : Caller} {c d e : Service} {p : VaultPoint} {out : Service × VaultPoint}
  {r : VaultResult} {v : Vault} {password : Text} {newKdf : Kdf}

theorem Completes.resume (h : Completes prim caller (c, p) e r) (hp : p.resume prim caller c = some out) :
    Completes prim caller out e r := Leads.resume h hp rfl

theorem Completes.ended {r' : VaultResult} (h : Completes prim caller (c, .done r') e r) : e = c ∧ r = r' := by
  obtain ⟨rfl, hdone⟩ := Leads.ended h rfl
  cases hdone
  exact ⟨rfl, rfl⟩

theorem Completes.next (hp : p.resume prim caller c = some out) (h : Completes prim caller out e r) :
    Completes prim caller (c, p) e r := .head hp h

theorem opensWith_of_stored (prim : VaultPrimitives) (password : Text) {b : Sealed} (h : c.stored = some b) :
    c.opensWith prim password = if prim.deriveKey password b.kdf = b.key then some b.content else none := by
  rw [Service.opensWith, h, Option.bind_some]

/-- In a fresh page an unlock says whether the password opens what is stored, and shows it. -/
theorem unlock_reload (hstored : c.stored.isSome = true)
    (h : Completes prim caller (VaultCall.begin prim c.reload (.unlock password)) e r) :
    r = .unlocked (c.opensWith prim password).isSome ∧ e.vault = (c.opensWith prim password).map Vault.sanitize := by
  obtain ⟨blob, hblob⟩ := Option.isSome_iff_exists.mp hstored
  have hreload : c.reload.stored = some blob := hblob
  have hopens := opensWith_of_stored prim password hblob
  simp only [VaultCall.begin, hreload] at h
  have hderived := h.resume rfl
  by_cases hkey : prim.deriveKey password blob.kdf = blob.key
  · rw [hopens, if_pos hkey]
    obtain ⟨rfl, rfl⟩ := (hderived.resume (by rw [VaultPoint.resume, if_pos hkey])).ended
    exact ⟨rfl, rfl⟩
  · rw [hopens, if_neg hkey]
    obtain ⟨rfl, rfl⟩ := (hderived.resume (by rw [VaultPoint.resume, if_neg hkey])).ended
    exact ⟨rfl, rfl⟩

/-! ## What a new vault is sealed under -/

/-- The key that a save seals under, and the descriptor that it stores. -/
def sealingKey (prim : VaultPrimitives) (c : Service) (password : Text) (newKdf : Kdf) : VaultKey × Kdf :=
  c.cachedKey.getD (prim.deriveKey password newKdf, newKdf)

theorem stored_of_save (h : Completes prim caller (c, save c .create v (some password) newKdf) e .created) :
    e.stored = some ⟨(sealingKey prim c password newKdf).2, (sealingKey prim c password newKdf).1, v⟩ := by
  unfold sealingKey
  cases hcached : c.cachedKey with
  | some cached =>
    rw [save, hcached] at h
    obtain ⟨rfl, -⟩ := ((h.resume rfl).resume rfl).ended
    rfl
  | none =>
    rw [save, hcached] at h
    cases hgiven : given (some password) with
    | none =>
      rw [hgiven] at h
      cases h.ended.2
    | some secret =>
      have hsecret : secret = password := (Option.some.inj (Option.filter_eq_some_iff.mp hgiven).1).symm
      rw [hgiven, hsecret] at h
      obtain ⟨rfl, -⟩ := (((h.resume rfl).resume rfl).resume rfl).ended
      rfl

/-- What succeeded had nothing stored before it, and went on to save its vault. -/
theorem stored_of_begin {prim : NewVaultPrimitives} {new : NewVault}
    (h : Completes prim.toVaultPrimitives caller (new.begin_ prim password newKdf c) e .created) :
    ∃ v, new.vault prim = .ok v ∧
      e.stored = some ⟨(sealingKey prim.toVaultPrimitives c password newKdf).2,
        (sealingKey prim.toVaultPrimitives c password newKdf).1, v⟩ := by
  unfold NewVault.begin_ at h
  split at h
  · cases h.ended.2
  · next hstored =>
    split at h
    · cases h.ended.2
    · split at h
      · cases h.ended.2
      · next v hv =>
        refine ⟨v, hv, ?_⟩
        rw [VaultCall.begin, if_neg hstored] at h
        split at h
        · exact stored_of_save (h.resume rfl)
        · exact stored_of_save h

theorem unlock_completes (prim : VaultPrimitives) (caller : Caller) (password : Text)
    (hstored : c.stored.isSome = true) :
    ∃ e, Completes prim caller (VaultCall.begin prim c.reload (.unlock password)) e
      (.unlocked (c.opensWith prim password).isSome) := by
  obtain ⟨blob, hblob⟩ := Option.isSome_iff_exists.mp hstored
  have hreload : c.reload.stored = some blob := hblob
  simp only [VaultCall.begin, hreload]
  rw [opensWith_of_stored prim password hblob]
  by_cases hkey : prim.deriveKey password blob.kdf = blob.key
  · rw [if_pos hkey]
    exact ⟨_, .next rfl (.next (by rw [VaultPoint.resume, if_pos hkey]; rfl) .refl)⟩
  · rw [if_neg hkey]
    exact ⟨_, .next rfl (.next (by rw [VaultPoint.resume, if_neg hkey]; rfl) .refl)⟩

/-- A vault is bound to the password where the key it was sealed under is derived from it. -/
theorem boundTo_iff (hkdf : ReadsBytes prim) {b : Sealed} (hstored : e.stored = some b) :
    BoundTo prim caller e b.content password ↔
      b.key = prim.deriveKey password b.kdf ∧ isUnmistakable password = true := by
  have hopens := fun q => opensWith_of_stored prim q hstored
  have hsome : e.stored.isSome = true := by rw [hstored]; rfl
  constructor
  · intro hbound
    have hkey : b.key = prim.deriveKey password b.kdf := by
      obtain ⟨f, hf⟩ := unlock_completes prim caller password hsome
      have hr := (hbound.opens f _ hf).1
      by_contra hne
      rw [hopens, if_neg (Ne.symm hne)] at hr
      cases hr
    refine ⟨hkey, isUnmistakable_iff.mpr fun q hq => ?_⟩
    by_contra hne
    obtain ⟨f, hf⟩ := unlock_completes prim caller q hsome
    have hr := (hbound.opensOnly q f _ hne hf).1
    rw [hopens, if_pos (((hkdf q password b.kdf).mpr hq).trans hkey.symm)] at hr
    cases hr
  · rintro ⟨hkey, hexact⟩
    refine ⟨by rw [hstored]; rfl, fun f r hf => ?_, fun q f r hne hf => ?_⟩
    · have hout := unlock_reload hsome hf
      rw [hopens, if_pos hkey.symm] at hout
      exact hout
    · have hout := unlock_reload hsome hf
      rw [hopens, if_neg] at hout
      · exact hout
      · exact fun heq => hne (isUnmistakable_iff.mp hexact q ((hkdf q password b.kdf).mp (heq.trans hkey)))

end created

/-! ## The condition -/

/-- A key that is cached when the vault is saved is the one that the password gives. -/
def CachesOnly (prim : VaultPrimitives) (c : Service) (password : Text) : Prop :=
  ∀ key kdf, c.cachedKey = some (key, kdf) → key = prim.deriveKey password kdf

theorem sealingKey_iff {prim : VaultPrimitives} {c : Service} {password : Text} {newKdf : Kdf} :
    (sealingKey prim c password newKdf).1 = prim.deriveKey password (sealingKey prim c password newKdf).2 ↔
      CachesOnly prim c password := by
  unfold sealingKey CachesOnly
  cases hcached : c.cachedKey with
  | none => exact iff_of_true rfl (by simp)
  | some cached =>
    refine ⟨fun h key kdf hkey => ?_, fun h => h _ _ rfl⟩
    obtain rfl := Option.some.inj hkey
    exact h

/-- A vault that is set up or imported is bound to its password exactly where the cached key, if there is one,
comes from that password, and no other string has its bytes. -/
theorem new_vault_binds_iff {prim : NewVaultPrimitives} {caller : Caller} {c e : Service} {new : NewVault}
    {password : Text} {newKdf : Kdf} (later : Caller) (hkdf : ReadsBytes prim.toVaultPrimitives)
    (h : Completes prim.toVaultPrimitives caller (new.begin_ prim password newKdf c) e .created) :
    ∃ v, new.vault prim = .ok v ∧ (BoundTo prim.toVaultPrimitives later e v password ↔
      CachesOnly prim.toVaultPrimitives c password ∧ isUnmistakable password = true) := by
  obtain ⟨v, hv, hstored⟩ := stored_of_begin h
  exact ⟨v, hv, (boundTo_iff hkdf hstored).trans (and_congr_left fun _ => sealingKey_iff)⟩

/-! ## Samples -/

/-- A key that spells the bytes of the password and the descriptor. -/
def spelledKey (password : Text) (kdf : Kdf) : VaultKey :=
  password.encode.map (fun b => loneSurrogate b.toNat) ++ kdf

def spellingPrimitives : NewVaultPrimitives where
  toBackupPrimitives := sampleBackup "old" []
  suites := sampleSuites
  deriveKey := spelledKey
  vaultPasswordProblem password := if password.length < 12 then some "Use at least 12 characters" else none

theorem readsBytes_spelling : ReadsBytes spellingPrimitives.toVaultPrimitives := by
  intro p q kdf
  refine ⟨fun h => ?_, fun h => ?_⟩
  · refine List.map_injective_iff.mpr (fun a b hab => ?_) (List.append_cancel_right h)
    have hvalue : a.toNat % 2048 = b.toNat % 2048 := congrArg Fin.val (Point.surrogate.inj hab)
    have ha := a.toNat_lt
    have hb := b.toNat_lt
    rw [Nat.mod_eq_of_lt (by omega), Nat.mod_eq_of_lt (by omega)] at hvalue
    exact UInt8.toNat_inj.mp hvalue
  · change spelledKey p kdf = spelledKey q kdf
    rw [spelledKey, h, spelledKey]

def formerPassword : Text := lit "former phrase"

def chosenPassword : Text := lit "chosen phrase"

/-- A page as it loads on a clean device. -/
def cleanPage : Service :=
  { sampleService with
    stored := none
    vault := none
    isLocked := true
    cachedKey := none }

theorem new_vault_binds_sample : ∃ e : Service, ∃ v,
    Completes spellingPrimitives.toVaultPrimitives sampleService.since.unlocked
      (NewVault.begin_ spellingPrimitives (.setup (sampleAccount "new" [])) chosenPassword (lit "salt") cleanPage) e
      .created ∧
    (NewVault.setup (sampleAccount "new" [])).vault spellingPrimitives = .ok v ∧
    BoundTo spellingPrimitives.toVaultPrimitives sampleService.since.unlocked e v chosenPassword := by
  have hrun : ∃ e : Service, Completes spellingPrimitives.toVaultPrimitives sampleService.since.unlocked
      (NewVault.begin_ spellingPrimitives (.setup (sampleAccount "new" [])) chosenPassword (lit "salt") cleanPage) e
      .created := ⟨_, .next rfl (.next rfl (.next rfl (.next rfl .refl)))⟩
  obtain ⟨e, hrun⟩ := hrun
  obtain ⟨v, hv, hiff⟩ := new_vault_binds_iff sampleService.since.unlocked readsBytes_spelling hrun
  exact ⟨e, v, hrun, hv, hiff.mpr ⟨fun key kdf h => (Option.some_ne_none _ h.symm).elim, by decide +kernel⟩⟩

/-! ## A page whose vault another one removes -/

/-- What happens to the service of a page: its own operations, one after another, and what other pages store. -/
inductive PageStep (prim : NewVaultPrimitives) : Service → Service → Prop
  | call {c e : Service} (caller : Caller) (call : VaultCall) (r : VaultResult)
    (h : Completes prim.toVaultPrimitives caller (VaultCall.begin prim.toVaultPrimitives c call) e r) :
    PageStep prim c e
  | new {c e : Service} (caller : Caller) (new : NewVault) (password : Text) (newKdf : Kdf) (r : VaultResult)
    (h : Completes prim.toVaultPrimitives caller (new.begin_ prim password newKdf c) e r) : PageStep prim c e
  | wipeVault (c : Service) : PageStep prim c (VaultView.wipeVault c)
  | elsewhere (c : Service) (stored : Option Sealed) : PageStep prim c { c with stored := stored }

/-- A page as it loads: locked, and with whatever is stored. -/
structure Service.Loaded (c : Service) : Prop where
  vault : c.vault = none
  isLocked : c.isLocked = true
  cachedKey : c.cachedKey = none
  signingKey : c.signingKey = none

/-- A page as it loads over a vault that another page made. -/
def formerPage : Service :=
  { sampleService with
    stored := some ⟨[], spelledKey formerPassword [], sampleVault "old" []⟩
    vault := none
    isLocked := true
    cachedKey := none }

def unlockedPage : Service :=
  (formerPage.cacheKey sampleService.since.unlocked (spelledKey formerPassword []) []).openVault
    sampleService.since.unlocked (sampleVault "old" [])

theorem unlock_formerPage : Completes spellingPrimitives.toVaultPrimitives sampleService.since.unlocked
    (VaultCall.begin spellingPrimitives.toVaultPrimitives formerPage (.unlock formerPassword)) unlockedPage
    (.unlocked true) :=
  .next rfl (.next (by rw [VaultPoint.resume]; exact if_pos rfl) .refl)

/-- The new vault, under the key of the old one. -/
def missealedVault : Sealed := ⟨[], spelledKey formerPassword [], sampleVault "new" []⟩

def emptiedPage : Service := { unlockedPage with stored := none }

def reboundPage : Service :=
  (emptiedPage.store missealedVault).openVault sampleService.since.unlocked (sampleVault "new" [])

/-- Its vault is removed by another page. The one that is set up next is sealed under the key of the old one. -/
theorem not_new_vault_binds : ∃ page c e : Service, ∃ v, page.Loaded ∧
    Relation.ReflTransGen (PageStep spellingPrimitives) page c ∧
    Completes spellingPrimitives.toVaultPrimitives sampleService.since.unlocked
      (NewVault.begin_ spellingPrimitives (.setup (sampleAccount "new" [])) chosenPassword (lit "salt") c) e
      .created ∧
    (NewVault.setup (sampleAccount "new" [])).vault spellingPrimitives = .ok v ∧
    ¬ BoundTo spellingPrimitives.toVaultPrimitives sampleService.since.unlocked e v chosenPassword := by
  refine ⟨formerPage, emptiedPage, reboundPage, sampleVault "new" [], ⟨rfl, rfl, rfl, rfl⟩,
    .tail (.single (.call _ _ _ unlock_formerPage)) (.elsewhere _ none),
    .next rfl (.next rfl (.next rfl .refl)), rfl, fun hbound => ?_⟩
  have hkey := ((boundTo_iff (b := missealedVault) (e := reboundPage) readsBytes_spelling rfl).mp hbound).1
  exact absurd hkey (by decide +kernel)

end Kryptolog.Client
