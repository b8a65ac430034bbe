import Kryptolog.Client.Account

/-! # Importing a backup

`importVault` of the local vault (`services/vaultBackup.js`) and of the extension
(`handlers/accounts.js`). Both find the accounts of a backup and parse them. The local vault then
puts each one in the place of the account that has its id, and the extension keeps the account
that it holds.
-/

namespace Kryptolog.Client
set_option autoImplicit false

open Script Fallible

structure Vault where
  accounts : List Account
  activeAccountId : Option Text

/-- `JSON.parse`, and the opening of an encrypted backup under a passphrase. -/
structure BackupPrimitives where
  parseJson : Text → Option Value
  decryptVault : Value → Text → Except String Value

def isTextMember (v : Option Value) : Bool :=
  match v with
  | some (.str _) => true
  | _ => false

/-- The member `accounts`, where it is an array. -/
def accountsOf (data : Value) : Option (List Value) :=
  match data.get "accounts" with
  | some (.arr accounts) => some accounts
  | _ => none

def isEncryptedVaultBlob (data : Value) : Bool :=
  isObject data && (accountsOf data).isNone && isTextMember (data.get "iv") && isTextMember (data.get "data") &&
    ((data.get "kdf").isSome || isTextMember (data.get "salt"))

/-- A passphrase that is given. -/
def given (secret : Option Text) : Option Text := secret.filter fun s => !s.isEmpty

/-- The first account with the id is replaced, or the account is added. -/
def putAccount (acc : Account) : List Account → List Account
  | [] => [acc]
  | a :: as => if a.id == acc.id then acc :: as else a :: putAccount acc as

section imports

variable (suites : KeySuites) (prim : BackupPrimitives) (now : Number)

/-- The accounts of a backup, for the local vault. -/
def backupAccounts (jsonString : Text) (passphrase : Option Text) : Except String (List Account) := do
  match prim.parseJson jsonString with
  | none => .error "not JSON"
  | some parsed =>
    let data ← if isEncryptedVaultBlob parsed then
        match given passphrase with
        | none => .error "This is an encrypted .kvault backup — enter its passphrase"
        | some secret => prim.decryptVault parsed secret
      else .ok parsed
    match accountsOf data with
    | none => .error "Invalid vault format"
    | some raw => raw.mapM (parseAccount suites now)

/-- `importVault` of the local vault, on the vault that it has opened: the vault that it saves, and
how many accounts it took. -/
def importVault (vault : Vault) (jsonString : Text) (passphrase : Option Text) :
    Except String (Vault × ℕ) :=
  match backupAccounts suites prim now jsonString passphrase with
  | .error e => .error s!"Import failed: {e}"
  | .ok imported =>
    let accounts := imported.foldl (fun accounts acc => putAccount acc accounts) vault.accounts
    .ok ({ vault with accounts := accounts }, imported.length)

/-- The accounts of a backup, for the extension: a text is parsed, and anything but plain accounts
is decrypted. -/
def extensionBackup (vaultObj : Value) (password passphrase : Option Text) :
    Except String (List Account) := do
  let parsed ← match vaultObj with
    | .str text => ((prim.parseJson text).elim (.error "Invalid import format (not JSON)") .ok :
        Except String Value)
    | other => .ok other
  let data ← if (accountsOf parsed).isSome then .ok parsed
    else
      match (given passphrase).or (given password) with
      | none => .error "Backup passphrase required for encrypted .kvault file"
      | some secret => prim.decryptVault parsed secret
  match accountsOf data with
  | none => .error "Invalid vault data: missing accounts"
  | some raw => raw.mapM (parseAccount suites now)

/-- `importVault` of the extension, on the accounts that it holds: what it holds then. -/
def extensionImport (held : List Account) (vaultObj : Value) (password passphrase : Option Text) :
    Except String (List Account) := do
  let imported ← extensionBackup suites prim now vaultObj password passphrase
  let existing := held.map (·.id)
  .ok (held ++ imported.filter fun acc => !existing.contains acc.id)

end imports

/-! ## What an import leaves of an identity -/

/-- Every key that was held for an address is held for it still. -/
def KeepsKeys (before after : List Account) : Prop :=
  ∀ a ∈ before, ∀ seed ∈ a.seeds, ∃ b ∈ after, b.id = a.id ∧ seed ∈ b.seeds

/-- The last copy of an identity in a backup. -/
def lastCopy (imported : List Account) (id : Text) : Option Account :=
  imported.reverse.find? (·.id == id)

/-- The copies of an identity in a vault. -/
def copies (accounts : List Account) (id : Text) : List Account := accounts.filter (·.id == id)

/-- Of an identity that both have, the last imported copy has each key of the copy that it replaces,
or another copy in the vault has it. -/
def CoversKeys (held imported : List Account) : Prop :=
  ∀ id last first rest, lastCopy imported id = some last → copies held id = first :: rest →
    ∀ seed ∈ first.seeds, seed ∈ last.seeds ∨ ∃ b ∈ rest, seed ∈ b.seeds

theorem copies_putAccount (acc : Account) (accounts : List Account) (id : Text) :
    copies (putAccount acc accounts) id =
      if acc.id = id then acc :: (copies accounts id).tail else copies accounts id := by
  induction accounts with
  | nil =>
    simp only [copies, putAccount, List.filter_cons, List.filter_nil, beq_iff_eq, List.tail_nil]
  | cons a as ih =>
    unfold copies at ih ⊢
    by_cases ha : a.id = acc.id
    · rw [putAccount, if_pos (beq_iff_eq.mpr ha), List.filter_cons, List.filter_cons, ha]
      by_cases hid : acc.id = id
      · rw [if_pos (beq_iff_eq.mpr hid), if_pos hid, if_pos (beq_iff_eq.mpr hid)]
        rfl
      · rw [if_neg (by simpa using hid), if_neg hid, if_neg (by simpa using hid)]
    · rw [putAccount, if_neg (by simpa using ha), List.filter_cons, List.filter_cons, ih]
      by_cases hid : acc.id = id
      · have hne : ¬(a.id == id) = true := by
          rw [beq_iff_eq, ← hid]
          exact ha
        rw [if_neg hne, if_neg hne]
      · rw [if_neg hid, if_neg hid]

theorem lastCopy_cons (acc : Account) (imported : List Account) (id : Text) :
    lastCopy (acc :: imported) id =
      (lastCopy imported id).or (if acc.id = id then some acc else none) := by
  rw [lastCopy, List.reverse_cons, List.find?_append, List.find?_singleton]
  simp only [beq_iff_eq]
  rfl

/-- The last imported copy stands for the first one that was held. -/
theorem copies_import (imported held : List Account) (id : Text) :
    copies (imported.foldl (fun accounts acc => putAccount acc accounts) held) id =
      match lastCopy imported id with
      | none => copies held id
      | some last => last :: (copies held id).tail := by
  induction imported generalizing held with
  | nil => rfl
  | cons acc imported ih =>
    rw [List.foldl_cons, ih, lastCopy_cons, copies_putAccount]
    cases lastCopy imported id with
    | none =>
      rw [Option.none_or]
      by_cases hid : acc.id = id
      · rw [if_pos hid, if_pos hid]
      · rw [if_neg hid, if_neg hid]
    | some last =>
      rw [Option.some_or]
      by_cases hid : acc.id = id
      · rw [if_pos hid]
        rfl
      · rw [if_neg hid]

theorem mem_copies {accounts : List Account} {id : Text} {a : Account} :
    a ∈ copies accounts id ↔ a ∈ accounts ∧ a.id = id := by
  rw [copies, List.mem_filter, beq_iff_eq]

theorem keepsKeys_iff (imported held : List Account) :
    KeepsKeys held (imported.foldl (fun accounts acc => putAccount acc accounts) held) ↔
      CoversKeys held imported := by
  have hafter : ∀ id (seed : Text),
      (∃ b ∈ imported.foldl (fun accounts acc => putAccount acc accounts) held,
        b.id = id ∧ seed ∈ b.seeds) ↔
      ∃ b ∈ copies (imported.foldl (fun accounts acc => putAccount acc accounts) held) id,
        seed ∈ b.seeds := by
    intro id seed
    simp only [mem_copies, and_assoc]
  constructor
  · intro hkeeps id last first rest hlast hcopies seed hseed
    obtain ⟨hmem, hid⟩ := mem_copies.mp (hcopies ▸ List.mem_cons_self)
    obtain ⟨b, hb, hholds⟩ := (hafter id seed).mp (hid ▸ hkeeps first hmem seed hseed)
    rw [copies_import, hlast, hcopies, List.tail_cons] at hb
    rcases List.mem_cons.mp hb with rfl | hb
    · exact .inl hholds
    · exact .inr ⟨b, hb, hholds⟩
  · intro hcovers a ha seed hseed
    refine (hafter a.id seed).mpr ?_
    have hmem : a ∈ copies held a.id := mem_copies.mpr ⟨ha, rfl⟩
    rw [copies_import]
    cases hlast : lastCopy imported a.id with
    | none => exact ⟨a, hmem, hseed⟩
    | some last =>
      cases hcopies : copies held a.id with
      | nil =>
        rw [hcopies] at hmem
        cases hmem
      | cons first rest =>
        rw [hcopies] at hmem
        rcases List.mem_cons.mp hmem with rfl | hrest
        · rcases hcovers _ last a rest hlast hcopies seed hseed with hcovered | ⟨b, hb, hholds⟩
          · exact ⟨last, List.mem_cons_self, hcovered⟩
          · exact ⟨b, List.mem_cons_of_mem _ hb, hholds⟩
        · exact ⟨a, List.mem_cons_of_mem _ hrest, hseed⟩

/-- An import into the extension keeps every key, and one into the local vault does where the copies
of the backup have the keys that they replace. -/
theorem import_keeps_keys (suites : KeySuites) (prim : BackupPrimitives) (now : Number) :
    (∀ held vaultObj password passphrase after,
      extensionImport suites prim now held vaultObj password passphrase = .ok after →
        KeepsKeys held after) ∧
    ∀ vault jsonString passphrase after count,
      importVault suites prim now vault jsonString passphrase = .ok (after, count) →
        ∃ imported, backupAccounts suites prim now jsonString passphrase = .ok imported ∧
          (KeepsKeys vault.accounts after.accounts ↔ CoversKeys vault.accounts imported) := by
  constructor
  · intro held vaultObj password passphrase after h
    obtain ⟨imported, -, hafter⟩ := bind_eq_ok.mp h
    cases hafter
    exact fun a ha seed hseed => ⟨a, List.mem_append_left _ ha, rfl, hseed⟩
  · intro vault jsonString passphrase after count h
    unfold importVault at h
    split at h
    · cases h
    · next imported himported =>
      cases h
      exact ⟨imported, himported, keepsKeys_iff imported vault.accounts⟩

/-! ## An account that was rotated after its backup -/

def sampleSuites : KeySuites where
  identityPublicKeyOf seed := lit "identity " ++ seed
  encryptionPublicKeyOf seed := lit "encryption " ++ seed
  addressOf publicKey := publicKey
  encryptionKeyId publicKey := publicKey
  isIdentitySeed seed := !seed.isEmpty
  isEncryptionSeed seed := !seed.isEmpty
  kemAlg := "kem"

def sampleEncryptionKey (seed : String) : EncryptionKey :=
  ⟨lit "encryption " ++ lit seed, lit seed, lit "encryption " ++ lit seed, Number.zero⟩

/-- Alice with a current key and the keys that it replaced. -/
def sampleAccount (current : String) (retired : List String) : Account where
  id := lit "identity " ++ lit "alice"
  name := []
  createdAt := Number.zero
  identity := ⟨lit "alice", lit "identity " ++ lit "alice"⟩
  encryption := sampleEncryptionKey current
  retiredEncryption := retired.map fun seed => ⟨sampleEncryptionKey seed, Number.zero⟩

/-- The same account in a backup. -/
def sampleRecord (current : String) (retired : List String) : Value :=
  let key (seed : String) : Value := .obj [(lit "alg", .str (lit "kem")), (lit "seed", .str (lit seed))]
  .obj [(lit "identity", .obj [(lit "seed", .str (lit "alice"))]), (lit "encryption", key current),
    (lit "retiredEncryption", .arr (retired.map key))]

/-- A file is read as the backup of this account, whatever it says. -/
def sampleBackup (current : String) (retired : List String) : BackupPrimitives where
  parseJson _ := some (.obj [(lit "accounts", .arr [sampleRecord current retired])])
  decryptVault _ _ := .error "Incorrect password or corrupted data"

def sampleVault (current : String) (retired : List String) : Vault :=
  ⟨[sampleAccount current retired], some (sampleAccount current retired).id⟩

theorem backupAccounts_sample (current : String) (retired : List String)
    (h : parseAccount sampleSuites Number.zero (sampleRecord current retired) =
      .ok (sampleAccount current retired)) :
    backupAccounts sampleSuites (sampleBackup current retired) Number.zero [] none =
      .ok [sampleAccount current retired] := by
  have hmap : [sampleRecord current retired].mapM (parseAccount sampleSuites Number.zero) =
      .ok [sampleAccount current retired] := mapM_eq_ok.mpr (.cons h .nil)
  exact hmap

/-- The backup was made before the rotation, and takes the place of the rotated account. -/
theorem not_import_keeps_keys : ∃ after count,
    importVault sampleSuites (sampleBackup "old" []) Number.zero (sampleVault "new" ["old"]) [] none =
      .ok (after, count) ∧ ¬ KeepsKeys (sampleVault "new" ["old"]).accounts after.accounts := by
  have hparse : parseAccount sampleSuites Number.zero (sampleRecord "old" []) =
      .ok (sampleAccount "old" []) := rfl
  have himport : importVault sampleSuites (sampleBackup "old" []) Number.zero
      (sampleVault "new" ["old"]) [] none = .ok (sampleVault "old" [], 1) := by
    rw [importVault, backupAccounts_sample "old" [] hparse]
    rfl
  refine ⟨_, _, himport, fun hkeeps => ?_⟩
  obtain ⟨b, hb, -, hseed⟩ := hkeeps (sampleAccount "new" ["old"]) List.mem_cons_self (lit "new")
    List.mem_cons_self
  rw [List.mem_singleton.mp hb] at hseed
  have hne : lit "new" ∉ (sampleAccount "old" []).seeds := by decide
  exact hne hseed

/-- A backup that was made after the rotation has the key that it replaces. -/
theorem import_keeps_keys_sample : ∃ after count,
    importVault sampleSuites (sampleBackup "new" ["old"]) Number.zero (sampleVault "old" []) [] none =
      .ok (after, count) ∧ KeepsKeys (sampleVault "old" []).accounts after.accounts := by
  have hparse : parseAccount sampleSuites Number.zero (sampleRecord "new" ["old"]) =
      .ok (sampleAccount "new" ["old"]) := rfl
  have hbackup := backupAccounts_sample "new" ["old"] hparse
  have himport : importVault sampleSuites (sampleBackup "new" ["old"]) Number.zero
      (sampleVault "old" []) [] none = .ok (sampleVault "new" ["old"], 1) := by
    rw [importVault, hbackup]
    rfl
  obtain ⟨imported, himported, hiff⟩ := (import_keeps_keys sampleSuites (sampleBackup "new" ["old"])
    Number.zero).2 _ _ _ _ _ himport
  obtain rfl : [sampleAccount "new" ["old"]] = imported := Except.ok.inj (hbackup.symm.trans himported)
  refine ⟨_, _, himport, hiff.mpr ?_⟩
  intro id last first rest hlast hcopies seed hseed
  obtain ⟨hfirst, -⟩ := mem_copies.mp (hcopies ▸ List.mem_cons_self)
  obtain rfl := List.mem_singleton.mp hfirst
  obtain rfl := List.mem_singleton.mp (List.mem_reverse.mp (List.mem_of_find?_eq_some hlast))
  obtain rfl := List.mem_singleton.mp hseed
  left
  decide

end Kryptolog.Client
