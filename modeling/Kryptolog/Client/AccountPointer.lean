import Kryptolog.Client.VaultService
import Kryptolog.Library.Pointed

/-! # The accounts of the local vault, and the one that is active

What `setup`, `importNewVault` and `importEncryptedBlob` put in an empty store, and what operations leave of
the stored vault one after another. One that fails leaves it as it was.
-/

namespace Kryptolog.Client
set_option autoImplicit false

open Script Fallible Runs

/-! ## A new vault from a backup -/

section backups

variable (prim : VaultPrimitives) (now : Number)

/-- `importNewVault` once the file is parsed. -/
def newVaultOf (data : Value) : Except String Vault := do
  refuseIf (isEncryptedVaultBlob data) "This is an encrypted .kvault backup — enter its passphrase"
  let raw := (accountsOf data).getD []
  refuseIf raw.isEmpty "Invalid vault file: no accounts found"
  let accounts ← raw.mapM (parseAccount prim.suites now)
  let first := accounts.head?.map (·.id)
  let activeAccountId := match data.get "activeAccountId" with
    | some (.str id) => if !id.isEmpty && accounts.any (·.id == id) then some id else first
    | _ => first
  .ok ⟨accounts, activeAccountId⟩

def importNewVault (jsonString : Text) : Except String Vault :=
  match prim.parseJson jsonString with
  | none => .error "Invalid file: not valid JSON"
  | some data => newVaultOf prim now data

/-- The decrypted vault is written out and parsed again on the way. -/
def importEncryptedBlob (blobString transferPassphrase : Text) : Except String Vault :=
  match prim.parseJson blobString with
  | none => .error "Invalid transfer data"
  | some encrypted => do
    let data ← prim.decryptVault encrypted transferPassphrase
    newVaultOf prim now data

end backups

/-! ## Operations -/

inductive VaultOperation
  /-- With the account that `generateAccount` returns. -/
  | setup (account : Account)
  | importNewVault (jsonString : Text) (now : Number)
  | importEncryptedBlob (blobString transferPassphrase : Text) (now : Number)
  | edit (edit : VaultEdit)
  | wipeVault

namespace VaultOperation

/-- Makes a vault where there is none. -/
def create (held : Option Vault) (message : String) (made : Except String Vault) :
    Except String (Option Vault) := do
  refuseIf held.isSome message
  let vault ← made
  .ok (some vault)

def perform (prim : VaultPrimitives) (held : Option Vault) : VaultOperation → Except String (Option Vault)
  | setup account => create held "Vault already exists" (.ok ⟨[account], some account.id⟩)
  | importNewVault jsonString now =>
    create held "A vault already exists on this device. Import accounts from Settings instead."
      (Client.importNewVault prim now jsonString)
  | importEncryptedBlob blobString transferPassphrase now =>
    create held "A vault already exists on this device. Import from the Vault Manager while signed in."
      (Client.importEncryptedBlob prim now blobString transferPassphrase)
  | edit e =>
    match held with
    | none => .error "No vault found"
    | some vault => do
      let (changed, stores) ← e.change prim vault
      .ok (some (if stores then changed else vault))
  | wipeVault => .ok none

/-- What is stored after it. -/
def leaves (held : Option Vault) : Except String (Option Vault) → Option Vault
  | .ok after => after
  | .error _ => held

def step (prim : VaultPrimitives) (held : Option Vault) (op : VaultOperation) : Option Vault :=
  leaves held (op.perform prim held)

end VaultOperation

/-- The ids are distinct, and the active account is held. -/
def Vault.WellFormed (v : Vault) : Prop := Pointed.WellFormed (·.id) v.accounts v.activeAccountId

/-- The accounts of a backup have distinct ids. -/
def BackupDistinct (prim : VaultPrimitives) (now : Number) (data : Value) : Prop :=
  ∀ raw accounts, accountsOf data = some raw → raw.mapM (parseAccount prim.suites now) = .ok accounts →
    (accounts.map (·.id)).Nodup

/-- A generated account is a new one. -/
def VaultEdit.Fresh (v : Vault) : VaultEdit → Prop
  | addAccount account => account.id ∉ v.accounts.map (·.id)
  | _ => True

/-- The condition. -/
def VaultOperation.Distinct (prim : VaultPrimitives) (held : Option Vault) : VaultOperation → Prop
  | importNewVault jsonString now =>
    held = none → ∀ data, prim.parseJson jsonString = some data → BackupDistinct prim now data
  | importEncryptedBlob blobString transferPassphrase now =>
    held = none → ∀ encrypted data, prim.parseJson blobString = some encrypted →
      prim.decryptVault encrypted transferPassphrase = .ok data → BackupDistinct prim now data
  | edit e => ∀ v, held = some v → e.Fresh v
  | _ => True

/-! ## What an operation leaves -/

/-- The vault is well-formed, and points at an account. -/
structure Vault.Points (v : Vault) : Prop where
  wellFormed : v.WellFormed
  active : v.activeAccountId.isSome = true

variable {prim : VaultPrimitives}

theorem Vault.Points.exists_active {v : Vault} (h : v.Points) :
    ∃ id, v.activeAccountId = some id ∧ id ∈ v.accounts.map (·.id) := by
  obtain ⟨id, hid⟩ := Option.isSome_iff_exists.mp h.active
  exact ⟨id, hid, h.wellFormed.held id hid⟩

theorem map_id_putAccount (acc : Account) (accounts : List Account) :
    (putAccount acc accounts).map (·.id) =
      if acc.id ∈ accounts.map (·.id) then accounts.map (·.id) else accounts.map (·.id) ++ [acc.id] := by
  induction accounts with
  | nil => rfl
  | cons a as ih =>
    by_cases ha : a.id = acc.id
    · rw [putAccount, if_pos (beq_iff_eq.mpr ha), if_pos (by simp [ha]), List.map_cons, List.map_cons, ha]
    · have hmem : acc.id ∈ (a :: as).map (·.id) ↔ acc.id ∈ as.map (·.id) := by
        rw [List.map_cons, List.mem_cons]
        exact or_iff_right fun h => ha h.symm
      rw [putAccount, if_neg (by simpa using ha), List.map_cons, ih]
      by_cases hid : acc.id ∈ as.map (·.id)
      · rw [if_pos hid, if_pos (hmem.mpr hid), List.map_cons]
      · rw [if_neg hid, if_neg (mt hmem.mp hid), List.map_cons, List.cons_append]

/-- An imported account takes the place of the one with its id. -/
theorem putAccount_distinct (acc : Account) {accounts : List Account} (h : (accounts.map (·.id)).Nodup) :
    ((putAccount acc accounts).map (·.id)).Nodup ∧
      ∀ id ∈ accounts.map (·.id), id ∈ (putAccount acc accounts).map (·.id) := by
  rw [map_id_putAccount]
  split
  · exact ⟨h, fun _ hid => hid⟩
  · next hnew =>
    refine ⟨List.nodup_append'.mpr ⟨h, List.nodup_singleton _, ?_⟩, fun _ hid => List.mem_append_left _ hid⟩
    intro id hid hacc
    exact hnew (List.mem_singleton.mp hacc ▸ hid)

theorem putAccounts_distinct (imported : List Account) {accounts : List Account}
    (h : (accounts.map (·.id)).Nodup) :
    ((imported.foldl (fun accounts acc => putAccount acc accounts) accounts).map (·.id)).Nodup ∧
      ∀ id ∈ accounts.map (·.id),
        id ∈ (imported.foldl (fun accounts acc => putAccount acc accounts) accounts).map (·.id) := by
  induction imported generalizing accounts with
  | nil => exact ⟨h, fun _ hid => hid⟩
  | cons acc imported ih =>
    obtain ⟨hdistinct, hkept⟩ := putAccount_distinct acc h
    obtain ⟨hafter, hall⟩ := ih hdistinct
    exact ⟨hafter, fun id hid => hall id (hkept id hid)⟩

theorem withActiveAccount_ids {v w : Vault} {change : Account → Except String Account}
    (hchange : ∀ a b, change a = .ok b → b.id = a.id) (h : withActiveAccount v change = .ok w) :
    w.accounts.map (·.id) = v.accounts.map (·.id) ∧ w.activeAccountId = v.activeAccountId := by
  unfold withActiveAccount at h
  split at h
  · cases h
  · next i hi =>
    split at h
    · cases h
    · next account haccount =>
      obtain ⟨changed, hchanged, hw⟩ := bind_eq_ok.mp h
      cases hw
      refine ⟨?_, rfl⟩
      have hid : (v.accounts.map (·.id))[i]? = some changed.id := by
        rw [List.getElem?_map, haccount, hchange _ _ hchanged]
        rfl
      rw [List.map_set]
      obtain ⟨hlt, heq⟩ := List.getElem?_eq_some_iff.mp hid
      rw [← heq]
      exact List.set_getElem_self hlt

theorem Vault.Points.of_ids {v w : Vault} (h : v.Points)
    (hids : w.accounts.map (·.id) = v.accounts.map (·.id) ∧ w.activeAccountId = v.activeAccountId) : w.Points where
  wellFormed := by
    rw [Vault.WellFormed, hids.2]
    exact h.wellFormed.of_ids hids.1
  active := hids.2 ▸ h.active

/-- The account that takes the pointer over is one that stays. -/
theorem deleteAccount_points {v w : Vault} {id : Text} {stores : Bool} (h : v.Points)
    (hok : (VaultEdit.deleteAccount id).change prim v = .ok (w, stores)) : w.Points := by
  have hsub : (v.accounts.filter (·.id != id)).Sublist v.accounts := List.filter_sublist
  obtain ⟨u, -, hok⟩ := bind_eq_ok.mp hok
  split at hok
  · split at hok
    · cases hok
    · next other hother =>
      cases hok
      rw [successorOf] at hother
      have hother' := List.find?_some hother
      have hstays : other ∈ v.accounts.filter (·.id != id) :=
        List.mem_filter.mpr ⟨List.mem_of_find?_eq_some hother, hother'⟩
      exact ⟨Pointed.wellFormed_some.mpr
        ⟨h.wellFormed.distinct.sublist (hsub.map _), List.mem_map_of_mem hstays⟩, rfl⟩
  · next hactive =>
    cases hok
    refine ⟨h.wellFormed.sublist hsub fun a ha hid => List.mem_filter.mpr ⟨ha, ?_⟩, h.active⟩
    rw [bne_iff_ne]
    rintro rfl
    exact hactive hid

/-- Only an account that is added can spoil a vault. -/
theorem change_points {v w : Vault} {edit : VaultEdit} {stores : Bool} (h : v.Points)
    (hok : edit.change prim v = .ok (w, stores)) :
    w.activeAccountId.isSome = true ∧ (w.WellFormed ↔ edit.Fresh v) := by
  have hpoints (hw : w.Points) (hfresh : edit.Fresh v) :
      w.activeAccountId.isSome = true ∧ (w.WellFormed ↔ edit.Fresh v) :=
    ⟨hw.active, iff_of_true hw.wellFormed hfresh⟩
  cases edit with
  | addAccount account =>
    cases hok
    obtain ⟨id, hactive, hid⟩ := h.exists_active
    refine ⟨h.active, ?_⟩
    have hpush := Pointed.push_iff (a := account) h.wellFormed.distinct (.inl hid)
    rw [← hactive] at hpush
    exact hpush
  | switchAccount id =>
    obtain ⟨u, hexists, hok⟩ := bind_eq_ok.mp hok
    cases hok
    have hheld : id ∈ v.accounts.map (·.id) := by
      have hany := refuseIf_eq_ok.mp hexists
      rw [Bool.not_eq_false', List.any_eq_true] at hany
      obtain ⟨a, ha, hid⟩ := hany
      exact List.mem_map.mpr ⟨a, ha, beq_iff_eq.mp hid⟩
    exact hpoints ⟨Pointed.wellFormed_some.mpr ⟨h.wellFormed.distinct, hheld⟩, rfl⟩ trivial
  | deleteAccount id => exact hpoints (deleteAccount_points h hok) trivial
  | rotateEncryptionKey fresh ts =>
    obtain ⟨changed, hchanged, hok⟩ := bind_eq_ok.mp hok
    cases hok
    exact hpoints (h.of_ids (withActiveAccount_ids (fun _ _ hb => (keys_rotate hb).1) hchanged)) trivial
  | revertEncryptionKeyRotation newKid now =>
    obtain ⟨changed, hchanged, hok⟩ := bind_eq_ok.mp hok
    cases hok
    exact hpoints (h.of_ids (withActiveAccount_ids (fun _ _ hb => (keys_revert hb).1) hchanged)) trivial
  | destroyRetiredEncryptionKey kid =>
    obtain ⟨changed, hchanged, hok⟩ := bind_eq_ok.mp hok
    cases hok
    exact hpoints (h.of_ids (withActiveAccount_ids (fun _ _ hb => (keys_destroy hb).1) hchanged)) trivial
  | importVault jsonString passphrase now =>
    obtain ⟨⟨changed, added⟩, himport, hok⟩ := bind_eq_ok.mp hok
    cases hok
    unfold importVault at himport
    split at himport
    · cases himport
    · next imported _ =>
      cases himport
      obtain ⟨id, hactive, hid⟩ := h.exists_active
      obtain ⟨hdistinct, hkept⟩ := putAccounts_distinct imported h.wellFormed.distinct
      refine hpoints ⟨?_, h.active⟩ trivial
      rw [Vault.WellFormed, hactive]
      exact Pointed.wellFormed_some.mpr ⟨hdistinct, hkept id hid⟩

theorem newVaultOf_eq_ok {now : Number} {data : Value} {v : Vault} (h : newVaultOf prim now data = .ok v) :
    ∃ raw, accountsOf data = some raw ∧ raw.mapM (parseAccount prim.suites now) = .ok v.accounts ∧
      ∃ id ∈ v.accounts.map (·.id), v.activeAccountId = some id := by
  obtain ⟨_, -, h⟩ := bind_eq_ok.mp h
  simp only at h
  obtain ⟨_, hsome, h⟩ := bind_eq_ok.mp h
  obtain ⟨accounts, haccounts, h⟩ := bind_eq_ok.mp h
  obtain ⟨record, records, hraw⟩ := List.exists_cons_of_ne_nil
    (List.isEmpty_eq_false_iff.mp (refuseIf_eq_ok.mp hsome))
  have hof : accountsOf data = some (record :: records) := by
    cases hof : accountsOf data with
    | none =>
      rw [hof] at hraw
      cases hraw
    | some raw =>
      rw [hof] at hraw
      exact congrArg some hraw
  rw [hraw] at haccounts
  cases h
  refine ⟨_, hof, haccounts, ?_⟩
  obtain ⟨first, rest, rfl⟩ : ∃ first rest, accounts = first :: rest := by
    cases mapM_eq_ok.mp haccounts with
    | cons _ _ => exact ⟨_, _, rfl⟩
  have hfirst : ∃ id ∈ (first :: rest).map (·.id), some first.id = some id :=
    ⟨first.id, List.mem_cons_self, rfl⟩
  simp only
  split
  · next id _ =>
    split
    · next hid =>
      obtain ⟨a, ha, heq⟩ := List.any_eq_true.mp (Bool.and_eq_true_iff.mp hid).2
      exact ⟨id, List.mem_map.mpr ⟨a, ha, beq_iff_eq.mp heq⟩, rfl⟩
    · exact hfirst
  · exact hfirst

/-- A file makes a well-formed vault exactly where its accounts have distinct ids. -/
theorem newVaultOf_wellFormed_iff {now : Number} {data : Value} :
    (∀ v, newVaultOf prim now data = .ok v → v.WellFormed) ↔ BackupDistinct prim now data := by
  constructor
  · intro h raw accounts hraw haccounts
    cases haccount : accounts with
    | nil => exact List.nodup_nil
    | cons first rest =>
      have hplain : isEncryptedVaultBlob data = false := by
        rw [isEncryptedVaultBlob, hraw]
        simp
      have hne : raw.isEmpty = false := by
        cases raw with
        | nil =>
          cases mapM_eq_ok.mp haccounts
          cases haccount
        | cons _ _ => rfl
      have hok : ∃ v, newVaultOf prim now data = .ok v ∧ v.accounts = accounts := by
        unfold newVaultOf
        simp only [hplain, hraw, Option.getD_some, hne, haccounts]
        exact ⟨_, rfl, rfl⟩
      obtain ⟨v, hv, hof⟩ := hok
      have hdistinct := (h v hv).distinct
      rw [hof, haccount] at hdistinct
      exact hdistinct
  · intro h v hv
    obtain ⟨raw, hraw, haccounts, id, hid, hactive⟩ := newVaultOf_eq_ok hv
    rw [Vault.WellFormed, hactive]
    exact Pointed.wellFormed_some.mpr ⟨h raw _ hraw haccounts, hid⟩

/-! ## Runs -/

open VaultOperation (create leaves)

/-- What is stored points at an account. -/
def Points (held : Option Vault) : Prop := ∀ v, held = some v → v.Points

theorem leaves_create {held : Option Vault} {message : String} {made : Except String Vault} {v : Vault} :
    leaves held (create held message made) = some v ↔
      held = some v ∨ held = none ∧ made = .ok v := by
  cases held with
  | some u =>
    change some u = some v ↔ _
    simp
  | none =>
    cases made with
    | error e =>
      change none = some v ↔ _
      simp
    | ok w =>
      change some w = some v ↔ _
      simp

/-- A new vault is well-formed under the condition `P`. -/
theorem create_points {held : Option Vault} {P : Prop} (message : String) (made : Except String Vault)
    (h : Points held) (hactive : ∀ v, made = .ok v → v.activeAccountId.isSome = true)
    (hmade : (∀ v, made = .ok v → v.WellFormed) ↔ P) :
    (∀ v, leaves held (create held message made) = some v → v.activeAccountId.isSome = true) ∧
      ((∀ v, leaves held (create held message made) = some v → v.WellFormed) ↔ (held = none → P)) := by
  rw [← hmade]
  simp only [leaves_create]
  constructor
  · rintro v (hheld | ⟨-, hok⟩)
    · exact (h v hheld).active
    · exact hactive v hok
  · constructor
    · intro hall hnone v hok
      exact hall v (.inr ⟨hnone, hok⟩)
    · rintro hnew v (hheld | ⟨hnone, hok⟩)
      · exact (h v hheld).wellFormed
      · exact hnew hnone v hok

theorem newVaultOf_active {now : Number} {data : Value} {v : Vault} (h : newVaultOf prim now data = .ok v) :
    v.activeAccountId.isSome = true := by
  obtain ⟨-, -, -, id, -, hactive⟩ := newVaultOf_eq_ok h
  rw [hactive]
  rfl

/-- An operation that fails, or stores nothing, adds no account. -/
theorem fresh_of_not_stored {v : Vault} {edit : VaultEdit} (h : ∀ w, edit.change prim v ≠ .ok (w, true)) :
    edit.Fresh v := by
  cases edit with
  | addAccount account => exact absurd rfl (h _)
  | _ => trivial

theorem step_edit {held : Option Vault} {e : VaultEdit} (h : Points held) :
    (∀ v, (VaultOperation.edit e).step prim held = some v → v.activeAccountId.isSome = true) ∧
      ((∀ v, (VaultOperation.edit e).step prim held = some v → v.WellFormed) ↔
        ∀ v, held = some v → e.Fresh v) := by
  cases held with
  | none =>
    have hstep : (VaultOperation.edit e).step prim none = none := rfl
    rw [hstep]
    exact ⟨fun _ hv => (by cases hv), iff_of_true (fun _ hv => by cases hv) fun _ hv => by cases hv⟩
  | some u =>
    have hu := h u rfl
    have hkept (hstep : (VaultOperation.edit e).step prim (some u) = some u) (hfresh : e.Fresh u) :
        (∀ v, (VaultOperation.edit e).step prim (some u) = some v → v.activeAccountId.isSome = true) ∧
          ((∀ v, (VaultOperation.edit e).step prim (some u) = some v → v.WellFormed) ↔
            ∀ v, some u = some v → e.Fresh v) := by
      rw [hstep]
      simp only [Option.some.injEq, forall_eq']
      exact ⟨hu.active, iff_of_true hu.wellFormed hfresh⟩
    have hstep : (VaultOperation.edit e).step prim (some u) =
        leaves (some u) ((e.change prim u).bind fun out => .ok (some (if out.2 then out.1 else u))) := rfl
    cases hchange : e.change prim u with
    | error message =>
      rw [hchange] at hstep
      exact hkept hstep (fresh_of_not_stored fun w hw => by rw [hw] at hchange; cases hchange)
    | ok out =>
      obtain ⟨w, stores⟩ := out
      rw [hchange] at hstep
      cases stores with
      | false => exact hkept hstep (fresh_of_not_stored fun w' hw => by rw [hw] at hchange; cases hchange)
      | true =>
        have hstored : (VaultOperation.edit e).step prim (some u) = some w := hstep
        rw [hstored]
        simp only [Option.some.injEq, forall_eq']
        exact change_points hu hchange

theorem step_points {held : Option Vault} {op : VaultOperation} (h : Points held) :
    (∀ v, op.step prim held = some v → v.activeAccountId.isSome = true) ∧
      ((∀ v, op.step prim held = some v → v.WellFormed) ↔ op.Distinct prim held) := by
  cases op with
  | setup account =>
    have hnew : Pointed.WellFormed (·.id) [account] (some account.id) :=
      Pointed.wellFormed_some.mpr ⟨List.nodup_singleton _, List.mem_cons_self⟩
    have hcreated := create_points (P := True) "Vault already exists"
      (.ok ⟨[account], some account.id⟩) h (fun v hv => by cases hv; rfl)
      (iff_of_true (fun v hv => by cases hv; exact hnew) trivial)
    exact ⟨hcreated.1, hcreated.2.trans (iff_of_true (fun _ => trivial) trivial)⟩
  | importNewVault jsonString now =>
    refine create_points _ _ h (fun v hv => ?_) ?_
    · unfold importNewVault at hv
      split at hv
      · cases hv
      · exact newVaultOf_active hv
    · unfold importNewVault
      cases prim.parseJson jsonString with
      | none => simp
      | some data => simp [newVaultOf_wellFormed_iff]
  | importEncryptedBlob blobString transferPassphrase now =>
    refine create_points _ _ h (fun v hv => ?_) ?_
    · unfold importEncryptedBlob at hv
      split at hv
      · cases hv
      · obtain ⟨data, -, hv⟩ := bind_eq_ok.mp hv
        exact newVaultOf_active hv
    · unfold importEncryptedBlob
      cases prim.parseJson blobString with
      | none => simp
      | some encrypted =>
        change (∀ v, (prim.decryptVault encrypted transferPassphrase >>= newVaultOf prim now) = .ok v → _) ↔ _
        cases hdata : prim.decryptVault encrypted transferPassphrase with
        | error e =>
          refine iff_of_true (fun v hv => by cases hv) fun encrypted' data hsome hok => ?_
          rw [← Option.some.inj hsome, hdata] at hok
          cases hok
        | ok data =>
          refine newVaultOf_wellFormed_iff.trans ⟨fun hdistinct encrypted' data' hsome hok => ?_,
            fun hall => hall _ _ rfl hdata⟩
          rw [← Option.some.inj hsome, hdata] at hok
          exact Except.ok.inj hok ▸ hdistinct
  | edit e => exact step_edit h
  | wipeVault =>
    have hstep : VaultOperation.wipeVault.step prim held = none := rfl
    rw [hstep]
    exact ⟨fun _ hv => (by cases hv), iff_of_true (fun _ hv => by cases hv) trivial⟩

/-- Operations that meet the condition leave a vault that points at an account. -/
theorem run_points {held after : Option Vault} {ops : List VaultOperation} (h : Points held)
    (hrun : Run (restrict (fun held op => op.Distinct prim held) (ofFun (fun held op => op.step prim held)))
      held ops after) : Points after := by
  refine hrun.invariant (I := Points) (fun held op after hheld hstep => ?_) h
  obtain ⟨hdistinct, rfl⟩ := hstep
  obtain ⟨hactive, hiff⟩ := step_points hheld
  exact fun v hv => ⟨hiff.mpr hdistinct v hv, hactive v hv⟩

end Kryptolog.Client
