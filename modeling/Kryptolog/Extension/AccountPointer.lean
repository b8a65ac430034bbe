import Kryptolog.Client.AccountPointer
import Kryptolog.Extension.Worker

/-! # The accounts of the extension's vault, and the one that is active

The account operations of the background one after another, on the vault in memory and the one in
storage. A change is made in memory first, and saving it may fail. A vault that is locked while a
backup is decrypted is replaced by the backup.
-/

namespace Kryptolog.Extension
set_option autoImplicit false

open Script Fallible Runs
open Client (Account given)

/-- A change of the vault in memory: none where the operation is refused. -/
inductive AccountOperation
  /-- With the account that `generateAccount` returns. -/
  | createAccount (account : Account)
  | setActiveAccount (id : Text)
  | deleteAccount (id : Text)
  /-- Once the backup is decrypted. -/
  | importVault (data : Value) (now : Number)

structure HeldVaults where
  memory : Option ExtensionVault
  stored : Option ExtensionVault

inductive VaultOperation
  | setupPassword (saves : Bool)
  | change (op : AccountOperation) (saves : Bool)
  | lock
  | unlock

variable (prim : ExtensionPrimitives)

def AccountOperation.perform (memory : Option ExtensionVault) : AccountOperation → Option ExtensionVault
  | createAccount account => memory.map fun v => v.addAccount account
  | setActiveAccount id => memory.map fun v => { v with activeAccountId := some id }
  | deleteAccount id => memory.bind fun v => v.deleteAccount id
  | importVault data now =>
    match readBackup prim now data with
    | .error _ => none
    | .ok imported =>
      match memory with
      | none => some imported
      | some v => some (v.addImported imported.accounts)

def HeldVaults.hold (held : HeldVaults) (v : ExtensionVault) (saves : Bool) : HeldVaults :=
  ⟨some v, if saves then some v else held.stored⟩

def VaultOperation.step (held : HeldVaults) : VaultOperation → HeldVaults
  | setupPassword saves => if held.stored.isSome then held else held.hold .empty saves
  | change op saves =>
    match op.perform prim held.memory with
    | none => held
    | some v => held.hold v saves
  | lock => { held with memory := none }
  | unlock => { held with memory := held.stored }

/-- The ids are distinct, and the active account is held. -/
def ExtensionVault.WellFormed (v : ExtensionVault) : Prop :=
  Pointed.WellFormed (·.id) v.accounts v.activeAccountId

def HeldVaults.WellFormed (held : HeldVaults) : Prop :=
  ∀ v, held.memory = some v ∨ held.stored = some v → v.WellFormed

/-- What an import adds to a vault: accounts with distinct ids, and none where the vault is empty. -/
structure ExtensionVault.Admits (v : ExtensionVault) (imported : List Account) : Prop where
  distinct : ((imported.filter fun acc => !(v.accounts.map (·.id)).contains acc.id).map (·.id)).Nodup
  active : v.accounts = [] → imported = []

/-- The condition. -/
def AccountOperation.Sound (memory : Option ExtensionVault) : AccountOperation → Prop
  | createAccount account => ∀ v, memory = some v → account.id ∉ v.accounts.map (·.id)
  | setActiveAccount id => ∀ v, memory = some v → id ∈ v.accounts.map (·.id)
  | deleteAccount _ => True
  | importVault data now => ∀ imported, readBackup prim now data = .ok imported →
      (∀ v, memory = some v → v.Admits imported.accounts) ∧ (memory = none → imported.WellFormed)

def VaultOperation.Sound (held : HeldVaults) : VaultOperation → Prop
  | change op _ => op.Sound prim held.memory
  | _ => True

/-! ## What an operation leaves -/

variable {prim}

theorem addAccount_wellFormed_iff {v : ExtensionVault} {account : Account} (h : v.WellFormed) :
    (v.addAccount account).WellFormed ↔ account.id ∉ v.accounts.map (·.id) := by
  have hactive : ∃ id, (given v.activeAccountId).or (some account.id) = some id ∧
      (id ∈ v.accounts.map (·.id) ∨ id = account.id) := by
    cases hgiven : given v.activeAccountId with
    | none => exact ⟨account.id, rfl, .inr rfl⟩
    | some id => exact ⟨id, rfl, .inl (h.held id (Option.filter_eq_some_iff.mp hgiven).1)⟩
  obtain ⟨id, hid, hheld⟩ := hactive
  have hpush := Pointed.push_iff (a := account) h.distinct hheld
  rw [← hid] at hpush
  exact hpush

theorem deleteAccount_wellFormed {v w : ExtensionVault} {id : Text} (h : v.WellFormed)
    (hw : v.deleteAccount id = some w) : w.WellFormed := by
  obtain ⟨i, hi, rfl⟩ := Option.map_eq_some_iff.mp hw
  have herase : v.accounts.eraseIdx i = v.accounts.eraseP (·.id == id) := by
    rw [List.eraseP_eq_eraseIdx, hi]
  have hsub : (v.accounts.eraseIdx i).Sublist v.accounts := List.eraseIdx_sublist _ _
  have hdistinct := h.distinct.sublist (hsub.map (·.id))
  unfold ExtensionVault.WellFormed
  by_cases hactive : v.activeAccountId = some id
  · simp only [if_pos hactive]
    exact Pointed.wellFormed_head hdistinct
  · simp only [if_neg hactive]
    refine h.sublist hsub fun a ha hid => ?_
    rw [herase, List.mem_eraseP_of_neg]
    · exact ha
    · rw [beq_iff_eq]
      rintro rfl
      exact hactive hid

theorem addImported_wellFormed_iff {v : ExtensionVault} {imported : List Account} (h : v.WellFormed) :
    (v.addImported imported).WellFormed ↔ v.Admits imported := by
  refine (Pointed.WellFormed.append_iff h).trans ?_
  constructor
  · rintro ⟨hdistinct, -, hactive⟩
    refine ⟨hdistinct, fun hnil => ?_⟩
    have hnone := hactive hnil
    rw [hnil] at hnone
    simpa using hnone
  · rintro ⟨hdistinct, hactive⟩
    refine ⟨hdistinct, fun a ha => ?_, fun hnil => ?_⟩
    · simpa using (List.mem_filter.mp ha).2
    · rw [hactive hnil]
      rfl

theorem perform_wellFormed_iff {memory : Option ExtensionVault} {op : AccountOperation}
    (h : ∀ v, memory = some v → v.WellFormed) :
    (∀ w, op.perform prim memory = some w → w.WellFormed) ↔ op.Sound prim memory := by
  cases op with
  | createAccount account =>
    cases memory with
    | none => simp [AccountOperation.perform, AccountOperation.Sound]
    | some v =>
      simp only [AccountOperation.perform, AccountOperation.Sound, Option.map_some, Option.some.injEq, forall_eq']
      exact addAccount_wellFormed_iff (h v rfl)
  | setActiveAccount id =>
    cases memory with
    | none => simp [AccountOperation.perform, AccountOperation.Sound]
    | some v =>
      simp only [AccountOperation.perform, AccountOperation.Sound, Option.map_some, Option.some.injEq, forall_eq']
      exact Pointed.wellFormed_some.trans (and_iff_right (h v rfl).distinct)
  | deleteAccount id =>
    refine iff_of_true (fun w hw => ?_) trivial
    obtain ⟨v, hv, hw⟩ := Option.bind_eq_some_iff.mp hw
    exact deleteAccount_wellFormed (h v hv) hw
  | importVault data now =>
    simp only [AccountOperation.perform, AccountOperation.Sound]
    cases readBackup prim now data with
    | error e => exact iff_of_true (fun w hw => by cases hw) fun imported hok => by cases hok
    | ok imported =>
      cases memory with
      | none => simp
      | some v => simp [addImported_wellFormed_iff (h v rfl)]

theorem hold_wellFormed_iff {held : HeldVaults} {v : ExtensionVault} {saves : Bool} (h : held.WellFormed) :
    (held.hold v saves).WellFormed ↔ v.WellFormed := by
  constructor
  · intro hall
    exact hall v (.inl rfl)
  · rintro hv w (hw | hw)
    · exact Option.some.inj hw ▸ hv
    · cases saves with
      | false => exact h w (.inr hw)
      | true => exact Option.some.inj hw ▸ hv

theorem step_wellFormed_iff {held : HeldVaults} {op : VaultOperation} (h : held.WellFormed) :
    (op.step prim held).WellFormed ↔ op.Sound prim held := by
  cases op with
  | setupPassword saves =>
    have hempty : ExtensionVault.empty.WellFormed := Pointed.wellFormed_none.mpr rfl
    refine iff_of_true ?_ trivial
    simp only [VaultOperation.step]
    split
    · exact h
    · exact (hold_wellFormed_iff h).mpr hempty
  | change op saves =>
    refine Iff.trans ?_ (perform_wellFormed_iff fun v hv => h v (.inl hv))
    simp only [VaultOperation.step]
    cases op.perform prim held.memory with
    | none => exact iff_of_true h fun w hw => by cases hw
    | some v =>
      simp only [Option.some.injEq, forall_eq']
      exact hold_wellFormed_iff h
  | lock =>
    refine iff_of_true (fun v hv => ?_) trivial
    rcases hv with hnone | hv
    · cases hnone
    · exact h v (.inr hv)
  | unlock => exact iff_of_true (fun v hv => h v (.inr (or_self_iff.mp hv))) trivial

theorem run_wellFormed {held after : HeldVaults} {ops : List VaultOperation} (h : held.WellFormed)
    (hrun : Run (restrict (fun held op => op.Sound prim held) (ofFun (fun held op => op.step prim held)))
      held ops after) : after.WellFormed := by
  refine hrun.invariant (I := HeldVaults.WellFormed) (fun held op after hheld hstep => ?_) h
  obtain ⟨hsound, rfl⟩ := hstep
  exact (step_wellFormed_iff hheld).mpr hsound

/-! ## Both vaults -/

/-- A vault is well-formed after operations that meet the condition, and after the next one exactly where
it meets the condition. -/
theorem vaults_are_well_formed (prim : ExtensionPrimitives) :
    (∀ ops held, Run (restrict (fun held op => op.Distinct prim.toVaultPrimitives held)
        (ofFun (fun held op => Client.VaultOperation.step prim.toVaultPrimitives held op))) none ops held →
      (∀ v, held = some v → v.WellFormed) ∧
        ∀ op : Client.VaultOperation, (∀ v, op.step prim.toVaultPrimitives held = some v → v.WellFormed) ↔
          op.Distinct prim.toVaultPrimitives held) ∧
    ∀ ops held, Run (restrict (fun held op => op.Sound prim held)
        (ofFun (fun held op => VaultOperation.step prim held op))) ⟨none, none⟩ ops held →
      held.WellFormed ∧ ∀ op : VaultOperation, (op.step prim held).WellFormed ↔ op.Sound prim held := by
  constructor
  · intro ops held hrun
    have hpoints : Client.Points held := Client.run_points (fun v hv => by cases hv) hrun
    exact ⟨fun v hv => (hpoints v hv).wellFormed, fun op => (Client.step_points hpoints).2⟩
  · intro ops held hrun
    have hheld : held.WellFormed := by
      refine run_wellFormed (fun v hv => ?_) hrun
      rcases hv with hv | hv
      · cases hv
      · cases hv
    exact ⟨hheld, fun op => step_wellFormed_iff hheld⟩

/-! ## A backup with one account twice -/

/-- A file is read as a backup with these accounts, whatever it says. -/
def backupPrimitives (backup : Value) : ExtensionPrimitives :=
  { samplePrimitives with parseJson := fun _ => some backup }

def sampleFile (accounts : List Value) : Value := .obj [(lit "accounts", .arr accounts)]

theorem twice_not_wellFormed : ¬ Client.Vault.WellFormed
    ⟨[Client.sampleAccount "key" [], Client.sampleAccount "key" []], some (Client.sampleAccount "key" []).id⟩ := by
  intro h
  have hdistinct := h.distinct
  rw [List.map_cons, List.nodup_cons] at hdistinct
  exact hdistinct.1 List.mem_cons_self

/-- An account that is in a backup twice is in the new vault twice, and an extension that holds no account
has no active one after an import. -/
theorem not_vaults_are_well_formed :
    (∃ v, Run (ofFun (fun held op => Client.VaultOperation.step
        (backupPrimitives (sampleFile (List.replicate 2 (Client.sampleRecord "key" [])))).toVaultPrimitives held op))
        none [.importNewVault [] Client.Number.zero] (some v) ∧ ¬ v.WellFormed) ∧
    ∃ held, Run (ofFun (fun held op => VaultOperation.step samplePrimitives held op)) ⟨none, none⟩
      [.setupPassword true,
        .change (.importVault (sampleFile [Client.sampleRecord "key" []]) Client.Number.zero) true] held ∧
      ¬ held.WellFormed := by
  constructor
  · refine ⟨_, .single ?_, twice_not_wellFormed⟩
    rfl
  · refine ⟨_, .cons rfl (.single rfl), fun h => ?_⟩
    have hmemory : Pointed.WellFormed (·.id) [Client.sampleAccount "key" []] none := h _ (.inl rfl)
    cases Pointed.wellFormed_none.mp hmemory

def sampleOther : Account := { Client.sampleAccount "key" [] with id := lit "other" }

def sampleOperations : List Client.VaultOperation :=
  [.setup (Client.sampleAccount "key" []), .edit (.addAccount sampleOther),
    .edit (.deleteAccount (Client.sampleAccount "key" []).id)]

def sampleChanges : List VaultOperation :=
  [.setupPassword true, .change (.createAccount sampleOther) true,
    .change (.setActiveAccount (lit "other")) true, .change (.deleteAccount (lit "other")) false]

/-- The active account is deleted, and the other one becomes active. -/
theorem vaults_are_well_formed_sample :
    Client.Vault.WellFormed ⟨[sampleOther], some (lit "other")⟩ ∧
      HeldVaults.WellFormed ⟨some .empty, some ⟨[sampleOther], some (lit "other"), [], []⟩⟩ := by
  have hsound := vaults_are_well_formed samplePrimitives
  constructor
  · refine (hsound.1 sampleOperations _ (.cons ⟨trivial, rfl⟩ (.cons ⟨?_, rfl⟩ (.single ⟨?_, rfl⟩)))).1 _ rfl
    · intro v hv
      obtain rfl := Option.some.inj hv
      have hnew : lit "other" ∉ [(Client.sampleAccount "key" []).id] := by decide
      exact hnew
    · exact fun _ _ => trivial
  · refine (hsound.2 sampleChanges _ (.cons ⟨trivial, rfl⟩ (.cons ⟨?_, rfl⟩ (.cons ⟨?_, rfl⟩
      (.single ⟨trivial, rfl⟩))))).1
    · intro v hv
      obtain rfl := Option.some.inj hv
      exact List.not_mem_nil
    · intro v hv
      obtain rfl := Option.some.inj hv
      exact List.mem_cons_self

end Kryptolog.Extension
