import Kryptolog.Client.VaultService

/-! # The changes that the vault keeps

The changes that the service stored, one after another, make the stored vault of the one it began
with, and every operation that reports success is among them. This holds in the order in which the
operations began, of every run in which no operation seals a vault over a change that it has not
read, or that began after it. A run without that condition loses an account whose addition was
reported.
-/

namespace Kryptolog.Client
set_option autoImplicit false

open Script Runs Tasks

variable {prim : VaultPrimitives}

/-- What the changes make of a vault, one after another. -/
def replay (prim : VaultPrimitives) (saves : List (ℕ × VaultEdit)) (v : Vault) : Except String Vault :=
  saves.foldlM (fun v s => (s.2.change prim v).map Prod.fst) v

theorem replay_append {saves : List (ℕ × VaultEdit)} {i : ℕ} {edit : VaultEdit} {u v w : Vault}
    (h : replay prim saves u = .ok v) (hchange : edit.change prim v = .ok (w, true)) :
    replay prim (saves ++ [(i, edit)]) u = .ok w := by
  rw [replay] at h
  rw [replay, List.foldlM_append, h]
  simp only [bind, Except.bind, List.foldlM_cons, hchange, Except.map, List.foldlM_nil, pure, Except.pure]

/-- The changes that were stored, in the order in which their operations began, make the stored vault
out of the one at first. -/
structure Serial (prim : VaultPrimitives) (first : Vault) (c : Service) : Prop where
  replayed : ∃ blob, c.stored = some blob ∧ replay prim c.saves first = .ok blob.content
  ordered : c.saves.Pairwise (·.1 < ·.1)

/-- The operation `t` has reported that it changed the vault. -/
def Reported (t : VaultTask) (edit : VaultEdit) : Prop := t.point = .done (.edited edit)

/-- Every operation that reported success has its change in the stored vault. -/
structure KeepsEdits (prim : VaultPrimitives) (first : Vault) (s : State Service VaultTask) : Prop where
  serial : Serial prim first s.shared
  stored : ∀ i t edit, s.task i = some t → Reported t edit → (i, edit) ∈ s.shared.saves

/-! ## The condition -/

/-- The operation stores a changed vault on its next turn. -/
def VaultPoint.storesEdit : VaultPoint → Bool
  | .sealing (.edit _) _ _ _ | .rederiving (.edit _) _ _ _ => true
  | _ => false

/-- A changed vault is stored over the one it was made from, and over no change that began later. -/
def Unovertaken (c : Service) (t : VaultTask) : Prop :=
  t.point.storesEdit = true → c.saves.length = t.opened ∧ ∀ s ∈ c.saves, s.1 < t.caller.number

instance (c : Service) (t : VaultTask) : Decidable (Unovertaken c t) :=
  inferInstanceAs (Decidable (t.point.storesEdit = true →
    c.saves.length = t.opened ∧ ∀ s ∈ c.saves, s.1 < t.caller.number))

/-! ## What a turn does -/

/-- `v` is what `edit` makes of the stored vault. -/
def Derived (prim : VaultPrimitives) (c : Service) (edit : VaultEdit) (v : Vault) : Prop :=
  ∃ blob, c.stored = some blob ∧ edit.change prim blob.content = .ok (v, true)

/-- What the point of an operation says of the store, if nothing was stored since it read it. -/
def VaultPoint.Current (prim : VaultPrimitives) (c : Service) : VaultPoint → Prop
  | .opening _ _ blob _ | .derivingKey _ _ blob | .decrypting _ _ blob _ => c.stored = some blob
  | .loaded _ _ vault => ∃ blob, c.stored = some blob ∧ blob.content = vault
  | .changing edit _ _ vault | .sealing (.edit edit) vault _ _ | .sealingFresh (.edit edit) vault _ _
  | .rederiving (.edit edit) vault _ _ => Derived prim c edit vault
  | _ => True

/-- What the point says of the changes that were stored. -/
def VaultPoint.Stored (number : ℕ) (c : Service) : VaultPoint → Prop
  | .saved (.edit edit) _ | .done (.edited edit) => (number, edit) ∈ c.saves
  | .generating _ _ _ | .sealing .create _ _ _ | .sealingFresh .create _ _ _
  | .rederiving .create _ _ _ | .saved .create _ => False
  | _ => True

structure VaultFact (prim : VaultPrimitives) (c : Service) (i : ℕ) (t : VaultTask) : Prop where
  number : t.caller.number = i
  opened : t.opened ≤ c.saves.length
  current : c.saves.length = t.opened → t.point.Current prim c
  stored : t.point.Stored i c

/-- The same vault is stored, by the same changes. -/
def Kept (c d : Service) : Prop := d.stored = c.stored ∧ d.saves = c.saves

theorem Kept.refl (c : Service) : Kept c c := ⟨rfl, rfl⟩

theorem Kept.trans {c d e : Service} (h : Kept c d) (h' : Kept d e) : Kept c e :=
  ⟨h'.1.trans h.1, h'.2.trans h.2⟩

theorem kept_cacheKey (c : Service) (caller : Caller) (key : VaultKey) (kdf : Kdf) :
    Kept c (c.cacheKey caller key kdf) := by
  unfold Service.cacheKey
  split
  · exact .refl c
  · exact ⟨rfl, rfl⟩

theorem kept_setCacheTTL (c : Service) (ms : ℕ) : Kept c (c.setCacheTTL ms) := by
  unfold Service.setCacheTTL
  split <;> exact ⟨rfl, rfl⟩

theorem kept_beforeSave {c d : Service} {edit : VaultEdit} {before after : Vault}
    (h : beforeSave c edit before after = .ok d) : Kept c d := by
  unfold beforeSave at h
  split at h
  · split at h
    · split at h
      · cases h
      · cases h
        exact ⟨rfl, rfl⟩
    · cases h
      exact .refl c
  · cases h
    exact .refl c

theorem kept_afterSave {c d : Service} {edit : VaultEdit} {v : Vault}
    (h : afterSave c edit v = .ok d) : Kept c d := by
  unfold afterSave at h
  split at h
  · cases h
    exact ⟨rfl, rfl⟩
  · split at h
    · cases h
    · split at h <;> cases h <;> exact ⟨rfl, rfl⟩

theorem Derived.kept {c d : Service} {edit : VaultEdit} {v : Vault} (h : Derived prim c edit v)
    (hkept : Kept c d) : Derived prim d edit v := by
  obtain ⟨blob, hstored, hchange⟩ := h
  exact ⟨blob, hkept.1.trans hstored, hchange⟩

theorem VaultPoint.Current.kept {c d : Service} {p : VaultPoint} (h : p.Current prim c)
    (hkept : Kept c d) : p.Current prim d := by
  unfold VaultPoint.Current at h ⊢
  split at h
  case h_4 =>
    obtain ⟨blob, hstored, hcontent⟩ := h
    exact ⟨blob, hkept.1.trans hstored, hcontent⟩
  all_goals first | exact hkept.1.trans h | exact h.kept hkept | trivial

theorem VaultPoint.Stored.kept {number : ℕ} {c d : Service} {p : VaultPoint} (h : p.Stored number c)
    (hmem : ∀ s ∈ c.saves, s ∈ d.saves) : p.Stored number d := by
  unfold VaultPoint.Stored at h ⊢
  split at h <;> first | exact hmem _ h | exact h

theorem derivation_current {c : Service} {purpose : Purpose} {password : Option Text} {blob : Sealed}
    (h : c.stored = some blob) : (derivation purpose password blob).Current prim c := by
  unfold derivation
  split
  · trivial
  · exact h

theorem derivation_stored (i : ℕ) (c : Service) (purpose : Purpose) (password : Option Text)
    (blob : Sealed) : (derivation purpose password blob).Stored i c := by
  unfold derivation
  split <;> trivial

theorem getFullVault_current (c : Service) (purpose : Purpose) (password : Option Text) :
    (getFullVault c purpose password).Current prim c := by
  unfold getFullVault
  split
  · trivial
  · next blob hstored =>
    split
    · exact hstored
    · exact derivation_current hstored

theorem getFullVault_stored (i : ℕ) (c : Service) (purpose : Purpose) (password : Option Text) :
    (getFullVault c purpose password).Stored i c := by
  unfold getFullVault
  split
  · trivial
  · split
    · trivial
    · exact derivation_stored ..

theorem save_current {c : Service} {edit : VaultEdit} {v : Vault} (h : Derived prim c edit v)
    (password : Option Text) (newKdf : Kdf) :
    (save c (.edit edit) v password newKdf).Current prim c := by
  unfold save
  split
  · exact h
  · split
    · trivial
    · exact h

theorem save_stored (i : ℕ) (c : Service) (edit : VaultEdit) (v : Vault) (password : Option Text)
    (newKdf : Kdf) : (save c (.edit edit) v password newKdf).Stored i c := by
  unfold save
  split
  · trivial
  · split <;> trivial

/-- What a turn leads to that stores no changed vault. -/
structure Turn (prim : VaultPrimitives) (i : ℕ) (c d : Service) (p q : VaultPoint) : Prop where
  kept : Kept c d
  stored : q.Stored i d
  current : p.opensVault = true ∨ p.Current prim c → q.Current prim d

theorem Turn.fail (prim : VaultPrimitives) (i : ℕ) (c : Service) (p : VaultPoint) (message : String) :
    Turn prim i c c p (.done (.failed message)) := ⟨.refl c, trivial, fun _ => trivial⟩

theorem withFullVault_turn (prim : VaultPrimitives) (i : ℕ) (caller : Caller) (c : Service)
    (purpose : Purpose) (password : Option Text) (vault : Vault) :
    Turn prim i c (withFullVault prim caller c purpose password vault).1
      (.loaded purpose password vault) (withFullVault prim caller c purpose password vault).2 := by
  cases purpose with
  | edit edit newKdf =>
    cases hchange : edit.change prim vault with
    | error message =>
      simp only [withFullVault, hchange]
      exact .fail ..
    | ok out =>
      obtain ⟨changed, stores⟩ := out
      cases stores with
      | false =>
        simp only [withFullVault, hchange]
        exact ⟨.refl c, trivial, fun _ => trivial⟩
      | true =>
        cases hbefore : beforeSave c edit vault changed with
        | error message =>
          simp only [withFullVault, hchange, hbefore]
          exact .fail ..
        | ok c' =>
          have hkept : Kept c c' := kept_beforeSave hbefore
          have hderived (h : (VaultPoint.loaded (.edit edit newKdf) password vault).opensVault = true ∨
              (VaultPoint.loaded (.edit edit newKdf) password vault).Current prim c) :
              Derived prim c' edit changed := by
            rcases h with hopens | ⟨blob, hstored, rfl⟩
            · cases hopens
            · exact Derived.kept ⟨blob, hstored, hchange⟩ hkept
          simp only [withFullVault, hchange, hbefore]
          split
          · exact ⟨hkept, trivial, hderived⟩
          · exact ⟨hkept, save_stored .., fun h => save_current (hderived h) ..⟩
  | signMessage =>
    unfold withFullVault
    cases hfind : vault.accounts.find? fun a => some a.id == vault.activeAccountId with
    | none =>
      simp only
      exact .fail ..
    | some account =>
      simp only
      exact ⟨⟨rfl, rfl⟩, trivial, fun _ => trivial⟩
  | read => exact ⟨.refl c, trivial, fun _ => trivial⟩

theorem resume_turn {caller : Caller} {c d : Service} {p q : VaultPoint}
    (h : VaultPoint.resume prim caller c p = some (d, q)) (hstored : p.Stored caller.number c)
    (hstores : p.storesEdit = false) : Turn prim caller.number c d p q := by
  cases p with
  | decryptingBackup edit password newKdf =>
    cases h
    exact ⟨.refl c, getFullVault_stored .., fun _ => getFullVault_current ..⟩
  | checked password =>
    cases h
    exact ⟨.refl c, getFullVault_stored .., fun _ => getFullVault_current ..⟩
  | opening purpose password blob key =>
    have hcurrent (hc : (VaultPoint.opening purpose password blob key).opensVault = true ∨
        (VaultPoint.opening purpose password blob key).Current prim c) : c.stored = some blob := by
      rcases hc with hopens | hc
      · cases hopens
      · exact hc
    simp only [VaultPoint.resume] at h
    split at h <;> cases h
    · exact ⟨.refl c, trivial, fun hc => ⟨blob, hcurrent hc, rfl⟩⟩
    · exact ⟨⟨rfl, rfl⟩, derivation_stored .., fun hc => derivation_current (hcurrent hc)⟩
  | derivingKey purpose password blob =>
    cases h
    refine ⟨.refl c, trivial, ?_⟩
    rintro (hopens | hc)
    · cases hopens
    · exact hc
  | decrypting purpose password blob key =>
    simp only [VaultPoint.resume] at h
    split at h <;> cases h
    · refine ⟨kept_cacheKey .., trivial, ?_⟩
      rintro (hopens | hc)
      · cases hopens
      · exact ⟨blob, (kept_cacheKey ..).1.trans hc, rfl⟩
    · exact .fail ..
  | loaded purpose password vault =>
    have hturn := withFullVault_turn prim caller.number caller c purpose password vault
    rw [Option.some.inj h] at hturn
    exact hturn
  | changing edit password newKdf vault =>
    cases h
    refine ⟨.refl c, save_stored .., ?_⟩
    rintro (hopens | hc)
    · cases hopens
    · exact save_current hc ..
  | sealing saving vault key kdf =>
    cases saving with
    | edit => cases hstores
    | create => cases hstored
  | sealingFresh saving vault password kdf =>
    cases saving with
    | edit edit =>
      cases h
      refine ⟨.refl c, trivial, ?_⟩
      rintro (hopens | hc)
      · cases hopens
      · exact hc
    | create => cases hstored
  | rederiving saving vault password kdf =>
    cases saving with
    | edit => cases hstores
    | create => cases hstored
  | saved saving vault =>
    cases saving with
    | edit edit =>
      simp only [VaultPoint.resume] at h
      split at h
      · cases h
        exact .fail ..
      · next c' hafter =>
        cases h
        have hkept : Kept c d := kept_afterSave hafter
        refine ⟨hkept, ?_, fun _ => trivial⟩
        rw [VaultPoint.Stored, hkept.2]
        exact hstored
    | create => cases hstored
  | generating => cases hstored
  | derivingUnlock password blob | derivingCheck password blob | signing seed =>
    cases h
    exact ⟨.refl c, trivial, fun _ => trivial⟩
  | decryptingUnlock blob key =>
    simp only [VaultPoint.resume] at h
    split at h <;> cases h
    · exact ⟨(kept_cacheKey c caller key blob.kdf).trans ⟨rfl, rfl⟩, trivial, fun _ => trivial⟩
    · exact ⟨.refl c, trivial, fun _ => trivial⟩
  | decryptingCheck password blob key =>
    simp only [VaultPoint.resume] at h
    split at h <;> cases h <;> exact ⟨.refl c, trivial, fun _ => trivial⟩
  | done result => cases h

theorem resume_stores {caller : Caller} {c d : Service} {p q : VaultPoint}
    (h : VaultPoint.resume prim caller c p = some (d, q)) (hstores : p.storesEdit = true) :
    ∃ edit blob, d.stored = some blob ∧ d.saves = c.saves ++ [(caller.number, edit)] ∧
      q = .saved (.edit edit) blob.content ∧ (p.Current prim c → Derived prim c edit blob.content) := by
  unfold VaultPoint.storesEdit at hstores
  split at hstores
  · next edit vault key kdf =>
    cases h
    exact ⟨edit, ⟨kdf, key, vault⟩, rfl, rfl, rfl, id⟩
  · next edit vault password kdf =>
    cases h
    refine ⟨edit, ⟨kdf, prim.deriveKey password kdf, vault⟩, rfl, ?_, rfl, id⟩
    simp only [storeSealed, Service.store, (kept_cacheKey c caller (prim.deriveKey password kdf) kdf).2]
  · cases hstores

/-- What the first turn of an operation leads to. -/
structure Begun (prim : VaultPrimitives) (i : ℕ) (c : Service) (out : Service × VaultPoint) : Prop where
  kept : Kept c out.1
  stored : out.2.Stored i out.1
  current : out.2.Current prim out.1

theorem begun_getFullVault (prim : VaultPrimitives) (i : ℕ) (c : Service) (purpose : Purpose)
    (password : Option Text) : Begun prim i c (c, getFullVault c purpose password) :=
  ⟨.refl c, getFullVault_stored .., getFullVault_current ..⟩

/-- With a vault stored, none is created. -/
theorem begin_begun (i : ℕ) {c : Service} (h : c.stored.isSome = true) (call : VaultCall) :
    Begun prim i c (VaultCall.begin prim c call) := by
  unfold VaultCall.begin
  cases call with
  | edit edit password newKdf =>
    simp only
    split
    · exact ⟨.refl c, trivial, trivial⟩
    · split
      · exact ⟨.refl c, trivial, trivial⟩
      · exact begun_getFullVault ..
  | create vault password newKdf generates =>
    simp only [h, if_true]
    exact ⟨.refl c, trivial, trivial⟩
  | unlock password =>
    simp only
    split <;> exact ⟨.refl c, trivial, trivial⟩
  | signMessage password =>
    simp only
    split
    · exact ⟨.refl c, trivial, trivial⟩
    · split
      · exact ⟨.refl c, trivial, trivial⟩
      · exact begun_getFullVault ..
  | read password =>
    simp only
    split
    · exact ⟨.refl c, trivial, trivial⟩
    · exact begun_getFullVault ..
  | enableBiometrics password =>
    simp only
    split <;> exact ⟨.refl c, trivial, trivial⟩
  | lock | clearKeyCache => exact ⟨⟨rfl, rfl⟩, trivial, trivial⟩
  | setCacheTTL ms => exact ⟨kept_setCacheTTL c ms, trivial, trivial⟩

/-! ## Runs -/

/-- The changes that were stored so far are those of the operations that began so far. -/
def VaultInv (prim : VaultPrimitives) (first : Vault) (n : ℕ) (c : Service) : Prop :=
  Serial prim first c ∧ ∀ s ∈ c.saves, s.1 < n

theorem Serial.kept {first : Vault} {c d : Service} (h : Serial prim first c) (hkept : Kept c d) :
    Serial prim first d where
  replayed := by
    rw [hkept.1, hkept.2]
    exact h.replayed
  ordered := by
    rw [hkept.2]
    exact h.ordered

theorem VaultFact.kept {c d : Service} {i : ℕ} {t : VaultTask} (h : VaultFact prim c i t)
    (hkept : Kept c d) : VaultFact prim d i t where
  number := h.number
  opened := hkept.2 ▸ h.opened
  current hlength := (h.current (hkept.2 ▸ hlength)).kept hkept
  stored := h.stored.kept fun _ hs => hkept.2 ▸ hs

/-- The stored vault of an operation is no longer the one that another has read. -/
theorem VaultFact.overtaken {c d : Service} {i j : ℕ} {edit : VaultEdit} {t : VaultTask}
    (h : VaultFact prim c j t) (hsaves : d.saves = c.saves ++ [(i, edit)]) : VaultFact prim d j t where
  number := h.number
  opened := by
    rw [hsaves, List.length_append]
    exact h.opened.trans (Nat.le_add_right ..)
  current hlength := by
    rw [hsaves, List.length_append, List.length_singleton] at hlength
    have := h.opened
    omega
  stored := h.stored.kept fun _ hs => hsaves ▸ List.mem_append_left _ hs

theorem vault_rule (prim : VaultPrimitives) (first : Vault) :
    Rule (vaultService prim) (VaultInv prim first) (VaultFact prim) (fun _ _ => True) Unovertaken where
  call n c call hinv _ := by
    obtain ⟨hserial, hnumbers⟩ := hinv
    have hsome : c.stored.isSome = true := by
      obtain ⟨blob, hstored, -⟩ := hserial.replayed
      rw [hstored]
      rfl
    obtain ⟨hkept, hstored, hcurrent⟩ := begin_begun n hsome call
    refine ⟨⟨hserial.kept hkept, fun s hs => ?_⟩, ⟨rfl, ?_, fun _ => hcurrent, hstored⟩,
      fun j q _ hq => hq.kept hkept⟩
    · exact (hnumbers s (hkept.2 ▸ hs)).trans (Nat.lt_succ_self n)
    · exact Nat.le_of_eq (congrArg List.length hkept.2.symm)
  resume n c i t d q hinv hlt hfact hready h := by
    obtain ⟨hserial, hnumbers⟩ := hinv
    obtain ⟨⟨d', p⟩, hresume, heq⟩ := Option.map_eq_some_iff.mp h
    cases heq
    obtain ⟨caller, opened, point⟩ := t
    obtain rfl : caller.number = i := hfact.number
    cases hstores : point.storesEdit with
    | false =>
      have hturn := resume_turn hresume hfact.stored hstores
      refine ⟨⟨hserial.kept hturn.kept, fun s hs => hnumbers s (hturn.kept.2 ▸ hs)⟩,
        ⟨rfl, ?_, fun hlength => hturn.current ?_, hturn.stored⟩, fun j r _ hr => hr.kept hturn.kept⟩
      · simp only [hturn.kept.2]
        split
        · exact Nat.le_refl _
        · exact hfact.opened
      · simp only [hturn.kept.2] at hlength
        by_cases hopens : point.opensVault = true
        · exact .inl hopens
        · rw [if_neg hopens] at hlength
          exact .inr (hfact.current hlength)
    | true =>
      obtain ⟨hlength, hlater⟩ := hready hstores
      obtain ⟨edit, blob, hstored, hsaves, rfl, hderived⟩ := resume_stores hresume hstores
      obtain ⟨before, hbefore, hchange⟩ := hderived (hfact.current hlength)
      obtain ⟨blob₀, hblob₀, hreplay⟩ := hserial.replayed
      obtain rfl : before = blob₀ := Option.some.inj (hbefore.symm.trans hblob₀)
      refine ⟨⟨⟨⟨blob, hstored, ?_⟩, ?_⟩, ?_⟩, ⟨rfl, ?_, fun _ => trivial, ?_⟩,
        fun j r _ hr => hr.overtaken hsaves⟩
      · rw [hsaves]
        exact replay_append hreplay hchange
      · rw [hsaves, List.pairwise_append]
        refine ⟨hserial.ordered, List.pairwise_singleton .., fun s hs u hu => ?_⟩
        obtain rfl := List.mem_singleton.mp hu
        exact hlater s hs
      · intro s hs
        rw [hsaves] at hs
        rcases List.mem_append.mp hs with hs | hs
        · exact hnumbers s hs
        · obtain rfl := List.mem_singleton.mp hs
          exact hlt
      · have hopened : point.opensVault = false := by
          cases point <;> first | rfl | cases hstores
        simp only [hopened, hsaves, List.length_append]
        exact hfact.opened.trans (Nat.le_add_right ..)
      · rw [VaultPoint.Stored, hsaves]
        exact List.mem_append_right _ List.mem_cons_self
  restart n c hinv := ⟨hinv.1.kept ⟨rfl, rfl⟩, hinv.2⟩

/-- A service that has stored nothing yet, over the vault `blob`. -/
structure Service.Fresh (c : Service) (blob : Sealed) : Prop where
  stored : c.stored = some blob
  saves : c.saves = []

/-- Where no operation stores over a change that it has not read, or that began after it, every
operation that reports success has its change in the stored vault. -/
theorem run_keepsEdits {c : Service} {blob : Sealed} (hfresh : c.Fresh blob)
    {as : List (Action VaultCall)} {s : State Service VaultTask}
    (hrun : Run (restrict (Prepared (fun _ _ => True) Unovertaken) (ofPartial (vaultService prim).step))
      (.start c) as s) : KeepsEdits prim blob.content s := by
  have hinv : VaultInv prim blob.content 0 c := by
    refine ⟨⟨⟨blob, hfresh.stored, ?_⟩, ?_⟩, ?_⟩ <;> rw [hfresh.saves]
    · rfl
    · exact .nil
    · intro s hs
      cases hs
  have h := (vault_rule prim blob.content).run_holds hrun (.start hinv)
  refine ⟨h.shared.1, fun i t edit ht hreported => ?_⟩
  have hstored := (h.tasks i t ht).stored
  rw [hreported] at hstored
  exact hstored

/-! ## Two additions that overlap -/

def sampleVaultPrimitives : VaultPrimitives where
  toBackupPrimitives := sampleBackup "old" []
  suites := sampleSuites
  deriveKey password kdf := password ++ kdf

def sampleKey : VaultKey := lit "password"

/-- Unlocked, with the key of the stored vault cached. -/
def sampleService : Service where
  stored := some ⟨[], sampleKey, sampleVault "old" []⟩
  vault := some (sampleVault "old" []).sanitize
  isLocked := false
  cachedKey := some (sampleKey, [])
  signingKey := none
  cacheTTL := 1
  saves := []
  locks := 0
  clears := 0
  since := ⟨⟨0, true, 0, 0⟩, ⟨0, true, 0, 0⟩, ⟨0, true, 0, 0⟩⟩

def otherAccount (name : String) : Account := { sampleAccount name [] with id := lit name }

def addition (name : String) : Action VaultCall := .call (.edit (.addAccount (otherAccount name)) none [])

/-- From the stored vault to the report of success. -/
def turns (i : ℕ) : List (Action VaultCall) := List.replicate 5 (.resume i)

def overlappingAdditions : List (Action VaultCall) :=
  addition "bob" :: addition "carol" :: (turns 0 ++ turns 1)

/-- Both additions report success, and the stored vault has the second account only. -/
theorem not_run_keepsEdits : ∃ s,
    Run (ofPartial (vaultService sampleVaultPrimitives).step) (.start sampleService)
      overlappingAdditions s ∧
    (∃ t, s.task 0 = some t ∧ Reported t (.addAccount (otherAccount "bob"))) ∧
    (∃ t, s.task 1 = some t ∧ Reported t (.addAccount (otherAccount "carol"))) ∧
    s.shared.stored.map (·.content.accounts) =
      some [sampleAccount "old" [], otherAccount "carol"] ∧
    ¬ KeepsEdits sampleVaultPrimitives (sampleVault "old" []) s := by
  refine ⟨_, Run.ofPartial_foldlM _ _ _ _ rfl, ⟨_, rfl, rfl⟩, ⟨_, rfl, rfl⟩, rfl, fun h => ?_⟩
  obtain ⟨blob, hstored, hreplay⟩ := h.serial.replayed
  obtain rfl := Option.some.inj hstored
  have hthree : (replay sampleVaultPrimitives [(0, .addAccount (otherAccount "bob")),
      (1, .addAccount (otherAccount "carol"))] (sampleVault "old" [])).map (·.accounts.length) =
      .ok 3 := rfl
  have htwo := hthree.symm.trans (congrArg (Except.map (·.accounts.length)) hreplay)
  cases htwo

def sequentialAdditions : List (Action VaultCall) :=
  addition "bob" :: (turns 0 ++ addition "carol" :: turns 1)

/-- `Prepared` for the runs of the samples. -/
def storesOverRead (s : State Service VaultTask) : Action VaultCall → Bool
  | .resume i => (s.task i).all fun t => decide (Unovertaken s.shared t)
  | _ => true

theorem prepared_of_storesOverRead {s : State Service VaultTask} {a : Action VaultCall}
    (h : storesOverRead s a = true) : Prepared (fun _ _ => True) Unovertaken s a := by
  cases a with
  | call r => trivial
  | resume i =>
    intro t ht
    rw [storesOverRead, ht, Option.all_some] at h
    exact of_decide_eq_true h
  | restart => trivial

/-- Two additions, one after the other, are both in the stored vault. -/
theorem run_keepsEdits_sample : ∃ s,
    Run (restrict (Prepared (fun _ _ => True) Unovertaken)
      (ofPartial (vaultService sampleVaultPrimitives).step)) (.start sampleService)
      sequentialAdditions s ∧
    s.shared.stored.map (·.content.accounts) =
      some [sampleAccount "old" [], otherAccount "bob", otherAccount "carol"] ∧
    KeepsEdits sampleVaultPrimitives (sampleVault "old" []) s := by
  have hrun : Run (restrict (Prepared (fun _ _ => True) Unovertaken)
      (ofPartial (vaultService sampleVaultPrimitives).step)) (.start sampleService)
      sequentialAdditions _ :=
    Run.restrict_foldlM _ (fun _ _ => prepared_of_storesOverRead) _ _ _ rfl
  have hfresh : sampleService.Fresh ⟨[], sampleKey, sampleVault "old" []⟩ := ⟨rfl, rfl⟩
  exact ⟨_, hrun, rfl, run_keepsEdits hfresh hrun⟩

end Kryptolog.Client
