import Kryptolog.Extension.Turns

/-! # The keys that the extension stores

A key that is in the stored vault stays in every vault that is stored later, until a vault is stored
by a deletion of its account, or a destruction of exactly this key. This holds of the runs in which
the sealed vaults are stored in the order in which they were sealed, no removal fails to be stored,
and no lock comes between what an operation reads and what it stores or opens.
-/

namespace Kryptolog.Extension
set_option autoImplicit false

open Script Runs Tasks
open Client (Kdf VaultKey)

variable {prim : ExtensionPrimitives}

/-! ## Sealed vaults -/

def keysOf (content : Option ExtensionVault) : List HeldKey :=
  (content.map ExtensionVault.heldKeys).getD []

/-- The keys of the stored vault. -/
def Background.storedKeys (c : Background) : List HeldKey := keysOf (c.vaultData.bind (·.content))

/-- Every sealed vault has the keys of the one before it, but for what its operation took out. -/
def Linked : List HeldKey → List Sealing → Prop
  | _, [] => True
  | u, x :: L => Covers x.removes u (keysOf x.content) ∧ Linked (keysOf x.content) L

/-- The keys of the vault that was sealed last. -/
def latest : List HeldKey → List Sealing → List HeldKey
  | u, [] => u
  | _, x :: L => latest (keysOf x.content) L

def Background.latestKeys (c : Background) : List HeldKey := latest c.storedKeys c.sealings

theorem Covers.trans {removes : Option Removal} {u v w : List HeldKey} (h : Covers none u v)
    (h' : Covers removes v w) : Covers removes u w := by
  intro k hk
  rcases h k hk with hv | hnone
  · exact h' k hv
  · cases hnone

theorem Linked.covered {u v : List HeldKey} {L : List Sealing} (h : Linked v L) (huv : Covers none u v) :
    Linked u L := by
  cases L with
  | nil => trivial
  | cons x L => exact ⟨huv.trans h.1, h.2⟩

theorem latest_covered {u v : List HeldKey} (L : List Sealing) (huv : Covers none u v) :
    Covers none (latest u L) (latest v L) := by
  cases L with
  | nil => exact huv
  | cons x L => exact .refl none _

theorem latest_append (u : List HeldKey) (L : List Sealing) (x : Sealing) :
    latest u (L ++ [x]) = keysOf x.content := by
  induction L generalizing u with
  | nil => rfl
  | cons y L ih => exact ih _

theorem Linked.append {u : List HeldKey} {L : List Sealing} {x : Sealing} (h : Linked u L)
    (hx : Covers x.removes (latest u L) (keysOf x.content)) : Linked u (L ++ [x]) := by
  induction L generalizing u with
  | nil => exact ⟨hx, trivial⟩
  | cons y L ih => exact ⟨h.1, ih h.2 hx⟩

/-- A vault that took nothing out may be left out. -/
theorem Linked.filter {u : List HeldKey} {L : List Sealing} {p : Sealing → Bool} (h : Linked u L)
    (hp : ∀ x ∈ L, p x = false → x.removes = none) :
    Linked u (L.filter p) ∧ Covers none (latest u (L.filter p)) (latest u L) := by
  induction L generalizing u with
  | nil => exact ⟨trivial, .refl none _⟩
  | cons x L ih =>
    obtain ⟨hlinked, hcovers⟩ := ih h.2 fun y hy => hp y (List.mem_cons_of_mem _ hy)
    cases hx : p x with
    | true =>
      rw [List.filter_cons_of_pos hx]
      exact ⟨⟨h.1, hlinked⟩, hcovers⟩
    | false =>
      rw [List.filter_cons_of_neg (by rw [hx]; exact Bool.false_ne_true)]
      have hux : Covers none u (keysOf x.content) := hp x List.mem_cons_self hx ▸ h.1
      exact ⟨hlinked.covered hux, (latest_covered _ hux).trans hcovers⟩

/-! ## The invariant -/

/-- What is sealed, and what is in memory, has the keys that are stored. -/
structure Durable (n : ℕ) (c : Background) : Prop where
  linked : Linked c.storedKeys c.sealings
  memory : ∀ v, c.vault = some v → Covers none c.latestKeys v.heldKeys
  contents : ∀ x ∈ c.sealings, x.content.isSome = true
  stored : ∀ blob, c.vaultData = some blob → blob.content.isSome = true
  owners : (c.sealings.map (·.owner)).Nodup
  numbered : ∀ x ∈ c.sealings, x.owner < n

/-- The vault that waits to be stored. -/
def Point.sealed? : Point → Option StoredVault
  | .sealing _ sealed _ _ => some sealed
  | _ => none

/-- What a task has sealed is what it stores on its next turn. -/
def SealsAt (c : Background) (i : ℕ) (p : Point) : Prop :=
  ∀ x ∈ c.sealings, x.owner = i → ∃ blob, p.sealed? = some blob ∧ x.content = blob.content

/-- Every key that was stored is stored, or was taken out by a vault that was stored since. -/
structure Keeps (c d : Background) : Prop where
  stored : c.stored <+: d.stored
  keys : ∀ k ∈ c.storedKeys, k ∈ d.storedKeys ∨
    ∃ x ∈ d.stored.drop c.stored.length, x.removes.any (·.takes k) = true
  vaultData : c.vaultData.isSome = true → d.vaultData.isSome = true

theorem Keeps.refl (c : Background) : Keeps c c := ⟨List.prefix_rfl, fun _ hk => .inl hk, id⟩

theorem Keeps.trans {c d e : Background} (h : Keeps c d) (h' : Keeps d e) : Keeps c e where
  stored := h.stored.trans h'.stored
  keys k hk := by
    rcases h.keys k hk with hd | ⟨x, hx, htakes⟩
    · rcases h'.keys k hd with he | ⟨x, hx, htakes⟩
      · exact .inl he
      · exact .inr ⟨x, (List.drop_sublist_drop_left _ h.stored.length_le).subset hx, htakes⟩
    · exact .inr ⟨x, (h'.stored.drop _).subset hx, htakes⟩
  vaultData hsome := h'.vaultData (h.vaultData hsome)

/-- What is stored and sealed stays as it is, and the vault in memory keeps its keys. -/
structure Quiet (c d : Background) : Prop where
  vaultData : d.vaultData = c.vaultData
  sealings : d.sealings = c.sealings
  stored : d.stored = c.stored
  vault : ∀ w, d.vault = some w → ∃ v, c.vault = some v ∧ Covers none v.heldKeys w.heldKeys

theorem Quiet.same {c d : Background} (hdata : d.vaultData = c.vaultData)
    (hsealings : d.sealings = c.sealings) (hstored : d.stored = c.stored) (hvault : d.vault = c.vault) :
    Quiet c d :=
  ⟨hdata, hsealings, hstored, fun w hw => ⟨w, hvault ▸ hw, .refl none _⟩⟩

theorem Quiet.refl (c : Background) : Quiet c c := .same rfl rfl rfl rfl

theorem Quiet.trans {c d e : Background} (h : Quiet c d) (h' : Quiet d e) : Quiet c e where
  vaultData := h'.vaultData.trans h.vaultData
  sealings := h'.sealings.trans h.sealings
  stored := h'.stored.trans h.stored
  vault w hw := by
    obtain ⟨v, hv, hvw⟩ := h'.vault w hw
    obtain ⟨u, hu, huv⟩ := h.vault v hv
    exact ⟨u, hu, huv.trans hvw⟩

theorem Quiet.latestKeys {c d : Background} (h : Quiet c d) : d.latestKeys = c.latestKeys := by
  rw [Background.latestKeys, Background.latestKeys, Background.storedKeys, h.vaultData, h.sealings]
  rfl

theorem Durable.quiet {n : ℕ} {c d : Background} (hc : Durable n c) (h : Quiet c d) : Durable n d where
  linked := by
    rw [Background.storedKeys, h.vaultData, h.sealings]
    exact hc.linked
  memory w hw := by
    obtain ⟨v, hv, hcovers⟩ := h.vault w hw
    rw [h.latestKeys]
    exact (hc.memory v hv).trans hcovers
  contents := by
    rw [h.sealings]
    exact hc.contents
  stored := by
    rw [h.vaultData]
    exact hc.stored
  owners := by
    rw [h.sealings]
    exact hc.owners
  numbered := by
    rw [h.sealings]
    exact hc.numbered

theorem Quiet.keeps {c d : Background} (h : Quiet c d) : Keeps c d where
  stored := h.stored ▸ List.prefix_rfl
  keys k hk := .inl (by rw [Background.storedKeys, h.vaultData]; exact hk)
  vaultData hsome := h.vaultData ▸ hsome

/-! ## The condition -/

/-- The vault that was read is the one that is stored, and none waits to be stored. -/
def Background.isCurrent (c : Background) (blob : StoredVault) : Bool :=
  c.vaultData == some blob && c.sealings.isEmpty

/-- The next turn of the task `number` loses no key. -/
def Point.losesNone (prim : ExtensionPrimitives) (c : Background) (number : ℕ) : Point → Bool
  -- a setup that begins when the vault of another one is stored
  | .arrived _ (.setupPassword password) _ =>
    c.hasPassword || (prim.vaultPasswordProblem password).isSome || c.latestKeys.isEmpty
  -- a removal that cannot be saved stays in memory
  | .arrived _ request _ => !request.isRemoval || c.vault.isNone || c.vaultKey.isSome
  | .sealing _ _ _ false => c.sealings.all fun x => x.owner != number || x.removes.isNone
  -- vaults that are stored out of order
  | .sealing _ _ _ true => c.sealings.head?.any fun x => x.owner == number
  -- a lock between what is read and what is stored or opened
  | .unlocking _ password blob _ =>
    (decryptedWith blob (prim.deriveKey password blob.kdf)).isNone || c.isCurrent blob
  | .restoring blob key _ => (decryptedWith blob key.1).isNone || c.isCurrent blob
  | .rederiving _ _ _ | .decryptingImport (.ok _) _ _ => c.vault.isSome
  | _ => true

def LosesNone (prim : ExtensionPrimitives) (c : Background) (t : ExtensionTask) : Prop :=
  t.point.losesNone prim c t.caller.number = true

/-! ## What a turn seals -/

/-- A turn leaves everything as it is, or seals the vault in memory. -/
inductive Safe (owner : ℕ) (removes : Option Removal) (c : Background) : Background × Point → Prop
  | quiet (d : Background) (q : Point) (h : Quiet c d) (hq : q.sealed? = none) :
    Safe owner removes c (d, q)
  | seals (d : Background) (after : After) (key : VaultKey × Kdf) (fresh stores : Bool)
    (v w : ExtensionVault) (hdata : d.vaultData = c.vaultData) (hsealings : d.sealings = c.sealings)
    (hstored : d.stored = c.stored) (hv : c.vault = some v) (hw : d.vault = some w)
    (hcovers : Covers removes v.heldKeys w.heldKeys) :
    Safe owner removes c (sealVault d owner after removes key fresh stores)

theorem Safe.after {owner : ℕ} {removes : Option Removal} {c d : Background} {out : Background × Point}
    (h : Safe owner removes d out) (hcd : Quiet c d) : Safe owner removes c out := by
  cases h with
  | quiet e q h hq => exact .quiet e q (hcd.trans h) hq
  | seals e after key fresh stores v w hdata hsealings hstored hv hw hcovers =>
    obtain ⟨u, hu, huv⟩ := hcd.vault v hv
    exact .seals e after key fresh stores u w (hdata.trans hcd.vaultData)
      (hsealings.trans hcd.sealings) (hstored.trans hcd.stored) hu hw (huv.trans hcovers)

/-- What a turn leads to. -/
structure DurableTurn (n i : ℕ) (c : Background) (out : Background × Point) : Prop where
  durable : Durable n out.1
  seals : SealsAt out.1 i out.2
  others : ∀ x ∈ out.1.sealings, x.owner ≠ i → x ∈ c.sealings
  keeps : Keeps c out.1

theorem Quiet.turn {n i : ℕ} {c d : Background} {q : Point} (h : Quiet c d) (hc : Durable n c)
    (hnone : ∀ x ∈ c.sealings, x.owner ≠ i) : DurableTurn n i c (d, q) where
  durable := hc.quiet h
  seals _ hx hi := absurd hi (hnone _ (h.sealings ▸ hx))
  others _ hx _ := h.sealings ▸ hx
  keeps := h.keeps

theorem Durable.same {n i : ℕ} {c d : Background} {q : Point} (hc : Durable n c)
    (hnone : ∀ x ∈ c.sealings, x.owner ≠ i) (hdata : d.vaultData = c.vaultData)
    (hsealings : d.sealings = c.sealings) (hstored : d.stored = c.stored) (hvault : d.vault = c.vault) :
    DurableTurn n i c (d, q) := (Quiet.same hdata hsealings hstored hvault).turn hc hnone

theorem Safe.turn {n i : ℕ} {removes : Option Removal} {c : Background} {out : Background × Point}
    (h : Safe i removes c out) (hc : Durable n c) (hi : i < n)
    (hnone : ∀ x ∈ c.sealings, x.owner ≠ i) : DurableTurn n i c out := by
  cases h with
  | quiet d q h hq => exact h.turn hc hnone
  | seals d after key fresh stores v w hdata hsealings hstored hv hw hcovers =>
    have hlatest : Covers removes c.latestKeys w.heldKeys := (hc.memory v hv).trans hcovers
    have hkeys : d.storedKeys = c.storedKeys := by
      rw [Background.storedKeys, hdata]
      rfl
    have hlinked : Linked d.storedKeys (d.sealings ++ [⟨i, removes, d.vault⟩]) := by
      rw [hkeys, hsealings]
      refine hc.linked.append ?_
      rw [hw]
      exact hlatest
    refine ⟨⟨hlinked, fun u hu => ?_, fun x hx => ?_, hdata ▸ hc.stored, ?_, fun x hx => ?_⟩,
      fun x hx hxi => ⟨_, rfl, ?_⟩, fun x hx hxi => ?_, ?_⟩
    · have hlast : (sealVault d i after removes key fresh stores).1.latestKeys = u.heldKeys := by
        have hu' : d.vault = some u := hu
        refine (latest_append d.storedKeys d.sealings ⟨i, removes, d.vault⟩).trans ?_
        rw [hu']
        rfl
      rw [hlast]
      exact .refl none _
    · rcases List.mem_append.mp hx with hx | hx
      · exact hc.contents x (hsealings ▸ hx)
      · obtain rfl := List.mem_singleton.mp hx
        rw [hw]
        rfl
    · have howners : ((d.sealings ++ [(⟨i, removes, d.vault⟩ : Sealing)]).map Sealing.owner).Nodup := by
        rw [hsealings, List.map_append, List.nodup_append]
        refine ⟨hc.owners, List.nodup_singleton _, fun a ha b hb hab => ?_⟩
        obtain ⟨x, hx, rfl⟩ := List.mem_map.mp ha
        obtain rfl := List.mem_singleton.mp hb
        exact hnone x hx hab
      exact howners
    · rcases List.mem_append.mp hx with hx | hx
      · exact hc.numbered x (hsealings ▸ hx)
      · obtain rfl := List.mem_singleton.mp hx
        exact hi
    · rcases List.mem_append.mp hx with hx | hx
      · exact absurd hxi (hnone x (hsealings ▸ hx))
      · obtain rfl := List.mem_singleton.mp hx
        rfl
    · rcases List.mem_append.mp hx with hx | hx
      · exact hsealings ▸ hx
      · obtain rfl := List.mem_singleton.mp hx
        exact absurd rfl hxi
    · exact ⟨hstored ▸ List.prefix_rfl, fun k hk => .inl (hkeys.symm ▸ hk), fun h => hdata.symm ▸ h⟩

theorem safe_answer (owner : ℕ) (c : Background) (number : ℕ) (r : Response) :
    Safe owner none c (answer c number r) := .quiet _ _ (.same rfl rfl rfl rfl) rfl

theorem safe_throw (owner : ℕ) (c : Background) (number : ℕ) (error : String) :
    Safe owner none c (throw c number error) := safe_answer ..

theorem quiet_endHandler (c : Background) (p : Pending) (by_ : ℕ) (r : Option Response) :
    Quiet c (c.endHandler p by_ r) := by
  cases r <;> exact .same rfl rfl rfl rfl

theorem safe_endHandler (owner : ℕ) (c : Background) (p : Pending) (by_ : ℕ) (r : Option Response) :
    Safe owner none c (c.endHandler p by_ r, .done) := .quiet _ _ (quiet_endHandler ..) rfl

theorem quiet_setVault {c : Background} {v w : ExtensionVault} (hv : c.vault = some v)
    (h : Covers none v.heldKeys w.heldKeys) : Quiet c (c.setVault w) :=
  ⟨rfl, rfl, rfl, fun _ hu => ⟨v, hv, Option.some.inj hu ▸ h⟩⟩

theorem quiet_lock (c : Background) : Quiet c c.lock := ⟨rfl, rfl, rfl, fun _ hw => (by cases hw)⟩

theorem quiet_reject (c : Background) (owner : ℕ) (error : Text) : Quiet c (c.reject owner error) := by
  unfold Background.reject
  split
  · exact .refl c
  · exact .same rfl rfl rfl rfl

theorem quiet_handleWindowClosed (c : Background) (windowId : ℕ) :
    Quiet c (c.handleWindowClosed windowId) := by
  unfold Background.handleWindowClosed
  simp only
  split <;> split <;> exact .same rfl rfl rfl rfl

/-- A save of what a change has left. -/
theorem safe_save {owner : ℕ} {after : After} {removes : Option Removal} {inputs : Inputs}
    {c d : Background} {v w : ExtensionVault} {out : Background × Point}
    (h : saveVaultWithSessionKey d owner after removes inputs = .ok out)
    (hdata : d.vaultData = c.vaultData) (hsealings : d.sealings = c.sealings)
    (hstored : d.stored = c.stored) (hv : c.vault = some v) (hw : d.vault = some w)
    (hcovers : Covers removes v.heldKeys w.heldKeys) : Safe owner removes c out := by
  unfold saveVaultWithSessionKey at h
  split at h
  · next hnone =>
    rw [hw] at hnone
    cases hnone
  · cases h
  · cases h
    exact .seals _ _ _ _ _ v w hdata hsealings hstored hv hw hcovers

/-- A save of the vault as it is. -/
theorem safe_saveSame {owner : ℕ} {after : After} {inputs : Inputs} {c : Background}
    {out : Background × Point} (h : saveVaultWithSessionKey c owner after none inputs = .ok out) :
    Safe owner none c out := by
  cases hv : c.vault with
  | none =>
    unfold saveVaultWithSessionKey at h
    rw [hv] at h
    cases h
    exact .quiet _ _ (.refl c) rfl
  | some v => exact safe_save h rfl rfl rfl hv hv (.refl none _)

theorem safe_saveAndRespondSame (c : Background) (owner : ℕ) (r : Response) (inputs : Inputs) :
    Safe owner none c (saveAndRespond c owner r none inputs) := by
  unfold saveAndRespond
  split
  · exact safe_throw ..
  · next h => exact safe_saveSame h

theorem safe_saveInHandler (c : Background) (by_ : ℕ) (p : Pending) (after : After) (inputs : Inputs) :
    Safe by_ none c (saveInHandler c by_ p after inputs) := by
  unfold saveInHandler
  split
  · exact safe_endHandler ..
  · next h => exact safe_saveSame h

theorem safe_requestApproval (owner : ℕ) (c : Background) (origin : Text) (approval : Approval)
    (inputs : Inputs) : Safe owner none c (requestApproval c owner origin approval inputs) := by
  unfold requestApproval
  split
  · exact safe_throw ..
  · split
    · exact safe_answer ..
    · unfold openApprovalWindow
      split <;> exact .quiet _ _ (.same rfl rfl rfl rfl) rfl

theorem safe_onApprove (c : Background) (by_ : ℕ) (p : Pending) (inputs : Inputs) :
    Safe by_ none c (onApprove prim c by_ p inputs) := by
  unfold onApprove
  split
  · exact safe_endHandler ..
  · next v hv =>
    split
    · exact (safe_saveInHandler ..).after (quiet_setVault hv (changed_permit ..).keys)
    · split
      · exact safe_endHandler ..
      · split
        · exact safe_endHandler ..
        · exact .quiet _ _ (.refl c) rfl
    · split
      · exact safe_endHandler ..
      · split
        · exact safe_endHandler ..
        · exact .quiet _ _ (.refl c) rfl
    · split
      · exact safe_endHandler ..
      · split
        · exact safe_endHandler ..
        · exact .quiet _ _ (.refl c) rfl
    · split
      · exact safe_endHandler ..
      · exact .quiet _ _ (.refl c) rfl
    · split
      · exact safe_endHandler ..
      · exact .quiet _ _ (.refl c) rfl
    · split
      · exact safe_endHandler ..
      · next active hactive =>
        split
        · split
          · exact safe_endHandler ..
          · next rotated hrotated =>
            obtain ⟨hid, hcovers⟩ := covers_rotate hrotated
            exact (safe_saveInHandler ..).after
              (quiet_setVault hv (covers_replaceAccount hactive hid hcovers))
        · exact safe_endHandler ..

theorem safe_settleApproval (c : Background) (by_ requestId : ℕ) (approved : Bool) (inputs : Inputs) :
    Safe by_ none c (settleApproval prim c by_ requestId approved inputs) := by
  unfold settleApproval
  split
  · exact safe_answer ..
  · split
    · exact (safe_onApprove ..).after (.same rfl rfl rfl rfl)
    · exact (safe_answer ..).after (quiet_reject ..)

theorem safe_failSync (owner : ℕ) (c : Background) (number : ℕ) (what : Syncing) (error : String) :
    Safe owner none c (failSync c number what error) := by
  cases what with
  | unlock => exact safe_throw ..
  | initialization => exact .quiet _ _ (.same rfl rfl rfl rfl) rfl

theorem safe_endSync (owner : ℕ) (c : Background) (number : ℕ) (what : Syncing) :
    Safe owner none c (endSync c number what) := by
  cases what with
  | unlock => exact safe_answer ..
  | initialization => exact .quiet _ _ (.same rfl rfl rfl rfl) rfl

theorem safe_startSync (owner : ℕ) (c : Background) (number : ℕ) (what : Syncing) (inputs : Inputs) :
    Safe owner none c (startSync prim c number what inputs) := by
  unfold startSync
  split
  · exact safe_endSync ..
  · exact .quiet _ _ (.refl c) rfl

theorem safe_startUnlock (owner : ℕ) (c : Background) (number : ℕ) (what : Unlocking) (password : Text)
    (inputs : Inputs) : Safe owner none c (startUnlock c number what password inputs) := by
  unfold startUnlock
  split
  · exact safe_throw ..
  · exact .quiet _ _ (.refl c) rfl

/-- An import into the vault that is in memory. -/
theorem safe_finishImport {c : Background} {caller : Caller} {data : Except Text ExtensionVault}
    {password : Option Text} {inputs : Inputs}
    (hvault : ∀ v, data = .ok v → c.vault.isSome = true) :
    Safe caller.number none c (finishImport c caller data password inputs) := by
  unfold finishImport
  split
  · exact safe_answer ..
  · next imported =>
    obtain ⟨v, hv⟩ := Option.isSome_iff_exists.mp (hvault imported rfl)
    have hmerged : Quiet c { (mergeImport c caller imported).markUnlocked caller with
        hasPassword := true } := by
      simp only [mergeImport, hv]
      exact (quiet_setVault hv (changed_addImported v imported.accounts).keys).trans (.same rfl rfl rfl rfl)
    simp only
    split
    · exact .quiet _ _ hmerged rfl
    · split
      · exact (safe_throw ..).after hmerged
      · next h => exact (safe_saveSame h).after hmerged

theorem safe_finishSave (c : Background) (caller : Caller) (after : After) :
    Safe caller.number none c (finishSave c caller after) := by
  cases after with
  | respond r => exact safe_answer ..
  | setUp password inputs => exact (safe_startUnlock ..).after (.same rfl rfl rfl rfl)
  | imported =>
    unfold finishSave
    simp only
    split
    · exact safe_throw ..
    · split
      · exact safe_throw ..
      · exact safe_answer ..
  | synced what =>
    unfold finishSave
    simp only
    split
    · exact safe_failSync ..
    · exact safe_endSync ..
  | connected p => exact safe_endHandler ..
  | rotated p active rotated ts now => exact .quiet _ _ (.same rfl rfl rfl rfl) rfl

theorem safe_failSave (c : Background) (caller : Caller) (after : After) :
    Safe caller.number none c (failSave c caller after) := by
  cases after with
  | respond | setUp | imported => exact safe_throw ..
  | synced what => exact safe_failSync ..
  | connected | rotated => exact safe_endHandler ..

/-! ## Turns -/

theorem quiet_persistSession (c : Background) (caller : Caller) : Quiet c (c.persistSession caller) := by
  unfold Background.persistSession
  split <;> exact .same rfl rfl rfl rfl

/-- A vault is opened with what is stored. -/
theorem Durable.opened {n : ℕ} {c : Background} (hc : Durable n c) {blob : StoredVault} {key : VaultKey}
    {v : ExtensionVault} (hv : decryptedWith blob key = some v) (hblob : c.isCurrent blob = true)
    (caller : Caller) (k : VaultKey × Kdf) :
    Durable n (c.openVault caller v k) ∧ (c.openVault caller v k).sealings = [] := by
  simp only [Background.isCurrent, Bool.and_eq_true, beq_iff_eq, List.isEmpty_iff] at hblob
  obtain ⟨hdata, hsealings⟩ := hblob
  refine ⟨⟨hc.linked, fun w hw => ?_, hc.contents, hc.stored, hc.owners, hc.numbered⟩, hsealings⟩
  have hcontent : blob.content = some v := by
    unfold decryptedWith at hv
    split at hv
    · exact hv
    · cases hv
  obtain rfl : v = w := Option.some.inj hw
  have hlatest : (c.openVault caller v k).latestKeys = v.heldKeys := by
    rw [Background.latestKeys, Background.storedKeys]
    simp only [Background.openVault, hdata, hsealings, Option.bind_some, hcontent]
    rfl
  rw [hlatest]
  exact .refl none _

theorem DurableTurn.of_openVault {n i : ℕ} {c : Background} {caller : Caller} {v : ExtensionVault}
    {k : VaultKey × Kdf} {out : Background × Point} (h : DurableTurn n i (c.openVault caller v k) out) :
    DurableTurn n i c out :=
  ⟨h.durable, h.seals, h.others, h.keeps.stored, h.keeps.keys, h.keeps.vaultData⟩

theorem dispatched_durable {n : ℕ} {c : Background} {caller : Caller} {sender : Sender}
    {request : Request} {inputs : Inputs} {out : Background × Point}
    (h : Dispatched prim c caller sender request inputs out) (hc : Durable n c)
    (hi : caller.number < n) (hnone : ∀ x ∈ c.sealings, x.owner ≠ caller.number)
    (hready : (Point.arrived sender request inputs).losesNone prim c caller.number = true) :
    DurableTurn n caller.number c out := by
  cases h with
  | answered rotation r =>
    exact hc.same hnone rfl rfl rfl rfl
  | waits q hq => exact (Quiet.refl c).turn hc hnone
  | unlocks password blob hrequest hblob => exact (Quiet.refl c).turn hc hnone
  | setsUp password hrequest hpassword hproblem =>
    subst hrequest
    have hempty : c.latestKeys = [] := by
      simpa [Point.losesNone, hpassword, hproblem] using hready
    refine ⟨⟨hc.linked, fun v _ => ?_, hc.contents, hc.stored, hc.owners, hc.numbered⟩,
      fun x hx hxi => absurd hxi (hnone x hx), fun x hx _ => hx, ⟨List.prefix_rfl, fun k hk => .inl hk, id⟩⟩
    have hkeys : Covers none c.latestKeys v.heldKeys := by
      rw [hempty]
      exact fun k hk => absurd hk List.not_mem_nil
    exact hkeys
  | locks hrequest => exact (quiet_lock c).turn hc hnone
  | changes rotation removes withdrawn v w hopen hv hchanged hremoves hrequest =>
    refine Safe.turn (?_ : Safe caller.number removes c _) hc hi hnone
    unfold saveAndRespond
    split
    · next e he =>
      refine .quiet _ _ (Quiet.trans (quiet_setVault hv ?_) (.same rfl rfl rfl rfl)) rfl
      cases hremoval : removes with
      | none => exact hremoval ▸ hchanged.keys
      | some removal =>
        exfalso
        have hrem : request.isRemoval = true := hremoves (by rw [hremoval]; rfl)
        have hkey : c.vaultKey.isSome = true := by
          cases request with
          | deleteAccount id => simpa [Point.losesNone, Request.isRemoval, hv] using hready
          | destroyRetiredEncryptionKey kid =>
            simpa [Point.losesNone, Request.isRemoval, hv] using hready
          | _ => cases hrem
        obtain ⟨key, hkey⟩ := Option.isSome_iff_exists.mp hkey
        simp [saveVaultWithSessionKey, Background.setVault, hkey] at he
    · next hsave => exact safe_save hsave rfl rfl rfl hv rfl hchanged.keys
  | imports data password hopen hv hmay => exact (safe_finishImport fun _ _ => hv).turn hc hi hnone
  | decryptsImport data password hopen hv hmay => exact (Quiet.refl c).turn hc hnone
  | asks origin approval v hopen hv horigin hasked => exact (safe_requestApproval ..).turn hc hi hnone
  | settles requestId approved hrequest => exact (safe_settleApproval ..).turn hc hi hnone
  | signs v grounds account body hv haccount hsender hsigns => exact (Quiet.refl c).turn hc hnone

/-- The vault that was sealed first is stored. -/
theorem Durable.store {n i : ℕ} {c : Background} {blob : StoredVault} (hc : Durable n c)
    (hseals : ∀ x ∈ c.sealings, x.owner = i → x.content = blob.content)
    (hfirst : (c.sealings.head?.any fun x => x.owner == i) = true) :
    Durable n (c.store i blob) ∧ (∀ x ∈ (c.store i blob).sealings, x.owner ≠ i ∧ x ∈ c.sealings) ∧
      Keeps c (c.store i blob) := by
  cases hsealings : c.sealings with
  | nil =>
    rw [hsealings] at hfirst
    cases hfirst
  | cons x L =>
    obtain ⟨hlinked, -, hcontents, hstored, howners, hnumbered⟩ := id hc
    have hmemory := hc.memory
    rw [Background.latestKeys] at hmemory
    rw [hsealings] at hseals hfirst hlinked hmemory hcontents howners hnumbered
    have hx : x.owner = i := by simpa using hfirst
    have hcontent : x.content = blob.content := hseals x List.mem_cons_self hx
    obtain ⟨hnew, hnodup⟩ := List.nodup_cons.mp howners
    have hothers : ∀ y ∈ L, y.owner ≠ i := fun y hy hyi =>
      hnew (List.mem_map.mpr ⟨y, hy, hyi.trans hx.symm⟩)
    have hrest : (c.store i blob).sealings = L := by
      simp only [Background.store, hsealings]
      rw [List.filter_cons_of_neg (by simp [hx]), List.filter_eq_self]
      exact fun y hy => by simpa using hothers y hy
    have hmoved : (c.store i blob).stored = c.stored ++ [x] := by
      simp only [Background.store, hsealings]
      rw [List.filter_cons_of_pos (by simp [hx]), List.filter_eq_nil_iff.mpr]
      exact fun y hy => by simpa using hothers y hy
    have hkeys : (c.store i blob).storedKeys = keysOf x.content := by
      rw [hcontent]
      rfl
    refine ⟨⟨?_, fun v hv => ?_, fun y hy => ?_, fun b hb => ?_, ?_, fun y hy => ?_⟩, fun y hy => ?_, ?_⟩
    · rw [hrest, hkeys]
      exact hlinked.2
    · rw [Background.latestKeys, hrest, hkeys]
      exact hmemory v hv
    · rw [hrest] at hy
      exact hcontents y (List.mem_cons_of_mem _ hy)
    · obtain rfl : blob = b := Option.some.inj hb
      rw [← hcontent]
      exact hcontents x List.mem_cons_self
    · rw [hrest]
      exact hnodup
    · rw [hrest] at hy
      exact hnumbered y (List.mem_cons_of_mem _ hy)
    · rw [hrest] at hy
      exact ⟨hothers y hy, List.mem_cons_of_mem _ hy⟩
    · refine ⟨hmoved ▸ List.prefix_append _ _, fun k hk => ?_, fun _ => rfl⟩
      rw [hkeys, hmoved, List.drop_left]
      rcases hlinked.1 k hk with hin | htakes
      · exact .inl hin
      · exact .inr ⟨x, List.mem_singleton_self x, htakes⟩

/-- A sealed vault that took nothing out is not stored. -/
theorem Durable.drop {n i : ℕ} {c : Background} (hc : Durable n c)
    (hnone : (c.sealings.all fun x => x.owner != i || x.removes.isNone) = true) :
    Durable n { c with sealings := c.sealings.filter (·.owner != i) } := by
  have hremoves : ∀ x ∈ c.sealings, (x.owner != i) = false → x.removes = none := by
    intro x hx hxi
    have := List.all_eq_true.mp hnone x hx
    rwa [hxi, Bool.false_or, Option.isNone_iff_eq_none] at this
  obtain ⟨hlinked, hcovers⟩ := hc.linked.filter hremoves
  refine ⟨hlinked, fun v hv => hcovers.trans (hc.memory v hv),
    fun x hx => hc.contents x (List.mem_of_mem_filter hx), hc.stored, ?_,
    fun x hx => hc.numbered x (List.mem_of_mem_filter hx)⟩
  exact hc.owners.sublist (List.filter_sublist.map _)

theorem resume_durable {n : ℕ} {caller : Caller} {c : Background} {p : Point}
    {out : Background × Point} (h : Point.resume prim caller c p = some out) (hc : Durable n c)
    (hi : caller.number < n) (hseals : SealsAt c caller.number p)
    (hready : p.losesNone prim c caller.number = true) : DurableTurn n caller.number c out := by
  have hidle (hp : p.sealed? = none) : ∀ x ∈ c.sealings, x.owner ≠ caller.number := by
    intro x hx hxi
    obtain ⟨blob, hblob, -⟩ := hseals x hx hxi
    rw [hp] at hblob
    cases hblob
  cases p with
  | arrived sender request inputs =>
    simp only [Point.resume] at h
    split at h
    · cases h
      exact dispatched_durable dispatch_dispatched hc hi (hidle rfl) hready
    · cases h
      exact (safe_throw ..).turn hc hi (hidle rfl)
    · cases h
    · cases h
  | focusingPopup window focuses =>
    simp only [Point.resume] at h
    split at h <;> cases h
    · exact (safe_throw ..).turn hc hi (hidle rfl)
    · exact hc.same (hidle rfl) rfl rfl rfl rfl
  | creatingPopup window =>
    cases h
    exact hc.same (hidle rfl) rfl rfl rfl rfl
  | focusing window focuses =>
    simp only [Point.resume] at h
    split at h <;> cases h
    · exact (Quiet.refl c).turn hc (hidle rfl)
    · exact hc.same (hidle rfl) rfl rfl rfl rfl
  | creating window =>
    cases window with
    | some windowId =>
      cases h
      exact hc.same (hidle rfl) rfl rfl rfl rfl
    | none =>
      cases h
      exact (quiet_reject ..).turn hc (hidle rfl)
  | unlocking what password blob inputs =>
    simp only [Point.resume] at h
    split at h
    · next v hv =>
      cases h
      have hcurrent : c.isCurrent blob = true := by simpa [Point.losesNone, hv] using hready
      obtain ⟨hopened, hnone⟩ := hc.opened hv hcurrent caller (prim.deriveKey password blob.kdf, blob.kdf)
      exact ((Quiet.refl _).turn hopened fun x hx => absurd (hnone ▸ hx) List.not_mem_nil).of_openVault
    · cases h
      exact (safe_answer ..).turn hc hi (hidle rfl)
  | opened what inputs =>
    cases h
    exact (quiet_persistSession ..).turn hc (hidle rfl)
  | persisted what inputs =>
    cases what with
    | setUp =>
      cases h
      exact (safe_answer ..).turn hc hi (hidle rfl)
    | unlock =>
      cases h
      exact (safe_startSync ..).turn hc hi (hidle rfl)
  | syncing what origins changed inputs =>
    cases origins with
    | nil =>
      simp only [Point.resume] at h
      split at h
      · cases h
        exact (safe_failSync ..).turn hc hi (hidle rfl)
      · split at h
        · split at h
          · cases h
            exact (safe_failSync ..).turn hc hi (hidle rfl)
          · next hsave =>
            cases h
            exact (safe_saveSame hsave).turn hc hi (hidle rfl)
        · cases h
          exact (safe_endSync ..).turn hc hi (hidle rfl)
    | cons origin origins =>
      simp only [Point.resume] at h
      split at h
      · split at h
        · cases h
          exact (safe_failSync ..).turn hc hi (hidle rfl)
        · next v hv =>
          cases h
          exact (quiet_setVault hv (changed_withdraw v origin).keys).turn hc (hidle rfl)
      · cases h
        exact (Quiet.refl c).turn hc (hidle rfl)
  | restoring blob key inputs =>
    simp only [Point.resume] at h
    split at h
    · next v hv =>
      cases h
      have hcurrent : c.isCurrent blob = true := by simpa [Point.losesNone, hv] using hready
      obtain ⟨hopened, hnone⟩ := hc.opened hv hcurrent c.since.session key
      exact ((safe_startSync ..).turn hopened hi
        fun x hx => absurd (hnone ▸ hx) List.not_mem_nil).of_openVault
    · cases h
      exact hc.same (hidle rfl) rfl rfl rfl rfl
  | clearing =>
    cases h
    exact (safe_answer ..).turn hc hi (hidle rfl)
  | checkingIdle expired =>
    cases h
    split
    · exact (quiet_lock c).turn hc (hidle rfl)
    · exact (Quiet.refl c).turn hc (hidle rfl)
  | decryptingImport data password inputs =>
    cases h
    refine (safe_finishImport fun v hv => ?_).turn hc hi (hidle rfl)
    rw [hv] at hready
    exact hready
  | rederiving after password inputs =>
    cases h
    obtain ⟨v, hv⟩ := Option.isSome_iff_exists.mp hready
    exact (Safe.seals c _ _ _ _ v v rfl rfl rfl hv hv (.refl none _)).turn hc hi (hidle rfl)
  | sealing after sealed fresh stores =>
    have hsealed : ∀ x ∈ c.sealings, x.owner = caller.number → x.content = sealed.content := by
      intro x hx hxi
      obtain ⟨blob, hblob, hcontent⟩ := hseals x hx hxi
      exact hcontent.trans (congrArg StoredVault.content (Option.some.inj hblob).symm)
    simp only [Point.resume] at h
    split at h
    · next hstores =>
      cases h
      subst hstores
      obtain ⟨hdurable, hothers, hkeeps⟩ := hc.store hsealed hready
      exact ⟨hdurable, fun x hx hxi => absurd hxi (hothers x hx).1, fun x hx _ => (hothers x hx).2, hkeeps⟩
    · next hstores =>
      cases h
      rw [Bool.eq_false_of_not_eq_true hstores] at hready
      have hdropped := (safe_failSave _ caller after).turn (hc.drop hready) hi fun x hx hxi => by
        have := (List.mem_filter.mp hx).2
        rw [hxi] at this
        simp at this
      exact ⟨hdropped.durable, hdropped.seals,
        fun x hx hxi => (List.mem_filter.mp (hdropped.others x hx hxi)).1,
        hdropped.keeps.stored, hdropped.keeps.keys, hdropped.keeps.vaultData⟩
  | stored after key =>
    cases key with
    | some key =>
      cases h
      exact hc.same (hidle rfl) rfl rfl rfl rfl
    | none =>
      cases h
      exact hc.same (hidle rfl) rfl rfl rfl rfl
  | adopting after key =>
    cases h
    exact hc.same (hidle rfl) rfl rfl rfl rfl
  | saved after =>
    cases h
    exact (safe_finishSave ..).turn hc hi (hidle rfl)
  | checkingHost origin inputs =>
    simp only [Point.resume] at h
    split at h
    · cases h
      unfold trustSite
      split
      · exact (safe_throw ..).turn hc hi (hidle rfl)
      · next v hv =>
        exact ((safe_saveAndRespondSame ..).after
          (quiet_setVault hv (changed_permit ..).keys)).turn hc hi (hidle rfl)
    · cases h
      exact (safe_throw ..).turn hc hi (hidle rfl)
  | answering r =>
    cases h
    exact (safe_answer ..).turn hc hi (hidle rfl)
  | signing sender grounds account body =>
    simp only [Point.resume] at h
    split at h <;> cases h
    · exact (safe_answer ..).turn hc hi (hidle rfl)
    · exact hc.same (hidle rfl) rfl rfl rfl rfl
  | signingApproved p account body =>
    cases h
    refine Safe.turn (Safe.after (safe_endHandler ..) ?_) hc hi (hidle rfl)
    exact .same rfl rfl rfl rfl
  | revealing p account outcome =>
    cases h
    split
    · refine Safe.turn (Safe.after (safe_endHandler ..) ?_) hc hi (hidle rfl)
      exact .same rfl rfl rfl rfl
    · exact (safe_endHandler ..).turn hc hi (hidle rfl)
  | attesting p account rotated ts =>
    cases h
    refine Safe.turn (Safe.after (safe_endHandler ..) ?_) hc hi (hidle rfl)
    exact .same rfl rfl rfl rfl
  | done => cases h

/-! ## Runs -/

theorem begin_quiet (c : Background) (call : Call) :
    Quiet c (Call.begin c call).1 ∧ (Call.begin c call).2.sealed? = none := by
  unfold Call.begin
  cases call with
  | message sender request inputs => exact ⟨.refl c, rfl⟩
  | start expired inputs =>
    simp only
    split
    · unfold initializeStorage
      simp only
      split <;> exact ⟨.same rfl rfl rfl rfl, rfl⟩
    · exact ⟨.refl c, rfl⟩
  | idleAlarm expired =>
    simp only
    split <;> exact ⟨.refl c, rfl⟩
  | windowRemoved windowId => exact ⟨quiet_handleWindowClosed .., rfl⟩
  | timeout owner => exact ⟨quiet_reject .., rfl⟩

theorem Durable.mono {m n : ℕ} {c : Background} (hc : Durable m c) (h : m ≤ n) : Durable n c :=
  ⟨hc.linked, hc.memory, hc.contents, hc.stored, hc.owners, fun x hx => (hc.numbered x hx).trans_le h⟩

theorem Durable.restart {n : ℕ} {c : Background} (hc : Durable n c) : Durable n c.restart where
  linked := trivial
  memory v hv := by cases hv
  contents x hx := absurd hx List.not_mem_nil
  stored := hc.stored
  owners := List.nodup_nil
  numbered x hx := absurd hx List.not_mem_nil

/-- What a task has sealed, and under which number. -/
structure SealFact (c : Background) (i : ℕ) (t : ExtensionTask) : Prop where
  number : t.caller.number = i
  seals : SealsAt c i t.point

theorem durable_rule (prim : ExtensionPrimitives) :
    Rule (extension prim) Durable SealFact (fun _ _ => True) (LosesNone prim) where
  call n c call hc _ := by
    obtain ⟨hquiet, hpoint⟩ := begin_quiet c call
    have hsealings : (Call.begin c call).1.sealings = c.sealings := hquiet.sealings
    refine ⟨(hc.quiet hquiet).mono (Nat.le_succ n), ⟨rfl, fun x hx hxn => ?_⟩, fun j t _ ht => ?_⟩
    · exact absurd (hc.numbered x (hsealings ▸ hx)) (by omega)
    · exact ⟨ht.number, fun x hx => ht.seals x (hsealings ▸ hx)⟩
  resume n c i t d q hc hi hfact hready h := by
    obtain ⟨out, hresume, heq⟩ := Option.map_eq_some_iff.mp h
    cases heq
    obtain ⟨rfl, hseals⟩ := hfact
    have hturn := resume_durable hresume hc hi hseals hready
    refine ⟨hturn.durable, ⟨rfl, hturn.seals⟩, fun j r hj hr => ⟨hr.number, fun x hx hxj => ?_⟩⟩
    exact hr.seals x (hturn.others x hx (by rw [hxj]; exact hj)) hxj
  restart n c hc := hc.restart

theorem step_keeps {s t : State Background ExtensionTask} {a : Action Call}
    (hs : Holds Durable SealFact s)
    (hstep : restrict (Prepared (fun _ _ => True) (LosesNone prim)) (ofPartial (extension prim).step) s a t) :
    Keeps s.shared t.shared := by
  obtain ⟨hready, hstep⟩ := hstep
  cases a with
  | call call =>
    obtain rfl := Option.some.inj hstep
    exact (begin_quiet s.shared call).1.keeps
  | resume i =>
    obtain ⟨task, d, q, htask, hresume, rfl⟩ := Program.step_resume hstep
    obtain ⟨out, hout, heq⟩ := Option.map_eq_some_iff.mp hresume
    cases heq
    obtain ⟨rfl, hseals⟩ := hs.tasks i task htask
    exact (resume_durable hout hs.shared (State.lt_of_task htask) hseals (hready task htask)).keeps
  | restart =>
    obtain rfl := Option.some.inj hstep
    exact ⟨List.prefix_rfl, fun k hk => .inl hk, id⟩

/-- A vault is stored later too, with every key of the one that was stored, but for the keys that a
vault stored in between was sealed to take out. -/
def KeepsVault (c d : Background) : Prop :=
  ∀ blob, c.vaultData = some blob → ∃ later v, d.vaultData = some later ∧ later.content = some v ∧
    ∀ k ∈ keysOf blob.content, k ∈ v.heldKeys ∨
      ∃ x ∈ d.stored.drop c.stored.length, x.removes.any (·.takes k) = true

theorem Keeps.keepsVault {n : ℕ} {c d : Background} (h : Keeps c d) (hd : Durable n d) :
    KeepsVault c d := by
  intro blob hblob
  obtain ⟨later, hlater⟩ := Option.isSome_iff_exists.mp (h.vaultData (by rw [hblob]; rfl))
  obtain ⟨v, hv⟩ := Option.isSome_iff_exists.mp (hd.stored later hlater)
  refine ⟨later, v, hlater, hv, fun k hk => ?_⟩
  have hkeys := h.keys k
  simp only [Background.storedKeys, hblob, hlater, Option.bind_some, hv] at hkeys
  exact hkeys hk

/-- In every run that loses none, a stored key is in every vault that is stored later, until it is
taken out of it. -/
theorem stored_keys_are_kept {c : Background} (hc : Durable 0 c) {as bs : List (Action Call)}
    {s t : State Background ExtensionTask}
    (hs : Run (restrict (Prepared (fun _ _ => True) (LosesNone prim)) (ofPartial (extension prim).step))
      (.start c) as s)
    (ht : Run (restrict (Prepared (fun _ _ => True) (LosesNone prim)) (ofPartial (extension prim).step))
      s bs t) : KeepsVault s.shared t.shared := by
  have hholds : Holds Durable SealFact s := (durable_rule prim).run_holds hs (.start hc)
  have hkeeps : Keeps s.shared t.shared :=
    ht.preserves (I := Holds Durable SealFact) (R := fun s t => Keeps s.shared t.shared)
      (fun s => .refl s.shared) (fun _ _ _ h h' => h.trans h')
      (fun _ _ _ h hstep => (durable_rule prim).step_holds h hstep.2 hstep.1)
      (fun _ _ _ h hstep => step_keeps h hstep) hholds
  exact hkeeps.keepsVault ((durable_rule prim).run_holds ht hholds).shared

/-! ## An import that a lock overtakes -/

/-- An import of no account, with a password: the vault is sealed again under a key that is derived
while the lock comes. -/
def overtakenImport : List (Action Call) :=
  [ownMessage (.importKeys (.obj [(lit "accounts", .arr [])]) (some samplePassword) none), .resume 0,
    ownMessage .lock, .resume 1, .resume 0, .resume 0]

/-- `null` is stored in place of the vault. -/
theorem not_stored_keys_are_kept : ∃ t, Run (ofPartial (extension samplePrimitives).step)
    (.start sampleUnlocked) overtakenImport t ∧
    (t.shared.vaultData.map fun blob => blob.content) = some none ∧ ¬ KeepsVault sampleUnlocked t.shared := by
  refine ⟨_, Run.ofPartial_foldlM _ _ _ _ rfl, rfl, fun h => ?_⟩
  obtain ⟨later, v, hlater, hv, -⟩ := h _ rfl
  obtain rfl := Option.some.inj hlater
  cases hv

/-- `Prepared` for the runs of the samples. -/
def losesNoKey (s : State Background ExtensionTask) : Action Call → Bool
  | .resume i => (s.task i).all fun t => t.point.losesNone samplePrimitives s.shared t.caller.number
  | _ => true

theorem prepared_of_losesNoKey {s : State Background ExtensionTask} {a : Action Call}
    (h : losesNoKey s a = true) : Prepared (fun _ _ => True) (LosesNone samplePrimitives) s a := by
  cases a with
  | call r => trivial
  | resume i =>
    intro t ht
    rwa [losesNoKey, ht, Option.all_some] at h
  | restart => trivial

theorem sampleUnlocked_durable : Durable 0 sampleUnlocked where
  linked := trivial
  memory v hv := by
    obtain rfl := Option.some.inj hv
    exact .refl none _
  contents x hx := absurd hx List.not_mem_nil
  stored blob hblob := by
    obtain rfl := Option.some.inj hblob
    rfl
  owners := List.nodup_nil
  numbered x hx := absurd hx List.not_mem_nil

/-- An account is created, the worker is locked and unlocked, and the account is deleted. -/
theorem stored_keys_are_kept_sample : ∃ t,
    Run (restrict (Prepared (fun _ _ => True) (LosesNone samplePrimitives))
      (ofPartial (extension samplePrimitives).step)) (.start sampleUnlocked)
      [ownMessage .createAccount, .resume 0, .resume 0, .resume 0, .resume 0,
        ownMessage .lock, .resume 1, .resume 1, ownMessage (.unlock samplePassword), .resume 2, .resume 2,
        .resume 2, ownMessage (.deleteAccount (Client.sampleAccount "new" []).id), .resume 3, .resume 3,
        .resume 3, .resume 3] t ∧
    t.shared.stored.length = 2 ∧ KeepsVault sampleUnlocked t.shared := by
  have ht : Run (restrict (Prepared (fun _ _ => True) (LosesNone samplePrimitives))
      (ofPartial (extension samplePrimitives).step)) (.start sampleUnlocked)
      [ownMessage .createAccount, .resume 0, .resume 0, .resume 0, .resume 0,
        ownMessage .lock, .resume 1, .resume 1, ownMessage (.unlock samplePassword), .resume 2, .resume 2,
        .resume 2, ownMessage (.deleteAccount (Client.sampleAccount "new" []).id), .resume 3, .resume 3,
        .resume 3, .resume 3] _ :=
    Run.restrict_foldlM _ (fun _ _ => prepared_of_losesNoKey) _ _ _ rfl
  exact ⟨_, ht, rfl, stored_keys_are_kept sampleUnlocked_durable (.nil _) ht⟩

end Kryptolog.Extension
