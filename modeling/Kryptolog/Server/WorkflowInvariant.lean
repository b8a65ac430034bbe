import Kryptolog.Server.Moves

/-! # The quorum of a workflow

What holds of every workflow in every reachable state: its secret is there, the approvals it
counts verify over what is stored, a completed workflow has its quorum and its recipients' keys,
a pending one has fewer approvals. `Good` says it of one workflow and `Inv` of the database.

The two modes of the quorum, a threshold and the number of signers for a legacy row without one,
are both inside `quorum`. A run may start with pending legacy workflows (`Initial`).
-/

namespace Kryptolog.Server
set_option autoImplicit false

open Tables Json Fallible Relation Runs

/-- The row carries a signature of its signer over the workflow and what its secret stores. -/
def Approved (prim : Primitives) (db : Database) (w : MultisigWorkflow)
    (r : MultisigWorkflowSigner) : Prop :=
  ∃ u ∈ db.users, u.address = r.userAddress ∧ ∃ s ∈ db.secrets, s.id = w.secretId ∧
    ∃ signature, r.signature = some signature ∧
      prim.verifyIdentitySignature u.identityPublicKey (approvalMessage prim w s) signature = true

/-- What holds of a workflow whatever its status. -/
structure Sound (prim : Primitives) (db : Database) (w : MultisigWorkflow) : Prop where
  secret : ∃ s ∈ db.secrets, s.id = w.secretId ∧ s.ownerAddress = w.ownerAddress
  quorum_pos : 0 < quorum db w
  approved : ∀ r ∈ signedRows db w, Approved prim db w r

/-- What holds of a workflow. -/
structure Good (prim : Primitives) (db : Database) (w : MultisigWorkflow) : Prop extends
    Sound prim db w where
  completed : w.status = .completed → quorum db w ≤ (signedRows db w).length
  released : w.status = .completed → ∀ r ∈ recipientsOf db w.id, Option.holdsKey r.encryptedKey = true
  pending : w.status = .pending → (signedRows db w).length < quorum db w

/-- What holds of the database. -/
structure Inv (prim : Primitives) (db : Database) : Prop where
  good : ∀ w ∈ db.workflows, Good prim db w
  secret_inj : ∀ w ∈ db.workflows, ∀ w' ∈ db.workflows, w.secretId = w'.secretId → w = w'
  signer_lt : ∀ r ∈ db.signers, r.workflowId < db.workflows.next
  recipient_lt : ∀ r ∈ db.recipients, r.workflowId < db.workflows.next

theorem mem_signersOf {db : Database} {id : ℕ} {r : MultisigWorkflowSigner} :
    r ∈ signersOf db id ↔ r ∈ db.signers ∧ r.workflowId = id := by
  simp [signersOf]

theorem mem_recipientsOf {db : Database} {id : ℕ} {r : MultisigWorkflowRecipient} :
    r ∈ recipientsOf db id ↔ r ∈ db.recipients ∧ r.workflowId = id := by
  simp [recipientsOf]

theorem mem_signedRows {db : Database} {w : MultisigWorkflow} {r : MultisigWorkflowSigner} :
    r ∈ signedRows db w ↔ r ∈ db.signers ∧ r.workflowId = w.id ∧ r.hasSigned = true := by
  rw [signedRows, List.mem_filter, mem_signersOf, and_assoc]

/-- A secret that no workflow manages is none of theirs. -/
theorem ne_of_unmanaged {db : Database} {id : ℕ} (h : isWorkflowManaged db id = false)
    {w : MultisigWorkflow} (hw : w ∈ db.workflows) : w.secretId ≠ id := by
  simpa using Table.any_eq_false.mp h w hw

/-! ## Carrying a workflow over a change -/

/-- The workflow's own rows are the same but for the wrapped keys of its signers. -/
structure SameRows (db db' : Database) (w : MultisigWorkflow) : Prop where
  users : ∀ u ∈ db.users, ∃ u' ∈ db'.users,
    u'.address = u.address ∧ u'.identityPublicKey = u.identityPublicKey
  secret : ∀ s ∈ db.secrets, s.id = w.secretId → s ∈ db'.secrets
  signers : ∃ f : MultisigWorkflowSigner → MultisigWorkflowSigner,
    signersOf db' w.id = (signersOf db w.id).map f ∧ ∀ r, (f r).hasSigned = r.hasSigned ∧
      (f r).signature = r.signature ∧ (f r).userAddress = r.userAddress

/-- Two versions of one workflow row, which differ in its status at most. -/
structure SameWorkflow (w w' : MultisigWorkflow) : Prop where
  id : w'.id = w.id
  secretId : w'.secretId = w.secretId
  ownerAddress : w'.ownerAddress = w.ownerAddress
  threshold : w'.threshold = w.threshold

theorem SameWorkflow.refl (w : MultisigWorkflow) : SameWorkflow w w := ⟨rfl, rfl, rfl, rfl⟩

section carry

variable {prim : Primitives} {db db' : Database} {w w' : MultisigWorkflow}

theorem SameRows.quorum (h : SameRows db db' w) (hw : SameWorkflow w w') :
    quorum db' w' = quorum db w := by
  obtain ⟨f, hf, -⟩ := h.signers
  unfold Server.quorum
  rw [hw.threshold, hw.id]
  split
  · rfl
  · rw [hf, List.length_map]

theorem SameRows.signedRows (h : SameRows db db' w) (hw : SameWorkflow w w') :
    (signedRows db' w').length = (signedRows db w).length := by
  obtain ⟨f, hf, hsame⟩ := h.signers
  have hcomp : (fun r => (f r).hasSigned) = fun r : MultisigWorkflowSigner => r.hasSigned :=
    funext fun r => (hsame r).1
  rw [Server.signedRows, Server.signedRows, hw.id, hf, List.filter_map, List.length_map]
  simp only [Function.comp_def, hcomp]

/-- An approval stays one while the user's key and the secret stay. -/
theorem Approved.carry {r r' : MultisigWorkflowSigner} (h : Approved prim db w r)
    (hrows : SameRows db db' w) (hw : SameWorkflow w w') (hsig : r'.signature = r.signature)
    (huser : r'.userAddress = r.userAddress) : Approved prim db' w' r' := by
  obtain ⟨u, hu, hua, s, hs, hsid, signature, hsg, hver⟩ := h
  obtain ⟨u', hu', hua', hkey⟩ := hrows.users u hu
  refine ⟨u', hu', by rw [hua', hua, huser], s, hrows.secret s hs hsid, ?_, signature, ?_, ?_⟩
  · rw [hsid, hw.secretId]
  · rw [hsig, hsg]
  · rw [hkey, approvalMessage, hw.id, hw.secretId]
    exact hver

/-- A workflow stays sound under a change that keeps its rows. -/
theorem Sound.carry (h : Sound prim db w) (hrows : SameRows db db' w) (hw : SameWorkflow w w') :
    Sound prim db' w' where
  secret := by
    obtain ⟨s, hs, hid, hown⟩ := h.secret
    exact ⟨s, hrows.secret s hs hid, hid.trans hw.secretId.symm, hown.trans hw.ownerAddress.symm⟩
  quorum_pos := hrows.quorum hw ▸ h.quorum_pos
  approved := by
    intro r' hr'
    obtain ⟨f, hf, hsame⟩ := hrows.signers
    obtain ⟨hmem, hid, hsigned⟩ := mem_signedRows.mp hr'
    have hmap : r' ∈ (signersOf db w.id).map f :=
      hf ▸ mem_signersOf.mpr ⟨hmem, hid.trans hw.id⟩
    obtain ⟨r, hr, rfl⟩ := List.mem_map.mp hmap
    obtain ⟨hrmem, hrid⟩ := mem_signersOf.mp hr
    obtain ⟨h₁, h₂, h₃⟩ := hsame r
    exact (h.approved r (mem_signedRows.mpr ⟨hrmem, hrid, h₁ ▸ hsigned⟩)).carry hrows hw h₂ h₃

/-- A workflow stays good under a change that keeps its rows, where the recipients of a completed
one still hold their keys. -/
theorem Good.carry (h : Good prim db w) (hrows : SameRows db db' w)
    (hrel : w.status = .completed → ∀ r ∈ recipientsOf db' w.id,
      Option.holdsKey r.encryptedKey = true) : Good prim db' w where
  toSound := h.toSound.carry hrows (.refl w)
  completed := fun hst => by
    rw [hrows.quorum (.refl w), hrows.signedRows (.refl w)]
    exact h.completed hst
  released := hrel
  pending := fun hst => by
    rw [hrows.quorum (.refl w), hrows.signedRows (.refl w)]
    exact h.pending hst

/-- The rows of a workflow are the same where the tables of users and signers are. -/
theorem SameRows.of_eq (hu : db'.users = db.users)
    (hs : ∀ s ∈ db.secrets, s.id = w.secretId → s ∈ db'.secrets)
    (hr : signersOf db' w.id = signersOf db w.id) : SameRows db db' w where
  users := fun u hmem => ⟨u, hu ▸ hmem, rfl, rfl⟩
  secret := hs
  signers := ⟨id, by rw [hr, List.map_id], fun _ => ⟨rfl, rfl, rfl⟩⟩

/-- A change that leaves the three workflow tables and the secrets of workflows alone. -/
theorem Inv.of_same (h : Inv prim db)
    (hw : db'.workflows = db.workflows) (hr : db'.signers = db.signers)
    (hc : db'.recipients = db.recipients)
    (hrows : ∀ w ∈ db.workflows, SameRows db db' w) : Inv prim db' where
  good := fun w hmem => by
    rw [hw] at hmem
    have hgood := h.good w hmem
    refine hgood.carry (hrows w hmem) fun hst r hr' => hgood.released hst r ?_
    rwa [recipientsOf, hc] at hr'
  secret_inj := by rw [hw]; exact h.secret_inj
  signer_lt := by rw [hr, hw]; exact h.signer_lt
  recipient_lt := by rw [hc, hw]; exact h.recipient_lt

end carry

/-! ## The moves -/

section moves

variable {prim : Primitives} {db : Database}

theorem Inv.strip (h : Inv prim db) (mode : Mode) (now : Time) (a : Address) :
    Inv prim { db with
      users := db.users.update (·.address == a) (stripIdentity mode now) (fun _ => rfl) } := by
  refine h.of_same rfl rfl rfl fun w _ => ?_
  refine ⟨fun u hu => ?_, fun s hs _ => hs, ⟨id, (List.map_id _).symm, fun _ => ⟨rfl, rfl, rfl⟩⟩⟩
  refine ⟨_, Table.update_of_mem hu (·.address == a) (stripIdentity mode now) (fun _ => rfl), ?_⟩
  split <;> exact ⟨rfl, rfl⟩

theorem Inv.editSecret (h : Inv prim db) {id : ℕ} (hid : isWorkflowManaged db id = false)
    (name encryptedData : String) :
    Inv prim { db with
      secrets := db.secrets.update (·.id == id)
        (fun s => { s with name := name, encryptedData := encryptedData }) (fun _ => rfl) } := by
  refine h.of_same rfl rfl rfl fun w hw => .of_eq rfl (fun s hs hsid => ?_) rfl
  have hne : s.id ≠ id := hsid ▸ ne_of_unmanaged hid hw
  exact Serial.mem_update.mpr ⟨s, hs, by simp [hne]⟩

theorem Inv.dropSecret (h : Inv prim db) {id : ℕ} (hid : isWorkflowManaged db id = false) :
    Inv prim (deleteSecretRows db id) := by
  refine h.of_same rfl rfl rfl fun w hw => .of_eq rfl (fun s hs hsid => ?_) rfl
  have hne : s.id ≠ id := hsid ▸ ne_of_unmanaged hid hw
  exact Serial.mem_delete.mpr ⟨hs, by simpa using hne⟩

/-- The rows of the workflows that are there when another one is created. -/
theorem insertSecretAndWorkflow_sameRows (now : Time) (owner : Address)
    (req : MultisigWorkflowCreate) {w : MultisigWorkflow} (hw : w ∈ db.workflows) :
    SameRows db (insertSecretAndWorkflow db now owner req) w := by
  refine .of_eq rfl (fun s hs _ => Serial.mem_insert.mpr (.inl hs)) ?_
  have hlt : w.id < db.workflows.next := Serial.key_lt hw
  exact Serial.where'_insertAll_old fun _ _ => by
    simpa [insertSecretWithOwnerGrant] using (Nat.ne_of_lt hlt).symm

theorem mem_insertSecretAndWorkflow_workflows {now : Time} {owner : Address}
    {req : MultisigWorkflowCreate} {w : MultisigWorkflow}
    (h : w ∈ (insertSecretAndWorkflow db now owner req).workflows) :
    w ∈ db.workflows ∨ w = newWorkflowRow owner db.secrets.next req db.workflows.next := by
  have h' : w ∈ db.workflows.insert (newWorkflowRow owner db.secrets.next req) (fun _ => rfl) := h
  exact Serial.mem_insert.mp h'

theorem mem_insertSecretAndWorkflow_signers {now : Time} {owner : Address}
    {req : MultisigWorkflowCreate} {r : MultisigWorkflowSigner}
    (h : r ∈ (insertSecretAndWorkflow db now owner req).signers) :
    r ∈ db.signers ∨ (r.workflowId = db.workflows.next ∧ r.hasSigned = false) := by
  rcases Serial.mem_insertAll h with h | ⟨a, -, n, rfl⟩
  · exact .inl h
  · exact .inr ⟨rfl, rfl⟩

theorem mem_insertSecretAndWorkflow_recipients {now : Time} {owner : Address}
    {req : MultisigWorkflowCreate} {r : MultisigWorkflowRecipient}
    (h : r ∈ (insertSecretAndWorkflow db now owner req).recipients) :
    r ∈ db.recipients ∨ r.workflowId = db.workflows.next := by
  rcases Serial.mem_insertAll h with h | ⟨a, -, n, rfl⟩
  · exact .inl h
  · exact .inr rfl

/-- A new workflow is pending, and none of its signers has signed. -/
theorem Inv.good_newWorkflow (h : Inv prim db) (now : Time) (owner : Address)
    (req : MultisigWorkflowCreate) (hpos : 1 ≤ req.threshold) :
    Good prim (insertSecretAndWorkflow db now owner req)
      (newWorkflowRow owner db.secrets.next req db.workflows.next) := by
  have hnone : signedRows (insertSecretAndWorkflow db now owner req)
      (newWorkflowRow owner db.secrets.next req db.workflows.next) = [] := by
    refine List.eq_nil_iff_forall_not_mem.mpr fun r hr => ?_
    obtain ⟨hmem, hid, hsigned⟩ := mem_signedRows.mp hr
    rcases mem_insertSecretAndWorkflow_signers hmem with hold | ⟨-, hunsigned⟩
    · exact absurd (h.signer_lt r hold) (by rw [hid]; exact lt_irrefl _)
    · rw [hunsigned] at hsigned
      cases hsigned
  have hquorum : 0 < quorum (insertSecretAndWorkflow db now owner req)
      (newWorkflowRow owner db.secrets.next req db.workflows.next) := by
    obtain ⟨t, ht⟩ := Nat.exists_eq_succ_of_ne_zero (Nat.one_le_iff_ne_zero.mp hpos)
    simp [quorum, newWorkflowRow, ht]
  exact {
    secret := ⟨_, Serial.mem_insert.mpr (.inr rfl), rfl, rfl⟩
    quorum_pos := hquorum
    approved := by rw [hnone]; exact fun _ h => by cases h
    completed := fun h => by cases h
    released := fun h => by cases h
    pending := fun _ => by rw [hnone]; exact hquorum }

theorem Inv.newWorkflow (h : Inv prim db) (now : Time) (owner : Address)
    (req : MultisigWorkflowCreate) (hpos : 1 ≤ req.threshold) :
    Inv prim (insertSecretAndWorkflow db now owner req) where
  good := by
    intro w hw
    rcases mem_insertSecretAndWorkflow_workflows hw with hw | rfl
    · have hgood := h.good w hw
      have hlt : w.id < db.workflows.next := Serial.key_lt hw
      refine hgood.carry (insertSecretAndWorkflow_sameRows now owner req hw) fun hst r hr => ?_
      obtain ⟨hmem, hid⟩ := mem_recipientsOf.mp hr
      rcases mem_insertSecretAndWorkflow_recipients hmem with hmem | hid'
      · exact hgood.released hst r (mem_recipientsOf.mpr ⟨hmem, hid⟩)
      · omega
    · exact h.good_newWorkflow now owner req hpos
  secret_inj := by
    have hlt : ∀ w ∈ db.workflows, w.secretId < db.secrets.next := by
      intro w hw
      obtain ⟨s, hs, hid, -⟩ := (h.good w hw).secret
      exact hid ▸ Serial.key_lt hs
    intro w hw w' hw' heq
    rcases mem_insertSecretAndWorkflow_workflows hw with hw | rfl <;>
      rcases mem_insertSecretAndWorkflow_workflows hw' with hw' | rfl
    · exact h.secret_inj w hw w' hw' heq
    · exact absurd (hlt w hw) (by rw [heq]; exact lt_irrefl _)
    · exact absurd (hlt w' hw') (by rw [← heq]; exact lt_irrefl _)
    · rfl
  signer_lt := by
    intro r hr
    change r.workflowId < db.workflows.next + 1
    rcases mem_insertSecretAndWorkflow_signers hr with hr | ⟨hid, -⟩
    · exact Nat.lt_succ_of_lt (h.signer_lt r hr)
    · omega
  recipient_lt := by
    intro r hr
    change r.workflowId < db.workflows.next + 1
    rcases mem_insertSecretAndWorkflow_recipients hr with hr | hid
    · exact Nat.lt_succ_of_lt (h.recipient_lt r hr)
    · omega

/-! ### Signing -/

section sign

variable {w : MultisigWorkflow} {r : MultisigWorkflowSigner} {signature : String} {now : Time}

theorem signersOf_recordSignature (db : Database) (rowId id : ℕ) (signature : String) (now : Time) :
    signersOf (recordSignature db rowId signature now) id =
      (signersOf db id).map fun x => if x.id == rowId then x.sign signature now else x :=
  Table.where'_update db.signers.toTable (·.id == rowId) (·.workflowId == id) (·.sign signature now)
    (fun _ => rfl) fun _ => rfl

/-- The signers of another workflow stay as they are. -/
theorem signersOf_recordSignature_other (hr : r ∈ db.signers) {id : ℕ} (hid : r.workflowId ≠ id) :
    signersOf (recordSignature db r.id signature now) id = signersOf db id := by
  rw [signersOf_recordSignature]
  refine (List.map_congr_left fun x hx => ?_).trans (List.map_id _)
  obtain ⟨hmem, hxid⟩ := mem_signersOf.mp hx
  have hne : x.id ≠ r.id := by
    intro e
    rw [Serial.eq_of_key hmem hr e] at hxid
    exact hid hxid
  simp [hne]

theorem quorum_recordSignature (rowId : ℕ) :
    quorum (recordSignature db rowId signature now) w = quorum db w := by
  unfold quorum
  rw [signersOf_recordSignature, List.length_map]

/-- The workflow counts one approval more. -/
theorem signedRows_recordSignature (h : Approves prim db w r signature) :
    (signedRows (recordSignature db r.id signature now) w).length =
      (signedRows db w).length + 1 := by
  have hnodup : (signersOf db w.id).Nodup :=
    (List.Nodup.of_map _ db.signers.nodup).filter _
  have hmem : r ∈ signersOf db w.id := mem_signersOf.mpr ⟨h.row, h.of_workflow⟩
  rw [signedRows, signedRows, signersOf_recordSignature]
  refine Table.length_filter_flip hnodup hmem (fun x hx => ?_) h.unsigned rfl
  constructor
  · intro e
    exact Serial.eq_of_key (mem_signersOf.mp hx).1 h.row (by simpa using e)
  · rintro rfl
    simp

/-- The other workflows keep their rows. -/
theorem Approves.sameRows (h : Approves prim db w r signature) {v : MultisigWorkflow}
    (hv : v ∈ db.workflows) (hne : v ≠ w) :
    SameRows db (recordSignature db r.id signature now) v := by
  have hid : r.workflowId ≠ v.id := by
    intro e
    exact hne (Serial.eq_of_key hv h.workflow (e.symm.trans h.of_workflow))
  exact .of_eq rfl (fun s hs _ => hs) (signersOf_recordSignature_other h.row hid)

/-- The workflow stays sound: the new approval is one that was verified. -/
theorem Approves.sound (h : Approves prim db w r signature) (hsound : Sound prim db w) :
    Sound prim (recordSignature db r.id signature now) w where
  secret := hsound.secret
  quorum_pos := by
    rw [quorum_recordSignature]
    exact hsound.quorum_pos
  approved := by
    intro x hx
    obtain ⟨hmem, hid, hsigned⟩ := mem_signedRows.mp hx
    obtain ⟨x₀, hx₀, rfl⟩ := Serial.mem_update.mp hmem
    split at hsigned
    · next hsel =>
      obtain rfl := Serial.eq_of_key hx₀ h.row (by simpa using hsel)
      obtain ⟨u, hu, hua, s, hs, hsid, hver⟩ := h.verified
      rw [if_pos hsel]
      exact ⟨u, hu, hua, s, hs, hsid, signature, rfl, hver⟩
    · next hsel =>
      rw [if_neg hsel] at hid ⊢
      exact hsound.approved x₀ (mem_signedRows.mpr ⟨hx₀, hid, hsigned⟩)

/-- The workflow ids of the signer rows stay. -/
theorem recordSignature_workflowId {db : Database} {rowId : ℕ} {x : MultisigWorkflowSigner}
    (h : x ∈ (recordSignature db rowId signature now).signers) :
    ∃ x₀ ∈ db.signers, x.workflowId = x₀.workflowId := by
  obtain ⟨x₀, hx₀, rfl⟩ := Serial.mem_update.mp h
  refine ⟨x₀, hx₀, ?_⟩
  split <;> rfl

theorem Inv.sign (h : Inv prim db) (happ : Approves prim db w r signature)
    (hc : isCompletingSignature db w = false) :
    Inv prim (recordSignature db r.id signature now) where
  good := by
    intro v hv
    have hgood := h.good v hv
    by_cases hvw : v = w
    · subst hvw
      refine { happ.sound hgood.toSound with
        completed := fun hst => absurd (hst.symm.trans happ.pending) fun h => by cases h
        released := hgood.released
        pending := fun _ => ?_ }
      rw [quorum_recordSignature, signedRows_recordSignature happ]
      simpa [isCompletingSignature] using hc
    · exact hgood.carry (happ.sameRows hv hvw) hgood.released
  secret_inj := h.secret_inj
  signer_lt := by
    intro x hx
    obtain ⟨x₀, hx₀, hid⟩ := recordSignature_workflowId hx
    exact hid ▸ h.signer_lt x₀ hx₀
  recipient_lt := h.recipient_lt

/-! ### Completing -/

/-- A release writes keys into the workflow's recipient rows, and leaves none of them without. -/
theorem releaseRecipientKeys_ok {db db' : Database} {w : MultisigWorkflow} {supplied : KeyMap}
    (h : releaseRecipientKeys db w supplied = .ok db') :
    ∃ T, db' = { db with recipients := T } ∧ (∀ x ∈ T, ∃ x₀ ∈ db.recipients,
        x.workflowId = x₀.workflowId ∧ (x.workflowId ≠ w.id → x = x₀)) ∧
      ∀ x ∈ T, x.workflowId = w.id → Option.holdsKey x.encryptedKey = true := by
  simp only [releaseRecipientKeys] at h
  split at h
  · next hnone =>
    cases h
    refine ⟨db.recipients, rfl, fun x hx => ⟨x, hx, rfl, fun _ => rfl⟩, fun x hx hid => ?_⟩
    have hmem : x ∈ recipientsOf db w.id := mem_recipientsOf.mpr ⟨hx, hid⟩
    rw [List.isEmpty_iff.mp hnone] at hmem
    cases hmem
  · split at h
    · cases h
    · split at h
      · next hmissing =>
        cases h
        refine ⟨_, rfl, fun x hx => ?_, fun x hx hid => ?_⟩
        · obtain ⟨x₀, hx₀, rfl⟩ := Serial.mem_update.mp hx
          refine ⟨x₀, hx₀, ?_⟩
          split
          · next hsel => exact ⟨rfl, fun hne => absurd (by simpa using hsel) hne⟩
          · exact ⟨rfl, fun _ => rfl⟩
        · obtain ⟨x₀, hx₀, rfl⟩ := Serial.mem_update.mp hx
          have hsel : (x₀.workflowId == w.id) = true := by
            split at hid <;> simpa using hid
          rw [if_pos hsel]
          have hall := List.filter_eq_nil_iff.mp (List.isEmpty_iff.mp hmissing)
          have hx := hall _ (List.mem_map_of_mem
            (mem_recipientsOf.mpr ⟨hx₀, by simpa using hsel⟩))
          simpa using hx
      · cases h

theorem completeWorkflow_ok {db db' : Database} {w : MultisigWorkflow} {supplied : KeyMap}
    (h : completeWorkflow db w supplied = .ok db') :
    ∃ T, db' = setStatus { db with recipients := T } w.id .completed ∧
      (∀ x ∈ T, ∃ x₀ ∈ db.recipients,
        x.workflowId = x₀.workflowId ∧ (x.workflowId ≠ w.id → x = x₀)) ∧
      ∀ x ∈ T, x.workflowId = w.id → Option.holdsKey x.encryptedKey = true := by
  obtain ⟨db₁, h₁, h⟩ := bind_eq_ok.mp h
  obtain ⟨T, rfl, hT⟩ := releaseRecipientKeys_ok h₁
  cases h
  exact ⟨T, rfl, hT⟩

/-- A row of the workflow table after a status change: another workflow's, or the changed one. -/
theorem mem_setStatus {db : Database} {w v : MultisigWorkflow} (hw : w ∈ db.workflows)
    {st : Status} (h : v ∈ (setStatus db w.id st).workflows) :
    (v ∈ db.workflows ∧ v ≠ w) ∨ v = { w with status := st } := by
  obtain ⟨v₀, hv₀, rfl⟩ := Serial.mem_update.mp h
  split
  · next hsel =>
    obtain rfl := Serial.eq_of_key hv₀ hw (by simpa using hsel)
    exact .inr rfl
  · next hsel =>
    refine .inl ⟨hv₀, ?_⟩
    rintro rfl
    simp at hsel

theorem Inv.complete (h : Inv prim db) (happ : Approves prim db w r signature)
    (hc : isCompletingSignature db w = true) {supplied : KeyMap} {db' : Database}
    (hr : completeWorkflow (recordSignature db r.id signature now) w supplied = .ok db') :
    Inv prim db' := by
  obtain ⟨T, rfl, hold, hkeys⟩ := completeWorkflow_ok hr
  have hsame : SameRows (recordSignature db r.id signature now)
      (setStatus { recordSignature db r.id signature now with recipients := T } w.id .completed) w :=
    .of_eq rfl (fun s hs _ => hs) rfl
  have hw : SameWorkflow w { w with status := .completed } := ⟨rfl, rfl, rfl, rfl⟩
  refine ⟨fun v hv => ?_, fun v hv v' hv' heq => ?_, fun x hx => ?_, fun x hx => ?_⟩
  · rcases mem_setStatus happ.workflow hv with ⟨hv, hne⟩ | rfl
    · have hgood := h.good v hv
      have hid : v.id ≠ w.id := fun e => hne (Serial.eq_of_key hv happ.workflow e)
      have hrows : SameRows db (recordSignature db r.id signature now) v := happ.sameRows hv hne
      refine hgood.carry ⟨hrows.users, hrows.secret, hrows.signers⟩ fun hst x hx => ?_
      obtain ⟨hmem, hxid⟩ := mem_recipientsOf.mp hx
      obtain ⟨x₀, hx₀, -, heq⟩ := hold x hmem
      have hne' : x.workflowId ≠ w.id := by rwa [hxid]
      exact hgood.released hst x (mem_recipientsOf.mpr ⟨heq hne' ▸ hx₀, hxid⟩)
    · have hsound : Sound prim (recordSignature db r.id signature now) w :=
        happ.sound (h.good w happ.workflow).toSound
      refine { hsound.carry hsame hw with
        completed := fun _ => ?_
        released := fun _ x hx => ?_
        pending := fun h => by cases h }
      · rw [hsame.quorum hw, hsame.signedRows hw, quorum_recordSignature,
          signedRows_recordSignature happ]
        simpa [isCompletingSignature] using hc
      · obtain ⟨hmem, hxid⟩ := mem_recipientsOf.mp hx
        exact hkeys x hmem hxid
  · have hkey : ∀ v ∈ (setStatus { recordSignature db r.id signature now with recipients := T }
        w.id .completed).workflows, ∃ v₀ ∈ db.workflows, v.id = v₀.id ∧ v.secretId = v₀.secretId := by
      intro v hv
      rcases mem_setStatus happ.workflow hv with ⟨hv, -⟩ | rfl
      · exact ⟨v, hv, rfl, rfl⟩
      · exact ⟨w, happ.workflow, rfl, rfl⟩
    obtain ⟨v₀, hv₀, hid, hsec⟩ := hkey v hv
    obtain ⟨v₀', hv₀', hid', hsec'⟩ := hkey v' hv'
    have heq₀ := h.secret_inj v₀ hv₀ v₀' hv₀' (by rw [← hsec, ← hsec', heq])
    exact Serial.eq_of_key hv hv' (hid.trans (heq₀ ▸ hid'.symm))
  · obtain ⟨x₀, hx₀, hid⟩ := recordSignature_workflowId hx
    exact hid ▸ h.signer_lt x₀ hx₀
  · obtain ⟨x₀, hx₀, hid, -⟩ := hold x hx
    exact hid ▸ h.recipient_lt x₀ hx₀

end sign

/-! ### Rejecting and removing -/

/-- The row of a rejected workflow. -/
def rejectedRow (a : Address) (now : Time) (w : MultisigWorkflow) : MultisigWorkflow :=
  { w with status := .rejected, rejectedBy := some a, rejectedAt := some now }

theorem Inv.reject (h : Inv prim db) {w : MultisigWorkflow} (a : Address) (now : Time) :
    Inv prim { db with
      workflows := db.workflows.update (·.id == w.id) (rejectedRow a now) (fun _ => rfl) } := by
  have hrow : ∀ v ∈ db.workflows.update (·.id == w.id) (rejectedRow a now) (fun _ => rfl),
      ∃ v₀ ∈ db.workflows, v = v₀ ∨ v = rejectedRow a now v₀ := by
    intro v hv
    obtain ⟨v₀, hv₀, rfl⟩ := Serial.mem_update.mp hv
    refine ⟨v₀, hv₀, ?_⟩
    split
    · exact .inr rfl
    · exact .inl rfl
  refine ⟨fun v hv => ?_, fun v hv v' hv' heq => ?_, h.signer_lt, h.recipient_lt⟩
  · obtain ⟨v₀, hv₀, rfl | rfl⟩ := hrow v hv
    · have hgood := h.good v hv₀
      exact hgood.carry (.of_eq rfl (fun s hs _ => hs) rfl) hgood.released
    · refine { (h.good v₀ hv₀).toSound.carry (.of_eq rfl (fun s hs _ => hs) rfl)
        (⟨rfl, rfl, rfl, rfl⟩ : SameWorkflow v₀ (rejectedRow a now v₀)) with
        completed := fun h => by cases h
        released := fun h => by cases h
        pending := fun h => by cases h }
  · obtain ⟨v₀, hv₀, hv₁⟩ := hrow v hv
    obtain ⟨v₀', hv₀', hv₁'⟩ := hrow v' hv'
    have hsec : v.secretId = v₀.secretId ∧ v.id = v₀.id := by
      rcases hv₁ with rfl | rfl <;> exact ⟨rfl, rfl⟩
    have hsec' : v'.secretId = v₀'.secretId ∧ v'.id = v₀'.id := by
      rcases hv₁' with rfl | rfl <;> exact ⟨rfl, rfl⟩
    have heq₀ := h.secret_inj v₀ hv₀ v₀' hv₀' (by rw [← hsec.1, ← hsec'.1, heq])
    exact Serial.eq_of_key hv hv' (hsec.2.trans (heq₀ ▸ hsec'.2.symm))

theorem Inv.dropWorkflow (h : Inv prim db) {w : MultisigWorkflow} (hw : w ∈ db.workflows) :
    Inv prim (deleteWorkflowRows db w) := by
  have hkept : ∀ v ∈ (deleteWorkflowRows db w).workflows, v ∈ db.workflows ∧ v.id ≠ w.id := by
    intro v hv
    obtain ⟨hv, hne⟩ := Serial.mem_delete.mp hv
    exact ⟨hv, by simpa using hne⟩
  refine ⟨fun v hv => ?_, fun v hv v' hv' => ?_, fun x hx => ?_, fun x hx => ?_⟩
  · obtain ⟨hv, hne⟩ := hkept v hv
    have hgood := h.good v hv
    have hsecret : v.secretId ≠ w.secretId := by
      intro e
      exact hne (congrArg _ (h.secret_inj v hv w hw e))
    have hsigners : signersOf (deleteWorkflowRows db w) v.id = signersOf db v.id := by
      refine Table.where'_delete fun r _ hr => ?_
      have hid : r.workflowId = v.id := by simpa using hr
      simpa [hid] using hne
    refine hgood.carry (.of_eq rfl (fun s hs hid => ?_) hsigners) fun hst x hx => ?_
    · exact Serial.mem_delete.mpr ⟨hs, by simpa [hid] using hsecret⟩
    · obtain ⟨hmem, hid⟩ := mem_recipientsOf.mp hx
      exact hgood.released hst x (mem_recipientsOf.mpr ⟨(Serial.mem_delete.mp hmem).1, hid⟩)
  · exact h.secret_inj v (hkept v hv).1 v' (hkept v' hv').1
  · exact h.signer_lt x (Serial.mem_delete.mp hx).1
  · exact h.recipient_lt x (Serial.mem_delete.mp hx).1

theorem Inv.dropRecipients (h : Inv prim db) (p : MultisigWorkflowRecipient → Bool) :
    Inv prim { db with recipients := db.recipients.delete p } where
  good := fun w hw => by
    have hgood := h.good w hw
    refine hgood.carry (.of_eq rfl (fun s hs _ => hs) rfl) fun hst x hx => ?_
    obtain ⟨hmem, hid⟩ := mem_recipientsOf.mp hx
    exact hgood.released hst x (mem_recipientsOf.mpr ⟨(Serial.mem_delete.mp hmem).1, hid⟩)
  secret_inj := h.secret_inj
  signer_lt := h.signer_lt
  recipient_lt := fun x hx => h.recipient_lt x (Serial.mem_delete.mp hx).1

/-! ### Rewrapping -/

theorem Inv.rewrapSigner (h : Inv prim db) (id : ℕ) (key : Document) :
    Inv prim { db with
      signers := db.signers.update (·.id == id) (fun s => { s with encryptedKey := some key })
        (fun _ => rfl) } where
  good := fun w hw => by
    have hgood := h.good w hw
    refine hgood.carry ⟨fun u hu => ⟨u, hu, rfl, rfl⟩, fun s hs _ => hs, ?_⟩ hgood.released
    refine ⟨_, Table.where'_update db.signers.toTable (·.id == id) (·.workflowId == w.id)
      (fun s => { s with encryptedKey := some key }) (fun _ => rfl) (fun _ => rfl), fun r => ?_⟩
    split <;> exact ⟨rfl, rfl, rfl⟩
  secret_inj := h.secret_inj
  signer_lt := by
    intro x hx
    obtain ⟨x₀, hx₀, rfl⟩ := Serial.mem_update.mp hx
    have hlt := h.signer_lt x₀ hx₀
    split <;> exact hlt
  recipient_lt := h.recipient_lt

theorem Inv.rewrapRecipient (h : Inv prim db) (id : ℕ) {key : Document}
    (hkey : key.truthy = true) :
    Inv prim { db with
      recipients := db.recipients.update (·.id == id)
        (fun r => { r with encryptedKey := some key }) (fun _ => rfl) } where
  good := fun w hw => by
    have hgood := h.good w hw
    refine hgood.carry (.of_eq rfl (fun s hs _ => hs) rfl) fun hst x hx => ?_
    obtain ⟨hmem, hid⟩ := mem_recipientsOf.mp hx
    obtain ⟨x₀, hx₀, rfl⟩ := Serial.mem_update.mp hmem
    split at hid
    · next hsel =>
      rw [if_pos hsel]
      exact hkey
    · next hsel =>
      rw [if_neg hsel]
      exact hgood.released hst x₀ (mem_recipientsOf.mpr ⟨hx₀, hid⟩)
  secret_inj := h.secret_inj
  signer_lt := h.signer_lt
  recipient_lt := by
    intro x hx
    obtain ⟨x₀, hx₀, rfl⟩ := Serial.mem_update.mp hx
    have hlt := h.recipient_lt x₀ hx₀
    split <;> exact hlt

/-- Every move keeps the invariant. -/
theorem Inv.move {uploads : ℕ → Prop} {db' : Database} (h : Inv prim db)
    (hm : Move prim uploads db db') : Inv prim db' := by
  cases hm with
  | messaging db' hsame =>
    obtain ⟨⟨hs, -, -, hw, hr, hc⟩, hu⟩ := hsame
    exact h.of_same hw hr hc fun w _ =>
      .of_eq hu (fun s hmem _ => hs ▸ hmem) (by rw [signersOf, signersOf, hr])
  | strip mode now a => exact h.strip mode now a
  | newSecret now owner data =>
    exact h.of_same rfl rfl rfl fun w _ =>
      .of_eq rfl (fun s hs _ => Serial.mem_insert.mpr (.inl hs)) rfl
  | editSecret id name encryptedData hfree => exact h.editSecret hfree name encryptedData
  | dropSecret id hfree => exact h.dropSecret hfree
  | grants T _ => exact h.of_same rfl rfl rfl fun w _ => .of_eq rfl (fun s hs _ => hs) rfl
  | uploadChunk secret _ index data iv _ =>
    exact h.of_same rfl rfl rfl fun w _ => .of_eq rfl (fun s hs _ => hs) rfl
  | newWorkflow now owner req hthr => exact h.newWorkflow now owner req hthr.1
  | sign w r signature now happ hc => exact h.sign happ hc
  | complete w r signature now supplied db' happ hc hr => exact h.complete happ hc hr
  | reject w hw _ a now => exact h.reject a now
  | dropWorkflow w hw _ => exact h.dropWorkflow hw
  | dropRecipients p _ => exact h.dropRecipients p
  | rewrapSigner id key => exact h.rewrapSigner id key
  | rewrapRecipient id key hkey => exact h.rewrapRecipient id hkey

end moves

/-! ## Runs -/

section runs

variable {prim : Primitives} {cfg : Config} {db db' : Database}

theorem Inv.of_initial (h : Initial db) : Inv prim db where
  good := by
    intro w hw
    have hnone : signedRows db w = [] := by
      refine List.eq_nil_iff_forall_not_mem.mpr fun r hr => ?_
      obtain ⟨hmem, -, hsigned⟩ := mem_signedRows.mp hr
      rw [h.unsigned r hmem] at hsigned
      cases hsigned
    have hpending := h.pending w hw
    exact {
      secret := h.secret w hw
      quorum_pos := h.quorum_pos w hw
      approved := by rw [hnone]; exact fun _ h => by cases h
      completed := fun hst => absurd (hst.symm.trans hpending) fun h => by cases h
      released := fun hst => absurd (hst.symm.trans hpending) fun h => by cases h
      pending := fun _ => by rw [hnone]; exact h.quorum_pos w hw }
  secret_inj := h.secret_inj
  signer_lt := by
    intro r hr
    obtain ⟨w, hw, hid⟩ := h.signer r hr
    exact hid ▸ Serial.key_lt hw
  recipient_lt := by
    intro r hr
    obtain ⟨w, hw, hid⟩ := h.recipient r hr
    exact hid ▸ Serial.key_lt hw

theorem Inv.step {e : Event} (h : Inv prim db) (hs : Step prim cfg db e db') : Inv prim db' := by
  cases e with
  | call c =>
    obtain rfl : (serve prim cfg db c).1 = db' := hs
    exact Moves.invariant (fun _ _ hI hm => hI.move hm) (serve_moves c) h
  | elsewhere =>
    obtain ⟨⟨hsec, -, -, hw, hr, hc⟩, hid⟩ := hs
    exact h.of_same hw hr hc fun w _ => ⟨hid, fun s hmem _ => hsec ▸ hmem,
      ⟨id, by rw [signersOf, signersOf, hr, List.map_id], fun _ => ⟨rfl, rfl, rfl⟩⟩⟩

theorem Inv.of_reachable (h : Reachable prim cfg db) : Inv prim db := by
  obtain ⟨db₀, events, h₀, hrun⟩ := h
  exact hrun.invariant (fun _ _ _ hI hs => hI.step hs) (.of_initial h₀)

/-- Whatever workflow is there later and was there before is the same one, and its status is the
same if it had been decided. -/
def Lasting (db db' : Database) : Prop :=
  db.workflows.next ≤ db'.workflows.next ∧ ∀ w' ∈ db'.workflows, w'.id < db.workflows.next →
    ∃ w ∈ db.workflows, SameWorkflow w w' ∧ (w.status ≠ .pending → w'.status = w.status)

theorem Lasting.refl (db : Database) : Lasting db db :=
  ⟨le_rfl, fun w hw _ => ⟨w, hw, .refl w, fun _ => rfl⟩⟩

theorem Lasting.trans {db₁ db₂ db₃ : Database} (h : Lasting db₁ db₂) (h' : Lasting db₂ db₃) :
    Lasting db₁ db₃ := by
  refine ⟨h.1.trans h'.1, fun w₃ hw₃ hlt => ?_⟩
  obtain ⟨w₂, hw₂, hsame₂, hst₂⟩ := h'.2 w₃ hw₃ (hlt.trans_le h.1)
  obtain ⟨w₁, hw₁, hsame₁, hst₁⟩ := h.2 w₂ hw₂ (hsame₂.id ▸ hlt)
  refine ⟨w₁, hw₁, ⟨hsame₂.id.trans hsame₁.id, hsame₂.secretId.trans hsame₁.secretId,
    hsame₂.ownerAddress.trans hsame₁.ownerAddress, hsame₂.threshold.trans hsame₁.threshold⟩,
    fun hne => ?_⟩
  have hst := hst₁ hne
  rw [hst₂ (by rwa [hst]), hst]

theorem Lasting.of_workflows (h : db'.workflows = db.workflows) : Lasting db db' := by
  refine ⟨by rw [h], fun w hw _ => ⟨w, h ▸ hw, .refl w, fun _ => rfl⟩⟩

/-- Only a pending workflow changes its status. -/
theorem lasting_of_move {uploads : ℕ → Prop} (hm : Move prim uploads db db') : Lasting db db' := by
  cases hm with
  | messaging db' hsame => exact .of_workflows hsame.1.2.2.2.1
  | newWorkflow now owner req _ =>
    refine ⟨Nat.le_succ _, fun w hw hlt => ?_⟩
    rcases mem_insertSecretAndWorkflow_workflows hw with hw | rfl
    · exact ⟨w, hw, .refl w, fun _ => rfl⟩
    · exact absurd hlt (lt_irrefl _)
  | complete w r signature now supplied db' happ hc hr =>
    obtain ⟨T, rfl, -⟩ := completeWorkflow_ok hr
    refine ⟨le_rfl, fun v hv _ => ?_⟩
    rcases mem_setStatus happ.workflow hv with ⟨hv, -⟩ | rfl
    · exact ⟨v, hv, .refl v, fun _ => rfl⟩
    · exact ⟨w, happ.workflow, ⟨rfl, rfl, rfl, rfl⟩, fun hne => absurd happ.pending hne⟩
  | reject w hw hpending a now =>
    refine ⟨le_rfl, fun v hv _ => ?_⟩
    obtain ⟨v₀, hv₀, rfl⟩ := Serial.mem_update.mp hv
    split
    · next hsel =>
      obtain rfl := Serial.eq_of_key hv₀ hw (by simpa using hsel)
      exact ⟨v₀, hv₀, ⟨rfl, rfl, rfl, rfl⟩, fun hne => absurd hpending hne⟩
    · exact ⟨v₀, hv₀, .refl v₀, fun _ => rfl⟩
  | dropWorkflow w _ _ =>
    exact ⟨le_rfl, fun v hv _ => ⟨v, (Serial.mem_delete.mp hv).1, .refl v, fun _ => rfl⟩⟩
  | _ => exact .of_workflows rfl

theorem lasting_of_moves {uploads : ℕ → Prop} (h : Moves prim uploads db db') : Lasting db db' := by
  induction h with
  | refl => exact .refl db
  | tail _ hm ih => exact ih.trans (lasting_of_move hm)

theorem lasting_of_step {e : Event} (h : Step prim cfg db e db') : Lasting db db' := by
  cases e with
  | call c =>
    obtain rfl : (serve prim cfg db c).1 = db' := h
    exact lasting_of_moves (serve_moves c)
  | elsewhere => exact .of_workflows h.1.2.2.2.1

theorem lasting_of_run {events : List Event} (h : Run (Step prim cfg) db events db') :
    Lasting db db' :=
  h.preserves (I := fun _ => True) Lasting.refl (fun _ _ _ => Lasting.trans)
    (fun _ _ _ _ _ => trivial) (fun _ _ _ _ => lasting_of_step) trivial

/-- In every reachable state a completed workflow has its quorum of verified approvals and every
recipient's key, a pending one has fewer, and a decided status stays in every run from there. -/
theorem quorum_of_reachable (h : Reachable prim cfg db) :
    (∀ w ∈ db.workflows, w.status = .completed →
      (signedRows db w).Nodup ∧ quorum db w ≤ (signedRows db w).length ∧
      (∀ r ∈ signedRows db w, Approved prim db w r) ∧
      ∀ r ∈ recipientsOf db w.id, Option.holdsKey r.encryptedKey = true) ∧
    (∀ w ∈ db.workflows, w.status = .pending → (signedRows db w).length < quorum db w) ∧
    ∀ events db', Run (Step prim cfg) db events db' →
      ∀ w ∈ db.workflows, w.status ≠ .pending → ∀ w' ∈ db'.workflows, w'.id = w.id →
        w'.status = w.status := by
  have hinv := Inv.of_reachable h
  refine ⟨fun w hw hst => ?_, fun w hw => (hinv.good w hw).pending, ?_⟩
  · have hgood := hinv.good w hw
    have hnodup : (signedRows db w).Nodup :=
      ((List.Nodup.of_map _ db.signers.nodup).filter _).filter _
    exact ⟨hnodup, hgood.completed hst, hgood.approved, hgood.released hst⟩
  · intro events db' hrun w hw hne w' hw' hid
    obtain ⟨w₀, hw₀, hsame, hst⟩ := (lasting_of_run hrun).2 w' hw' (hid ▸ Serial.key_lt hw)
    obtain rfl := Serial.eq_of_key hw₀ hw (hsame.id.symm.trans hid)
    exact hst hne

end runs

/-! ## A run of three users -/

/-- Primitives for runs on fixed inputs: a signature is the key and the text it signs. -/
def samplePrimitives : Primitives where
  sha384Hex text := text
  verifyIdentitySignature key message signature := signature == key ++ message
  unicodeDigit _ := none

def sampleConfig : Config := ⟨"sample", [], 10, 1000, 1000⟩

def sampleUser (name : String) : User :=
  ⟨lower name, name, some name, none, none, none, none, none, 0, none, false⟩

/-- Three users, and nothing stored. -/
def sampleStart : Database where
  __ := Database.empty
  users := ⟨[sampleUser "alice", sampleUser "bob", sampleUser "carol"], by decide⟩

def sampleCall (name : String) (request : Request) : Call := ⟨1, ⟨name, 0⟩, request⟩

/-- Alice asks Bob to approve a secret for Carol. -/
def sampleCreate : Call := sampleCall "alice" <| .createWorkflow
  ⟨"deal", ⟨"title", "sealed", .notJson "key of alice"⟩, ["bob"], ["carol"],
    [("bob", .notJson "key of bob")], [("carol", .notJson "key of carol")], 1⟩

/-- Bob approves it. -/
def sampleSign : Call := sampleCall "bob" <| .signWorkflow 0
  ⟨"bob" ++ multisigApprovalMessage 0 0 "sealed", []⟩

theorem initial_sampleStart : Initial sampleStart := .of_empty rfl rfl rfl rfl rfl

theorem reachable_sample (calls : List Call) :
    Reachable samplePrimitives sampleConfig
      (serveAll samplePrimitives sampleConfig sampleStart calls) :=
  ⟨sampleStart, calls.map .call, initial_sampleStart, run_serveAll _ _ calls _⟩

/-- The workflow that Bob completed has its one approval and Carol's key. -/
theorem quorum_of_reachable_sample :
    ∃ w ∈ (serveAll samplePrimitives sampleConfig sampleStart [sampleCreate, sampleSign]).workflows,
      w.status = .completed ∧ quorum
          (serveAll samplePrimitives sampleConfig sampleStart [sampleCreate, sampleSign]) w ≤
        (signedRows
          (serveAll samplePrimitives sampleConfig sampleStart [sampleCreate, sampleSign]) w).length := by
  have hmem : ∃ w ∈ (serveAll samplePrimitives sampleConfig sampleStart
      [sampleCreate, sampleSign]).workflows.rows, w.status = .completed := by decide
  obtain ⟨w, hw, hst⟩ := hmem
  have hq := (quorum_of_reachable (reachable_sample [sampleCreate, sampleSign])).1 w hw hst
  exact ⟨w, hw, hst, hq.2.1⟩

end Kryptolog.Server
