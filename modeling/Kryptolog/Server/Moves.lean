import Kryptolog.Server.Requests

/-! # What a request can do

Every request is a sequence of `Move`s, single changes to the tables under the guard that the
code checks before it makes them. The invariants of the server are proved move by move, so a
changed endpoint costs one proof here (`endpoint_moves`) and none there.

* `Move prim uploads`: the changes. Chunks are added to secrets in `uploads` only, so that a run
  can say to which secrets a request may upload.
* `serve_moves`: a request is a sequence of moves.
-/

namespace Kryptolog.Server
set_option autoImplicit false

open Tables Json Fallible Relation

/-- The tables that hold secrets and workflows stay, and so do the users. -/
def Messaging (db db' : Database) : Prop := SameSecrets db db' ∧ db'.users = db.users

theorem Messaging.refl (db : Database) : Messaging db db := ⟨⟨rfl, rfl, rfl, rfl, rfl, rfl⟩, rfl⟩

theorem Messaging.trans {db₁ db₂ db₃ : Database} (h : Messaging db₁ db₂) (h' : Messaging db₂ db₃) :
    Messaging db₁ db₃ := by
  obtain ⟨⟨a, b, c, d, e, f⟩, g⟩ := h
  obtain ⟨⟨a', b', c', d', e', f'⟩, g'⟩ := h'
  exact ⟨⟨a'.trans a, b'.trans b, c'.trans c, d'.trans d, e'.trans e, f'.trans f⟩, g'.trans g⟩

/-- Is the row one that the signer `u` of the open workflow `w` has not signed yet, and does `u`'s
signature verify over what is stored? -/
structure Approves (prim : Primitives) (db : Database) (w : MultisigWorkflow)
    (r : MultisigWorkflowSigner) (signature : String) : Prop where
  workflow : w ∈ db.workflows
  pending : w.status = .pending
  row : r ∈ db.signers
  of_workflow : r.workflowId = w.id
  unsigned : r.hasSigned = false
  verified : ∃ u ∈ db.users, u.address = r.userAddress ∧ ∃ s ∈ db.secrets, s.id = w.secretId ∧
    prim.verifyIdentitySignature u.identityPublicKey (approvalMessage prim w s) signature = true

/-- One change to the tables, with what the code has checked before it. -/
inductive Move (prim : Primitives) (uploads : ℕ → Prop) (db : Database) : Database → Prop
  | messaging (db' : Database) (h : Messaging db db') : Move prim uploads db db'
  | strip (mode : Mode) (now : Time) (a : Address) :
      Move prim uploads db { db with
        users := db.users.update (·.address == a) (stripIdentity mode now) (fun _ => rfl) }
  | newSecret (now : Time) (owner : Address) (data : SecretCreate) :
      Move prim uploads db (insertSecretWithOwnerGrant db now owner data)
  | editSecret (id : ℕ) (name encryptedData : String) (h : isWorkflowManaged db id = false) :
      Move prim uploads db { db with
        secrets := db.secrets.update (·.id == id)
          (fun s => { s with name := name, encryptedData := encryptedData }) (fun _ => rfl) }
  | dropSecret (id : ℕ) (h : isWorkflowManaged db id = false) :
      Move prim uploads db (deleteSecretRows db id)
  | grants (T : Serial AccessGrant)
      (h : ∀ g ∈ T, (∃ g₀ ∈ db.accessGrants, g.secretId = g₀.secretId ∧
          g.granteeAddress = g₀.granteeAddress) ∨
        ∃ s ∈ db.secrets, s.id = g.secretId ∧ isWorkflowManaged db g.secretId = false) :
      Move prim uploads db { db with accessGrants := T }
  | uploadChunk (secret : Secret) (hs : secret ∈ db.secrets) (index : ℕ) (data iv : String)
      (h : uploads secret.id) :
      Move prim uploads db { db with
        fileChunks := db.fileChunks.insert (fun id => ⟨id, secret.id, index, data, iv⟩)
          (fun _ => rfl) }
  | newWorkflow (now : Time) (owner : Address) (req : MultisigWorkflowCreate)
      (h : 1 ≤ req.threshold ∧ req.threshold ≤ (normalizedAddresses req.signers).length) :
      Move prim uploads db (insertSecretAndWorkflow db now owner req)
  | sign (w : MultisigWorkflow) (r : MultisigWorkflowSigner) (signature : String) (now : Time)
      (h : Approves prim db w r signature) (hc : isCompletingSignature db w = false) :
      Move prim uploads db (recordSignature db r.id signature now)
  | complete (w : MultisigWorkflow) (r : MultisigWorkflowSigner) (signature : String) (now : Time)
      (supplied : KeyMap) (db' : Database) (h : Approves prim db w r signature)
      (hc : isCompletingSignature db w = true)
      (hr : completeWorkflow (recordSignature db r.id signature now) w supplied = .ok db') :
      Move prim uploads db db'
  | reject (w : MultisigWorkflow) (hw : w ∈ db.workflows) (h : w.status = .pending) (a : Address)
      (now : Time) :
      Move prim uploads db { db with
        workflows := db.workflows.update (·.id == w.id)
          (fun w => { w with status := .rejected, rejectedBy := some a, rejectedAt := some now })
          (fun _ => rfl) }
  | dropWorkflow (w : MultisigWorkflow) (hw : w ∈ db.workflows) (h : w.status ≠ .completed) :
      Move prim uploads db (deleteWorkflowRows db w)
  | dropRecipients (p : MultisigWorkflowRecipient → Bool)
      (h : ∀ r ∈ db.recipients, p r = true → ∀ w ∈ db.workflows, w.id = r.workflowId →
        w.status ≠ .completed) :
      Move prim uploads db { db with recipients := db.recipients.delete p }
  | rewrapSigner (id : ℕ) (key : Document) :
      Move prim uploads db { db with
        signers := db.signers.update (·.id == id) (fun s => { s with encryptedKey := some key })
          (fun _ => rfl) }
  | rewrapRecipient (id : ℕ) (key : Document) (h : key.truthy = true) :
      Move prim uploads db { db with
        recipients := db.recipients.update (·.id == id)
          (fun r => { r with encryptedKey := some key }) (fun _ => rfl) }

/-- Moves one after the other. -/
abbrev Moves (prim : Primitives) (uploads : ℕ → Prop) : Database → Database → Prop :=
  ReflTransGen (Move prim uploads)

/-- What every move keeps, every sequence of moves keeps. -/
theorem Moves.invariant {prim : Primitives} {uploads : ℕ → Prop} {I : Database → Prop}
    (hmove : ∀ db db', I db → Move prim uploads db db' → I db') {db db' : Database}
    (h : Moves prim uploads db db') (hI : I db) : I db' := by
  induction h with
  | refl => exact hI
  | tail _ hm ih => exact hmove _ _ ih hm

/-! ## What the helpers find -/

theorem findUser_mem {db : Database} {a : Address} {u : User} (h : findUser db a = some u) :
    u ∈ db.users ∧ u.address = a := by
  obtain ⟨hu, ha⟩ := Table.find?_mem h
  exact ⟨hu, by simpa using ha⟩

theorem getCurrentUser_ok {db : Database} {token : Token} {u : User}
    (h : getCurrentUser db token = .ok u) :
    u ∈ db.users ∧ u.address = lower token.sub ∧ u.active = true := by
  unfold getCurrentUser userForToken at h
  split at h
  · next u' hu' =>
    cases h
    obtain ⟨hfind, hok⟩ := Option.filter_eq_some_iff.mp hu'
    obtain ⟨hmem, ha⟩ := findUser_mem hfind
    exact ⟨hmem, ha, (Bool.and_eq_true_iff.mp hok).1⟩
  · cases h

theorem findUser_of_mem {db : Database} {u : User} (hu : u ∈ db.users) :
    findUser db u.address = some u := by
  have hkey := Table.find?_key hu
  simpa only [findUser, key_user, beq_eq_decide] using hkey

theorem getCurrentUser_of_active {db : Database} {u : User} (hu : u ∈ db.users) (hactive : u.active = true) :
    getCurrentUser db ⟨u.address.text, u.tokenVersion⟩ = .ok u := by
  simp [getCurrentUser, userForToken, findUser_of_mem hu, Option.filter, hactive]

theorem loadSecret_ok {db : Database} {now : Time} {id : ℕ} {a : Address}
    {allowed : Secret → Address → Bool} {s : Secret}
    (h : loadSecret db now id a allowed = .ok s) :
    s ∈ db.secrets ∧ s.id = id ∧ allowed s a = true := by
  unfold loadSecret at h
  split at h
  · cases h
  · next s' hs' =>
    obtain ⟨hmem, hid⟩ := Table.find?_mem hs'
    split at h
    · next ha =>
      cases h
      exact ⟨hmem, by simpa using hid, ha⟩
    · cases h

theorem loadWorkflowOr404_ok {db : Database} {id : ℕ} {w : MultisigWorkflow}
    (h : loadWorkflowOr404 db id = .ok w) : w ∈ db.workflows ∧ w.id = id := by
  unfold loadWorkflowOr404 at h
  split at h
  · next w' hw' =>
    cases h
    obtain ⟨hmem, hid⟩ := Table.find?_mem hw'
    exact ⟨hmem, by simpa using hid⟩
  · cases h

theorem findWorkflowSigner_mem {db : Database} {id : ℕ} {a : Address} {r : MultisigWorkflowSigner}
    (h : findWorkflowSigner db id a = some r) :
    r ∈ db.signers ∧ r.workflowId = id ∧ r.userAddress = a := by
  obtain ⟨hmem, hp⟩ := Table.find?_mem h
  simp only [Bool.and_eq_true, beq_iff_eq] at hp
  exact ⟨hmem, hp.1, hp.2⟩

theorem openForSigner_ok {db : Database} {caller : User} {id : ℕ}
    {w : MultisigWorkflow} {r : MultisigWorkflowSigner}
    (h : openForSigner db caller id = .ok (w, r)) :
    w ∈ db.workflows ∧ w.id = id ∧ w.status = .pending ∧
      r ∈ db.signers ∧ r.workflowId = w.id ∧ r.userAddress = caller.address := by
  unfold openForSigner at h
  obtain ⟨w', hw', h⟩ := bind_eq_ok.mp h
  obtain ⟨hmem, hid⟩ := loadWorkflowOr404_ok hw'
  split at h
  · cases h
  · next r' hr' =>
    split at h
    · cases h
    · next hst =>
      obtain ⟨rfl, rfl⟩ : w' = w ∧ r' = r := by simpa using h
      obtain ⟨hr, hrw, hra⟩ := findWorkflowSigner_mem hr'
      exact ⟨hmem, hid, by simpa using hst, hr, hrw, hra⟩

theorem verifyApproval_ok {prim : Primitives} {db : Database} {w : MultisigWorkflow} {u : User}
    {signature : String} (h : verifyApproval prim db w u signature = .ok ()) :
    ∃ s ∈ db.secrets, s.id = w.secretId ∧
      prim.verifyIdentitySignature u.identityPublicKey (approvalMessage prim w s) signature = true := by
  unfold verifyApproval at h
  split at h
  · cases h
  · next s hs =>
    obtain ⟨hmem, hid⟩ := Table.find?_mem hs
    exact ⟨s, hmem, by simpa using hid, by simpa using refuseIf_eq_ok.mp h⟩

/-! ## Secrets and grants -/

section endpoints

variable {prim : Primitives} {cfg : Config} {uploads : ℕ → Prop} {db : Database} {now : Time}
  {caller : User}

theorem createSecret_move {data : SecretCreate} {r : Database × SecretResponse}
    (h : createSecret cfg db now caller data = .ok r) : Move prim uploads db r.1 := by
  simp only [createSecret, createSecretWithOwnerGrant, bind_eq_ok] at h
  obtain ⟨_, ⟨_, -, hnew⟩, h⟩ := h
  cases hnew
  cases h
  exact .newSecret now caller.address data

theorem updateSecret_move {id : ℕ} {data : SecretCreate} {r : Database × SecretResponse}
    (h : updateSecret cfg db now caller id data = .ok r) : Move prim uploads db r.1 := by
  simp only [updateSecret, bind_eq_ok, refuseIfWorkflowManaged, refuseIf_eq_ok] at h
  obtain ⟨_, -, _, hfree, _, -, h⟩ := h
  cases h
  exact .editSecret id data.name data.encryptedData hfree

theorem deleteSecret_move {id : ℕ} {db' : Database} (h : deleteSecret db now caller id = .ok db') :
    Move prim uploads db db' := by
  simp only [deleteSecret, bind_eq_ok, refuseIfWorkflowManaged, refuseIf_eq_ok] at h
  obtain ⟨_, -, _, hfree, h⟩ := h
  cases h
  exact .dropSecret id hfree

/-- Fewer grants, or the same ones with another key, is a move. -/
theorem grants_move {T : Serial AccessGrant}
    (h : ∀ g ∈ T, ∃ g₀ ∈ db.accessGrants, g.secretId = g₀.secretId ∧
      g.granteeAddress = g₀.granteeAddress) :
    Move prim uploads db { db with accessGrants := T } :=
  .grants T fun g hg => .inl (h g hg)

theorem purgeExpiredGrants_move (scope : AccessGrant → Bool) :
    Move prim uploads db (purgeExpiredGrants db now scope) :=
  grants_move fun g hg => ⟨g, (Serial.mem_delete.mp hg).1, rfl, rfl⟩

theorem upsertGrant_move {s : Secret} (hs : s ∈ db.secrets) (hfree : isWorkflowManaged db s.id = false)
    (grantee : Address) (key : Document) (expiresAt : Option Time) :
    Move prim uploads db (upsertGrant db now s.id grantee key expiresAt) := by
  simp only [upsertGrant]
  split
  · refine grants_move fun g hg => ?_
    obtain ⟨g₀, hg₀, rfl⟩ := Serial.mem_update.mp hg
    refine ⟨g₀, hg₀, ?_⟩
    split <;> exact ⟨rfl, rfl⟩
  · refine .grants _ fun g hg => ?_
    rcases Serial.mem_insert.mp hg with hg | rfl
    · exact .inl ⟨g, hg, rfl, rfl⟩
    · exact .inr ⟨s, hs, rfl, hfree⟩

theorem shareSecret_move {grant : AccessGrantCreate} {r : Database × Option AccessGrant}
    (h : shareSecret db now caller grant = .ok r) : Move prim uploads db r.1 := by
  simp only [shareSecret, bind_eq_ok, refuseIfWorkflowManaged, refuseIf_eq_ok] at h
  obtain ⟨s, hs, _, hfree, _, -, _, -, h⟩ := h
  obtain ⟨hmem, hid, -⟩ := loadSecret_ok hs
  cases h
  rw [← hid] at hfree ⊢
  exact upsertGrant_move hmem hfree _ _ _

theorem revokeGrant_move {id : ℕ} {db' : Database} (h : revokeGrant db now caller id = .ok db') :
    Move prim uploads db db' := by
  unfold revokeGrant at h
  split at h
  · cases h
  · split at h
    · cases h
    · split at h
      · cases h
      · split at h
        · cases h
        · simp only [bind_eq_ok, refuseIfWorkflowManaged, refuseIf_eq_ok] at h
          obtain ⟨_, -, h⟩ := h
          cases h
          exact grants_move fun g hg => ⟨g, (Serial.mem_delete.mp hg).1, rfl, rfl⟩

theorem getSecretAccess_move {id limit offset : ℕ} {r : Database × List AccessGrant}
    (h : getSecretAccess db now caller id limit offset = .ok r) : Move prim uploads db r.1 := by
  simp only [getSecretAccess, bind_eq_ok] at h
  obtain ⟨_, -, h⟩ := h
  cases h
  exact purgeExpiredGrants_move _

/-- What an upload needs besides a secret of the caller: room in the caller's quota and in the
file, and an index that is free. -/
structure FitsChunk (cfg : Config) (db : Database) (a : Address) (chunk : FileChunkUpload) :
    Prop where
  quota : storedChars db a + chunk.encryptedData.length ≤ cfg.maxStoredCharsPerUser
  size : 3 * (((db.fileChunks.where' (·.secretId == chunk.secretId)).map
    (·.encryptedData.length)).sum + chunk.encryptedData.length) ≤ 4 * cfg.maxTotalFileSize
  fresh : ∀ c ∈ db.fileChunks, c.secretId = chunk.secretId → c.chunkIndex ≠ chunk.chunkIndex

/-- The row that an upload stores. -/
def newChunk (chunk : FileChunkUpload) (id : ℕ) : FileChunk :=
  ⟨id, chunk.secretId, chunk.chunkIndex, chunk.encryptedData, chunk.iv⟩

theorem key_newChunk (chunk : FileChunkUpload) (id : ℕ) : Keyed.key (newChunk chunk id) = id := rfl

/-- The database with one more chunk. -/
def insertChunk (db : Database) (chunk : FileChunkUpload) : Database :=
  { db with fileChunks := db.fileChunks.insert (newChunk chunk) (key_newChunk chunk) }

/-- An upload is accepted where the secret is the caller's and the chunk fits, whether a workflow
manages the secret or not. -/
theorem uploadChunk_eq_ok {chunk : FileChunkUpload} {db' : Database} :
    uploadChunk cfg db now caller chunk = .ok db' ↔
      (∃ s ∈ db.secrets, s.id = chunk.secretId ∧ s.ownerAddress = caller.address) ∧
        FitsChunk cfg db caller.address chunk ∧ insertChunk db chunk = db' := by
  simp only [uploadChunk, checkNewBytes, bind_eq_ok, refuseIf_eq_ok, decide_eq_false_iff_not, not_lt,
    Table.any_eq_false]
  constructor
  · rintro ⟨s, hs, _, hquota, _, hsize, _, hfresh, h⟩
    obtain ⟨hmem, hid, hown⟩ := loadSecret_ok hs
    cases h
    refine ⟨⟨s, hmem, hid, by simpa [canWriteSecret] using hown⟩, ⟨hquota, hsize, ?_⟩, rfl⟩
    intro c hc hcs hci
    simpa [hcs, hci] using hfresh c hc
  · rintro ⟨⟨s, hs, hid, hown⟩, ⟨hquota, hsize, hfresh⟩, rfl⟩
    have hfind : db.secrets.find? (·.id == chunk.secretId) = some s := by
      have hkey := Table.find?_key (T := db.secrets.toTable) hs
      simpa only [key_secret, hid, beq_eq_decide] using hkey
    have hload : loadSecret db now chunk.secretId caller.address canWriteSecret = .ok s := by
      rw [loadSecret, hfind]
      exact if_pos (by simp [canWriteSecret, hown])
    refine ⟨s, hload, (), hquota, (), hsize, (), fun c hc => ?_, rfl⟩
    by_cases hcs : c.secretId = chunk.secretId
    · simpa [hcs] using hfresh c hc hcs
    · simp [hcs]

/-! ## Workflows -/

theorem createMultisigWorkflow_move {req : MultisigWorkflowCreate}
    {r : Database × MultisigWorkflowResponse}
    (h : createMultisigWorkflow cfg db now caller req = .ok r) : Move prim uploads db r.1 := by
  simp only [createMultisigWorkflow, createSecretWithOwnerGrant, bind_eq_ok, refuseIf_eq_ok] at h
  obtain ⟨_, -, _, hthr, _, -, _, -, _, ⟨_, -, hnew⟩, _, -, _, -, h⟩ := h
  cases hnew
  cases h
  simp only [Bool.or_eq_false_iff, decide_eq_false_iff_not, not_lt] at hthr
  exact .newWorkflow now caller.address req hthr

theorem signMultisigWorkflow_move {id : ℕ} {req : MultisigSignatureRequest}
    {r : Database × MultisigWorkflowResponse} (hcaller : caller ∈ db.users)
    (h : signMultisigWorkflow prim db now caller id req = .ok r) : Move prim uploads db r.1 := by
  simp only [signMultisigWorkflow, bind_eq_ok, refuseIf_eq_ok] at h
  obtain ⟨⟨w, row⟩, hopen, _, hunsigned, _, hver, _, -, db', hdb', _, -, _, -, h⟩ := h
  cases h
  obtain ⟨hw, -, hpending, hrow, hrw, hra⟩ := openForSigner_ok hopen
  have happroves : Approves prim db w row req.signature :=
    ⟨hw, hpending, hrow, hrw, hunsigned, caller, hcaller, hra.symm, verifyApproval_ok hver⟩
  split at hdb'
  · next hc => exact .complete w row req.signature now req.recipientKeys db' happroves hc hdb'
  · next hc =>
    cases hdb'
    exact .sign w row req.signature now happroves (by simpa using hc)

theorem rejectMultisigWorkflow_move {id : ℕ} {r : Database × MultisigWorkflowResponse}
    (h : rejectMultisigWorkflow db now caller id = .ok r) : Move prim uploads db r.1 := by
  simp only [rejectMultisigWorkflow, bind_eq_ok] at h
  obtain ⟨⟨w, row⟩, hopen, _, -, _, -, h⟩ := h
  cases h
  obtain ⟨hw, -, hpending, -⟩ := openForSigner_ok hopen
  exact .reject w hw hpending caller.address now

theorem deleteMultisigWorkflow_move {id : ℕ} {db' : Database}
    (h : deleteMultisigWorkflow db caller id = .ok db') : Move prim uploads db db' := by
  simp only [deleteMultisigWorkflow, bind_eq_ok, refuseIf_eq_ok] at h
  obtain ⟨w, hw, _, -, _, hdel, h⟩ := h
  cases h
  exact .dropWorkflow w (loadWorkflowOr404_ok hw).1 (by simpa [workflowIsDeletable] using hdel)

/-! ## Rewrapping -/

theorem replaceWrap_move {item : StaleWrap} (h : item.encryptedKey.truthy = true) :
    Move prim uploads db (replaceWrap db item) := by
  unfold replaceWrap
  split
  · refine grants_move fun g hg => ?_
    obtain ⟨g₀, hg₀, rfl⟩ := Serial.mem_update.mp hg
    refine ⟨g₀, hg₀, ?_⟩
    split <;> exact ⟨rfl, rfl⟩
  · exact .rewrapSigner item.id item.encryptedKey
  · exact .rewrapRecipient item.id item.encryptedKey h

theorem replaceWraps_moves {items : List StaleWrap}
    (h : ∀ item ∈ items, item.encryptedKey.truthy = true) :
    Moves prim uploads db (items.foldl replaceWrap db) := by
  induction items generalizing db with
  | nil => exact .refl
  | cons item items ih =>
    have hhead : Move prim uploads db (replaceWrap db item) :=
      replaceWrap_move (h item List.mem_cons_self)
    exact .head hhead (ih fun i hi => h i (List.mem_cons_of_mem _ hi))

theorem rewrap_moves {items : List StaleWrap} {db' : Database}
    (h : rewrap db now caller items = .ok db') : Moves prim uploads db db' := by
  simp only [rewrap, bind_eq_ok] at h
  obtain ⟨_, -, _, hchecks, h⟩ := h
  cases h
  refine replaceWraps_moves fun item hitem => ?_
  have hcheck := forM_eq_ok.mp hchecks item hitem
  simp only [checkRewrap, bind_eq_ok, refuseIf_eq_ok] at hcheck
  obtain ⟨_, -, ok, hok, hne⟩ := hcheck
  cases ok with
  | false => cases hne
  | true => exact truthy_of_isWrappedKeyFor hok

end endpoints

/-! ## Messages and groups -/

theorem setStore_messaging (db : Database) (kind : Kind) (rows : Serial Message) :
    Messaging db (db.setStore kind rows) := by
  cases kind <;> exact ⟨⟨rfl, rfl, rfl, rfl, rfl, rfl⟩, rfl⟩

theorem foldl_messaging {α : Type} {f : Database → α → Database}
    (hf : ∀ db x, Messaging db (f db x)) (xs : List α) (db : Database) :
    Messaging db (xs.foldl f db) :=
  Runs.foldl_rel Messaging.refl (fun _ _ _ => Messaging.trans) hf xs db

theorem setContents_messaging (pending : List Redaction) (db : Database) :
    Messaging db (pending.foldl setContent db) :=
  foldl_messaging (fun db _ => setStore_messaging db _ _) pending db

theorem applyRedactions_messaging {prim : Primitives} {db db' : Database} {author : User}
    {signatures : List (String × String)} {scope : Scope} {n : ℕ}
    (h : applyRedactions prim db author signatures scope = .ok (db', n)) : Messaging db db' := by
  simp only [applyRedactions, bind_eq_ok] at h
  obtain ⟨pending, -, h⟩ := h
  cases h
  exact setContents_messaging pending db

theorem deleteOwnMessages_messaging {db db' : Database} {a : Address} {scope : Scope} {n : ℕ}
    (h : deleteOwnMessages db a scope = .ok (db', n)) : Messaging db db' := by
  simp only [deleteOwnMessages, bind_eq_ok] at h
  obtain ⟨_, -, h⟩ := h
  cases h
  exact ⟨⟨rfl, rfl, rfl, rfl, rfl, rfl⟩, rfl⟩

theorem succeedGroupOwner_messaging (db : Database) (channel : GroupChannel)
    (remaining : List GroupMember) : Messaging db (succeedGroupOwner db channel remaining) := by
  simp only [succeedGroupOwner]
  split <;> exact ⟨⟨rfl, rfl, rfl, rfl, rfl, rfl⟩, rfl⟩

theorem leaveGroup_messaging (a : Address) (db : Database) (m : GroupMember) :
    Messaging db (leaveGroup a db m) := by
  simp only [leaveGroup]
  split
  · exact .refl db
  · next channel _ =>
    have hown : Messaging db (if m.role == "owner" then succeedGroupOwner db channel
        (db.groupMembers.where' fun m => m.channelId == channel.id && m.userAddress != a)
        else db) := by
      split
      · exact succeedGroupOwner_messaging db channel _
      · exact .refl db
    exact hown.trans ⟨⟨rfl, rfl, rfl, rfl, rfl, rfl⟩, rfl⟩

theorem leaveAllGroups_messaging (db : Database) (a : Address) :
    Messaging db (leaveAllGroups db a) :=
  (foldl_messaging (leaveGroup_messaging a) _ db).trans
    (foldl_messaging (fun db c => succeedGroupOwner_messaging db c _) _ _)

theorem claimNonce_messaging (db : Database) (now : Time) (a : Address) (nonce : String) :
    Messaging db (claimNonce db now a nonce).1 := ⟨⟨rfl, rfl, rfl, rfl, rfl, rfl⟩, rfl⟩

/-! ## Deleting an account -/

section deletion

variable {prim : Primitives} {cfg : Config} {uploads : ℕ → Prop} {db db' : Database} {now : Time}
  {caller : User} {a : Address}

/-- Workflows of the table that are not completed can go one after the other: what goes with one
is none of the others. -/
theorem deleteWorkflows_moves {ws : List MultisigWorkflow} (hnodup : (ws.map (·.id)).Nodup)
    (hws : ∀ w ∈ ws, w ∈ db.workflows ∧ w.status ≠ .completed) :
    Moves prim uploads db (ws.foldl deleteWorkflowRows db) := by
  induction ws generalizing db with
  | nil => exact .refl
  | cons w ws ih =>
    obtain ⟨hw, hst⟩ := hws w List.mem_cons_self
    rw [List.map_cons, List.nodup_cons] at hnodup
    refine .head (.dropWorkflow w hw hst) (ih hnodup.2 fun v hv => ?_)
    obtain ⟨hmem, hv'⟩ := hws v (List.mem_cons_of_mem _ hv)
    have hne : v.id ≠ w.id := fun e => hnodup.1 (e ▸ List.mem_map_of_mem hv)
    exact ⟨Serial.mem_delete.mpr ⟨hmem, by simpa using hne⟩, hv'⟩

theorem eraseMultisig_moves : Moves prim uploads db (eraseMultisig db a) := by
  have hnodup : ((db.workflows.where' fun w =>
      w.ownerAddress == a && workflowIsDeletable w).map (·.id)).Nodup :=
    db.workflows.nodup.sublist (List.filter_sublist.map _)
  refine .tail (deleteWorkflows_moves hnodup fun w hw => ?_) (.dropRecipients _ fun r _ hp w hw hid => ?_)
  · obtain ⟨hmem, hp⟩ := Table.mem_where'.mp hw
    rw [Bool.and_eq_true] at hp
    exact ⟨hmem, by simpa [workflowIsDeletable] using hp.2⟩
  · rw [Bool.and_eq_true, Bool.not_eq_true'] at hp
    have hnot := Table.any_eq_false.mp hp.2 w hw
    simpa [hid] using hnot

theorem eraseSecrets_moves : Moves prim uploads db (eraseSecrets db a) := by
  have hfold : ∀ (ss : List Secret) (d : Database), d.workflows = db.workflows →
      (∀ s ∈ ss, isWorkflowManaged db s.id = false) →
      Moves prim uploads d (ss.foldl (fun db s => deleteSecretRows db s.id) d) := by
    intro ss
    induction ss with
    | nil => exact fun d _ _ => .refl
    | cons s ss ih =>
      intro d hd hfree
      have hs : isWorkflowManaged d s.id = false := by
        rw [isWorkflowManaged, hd]
        exact hfree s List.mem_cons_self
      exact .head (.dropSecret s.id hs)
        (ih _ hd fun t ht => hfree t (List.mem_cons_of_mem _ ht))
  refine .tail (hfold _ db rfl fun s hs => ?_)
    (grants_move fun g hg => ⟨g, (Serial.mem_delete.mp hg).1, rfl, rfl⟩)
  obtain ⟨-, hp⟩ := Table.mem_where'.mp hs
  simpa using (Bool.and_eq_true_iff.mp hp).2

theorem dropHoldings_moves (mode : Mode) : Moves prim uploads db (dropHoldings db a mode) := by
  have hleft := leaveAllGroups_messaging db a
  cases mode with
  | leave => exact .single (.messaging _ hleft)
  | erase => exact .head (.messaging _ hleft) (eraseMultisig_moves.trans eraseSecrets_moves)

theorem removeAccount_moves (mode : Mode) :
    Moves prim uploads db (removeAccount db now a mode) := by
  let dropped := dropHoldings db a mode
  let cleared := { dropped with nonces := dropped.nonces.delete (·.address == a) }
  have hclear : Move prim uploads dropped cleared :=
    .messaging cleared ⟨⟨rfl, rfl, rfl, rfl, rfl, rfl⟩, rfl⟩
  have hstrip : Move prim uploads cleared (removeAccount db now a mode) := .strip mode now a
  exact ((dropHoldings_moves mode).tail hclear).tail hstrip

theorem deleteAccount_moves {mode : Mode} (h : deleteAccount db now a mode = .ok db') :
    Moves prim uploads db db' := by
  cases mode with
  | leave =>
    cases h
    exact removeAccount_moves .leave
  | erase =>
    obtain ⟨⟨db₁, n⟩, h₁, rfl⟩ := map_eq_ok.mp h
    exact .head (.messaging _ (deleteOwnMessages_messaging h₁)) (removeAccount_moves .erase)

theorem eraseAccount_moves {redactions : List (String × String)} {r : Database × EraseResponse}
    (h : eraseAccount prim db now caller redactions = .ok r) : Moves prim uploads db r.1 := by
  simp only [eraseAccount, bind_eq_ok] at h
  obtain ⟨⟨db₁, n⟩, happly, keys, -, h⟩ := h
  have hmsg := applyRedactions_messaging happly
  split at h
  · cases h
    exact .single (.messaging _ hmsg)
  · simp only [bind_eq_ok] at h
    obtain ⟨kept, -, db₂, hdel, h⟩ := h
    cases h
    exact .head (.messaging _ hmsg) (deleteAccount_moves hdel)

theorem performDeletion_moves (mode : Mode) (req : EraseRequest) :
    Moves prim uploads db (performDeletion prim cfg db now caller mode req).1 := by
  have hclaim := claimNonce_messaging db now caller.address req.nonce
  simp only [performDeletion]
  split
  · exact .single (.messaging _ hclaim)
  · refine .head (.messaging _ hclaim) ?_
    unfold transaction
    split
    · next db' r h =>
      obtain ⟨_, -, h⟩ := bind_eq_ok.mp h
      cases mode with
      | leave =>
        simp only [bind_eq_ok] at h
        obtain ⟨_, -, db₂, hdel, h⟩ := h
        cases h
        exact deleteAccount_moves hdel
      | erase => exact eraseAccount_moves h
    · exact .refl

theorem eraseScope_messaging {scope : Kind × String} {redactions : List (String × String)}
    {r : Database × EraseResponse} (h : eraseScope prim db caller scope redactions = .ok r) :
    Messaging db r.1 := by
  simp only [eraseScope, bind_eq_ok] at h
  obtain ⟨⟨db₁, n⟩, happly, keys, -, h⟩ := h
  have hmsg := applyRedactions_messaging happly
  split at h
  · cases h
    exact hmsg
  · simp only [bind_eq_ok] at h
    obtain ⟨kept, -, ⟨db₂, deleted⟩, hdel, h⟩ := h
    cases h
    exact hmsg.trans (deleteOwnMessages_messaging hdel)

theorem eraseConversation_messaging (kind : Kind) (conversation : String) (req : EraseRequest) :
    Messaging db (eraseConversation prim cfg db now caller kind conversation req).1 := by
  have hclaim := claimNonce_messaging db now caller.address req.nonce
  simp only [eraseConversation]
  split
  · exact .refl db
  · split
    · exact hclaim
    · refine hclaim.trans ?_
      unfold transaction
      split
      · next db' r h =>
        obtain ⟨_, -, h⟩ := bind_eq_ok.mp h
        exact eraseScope_messaging h
      · exact .refl _

end deletion

/-! ## Every request -/

section requests

variable {prim : Primitives} {cfg : Config} {uploads : ℕ → Prop} {db : Database} {now : Time}
  {caller : User}

/-- An endpoint commits what it returns or nothing. -/
theorem committed_moves {α : Type} {r : Except Fault (Database × α)}
    (h : ∀ db' x, r = .ok (db', x) → Moves prim uploads db db') :
    Moves prim uploads db (committed db r).1 := by
  cases r with
  | error fault => exact .refl
  | ok p => exact h p.1 p.2 rfl

theorem committed'_moves {r : Except Fault Database}
    (h : ∀ db', r = .ok db' → Moves prim uploads db db') :
    Moves prim uploads db (committed' db r).1 := by
  cases r with
  | error fault => exact .refl
  | ok db' => exact h db' rfl

/-- The request is an upload to the secret that is accepted. -/
def UploadsTo (cfg : Config) (db : Database) (caller : User) (request : Request) (secretId : ℕ) :
    Prop :=
  ∃ chunk, request = .uploadChunk chunk ∧ chunk.secretId = secretId ∧
    (∃ s ∈ db.secrets, s.id = secretId ∧ s.ownerAddress = caller.address) ∧
    FitsChunk cfg db caller.address chunk

theorem endpoint_moves (hcaller : caller ∈ db.users) (request : Request) :
    Moves prim (UploadsTo cfg db caller request) db
      (endpoint prim cfg db now caller request).1 := by
  cases request with
  | createSecret data => exact committed_moves fun _ _ h => .single (createSecret_move h)
  | updateSecret id data => exact committed_moves fun _ _ h => .single (updateSecret_move h)
  | deleteSecret id => exact committed'_moves fun _ h => .single (deleteSecret_move h)
  | shareSecret grant => exact committed_moves fun _ _ h => .single (shareSecret_move h)
  | revokeGrant id => exact committed'_moves fun _ h => .single (revokeGrant_move h)
  | getSecretAccess id limit offset =>
    exact committed_moves fun _ _ h => .single (getSecretAccess_move h)
  | getSharedSecrets limit offset => exact .single (purgeExpiredGrants_move _)
  | uploadChunk chunk =>
    refine committed'_moves fun _ h => .single ?_
    obtain ⟨⟨s, hs, hid, hown⟩, hfits, rfl⟩ := uploadChunk_eq_ok.mp h
    have hup : UploadsTo cfg db caller (.uploadChunk chunk) s.id :=
      ⟨chunk, rfl, hid.symm, ⟨s, hs, rfl, hown⟩, hfits⟩
    unfold insertChunk newChunk
    rw [← hid]
    exact .uploadChunk s hs _ _ _ hup
  | createWorkflow req =>
    exact committed_moves fun _ _ h => .single (createMultisigWorkflow_move h)
  | signWorkflow id req =>
    exact committed_moves fun _ _ h => .single (signMultisigWorkflow_move hcaller h)
  | rejectWorkflow id => exact committed_moves fun _ _ h => .single (rejectMultisigWorkflow_move h)
  | deleteWorkflow id => exact committed'_moves fun _ h => .single (deleteMultisigWorkflow_move h)
  | rewrap items => exact committed'_moves fun _ h => rewrap_moves h
  | deleteAccount mode req => exact performDeletion_moves mode req
  | eraseConversation kind conversation req =>
    exact .single (.messaging _ (eraseConversation_messaging kind conversation req))

/-- The call uploads to the secret, in its owner's name. -/
def Call.UploadsTo (cfg : Config) (db : Database) (call : Call) (secretId : ℕ) : Prop :=
  ∃ caller, getCurrentUser db call.token = .ok caller ∧
    Server.UploadsTo cfg db caller call.request secretId

/-- A request is a sequence of moves. It adds chunks to a secret only where it is an upload to that
secret. -/
theorem serve_moves (call : Call) :
    Moves prim (call.UploadsTo cfg db) db (serve prim cfg db call).1 := by
  unfold serve
  split
  · exact .refl
  · next caller hcaller =>
    obtain ⟨hmem, -, -⟩ := getCurrentUser_ok hcaller
    have hup : call.UploadsTo cfg db = Server.UploadsTo cfg db caller call.request := by
      funext id
      simp [Call.UploadsTo, hcaller]
    rw [hup]
    exact endpoint_moves hmem call.request

end requests

end Kryptolog.Server
