import Kryptolog.Server.OwnerGrants
import Kryptolog.Server.StaleWraps

/-! # Who wrote what a secret holds

A secret is a ciphertext with its chunks and, in its grants, the wraps of its key. The ciphertext and the chunks
come from requests of its owner. A wrap comes from the owner too, unless its grantee has replaced it.
-/

namespace Kryptolog.Server
set_option autoImplicit false

open Tables Json Fallible Runs

/-! ## Requests that write nothing -/

/-- Every row was there before. -/
structure AddsNothing (db db' : Database) : Prop where
  secret : ∀ s ∈ db'.secrets, s ∈ db.secrets
  grant : ∀ g ∈ db'.accessGrants, g ∈ db.accessGrants
  chunk : ∀ c ∈ db'.fileChunks, c ∈ db.fileChunks

section nothing

variable {prim : Primitives} {cfg : Config} {db db' db'' : Database} {now : Time} {caller : User}

theorem AddsNothing.refl (db : Database) : AddsNothing db db := ⟨fun _ h => h, fun _ h => h, fun _ h => h⟩

theorem AddsNothing.trans (h : AddsNothing db db') (h' : AddsNothing db' db'') : AddsNothing db db'' where
  secret _ hs := h.secret _ (h'.secret _ hs)
  grant _ hg := h.grant _ (h'.grant _ hg)
  chunk _ hc := h.chunk _ (h'.chunk _ hc)

theorem AddsNothing.of_same (hs : db'.secrets = db.secrets) (hg : db'.accessGrants = db.accessGrants)
    (hc : db'.fileChunks = db.fileChunks) : AddsNothing db db' where
  secret _ hmem := hs ▸ hmem
  grant _ hmem := hg ▸ hmem
  chunk _ hmem := hc ▸ hmem

theorem AddsNothing.of_messaging (h : Messaging db db') : AddsNothing db db' := .of_same h.1.1 h.1.2.1 h.1.2.2.1

theorem addsNothing_deleteSecretRows (db : Database) (id : ℕ) : AddsNothing db (deleteSecretRows db id) where
  secret _ hs := (Serial.mem_delete.mp hs).1
  grant _ hg := (Serial.mem_delete.mp hg).1
  chunk _ hc := (Serial.mem_delete.mp hc).1

theorem addsNothing_deleteGrants (p : AccessGrant → Bool) :
    AddsNothing db { db with accessGrants := db.accessGrants.delete p } where
  secret _ hs := hs
  grant _ hg := (Serial.mem_delete.mp hg).1
  chunk _ hc := hc

theorem deleteSecret_addsNothing {id : ℕ} (h : deleteSecret db now caller id = .ok db') :
    AddsNothing db db' := by
  simp only [deleteSecret, bind_eq_ok] at h
  obtain ⟨_, -, _, -, h⟩ := h
  cases h
  exact addsNothing_deleteSecretRows db id

theorem revokeGrant_addsNothing {grantId : ℕ} (h : revokeGrant db now caller grantId = .ok db') :
    AddsNothing db db' := by
  unfold revokeGrant at h
  split at h
  · cases h
  · split at h
    · cases h
    · split at h
      · cases h
      · split at h
        · cases h
        · simp only [bind_eq_ok] at h
          obtain ⟨_, -, h⟩ := h
          cases h
          exact addsNothing_deleteGrants _

theorem getSecretAccess_addsNothing {secretId limit offset : ℕ} {r : Database × List AccessGrant}
    (h : getSecretAccess db now caller secretId limit offset = .ok r) : AddsNothing db r.1 := by
  simp only [getSecretAccess, bind_eq_ok] at h
  obtain ⟨_, -, h⟩ := h
  cases h
  exact addsNothing_deleteGrants _

theorem signMultisigWorkflow_addsNothing {workflowId : ℕ} {req : MultisigSignatureRequest}
    {r : Database × MultisigWorkflowResponse}
    (h : signMultisigWorkflow prim db now caller workflowId req = .ok r) : AddsNothing db r.1 := by
  simp only [signMultisigWorkflow, bind_eq_ok] at h
  obtain ⟨⟨w, row⟩, -, _, -, _, -, _, -, db', hdb', _, -, _, -, h⟩ := h
  cases h
  split at hdb'
  · obtain ⟨T, rfl, -⟩ := completeWorkflow_ok hdb'
    exact .of_same rfl rfl rfl
  · cases hdb'
    exact .of_same rfl rfl rfl

theorem rejectMultisigWorkflow_addsNothing {workflowId : ℕ} {r : Database × MultisigWorkflowResponse}
    (h : rejectMultisigWorkflow db now caller workflowId = .ok r) : AddsNothing db r.1 := by
  simp only [rejectMultisigWorkflow, bind_eq_ok] at h
  obtain ⟨⟨w, row⟩, -, _, -, _, -, h⟩ := h
  cases h
  exact .of_same rfl rfl rfl

theorem addsNothing_deleteWorkflowRows (db : Database) (w : MultisigWorkflow) :
    AddsNothing db (deleteWorkflowRows db w) :=
  (addsNothing_deleteSecretRows db w.secretId).trans (.of_same rfl rfl rfl)

theorem deleteMultisigWorkflow_addsNothing {workflowId : ℕ}
    (h : deleteMultisigWorkflow db caller workflowId = .ok db') : AddsNothing db db' := by
  simp only [deleteMultisigWorkflow, bind_eq_ok] at h
  obtain ⟨w, -, _, -, _, -, h⟩ := h
  cases h
  exact addsNothing_deleteWorkflowRows db w

theorem eraseMultisig_addsNothing (db : Database) (a : Address) : AddsNothing db (eraseMultisig db a) := by
  have hfold := foldl_rel .refl (fun _ _ _ => .trans) addsNothing_deleteWorkflowRows
    (db.workflows.where' fun w => w.ownerAddress == a && workflowIsDeletable w) db
  exact hfold.trans (.of_same rfl rfl rfl)

theorem eraseSecrets_addsNothing (db : Database) (a : Address) : AddsNothing db (eraseSecrets db a) := by
  have hfold := foldl_rel .refl (fun _ _ _ => .trans) (fun db s => addsNothing_deleteSecretRows db s.id)
    (db.secrets.where' fun s => s.ownerAddress == a && !isWorkflowManaged db s.id) db
  exact hfold.trans (addsNothing_deleteGrants _)

theorem removeAccount_addsNothing (a : Address) (mode : Mode) : AddsNothing db (removeAccount db now a mode) := by
  have hleft : AddsNothing db (leaveAllGroups db a) := .of_messaging (leaveAllGroups_messaging db a)
  have hdropped : AddsNothing db (dropHoldings db a mode) := by
    cases mode with
    | leave => exact hleft
    | erase => exact hleft.trans ((eraseMultisig_addsNothing _ a).trans (eraseSecrets_addsNothing _ a))
  exact hdropped.trans (.of_same rfl rfl rfl)

theorem deleteAccount_addsNothing {a : Address} {mode : Mode} (h : deleteAccount db now a mode = .ok db') :
    AddsNothing db db' := by
  cases mode with
  | leave =>
    cases h
    exact removeAccount_addsNothing a .leave
  | erase =>
    obtain ⟨⟨db₁, n⟩, h₁, rfl⟩ := map_eq_ok.mp h
    exact (AddsNothing.of_messaging (deleteOwnMessages_messaging h₁)).trans (removeAccount_addsNothing a .erase)

theorem eraseAccount_addsNothing {redactions : List (String × String)} {r : Database × EraseResponse}
    (h : eraseAccount prim db now caller redactions = .ok r) : AddsNothing db r.1 := by
  simp only [eraseAccount, bind_eq_ok] at h
  obtain ⟨⟨db₁, n⟩, happly, keys, -, h⟩ := h
  have hmsg : AddsNothing db db₁ := .of_messaging (applyRedactions_messaging happly)
  split at h
  · cases h
    exact hmsg
  · simp only [bind_eq_ok] at h
    obtain ⟨kept, -, db₂, hdel, h⟩ := h
    cases h
    exact hmsg.trans (deleteAccount_addsNothing hdel)

theorem performDeletion_addsNothing (mode : Mode) (req : EraseRequest) :
    AddsNothing db (performDeletion prim cfg db now caller mode req).1 := by
  have hclaim : AddsNothing db (claimNonce db now caller.address req.nonce).1 :=
    .of_messaging (claimNonce_messaging db now caller.address req.nonce)
  simp only [performDeletion]
  split
  · exact hclaim
  · refine hclaim.trans ?_
    unfold transaction
    split
    · next db' r hr =>
      obtain ⟨_, -, hr⟩ := bind_eq_ok.mp hr
      cases mode with
      | leave =>
        simp only [bind_eq_ok] at hr
        obtain ⟨_, -, db₂, hdel, hr⟩ := hr
        cases hr
        exact deleteAccount_addsNothing hdel
      | erase => exact eraseAccount_addsNothing hr
    · exact .refl _

theorem committed_addsNothing {α : Type} {r : Except Fault (Database × α)}
    (h : ∀ p, r = .ok p → AddsNothing db p.1) : AddsNothing db (committed db r).1 := by
  cases r with
  | error fault => exact .refl db
  | ok p => exact h p rfl

theorem committed'_addsNothing {r : Except Fault Database} (h : ∀ db', r = .ok db' → AddsNothing db db') :
    AddsNothing db (committed' db r).1 := by
  cases r with
  | error fault => exact .refl db
  | ok db' => exact h db' rfl

end nothing

/-! ## Requests that write -/

/-- The request comes from this address. -/
def Call.By (db : Database) (call : Call) (a : Address) : Prop :=
  ∃ caller, getCurrentUser db call.token = .ok caller ∧ caller.address = a

/-- The request comes from the owner of the secret. -/
def Call.ByOwner (db : Database) (call : Call) (secretId : ℕ) : Prop :=
  ∃ s ∈ db.secrets, s.id = secretId ∧ call.By db s.ownerAddress

/-- The row is what the request asks the server to write for the caller's own secret. -/
def Call.WritesSecret (db : Database) (call : Call) (s : Secret) : Prop :=
  call.By db s.ownerAddress ∧ match call.request with
    | .createSecret data => s = ⟨db.secrets.next, s.ownerAddress, data.name, data.encryptedData⟩
    | .createWorkflow req =>
      s = ⟨db.secrets.next, s.ownerAddress, req.secretData.name, req.secretData.encryptedData⟩
    | .updateSecret id data => s = ⟨id, s.ownerAddress, data.name, data.encryptedData⟩
    | _ => False

/-- The wrap in the grant is what the request brings for it. -/
def Call.WritesWrap (db : Database) (call : Call) (g : AccessGrant) : Prop :=
  match call.request with
  | .createSecret data =>
    call.By db g.granteeAddress ∧ g.secretId = db.secrets.next ∧ g.encryptedKey = data.encryptedKey
  | .createWorkflow req =>
    call.By db g.granteeAddress ∧ g.secretId = db.secrets.next ∧ g.encryptedKey = req.secretData.encryptedKey
  | .shareSecret grant => call.ByOwner db g.secretId ∧ grant.secretId = g.secretId ∧
      lower grant.granteeAddress = g.granteeAddress ∧ g.encryptedKey = grant.encryptedKey
  | .rewrap items => call.By db g.granteeAddress ∧
      ∃ item ∈ items, item.kind = .grant ∧ item.id = g.id ∧ item.encryptedKey = g.encryptedKey
  | _ => False

def Call.WritesChunk (db : Database) (call : Call) (c : FileChunk) : Prop :=
  match call.request with
  | .uploadChunk chunk => call.ByOwner db c.secretId ∧ c = newChunk chunk c.id
  | _ => False

/-- The same wrap for the same grantee: the time and the expiry of a grant do not matter. -/
def AccessGrant.SameWrap (g g' : AccessGrant) : Prop :=
  g.id = g'.id ∧ g.secretId = g'.secretId ∧ g.granteeAddress = g'.granteeAddress ∧ g.encryptedKey = g'.encryptedKey

/-- Every row was there before, or the request writes it. -/
structure Explained (db : Database) (call : Call) (db' : Database) : Prop where
  secret : ∀ s ∈ db'.secrets, s ∈ db.secrets ∨ call.WritesSecret db s
  grant : ∀ g ∈ db'.accessGrants, (∃ g₀ ∈ db.accessGrants, g₀.SameWrap g) ∨ call.WritesWrap db g
  chunk : ∀ c ∈ db'.fileChunks, c ∈ db.fileChunks ∨ call.WritesChunk db c

section writes

variable {prim : Primitives} {cfg : Config} {db db' : Database} {now : Time} {caller : User} {call : Call}

theorem AddsNothing.explained (h : AddsNothing db db') : Explained db call db' where
  secret s hs := .inl (h.secret s hs)
  grant g hg := .inl ⟨g, h.grant g hg, rfl, rfl, rfl, rfl⟩
  chunk c hc := .inl (h.chunk c hc)

theorem Explained.committed {α : Type} {r : Except Fault (Database × α)}
    (h : ∀ p, r = .ok p → Explained db call p.1) : Explained db call (committed db r).1 := by
  cases r with
  | error fault => exact (AddsNothing.refl db).explained
  | ok p => exact h p rfl

theorem Explained.committed' {r : Except Fault Database} (h : ∀ db', r = .ok db' → Explained db call db') :
    Explained db call (committed' db r).1 := by
  cases r with
  | error fault => exact (AddsNothing.refl db).explained
  | ok db' => exact h db' rfl

/-- The rows that `insertSecretWithOwnerGrant` adds are the secret and the owner's grant. -/
theorem insertSecretWithOwnerGrant_explained {owner : Address} {data : SecretCreate}
    (hsecret : call.WritesSecret db ⟨db.secrets.next, owner, data.name, data.encryptedData⟩)
    (hgrant : call.WritesWrap db ⟨db.accessGrants.next, db.secrets.next, owner, data.encryptedKey, now, none⟩) :
    Explained db call (insertSecretWithOwnerGrant db now owner data) := by
  refine ⟨fun s hs => ?_, fun g hg => ?_, fun c hc => .inl hc⟩
  · rcases Serial.mem_insert.mp hs with hs | rfl
    · exact .inl hs
    · exact .inr hsecret
  · rcases Serial.mem_insert.mp hg with hg | rfl
    · exact .inl ⟨g, hg, rfl, rfl, rfl, rfl⟩
    · exact .inr hgrant

theorem createSecret_explained {token : Token} {data : SecretCreate} {r : Database × SecretResponse}
    (hcaller : getCurrentUser db token = .ok caller) (h : createSecret cfg db now caller data = .ok r) :
    Explained db ⟨now, token, .createSecret data⟩ r.1 := by
  simp only [createSecret, createSecretWithOwnerGrant, bind_eq_ok] at h
  obtain ⟨_, ⟨_, -, hnew⟩, h⟩ := h
  cases hnew
  cases h
  exact insertSecretWithOwnerGrant_explained ⟨⟨caller, hcaller, rfl⟩, rfl⟩ ⟨⟨caller, hcaller, rfl⟩, rfl, rfl⟩

theorem createMultisigWorkflow_explained {token : Token} {req : MultisigWorkflowCreate}
    {r : Database × MultisigWorkflowResponse} (hcaller : getCurrentUser db token = .ok caller)
    (h : createMultisigWorkflow cfg db now caller req = .ok r) :
    Explained db ⟨now, token, .createWorkflow req⟩ r.1 := by
  simp only [createMultisigWorkflow, createSecretWithOwnerGrant, bind_eq_ok] at h
  obtain ⟨_, -, _, -, _, -, _, -, _, ⟨_, -, hnew⟩, _, -, _, -, h⟩ := h
  cases hnew
  cases h
  -- the rows of the workflow are in tables of their own
  obtain ⟨hsecret, hgrant, hchunk⟩ : Explained db ⟨now, token, .createWorkflow req⟩
      (insertSecretWithOwnerGrant db now caller.address req.secretData) :=
    insertSecretWithOwnerGrant_explained ⟨⟨caller, hcaller, rfl⟩, rfl⟩ ⟨⟨caller, hcaller, rfl⟩, rfl, rfl⟩
  exact ⟨hsecret, hgrant, hchunk⟩

theorem owner_of_loadSecret {secretId : ℕ} {s : Secret}
    (h : loadSecret db now secretId caller.address canManageSecret = .ok s) :
    s ∈ db.secrets ∧ s.id = secretId ∧ caller.address = s.ownerAddress := by
  obtain ⟨hmem, hid, hallowed⟩ := loadSecret_ok h
  exact ⟨hmem, hid, (beq_iff_eq.mp hallowed).symm⟩

theorem updateSecret_explained {token : Token} {id : ℕ} {data : SecretCreate} {r : Database × SecretResponse}
    (hcaller : getCurrentUser db token = .ok caller) (h : updateSecret cfg db now caller id data = .ok r) :
    Explained db ⟨now, token, .updateSecret id data⟩ r.1 := by
  simp only [updateSecret, bind_eq_ok] at h
  obtain ⟨s, hs, _, -, _, -, h⟩ := h
  obtain ⟨hmem, hid, howner⟩ := owner_of_loadSecret hs
  cases h
  refine ⟨fun s' hs' => ?_, fun g hg => .inl ⟨g, hg, rfl, rfl, rfl, rfl⟩, fun c hc => .inl hc⟩
  obtain ⟨s₀, hs₀, rfl⟩ := Serial.mem_update.mp hs'
  split
  · next hp =>
    obtain rfl := Serial.eq_of_key hs₀ hmem ((beq_iff_eq.mp hp).trans hid.symm)
    refine .inr ⟨⟨caller, hcaller, howner⟩, ?_⟩
    rw [← hid]
  · exact .inl hs₀

theorem shareSecret_explained {token : Token} {grant : AccessGrantCreate} {r : Database × Option AccessGrant}
    (hcaller : getCurrentUser db token = .ok caller) (h : shareSecret db now caller grant = .ok r) :
    Explained db ⟨now, token, .shareSecret grant⟩ r.1 := by
  simp only [shareSecret, bind_eq_ok] at h
  obtain ⟨s, hs, _, -, _, -, _, -, h⟩ := h
  obtain ⟨hmem, hid, howner⟩ := owner_of_loadSecret hs
  have howner : Call.ByOwner db ⟨now, token, .shareSecret grant⟩ grant.secretId :=
    ⟨s, hmem, hid, caller, hcaller, howner⟩
  cases h
  simp only [upsertGrant]
  split
  · refine ⟨fun s' hs' => .inl hs', fun g hg => ?_, fun c hc => .inl hc⟩
    obtain ⟨g₀, hg₀, rfl⟩ := Serial.mem_update.mp hg
    split
    · next hsame =>
      rw [Bool.and_eq_true, beq_iff_eq, beq_iff_eq] at hsame
      refine .inr ⟨?_, hsame.1.symm, hsame.2.symm, rfl⟩
      rw [← hsame.1] at howner
      exact howner
    · exact .inl ⟨g₀, hg₀, rfl, rfl, rfl, rfl⟩
  · refine ⟨fun s' hs' => .inl hs', fun g hg => ?_, fun c hc => .inl hc⟩
    rcases Serial.mem_insert.mp hg with hg | rfl
    · exact .inl ⟨g, hg, rfl, rfl, rfl, rfl⟩
    · exact .inr ⟨howner, rfl, rfl, rfl⟩

theorem uploadChunk_explained {token : Token} {chunk : FileChunkUpload}
    (hcaller : getCurrentUser db token = .ok caller) (h : uploadChunk cfg db now caller chunk = .ok db') :
    Explained db ⟨now, token, .uploadChunk chunk⟩ db' := by
  obtain ⟨⟨s, hs, hid, howner⟩, -, rfl⟩ := uploadChunk_eq_ok.mp h
  refine ⟨fun s hs => .inl hs, fun g hg => .inl ⟨g, hg, rfl, rfl, rfl, rfl⟩, fun c hc => ?_⟩
  have hc : c ∈ db.fileChunks.insert (newChunk chunk) (key_newChunk chunk) := hc
  rcases Serial.mem_insert.mp hc with hc | rfl
  · exact .inl hc
  · exact .inr ⟨⟨s, hs, hid, caller, hcaller, howner.symm⟩, rfl⟩

/-- A replacement brings one wrap to the grant of its id. -/
theorem mem_grants_replaceWraps {items : List StaleWrap} {g : AccessGrant}
    (hg : g ∈ (items.foldl replaceWrap db).accessGrants) : ∃ g₀ ∈ db.accessGrants, g₀.id = g.id ∧
      g₀.secretId = g.secretId ∧ g₀.granteeAddress = g.granteeAddress ∧ (g₀.encryptedKey = g.encryptedKey ∨
        ∃ item ∈ items, item.kind = .grant ∧ item.id = g.id ∧ item.encryptedKey = g.encryptedKey) := by
  induction items generalizing db with
  | nil => exact ⟨g, hg, rfl, rfl, rfl, .inl rfl⟩
  | cons item items ih =>
    obtain ⟨g₁, hg₁, hid, hsecret, hgrantee, hkey⟩ := ih hg
    have hfirst : ∃ g₀ ∈ db.accessGrants, g₀.id = g₁.id ∧ g₀.secretId = g₁.secretId ∧
        g₀.granteeAddress = g₁.granteeAddress ∧ (g₀.encryptedKey = g₁.encryptedKey ∨
          item.kind = .grant ∧ item.id = g₁.id ∧ item.encryptedKey = g₁.encryptedKey) := by
      unfold replaceWrap at hg₁
      split at hg₁
      · next hkind =>
        obtain ⟨g₀, hg₀, rfl⟩ := Serial.mem_update.mp hg₁
        refine ⟨g₀, hg₀, ?_⟩
        split
        · next hp => exact ⟨rfl, rfl, rfl, .inr ⟨hkind, (beq_iff_eq.mp hp).symm, rfl⟩⟩
        · exact ⟨rfl, rfl, rfl, .inl rfl⟩
      · exact ⟨g₁, hg₁, rfl, rfl, rfl, .inl rfl⟩
      · exact ⟨g₁, hg₁, rfl, rfl, rfl, .inl rfl⟩
    obtain ⟨g₀, hg₀, hid₀, hsecret₀, hgrantee₀, hkey₀⟩ := hfirst
    refine ⟨g₀, hg₀, hid₀.trans hid, hsecret₀.trans hsecret, hgrantee₀.trans hgrantee, ?_⟩
    rcases hkey with hkey | ⟨last, hlast, hitem⟩
    · rcases hkey₀ with hkey₀ | ⟨hkind, hitem, hput⟩
      · exact .inl (hkey₀.trans hkey)
      · exact .inr ⟨item, List.mem_cons_self, hkind, hitem.trans hid, hput.trans hkey⟩
    · exact .inr ⟨last, List.mem_cons_of_mem _ hlast, hitem⟩

/-- The caller holds the grant that an item replaces. -/
theorem grantee_of_checkRewrap {item : StaleWrap} {g : AccessGrant} (h : checkRewrap db now caller item = .ok ())
    (hkind : item.kind = .grant) (hg : g ∈ db.accessGrants) (hid : item.id = g.id) :
    g.granteeAddress = caller.address := by
  simp only [checkRewrap, bind_eq_ok, refuseIf_eq_ok, Bool.not_eq_false'] at h
  obtain ⟨_, hheld, -⟩ := h
  obtain ⟨row, hrow, hsame⟩ := List.any_eq_true.mp hheld
  rw [Bool.and_eq_true, beq_iff_eq, beq_iff_eq, hkind, hid] at hsame
  rw [held, List.append_assoc, List.mem_append, List.mem_append] at hrow
  rcases hrow with hrow | hrow | hrow
  · obtain ⟨g', hg', rfl⟩ := List.mem_map.mp hrow
    obtain ⟨hmem, hlive⟩ := Table.mem_where'.mp hg'
    obtain rfl := Serial.eq_of_key hmem hg hsame.2
    exact beq_iff_eq.mp (Bool.and_eq_true_iff.mp hlive).1
  · obtain ⟨s, -, hs⟩ := List.mem_filterMap.mp hrow
    obtain ⟨key, -, rfl⟩ := Option.map_eq_some_iff.mp hs
    cases hsame.1
  · obtain ⟨r, -, hr⟩ := List.mem_filterMap.mp hrow
    obtain ⟨key, -, rfl⟩ := Option.map_eq_some_iff.mp hr
    cases hsame.1

theorem replaceWraps_same (items : List StaleWrap) (db : Database) :
    (items.foldl replaceWrap db).secrets = db.secrets ∧ (items.foldl replaceWrap db).fileChunks = db.fileChunks := by
  refine foldl_rel (R := fun db db' => db'.secrets = db.secrets ∧ db'.fileChunks = db.fileChunks) ?_ ?_ ?_ items db
  · exact fun _ => ⟨rfl, rfl⟩
  · exact fun _ _ _ h h' => ⟨h'.1.trans h.1, h'.2.trans h.2⟩
  · intro db item
    unfold replaceWrap
    split <;> exact ⟨rfl, rfl⟩

theorem rewrap_explained {token : Token} {items : List StaleWrap}
    (hcaller : getCurrentUser db token = .ok caller) (h : rewrap db now caller items = .ok db') :
    Explained db ⟨now, token, .rewrap items⟩ db' := by
  simp only [rewrap, bind_eq_ok] at h
  obtain ⟨_, -, _, hcheck, h⟩ := h
  cases h
  obtain ⟨hsecrets, hchunks⟩ := replaceWraps_same items db
  refine ⟨fun s hs => .inl (hsecrets ▸ hs), fun g hg => ?_, fun c hc => .inl (hchunks ▸ hc)⟩
  obtain ⟨g₀, hg₀, hid, hsecret, hgrantee, hkey⟩ := mem_grants_replaceWraps hg
  rcases hkey with hkey | ⟨item, hitem, hkind, hitemId, hput⟩
  · exact .inl ⟨g₀, hg₀, hid, hsecret, hgrantee, hkey⟩
  · have hheld := grantee_of_checkRewrap (forM_eq_ok.mp hcheck item hitem) hkind hg₀ (hitemId.trans hid.symm)
    exact .inr ⟨⟨caller, hcaller, hheld.symm.trans hgrantee⟩, item, hitem, hkind, hitemId, hput⟩

theorem serve_explained (prim : Primitives) (cfg : Config) (db : Database) (call : Call) :
    Explained db call (serve prim cfg db call).1 := by
  unfold serve
  split
  · exact (AddsNothing.refl db).explained
  · next caller hcaller =>
    obtain ⟨now, token, request⟩ := call
    cases request with
    | createSecret data => exact .committed fun _ h => createSecret_explained hcaller h
    | updateSecret id data => exact .committed fun _ h => updateSecret_explained hcaller h
    | deleteSecret id => exact .committed' fun _ h => (deleteSecret_addsNothing h).explained
    | shareSecret grant => exact .committed fun _ h => shareSecret_explained hcaller h
    | revokeGrant id => exact .committed' fun _ h => (revokeGrant_addsNothing h).explained
    | getSecretAccess id limit offset => exact .committed fun _ h => (getSecretAccess_addsNothing h).explained
    | getSharedSecrets limit offset => exact (addsNothing_deleteGrants _).explained
    | uploadChunk chunk => exact .committed' fun _ h => uploadChunk_explained hcaller h
    | createWorkflow req => exact .committed fun _ h => createMultisigWorkflow_explained hcaller h
    | signWorkflow id req => exact .committed fun _ h => (signMultisigWorkflow_addsNothing h).explained
    | rejectWorkflow id => exact .committed fun _ h => (rejectMultisigWorkflow_addsNothing h).explained
    | deleteWorkflow id => exact .committed' fun _ h => (deleteMultisigWorkflow_addsNothing h).explained
    | rewrap items => exact .committed' fun _ h => rewrap_explained hcaller h
    | deleteAccount mode req => exact (performDeletion_addsNothing mode req).explained
    | eraseConversation kind conversation req =>
      exact (AddsNothing.of_messaging (eraseConversation_messaging kind conversation req)).explained

theorem AccessGrant.SameWrap.trans {g g' g'' : AccessGrant} (h : g.SameWrap g') (h' : g'.SameWrap g'') :
    g.SameWrap g'' := by
  obtain ⟨hid, hsecret, hgrantee, hkey⟩ := h
  obtain ⟨hid', hsecret', hgrantee', hkey'⟩ := h'
  exact ⟨hid.trans hid', hsecret.trans hsecret', hgrantee.trans hgrantee', hkey.trans hkey'⟩

theorem Call.WritesWrap.congr {g g' : AccessGrant} (h : call.WritesWrap db g) (hsame : g.SameWrap g') :
    call.WritesWrap db g' := by
  obtain ⟨hid, hsecret, hgrantee, hkey⟩ := hsame
  unfold Call.WritesWrap at h ⊢
  rwa [← hid, ← hsecret, ← hgrantee, ← hkey]

end writes

/-! ## Over a run -/

/-- A request of the run writes it, in the state that the requests before lead to. -/
def Authored (prim : Primitives) (cfg : Config) (db₀ : Database) (events : List Event)
    (writes : Database → Call → Prop) : Prop :=
  ∃ before call after db, events = before ++ .call call :: after ∧ Run (Step prim cfg) db₀ before db ∧
    writes db call

section run

variable {prim : Primitives} {cfg : Config} {db₀ db : Database} {events : List Event}

/-- What is there at the end and not at the start was written on the way. -/
theorem authored_of_run {P : Database → Prop} {writes : Database → Call → Prop}
    (hrun : Run (Step prim cfg) db₀ events db) (hP : P db)
    (hcall : ∀ db call, P (serve prim cfg db call).1 → P db ∨ writes db call)
    (hsame : ∀ db db', SameSecrets db db' → P db' → P db) : P db₀ ∨ Authored prim cfg db₀ events writes := by
  refine (hrun.appears hP).imp_right ?_
  rintro ⟨before, e, after, db₁, db₂, rfl, hbefore, hstep, -, hnot, hthere⟩
  cases e with
  | call c =>
    obtain rfl : (serve prim cfg db₁ c).1 = db₂ := hstep
    exact ⟨before, c, after, db₁, rfl, hbefore, (hcall db₁ c hthere).resolve_left hnot⟩
  | elsewhere => exact absurd (hsame db₁ db₂ hstep.1 hthere) hnot

/-- Whatever requests are served, and whoever sends them: the name and the ciphertext of a secret, and its chunks,
were written by requests of its owner, and each wrap of its key by a request of the owner or of the grantee. -/
theorem contents_are_authored (hrun : Run (Step prim cfg) db₀ events db) :
    (∀ s ∈ db.secrets, s ∈ db₀.secrets ∨
      Authored prim cfg db₀ events fun db call => call.WritesSecret db s) ∧
    (∀ g ∈ db.accessGrants, (∃ g₀ ∈ db₀.accessGrants, g₀.SameWrap g) ∨
      Authored prim cfg db₀ events fun db call => call.WritesWrap db g) ∧
    ∀ c ∈ db.fileChunks, c ∈ db₀.fileChunks ∨
      Authored prim cfg db₀ events fun db call => call.WritesChunk db c := by
  refine ⟨fun s hs => ?_, fun g hg => ?_, fun c hc => ?_⟩
  · refine authored_of_run (P := fun db => s ∈ db.secrets) hrun hs ?_ ?_
    · exact fun db call => (serve_explained prim cfg db call).secret s
    · exact fun db db' hsame hthere => hsame.1 ▸ hthere
  · refine authored_of_run (P := fun db => ∃ g₀ ∈ db.accessGrants, g₀.SameWrap g) hrun ?_ ?_ ?_
    · exact ⟨g, hg, rfl, rfl, rfl, rfl⟩
    · rintro db call ⟨g₁, hg₁, hsame⟩
      rcases (serve_explained prim cfg db call).grant g₁ hg₁ with ⟨g₀, hg₀, hfirst⟩ | hwrites
      · exact .inl ⟨g₀, hg₀, hfirst.trans hsame⟩
      · exact .inr (hwrites.congr hsame)
    · exact fun db db' hsame hthere => hsame.2.1 ▸ hthere
  · refine authored_of_run (P := fun db => c ∈ db.fileChunks) hrun hc ?_ ?_
    · exact fun db call => (serve_explained prim cfg db call).chunk c
    · exact fun db db' hsame hthere => hsame.2.2.1 ▸ hthere

/-- The wrap that Bob reads was brought by one of Alice's requests. -/
theorem contents_are_authored_sample : ∃ g ∈ sampleShared.accessGrants, g.granteeAddress = lower "bob" ∧
    Authored samplePrimitives sampleConfig sampleStart (sampleShares.map .call)
      fun db call => call.WritesWrap db g := by
  have hbob : ∃ g ∈ sampleShared.accessGrants.rows, g.granteeAddress = lower "bob" := by decide
  obtain ⟨g, hg, hgrantee⟩ := hbob
  have hauthored := contents_are_authored (run_serveAll samplePrimitives sampleConfig sampleShares sampleStart)
  refine ⟨g, hg, hgrantee, (hauthored.2.1 g hg).resolve_left ?_⟩
  rintro ⟨g₀, hg₀, -⟩
  have hnone : g₀ ∈ ([] : List AccessGrant) := hg₀
  cases hnone

end run

end Kryptolog.Server
