import Kryptolog.Server.Release

/-! # The owner's own grant

The key of a secret is only in its grants, also for its owner. `GrantMove` says what a request can do
to the secrets of one owner and to the grants, and `owner_keeps_grant` that the owner's grant stays,
without an expiry, as long as the owner does not erase the account.
-/

namespace Kryptolog.Server
set_option autoImplicit false

open Tables Json Fallible Relation Runs

/-! ## Changes to grants -/

/-- No secret is new and none has changed hands. -/
structure SameOwners (db db' : Database) : Prop where
  next : db'.secrets.next = db.secrets.next
  secret : ∀ s ∈ db'.secrets, ∃ s₀ ∈ db.secrets, s₀.id = s.id ∧ s₀.ownerAddress = s.ownerAddress

/-- The grant is not the owner's own grant of a secret of `o`, or it expires. -/
def Disposable (o : Address) (db : Database) (g : AccessGrant) : Prop :=
  g.expiresAt ≠ none ∨ g.granteeAddress ≠ o ∨
    ∀ s ∈ db.secrets, s.id = g.secretId → s.ownerAddress ≠ o

/-- One change to secrets and grants. What else a database holds does not matter. -/
inductive GrantMove (o : Address) (db : Database) : Database → Prop
  | keep (db' : Database) (hs : SameOwners db db') (hg : db'.accessGrants = db.accessGrants) :
      GrantMove o db db'
  | newSecret (db' : Database) (now : Time) (owner : Address) (data : SecretCreate)
      (hs : db'.secrets = (insertSecretWithOwnerGrant db now owner data).secrets)
      (hg : db'.accessGrants = (insertSecretWithOwnerGrant db now owner data).accessGrants) :
      GrantMove o db db'
  | dropSecret (db' : Database) (id : ℕ) (hs : db'.secrets = (deleteSecretRows db id).secrets)
      (hg : db'.accessGrants = (deleteSecretRows db id).accessGrants) : GrantMove o db db'
  | upsert (s : Secret) (hs : s ∈ db.secrets) (grantee : Address) (h : s.ownerAddress ≠ grantee)
      (now : Time) (key : Document) (expiresAt : Option Time) :
      GrantMove o db (upsertGrant db now s.id grantee key expiresAt)
  | drop (p : AccessGrant → Bool) (h : ∀ g ∈ db.accessGrants, p g = true → Disposable o db g) :
      GrantMove o db { db with accessGrants := db.accessGrants.delete p }
  | rekey (id : ℕ) (key : Document) :
      GrantMove o db { db with
        accessGrants := db.accessGrants.update (·.id == id) (fun g => { g with encryptedKey := key })
          (fun _ => rfl) }

/-- One grant for each secret and grantee, and the owner's among them for the secrets of `o`. -/
structure KeepsGrant (o : Address) (db : Database) : Prop where
  grant_lt : ∀ g ∈ db.accessGrants, g.secretId < db.secrets.next
  one : ∀ g ∈ db.accessGrants, ∀ g' ∈ db.accessGrants,
    g.secretId = g'.secretId → g.granteeAddress = g'.granteeAddress → g = g'
  own : ∀ s ∈ db.secrets, s.ownerAddress = o →
    ∃ g ∈ db.accessGrants, g.secretId = s.id ∧ g.granteeAddress = o ∧ g.expiresAt = none

section moves

variable {o : Address} {db db' : Database}

theorem SameOwners.refl (db : Database) : SameOwners db db := ⟨rfl, fun s hs => ⟨s, hs, rfl, rfl⟩⟩

theorem SameOwners.of_eq (h : db'.secrets = db.secrets) : SameOwners db db' :=
  ⟨by rw [h], fun s hs => ⟨s, h ▸ hs, rfl, rfl⟩⟩

theorem KeepsGrant.keep (h : KeepsGrant o db) (hs : SameOwners db db')
    (hg : db'.accessGrants = db.accessGrants) : KeepsGrant o db' where
  grant_lt := fun g hmem => hs.next ▸ h.grant_lt g (hg ▸ hmem)
  one := fun g hmem g' hmem' => h.one g (hg ▸ hmem) g' (hg ▸ hmem')
  own := by
    intro s hmem howner
    obtain ⟨s₀, hs₀, hid, hown⟩ := hs.secret s hmem
    rw [hg, ← hid]
    exact h.own s₀ hs₀ (hown.trans howner)

/-- The new secret has the next number, which no grant has. -/
theorem KeepsGrant.newSecret (h : KeepsGrant o db) {now : Time} {owner : Address} {data : SecretCreate}
    (hs : db'.secrets = (insertSecretWithOwnerGrant db now owner data).secrets)
    (hg : db'.accessGrants = (insertSecretWithOwnerGrant db now owner data).accessGrants) :
    KeepsGrant o db' := by
  have hgrant : ∀ g, g ∈ db'.accessGrants ↔ g ∈ db.accessGrants ∨
      g = ⟨db.accessGrants.next, db.secrets.next, owner, data.encryptedKey, now, none⟩ := by
    intro g
    rw [hg]
    exact Serial.mem_insert
  have hnext : db'.secrets.next = db.secrets.next + 1 := by rw [hs]; rfl
  refine ⟨fun g hmem => ?_, fun g hmem g' hmem' hsecret hgrantee => ?_, fun s hmem howner => ?_⟩
  · rw [hnext]
    rcases (hgrant g).mp hmem with hmem | rfl
    · exact Nat.lt_succ_of_lt (h.grant_lt g hmem)
    · exact Nat.lt_succ_self _
  · rcases (hgrant g).mp hmem with hmem | rfl <;> rcases (hgrant g').mp hmem' with hmem' | rfl
    · exact h.one g hmem g' hmem' hsecret hgrantee
    · have hlt := h.grant_lt g hmem
      rw [hsecret] at hlt
      exact absurd hlt (lt_irrefl _)
    · have hlt := h.grant_lt g' hmem'
      rw [← hsecret] at hlt
      exact absurd hlt (lt_irrefl _)
    · rfl
  · rw [hs] at hmem
    rcases Serial.mem_insert.mp hmem with hmem | rfl
    · obtain ⟨g, hg₀, hrest⟩ := h.own s hmem howner
      exact ⟨g, (hgrant g).mpr (.inl hg₀), hrest⟩
    · exact ⟨_, (hgrant _).mpr (.inr rfl), rfl, howner, rfl⟩

theorem KeepsGrant.dropSecret (h : KeepsGrant o db) {id : ℕ}
    (hs : db'.secrets = (deleteSecretRows db id).secrets)
    (hg : db'.accessGrants = (deleteSecretRows db id).accessGrants) : KeepsGrant o db' := by
  have hgrant : ∀ g, g ∈ db'.accessGrants ↔ g ∈ db.accessGrants ∧ (g.secretId == id) = false := by
    intro g
    rw [hg]
    exact Serial.mem_delete
  refine ⟨fun g hmem => ?_, fun g hmem g' hmem' => ?_, fun s hmem howner => ?_⟩
  · rw [hs]
    exact h.grant_lt g ((hgrant g).mp hmem).1
  · exact h.one g ((hgrant g).mp hmem).1 g' ((hgrant g').mp hmem').1
  · rw [hs] at hmem
    obtain ⟨hmem, hne⟩ := Serial.mem_delete.mp hmem
    obtain ⟨g, hg₀, hsecret, hrest⟩ := h.own s hmem howner
    exact ⟨g, (hgrant g).mpr ⟨hg₀, by rw [hsecret]; exact hne⟩, hsecret, hrest⟩

/-- Grants that keep their secret and grantee, and their expiry where they have none for `o`. -/
theorem KeepsGrant.update (h : KeepsGrant o db) {p : AccessGrant → Bool} {f : AccessGrant → AccessGrant}
    (hf : ∀ g, Keyed.key (f g) = Keyed.key g)
    (hsame : ∀ g, (f g).secretId = g.secretId ∧ (f g).granteeAddress = g.granteeAddress)
    (hexpiry : ∀ g ∈ db.accessGrants, p g = true → ¬ Disposable o db g → (f g).expiresAt = none) :
    KeepsGrant o { db with accessGrants := db.accessGrants.update p f hf } := by
  have hrow : ∀ g, (if p g then f g else g).secretId = g.secretId ∧
      (if p g then f g else g).granteeAddress = g.granteeAddress := by
    intro g
    split
    · exact hsame g
    · exact ⟨rfl, rfl⟩
  refine ⟨fun g hmem => ?_, fun g hmem g' hmem' hsecret hgrantee => ?_, fun s hmem howner => ?_⟩
  · obtain ⟨g₀, hg₀, rfl⟩ := Serial.mem_update.mp hmem
    rw [(hrow g₀).1]
    exact h.grant_lt g₀ hg₀
  · obtain ⟨g₀, hg₀, rfl⟩ := Serial.mem_update.mp hmem
    obtain ⟨g₁, hg₁, rfl⟩ := Serial.mem_update.mp hmem'
    rw [(hrow g₀).1, (hrow g₁).1] at hsecret
    rw [(hrow g₀).2, (hrow g₁).2] at hgrantee
    rw [h.one g₀ hg₀ g₁ hg₁ hsecret hgrantee]
  · obtain ⟨g, hg, hsecret, hgrantee, hnone⟩ := h.own s hmem howner
    refine ⟨_, Serial.update_of_mem hg p f hf, (hrow g).1.trans hsecret, (hrow g).2.trans hgrantee, ?_⟩
    split
    · next hp =>
      refine hexpiry g hg hp ?_
      rintro (hsome | hne | hother)
      · exact hsome hnone
      · exact hne hgrantee
      · exact hother s hmem hsecret.symm howner
    · exact hnone

theorem KeepsGrant.upsert (h : KeepsGrant o db) {s : Secret} (hs : s ∈ db.secrets) {grantee : Address}
    (hne : s.ownerAddress ≠ grantee) (now : Time) (key : Document) (expiresAt : Option Time) :
    KeepsGrant o (upsertGrant db now s.id grantee key expiresAt) := by
  simp only [upsertGrant]
  split
  · refine h.update _ (fun g => ⟨rfl, rfl⟩) fun g hg hp hnot => absurd ?_ hnot
    rw [Bool.and_eq_true, beq_iff_eq, beq_iff_eq] at hp
    by_cases ho : g.granteeAddress = o
    · refine .inr (.inr fun s' hs' hid howner => hne ?_)
      obtain rfl := Serial.eq_of_key hs hs' (hp.1.symm.trans hid.symm)
      rw [howner, ← ho, hp.2]
    · exact .inr (.inl ho)
  · next hnone =>
    have hfresh : ∀ g ∈ db.accessGrants, g.secretId = s.id → g.granteeAddress ≠ grantee := by
      intro g hg hsecret hgrantee
      exact hnone (Table.any_eq_true.mpr ⟨g, hg, by simp [hsecret, hgrantee]⟩)
    refine ⟨fun g hmem => ?_, fun g hmem g' hmem' hsecret hgrantee => ?_, fun s' hmem howner => ?_⟩
    · rcases Serial.mem_insert.mp hmem with hmem | rfl
      · exact h.grant_lt g hmem
      · exact Serial.key_lt hs
    · rcases Serial.mem_insert.mp hmem with hmem | rfl <;>
        rcases Serial.mem_insert.mp hmem' with hmem' | rfl
      · exact h.one g hmem g' hmem' hsecret hgrantee
      · exact absurd hgrantee (hfresh g hmem hsecret)
      · exact absurd hgrantee.symm (hfresh g' hmem' hsecret.symm)
      · rfl
    · obtain ⟨g, hg, hrest⟩ := h.own s' hmem howner
      exact ⟨g, Serial.mem_insert.mpr (.inl hg), hrest⟩

theorem KeepsGrant.drop (h : KeepsGrant o db) {p : AccessGrant → Bool}
    (hp : ∀ g ∈ db.accessGrants, p g = true → Disposable o db g) :
    KeepsGrant o { db with accessGrants := db.accessGrants.delete p } := by
  refine ⟨fun g hmem => h.grant_lt g (Serial.mem_delete.mp hmem).1,
    fun g hmem g' hmem' => h.one g (Serial.mem_delete.mp hmem).1 g' (Serial.mem_delete.mp hmem').1,
    fun s hmem howner => ?_⟩
  obtain ⟨g, hg, hsecret, hgrantee, hnone⟩ := h.own s hmem howner
  refine ⟨g, Serial.mem_delete.mpr ⟨hg, ?_⟩, hsecret, hgrantee, hnone⟩
  rw [Bool.eq_false_iff]
  intro hpg
  rcases hp g hg hpg with hsome | hne | hother
  · exact hsome hnone
  · exact hne hgrantee
  · exact hother s hmem hsecret.symm howner

theorem KeepsGrant.move (h : KeepsGrant o db) (hm : GrantMove o db db') : KeepsGrant o db' := by
  cases hm with
  | keep db' hs hg => exact h.keep hs hg
  | newSecret db' now owner data hs hg => exact h.newSecret hs hg
  | dropSecret db' id hs hg => exact h.dropSecret hs hg
  | upsert s hs grantee hne now key expiresAt => exact h.upsert hs hne now key expiresAt
  | drop p hp => exact h.drop hp
  | rekey id key =>
    refine h.update _ (fun g => ⟨rfl, rfl⟩) fun g hg _ hnot => ?_
    by_contra hsome
    exact hnot (.inl hsome)

end moves

/-! ## What a request does to grants -/

abbrev GrantMoves (o : Address) : Database → Database → Prop := ReflTransGen (GrantMove o)

theorem KeepsGrant.moves {o : Address} {db db' : Database} (h : KeepsGrant o db)
    (hm : GrantMoves o db db') : KeepsGrant o db' := by
  induction hm with
  | refl => exact h
  | tail _ hlast ih => exact ih.move hlast

section endpoints

variable {o : Address} {prim : Primitives} {cfg : Config} {db db' : Database} {now : Time} {caller : User}

theorem GrantMove.of_same (hs : db'.secrets = db.secrets) (hg : db'.accessGrants = db.accessGrants) :
    GrantMove o db db' := .keep db' (.of_eq hs) hg

theorem GrantMove.of_messaging (h : Messaging db db') : GrantMove o db db' := .of_same h.1.1 h.1.2.1

theorem createSecret_grantMove {data : SecretCreate} {r : Database × SecretResponse}
    (h : createSecret cfg db now caller data = .ok r) : GrantMove o db r.1 := by
  simp only [createSecret, createSecretWithOwnerGrant, bind_eq_ok] at h
  obtain ⟨_, ⟨_, -, hnew⟩, h⟩ := h
  cases hnew
  cases h
  exact .newSecret _ now caller.address data rfl rfl

theorem updateSecret_grantMove {id : ℕ} {data : SecretCreate} {r : Database × SecretResponse}
    (h : updateSecret cfg db now caller id data = .ok r) : GrantMove o db r.1 := by
  simp only [updateSecret, bind_eq_ok] at h
  obtain ⟨_, -, _, -, _, -, h⟩ := h
  cases h
  refine .keep _ ⟨rfl, fun s hs => ?_⟩ rfl
  obtain ⟨s₀, hs₀, rfl⟩ := Serial.mem_update.mp hs
  refine ⟨s₀, hs₀, ?_⟩
  split <;> exact ⟨rfl, rfl⟩

theorem deleteSecret_grantMove {id : ℕ} (h : deleteSecret db now caller id = .ok db') :
    GrantMove o db db' := by
  simp only [deleteSecret, bind_eq_ok] at h
  obtain ⟨_, -, _, -, h⟩ := h
  cases h
  exact .dropSecret _ id rfl rfl

/-- Nobody shares a secret with its owner. -/
theorem shareSecret_grantMove {grant : AccessGrantCreate} {r : Database × Option AccessGrant}
    (h : shareSecret db now caller grant = .ok r) : GrantMove o db r.1 := by
  simp only [shareSecret, bind_eq_ok, refuseIf_eq_ok] at h
  obtain ⟨s, hs, _, -, _, howner, _, -, h⟩ := h
  obtain ⟨hmem, hid, -⟩ := loadSecret_ok hs
  cases h
  rw [← hid]
  exact .upsert s hmem _ (by simpa [isOwnerGrant] using howner) now _ _

/-- Nobody revokes the grant of an owner. -/
theorem revokeGrant_grantMove {id : ℕ} (h : revokeGrant db now caller id = .ok db') :
    GrantMove o db db' := by
  unfold revokeGrant at h
  split at h
  · cases h
  · next grant hgrant =>
    obtain ⟨hmem, hid⟩ := Table.find?_mem hgrant
    split at h
    · cases h
    · next secret hsecret =>
      obtain ⟨hsmem, hsid⟩ := Table.find?_mem hsecret
      split at h
      · cases h
      · split at h
        · cases h
        · next howner =>
          simp only [bind_eq_ok] at h
          obtain ⟨_, -, h⟩ := h
          cases h
          refine .drop _ fun g hg hp => ?_
          have hgid : g.id = grant.id := (beq_iff_eq.mp hp).trans (beq_iff_eq.mp hid).symm
          obtain rfl := Serial.eq_of_key hg hmem hgid
          by_cases hgrantee : g.granteeAddress = o
          · refine .inr (.inr fun s hs hsid' hso => ?_)
            obtain rfl := Serial.eq_of_key hs hsmem (hsid'.trans (beq_iff_eq.mp hsid).symm)
            exact howner (by simp [isOwnerGrant, hso, hgrantee])
          · exact .inr (.inl hgrantee)

theorem purgeExpiredGrants_grantMove (scope : AccessGrant → Bool) :
    GrantMove o db (purgeExpiredGrants db now scope) := by
  refine .drop _ fun g _ hp => .inl fun hnone => ?_
  simp [AccessGrant.live, hnone] at hp

theorem getSecretAccess_grantMove {id limit offset : ℕ} {r : Database × List AccessGrant}
    (h : getSecretAccess db now caller id limit offset = .ok r) : GrantMove o db r.1 := by
  simp only [getSecretAccess, bind_eq_ok] at h
  obtain ⟨_, -, h⟩ := h
  cases h
  exact purgeExpiredGrants_grantMove _

theorem uploadChunk_grantMove {chunk : FileChunkUpload}
    (h : uploadChunk cfg db now caller chunk = .ok db') : GrantMove o db db' := by
  obtain ⟨-, -, rfl⟩ := uploadChunk_eq_ok.mp h
  exact .of_same rfl rfl

theorem createMultisigWorkflow_grantMove {req : MultisigWorkflowCreate}
    {r : Database × MultisigWorkflowResponse}
    (h : createMultisigWorkflow cfg db now caller req = .ok r) : GrantMove o db r.1 := by
  simp only [createMultisigWorkflow, createSecretWithOwnerGrant, bind_eq_ok] at h
  obtain ⟨_, -, _, -, _, -, _, -, _, ⟨_, -, hnew⟩, _, -, _, -, h⟩ := h
  cases hnew
  cases h
  exact .newSecret _ now caller.address req.secretData rfl rfl

theorem signMultisigWorkflow_grantMove {id : ℕ} {req : MultisigSignatureRequest}
    {r : Database × MultisigWorkflowResponse}
    (h : signMultisigWorkflow prim db now caller id req = .ok r) : GrantMove o db r.1 := by
  simp only [signMultisigWorkflow, bind_eq_ok] at h
  obtain ⟨⟨w, row⟩, -, _, -, _, -, _, -, db', hdb', _, -, _, -, h⟩ := h
  cases h
  split at hdb'
  · obtain ⟨T, rfl, -⟩ := completeWorkflow_ok hdb'
    exact .of_same rfl rfl
  · cases hdb'
    exact .of_same rfl rfl

theorem rejectMultisigWorkflow_grantMove {id : ℕ} {r : Database × MultisigWorkflowResponse}
    (h : rejectMultisigWorkflow db now caller id = .ok r) : GrantMove o db r.1 := by
  simp only [rejectMultisigWorkflow, bind_eq_ok] at h
  obtain ⟨⟨w, row⟩, -, _, -, _, -, h⟩ := h
  cases h
  exact .of_same rfl rfl

theorem deleteMultisigWorkflow_grantMove {id : ℕ} (h : deleteMultisigWorkflow db caller id = .ok db') :
    GrantMove o db db' := by
  simp only [deleteMultisigWorkflow, bind_eq_ok] at h
  obtain ⟨w, -, _, -, _, -, h⟩ := h
  cases h
  exact .dropSecret _ w.secretId rfl rfl

theorem replaceWrap_grantMove (db : Database) (item : StaleWrap) : GrantMove o db (replaceWrap db item) := by
  unfold replaceWrap
  split
  · exact .rekey item.id item.encryptedKey
  · exact .of_same rfl rfl
  · exact .of_same rfl rfl

theorem rewrap_grantMoves {items : List StaleWrap} (h : rewrap db now caller items = .ok db') :
    GrantMoves o db db' := by
  simp only [rewrap, bind_eq_ok] at h
  obtain ⟨_, -, _, -, h⟩ := h
  cases h
  exact foldl_rel (fun _ => .refl) (fun _ _ _ => .trans) (fun db item => .single (replaceWrap_grantMove db item))
    items db

/-! ## What a departure does -/

theorem eraseMultisig_grantMoves (db : Database) (a : Address) : GrantMoves o db (eraseMultisig db a) := by
  have hfold := foldl_rel (R := GrantMoves o) (fun _ => .refl) (fun _ _ _ => .trans)
    (fun db w => .single (.dropSecret (deleteWorkflowRows db w) w.secretId rfl rfl))
    (db.workflows.where' fun w => w.ownerAddress == a && workflowIsDeletable w) db
  exact hfold.tail (.of_same rfl rfl)

/-- Who erases an account gives up the grants held, and nobody else's. -/
theorem eraseSecrets_grantMoves {a : Address} (ha : a ≠ o) (db : Database) :
    GrantMoves o db (eraseSecrets db a) := by
  have hfold := foldl_rel (R := GrantMoves o) (fun _ => .refl) (fun _ _ _ => .trans)
    (fun db s => .single (.dropSecret (deleteSecretRows db s.id) s.id rfl rfl))
    (db.secrets.where' fun s => s.ownerAddress == a && !isWorkflowManaged db s.id) db
  refine hfold.tail (.drop _ fun g _ hp => .inr (.inl ?_))
  rw [beq_iff_eq.mp hp]
  exact ha

theorem removeAccount_grantMoves {a : Address} {mode : Mode} (h : mode = .leave ∨ a ≠ o) :
    GrantMoves o db (removeAccount db now a mode) := by
  have hleft : GrantMove o db (leaveAllGroups db a) := .of_messaging (leaveAllGroups_messaging db a)
  have hdropped : GrantMoves o db (dropHoldings db a mode) := by
    cases mode with
    | leave => exact .single hleft
    | erase =>
      have ha := h.resolve_left (by decide)
      exact .head hleft ((eraseMultisig_grantMoves _ a).trans (eraseSecrets_grantMoves ha _))
  exact hdropped.tail (.of_same rfl rfl)

theorem deleteAccount_grantMoves {a : Address} {mode : Mode} (ha : mode = .leave ∨ a ≠ o)
    (h : deleteAccount db now a mode = .ok db') : GrantMoves o db db' := by
  cases mode with
  | leave =>
    cases h
    exact removeAccount_grantMoves ha
  | erase =>
    obtain ⟨⟨db₁, n⟩, h₁, rfl⟩ := map_eq_ok.mp h
    exact .head (.of_messaging (deleteOwnMessages_messaging h₁)) (removeAccount_grantMoves ha)

/-- A round of an erase does nothing to grants, unless it is the last one. -/
theorem eraseAccount_grantMoves {redactions : List (String × String)} {r : Database × EraseResponse}
    (ha : r.2.status ≠ .deleted ∨ caller.address ≠ o)
    (h : eraseAccount prim db now caller redactions = .ok r) : GrantMoves o db r.1 := by
  simp only [eraseAccount, bind_eq_ok] at h
  obtain ⟨⟨db₁, n⟩, happly, keys, -, h⟩ := h
  have hmsg : GrantMove o db db₁ := .of_messaging (applyRedactions_messaging happly)
  split at h
  · cases h
    exact .single hmsg
  · simp only [bind_eq_ok] at h
    obtain ⟨kept, -, db₂, hdel, h⟩ := h
    cases h
    exact .head hmsg (deleteAccount_grantMoves (.inr (ha.resolve_left fun hne => hne rfl)) hdel)

/-- The request ends the account at `o` for good. -/
def ErasesAccount (prim : Primitives) (cfg : Config) (db : Database) (o : Address) (call : Call) : Prop :=
  ∃ caller req resp, getCurrentUser db call.token = .ok caller ∧ caller.address = o ∧
    call.request = .deleteAccount .erase req ∧
    (performDeletion prim cfg db call.now caller .erase req).2 = .ok resp ∧ resp.status = .deleted

theorem performDeletion_grantMoves {mode : Mode} {req : EraseRequest}
    (h : mode = .erase → caller.address = o → ∀ resp,
      (performDeletion prim cfg db now caller mode req).2 = .ok resp → resp.status ≠ .deleted) :
    GrantMoves o db (performDeletion prim cfg db now caller mode req).1 := by
  have hclaim : GrantMove o db (claimNonce db now caller.address req.nonce).1 :=
    .of_messaging (claimNonce_messaging db now caller.address req.nonce)
  simp only [performDeletion] at h ⊢
  split at h
  · next hlost =>
    rw [if_pos hlost]
    exact .single hclaim
  · next hwon =>
    rw [if_neg hwon]
    refine .head hclaim ?_
    unfold transaction at h ⊢
    split
    · next db' r hr =>
      rw [hr] at h
      obtain ⟨_, -, hr⟩ := bind_eq_ok.mp hr
      cases mode with
      | leave =>
        simp only [bind_eq_ok] at hr
        obtain ⟨_, -, db₂, hdel, hr⟩ := hr
        cases hr
        exact deleteAccount_grantMoves (.inl rfl) hdel
      | erase =>
        refine eraseAccount_grantMoves ?_ hr
        by_cases ho : caller.address = o
        · exact .inl (h rfl ho r rfl)
        · exact .inr ho
    · exact .refl

/-! ## Every request -/

theorem committed_grantMoves {α : Type} {r : Except Fault (Database × α)}
    (h : ∀ db' x, r = .ok (db', x) → GrantMoves o db db') : GrantMoves o db (committed db r).1 := by
  cases r with
  | error fault => exact .refl
  | ok p => exact h p.1 p.2 rfl

theorem committed'_grantMoves {r : Except Fault Database} (h : ∀ db', r = .ok db' → GrantMoves o db db') :
    GrantMoves o db (committed' db r).1 := by
  cases r with
  | error fault => exact .refl
  | ok db' => exact h db' rfl

theorem serve_grantMoves {call : Call} (h : ¬ ErasesAccount prim cfg db o call) :
    GrantMoves o db (serve prim cfg db call).1 := by
  unfold serve
  split
  · exact .refl
  · next caller hcaller =>
    obtain ⟨now, token, request⟩ := call
    cases request with
    | createSecret data => exact committed_grantMoves fun _ _ h => .single (createSecret_grantMove h)
    | updateSecret id data => exact committed_grantMoves fun _ _ h => .single (updateSecret_grantMove h)
    | deleteSecret id => exact committed'_grantMoves fun _ h => .single (deleteSecret_grantMove h)
    | shareSecret grant => exact committed_grantMoves fun _ _ h => .single (shareSecret_grantMove h)
    | revokeGrant id => exact committed'_grantMoves fun _ h => .single (revokeGrant_grantMove h)
    | getSecretAccess id limit offset =>
      exact committed_grantMoves fun _ _ h => .single (getSecretAccess_grantMove h)
    | getSharedSecrets limit offset => exact .single (purgeExpiredGrants_grantMove _)
    | uploadChunk chunk => exact committed'_grantMoves fun _ h => .single (uploadChunk_grantMove h)
    | createWorkflow req =>
      exact committed_grantMoves fun _ _ h => .single (createMultisigWorkflow_grantMove h)
    | signWorkflow id req =>
      exact committed_grantMoves fun _ _ h => .single (signMultisigWorkflow_grantMove h)
    | rejectWorkflow id =>
      exact committed_grantMoves fun _ _ h => .single (rejectMultisigWorkflow_grantMove h)
    | deleteWorkflow id =>
      exact committed'_grantMoves fun _ h => .single (deleteMultisigWorkflow_grantMove h)
    | rewrap items => exact committed'_grantMoves fun _ h => rewrap_grantMoves h
    | deleteAccount mode req =>
      refine performDeletion_grantMoves fun hmode ho resp hresp hdeleted => h ?_
      subst hmode
      exact ⟨caller, req, resp, hcaller, ho, rfl, hresp, hdeleted⟩
    | eraseConversation kind conversation req =>
      exact .single (.of_messaging (eraseConversation_messaging kind conversation req))

end endpoints

/-! ## The owner keeps the grant -/

section owner

variable {o : Address} {prim : Primitives} {cfg : Config} {db db' : Database}

/-- The server's steps, without the last round of an erase by `o`. -/
def OwnerStays (prim : Primitives) (cfg : Config) (o : Address) (db : Database) (e : Event) : Prop :=
  ∀ call, e = .call call → ¬ ErasesAccount prim cfg db o call

def NoSecrets (db : Database) : Prop := db.secrets.rows = [] ∧ db.accessGrants.rows = []

theorem KeepsGrant.of_noSecrets (h : NoSecrets db) : KeepsGrant o db := by
  have hs : ∀ s, s ∉ db.secrets := fun s hmem => by
    rw [← Serial.mem_toTable, ← Table.mem_rows, h.1] at hmem
    cases hmem
  have hg : ∀ g, g ∉ db.accessGrants := fun g hmem => by
    rw [← Serial.mem_toTable, ← Table.mem_rows, h.2] at hmem
    cases hmem
  exact ⟨fun g hmem => absurd hmem (hg g), fun g hmem => absurd hmem (hg g),
    fun s hmem => absurd hmem (hs s)⟩

theorem KeepsGrant.step {e : Event} (h : KeepsGrant o db) (hstay : OwnerStays prim cfg o db e)
    (hs : Step prim cfg db e db') : KeepsGrant o db' := by
  cases e with
  | call c =>
    obtain rfl : (serve prim cfg db c).1 = db' := hs
    exact h.moves (serve_grantMoves (hstay c rfl))
  | elsewhere =>
    obtain ⟨⟨hs, hg, -⟩, -⟩ := hs
    exact h.move (.of_same hs hg)

theorem KeepsGrant.run {db₀ : Database} {events : List Event} (h : KeepsGrant o db₀)
    (hrun : Run (restrict (OwnerStays prim cfg o) (Step prim cfg)) db₀ events db) : KeepsGrant o db :=
  hrun.invariant (I := KeepsGrant o) (fun _ _ _ hI hs => hI.step hs.1 hs.2) h

/-- The owner of a secret has exactly one grant of it, which does not expire, and no one has two. -/
theorem owner_keeps_grant {db₀ : Database} {events : List Event} (h₀ : NoSecrets db₀)
    (hrun : Run (restrict (OwnerStays prim cfg o) (Step prim cfg)) db₀ events db) :
    (∀ s ∈ db.secrets, s.ownerAddress = o →
      ∃ g ∈ db.accessGrants, g.secretId = s.id ∧ g.granteeAddress = o ∧ g.expiresAt = none ∧
        ∀ g' ∈ db.accessGrants, g'.secretId = s.id → g'.granteeAddress = o → g' = g) ∧
    ∀ g ∈ db.accessGrants, ∀ g' ∈ db.accessGrants,
      g.secretId = g'.secretId → g.granteeAddress = g'.granteeAddress → g = g' := by
  have hkeeps : KeepsGrant o db := (KeepsGrant.of_noSecrets h₀).run hrun
  refine ⟨fun s hs howner => ?_, hkeeps.one⟩
  obtain ⟨g, hg, hsecret, hgrantee, hnone⟩ := hkeeps.own s hs howner
  refine ⟨g, hg, hsecret, hgrantee, hnone, fun g' hg' hsecret' hgrantee' => ?_⟩
  exact hkeeps.one g' hg' g hg (hsecret'.trans hsecret.symm) (hgrantee'.trans hgrantee.symm)

/-- Alice stores a secret, shares it with Bob for a while, and tries to share it with herself. -/
def sampleShares : List Call :=
  [sampleCall "alice" (.createSecret ⟨"title", "sealed", .notJson "key of alice"⟩),
    sampleCall "alice" (.shareSecret ⟨0, "bob", .notJson "key of bob", some 5⟩),
    sampleCall "alice" (.shareSecret ⟨0, "alice", .notJson "key of alice", some 5⟩)]

def sampleShared : Database := serveAll samplePrimitives sampleConfig sampleStart sampleShares

theorem run_sampleShared : Run (restrict (OwnerStays samplePrimitives sampleConfig (lower "alice"))
    (Step samplePrimitives sampleConfig)) sampleStart (sampleShares.map .call) sampleShared := by
  refine (run_serveAll _ _ sampleShares sampleStart).restrict_mem.mono fun _ e _ hs => ⟨?_, hs.2⟩
  rintro call rfl ⟨_, _, _, -, -, hrequest, -⟩
  have hcall : call ∈ sampleShares := by simpa using hs.1
  simp only [sampleShares, List.mem_cons, List.not_mem_nil, or_false] at hcall
  rcases hcall with rfl | rfl | rfl <;> cases hrequest

/-- Bob has a grant too. -/
theorem owner_keeps_grant_sample :
    (∃ g ∈ sampleShared.accessGrants, g.granteeAddress = lower "bob") ∧
    ∃ s ∈ sampleShared.secrets, ∃ g ∈ sampleShared.accessGrants,
      g.secretId = s.id ∧ g.granteeAddress = lower "alice" ∧ g.expiresAt = none := by
  have hbob : ∃ g ∈ sampleShared.accessGrants.rows, g.granteeAddress = lower "bob" := by decide
  have hsecret : ∃ s ∈ sampleShared.secrets.rows, s.ownerAddress = lower "alice" := by decide
  obtain ⟨s, hs, howner⟩ := hsecret
  obtain ⟨g, hg, hid, hgrantee, hnone, -⟩ :=
    (owner_keeps_grant ⟨rfl, rfl⟩ run_sampleShared).1 s hs howner
  exact ⟨hbob, s, hs, g, hg, hid, hgrantee, hnone⟩

end owner

end Kryptolog.Server
