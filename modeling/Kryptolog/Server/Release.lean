import Kryptolog.Server.WorkflowInvariant

/-! # Who reads the secret of a workflow

Five routes give out the ciphertext of a secret, its chunks or a wrapped key for it. Each asks
in its own words who the caller is to the workflow: a lookup of grants, the predicate on one
workflow, the query over all of them, the check of the chunk route, the listing of stale wraps.
`obtains_iff` says that in every reachable state they agree on one rule, `MayRead`, for whoever
has an account.

The rule for grants rests on an invariant of its own, `OwnGrants`: a workflow's secret is granted
to nobody but its owner.
-/

namespace Kryptolog.Server
set_option autoImplicit false

open Tables Json Fallible Relation Runs

/-! ## Reading -/

/-- A request to one of the read routes. -/
inductive ReadRequest
  | getSecret (secretId : ℕ)
  | getChunk (secretId chunkIndex : ℕ)
  | getWorkflow (workflowId : ℕ)
  | listWorkflows (limit offset : ℕ)
  | staleWraps (limit offset : ℕ)

/-- The row that a listed wrap names is one for the secret: a grant of it, or a signer or
recipient row of its workflow. -/
def StaleWrap.isFor (db : Database) (item : StaleWrap) (secretId : ℕ) : Prop :=
  match item.kind with
  | .grant => ∃ g ∈ db.accessGrants, g.id = item.id ∧ g.secretId = secretId
  | .signer => ∃ r ∈ db.signers, r.id = item.id ∧
      ∃ w ∈ db.workflows, w.id = r.workflowId ∧ w.secretId = secretId
  | .recipient => ∃ r ∈ db.recipients, r.id = item.id ∧
      ∃ w ∈ db.workflows, w.id = r.workflowId ∧ w.secretId = secretId

/-- The answer to the caller's request holds the ciphertext of the secret, a chunk of it or the
wrapped keys for it. A listed workflow counts whole, as its entry carries the wrapped keys. -/
def Discloses (db : Database) (now : Time) (caller : User) (secretId : ℕ) : ReadRequest → Prop
  | .getSecret id => ∃ r, getSecret db now caller id = .ok r ∧ r.secret.id = secretId
  | .getChunk id index => ∃ c, getChunk db now caller id index = .ok c ∧ c.secretId = secretId
  | .getWorkflow id => ∃ r, getMultisigWorkflow db caller id = .ok r ∧ r.secret.id = secretId
  | .listWorkflows limit offset =>
    ∃ r ∈ listMultisigWorkflows db caller limit offset, r.secret.id = secretId
  | .staleWraps limit offset => ∃ rows, Server.staleWraps db now caller limit offset = .ok rows ∧
      ∃ row ∈ rows, row.isFor db secretId

/-- Some read request, under some token of the address, gives something of the secret away. -/
def Obtains (db : Database) (now : Time) (a : Address) (secretId : ℕ) : Prop :=
  ∃ token caller, lower token.sub = a ∧ getCurrentUser db token = .ok caller ∧
    ∃ request, Discloses db now caller secretId request

def HasAccount (db : Database) (a : Address) : Prop := ∃ u ∈ db.users, u.address = a ∧ u.active = true

def IsSigner (db : Database) (w : MultisigWorkflow) (a : Address) : Prop :=
  ∃ r ∈ db.signers, r.workflowId = w.id ∧ r.userAddress = a

def IsRecipient (db : Database) (w : MultisigWorkflow) (a : Address) : Prop :=
  ∃ r ∈ db.recipients, r.workflowId = w.id ∧ r.userAddress = a

/-- The rule of release. -/
def MayRead (db : Database) (w : MultisigWorkflow) (a : Address) : Prop :=
  w.ownerAddress = a ∨ IsSigner db w a ∨ (w.status = .completed ∧ IsRecipient db w a)

/-! ## Grants on the secrets of workflows -/

/-- Grants are for secrets that were numbered, and on a workflow's secret only for its owner. -/
structure OwnGrants (db : Database) : Prop where
  grant_lt : ∀ g ∈ db.accessGrants, g.secretId < db.secrets.next
  owner : ∀ g ∈ db.accessGrants, ∀ w ∈ db.workflows, g.secretId = w.secretId →
    g.granteeAddress = w.ownerAddress

section grants

variable {prim : Primitives} {cfg : Config} {db db' : Database}

/-- No new grant, and no workflow that was not there for its secret and owner. -/
theorem OwnGrants.of_fewer (h : OwnGrants db) (hnext : db'.secrets.next = db.secrets.next)
    (hg : ∀ g ∈ db'.accessGrants, g ∈ db.accessGrants)
    (hw : ∀ w ∈ db'.workflows, ∃ w₀ ∈ db.workflows,
      w.secretId = w₀.secretId ∧ w.ownerAddress = w₀.ownerAddress) : OwnGrants db' where
  grant_lt := fun g hmem => hnext ▸ h.grant_lt g (hg g hmem)
  owner := by
    intro g hmem w hw' heq
    obtain ⟨w₀, hw₀, hsec, hown⟩ := hw w hw'
    rw [hown]
    exact h.owner g (hg g hmem) w₀ hw₀ (heq.trans hsec)

theorem OwnGrants.of_same (h : OwnGrants db) (hnext : db'.secrets.next = db.secrets.next)
    (hg : db'.accessGrants = db.accessGrants) (hw : db'.workflows = db.workflows) :
    OwnGrants db' :=
  h.of_fewer hnext (fun _ hmem => hg ▸ hmem) fun w hmem => ⟨w, hw ▸ hmem, rfl, rfl⟩

/-- The owner's grant on a secret that has just been numbered. -/
theorem OwnGrants.insert (h : OwnGrants db) (hinv : Inv prim db) (now : Time) (owner : Address)
    (data : SecretCreate) : OwnGrants (insertSecretWithOwnerGrant db now owner data) where
  grant_lt := by
    intro g hg
    change g.secretId < db.secrets.next + 1
    rcases Serial.mem_insert.mp hg with hg | rfl
    · exact Nat.lt_succ_of_lt (h.grant_lt g hg)
    · exact Nat.lt_succ_self _
  owner := by
    intro g hg w hw heq
    rcases Serial.mem_insert.mp hg with hg | rfl
    · exact h.owner g hg w hw heq
    · obtain ⟨s, hs, hid, -⟩ := (hinv.good w hw).secret
      have hlt : s.id < db.secrets.next := Serial.key_lt hs
      have heq' : db.secrets.next = w.secretId := heq
      omega

theorem OwnGrants.newWorkflow (h : OwnGrants db) (hinv : Inv prim db) (now : Time)
    (owner : Address) (req : MultisigWorkflowCreate) :
    OwnGrants (insertSecretAndWorkflow db now owner req) := by
  have hins := h.insert hinv now owner req.secretData
  refine ⟨hins.grant_lt, fun g hg w hw heq => ?_⟩
  rcases mem_insertSecretAndWorkflow_workflows hw with hw | rfl
  · exact hins.owner g hg w hw heq
  · rcases Serial.mem_insert.mp hg with hg | rfl
    · have hlt := h.grant_lt g hg
      have heq' : g.secretId = db.secrets.next := heq
      omega
    · rfl

theorem OwnGrants.grants (h : OwnGrants db) {T : Serial AccessGrant}
    (hT : ∀ g ∈ T, (∃ g₀ ∈ db.accessGrants, g.secretId = g₀.secretId ∧
        g.granteeAddress = g₀.granteeAddress) ∨
      ∃ s ∈ db.secrets, s.id = g.secretId ∧ isWorkflowManaged db g.secretId = false) :
    OwnGrants { db with accessGrants := T } where
  grant_lt := by
    intro g hg
    rcases hT g hg with ⟨g₀, hg₀, hsec, -⟩ | ⟨s, hs, hid, -⟩
    · rw [hsec]
      exact h.grant_lt g₀ hg₀
    · rw [← hid]
      exact Serial.key_lt hs
  owner := by
    intro g hg w hw heq
    rcases hT g hg with ⟨g₀, hg₀, hsec, hgrantee⟩ | ⟨s, -, -, hfree⟩
    · rw [hgrantee]
      exact h.owner g₀ hg₀ w hw (hsec.symm.trans heq)
    · exact absurd heq.symm (ne_of_unmanaged hfree hw)

theorem OwnGrants.move {uploads : ℕ → Prop} (h : OwnGrants db) (hinv : Inv prim db)
    (hm : Move prim uploads db db') : OwnGrants db' := by
  cases hm with
  | messaging db' hsame =>
    obtain ⟨⟨hs, hg, -, hw, -, -⟩, -⟩ := hsame
    exact h.of_same (by rw [hs]) hg hw
  | newSecret now owner data => exact h.insert hinv now owner data
  | dropSecret id _ =>
    exact h.of_fewer rfl (fun g hg => (Serial.mem_delete.mp hg).1) fun w hw => ⟨w, hw, rfl, rfl⟩
  | grants T hT => exact h.grants hT
  | newWorkflow now owner req _ => exact h.newWorkflow hinv now owner req
  | complete w r signature now supplied db' happ hc hr =>
    obtain ⟨T, rfl, -⟩ := completeWorkflow_ok hr
    refine h.of_fewer rfl (fun _ hg => hg) fun v hv => ?_
    rcases mem_setStatus happ.workflow hv with ⟨hv, -⟩ | rfl
    · exact ⟨v, hv, rfl, rfl⟩
    · exact ⟨w, happ.workflow, rfl, rfl⟩
  | reject w _ _ a now =>
    refine h.of_fewer rfl (fun _ hg => hg) fun v hv => ?_
    obtain ⟨v₀, hv₀, rfl⟩ := Serial.mem_update.mp hv
    refine ⟨v₀, hv₀, ?_⟩
    split <;> exact ⟨rfl, rfl⟩
  | dropWorkflow w _ _ =>
    exact h.of_fewer rfl (fun g hg => (Serial.mem_delete.mp hg).1)
      fun v hv => ⟨v, (Serial.mem_delete.mp hv).1, rfl, rfl⟩
  | _ => exact h.of_same rfl rfl rfl

theorem OwnGrants.step {e : Event} (h : OwnGrants db) (hinv : Inv prim db)
    (hs : Step prim cfg db e db') : OwnGrants db' := by
  cases e with
  | call c =>
    obtain rfl : (serve prim cfg db c).1 = db' := hs
    exact (Moves.invariant (I := fun db => Inv prim db ∧ OwnGrants db)
      (fun _ _ hI hm => ⟨hI.1.move hm, hI.2.move hI.1 hm⟩) (serve_moves c) ⟨hinv, h⟩).2
  | elsewhere =>
    obtain ⟨⟨hs, hg, -, hw, -, -⟩, -⟩ := hs
    exact h.of_same (by rw [hs]) hg hw

theorem OwnGrants.of_initial (h : Initial db) : OwnGrants db where
  grant_lt := by
    intro g hg
    obtain ⟨s, hs, hid⟩ := h.grant g hg
    exact hid ▸ Serial.key_lt hs
  owner := h.owner_grant

theorem OwnGrants.of_reachable (h : Reachable prim cfg db) : OwnGrants db := by
  obtain ⟨db₀, events, h₀, hrun⟩ := h
  exact (hrun.invariant (I := fun db => Inv prim db ∧ OwnGrants db)
    (fun _ _ _ hI hs => ⟨hI.1.step hs, hI.2.step hI.1 hs⟩)
    ⟨.of_initial h₀, .of_initial h₀⟩).2

end grants

/-! ## What the routes check -/

section routes

variable {prim : Primitives} {cfg : Config} {db : Database} {now : Time} {w : MultisigWorkflow}
  {a : Address}

theorem isSigner_iff : (findWorkflowSigner db w.id a).isSome = true ↔ IsSigner db w a := by
  constructor
  · intro h
    obtain ⟨r, hr⟩ := Option.isSome_iff_exists.mp h
    obtain ⟨hmem, hid, ha⟩ := findWorkflowSigner_mem hr
    exact ⟨r, hmem, hid, ha⟩
  · rintro ⟨r, hmem, hid, ha⟩
    have hsome := Table.find?_isSome (T := db.signers.toTable)
      (p := fun s => s.workflowId == w.id && s.userAddress == a) hmem (by simp [hid, ha])
    exact Option.isSome_iff_exists.mpr hsome

theorem isRecipient_iff : (findWorkflowRecipient db w.id a).isSome = true ↔ IsRecipient db w a := by
  constructor
  · intro h
    obtain ⟨r, hr⟩ := Option.isSome_iff_exists.mp h
    obtain ⟨hmem, hp⟩ := Table.find?_mem hr
    simp only [Bool.and_eq_true, beq_iff_eq] at hp
    exact ⟨r, hmem, hp.1, hp.2⟩
  · rintro ⟨r, hmem, hid, ha⟩
    have hsome := Table.find?_isSome (T := db.recipients.toTable)
      (p := fun r => r.workflowId == w.id && r.userAddress == a) hmem (by simp [hid, ha])
    exact Option.isSome_iff_exists.mpr hsome

/-- The predicate on one workflow is the rule. -/
theorem canReadWorkflow_iff : canReadWorkflow db (some w) a = true ↔ MayRead db w a := by
  simp only [canReadWorkflow, Bool.or_eq_true, Bool.and_eq_true, beq_iff_eq, isSigner_iff,
    isRecipient_iff, MayRead, or_assoc]

/-- The query over all workflows is the rule on each of them. -/
theorem mem_readableWorkflows : w ∈ readableWorkflows db a ↔ w ∈ db.workflows ∧ MayRead db w a := by
  rw [readableWorkflows, Table.mem_where', Serial.mem_toTable]
  simp only [Bool.or_eq_true, Bool.and_eq_true, beq_iff_eq, List.contains_iff_mem, List.mem_map,
    Table.mem_where', Serial.mem_toTable, or_assoc]
  refine and_congr_right fun _ => or_congr_right (or_congr ?_ ?_)
  · constructor
    · rintro ⟨r, ⟨hmem, ha⟩, hid⟩
      exact ⟨r, hmem, hid, ha⟩
    · rintro ⟨r, hmem, hid, ha⟩
      exact ⟨r, ⟨hmem, ha⟩, hid⟩
  · rw [and_comm]
    refine and_congr_right fun _ => ?_
    constructor
    · rintro ⟨r, ⟨hmem, ha⟩, hid⟩
      exact ⟨r, hmem, hid, ha⟩
    · rintro ⟨r, hmem, hid, ha⟩
      exact ⟨r, ⟨hmem, ha⟩, hid⟩

/-- The rule for reading a secret is, on a workflow's secret, the rule for the workflow. -/
theorem canReadSecret_iff (hinv : Inv prim db) (hown : OwnGrants db) (hw : w ∈ db.workflows)
    {s : Secret} (hs : s ∈ db.secrets) (hid : s.id = w.secretId) :
    canReadSecret db now s a = true ↔ MayRead db w a := by
  obtain ⟨s', hs', hid', howner⟩ := (hinv.good w hw).secret
  obtain rfl : s' = s := Serial.eq_of_key hs' hs (hid'.trans hid.symm)
  have hfind : db.workflows.find? (fun v => v.secretId == s'.id) = some w := by
    obtain ⟨v, hv⟩ := Table.find?_isSome (T := db.workflows.toTable)
      (p := fun v => v.secretId == s'.id) hw (by simp [hid])
    obtain ⟨hmem, hsec⟩ := Table.find?_mem hv
    rw [hv, hinv.secret_inj v hmem w hw ((by simpa using hsec : v.secretId = s'.id).trans hid)]
  rw [canReadSecret, hfind]
  simp only [Bool.or_eq_true, canReadWorkflow_iff, beq_iff_eq]
  constructor
  · rintro ((hs | hg) | hr)
    · exact .inl (howner ▸ hs)
    · obtain ⟨g, hg⟩ := Option.isSome_iff_exists.mp hg
      obtain ⟨hmem, hp⟩ := Table.find?_mem hg
      simp only [Bool.and_eq_true, beq_iff_eq] at hp
      exact .inl ((hown.owner g hmem w hw (hp.1.1.trans hid)) ▸ hp.1.2)
    · exact hr
  · exact .inr

/-- A page of stale wraps holds none that the caller does not. -/
theorem mem_of_stalePage {kid : Option String} {rows : List StaleWrap} {limit offset : ℕ}
    {out : List StaleWrap} (h : stalePage kid rows limit offset = .ok out) {row : StaleWrap}
    (hrow : row ∈ out) : row ∈ rows := by
  induction rows generalizing limit offset out with
  | nil =>
    cases h
    cases hrow
  | cons x rows ih =>
    unfold stalePage at h
    obtain ⟨named, -, h⟩ := bind_eq_ok.mp h
    split at h
    · exact List.mem_cons_of_mem _ (ih h hrow)
    · split at h
      · exact List.mem_cons_of_mem _ (ih h hrow)
      · obtain ⟨rest, hrest, h⟩ := bind_eq_ok.mp h
        cases h
        rcases List.mem_cons.mp hrow with rfl | hrow
        · exact List.mem_cons_self
        · exact List.mem_cons_of_mem _ (ih hrest hrow)
      · cases h
        rw [List.mem_singleton.mp hrow]
        exact List.mem_cons_self

/-- A workflow that the address may read, found by the id that one of its rows carries. -/
theorem mayRead_of_readable (hw : w ∈ db.workflows) {id : ℕ} (hid : w.id = id)
    (h : ((readableWorkflows db a).map (·.id)).contains id = true) : MayRead db w a := by
  rw [List.contains_iff_mem] at h
  obtain ⟨v, hv, hvid⟩ := List.mem_map.mp h
  obtain ⟨hmem, hmay⟩ := mem_readableWorkflows.mp hv
  rwa [Serial.eq_of_key hw hmem (hid.trans hvid.symm)]

/-- The wraps that the rewrap listing walks are wraps of secrets that the address may read. -/
theorem mayRead_of_held (hinv : Inv prim db) (hown : OwnGrants db) (hw : w ∈ db.workflows)
    {item : StaleWrap} (h : item ∈ held db now a) (hfor : item.isFor db w.secretId) :
    MayRead db w a := by
  rw [held, List.mem_append, List.mem_append] at h
  rcases h with (h | h) | h
  · obtain ⟨g, hg, rfl⟩ := List.mem_map.mp h
    obtain ⟨hmem, hp⟩ := Table.mem_where'.mp hg
    obtain ⟨g', hg', hid, hsec⟩ := hfor
    obtain rfl : g' = g := Serial.eq_of_key hg' hmem hid
    have ha : g'.granteeAddress = a := by simpa using (Bool.and_eq_true_iff.mp hp).1
    exact .inl ((hown.owner g' hmem w hw hsec).symm.trans ha)
  · obtain ⟨r, hr, hkey⟩ := List.mem_filterMap.mp h
    obtain ⟨hmem, hp⟩ := Table.mem_where'.mp hr
    obtain ⟨key, -, rfl⟩ := Option.map_eq_some_iff.mp hkey
    obtain ⟨r', hr', hid, v, hv, hvid, hsec⟩ := hfor
    obtain rfl : r' = r := Serial.eq_of_key hr' hmem hid
    obtain rfl := hinv.secret_inj v hv w hw hsec
    exact mayRead_of_readable hw hvid (Bool.and_eq_true_iff.mp hp).2
  · obtain ⟨r, hr, hkey⟩ := List.mem_filterMap.mp h
    obtain ⟨hmem, hp⟩ := Table.mem_where'.mp hr
    obtain ⟨key, -, rfl⟩ := Option.map_eq_some_iff.mp hkey
    obtain ⟨r', hr', hid, v, hv, hvid, hsec⟩ := hfor
    obtain rfl : r' = r := Serial.eq_of_key hr' hmem hid
    obtain rfl := hinv.secret_inj v hv w hw hsec
    exact mayRead_of_readable hw hvid (Bool.and_eq_true_iff.mp hp).2

/-- Whatever a request discloses, its caller may read. -/
theorem mayRead_of_discloses (hinv : Inv prim db) (hown : OwnGrants db) (hw : w ∈ db.workflows)
    {caller : User} {request : ReadRequest} (h : Discloses db now caller w.secretId request) :
    MayRead db w caller.address := by
  cases request with
  | getSecret id =>
    obtain ⟨r, h, hid⟩ := h
    obtain ⟨s, hs, h⟩ := bind_eq_ok.mp h
    cases h
    obtain ⟨hmem, -, hread⟩ := loadSecret_ok hs
    exact (canReadSecret_iff hinv hown hw hmem hid).mp hread
  | getChunk id index =>
    obtain ⟨c, h, hid⟩ := h
    obtain ⟨s, hs, h⟩ := bind_eq_ok.mp h
    obtain ⟨hmem, hsid, hread⟩ := loadSecret_ok hs
    split at h
    · next c' hc =>
      cases h
      obtain ⟨-, hp⟩ := Table.find?_mem hc
      simp only [Bool.and_eq_true, beq_iff_eq] at hp
      exact (canReadSecret_iff hinv hown hw hmem (hsid.trans (hp.1.symm.trans hid))).mp hread
    · cases h
  | getWorkflow id =>
    obtain ⟨r, h, hid⟩ := h
    simp only [getMultisigWorkflow, bind_eq_ok, refuseIf_eq_ok] at h
    obtain ⟨v, hv, _, hread, h⟩ := h
    obtain ⟨hmem, -⟩ := loadWorkflowOr404_ok hv
    unfold workflowResponse at h
    split at h
    · next s hs =>
      cases h
      obtain ⟨-, hsid⟩ := Table.find?_mem hs
      obtain rfl := hinv.secret_inj v hmem w hw ((by simpa using hsid : s.id = v.secretId).symm.trans hid)
      exact canReadWorkflow_iff.mp (by simpa using hread)
    · cases h
  | listWorkflows limit offset =>
    obtain ⟨r, h, hid⟩ := h
    obtain ⟨v, hv, h⟩ := List.mem_filterMap.mp h
    obtain ⟨s, hs, rfl⟩ := Option.map_eq_some_iff.mp h
    have hv' : v ∈ readableWorkflows db caller.address :=
      List.mem_reverse.mp (List.mem_of_mem_drop (List.mem_of_mem_take hv))
    obtain ⟨hmem, hmay⟩ := mem_readableWorkflows.mp hv'
    obtain ⟨-, hsid⟩ := Table.find?_mem hs
    obtain rfl := hinv.secret_inj v hmem w hw ((by simpa using hsid : s.id = v.secretId).symm.trans hid)
    exact hmay
  | staleWraps limit offset =>
    obtain ⟨rows, h, row, hrow, hfor⟩ := h
    exact mayRead_of_held hinv hown hw (mem_of_stalePage h hrow) hfor

/-- Who may read the workflow gets its secret by its id. -/
theorem discloses_of_mayRead (hinv : Inv prim db) (hown : OwnGrants db) (hw : w ∈ db.workflows)
    {caller : User} (h : MayRead db w caller.address) :
    Discloses db now caller w.secretId (.getSecret w.secretId) := by
  obtain ⟨s, hs, hid, -⟩ := (hinv.good w hw).secret
  have hfind : db.secrets.find? (·.id == w.secretId) = some s := by
    have hkey := Table.find?_key (T := db.secrets.toTable) hs
    simpa only [key_secret, hid, beq_eq_decide] using hkey
  have hload : loadSecret db now w.secretId caller.address (canReadSecret db now) = .ok s := by
    rw [loadSecret, hfind]
    exact if_pos ((canReadSecret_iff hinv hown hw hs hid).mpr h)
  exact ⟨_, bind_eq_ok.mpr ⟨s, hload, rfl⟩, hid⟩

/-- In every reachable state, whoever has an account obtains something of a workflow's secret
exactly where the rule of release lets it; and a recipient who neither owns nor signs the workflow
obtains nothing before the quorum is there. -/
theorem obtains_iff (h : Reachable prim cfg db) (hw : w ∈ db.workflows) (now : Time) (a : Address) :
    (Obtains db now a w.secretId ↔ HasAccount db a ∧ MayRead db w a) ∧
    (Obtains db now a w.secretId → w.ownerAddress ≠ a → ¬ IsSigner db w a →
      IsRecipient db w a ∧ w.status = .completed ∧ quorum db w ≤ (signedRows db w).length) := by
  have hinv := Inv.of_reachable h
  have hown := OwnGrants.of_reachable h
  have hmay : Obtains db now a w.secretId → HasAccount db a ∧ MayRead db w a := by
    rintro ⟨token, caller, rfl, hcaller, request, hdisc⟩
    obtain ⟨hmem, haddr, hactive⟩ := getCurrentUser_ok hcaller
    exact ⟨⟨caller, hmem, haddr, hactive⟩, haddr ▸ mayRead_of_discloses hinv hown hw hdisc⟩
  refine ⟨⟨hmay, ?_⟩, fun hobt howner hsigner => ?_⟩
  · rintro ⟨⟨u, hu, rfl, hactive⟩, hread⟩
    exact ⟨⟨u.address.text, u.tokenVersion⟩, u, lower_text _, getCurrentUser_of_active hu hactive,
      _, discloses_of_mayRead hinv hown hw hread⟩
  · rcases (hmay hobt).2 with hown | hsig | ⟨hst, hrec⟩
    · exact absurd hown howner
    · exact absurd hsig hsigner
    · exact ⟨hrec, hst, (hinv.good w hw).completed hst⟩

end routes

/-- While Bob has not approved it, the deal is for him to read and not for Carol. -/
theorem obtains_iff_sample :
    ∃ w ∈ (serveAll samplePrimitives sampleConfig sampleStart [sampleCreate]).workflows,
      Obtains (serveAll samplePrimitives sampleConfig sampleStart [sampleCreate]) 1 (lower "bob")
        w.secretId ∧
      ¬ Obtains (serveAll samplePrimitives sampleConfig sampleStart [sampleCreate]) 1
        (lower "carol") w.secretId := by
  have hmem : ∃ w ∈ (serveAll samplePrimitives sampleConfig sampleStart [sampleCreate]).workflows.rows,
      canReadWorkflow (serveAll samplePrimitives sampleConfig sampleStart [sampleCreate]) (some w)
        (lower "bob") = true ∧
      canReadWorkflow (serveAll samplePrimitives sampleConfig sampleStart [sampleCreate]) (some w)
        (lower "carol") = false := by decide
  obtain ⟨w, hw, hbob, hcarol⟩ := hmem
  have haccount : HasAccount (serveAll samplePrimitives sampleConfig sampleStart [sampleCreate])
      (lower "bob") := by
    change ∃ u ∈ (serveAll samplePrimitives sampleConfig sampleStart [sampleCreate]).users.rows, _
    decide
  refine ⟨w, hw, ?_, fun h => ?_⟩
  · exact (obtains_iff (reachable_sample _) hw 1 _).1.mpr ⟨haccount, canReadWorkflow_iff.mp hbob⟩
  · have hread := ((obtains_iff (reachable_sample _) hw 1 _).1.mp h).2
    rw [← canReadWorkflow_iff, hcarol] at hread
    cases hread

/-! ## A signer who left -/

/-- A challenge that waits for Bob. -/
def sampleChallenged : Database where
  __ := sampleStart
  nonces := ⟨[⟨"0a", lower "bob", 9⟩], by decide⟩

/-- Bob leaves. -/
def sampleLeave : Call := sampleCall "bob" <| .deleteAccount .leave
  ⟨"0a", "https://sample", "sample", "bob" ++ domainSeparate "account-deletion"
    "origin=https://sample\ndeployment=sample\nnonce=0a\nmode=leave\nredactions=[]", []⟩

theorem reachable_sampleChallenged (calls : List Call) :
    Reachable samplePrimitives sampleConfig
      (serveAll samplePrimitives sampleConfig sampleChallenged calls) :=
  ⟨sampleChallenged, calls.map .call, .of_empty rfl rfl rfl rfl rfl, run_serveAll _ _ calls _⟩

set_option maxRecDepth 10000 in
/-- Without an account a signer obtains nothing: Bob left, and his row stays. -/
theorem not_obtains_after_leave :
    ¬ ∀ db, Reachable samplePrimitives sampleConfig db → ∀ w ∈ db.workflows, ∀ now a,
      (Obtains db now a w.secretId ↔ MayRead db w a) := by
  intro h
  have hmem : ∃ w ∈ (serveAll samplePrimitives sampleConfig sampleChallenged
      [sampleCreate, sampleLeave]).workflows.rows,
      canReadWorkflow (serveAll samplePrimitives sampleConfig sampleChallenged
        [sampleCreate, sampleLeave]) (some w) (lower "bob") = true := by decide
  have hgone : ∀ u ∈ (serveAll samplePrimitives sampleConfig sampleChallenged
      [sampleCreate, sampleLeave]).users.rows, u.address = lower "bob" → u.active = false := by
    decide
  obtain ⟨w, hw, hbob⟩ := hmem
  have hobt := (h _ (reachable_sampleChallenged _) w hw 1 (lower "bob")).mpr
    (canReadWorkflow_iff.mp hbob)
  obtain ⟨token, caller, hsub, hcaller, -⟩ := hobt
  obtain ⟨hu, haddr, hactive⟩ := getCurrentUser_ok hcaller
  have hinactive := hgone caller hu (haddr.trans hsub)
  rw [hactive] at hinactive
  cases hinactive

end Kryptolog.Server
