import Kryptolog.Library.Ternary
import Kryptolog.Server.GroupRoles
import Kryptolog.Server.Release

/-! # Access rules in two forms

`security/authorization.py` says some rules twice: as a test of one row, in Python, and as a
condition that a query puts to a whole table. Here both run over rows as the database stores them:
every column but the primary key may be NULL, and an address is whatever text was stored. The
endpoints store addresses in lower case only. `forms_agree` compares the forms on any state.
-/

namespace Kryptolog.Server.Stored
set_option autoImplicit false

open Tables Ternary

/-! ## The stored rows -/

structure AccessGrant where
  id : ℕ
  secretId : Option ℕ
  granteeAddress : Option String
  expiresAt : Option Time
  deriving DecidableEq

structure MultisigWorkflow where
  id : ℕ
  ownerAddress : Option String
  status : Option String
  deriving DecidableEq

/-- A signer or a recipient of a workflow. -/
structure Party where
  id : ℕ
  workflowId : Option ℕ
  userAddress : Option String
  deriving DecidableEq

structure GroupMember where
  id : ℕ
  channelId : Option String
  userAddress : Option String
  deriving DecidableEq

instance : Keyed AccessGrant ℕ := ⟨AccessGrant.id⟩
instance : Keyed MultisigWorkflow ℕ := ⟨MultisigWorkflow.id⟩
instance : Keyed Party ℕ := ⟨Party.id⟩
instance : Keyed GroupMember ℕ := ⟨GroupMember.id⟩

/-- The tables that the rules read. `uq_access_grant_secret_grantee` counts no row with a NULL. -/
structure AccessTables where
  accessGrants : Table AccessGrant
  workflows : Table MultisigWorkflow
  signers : Table Party
  recipients : Table Party
  groupMembers : Table GroupMember
  oneGrant : ∀ g ∈ accessGrants, ∀ g' ∈ accessGrants, ∀ secretId grantee,
    g.secretId = some secretId → g.granteeAddress = some grantee →
    g'.secretId = some secretId → g'.granteeAddress = some grantee → g = g'

/-- `SELECT … WHERE`. -/
def select {ρ : Type} [Keyed ρ ℕ] (T : Table ρ) (condition : ρ → Condition) : List ρ :=
  T.where' fun row => holds (condition row)

/-- `SELECT … WHERE … LIMIT 1`. -/
def first {ρ : Type} [Keyed ρ ℕ] (T : Table ρ) (condition : ρ → Condition) : Option ρ :=
  T.find? fun row => holds (condition row)

/-- `str.lower`: what is in lower case stays as it is. -/
structure Lowering where
  text : String → String
  idem : ∀ address, text (text address) = text address

section

variable (lower : Lowering) (t : AccessTables) (now : Time)

def normalizeAddress (address : Option String) : Option String := address.map lower.text

/-! ## Grants -/

/-- `_live_grant_filter`. -/
def liveGrantFilter (g : AccessGrant) : Condition :=
  or (isNull g.expiresAt) (test (fun expiresAt => decide (now < expiresAt)) g.expiresAt)

def findLiveGrant (secretId : ℕ) (userAddress : String) : Option AccessGrant :=
  first t.accessGrants fun g =>
    and (eq g.secretId secretId) (and (eq g.granteeAddress (lower.text userAddress))
      (liveGrantFilter now g))

def liveGrantsOf (userAddress : String) : List AccessGrant :=
  select t.accessGrants fun g =>
    and (eq g.granteeAddress (lower.text userAddress)) (liveGrantFilter now g)

/-- The condition of `purge_expired_grants`, within a secret, a grantee, both or neither. -/
def expiredGrantFilter (secretId : Option ℕ) (grantee : Option String) (g : AccessGrant) : Condition :=
  let expired := and (isNotNull g.expiresAt)
    (test (fun expiresAt => decide (expiresAt ≤ now)) g.expiresAt)
  let ofSecret := match secretId with
    | some id => and expired (eq g.secretId id)
    | none => expired
  match grantee with
  | some address => and ofSecret (eq g.granteeAddress (lower.text address))
  | none => ofSecret

/-- `purge_expired_grants`: the tables afterwards, and how many rows went. -/
def purgeExpiredGrants (secretId : Option ℕ) (grantee : Option String) : AccessTables × ℕ :=
  let condition := expiredGrantFilter lower now secretId grantee
  ({ t with
      accessGrants := t.accessGrants.delete fun g => holds (condition g)
      oneGrant := fun g hg g' hg' =>
        t.oneGrant g (Table.mem_delete.mp hg).1 g' (Table.mem_delete.mp hg').1 },
    (select t.accessGrants condition).length)

/-! ## Membership -/

def findGroupMember (channelId userAddress : String) : Option GroupMember :=
  first t.groupMembers fun m =>
    and (eq m.channelId channelId) (eq m.userAddress (lower.text userAddress))

def isGroupMember (channelId userAddress : String) : Bool :=
  (findGroupMember lower t channelId userAddress).isSome

/-- `member_channel_ids`: the column that the subquery selects. -/
def memberChannelIds (userAddress : String) : List (Option String) :=
  (select t.groupMembers fun m => eq m.userAddress (lower.text userAddress)).map (·.channelId)

/-! ## Workflows -/

def findWorkflowSigner (workflowId : ℕ) (userAddress : String) : Option Party :=
  first t.signers fun s =>
    and (eq s.workflowId workflowId) (eq s.userAddress (lower.text userAddress))

def findWorkflowRecipient (workflowId : ℕ) (userAddress : String) : Option Party :=
  first t.recipients fun r =>
    and (eq r.workflowId workflowId) (eq r.userAddress (lower.text userAddress))

def canReadWorkflow (workflow : Option MultisigWorkflow) (userAddress : String) : Bool :=
  match workflow with
  | none => false
  | some w =>
    let address := lower.text userAddress
    normalizeAddress lower w.ownerAddress == some address ||
      (findWorkflowSigner lower t w.id address).isSome ||
      (w.status == some "completed" && (findWorkflowRecipient lower t w.id address).isSome)

def readableWorkflows (userAddress : String) : List MultisigWorkflow :=
  let address := lower.text userAddress
  let signerIds := (select t.signers fun s => eq s.userAddress address).map (·.workflowId)
  let recipientIds := (select t.recipients fun r => eq r.userAddress address).map (·.workflowId)
  select t.workflows fun w =>
    or (eq w.ownerAddress address) (or (isIn (some w.id) signerIds)
      (and (isIn (some w.id) recipientIds) (eq w.status "completed")))

end

/-! ## The two forms -/

theorem mem_select {ρ : Type} [Keyed ρ ℕ] {T : Table ρ} {condition : ρ → Condition} {row : ρ} :
    row ∈ select T condition ↔ row ∈ T ∧ holds (condition row) = true := Table.mem_where'

theorem first_isSome {ρ : Type} [Keyed ρ ℕ] {T : Table ρ} {condition : ρ → Condition} :
    (first T condition).isSome = true ↔ ∃ row ∈ T, holds (condition row) = true := by
  constructor
  · intro h
    obtain ⟨row, hrow⟩ := Option.isSome_iff_exists.mp h
    exact ⟨row, Table.find?_mem hrow⟩
  · rintro ⟨row, hrow, hholds⟩
    exact Option.isSome_iff_exists.mpr (Table.find?_isSome hrow hholds)

/-- A grant that has not expired: it has no expiry, or one that is still to come. -/
def AccessGrant.Live (now : Time) (g : AccessGrant) : Prop := ∀ e, g.expiresAt = some e → now < e

section

variable {lower : Lowering} {t : AccessTables} {now : Time} {a : String}

theorem liveGrantFilter_iff {g : AccessGrant} :
    holds (liveGrantFilter now g) = true ↔ g.Live now := by
  unfold liveGrantFilter AccessGrant.Live
  cases g.expiresAt <;> simp

/-- The other spelling is the opposite, also at the instant of the expiry. -/
theorem expiredGrantFilter_iff {secretId : Option ℕ} {grantee : Option String} {g : AccessGrant} :
    holds (expiredGrantFilter lower now secretId grantee g) = true ↔
      ¬ g.Live now ∧ (∀ id, secretId = some id → g.secretId = some id) ∧
        ∀ address, grantee = some address → g.granteeAddress = some (lower.text address) := by
  have hexpired : g.expiresAt.isSome = true ∧ g.expiresAt.any (fun e => decide (e ≤ now)) = true ↔
      ¬ g.Live now := by
    unfold AccessGrant.Live
    cases g.expiresAt <;> simp
  unfold expiredGrantFilter
  cases secretId <;> cases grantee <;>
    simp only [holds_and, holds_isNotNull, holds_test, Bool.and_eq_true, holds_eq, hexpired, and_assoc] <;>
    simp

theorem mem_liveGrantsOf {g : AccessGrant} :
    g ∈ liveGrantsOf lower t now a ↔
      g ∈ t.accessGrants ∧ g.granteeAddress = some (lower.text a) ∧ g.Live now := by
  rw [liveGrantsOf, mem_select, holds_and, Bool.and_eq_true, holds_eq, liveGrantFilter_iff]

/-- One grant at most fits the look-up, so the look-up returns it. -/
theorem findLiveGrant_eq_some {secretId : ℕ} {g : AccessGrant} :
    findLiveGrant lower t now secretId a = some g ↔
      g ∈ t.accessGrants ∧ g.secretId = some secretId ∧
        g.granteeAddress = some (lower.text a) ∧ g.Live now := by
  have hcondition : ∀ x : AccessGrant, holds (and (eq x.secretId secretId)
      (and (eq x.granteeAddress (lower.text a)) (liveGrantFilter now x))) = true ↔
      x.secretId = some secretId ∧ x.granteeAddress = some (lower.text a) ∧ x.Live now := by
    intro x
    rw [holds_and, holds_and, Bool.and_eq_true, Bool.and_eq_true, holds_eq, holds_eq,
      liveGrantFilter_iff]
  constructor
  · intro h
    obtain ⟨hmem, hholds⟩ := Table.find?_mem h
    exact ⟨hmem, (hcondition g).mp hholds⟩
  · rintro ⟨hmem, hsecret, hgrantee, hlive⟩
    have hsome : (findLiveGrant lower t now secretId a).isSome = true :=
      first_isSome.mpr ⟨g, hmem, (hcondition g).mpr ⟨hsecret, hgrantee, hlive⟩⟩
    obtain ⟨g', hg'⟩ := Option.isSome_iff_exists.mp hsome
    obtain ⟨hmem', hholds⟩ := Table.find?_mem hg'
    obtain ⟨hsecret', hgrantee', -⟩ := (hcondition g').mp hholds
    obtain rfl := t.oneGrant g hmem g' hmem' _ _ hsecret hgrantee hsecret' hgrantee'
    exact hg'

theorem isGroupMember_iff {channelId : String} :
    isGroupMember lower t channelId a = true ↔ ∃ m ∈ t.groupMembers,
      m.channelId = some channelId ∧ m.userAddress = some (lower.text a) := by
  rw [isGroupMember, findGroupMember, first_isSome]
  simp only [holds_and, Bool.and_eq_true, holds_eq]

theorem mem_memberChannelIds {channelId : String} :
    some channelId ∈ memberChannelIds lower t a ↔ ∃ m ∈ t.groupMembers,
      m.channelId = some channelId ∧ m.userAddress = some (lower.text a) := by
  simp only [memberChannelIds, List.mem_map, mem_select, holds_eq]
  constructor
  · rintro ⟨m, ⟨hm, ha⟩, hid⟩
    exact ⟨m, hm, hid, ha⟩
  · rintro ⟨m, hm, hid, ha⟩
    exact ⟨m, ⟨hm, ha⟩, hid⟩

/-- A row of the address in a table of signers or recipients. -/
def Takes (T : Table Party) (id : ℕ) (address : String) : Prop :=
  ∃ row ∈ T, row.workflowId = some id ∧ row.userAddress = some address

theorem isIn_parties {T : Table Party} {id : ℕ} {address : String} :
    holds (isIn (some id) ((select T fun row => eq row.userAddress address).map (·.workflowId))) =
      true ↔ Takes T id address := by
  rw [holds_isIn]
  simp only [List.mem_map, mem_select, holds_eq]
  constructor
  · rintro ⟨x, hx, row, ⟨hrow, haddress⟩, hid⟩
    exact ⟨row, hrow, hid.trans hx.symm, haddress⟩
  · rintro ⟨row, hrow, hid, haddress⟩
    exact ⟨id, rfl, row, ⟨hrow, haddress⟩, hid⟩

theorem findWorkflowSigner_isSome {id : ℕ} :
    (findWorkflowSigner lower t id a).isSome = true ↔ Takes t.signers id (lower.text a) := by
  rw [findWorkflowSigner, first_isSome]
  simp only [holds_and, Bool.and_eq_true, holds_eq, Takes]

theorem findWorkflowRecipient_isSome {id : ℕ} :
    (findWorkflowRecipient lower t id a).isSome = true ↔ Takes t.recipients id (lower.text a) := by
  rw [findWorkflowRecipient, first_isSome]
  simp only [holds_and, Bool.and_eq_true, holds_eq, Takes]

theorem mem_readableWorkflows {w : MultisigWorkflow} :
    w ∈ readableWorkflows lower t a ↔ w ∈ t.workflows ∧
      (w.ownerAddress = some (lower.text a) ∨ Takes t.signers w.id (lower.text a) ∨
        Takes t.recipients w.id (lower.text a) ∧ w.status = some "completed") := by
  simp only [readableWorkflows, mem_select, holds_or, holds_and, Bool.or_eq_true, Bool.and_eq_true,
    holds_eq, isIn_parties]

/-- The test of one row looks at the owner's address in lower case, the query as it is stored. -/
theorem canReadWorkflow_iff {w : MultisigWorkflow} :
    canReadWorkflow lower t (some w) a = true ↔
      (∃ owner, w.ownerAddress = some owner ∧ lower.text owner = lower.text a) ∨
        Takes t.signers w.id (lower.text a) ∨
        Takes t.recipients w.id (lower.text a) ∧ w.status = some "completed" := by
  simp only [canReadWorkflow, Bool.or_eq_true, Bool.and_eq_true, beq_iff_eq, normalizeAddress,
    Option.map_eq_some_iff, findWorkflowSigner_isSome, findWorkflowRecipient_isSome, lower.idem,
    or_assoc]
  rw [and_comm (a := w.status = some "completed")]

/-- The stored address of the owner, if there is one, is in lower case. -/
def MultisigWorkflow.Lowered (lower : Lowering) (w : MultisigWorkflow) : Prop :=
  ∀ owner, w.ownerAddress = some owner → lower.text owner = owner

theorem readable_iff_canRead {w : MultisigWorkflow} (hw : w ∈ t.workflows) (hlow : w.Lowered lower) :
    w ∈ readableWorkflows lower t a ↔ canReadWorkflow lower t (some w) a = true := by
  rw [mem_readableWorkflows, canReadWorkflow_iff]
  have howner : w.ownerAddress = some (lower.text a) ↔
      ∃ owner, w.ownerAddress = some owner ∧ lower.text owner = lower.text a := by
    constructor
    · intro h
      exact ⟨_, h, lower.idem a⟩
    · rintro ⟨owner, h, heq⟩
      rw [h, ← heq, hlow owner h]
  rw [howner]
  exact and_iff_right hw

/-- A grant of the address that has not expired and belongs to no secret. -/
def Orphan (lower : Lowering) (t : AccessTables) (now : Time) (a : String) (g : AccessGrant) : Prop :=
  g ∈ t.accessGrants ∧ g.secretId = none ∧ g.granteeAddress = some (lower.text a) ∧ g.Live now

theorem mem_liveGrantsOf_iff {g : AccessGrant} :
    g ∈ liveGrantsOf lower t now a ↔
      (∃ secretId, findLiveGrant lower t now secretId a = some g) ∨ Orphan lower t now a g := by
  simp only [mem_liveGrantsOf, findLiveGrant_eq_some]
  constructor
  · rintro ⟨hmem, hgrantee, hlive⟩
    cases hsecret : g.secretId with
    | none => exact .inr ⟨hmem, hsecret, hgrantee, hlive⟩
    | some secretId => exact .inl ⟨secretId, hmem, rfl, hgrantee, hlive⟩
  · rintro (⟨secretId, hmem, -, hgrantee, hlive⟩ | ⟨hmem, -, hgrantee, hlive⟩)
    · exact ⟨hmem, hgrantee, hlive⟩
    · exact ⟨hmem, hgrantee, hlive⟩

/-- A grant of the given secret and the given grantee, as far as they are given. -/
def InScope (lower : Lowering) (secretId : Option ℕ) (grantee : Option String) (g : AccessGrant) : Prop :=
  (∀ id, secretId = some id → g.secretId = some id) ∧
    ∀ address, grantee = some address → g.granteeAddress = some (lower.text address)

theorem mem_purgeExpiredGrants {secretId : Option ℕ} {grantee : Option String} {g : AccessGrant} :
    g ∈ (purgeExpiredGrants lower t now secretId grantee).1.accessGrants ↔
      g ∈ t.accessGrants ∧ ¬ (¬ g.Live now ∧ InScope lower secretId grantee g) := by
  rw [purgeExpiredGrants, Table.mem_delete, ← Bool.not_eq_true, expiredGrantFilter_iff]
  rfl

end

/-- The rules in their two forms, on any tables. The forms for workflows agree where the owner is
stored in lower case, and the grants that the query finds besides belong to no secret. -/
theorem forms_agree (lower : Lowering) (t : AccessTables) (now : Time) (a : String) :
    (∀ w : MultisigWorkflow, w.Lowered lower →
      (w ∈ readableWorkflows lower t a ↔
        w ∈ t.workflows ∧ canReadWorkflow lower t (some w) a = true)) ∧
    (∀ g, g ∈ liveGrantsOf lower t now a ↔
      (∃ secretId, findLiveGrant lower t now secretId a = some g) ∨ Orphan lower t now a g) ∧
    (∀ secretId grantee g, g ∈ (purgeExpiredGrants lower t now secretId grantee).1.accessGrants ↔
      g ∈ t.accessGrants ∧ ¬ (¬ g.Live now ∧ InScope lower secretId grantee g)) ∧
    ∀ channelId, some channelId ∈ memberChannelIds lower t a ↔
      isGroupMember lower t channelId a = true := by
  refine ⟨fun w hlow => ?_, fun g => mem_liveGrantsOf_iff, fun _ _ g => mem_purgeExpiredGrants,
    fun channelId => mem_memberChannelIds.trans isGroupMember_iff.symm⟩
  constructor
  · intro h
    have hw := (mem_readableWorkflows.mp h).1
    exact ⟨hw, (readable_iff_canRead hw hlow).mp h⟩
  · rintro ⟨hw, h⟩
    exact (readable_iff_canRead hw hlow).mpr h

/-! ## The rows that the endpoints write

The rest of the development works on rows without NULLs and with addresses in lower case. Its rules
are these, on such rows. -/

def asciiLower : Lowering := ⟨lowerText, lowerText_idem⟩

/-- A table, each row stored by `f`. -/
def storeRows {ρ σ : Type} [Keyed ρ ℕ] [Keyed σ ℕ] (f : ρ → σ)
    (hf : ∀ r, Keyed.key (f r) = Keyed.key r) (T : Table ρ) : Table σ where
  rows := T.rows.map f
  nodup := by
    have hkeys : (T.rows.map f).map Keyed.key = T.rows.map Keyed.key := by
      rw [List.map_map]
      exact List.map_congr_left fun r _ => hf r
    rw [hkeys]
    exact T.nodup

def ofGrant (g : Server.AccessGrant) : AccessGrant :=
  ⟨g.id, some g.secretId, some g.granteeAddress.text, g.expiresAt⟩

def ofWorkflow (w : Server.MultisigWorkflow) : MultisigWorkflow :=
  ⟨w.id, some w.ownerAddress.text, some w.status.text⟩

def ofSigner (s : MultisigWorkflowSigner) : Party := ⟨s.id, some s.workflowId, some s.userAddress.text⟩

def ofRecipient (r : MultisigWorkflowRecipient) : Party :=
  ⟨r.id, some r.workflowId, some r.userAddress.text⟩

def ofMember (m : Server.GroupMember) : GroupMember :=
  ⟨m.id, some m.channelId, some m.userAddress.text⟩

/-- `uq_access_grant_secret_grantee`. -/
def OneGrant (db : Database) : Prop := ∀ g ∈ db.accessGrants, ∀ g' ∈ db.accessGrants,
  g.secretId = g'.secretId → g.granteeAddress = g'.granteeAddress → g = g'

theorem Address.text_inj {a b : Address} : a.text = b.text ↔ a = b := by
  constructor
  · intro h
    cases a
    cases b
    cases h
    rfl
  · exact congrArg Address.text

def stored (db : Database) (hone : OneGrant db) : AccessTables where
  accessGrants := storeRows ofGrant (fun _ => rfl) db.accessGrants.toTable
  workflows := storeRows ofWorkflow (fun _ => rfl) db.workflows.toTable
  signers := storeRows ofSigner (fun _ => rfl) db.signers.toTable
  recipients := storeRows ofRecipient (fun _ => rfl) db.recipients.toTable
  groupMembers := storeRows ofMember (fun _ => rfl) db.groupMembers.toTable
  oneGrant := by
    intro g hg g' hg' secretId grantee hs ha hs' ha'
    obtain ⟨r, hr, rfl⟩ := List.mem_map.mp hg
    obtain ⟨r', hr', rfl⟩ := List.mem_map.mp hg'
    have hsecret : r.secretId = r'.secretId := Option.some.inj (hs.trans hs'.symm)
    have hgrantee : r.granteeAddress = r'.granteeAddress :=
      Address.text_inj.mp (Option.some.inj (ha.trans ha'.symm))
    rw [hone r hr r' hr' hsecret hgrantee]

section

variable {db : Database} {hone : OneGrant db} {now : Time} {a : Address}

theorem lower_address (a : Address) : asciiLower.text a.text = a.text := a.lowered

theorem live_ofGrant {g : Server.AccessGrant} : (ofGrant g).Live now ↔ g.live now = true := by
  unfold AccessGrant.Live Server.AccessGrant.live ofGrant
  cases g.expiresAt <;> simp

theorem mem_liveGrantsOf_stored {g : Server.AccessGrant} (hg : g ∈ db.accessGrants) :
    ofGrant g ∈ liveGrantsOf asciiLower (stored db hone) now a.text ↔
      g ∈ Server.liveGrantsOf db now a := by
  have hmem : ofGrant g ∈ (stored db hone).accessGrants := List.mem_map.mpr ⟨g, hg, rfl⟩
  have hgrantee : (ofGrant g).granteeAddress = some a.text ↔ g.granteeAddress = a :=
    Option.some_inj.trans Address.text_inj
  rw [mem_liveGrantsOf, live_ofGrant, lower_address, hgrantee, Server.liveGrantsOf, Table.mem_where',
    Bool.and_eq_true, beq_iff_eq, and_iff_right hmem, Serial.mem_toTable, and_iff_right hg]

theorem takes_signers {w : Server.MultisigWorkflow} :
    Takes (stored db hone).signers w.id a.text ↔ IsSigner db w a := by
  constructor
  · rintro ⟨row, hrow, hid, ha⟩
    obtain ⟨s, hs, rfl⟩ := List.mem_map.mp hrow
    exact ⟨s, hs, Option.some.inj hid, Address.text_inj.mp (Option.some.inj ha)⟩
  · rintro ⟨s, hs, hid, ha⟩
    exact ⟨ofSigner s, List.mem_map.mpr ⟨s, hs, rfl⟩, congrArg some hid,
      congrArg some (congrArg Address.text ha)⟩

theorem takes_recipients {w : Server.MultisigWorkflow} :
    Takes (stored db hone).recipients w.id a.text ↔ IsRecipient db w a := by
  constructor
  · rintro ⟨row, hrow, hid, ha⟩
    obtain ⟨r, hr, rfl⟩ := List.mem_map.mp hrow
    exact ⟨r, hr, Option.some.inj hid, Address.text_inj.mp (Option.some.inj ha)⟩
  · rintro ⟨r, hr, hid, ha⟩
    exact ⟨ofRecipient r, List.mem_map.mpr ⟨r, hr, rfl⟩, congrArg some hid,
      congrArg some (congrArg Address.text ha)⟩

theorem lowered_ofWorkflow (w : Server.MultisigWorkflow) : (ofWorkflow w).Lowered asciiLower := by
  intro owner howner
  rw [← Option.some.inj howner]
  exact lower_address _

theorem status_ofWorkflow {w : Server.MultisigWorkflow} :
    (ofWorkflow w).status = some "completed" ↔ w.status = .completed := by
  unfold ofWorkflow
  cases w.status <;> simp [Status.text]

/-- The rule on one stored row is the rule of the model. -/
theorem canReadWorkflow_stored {w : Server.MultisigWorkflow} :
    canReadWorkflow asciiLower (stored db hone) (some (ofWorkflow w)) a.text = true ↔
      Server.canReadWorkflow db (some w) a = true := by
  have howner : (∃ owner, (ofWorkflow w).ownerAddress = some owner ∧
      asciiLower.text owner = a.text) ↔ w.ownerAddress = a := by
    constructor
    · rintro ⟨owner, howner, heq⟩
      rw [← Option.some.inj howner, lower_address] at heq
      exact Address.text_inj.mp heq
    · rintro rfl
      exact ⟨_, rfl, lower_address _⟩
  have hid : (ofWorkflow w).id = w.id := rfl
  rw [canReadWorkflow_iff, Server.canReadWorkflow_iff, lower_address, howner, hid, takes_signers,
    takes_recipients, status_ofWorkflow, MayRead, and_comm (a := w.status = .completed)]

/-- And so is the query. -/
theorem mem_readableWorkflows_stored {w : Server.MultisigWorkflow} (hw : w ∈ db.workflows) :
    ofWorkflow w ∈ readableWorkflows asciiLower (stored db hone) a.text ↔
      w ∈ Server.readableWorkflows db a := by
  have hmem : ofWorkflow w ∈ (stored db hone).workflows := List.mem_map.mpr ⟨w, hw, rfl⟩
  rw [readable_iff_canRead hmem (lowered_ofWorkflow w), canReadWorkflow_stored,
    Server.mem_readableWorkflows, Server.canReadWorkflow_iff, and_iff_right hw]

theorem isGroupMember_stored {channelId : String} :
    isGroupMember asciiLower (stored db hone) channelId a.text = true ↔
      Server.isGroupMember db channelId a = true := by
  rw [isGroupMember_iff, Server.isGroupMember_iff, lower_address]
  constructor
  · rintro ⟨row, hrow, hid, ha⟩
    obtain ⟨m, hm, rfl⟩ := List.mem_map.mp hrow
    exact ⟨m, hm, Option.some.inj hid, Address.text_inj.mp (Option.some.inj ha)⟩
  · rintro ⟨m, hm, hid, ha⟩
    exact ⟨ofMember m, List.mem_map.mpr ⟨m, hm, rfl⟩, congrArg some hid,
      congrArg some (congrArg Address.text ha)⟩

end

/-! ## Rows on which the forms differ -/

/-- A workflow whose owner is stored as `A`, and a grant to `a` whose secret is gone. -/
def sampleTables : AccessTables where
  accessGrants := ⟨[⟨1, none, some "a", none⟩], List.nodup_singleton _⟩
  workflows := ⟨[⟨1, some "A", some "pending"⟩], List.nodup_singleton _⟩
  signers := .empty
  recipients := .empty
  groupMembers := .empty
  oneGrant := by
    intro g hg g' hg' _ _ _ _ _ _
    rw [List.mem_singleton.mp hg, List.mem_singleton.mp hg']

/-- A workflow of the address, stored in lower case, and a grant that is about to expire. -/
def sampleLowered : AccessTables where
  accessGrants := ⟨[⟨1, some 1, some "a", some 5⟩], List.nodup_singleton _⟩
  workflows := ⟨[⟨1, some "a", some "pending"⟩], List.nodup_singleton _⟩
  signers := .empty
  recipients := .empty
  groupMembers := .empty
  oneGrant := by
    intro g hg g' hg' _ _ _ _ _ _
    rw [List.mem_singleton.mp hg, List.mem_singleton.mp hg']

theorem forms_agree_sample :
    (⟨1, some "a", some "pending"⟩ : MultisigWorkflow) ∈ readableWorkflows asciiLower sampleLowered "A" ↔
      ⟨1, some "a", some "pending"⟩ ∈ sampleLowered.workflows ∧
        canReadWorkflow asciiLower sampleLowered (some ⟨1, some "a", some "pending"⟩) "A" = true :=
  (forms_agree asciiLower sampleLowered 5 "A").1 _ (by
    intro owner h
    cases h
    decide)

/-- The listing leaves out a workflow that its owner may read, and the live grants have one that no
secret's look-up returns. -/
theorem not_forms_agree :
    (¬ ∀ (lower : Lowering) (t : AccessTables) (a : String) (w : MultisigWorkflow),
      w ∈ t.workflows →
        (w ∈ readableWorkflows lower t a ↔ canReadWorkflow lower t (some w) a = true)) ∧
    ¬ ∀ (lower : Lowering) (t : AccessTables) (now : Time) (a : String) (g : AccessGrant),
      g ∈ liveGrantsOf lower t now a ↔ ∃ secretId, findLiveGrant lower t now secretId a = some g := by
  constructor
  · intro h
    have hread := (h asciiLower sampleTables "a" ⟨1, some "A", some "pending"⟩
      (List.mem_singleton_self _)).mpr (by decide)
    have hlisted : readableWorkflows asciiLower sampleTables "a" = [] := by decide
    rw [hlisted] at hread
    cases hread
  · intro h
    have hlive : (⟨1, none, some "a", none⟩ : AccessGrant) ∈
        liveGrantsOf asciiLower sampleTables 0 "a" := by decide
    obtain ⟨secretId, hfound⟩ := (h asciiLower sampleTables 0 "a" _).mp hlive
    have hsecret := (findLiveGrant_eq_some.mp hfound).2.1
    cases hsecret

end Kryptolog.Server.Stored
