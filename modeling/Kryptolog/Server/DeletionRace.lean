import Kryptolog.Server.Transactions
import Kryptolog.Server.WorkflowInvariant

/-! # Deletions that overtake a completing signature

`/sign` and `/reject` hold the workflow's row lock from the load to the commit. The two
deletions decide on a status that they read without a lock. A completing signature that commits
in between is lost, with the keys it released. In every run where none does, what a completed
workflow holds stays.
-/

namespace Kryptolog.Server
set_option autoImplicit false

open Tables Json Runs ReadCommitted

/-- Every completed workflow stays, with its secret and its recipient rows. -/
def KeepsReleased (db db' : Database) : Prop :=
  ∀ w ∈ db.workflows, w.status = .completed →
    w ∈ db'.workflows ∧ (∀ s ∈ db.secrets, s.id = w.secretId → s ∈ db'.secrets) ∧
      ∀ r ∈ db.recipients, r.workflowId = w.id → r ∈ db'.recipients

theorem KeepsReleased.refl (db : Database) : KeepsReleased db db :=
  fun _ hw _ => ⟨hw, fun _ hs _ => hs, fun _ hr _ => hr⟩

theorem KeepsReleased.trans {db₁ db₂ db₃ : Database} (h : KeepsReleased db₁ db₂)
    (h' : KeepsReleased db₂ db₃) : KeepsReleased db₁ db₃ := by
  intro w hw hst
  obtain ⟨hw₂, hs₂, hr₂⟩ := h w hw hst
  obtain ⟨hw₃, hs₃, hr₃⟩ := h' w hw₂ hst
  exact ⟨hw₃, fun s hs hid => hs₃ s (hs₂ s hs hid) hid, fun r hr hid => hr₃ r (hr₂ r hr hid) hid⟩

/-! ## What a change touches -/

namespace Change

/-- The workflow whose status or keys it sets. -/
def settles : Change → Option ℕ
  | setStatus id _ | setRejected id _ _ | setKeys id _ => some id
  | _ => none

/-- The workflow row it writes or deletes. -/
def rowOf : Change → Option ℕ
  | setStatus id _ | setRejected id _ _ | deleteWorkflow id => some id
  | _ => none

/-- The status it sets, with the workflow. -/
def sets : Change → Option (ℕ × Status)
  | setStatus id status => some (id, status)
  | setRejected id _ _ => some (id, .rejected)
  | _ => none

/-- The workflows of which it deletes the row or recipient rows. -/
def dooms : Change → List ℕ
  | deleteRecipients rows => rows.map (·.workflowId)
  | deleteWorkflow id => [id]
  | _ => []

/-- It leaves the workflow alone, with its secret and its recipient rows. -/
def Spares (w : MultisigWorkflow) (ch : Change) : Prop :=
  ch.settles ≠ some w.id ∧ w.id ∉ ch.dooms ∧ ch ≠ deleteSecret w.secretId

theorem apply_workflows {db : Database} {ch : Change} (h : ch.rowOf = none) :
    (ch.apply db).workflows = db.workflows := by
  cases ch with
  | setStatus | setRejected | deleteWorkflow => cases h
  | redact redactions => exact (setContents_messaging redactions db).1.2.2.2.1
  | leaveGroups a => exact (leaveAllGroups_messaging db a).1.2.2.2.1
  | _ => rfl

theorem apply_secrets {db : Database} {ch : Change} (h : ∀ id, ch ≠ deleteSecret id) :
    (ch.apply db).secrets = db.secrets := by
  cases ch with
  | deleteSecret id => exact absurd rfl (h id)
  | redact redactions => exact (setContents_messaging redactions db).1.1
  | leaveGroups a => exact (leaveAllGroups_messaging db a).1.1
  | _ => rfl

theorem apply_recipients {db : Database} {ch : Change} (hk : ∀ id keys, ch ≠ setKeys id keys)
    (hd : ∀ rows, ch ≠ deleteRecipients rows) : (ch.apply db).recipients = db.recipients := by
  cases ch with
  | setKeys id keys => exact absurd rfl (hk id keys)
  | deleteRecipients rows => exact absurd rfl (hd rows)
  | redact redactions => exact (setContents_messaging redactions db).1.2.2.2.2.2
  | leaveGroups a => exact (leaveAllGroups_messaging db a).1.2.2.2.2.2
  | _ => rfl

/-- A workflow row after a change was there before, but for the status. -/
theorem of_mem_apply {db : Database} {ch : Change} {w : MultisigWorkflow}
    (h : w ∈ (ch.apply db).workflows) :
    w ∈ db.workflows ∨ ch.sets = some (w.id, w.status) ∧
      ∃ w₀ ∈ db.workflows, w₀.id = w.id ∧ w₀.secretId = w.secretId := by
  cases ch with
  | setStatus | setRejected =>
    obtain ⟨w₀, hw₀, hw⟩ := Serial.mem_update.mp h
    split at hw
    · rename_i hid
      subst hw
      right
      refine ⟨?_, w₀, hw₀, rfl, rfl⟩
      rw [sets, ← (beq_iff_eq.mp hid : w₀.id = _)]
    · left
      exact hw ▸ hw₀
  | deleteWorkflow id => exact .inl (Serial.mem_delete.mp h).1
  | _ =>
    rw [apply_workflows rfl] at h
    exact .inl h

/-- A workflow row that a change does not write stays. -/
theorem mem_apply {db : Database} {ch : Change} {w : MultisigWorkflow} (h : w ∈ db.workflows)
    (hrow : ch.rowOf ≠ some w.id) : w ∈ (ch.apply db).workflows := by
  cases ch with
  | setStatus id | setRejected id =>
    refine Serial.mem_update.mpr ⟨w, h, if_neg fun hid => hrow ?_⟩
    rw [rowOf, beq_iff_eq.mp hid]
  | deleteWorkflow id =>
    refine Serial.mem_delete.mpr ⟨h, ?_⟩
    rw [beq_eq_false_iff_ne]
    intro hid
    exact hrow (by rw [rowOf, hid])
  | _ =>
    rw [apply_workflows rfl]
    exact h

theorem Spares.row {w : MultisigWorkflow} {ch : Change} (h : ch.Spares w) :
    ch.rowOf ≠ some w.id := by
  cases ch with
  | setStatus | setRejected => exact h.1
  | deleteWorkflow id =>
    intro hid
    exact h.2.1 (by rw [dooms, Option.some.inj hid]; exact List.mem_singleton_self _)
  | _ => exact fun h => by cases h

theorem Spares.secret {db : Database} {w : MultisigWorkflow} {ch : Change} (h : ch.Spares w)
    {s : Secret} (hs : s ∈ db.secrets) (hid : s.id = w.secretId) : s ∈ (ch.apply db).secrets := by
  cases ch with
  | deleteSecret id =>
    refine Serial.mem_delete.mpr ⟨hs, ?_⟩
    rw [beq_eq_false_iff_ne]
    intro hsid
    exact h.2.2 (by rw [← hid, hsid])
  | _ =>
    rw [apply_secrets (by simp)]
    exact hs

theorem Spares.recipient {db : Database} {w : MultisigWorkflow} {ch : Change} (h : ch.Spares w)
    {r : MultisigWorkflowRecipient} (hr : r ∈ db.recipients) (hid : r.workflowId = w.id) :
    r ∈ (ch.apply db).recipients := by
  cases ch with
  | setKeys id keys =>
    refine Serial.mem_update.mpr ⟨r, hr, if_neg fun hrid => h.1 ?_⟩
    rw [settles, ← (beq_iff_eq.mp hrid : r.workflowId = id), hid]
  | deleteRecipients rows =>
    refine Serial.mem_delete.mpr ⟨hr, ?_⟩
    rw [List.any_eq_false]
    intro r₀ hr₀ hsame
    rw [Bool.and_eq_true, beq_iff_eq, beq_iff_eq] at hsame
    refine h.2.1 ?_
    rw [dooms, ← hid, ← hsame.2]
    exact List.mem_map_of_mem hr₀
  | _ =>
    rw [apply_recipients (by simp) (by simp)]
    exact hr

end Change

/-- A recipient row after a change was there before, but for its key. -/
theorem Change.of_mem_recipients {db : Database} {ch : Change} {r : MultisigWorkflowRecipient}
    (h : r ∈ (ch.apply db).recipients) :
    ∃ r₀ ∈ db.recipients, r₀.workflowId = r.workflowId ∧ r₀.userAddress = r.userAddress := by
  cases ch with
  | setKeys id keys =>
    obtain ⟨r₀, hr₀, hr⟩ := Serial.mem_update.mp h
    refine ⟨r₀, hr₀, ?_⟩
    split at hr <;> subst hr <;> exact ⟨rfl, rfl⟩
  | deleteRecipients rows => exact ⟨r, (Serial.mem_delete.mp h).1, rfl, rfl⟩
  | _ =>
    rw [apply_recipients (by simp) (by simp)] at h
    exact ⟨r, h, rfl, rfl⟩

/-- What the changes of a transaction spare, its commit keeps. -/
theorem keeps_of_spares {w : MultisigWorkflow} {log : List Change} {db : Database}
    (h : ∀ ch ∈ log, ch.Spares w) (hw : w ∈ db.workflows) :
    w ∈ (log.foldl Change.apply db).workflows ∧
      (∀ s ∈ db.secrets, s.id = w.secretId → s ∈ (log.foldl Change.apply db).secrets) ∧
      ∀ r ∈ db.recipients, r.workflowId = w.id → r ∈ (log.foldl Change.apply db).recipients := by
  induction log generalizing db with
  | nil => exact ⟨hw, fun _ hs _ => hs, fun _ hr _ => hr⟩
  | cons ch log ih =>
    have hch := h ch List.mem_cons_self
    obtain ⟨hw', hs', hr'⟩ := ih (fun c hc => h c (List.mem_cons_of_mem _ hc))
      (Change.mem_apply hw hch.row)
    exact ⟨hw', fun s hs hid => hs' s (hch.secret hs hid) hid,
      fun r hr hid => hr' r (hch.recipient hr hid) hid⟩

/-- A workflow row in the view of a transaction is committed, or the transaction set its status. -/
theorem of_mem_view {log : List Change} {db : Database} {w : MultisigWorkflow}
    (h : w ∈ (log.foldl Change.apply db).workflows) :
    (w ∈ db.workflows ∨ ∃ ch ∈ log, ch.sets = some (w.id, w.status)) ∧
      ∃ w₀ ∈ db.workflows, w₀.id = w.id ∧ w₀.secretId = w.secretId := by
  induction log generalizing db with
  | nil => exact ⟨.inl h, w, h, rfl, rfl⟩
  | cons ch log ih =>
    obtain ⟨hw, w₁, hw₁, hid₁, hsec₁⟩ := ih h
    have hbase : ∃ w₀ ∈ db.workflows, w₀.id = w.id ∧ w₀.secretId = w.secretId := by
      rcases Change.of_mem_apply hw₁ with hw₁ | ⟨-, w₀, hw₀, hid₀, hsec₀⟩
      · exact ⟨w₁, hw₁, hid₁, hsec₁⟩
      · exact ⟨w₀, hw₀, hid₀.trans hid₁, hsec₀.trans hsec₁⟩
    refine ⟨?_, hbase⟩
    rcases hw with hw | ⟨c, hc, hset⟩
    · rcases Change.of_mem_apply hw with hw | ⟨hset, -⟩
      · exact .inl hw
      · exact .inr ⟨ch, List.mem_cons_self, hset⟩
    · exact .inr ⟨c, List.mem_cons_of_mem _ hc, hset⟩

theorem of_mem_view_recipients {log : List Change} {db : Database} {r : MultisigWorkflowRecipient}
    (h : r ∈ (log.foldl Change.apply db).recipients) :
    ∃ r₀ ∈ db.recipients, r₀.workflowId = r.workflowId ∧ r₀.userAddress = r.userAddress := by
  induction log generalizing db with
  | nil => exact ⟨r, h, rfl, rfl⟩
  | cons ch log ih =>
    obtain ⟨r₁, hr₁, hid₁, ha₁⟩ := ih h
    obtain ⟨r₀, hr₀, hid₀, ha₀⟩ := Change.of_mem_recipients hr₁
    exact ⟨r₀, hr₀, hid₀.trans hid₁, ha₀.trans ha₁⟩

/-- A committed workflow row that the transaction does not write is in its view. -/
theorem mem_view {log : List Change} {db : Database} {w : MultisigWorkflow} (h : w ∈ db.workflows)
    (hrow : ∀ ch ∈ log, ch.rowOf ≠ some w.id) : w ∈ (log.foldl Change.apply db).workflows := by
  induction log generalizing db with
  | nil => exact h
  | cons ch log ih =>
    exact ih (Change.mem_apply h (hrow ch List.mem_cons_self))
      fun c hc => hrow c (List.mem_cons_of_mem _ hc)

/-! ## What a transaction has yet to do -/

/-- The workflow whose status or keys it sets. -/
def Write.settles : Write → Option ℕ
  | updateStatus id _ | updateRejected id _ _ | updateKeys id _ => some id
  | _ => none

/-- The workflow of which it deletes the row or the recipient rows. -/
def Write.dooms : Write → Option ℕ
  | deleteRecipients id | deleteWorkflow id => some id
  | _ => none

namespace Point

/-- The statements that are decided on. -/
def todo : Point → List Write
  | write todo next => todo ++ next.todo
  | _ => []

/-- The secrets that are to go at the flush. -/
def unmanaged : Point → List ℕ
  | checkManaged _ _ _ ids => ids
  | write _ next => next.unmanaged
  | _ => []

/-- The workflow that was loaded `FOR UPDATE`. -/
def locked : Point → Option MultisigWorkflow
  | locateSigner _ _ _ w | verify _ _ _ w _ | countSignatures _ _ w _ | readRecipients _ _ w _ =>
    some w
  | write _ next => next.locked
  | _ => none

/-- The workflow that was found open. -/
def approving : Point → Option MultisigWorkflow
  | verify _ _ _ w _ | countSignatures _ _ w _ | readRecipients _ _ w _ => some w
  | write _ next => next.approving
  | _ => none

/-- Nothing was written before, and nothing is decided on. -/
def early : Point → Bool
  | authenticate _ | lockWorkflow _ _ _ _ => true
  | write _ next => next.early
  | _ => false

variable {todo : List Write} {next : Point}

@[simp] theorem todo_writes : (writes todo next).todo = todo ++ next.todo := by
  cases todo <;> rfl

@[simp] theorem unmanaged_writes : (writes todo next).unmanaged = next.unmanaged := by
  cases todo <;> rfl

@[simp] theorem locked_writes : (writes todo next).locked = next.locked := by
  cases todo <;> rfl

@[simp] theorem approving_writes : (writes todo next).approving = next.approving := by
  cases todo <;> rfl

@[simp] theorem early_writes : (writes todo next).early = next.early := by
  cases todo <;> rfl

end Point

/-- A request at work. -/
abbrev Txn := Session Database RowKey Change Point

/-- It has decided to set the status or the keys of a workflow, or has done so. -/
inductive Settles (t : Txn) (id : ℕ) : Prop
  | todo {x : Write} : x ∈ t.point.todo → x.settles = some id → Settles t id
  | done {ch : Change} : ch ∈ t.log → ch.settles = some id → Settles t id

/-- It has decided to delete a secret, or has done so. -/
inductive DropsSecret (t : Txn) (id : ℕ) : Prop
  | todo : .deleteSecret id ∈ t.point.todo → DropsSecret t id
  | marked : id ∈ t.point.unmanaged → DropsSecret t id
  | done : .deleteSecret id ∈ t.log → DropsSecret t id

/-- It has read a workflow as not completed, and on that is deleting it, its secret, or recipient
rows of it. The last is decided by the snapshot of a statement that has started. -/
inductive Deletes (db : Database) (t : Txn) (id : ℕ) : Prop
  | todo {x : Write} : x ∈ t.point.todo → x.dooms = some id → Deletes db t id
  | done {ch : Change} : ch ∈ t.log → id ∈ ch.dooms → Deletes db t id
  | secret {w : MultisigWorkflow} : DropsSecret t w.secretId → w ∈ db.workflows → w.id = id →
      Deletes db t id
  | dropping {a : Address} {rest : List Write} {next : Point} {snap : Database}
      {r : MultisigWorkflowRecipient} : t.point = .write (.dropRecipients a :: rest) next →
      t.snapshot = some snap → id ∉ releasedIds snap → r ∈ db.recipients → r.userAddress = a →
      r.workflowId = id → Deletes db t id

/-- The commit of `t` completes no workflow that `u` is deleting. -/
def LeavesDeletions (db : Database) (t u : Txn) : Prop :=
  ∀ id, .setStatus id .completed ∈ t.log → ¬ Deletes db u id

/-! ## What a statement does -/

section exec

variable {x : Write} {snap cur : Database} {locks : List RowKey} {changes : List Change}
  {ch : Change}

theorem mem_matched {ρ : Type} [Keyed ρ ℕ] {snap cur : Serial ρ} {p : ρ → Bool} {r : ρ}
    (h : r ∈ matched snap cur p) : r ∈ cur ∧ p r = true :=
  Table.mem_where'.mp (List.mem_filter.mp h).1

/-- A statement makes at most one change, which is of its own kind. -/
theorem Write.exec_change (h : x.exec snap cur = some (locks, changes)) (hch : ch ∈ changes) :
    ch.settles = x.settles ∧
      (∀ id ∈ ch.dooms, x.dooms = some id ∨ ∃ a, x = .dropRecipients a ∧
        ∃ r ∈ cur.recipients, r.userAddress = a ∧ r.workflowId = id ∧ id ∉ releasedIds snap) ∧
      (∀ id, ch = .deleteSecret id → x = .deleteSecret id) ∧
      ∀ id, ch = .deleteWorkflow id → .workflow id ∈ locks := by
  cases x with
  | updateStatus | updateRejected | updateSigner | updateKeys =>
    simp only [Write.exec] at h
    split at h
    · cases h
    · obtain ⟨rfl, rfl⟩ := Prod.mk.inj (Option.some.inj h)
      rw [List.mem_singleton.mp hch]
      exact ⟨rfl, (fun _ h => by cases h), (fun _ h => by cases h), (fun _ h => by cases h)⟩
  | deleteWorkflow id =>
    simp only [Write.exec] at h
    split at h
    · obtain ⟨rfl, rfl⟩ := Prod.mk.inj (Option.some.inj h)
      cases hch
    · obtain ⟨rfl, rfl⟩ := Prod.mk.inj (Option.some.inj h)
      rw [List.mem_singleton.mp hch]
      refine ⟨rfl, fun i hi => .inl ?_, (fun _ h => by cases h), fun i hi => ?_⟩
      · rw [List.mem_singleton.mp hi]
        rfl
      · rw [← Change.deleteWorkflow.inj hi]
        exact List.mem_singleton_self _
  | deleteSecret id =>
    simp only [Write.exec] at h
    split at h
    · obtain ⟨rfl, rfl⟩ := Prod.mk.inj (Option.some.inj h)
      cases hch
    · obtain ⟨rfl, rfl⟩ := Prod.mk.inj (Option.some.inj h)
      rw [List.mem_singleton.mp hch]
      exact ⟨rfl, (fun _ h => by cases h), fun i hi => by rw [Change.deleteSecret.inj hi],
        (fun _ h => by cases h)⟩
  | deleteRecipients id =>
    obtain ⟨rfl, rfl⟩ := Prod.mk.inj (Option.some.inj h)
    rw [List.mem_singleton.mp hch]
    refine ⟨rfl, fun i hi => .inl ?_, (fun _ h => by cases h), (fun _ h => by cases h)⟩
    obtain ⟨r, hr, rfl⟩ := List.mem_map.mp hi
    have hid : r.workflowId = id := beq_iff_eq.mp (mem_matched hr).2
    rw [Write.dooms, hid]
  | dropRecipients a =>
    obtain ⟨rfl, rfl⟩ := Prod.mk.inj (Option.some.inj h)
    rw [List.mem_singleton.mp hch]
    refine ⟨rfl, fun i hi => .inr ⟨a, rfl, ?_⟩, (fun _ h => by cases h), (fun _ h => by cases h)⟩
    obtain ⟨r, hr, rfl⟩ := List.mem_map.mp hi
    obtain ⟨hmem, hp⟩ := mem_matched hr
    rw [Bool.and_eq_true, beq_iff_eq, Bool.not_eq_true', List.contains_eq_mem,
      decide_eq_false_iff_not] at hp
    exact ⟨r, hmem, hp.1, rfl, hp.2⟩
  | deleteSigners | deleteGrants | deleteGrantsHeld | deleteChunks | redactMessages | deleteMessages
  | leaveGroups | deleteNonces | updateUser =>
    obtain ⟨rfl, rfl⟩ := Prod.mk.inj (Option.some.inj h)
    rw [List.mem_singleton.mp hch]
    exact ⟨rfl, (fun _ h => by cases h), (fun _ h => by cases h), (fun _ h => by cases h)⟩

end exec

/-! ## The invariant -/

/-- No two workflows have one secret. -/
def OwnSecrets (db : Database) : Prop :=
  ∀ w ∈ db.workflows, ∀ w' ∈ db.workflows, w.secretId = w'.secretId → w.id = w'.id

/-- What holds of a request under the committed state. -/
structure Local (db : Database) (t : Txn) : Prop where
  deletes : ∀ w ∈ db.workflows, Deletes db t w.id → w.status ≠ .completed
  settles : ∀ id, Settles t id → .workflow id ∈ t.held ∧
    ∀ w ∈ db.workflows, w.id = id → w.status = .pending
  locked : ∀ w, t.point.locked = some w → .workflow w.id ∈ t.held ∧
    ∀ w' ∈ db.workflows, w'.id = w.id → w' = w
  approving : ∀ w, t.point.approving = some w → w.status = .pending
  removed : ∀ id, .deleteWorkflow id ∈ t.log → .workflow id ∈ t.held
  early : t.point.early = true → t.log = [] ∧ t.point.todo = []

section rule

variable {prim : Primitives} {cfg : Config} {db : Database} {t u : Txn}

theorem Deletes.of_view {log : List Change} {id : ℕ}
    (h : Deletes (log.foldl Change.apply db) t id) : Deletes db t id := by
  cases h with
  | todo hx hid => exact .todo hx hid
  | done hch hid => exact .done hch hid
  | secret hdrop hw hid =>
    obtain ⟨-, w₀, hw₀, hid₀, hsec₀⟩ := of_mem_view hw
    exact .secret (hsec₀ ▸ hdrop) hw₀ (hid₀.trans hid)
  | dropping hpoint hsnap hrel hr ha hid =>
    obtain ⟨r₀, hr₀, hid₀, ha₀⟩ := of_mem_view_recipients hr
    exact .dropping hpoint hsnap hrel hr₀ (ha₀.trans ha) (hid₀.trans hid)

theorem OwnSecrets.view {log : List Change} (h : OwnSecrets db) :
    OwnSecrets (log.foldl Change.apply db) := by
  intro w hw w' hw' hsec
  obtain ⟨-, v, hv, hid, hsecv⟩ := of_mem_view hw
  obtain ⟨-, v', hv', hid', hsecv'⟩ := of_mem_view hw'
  rw [← hid, ← hid']
  exact h v hv v' hv' ((hsecv.trans hsec).trans hsecv'.symm)

/-- What a request has changed spares every completed workflow. -/
theorem Local.spares (h : Local db t) {w : MultisigWorkflow} (hw : w ∈ db.workflows)
    (hst : w.status = .completed) {ch : Change} (hch : ch ∈ t.log) : ch.Spares w := by
  refine ⟨fun hset => ?_, fun hid => ?_, fun hsec => ?_⟩
  · have hpending := (h.settles _ (.done hch hset)).2 w hw rfl
    rw [hst] at hpending
    cases hpending
  · exact h.deletes w hw (.done hch hid) hst
  · exact h.deletes w hw (.secret (.done (hsec ▸ hch)) hw rfl) hst

theorem Local.mem_view (h : Local db t) {w : MultisigWorkflow} (hw : w ∈ db.workflows)
    (hst : w.status = .completed) : w ∈ (t.log.foldl Change.apply db).workflows :=
  (keeps_of_spares (fun _ => h.spares hw hst) hw).1

/-- A request that has written nothing yet, at a point where nothing is decided. -/
theorem Local.fresh {p : Point} (htodo : p.todo = []) (hun : p.unmanaged = [])
    (hlocked : p.locked = none) (happ : p.approving = none) : Local db (.fresh p : Txn) where
  deletes := by
    intro w _ hdel
    cases hdel with
    | todo hx => rw [Session.fresh, htodo] at hx; cases hx
    | done hch => cases hch
    | secret hdrop =>
      cases hdrop with
      | todo hx => rw [Session.fresh, htodo] at hx; cases hx
      | marked hid => rw [Session.fresh, hun] at hid; cases hid
      | done hch => cases hch
    | dropping _ hsnap => cases hsnap
  settles := by
    intro id hset
    cases hset with
    | todo hx => rw [Session.fresh, htodo] at hx; cases hx
    | done hch => cases hch
  locked := by
    intro w hw
    rw [Session.fresh, hlocked] at hw
    cases hw
  approving := by
    intro w hw
    rw [Session.fresh, happ] at hw
    cases hw
  removed := fun id hch => by cases hch
  early := fun _ => ⟨rfl, htodo⟩

/-- A request goes on to a point where it has decided on more. -/
theorem Local.goto (h : Local db t) {p : Point}
    (hdel : ∀ x ∈ p.todo, ∀ id, x.dooms = some id →
      ∀ w ∈ db.workflows, w.id = id → w.status ≠ .completed)
    (hdrop : ∀ id, .deleteSecret id ∈ p.todo ∨ id ∈ p.unmanaged →
      ∀ w ∈ db.workflows, w.secretId = id → w.status ≠ .completed)
    (hset : ∀ x ∈ p.todo, ∀ id, x.settles = some id → .workflow id ∈ t.held ∧
      ∀ w ∈ db.workflows, w.id = id → w.status = .pending)
    (hlocked : ∀ w, p.locked = some w → .workflow w.id ∈ t.held ∧
      ∀ w' ∈ db.workflows, w'.id = w.id → w' = w)
    (happ : ∀ w, p.approving = some w → w.status = .pending)
    (hearly : p.early = true → t.point.early = true ∧ p.todo = []) : Local db (t.goto p) where
  deletes := by
    intro w hw hd
    cases hd with
    | todo hx hid => exact hdel _ hx _ hid w hw rfl
    | done hch hid => exact h.deletes w hw (.done hch hid)
    | secret hs hv hid =>
      obtain rfl := Serial.eq_of_key hv hw hid
      cases hs with
      | todo hx => exact hdrop _ (.inl hx) _ hw rfl
      | marked hid => exact hdrop _ (.inr hid) _ hw rfl
      | done hch => exact h.deletes _ hw (.secret (.done hch) hw rfl)
    | dropping _ hsnap => cases hsnap
  settles := by
    intro id hs
    cases hs with
    | todo hx hid => exact hset _ hx _ hid
    | done hch hid => exact h.settles id (.done hch hid)
  locked := hlocked
  approving := happ
  removed := h.removed
  early := fun he => ⟨(h.early (hearly he).1).1, (hearly he).2⟩

/-- A request goes on to a point where it has decided on nothing. -/
theorem Local.goto_quiet (h : Local db t) {p : Point} (htodo : p.todo = []) (hun : p.unmanaged = [])
    (hlocked : ∀ w, p.locked = some w → t.point.locked = some w)
    (happ : ∀ w, p.approving = some w → w.status = .pending)
    (hearly : p.early = true → t.point.early = true) : Local db (t.goto p) := by
  refine h.goto ?_ ?_ ?_ (fun w hw => h.locked w (hlocked w hw)) happ fun he => ⟨hearly he, htodo⟩
  · rw [htodo]; exact fun _ h => by cases h
  · rw [htodo, hun]; rintro id (hx | hx) <;> cases hx
  · rw [htodo]; exact fun _ h => by cases h

/-- A request goes on with statements that delete nothing of a workflow and settle none. -/
theorem Local.goto_harmless (h : Local db t) {p : Point}
    (htodo : ∀ x ∈ p.todo, x.dooms = none ∧ x.settles = none ∧ ∀ id, x ≠ .deleteSecret id)
    (hun : p.unmanaged = []) (hlocked : p.locked = none) (happ : p.approving = none)
    (hearly : p.early = false) : Local db (t.goto p) := by
  refine h.goto ?_ ?_ ?_ (by simp [hlocked]) (by simp [happ]) (by simp [hearly])
  · intro x hx id hid
    rw [(htodo x hx).1] at hid
    cases hid
  · rintro id (hx | hx)
    · exact absurd rfl ((htodo _ hx).2.2 id)
    · rw [hun] at hx
      cases hx
  · intro x hx id hid
    rw [(htodo x hx).2.1] at hid
    cases hid

/-- A request goes on to a point where it holds no workflow either. -/
theorem Local.goto_idle (h : Local db t) {p : Point} (htodo : p.todo = []) (hun : p.unmanaged = [])
    (hlocked : p.locked = none) (happ : p.approving = none)
    (hearly : p.early = true → t.point.early = true) : Local db (t.goto p) := by
  refine h.goto_quiet htodo hun ?_ ?_ hearly
  · rw [hlocked]
    intro w hw
    cases hw
  · rw [happ]
    intro w hw
    cases hw

theorem Local.goto_failed (h : Local db t) : Local db (t.goto .failed) :=
  h.goto_idle rfl rfl rfl rfl fun he => by cases he

/-! ## Loading what is to be deleted -/

/-- A statement of the deletion of `w`. -/
def Write.Deletion (w : MultisigWorkflow) (x : Write) : Prop :=
  (∀ id, x.dooms = some id → id = w.id) ∧ (∀ id, x = .deleteSecret id → id = w.secretId) ∧
    x.settles = none

theorem deletion_of_mem_children {w : MultisigWorkflow} {x : Write} (hx : x ∈ deleteChildren w) :
    x.Deletion w := by
  simp only [deleteChildren, List.mem_cons, List.not_mem_nil, or_false] at hx
  rcases hx with rfl | rfl | rfl
  · exact ⟨(fun _ h => by cases h), (fun _ h => by cases h), rfl⟩
  · exact ⟨fun id hid => (Option.some.inj hid).symm, (fun _ h => by cases h), rfl⟩
  · exact ⟨(fun _ h => by cases h), (fun _ h => by cases h), rfl⟩

/-- The statements that drop secrets doom no workflow row. -/
theorem of_mem_deleteSecrets {ids : List ℕ} {x : Write} (hx : x ∈ deleteSecrets ids) :
    x.dooms = none ∧ x.settles = none ∧ ∀ id, x = .deleteSecret id → id ∈ ids := by
  rcases List.mem_append.mp hx with hx | hx
  · obtain ⟨id, hid, rfl⟩ := List.mem_map.mp hx
    exact ⟨rfl, rfl, (fun _ h => by cases h)⟩
  · obtain ⟨id, hid, rfl⟩ := List.mem_map.mp hx
    refine ⟨rfl, rfl, fun i hi => ?_⟩
    rw [← Write.deleteSecret.inj hi]
    exact hid

theorem deletion_of_mem_flush {ws : List MultisigWorkflow} {x : Write} (hx : x ∈ flushDeleted ws) :
    x.settles = none ∧ (∀ id, x.dooms = some id → ∃ w ∈ ws, id = w.id) ∧
      ∀ id, x = .deleteSecret id → ∃ w ∈ ws, id = w.secretId := by
  rcases List.mem_append.mp hx with hx | hx
  · obtain ⟨w, hw, rfl⟩ := List.mem_map.mp hx
    exact ⟨rfl, fun id hid => ⟨w, hw, (Option.some.inj hid).symm⟩, (fun _ h => by cases h)⟩
  · obtain ⟨hd, hset, hsec⟩ := of_mem_deleteSecrets hx
    refine ⟨hset, fun id hid => ?_, fun id hid => ?_⟩
    · rw [hd] at hid
      cases hid
    · obtain ⟨w, hw, hsecw⟩ := List.mem_map.mp (hsec id hid)
      exact ⟨w, hw, hsecw.symm⟩

/-- The committed row of a workflow that was loaded as not completed is not completed. -/
theorem Local.loaded (h : Local db t) {w : MultisigWorkflow}
    (hw : w ∈ (t.log.foldl Change.apply db).workflows) (hst : w.status ≠ .completed)
    {w' : MultisigWorkflow} (hw' : w' ∈ db.workflows) (hid : w'.id = w.id) :
    w'.status ≠ .completed := by
  intro hst'
  obtain rfl := Serial.eq_of_key (h.mem_view hw' hst') hw hid
  exact hst hst'

/-- Nor is a committed workflow that has its secret. -/
theorem Local.loaded_secret (h : Local db t) (hbase : OwnSecrets db) {w : MultisigWorkflow}
    (hw : w ∈ (t.log.foldl Change.apply db).workflows) (hst : w.status ≠ .completed)
    {w' : MultisigWorkflow} (hw' : w' ∈ db.workflows) (hsec : w'.secretId = w.secretId) :
    w'.status ≠ .completed := fun hst' =>
  h.loaded hw hst hw' (hbase.view w' (h.mem_view hw' hst') w hw hsec) hst'

/-- A request goes on to delete workflows that it has just read as not completed, and more that
deletes none. -/
theorem Local.goto_delete (h : Local db t) (hbase : OwnSecrets db) (ws : List MultisigWorkflow)
    (hws : ∀ w ∈ ws, w ∈ (t.log.foldl Change.apply db).workflows ∧ w.status ≠ .completed)
    {p : Point}
    (htodo : ∀ x ∈ p.todo, x.settles = none ∧ (∀ id, x.dooms = some id → ∃ w ∈ ws, id = w.id) ∧
      ∀ id, x = .deleteSecret id → ∃ w ∈ ws, id = w.secretId)
    (hun : p.unmanaged = []) (hlocked : p.locked = none) (happ : p.approving = none)
    (hearly : p.early = false) : Local db (t.goto p) := by
  refine h.goto ?_ ?_ ?_ (by simp [hlocked]) (by simp [happ]) (by simp [hearly])
  · intro x hx id hid v hv hvid
    obtain ⟨w, hw, rfl⟩ := (htodo x hx).2.1 id hid
    exact h.loaded (hws w hw).1 (hws w hw).2 hv hvid
  · rintro id (hx | hid) v hv hvsec
    · obtain ⟨w, hw, rfl⟩ := (htodo _ hx).2.2 id rfl
      exact h.loaded_secret hbase (hws w hw).1 (hws w hw).2 hv hvsec
    · rw [hun] at hid
      cases hid
  · intro x hx id hid
    rw [(htodo x hx).1] at hid
    cases hid

/-! ## The reading statements -/

theorem local_authenticate {call : WorkflowCall} (h : Local db t)
    (hp : t.point = .authenticate call) (view : Database) :
    Local db (t.goto (.afterAuthenticate view call)) := by
  have hearly : t.point.early = true := by rw [hp]; rfl
  unfold Point.afterAuthenticate
  split
  · exact h.goto_failed
  · split <;> exact h.goto_idle rfl rfl rfl rfl fun _ => hearly

theorem local_locateSigner {now : Time} {caller : User} {verdict : Verdict} {w : MultisigWorkflow}
    (h : Local db t) (hp : t.point = .locateSigner now caller verdict w) (view : Database) :
    Local db (t.goto (.afterLocateSigner view now caller verdict w)) := by
  have hlocked : t.point.locked = some w := by rw [hp]; rfl
  unfold Point.afterLocateSigner
  split
  · exact h.goto_failed
  · split
    · exact h.goto_failed
    · rename_i hst
      have hpending : w.status = .pending := by simpa using hst
      split
      · refine h.goto ?_ ?_ ?_ (fun w hw => by cases hw) (fun w hw => by cases hw)
          fun he => by cases he
        · intro x hx id hid
          rw [List.mem_singleton.mp hx] at hid
          cases hid
        · rintro id (hx | hx)
          · cases List.mem_singleton.mp hx
          · cases hx
        · intro x hx id hid
          rw [List.mem_singleton.mp hx] at hid
          obtain rfl := Option.some.inj hid
          obtain ⟨hheld, hrow⟩ := h.locked w hlocked
          exact ⟨hheld, fun w' hw' hid' => by rw [hrow w' hw' hid', hpending]⟩
      · split
        · exact h.goto_failed
        · refine h.goto_quiet rfl rfl ?_ ?_ fun he => by cases he
          · intro w' hw'
            rwa [hlocked]
          · intro w' hw'
            rw [← Option.some.inj hw', hpending]

theorem local_verify {now : Time} {caller : User} {req : MultisigSignatureRequest}
    {w : MultisigWorkflow} {signer : MultisigWorkflowSigner} (h : Local db t)
    (hp : t.point = .verify now caller req w signer) (view : Database) :
    Local db (t.goto (.afterVerify prim view now caller req w signer)) := by
  unfold Point.afterVerify
  split
  · exact h.goto_failed
  · refine h.goto_quiet rfl rfl (fun w' hw' => ?_) (fun w' hw' => ?_) fun he => by cases he
    · rw [hp]
      exact hw'
    · refine h.approving w' ?_
      rw [hp]
      exact hw'

theorem local_countSignatures {now : Time} {req : MultisigSignatureRequest} {w : MultisigWorkflow}
    {signer : MultisigWorkflowSigner} (h : Local db t)
    (hp : t.point = .countSignatures now req w signer) (view : Database) :
    Local db (t.goto (.afterCountSignatures view now req w signer)) := by
  unfold Point.afterCountSignatures
  split
  · refine h.goto_quiet rfl rfl (fun w' hw' => ?_) (fun w' hw' => ?_) fun he => by cases he
    · rw [hp]
      exact hw'
    · refine h.approving w' ?_
      rw [hp]
      exact hw'
  · split
    · exact h.goto_failed
    · refine h.goto_harmless (fun x hx => ?_) rfl rfl rfl rfl
      rw [List.mem_singleton.mp hx]
      exact ⟨rfl, rfl, (fun _ h => by cases h)⟩

theorem local_readRecipients {now : Time} {req : MultisigSignatureRequest} {w : MultisigWorkflow}
    {signer : MultisigWorkflowSigner} (h : Local db t)
    (hp : t.point = .readRecipients now req w signer) (view : Database) :
    Local db (t.goto (.afterReadRecipients view now req w signer)) := by
  have hpending : w.status = .pending := h.approving w (by rw [hp]; rfl)
  obtain ⟨hheld, hrow⟩ := h.locked w (by rw [hp]; rfl)
  -- what the completing signature writes is the workflow's own
  have hown : ∀ x ∈ completing view now req w signer, x.dooms = none ∧
      (∀ id, x ≠ .deleteSecret id) ∧ ∀ id, x.settles = some id → id = w.id := by
    intro x hx
    simp only [completing, List.mem_append, List.mem_cons, List.not_mem_nil, or_false] at hx
    rcases hx with (rfl | rfl) | hx
    · exact ⟨rfl, (fun _ h => by cases h), fun id hid => (Option.some.inj hid).symm⟩
    · exact ⟨rfl, (fun _ h => by cases h), (fun _ h => by cases h)⟩
    · split at hx
      · cases hx
      · rw [List.mem_singleton.mp hx]
        exact ⟨rfl, (fun _ h => by cases h), fun id hid => (Option.some.inj hid).symm⟩
  unfold Point.afterReadRecipients
  split
  · exact h.goto_failed
  · have htodo : (Point.write (completing view now req w signer) .committing).todo =
        completing view now req w signer := List.append_nil _
    refine h.goto ?_ ?_ ?_ (fun w hw => by cases hw) (fun w hw => by cases hw) fun he => by cases he
    · intro x hx id hid
      rw [htodo] at hx
      rw [(hown x hx).1] at hid
      cases hid
    · rintro id (hx | hx)
      · rw [htodo] at hx
        exact absurd rfl ((hown _ hx).2.1 id)
      · cases hx
    · intro x hx id hid
      rw [htodo] at hx
      obtain rfl := (hown x hx).2.2 id hid
      exact ⟨hheld, fun w' hw' hid' => by rw [hrow w' hw' hid', hpending]⟩

theorem local_loadWorkflow {caller : User} {workflowId : ℕ} (h : Local db t) (hbase : OwnSecrets db) :
    Local db (t.goto (.afterLoadWorkflow (t.log.foldl Change.apply db) caller workflowId)) := by
  unfold Point.afterLoadWorkflow
  split
  · exact h.goto_failed
  · rename_i w hload
    split
    · rename_i hdel
      have hw : w ∈ (t.log.foldl Change.apply db).workflows := by
        unfold loadWorkflowOr404 at hload
        split at hload
        · rename_i w' hfind
          obtain rfl := Except.ok.inj hload
          exact (Table.find?_mem hfind).1
        · cases hload
      have hst : w.status ≠ .completed := by
        have hdeletable := (Bool.and_eq_true_iff.mp hdel).2
        simpa [workflowIsDeletable] using hdeletable
      refine h.goto_delete hbase [w] ?_ ?_ rfl rfl rfl rfl
      · intro v hv
        rw [List.mem_singleton.mp hv]
        exact ⟨hw, hst⟩
      · intro x hx
        have hx' : x ∈ deleteChildren w ++ flushDeleted [w] := by
          simpa [Point.todo] using hx
        rcases List.mem_append.mp hx' with hx | hx
        · obtain ⟨hdoom, hsec, hset⟩ := deletion_of_mem_children hx
          exact ⟨hset, fun id hid => ⟨w, List.mem_singleton_self _, hdoom id hid⟩,
            fun id hid => ⟨w, List.mem_singleton_self _, hsec id hid⟩⟩
        · exact deletion_of_mem_flush hx
    · exact h.goto_failed

theorem local_selectOwned {now : Time} {a : Address} (h : Local db t) (hbase : OwnSecrets db) :
    Local db (t.goto (.afterSelectOwned (t.log.foldl Change.apply db) now a)) := by
  unfold Point.afterSelectOwned
  refine h.goto_delete hbase ((t.log.foldl Change.apply db).workflows.where' fun w =>
    w.ownerAddress == a && workflowIsDeletable w) ?_ ?_ rfl rfl rfl rfl
  · intro w hw
    obtain ⟨hmem, hdel⟩ := Table.mem_where'.mp hw
    refine ⟨hmem, ?_⟩
    have hdeletable := (Bool.and_eq_true_iff.mp hdel).2
    simpa [workflowIsDeletable] using hdeletable
  · intro x hx
    simp only [Point.todo, List.append_nil, List.mem_append, List.mem_singleton] at hx
    rcases hx with (hx | rfl) | hx
    · obtain ⟨w, hw, hx⟩ := List.mem_flatMap.mp hx
      obtain ⟨hdoom, hsec, hset⟩ := deletion_of_mem_children hx
      exact ⟨hset, fun id hid => ⟨w, hw, hdoom id hid⟩, fun id hid => ⟨w, hw, hsec id hid⟩⟩
    · exact ⟨rfl, (fun _ h => by cases h), (fun _ h => by cases h)⟩
    · exact deletion_of_mem_flush hx

/-- The statements at the end of an erase, with the secrets that no workflow manages. -/
theorem of_mem_checked (now : Time) (a : Address) (todo : List Secret) (unmanaged : List ℕ) :
    (∀ x ∈ (Point.checked now a todo unmanaged).todo, x.dooms = none ∧ x.settles = none ∧
      ∀ id, x = .deleteSecret id → id ∈ unmanaged) ∧
    (∀ id ∈ (Point.checked now a todo unmanaged).unmanaged, id ∈ unmanaged) ∧
    (Point.checked now a todo unmanaged).locked = none ∧
    (Point.checked now a todo unmanaged).approving = none ∧
    (Point.checked now a todo unmanaged).early = false := by
  unfold Point.checked
  split
  · refine ⟨fun x hx => ?_, by simp [Point.unmanaged], rfl, rfl, rfl⟩
    simp only [Point.todo, List.append_nil, leaveRows, List.cons_append, List.nil_append,
      List.mem_cons] at hx
    rcases hx with rfl | rfl | rfl | hx
    · exact ⟨rfl, rfl, (fun _ h => by cases h)⟩
    · exact ⟨rfl, rfl, (fun _ h => by cases h)⟩
    · exact ⟨rfl, rfl, (fun _ h => by cases h)⟩
    · exact of_mem_deleteSecrets hx
  · exact ⟨by simp [Point.todo], fun id hid => hid, rfl, rfl, rfl⟩

/-- A request goes on in the loop over the owned secrets. -/
theorem Local.goto_checked (h : Local db t) {now : Time} {a : Address} {todo : List Secret}
    {unmanaged : List ℕ} (stmts : List Write) (hstmts : ∀ x ∈ stmts, ∃ id, x = .deleteGrants id)
    (hun : ∀ id ∈ unmanaged, ∀ w ∈ db.workflows, w.secretId = id → w.status ≠ .completed) :
    Local db (t.goto (.writes stmts (.checked now a todo unmanaged))) := by
  obtain ⟨htodo, hmarked, hlocked, happ, hearly⟩ := of_mem_checked now a todo unmanaged
  have hall : ∀ x ∈ (Point.writes stmts (.checked now a todo unmanaged)).todo, x.dooms = none ∧
      x.settles = none ∧ ∀ id, x = .deleteSecret id → id ∈ unmanaged := by
    intro x hx
    rw [Point.todo_writes, List.mem_append] at hx
    rcases hx with hx | hx
    · obtain ⟨id, rfl⟩ := hstmts x hx
      exact ⟨rfl, rfl, (fun _ h => by cases h)⟩
    · exact htodo x hx
  refine h.goto ?_ ?_ ?_ (by simp [hlocked]) (by simp [happ]) (by simp [hearly])
  · intro x hx id hid
    rw [(hall x hx).1] at hid
    cases hid
  · rintro id (hx | hid)
    · exact hun id ((hall _ hx).2.2 id rfl)
    · rw [Point.unmanaged_writes] at hid
      exact hun id (hmarked id hid)
  · intro x hx id hid
    rw [(hall x hx).2.1] at hid
    cases hid

theorem local_checkManaged {now : Time} {a : Address} {s : Secret} {rest : List Secret}
    {unmanaged : List ℕ} (h : Local db t)
    (hp : t.point = .checkManaged now a (s :: rest) unmanaged) :
    Local db (t.goto (.afterCheckManaged (t.log.foldl Change.apply db) now a s rest unmanaged)) := by
  have hmarked : ∀ id ∈ unmanaged, ∀ w ∈ db.workflows, w.secretId = id → w.status ≠ .completed := by
    rintro id hid w hw rfl
    refine h.deletes w hw (.secret (.marked ?_) hw rfl)
    rw [hp]
    exact hid
  unfold Point.afterCheckManaged
  split
  · exact h.goto_checked [] (by simp) hmarked
  · rename_i hmanaged
    refine h.goto_checked [.deleteGrants s.id]
      (fun x hx => ⟨s.id, List.mem_singleton.mp hx⟩) ?_
    intro id hid w hw hsec hst
    rcases List.mem_append.mp hid with hid | hid
    · exact hmarked id hid w hw hsec hst
    · -- a completed workflow is in the view, so its secret is managed there
      refine ne_of_unmanaged (Bool.eq_false_iff.mpr hmanaged) (h.mem_view hw hst) ?_
      rw [hsec, List.mem_singleton.mp hid]

theorem local_redact {now : Time} {author : User} {redactions : List (String × String)}
    (h : Local db t) (view : Database) :
    Local db (t.goto (.afterRedact prim view now author redactions)) := by
  unfold Point.afterRedact
  split
  · exact h.goto_failed
  · refine h.goto_harmless (fun x hx => ?_) rfl rfl rfl rfl
    rw [List.mem_singleton.mp hx]
    exact ⟨rfl, rfl, (fun _ h => by cases h)⟩

theorem local_recount {now : Time} {a : Address} (h : Local db t) (view : Database) :
    Local db (t.goto (.afterRecount view now a)) := by
  unfold Point.afterRecount
  split
  · refine h.goto_harmless (fun x hx => ?_) rfl rfl rfl rfl
    simp only [Point.todo, List.append_nil, List.mem_cons, List.not_mem_nil, or_false] at hx
    rcases hx with rfl | rfl <;> exact ⟨rfl, rfl, (fun _ h => by cases h)⟩
  · exact h.goto_idle rfl rfl rfl rfl fun he => by cases he
  · exact h.goto_failed

/-- Every reading statement keeps the facts of its request. -/
theorem local_select {next : Database → Point} (h : Local db t) (hbase : OwnSecrets db)
    (hop : t.point.op prim cfg = .select next) :
    Local db (t.goto (next (t.log.foldl Change.apply db))) := by
  cases hp : t.point with
  | authenticate =>
    rw [hp] at hop
    obtain rfl := Op.select.inj hop
    exact local_authenticate h hp _
  | locateSigner =>
    rw [hp] at hop
    obtain rfl := Op.select.inj hop
    exact local_locateSigner h hp _
  | verify =>
    rw [hp] at hop
    obtain rfl := Op.select.inj hop
    exact local_verify h hp _
  | countSignatures =>
    rw [hp] at hop
    obtain rfl := Op.select.inj hop
    exact local_countSignatures h hp _
  | readRecipients =>
    rw [hp] at hop
    obtain rfl := Op.select.inj hop
    exact local_readRecipients h hp _
  | loadWorkflow =>
    rw [hp] at hop
    obtain rfl := Op.select.inj hop
    exact local_loadWorkflow h hbase
  | redact =>
    rw [hp] at hop
    obtain rfl := Op.select.inj hop
    exact local_redact h _
  | recount =>
    rw [hp] at hop
    obtain rfl := Op.select.inj hop
    exact local_recount h _
  | selectOwned =>
    rw [hp] at hop
    obtain rfl := Op.select.inj hop
    exact local_selectOwned h hbase
  | selectSecrets =>
    rw [hp] at hop
    obtain rfl := Op.select.inj hop
    exact h.goto_checked [] (by simp) (by simp)
  | checkManaged now a todo unmanaged =>
    rw [hp] at hop
    cases todo with
    | nil => cases hop
    | cons s rest =>
      obtain rfl := Op.select.inj hop
      exact local_checkManaged h hp
  | write todo next =>
    rw [hp] at hop
    cases todo <;> cases hop
  | lockWorkflow | claimNonce | claimed | lockUser | committing | done | failed =>
    rw [hp] at hop
    cases hop

/-! ## The writing statements -/

theorem Local.start (h : Local db t) :
    Local db { t with snapshot := some (t.log.foldl Change.apply db) } where
  deletes := by
    intro w hw hd hst
    cases hd with
    | todo hx hid => exact h.deletes w hw (.todo hx hid) hst
    | done hch hid => exact h.deletes w hw (.done hch hid) hst
    | secret hs hv hid =>
      refine h.deletes w hw (.secret ?_ hv hid) hst
      cases hs with
      | todo hx => exact .todo hx
      | marked hx => exact .marked hx
      | done hx => exact .done hx
    | dropping hpoint hsnap hrel hr ha hid =>
      -- the snapshot of the statement has the workflow as completed
      obtain rfl := Option.some.inj hsnap
      refine hrel (List.mem_map.mpr ⟨w, Table.mem_where'.mpr ⟨h.mem_view hw hst, ?_⟩, rfl⟩)
      rw [hst]
      rfl
  settles := by
    intro id hset
    cases hset with
    | todo hx hid => exact h.settles id (.todo hx hid)
    | done hch hid => exact h.settles id (.done hch hid)
  locked := h.locked
  approving := h.approving
  removed := h.removed
  early := h.early

/-- A statement that has finished leaves nothing decided that was not decided before. -/
theorem Local.finish (h : Local db t) {locks : List RowKey} {changes : List Change} {p : Point}
    (htodo : ∀ x ∈ p.todo, x ∈ t.point.todo) (hun : ∀ id ∈ p.unmanaged, id ∈ t.point.unmanaged)
    (hdel : ∀ ch ∈ changes, ∀ id ∈ ch.dooms, Deletes db t id)
    (hdrop : ∀ id, .deleteSecret id ∈ changes → DropsSecret t id)
    (hset : ∀ ch ∈ changes, ∀ id, ch.settles = some id → Settles t id)
    (hlocked : ∀ w, p.locked = some w → t.point.locked = some w)
    (happ : ∀ w, p.approving = some w → t.point.approving = some w)
    (hremoved : ∀ id, .deleteWorkflow id ∈ changes → .workflow id ∈ locks)
    (hearly : p.early = false) : Local db (t.finish ⟨locks, changes, p⟩) where
  deletes := by
    intro w hw hd
    refine h.deletes w hw ?_
    cases hd with
    | todo hx hid => exact .todo (htodo _ hx) hid
    | done hch hid =>
      rcases List.mem_append.mp hch with hch | hch
      · exact .done hch hid
      · exact hdel _ hch _ hid
    | secret hs hv hid =>
      refine .secret ?_ hv hid
      cases hs with
      | todo hx => exact .todo (htodo _ hx)
      | marked hx => exact .marked (hun _ hx)
      | done hch =>
        rcases List.mem_append.mp hch with hch | hch
        · exact .done hch
        · exact hdrop _ hch
    | dropping _ hsnap => cases hsnap
  settles := by
    intro id hs
    have hold : Settles t id := by
      cases hs with
      | todo hx hid => exact .todo (htodo _ hx) hid
      | done hch hid =>
        rcases List.mem_append.mp hch with hch | hch
        · exact .done hch hid
        · exact hset _ hch _ hid
    obtain ⟨hheld, hrow⟩ := h.settles id hold
    exact ⟨List.mem_append_left _ hheld, hrow⟩
  locked := by
    intro w hw
    obtain ⟨hheld, hrow⟩ := h.locked w (hlocked w hw)
    exact ⟨List.mem_append_left _ hheld, hrow⟩
  approving := fun w hw => h.approving w (happ w hw)
  removed := by
    intro id hch
    rcases List.mem_append.mp hch with hch | hch
    · exact List.mem_append_left _ (h.removed id hch)
    · exact List.mem_append_right _ (hremoved id hch)
  early := fun he => by
    rw [Session.finish, hearly] at he
    cases he

theorem Local.lock (h : Local db t) (locks : List RowKey) :
    Local db { t with held := t.held ++ locks } where
  deletes := by
    intro w hw hd
    refine h.deletes w hw ?_
    cases hd with
    | todo hx hid => exact .todo hx hid
    | done hch hid => exact .done hch hid
    | secret hs hv hid =>
      refine .secret ?_ hv hid
      cases hs with
      | todo hx => exact .todo hx
      | marked hx => exact .marked hx
      | done hx => exact .done hx
    | dropping hpoint hsnap hrel hr ha hid => exact .dropping hpoint hsnap hrel hr ha hid
  settles := by
    intro id hs
    have hold : Settles t id := by
      cases hs with
      | todo hx hid => exact .todo hx hid
      | done hch hid => exact .done hch hid
    obtain ⟨hheld, hrow⟩ := h.settles id hold
    exact ⟨List.mem_append_left _ hheld, hrow⟩
  locked := by
    intro w hw
    obtain ⟨hheld, hrow⟩ := h.locked w hw
    exact ⟨List.mem_append_left _ hheld, hrow⟩
  approving := h.approving
  removed := fun id hch => List.mem_append_left _ (h.removed id hch)
  early := h.early

/-- A statement that only locks is a move under its locks. -/
theorem finish_locks (t : Txn) (locks : List RowKey) (p : Point) :
    t.finish ⟨locks, [], p⟩ = Session.goto { t with held := t.held ++ locks } p := by
  rw [Session.finish, Session.goto, List.append_nil]

theorem local_lockWorkflow {now : Time} {caller : User} {id : ℕ} {verdict : Verdict}
    (h : Local db t) (hp : t.point = .lockWorkflow now caller id verdict) (snap : Database) :
    Local db (t.finish
      (Point.afterLockWorkflow snap (t.log.foldl Change.apply db) now caller id verdict)) := by
  have hlog : t.log = [] := (h.early (by rw [hp]; rfl)).1
  rw [hlog]
  unfold Point.afterLockWorkflow
  split
  · rename_i w _ hload
    have hw : w ∈ db.workflows := by
      unfold loadWorkflowOr404 at hload
      split at hload
      · rename_i w' hfind
        obtain rfl := Except.ok.inj hload
        exact (Table.find?_mem hfind).1
      · cases hload
    rw [finish_locks]
    refine (h.lock [.workflow w.id]).goto (fun x hx => by cases hx) ?_ (fun x hx => by cases hx) ?_
      (fun v hv => by cases hv) fun he => by cases he
    · rintro i (hx | hx) <;> cases hx
    · intro v hv
      obtain rfl := Option.some.inj hv
      exact ⟨List.mem_append_right _ (List.mem_singleton_self _),
        fun w' hw' hid => Serial.eq_of_key hw' hw hid⟩
  · rw [finish_locks]
    exact (h.lock []).goto_failed

theorem local_lockUser {now : Time} {a : Address} {mode : Mode} {req : EraseRequest}
    (h : Local db t) (cur : Database) :
    Local db (t.finish (Point.afterLockUser prim cfg cur now a mode req)) := by
  unfold Point.afterLockUser
  split
  · rw [finish_locks]
    exact (h.lock []).goto_failed
  · rw [finish_locks]
    split
    · exact (h.lock _).goto_failed
    · split
      · split
        · refine (h.lock _).goto_harmless (fun x hx => ?_) rfl rfl rfl rfl
          simp only [Point.todo, List.append_nil, leaveRows, List.mem_cons, List.not_mem_nil,
            or_false] at hx
          rcases hx with rfl | rfl | rfl <;> exact ⟨rfl, rfl, (fun _ h => by cases h)⟩
        · exact (h.lock _).goto_failed
      · exact (h.lock _).goto_idle rfl rfl rfl rfl fun he => by cases he

theorem local_claimNonce {now : Time} {caller : User} {mode : Mode} {req : EraseRequest}
    (h : Local db t) (cur : Database) :
    Local db (t.finish (Point.afterClaimNonce cur now caller mode req)) := by
  unfold Point.afterClaimNonce
  simp only
  split
  · refine h.finish (fun x hx => by cases hx) (fun i hi => by cases hi) ?_ ?_ ?_
      (fun w hw => by cases hw) (fun w hw => by cases hw) ?_ rfl
    · intro ch hch id hid
      rw [List.mem_singleton.mp hch] at hid
      cases hid
    · intro id hch
      cases List.mem_singleton.mp hch
    · intro ch hch id hid
      rw [List.mem_singleton.mp hch] at hid
      cases hid
    · intro id hch
      cases List.mem_singleton.mp hch
  · rw [finish_locks]
    exact (h.lock []).goto_idle rfl rfl rfl rfl fun he => by cases he

/-- The next statement of those that are decided on. -/
theorem local_write {x : Write} {rest : List Write} {next : Point} {snap : Database}
    (h : Local db t) (hp : t.point = .write (x :: rest) next) (hsnap : t.snapshot = some snap)
    {locks : List RowKey} {changes : List Change}
    (hexec : x.exec snap (t.log.foldl Change.apply db) = some (locks, changes)) :
    Local db (t.finish ⟨locks, changes, .writes rest next⟩) := by
  have hx : x ∈ t.point.todo := by
    rw [hp]
    exact List.mem_append_left _ List.mem_cons_self
  have hrest : ∀ y ∈ (Point.writes rest next).todo, y ∈ t.point.todo := by
    intro y hy
    rw [Point.todo_writes] at hy
    rw [hp]
    exact List.mem_cons_of_mem _ hy
  refine h.finish hrest ?_ ?_ ?_ ?_ ?_ ?_ ?_ ?_
  · intro id hid
    rw [Point.unmanaged_writes] at hid
    rw [hp]
    exact hid
  · intro ch hch id hid
    rcases (Write.exec_change hexec hch).2.1 id hid with hdoom | ⟨a, rfl, r, hr, ha, hrid, hrel⟩
    · exact .todo hx hdoom
    · obtain ⟨r₀, hr₀, hid₀, ha₀⟩ := of_mem_view_recipients hr
      exact .dropping hp hsnap hrel hr₀ (ha₀.trans ha) (hid₀.trans hrid)
  · intro id hch
    have hxs := (Write.exec_change hexec hch).2.2.1 id rfl
    exact .todo (hxs ▸ hx)
  · intro ch hch id hid
    rw [(Write.exec_change hexec hch).1] at hid
    exact .todo hx hid
  · intro w hw
    rw [Point.locked_writes] at hw
    rw [hp]
    exact hw
  · intro w hw
    rw [Point.approving_writes] at hw
    rw [hp]
    exact hw
  · intro id hch
    exact (Write.exec_change hexec hch).2.2.2 id rfl
  · rw [Point.early_writes]
    by_contra hearly
    rw [Bool.not_eq_false] at hearly
    have htodo := (h.early (by rw [hp]; exact hearly)).2
    rw [htodo] at hx
    cases hx

/-- Every writing statement keeps the facts of its request. -/
theorem local_finish {exec : Database → Database → Outcome RowKey Change Point} {snap : Database}
    (h : Local db t) (hop : t.point.op prim cfg = .write exec) (hsnap : t.snapshot = some snap) :
    Local db (t.finish (exec snap (t.log.foldl Change.apply db))) := by
  cases hp : t.point with
  | lockWorkflow =>
    rw [hp] at hop
    obtain rfl := Op.write.inj hop
    exact local_lockWorkflow h hp snap
  | claimNonce =>
    rw [hp] at hop
    obtain rfl := Op.write.inj hop
    exact local_claimNonce h _
  | lockUser =>
    rw [hp] at hop
    obtain rfl := Op.write.inj hop
    exact local_lockUser h _
  | write todo next =>
    rw [hp] at hop
    cases todo with
    | nil => cases hop
    | cons x rest =>
      obtain rfl := Op.write.inj hop
      simp only
      split
      · rw [finish_locks]
        exact (h.lock []).goto_failed
      · rename_i locks changes hexec
        exact local_write h hp hsnap hexec
  | checkManaged now a todo unmanaged =>
    rw [hp] at hop
    cases todo <;> cases hop
  | authenticate | locateSigner | verify | countSignatures | readRecipients | loadWorkflow | claimed
  | redact | recount | selectOwned | selectSecrets | committing | done | failed =>
    rw [hp] at hop
    cases hop

/-! ## The commit -/

/-- After a commit nothing is decided on. -/
theorem local_commit {next : Point} (hop : t.point.op prim cfg = .commit next) :
    Local (t.log.foldl Change.apply db) (.fresh next) := by
  have hnext : next = .done ∨ next = .failed ∨ ∃ now a mode req, next = .lockUser now a mode req := by
    cases hp : t.point with
    | claimed won now caller mode req =>
      rw [hp] at hop
      obtain rfl := Op.commit.inj hop
      split
      · exact .inr (.inr ⟨_, _, _, _, rfl⟩)
      · exact .inr (.inl rfl)
    | committing =>
      rw [hp] at hop
      obtain rfl := Op.commit.inj hop
      exact .inl rfl
    | checkManaged now a todo unmanaged =>
      rw [hp] at hop
      cases todo <;> cases hop
    | write todo next =>
      rw [hp] at hop
      cases todo <;> cases hop
    | authenticate | lockWorkflow | locateSigner | verify | countSignatures | readRecipients
    | loadWorkflow | claimNonce | lockUser | redact | recount | selectOwned | selectSecrets | done
    | failed =>
      rw [hp] at hop
      cases hop
  rcases hnext with rfl | rfl | ⟨now, a, mode, req, rfl⟩ <;> exact .fresh rfl rfl rfl rfl

/-- A workflow row that another request changes by its commit is none that it holds locked. -/
theorem row_of_commit (ht : Local db t) (hdis : t.held.Disjoint u.held) {id : ℕ}
    (hlock : .workflow id ∈ u.held) {w : MultisigWorkflow}
    (hw : w ∈ (t.log.foldl Change.apply db).workflows) (hid : w.id = id) : w ∈ db.workflows := by
  rcases (of_mem_view hw).1 with hw | ⟨ch, hch, hset⟩
  · exact hw
  · have hsettles : ch.settles = some id := by
      cases ch with
      | setStatus i st | setRejected i _ _ =>
        rw [← hid]
        exact congrArg (Option.map Prod.fst) hset
      | _ => cases hset
    exact absurd hlock (hdis (ht.settles id (.done hch hsettles)).1)

/-- The commit of a request keeps the facts of every other, where it completes no workflow that
the other is deleting. -/
theorem local_stable (ht : Local db t) (hu : Local db u) (hdis : t.held.Disjoint u.held)
    (hleaves : LeavesDeletions db t u) : Local (t.log.foldl Change.apply db) u where
  deletes := by
    intro w hw hd hst
    rcases (of_mem_view hw).1 with hw | ⟨ch, hch, hset⟩
    · exact hu.deletes w hw hd.of_view hst
    · cases ch with
      | setStatus i st =>
        obtain ⟨rfl, rfl⟩ := Prod.mk.inj (Option.some.inj hset)
        exact hleaves w.id (hst ▸ hch) hd.of_view
      | setRejected =>
        have hrej := (Prod.mk.inj (Option.some.inj hset)).2
        rw [hst] at hrej
        cases hrej
      | _ => cases hset
  settles := by
    intro id hs
    obtain ⟨hheld, hrow⟩ := hu.settles id hs
    exact ⟨hheld, fun w hw hid => hrow w (row_of_commit ht hdis hheld hw hid) hid⟩
  locked := by
    intro w hw
    obtain ⟨hheld, hrow⟩ := hu.locked w hw
    exact ⟨hheld, fun w' hw' hid => hrow w' (row_of_commit ht hdis hheld hw' hid) hid⟩
  approving := hu.approving
  removed := hu.removed
  early := hu.early

theorem transactions_rule (prim : Primitives) (cfg : Config) :
    Rule (transactions prim cfg) OwnSecrets Local LeavesDeletions where
  entry := fun _ _ _ => .fresh rfl rfl rfl rfl
  select := fun _ _ _ hbase h hop => local_select h hbase hop
  start := fun _ _ _ _ h _ => h.start
  finish := fun _ _ _ _ _ h hop hsnap => local_finish h hop hsnap
  commit := fun _ _ _ hbase _ hop => ⟨hbase.view, local_commit hop⟩
  stable := fun _ _ _ _ _ ht _ hu hdis hleaves => local_stable ht hu hdis hleaves

/-- In every run in which no completing signature commits while a deletion is open that has read
the workflow as not completed, what a completed workflow holds stays in every later state. -/
theorem released_kept {db₀ : Database} {s s' : State Database RowKey Change Point}
    {as bs : List (Action WorkflowCall)} (h₀ : Reachable prim cfg db₀)
    (hs : Run (restrict (Undisturbed LeavesDeletions) (ofPartial (transactions prim cfg).step))
      (.start db₀) as s)
    (hs' : Run (restrict (Undisturbed LeavesDeletions) (ofPartial (transactions prim cfg).step))
      s bs s') : KeepsReleased s.committed s'.committed := by
  have hown : OwnSecrets db₀ := fun w hw w' hw' hsec =>
    congrArg _ ((Inv.of_reachable h₀).secret_inj w hw w' hw' hsec)
  have hR := transactions_rule prim cfg
  have hI : Holds OwnSecrets Local s := hR.run_holds hs (.start hown)
  refine hR.run_preserves KeepsReleased.refl (fun _ _ _ => KeepsReleased.trans) ?_ hs' hI
  intro db t next _ ht _ w hw hst
  exact keeps_of_spares (fun _ => ht.spares hw hst) hw

end rule

/-! ## Alice and Bob -/

/-- Alice's workflow, which Bob has yet to sign. -/
def sampleOpen : Database := serveAll samplePrimitives sampleConfig sampleStart [sampleCreate]

def sampleRun (as : List (Action WorkflowCall)) : Option (State Database RowKey Change Point) :=
  as.foldlM (transactions samplePrimitives sampleConfig).step (.start sampleOpen)

def sampleSigning : WorkflowCall :=
  ⟨1, ⟨"bob", 0⟩, .sign 0 ⟨"bob" ++ multisigApprovalMessage 0 0 "sealed", []⟩⟩

def sampleDeletion : WorkflowCall := ⟨1, ⟨"alice", 0⟩, .delete 0⟩

/-- Bob's request `i`, from the token to the commit that completes the workflow. -/
def signingSteps (i : ℕ) : List (Action WorkflowCall) :=
  [.select i, .start i, .finish i, .select i, .select i, .select i, .select i,
    .start i, .finish i, .start i, .finish i, .commit i]

/-- Alice's request `i` after it has loaded the workflow. -/
def deletionSteps (i : ℕ) : List (Action WorkflowCall) :=
  (List.replicate 6 [.start i, .finish i]).flatten ++ [.commit i]

/-- Alice's deletion loads the pending workflow, then Bob's signature completes it. -/
def raceStart : List (Action WorkflowCall) :=
  [.arrive sampleDeletion, .arrive sampleSigning, .select 0, .select 0] ++ signingSteps 1

/-- No second request is there when one commits. -/
def alone (s : State Database RowKey Change Point) : Action WorkflowCall → Bool
  | .commit _ => s.sessions.length ≤ 1
  | _ => true

theorem undisturbed_of_alone (s : State Database RowKey Change Point) (a : Action WorkflowCall)
    (h : alone s a = true) : Undisturbed LeavesDeletions s a := by
  cases a with
  | commit i =>
    intro t ht j u hj hu
    have hlen : s.sessions.length ≤ 1 := by simpa [alone] using h
    have hindex : ∀ k (v : Txn), s.session k = some v → k < s.sessions.length := by
      intro k v hv
      by_contra hk
      rw [State.session, List.getElem?_eq_none (by omega)] at hv
      cases hv
    have hi := hindex i t ht
    have hj' := hindex j u hu
    omega
  | _ => trivial

def runAlone (s : State Database RowKey Change Point) (as : List (Action WorkflowCall)) :
    Option (State Database RowKey Change Point) :=
  as.foldlM (fun s a =>
    if alone s a then (transactions samplePrimitives sampleConfig).step s a else none) s

set_option maxRecDepth 10000 in
/-- Bob completes the workflow, and Alice's deletion comes too late. -/
theorem released_kept_sample :
    ∃ s s', Run (restrict (Undisturbed LeavesDeletions)
        (ofPartial (transactions samplePrimitives sampleConfig).step))
        (.start sampleOpen) (.arrive sampleSigning :: signingSteps 0) s ∧
      Run (restrict (Undisturbed LeavesDeletions)
        (ofPartial (transactions samplePrimitives sampleConfig).step))
        s [.arrive sampleDeletion, .select 1, .select 1] s' ∧
      (∃ w ∈ s.committed.workflows.rows, w.status = .completed) ∧
      KeepsReleased s.committed s'.committed := by
  have hsigned : ((runAlone (.start sampleOpen) (.arrive sampleSigning :: signingSteps 0)).bind
      fun s => (runAlone s [.arrive sampleDeletion, .select 1, .select 1]).map
        fun _ => s.committed.workflows.rows.map (·.status)) = some [.completed] := by decide
  obtain ⟨s, hs, hrest⟩ := Option.bind_eq_some_iff.mp hsigned
  obtain ⟨s', hs', hrows⟩ := Option.map_eq_some_iff.mp hrest
  have hrun := Run.restrict_foldlM _ undisturbed_of_alone _ _ _ hs
  have hrun' := Run.restrict_foldlM _ undisturbed_of_alone _ _ _ hs'
  have hmem : Status.completed ∈ s.committed.workflows.rows.map (·.status) := by
    rw [hrows]
    exact List.mem_singleton_self _
  exact ⟨s, s', hrun, hrun', List.mem_map.mp hmem,
    released_kept (reachable_sample [sampleCreate]) hrun hrun'⟩

theorem run_of_sampleRun {as : List (Action WorkflowCall)}
    {s : State Database RowKey Change Point} (h : sampleRun as = some s) :
    Run (ofPartial (transactions samplePrimitives sampleConfig).step) (.start sampleOpen) as s :=
  Run.ofPartial_foldlM _ as _ s h

theorem reachable_sampleOpen : Reachable samplePrimitives sampleConfig sampleOpen :=
  reachable_sample [sampleCreate]

set_option maxRecDepth 10000 in
/-- The deletion that read the workflow as pending deletes it after its completion. -/
theorem not_released_kept :
    ¬ ∀ (prim : Primitives) (cfg : Config) (db₀ : Database)
      (s s' : State Database RowKey Change Point) (as bs : List (Action WorkflowCall)),
      Reachable prim cfg db₀ → Run (ofPartial (transactions prim cfg).step) (.start db₀) as s →
        Run (ofPartial (transactions prim cfg).step) s bs s' →
          KeepsReleased s.committed s'.committed := by
  intro hall
  have hbefore : (sampleRun raceStart).map (·.committed.workflows.rows.map (·.status)) =
      some [.completed] := by decide
  have hafter : (sampleRun (raceStart ++ deletionSteps 0)).map (·.committed.workflows.rows) =
      some [] := by decide
  obtain ⟨s, hs, hrows⟩ := Option.map_eq_some_iff.mp hbefore
  obtain ⟨s', hs', hrows'⟩ := Option.map_eq_some_iff.mp hafter
  have hrest : (deletionSteps 0).foldlM (transactions samplePrimitives sampleConfig).step s =
      some s' := by
    rw [sampleRun, List.foldlM_append] at hs'
    rw [sampleRun] at hs
    rw [hs] at hs'
    exact hs'
  obtain ⟨w, hw, hst⟩ : ∃ w ∈ s.committed.workflows.rows, w.status = .completed := by
    have hmem : Status.completed ∈ s.committed.workflows.rows.map (·.status) := by
      rw [hrows]
      exact List.mem_singleton_self _
    exact List.mem_map.mp hmem
  have hkept := (hall _ _ _ s s' _ _ reachable_sampleOpen (run_of_sampleRun hs)
    (Run.ofPartial_foldlM _ _ _ _ hrest) w hw hst).1
  have hgone : w ∈ s'.committed.workflows.rows := hkept
  rw [hrows'] at hgone
  cases hgone

end Kryptolog.Server
