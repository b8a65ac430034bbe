import Kryptolog.Library.Runs
import Kryptolog.Server.AccountDeletion
import Kryptolog.Server.KeyRotation

/-! # The server as a state machine

A `Call` is a request at an instant, under the token of its caller. `serve` authenticates it,
hands it to its endpoint and gives the database that is committed with the answer.

The endpoints modelled here are all those that write secrets, grants, chunks or workflows, with
the account deletion and the conversation erase. Logins, key rotations, messages and groups
write none of these tables: an `elsewhere` step changes the other tables in any way, but for the
identity keys of users.
-/

namespace Kryptolog.Server
set_option autoImplicit false

open Tables Json Runs

inductive Request
  | createSecret (data : SecretCreate)
  | updateSecret (secretId : ℕ) (data : SecretCreate)
  | deleteSecret (secretId : ℕ)
  | shareSecret (grant : AccessGrantCreate)
  | revokeGrant (grantId : ℕ)
  | getSecretAccess (secretId limit offset : ℕ)
  | getSharedSecrets (limit offset : ℕ)
  | uploadChunk (chunk : FileChunkUpload)
  | createWorkflow (req : MultisigWorkflowCreate)
  | signWorkflow (workflowId : ℕ) (req : MultisigSignatureRequest)
  | rejectWorkflow (workflowId : ℕ)
  | deleteWorkflow (workflowId : ℕ)
  | rewrap (items : List StaleWrap)
  | deleteAccount (mode : Mode) (req : EraseRequest)
  | eraseConversation (kind : Kind) (conversation : String) (req : EraseRequest)

structure Call where
  now : Time
  token : Token
  request : Request

/-- An answer without its body. -/
def answered {α : Type} : Except Fault α → Except Fault Unit
  | .ok _ => .ok ()
  | .error fault => .error fault

/-- What an endpoint that writes in one transaction commits. -/
def committed {α : Type} (db : Database) (r : Except Fault (Database × α)) :
    Database × Except Fault Unit :=
  let (db', answer) := transaction db r
  (db', answered answer)

def committed' (db : Database) (r : Except Fault Database) : Database × Except Fault Unit :=
  committed db (r.map fun db' => (db', ()))

/-- The endpoint of a request. -/
def endpoint (prim : Primitives) (cfg : Config) (db : Database) (now : Time) (caller : User) :
    Request → Database × Except Fault Unit
  | .createSecret data => committed db (createSecret cfg db now caller data)
  | .updateSecret id data => committed db (updateSecret cfg db now caller id data)
  | .deleteSecret id => committed' db (deleteSecret db now caller id)
  | .shareSecret grant => committed db (shareSecret db now caller grant)
  | .revokeGrant id => committed' db (revokeGrant db now caller id)
  | .getSecretAccess id limit offset =>
    committed db (getSecretAccess db now caller id limit offset)
  | .getSharedSecrets limit offset =>
    committed db (.ok (getSharedSecrets db now caller limit offset))
  | .uploadChunk chunk => committed' db (uploadChunk cfg db now caller chunk)
  | .createWorkflow req => committed db (createMultisigWorkflow cfg db now caller req)
  | .signWorkflow id req => committed db (signMultisigWorkflow prim db now caller id req)
  | .rejectWorkflow id => committed db (rejectMultisigWorkflow db now caller id)
  | .deleteWorkflow id => committed' db (deleteMultisigWorkflow db caller id)
  | .rewrap items => committed' db (Kryptolog.Server.rewrap db now caller items)
  | .deleteAccount mode req =>
    let (db', answer) := performDeletion prim cfg db now caller mode req
    (db', answered answer)
  | .eraseConversation kind conversation req =>
    let (db', answer) := Kryptolog.Server.eraseConversation prim cfg db now caller kind conversation req
    (db', answered answer)

/-- One request. -/
def serve (prim : Primitives) (cfg : Config) (db : Database) (call : Call) :
    Database × Except Fault Unit :=
  match getCurrentUser db call.token with
  | .error fault => (db, .error fault)
  | .ok caller => endpoint prim cfg db call.now caller call.request

/-! ## Runs -/

inductive Event
  | call (c : Call)
  | elsewhere

/-- The tables that the modelled endpoints alone write. -/
def SameSecrets (db db' : Database) : Prop :=
  db'.secrets = db.secrets ∧ db'.accessGrants = db.accessGrants ∧
    db'.fileChunks = db.fileChunks ∧ db'.workflows = db.workflows ∧
    db'.signers = db.signers ∧ db'.recipients = db.recipients

/-- Every user stays, with the key that the address names. A login stores no other key: the one it
presents hashes to the address. -/
def KeepsIdentities (db db' : Database) : Prop :=
  ∀ u ∈ db.users, ∃ u' ∈ db'.users,
    u'.address = u.address ∧ u'.identityPublicKey = u.identityPublicKey

/-- One step of the server. -/
def Step (prim : Primitives) (cfg : Config) (db : Database) (e : Event) (db' : Database) : Prop :=
  match e with
  | .call c => (serve prim cfg db c).1 = db'
  | .elsewhere => SameSecrets db db' ∧ KeepsIdentities db db'

/-- Where a run may start: any users, secrets and messages, with every row's secret or workflow
there. The workflows are as their creation leaves them, of either mode of the quorum. -/
structure Initial (db : Database) : Prop where
  secret : ∀ w ∈ db.workflows, ∃ s ∈ db.secrets, s.id = w.secretId ∧ s.ownerAddress = w.ownerAddress
  secret_inj : ∀ w ∈ db.workflows, ∀ w' ∈ db.workflows, w.secretId = w'.secretId → w = w'
  signer : ∀ r ∈ db.signers, ∃ w ∈ db.workflows, w.id = r.workflowId
  recipient : ∀ r ∈ db.recipients, ∃ w ∈ db.workflows, w.id = r.workflowId
  grant : ∀ g ∈ db.accessGrants, ∃ s ∈ db.secrets, s.id = g.secretId
  chunk : ∀ c ∈ db.fileChunks, ∃ s ∈ db.secrets, s.id = c.secretId
  owner_grant : ∀ g ∈ db.accessGrants, ∀ w ∈ db.workflows, g.secretId = w.secretId →
    g.granteeAddress = w.ownerAddress
  pending : ∀ w ∈ db.workflows, w.status = .pending
  unsigned : ∀ r ∈ db.signers, r.hasSigned = false
  quorum_pos : ∀ w ∈ db.workflows, 0 < quorum db w

/-- A database without secrets and workflows. -/
theorem Initial.of_empty {db : Database} (hg : db.accessGrants.rows = [])
    (hc : db.fileChunks.rows = []) (hw : db.workflows.rows = []) (hr : db.signers.rows = [])
    (hp : db.recipients.rows = []) : Initial db := by
  have hg' : ∀ g, g ∉ db.accessGrants := fun g h => by
    rw [← Serial.mem_toTable, ← Table.mem_rows, hg] at h; cases h
  have hc' : ∀ c, c ∉ db.fileChunks := fun c h => by
    rw [← Serial.mem_toTable, ← Table.mem_rows, hc] at h; cases h
  have hw' : ∀ w, w ∉ db.workflows := fun w h => by
    rw [← Serial.mem_toTable, ← Table.mem_rows, hw] at h; cases h
  have hr' : ∀ r, r ∉ db.signers := fun r h => by
    rw [← Serial.mem_toTable, ← Table.mem_rows, hr] at h; cases h
  have hp' : ∀ r, r ∉ db.recipients := fun r h => by
    rw [← Serial.mem_toTable, ← Table.mem_rows, hp] at h; cases h
  exact {
    secret := fun w h => absurd h (hw' w)
    secret_inj := fun w h => absurd h (hw' w)
    signer := fun r h => absurd h (hr' r)
    recipient := fun r h => absurd h (hp' r)
    grant := fun g h => absurd h (hg' g)
    chunk := fun c h => absurd h (hc' c)
    owner_grant := fun g h => absurd h (hg' g)
    pending := fun w h => absurd h (hw' w)
    unsigned := fun r h => absurd h (hr' r)
    quorum_pos := fun w h => absurd h (hw' w) }

/-- The states that runs lead to. -/
def Reachable (prim : Primitives) (cfg : Config) (db : Database) : Prop :=
  ∃ db₀ events, Initial db₀ ∧ Run (Step prim cfg) db₀ events db

/-- What requests one after the other commit. -/
def serveAll (prim : Primitives) (cfg : Config) (db : Database) (calls : List Call) : Database :=
  calls.foldl (fun db c => (serve prim cfg db c).1) db

theorem run_serveAll (prim : Primitives) (cfg : Config) (calls : List Call) (db : Database) :
    Run (Step prim cfg) db (calls.map .call) (serveAll prim cfg db calls) := by
  induction calls generalizing db with
  | nil => exact .nil db
  | cons c calls ih => exact .cons rfl (ih _)

end Kryptolog.Server
