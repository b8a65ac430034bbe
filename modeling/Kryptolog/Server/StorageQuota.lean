import Kryptolog.Library.TrackedPoints
import Kryptolog.Server.Transactions

/-! # The storage quota

The requests that change what an owner stores, statement by statement: `POST /secrets`,
`PUT /secrets/{id}`, `DELETE /secrets/{id}` and `POST /secrets/chunks`, with the sums of
`security/quota.py`. The quota is decided under a lock on the row of the owner, which a deletion
does not take.

New rows are numbered when they are committed. No other session can name them before.
-/

namespace Kryptolog.Server
set_option autoImplicit false

open Tables ReadCommitted Runs

inductive StorageRequest
  | create (data : SecretCreate)
  | update (secretId : ℕ) (data : SecretCreate)
  | upload (chunk : FileChunkUpload)
  | delete (secretId : ℕ)

structure StorageCall where
  token : Token
  now : Time
  request : StorageRequest

/-- What a request writes once there is room for it. An update has loaded its secret. -/
inductive Storing
  | secret (data : SecretCreate) (now : Time)
  | edit (loaded : Secret) (data : SecretCreate)
  | chunk (chunk : FileChunkUpload)

def SecretCreate.size (data : SecretCreate) : ℕ := data.encryptedData.length + data.name.length

def Secret.size (s : Secret) : ℕ := s.encryptedData.length + s.name.length

/-- The characters that count against the quota. -/
def Storing.growth : Storing → ℕ
  | .secret data _ => data.size
  | .edit loaded data => data.size - loaded.size
  | .chunk upload => upload.encryptedData.length

inductive StorageChange
  | createSecret (owner : Address) (data : SecretCreate) (now : Time)
  /-- The columns that differ from the loaded row. -/
  | editSecret (id : ℕ) (name encryptedData : Option String)
  | insertChunk (chunk : FileChunkUpload)
  | deleteGrants (ids : List ℕ)
  | deleteChunks (ids : List ℕ)
  | deleteSecret (id : ℕ)

/-- The assignments of an `UPDATE`. -/
def Secret.assign (name encryptedData : Option String) (s : Secret) : Secret :=
  { s with name := name.getD s.name, encryptedData := encryptedData.getD s.encryptedData }

theorem Secret.key_assign (name encryptedData : Option String) (s : Secret) :
    Keyed.key (s.assign name encryptedData) = Keyed.key s := rfl

def FileChunkUpload.row (chunk : FileChunkUpload) (id : ℕ) : FileChunk :=
  ⟨id, chunk.secretId, chunk.chunkIndex, chunk.encryptedData, chunk.iv⟩

theorem FileChunkUpload.key_row (chunk : FileChunkUpload) (id : ℕ) : Keyed.key (chunk.row id) = id := rfl

namespace StorageChange

def apply (c : Database) : StorageChange → Database
  | createSecret owner data now => insertSecretWithOwnerGrant c now owner data
  | editSecret id name encryptedData => { c with
      secrets := c.secrets.update (·.id == id) (Secret.assign name encryptedData)
        (Secret.key_assign name encryptedData) }
  | insertChunk chunk => { c with fileChunks := c.fileChunks.insert chunk.row chunk.key_row }
  | deleteGrants ids => { c with accessGrants := c.accessGrants.delete fun g => ids.contains g.id }
  | deleteChunks ids => { c with fileChunks := c.fileChunks.delete fun ch => ids.contains ch.id }
  | deleteSecret id => { c with secrets := c.secrets.delete (·.id == id) }

/-- The rows that the statement holds. A chunk holds the row that it refers to. -/
def rows : StorageChange → List RowKey
  | createSecret _ _ _ => []
  | editSecret id _ _ => [.secret id]
  | insertChunk chunk => [.secret chunk.secretId]
  | deleteGrants ids => ids.map .accessGrant
  | deleteChunks ids => ids.map .fileChunk
  | deleteSecret id => [.secret id]

def isDeletion : StorageChange → Bool
  | deleteGrants _ | deleteChunks _ | deleteSecret _ => true
  | _ => false

end StorageChange

/-- A column that the session sets on a loaded row: written where it is another value. -/
def assigned (loaded new : String) : Option String := if loaded = new then none else some new

/-- The statement of a flush. -/
def Storing.change (caller : Address) : Storing → StorageChange
  | .secret data now => .createSecret caller data now
  | .edit loaded data => .editSecret loaded.id (assigned loaded.name data.name)
      (assigned loaded.encryptedData data.encryptedData)
  | .chunk upload => .insertChunk upload

/-! ## The transactions -/

/-- Where the transaction is, with what it has changed so far. -/
inductive StoragePoint
  | authenticate (call : StorageCall)
  | loadEdited (now : Time) (caller : Address) (secretId : ℕ) (data : SecretCreate)
  | checkEdited (caller : Address) (loaded : Secret) (data : SecretCreate)
  | loadUploaded (now : Time) (caller : Address) (chunk : FileChunkUpload)
  | lockOwner (caller : Address) (what : Storing)
  | countSecrets (caller : Address) (what : Storing)
  | sumInline (caller : Address) (what : Storing)
  | sumChunks (caller : Address) (what : Storing) (inline : ℕ)
  | sumFile (caller : Address) (chunk : FileChunkUpload)
  | flush (caller : Address) (what : Storing)
  | flushed (caller : Address) (what : Storing) (done : List StorageChange)
  | loadDeleted (now : Time) (caller : Address) (secretId : ℕ)
  | checkDeleted (secretId : ℕ)
  | deleteGrants (secretId : ℕ)
  | loadChunks (secretId : ℕ) (done : List StorageChange)
  | deleteChunks (secretId : ℕ) (chunks : List ℕ) (done : List StorageChange)
  | deleteSecret (secretId : ℕ) (done : List StorageChange)
  | deleted (done : List StorageChange)
  | ended

namespace StoragePoint

def log : StoragePoint → List StorageChange
  | flushed _ _ done | loadChunks _ done | deleteChunks _ _ done | deleteSecret _ done
  | deleted done => done
  | _ => []

/-- The owner whose row the transaction has locked. -/
def owner : StoragePoint → Option Address
  | countSecrets caller _ | sumInline caller _ | sumChunks caller _ _ | sumFile caller _
  | flush caller _ | flushed caller _ _ => some caller
  | _ => none

def locks (p : StoragePoint) : List RowKey :=
  p.owner.toList.map .user ++ p.log.flatMap StorageChange.rows

end StoragePoint

/-- The way on after a statement that changed rows. -/
def changedRows (change : StorageChange) (next : StoragePoint) :
    Outcome RowKey StorageChange StoragePoint := ⟨change.rows, [change], next⟩

/-- A refusal, with its rollback. -/
def refused : Outcome RowKey StorageChange StoragePoint := ⟨[], [], .ended⟩

/-- The check that follows the lock. An update that does not grow needs none. -/
def afterOwnerLock (caller : Address) (what : Storing) : StoragePoint :=
  match what with
  | .secret _ _ => .countSecrets caller what
  | .edit _ _ => if 0 < what.growth then .sumInline caller what else .flush caller what
  | .chunk _ => .sumInline caller what

/-- The check that follows the sums. -/
def afterSums (caller : Address) (what : Storing) : StoragePoint :=
  match what with
  | .chunk chunk => .sumFile caller chunk
  | _ => .flush caller what

def ownedSecrets (c : Database) (a : Address) : List Secret := c.secrets.where' (·.ownerAddress == a)

/-- The first sum of `stored_chars`. -/
def inlineChars (c : Database) (a : Address) : ℕ := ((ownedSecrets c a).map Secret.size).sum

/-- The second sum of `stored_chars`. -/
def chunkChars (c : Database) (a : Address) : ℕ :=
  ((c.fileChunks.where' fun ch => (ownedSecrets c a).any (·.id == ch.secretId)).map
    (·.encryptedData.length)).sum

/-- The characters of one file. -/
def fileChars (c : Database) (secretId : ℕ) : ℕ :=
  ((c.fileChunks.where' (·.secretId == secretId)).map (·.encryptedData.length)).sum

theorem storedChars_eq (c : Database) (a : Address) :
    storedChars c a = inlineChars c a + chunkChars c a := rfl

/-- The flush of what a request stores. -/
def flushStoring (caller : Address) (what : Storing) (snap cur : Database) :
    Outcome RowKey StorageChange StoragePoint :=
  let change := what.change caller
  match what with
  | .secret _ _ => changedRows change (.flushed caller what [change])
  | .edit loaded data =>
    if loaded.name = data.name ∧ loaded.encryptedData = data.encryptedData then
      -- no column differs, and no statement is sent
      ⟨[], [], .flushed caller what []⟩
    else if (matched snap.secrets cur.secrets (·.id == loaded.id)).isEmpty then refused
    else changedRows change (.flushed caller what [change])
  | .chunk chunk =>
    if !cur.secrets.any (·.id == chunk.secretId) || cur.fileChunks.any (fun ch =>
      ch.secretId == chunk.secretId && ch.chunkIndex == chunk.chunkIndex) then refused
    else changedRows change (.flushed caller what [change])

def StoragePoint.op (cfg : Config) : StoragePoint → Op Database RowKey StorageChange StoragePoint
  | .authenticate call => .select fun c =>
    match getCurrentUser c call.token with
    | .error _ => .ended
    | .ok caller =>
      match call.request with
      | .create data => .lockOwner caller.address (.secret data call.now)
      | .update secretId data => .loadEdited call.now caller.address secretId data
      | .upload chunk => .loadUploaded call.now caller.address chunk
      | .delete secretId => .loadDeleted call.now caller.address secretId
  | .loadEdited now caller secretId data => .select fun c =>
    match loadSecret c now secretId caller canManageSecret with
    | .error _ => .ended
    | .ok loaded => .checkEdited caller loaded data
  | .checkEdited caller loaded data => .select fun c =>
    if isWorkflowManaged c loaded.id then .ended else .lockOwner caller (.edit loaded data)
  | .loadUploaded now caller chunk => .select fun c =>
    match loadSecret c now chunk.secretId caller canWriteSecret with
    | .error _ => .ended
    | .ok _ => .lockOwner caller (.chunk chunk)
  | .lockOwner caller what => .write fun _ cur =>
    if (findUser cur caller).isSome then ⟨[.user caller], [], afterOwnerLock caller what⟩ else refused
  | .countSecrets caller what => .select fun c =>
    if cfg.maxSecretsPerUser < (ownedSecrets c caller).length + 1 then .ended
    else .sumInline caller what
  | .sumInline caller what => .select fun c => .sumChunks caller what (inlineChars c caller)
  | .sumChunks caller what inline => .select fun c =>
    if cfg.maxStoredCharsPerUser < inline + chunkChars c caller + what.growth then .ended
    else afterSums caller what
  | .sumFile caller chunk => .select fun c =>
    if 4 * cfg.maxTotalFileSize < 3 * (fileChars c chunk.secretId + chunk.encryptedData.length) then
      .ended
    else .flush caller (.chunk chunk)
  | .flush caller what => .write (flushStoring caller what)
  | .flushed _ _ _ => .commit .ended
  | .loadDeleted now caller secretId => .select fun c =>
    match loadSecret c now secretId caller canManageSecret with
    | .error _ => .ended
    | .ok _ => .checkDeleted secretId
  | .checkDeleted secretId => .select fun c =>
    if isWorkflowManaged c secretId then .ended else .deleteGrants secretId
  | .deleteGrants secretId => .write fun snap cur =>
    let change := .deleteGrants
      ((matched snap.accessGrants cur.accessGrants (·.secretId == secretId)).map (·.id))
    changedRows change (.loadChunks secretId [change])
  | .loadChunks secretId done => .select fun c =>
    .deleteChunks secretId ((c.fileChunks.where' (·.secretId == secretId)).map (·.id)) done
  | .deleteChunks secretId chunks done => .write fun snap cur =>
    let change := .deleteChunks
      ((matched snap.fileChunks cur.fileChunks fun ch => chunks.contains ch.id).map (·.id))
    changedRows change (.deleteSecret secretId (done ++ [change]))
  | .deleteSecret secretId done => .write fun _ cur =>
    -- the chunks and the grants of the secret refer to it
    if cur.fileChunks.any (·.secretId == secretId) || cur.accessGrants.any (·.secretId == secretId) then
      refused
    else changedRows (.deleteSecret secretId) (.deleted (done ++ [.deleteSecret secretId]))
  | .deleted _ => .commit .ended
  | .ended => .halt

def storage (cfg : Config) : Machine Database RowKey StorageChange StoragePoint StorageCall where
  apply e c := e.apply c
  entry := .authenticate
  op := StoragePoint.op cfg

/-! ## The measures -/

section measures

variable {c d : Database} {a caller : Address}

/-- The secret is one of the owner's. -/
def belongs (c : Database) (a : Address) (secretId : ℕ) : Bool :=
  (ownedSecrets c a).any (·.id == secretId)

theorem belongs_iff {secretId : ℕ} :
    belongs c a secretId = true ↔ ∃ s ∈ c.secrets, s.ownerAddress = a ∧ s.id = secretId := by
  simp only [belongs, ownedSecrets, List.any_eq_true, Table.mem_where', beq_iff_eq, and_assoc,
    Serial.mem_toTable]

theorem length_ownedSecrets : (ownedSecrets c a).length =
    c.secrets.toTable.total fun s => if s.ownerAddress == a then 1 else 0 := Table.length_where'

theorem inlineChars_eq : inlineChars c a =
    c.secrets.toTable.total fun s => if s.ownerAddress == a then s.size else 0 := Table.sum_where'

theorem chunkChars_eq : chunkChars c a = c.fileChunks.toTable.total fun ch =>
    if belongs c a ch.secretId then ch.encryptedData.length else 0 := Table.sum_where'

/-- The same chunks, of no more secrets. -/
theorem chunkChars_le (hsame : d.fileChunks = c.fileChunks)
    (h : ∀ ch ∈ c.fileChunks, belongs d a ch.secretId = true → belongs c a ch.secretId = true) :
    chunkChars d a ≤ chunkChars c a := by
  rw [chunkChars_eq, chunkChars_eq, hsame]
  refine Table.total_mono fun ch hch => ?_
  by_cases hd : belongs d a ch.secretId = true
  · rw [if_pos hd, if_pos (h ch hch hd)]
  · rw [if_neg hd]
    exact Nat.zero_le _

/-- What is counted grows by no more than this. -/
structure Grows (c d : Database) (a : Address) (secrets inline chunks : ℕ) : Prop where
  secrets : (ownedSecrets d a).length ≤ (ownedSecrets c a).length + secrets
  inline : inlineChars d a ≤ inlineChars c a + inline
  chunks : chunkChars d a ≤ chunkChars c a + chunks

theorem Grows.refl : Grows c c a 0 0 0 := ⟨le_rfl, le_rfl, le_rfl⟩

theorem Grows.trans {e : Database} (h : Grows c d a 0 0 0) (h' : Grows d e a 0 0 0) :
    Grows c e a 0 0 0 :=
  ⟨h'.secrets.trans h.secrets, h'.inline.trans h.inline, h'.chunks.trans h.chunks⟩

theorem Grows.stored {n i k : ℕ} (h : Grows c d a n i k) :
    storedChars d a ≤ storedChars c a + (i + k) := by
  have hinline := h.inline
  have hchunks := h.chunks
  rw [storedChars_eq, storedChars_eq]
  omega

/-- A deletion only frees. -/
theorem grows_deletion {e : StorageChange} (h : e.isDeletion = true) : Grows c (e.apply c) a 0 0 0 := by
  cases e with
  | deleteGrants ids => exact ⟨le_rfl, le_rfl, le_rfl⟩
  | deleteChunks ids =>
    refine ⟨le_rfl, le_rfl, ?_⟩
    rw [chunkChars_eq, chunkChars_eq]
    exact Table.total_delete_le
  | deleteSecret id =>
    refine ⟨?_, ?_, chunkChars_le rfl fun ch _ hch => ?_⟩
    · rw [length_ownedSecrets, length_ownedSecrets]
      exact Table.total_delete_le
    · rw [inlineChars_eq, inlineChars_eq]
      exact Table.total_delete_le
    · obtain ⟨s, hs, hrest⟩ := belongs_iff.mp hch
      exact belongs_iff.mpr ⟨s, (Serial.mem_delete.mp hs).1, hrest⟩
  | createSecret | editSecret | insertChunk => cases h

theorem grows_deletions {es : List StorageChange} (h : ∀ e ∈ es, e.isDeletion = true) :
    Grows c (es.foldl (fun c e => e.apply c) c) a 0 0 0 := by
  induction es generalizing c with
  | nil => exact .refl
  | cons e es ih =>
    obtain ⟨he, hes⟩ := List.forall_mem_cons.mp h
    exact (grows_deletion he).trans (ih hes)

/-- The number stands for a secret of this owner, or for one that is gone. -/
def Owned (c : Database) (a : Address) (secretId : ℕ) : Prop :=
  secretId < c.secrets.next ∧ ∀ s ∈ c.secrets, s.id = secretId → s.ownerAddress = a

/-- No chunk has the number of a secret that is yet to come. -/
def Numbered (c : Database) : Prop := ∀ ch ∈ c.fileChunks, ch.secretId < c.secrets.next

def Storing.Target (c : Database) (caller : Address) : Storing → Prop
  | .secret _ _ => True
  | .edit loaded _ => Owned c caller loaded.id
  | .chunk upload => Owned c caller upload.secretId

/-- The row of an update is, in each column, no shorter than when it was loaded. -/
def Storing.Unshortened (c : Database) : Storing → Prop
  | .edit loaded _ => ∀ s ∈ c.secrets, s.id = loaded.id → loaded.name.length ≤ s.name.length ∧
      loaded.encryptedData.length ≤ s.encryptedData.length
  | _ => True

/-- What a change of the caller adds for an owner. -/
def share (caller a : Address) (n : ℕ) : ℕ := if caller == a then n else 0

def Storing.secrets : Storing → ℕ
  | .secret _ _ => 1
  | _ => 0

def Storing.inline : Storing → ℕ
  | .chunk _ => 0
  | what => what.growth

def Storing.chunks : Storing → ℕ
  | .chunk upload => upload.encryptedData.length
  | _ => 0

theorem Storing.inline_add_chunks (what : Storing) : what.inline + what.chunks = what.growth := by
  cases what with
  | secret | edit => exact Nat.add_zero _
  | chunk => exact Nat.zero_add _

theorem size_assign_le {s loaded : Secret} {data : SecretCreate}
    (hname : loaded.name.length ≤ s.name.length)
    (hdata : loaded.encryptedData.length ≤ s.encryptedData.length) :
    (s.assign (assigned loaded.name data.name) (assigned loaded.encryptedData data.encryptedData)).size ≤
      s.size + (data.size - loaded.size) := by
  have hlength : ∀ old new cur : String, old.length ≤ cur.length →
      ((assigned old new).getD cur).length + old.length ≤ cur.length + new.length ∧
        (old = new → ((assigned old new).getD cur) = cur) := by
    intro old new cur h
    unfold assigned
    by_cases heq : old = new
    · rw [if_pos heq, Option.getD_none, heq]
      exact ⟨le_rfl, fun _ => rfl⟩
    · rw [if_neg heq, Option.getD_some]
      exact ⟨by omega, fun h => absurd h heq⟩
  have hname' := (hlength loaded.name data.name s.name hname).1
  have hdata' := (hlength loaded.encryptedData data.encryptedData s.encryptedData hdata).1
  simp only [Secret.size, SecretCreate.size, Secret.assign]
  omega

/-- What the flush of a request adds. -/
theorem grows_storing {what : Storing} (hbase : Numbered c) (htarget : what.Target c caller)
    (hready : what.Unshortened c) :
    Grows c ((what.change caller).apply c) a (share caller a what.secrets) (share caller a what.inline)
      (share caller a what.chunks) := by
  cases what with
  | secret data now =>
    refine ⟨?_, ?_, ?_⟩
    · rw [length_ownedSecrets, length_ownedSecrets]
      exact (Serial.total_insert (by intro; rfl)).le
    · rw [inlineChars_eq, inlineChars_eq]
      exact (Serial.total_insert (by intro; rfl)).le
    · refine Nat.le_add_right_of_le (chunkChars_le rfl fun ch hch h => ?_)
      obtain ⟨s, hs, howner, hid⟩ := belongs_iff.mp h
      rcases Serial.mem_insert.mp hs with hs | rfl
      · exact belongs_iff.mpr ⟨s, hs, howner, hid⟩
      · have hlt := hbase ch hch
        have hid' : c.secrets.next = ch.secretId := hid
        omega
  | edit loaded data =>
    have hrow : ∀ s ∈ c.secrets, (s.id == loaded.id) = true → s.ownerAddress = caller ∧
        (s.assign (assigned loaded.name data.name)
          (assigned loaded.encryptedData data.encryptedData)).size ≤
            s.size + (data.size - loaded.size) := by
      intro s hs hid
      obtain ⟨hname, hdata⟩ := hready s hs (beq_iff_eq.mp hid)
      exact ⟨htarget.2 s hs (beq_iff_eq.mp hid), size_assign_le hname hdata⟩
    refine ⟨?_, ?_, ?_⟩
    · rw [length_ownedSecrets, length_ownedSecrets]
      refine Nat.le_add_right_of_le (le_of_eq (Table.total_update_eq (by intro; rfl) ?_))
      exact fun _ _ _ => rfl
    · rw [inlineChars_eq, inlineChars_eq]
      refine Table.total_update_le (by intro; rfl) (fun s _ hid => beq_iff_eq.mp hid) fun s hs hid => ?_
      obtain ⟨howner, hsize⟩ := hrow s hs hid
      change (if s.ownerAddress == a then _ else 0) ≤ (if s.ownerAddress == a then _ else 0) + share caller a _
      rw [howner, share]
      split
      · exact hsize
      · exact le_rfl
    · refine Nat.le_add_right_of_le (chunkChars_le rfl fun ch _ h => ?_)
      obtain ⟨s, hs, howner, hid⟩ := belongs_iff.mp h
      obtain ⟨s₀, hs₀, rfl⟩ := Serial.mem_update.mp hs
      refine belongs_iff.mpr ⟨s₀, hs₀, ?_, ?_⟩
      · rw [← howner]
        split <;> rfl
      · rw [← hid]
        split <;> rfl
  | chunk upload =>
    refine ⟨Nat.le_add_right _ _, Nat.le_add_right _ _, ?_⟩
    rw [chunkChars_eq, chunkChars_eq]
    refine (Serial.total_insert upload.key_row).le.trans (Nat.add_le_add_left ?_ _)
    change (if belongs c a upload.secretId then _ else 0) ≤ share caller a _
    split
    · next h =>
      obtain ⟨s, hs, howner, hid⟩ := belongs_iff.mp h
      rw [share, if_pos (beq_iff_eq.mpr ((htarget.2 s hs hid).symm.trans howner))]
      exact le_rfl
    · exact Nat.zero_le _

end measures

/-! ## What the points say -/

section tracking

variable {cfg : Config} {p : StoragePoint}

theorem log_afterOwnerLock (caller : Address) (what : Storing) :
    (afterOwnerLock caller what).log = [] ∧ (afterOwnerLock caller what).owner = some caller := by
  unfold afterOwnerLock
  split
  · exact ⟨rfl, rfl⟩
  · split <;> exact ⟨rfl, rfl⟩
  · exact ⟨rfl, rfl⟩

theorem log_afterSums (caller : Address) (what : Storing) :
    (afterSums caller what).log = [] ∧ (afterSums caller what).owner = some caller := by
  unfold afterSums
  split <;> exact ⟨rfl, rfl⟩

/-- A reading statement ends the request, or goes on with the same changes and the same owner. -/
theorem log_of_storage_select {next : Database → StoragePoint} (c : Database)
    (h : (storage cfg).op p = .select next) :
    (next c) = .ended ∨ ((next c).log = p.log ∧ (next c).owner = p.owner) := by
  cases p with
  | authenticate call =>
    cases h
    dsimp only
    split
    · exact .inl rfl
    · split <;> exact .inr ⟨rfl, rfl⟩
  | loadEdited | checkEdited | loadUploaded | countSecrets | sumFile | loadDeleted | checkDeleted =>
    cases h
    dsimp only
    split
    · exact .inl rfl
    · exact .inr ⟨rfl, rfl⟩
  | sumInline | loadChunks =>
    cases h
    exact .inr ⟨rfl, rfl⟩
  | sumChunks caller what inline =>
    cases h
    dsimp only
    split
    · exact .inl rfl
    · exact .inr (log_afterSums caller what)
  | lockOwner | flush | flushed | deleteGrants | deleteChunks | deleteSecret | deleted | ended => cases h

/-- A writing statement is refused, locks the owner, or tells what it changed. -/
theorem log_of_storage_write {exec : Database → Database → Outcome RowKey StorageChange StoragePoint}
    (snap cur : Database) (h : (storage cfg).op p = .write exec) :
    (exec snap cur).next = .ended ∨ ((exec snap cur).next.log = p.log ++ (exec snap cur).effects ∧
      (exec snap cur).next.locks ⊆ p.locks ++ (exec snap cur).locks) := by
  cases p with
  | lockOwner caller what =>
    cases h
    dsimp only
    split
    · obtain ⟨hlog, howner⟩ := log_afterOwnerLock caller what
      refine .inr ⟨hlog, ?_⟩
      rw [StoragePoint.locks, hlog, howner]
      exact List.Subset.refl _
    · exact .inl rfl
  | flush caller what =>
    cases h
    unfold flushStoring
    dsimp only
    split
    · exact .inr ⟨rfl, List.Subset.refl _⟩
    · split
      · exact .inr ⟨rfl, List.Subset.refl _⟩
      · split
        · exact .inl rfl
        · exact .inr ⟨rfl, List.Subset.refl _⟩
    · split
      · exact .inl rfl
      · exact .inr ⟨rfl, List.Subset.refl _⟩
  | deleteGrants secretId =>
    cases h
    refine .inr ⟨rfl, ?_⟩
    simp [StoragePoint.locks, StoragePoint.owner, StoragePoint.log, changedRows]
  | deleteChunks secretId chunks done =>
    cases h
    refine .inr ⟨rfl, ?_⟩
    simp [StoragePoint.locks, StoragePoint.owner, StoragePoint.log, changedRows]
  | deleteSecret secretId done =>
    cases h
    dsimp only
    split
    · exact .inl rfl
    · refine .inr ⟨rfl, ?_⟩
      simp [StoragePoint.locks, StoragePoint.owner, StoragePoint.log, changedRows]
  | authenticate | loadEdited | checkEdited | loadUploaded | countSecrets | sumInline | sumChunks
  | sumFile | flushed | loadDeleted | checkDeleted | loadChunks | deleted | ended => cases h

theorem ended_of_storage_commit {next : StoragePoint} (h : (storage cfg).op p = .commit next) :
    next = .ended := by
  cases p with
  | flushed | deleted =>
    cases h
    rfl
  | _ => cases h

theorem tracking_storage : Tracking (storage cfg) StoragePoint.log StoragePoint.locks where
  entry call := ⟨rfl, rfl⟩
  select p next c h := by
    rcases log_of_storage_select c h with hended | ⟨hlog, howner⟩
    · left
      rw [hended]
      rfl
    · refine .inr ⟨hlog, ?_⟩
      rw [StoragePoint.locks, StoragePoint.locks, hlog, howner]
      exact List.Subset.refl _
  write p exec snap cur h := by
    rcases log_of_storage_write snap cur h with hended | hchanged
    · left
      rw [hended]
      rfl
    · exact .inr hchanged
  commit p next h := by
    rw [ended_of_storage_commit h]
    exact ⟨rfl, rfl⟩

end tracking

/-! ## What the points know -/

/-- The owner is within both limits. -/
def Within (cfg : Config) (c : Database) (a : Address) : Prop :=
  (ownedSecrets c a).length ≤ cfg.maxSecretsPerUser ∧ storedChars c a ≤ cfg.maxStoredCharsPerUser

/-- There is room for one more secret, where the request makes one. -/
def Counted (cfg : Config) (c : Database) (caller : Address) (what : Storing) : Prop :=
  0 < what.secrets → (ownedSecrets c caller).length + what.secrets ≤ cfg.maxSecretsPerUser

/-- There is room for what the request stores. -/
def Room (cfg : Config) (c : Database) (caller : Address) (what : Storing) : Prop :=
  0 < what.growth → storedChars c caller + what.growth ≤ cfg.maxStoredCharsPerUser

/-- What a point knows: whose the secret is, and what was counted under the lock. -/
def StoragePoint.Knows (cfg : Config) (c : Database) : StoragePoint → Prop
  | .checkEdited caller loaded _ => Owned c caller loaded.id
  | .lockOwner caller what => what.Target c caller
  | .countSecrets caller what => what.Target c caller
  | .sumInline caller what => what.Target c caller ∧ Counted cfg c caller what
  | .sumChunks caller what inline =>
    what.Target c caller ∧ Counted cfg c caller what ∧ inlineChars c caller ≤ inline
  | .sumFile caller upload => Owned c caller upload.secretId ∧ Room cfg c caller (.chunk upload)
  | .flush caller what =>
    what.Target c caller ∧ Counted cfg c caller what ∧ Room cfg c caller what
  | .flushed caller what done => (what.Target c caller ∧ Counted cfg c caller what ∧
      Room cfg c caller what) ∧ (done = [] ∨ done = [what.change caller])
  | .loadChunks _ done | .deleteChunks _ _ done | .deleteSecret _ done | .deleted done =>
    ∀ e ∈ done, e.isDeletion = true
  | _ => True

/-- An update commits while its row is no shorter than when it loaded it. -/
def Unshortened (c : Database) : StoragePoint → Prop
  | .flushed _ what _ => what.Unshortened c
  | _ => True

section knows

variable {cfg : Config} {c d : Database} {p q : StoragePoint} {a caller : Address} {what : Storing}

theorem owned_of_loadSecret {now : Time} {secretId : ℕ} {s : Secret}
    {allowed : Secret → Address → Bool} (hallowed : ∀ s, allowed s a = true → s.ownerAddress = a)
    (h : loadSecret c now secretId a allowed = .ok s) : s.id = secretId ∧ Owned c a secretId := by
  unfold loadSecret at h
  split at h
  · cases h
  · next s' hfind =>
    obtain ⟨hmem, hid⟩ := Table.find?_mem hfind
    split at h
    · next hallows =>
      cases h
      have hid := beq_iff_eq.mp hid
      refine ⟨hid, hid ▸ Serial.key_lt hmem, fun s'' hs'' hid'' => ?_⟩
      rw [Serial.eq_of_key hs'' hmem (hid''.trans hid.symm)]
      exact hallowed _ hallows
    · cases h

theorem knows_afterOwnerLock (h : what.Target c caller) :
    (afterOwnerLock caller what).Knows cfg c := by
  cases what with
  | secret data now => exact h
  | edit loaded data =>
    have hcounted : Counted cfg c caller (.edit loaded data) := fun h => absurd h (Nat.lt_irrefl 0)
    unfold afterOwnerLock
    dsimp only
    split
    · exact ⟨h, hcounted⟩
    · next hgrowth => exact ⟨h, hcounted, fun hpos => absurd hpos hgrowth⟩
  | chunk upload => exact ⟨h, fun h => absurd h (Nat.lt_irrefl 0)⟩

theorem storage_select {next : Database → StoragePoint} (hp : p.Knows cfg c)
    (h : (storage cfg).op p = .select next) :
    (next ((storage cfg).after c p.log)).Knows cfg c := by
  cases p with
  | authenticate call =>
    cases h
    dsimp only
    split
    · trivial
    · split <;> trivial
  | loadEdited now caller secretId data =>
    cases h
    dsimp only
    split
    · trivial
    · next s hload =>
      obtain ⟨hid, howned⟩ := owned_of_loadSecret (fun s hs => beq_iff_eq.mp hs) hload
      change Owned c caller s.id
      rw [hid]
      exact howned
  | checkEdited caller loaded data =>
    cases h
    dsimp only
    split
    · trivial
    · exact hp
  | loadUploaded now caller chunk =>
    cases h
    dsimp only
    split
    · trivial
    · next s hload => exact (owned_of_loadSecret (fun s hs => beq_iff_eq.mp hs) hload).2
  | countSecrets caller what =>
    cases h
    dsimp only
    split
    · trivial
    · next hroom =>
      refine ⟨hp, fun _ => (Nat.add_le_add_left ?_ _).trans (Nat.not_lt.mp hroom)⟩
      cases what <;> simp [Storing.secrets]
  | sumInline caller what =>
    cases h
    exact ⟨hp.1, hp.2, le_rfl⟩
  | sumChunks caller what inline =>
    obtain ⟨htarget, hcounted, hinline⟩ := hp
    cases h
    dsimp only
    split
    · trivial
    · next hroom =>
      have hroom' : Room cfg c caller what := by
        intro _
        have hsum : inline + chunkChars c caller + what.growth ≤ cfg.maxStoredCharsPerUser :=
          Nat.not_lt.mp hroom
        rw [storedChars_eq]
        omega
      cases what with
      | secret data now => exact ⟨htarget, hcounted, hroom'⟩
      | edit loaded data => exact ⟨htarget, hcounted, hroom'⟩
      | chunk upload => exact ⟨htarget, hroom'⟩
  | sumFile caller chunk =>
    cases h
    dsimp only
    split
    · trivial
    · exact ⟨hp.1, fun h => absurd h (Nat.lt_irrefl 0), hp.2⟩
  | loadDeleted now caller secretId =>
    cases h
    dsimp only
    split <;> trivial
  | checkDeleted secretId =>
    cases h
    dsimp only
    split <;> trivial
  | loadChunks secretId done =>
    cases h
    exact hp
  | lockOwner | flush | flushed | deleteGrants | deleteChunks | deleteSecret | deleted | ended => cases h

theorem isDeletion_append {done : List StorageChange} {e : StorageChange}
    (h : ∀ e ∈ done, e.isDeletion = true) (he : e.isDeletion = true) :
    ∀ e' ∈ done ++ [e], e'.isDeletion = true := by
  intro e' he'
  rcases List.mem_append.mp he' with he' | he'
  · exact h e' he'
  · rw [List.mem_singleton.mp he']
    exact he

theorem storage_write {exec : Database → Database → Outcome RowKey StorageChange StoragePoint}
    (hp : p.Knows cfg c) (h : (storage cfg).op p = .write exec) (snap cur : Database) :
    (exec snap cur).next.Knows cfg c := by
  cases p with
  | lockOwner caller what =>
    cases h
    dsimp only
    split
    · exact knows_afterOwnerLock hp
    · trivial
  | flush caller what =>
    cases h
    unfold flushStoring
    dsimp only
    split
    · exact ⟨hp, .inr rfl⟩
    · split
      · exact ⟨hp, .inl rfl⟩
      · split
        · trivial
        · exact ⟨hp, .inr rfl⟩
    · split
      · trivial
      · exact ⟨hp, .inr rfl⟩
  | deleteGrants secretId =>
    cases h
    intro e he
    rw [List.mem_singleton.mp he]
    rfl
  | deleteChunks secretId chunks done =>
    cases h
    exact isDeletion_append hp rfl
  | deleteSecret secretId done =>
    cases h
    dsimp only
    split
    · trivial
    · exact isDeletion_append hp rfl
  | authenticate | loadEdited | checkEdited | loadUploaded | countSecrets | sumInline | sumChunks
  | sumFile | flushed | loadDeleted | checkDeleted | loadChunks | deleted | ended => cases h

/-! ## Commits -/

theorem after_storage (c : Database) (es : List StorageChange) :
    (storage cfg).after c es = es.foldl (fun c e => e.apply c) c := rfl

/-- A number never comes to stand for the secret of another owner. -/
theorem owned_apply {secretId : ℕ} (h : Owned c a secretId) (e : StorageChange) :
    Owned (e.apply c) a secretId := by
  obtain ⟨hlt, howner⟩ := h
  cases e with
  | createSecret b data now =>
    refine ⟨Nat.lt_succ_of_lt hlt, fun s hs hid => ?_⟩
    rcases Serial.mem_insert.mp hs with hs | rfl
    · exact howner s hs hid
    · have hid' : c.secrets.next = secretId := hid
      omega
  | editSecret id name data =>
    refine ⟨hlt, fun s hs hid => ?_⟩
    obtain ⟨s₀, hs₀, rfl⟩ := Serial.mem_update.mp hs
    split at hid
    · next hp =>
      rw [if_pos hp]
      exact howner s₀ hs₀ hid
    · next hp =>
      rw [if_neg hp]
      exact howner s₀ hs₀ hid
  | deleteSecret id => exact ⟨hlt, fun s hs hid => howner s (Serial.mem_delete.mp hs).1 hid⟩
  | insertChunk | deleteGrants | deleteChunks => exact ⟨hlt, howner⟩

theorem numbered_apply {e : StorageChange} (h : Numbered c)
    (hchunk : ∀ chunk, e = .insertChunk chunk → chunk.secretId < c.secrets.next) :
    Numbered (e.apply c) := by
  cases e with
  | createSecret b data now => exact fun ch hch => Nat.lt_succ_of_lt (h ch hch)
  | insertChunk upload =>
    intro ch hch
    have hmem : ch ∈ c.fileChunks.insert upload.row upload.key_row := hch
    rcases Serial.mem_insert.mp hmem with hch | rfl
    · exact h ch hch
    · exact hchunk upload rfl
  | deleteChunks ids => exact fun ch hch => h ch (Serial.mem_delete.mp hch).1
  | editSecret | deleteGrants | deleteSecret => exact h

/-- What a commit leaves for an owner: nothing is added, or what was counted under the lock of the
owner is. -/
theorem storage_commit {next : StoragePoint} (hbase : Numbered c) (hp : p.Knows cfg c)
    (hop : (storage cfg).op p = .commit next) (hready : Unshortened c p) (a : Address) :
    Grows c ((storage cfg).after c p.log) a 0 0 0 ∨ (p.owner = some a ∧ ∃ what,
      Counted cfg c a what ∧ Room cfg c a what ∧
      Grows c ((storage cfg).after c p.log) a what.secrets what.inline what.chunks) := by
  cases p with
  | flushed caller what done =>
    obtain ⟨⟨htarget, hcounted, hroom⟩, rfl | rfl⟩ := hp
    · exact .inl .refl
    · have hgrows := grows_storing (a := a) hbase htarget hready
      unfold share at hgrows
      split at hgrows
      · next hcaller =>
        obtain rfl := beq_iff_eq.mp hcaller
        exact .inr ⟨rfl, what, hcounted, hroom, hgrows⟩
      · exact .inl hgrows
  | deleted done => exact .inl (grows_deletions hp)
  | _ => cases hop

theorem owned_after {secretId : ℕ} (h : Owned c a secretId) (es : List StorageChange) :
    Owned (es.foldl (fun c e => e.apply c) c) a secretId := by
  induction es generalizing c with
  | nil => exact h
  | cons e es ih => exact ih (owned_apply h e)

theorem numbered_after {next : StoragePoint} (hbase : Numbered c) (hp : p.Knows cfg c)
    (hop : (storage cfg).op p = .commit next) : Numbered ((storage cfg).after c p.log) := by
  cases p with
  | flushed caller what done =>
    obtain ⟨⟨htarget, -⟩, rfl | rfl⟩ := hp
    · exact hbase
    · refine numbered_apply hbase fun chunk hchunk => ?_
      cases what with
      | chunk upload =>
        cases hchunk
        exact htarget.1
      | secret | edit => cases hchunk
  | deleted done =>
    have hall : ∀ e ∈ done, e.isDeletion = true := hp
    clear hop hp
    change Numbered (done.foldl (fun c e => e.apply c) c)
    induction done generalizing c with
    | nil => exact hbase
    | cons e es ih =>
      obtain ⟨he, hes⟩ := List.forall_mem_cons.mp hall
      refine ih (numbered_apply hbase fun chunk hchunk => ?_) hes
      rw [hchunk] at he
      cases he
  | _ => cases hop

theorem Within.grows (h : Within cfg c a) (hcounted : Counted cfg c a what) (hroom : Room cfg c a what)
    (hgrows : Grows c d a what.secrets what.inline what.chunks) : Within cfg d a := by
  have hsecrets := hgrows.secrets
  have hstored := hgrows.stored
  rw [what.inline_add_chunks] at hstored
  obtain ⟨hcount, hchars⟩ := h
  refine ⟨?_, ?_⟩
  · rcases Nat.eq_zero_or_pos what.secrets with hzero | hpos
    · omega
    · exact hsecrets.trans (hcounted hpos)
  · rcases Nat.eq_zero_or_pos what.growth with hzero | hpos
    · omega
    · exact hstored.trans (hroom hpos)

/-- The measures of other owners, and fewer rows of this one, leave what a point knows. -/
theorem knows_of_grows (hq : q.Knows cfg c) (howned : ∀ b id, Owned c b id → Owned d b id)
    (hgrows : ∀ b, q.owner = some b → Grows c d b 0 0 0) : q.Knows cfg d := by
  have htarget : ∀ {b what}, Storing.Target c b what → what.Target d b := by
    intro b what h
    cases what with
    | secret data now => trivial
    | edit loaded data => exact howned _ _ h
    | chunk upload => exact howned _ _ h
  have hcounted : ∀ {b what}, q.owner = some b → Counted cfg c b what → Counted cfg d b what := by
    intro b what hb h hpos
    exact (Nat.add_le_add_right (hgrows b hb).secrets _).trans (h hpos)
  have hroom : ∀ {b what}, q.owner = some b → Room cfg c b what → Room cfg d b what := by
    intro b what hb h hpos
    exact (Nat.add_le_add_right (hgrows b hb).stored _).trans (h hpos)
  cases q with
  | checkEdited caller loaded data => exact howned _ _ hq
  | lockOwner caller what => exact htarget hq
  | countSecrets caller what => exact htarget hq
  | sumInline caller what => exact ⟨htarget hq.1, hcounted rfl hq.2⟩
  | sumChunks caller what inline =>
    exact ⟨htarget hq.1, hcounted rfl hq.2.1, (hgrows caller rfl).inline.trans hq.2.2⟩
  | sumFile caller upload => exact ⟨howned _ _ hq.1, hroom rfl hq.2⟩
  | flush caller what => exact ⟨htarget hq.1, hcounted rfl hq.2.1, hroom rfl hq.2.2⟩
  | flushed caller what done =>
    exact ⟨⟨htarget hq.1.1, hcounted rfl hq.1.2.1, hroom rfl hq.1.2.2⟩, hq.2⟩
  | loadChunks | deleteChunks | deleteSecret | deleted => exact hq
  | authenticate | loadEdited | loadUploaded | loadDeleted | checkDeleted | deleteGrants | ended =>
    trivial

theorem pointRule_storage : PointRule (storage cfg) StoragePoint.log StoragePoint.locks
    (fun c => Numbered c ∧ Within cfg c a) (StoragePoint.Knows cfg) Unshortened where
  entry c call _ := trivial
  select c p next _ hp h := storage_select hp h
  write c p exec snap _ hp h := storage_write hp h snap _
  commit c p next hbase hp h hready := by
    refine ⟨⟨numbered_after hbase.1 hp h, ?_⟩, ?_⟩
    · rcases storage_commit hbase.1 hp h hready a with hgrows | ⟨-, what, hcounted, hroom, hgrows⟩
      · exact ⟨hgrows.secrets.trans hbase.2.1, hgrows.stored.trans hbase.2.2⟩
      · exact hbase.2.grows hcounted hroom hgrows
    · rw [ended_of_storage_commit h]
      trivial
  stable c p next q hbase hp h hready hq hdisjoint := by
    refine knows_of_grows hq (fun b id howned => owned_after howned _) fun b hb => ?_
    rcases storage_commit hbase.1 hp h hready b with hgrows | ⟨howner, -⟩
    · exact hgrows
    · have hlock : ∀ r : StoragePoint, r.owner = some b → RowKey.user b ∈ r.locks := by
        intro r hr
        rw [StoragePoint.locks, hr]
        exact List.mem_cons_self
      exact absurd (hlock q hb) (hdisjoint (hlock p howner))

end knows

/-- Where no update commits over a row that another has shortened meanwhile, an owner who starts
within the limits stays within them. -/
theorem stays_within {cfg : Config} {a : Address} {c₀ : Database}
    {as : List (Action StorageCall)} {s : State Database RowKey StorageChange StoragePoint}
    (hfk : ∀ ch ∈ c₀.fileChunks, ∃ owner ∈ c₀.secrets, owner.id = ch.secretId)
    (hstart : Within cfg c₀ a)
    (hrun : Run (restrict (Prepared Unshortened) (ofPartial (storage cfg).step)) (.start c₀) as s) :
    Within cfg s.committed a := by
  have hnumbered : Numbered c₀ := by
    intro ch hch
    obtain ⟨owner, howner, hid⟩ := hfk ch hch
    exact hid ▸ Serial.key_lt howner
  exact (pointRule_storage.run_holds tracking_storage hrun (.start ⟨hnumbered, hstart⟩)).base.2

/-! ## Two updates of one secret -/

instance (c : Database) (what : Storing) : Decidable (what.Unshortened c) :=
  match what with
  | .secret _ _ | .chunk _ => isTrue trivial
  | .edit loaded _ => inferInstanceAs (Decidable (∀ s ∈ c.secrets.rows, s.id = loaded.id →
      loaded.name.length ≤ s.name.length ∧ loaded.encryptedData.length ≤ s.encryptedData.length))

/-- Is the row of a session that commits as long as when it loaded it? -/
def commitsUnshortened (s : State Database RowKey StorageChange StoragePoint) :
    Action StorageCall → Bool
  | .commit i => (s.session i).all fun t =>
    match t.point with
    | .flushed _ what _ => decide (what.Unshortened s.committed)
    | _ => true
  | _ => true

theorem prepared_of_commitsUnshortened {s : State Database RowKey StorageChange StoragePoint}
    {a : Action StorageCall} (h : commitsUnshortened s a = true) : Prepared Unshortened s a := by
  cases a with
  | commit i =>
    intro t ht
    rw [commitsUnshortened, ht, Option.all_some] at h
    cases hpoint : t.point with
    | flushed caller what done =>
      rw [hpoint] at h
      have hwhat : what.Unshortened s.committed := of_decide_eq_true h
      exact hwhat
    | _ => trivial
  | arrive | select | start | finish | abort => trivial

def sampleLimits : Config := ⟨"sample", [], 10, 10, 1000⟩

def sampleOwner : User :=
  ⟨lower "owner", "", none, none, none, none, none, none, 0, none, false⟩

/-- Two secrets of five characters, under a limit of ten. -/
def sampleStored : Database where
  __ := Database.empty
  users := ⟨[sampleOwner], List.nodup_singleton _⟩
  secrets := (Serial.empty.insert (fun id => ⟨id, sampleOwner.address, "", "first"⟩) (fun _ => rfl)).insert
    (fun id => ⟨id, sampleOwner.address, "", "other"⟩) (fun _ => rfl)

/-- An update of the first secret. -/
def sampleEdit (text : String) : StorageCall :=
  ⟨⟨"owner", 0⟩, 0, .update 0 ⟨"", text, .notJson ""⟩⟩

/-- The first secret is loaded by an update, emptied by a second one, and then written. -/
def sampleOverlap : List (Action StorageCall) :=
  [.arrive (sampleEdit "tenletters"), .select 0, .select 0, .arrive (sampleEdit ""), .select 1,
    .select 1, .select 1, .start 1, .finish 1, .start 1, .finish 1, .commit 1, .select 0, .start 0,
    .finish 0, .select 0, .select 0, .start 0, .finish 0, .commit 0]

/-- The same two requests, the larger of them with a text that fits, one after the other. -/
def sampleSequence : List (Action StorageCall) :=
  [.arrive (sampleEdit ""), .select 0, .select 0, .select 0, .start 0, .finish 0, .start 0,
    .finish 0, .commit 0, .arrive (sampleEdit "fives"), .select 1, .select 1, .select 1, .start 1,
    .finish 1, .select 1, .select 1, .start 1, .finish 1, .commit 1]

theorem within_sampleStored : Within sampleLimits sampleStored sampleOwner.address := by
  unfold Within
  decide +kernel

/-- The second update has let go of five characters that the first one counts as its own. -/
theorem not_stays_within : ∃ as s,
    (∀ ch ∈ sampleStored.fileChunks, ∃ owner ∈ sampleStored.secrets, owner.id = ch.secretId) ∧
    Within sampleLimits sampleStored sampleOwner.address ∧
    Run (ofPartial (storage sampleLimits).step) (.start sampleStored) as s ∧
    ¬ Within sampleLimits s.committed sampleOwner.address := by
  have hstored : (sampleOverlap.foldlM (storage sampleLimits).step (.start sampleStored)).map
      (fun s => storedChars s.committed sampleOwner.address) = some 15 := by
    decide +kernel
  obtain ⟨s, hrun, hchars⟩ := Option.map_eq_some_iff.mp hstored
  refine ⟨sampleOverlap, s, fun ch hch => (by cases hch), within_sampleStored,
    Run.ofPartial_foldlM _ _ _ _ hrun, fun hwithin => ?_⟩
  have hlimit : storedChars s.committed sampleOwner.address ≤ 10 := hwithin.2
  omega

theorem stays_within_sample : ∃ as s,
    (∀ ch ∈ sampleStored.fileChunks, ∃ owner ∈ sampleStored.secrets, owner.id = ch.secretId) ∧
    Run (restrict (Prepared Unshortened) (ofPartial (storage sampleLimits).step)) (.start sampleStored)
      as s ∧ storedChars s.committed sampleOwner.address = 10 ∧
    Within sampleLimits s.committed sampleOwner.address := by
  have hstored : (sampleSequence.foldlM (fun s a => if commitsUnshortened s a then
      (storage sampleLimits).step s a else none) (.start sampleStored)).map
        (fun s => storedChars s.committed sampleOwner.address) = some 10 := by
    decide +kernel
  obtain ⟨s, hfold, hchars⟩ := Option.map_eq_some_iff.mp hstored
  have hrun := Run.restrict_foldlM _ (fun _ _ => prepared_of_commitsUnshortened) _ _ _ hfold
  have hfk : ∀ ch ∈ sampleStored.fileChunks, ∃ owner ∈ sampleStored.secrets, owner.id = ch.secretId :=
    fun ch hch => (by cases hch)
  exact ⟨sampleSequence, s, hfk, hrun, hchars, stays_within hfk within_sampleStored hrun⟩

end Kryptolog.Server
