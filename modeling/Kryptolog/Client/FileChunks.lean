import Kryptolog.Client.OpenedAsSealed
import Kryptolog.Library.Pages

/-! # Files in chunks

`utils/fileChunks.js`: files are split into chunks, which are numbered through all files of a secret, sealed one
by one under the key of the secret and posted. A file is read back by the range of its numbers.
-/

namespace Kryptolog.Client.FileChunks
set_option autoImplicit false

open Script Fallible
open Envelopes (CryptoPrimitives Iv SealCall GcmCall Ideal Layer chunkAad encryptChunk decryptChunk importAesKey)

/-! ## The model -/

/-- `CHUNK_SIZE`. -/
def chunkSize : ℕ := 512 * 1024

/-- A `File` with the bytes that are read of it. -/
structure File where
  name : Text
  type : Text
  size : ℕ
  bytes : Bytes
  size_eq : size = bytes.length

/-- `Math.ceil(size / CHUNK_SIZE)`. -/
def chunkCount (size : ℕ) : ℕ := (size + (chunkSize - 1)) / chunkSize

/-- `fileBytes.slice(start, end)` of the chunk `i`. -/
def slice (fileBytes : Bytes) (i : ℕ) : Bytes :=
  (fileBytes.take (min (i * chunkSize + chunkSize) fileBytes.length)).drop (i * chunkSize)

/-- `type || 'application/octet-stream'`. -/
def mimeTypeOf (type : Text) : Text := if type.isEmpty then lit "application/octet-stream" else type

/-- The body of `POST /secrets/chunks`. -/
structure ChunkBody where
  secretId : Text
  chunkIndex : ℕ
  iv : Option Value
  encryptedData : Option Value

/-- What the page reads of the answer of `GET /secrets/{id}/chunks/{index}`. -/
structure ChunkData where
  iv : Option Value
  encryptedData : Option Value

/-- The entry of a file in the manifest. -/
structure FileMeta where
  fileName : Text
  mimeType : Text
  totalChunks : ℕ
  totalSize : ℕ
  chunkOffset : ℕ

structure Manifest where
  files : List FileMeta
  totalChunks : ℕ
  chunkSize : ℕ

/-- What a request comes to. -/
inductive Outcome (α : Type)
  | ok (answer : α)
  | refused (status : ℕ) (errText : String)
  /-- `fetch` rejects, or the answer cannot be read. -/
  | failed (message : String)

/-- The answer, or the error that is thrown. -/
def Outcome.get {α : Type} (refusal : ℕ → String → String) : Outcome α → Except String α
  | ok answer => .ok answer
  | refused status errText => .error (refusal status errText)
  | failed message => .error message

/-- The arguments of an upload, and the random values that it draws. The id is given as a template shows it. -/
structure Job where
  secretId : Text
  fileKey : Text
  files : List File
  ivs : ℕ → Iv

/-- An upload under way, with what the server has accepted. -/
structure Uploading where
  posted : List ChunkBody
  globalChunkIndex : ℕ
  fileMetas : List FileMeta

def index (i : ℕ) : Text := lit (toString i)

section operations

variable (prim : CryptoPrimitives)

section upload

variable (answer : List ChunkBody → ChunkBody → Outcome Unit) (job : Job)

/-- The body of the loop over the chunks of a file. An error names the file where there are several. -/
def uploadChunk (label : String) (fileBytes : Bytes) (u : Uploading) (i : ℕ) : Except String Uploading := do
  let sealed ← encryptChunk prim (slice fileBytes i) job.fileKey
    (chunkAad job.secretId (index u.globalChunkIndex)) (job.ivs u.globalChunkIndex)
  let body : ChunkBody := ⟨job.secretId, u.globalChunkIndex, sealed.get "iv", sealed.get "ciphertext"⟩
  (answer u.posted body).get fun _ errText => s!"Chunk {u.globalChunkIndex} upload failed{label}: {errText}"
  .ok { u with posted := u.posted ++ [body], globalChunkIndex := u.globalChunkIndex + 1 }

def uploadFile (u : Uploading) (file : File) : Except String Uploading :=
  let fileMeta : FileMeta := ⟨file.name, mimeTypeOf file.type, chunkCount file.bytes.length, file.size,
    u.globalChunkIndex⟩
  (List.range (chunkCount file.bytes.length)).foldlM
    (uploadChunk prim answer job (" (" ++ shown file.name ++ ")") file.bytes)
    { u with fileMetas := u.fileMetas ++ [fileMeta] }

/-- With the chunks that were posted. -/
def uploadMultipleChunkedFiles : Except String (List ChunkBody × Manifest) := do
  let u ← job.files.foldlM (uploadFile prim answer job) ⟨[], 0, []⟩
  .ok (u.posted, ⟨u.fileMetas, (job.files.map fun file => chunkCount file.size).sum, chunkSize⟩)

/-- A single file: the number of its chunks, its size and the size of a chunk. -/
def uploadChunkedFile (file : File) : Except String (List ChunkBody × ℕ × ℕ × ℕ) := do
  let totalChunks := chunkCount file.bytes.length
  let u ← (List.range totalChunks).foldlM (uploadChunk prim answer job "" file.bytes) ⟨[], 0, []⟩
  .ok (u.posted, totalChunks, file.bytes.length, chunkSize)

end upload

section download

/-- A `Blob`. -/
structure Blob where
  bytes : Bytes
  type : Text

-- a download asks for each number once, so that what a server answers goes by the number
variable (serve : ℕ → Outcome ChunkData) (secretId fileKey : Text)

def downloadChunk (chunkIndex : ℕ) : Except String Bytes := do
  let chunkData ← (serve chunkIndex).get fun status _ => s!"Chunk {chunkIndex} download failed: {status}"
  decryptChunk prim chunkData.iv chunkData.encryptedData fileKey (chunkAad secretId (index chunkIndex))

def downloadFileByRange (chunkOffset totalChunks : ℕ) (mimeType : Text) : Except String Blob := do
  let decryptedChunks ← (List.range totalChunks).mapM fun i =>
    downloadChunk prim serve secretId fileKey (chunkOffset + i)
  .ok ⟨decryptedChunks.flatten, mimeTypeOf mimeType⟩

def downloadChunkedFile (totalChunks : ℕ) (mimeType : Text) : Except String Blob :=
  downloadFileByRange prim serve secretId fileKey 0 totalChunks mimeType

end download

end operations

/-- A server that returns what it stores. -/
def honest (stored : List ChunkBody) (secretId : Text) (chunkIndex : ℕ) : Outcome ChunkData :=
  match stored.find? fun c => c.secretId == secretId && c.chunkIndex == chunkIndex with
  | some c => .ok ⟨c.iv, c.encryptedData⟩
  | none => .refused 404 s!"Chunk {chunkIndex} not found"

/-! ## The chunks of a file -/

/-- The slices that the loop takes. -/
def slices (fileBytes : Bytes) : List Bytes := (List.range (chunkCount fileBytes.length)).map (slice fileBytes)

theorem slice_eq (fileBytes : Bytes) (i : ℕ) :
    slice fileBytes i = (fileBytes.drop (i * chunkSize)).take chunkSize := by
  rw [slice, ← List.take_take, List.take_of_length_le (le_refl fileBytes.length), List.drop_take,
    Nat.add_sub_cancel_left]

theorem length_slices (fileBytes : Bytes) : (slices fileBytes).length = chunkCount fileBytes.length := by
  rw [slices, List.length_map, List.length_range]

theorem le_chunkCount_mul (size : ℕ) : size ≤ chunkCount size * chunkSize := by
  have hdiv := Nat.div_add_mod (size + (chunkSize - 1)) chunkSize
  have hmod := Nat.mod_lt (size + (chunkSize - 1)) (show 0 < chunkSize by decide)
  rw [chunkCount, Nat.mul_comm]
  omega

/-- The slices, one after another, are the file. -/
theorem flatten_slices (fileBytes : Bytes) : (slices fileBytes).flatten = fileBytes := by
  have hslice : slice fileBytes = fun i => (fileBytes.drop (i * chunkSize)).take chunkSize :=
    funext fun i => slice_eq fileBytes i
  rw [slices, hslice, ← List.flatMap_def]
  exact (Pages.pages_const chunkSize fileBytes _).trans (List.take_of_length_le (le_chunkCount_mul _))

/-! ## What an upload posts -/

namespace Job

variable (prim : CryptoPrimitives) (job : Job)

/-- The key, where it can be imported. -/
def key : Bytes := (importAesKey job.fileKey).toOption.getD []

def Importable : Prop := importAesKey job.fileKey = .ok job.key

/-- The chunks of all files, in the order of their numbers. -/
def chunks : List Bytes := job.files.flatMap fun file => slices file.bytes

/-- The sealing of a chunk. -/
def call (i : ℕ) (chunk : Bytes) : SealCall :=
  .encryptChunk chunk job.fileKey job.secretId (index i) (job.ivs i)

def calls : List SealCall := job.chunks.mapIdx job.call

/-- The encryption that it makes. -/
def gcm (i : ℕ) (chunk : Bytes) : GcmCall :=
  ⟨job.key, (job.ivs i).bytes, (chunkAad job.secretId (index i)).encode, chunk⟩

def ciphertext (i : ℕ) (chunk : Bytes) : Bytes :=
  prim.gcmEncrypt job.key (job.ivs i).bytes (chunkAad job.secretId (index i)).encode chunk

/-- What is stored of a chunk. -/
def data (i : ℕ) (chunk : Bytes) : ChunkData :=
  ⟨some (.str (toB64 (job.ivs i).bytes)), some (.str (toB64 (job.ciphertext prim i chunk)))⟩

def body (i : ℕ) (chunk : Bytes) : ChunkBody :=
  ⟨job.secretId, i, (job.data prim i chunk).iv, (job.data prim i chunk).encryptedData⟩

/-- The bodies of successive chunks. -/
def bodies (offset : ℕ) (chunks : List Bytes) : List ChunkBody :=
  chunks.mapIdx fun i chunk => job.body prim (offset + i) chunk

variable {job}

theorem importable_of_ok {key : Bytes} (h : importAesKey job.fileKey = .ok key) : job.Importable := by
  rw [Importable, Job.key, h]
  rfl

theorem key_eq {key : Bytes} (h : importAesKey job.fileKey = .ok key) : key = job.key :=
  Except.ok.inj (h.symm.trans (importable_of_ok h))

theorem gcm_call (h : job.Importable) (i : ℕ) (chunk : Bytes) :
    (job.call i chunk).gcm prim = .ok (none, job.gcm i chunk) := by
  rw [call, SealCall.gcm, h]
  rfl

theorem bodies_cons (offset : ℕ) (chunk : Bytes) (chunks : List Bytes) :
    job.bodies prim offset (chunk :: chunks) = job.body prim offset chunk :: job.bodies prim (offset + 1) chunks := by
  simp only [bodies, List.mapIdx_cons, Nat.add_zero, Nat.add_assoc, Nat.add_comm 1]

theorem length_bodies (offset : ℕ) (chunks : List Bytes) : (job.bodies prim offset chunks).length = chunks.length :=
  List.length_mapIdx

theorem bodies_append (offset : ℕ) (xs ys : List Bytes) : job.bodies prim offset (xs ++ ys) =
    job.bodies prim offset xs ++ job.bodies prim (offset + xs.length) ys := by
  simp only [bodies, List.mapIdx_append, Nat.add_assoc, Nat.add_comm xs.length]

theorem map_chunkIndex_bodies (offset : ℕ) (chunks : List Bytes) :
    (job.bodies prim offset chunks).map ChunkBody.chunkIndex = List.range' offset chunks.length := by
  induction chunks generalizing offset with
  | nil => rfl
  | cons chunk chunks ih =>
    rw [bodies_cons, List.map_cons, ih, List.length_cons, List.range'_succ]
    rfl

theorem mem_bodies {offset : ℕ} {chunks : List Bytes} {c : ChunkBody} :
    c ∈ job.bodies prim offset chunks ↔
      ∃ i chunk, chunks[i]? = some chunk ∧ c = job.body prim (offset + i) chunk := by
  rw [bodies, List.mem_mapIdx]
  constructor
  · rintro ⟨i, hi, rfl⟩
    exact ⟨i, _, List.getElem?_eq_getElem hi, rfl⟩
  · rintro ⟨i, chunk, hchunk, rfl⟩
    obtain ⟨hi, rfl⟩ := List.getElem?_eq_some_iff.mp hchunk
    exact ⟨i, hi, rfl⟩

theorem mem_calls {call : SealCall} :
    call ∈ job.calls ↔ ∃ i chunk, job.chunks[i]? = some chunk ∧ call = job.call i chunk := by
  rw [calls, List.mem_mapIdx]
  constructor
  · rintro ⟨i, hi, rfl⟩
    exact ⟨i, _, List.getElem?_eq_getElem hi, rfl⟩
  · rintro ⟨i, chunk, hchunk, rfl⟩
    obtain ⟨hi, rfl⟩ := List.getElem?_eq_some_iff.mp hchunk
    exact ⟨i, hi, rfl⟩

end Job

/-- After these bodies were accepted. -/
def Uploading.post (u : Uploading) (bodies : List ChunkBody) : Uploading :=
  { u with posted := u.posted ++ bodies, globalChunkIndex := u.globalChunkIndex + bodies.length }

section upload

variable {prim : CryptoPrimitives} {answer : List ChunkBody → ChunkBody → Outcome Unit} {job : Job}
  {label : String} {fileBytes : Bytes} {u u' : Uploading}

theorem encryptChunk_eq (h : job.Importable) (i : ℕ) (chunk : Bytes) :
    encryptChunk prim chunk job.fileKey (chunkAad job.secretId (index i)) (job.ivs i) =
      .ok (.obj [(lit "iv", .str (toB64 (job.ivs i).bytes)),
        (lit "ciphertext", .str (toB64 (job.ciphertext prim i chunk)))]) := by
  have hlayer : (job.call i chunk).layer = .chunk := rfl
  obtain ⟨-, -, -, -, hrun⟩ := SealCall.gcm_chunk hlayer (Job.gcm_call prim h i chunk)
  exact hrun

theorem importable_of_encryptChunk {chunk : Bytes} {aad : Text} {iv : Iv} {sealed : Value}
    (h : encryptChunk prim chunk job.fileKey aad iv = .ok sealed) : job.Importable := by
  obtain ⟨_, -, h⟩ := bind_eq_ok.mp h
  obtain ⟨key, hkey, -⟩ := bind_eq_ok.mp h
  exact Job.importable_of_ok hkey

theorem uploadChunk_eq (h : job.Importable) (i : ℕ) :
    uploadChunk prim answer job label fileBytes u i =
      ((answer u.posted (job.body prim u.globalChunkIndex (slice fileBytes i))).get fun _ errText =>
        s!"Chunk {u.globalChunkIndex} upload failed{label}: {errText}").map fun _ =>
      u.post [job.body prim u.globalChunkIndex (slice fileBytes i)] := by
  have hmap : ∀ (x : Except String Unit) (v : Uploading), (x >>= fun _ => .ok v) = x.map fun _ => v := by
    intro x v
    cases x <;> rfl
  rw [uploadChunk, encryptChunk_eq h, ok_bind]
  exact hmap _ _

theorem uploadChunk_ok {i : ℕ} (h : uploadChunk prim answer job label fileBytes u i = .ok u') :
    job.Importable ∧ u' = u.post [job.body prim u.globalChunkIndex (slice fileBytes i)] := by
  obtain ⟨sealed, hsealed, -⟩ := bind_eq_ok.mp h
  have himport := importable_of_encryptChunk hsealed
  rw [uploadChunk_eq himport] at h
  obtain ⟨_, -, rfl⟩ := map_eq_ok.mp h
  exact ⟨himport, rfl⟩

/-- What the loop over some chunks of a file posts. -/
theorem uploadChunks_ok {is : List ℕ} (h : is.foldlM (uploadChunk prim answer job label fileBytes) u = .ok u') :
    u' = u.post (job.bodies prim u.globalChunkIndex (is.map (slice fileBytes))) ∧ (is ≠ [] → job.Importable) := by
  induction is generalizing u with
  | nil =>
    cases h
    refine ⟨?_, fun hne => absurd rfl hne⟩
    simp [Uploading.post, Job.bodies]
  | cons i is ih =>
    rw [List.foldlM_cons] at h
    obtain ⟨v, hv, h⟩ := bind_eq_ok.mp h
    obtain ⟨himport, rfl⟩ := uploadChunk_ok hv
    refine ⟨?_, fun _ => himport⟩
    rw [(ih h).1, List.map_cons, Job.bodies_cons]
    simp only [Uploading.post, List.length_cons, List.length_nil, Nat.zero_add, List.append_assoc,
      List.singleton_append, Nat.add_assoc, Nat.add_comm 1]

/-- The entries of successive files. -/
def metasFrom : ℕ → List File → List FileMeta
  | _, [] => []
  | offset, file :: files =>
    ⟨file.name, mimeTypeOf file.type, chunkCount file.bytes.length, file.size, offset⟩ ::
      metasFrom (offset + chunkCount file.bytes.length) files

/-- What the loop over some files posts and notes. -/
theorem uploadFiles_ok {files : List File} (h : files.foldlM (uploadFile prim answer job) u = .ok u') :
    u' = { u.post (job.bodies prim u.globalChunkIndex (files.flatMap fun file => slices file.bytes)) with
      fileMetas := u.fileMetas ++ metasFrom u.globalChunkIndex files } ∧
      ((files.flatMap fun file => slices file.bytes) ≠ [] → job.Importable) := by
  induction files generalizing u with
  | nil =>
    cases h
    refine ⟨?_, fun hne => absurd rfl hne⟩
    simp [Uploading.post, Job.bodies, metasFrom]
  | cons file files ih =>
    rw [List.foldlM_cons] at h
    obtain ⟨v, hv, h⟩ := bind_eq_ok.mp h
    obtain ⟨rfl, himport⟩ := uploadChunks_ok hv
    obtain ⟨rfl, himports⟩ := ih h
    constructor
    · simp only [Uploading.post, List.flatMap_cons, Job.bodies_append, Job.length_bodies, List.length_append,
        List.append_assoc, metasFrom, Nat.add_assoc, List.singleton_append, slices, List.length_map,
        List.length_range]
    · intro hne
      by_cases hrange : List.range (chunkCount file.bytes.length) = []
      · refine himports fun hnil => hne ?_
        rw [List.flatMap_cons, hnil, slices, hrange]
        rfl
      · exact himport hrange

theorem upload_ok {posted : List ChunkBody} {manifest : Manifest}
    (h : uploadMultipleChunkedFiles prim answer job = .ok (posted, manifest)) :
    posted = job.bodies prim 0 job.chunks ∧ manifest.files = metasFrom 0 job.files ∧
      manifest.totalChunks = job.chunks.length ∧ (job.chunks ≠ [] → job.Importable) := by
  obtain ⟨u, hu, h⟩ := bind_eq_ok.mp h
  cases h
  obtain ⟨rfl, himport⟩ := uploadFiles_ok hu
  refine ⟨List.nil_append _, List.nil_append _, ?_, himport⟩
  rw [Job.chunks, List.length_flatMap]
  exact congrArg List.sum (List.map_congr_left fun file _ => by rw [length_slices, file.size_eq])

/-- A server that takes every chunk. -/
theorem exists_upload (h : job.Importable) (hanswer : ∀ stored c, answer stored c = .ok ()) :
    ∃ posted manifest, uploadMultipleChunkedFiles prim answer job = .ok (posted, manifest) := by
  have hchunk : ∀ (label : String) (fileBytes : Bytes) (u : Uploading),
      ∀ i ∈ List.range (chunkCount fileBytes.length),
        ∃ u', uploadChunk prim answer job label fileBytes u i = .ok u' := by
    intro label fileBytes u i _
    refine ⟨u.post [job.body prim u.globalChunkIndex (slice fileBytes i)], ?_⟩
    rw [uploadChunk_eq h, hanswer]
    rfl
  have hfile : ∀ u, ∀ file ∈ job.files, ∃ u', uploadFile prim answer job u file = .ok u' := fun u file _ =>
    foldlM_isOk (hchunk _ file.bytes) _
  obtain ⟨u, hu⟩ := foldlM_isOk hfile ⟨[], 0, []⟩
  exact ⟨_, _, bind_eq_ok.mpr ⟨u, hu, rfl⟩⟩

end upload

/-! ## Ranges -/

/-- The numbers of the chunks of a file. -/
def FileMeta.range (entry : FileMeta) : List ℕ := List.range' entry.chunkOffset entry.totalChunks

theorem flatMap_range (offset : ℕ) (files : List File) : (metasFrom offset files).flatMap FileMeta.range =
    List.range' offset (files.flatMap fun file => slices file.bytes).length := by
  induction files generalizing offset with
  | nil => rfl
  | cons file files ih =>
    rw [metasFrom, List.flatMap_cons, ih, List.flatMap_cons, List.length_append, length_slices,
      ← List.range'_append_1]
    rfl

/-- The entry of a file: its chunks stand at the numbers from its offset on. -/
structure Describes (chunks : List Bytes) (file : File) (entry : FileMeta) : Prop where
  totalChunks : entry.totalChunks = chunkCount file.bytes.length
  mimeType : mimeTypeOf entry.mimeType = mimeTypeOf file.type
  chunk : ∀ i < entry.totalChunks, chunks[entry.chunkOffset + i]? = some (slice file.bytes i)

theorem getElem?_slices {fileBytes : Bytes} {i : ℕ} (h : i < chunkCount fileBytes.length) :
    (slices fileBytes)[i]? = some (slice fileBytes i) := by
  rw [slices, List.getElem?_map, List.getElem?_range h]
  rfl

theorem mimeTypeOf_mimeTypeOf (type : Text) : mimeTypeOf (mimeTypeOf type) = mimeTypeOf type := by
  unfold mimeTypeOf
  split <;> rfl

theorem describes_metasFrom (before : List Bytes) (files : List File) :
    List.Forall₂ (Describes (before ++ files.flatMap fun file => slices file.bytes)) files
      (metasFrom before.length files) := by
  induction files generalizing before with
  | nil => exact .nil
  | cons file files ih =>
    rw [List.flatMap_cons, ← List.append_assoc]
    refine .cons ⟨rfl, mimeTypeOf_mimeTypeOf _, fun i hi => ?_⟩ ?_
    · rw [List.append_assoc, List.getElem?_append_right (Nat.le_add_right ..), Nat.add_sub_cancel_left,
        List.getElem?_append_left (hi.trans_eq (length_slices _).symm), getElem?_slices hi]
    · have hrest := ih (before ++ slices file.bytes)
      rw [List.length_append, length_slices] at hrest
      exact hrest

/-! ## What a server can return -/

theorem not_mem_encode_index (i : ℕ) : (10 : UInt8) ∉ (index i).encode := by
  have hdigit : ∀ n < 10, (10 : UInt8) ∉ Point.bytes (.char (Char.ofNat (48 + n))) := by decide
  intro hmem
  obtain ⟨p, hp, hmem⟩ := List.mem_flatMap.mp hmem
  obtain ⟨c, hc, rfl⟩ := List.mem_map.mp hp
  have hdigits : (toString i).toList = Nat.toDigits 10 i := Nat.toList_repr
  rw [hdigits] at hc
  have hc := Nat.isDigit_of_mem_toDigits (by decide) (by decide) hc
  simp only [Char.isDigit, Bool.and_eq_true, decide_eq_true_eq, UInt32.le_iff_toNat_le] at hc
  have hlow : 48 ≤ c.toNat := hc.1
  have hhigh : c.toNat ≤ 57 := hc.2
  have hchar : Char.ofNat (48 + (c.toNat - 48)) = c := by
    rw [Nat.add_sub_cancel' hlow, Char.ofNat_toNat]
  refine hdigit (c.toNat - 48) (by omega) ?_
  rw [hchar]
  exact hmem

theorem index_inj {i j : ℕ} (h : (index i).encode = (index j).encode) : i = j := by
  have hwell : ∀ n : ℕ, (index n).isWellFormed = true := fun n => List.all_eq_true.mpr fun p hp => by
    obtain ⟨c, -, rfl⟩ := List.mem_map.mp hp
    rfl
  have hdigits : ∀ n : ℕ, index n = (Nat.toDigits 10 n).map .char := fun n =>
    congrArg (List.map Point.char) (Nat.toList_repr (n := n))
  have hindex := encode_inj (hwell i) (hwell j) h
  rw [hdigits, hdigits] at hindex
  have hlist := List.map_injective_iff.mpr (fun _ _ hc => Point.char.inj hc) hindex
  rw [← Nat.ofDigitChars_ten_toDigits (n := i), hlist, Nat.ofDigitChars_ten_toDigits]

/-- The associated data determines the bytes of the id, and the number. -/
theorem encode_chunkAad_inj {s t : Text} {i j : ℕ}
    (h : (chunkAad s (index i)).encode = (chunkAad t (index j)).encode) : s.encode = t.encode ∧ i = j := by
  have hnewline : ∀ (s : Text) (i : ℕ), (chunkAad s (index i)).encode =
      Text.encode (lit "Kryptolog/chunk/v1\nsecret=") ++
        (s.encode ++ 10 :: (Text.encode (lit "index=") ++ (index i).encode)) := by
    intro s i
    rw [chunkAad, List.append_assoc, List.append_assoc, Envelopes.encode_append, Envelopes.encode_append,
      Envelopes.encode_append]
    rfl
  have hnot : ∀ i : ℕ, (10 : UInt8) ∉ Text.encode (lit "index=") ++ (index i).encode := fun i hmem =>
    (List.mem_append.mp hmem).elim (by decide) (not_mem_encode_index i)
  rw [hnewline, hnewline] at h
  obtain ⟨hid, hindex⟩ := Delimited.append_cons_inj_last (hnot i) (hnot j) (List.append_cancel_left h)
  exact ⟨hid, index_inj (List.append_cancel_left hindex)⟩

/-- AES-GCM opens what the calls sealed. -/
def Opens (prim : CryptoPrimitives) (calls : List SealCall) : Prop :=
  ∀ call ∈ calls, ∀ kem gcm, call.gcm prim = .ok (kem, gcm) →
    prim.gcmEncrypt gcm.key gcm.iv gcm.aad gcm.text ≠ [] ∧
      prim.gcmDecrypt gcm.key gcm.iv gcm.aad (prim.gcmEncrypt gcm.key gcm.iv gcm.aad gcm.text) = some gcm.text

/-- The chunks among the calls are those of the uploads, and no two of these have one key and one id: every secret
has a key of its own. -/
structure Uploads (calls : List SealCall) (jobs : List Job) : Prop where
  chunks : ∀ call ∈ calls, call.layer = .chunk → ∃ job ∈ jobs, call ∈ job.calls
  distinct : ∀ job ∈ jobs, ∀ job' ∈ jobs, job.Importable → job'.Importable → job.key = job'.key →
    job.secretId.encode = job'.secretId.encode → job = job'

/-- The chunks that were posted are stored, and no other under the id and the number of a stored one:
`uq_file_chunk_secret_index`. -/
structure Keeps (stored posted : List ChunkBody) : Prop where
  holds : ∀ c ∈ posted, c ∈ stored
  unique : (stored.map fun c => (c.secretId, c.chunkIndex)).Nodup

section download

variable {prim : CryptoPrimitives} {job : Job} {stored posted : List ChunkBody} {calls : List SealCall}
  {jobs : List Job} {serve : ℕ → Outcome ChunkData} {i : ℕ} {chunk text : Bytes}

theorem decryptChunk_data (h : Opens prim job.calls) (himport : job.Importable)
    (hchunk : job.chunks[i]? = some chunk) : decryptChunk prim (job.data prim i chunk).iv
      (job.data prim i chunk).encryptedData job.fileKey (chunkAad job.secretId (index i)) = .ok chunk := by
  have hcall : job.call i chunk ∈ job.calls := Job.mem_calls.mpr ⟨i, chunk, hchunk, rfl⟩
  obtain ⟨hne, hopen⟩ := h _ hcall none _ (Job.gcm_call prim himport i chunk)
  have haad : Envelopes.aadBytes (chunkAad job.secretId (index i)) "decryptChunk" =
      .ok (chunkAad job.secretId (index i)).encode := rfl
  have hiv : fromB64 (job.data prim i chunk).iv = .ok (job.ivs i).bytes := fromB64_toB64 (job.ivs i).ne_nil
  have hdata : fromB64 (job.data prim i chunk).encryptedData = .ok (job.ciphertext prim i chunk) :=
    fromB64_toB64 hne
  have hopen : prim.gcmDecrypt job.key (job.ivs i).bytes (chunkAad job.secretId (index i)).encode
      (job.ciphertext prim i chunk) = some chunk := hopen
  rw [decryptChunk, haad, ok_bind, himport, ok_bind, hiv, ok_bind, hdata, ok_bind, Envelopes.subtleDecrypt, hopen]
  rfl

theorem honest_eq (h : Keeps stored posted) {c : ChunkBody} (hc : c ∈ posted) :
    honest stored c.secretId c.chunkIndex = .ok ⟨c.iv, c.encryptedData⟩ := by
  have hstored := h.holds c hc
  unfold honest
  cases hfind : stored.find? fun d => d.secretId == c.secretId && d.chunkIndex == c.chunkIndex with
  | none =>
    have hnone := List.find?_eq_none.mp hfind c hstored
    simp at hnone
  | some d =>
    have hplace := List.find?_some hfind
    rw [Bool.and_eq_true, beq_iff_eq, beq_iff_eq] at hplace
    rw [List.inj_on_of_nodup_map h.unique (List.mem_of_find?_eq_some hfind) hstored
      (Prod.ext hplace.1 hplace.2)]

/-- What opens at a place was sealed there. -/
theorem opened_chunk (hideal : Ideal prim calls) (h : Uploads calls jobs) {iv data : Option Value}
    {keyHex secretId : Text}
    (hopen : decryptChunk prim iv data keyHex (chunkAad secretId (index i)) = .ok text) :
    ∃ job ∈ jobs, job.Importable ∧ importAesKey keyHex = .ok job.key ∧
      job.secretId.encode = secretId.encode ∧ job.chunks[i]? = some text ∧
      (⟨iv, data⟩ : ChunkData) = job.data prim i text := by
  obtain ⟨key, nonce, sealed, ⟨rfl, rfl⟩, hkey, hopen⟩ := Envelopes.decryptChunk_eq_ok hopen
  have haad : Layer.chunk.HasAad (chunkAad secretId (index i)).encode := ⟨secretId, index i, rfl⟩
  obtain ⟨rfl, call, hcall, hlayer, kem, hgcm⟩ := hideal.sealed haad hopen
  obtain ⟨job, hjob, hmem⟩ := h.chunks call hcall hlayer
  obtain ⟨j, chunk, hchunk, rfl⟩ := Job.mem_calls.mp hmem
  obtain ⟨used, hused, hcalled⟩ := bind_eq_ok.mp hgcm
  have himport := Job.importable_of_ok hused
  rw [Job.gcm_call prim himport] at hgcm
  obtain ⟨-, hgcm⟩ := Prod.mk.inj (Except.ok.inj hgcm)
  obtain ⟨rfl, rfl, haad, rfl⟩ := GcmCall.mk.inj hgcm
  obtain ⟨hid, rfl⟩ := encode_chunkAad_inj haad
  refine ⟨job, hjob, himport, hkey, hid, hchunk, ?_⟩
  rw [Job.data, Job.ciphertext, haad]

/-- A chunk that is returned is the one that was posted, and is what the server answers. -/
theorem downloadChunk_ok (hideal : Ideal prim calls) (h : Uploads calls jobs) (hjob : job ∈ jobs)
    (himport : job.Importable)
    (hdownload : downloadChunk prim serve job.secretId job.fileKey i = .ok text) :
    job.chunks[i]? = some text ∧ serve i = .ok (job.data prim i text) := by
  obtain ⟨chunkData, hget, hopen⟩ := bind_eq_ok.mp hdownload
  obtain ⟨job', hjob', himport', hkey, hid, hchunk, hdata⟩ := opened_chunk hideal h hopen
  obtain rfl := h.distinct job hjob job' hjob' himport himport' (Except.ok.inj (himport.symm.trans hkey)) hid.symm
  refine ⟨hchunk, ?_⟩
  rw [← hdata]
  cases hserve : serve i with
  | ok answer =>
    rw [hserve] at hget
    rw [Except.ok.inj hget]
  | refused | failed =>
    rw [hserve] at hget
    cases hget

/-- A range that comes back, chunk by chunk. -/
theorem downloadFileByRange_ok {secretId fileKey mimeType : Text} {chunkOffset totalChunks : ℕ} {blob : Blob}
    (h : downloadFileByRange prim serve secretId fileKey chunkOffset totalChunks mimeType = .ok blob) :
    ∃ texts, (∀ i < totalChunks, ∃ text, downloadChunk prim serve secretId fileKey (chunkOffset + i) = .ok text) ∧
      List.Forall₂ (fun i text => downloadChunk prim serve secretId fileKey (chunkOffset + i) = .ok text)
        (List.range totalChunks) texts ∧ blob = ⟨texts.flatten, mimeTypeOf mimeType⟩ := by
  obtain ⟨texts, htexts, hblob⟩ := bind_eq_ok.mp h
  exact ⟨texts, fun i hi => mapM_isOk.mp ⟨texts, htexts⟩ i (List.mem_range.mpr hi), mapM_eq_ok.mp htexts,
    (Except.ok.inj hblob).symm⟩

/-- An honest server gives a file back. -/
theorem download_honest (hopens : Opens prim job.calls) (himport : job.chunks ≠ [] → job.Importable)
    (h : Keeps stored (job.bodies prim 0 job.chunks)) {file : File} {entry : FileMeta}
    (hentry : Describes job.chunks file entry) :
    downloadFileByRange prim (honest stored job.secretId) job.secretId job.fileKey entry.chunkOffset
      entry.totalChunks entry.mimeType = .ok ⟨file.bytes, mimeTypeOf file.type⟩ := by
  have hchunks : ((List.range entry.totalChunks).mapM fun i => downloadChunk prim (honest stored job.secretId)
      job.secretId job.fileKey (entry.chunkOffset + i)) = .ok (slices file.bytes) := by
    rw [mapM_eq_ok, slices, hentry.totalChunks, List.forall₂_map_right_iff, List.forall₂_same]
    intro i hi
    have hchunk := hentry.chunk i (hentry.totalChunks ▸ List.mem_range.mp hi)
    have hbody : job.body prim (entry.chunkOffset + i) (slice file.bytes i) ∈ job.bodies prim 0 job.chunks :=
      (Job.mem_bodies prim).mpr ⟨_, _, hchunk, by rw [Nat.zero_add]⟩
    have himport := himport fun hnil => by
      rw [hnil] at hchunk
      cases hchunk
    have hserve : honest stored job.secretId (entry.chunkOffset + i) =
        .ok (job.data prim (entry.chunkOffset + i) (slice file.bytes i)) := honest_eq h hbody
    rw [downloadChunk, hserve]
    exact decryptChunk_data hopens himport hchunk
  rw [downloadFileByRange, hchunks, ok_bind, flatten_slices, hentry.mimeType]

/-- Whatever a server answers, what comes back is the file, and every number is answered with what was posted. -/
theorem download_any (hideal : Ideal prim calls) (h : Uploads calls jobs) (hjob : job ∈ jobs)
    (himport : job.chunks ≠ [] → job.Importable) {file : File} {entry : FileMeta}
    (hentry : Describes job.chunks file entry) {blob : Blob}
    (hdownload : downloadFileByRange prim serve job.secretId job.fileKey entry.chunkOffset entry.totalChunks
      entry.mimeType = .ok blob) :
    blob = ⟨file.bytes, mimeTypeOf file.type⟩ ∧ ∀ c ∈ job.bodies prim 0 job.chunks, c.chunkIndex ∈ entry.range →
      serve c.chunkIndex = .ok ⟨c.iv, c.encryptedData⟩ := by
  obtain ⟨texts, hall, hreturned, rfl⟩ := downloadFileByRange_ok hdownload
  have hstep : ∀ i < entry.totalChunks, ∀ text,
      downloadChunk prim serve job.secretId job.fileKey (entry.chunkOffset + i) = .ok text →
      text = slice file.bytes i ∧
        serve (entry.chunkOffset + i) = .ok (job.data prim (entry.chunkOffset + i) (slice file.bytes i)) := by
    intro i hi text htext
    have hchunk := hentry.chunk i hi
    have himport := himport fun hnil => by
      rw [hnil] at hchunk
      cases hchunk
    obtain ⟨hposted, hserve⟩ := downloadChunk_ok hideal h hjob himport htext
    obtain rfl := Option.some.inj (hposted.symm.trans hchunk)
    exact ⟨rfl, hserve⟩
  constructor
  · have htexts : slices file.bytes = texts := by
      rw [slices, ← hentry.totalChunks, ← List.forall₂_eq_eq_eq, List.forall₂_map_left_iff]
      refine List.forall₂_iff_get.mpr ⟨hreturned.length_eq, fun i hi hi' => ?_⟩
      have htext := (List.forall₂_iff_get.mp hreturned).2 i hi hi'
      rw [List.get_eq_getElem, List.getElem_range] at htext ⊢
      rw [List.length_range] at hi
      exact (hstep i hi _ htext).1.symm
    rw [← htexts, flatten_slices, hentry.mimeType]
  · intro c hc hrange
    obtain ⟨j, chunk, hchunk, rfl⟩ := (Job.mem_bodies prim).mp hc
    obtain ⟨i, hi, hj⟩ := List.mem_range'.mp hrange
    rw [Nat.one_mul] at hj
    have hj : 0 + j = entry.chunkOffset + i := hj
    rw [Nat.zero_add] at hj
    subst hj
    obtain ⟨text, htext⟩ := hall i hi
    obtain ⟨-, hserve⟩ := hstep i hi text htext
    obtain rfl := Option.some.inj (hchunk.symm.trans (hentry.chunk i hi))
    rw [Job.body, Nat.zero_add]
    exact hserve

end download

/-- The numbers of the files are apart, and cover what was posted. -/
structure Tiles (secretId : Text) (posted : List ChunkBody) (manifest : Manifest) : Prop where
  disjoint : manifest.files.Pairwise fun entry entry' => entry.range.Disjoint entry'.range
  covers : manifest.files.flatMap FileMeta.range = posted.map ChunkBody.chunkIndex
  once : (posted.map ChunkBody.chunkIndex).Nodup
  totalChunks : manifest.totalChunks = posted.length
  secretId : ∀ c ∈ posted, c.secretId = secretId

theorem tiles_of_upload {prim : CryptoPrimitives} {answer : List ChunkBody → ChunkBody → Outcome Unit} {job : Job}
    {posted : List ChunkBody} {manifest : Manifest}
    (h : uploadMultipleChunkedFiles prim answer job = .ok (posted, manifest)) :
    Tiles job.secretId posted manifest := by
  obtain ⟨rfl, hfiles, htotal, -⟩ := upload_ok h
  have hcovers : manifest.files.flatMap FileMeta.range =
      (job.bodies prim 0 job.chunks).map ChunkBody.chunkIndex := by
    rw [hfiles, flatMap_range, Job.map_chunkIndex_bodies]
    rfl
  have honce : ((job.bodies prim 0 job.chunks).map ChunkBody.chunkIndex).Nodup := by
    rw [Job.map_chunkIndex_bodies]
    exact List.nodup_range'
  refine ⟨(List.nodup_flatMap.mp (hcovers ▸ honce)).2, hcovers, honce, ?_, ?_⟩
  · rw [htotal, Job.length_bodies]
  · intro c hc
    obtain ⟨i, chunk, -, rfl⟩ := (Job.mem_bodies prim).mp hc
    rfl

/-- The download of a file by its entry in the manifest. -/
def downloadEntry (prim : CryptoPrimitives) (serve : ℕ → Outcome ChunkData) (secretId fileKey : Text)
    (entry : FileMeta) : Except String Blob :=
  downloadFileByRange prim serve secretId fileKey entry.chunkOffset entry.totalChunks entry.mimeType

/-- Files of any sizes come back from a server that stores their chunks, which have disjoint ranges of numbers.
With ideal AES-GCM nothing but the file comes back from any server, and only where every number of its range is
answered with what was posted under it; under an id that the key was never used with, nothing comes back. -/
theorem chunked_files_round_trip {prim : CryptoPrimitives} {job : Job} :
    (job.Importable → ∀ answer, (∀ stored c, answer stored c = .ok ()) →
      ∃ posted manifest, uploadMultipleChunkedFiles prim answer job = .ok (posted, manifest)) ∧
    ∀ answer posted manifest, uploadMultipleChunkedFiles prim answer job = .ok (posted, manifest) →
      Tiles job.secretId posted manifest ∧
      (Opens prim job.calls → ∀ stored, Keeps stored posted → List.Forall₂ (fun file entry =>
        downloadEntry prim (honest stored job.secretId) job.secretId job.fileKey entry =
          .ok ⟨file.bytes, mimeTypeOf file.type⟩) job.files manifest.files) ∧
      ∀ calls jobs, Ideal prim calls → Uploads calls jobs → job ∈ jobs → ∀ serve,
        List.Forall₂ (fun file entry => ∀ blob,
          downloadEntry prim serve job.secretId job.fileKey entry = .ok blob →
            blob = ⟨file.bytes, mimeTypeOf file.type⟩ ∧ ∀ c ∈ posted, c.chunkIndex ∈ entry.range →
              serve c.chunkIndex = .ok ⟨c.iv, c.encryptedData⟩) job.files manifest.files ∧
        ∀ secretId, (∀ job' ∈ jobs, job'.Importable → job'.key = job.key → job'.secretId.encode ≠ secretId.encode) →
          ∀ entry ∈ manifest.files, 0 < entry.totalChunks → ∀ blob,
            downloadEntry prim serve secretId job.fileKey entry ≠ .ok blob := by
  refine ⟨fun himport answer hanswer => exists_upload himport hanswer, fun answer posted manifest hupload => ?_⟩
  have htiles := tiles_of_upload hupload
  obtain ⟨rfl, hfiles, -, himport⟩ := upload_ok hupload
  have hentries : List.Forall₂ (Describes job.chunks) job.files manifest.files := by
    rw [hfiles]
    exact describes_metasFrom [] job.files
  refine ⟨htiles, fun hopens stored hstored => ?_, fun calls jobs hideal huploads hjob serve => ⟨?_, ?_⟩⟩
  · exact hentries.imp fun file entry hentry => download_honest hopens himport hstored hentry
  · exact hentries.imp fun file entry hentry blob hblob =>
      download_any hideal huploads hjob himport hentry hblob
  · intro secretId hother entry hentry hpos blob hblob
    obtain ⟨-, hall, -⟩ := downloadFileByRange_ok hblob
    obtain ⟨text, htext⟩ := hall 0 hpos
    obtain ⟨chunkData, -, hopen⟩ := bind_eq_ok.mp htext
    obtain ⟨job', hjob', himport', hkey, hid, -⟩ := opened_chunk hideal huploads hopen
    exact hother job' hjob' himport' (Job.key_eq hkey) hid

/-- A single file comes back by the number of its chunks. -/
theorem single_file_round_trip {prim : CryptoPrimitives} {job : Job} {file : File} (hfiles : job.files = [file])
    {answer : List ChunkBody → ChunkBody → Outcome Unit} {posted : List ChunkBody} {totalChunks totalSize size : ℕ}
    (hupload : uploadChunkedFile prim answer job file = .ok (posted, totalChunks, totalSize, size)) :
    (Opens prim job.calls → ∀ stored, Keeps stored posted →
      downloadChunkedFile prim (honest stored job.secretId) job.secretId job.fileKey totalChunks file.type =
        .ok ⟨file.bytes, mimeTypeOf file.type⟩) ∧
    ∀ calls jobs, Ideal prim calls → Uploads calls jobs → job ∈ jobs → ∀ serve blob,
      downloadChunkedFile prim serve job.secretId job.fileKey totalChunks file.type = .ok blob →
        blob = ⟨file.bytes, mimeTypeOf file.type⟩ ∧
          ∀ c ∈ posted, serve c.chunkIndex = .ok ⟨c.iv, c.encryptedData⟩ := by
  obtain ⟨u, hu, hupload⟩ := bind_eq_ok.mp hupload
  obtain ⟨rfl, hrest⟩ := Prod.mk.inj (Except.ok.inj hupload)
  obtain ⟨rfl, -⟩ := Prod.mk.inj hrest
  obtain ⟨rfl, himport⟩ := uploadChunks_ok hu
  have hchunks : job.chunks = slices file.bytes := by
    rw [Job.chunks, hfiles, List.flatMap_singleton]
  have himport : job.chunks ≠ [] → job.Importable := fun hne => himport fun hnil => hne (by
    rw [hchunks, slices, hnil]
    rfl)
  have hposted : (Uploading.post ⟨[], 0, []⟩ (job.bodies prim 0
      ((List.range (chunkCount file.bytes.length)).map (slice file.bytes)))).posted =
      job.bodies prim 0 job.chunks := by
    rw [hchunks]
    exact List.nil_append _
  have hentry : Describes job.chunks file
      ⟨file.name, file.type, chunkCount file.bytes.length, file.size, 0⟩ := by
    refine ⟨rfl, rfl, fun i hi => ?_⟩
    rw [hchunks, Nat.zero_add]
    exact getElem?_slices hi
  have hrange : ∀ c ∈ job.bodies prim 0 job.chunks, c.chunkIndex ∈
      FileMeta.range ⟨file.name, file.type, chunkCount file.bytes.length, file.size, 0⟩ := by
    intro c hc
    have hindex := List.mem_map_of_mem (f := ChunkBody.chunkIndex) hc
    rw [Job.map_chunkIndex_bodies, hchunks, length_slices] at hindex
    exact hindex
  rw [hposted]
  constructor
  · intro hopens stored hstored
    have hdownload := download_honest hopens himport hstored hentry
    exact hdownload
  · intro calls jobs hideal huploads hjob serve blob hblob
    rw [downloadChunkedFile] at hblob
    have hreturned := download_any hideal huploads hjob himport hentry hblob
    exact ⟨hreturned.1, fun c hc => hreturned.2 c hc (hrange c hc)⟩

/-! ### Primitives that open what an upload sealed -/

/-- With a tag of one byte. -/
def openingOf (job : Job) : CryptoPrimitives where
  gcmEncrypt _ _ _ text := text ++ [0]
  gcmDecrypt key iv aad sealed :=
    ((job.chunks.mapIdx job.gcm).find? fun gcm =>
      gcm.key == key && gcm.iv == iv && gcm.aad == aad && gcm.text ++ [0] == sealed).map GcmCall.text
  publicKey _ := .error "OperationError"
  encapsulate _ _ := .error "OperationError"
  decapsulate _ _ := .error "OperationError"
  sha384 _ := []

theorem gcmDecrypt_openingOf {job : Job} {key iv aad sealed text : Bytes}
    (h : (openingOf job).gcmDecrypt key iv aad sealed = some text) :
    sealed = text ++ [0] ∧ ∃ i, job.chunks[i]? = some text ∧ job.gcm i text = ⟨key, iv, aad, text⟩ := by
  obtain ⟨gcm, hfind, rfl⟩ := Option.map_eq_some_iff.mp h
  have hsame := List.find?_some hfind
  simp only [Bool.and_eq_true, beq_iff_eq] at hsame
  obtain ⟨⟨⟨rfl, rfl⟩, rfl⟩, rfl⟩ := hsame
  obtain ⟨i, hi, rfl⟩ := List.mem_mapIdx.mp (List.mem_of_find?_eq_some hfind)
  exact ⟨rfl, i, List.getElem?_eq_getElem hi, rfl⟩

theorem ideal_openingOf {job : Job} (himport : job.Importable) : Ideal (openingOf job) job.calls where
  opens key iv aad sealed text hopen := by
    obtain ⟨rfl, i, hchunk, hgcm⟩ := gcmDecrypt_openingOf hopen
    refine ⟨rfl, job.call i text, Job.mem_calls.mpr ⟨i, text, hchunk, rfl⟩, none, ?_⟩
    rw [Job.gcm_call _ himport, hgcm]
  decapsulates call hcall cipherText gcm hgcm := by
    obtain ⟨i, chunk, -, rfl⟩ := Job.mem_calls.mp hcall
    rw [Job.gcm_call _ himport] at hgcm
    cases hgcm

theorem opens_openingOf {job : Job} (himport : job.Importable) : Opens (openingOf job) job.calls := by
  intro call hcall kem gcm hgcm
  obtain ⟨i, chunk, hchunk, rfl⟩ := Job.mem_calls.mp hcall
  rw [Job.gcm_call _ himport] at hgcm
  cases hgcm
  refine ⟨List.append_ne_nil_of_right_ne_nil _ (List.cons_ne_nil _ _), ?_⟩
  have hmem : job.gcm i chunk ∈ job.chunks.mapIdx job.gcm := by
    obtain ⟨hi, rfl⟩ := List.getElem?_eq_some_iff.mp hchunk
    exact List.mem_mapIdx.mpr ⟨i, hi, rfl⟩
  change (((job.chunks.mapIdx job.gcm).find? fun gcm => gcm.key == (job.gcm i chunk).key &&
    gcm.iv == (job.gcm i chunk).iv && gcm.aad == (job.gcm i chunk).aad && gcm.text ++ [0] == chunk ++ [0]).map
      GcmCall.text) = some chunk
  cases hfind : (job.chunks.mapIdx job.gcm).find? fun gcm => gcm.key == (job.gcm i chunk).key &&
      gcm.iv == (job.gcm i chunk).iv && gcm.aad == (job.gcm i chunk).aad && gcm.text ++ [0] == chunk ++ [0] with
  | none =>
    have hnone := List.find?_eq_none.mp hfind _ hmem
    simp [Job.gcm] at hnone
  | some gcm =>
    have hsame := List.find?_some hfind
    rw [Bool.and_eq_true, beq_iff_eq] at hsame
    exact congrArg some (List.append_cancel_right hsame.2)

def sampleFile (name : String) (bytes : Bytes) : File := ⟨lit name, [], bytes.length, bytes, rfl⟩

/-- An empty file between two others. -/
def sampleJob : Job where
  secretId := lit "7"
  fileKey := toHex (List.replicate 32 0)
  files := [sampleFile "a.txt" [1, 2, 3], sampleFile "b.txt" [], sampleFile "c.txt" [4, 5]]
  ivs _ := ⟨List.replicate 12 0, rfl⟩

theorem importable_sampleJob : sampleJob.Importable := by
  have hne : List.replicate 32 (0 : UInt8) ≠ [] := by decide
  have hbytes : fromHex sampleJob.fileKey = .ok (List.replicate 32 0) := fromHex_toHex hne
  have hkey : importAesKey sampleJob.fileKey = .ok (List.replicate 32 0) := by
    rw [importAesKey, hbytes]
    rfl
  exact Job.importable_of_ok hkey

theorem uploads_sampleJob : Uploads sampleJob.calls [sampleJob] where
  chunks _ hcall _ := ⟨sampleJob, List.mem_singleton_self _, hcall⟩
  distinct _ hjob _ hjob' _ _ _ _ := (List.mem_singleton.mp hjob).trans (List.mem_singleton.mp hjob').symm

/-- The files come back, and nothing else does. -/
theorem chunked_files_round_trip_sample : ∃ posted manifest,
    uploadMultipleChunkedFiles (openingOf sampleJob) (fun _ _ => .ok ()) sampleJob = .ok (posted, manifest) ∧
    List.Forall₂ (fun file entry =>
      downloadEntry (openingOf sampleJob) (honest posted (lit "7")) (lit "7") sampleJob.fileKey entry =
        .ok ⟨file.bytes, mimeTypeOf file.type⟩) sampleJob.files manifest.files ∧
    ∀ serve, List.Forall₂ (fun file entry => ∀ blob,
      downloadEntry (openingOf sampleJob) serve (lit "7") sampleJob.fileKey entry = .ok blob →
        blob.bytes = file.bytes) sampleJob.files manifest.files := by
  have hround := @chunked_files_round_trip (openingOf sampleJob) sampleJob
  obtain ⟨posted, manifest, hupload⟩ := hround.1 importable_sampleJob (fun _ _ => .ok ()) fun _ _ => rfl
  obtain ⟨htiles, hhonest, hany⟩ := hround.2 _ posted manifest hupload
  have hkeeps : Keeps posted posted := by
    refine ⟨fun c hc => hc, ?_⟩
    have honce := htiles.once
    rw [show ChunkBody.chunkIndex = Prod.snd ∘ fun c : ChunkBody => (c.secretId, c.chunkIndex) from rfl,
      ← List.map_map] at honce
    exact honce.of_map _
  refine ⟨posted, manifest, hupload, hhonest (opens_openingOf importable_sampleJob) posted hkeeps, fun serve => ?_⟩
  obtain ⟨hfiles, -⟩ := hany _ [sampleJob] (ideal_openingOf importable_sampleJob) uploads_sampleJob
    (List.mem_singleton_self _) serve
  exact hfiles.imp fun file entry h blob hblob => congrArg Blob.bytes (h blob hblob).1

end Kryptolog.Client.FileChunks
