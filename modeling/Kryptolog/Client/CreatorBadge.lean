import Kryptolog.Client.DecryptedContent
import Kryptolog.Library.Fallible

/-! # What the creator's signature covers

A page that reports a document as verified has checked the signature of the text. What it shows beside that
verdict is the text after a round through `JSON.parse`, or files whose bytes come from the chunks of the
secret.
-/

namespace Kryptolog.Client
set_option autoImplicit false

open Script Fallible

/-- What is shown is the signed text, or files with the digests of their descriptors. -/
def Shown.IsCovered (env : Viewer) (signed : Text) : Shown → Prop
  | .text t => t = signed
  | .files fs => ∀ f ∈ fs, f.descriptor.get "file_hash" = some (.str (env.sha384HexOfFile f.bytes))
  | .links _ => False

/-- What the page shows of a document that it reports as verified is covered by the signature. -/
def BadgeCovers (env : Viewer) (ownerAddress : Text) (chunks : ChunkSet) (contentString : Text) : Prop :=
  ∀ r signed, env.interpretDecryptedContent ownerAddress chunks contentString = some r →
    r.verificationStatus = .verified → memberText r.creatorSignedContent = some signed →
      (decryptedContentPanel r.decryptedContent).IsCovered env signed

/-- The content string is a document that the owner of the workflow signed, with the text `signed`. -/
structure IsOwnersDocument (env : Viewer) (ownerAddress contentString : Text) (content : Option Value)
    (signed : Text) (document signature : Value) (key : Text) : Prop where
  parsed : env.parse contentString = some document
  contentMember : document.get "content" = content
  text : memberText content = some signed
  signatureMember : document.get "signature" = some signature
  truthy : signature.truthy = true
  signer : document.get "signerPublicKey" = some (.str key)
  named : key ≠ []
  owner : ownerAddress ≠ []
  address : env.addressOf key = some (toLowerCase ownerAddress)
  valid : env.verifyIdentitySignature (toLowerCase ownerAddress) key
    (domainSeparate SigningContext.content.text signed) signature = true

/-- The chunks at a range are the pieces of a file. -/
def ChunkSet.HasFile (env : Viewer) (chunks : ChunkSet) (chunkOffset totalChunks : Option Value)
    (bytes : List UInt8) : Prop :=
  ∃ parts : List (List UInt8), parts.length = env.numbersBelow totalChunks ∧
    (∀ i, ∀ h : i < parts.length, chunks (env.chunkIndex chunkOffset i) = some parts[i]) ∧ parts.flatten = bytes

/-- The descriptor of a list names the digest of the file that lies at its range. -/
def ChunkSet.Matches (env : Viewer) (chunks : ChunkSet) (descriptor : Value) : Prop :=
  descriptor ≠ .null ∧ ∃ bytes,
    chunks.HasFile env (descriptor.get "chunk_offset") (descriptor.get "total_chunks") bytes ∧
      descriptor.get "file_hash" = some (.str (env.sha384HexOfFile bytes))

/-- A value shows as the text where it does not pass for files, and is the text or is printed so. A value that
is no condition shows as no text. -/
def IsPrintedAs (t : Text) : Option Value → Prop
  | some v => if v.truthy then isFileShaped v = false ∧ valueText v = t else t = []
  | none => t = []

/-- How a signed text can be shown for what it is. -/
inductive ShowsSigned (env : Viewer) (chunks : ChunkSet) (content : Option Value) (signed : Text) : Prop
  /-- It is no JSON text, or is `null`. -/
  | text (hparse : env.parse signed = none ∨ env.parse signed = some .null) (h : IsPrintedAs signed content)
  /-- It is written as the value that it parses to is printed, and describes no files. -/
  | value (inner : Value) (hparse : env.parse signed = some inner) (hne : inner ≠ .null)
      (hfiles : ∀ ds, inner.get "files" ≠ some (.arr ds))
      (hfile : ¬ (present (inner.get "total_chunks") = true ∧ present (inner.get "file_name") = true))
      (h : IsPrintedAs signed (some inner))
  /-- It lists files, and the chunks of each are those of its digest. -/
  | files (inner : Value) (ds : List Value) (hparse : env.parse signed = some inner)
      (hfiles : inner.get "files" = some (.arr ds)) (h : ∀ d ∈ ds, chunks.Matches env d)
  /-- It describes a file, and the chunks are those of its digest. -/
  | file (inner : Value) (bytes : List UInt8) (hparse : env.parse signed = some inner)
      (hfiles : ∀ ds, inner.get "files" ≠ some (.arr ds)) (htotal : present (inner.get "total_chunks") = true)
      (hname : present (inner.get "file_name") = true)
      (hbytes : chunks.HasFile env (some (.num Number.zero)) (inner.get "total_chunks") bytes)
      (h : inner.get "file_hash" = some (.str (env.sha384HexOfFile bytes)))
  /-- It lists files of which one cannot be had, and is written as its value is printed. -/
  | undeliveredList (inner : Value) (ds : List Value) (d : Value) (hparse : env.parse signed = some inner)
      (hfiles : inner.get "files" = some (.arr ds)) (hd : d ∈ ds)
      (hmissing : d = .null ∨ ∀ bytes, ¬ chunks.HasFile env (d.get "chunk_offset") (d.get "total_chunks") bytes)
      (h : IsPrintedAs signed (some inner))
  /-- It describes a file that cannot be had, and is written as its value is printed. -/
  | undelivered (inner : Value) (hparse : env.parse signed = some inner)
      (hfiles : ∀ ds, inner.get "files" ≠ some (.arr ds)) (htotal : present (inner.get "total_chunks") = true)
      (hname : present (inner.get "file_name") = true)
      (hmissing : ∀ bytes, ¬ chunks.HasFile env (some (.num Number.zero)) (inner.get "total_chunks") bytes)
      (h : IsPrintedAs signed (some inner))

section badge

variable {env : Viewer} {ownerAddress contentString signed : Text} {chunks : ChunkSet} {content : Option Value}

/-! ### The panel -/

/-- A value is covered where it is printed as the text. -/
theorem isCovered_value (v : Option Value) :
    (decryptedContentPanel (.value v)).IsCovered env signed ↔ IsPrintedAs signed v := by
  cases v with
  | none => exact eq_comm
  | some v =>
    simp only [decryptedContentPanel, IsPrintedAs]
    cases htruthy : v.truthy with
    | false => simp [Shown.IsCovered, eq_comm]
    | true => cases hfile : isFileShaped v <;> simp [Shown.IsCovered]

/-! ### Downloads -/

theorem downloadFileByRange_eq_some {chunkOffset totalChunks : Option Value} {bytes : List UInt8} :
    env.downloadFileByRange chunks chunkOffset totalChunks = some bytes ↔
      chunks.HasFile env chunkOffset totalChunks bytes := by
  simp only [Viewer.downloadFileByRange, Option.map_eq_some_iff, ChunkSet.HasFile]
  refine exists_congr fun parts => ?_
  rw [mapM_eq_some, List.forall₂_iff_get]
  simp only [List.length_range, List.get_eq_getElem, List.getElem_range, @eq_comm ℕ parts.length]
  constructor
  · rintro ⟨⟨hlen, hparts⟩, hbytes⟩
    exact ⟨hlen, fun i h => hparts i (hlen ▸ h) h, hbytes⟩
  · rintro ⟨hlen, hparts, hbytes⟩
    exact ⟨⟨hlen, fun i _ h => hparts i h⟩, hbytes⟩

theorem downloadListed_eq_some {d : Value} {f : ShownFile} : env.downloadListed chunks d = some f ↔
    d ≠ .null ∧ ∃ bytes, chunks.HasFile env (d.get "chunk_offset") (d.get "total_chunks") bytes ∧
      ⟨d, bytes⟩ = f := by
  cases d with
  | null => simp [Viewer.downloadListed]
  | _ => simp [Viewer.downloadListed, downloadFileByRange_eq_some]

theorem downloadListed_eq_none {d : Value} : env.downloadListed chunks d = none ↔
    d = .null ∨ ∀ bytes, ¬ chunks.HasFile env (d.get "chunk_offset") (d.get "total_chunks") bytes := by
  rw [Option.eq_none_iff_forall_not_mem]
  constructor
  · intro h
    by_cases hd : d = .null
    · exact .inl hd
    · exact .inr fun bytes hfile => h ⟨d, bytes⟩ (downloadListed_eq_some.mpr ⟨hd, bytes, hfile, rfl⟩)
  · rintro h f hf
    obtain ⟨hd, bytes, hfile, -⟩ := downloadListed_eq_some.mp hf
    exact h.elim hd fun hno => hno bytes hfile

theorem matches_iff {d : Value} : chunks.Matches env d ↔ ∃ f, env.downloadListed chunks d = some f ∧
    f.descriptor.get "file_hash" = some (.str (env.sha384HexOfFile f.bytes)) := by
  constructor
  · rintro ⟨hd, bytes, hfile, hhash⟩
    exact ⟨⟨d, bytes⟩, downloadListed_eq_some.mpr ⟨hd, bytes, hfile, rfl⟩, hhash⟩
  · rintro ⟨f, hf, hhash⟩
    obtain ⟨hd, bytes, hfile, rfl⟩ := downloadListed_eq_some.mp hf
    exact ⟨hd, bytes, hfile, hhash⟩

/-! ### What a signed text stands for -/

theorem resolve_text (htext : memberText content = some signed)
    (hparse : env.parse signed = none ∨ env.parse signed = some .null) :
    env.resolve chunks content = .value content := by
  rw [Viewer.resolve, htext, Option.bind_some]
  rcases hparse with hparse | hparse <;> rw [hparse]

theorem resolve_list {inner : Value} {ds : List Value} (htext : memberText content = some signed)
    (hparse : env.parse signed = some inner) (hfiles : inner.get "files" = some (.arr ds)) :
    env.resolve chunks content =
      ((ds.mapM (env.downloadListed chunks)).map Content.files).getD (.value (some inner)) := by
  rw [Viewer.resolve, htext, Option.bind_some, hparse]
  cases inner with
  | obj fields =>
    simp only [hfiles]
    cases ds.mapM (env.downloadListed chunks) <;> rfl
  | _ => cases hfiles

theorem resolve_single {inner : Value} (htext : memberText content = some signed)
    (hparse : env.parse signed = some inner) (hne : inner ≠ .null)
    (hfiles : ∀ ds, inner.get "files" ≠ some (.arr ds)) :
    env.resolve chunks content =
      if present (inner.get "total_chunks") && present (inner.get "file_name") then
        ((env.downloadChunkedFile chunks (inner.get "total_chunks")).map fun bytes =>
          Content.file ⟨inner, bytes⟩).getD (.value (some inner))
      else .value (some inner) := by
  rw [Viewer.resolve, htext, Option.bind_some, hparse]
  split
  · next h => cases h
  · next h => exact absurd (Option.some.inj h) hne
  · next h =>
    obtain rfl := Option.some.inj h
    split
    · next ds hds => exact absurd hds (hfiles ds)
    · cases env.downloadChunkedFile chunks (inner.get "total_chunks") <;> rfl

theorem isCovered_list {inner : Value} {ds : List Value} (htext : memberText content = some signed)
    (hparse : env.parse signed = some inner) (hfiles : inner.get "files" = some (.arr ds)) :
    (decryptedContentPanel (env.resolve chunks content)).IsCovered env signed ↔
      (∀ d ∈ ds, chunks.Matches env d) ∨ (∃ d ∈ ds, d = .null ∨ ∀ bytes,
        ¬ chunks.HasFile env (d.get "chunk_offset") (d.get "total_chunks") bytes) ∧
          IsPrintedAs signed (some inner) := by
  have hmatches : (∀ d ∈ ds, chunks.Matches env d) ↔ ∃ fs, ds.mapM (env.downloadListed chunks) = some fs ∧
      ∀ f ∈ fs, f.descriptor.get "file_hash" = some (.str (env.sha384HexOfFile f.bytes)) := by
    rw [exists_mapM_forall]
    exact forall₂_congr fun d _ => matches_iff
  have hmissing : (∃ d ∈ ds, d = .null ∨ ∀ bytes,
      ¬ chunks.HasFile env (d.get "chunk_offset") (d.get "total_chunks") bytes) ↔
        ds.mapM (env.downloadListed chunks) = none := by
    rw [mapM_eq_none]
    exact exists_congr fun d => and_congr_right fun _ => downloadListed_eq_none.symm
  rw [resolve_list htext hparse hfiles, hmatches, hmissing]
  cases ds.mapM (env.downloadListed chunks) with
  | none => simpa using isCovered_value (some inner)
  | some fs => simp [decryptedContentPanel, Shown.IsCovered]

theorem isCovered_file {inner : Value} (htext : memberText content = some signed)
    (hparse : env.parse signed = some inner) (hne : inner ≠ .null)
    (hfiles : ∀ ds, inner.get "files" ≠ some (.arr ds)) (htotal : present (inner.get "total_chunks") = true)
    (hname : present (inner.get "file_name") = true) :
    (decryptedContentPanel (env.resolve chunks content)).IsCovered env signed ↔
      (∃ bytes, chunks.HasFile env (some (.num Number.zero)) (inner.get "total_chunks") bytes ∧
        inner.get "file_hash" = some (.str (env.sha384HexOfFile bytes))) ∨
      (∀ bytes, ¬ chunks.HasFile env (some (.num Number.zero)) (inner.get "total_chunks") bytes) ∧
        IsPrintedAs signed (some inner) := by
  have hdownload : ∀ bytes, chunks.HasFile env (some (.num Number.zero)) (inner.get "total_chunks") bytes ↔
      env.downloadChunkedFile chunks (inner.get "total_chunks") = some bytes := fun bytes =>
    downloadFileByRange_eq_some.symm
  rw [resolve_single htext hparse hne hfiles, htotal, hname]
  simp only [hdownload, Bool.and_self, if_true]
  cases env.downloadChunkedFile chunks (inner.get "total_chunks") with
  | none => simpa using isCovered_value (some inner)
  | some bytes => simp [decryptedContentPanel, Shown.IsCovered]

/-- What the panel shows of a signed text is covered where the text shows as what it is. -/
theorem isCovered_resolve (htext : memberText content = some signed) :
    (decryptedContentPanel (env.resolve chunks content)).IsCovered env signed ↔
      ShowsSigned env chunks content signed := by
  constructor
  · intro h
    by_cases hplain : env.parse signed = none ∨ env.parse signed = some .null
    · rw [resolve_text htext hplain] at h
      exact .text hplain ((isCovered_value content).mp h)
    · obtain ⟨inner, hparse⟩ := Option.ne_none_iff_exists'.mp fun hnone => hplain (.inl hnone)
      have hne : inner ≠ .null := fun hnull => hplain (.inr (hnull ▸ hparse))
      by_cases hlist : ∃ ds, inner.get "files" = some (.arr ds)
      · obtain ⟨ds, hfiles⟩ := hlist
        rcases (isCovered_list htext hparse hfiles).mp h with hall | ⟨⟨d, hd, hmissing⟩, hprinted⟩
        · exact .files inner ds hparse hfiles hall
        · exact .undeliveredList inner ds d hparse hfiles hd hmissing hprinted
      · have hfiles : ∀ ds, inner.get "files" ≠ some (.arr ds) := fun ds hds => hlist ⟨ds, hds⟩
        by_cases hfile : present (inner.get "total_chunks") = true ∧ present (inner.get "file_name") = true
        · rcases (isCovered_file htext hparse hne hfiles hfile.1 hfile.2).mp h with
            ⟨bytes, hbytes, hhash⟩ | ⟨hmissing, hprinted⟩
          · exact .file inner bytes hparse hfiles hfile.1 hfile.2 hbytes hhash
          · exact .undelivered inner hparse hfiles hfile.1 hfile.2 hmissing hprinted
        · rw [resolve_single htext hparse hne hfiles, if_neg (by simpa using hfile)] at h
          exact .value inner hparse hne hfiles hfile ((isCovered_value _).mp h)
  · intro h
    have hnotnull : ∀ {inner : Value}, present (inner.get "total_chunks") = true → inner ≠ .null := by
      rintro _ htotal rfl
      cases htotal
    cases h with
    | text hparse h =>
      rw [resolve_text htext hparse]
      exact (isCovered_value content).mpr h
    | value inner hparse hne hfiles hfile h =>
      rw [resolve_single htext hparse hne hfiles, if_neg (by simpa using hfile)]
      exact (isCovered_value _).mpr h
    | files inner ds hparse hfiles h => exact (isCovered_list htext hparse hfiles).mpr (.inl h)
    | file inner bytes hparse hfiles htotal hname hbytes h =>
      exact (isCovered_file htext hparse (hnotnull htotal) hfiles htotal hname).mpr (.inl ⟨bytes, hbytes, h⟩)
    | undeliveredList inner ds d hparse hfiles hd hmissing h =>
      exact (isCovered_list htext hparse hfiles).mpr (.inr ⟨⟨d, hd, hmissing⟩, h⟩)
    | undelivered inner hparse hfiles htotal hname hmissing h =>
      exact (isCovered_file htext hparse (hnotnull htotal) hfiles htotal hname).mpr (.inr ⟨hmissing, h⟩)

/-! ### The verdict -/

theorem verifySignedDocument_valid {signature signerPublicKey : Value} {address : Option Text} :
    env.verifySignedDocument content signature signerPublicKey = some (true, address) ↔
      ∃ key text named, signerPublicKey = .str key ∧ memberText content = some text ∧
        env.addressOf key = some named ∧ address = some named ∧
          env.verifyIdentitySignature named key (domainSeparate SigningContext.content.text text) signature =
            true := by
  cases signerPublicKey with
  | str key =>
    rw [Viewer.verifySignedDocument]
    cases haddress : env.addressOf key with
    | none =>
      constructor
      · intro h
        cases h
      · rintro ⟨_, text, named, heq, -, hnamed, -⟩
        obtain rfl := Value.str.inj heq
        rw [haddress] at hnamed
        cases hnamed
    | some named =>
      simp only [Option.map_eq_some_iff, Prod.mk.injEq]
      constructor
      · rintro ⟨text, htext, hvalid, rfl⟩
        exact ⟨key, text, named, rfl, htext, haddress, rfl, hvalid⟩
      · rintro ⟨_, text, _, heq, htext, hnamed, rfl, hvalid⟩
        obtain rfl := Value.str.inj heq
        obtain rfl := Option.some.inj (haddress.symm.trans hnamed)
        exact ⟨text, htext, hvalid, rfl⟩
  | _ => simp [Viewer.verifySignedDocument]

/-- The members of a document, where it has them. -/
theorem member_eq_some {document : Option Value} {name : String} {v : Value} :
    (document.bind (·.get name)).filter Value.truthy = some v ↔
      ∃ d, document = some d ∧ d.get name = some v ∧ v.truthy = true := by
  rw [Option.filter_eq_some_iff, Option.bind_eq_some_iff]
  constructor
  · rintro ⟨⟨d, hd, hv⟩, htruthy⟩
    exact ⟨d, hd, hv, htruthy⟩
  · rintro ⟨d, hd, hv, htruthy⟩
    exact ⟨⟨d, hd, hv⟩, htruthy⟩

/-- A document is reported as verified where its owner signed it. -/
theorem verified_iff {r : Interpretation} :
    (env.interpretDecryptedContent ownerAddress chunks contentString = some r ∧ r.verificationStatus = .verified ∧
      memberText r.creatorSignedContent = some signed) ↔
    ∃ content document signature key,
      IsOwnersDocument env ownerAddress contentString content signed document signature key ∧
        r = ⟨.verified, some signature, content, contentString, env.resolve chunks content⟩ := by
  rw [Viewer.interpretDecryptedContent]
  constructor
  · rintro ⟨hr, hverified, htext⟩
    split at hr
    · next signature signerPublicKey hsignature hsigner =>
      obtain ⟨document, hparsed, hsignature, htruthy⟩ := member_eq_some.mp hsignature
      obtain ⟨_, hparsed', hsigner, hkey⟩ := member_eq_some.mp hsigner
      obtain rfl := Option.some.inj (hparsed.symm.trans hparsed')
      rw [Option.bind_eq_bind, Option.bind_eq_some_iff] at hr
      obtain ⟨⟨isValid, address⟩, hverify, hr⟩ := hr
      obtain rfl := Option.some.inj hr
      cases isValid with
      | false => cases hverified
      | true =>
        obtain ⟨key, text, named, rfl, htext', haddress, rfl, hvalid⟩ := verifySignedDocument_valid.mp hverify
        obtain rfl : signed = text := Option.some.inj (htext.symm.trans htext')
        by_cases howner : (!ownerAddress.isEmpty && some named == some (toLowerCase ownerAddress)) = true
        · obtain ⟨hne, hnamed⟩ := Bool.and_eq_true_iff.mp howner
          obtain rfl : named = toLowerCase ownerAddress := by simpa using hnamed
          refine ⟨_, document, signature, key, ⟨hparsed, ?_, htext, hsignature, htruthy, hsigner, ?_, ?_,
            haddress, hvalid⟩, ?_⟩
          · rw [hparsed, Option.bind_some]
          · simpa [Value.truthy] using hkey
          · simpa using hne
          · simp only [howner]
            rfl
        · exact absurd (by simpa using hverified) howner
    · obtain rfl := Option.some.inj hr
      cases hverified
  · rintro ⟨content, document, signature, key, h, rfl⟩
    refine ⟨?_, rfl, h.text⟩
    have hsignature := member_eq_some.mpr ⟨document, h.parsed, h.signatureMember, h.truthy⟩
    have hsigner := member_eq_some.mpr ⟨document, h.parsed, h.signer, by simpa [Value.truthy] using h.named⟩
    have hcontent : (env.parse contentString).bind (·.get "content") = content := by
      rw [h.parsed, Option.bind_some, h.contentMember]
    have hverify := verifySignedDocument_valid.mpr ⟨key, signed, _, rfl, h.text, h.address, rfl, h.valid⟩
    simp [hsignature, hsigner, hcontent, hverify, h.owner]

end badge

/-- What a page shows of a document that it reports as verified is covered by the signature exactly where the
signed text shows as what it is. -/
theorem badge_covers_iff (env : Viewer) (ownerAddress : Text) (chunks : ChunkSet) (contentString : Text) :
    BadgeCovers env ownerAddress chunks contentString ↔
      ∀ content signed document signature key,
        IsOwnersDocument env ownerAddress contentString content signed document signature key →
          ShowsSigned env chunks content signed := by
  constructor
  · intro h content signed document signature key hdocument
    obtain ⟨hr, hverified, htext⟩ := verified_iff.mpr ⟨content, document, signature, key, hdocument, rfl⟩
    exact (isCovered_resolve hdocument.text).mp (h _ signed hr hverified htext)
  · intro h r signed hr hverified htext
    obtain ⟨content, document, signature, key, hdocument, rfl⟩ := verified_iff.mp ⟨hr, hverified, htext⟩
    exact (isCovered_resolve hdocument.text).mpr (h content signed document signature key hdocument)

/-! ## A file with another chunk -/

section sample

def sampleOwner : Text := List.replicate 96 (.char 'a')

/-- The descriptor of a file of one chunk whose digest is that of the byte 0. -/
def sampleDescriptor : Value :=
  .obj [(lit "file_name", .str (lit "f")), (lit "mime_type", .str (lit "m")),
    (lit "total_chunks", .num ⟨['1'], rfl, rfl⟩), (lit "total_size", .num ⟨['1'], rfl, rfl⟩),
    (lit "file_hash", .str [.char 'A'])]

/-- The descriptor, signed by the owner. -/
def sampleSigned : Value :=
  .obj [(lit "content", .str ((spell sampleDescriptor).map .char)), (lit "signature", .str (lit "signature")),
    (lit "signerPublicKey", .str sampleOwner)]

/-- The number that a value is, where it is a count. -/
def countOf : Option Value → Option ℕ
  | some (.num n) => if n.isCount then some (Number.digitsValue n.spelling) else none
  | _ => none

/-- A key is its own address, every signature verifies, and the digest of bytes counts them from `A` on. -/
def sampleViewer : Viewer where
  parseJson _ := none
  sha384Hex text := text
  addressOf key := some key
  verifySignature _ _ _ := true
  identityKeyFor address := some address
  parse text :=
    if text = (spell sampleSigned).map .char then some sampleSigned
    else if text = (spell sampleDescriptor).map .char then some sampleDescriptor
    else none
  sha384HexOfFile bytes := bytes.map fun b => .char (Char.ofNat (65 + b.toNat))
  numbersBelow v := (countOf v).getD 0
  chunkIndex offset i := lit (((countOf offset).map fun n => toString (n + i)).getD "NaN")

/-- The server serves the byte 1 as the first chunk. -/
def sampleChunks : ChunkSet := fun index => if index = lit "0" then some [1] else none

theorem parse_sampleSigned : sampleViewer.parse ((spell sampleSigned).map .char) = some sampleSigned := by
  simp only [sampleViewer, if_true]

theorem parse_sampleDescriptor :
    sampleViewer.parse ((spell sampleDescriptor).map .char) = some sampleDescriptor := by
  have hne : (spell sampleDescriptor).map Point.char ≠ (spell sampleSigned).map .char := by decide +kernel
  simp only [sampleViewer, if_neg hne, if_true]

theorem isOwnersDocument_sample : IsOwnersDocument sampleViewer sampleOwner ((spell sampleSigned).map .char)
    (some (.str ((spell sampleDescriptor).map .char))) ((spell sampleDescriptor).map .char) sampleSigned
    (.str (lit "signature")) sampleOwner where
  parsed := parse_sampleSigned
  contentMember := rfl
  text := rfl
  signatureMember := rfl
  truthy := rfl
  signer := rfl
  named := by decide
  owner := by decide
  address := by decide +kernel
  valid := by decide +kernel

/-- A page that reports the file as verified shows the byte of the server. -/
theorem not_badge_covers : ¬ ∀ (env : Viewer) (ownerAddress : Text) (chunks : ChunkSet) (contentString : Text),
    BadgeCovers env ownerAddress chunks contentString := by
  intro h
  have hdocument := isOwnersDocument_sample
  obtain ⟨hr, hverified, htext⟩ := (@verified_iff _ _ _ _ sampleChunks _).mpr ⟨_, _, _, _, hdocument, rfl⟩
  have hcovered := h _ _ sampleChunks _ _ _ hr hverified htext
  have hfiles : ∀ ds, sampleDescriptor.get "files" ≠ some (.arr ds) := fun ds hds => by cases hds
  have hdownload :
      sampleViewer.downloadChunkedFile sampleChunks (sampleDescriptor.get "total_chunks") = some [1] := by
    decide +kernel
  have hne : sampleDescriptor ≠ .null := fun hnull => by cases hnull
  rw [resolve_single hdocument.text parse_sampleDescriptor hne hfiles, hdownload] at hcovered
  have hhash := hcovered _ (List.mem_singleton_self _)
  cases hhash

end sample

end Kryptolog.Client
