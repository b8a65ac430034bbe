import Kryptolog.Client.CreatorBadge

/-! # Links to files

What the page of a secret (`secretContent.js`, `SecretContentPane.jsx`, `SecretItem.jsx`) and the panel of a
workflow link to, for a text that was decrypted. Both take a value for files by its shape, and the text is
the choice of whoever made the secret. Only the page of a secret asks where a link leads.
-/

namespace Kryptolog.Client
set_option autoImplicit false

open Script Fallible

/-! ## The page -/

/-- A page in the browser. -/
structure Page extends Viewer where
  /-- `window.location.origin`. -/
  origin : Text
  /-- What `URL.createObjectURL` writes behind the origin. -/
  blobName : List UInt8 → Text

/-- What the links to blobs of this page begin with. -/
def Page.blobPrefix (page : Page) : Text := lit "blob:" ++ page.origin ++ [.char '/']

/-- `URL.createObjectURL`. -/
def Page.createObjectURL (page : Page) (bytes : List UInt8) : Text := page.blobPrefix ++ page.blobName bytes

/-- `isLocalBlobUrl`, on a member that may be absent. -/
def Page.isLocalBlobUrl (page : Page) : Option Value → Bool
  | some (.str url) => page.blobPrefix.isPrefixOf url
  | _ => false

mutual

/-- What React writes for a value between two tags. Nothing stands for `null` and the Booleans, and it throws
at an object. -/
def childText : Value → Option Text
  | .null | .bool _ => some []
  | .num n => some n.text
  | .str s => some s
  | .arr items => childTexts items
  | .obj _ => none

def childTexts : List Value → Option Text
  | [] => some []
  | v :: vs => do some ((← childText v) ++ (← childTexts vs))

end

/-- React writes a member that may be absent. -/
def isChild (v : Option Value) : Bool := v.all fun v => (childText v).isSome

/-- What a reader puts on the page. -/
inductive Display
  | text (t : Text)
  /-- Files, by the values that their links are given. -/
  | files (links : List (Option Value))
  /-- The component throws, or an error stands in the place of the content. -/
  | broken

/-- Every link leads to a blob of this page, and what has no links is a text. -/
def Display.IsSafe (page : Page) : Display → Prop
  | .text _ => True
  | .files links => ∀ link ∈ links, page.isLocalBlobUrl link = true
  | .broken => False

/-! ## The page of a secret -/

/-- `parsed.type === kind`. -/
def hasType (kind : String) (parsed : Value) : Bool :=
  match parsed.get "type" with
  | some (.str s) => s == lit kind
  | _ => false

/-- `JSON.stringify` of an object: a member that is `undefined` is left out. -/
def stringifyObject (fields : List (String × Option Value)) : Text :=
  (spell (.obj (fields.filterMap fun f => f.2.map fun v => (lit f.1, v)))).map .char

/-- The descriptor of the files of a document that were downloaded. -/
def fileUrlsText (fileUrls : List Value) : Text :=
  stringifyObject [("type", some (.str (lit "files"))), ("items", some (.arr fileUrls))]

/-- The descriptor of the file of a document that was downloaded. -/
def fileUrlText (fileUrl fileMeta : Value) : Text :=
  stringifyObject [("type", some (.str (lit "file"))), ("name", fileMeta.get "file_name"),
    ("mime", fileMeta.get "mime_type"), ("content", some fileUrl), ("size", fileMeta.get "total_size")]

/-- `unwrapSignedDocument`, of a document. -/
def documentContent (parsed : Value) : Value :=
  match parsed.get "fileUrls" with
  | some (.arr fileUrls) => .str (fileUrlsText fileUrls)
  | _ =>
    match (parsed.get "fileUrl").filter Value.truthy, (parsed.get "fileMeta").filter Value.truthy with
    | some fileUrl, some fileMeta => .str (fileUrlText fileUrl fileMeta)
    | _, _ => (parsed.get "content").getD .null

/-- What `unwrapSignedDocument` returns. -/
structure Unwrapped where
  content : Value
  isSignedDoc : Bool
  signedPayload : Option Value

def isSignedDocument (parsed : Value) : Bool :=
  present (parsed.get "signature") && present (parsed.get "signerPublicKey") && present (parsed.get "content")

/-- `unwrapSignedDocument`. -/
def Page.unwrapSignedDocument (page : Page) (decryptedContent : Text) : Unwrapped :=
  match (page.parse decryptedContent).filter isSignedDocument with
  | none => ⟨.str decryptedContent, false, none⟩
  | some parsed => ⟨documentContent parsed, true, some parsed⟩

/-- What `readFileDescriptor` returns. The object for a single file has the members of the descriptor. -/
structure FileDescriptor where
  multiple : Bool
  files : List Value

/-- `JSON.parse` of what need not be a text. -/
def Page.parseValue (page : Page) (content : Value) : Option Value := content.toText.bind page.parse

/-- `readFileDescriptor`, of what was parsed. -/
def Page.describedFiles (page : Page) (parsed : Value) : Option FileDescriptor :=
  if hasType "files" parsed then
    match parsed.get "items" with
    | some (.arr items) =>
      if items.all fun f => page.isLocalBlobUrl (f.get "content") then some ⟨true, items⟩ else none
    | _ => none
  else if hasType "file" parsed && page.isLocalBlobUrl (parsed.get "content") then some ⟨false, [parsed]⟩
  else none

/-- `readFileDescriptor`. -/
def Page.readFileDescriptor (page : Page) (content : Value) : Option FileDescriptor :=
  if content.truthy then (page.parseValue content).bind page.describedFiles else none

/-- `handleDownload`: where the button of a single file leads. -/
def Page.handleDownload (page : Page) (content : Value) : Option Value :=
  (page.parseValue content).bind fun fileData =>
    if hasType "file" fileData then fileData.get "content" else none

/-- The pane writes the name of a file, asks its type for a prefix, and formats its size. -/
def isListed (file : Value) : Bool :=
  isChild (file.get "name") &&
    (match (file.get "mime").filter Value.truthy with
      | none | some (.str _) => true
      | some _ => false) &&
    (((file.get "size").filter Value.truthy).all fun size => size.toText.isSome)

/-- `SecretContentPane`. -/
def Page.secretContentPane (page : Page) (content : Value) : Display :=
  match page.readFileDescriptor content with
  | none => ((childText content).map Display.text).getD .broken
  | some descriptor =>
    if !descriptor.files.all isListed then .broken
    else if descriptor.multiple then .files (descriptor.files.map (·.get "content"))
    else .files [page.handleDownload content]

/-- What the page of a secret shows of the decrypted text. -/
def Page.secretReader (page : Page) (decryptedContent : Text) : Display :=
  page.secretContentPane (page.unwrapSignedDocument decryptedContent).content

/-! ## The page of a workflow -/

/-- The panel writes the name and the type of a file. -/
def isPanelItem (name mime : String) (item : Value) : Bool := isChild (item.get name) && isChild (item.get mime)

/-- The links of `DecryptedContentPanel`. A value without `map` throws, and so does the entry `null`. -/
def Page.panelLinks (page : Page) : Shown → Display
  | .text t => .text t
  | .files fs =>
    if fs.all fun f => isPanelItem "file_name" "mime_type" f.descriptor then
      .files (fs.map fun f => some (.str (page.createObjectURL f.bytes)))
    else .broken
  | .links v =>
    if hasType "files" v then
      match v.get "items" with
      | some (.arr items) =>
        if items.all fun item => !isNullish item && isPanelItem "name" "mime" item then
          .files (items.map (·.get "content"))
        else .broken
      | _ => .broken
    else if isPanelItem "name" "mime" v then .files [v.get "content"]
    else .broken

/-- What the page of a workflow shows of the decrypted text. Where the interpretation throws, it is an error
message. -/
def Page.workflowReader (page : Page) (ownerAddress : Text) (chunks : ChunkSet) (contentString : Text) : Display :=
  match page.interpretDecryptedContent ownerAddress chunks contentString with
  | some result => page.panelLinks (decryptedContentPanel result.decryptedContent)
  | none => .broken

/-! ## Where the readers are right -/

/-- A text describes files with blobs of this page. -/
inductive Page.Describes (page : Page) (content : Value) : List Value → Prop
  | files (parsed : Value) (items : List Value) (htruthy : content.truthy = true)
      (hparse : page.parseValue content = some parsed) (htype : parsed.get "type" = some (.str (lit "files")))
      (hitems : parsed.get "items" = some (.arr items))
      (hlocal : ∀ f ∈ items, page.isLocalBlobUrl (f.get "content") = true) : page.Describes content items
  | file (parsed : Value) (htruthy : content.truthy = true) (hparse : page.parseValue content = some parsed)
      (htype : parsed.get "type" = some (.str (lit "file")))
      (hlocal : page.isLocalBlobUrl (parsed.get "content") = true) : page.Describes content [parsed]

/-- The pane can write the content: the names, types and sizes of its files, or else the content itself. -/
structure Page.CanShow (page : Page) (content : Value) : Prop where
  listed : ∀ files, page.Describes content files → ∀ f ∈ files, isListed f = true
  written : (∀ files, ¬ page.Describes content files) → isChild (some content) = true

/-- The pane can write the content of a signed document. -/
inductive Page.CanShowDocument (page : Page) (parsed : Value) : Prop
  | fileUrls (fileUrls : List Value) (hurls : parsed.get "fileUrls" = some (.arr fileUrls))
      (h : page.CanShow (.str (fileUrlsText fileUrls)))
  | fileUrl (fileUrl fileMeta : Value) (hurls : ∀ urls, parsed.get "fileUrls" ≠ some (.arr urls))
      (hurl : parsed.get "fileUrl" = some fileUrl) (hurlTruthy : fileUrl.truthy = true)
      (hmeta : parsed.get "fileMeta" = some fileMeta) (hmetaTruthy : fileMeta.truthy = true)
      (h : page.CanShow (.str (fileUrlText fileUrl fileMeta)))
  | content (content : Value) (hurls : ∀ urls, parsed.get "fileUrls" ≠ some (.arr urls))
      (hurl : ¬ (present (parsed.get "fileUrl") = true ∧ present (parsed.get "fileMeta") = true))
      (hcontent : parsed.get "content" = some content) (h : page.CanShow content)

/-- The pane can write the text, or what the document in it holds. -/
inductive Page.CanShowSecret (page : Page) (decryptedContent : Text) : Prop
  | plain (hplain : ∀ parsed, page.parse decryptedContent = some parsed → isSignedDocument parsed = false)
      (h : page.CanShow (.str decryptedContent))
  | document (parsed : Value) (hparse : page.parse decryptedContent = some parsed)
      (hdocument : isSignedDocument parsed = true) (h : page.CanShowDocument parsed)

/-- The panel can write an entry, and its link leads to a blob of this page. -/
structure Page.IsOwnItem (page : Page) (item : Value) : Prop where
  isLocal : page.isLocalBlobUrl (item.get "content") = true
  writes : isPanelItem "name" "mime" item = true

/-- Where the value passes for files, they are an array of blobs of this page, or one such blob. -/
structure Page.NamesOwnBlobs (page : Page) (v : Value) : Prop where
  files : isFileShaped v = true → v.get "type" = some (.str (lit "files")) →
    ∃ items, v.get "items" = some (.arr items) ∧ ∀ item ∈ items, page.IsOwnItem item
  file : isFileShaped v = true → v.get "type" = some (.str (lit "file")) → page.IsOwnItem v

/-- What a signed content stands for is a text, names blobs of this page, or is downloaded. -/
inductive Page.ShowsInner (page : Page) (chunks : ChunkSet) (content : Option Value) : Prop
  /-- It is no JSON text, or is `null`. -/
  | text (hparse : (memberText content).bind page.parse = none ∨ (memberText content).bind page.parse = some .null)
      (h : ∀ v, content = some v → page.NamesOwnBlobs v)
  /-- It describes nothing to download. -/
  | value (inner : Value) (hparse : (memberText content).bind page.parse = some inner) (hne : inner ≠ .null)
      (hfiles : ∀ ds, inner.get "files" ≠ some (.arr ds))
      (hfile : ¬ (present (inner.get "total_chunks") = true ∧ present (inner.get "file_name") = true))
      (h : page.NamesOwnBlobs inner)
  /-- It lists files that can be had. -/
  | files (inner : Value) (ds : List Value) (hparse : (memberText content).bind page.parse = some inner)
      (hfiles : inner.get "files" = some (.arr ds))
      (h : ∀ d ∈ ds, d ≠ .null ∧
        (∃ bytes, chunks.HasFile page.toViewer (d.get "chunk_offset") (d.get "total_chunks") bytes) ∧
          isPanelItem "file_name" "mime_type" d = true)
  /-- It describes a file that can be had. -/
  | file (inner : Value) (bytes : List UInt8) (hparse : (memberText content).bind page.parse = some inner)
      (hfiles : ∀ ds, inner.get "files" ≠ some (.arr ds)) (htotal : present (inner.get "total_chunks") = true)
      (hname : present (inner.get "file_name") = true)
      (hbytes : chunks.HasFile page.toViewer (some (.num Number.zero)) (inner.get "total_chunks") bytes)
      (h : isPanelItem "file_name" "mime_type" inner = true)
  /-- It lists files of which one cannot be had. -/
  | undeliveredList (inner : Value) (ds : List Value) (d : Value)
      (hparse : (memberText content).bind page.parse = some inner) (hfiles : inner.get "files" = some (.arr ds))
      (hd : d ∈ ds)
      (hmissing : d = .null ∨
        ∀ bytes, ¬ chunks.HasFile page.toViewer (d.get "chunk_offset") (d.get "total_chunks") bytes)
      (h : page.NamesOwnBlobs inner)
  /-- It describes a file that cannot be had. -/
  | undelivered (inner : Value) (hparse : (memberText content).bind page.parse = some inner)
      (hfiles : ∀ ds, inner.get "files" ≠ some (.arr ds)) (htotal : present (inner.get "total_chunks") = true)
      (hname : present (inner.get "file_name") = true)
      (hmissing : ∀ bytes,
        ¬ chunks.HasFile page.toViewer (some (.num Number.zero)) (inner.get "total_chunks") bytes)
      (h : page.NamesOwnBlobs inner)

/-- The decrypted text of a workflow names no files but blobs of this page. -/
inductive Page.ShowsWorkflow (page : Page) (chunks : ChunkSet) (contentString : Text) : Prop
  | unsigned
      (hunsigned : ∀ parsed, page.parse contentString = some parsed →
        ¬ (present (parsed.get "signature") = true ∧ present (parsed.get "signerPublicKey") = true))
      (h : ∀ parsed, page.parse contentString = some parsed → page.NamesOwnBlobs parsed)
  | signed (parsed : Value) (hparse : page.parse contentString = some parsed)
      (hsignature : present (parsed.get "signature") = true)
      (hsigner : present (parsed.get "signerPublicKey") = true)
      (htext : ∀ key address, parsed.get "signerPublicKey" = some (.str key) → page.addressOf key = some address →
        ∃ text, memberText (parsed.get "content") = some text)
      (h : page.ShowsInner chunks (parsed.get "content"))

section links

variable {page : Page} {chunks : ChunkSet} {content : Option Value}

/-! ### The page of a secret -/

theorem hasType_iff {kind : String} {v : Value} : hasType kind v = true ↔ v.get "type" = some (.str (lit kind)) := by
  rw [hasType]
  split
  · next s hs => simp [hs]
  · next h =>
    constructor
    · intro hfalse
      cases hfalse
    · intro hs
      exact absurd hs (h _)

theorem describedFiles_files {parsed : Value} {items : List Value}
    (htype : parsed.get "type" = some (.str (lit "files"))) (hitems : parsed.get "items" = some (.arr items))
    (hlocal : ∀ f ∈ items, page.isLocalBlobUrl (f.get "content") = true) :
    page.describedFiles parsed = some ⟨true, items⟩ := by
  rw [Page.describedFiles, if_pos (hasType_iff.mpr htype), hitems]
  exact if_pos (List.all_eq_true.mpr hlocal)

theorem describedFiles_file {parsed : Value} (htype : parsed.get "type" = some (.str (lit "file")))
    (hlocal : page.isLocalBlobUrl (parsed.get "content") = true) :
    page.describedFiles parsed = some ⟨false, [parsed]⟩ := by
  have hno : hasType "files" parsed ≠ true := by
    have hkinds : lit "file" ≠ lit "files" := by decide
    simp [hasType_iff, htype, hkinds]
  rw [Page.describedFiles, if_neg hno, hasType_iff.mpr htype, hlocal]
  rfl

/-- What the descriptor lists is described, and the button of a single file leads where it says. -/
theorem describes_of_readFileDescriptor {content : Value} {d : FileDescriptor}
    (h : page.readFileDescriptor content = some d) : page.Describes content d.files ∧
      (d.multiple = true → ∀ f ∈ d.files, page.isLocalBlobUrl (f.get "content") = true) ∧
      (d.multiple = false → page.isLocalBlobUrl (page.handleDownload content) = true) := by
  rw [Page.readFileDescriptor] at h
  split at h
  · next htruthy =>
    obtain ⟨parsed, hparse, h⟩ := Option.bind_eq_some_iff.mp h
    rw [Page.describedFiles] at h
    split at h
    · next hfiles =>
      split at h
      · next items hitems =>
        split at h
        · next hall =>
          obtain rfl := Option.some.inj h
          have hlocal := List.all_eq_true.mp hall
          exact ⟨.files parsed items htruthy hparse (hasType_iff.mp hfiles) hitems hlocal, fun _ => hlocal,
            fun hfalse => Bool.noConfusion hfalse⟩
        · cases h
      · cases h
    · split at h
      · next hfile =>
        obtain rfl := Option.some.inj h
        obtain ⟨htype, hlocal⟩ := Bool.and_eq_true_iff.mp hfile
        refine ⟨.file parsed htruthy hparse (hasType_iff.mp htype) hlocal, fun htrue => Bool.noConfusion htrue,
          fun _ => ?_⟩
        rw [Page.handleDownload, hparse, Option.bind_some, if_pos htype]
        exact hlocal
      · cases h
  · cases h

theorem readFileDescriptor_of_describes {content : Value} {files : List Value} (h : page.Describes content files) :
    ∃ d, page.readFileDescriptor content = some d ∧ d.files = files := by
  cases h with
  | files parsed items htruthy hparse htype hitems hlocal =>
    refine ⟨⟨true, files⟩, ?_, rfl⟩
    rw [Page.readFileDescriptor, if_pos htruthy, hparse]
    exact describedFiles_files htype hitems hlocal
  | file parsed htruthy hparse htype hlocal =>
    refine ⟨⟨false, [parsed]⟩, ?_, rfl⟩
    rw [Page.readFileDescriptor, if_pos htruthy, hparse]
    exact describedFiles_file htype hlocal

/-- Whatever the pane links to is a blob of this page, so only what it cannot write is left. -/
theorem secretContentPane_isSafe {content : Value} :
    (page.secretContentPane content).IsSafe page ↔ page.CanShow content := by
  rw [Page.secretContentPane]
  cases hread : page.readFileDescriptor content with
  | none =>
    have hno : ∀ files, ¬ page.Describes content files := fun files hdescribes => by
      obtain ⟨d, hd, -⟩ := readFileDescriptor_of_describes hdescribes
      rw [hread] at hd
      cases hd
    cases hchild : childText content with
    | none =>
      refine ⟨fun h => h.elim, fun h => ?_⟩
      have hwritten := h.written hno
      rw [isChild, Option.all_some, hchild] at hwritten
      cases hwritten
    | some t =>
      refine ⟨fun _ => ⟨fun files hdescribes => absurd hdescribes (hno files), fun _ => ?_⟩, fun _ => trivial⟩
      rw [isChild, Option.all_some, hchild]
      rfl
  | some d =>
    obtain ⟨hdescribes, hmultiple, hsingle⟩ := describes_of_readFileDescriptor hread
    have hlisted : page.CanShow content ↔ ∀ f ∈ d.files, isListed f = true := by
      refine ⟨fun h => h.listed _ hdescribes, fun h => ⟨fun files hfiles => ?_, fun hno => ?_⟩⟩
      · obtain ⟨d', hd', rfl⟩ := readFileDescriptor_of_describes hfiles
        obtain rfl := Option.some.inj (hread.symm.trans hd')
        exact h
      · exact absurd hdescribes (hno _)
    rw [hlisted, ← List.all_eq_true]
    cases hall : d.files.all isListed with
    | false =>
      simp only [hall, Bool.not_false, if_true, Bool.false_eq_true, iff_false]
      exact id
    | true =>
      simp only [hall, Bool.not_true, Bool.false_eq_true, if_false, iff_true]
      cases hkind : d.multiple with
      | true => exact List.forall_mem_map.mpr (hmultiple hkind)
      | false => exact List.forall_mem_singleton.mpr (hsingle hkind)

/-- A member that holds as a condition. -/
theorem present_iff {v : Option Value} : present v = true ↔ ∃ u, v = some u ∧ u.truthy = true := by
  cases v <;> simp [present]

theorem documentContent_isSafe {parsed : Value} (hdocument : isSignedDocument parsed = true) :
    (page.secretContentPane (documentContent parsed)).IsSafe page ↔ page.CanShowDocument parsed := by
  rw [secretContentPane_isSafe]
  constructor
  · intro h
    rw [documentContent] at h
    split at h
    · next urls hurls => exact .fileUrls urls hurls h
    · next hurls =>
      split at h
      · next url fileMeta hurl hmeta =>
        obtain ⟨hurl, hurlTruthy⟩ := Option.filter_eq_some_iff.mp hurl
        obtain ⟨hmeta, hmetaTruthy⟩ := Option.filter_eq_some_iff.mp hmeta
        exact .fileUrl url fileMeta hurls hurl hurlTruthy hmeta hmetaTruthy h
      · next hno =>
        obtain ⟨content, hcontent, -⟩ := present_iff.mp (Bool.and_eq_true_iff.mp hdocument).2
        rw [hcontent] at h
        refine .content content hurls (fun hboth => ?_) hcontent h
        obtain ⟨url, hurl, hurlTruthy⟩ := present_iff.mp hboth.1
        obtain ⟨fileMeta, hmeta, hmetaTruthy⟩ := present_iff.mp hboth.2
        exact hno url fileMeta (Option.filter_eq_some_iff.mpr ⟨hurl, hurlTruthy⟩)
          (Option.filter_eq_some_iff.mpr ⟨hmeta, hmetaTruthy⟩)
  · intro h
    rw [documentContent]
    cases h with
    | fileUrls urls hurls h =>
      rw [hurls]
      exact h
    | fileUrl url fileMeta hurls hurl hurlTruthy hmeta hmetaTruthy h =>
      split
      · next urls hurls' => exact absurd hurls' (hurls urls)
      · rw [hurl, hmeta, Option.filter_some, Option.filter_some, if_pos hurlTruthy, if_pos hmetaTruthy]
        exact h
    | content content hurls hurl hcontent h =>
      split
      · next urls hurls' => exact absurd hurls' (hurls urls)
      · split
        · next url fileMeta hurl' hmeta' =>
          obtain ⟨hurl', hurlTruthy⟩ := Option.filter_eq_some_iff.mp hurl'
          obtain ⟨hmeta', hmetaTruthy⟩ := Option.filter_eq_some_iff.mp hmeta'
          exact absurd ⟨present_iff.mpr ⟨url, hurl', hurlTruthy⟩, present_iff.mpr ⟨_, hmeta', hmetaTruthy⟩⟩ hurl
        · rw [hcontent]
          exact h

theorem secretReader_isSafe {decryptedContent : Text} :
    (page.secretReader decryptedContent).IsSafe page ↔ page.CanShowSecret decryptedContent := by
  rw [Page.secretReader, Page.unwrapSignedDocument]
  constructor
  · intro h
    split at h
    · next hnone =>
      refine .plain (fun parsed hparse => ?_) (secretContentPane_isSafe.mp h)
      rw [hparse, Option.filter_some] at hnone
      simpa using hnone
    · next parsed hsome =>
      obtain ⟨hparse, hdocument⟩ := Option.filter_eq_some_iff.mp hsome
      exact .document parsed hparse hdocument ((documentContent_isSafe hdocument).mp h)
  · intro h
    cases h with
    | plain hplain h =>
      split
      · exact secretContentPane_isSafe.mpr h
      · next parsed hsome =>
        obtain ⟨hparse, hdocument⟩ := Option.filter_eq_some_iff.mp hsome
        rw [hplain parsed hparse] at hdocument
        cases hdocument
    | document parsed hparse hdocument h =>
      rw [hparse, Option.filter_some, if_pos hdocument]
      exact (documentContent_isSafe hdocument).mpr h

/-! ### The page of a workflow -/

/-- A value that passes for files is an object of one of two types. -/
theorem isFileShaped_kind {v : Value} (h : isFileShaped v = true) : v.truthy = true ∧
    (v.get "type" = some (.str (lit "files")) ∨ v.get "type" = some (.str (lit "file"))) := by
  constructor
  · cases v with
    | obj fields => rfl
    | _ => cases h
  · rw [isFileShaped] at h
    split at h
    · next kind hkind =>
      rw [hkind]
      rcases (Bool.or_eq_true _ _).mp h with h | h
      · exact .inl (congrArg _ (congrArg _ (eq_of_beq (Bool.and_eq_true_iff.mp h).1)))
      · exact .inr (congrArg _ (congrArg _ (eq_of_beq (Bool.and_eq_true_iff.mp h).1)))
    · cases h

theorem isOwnItem_iff {item : Value} : page.IsOwnItem item ↔
    page.isLocalBlobUrl (item.get "content") = true ∧ isPanelItem "name" "mime" item = true :=
  ⟨fun h => ⟨h.1, h.2⟩, fun h => ⟨h.1, h.2⟩⟩

/-- An entry with a link is not `null`. -/
theorem not_isNullish_of_local {item : Value} (h : page.isLocalBlobUrl (item.get "content") = true) :
    isNullish item = false := by
  cases item with
  | null => cases h
  | _ => rfl

theorem panelLinks_list {v : Value} (htype : v.get "type" = some (.str (lit "files"))) :
    (page.panelLinks (.links v)).IsSafe page ↔
      ∃ items, v.get "items" = some (.arr items) ∧ ∀ item ∈ items, page.IsOwnItem item := by
  rw [Page.panelLinks, if_pos (hasType_iff.mpr htype)]
  cases hitems : v.get "items" with
  | none => simp [Display.IsSafe]
  | some list =>
    cases list with
    | arr items =>
      simp only [Option.some.injEq, Value.arr.injEq, exists_eq_left']
      constructor
      · intro h
        split at h
        · next hall =>
          intro item hitem
          obtain ⟨-, hwrites⟩ := Bool.and_eq_true_iff.mp (List.all_eq_true.mp hall item hitem)
          exact ⟨h _ (List.mem_map_of_mem hitem), hwrites⟩
        · exact h.elim
      · intro h
        have hall : (items.all fun item => !isNullish item && isPanelItem "name" "mime" item) = true :=
          List.all_eq_true.mpr fun item hitem => by
            rw [not_isNullish_of_local (h item hitem).isLocal, (h item hitem).writes]
            rfl
        rw [if_pos hall]
        exact List.forall_mem_map.mpr fun item hitem => (h item hitem).isLocal
    | _ => simp [Display.IsSafe]

theorem panelLinks_single {v : Value} (htype : v.get "type" = some (.str (lit "file"))) :
    (page.panelLinks (.links v)).IsSafe page ↔ page.IsOwnItem v := by
  have hkinds : lit "file" ≠ lit "files" := by decide
  have hno : hasType "files" v ≠ true := by simp [hasType_iff, htype, hkinds]
  rw [Page.panelLinks, if_neg hno, isOwnItem_iff]
  cases isPanelItem "name" "mime" v <;> simp [Display.IsSafe]

theorem panelLinks_value {v : Option Value} :
    (page.panelLinks (decryptedContentPanel (.value v))).IsSafe page ↔ ∀ u, v = some u → page.NamesOwnBlobs u := by
  cases v with
  | none => simp [decryptedContentPanel, Page.panelLinks, Display.IsSafe]
  | some v =>
    have hone : (∀ u, some v = some u → page.NamesOwnBlobs u) ↔ page.NamesOwnBlobs v := by simp
    rw [hone, decryptedContentPanel]
    cases hfile : isFileShaped v with
    | false =>
      have hnames : page.NamesOwnBlobs v :=
        ⟨fun h => absurd h (by simp [hfile]), fun h => absurd h (by simp [hfile])⟩
      cases v.truthy <;> simp [Page.panelLinks, Display.IsSafe, hnames]
    | true =>
      obtain ⟨htruthy, hkind⟩ := isFileShaped_kind hfile
      have hkinds : lit "files" ≠ lit "file" := by decide
      simp only [htruthy, Bool.not_true, Bool.false_eq_true, if_false, if_true]
      rcases hkind with htype | htype
      · rw [panelLinks_list htype]
        exact ⟨fun h => ⟨fun _ _ => h, fun _ hother => absurd (htype.symm.trans hother) (by simp [hkinds])⟩,
          fun h => h.files hfile htype⟩
      · rw [panelLinks_single htype]
        exact ⟨fun h => ⟨fun _ hother => absurd (hother.symm.trans htype) (by simp [hkinds]), fun _ _ => h⟩,
          fun h => h.file hfile htype⟩

/-- The links of what was downloaded are blobs of this page. -/
theorem isLocalBlobUrl_createObjectURL (bytes : List UInt8) :
    page.isLocalBlobUrl (some (.str (page.createObjectURL bytes))) = true :=
  List.isPrefixOf_iff_prefix.mpr (List.prefix_append _ _)

theorem panelLinks_files {fs : List ShownFile} : (page.panelLinks (.files fs)).IsSafe page ↔
    ∀ f ∈ fs, isPanelItem "file_name" "mime_type" f.descriptor = true := by
  rw [Page.panelLinks, ← List.all_eq_true]
  split
  · next hall =>
    exact ⟨fun _ => hall, fun _ => List.forall_mem_map.mpr fun f _ => isLocalBlobUrl_createObjectURL f.bytes⟩
  · next hall => exact ⟨fun h => h.elim, fun h => absurd h hall⟩

theorem resolve_isSafe_list {inner : Value} {ds : List Value}
    (hparse : (memberText content).bind page.parse = some inner) (hfiles : inner.get "files" = some (.arr ds)) :
    (page.panelLinks (decryptedContentPanel (page.resolve chunks content))).IsSafe page ↔
      (∀ d ∈ ds, d ≠ .null ∧
        (∃ bytes, chunks.HasFile page.toViewer (d.get "chunk_offset") (d.get "total_chunks") bytes) ∧
          isPanelItem "file_name" "mime_type" d = true) ∨
      (∃ d ∈ ds, d = .null ∨ ∀ bytes,
        ¬ chunks.HasFile page.toViewer (d.get "chunk_offset") (d.get "total_chunks") bytes) ∧
          page.NamesOwnBlobs inner := by
  obtain ⟨text, htext, hparse⟩ := Option.bind_eq_some_iff.mp hparse
  have hwritten : (∀ d ∈ ds, d ≠ .null ∧
      (∃ bytes, chunks.HasFile page.toViewer (d.get "chunk_offset") (d.get "total_chunks") bytes) ∧
        isPanelItem "file_name" "mime_type" d = true) ↔
      ∃ fs, ds.mapM (page.downloadListed chunks) = some fs ∧
        ∀ f ∈ fs, isPanelItem "file_name" "mime_type" f.descriptor = true := by
    rw [exists_mapM_forall]
    refine forall₂_congr fun d _ => ?_
    constructor
    · rintro ⟨hd, ⟨bytes, hfile⟩, hwrites⟩
      exact ⟨⟨d, bytes⟩, downloadListed_eq_some.mpr ⟨hd, bytes, hfile, rfl⟩, hwrites⟩
    · rintro ⟨f, hf, hwrites⟩
      obtain ⟨hd, bytes, hfile, rfl⟩ := downloadListed_eq_some.mp hf
      exact ⟨hd, ⟨bytes, hfile⟩, hwrites⟩
  have hmissing : (∃ d ∈ ds, d = .null ∨ ∀ bytes,
      ¬ chunks.HasFile page.toViewer (d.get "chunk_offset") (d.get "total_chunks") bytes) ↔
        ds.mapM (page.downloadListed chunks) = none := by
    rw [mapM_eq_none]
    exact exists_congr fun d => and_congr_right fun _ => downloadListed_eq_none.symm
  rw [resolve_list htext hparse hfiles, hwritten, hmissing]
  cases ds.mapM (page.downloadListed chunks) with
  | none => simpa using @panelLinks_value page (some inner)
  | some fs => simpa [decryptedContentPanel] using panelLinks_files

theorem resolve_isSafe_file {inner : Value} (hparse : (memberText content).bind page.parse = some inner)
    (hfiles : ∀ ds, inner.get "files" ≠ some (.arr ds)) (htotal : present (inner.get "total_chunks") = true)
    (hname : present (inner.get "file_name") = true) :
    (page.panelLinks (decryptedContentPanel (page.resolve chunks content))).IsSafe page ↔
      ((∃ bytes,
        chunks.HasFile page.toViewer (some (.num Number.zero)) (inner.get "total_chunks") bytes) ∧
          isPanelItem "file_name" "mime_type" inner = true) ∨
      (∀ bytes, ¬ chunks.HasFile page.toViewer (some (.num Number.zero)) (inner.get "total_chunks") bytes) ∧
        page.NamesOwnBlobs inner := by
  obtain ⟨text, htext, hparse⟩ := Option.bind_eq_some_iff.mp hparse
  have hne : inner ≠ .null := by
    rintro rfl
    cases htotal
  have hdownload : ∀ bytes,
      chunks.HasFile page.toViewer (some (.num Number.zero)) (inner.get "total_chunks") bytes ↔
        page.downloadChunkedFile chunks (inner.get "total_chunks") = some bytes := fun bytes =>
    downloadFileByRange_eq_some.symm
  rw [resolve_single htext hparse hne hfiles, htotal, hname]
  simp only [hdownload, Bool.and_self, if_true]
  cases page.downloadChunkedFile chunks (inner.get "total_chunks") with
  | none => simpa using @panelLinks_value page (some inner)
  | some bytes => simpa [decryptedContentPanel] using @panelLinks_files page [⟨inner, bytes⟩]

theorem resolve_isSafe : (page.panelLinks (decryptedContentPanel (page.resolve chunks content))).IsSafe page ↔
    page.ShowsInner chunks content := by
  have hvalue : ∀ {inner : Value}, (∀ u, some inner = some u → page.NamesOwnBlobs u) ↔ page.NamesOwnBlobs inner := by
    simp
  have hplain : ((memberText content).bind page.parse = none ∨
      (memberText content).bind page.parse = some .null) → page.resolve chunks content = .value content := by
    rintro (hparse | hparse) <;> rw [Viewer.resolve, hparse]
  have hother : ∀ {inner : Value}, (memberText content).bind page.parse = some inner → inner ≠ .null →
      (∀ ds, inner.get "files" ≠ some (.arr ds)) →
      ¬ (present (inner.get "total_chunks") = true ∧ present (inner.get "file_name") = true) →
        page.resolve chunks content = .value (some inner) := by
    intro inner hparse hne hfiles hfile
    obtain ⟨text, htext, hparse⟩ := Option.bind_eq_some_iff.mp hparse
    rw [resolve_single htext hparse hne hfiles, if_neg (by simpa using hfile)]
  constructor
  · intro h
    by_cases hnone : (memberText content).bind page.parse = none ∨
        (memberText content).bind page.parse = some .null
    · rw [hplain hnone, panelLinks_value] at h
      exact .text hnone h
    · obtain ⟨inner, hparse⟩ := Option.ne_none_iff_exists'.mp fun hno => hnone (.inl hno)
      have hne : inner ≠ .null := fun hnull => hnone (.inr (hnull ▸ hparse))
      by_cases hlist : ∃ ds, inner.get "files" = some (.arr ds)
      · obtain ⟨ds, hfiles⟩ := hlist
        rcases (resolve_isSafe_list hparse hfiles).mp h with hall | ⟨⟨d, hd, hmissing⟩, hown⟩
        · exact .files inner ds hparse hfiles hall
        · exact .undeliveredList inner ds d hparse hfiles hd hmissing hown
      · have hfiles : ∀ ds, inner.get "files" ≠ some (.arr ds) := fun ds hds => hlist ⟨ds, hds⟩
        by_cases hfile : present (inner.get "total_chunks") = true ∧ present (inner.get "file_name") = true
        · rcases (resolve_isSafe_file hparse hfiles hfile.1 hfile.2).mp h with
            ⟨⟨bytes, hbytes⟩, hwrites⟩ | ⟨hmissing, hown⟩
          · exact .file inner bytes hparse hfiles hfile.1 hfile.2 hbytes hwrites
          · exact .undelivered inner hparse hfiles hfile.1 hfile.2 hmissing hown
        · rw [hother hparse hne hfiles hfile, panelLinks_value, hvalue] at h
          exact .value inner hparse hne hfiles hfile h
  · intro h
    cases h with
    | text hparse h =>
      rw [hplain hparse]
      exact panelLinks_value.mpr h
    | value inner hparse hne hfiles hfile h =>
      rw [hother hparse hne hfiles hfile]
      exact panelLinks_value.mpr (hvalue.mpr h)
    | files inner ds hparse hfiles h => exact (resolve_isSafe_list hparse hfiles).mpr (.inl h)
    | file inner bytes hparse hfiles htotal hname hbytes h =>
      exact (resolve_isSafe_file hparse hfiles htotal hname).mpr (.inl ⟨⟨bytes, hbytes⟩, h⟩)
    | undeliveredList inner ds d hparse hfiles hd hmissing h =>
      exact (resolve_isSafe_list hparse hfiles).mpr (.inr ⟨⟨d, hd, hmissing⟩, h⟩)
    | undelivered inner hparse hfiles htotal hname hmissing h =>
      exact (resolve_isSafe_file hparse hfiles htotal hname).mpr (.inr ⟨hmissing, h⟩)

/-- The verification throws where the key has an address and the content has no text. -/
theorem verifySignedDocument_isSome {signature signerPublicKey : Value} :
    (∃ verdict, page.verifySignedDocument content signature signerPublicKey = some verdict) ↔
      ∀ key address, signerPublicKey = .str key → page.addressOf key = some address →
        ∃ text, memberText content = some text := by
  cases signerPublicKey with
  | str key =>
    rw [Viewer.verifySignedDocument]
    cases haddress : page.addressOf key with
    | none =>
      refine ⟨fun _ key' address hkey hnamed => ?_, fun _ => ⟨_, rfl⟩⟩
      obtain rfl := Value.str.inj hkey
      rw [haddress] at hnamed
      cases hnamed
    | some address => cases memberText content <;> simp [haddress]
  | _ => simp [Viewer.verifySignedDocument]

theorem workflowReader_unsigned {ownerAddress contentString : Text}
    (hunsigned : ∀ parsed, page.parse contentString = some parsed →
      ¬ (present (parsed.get "signature") = true ∧ present (parsed.get "signerPublicKey") = true)) :
    page.workflowReader ownerAddress chunks contentString = page.panelLinks (decryptedContentPanel
      (.value (some (((page.parse contentString).filter Value.truthy).getD (.str contentString))))) := by
  have hresult : page.interpretDecryptedContent ownerAddress chunks contentString =
      some ⟨.unsigned, none, none, contentString,
        .value (some (((page.parse contentString).filter Value.truthy).getD (.str contentString)))⟩ := by
    rw [Viewer.interpretDecryptedContent]
    split
    · next signature signerPublicKey hsignature hsigner =>
      obtain ⟨parsed, hparse, hsignature, htruthy⟩ := member_eq_some.mp hsignature
      obtain ⟨_, hparse', hsigner, hkey⟩ := member_eq_some.mp hsigner
      obtain rfl := Option.some.inj (hparse.symm.trans hparse')
      exact absurd ⟨present_iff.mpr ⟨_, hsignature, htruthy⟩, present_iff.mpr ⟨_, hsigner, hkey⟩⟩
        (hunsigned parsed hparse)
    · rfl
  rw [Page.workflowReader, hresult]

theorem workflowReader_signed {ownerAddress contentString : Text} {parsed signature signerPublicKey : Value}
    (hparse : page.parse contentString = some parsed) (hsignature : parsed.get "signature" = some signature)
    (htruthy : signature.truthy = true) (hsigner : parsed.get "signerPublicKey" = some signerPublicKey)
    (hkey : signerPublicKey.truthy = true) :
    page.workflowReader ownerAddress chunks contentString =
      ((page.verifySignedDocument (parsed.get "content") signature signerPublicKey).map fun _ =>
        page.panelLinks (decryptedContentPanel (page.resolve chunks (parsed.get "content")))).getD .broken := by
  have hsignature := member_eq_some.mpr ⟨parsed, hparse, hsignature, htruthy⟩
  have hsigner := member_eq_some.mpr ⟨parsed, hparse, hsigner, hkey⟩
  have hcontent : (page.parse contentString).bind (·.get "content") = parsed.get "content" := by
    rw [hparse, Option.bind_some]
  rw [Page.workflowReader, Viewer.interpretDecryptedContent]
  simp only [hsignature, hsigner, hcontent]
  cases page.verifySignedDocument (parsed.get "content") signature signerPublicKey <;> rfl

theorem workflowReader_isSafe {ownerAddress contentString : Text} :
    (page.workflowReader ownerAddress chunks contentString).IsSafe page ↔
      page.ShowsWorkflow chunks contentString := by
  constructor
  · intro h
    by_cases hsigned : ∃ parsed, page.parse contentString = some parsed ∧
        present (parsed.get "signature") = true ∧ present (parsed.get "signerPublicKey") = true
    · obtain ⟨parsed, hparse, hsignature, hsigner⟩ := hsigned
      obtain ⟨signature, hmember, htruthy⟩ := present_iff.mp hsignature
      obtain ⟨key, hkey, hkeyTruthy⟩ := present_iff.mp hsigner
      rw [workflowReader_signed hparse hmember htruthy hkey hkeyTruthy] at h
      cases hverify : page.verifySignedDocument (parsed.get "content") signature key with
      | none =>
        rw [hverify] at h
        exact h.elim
      | some verdict =>
        rw [hverify] at h
        refine .signed parsed hparse hsignature hsigner (fun key' address hkey' haddress => ?_) (resolve_isSafe.mp h)
        exact verifySignedDocument_isSome.mp ⟨verdict, hverify⟩ key' address
          (Option.some.inj (hkey.symm.trans hkey')) haddress
    · have hunsigned : ∀ parsed, page.parse contentString = some parsed →
          ¬ (present (parsed.get "signature") = true ∧ present (parsed.get "signerPublicKey") = true) :=
        fun parsed hparse hboth => hsigned ⟨parsed, hparse, hboth⟩
      rw [workflowReader_unsigned hunsigned, panelLinks_value] at h
      refine .unsigned hunsigned fun parsed hparse => ?_
      cases htruthy : parsed.truthy with
      | true =>
        refine h parsed ?_
        rw [hparse, Option.filter_some, if_pos htruthy]
        rfl
      | false =>
        have hfile : isFileShaped parsed ≠ true := fun hfile => by
          rw [(isFileShaped_kind hfile).1] at htruthy
          cases htruthy
        exact ⟨fun h => absurd h hfile, fun h => absurd h hfile⟩
  · intro h
    cases h with
    | unsigned hunsigned h =>
      rw [workflowReader_unsigned hunsigned, panelLinks_value]
      intro v hv
      obtain rfl := Option.some.inj hv
      cases hparse : (page.parse contentString).filter Value.truthy with
      | none => exact ⟨fun hfile => (by cases hfile), fun hfile => (by cases hfile)⟩
      | some parsed => exact h parsed (Option.filter_eq_some_iff.mp hparse).1
    | signed parsed hparse hsignature hsigner htext h =>
      obtain ⟨signature, hmember, htruthy⟩ := present_iff.mp hsignature
      obtain ⟨key, hkey, hkeyTruthy⟩ := present_iff.mp hsigner
      obtain ⟨verdict, hverify⟩ := (@verifySignedDocument_isSome page _ signature _).mpr
        fun key' address hkey' haddress => htext key' address (hkey' ▸ hkey) haddress
      rw [workflowReader_signed hparse hmember htruthy hkey hkeyTruthy, hverify]
      exact resolve_isSafe.mpr h

end links

section sample

/-- A file elsewhere. -/
def sampleInvoice : Value :=
  .obj [(lit "type", .str (lit "file")), (lit "name", .str (lit "invoice.exe")),
    (lit "content", .str (lit "https://evil.example/invoice.exe"))]

/-- A page that reads the text of the invoice. -/
def samplePage : Page where
  toViewer := { sampleViewer with
    parse := fun text => if text = (spell sampleInvoice).map .char then some sampleInvoice else none }
  origin := lit "https://app.example"
  blobName _ := lit "0"

theorem parse_sampleInvoice : samplePage.parse ((spell sampleInvoice).map .char) = some sampleInvoice := by
  simp only [samplePage, if_true]

end sample

end Kryptolog.Client
