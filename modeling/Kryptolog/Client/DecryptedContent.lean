import Kryptolog.Client.Account
import Kryptolog.Client.CanonicalJson
import Kryptolog.Client.Messages

/-! # Content of a workflow, as a page shows it

`decryptWorkflow.js`, with what it takes of `secretContent.js` and `fileChunks.js`, and
`DecryptedContentPanel.jsx`. The content string was decrypted with the file key of the workflow. It may be a
document with the signature of its creator, and the signed text may describe files whose bytes lie beside it
in chunks.
-/

namespace Kryptolog.Client
set_option autoImplicit false

open Script

/-! ## Printing -/

/-- The start of a line of `JSON.stringify(value, null, 2)`. -/
def newLine (depth : ℕ) : List Char := '\n' :: List.replicate (2 * depth) ' '

/-- What stands between two brackets. -/
def bracketed (depth : ℕ) (left right : Char) (parts : List (List Char)) : List Char :=
  if parts.isEmpty then [left, right]
  else left :: newLine (depth + 1) ++ (',' :: newLine (depth + 1)).intercalate parts ++ newLine depth ++ [right]

mutual

/-- A value with a line for each of its parts, inside `depth` brackets. -/
def indented (depth : ℕ) : Value → List Char
  | .arr items => bracketed depth '[' ']' (indentedItems (depth + 1) items)
  | .obj fields => bracketed depth '\x7b' '\x7d' (indentedFields (depth + 1) fields)
  | .null => "null".toList
  | .bool b => (if b then "true" else "false").toList
  | .num n => n.spelling
  | .str s => quote s

def indentedItems (depth : ℕ) : List Value → List (List Char)
  | [] => []
  | v :: vs => indented depth v :: indentedItems depth vs

def indentedFields (depth : ℕ) : List (Text × Value) → List (List Char)
  | [] => []
  | (k, v) :: fs => (quote k ++ ':' :: ' ' :: indented depth v) :: indentedFields depth fs

end

/-- `JSON.stringify(value, null, 2)`. -/
def printed (v : Value) : Text := (indented 0 v).map .char

/-! ## Signed documents -/

/-- What the page calls, beside the messenger's part. -/
structure Viewer extends Messenger where
  /-- `JSON.parse` of a text, where it does not throw. -/
  parse : Text → Option Value
  sha384HexOfFile : List UInt8 → Text
  /-- How many of the numbers from 0 up are less than a value. -/
  numbersBelow : Option Value → ℕ
  /-- `offset + i`, in the path of a request. -/
  chunkIndex : Option Value → ℕ → Text

/-- The text of a member that may be absent. -/
def memberText : Option Value → Option Text
  | some v => v.toText
  | none => some (lit "undefined")

/-- `verifySignedDocument`: whether the signature holds, and the address of the key. It throws where the
content has no text. -/
def Viewer.verifySignedDocument (env : Viewer) (content : Option Value) (signature signerPublicKey : Value) :
    Option (Bool × Option Text) :=
  match signerPublicKey with
  | .str key =>
    match env.addressOf key with
    | some address => (memberText content).map fun text =>
        (env.verifyIdentitySignature address key (domainSeparate SigningContext.content.text text) signature,
          some address)
    | none => some (false, none)
  | _ => some (false, none)

/-! ## Chunks -/

/-- The chunks that the server serves, where they can be had and open with the file key at their index. -/
abbrev ChunkSet := Text → Option (List UInt8)

/-- `downloadFileByRange`: the bytes of a file, unless a chunk of it is missing. -/
def Viewer.downloadFileByRange (env : Viewer) (chunks : ChunkSet) (chunkOffset totalChunks : Option Value) :
    Option (List UInt8) :=
  ((List.range (env.numbersBelow totalChunks)).mapM fun i => chunks (env.chunkIndex chunkOffset i)).map
    List.flatten

/-- `downloadChunkedFile`, which counts from the number 0. -/
def Viewer.downloadChunkedFile (env : Viewer) (chunks : ChunkSet) (totalChunks : Option Value) :
    Option (List UInt8) :=
  env.downloadFileByRange chunks (some (.num Number.zero)) totalChunks

/-! ## The interpretation -/

/-- `verificationStatus`. -/
inductive VerificationStatus
  | unsigned
  | failed
  | mismatch
  | verified
  deriving DecidableEq

/-- A file with its bytes behind a link of this page: its name, type and size are those of its descriptor. -/
structure ShownFile where
  descriptor : Value
  bytes : List UInt8

/-- `decryptedContent`. -/
inductive Content
  | value (v : Option Value)
  | file (f : ShownFile)
  | files (fs : List ShownFile)

structure Interpretation where
  verificationStatus : VerificationStatus
  creatorSignature : Option Value
  creatorSignedContent : Option Value
  rawDecryptedContent : Text
  decryptedContent : Content

/-- A file of a list: `null` has no members to read. -/
def Viewer.downloadListed (env : Viewer) (chunks : ChunkSet) : Value → Option ShownFile
  | .null => none
  | descriptor => (env.downloadFileByRange chunks (descriptor.get "chunk_offset") (descriptor.get "total_chunks")).map
      fun bytes => ⟨descriptor, bytes⟩

/-- What a signed text stands for. A download that fails leaves the descriptor to be shown. -/
def Viewer.resolve (env : Viewer) (chunks : ChunkSet) (content : Option Value) : Content :=
  match (memberText content).bind env.parse with
  | none | some .null => .value content
  | some inner =>
    match inner.get "files" with
    | some (.arr descriptors) =>
      match descriptors.mapM (env.downloadListed chunks) with
      | some files => .files files
      | none => .value (some inner)
    | _ =>
      if present (inner.get "total_chunks") && present (inner.get "file_name") then
        match env.downloadChunkedFile chunks (inner.get "total_chunks") with
        | some bytes => .file ⟨inner, bytes⟩
        | none => .value (some inner)
      else .value (some inner)

/-- `interpretDecryptedContent`, on the address of the workflow's owner. -/
def Viewer.interpretDecryptedContent (env : Viewer) (ownerAddress : Text) (chunks : ChunkSet)
    (contentString : Text) : Option Interpretation :=
  let parsed := env.parse contentString
  match (parsed.bind (·.get "signature")).filter Value.truthy,
      (parsed.bind (·.get "signerPublicKey")).filter Value.truthy with
  | some signature, some signerPublicKey => do
    let content := parsed.bind (·.get "content")
    let (isValid, signerAddress) ← env.verifySignedDocument content signature signerPublicKey
    let attributionHolds := !ownerAddress.isEmpty && signerAddress == some (toLowerCase ownerAddress)
    let status : VerificationStatus :=
      if !isValid then .failed else if attributionHolds then .verified else .mismatch
    some ⟨status, some signature, content, contentString, env.resolve chunks content⟩
  | _, _ =>
    some ⟨.unsigned, none, none, contentString,
      .value (some ((parsed.filter Value.truthy).getD (.str contentString)))⟩

/-! ## The panel -/

/-- What `DecryptedContentPanel` shows. -/
inductive Shown
  | text (t : Text)
  | files (fs : List ShownFile)
  /-- Files whose links the content itself names. -/
  | links (v : Value)

/-- The panel takes the value for files. -/
def isFileShaped (v : Value) : Bool :=
  match v.get "type" with
  | some (.str kind) =>
    kind == lit "files" && present (v.get "items") || kind == lit "file" && present (v.get "content")
  | _ => false

/-- A string is shown as it is, another value in print. -/
def valueText : Value → Text
  | .str s => s
  | v => printed v

/-- `DecryptedContentPanel`: a value that is no condition shows as nothing. -/
def decryptedContentPanel : Content → Shown
  | .file f => .files [f]
  | .files fs => .files fs
  | .value none => .text []
  | .value (some v) =>
    if !v.truthy then .text []
    else if isFileShaped v then .links v
    else .text (valueText v)

end Kryptolog.Client
