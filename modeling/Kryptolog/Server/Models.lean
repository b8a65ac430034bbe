import Mathlib.Algebra.Ring.Int.Defs
import Mathlib.Algebra.Ring.Nat
import Kryptolog.Library.Json
import Kryptolog.Library.Tables

/-! # The database of the server

The rows of `models.py` that the secret, multisig, account and conversation endpoints read or
write, as tables. Addresses are lower case wherever they are stored, so an `Address` is a text
that is its own lower case, and `lower` is the way in from a request. Datetimes are naive UTC
and kept as numbers. Two columns hold text that the server parses as JSON, the wrapped keys and
the contents of messages; they are `Document`s.

A direct message and a group message differ in one column, the recipient address or the channel
id. Both are `Message` rows, with that column as `target`, in a table for each `Kind`.
-/

namespace Kryptolog.Server
set_option autoImplicit false

open Tables Json

/-- `address.lower()`, on the ASCII alphabet of addresses. -/
def lowerText (text : String) : String := String.ofList (text.toList.map Char.toLower)

theorem toLower_toLower (c : Char) : c.toLower.toLower = c.toLower := by
  by_cases h : 'A'.val ≤ c.val ∧ c.val ≤ 'Z'.val
  · have hl : c.toLower.val = c.val + 32 := congrArg Char.val (dif_pos h)
    have h' : ¬ ('A'.val ≤ c.toLower.val ∧ c.toLower.val ≤ 'Z'.val) := by
      rw [hl]
      simp only [UInt32.le_iff_toNat_le, UInt32.toNat_add] at h ⊢
      have hA : 'A'.val.toNat = 65 := rfl
      have hZ : 'Z'.val.toNat = 90 := rfl
      have h32 : (32 : UInt32).toNat = 32 := rfl
      omega
    exact dif_neg h'
  · have hl : c.toLower = c := dif_neg h
    rw [hl, hl]

theorem lowerText_idem (text : String) : lowerText (lowerText text) = lowerText text := by
  have hidem : Char.toLower ∘ Char.toLower = Char.toLower := by
    funext c
    exact toLower_toLower c
  rw [lowerText, lowerText, String.toList_ofList, List.map_map, hidem]

/-- An address, in lower case. -/
structure Address where
  text : String
  lowered : lowerText text = text
  deriving DecidableEq

def lower (address : String) : Address := ⟨lowerText address, lowerText_idem address⟩

@[simp] theorem lower_text (a : Address) : lower a.text = a := by
  obtain ⟨text, h⟩ := a
  simp only [lower, h]

abbrev Time := ℕ

structure User where
  address : Address
  identityPublicKey : String
  username : Option String
  encryptionPublicKey : Option String
  encryptionKeyAlg : Option String
  encryptionKeyId : Option String
  encryptionKeyAttestation : Option String
  keyChangedAt : Option Time
  tokenVersion : ℕ
  deletedAt : Option Time
  blocked : Bool

structure Secret where
  id : ℕ
  ownerAddress : Address
  name : String
  encryptedData : String
  deriving DecidableEq

structure AccessGrant where
  id : ℕ
  secretId : ℕ
  granteeAddress : Address
  encryptedKey : Document
  createdAt : Time
  expiresAt : Option Time

structure FileChunk where
  id : ℕ
  secretId : ℕ
  chunkIndex : ℕ
  encryptedData : String
  iv : String
  deriving DecidableEq

inductive Status
  | pending
  | completed
  | rejected
  deriving DecidableEq, Repr

/-- The text of the status column. -/
def Status.text : Status → String
  | pending => "pending"
  | completed => "completed"
  | rejected => "rejected"

structure MultisigWorkflow where
  id : ℕ
  name : String
  ownerAddress : Address
  secretId : ℕ
  status : Status
  threshold : Option ℕ
  rejectedBy : Option Address
  rejectedAt : Option Time
  deriving DecidableEq

structure MultisigWorkflowSigner where
  id : ℕ
  workflowId : ℕ
  userAddress : Address
  hasSigned : Bool
  signature : Option String
  signedAt : Option Time
  encryptedKey : Option Document

structure MultisigWorkflowRecipient where
  id : ℕ
  workflowId : ℕ
  userAddress : Address
  encryptedKey : Option Document

/-- The two message kinds, each with a table and an id sequence of its own. -/
inductive Kind
  | dm
  | group
  deriving DecidableEq, Repr

def Kind.text : Kind → String
  | dm => "dm"
  | group => "group"

structure Message where
  id : ℕ
  senderAddress : Address
  /-- `recipient_address` of a direct message, `channel_id` of a group message. -/
  target : String
  content : Document

structure GroupChannel where
  id : String
  ownerAddress : Address
  deriving DecidableEq

structure GroupMember where
  id : ℕ
  channelId : String
  userAddress : Address
  role : String
  joinedAt : Time
  deriving DecidableEq

structure Nonce where
  nonce : String
  address : Address
  expiresAt : Time
  deriving DecidableEq

instance : Keyed User Address := ⟨User.address⟩
instance : Keyed Secret ℕ := ⟨Secret.id⟩
instance : Keyed AccessGrant ℕ := ⟨AccessGrant.id⟩
instance : Keyed FileChunk ℕ := ⟨FileChunk.id⟩
instance : Keyed MultisigWorkflow ℕ := ⟨MultisigWorkflow.id⟩
instance : Keyed MultisigWorkflowSigner ℕ := ⟨MultisigWorkflowSigner.id⟩
instance : Keyed MultisigWorkflowRecipient ℕ := ⟨MultisigWorkflowRecipient.id⟩
instance : Keyed Message ℕ := ⟨Message.id⟩
instance : Keyed GroupChannel String := ⟨GroupChannel.id⟩
instance : Keyed GroupMember ℕ := ⟨GroupMember.id⟩
instance : Keyed Nonce String := ⟨Nonce.nonce⟩

@[simp] theorem key_user (u : User) : Keyed.key u = u.address := rfl
@[simp] theorem key_secret (s : Secret) : Keyed.key s = s.id := rfl
@[simp] theorem key_accessGrant (g : AccessGrant) : Keyed.key g = g.id := rfl
@[simp] theorem key_fileChunk (c : FileChunk) : Keyed.key c = c.id := rfl
@[simp] theorem key_workflow (w : MultisigWorkflow) : Keyed.key w = w.id := rfl
@[simp] theorem key_signer (r : MultisigWorkflowSigner) : Keyed.key r = r.id := rfl
@[simp] theorem key_recipient (r : MultisigWorkflowRecipient) : Keyed.key r = r.id := rfl
@[simp] theorem key_message (m : Message) : Keyed.key m = m.id := rfl

structure Database where
  users : Table User
  secrets : Serial Secret
  accessGrants : Serial AccessGrant
  fileChunks : Serial FileChunk
  workflows : Serial MultisigWorkflow
  signers : Serial MultisigWorkflowSigner
  recipients : Serial MultisigWorkflowRecipient
  messages : Serial Message
  groupMessages : Serial Message
  groupChannels : Table GroupChannel
  groupMembers : Serial GroupMember
  nonces : Table Nonce

namespace Database

/-- The table of a message kind. -/
def store (db : Database) : Kind → Serial Message
  | .dm => db.messages
  | .group => db.groupMessages

def setStore (db : Database) (kind : Kind) (rows : Serial Message) : Database :=
  match kind with
  | .dm => { db with messages := rows }
  | .group => { db with groupMessages := rows }

def empty : Database where
  users := .empty
  secrets := .empty
  accessGrants := .empty
  fileChunks := .empty
  workflows := .empty
  signers := .empty
  recipients := .empty
  messages := .empty
  groupMessages := .empty
  groupChannels := .empty
  groupMembers := .empty
  nonces := .empty

end Database

/-- What the server gets from libraries: a hash, the verification of a signature under an
identity key, and the Unicode digits beyond ASCII (a digit that is no decimal has no value). -/
structure Primitives where
  sha384Hex : String → String
  verifyIdentitySignature : String → String → String → Bool
  unicodeDigit : Char → Option (Option ℕ)

/-- The settings that the modelled endpoints read. -/
structure Config where
  deploymentId : String
  loginOrigins : List String
  maxSecretsPerUser : ℕ
  maxStoredCharsPerUser : ℕ
  maxTotalFileSize : ℕ

/-- Why a request ends without its response: an `HTTPException`, or an exception that no
handler catches and the framework answers with 500. -/
inductive Fault
  | http (status : ℕ) (detail : String)
  | unhandled (exception : String)
  deriving DecidableEq, Repr

end Kryptolog.Server
