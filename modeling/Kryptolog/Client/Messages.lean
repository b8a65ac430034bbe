import Kryptolog.Client.SignedBodies
import Kryptolog.Server.Models

/-! # Messages, as a page reads them

`verifyMessage.js` and `sessionScope.js` of the messenger, and the parts of `useMessageSessions.js` that
read one message: its payload, its conversation, and the wrapped key that it offers to the reader.

A message row comes from the server. What it was delivered as (the sender, and the recipient or the
channel) is the server's word; the signature in the content is compared with that.
-/

namespace Kryptolog.Client
set_option autoImplicit false

open Script
open Json (Document)
open Server (Kind)

/-- A row of `Message` or `GroupMessage`, with `Date.parse` of its time. -/
structure MessageRow where
  id : ℕ
  senderAddress : Text
  /-- `recipient_address` of a direct message, `channel_id` of a group message. -/
  target : Text
  content : Document
  createdAt : Option ℤ

/-- `toLowerCase()`, on the ASCII alphabet of addresses. -/
def toLowerCase (s : Text) : Text :=
  s.map fun
    | .char c => .char c.toLower
    | .surrogate n => .surrogate n

/-- What the messenger calls: the JSON parser, the primitives of crypto-core, and the directory. -/
structure Messenger where
  /-- `JSON.parse`, where it does not throw. -/
  parseJson : Document → Option Value
  sha384Hex : String → String
  /-- `addressOf`, where it does not throw. -/
  addressOf : Text → Option Text
  /-- The signature suite, on a base64 text, a message and a key: false where a decoder throws. -/
  verifySignature : Text → Text → Text → Bool
  /-- `identityKeyFor`: the identity key of an address, where it can be had. -/
  identityKeyFor : Text → Option Text

/-! ## The payload -/

/-- The protocol version of a payload. -/
def version : Kind → ℕ
  | .dm => 1
  | .group => 2

/-- `value === n` for a number `n` that is written in decimal digits. -/
def isNumber (n : ℕ) : Option Value → Bool
  | some (.num m) => m.spelling == (toString n).toList
  | _ => false

/-- The truth value of a member that may be absent. -/
def present (v : Option Value) : Bool := v.any Value.truthy

/-- `parsed && parsed.v === version && parsed.sid ? parsed : null`. -/
def sessionPayload (mode : Kind) (parsed : Option Value) : Option Value :=
  parsed.filter fun p => isNumber (version mode) (p.get "v") && present (p.get "sid")

/-- `payload.ct == null`. -/
def isRedacted (payload : Value) : Bool := (payload.get "ct").all isNullish

/-! ## Conversations and sessions -/

/-- `conversationIdForMessage`. -/
def conversationIdForMessage (msg : MessageRow) (me : Text) : Kind → Text
  | .group => lit "group_" ++ msg.target
  | .dm =>
    let sender := toLowerCase msg.senderAddress
    if sender = me then toLowerCase msg.target else sender

/-- `sessionKeyId`: it throws where the session id has no text. -/
def sessionKeyId (conv : Text) (sid : Value) : Option Text :=
  sid.toText.map fun text => conv ++ .char ':' :: text

/-- `mayAdoptSession`. -/
def mayAdoptSession (msg : MessageRow) (verified : Option Bool) (mode : Kind) (me : Text) : Bool :=
  let sender := toLowerCase msg.senderAddress
  verified == some true &&
    match mode with
    | .group => !sender.isEmpty
    | .dm => sender == me || toLowerCase msg.target == me

/-- `object[name]`, for an object. -/
def member (name : Text) : Value → Option Value
  | .obj fields => fields.lookup name
  | _ => none

/-- The wrapped key that a payload offers to the reader. -/
def keyBlob (msg : MessageRow) (mode : Kind) (me : Text) (payload : Value) : Option Value :=
  match (payload.get "keys").filter Value.truthy with
  | none => none
  | some keys =>
    let name := match mode with
      | .group => me
      | .dm => lit (if toLowerCase msg.senderAddress = me then "sender" else "recip")
    (member name keys).filter Value.truthy

/-! ## Verifying a message -/

namespace Messenger

variable (env : Messenger)

/-- `isAddressOf`. -/
def isAddressOf (address key : Text) : Bool :=
  isAddress (.str address) && env.addressOf key == some address

/-- `verifyIdentitySignature`. -/
def verifyIdentitySignature (address identityPublicKey message : Text) (signature : Value) : Bool :=
  env.isAddressOf address identityPublicKey &&
    match signature with
    | .str signature => env.verifySignature signature message identityPublicKey
    | _ => false

/-- The conversation that the body names, where the payload declares the kind of conversation that the
message was delivered in. -/
def deliveredConversation (msg : MessageRow) (payload : Value) : Kind → Option Text
  | .group =>
    match payload.get "gid" with
    | some (.str gid) => if gid ≠ [] ∧ gid = msg.target then some msg.target else none
    | _ => none
  | .dm => if present (payload.get "gid") then none else some (toLowerCase msg.target)

/-- The body that the sender of a message signed. -/
def signedBody (msg : MessageRow) (payload : Value) (conv : Text) : Except BodyError Text :=
  let field (name : String) : Value := (payload.get name).getD .null
  let gid := if present (payload.get "gid") then field "gid" else .str []
  messageSigningBody env.sha384Hex (.str (toLowerCase msg.senderAddress)) (.str conv) (field "sid")
    (field "ct") gid (field "keys") (field "ts") (field "seq")

/-- `verifyMessageAuthenticity`: `none` for a message without a signature. -/
def verifyMessageAuthenticity (msg : MessageRow) (payload : Option Value) (mode : Kind) : Option Bool :=
  match payload with
  | none => none
  | some p =>
    match (p.get "sig").filter Value.truthy with
    | none => none
    | some sig =>
      match deliveredConversation msg p mode with
      | none => some false
      | some conv =>
        match env.signedBody msg p conv with
        | .error _ => some false
        | .ok body =>
          match env.identityKeyFor (toLowerCase msg.senderAddress) with
          | none => some false
          | some key =>
            some (env.verifyIdentitySignature (toLowerCase msg.senderAddress) key body sig)

end Messenger

end Kryptolog.Client
