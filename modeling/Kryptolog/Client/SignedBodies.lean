import Kryptolog.Client.CanonicalJson
import Kryptolog.Server.SignedBodies

/-! # The signed bodies of the clients

`signing.js` of crypto-core: the texts that signatures cover, built from values of any type. A
builder refuses a value outside its alphabet, with the field it names. An absent argument is
read as `null`, which every builder treats alike.

The alphabets are those of `Server.SignedBodies`; how a pattern is anchored is said here anew,
because the two languages differ in it.
-/

namespace Kryptolog.Client
set_option autoImplicit false

open Script Fallible
open Server (isLowerHexDigit isIdChar isHostChar kemAlg)

/-! ## Fields -/

/-- The message of a `SignedBodyError`, or of the `TypeError` of a conversion. -/
abbrev BodyError := String

def need (ok : Bool) (what : String) : Except BodyError Unit :=
  refuseIf (!ok) s!"signed body: invalid {what}"

/-- `HEX_RE.test`: `^[0-9a-f]+$`. -/
def isHex (s : Text) : Bool := !s.isEmpty && Text.consistsOf isLowerHexDigit s

/-- `ID_RE.test`: `^[A-Za-z0-9_-]{1,64}$`. -/
def isIdentifierText (s : Text) : Bool :=
  Text.consistsOf isIdChar s && 1 ≤ s.length && s.length ≤ 64

/-- A text of `n` hexadecimal digits: `^[0-9a-f]{n}$`. -/
def isHexOfLength (n : ℕ) (s : Text) : Bool := s.length == n && Text.consistsOf isLowerHexDigit s

/-- The port of an origin: nothing, or a colon and one to five digits. -/
def isPort : Text → Bool
  | [] => true
  | p :: ds =>
    p == .char ':' && Text.consistsOf Char.isDigit ds && 1 ≤ ds.length && ds.length ≤ 5

/-- `[a-z0-9.-]+(:[0-9]{1,5})?`. -/
def isHostAndPort (s : Text) : Bool :=
  !(s.takeWhile (Point.satisfies isHostChar)).isEmpty &&
    isPort (s.dropWhile (Point.satisfies isHostChar))

/-- `ORIGIN_RE.test`: `^https?:\/\/[a-z0-9.-]+(:[0-9]{1,5})?$`. -/
def isOriginText (s : Text) : Bool :=
  ((lit "https://").isPrefixOf s && isHostAndPort (s.drop 8)) ||
    ((lit "http://").isPrefixOf s && isHostAndPort (s.drop 7))

/-- `typeof value === 'string'` and a test on the string. -/
def isString (test : Text → Bool) : Value → Bool
  | .str s => test s
  | _ => false

def isCanonicalOrigin : Value → Bool := isString isOriginText

def isSignedIdentifier : Value → Bool := isString isIdentifierText

def isAddress : Value → Bool := isString (isHexOfLength 96)

def isEncryptionKeyId : Value → Bool := isString (isHexOfLength 32)

def isCount : Value → Bool
  | .num n => n.isCount
  | _ => false

def isNullish : Value → Bool
  | .null => true
  | _ => false

def isEmptyText : Value → Bool := isString List.isEmpty

/-- The text of a value in a template, or what a pattern is tried on. -/
def interpolate (v : Value) : Except BodyError Text :=
  match v.toText with
  | some s => .ok s
  | none => .error "Cannot convert object to primitive value"

/-! ## The bodies -/

def newline : Point := .char '\n'

/-- The lines of a template, put together. -/
def lines (ls : List Text) : Text := [newline].intercalate ls

/-- `SIGNING_CONTEXT`. -/
inductive SigningContext
  | login
  | content
  | multisigApproval
  | message
  | keyAttestation
  | accountDeletion
  | conversationErase
  | keyRotation
  deriving DecidableEq, Repr

def SigningContext.text : SigningContext → Text
  | login => lit "login"
  | content => lit "content"
  | multisigApproval => lit "multisig-approval"
  | message => lit "message"
  | keyAttestation => lit "key-attestation"
  | accountDeletion => lit "account-deletion"
  | conversationErase => lit "conversation-erase"
  | keyRotation => lit "key-rotation"

def domainSeparate (context body : Text) : Text :=
  lines [lit "Kryptolog Signed Message v1", lit "context=" ++ context, body]

/-- `canonicalCiphertext`. A member that an object does not have is `undefined`. -/
def canonicalCiphertext (ct : Value) : Except BodyError Text :=
  let member (name : String) : Except BodyError Text :=
    ((ct.get name).map interpolate).getD (.ok (lit "undefined"))
  match ct with
  | .obj _ | .arr _ => do .ok ((← member "iv") ++ .char '.' :: (← member "content"))
  | ct => interpolate ct

/-- The digest of a value, as a line holds it. -/
def digest (sha384Hex : String → String) (v : Value) : Text :=
  lit (sha384Hex (String.ofList (canonicalJson v)))

/-- The last line of a message: its ciphertext, or that its author took it back. -/
def ciphertextLine (ct : Value) : Except BodyError Text :=
  if isNullish ct then .ok (lit "redacted=1")
  else do .ok (lit "ct=" ++ (← canonicalCiphertext ct))

def messageSigningBody (sha384Hex : String → String) (sender conv sid ct gid keys ts seq : Value) :
    Except BodyError Text := do
  need (isAddress sender) "sender"
  need (isAddress conv || isSignedIdentifier conv) "conversation"
  need (isEmptyText gid || isNullish gid || isSignedIdentifier gid) "group id"
  need (isSignedIdentifier sid) "session id"
  need (isCount ts) "timestamp"
  need (isCount seq) "sequence number"
  let gid := if isNullish gid then .str [] else gid
  .ok (domainSeparate SigningContext.message.text (lines [
    lit "from=" ++ (← interpolate sender),
    lit "conv=" ++ (← interpolate conv),
    lit "gid=" ++ (← interpolate gid),
    lit "sid=" ++ (← interpolate sid),
    lit "ts=" ++ (← interpolate ts),
    lit "seq=" ++ (← interpolate seq),
    lit "keysh=" ++ digest sha384Hex keys,
    (← ciphertextLine ct)]))

def loginChallengeBody (nonce origin deployment encryptionKey : Value) : Except BodyError Text := do
  need (isString isHex nonce) "nonce"
  need (isCanonicalOrigin origin) "origin"
  need (isSignedIdentifier deployment) "deployment"
  let keyText ← interpolate encryptionKey
  need (isNullish encryptionKey || isEmptyText encryptionKey || isHex keyText) "encryption key"
  .ok (domainSeparate SigningContext.login.text (lines [
    lit "Sign in to Kryptolog",
    lit "origin=" ++ (← interpolate origin),
    lit "deployment=" ++ (← interpolate deployment),
    lit "nonce=" ++ (← interpolate nonce),
    lit "encryption-key-alg=" ++ (if encryptionKey.truthy then lit kemAlg else []),
    lit "encryption-key=" ++ (if encryptionKey.truthy then keyText else [])]))

/-- `[...redactionKeys].sort()`: a stable sort by the texts of the entries. A list of one entry is
not compared. -/
def sortTexts (redactionKeys : List Value) : Except BodyError (List Value) :=
  match redactionKeys with
  | [] | [_] => .ok redactionKeys
  | keys => do
    let texts ← keys.mapM interpolate
    .ok (((texts.zip keys).insertionSort fun a b => Text.le a.1 b.1).map (·.2))

def accountDeletionBody (sha384Hex : String → String) (nonce mode : Value)
    (redactionKeys : List Value) (origin deployment : Value) : Except BodyError Text := do
  need (isString isHex nonce) "nonce"
  need (isString (· == lit "leave") mode || isString (· == lit "erase") mode) "mode"
  need (isCanonicalOrigin origin) "origin"
  need (isSignedIdentifier deployment) "deployment"
  .ok (domainSeparate SigningContext.accountDeletion.text (lines [
    lit "origin=" ++ (← interpolate origin),
    lit "deployment=" ++ (← interpolate deployment),
    lit "nonce=" ++ (← interpolate nonce),
    lit "mode=" ++ (← interpolate mode),
    lit "redactions=" ++ digest sha384Hex (.arr (← sortTexts redactionKeys))]))

def conversationEraseBody (sha384Hex : String → String) (nonce kind conversation : Value)
    (redactionKeys : List Value) (origin deployment : Value) : Except BodyError Text := do
  need (isString isHex nonce) "nonce"
  need ((isString (· == lit "dm") kind && isAddress conversation) ||
    (isString (· == lit "group") kind && isSignedIdentifier conversation)) "conversation"
  need (isCanonicalOrigin origin) "origin"
  need (isSignedIdentifier deployment) "deployment"
  .ok (domainSeparate SigningContext.conversationErase.text (lines [
    lit "origin=" ++ (← interpolate origin),
    lit "deployment=" ++ (← interpolate deployment),
    lit "nonce=" ++ (← interpolate nonce),
    lit "conversation=" ++ (← interpolate kind) ++ .char ':' :: (← interpolate conversation),
    lit "redactions=" ++ digest sha384Hex (.arr (← sortTexts redactionKeys))]))

def encryptionKeyAttestationBody (address encryptionPublicKey : Value) : Except BodyError Text := do
  need (isAddress address) "address"
  need (isString isHex encryptionPublicKey) "encryption key"
  .ok (domainSeparate SigningContext.keyAttestation.text (lines [
    lit "address=" ++ (← interpolate address),
    lit "encryption-alg=" ++ lit kemAlg,
    lit "encryption=" ++ (← interpolate encryptionPublicKey)]))

def keyRotationBody (address oldKid newKid ts : Value) : Except BodyError Text := do
  need (isAddress address) "address"
  need (isEncryptionKeyId oldKid) "old key id"
  need (isEncryptionKeyId newKid) "new key id"
  let old ← interpolate oldKid
  let new ← interpolate newKid
  need (old != new) "rotation (the same key twice)"
  need (isCount ts) "timestamp"
  .ok (domainSeparate SigningContext.keyRotation.text (lines [
    lit "address=" ++ (← interpolate address),
    lit "old-kid=" ++ old,
    lit "new-kid=" ++ new,
    lit "new-alg=" ++ lit kemAlg,
    lit "ts=" ++ (← interpolate ts)]))

def multisigApprovalMessage (workflowId secretId ciphertextSha384Hex : Value) :
    Except BodyError Text := do
  .ok (domainSeparate SigningContext.multisigApproval.text (lines [
    lit "workflow=" ++ (← interpolate workflowId),
    lit "secret=" ++ (← interpolate secretId),
    lit "ct=" ++ (← interpolate ciphertextSha384Hex)]))

/-! ## Reading a builder -/

@[simp] theorem need_eq_ok {ok : Bool} {what : String} {u : Unit} :
    need ok what = .ok u ↔ ok = true := by
  rw [need, refuseIf_eq_ok]
  simp

@[simp] theorem interpolate_str (s : Text) : interpolate (.str s) = .ok s := rfl

@[simp] theorem interpolate_num (n : Number) : interpolate (.num n) = .ok n.text := rfl

@[simp] theorem interpolate_null : interpolate .null = .ok (lit "null") := rfl

theorem mapM_interpolate (keys : List Text) : (keys.map .str).mapM interpolate = .ok keys := by
  refine mapM_eq_ok.mpr ?_
  induction keys with
  | nil => exact .nil
  | cons k ks ih => exact .cons rfl ih

/-- Strings are sorted as the texts that they are. -/
theorem sortTexts_str (keys : List Text) : sortTexts (keys.map .str) =
    .ok ((keys.insertionSort fun a b => Text.le a b).map .str) := by
  have hsort : ((keys.zip (keys.map Value.str)).insertionSort fun a b => Text.le a.1 b.1).map (·.2) =
      (keys.insertionSort fun a b => Text.le a b).map .str := by
    have hzip : keys.zip (keys.map Value.str) = keys.map fun k => (k, Value.str k) := by
      induction keys with
      | nil => rfl
      | cons k ks ih => rw [List.map_cons, List.zip_cons_cons, List.map_cons, ih]
    rw [hzip, ← List.map_insertionSort (fun a b => Text.le a b = true)
      (fun a b : Text × Value => Text.le a.1 b.1 = true) (fun k => (k, Value.str k)) _
      fun _ _ _ _ => Iff.rfl, List.map_map]
    rfl
  cases keys with
  | nil => rfl
  | cons k ks =>
    cases ks with
    | nil => rfl
    | cons k' ks =>
      rw [← hsort, sortTexts]
      · rw [mapM_interpolate]
        rfl
      · exact fun h => by cases h
      · exact fun _ h => by cases h

end Kryptolog.Client
