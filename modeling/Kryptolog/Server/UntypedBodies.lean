import Kryptolog.Server.SignedBodies

/-! # The signed bodies, of values of any type

The builders of `auth.py` take what a parsed request holds and test each field themselves. Here
they are on values of any type; `SignedBodies` has them at the types that the routes declare, and
the two agree there (`loginMessage_text` and the lemmas after it).

The text that Python's `str` gives a value that is no text is a parameter, `str`: no two languages
agree on it, and it is reached through the members of a ciphertext only.
-/

namespace Kryptolog.Server.Untyped
set_option autoImplicit false

open Json Fallible

/-- `isinstance(value, str)` and a test on the text. -/
def isText (test : String → Bool) : Value → Bool
  | .str (.uni s) => test s
  | _ => false

/-- The text of a field that passed a test. -/
abbrev text (v : Value) : String := textOf (some v)

def loginMessage (nonce origin deployment encryptionPublicKey : Value) :
    Except NonCanonical String := do
  refuseIf (!isText isHex nonce) "login: invalid nonce"
  refuseIf (!isText isCanonicalOrigin origin || !isText isSignedIdentifierText deployment)
    "login: invalid origin or deployment"
  refuseIf (encryptionPublicKey.truthy && !isText isHex encryptionPublicKey)
    "login: invalid encryption key"
  let alg := if encryptionPublicKey.truthy then kemAlg else ""
  let key := if encryptionPublicKey.truthy then text encryptionPublicKey else ""
  .ok (Server.domainSeparate "login"
    (s!"Sign in to Kryptolog\norigin={text origin}\ndeployment={text deployment}" ++
      s!"\nnonce={text nonce}\nencryption-key-alg={alg}\nencryption-key={key}"))

def encryptionKeyAttestationMessage (address encryptionPublicKey : Value) :
    Except NonCanonical String := do
  refuseIf (!isText isValidAddress address || !isText isHex encryptionPublicKey)
    "key attestation: invalid address or encryption key"
  .ok (Server.domainSeparate "key-attestation"
    (s!"address={text address}\nencryption-alg={kemAlg}" ++
      s!"\nencryption={text encryptionPublicKey}"))

def keyRotationMessage (address oldKid newKid ts : Value) : Except NonCanonical String := do
  refuseIf (!isText isValidAddress address) "key rotation: invalid address"
  refuseIf (!(isText isValidKeyId oldKid && isText isValidKeyId newKid) ||
    text oldKid == text newKid) "key rotation: invalid key ids"
  match signedInt (some ts) with
  | none => .error "key rotation: invalid timestamp"
  | some t => .ok (Server.domainSeparate "key-rotation"
      (s!"address={text address}\nold-kid={text oldKid}\nnew-kid={text newKid}" ++
        s!"\nnew-alg={kemAlg}\nts={t}"))

def accountDeletionMessage (prim : Primitives) (nonce mode : Value) (redactionKeys : List String)
    (origin deployment : Value) : Except NonCanonical String := do
  refuseIf (!isText isHex nonce || !(mode.eqStr "leave" || mode.eqStr "erase"))
    "account deletion: invalid nonce or mode"
  refuseIf (!isText isCanonicalOrigin origin || !isText isSignedIdentifierText deployment)
    "account deletion: invalid origin or deployment"
  let digest := redactionsDigest prim redactionKeys
  .ok (Server.domainSeparate "account-deletion"
    (s!"origin={text origin}\ndeployment={text deployment}\nnonce={text nonce}" ++
      s!"\nmode={text mode}\nredactions={digest}"))

def conversationEraseMessage (prim : Primitives) (nonce kind conversation : Value)
    (redactionKeys : List String) (origin deployment : Value) : Except NonCanonical String := do
  refuseIf (!isText isHex nonce) "conversation erase: invalid nonce"
  refuseIf (!((kind.eqStr "dm" && isText isValidAddress conversation) ||
      (kind.eqStr "group" && isText isSignedIdentifierText conversation)))
    "conversation erase: invalid conversation"
  refuseIf (!isText isCanonicalOrigin origin || !isText isSignedIdentifierText deployment)
    "conversation erase: invalid origin or deployment"
  let digest := redactionsDigest prim redactionKeys
  .ok (Server.domainSeparate "conversation-erase"
    (s!"origin={text origin}\ndeployment={text deployment}\nnonce={text nonce}" ++
      s!"\nconversation={text kind}:{text conversation}\nredactions={digest}"))

/-- `f"{value}"`. -/
def format (str : Value → String) : Value → String
  | .str (.uni s) => s
  | v => str v

/-- `_canonical_ciphertext`. A member that the object lacks is `None`. -/
def canonicalCiphertext (str : Value → String) : Value → String
  | .obj fields =>
    let member (name : String) : String := format str (((Value.obj fields).get name).getD .null)
    member "iv" ++ "." ++ member "content"
  | ct => format str ct

/-- The end of a message: its ciphertext, or that its author took it back. -/
def tail (str : Value → String) : Value → String
  | .null => "\nredacted=1"
  | ct => "\nct=" ++ canonicalCiphertext str ct

/-- Absent keys are not checked. -/
def checkKeys : Value → Except NonCanonical Unit
  | .null => .ok ()
  | keys => checkEnvelopeShape keys

def messageSigningBody (str : Value → String) (prim : Primitives)
    (sender conv sid ts seq ct gid keys : Value) : Except NonCanonical String := do
  checkKeys keys
  refuseIf (!isText isSignedIdentifierText sid) "a signed message body needs a valid session id"
  refuseIf (!isText isValidAddress sender ||
      !(isText isValidAddress conv || isText isSignedIdentifierText conv))
    "a signed message body needs a valid sender and conversation"
  refuseIf (gid.truthy && !isText isSignedIdentifierText gid)
    "a signed message body needs a valid group id"
  match signedInt (some ts), signedInt (some seq) with
  | some t, some q => do
    let keysh := prim.sha384Hex (← canonicalJson keys)
    let gidText := if gid.truthy then text gid else ""
    .ok (Server.domainSeparate "message"
      (s!"from={text sender}\nconv={text conv}\ngid={gidText}\nsid={text sid}\nts={t}\nseq={q}" ++
        s!"\nkeysh={keysh}" ++ tail str ct))
  | _, _ => .error "a signed message body needs integer ts and seq"

/-! ## At the types that the routes declare -/

@[simp] theorem isText_text (test : String → Bool) (s : String) :
    isText test (.str (.uni s)) = test s := rfl

@[simp] theorem text_text (s : String) : text (.str (.uni s)) = s := rfl

@[simp] theorem truthy_text (s : String) : (Value.str (.uni s)).truthy = (s != "") := rfl

@[simp] theorem eqStr_text (s t : String) : (Value.str (.uni s)).eqStr t = (s == t) := by
  by_cases h : s = t <;> simp [Value.eqStr, h]

/-- A text that may be absent. -/
def optional : Option String → Value
  | none => .null
  | some s => .str (.uni s)

theorem loginMessage_text (nonce origin deployment : String) (key : Option String) :
    loginMessage (.str (.uni nonce)) (.str (.uni origin)) (.str (.uni deployment)) (optional key) =
      Server.loginMessage nonce origin deployment key := by
  cases key with
  | none => simp [loginMessage, Server.loginMessage, optional, Value.truthy, String.append_assoc]
  | some key =>
    by_cases hkey : key = ""
    · simp [loginMessage, Server.loginMessage, optional, hkey, String.append_assoc]
    · simp [loginMessage, Server.loginMessage, optional, hkey, String.append_assoc]

theorem encryptionKeyAttestationMessage_text (address key : String) :
    encryptionKeyAttestationMessage (.str (.uni address)) (.str (.uni key)) =
      Server.encryptionKeyAttestationMessage address key := by
  simp [encryptionKeyAttestationMessage, Server.encryptionKeyAttestationMessage,
    String.append_assoc]

theorem signedInt_int (n : ℕ) : signedInt (some (.int n)) = if n < 2 ^ 53 then some (n : ℤ) else none := by
  by_cases h : n < 2 ^ 53
  · have hbound : (0 : ℤ) ≤ n ∧ (n : ℤ) < 2 ^ 53 := ⟨by omega, by omega⟩
    rw [signedInt, if_pos h, if_pos]
    exact Bool.and_eq_true_iff.mpr ⟨decide_eq_true hbound.1, decide_eq_true hbound.2⟩
  · have hbound : ¬ (n : ℤ) < 2 ^ 53 := by omega
    rw [signedInt, if_neg h, if_neg]
    exact fun hand => hbound (of_decide_eq_true (Bool.and_eq_true_iff.mp hand).2)

theorem keyRotationMessage_text (address oldKid newKid : String) (ts : ℕ) :
    keyRotationMessage (.str (.uni address)) (.str (.uni oldKid)) (.str (.uni newKid)) (.int ts) =
      Server.keyRotationMessage address oldKid newKid ts := by
  have htext : toString (ts : ℤ) = toString ts := rfl
  rw [keyRotationMessage, Server.keyRotationMessage, signedInt_int]
  by_cases hts : ts < 2 ^ 53
  · simp only [hts, if_true, decide_true, Bool.not_true, htext, isText_text, text_text]
    simp [refuseIf, bind, Except.bind, String.append_assoc]
  · simp only [hts, if_false, decide_false, Bool.not_false, isText_text, text_text]
    rfl

theorem accountDeletionMessage_text (prim : Primitives) (nonce : String) (mode : Mode)
    (redactionKeys : List String) (origin deployment : String) :
    accountDeletionMessage prim (.str (.uni nonce)) (.str (.uni mode.text)) redactionKeys
        (.str (.uni origin)) (.str (.uni deployment)) =
      Server.accountDeletionMessage prim nonce mode redactionKeys origin deployment := by
  cases mode <;> simp [accountDeletionMessage, Server.accountDeletionMessage, Mode.text,
    String.append_assoc]

theorem conversationEraseMessage_text (prim : Primitives) (nonce : String) (kind : Kind)
    (conversation : String) (redactionKeys : List String) (origin deployment : String) :
    conversationEraseMessage prim (.str (.uni nonce)) (.str (.uni kind.text))
        (.str (.uni conversation)) redactionKeys (.str (.uni origin)) (.str (.uni deployment)) =
      Server.conversationEraseMessage prim nonce kind conversation redactionKeys origin
        deployment := by
  have hdm : (Kind.dm == Kind.group) = false := rfl
  have hgroup : (Kind.group == Kind.dm) = false := rfl
  cases kind <;> simp [conversationEraseMessage, Server.conversationEraseMessage, Kind.text, hdm,
    hgroup, String.append_assoc]

theorem messageSigningBody_text (str : Value → String) (prim : Primitives)
    (sender conv gid : String) (sid ts seq keys : Value) (hkeys : keys ≠ .null) :
    messageSigningBody str prim (.str (.uni sender)) (.str (.uni conv)) sid ts seq .null
        (.str (.uni gid)) keys =
      Server.messageSigningBody prim sender conv gid (some sid) (some ts) (some seq) keys := by
  have hsid : isText isSignedIdentifierText sid = isSignedIdentifier (some sid) := by
    cases sid with
    | str s => cases s <;> rfl
    | _ => rfl
  have hgid : (if gid = "" then "" else gid) = gid := by
    split
    · next h => exact h.symm
    · rfl
  have hcheck : checkKeys keys = checkEnvelopeShape keys := by
    cases keys with
    | null => exact absurd rfl hkeys
    | _ => rfl
  rw [messageSigningBody, Server.messageSigningBody, hcheck, hsid]
  simp only [isText_text, text_text, truthy_text]
  cases signedInt (some ts) with
  | none => rfl
  | some t =>
    cases signedInt (some seq) with
    | none => rfl
    | some q => simp [tail, hgid, toString, String.append_assoc]

end Kryptolog.Server.Untyped
