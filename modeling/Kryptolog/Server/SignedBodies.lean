import Mathlib.Data.List.Sort
import Kryptolog.Library.Fallible
import Kryptolog.Server.Models

/-! # The signed bodies of the server

The texts that signatures cover, as `auth.py` builds them, with the alphabets of the values
that go into them. A body is `key=value` lines under a context line, so a value outside its
alphabet is refused.

A Python pattern that ends in `$` and is tried with `match` also accepts one line break after
the text; `fullmatch` does not. The two are kept apart (`matchHex`, `isHex`).
-/

namespace Kryptolog.Server
set_option autoImplicit false

open Json Fallible

/-! ## Alphabets -/

def isLowerHexDigit (c : Char) : Bool := c.isDigit || ('a' ≤ c && c ≤ 'f')

def isIdChar (c : Char) : Bool := c.isAlphanum || c == '_' || c == '-'

def isHostChar (c : Char) : Bool := c.isDigit || c.isLower || c == '.' || c == '-'

/-- `_ID_RE.fullmatch`: `[A-Za-z0-9_-]{1,64}`. -/
def isSignedIdentifierText (s : String) : Bool :=
  s.toList.all isIdChar && 1 ≤ s.toList.length && s.toList.length ≤ 64

/-- `auth.is_signed_identifier`, on a field of a parsed payload. -/
def isSignedIdentifier : Option Value → Bool
  | some (.str (.uni s)) => isSignedIdentifierText s
  | _ => false

/-- `_HEX_RE.fullmatch`: `[0-9a-f]+`. -/
def isHex (s : String) : Bool := !s.toList.isEmpty && s.toList.all isLowerHexDigit

/-- `re.match("^[0-9a-f]{n}$", s)`. -/
def matchHex (n : ℕ) (s : String) : Bool :=
  let cs := s.toList
  let body := if cs.getLast? = some '\n' then cs.dropLast else cs
  body.length == n && body.all isLowerHexDigit

/-- A text of digits does not end in a line break. -/
theorem getLast?_ne_newline {cs : List Char} (h : cs.all isLowerHexDigit = true) :
    cs.getLast? ≠ some '\n' := by
  intro hlast
  have hdigit := List.all_eq_true.mp h _ (List.mem_of_getLast? hlast)
  exact absurd hdigit (by decide)

theorem matchHex_of_all {n : ℕ} {s : String} (hlength : s.toList.length = n)
    (h : s.toList.all isLowerHexDigit = true) : matchHex n s = true := by
  rw [matchHex, if_neg (getLast?_ne_newline h), hlength, h, beq_self_eq_true]
  rfl

theorem matchHex_replicate (n : ℕ) {c : Char} (hhex : isLowerHexDigit c = true) :
    matchHex n (String.ofList (List.replicate n c)) = true :=
  matchHex_of_all (by simp) (by simp [hhex])

def isValidAddress (s : String) : Bool := matchHex 96 s

def isValidKeyId (s : String) : Bool := matchHex 32 s

/-- The port of an origin: nothing, or a colon and one to five digits. -/
def isPort : List Char → Bool
  | [] => true
  | c :: ds => c == ':' && ds.all Char.isDigit && 1 ≤ ds.length && ds.length ≤ 5

/-- `auth.is_canonical_origin`: `https?://[a-z0-9.-]+(:[0-9]{1,5})?`. -/
def isCanonicalOrigin (s : String) : Bool :=
  let host (cs : List Char) : Bool :=
    !(cs.takeWhile isHostChar).isEmpty && isPort (cs.dropWhile isHostChar)
  match s.toList with
  | 'h' :: 't' :: 't' :: 'p' :: 's' :: ':' :: '/' :: '/' :: cs => host cs
  | 'h' :: 't' :: 't' :: 'p' :: ':' :: '/' :: '/' :: cs => host cs
  | _ => false

/-! ## Canonical JSON -/

def hexDigit (n : ℕ) : Char := if n < 10 then Char.ofNat (48 + n) else Char.ofNat (87 + n)

/-- One character of `json.dumps(text, ensure_ascii=False)`. -/
def escapeChar (c : Char) : List Char :=
  match c with
  | '"' => ['\\', '"']
  | '\\' => ['\\', '\\']
  | '\n' => ['\\', 'n']
  | '\r' => ['\\', 'r']
  | '\t' => ['\\', 't']
  | c =>
    if c.toNat = 8 then ['\\', 'b']
    else if c.toNat = 12 then ['\\', 'f']
    else if c.toNat < 32 then ['\\', 'u', '0', '0', hexDigit (c.toNat / 16), hexDigit (c.toNat % 16)]
    else [c]

/-- `json.dumps(text, ensure_ascii=False)`. -/
def jsonString (s : String) : String := String.ofList ('"' :: s.toList.flatMap escapeChar ++ ['"'])

/-- What the builders raise: `NonCanonicalSignedBody` and its subclass, with the message. -/
abbrev NonCanonical := String

mutual

/-- `auth._canonical_json`: keys sorted, no white space; floats and Booleans are refused. -/
def canonicalJson : Value → Except NonCanonical String
  | .null => .ok "null"
  | .arr items => do
    let parts ← canonicalItems items
    .ok ("[" ++ ",".intercalate parts ++ "]")
  | .obj fields => do
    let parts ← canonicalFields fields
    let sorted := parts.insertionSort (fun a b => a.1 ≤ b.1)
    .ok ("\x7b" ++ ",".intercalate (sorted.map fun p => jsonString p.1 ++ ":" ++ p.2) ++ "\x7d")
  | .bool _ => .error "unsupported value type: bool"
  | .float _ => .error "unsupported value type: float"
  | .int z => .ok (toString z)
  | .str (.uni s) => .ok (jsonString s)
  | .str (.lone _) => .error "surrogates not allowed"

def canonicalItems : List Value → Except NonCanonical (List String)
  | [] => .ok []
  | v :: vs => do .ok ((← canonicalJson v) :: (← canonicalItems vs))

def canonicalFields : List (Str × Value) → Except NonCanonical (List (String × String))
  | [] => .ok []
  | (.uni k, v) :: fs => do .ok ((k, ← canonicalJson v) :: (← canonicalFields fs))
  | (.lone _, _) :: _ => .error "surrogates not allowed"

end

/-- `auth.check_envelope_shape`: what makes a key envelope one that two languages spell alike. -/
def checkEnvelopeShape (keys : Value) : Except NonCanonical Unit :=
  let isAsciiStr : Value → Bool
    | .str s => s.isAscii
    | _ => false
  let isSmallInt : Value → Bool
    | .int z => 0 ≤ z && z < 2 ^ 31
    | _ => false
  match keys with
  | .obj [] => .error "key envelope must be a non-empty object"
  | .obj entries => entries.forM fun (name, entry) =>
      if !name.isAscii then .error "key envelope names must be ASCII strings"
      else match entry with
        | .obj (f :: fs) => (f :: fs).forM fun (field, value) =>
            if field.isAscii && (isAsciiStr value || isSmallInt value) then .ok ()
            else .error "wrapped key fields must be ASCII strings or small integers"
        | _ => .error "each wrapped key must be a non-empty object"
  | _ => .error "key envelope must be a non-empty object"

/-! ## Envelopes -/

/-- What holds of the leaves of an envelope, and of an object where it holds of the values, holds of the envelope. -/
theorem of_checkEnvelopeShape {P : Value → Prop} {keys : Value} (h : checkEnvelopeShape keys = .ok ())
    (text : ∀ s, P (.str (.uni s))) (int : ∀ n : ℕ, n < 2 ^ 31 → P (.int n))
    (obj : ∀ fields : List (Str × Value), (∀ f ∈ fields, f.1.isAscii = true) → (∀ f ∈ fields, P f.2) →
      P (.obj fields)) : P keys := by
  unfold checkEnvelopeShape at h
  dsimp only at h
  split at h
  · cases h
  · next entries _ =>
    have hentries := forM_eq_ok.mp h
    refine obj _ (fun f hf => ?_) fun f hf => ?_
    · have hone := hentries f hf
      split at hone
      · cases hone
      · next hascii => simpa using hascii
    · have hone := hentries f hf
      split at hone
      · cases hone
      split at hone
      · next field rest hobj =>
        rw [hobj]
        have hfields := forM_eq_ok.mp hone
        refine obj _ (fun g hg => ?_) fun g hg => ?_
        · have hleaf := require_eq_ok.mp (hfields g hg)
          exact (Bool.and_eq_true_iff.mp hleaf).1
        · have hleaf := (Bool.and_eq_true_iff.mp (require_eq_ok.mp (hfields g hg))).2
          obtain ⟨name, value⟩ := g
          cases value with
          | str s =>
            cases s with
            | uni s => exact text s
            | lone points => cases hleaf
          | int z =>
            obtain ⟨hpos, hlt⟩ : 0 ≤ z ∧ z < 2 ^ 31 := by simpa using hleaf
            obtain ⟨n, rfl⟩ := Int.eq_ofNat_of_zero_le hpos
            exact int n (by omega)
          | null | bool | float | arr | obj => cases hleaf
      · cases hone
  · cases h

theorem canonicalFields_ok {fields : List (Str × Value)} (hnames : ∀ f ∈ fields, f.1.isAscii = true)
    (hvalues : ∀ f ∈ fields, ∃ text, canonicalJson f.2 = .ok text) :
    ∃ parts, canonicalFields fields = .ok parts := by
  induction fields with
  | nil => exact ⟨[], rfl⟩
  | cons f fields ih =>
    obtain ⟨hname, hnames⟩ := List.forall_mem_cons.mp hnames
    obtain ⟨⟨text, htext⟩, hvalues⟩ := List.forall_mem_cons.mp hvalues
    obtain ⟨parts, hparts⟩ := ih hnames hvalues
    obtain ⟨name, value⟩ := f
    cases name with
    | lone points => cases hname
    | uni name => exact ⟨_, bind_eq_ok.mpr ⟨text, htext, bind_eq_ok.mpr ⟨parts, hparts, rfl⟩⟩⟩

/-- A key envelope of the shape that is checked has a canonical text. -/
theorem canonicalJson_envelope {keys : Value} (h : checkEnvelopeShape keys = .ok ()) :
    ∃ text, canonicalJson keys = .ok text := by
  refine @of_checkEnvelopeShape (fun v => ∃ text, canonicalJson v = .ok text) keys h (fun s => ⟨_, rfl⟩)
    (fun n _ => ⟨_, rfl⟩) ?_
  intro fields hnames hvalues
  obtain ⟨parts, hparts⟩ := canonicalFields_ok hnames hvalues
  exact ⟨_, bind_eq_ok.mpr ⟨parts, hparts, rfl⟩⟩

/-! ## The bodies -/

def domainSeparate (context body : String) : String :=
  s!"Kryptolog Signed Message v1\ncontext={context}\n{body}"

def multisigApprovalMessage (workflowId secretId : ℕ) (ciphertextSha384Hex : String) : String :=
  domainSeparate "multisig-approval"
    s!"workflow={workflowId}\nsecret={secretId}\nct={ciphertextSha384Hex}"

/-- The suite of encryption keys. -/
def kemAlg : String := "HKDFwSHA384_P384_ML-KEM-768_CatKDF"

/-- `auth._login_message`. -/
def loginMessage (nonce origin deployment : String) (encryptionPublicKey : Option String) :
    Except NonCanonical String := do
  let key := encryptionPublicKey.getD ""
  refuseIf (!isHex nonce) "login: invalid nonce"
  refuseIf (!isCanonicalOrigin origin || !isSignedIdentifierText deployment)
    "login: invalid origin or deployment"
  refuseIf (key != "" && !isHex key) "login: invalid encryption key"
  let alg := if key = "" then "" else kemAlg
  .ok (domainSeparate "login"
    (s!"Sign in to Kryptolog\norigin={origin}\ndeployment={deployment}\nnonce={nonce}" ++
      s!"\nencryption-key-alg={alg}\nencryption-key={key}"))

def encryptionKeyAttestationMessage (address encryptionPublicKey : String) :
    Except NonCanonical String := do
  refuseIf (!isValidAddress address || !isHex encryptionPublicKey)
    "key attestation: invalid address or encryption key"
  .ok (domainSeparate "key-attestation"
    s!"address={address}\nencryption-alg={kemAlg}\nencryption={encryptionPublicKey}")

def keyRotationMessage (address oldKid newKid : String) (ts : ℕ) : Except NonCanonical String := do
  refuseIf (!isValidAddress address) "key rotation: invalid address"
  refuseIf (!(isValidKeyId oldKid && isValidKeyId newKid) || oldKid == newKid)
    "key rotation: invalid key ids"
  refuseIf (!(ts < 2 ^ 53)) "key rotation: invalid timestamp"
  .ok (domainSeparate "key-rotation"
    (s!"address={address}\nold-kid={oldKid}\nnew-kid={newKid}\nnew-alg={kemAlg}" ++
      s!"\nts={ts}"))

/-- A position in a signed body: an integer in `[0, 2^53)`. -/
def signedInt : Option Value → Option ℤ
  | some (.int z) => if 0 ≤ z && z < 2 ^ 53 then some z else none
  | _ => none

/-- The text of a field that is a string. -/
def textOf : Option Value → String
  | some (.str (.uni s)) => s
  | _ => ""

/-- `auth.message_signing_body` with `ct=None`, the redacted form of a message. -/
def messageSigningBody (prim : Primitives) (sender conv gid : String)
    (sid ts seq : Option Value) (keys : Value) : Except NonCanonical String := do
  checkEnvelopeShape keys
  refuseIf (!isSignedIdentifier sid) "a signed message body needs a valid session id"
  refuseIf (!isValidAddress sender || !(isValidAddress conv || isSignedIdentifierText conv))
    "a signed message body needs a valid sender and conversation"
  refuseIf (gid != "" && !isSignedIdentifierText gid)
    "a signed message body needs a valid group id"
  match signedInt ts, signedInt seq with
  | some t, some q => do
    let keysh := prim.sha384Hex (← canonicalJson keys)
    .ok (domainSeparate "message"
      (s!"from={sender}\nconv={conv}\ngid={gid}\nsid={textOf sid}\nts={t}\nseq={q}" ++
        s!"\nkeysh={keysh}\nredacted=1"))
  | _, _ => .error "a signed message body needs integer ts and seq"

/-- The digest of a set of redaction keys, which `sorted` puts in order. -/
def redactionsDigest (prim : Primitives) (redactionKeys : List String) : String :=
  let sorted := redactionKeys.insertionSort (· ≤ ·)
  prim.sha384Hex ("[" ++ ",".intercalate (sorted.map jsonString) ++ "]")

inductive Mode
  | leave
  | erase
  deriving DecidableEq, Repr

def Mode.text : Mode → String
  | leave => "leave"
  | erase => "erase"

def accountDeletionMessage (prim : Primitives) (nonce : String) (mode : Mode)
    (redactionKeys : List String) (origin deployment : String) : Except NonCanonical String := do
  refuseIf (!isHex nonce) "account deletion: invalid nonce or mode"
  refuseIf (!isCanonicalOrigin origin || !isSignedIdentifierText deployment)
    "account deletion: invalid origin or deployment"
  let digest := redactionsDigest prim redactionKeys
  .ok (domainSeparate "account-deletion"
    (s!"origin={origin}\ndeployment={deployment}\nnonce={nonce}\nmode={mode.text}" ++
      s!"\nredactions={digest}"))

def conversationEraseMessage (prim : Primitives) (nonce : String) (kind : Kind)
    (conversation : String) (redactionKeys : List String) (origin deployment : String) :
    Except NonCanonical String := do
  refuseIf (!isHex nonce) "conversation erase: invalid nonce"
  refuseIf (!((kind == .dm && isValidAddress conversation) ||
      (kind == .group && isSignedIdentifierText conversation)))
    "conversation erase: invalid conversation"
  refuseIf (!isCanonicalOrigin origin || !isSignedIdentifierText deployment)
    "conversation erase: invalid origin or deployment"
  let digest := redactionsDigest prim redactionKeys
  .ok (domainSeparate "conversation-erase"
    (s!"origin={origin}\ndeployment={deployment}\nnonce={nonce}" ++
      s!"\nconversation={kind.text}:{conversation}\nredactions={digest}"))

end Kryptolog.Server
