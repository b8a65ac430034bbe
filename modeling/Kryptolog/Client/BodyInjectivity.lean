import Kryptolog.Client.SignedBodies

/-! # What a signed body says

A call of a builder of `signing.js`, with arguments of the documented types, and what its text
determines: two calls that produce the same bytes are of one kind and say the same
(`same_of_encode_eq`). Every line of a body holds one field and no line break, so the lines are
read back from the text, and the context line names the kind.
-/

namespace Kryptolog.Client
set_option autoImplicit false

open Script Fallible Delimited
open Server (isLowerHexDigit isIdChar isHostChar kemAlg)

/-! ## Calls -/

def isBase64Char (c : Char) : Bool := c.isAlphanum || c == '+' || c == '/' || c == '='

/-- A ciphertext as `encryptWithSessionKey` returns it. -/
structure Ciphertext where
  iv : Text
  content : Text
  iv_base64 : Text.consistsOf isBase64Char iv = true
  content_base64 : Text.consistsOf isBase64Char content = true
  deriving DecidableEq

/-- A digest in hexadecimal digits. -/
structure HexText where
  text : Text
  digits : Text.consistsOf isLowerHexDigit text = true
  deriving DecidableEq

/-- A document, of any text without lone surrogates. -/
structure ContentDocument where
  text : Text
  wellFormed : text.isWellFormed = true
  deriving DecidableEq

/-- A call of a builder. -/
inductive Call
  | login (nonce origin deployment : Text) (encryptionKey : Option Text)
  | attestation (address encryptionPublicKey : Text)
  | rotation (address oldKid newKid : Text) (ts : Number)
  | accountDeletion (nonce mode : Text) (redactionKeys : List Text) (origin deployment : Text)
  | conversationErase (nonce kind conversation : Text) (redactionKeys : List Text)
      (origin deployment : Text)
  | message (sender conv sid : Text) (ct : Option Ciphertext) (gid : Option Text)
      (keys : Option Value) (ts seq : Number)
  | multisigApproval (workflowId secretId : Number) (ciphertextSha384 : HexText)
  | content (document : ContentDocument)

def optionalText : Option Text → Value
  | none => .null
  | some s => .str s

def Ciphertext.value (ct : Ciphertext) : Value :=
  .obj [(lit "iv", .str ct.iv), (lit "content", .str ct.content)]

namespace Call

/-- The text that a call produces. -/
def body (sha384Hex : String → String) : Call → Except BodyError Text
  | login nonce origin deployment encryptionKey =>
    loginChallengeBody (.str nonce) (.str origin) (.str deployment) (optionalText encryptionKey)
  | attestation address key => encryptionKeyAttestationBody (.str address) (.str key)
  | rotation address oldKid newKid ts =>
    keyRotationBody (.str address) (.str oldKid) (.str newKid) (.num ts)
  | accountDeletion nonce mode redactionKeys origin deployment =>
    accountDeletionBody sha384Hex (.str nonce) (.str mode) (redactionKeys.map .str) (.str origin)
      (.str deployment)
  | conversationErase nonce kind conversation redactionKeys origin deployment =>
    conversationEraseBody sha384Hex (.str nonce) (.str kind) (.str conversation)
      (redactionKeys.map .str) (.str origin) (.str deployment)
  | message sender conv sid ct gid keys ts seq =>
    messageSigningBody sha384Hex (.str sender) (.str conv) (.str sid)
      ((ct.map Ciphertext.value).getD .null) (optionalText gid) (keys.getD .null) (.num ts)
      (.num seq)
  | multisigApproval workflowId secretId digest =>
    multisigApprovalMessage (.num workflowId) (.num secretId) (.str digest.text)
  | content document => .ok (domainSeparate SigningContext.content.text document.text)

/-- A list of redactions, in order. -/
def redactionsValue (redactionKeys : List Text) : Value :=
  .arr ((redactionKeys.insertionSort fun a b => Text.le a b).map .str)

/-- The values that a call hashes. -/
def hashed : Call → List Value
  | accountDeletion _ _ redactionKeys _ _ | conversationErase _ _ _ redactionKeys _ _ =>
    [redactionsValue redactionKeys]
  | message _ _ _ _ _ keys _ _ => [keys.getD .null]
  | _ => []

/-- Two calls say the same: key maps are equal up to the order of members, lists of redactions
up to order, and an absent field is equal to its empty spelling. -/
def Same : Call → Call → Prop
  | login nonce origin deployment key, login nonce' origin' deployment' key' =>
    nonce = nonce' ∧ origin = origin' ∧ deployment = deployment' ∧ key.getD [] = key'.getD []
  | attestation address key, attestation address' key' => address = address' ∧ key = key'
  | rotation address oldKid newKid ts, rotation address' oldKid' newKid' ts' =>
    address = address' ∧ oldKid = oldKid' ∧ newKid = newKid' ∧ ts = ts'
  | accountDeletion nonce mode keys origin deployment,
      accountDeletion nonce' mode' keys' origin' deployment' =>
    nonce = nonce' ∧ mode = mode' ∧ keys.Perm keys' ∧ origin = origin' ∧ deployment = deployment'
  | conversationErase nonce kind conversation keys origin deployment,
      conversationErase nonce' kind' conversation' keys' origin' deployment' =>
    nonce = nonce' ∧ kind = kind' ∧ conversation = conversation' ∧ keys.Perm keys' ∧
      origin = origin' ∧ deployment = deployment'
  | message sender conv sid ct gid keys ts seq, message sender' conv' sid' ct' gid' keys' ts' seq' =>
    sender = sender' ∧ conv = conv' ∧ sid = sid' ∧ ct = ct' ∧ gid.getD [] = gid'.getD [] ∧
      ordered (keys.getD .null) = ordered (keys'.getD .null) ∧ ts = ts' ∧ seq = seq'
  | multisigApproval workflowId secretId digest, multisigApproval workflowId' secretId' digest' =>
    workflowId = workflowId' ∧ secretId = secretId' ∧ digest = digest'
  | content document, content document' => document = document'
  | _, _ => False

end Call

/-- SHA-384 is spelled in hexadecimal digits. -/
def IsDigest (sha384Hex : String → String) : Prop :=
  ∀ s, (sha384Hex s).toList.all isLowerHexDigit = true

/-- The parts that two calls hash do not collide. -/
def NoCollision (sha384Hex : String → String) (c c' : Call) : Prop :=
  ∀ v ∈ c.hashed, ∀ v' ∈ c'.hashed, digest sha384Hex v = digest sha384Hex v' →
    canonicalJson v = canonicalJson v'

/-! ## Plain lines -/

/-- A line of a body: no line break and no lone surrogate. -/
def isPlain (s : Text) : Bool := s.all fun p => !p.isSurrogate && p != newline

theorem isPlain_append {s t : Text} : isPlain (s ++ t) = (isPlain s && isPlain t) :=
  List.all_append

theorem isPlain_of_consistsOf {p : Char → Bool} {s : Text} (hp : p '\n' = false)
    (h : Text.consistsOf p s = true) : isPlain s = true := by
  refine List.all_eq_true.mpr fun x hx => ?_
  have hx := List.all_eq_true.mp h x hx
  cases x with
  | surrogate n => cases hx
  | char c =>
    have hne : c ≠ '\n' := by
      rintro rfl
      exact absurd (hp.symm.trans hx) (by decide)
    simpa [Point.isSurrogate, newline] using hne

theorem newline_notMem {s : Text} (h : isPlain s = true) : newline ∉ s := by
  intro hmem
  have := List.all_eq_true.mp h newline hmem
  exact absurd this (by decide)

theorem isWellFormed_of_isPlain {s : Text} (h : isPlain s = true) : s.isWellFormed = true :=
  List.all_eq_true.mpr fun p hp => (Bool.and_eq_true_iff.mp (List.all_eq_true.mp h p hp)).1

theorem isPlain_digest {sha384Hex : String → String} (h : IsDigest sha384Hex) (v : Value) :
    isPlain (digest sha384Hex v) = true := by
  refine isPlain_of_consistsOf (p := isLowerHexDigit) (by decide) ?_
  rw [digest, lit, Text.consistsOf, List.all_map]
  exact h _

theorem isPlain_num (n : Number) : isPlain n.text = true := by
  refine isPlain_of_consistsOf (p := isNumberChar) (by decide) ?_
  rw [Number.text, Text.consistsOf, List.all_map]
  exact n.chars

theorem isPlain_hex {s : Text} (h : isHex s = true) : isPlain s = true :=
  isPlain_of_consistsOf (by decide) (Bool.and_eq_true_iff.mp h).2

theorem isPlain_hexOfLength {n : ℕ} {s : Text} (h : isHexOfLength n s = true) : isPlain s = true :=
  isPlain_of_consistsOf (by decide) (Bool.and_eq_true_iff.mp h).2

theorem isPlain_identifier {s : Text} (h : isIdentifierText s = true) : isPlain s = true :=
  isPlain_of_consistsOf (by decide)
    (Bool.and_eq_true_iff.mp (Bool.and_eq_true_iff.mp h).1).1

theorem isPlain_port {s : Text} (h : isPort s = true) : isPlain s = true := by
  cases s with
  | nil => rfl
  | cons p ds =>
    simp only [isPort, Bool.and_eq_true, beq_iff_eq] at h
    obtain ⟨⟨⟨rfl, hds⟩, -⟩, -⟩ := h
    rw [← List.singleton_append, isPlain_append, isPlain_of_consistsOf (by decide) hds]
    rfl

theorem isPlain_hostAndPort {s : Text} (h : isHostAndPort s = true) : isPlain s = true := by
  obtain ⟨-, hport⟩ := Bool.and_eq_true_iff.mp h
  have hhost : Text.consistsOf isHostChar (s.takeWhile (Point.satisfies isHostChar)) = true :=
    List.all_takeWhile
  rw [← List.takeWhile_append_dropWhile (p := Point.satisfies isHostChar) (l := s), isPlain_append,
    isPlain_of_consistsOf (by decide) hhost, isPlain_port hport]
  rfl

theorem isPlain_of_prefix {s : Text} (pre : Text) (hpre : isPlain pre = true)
    (h : (pre.isPrefixOf s && isHostAndPort (s.drop pre.length)) = true) : isPlain s = true := by
  obtain ⟨hscheme, hrest⟩ := Bool.and_eq_true_iff.mp h
  obtain ⟨rest, rfl⟩ := List.isPrefixOf_iff_prefix.mp hscheme
  rw [List.drop_left] at hrest
  rw [isPlain_append, hpre, isPlain_hostAndPort hrest]
  rfl

theorem isPlain_origin {s : Text} (h : isOriginText s = true) : isPlain s = true := by
  rcases Bool.or_eq_true_iff.mp h with h | h
  · exact isPlain_of_prefix (lit "https://") (by decide) h
  · exact isPlain_of_prefix (lit "http://") (by decide) h

/-! ## Reading a body back -/

theorem lines_cons (l : Text) {ls : List Text} (h : ls ≠ []) : lines (l :: ls) = l ++ newline :: lines ls := by
  cases ls with
  | nil => exact absurd rfl h
  | cons m ms => rw [lines, List.intercalate_cons_cons, List.append_assoc]; rfl

/-- The lines of a body. -/
theorem lines_inj {ls ms : List Text} (hls : ls ≠ []) (hms : ms ≠ [])
    (hl : ∀ l ∈ ls, isPlain l = true) (hm : ∀ m ∈ ms, isPlain m = true) (h : lines ls = lines ms) :
    ls = ms :=
  intercalate_inj hls hms (fun l hmem => newline_notMem (hl l hmem))
    (fun m hmem => newline_notMem (hm m hmem)) h

theorem isWellFormed_lines {ls : List Text} (h : ∀ l ∈ ls, l.isWellFormed = true) :
    (lines ls).isWellFormed = true := by
  induction ls with
  | nil => rfl
  | cons l ls ih =>
    obtain ⟨hl, hls⟩ := List.forall_mem_cons.mp h
    cases ls with
    | nil =>
      rw [lines, List.intercalate_singleton]
      exact hl
    | cons m ms =>
      rw [lines_cons l (List.cons_ne_nil _ _), Text.isWellFormed, List.all_append, List.all_cons]
      have hrest := ih hls
      rw [Text.isWellFormed] at hl hrest
      rw [hl, hrest]
      rfl

theorem isPlain_context (c : SigningContext) : isPlain (lit "context=" ++ c.text) = true := by
  cases c <;> decide

theorem SigningContext.text_inj {c c' : SigningContext} (h : c.text = c'.text) : c = c' := by
  cases c <;> cases c' <;> first | rfl | exact absurd h (by decide)

/-- The context line and what stands under it. -/
theorem domainSeparate_inj {c c' : SigningContext} {body body' : Text}
    (h : domainSeparate c.text body = domainSeparate c'.text body') : c = c' ∧ body = body' := by
  simp only [domainSeparate, lines_cons _ (List.cons_ne_nil _ _)] at h
  have htail := (List.cons.inj (List.append_cancel_left h)).2
  obtain ⟨hcontext, hbody⟩ := append_cons_inj (newline_notMem (isPlain_context c))
    (newline_notMem (isPlain_context c')) htail
  refine ⟨SigningContext.text_inj (List.append_cancel_left hcontext), ?_⟩
  simpa [lines] using hbody

theorem isWellFormed_domainSeparate {c : SigningContext} {body : Text}
    (h : body.isWellFormed = true) : (domainSeparate c.text body).isWellFormed = true := by
  refine isWellFormed_lines (List.forall_mem_cons.mpr ⟨by decide, List.forall_mem_cons.mpr
    ⟨isWellFormed_of_isPlain (isPlain_context c), List.forall_mem_singleton.mpr h⟩⟩)

/-! ## What a call writes -/

namespace Call

def context : Call → SigningContext
  | login .. => .login
  | attestation .. => .keyAttestation
  | rotation .. => .keyRotation
  | accountDeletion .. => .accountDeletion
  | conversationErase .. => .conversationErase
  | message .. => .message
  | multisigApproval .. => .multisigApproval
  | content .. => .content

def lastLine : Option Ciphertext → Text
  | none => lit "redacted=1"
  | some ct => lit "ct=" ++ (ct.iv ++ .char '.' :: ct.content)

/-- The lines under the context line. -/
def fields (sha384Hex : String → String) : Call → List Text
  | login nonce origin deployment encryptionKey =>
    let key := encryptionKey.getD []
    [lit "Sign in to Kryptolog", lit "origin=" ++ origin, lit "deployment=" ++ deployment,
      lit "nonce=" ++ nonce, lit "encryption-key-alg=" ++ (if key.isEmpty then [] else lit kemAlg),
      lit "encryption-key=" ++ key]
  | attestation address key =>
    [lit "address=" ++ address, lit "encryption-alg=" ++ lit kemAlg, lit "encryption=" ++ key]
  | rotation address oldKid newKid ts =>
    [lit "address=" ++ address, lit "old-kid=" ++ oldKid, lit "new-kid=" ++ newKid,
      lit "new-alg=" ++ lit kemAlg, lit "ts=" ++ ts.text]
  | accountDeletion nonce mode redactionKeys origin deployment =>
    [lit "origin=" ++ origin, lit "deployment=" ++ deployment, lit "nonce=" ++ nonce,
      lit "mode=" ++ mode, lit "redactions=" ++ digest sha384Hex (redactionsValue redactionKeys)]
  | conversationErase nonce kind conversation redactionKeys origin deployment =>
    [lit "origin=" ++ origin, lit "deployment=" ++ deployment, lit "nonce=" ++ nonce,
      lit "conversation=" ++ (kind ++ .char ':' :: conversation),
      lit "redactions=" ++ digest sha384Hex (redactionsValue redactionKeys)]
  | message sender conv sid ct gid keys ts seq =>
    [lit "from=" ++ sender, lit "conv=" ++ conv, lit "gid=" ++ gid.getD [], lit "sid=" ++ sid,
      lit "ts=" ++ ts.text, lit "seq=" ++ seq.text,
      lit "keysh=" ++ digest sha384Hex (keys.getD .null), lastLine ct]
  | multisigApproval workflowId secretId digest =>
    [lit "workflow=" ++ workflowId.text, lit "secret=" ++ secretId.text, lit "ct=" ++ digest.text]
  | content document => [document.text]

end Call

section spec

variable {sha384Hex : String → String} {b : Text}

/-- The text of a call that its builder accepts. -/
def Call.text (sha384Hex : String → String) (c : Call) : Text :=
  domainSeparate c.context.text (lines (c.fields sha384Hex))

theorem login_eq_ok {nonce origin deployment : Text} {key : Option Text}
    (h : (Call.login nonce origin deployment key).body sha384Hex = .ok b) :
    isHex nonce = true ∧ isOriginText origin = true ∧ isIdentifierText deployment = true ∧
      (key.getD [] = [] ∨ isHex (key.getD []) = true) ∧
      b = (Call.login nonce origin deployment key).text sha384Hex := by
  cases key with
  | none =>
    simp only [Call.body, loginChallengeBody, optionalText, interpolate_str, interpolate_null, ok_bind,
      bind_eq_ok, need_eq_ok, Except.ok.injEq, exists_const] at h
    obtain ⟨hnonce, horigin, hdeployment, -, rfl⟩ := h
    exact ⟨hnonce, horigin, hdeployment, .inl rfl, rfl⟩
  | some key =>
    simp only [Call.body, loginChallengeBody, optionalText, interpolate_str, ok_bind, bind_eq_ok,
      need_eq_ok, Except.ok.injEq, exists_const] at h
    obtain ⟨hnonce, horigin, hdeployment, hkey, rfl⟩ := h
    refine ⟨hnonce, horigin, hdeployment, ?_, ?_⟩
    · simpa [isNullish, isEmptyText, isString] using hkey
    · cases key <;> rfl

theorem attestation_eq_ok {address key : Text}
    (h : (Call.attestation address key).body sha384Hex = .ok b) :
    isHexOfLength 96 address = true ∧ isHex key = true ∧
      b = (Call.attestation address key).text sha384Hex := by
  simp only [Call.body, encryptionKeyAttestationBody, interpolate_str, ok_bind, bind_eq_ok,
    need_eq_ok, Except.ok.injEq, exists_const] at h
  obtain ⟨haddress, hkey, rfl⟩ := h
  exact ⟨haddress, hkey, rfl⟩

theorem rotation_eq_ok {address oldKid newKid : Text} {ts : Number}
    (h : (Call.rotation address oldKid newKid ts).body sha384Hex = .ok b) :
    isHexOfLength 96 address = true ∧ isHexOfLength 32 oldKid = true ∧
      isHexOfLength 32 newKid = true ∧ b = (Call.rotation address oldKid newKid ts).text sha384Hex := by
  simp only [Call.body, keyRotationBody, interpolate_str, interpolate_num, ok_bind, bind_eq_ok,
    need_eq_ok, Except.ok.injEq, exists_const] at h
  obtain ⟨haddress, hold, hnew, -, -, rfl⟩ := h
  exact ⟨haddress, hold, hnew, rfl⟩

theorem accountDeletion_eq_ok {nonce mode origin deployment : Text} {keys : List Text}
    (h : (Call.accountDeletion nonce mode keys origin deployment).body sha384Hex = .ok b) :
    isHex nonce = true ∧ (mode = lit "leave" ∨ mode = lit "erase") ∧ isOriginText origin = true ∧
      isIdentifierText deployment = true ∧
      b = (Call.accountDeletion nonce mode keys origin deployment).text sha384Hex := by
  simp only [Call.body, accountDeletionBody, sortTexts_str, interpolate_str, ok_bind, bind_eq_ok,
    need_eq_ok, Except.ok.injEq, exists_const] at h
  obtain ⟨hnonce, hmode, horigin, hdeployment, rfl⟩ := h
  refine ⟨hnonce, ?_, horigin, hdeployment, rfl⟩
  simpa [isString] using hmode

theorem conversationErase_eq_ok {nonce kind conversation origin deployment : Text}
    {keys : List Text}
    (h : (Call.conversationErase nonce kind conversation keys origin deployment).body sha384Hex =
      .ok b) :
    isHex nonce = true ∧
      ((kind = lit "dm" ∧ isHexOfLength 96 conversation = true) ∨
        (kind = lit "group" ∧ isIdentifierText conversation = true)) ∧
      isOriginText origin = true ∧ isIdentifierText deployment = true ∧
      b = (Call.conversationErase nonce kind conversation keys origin deployment).text sha384Hex := by
  simp only [Call.body, conversationEraseBody, sortTexts_str, interpolate_str, ok_bind, bind_eq_ok,
    need_eq_ok, Except.ok.injEq, exists_const] at h
  obtain ⟨hnonce, hconversation, horigin, hdeployment, rfl⟩ := h
  refine ⟨hnonce, ?_, horigin, hdeployment, rfl⟩
  simpa [isString, isAddress, isSignedIdentifier] using hconversation

theorem message_eq_ok {sender conv sid : Text} {ct : Option Ciphertext} {gid : Option Text}
    {keys : Option Value} {ts seq : Number}
    (h : (Call.message sender conv sid ct gid keys ts seq).body sha384Hex = .ok b) :
    isHexOfLength 96 sender = true ∧
      (isHexOfLength 96 conv = true ∨ isIdentifierText conv = true) ∧
      (gid.getD [] = [] ∨ isIdentifierText (gid.getD []) = true) ∧ isIdentifierText sid = true ∧
      b = (Call.message sender conv sid ct gid keys ts seq).text sha384Hex := by
  have hlast : ciphertextLine ((ct.map Ciphertext.value).getD .null) = .ok (Call.lastLine ct) := by
    cases ct <;> rfl
  have hgid : interpolate (if isNullish (optionalText gid) = true then .str [] else optionalText gid) =
      .ok (gid.getD []) := by
    cases gid <;> rfl
  simp only [Call.body, messageSigningBody, hlast, hgid, interpolate_str, interpolate_num, ok_bind,
    bind_eq_ok, need_eq_ok, Except.ok.injEq, exists_const] at h
  obtain ⟨hsender, hconv, hgroup, hsid, -, -, rfl⟩ := h
  refine ⟨hsender, ?_, ?_, hsid, rfl⟩
  · simpa [isAddress, isSignedIdentifier, isString] using hconv
  · cases gid with
    | none => exact .inl rfl
    | some s => simpa [optionalText, isEmptyText, isNullish, isSignedIdentifier, isString] using hgroup

theorem isPlain_lastLine (ct : Option Ciphertext) : isPlain (Call.lastLine ct) = true := by
  cases ct with
  | none => decide
  | some ct =>
    have hiv := isPlain_of_consistsOf (p := isBase64Char) (by decide) ct.iv_base64
    have hcontent := isPlain_of_consistsOf (p := isBase64Char) (by decide) ct.content_base64
    rw [Call.lastLine, isPlain_append, isPlain_append, hiv, ← List.singleton_append, isPlain_append,
      hcontent]
    rfl

theorem isPlain_field {label s : Text} (hlabel : isPlain label = true) (h : isPlain s = true) :
    isPlain (label ++ s) = true := by
  rw [isPlain_append, hlabel, h]
  rfl

/-- Every line of an accepted call is plain, a document apart. -/
theorem body_eq_ok {c : Call} (hsha : IsDigest sha384Hex) (h : c.body sha384Hex = .ok b) :
    b = c.text sha384Hex ∧
      (c.context = .content ∨ ∀ l ∈ c.fields sha384Hex, isPlain l = true) := by
  cases c with
  | login nonce origin deployment key =>
    obtain ⟨hnonce, horigin, hdeployment, hkey, rfl⟩ := login_eq_ok h
    have hkey : isPlain (key.getD []) = true := by
      rcases hkey with hnil | hhex
      · rw [hnil]
        rfl
      · exact isPlain_hex hhex
    have halg : isPlain (if (key.getD []).isEmpty then [] else lit kemAlg) = true := by
      split <;> decide
    refine ⟨rfl, .inr ?_⟩
    simp only [Call.fields, List.forall_mem_cons, List.not_mem_nil, false_implies, implies_true,
      and_true]
    exact ⟨by decide, isPlain_field (by decide) (isPlain_origin horigin),
      isPlain_field (by decide) (isPlain_identifier hdeployment),
      isPlain_field (by decide) (isPlain_hex hnonce), isPlain_field (by decide) halg,
      isPlain_field (by decide) hkey⟩
  | attestation address key =>
    obtain ⟨haddress, hkey, rfl⟩ := attestation_eq_ok h
    refine ⟨rfl, .inr ?_⟩
    simp only [Call.fields, List.forall_mem_cons, List.not_mem_nil, false_implies, implies_true,
      and_true]
    exact ⟨isPlain_field (by decide) (isPlain_hexOfLength haddress), by decide,
      isPlain_field (by decide) (isPlain_hex hkey)⟩
  | rotation address oldKid newKid ts =>
    obtain ⟨haddress, hold, hnew, rfl⟩ := rotation_eq_ok h
    refine ⟨rfl, .inr ?_⟩
    simp only [Call.fields, List.forall_mem_cons, List.not_mem_nil, false_implies, implies_true,
      and_true]
    exact ⟨isPlain_field (by decide) (isPlain_hexOfLength haddress),
      isPlain_field (by decide) (isPlain_hexOfLength hold),
      isPlain_field (by decide) (isPlain_hexOfLength hnew), by decide,
      isPlain_field (by decide) (isPlain_num ts)⟩
  | accountDeletion nonce mode keys origin deployment =>
    obtain ⟨hnonce, hmode, horigin, hdeployment, rfl⟩ := accountDeletion_eq_ok h
    have hmode : isPlain mode = true := by rcases hmode with rfl | rfl <;> decide
    refine ⟨rfl, .inr ?_⟩
    simp only [Call.fields, List.forall_mem_cons, List.not_mem_nil, false_implies, implies_true,
      and_true]
    exact ⟨isPlain_field (by decide) (isPlain_origin horigin),
      isPlain_field (by decide) (isPlain_identifier hdeployment),
      isPlain_field (by decide) (isPlain_hex hnonce), isPlain_field (by decide) hmode,
      isPlain_field (by decide) (isPlain_digest hsha _)⟩
  | conversationErase nonce kind conversation keys origin deployment =>
    obtain ⟨hnonce, hconversation, horigin, hdeployment, rfl⟩ := conversationErase_eq_ok h
    have hnamed : isPlain (kind ++ .char ':' :: conversation) = true := by
      rw [isPlain_append, ← List.singleton_append, isPlain_append]
      rcases hconversation with ⟨rfl, hconversation⟩ | ⟨rfl, hconversation⟩
      · rw [isPlain_hexOfLength hconversation]
        decide
      · rw [isPlain_identifier hconversation]
        decide
    refine ⟨rfl, .inr ?_⟩
    simp only [Call.fields, List.forall_mem_cons, List.not_mem_nil, false_implies, implies_true,
      and_true]
    exact ⟨isPlain_field (by decide) (isPlain_origin horigin),
      isPlain_field (by decide) (isPlain_identifier hdeployment),
      isPlain_field (by decide) (isPlain_hex hnonce), isPlain_field (by decide) hnamed,
      isPlain_field (by decide) (isPlain_digest hsha _)⟩
  | message sender conv sid ct gid keys ts seq =>
    obtain ⟨hsender, hconv, hgid, hsid, rfl⟩ := message_eq_ok h
    have hconv : isPlain conv = true := hconv.elim isPlain_hexOfLength isPlain_identifier
    have hgid : isPlain (gid.getD []) = true := by
      rcases hgid with hnil | hgid
      · rw [hnil]
        rfl
      · exact isPlain_identifier hgid
    refine ⟨rfl, .inr ?_⟩
    simp only [Call.fields, List.forall_mem_cons, List.not_mem_nil, false_implies, implies_true,
      and_true]
    exact ⟨isPlain_field (by decide) (isPlain_hexOfLength hsender), isPlain_field (by decide) hconv,
      isPlain_field (by decide) hgid, isPlain_field (by decide) (isPlain_identifier hsid),
      isPlain_field (by decide) (isPlain_num ts), isPlain_field (by decide) (isPlain_num seq),
      isPlain_field (by decide) (isPlain_digest hsha _), isPlain_lastLine ct⟩
  | multisigApproval workflowId secretId hash =>
    simp only [Call.body, multisigApprovalMessage, interpolate_num, interpolate_str, ok_bind,
      Except.ok.injEq] at h
    refine ⟨h.symm, .inr ?_⟩
    simp only [Call.fields, List.forall_mem_cons, List.not_mem_nil, false_implies, implies_true,
      and_true]
    exact ⟨isPlain_field (by decide) (isPlain_num workflowId),
      isPlain_field (by decide) (isPlain_num secretId),
      isPlain_field (by decide) (isPlain_of_consistsOf (by decide) hash.digits)⟩
  | content document =>
    refine ⟨?_, .inl rfl⟩
    rw [← Except.ok.inj h]
    simp [Call.text, Call.fields, Call.context, lines]

end spec

/-! ## What the bytes determine -/

theorem Number.text_inj {n m : Number} (h : n.text = m.text) : n = m := by
  have hchar : Function.Injective Point.char := fun _ _ hc => Point.char.inj hc
  have hspelling := List.map_injective_iff.mpr hchar h
  obtain ⟨spelling, starts, chars⟩ := n
  obtain rfl : spelling = m.spelling := hspelling
  rfl

/-- Lists with one sorted form differ in order only. -/
theorem perm_of_ordered {keys keys' : List Text}
    (h : ordered (Call.redactionsValue keys) = ordered (Call.redactionsValue keys')) :
    keys.Perm keys' := by
  have hstr : ∀ ks : List Text, (ks.map Value.str).map ordered = ks.map .str := fun ks => by
    rw [List.map_map]
    rfl
  simp only [Call.redactionsValue, ordered, orderedItems_eq, hstr, Value.arr.injEq] at h
  have hinj : Function.Injective Value.str := fun _ _ hs => Value.str.inj hs
  have hsorted := List.map_injective_iff.mpr hinj h
  exact ((List.perm_insertionSort _ keys).symm.trans (List.Perm.of_eq hsorted)).trans
    (List.perm_insertionSort _ keys')

theorem lastLine_inj {ct ct' : Option Ciphertext} (h : Call.lastLine ct = Call.lastLine ct') :
    ct = ct' := by
  have hdot : ∀ {s : Text}, Text.consistsOf isBase64Char s = true → Point.char '.' ∉ s := by
    intro s hs hmem
    exact absurd (List.all_eq_true.mp hs _ hmem) (by decide)
  cases ct with
  | none =>
    cases ct' with
    | none => rfl
    | some ct' => cases (List.cons.inj h).1
  | some ct =>
    cases ct' with
    | none => cases (List.cons.inj h).1
    | some ct' =>
      obtain ⟨hiv, hcontent⟩ := append_cons_inj (hdot ct.iv_base64) (hdot ct'.iv_base64)
        (List.append_cancel_left h)
      cases ct
      cases ct'
      simp only at hiv hcontent
      subst hiv hcontent
      rfl

/-- The lines of a call determine what it says. -/
theorem same_of_fields {sha384Hex : String → String} {c c' : Call} {b b' : Text}
    (hcoll : NoCollision sha384Hex c c') (h : c.body sha384Hex = .ok b)
    (h' : c'.body sha384Hex = .ok b') (hcontext : c.context = c'.context)
    (hfields : c.fields sha384Hex = c'.fields sha384Hex) : c.Same c' := by
  cases c with
  | login nonce origin deployment key =>
    cases c' with
    | login =>
      simp only [Call.fields, List.cons.injEq, List.append_cancel_left_eq, and_true, true_and]
        at hfields
      obtain ⟨horigin, hdeployment, hnonce, -, hkey⟩ := hfields
      exact ⟨hnonce, horigin, hdeployment, hkey⟩
    | _ => cases hcontext
  | attestation address key =>
    cases c' with
    | attestation =>
      simp only [Call.fields, List.cons.injEq, List.append_cancel_left_eq, and_true, true_and]
        at hfields
      exact hfields
    | _ => cases hcontext
  | rotation address oldKid newKid ts =>
    cases c' with
    | rotation =>
      simp only [Call.fields, List.cons.injEq, List.append_cancel_left_eq, and_true, true_and]
        at hfields
      obtain ⟨haddress, hold, hnew, hts⟩ := hfields
      exact ⟨haddress, hold, hnew, Number.text_inj hts⟩
    | _ => cases hcontext
  | accountDeletion nonce mode keys origin deployment =>
    cases c' with
    | accountDeletion nonce' mode' keys' origin' deployment' =>
      simp only [Call.fields, List.cons.injEq, List.append_cancel_left_eq, and_true] at hfields
      obtain ⟨horigin, hdeployment, hnonce, hmode, hdigest⟩ := hfields
      have hjson := hcoll _ (List.mem_singleton_self _) _ (List.mem_singleton_self _) hdigest
      exact ⟨hnonce, hmode, perm_of_ordered (ordered_eq_of_canonicalJson hjson), horigin,
        hdeployment⟩
    | _ => cases hcontext
  | conversationErase nonce kind conversation keys origin deployment =>
    cases c' with
    | conversationErase nonce' kind' conversation' keys' origin' deployment' =>
      have hcolon : ∀ {kind conversation : Text},
          (kind = lit "dm" ∧ isHexOfLength 96 conversation = true) ∨
            (kind = lit "group" ∧ isIdentifierText conversation = true) →
          Point.char ':' ∉ kind := by
        rintro _ _ (⟨rfl, -⟩ | ⟨rfl, -⟩) <;> decide
      have hkind := hcolon (conversationErase_eq_ok h).2.1
      have hkind' := hcolon (conversationErase_eq_ok h').2.1
      simp only [Call.fields, List.cons.injEq, List.append_cancel_left_eq, and_true] at hfields
      obtain ⟨horigin, hdeployment, hnonce, hnamed, hdigest⟩ := hfields
      obtain ⟨rfl, rfl⟩ := append_cons_inj hkind hkind' hnamed
      have hjson := hcoll _ (List.mem_singleton_self _) _ (List.mem_singleton_self _) hdigest
      exact ⟨hnonce, rfl, rfl, perm_of_ordered (ordered_eq_of_canonicalJson hjson), horigin,
        hdeployment⟩
    | _ => cases hcontext
  | message sender conv sid ct gid keys ts seq =>
    cases c' with
    | message sender' conv' sid' ct' gid' keys' ts' seq' =>
      simp only [Call.fields, List.cons.injEq, List.append_cancel_left_eq, and_true] at hfields
      obtain ⟨hsender, hconv, hgid, hsid, hts, hseq, hdigest, hct⟩ := hfields
      have hjson := hcoll _ (List.mem_singleton_self _) _ (List.mem_singleton_self _) hdigest
      exact ⟨hsender, hconv, hsid, lastLine_inj hct, hgid, ordered_eq_of_canonicalJson hjson,
        Number.text_inj hts, Number.text_inj hseq⟩
    | _ => cases hcontext
  | multisigApproval workflowId secretId hash =>
    cases c' with
    | multisigApproval workflowId' secretId' hash' =>
      simp only [Call.fields, List.cons.injEq, List.append_cancel_left_eq, and_true] at hfields
      obtain ⟨hworkflow, hsecret, hhash⟩ := hfields
      refine ⟨Number.text_inj hworkflow, Number.text_inj hsecret, ?_⟩
      cases hash
      cases hash'
      simp only at hhash
      subst hhash
      rfl
    | _ => cases hcontext
  | content document =>
    cases c' with
    | content document' =>
      have htext : document.text = document'.text := (List.cons.inj hfields).1
      cases document
      cases document'
      simp only at htext
      subst htext
      rfl
    | _ => cases hcontext

/-- Calls with one text are of one kind and have one list of lines. -/
theorem fields_of_text {sha384Hex : String → String} {c c' : Call}
    (hc : c.context = .content ∨ ∀ l ∈ c.fields sha384Hex, isPlain l = true)
    (hc' : c'.context = .content ∨ ∀ l ∈ c'.fields sha384Hex, isPlain l = true)
    (h : c.text sha384Hex = c'.text sha384Hex) :
    c.context = c'.context ∧ c.fields sha384Hex = c'.fields sha384Hex := by
  obtain ⟨hcontext, hbody⟩ := domainSeparate_inj h
  refine ⟨hcontext, ?_⟩
  have hne : ∀ c : Call, c.fields sha384Hex ≠ [] := by
    intro c hnil
    cases c <;> cases hnil
  rcases hc with hcontent | hplain
  · cases c with
    | content document =>
      cases c' with
      | content document' => simpa [Call.fields, lines] using hbody
      | _ => cases hcontext
    | _ => cases hcontent
  · rcases hc' with hcontent | hplain'
    · cases c' with
      | content document' =>
        cases c with
        | content document => simpa [Call.fields, lines] using hbody
        | _ => cases hcontext
      | _ => cases hcontent
    · exact lines_inj (hne c) (hne c') hplain hplain' hbody

theorem isWellFormed_text {sha384Hex : String → String} {c : Call}
    (hc : c.context = .content ∨ ∀ l ∈ c.fields sha384Hex, isPlain l = true) :
    (c.text sha384Hex).isWellFormed = true := by
  refine isWellFormed_domainSeparate (isWellFormed_lines fun l hl => ?_)
  rcases hc with hcontent | hplain
  · cases c with
    | content document =>
      obtain rfl := List.mem_singleton.mp hl
      exact document.wellFormed
    | _ => cases hcontent
  · exact isWellFormed_of_isPlain (hplain l hl)

/-- Two calls that produce the same bytes are of one kind and say the same. -/
theorem same_of_encode_eq {sha384Hex : String → String} {c c' : Call} {b b' : Text}
    (hsha : IsDigest sha384Hex) (hcoll : NoCollision sha384Hex c c')
    (h : c.body sha384Hex = .ok b) (h' : c'.body sha384Hex = .ok b') (heq : b.encode = b'.encode) :
    c.Same c' := by
  obtain ⟨rfl, hplain⟩ := body_eq_ok hsha h
  obtain ⟨rfl, hplain'⟩ := body_eq_ok hsha h'
  have htext := encode_inj (isWellFormed_text hplain) (isWellFormed_text hplain') heq
  obtain ⟨hcontext, hfields⟩ := fields_of_text hplain hplain' htext
  exact same_of_fields hcoll h h' hcontext hfields

def sampleDeletion (redactionKeys : List Text) : Call :=
  .accountDeletion (lit "0a1b") (lit "erase") redactionKeys (lit "https://app.example") (lit "eu-1")

/-- SHA-384, at the one text that the two calls below hash. -/
def sampleSha384 (s : String) : String :=
  if s = "[\"dm:10\",\"dm:2\"]" then
    "b5572c85d9cd106739dfb22f65ddd86a3326448fb1210046" ++
      "f28a1a3017f9ee91c723849b1051a7d74282f67334ea1d8f"
  else ""

/-- A list of redactions may be given in any order. -/
theorem same_of_encode_eq_sample :
    (sampleDeletion [lit "dm:2", lit "dm:10"]).Same (sampleDeletion [lit "dm:10", lit "dm:2"]) := by
  have hsha : IsDigest sampleSha384 := by
    intro s
    unfold sampleSha384
    split <;> decide
  have hsame : (sampleDeletion [lit "dm:2", lit "dm:10"]).hashed =
      (sampleDeletion [lit "dm:10", lit "dm:2"]).hashed := rfl
  have hcoll : NoCollision sampleSha384 (sampleDeletion [lit "dm:2", lit "dm:10"])
      (sampleDeletion [lit "dm:10", lit "dm:2"]) := by
    intro v hv v' hv' _
    rw [hsame] at hv
    rw [List.mem_singleton.mp hv, List.mem_singleton.mp hv']
  exact same_of_encode_eq hsha hcoll rfl rfl rfl

end Kryptolog.Client
