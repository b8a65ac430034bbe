import Kryptolog.Client.SignedBodies
import Kryptolog.Client.Messages
import Kryptolog.Client.RoundTrips
import Kryptolog.Library.JsonText

/-! # The sizes of messages

What `sendMessage`, `sendGroupMessage` and `encryptGroupName` put in a request, and the bounds of `schemas.py` that it
is held against.
-/

namespace Kryptolog.Client.MessageSizes
set_option autoImplicit false

open Script Fallible JsonText
open Envelopes (CryptoPrimitives Iv Randomness wrapSessionKey encryptWithSessionKey kemEnvelope aeadEnvelope)

/-! ## The server's bounds -/

def b64Chars (byteLen : ℕ) : ℕ := (byteLen + 2) / 3 * 4

def addressChars : ℕ := 96

def maxGroupMembers : ℕ := 50

def signatureChars : ℕ := b64Chars 3413

def wrappedKeyChars : ℕ := 1850

def keyWrapCharsPerMember : ℕ := addressChars + wrappedKeyChars

def maxMessageTextChars : ℕ := 10000

def maxMessageTextBytes : ℕ := 3 * maxMessageTextChars

def ciphertextChars : ℕ := b64Chars (maxMessageTextBytes + 16)

def envelopeSlackChars : ℕ := 1000

def maxGroupNameLen : ℕ := maxGroupMembers * keyWrapCharsPerMember

def maxDmContentLen : ℕ := signatureChars + 2 * wrappedKeyChars + ciphertextChars + envelopeSlackChars

def maxGroupMessageContentLen : ℕ := signatureChars + maxGroupNameLen + ciphertextChars + envelopeSlackChars

/-! ## What is sent -/

/-- What the messenger calls of crypto-core and the platform. -/
structure Suites extends CryptoPrimitives where
  sha384Hex : String → String
  /-- `SIGNATURE_SUITE.sign` of a message, with a secret key. -/
  sign : Bytes → Bytes → Except String Bytes

structure User where
  address : Text
  identitySeed : Text
  /-- `user.encryption_public_key || ownEncryptionKey`. -/
  encryptionPublicKey : Option Text

/-- A member of a group, or a partner. The server serves addresses of 96 lowercase digits. -/
structure Member where
  address : Text
  isAddress : isHexOfLength 96 address = true
  encryptionPublicKey : Text

/-- A message on its way: the text, the session that it goes out in, and the values drawn for it. -/
structure Outgoing where
  text : Text
  sid : Text
  sKey : Text
  /-- The session is new: its key goes out with the message. -/
  mints : Bool
  ts : ℕ
  seq : ℕ
  iv : Iv
  /-- The values drawn for the wrap that is kept under a name. -/
  random : Text → Randomness

section sending

variable (suites : Suites)

def signMessage (message identitySeedHex : Text) : Except String Text := do
  let seed ← fromHex identitySeedHex
  let signature ← suites.sign message.encode seed
  .ok (toB64 signature)

def wrapForSender (user : User) (m : Outgoing) : Except String Value :=
  match user.encryptionPublicKey with
  | some myKey => wrapSessionKey suites.toCryptoPrimitives m.sKey myKey (m.random (lit "sender"))
  | none => .ok .null

/-- The `keyPayload` of `sendMessage`: the wraps of a new session of two. -/
def dmKeyPayload (user : User) (partner : Member) (m : Outgoing) : Except String Value :=
  if m.mints then do
    let wRecip ← wrapSessionKey suites.toCryptoPrimitives m.sKey partner.encryptionPublicKey (m.random (lit "recip"))
    let wSender ← wrapForSender suites user m
    .ok (.obj [(lit "recip", wRecip), (lit "sender", wSender)])
  else .ok .null

/-- The `content` that `sendMessage` posts. -/
def sendMessage (user : User) (partner : Member) (m : Outgoing) : Except String (List Char) := do
  let theirAddr := toLowerCase partner.address
  let keyPayload ← dmKeyPayload suites user partner m
  let ct ← encryptWithSessionKey suites.toCryptoPrimitives m.text m.sKey m.iv
  let body ← messageSigningBody suites.sha384Hex (.str (toLowerCase user.address)) (.str theirAddr) (.str m.sid) ct
    .null keyPayload (.num (.ofNat m.ts)) (.num (.ofNat m.seq))
  let sig ← signMessage suites body user.identitySeed
  .ok (spell (.obj [(lit "v", .num (.ofNat 1)), (lit "sid", .str m.sid), (lit "ts", .num (.ofNat m.ts)),
    (lit "seq", .num (.ofNat m.seq)), (lit "keys", keyPayload), (lit "ct", ct), (lit "sig", .str sig)]))

/-- A map of wraps, with the wrap for one more member. -/
def wrapFor (sKey : Text) (random : Text → Randomness) (wrappedKeys : List (Text × Value)) (name : Text)
    (encryptionPublicKey : Text) : Except String (List (Text × Value)) := do
  let wrap ← wrapSessionKey suites.toCryptoPrimitives sKey encryptionPublicKey (random name)
  .ok (setMember wrappedKeys name wrap)

/-- The `keyPayload` of `sendGroupMessage`: a wrap of a new session for each member that passes the gate. -/
def groupKeyPayload (safe : List Member) (m : Outgoing) : Except String Value :=
  if m.mints then do
    let wrappedKeys ← safe.foldlM (fun wrappedKeys member =>
      wrapFor suites m.sKey m.random wrappedKeys member.address member.encryptionPublicKey) []
    .ok (.obj wrappedKeys)
  else .ok .null

/-- The `content` that `sendGroupMessage` posts, for the members that pass the gate. -/
def sendGroupMessage (user : User) (channelId : Text) (safe : List Member) (m : Outgoing) :
    Except String (List Char) := do
  let keyPayload ← groupKeyPayload suites safe m
  let ct ← encryptWithSessionKey suites.toCryptoPrimitives m.text m.sKey m.iv
  let body ← messageSigningBody suites.sha384Hex (.str (toLowerCase user.address)) (.str channelId) (.str m.sid) ct
    (.str channelId) keyPayload (.num (.ofNat m.ts)) (.num (.ofNat m.seq))
  let sig ← signMessage suites body user.identitySeed
  .ok (spell (.obj [(lit "v", .num (.ofNat 2)), (lit "sid", .str m.sid), (lit "gid", .str channelId),
    (lit "ts", .num (.ofNat m.ts)), (lit "seq", .num (.ofNat m.seq)), (lit "keys", keyPayload), (lit "ct", ct),
    (lit "sig", .str sig)]))

/-- The name of a group, on its way. -/
structure NewName where
  name : Text
  nameKey : Text
  iv : Iv
  random : Text → Randomness

/-- `encryptGroupName`. -/
def encryptGroupName (members : List Member) (n : NewName) : Except String (List Char) := do
  let ct ← encryptWithSessionKey suites.toCryptoPrimitives n.name n.nameKey n.iv
  let keys ← members.foldlM (fun keys member =>
    if member.encryptionPublicKey.isEmpty then .ok keys
    else wrapFor suites n.nameKey n.random keys (toLowerCase member.address) member.encryptionPublicKey) []
  .ok ("encg1:".toList ++ spell (.obj [(lit "ct", ct), (lit "keys", .obj keys)]))

/-- Whom `buildGroupNameBlob` wraps the key of a name for: the caller, then the others. -/
def nameTargets (me : Member) (memberUsers : List Member) : List Member :=
  me :: memberUsers.filter fun m => toLowerCase m.address != toLowerCase me.address

def buildGroupNameBlob (me : Member) (memberUsers : List Member) (n : NewName) : Except String (List Char) :=
  encryptGroupName suites (nameTargets me memberUsers) n

end sending

/-- The sizes that the algorithms produce: a tag of 16 bytes, a ciphertext of a point and an ML-KEM-768 ciphertext, and
a signature of ML-DSA-65 with at most 104 bytes of DER. -/
structure Sized (suites : Suites) : Prop where
  tagged : ∀ key iv aad text, (suites.gcmEncrypt key iv aad text).length = text.length + 16
  cipherText_length : ∀ key random cipherText shared, suites.encapsulate key random = .ok (cipherText, shared) →
    cipherText.length = 97 + 1088
  signature_length : ∀ message key signature, suites.sign message key = .ok signature →
    signature.length ≤ 3309 + 104

/-! ## The length of JSON -/

/-- A character that JSON writes as it is. -/
def isPlain (c : Char) : Bool := c ≠ '"' && c ≠ '\\' && 32 ≤ c.toNat

theorem escapeChar_plain {c : Char} (h : isPlain c = true) : escapeChar c = [c] := by
  simp only [isPlain, Bool.and_eq_true, decide_eq_true_eq] at h
  obtain ⟨⟨hquote, hback⟩, hcontrol⟩ := h
  have hne : ∀ d : Char, d.toNat < 32 → c ≠ d := by
    rintro d hd rfl
    omega
  rw [escapeChar, if_neg hquote, if_neg hback, if_neg (hne '\n' (by decide)), if_neg (hne '\r' (by decide)),
    if_neg (hne '\t' (by decide)), if_neg (by omega), if_neg (by omega), if_neg (by omega)]

theorem length_quote {s : Text} (h : s.consistsOf isPlain = true) : (quote s).length = s.length + 2 := by
  have hescapes : (s.flatMap escape).length = s.length := by
    induction s with
    | nil => rfl
    | cons p s ih =>
      obtain ⟨hp, hs⟩ := Bool.and_eq_true_iff.mp (List.all_cons.symm.trans h)
      cases p with
      | surrogate n => cases hp
      | char c =>
        have hc : escape (.char c) = [c] := escapeChar_plain hp
        rw [List.flatMap_cons, hc, List.singleton_append, List.length_cons, List.length_cons, ih hs]
  simp only [quote, List.length_cons, List.length_append, List.length_nil, hescapes]

theorem isPlain_of_isAlphanum {c : Char} (h : c.isAlphanum = true) : isPlain c = true := by
  have hc : 48 ≤ c.toNat ∧ c ≠ '\\' := by
    refine ⟨?_, by rintro rfl; cases h⟩
    rcases Bool.or_eq_true_iff.mp h with hletter | hdigit
    · rcases Bool.or_eq_true_iff.mp hletter with hupper | hlower
      · have hleast : 'A'.toNat ≤ c.toNat := UInt32.le_iff_toNat_le.mp (of_decide_eq_true hupper).1
        exact le_trans (by decide) hleast
      · have hleast : 'a'.toNat ≤ c.toNat :=
          UInt32.le_iff_toNat_le.mp (of_decide_eq_true (Bool.and_eq_true_iff.mp hlower).1)
        exact le_trans (by decide) hleast
    · exact UInt32.le_iff_toNat_le.mp (of_decide_eq_true (Bool.and_eq_true_iff.mp hdigit).1)
  have hquote : c ≠ '"' := by
    rintro rfl
    exact absurd hc.1 (by decide)
  simp only [isPlain, Bool.and_eq_true, decide_eq_true_eq]
  exact ⟨⟨hquote, hc.2⟩, by omega⟩

theorem consistsOf_mono {p q : Char → Bool} (hpq : ∀ c, p c = true → q c = true) {s : Text}
    (h : s.consistsOf p = true) : s.consistsOf q = true := by
  refine List.all_eq_true.mpr fun point hpoint => ?_
  have hp := List.all_eq_true.mp h point hpoint
  cases point with
  | char c => exact hpq c hp
  | surrogate n => cases hp

theorem isPlain_of_isIdChar {c : Char} (h : Server.isIdChar c = true) : isPlain c = true := by
  simp only [Server.isIdChar, Bool.or_eq_true, beq_iff_eq] at h
  rcases h with (h | rfl) | rfl
  · exact isPlain_of_isAlphanum h
  · decide
  · decide

theorem isPlain_of_isLowerHexDigit {c : Char} (h : Server.isLowerHexDigit c = true) : isPlain c = true := by
  refine isPlain_of_isAlphanum ?_
  rcases Bool.or_eq_true_iff.mp h with hdigit | hletter
  · exact Bool.or_eq_true_iff.mpr (.inr hdigit)
  · obtain ⟨hlow, hhigh⟩ := Bool.and_eq_true_iff.mp hletter
    have hlower : c.isLower = true := by
      have hmost : 'f' ≤ 'z' := by decide
      have hleast : 'a' ≤ c := of_decide_eq_true hlow
      exact Bool.and_eq_true_iff.mpr
        ⟨decide_eq_true hleast, decide_eq_true (Char.le_trans (of_decide_eq_true hhigh) hmost)⟩
    exact Bool.or_eq_true_iff.mpr (.inl (Bool.or_eq_true_iff.mpr (.inr hlower)))

theorem length_base64 (bytes : Bytes) : (Base64.encode bytes).length = b64Chars bytes.length := by
  induction bytes using Base64.encode.induct with
  | case1 => rfl
  | case2 a => simp [Base64.encode, b64Chars]
  | case3 a b => simp [Base64.encode, b64Chars]
  | case4 a b c rest ih =>
    rw [Base64.encode]
    simp only [List.length_cons, ih, b64Chars]
    omega

theorem isPlain_letter : ∀ n < 64, isPlain (Base64.letter n) = true := by decide

theorem isPlain_base64 (bytes : Bytes) : (toB64 bytes).consistsOf isPlain = true := by
  have hpad : isPlain '=' = true := by decide
  have hall : ∀ c ∈ Base64.encode bytes, isPlain c = true := by
    induction bytes using Base64.encode.induct with
    | case1 => exact fun c hc => absurd hc List.not_mem_nil
    | case2 a =>
      have ha := a.toNat_lt
      simp only [Base64.encode, List.forall_mem_cons]
      exact ⟨isPlain_letter _ (by omega), isPlain_letter _ (by omega), hpad, hpad,
        fun c hc => absurd hc List.not_mem_nil⟩
    | case3 a b =>
      have ha := a.toNat_lt
      have hb := b.toNat_lt
      simp only [Base64.encode, List.forall_mem_cons]
      exact ⟨isPlain_letter _ (by omega), isPlain_letter _ (by omega), isPlain_letter _ (by omega), hpad,
        fun c hc => absurd hc List.not_mem_nil⟩
    | case4 a b c rest ih =>
      have ha := a.toNat_lt
      have hb := b.toNat_lt
      have hc := c.toNat_lt
      simp only [Base64.encode, List.forall_mem_cons]
      exact ⟨isPlain_letter _ (by omega), isPlain_letter _ (by omega), isPlain_letter _ (by omega),
        isPlain_letter _ (by omega), ih⟩
  refine List.all_eq_true.mpr fun p hp => ?_
  obtain ⟨c, hc, rfl⟩ := List.mem_map.mp hp
  exact hall c hc

theorem length_quote_toB64 (bytes : Bytes) : (quote (toB64 bytes)).length = b64Chars bytes.length + 2 := by
  rw [length_quote (isPlain_base64 bytes), toB64, ofChars, List.length_map, length_base64]

theorem isPlain_digit : ∀ n < 16, isPlain (Hex.digit n) = true := by decide

theorem isPlain_toHex (bytes : Bytes) : (toHex bytes).consistsOf isPlain = true := by
  refine List.all_eq_true.mpr fun p hp => ?_
  obtain ⟨c, hc, rfl⟩ := List.mem_map.mp hp
  obtain ⟨n, hn, rfl⟩ := Hex.exists_digit (Hex.isLowercase_encode hc)
  exact isPlain_digit n hn

/-- What the parts of a list take, each with a comma. -/
def partsChars (parts : List (List Char)) : ℕ := (parts.map fun part => part.length + 1).sum

theorem length_intercalate {parts : List (List Char)} (h : parts ≠ []) :
    ([','].intercalate parts).length + 1 = partsChars parts := by
  induction parts with
  | nil => exact absurd rfl h
  | cons part parts ih =>
    cases parts with
    | nil => rw [List.intercalate_singleton, partsChars, List.map_singleton, List.sum_singleton]
    | cons next parts =>
      have hrest := ih (List.cons_ne_nil next parts)
      rw [List.intercalate_cons_cons, partsChars, List.map_cons, List.sum_cons]
      simp only [List.length_append, List.length_cons, List.length_nil]
      change _ = part.length + 1 + partsChars (next :: parts)
      omega

theorem length_spell_obj {fields : List (Text × Value)} (h : fields ≠ []) :
    (spell (.obj fields)).length = partsChars (fields.map spellField) + 1 := by
  have hparts := @length_intercalate (fields.map spellField) (by simpa using h)
  rw [spell, spellFields_eq]
  simp only [List.length_append, List.length_cons, List.length_nil]
  omega

theorem length_spell_obj_le (fields : List (Text × Value)) :
    (spell (.obj fields)).length ≤ partsChars (fields.map spellField) + 2 := by
  cases fields with
  | nil => exact Nat.le_refl 2
  | cons f fs =>
    rw [length_spell_obj (List.cons_ne_nil f fs)]
    exact Nat.le_succ _

theorem length_spellField (name : Text) (v : Value) :
    (spellField (name, v)).length = (quote name).length + 1 + (spell v).length := by
  simp only [spellField, List.length_append, List.length_cons]
  omega

theorem partsChars_le {n : ℕ} {parts : List (List Char)} (h : ∀ part ∈ parts, part.length ≤ n) :
    partsChars parts ≤ parts.length * (n + 1) := by
  induction parts with
  | nil => exact Nat.zero_le _
  | cons part parts ih =>
    obtain ⟨hpart, hparts⟩ := List.forall_mem_cons.mp h
    have hrest := ih hparts
    rw [partsChars, List.map_cons, List.sum_cons, List.length_cons, Nat.succ_mul]
    change part.length + 1 + partsChars parts ≤ _
    omega

theorem length_ofNat {n : ℕ} (h : n < 2 ^ 53) : (spell (.num (.ofNat n))).length ≤ 16 := by
  have hdigits : n < 10 ^ 16 := h.trans (by decide)
  exact (Nat.length_toDigits_le_iff (by decide) (by decide)).mpr hdigits

/-- A unit of UTF-16 takes at most three bytes. -/
theorem length_bytes_le (p : Point) : p.bytes.length ≤ 3 * p.units.length := by
  cases p with
  | surrogate n => exact Nat.le_refl 3
  | char c =>
    have hlength : (Point.char c).bytes.length = c.utf8Size := String.length_utf8EncodeChar c
    have hfour := Char.utf8Size_le_four c
    rw [hlength, Point.units]
    split
    · next hc =>
      have hne : c.utf8Size ≠ 4 := by
        intro h
        have hlt := UInt32.lt_iff_toNat_lt.mp (Char.utf8Size_eq_four_iff.mp h)
        have hbound : (65535 : UInt32).toNat = 65535 := rfl
        rw [hbound, Char.toNat_val] at hlt
        omega
      simp only [List.length_cons, List.length_nil]
      omega
    · simp only [List.length_cons, List.length_nil]
      omega

theorem length_encode_le (s : Text) : s.encode.length ≤ 3 * (units s).length := by
  induction s with
  | nil => exact Nat.le_refl 0
  | cons p s ih =>
    have hp := length_bytes_le p
    rw [Text.encode, units, List.flatMap_cons, List.flatMap_cons, List.length_append, List.length_append]
    rw [Text.encode, units] at ih
    omega

/-! ## What the envelopes take -/

section sizes

variable {suites : Suites}

/-- A wrapped key, as JSON. -/
def wrapChars : ℕ := 1788

theorem importKey_length {key bytes : Bytes} (h : Envelopes.importKey key = .ok bytes) : key.length ≤ 32 := by
  unfold Envelopes.importKey at h
  split at h
  · next hlength => omega
  · cases h

/-- The key of a session that something is encrypted under. -/
theorem encrypts {text sKey : Text} {iv : Iv} {ct : Value}
    (h : encryptWithSessionKey suites.toCryptoPrimitives text sKey iv = .ok ct) :
    ∃ key bytes, fromHex sKey = .ok key ∧ key.length ≤ 32 ∧
      ct = aeadEnvelope iv.bytes "content"
        (suites.gcmEncrypt bytes iv.bytes (Envelopes.formatAad Envelopes.aeadAlg none) text.encode) := by
  simp only [encryptWithSessionKey, Envelopes.aeadEncrypt, Envelopes.importAesKey, bind_eq_ok, Except.ok.injEq] at h
  obtain ⟨bytes, ⟨key, hkey, himport⟩, rfl⟩ := h
  exact ⟨key, bytes, hkey, importKey_length himport, rfl⟩

theorem wraps {sKey publicHex : Text} {random : Randomness} {wrap : Value}
    (h : wrapSessionKey suites.toCryptoPrimitives sKey publicHex random = .ok wrap) :
    ∃ key publicKey cipherText shared digest aad, fromHex sKey = .ok key ∧
      suites.encapsulate publicKey random.kem = .ok (cipherText, shared) ∧
      wrap = kemEnvelope ((toHex digest).take 32) cipherText random.iv.bytes "encKey"
        (suites.gcmEncrypt shared random.iv.bytes aad key) := by
  simp only [wrapSessionKey, Envelopes.kemSeal, Envelopes.encryptionKeyId, bind_eq_ok, Except.ok.injEq,
    Prod.exists] at h
  obtain ⟨key, hkey, kid, ⟨publicKey, -, rfl⟩, publicKey', -, cipherText, shared, hencapsulate, h⟩ := h
  obtain ⟨shared', himport, rfl⟩ := h
  obtain rfl : shared' = shared := by
    unfold Envelopes.importKey at himport
    split at himport
    · exact (Except.ok.inj himport).symm
    · cases himport
  exact ⟨key, publicKey', cipherText, shared', _, _, hkey, hencapsulate, rfl⟩

theorem length_iv (iv : Iv) : (spell (.str (toB64 iv.bytes))).length = 18 := by
  rw [spell, length_quote_toB64, iv.length_eq]
  rfl

/-- A wrapped key is no longer than was measured. -/
theorem length_wrap (hsized : Sized suites) {sKey publicHex : Text} {random : Randomness} {wrap : Value}
    (hwrap : wrapSessionKey suites.toCryptoPrimitives sKey publicHex random = .ok wrap) {bytes : Bytes}
    (hkey : fromHex sKey = .ok bytes) (hlength : bytes.length ≤ 32) : (spell wrap).length ≤ wrapChars := by
  obtain ⟨key', publicKey, cipherText, shared, digest, aad, hkey', hencapsulate, rfl⟩ := wraps hwrap
  obtain rfl : bytes = key' := Except.ok.inj (hkey.symm.trans hkey')
  have hkem := hsized.cipherText_length _ _ _ _ hencapsulate
  have htag := hsized.tagged shared random.iv.bytes aad bytes
  generalize suites.gcmEncrypt shared random.iv.bytes aad bytes = sealed at htag
  have hkid : (spell (.str ((toHex digest).take 32))).length ≤ 34 := by
    have hplain : Text.consistsOf isPlain ((toHex digest).take 32) = true :=
      List.all_eq_true.mpr fun p hp => List.all_eq_true.mp (isPlain_toHex digest) p (List.mem_of_mem_take hp)
    rw [spell, length_quote hplain, List.length_take]
    omega
  have hcipher : (spell (.str (toB64 cipherText))).length = 1582 := by
    rw [spell, length_quote_toB64, hkem]
    rfl
  have hsealed : (spell (.str (toB64 sealed))).length ≤ 66 := by
    rw [spell, length_quote_toB64, b64Chars]
    omega
  have hversion : (spellField (lit "v", .num Envelopes.formatVersion)).length = 5 := by decide
  have halg : (spellField (lit "alg", .str Envelopes.kemEnvelopeAlg)).length = 50 := by decide
  have hiv := length_iv random.iv
  have hnames : (quote (lit "kid")).length = 5 ∧ (quote (lit "kem")).length = 5 ∧ (quote (lit "iv")).length = 4 ∧
      (quote (lit "encKey")).length = 8 := by decide
  rw [kemEnvelope, length_spell_obj (List.cons_ne_nil _ _), partsChars, wrapChars]
  simp only [List.map_cons, List.map_nil, List.sum_cons, List.sum_nil, hversion, halg]
  simp only [length_spellField, hcipher, hiv, hnames]
  omega

/-- What a text under a session key takes. -/
def sealedChars (unitCount : ℕ) : ℕ := 60 + b64Chars (3 * unitCount + 16)

theorem length_ct (hsized : Sized suites) {text sKey : Text} {iv : Iv} {ct : Value} {n : ℕ}
    (hct : encryptWithSessionKey suites.toCryptoPrimitives text sKey iv = .ok ct) (hn : (units text).length ≤ n) :
    (spell ct).length ≤ sealedChars n := by
  obtain ⟨key, bytes, -, -, rfl⟩ := encrypts hct
  have hencode := length_encode_le text
  have htag := hsized.tagged bytes iv.bytes (Envelopes.formatAad Envelopes.aeadAlg none) text.encode
  generalize suites.gcmEncrypt bytes iv.bytes (Envelopes.formatAad Envelopes.aeadAlg none) text.encode = sealed
    at htag
  have hsealed : (spell (.str (toB64 sealed))).length ≤ b64Chars (3 * n + 16) + 2 := by
    rw [spell, length_quote_toB64, b64Chars, b64Chars]
    omega
  have hversion : (spellField (lit "v", .num Envelopes.formatVersion)).length = 5 := by decide
  have halg : (spellField (lit "alg", .str Envelopes.aeadAlg)).length = 15 := by decide
  have hiv := length_iv iv
  have hnames : (quote (lit "iv")).length = 4 ∧ (quote (lit "content")).length = 9 := by decide
  rw [aeadEnvelope, length_spell_obj (List.cons_ne_nil _ _), partsChars, sealedChars]
  simp only [List.map_cons, List.map_nil, List.sum_cons, List.sum_nil, hversion, halg]
  simp only [length_spellField, hiv, hnames]
  omega

theorem length_sig (hsized : Sized suites) {message seed sig : Text}
    (h : signMessage suites message seed = .ok sig) : (spell (.str sig)).length ≤ signatureChars + 2 := by
  simp only [signMessage, bind_eq_ok, Except.ok.injEq] at h
  obtain ⟨key, -, signature, hsign, rfl⟩ := h
  have hlength := hsized.signature_length _ _ _ hsign
  rw [spell, length_quote_toB64, signatureChars, b64Chars, b64Chars]
  omega

/-! ## Maps of wraps -/

/-- A wrap under an address. -/
def entryChars : ℕ := addressChars + 3 + wrapChars

/-- A map of at most so many wraps, each under an address. -/
def Fits (n : ℕ) (wrappedKeys : List (Text × Value)) : Prop :=
  wrappedKeys.length ≤ n ∧ ∀ f ∈ wrappedKeys, (spellField f).length ≤ entryChars

theorem length_quote_address {address : Text} (h : isHexOfLength 96 address = true) :
    (quote address).length = addressChars + 2 := by
  obtain ⟨hlength, hdigits⟩ := Bool.and_eq_true_iff.mp h
  rw [length_quote (consistsOf_mono (fun _ => isPlain_of_isLowerHexDigit) hdigits), eq_of_beq hlength]
  rfl

theorem toLower_hexDigit {c : Char} (h : Server.isLowerHexDigit c = true) : c.toLower = c := by
  refine dif_neg ?_
  rintro ⟨hlow, hhigh⟩
  rw [ge_iff_le, UInt32.le_iff_toNat_le] at hlow
  rw [UInt32.le_iff_toNat_le] at hhigh
  have hA : ('A' : Char).val.toNat = 65 := rfl
  have hZ : ('Z' : Char).val.toNat = 90 := rfl
  rcases Bool.or_eq_true_iff.mp h with hdigit | hletter
  · have hnine := (Char.isDigit_iff_toNat.mp hdigit).2
    have h9 : '9'.toNat = 57 := rfl
    rw [← Char.toNat_val] at hnine
    omega
  · have ha := UInt32.le_iff_toNat_le.mp (of_decide_eq_true (Bool.and_eq_true_iff.mp hletter).1)
    have h97 : ('a' : Char).val.toNat = 97 := rfl
    omega

theorem toLowerCase_address {address : Text} (h : isHexOfLength 96 address = true) :
    toLowerCase address = address := by
  have hdigits := (Bool.and_eq_true_iff.mp h).2
  refine (List.map_congr_left fun p hp => ?_).trans (List.map_id address)
  have hdigit := List.all_eq_true.mp hdigits p hp
  cases p with
  | surrogate n => rfl
  | char c => exact congrArg Point.char (toLower_hexDigit hdigit)

theorem setMember_fits {n : ℕ} {wrappedKeys : List (Text × Value)} {name : Text} {wrap : Value}
    (hfits : Fits n wrappedKeys) (hname : isHexOfLength 96 name = true) (hwrap : (spell wrap).length ≤ wrapChars) :
    Fits (n + 1) (setMember wrappedKeys name wrap) := by
  obtain ⟨hlength, hfields⟩ := hfits
  have hnew : (spellField (name, wrap)).length ≤ entryChars := by
    rw [length_spellField, length_quote_address hname, entryChars]
    omega
  unfold setMember
  split
  · refine ⟨?_, fun f hf => ?_⟩
    · rw [List.length_map]
      exact Nat.le_succ_of_le hlength
    · obtain ⟨g, hg, rfl⟩ := List.mem_map.mp hf
      split
      · exact hnew
      · exact hfields g hg
  · refine ⟨?_, fun f hf => ?_⟩
    · rw [List.length_append]
      exact Nat.succ_le_succ hlength
    · rcases List.mem_append.mp hf with hf | hf
      · exact hfields f hf
      · rw [List.mem_singleton.mp hf]
        exact hnew

theorem wrapFor_fits (hsized : Sized suites) {n : ℕ} {sKey name publicHex : Text} {random : Text → Randomness}
    {wrappedKeys wrappedKeys' : List (Text × Value)} {bytes : Bytes} (hkey : fromHex sKey = .ok bytes)
    (hlength : bytes.length ≤ 32) (hname : isHexOfLength 96 name = true) (hfits : Fits n wrappedKeys)
    (h : wrapFor suites sKey random wrappedKeys name publicHex = .ok wrappedKeys') : Fits (n + 1) wrappedKeys' := by
  simp only [wrapFor, bind_eq_ok, Except.ok.injEq] at h
  obtain ⟨wrap, hwrap, rfl⟩ := h
  exact setMember_fits hfits hname (length_wrap hsized hwrap hkey hlength)

/-- One wrap at most for each member. -/
theorem foldlM_fits {step : List (Text × Value) → Member → Except String (List (Text × Value))}
    (hstep : ∀ n wrappedKeys member wrappedKeys', Fits n wrappedKeys → step wrappedKeys member = .ok wrappedKeys' →
      Fits (n + 1) wrappedKeys') {members : List Member} {n : ℕ} {wrappedKeys wrappedKeys' : List (Text × Value)}
    (hfits : Fits n wrappedKeys) (h : members.foldlM step wrappedKeys = .ok wrappedKeys') :
    Fits (n + members.length) wrappedKeys' := by
  induction members generalizing n wrappedKeys with
  | nil =>
    obtain rfl := Except.ok.inj h
    exact hfits
  | cons member members ih =>
    rw [List.foldlM_cons] at h
    obtain ⟨next, hnext, hrest⟩ := bind_eq_ok.mp h
    have hlast := ih (hstep n wrappedKeys member next hfits hnext) hrest
    rwa [List.length_cons, Nat.add_comm members.length 1, ← Nat.add_assoc]

theorem fits_nil : Fits 0 [] := ⟨Nat.le_refl 0, fun _ hf => absurd hf List.not_mem_nil⟩

theorem length_wrappedKeys {n : ℕ} {wrappedKeys : List (Text × Value)} (h : Fits n wrappedKeys)
    (hn : n ≤ maxGroupMembers) :
    (spell (.obj wrappedKeys)).length ≤ maxGroupMembers * (entryChars + 1) + 2 := by
  obtain ⟨hlength, hfields⟩ := h
  have hparts : ∀ part ∈ wrappedKeys.map spellField, part.length ≤ entryChars := by
    intro part hpart
    obtain ⟨f, hf, rfl⟩ := List.mem_map.mp hpart
    exact hfields f hf
  have hsum := partsChars_le hparts
  have hcount := Nat.mul_le_mul_right (entryChars + 1) (hlength.trans hn)
  have hobj := length_spell_obj_le wrappedKeys
  rw [List.length_map] at hsum
  omega

/-! ## What is posted -/

theorem length_identifier {s : Text} (h : isIdentifierText s = true) : (spell (.str s)).length ≤ 66 := by
  simp only [isIdentifierText, Bool.and_eq_true, decide_eq_true_eq] at h
  obtain ⟨⟨hchars, -⟩, hlength⟩ := h
  rw [spell, length_quote (consistsOf_mono (fun _ => isPlain_of_isIdChar) hchars)]
  omega

theorem lt_of_isCount {n : ℕ} (h : isCount (.num (.ofNat n)) = true) : n < 2 ^ 53 := by
  have hvalue := of_decide_eq_true (Bool.and_eq_true_iff.mp h).2
  rwa [Number.digitsValue_ofNat] at hvalue

/-- What is signed as a message is short, but for its ciphertext and its keys. -/
theorem signed {sha384Hex : String → String} {sender conv sid : Text} {ct gid keys : Value} {ts seq : ℕ} {body : Text}
    (h : messageSigningBody sha384Hex (.str sender) (.str conv) (.str sid) ct gid keys (.num (.ofNat ts))
      (.num (.ofNat seq)) = .ok body) :
    (spell (.str sid)).length ≤ 66 ∧ (spell (.num (.ofNat ts))).length ≤ 16 ∧
      (spell (.num (.ofNat seq))).length ≤ 16 ∧
      (isEmptyText gid || isNullish gid || isSignedIdentifier gid) = true := by
  simp only [messageSigningBody, bind_eq_ok, need_eq_ok, exists_const] at h
  obtain ⟨-, -, hgid, hsid, hts, hseq, -⟩ := h
  exact ⟨length_identifier hsid, length_ofNat (lt_of_isCount hts), length_ofNat (lt_of_isCount hseq), hgid⟩

theorem length_dmKeyPayload (hsized : Sized suites) {user : User} {partner : Member} {m : Outgoing} {keys : Value}
    {bytes : Bytes} (hkey : fromHex m.sKey = .ok bytes) (hlength : bytes.length ≤ 32)
    (h : dmKeyPayload suites user partner m = .ok keys) : (spell keys).length ≤ 2 * (wrapChars + 10) := by
  unfold dmKeyPayload at h
  split at h
  · simp only [bind_eq_ok, Except.ok.injEq] at h
    obtain ⟨wRecip, hRecip, wSender, hSender, rfl⟩ := h
    have hfirst := length_wrap hsized hRecip hkey hlength
    have hsecond : (spell wSender).length ≤ wrapChars := by
      unfold wrapForSender at hSender
      split at hSender
      · exact length_wrap hsized hSender hkey hlength
      · obtain rfl := Except.ok.inj hSender
        decide
    have hnames : (quote (lit "recip")).length = 7 ∧ (quote (lit "sender")).length = 8 := by decide
    rw [length_spell_obj (List.cons_ne_nil _ _), partsChars]
    simp only [List.map_cons, List.map_nil, List.sum_cons, List.sum_nil, length_spellField, hnames]
    omega
  · obtain rfl := Except.ok.inj h
    decide

theorem length_groupKeyPayload (hsized : Sized suites) {safe : List Member} {m : Outgoing} {keys : Value}
    {bytes : Bytes} (hkey : fromHex m.sKey = .ok bytes) (hlength : bytes.length ≤ 32)
    (hmembers : safe.length ≤ maxGroupMembers) (h : groupKeyPayload suites safe m = .ok keys) :
    (spell keys).length ≤ maxGroupMembers * (entryChars + 1) + 2 := by
  unfold groupKeyPayload at h
  split at h
  · simp only [bind_eq_ok, Except.ok.injEq] at h
    obtain ⟨wrappedKeys, hfold, rfl⟩ := h
    refine length_wrappedKeys (foldlM_fits (fun n wraps member wraps' hfits hstep => ?_) fits_nil hfold) ?_
    · exact wrapFor_fits hsized hkey hlength member.isAddress hfits hstep
    · rwa [Nat.zero_add]
  · obtain rfl := Except.ok.inj h
    decide

theorem sendMessage_fits (hsized : Sized suites) {user : User} {partner : Member} {m : Outgoing}
    (htext : (units m.text).length ≤ maxMessageTextChars) {content : List Char}
    (h : sendMessage suites user partner m = .ok content) : content.length ≤ maxDmContentLen := by
  simp only [sendMessage, bind_eq_ok, Except.ok.injEq] at h
  obtain ⟨keys, hkeys, ct, hct, body, hbody, sig, hsig, rfl⟩ := h
  obtain ⟨hsid, hts, hseq, -⟩ := signed hbody
  have hctLength := length_ct hsized hct htext
  have hsigLength := length_sig hsized hsig
  obtain ⟨key, -, hkey, hkeyLength, -⟩ := encrypts hct
  have hkeysLength := length_dmKeyPayload hsized hkey hkeyLength hkeys
  have hversion : (spellField (lit "v", .num (.ofNat 1))).length = 5 := by decide
  have hnames : (quote (lit "sid")).length = 5 ∧ (quote (lit "ts")).length = 4 ∧ (quote (lit "seq")).length = 5 ∧
      (quote (lit "keys")).length = 6 ∧ (quote (lit "ct")).length = 4 ∧ (quote (lit "sig")).length = 5 := by decide
  have hsizes : sealedChars maxMessageTextChars = 40084 ∧ wrapChars = 1788 ∧ signatureChars = 4552 ∧
      maxDmContentLen = 49276 := by decide
  rw [length_spell_obj (List.cons_ne_nil _ _), partsChars]
  simp only [List.map_cons, List.map_nil, List.sum_cons, List.sum_nil, hversion]
  simp only [length_spellField, hnames]
  omega

theorem sendGroupMessage_fits (hsized : Sized suites) {user : User} {channelId : Text} {safe : List Member}
    {m : Outgoing} (hmembers : safe.length ≤ maxGroupMembers)
    (htext : (units m.text).length ≤ maxMessageTextChars) {content : List Char}
    (h : sendGroupMessage suites user channelId safe m = .ok content) :
    content.length ≤ maxGroupMessageContentLen := by
  simp only [sendGroupMessage, bind_eq_ok, Except.ok.injEq] at h
  obtain ⟨keys, hkeys, ct, hct, body, hbody, sig, hsig, rfl⟩ := h
  obtain ⟨hsid, hts, hseq, hgid⟩ := signed hbody
  have hctLength := length_ct hsized hct htext
  have hsigLength := length_sig hsized hsig
  obtain ⟨key, -, hkey, hkeyLength, -⟩ := encrypts hct
  have hgidLength : (spell (.str channelId)).length ≤ 66 := by
    rcases Bool.or_eq_true_iff.mp hgid with hgid | hgid
    · rcases Bool.or_eq_true_iff.mp hgid with hempty | hnull
      · obtain rfl : channelId = [] := List.isEmpty_iff.mp hempty
        decide
      · cases hnull
    · exact length_identifier hgid
  have hkeysLength := length_groupKeyPayload hsized hkey hkeyLength hmembers hkeys
  have hversion : (spellField (lit "v", .num (.ofNat 2))).length = 5 := by decide
  have hnames : (quote (lit "sid")).length = 5 ∧ (quote (lit "gid")).length = 5 ∧ (quote (lit "ts")).length = 4 ∧
      (quote (lit "seq")).length = 5 ∧ (quote (lit "keys")).length = 6 ∧ (quote (lit "ct")).length = 4 ∧
      (quote (lit "sig")).length = 5 := by decide
  have hsizes : sealedChars maxMessageTextChars = 40084 ∧ maxGroupMembers * (entryChars + 1) = 94400 ∧
      signatureChars = 4552 ∧ maxGroupMessageContentLen = 142876 := by decide
  rw [length_spell_obj (List.cons_ne_nil _ _), partsChars]
  simp only [List.map_cons, List.map_nil, List.sum_cons, List.sum_nil, hversion]
  simp only [length_spellField, hnames]
  omega

/-- Members without an encryption key get no wrap. -/
theorem encryptGroupName_fits (hsized : Sized suites) {members : List Member} {n : NewName}
    (hmembers : members.length ≤ maxGroupMembers) (hname : (units n.name).length ≤ 100) {blob : List Char}
    (h : encryptGroupName suites members n = .ok blob) : 1 ≤ blob.length ∧ blob.length ≤ maxGroupNameLen := by
  simp only [encryptGroupName, bind_eq_ok, Except.ok.injEq] at h
  obtain ⟨ct, hct, keys, hfold, rfl⟩ := h
  have hctLength := length_ct hsized hct hname
  obtain ⟨key, -, hkey, hkeyLength, -⟩ := encrypts hct
  have hkeysLength : (spell (.obj keys)).length ≤ maxGroupMembers * (entryChars + 1) + 2 := by
    refine length_wrappedKeys (foldlM_fits (fun n wraps member wraps' hfits hstep => ?_) fits_nil hfold) ?_
    · split at hstep
      · obtain rfl := Except.ok.inj hstep
        exact ⟨Nat.le_succ_of_le hfits.1, hfits.2⟩
      · have hlower : isHexOfLength 96 (toLowerCase member.address) = true := by
          rw [toLowerCase_address member.isAddress]
          exact member.isAddress
        exact wrapFor_fits hsized hkey hkeyLength hlower hfits hstep
    · rwa [Nat.zero_add]
  have hmarker : "encg1:".toList.length = 6 := by decide
  have hnames : (quote (lit "ct")).length = 4 ∧ (quote (lit "keys")).length = 6 := by decide
  have hsizes : sealedChars 100 = 484 ∧ maxGroupMembers * (entryChars + 1) = 94400 ∧ maxGroupNameLen = 97300 := by
    decide
  rw [List.length_append, hmarker, length_spell_obj (List.cons_ne_nil _ _), partsChars]
  simp only [List.map_cons, List.map_nil, List.sum_cons, List.sum_nil, length_spellField, hnames]
  omega

end sizes

/-- A text of at most 10 000 units, to a partner or to a group within the limit, first of its session or not, and a
name of at most 100 units, wrapped for a group within the limit, are within the bounds of the server's schema. -/
theorem messages_fit {suites : Suites} (hsized : Sized suites) :
    (∀ user partner m content, (units m.text).length ≤ maxMessageTextChars →
      sendMessage suites user partner m = .ok content → content.length ≤ maxDmContentLen) ∧
    (∀ user channelId safe m content, safe.length ≤ maxGroupMembers →
      (units m.text).length ≤ maxMessageTextChars →
      sendGroupMessage suites user channelId safe m = .ok content → content.length ≤ maxGroupMessageContentLen) ∧
    ∀ me memberUsers n blob, (nameTargets me memberUsers).length ≤ maxGroupMembers → (units n.name).length ≤ 100 →
      buildGroupNameBlob suites me memberUsers n = .ok blob → 1 ≤ blob.length ∧ blob.length ≤ maxGroupNameLen :=
  ⟨fun _ _ _ _ htext h => sendMessage_fits hsized htext h,
    fun _ _ _ _ _ hmembers htext h => sendGroupMessage_fits hsized hmembers htext h,
    fun _ _ _ _ hmembers hname h => encryptGroupName_fits hsized hmembers hname h⟩

/-! ## An example -/

def sampleSuites : Suites where
  toCryptoPrimitives := Envelopes.samplePrimitives
  sha384Hex _ := ""
  sign _ _ := .ok (List.replicate 3413 0)

theorem sized_sampleSuites : Sized sampleSuites where
  tagged := Envelopes.sound_samplePrimitives.tagged
  cipherText_length key random cipherText shared h := by
    obtain ⟨rfl, -⟩ := Prod.mk.inj (Except.ok.inj h)
    exact List.length_replicate
  signature_length message key signature h := by
    obtain rfl := Except.ok.inj h
    exact List.length_replicate.le

def sampleMember (digit : Char) (h : Server.isLowerHexDigit digit = true) : Member where
  address := List.replicate 96 (.char digit)
  isAddress := by
    refine Bool.and_eq_true_iff.mpr ⟨by rw [List.length_replicate]; rfl, ?_⟩
    refine List.all_eq_true.mpr fun p hp => ?_
    rw [List.eq_of_mem_replicate hp]
    exact h
  encryptionPublicKey := toHex (List.replicate 1281 0)

def sampleUser : User where
  address := List.replicate 96 (.char '0')
  identitySeed := toHex (List.replicate 80 0)
  encryptionPublicKey := some (toHex (List.replicate 1281 0))

theorem zero_lt_2048 : 0 < 2048 := by decide

def sampleOutgoing : Outgoing where
  text := [.surrogate ⟨0, zero_lt_2048⟩, .char 'a']
  sid := lit "0b"
  sKey := toHex (List.replicate 32 0)
  mints := true
  ts := 1
  seq := 0
  iv := Envelopes.sampleIv
  random _ := Envelopes.sampleRandomness

def sampleName : NewName where
  name := lit "n"
  nameKey := toHex (List.replicate 32 0)
  iv := Envelopes.sampleIv
  random _ := Envelopes.sampleRandomness

theorem exists_of_isOk {α : Type} {e : Except String α} (h : e.isOk = true) : ∃ a, e = .ok a := by
  cases e with
  | ok a => exact ⟨a, rfl⟩
  | error message => cases h

/-- A first message to a partner and to a group of two, and the name of the group. -/
theorem messages_fit_sample : ∃ dm group name,
    sendMessage sampleSuites sampleUser (sampleMember '1' (by decide)) sampleOutgoing = .ok dm ∧
    sendGroupMessage sampleSuites sampleUser (lit "g") [sampleMember '0' (by decide), sampleMember '1' (by decide)]
      sampleOutgoing = .ok group ∧
    buildGroupNameBlob sampleSuites (sampleMember '0' (by decide)) [sampleMember '1' (by decide)] sampleName =
      .ok name ∧
    dm.length ≤ maxDmContentLen ∧ group.length ≤ maxGroupMessageContentLen ∧ 1 ≤ name.length ∧
      name.length ≤ maxGroupNameLen := by
  obtain ⟨dm, hdm⟩ := exists_of_isOk (e := sendMessage sampleSuites sampleUser (sampleMember '1' (by decide))
    sampleOutgoing) (by decide +kernel)
  obtain ⟨group, hgroup⟩ := exists_of_isOk (e := sendGroupMessage sampleSuites sampleUser (lit "g")
    [sampleMember '0' (by decide), sampleMember '1' (by decide)] sampleOutgoing) (by decide +kernel)
  obtain ⟨name, hname⟩ := exists_of_isOk (e := buildGroupNameBlob sampleSuites (sampleMember '0' (by decide))
    [sampleMember '1' (by decide)] sampleName) (by decide +kernel)
  obtain ⟨hsend, hsendGroup, hblob⟩ := messages_fit sized_sampleSuites
  exact ⟨dm, group, name, hdm, hgroup, hname, hsend _ _ _ _ (by decide) hdm,
    hsendGroup _ _ _ _ _ (by decide) (by decide) hgroup, hblob _ _ _ _ (by decide) (by decide) hname⟩

end Kryptolog.Client.MessageSizes
