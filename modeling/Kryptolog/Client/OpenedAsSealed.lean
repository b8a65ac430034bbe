import Kryptolog.Client.RoundTrips

/-! # What an envelope opens as

Five functions seal and five open. The associated data tells the KEM envelope, the symmetric envelope
and the chunk of a file apart, and binds the markers; the name of the ciphertext's field is not bound.
So an opened object says what one envelope of its kind says, under either of the two names that the
kind has for its ciphertext.

With ideal primitives nothing opens but what was sealed. `calls` are the sealings that were made, by
whomever.
-/

namespace Kryptolog.Client.Envelopes
set_option autoImplicit false

open Script Fallible

/-! ## Sealing and opening -/

inductive SealCall
  | encryptMessage (message encryptionPublicKeyHex : Text) (random : Randomness)
  | wrapSessionKey (sessionKeyHex encryptionPublicKeyHex : Text) (random : Randomness)
  | encryptWithSessionKey (message sessionKeyHex : Text) (iv : Iv)
  | encryptSymmetric (content keyHex : Text) (iv : Iv)
  /-- With the associated data that `chunkAad` builds. -/
  | encryptChunk (chunkBytes : Bytes) (keyHex secretId chunkIndex : Text) (iv : Iv)

inductive Opener
  | decryptMessage (encryptionSeedHex : Text)
  | unwrapSessionKey (encryptionSeedHex : Text)
  | decryptWithSessionKey (sessionKeyHex : Text)
  | decryptSymmetric (keyHex : Text)
  | decryptChunk (keyHex secretId chunkIndex : Text)

/-- The kinds of associated data. -/
inductive Layer
  | kem
  | aead
  | chunk
  deriving DecidableEq

/-- The fields that an opening reads beside the ciphertext. -/
def Layer.markers : Layer → List String
  | kem => ["v", "alg", "kid", "kem", "iv"]
  | aead => ["v", "alg", "iv"]
  | chunk => ["iv"]

/-- What an opening returns. -/
inductive Opened
  | text (text : Text)
  | bytes (bytes : Bytes)

namespace SealCall

def layer : SealCall → Layer
  | encryptMessage _ _ _ | wrapSessionKey _ _ _ => .kem
  | encryptWithSessionKey _ _ _ | encryptSymmetric _ _ _ => .aead
  | encryptChunk _ _ _ _ _ => .chunk

/-- The name of the ciphertext. -/
def field : SealCall → String
  | encryptMessage _ _ _ | encryptWithSessionKey _ _ _ => "content"
  | wrapSessionKey _ _ _ => "encKey"
  | encryptSymmetric _ _ _ | encryptChunk _ _ _ _ _ => "ciphertext"

def plaintext : SealCall → Except String Bytes
  | encryptMessage message _ _ => .ok message.encode
  | wrapSessionKey sessionKeyHex _ _ => fromHex sessionKeyHex
  | encryptWithSessionKey message _ _ => .ok message.encode
  | encryptSymmetric content _ _ => .ok content.encode
  | encryptChunk chunkBytes _ _ _ _ => .ok chunkBytes

/-- The key of a symmetric sealing. -/
def keyHex : SealCall → Option Text
  | encryptMessage _ _ _ | wrapSessionKey _ _ _ => none
  | encryptWithSessionKey _ keyHex _ | encryptSymmetric _ keyHex _ | encryptChunk _ keyHex _ _ _ => some keyHex

/-- The place of a chunk. -/
def place : SealCall → Option Text
  | encryptChunk _ _ secretId chunkIndex _ => some (chunkAad secretId chunkIndex)
  | _ => none

def run (prim : CryptoPrimitives) : SealCall → Except String Value
  | encryptMessage message publicHex random => Envelopes.encryptMessage prim message publicHex random
  | wrapSessionKey keyHex publicHex random => Envelopes.wrapSessionKey prim keyHex publicHex random
  | encryptWithSessionKey message keyHex iv => Envelopes.encryptWithSessionKey prim message keyHex iv
  | encryptSymmetric content keyHex iv => Envelopes.encryptSymmetric prim content keyHex iv
  | encryptChunk chunkBytes keyHex secretId chunkIndex iv =>
    Envelopes.encryptChunk prim chunkBytes keyHex (chunkAad secretId chunkIndex) iv

end SealCall

namespace Opener

def layer : Opener → Layer
  | decryptMessage _ | unwrapSessionKey _ => .kem
  | decryptWithSessionKey _ | decryptSymmetric _ => .aead
  | decryptChunk _ _ _ => .chunk

/-- The name that the ciphertext is read under. -/
def field : Opener → String
  | decryptMessage _ | decryptWithSessionKey _ => "content"
  | unwrapSessionKey _ => "encKey"
  | decryptSymmetric _ | decryptChunk _ _ _ => "ciphertext"

def keyHex : Opener → Option Text
  | decryptMessage _ | unwrapSessionKey _ => none
  | decryptWithSessionKey keyHex | decryptSymmetric keyHex | decryptChunk keyHex _ _ => some keyHex

def place : Opener → Option Text
  | decryptChunk _ secretId chunkIndex => some (chunkAad secretId chunkIndex)
  | _ => none

/-- How the bytes are returned. -/
def returned : Opener → Bytes → Opened
  | unwrapSessionKey _, bytes => .text (toHex bytes)
  | decryptChunk _ _ _, bytes => .bytes bytes
  | _, bytes => .text (decodeText bytes)

def apply (prim : CryptoPrimitives) (object : Value) : Opener → Except String Opened
  | decryptMessage seedHex => (Envelopes.decryptMessage prim object seedHex).map .text
  | unwrapSessionKey seedHex => (Envelopes.unwrapSessionKey prim object seedHex).map .text
  | decryptWithSessionKey keyHex => (Envelopes.decryptWithSessionKey prim object keyHex).map .text
  | decryptSymmetric keyHex => (Envelopes.decryptSymmetric prim object keyHex).map .text
  | decryptChunk keyHex secretId chunkIndex =>
    (Envelopes.decryptChunk prim (object.get "iv") (object.get "ciphertext") keyHex
      (chunkAad secretId chunkIndex)).map .bytes

end Opener

/-! ## The approvals of the extension -/

section approvals

variable (prim : CryptoPrimitives)

/-- `handleDecryptAsync`, approved: what it answers. -/
def decryptApproved (account : Option Account) (data : Value) : Except String Text :=
  match account with
  | none => .error "No active account"
  | some account => do
    let seed ← encryptionSeedFor account data
    decryptMessage prim data seed

/-- `handleUnwrapSessionKeyAsync`, approved. -/
def unwrapApproved (account : Option Account) (wrappedKey : Value) : Except String Text :=
  match account with
  | none => .error "No active account"
  | some account =>
    match (do unwrapSessionKey prim wrappedKey (← encryptionSeedFor account wrappedKey)) with
    | .ok sessionKey => .ok sessionKey
    | .error message => .error ("Unwrap failed: " ++ message)

/-- `handleDecryptManyAsync` and `handleUnwrapManySessionKeysAsync`: an item that fails gives `null`. -/
def manyApproved (approved : Option Account → Value → Except String Text) (account : Option Account)
    (items : List Value) : Except String (List (Option Text)) :=
  match account with
  | none => .error "No active account"
  | some account => .ok (items.map fun blob => (approved (some account) blob).toOption)

end approvals

/-! ## Ideal primitives -/

/-- One use of AES-GCM. -/
structure GcmCall where
  key : Bytes
  iv : Bytes
  aad : Bytes
  text : Bytes

section ideal

variable (prim : CryptoPrimitives)

/-- The encryption that `kemSeal` makes, and the ciphertext that its key comes out of. -/
def kemGcm (plaintext : Bytes) (publicHex : Text) (random : Randomness) : Except String (Bytes × GcmCall) := do
  let kid ← encryptionKeyId prim publicHex
  let publicKey ← fromHex publicHex
  let (cipherText, key) ← prim.encapsulate publicKey random.kem
  let key ← importKey key
  .ok (cipherText, ⟨key, random.iv.bytes, formatAad kemEnvelopeAlg (some kid), plaintext⟩)

/-- The encryption that a sealing makes, and the KEM ciphertext, where it has one. -/
def SealCall.gcm : SealCall → Except String (Option Bytes × GcmCall)
  | encryptMessage message publicHex random => do
    let (cipherText, call) ← kemGcm prim message.encode publicHex random
    .ok (some cipherText, call)
  | wrapSessionKey keyHex publicHex random => do
    let sessionKey ← fromHex keyHex
    let (cipherText, call) ← kemGcm prim sessionKey publicHex random
    .ok (some cipherText, call)
  | encryptWithSessionKey text keyHex iv | encryptSymmetric text keyHex iv => do
    let key ← importAesKey keyHex
    .ok (none, ⟨key, iv.bytes, formatAad aeadAlg none, text.encode⟩)
  | encryptChunk bytes keyHex secretId chunkIndex iv => do
    let key ← importAesKey keyHex
    .ok (none, ⟨key, iv.bytes, (chunkAad secretId chunkIndex).encode, bytes⟩)

/-- AES-GCM opens what was sealed and nothing else, and the key that a sealing encapsulated comes out of
its own ciphertext only. -/
structure Ideal (calls : List SealCall) : Prop where
  opens : ∀ key iv aad sealed text, prim.gcmDecrypt key iv aad sealed = some text →
    sealed = prim.gcmEncrypt key iv aad text ∧ ∃ call ∈ calls, ∃ kem, call.gcm prim = .ok (kem, ⟨key, iv, aad, text⟩)
  decapsulates : ∀ call ∈ calls, ∀ cipherText gcm, call.gcm prim = .ok (some cipherText, gcm) →
    ∀ kem seed, prim.decapsulate kem seed = .ok gcm.key → kem = cipherText

end ideal

/-- The object says what the envelope of the call says, under the name that the opener reads. -/
structure OpenedAs (prim : CryptoPrimitives) (opener : Opener) (object : Value) (result : Opened)
    (call : SealCall) : Prop where
  layer : call.layer = opener.layer
  fields : ∃ envelope, call.run prim = .ok envelope ∧
    (∀ name ∈ opener.layer.markers, object.get name = envelope.get name) ∧
    object.get opener.field = envelope.get call.field
  result : ∃ plaintext, call.plaintext = .ok plaintext ∧ result = opener.returned plaintext
  key : opener.keyHex.map importAesKey = call.keyHex.map importAesKey
  place : opener.place.map Text.encode = call.place.map Text.encode

/-! ## The associated data -/

/-- The associated data of a kind of sealing. -/
def Layer.HasAad : Layer → Bytes → Prop
  | kem, aad => ∃ kid, aad = formatAad kemEnvelopeAlg (some kid)
  | aead, aad => aad = formatAad aeadAlg none
  | chunk, aad => ∃ secretId chunkIndex, aad = (chunkAad secretId chunkIndex).encode

theorem encode_append (s t : Text) : Text.encode (s ++ t) = s.encode ++ t.encode := List.flatMap_append

def kemAadHead : Bytes :=
  Text.encode (lit "Kryptolog envelope\nv=5\nalg=" ++ kemEnvelopeAlg ++ lit "\nkid=")

theorem formatAad_kem (kid : Text) : formatAad kemEnvelopeAlg (some kid) = kemAadHead ++ kid.encode := by
  rw [formatAad, ← List.append_assoc, encode_append]
  rfl

def chunkAadHead : Bytes := Text.encode (lit "Kryptolog/chunk/v1\nsecret=")

theorem encode_chunkAad (secretId chunkIndex : Text) : (chunkAad secretId chunkIndex).encode =
    chunkAadHead ++ Text.encode (secretId ++ lit "\nindex=" ++ chunkIndex) := by
  rw [chunkAad, List.append_assoc, List.append_assoc, encode_append, ← List.append_assoc]
  rfl

/-- Texts that begin differently are different. -/
theorem append_ne {n : ℕ} {a b : Bytes} (h : a.take n ≠ b.take n) (ha : n ≤ a.length) (hb : n ≤ b.length)
    (x y : Bytes) : a ++ x ≠ b ++ y := by
  intro heq
  have htake := congrArg (List.take n) heq
  rw [List.take_append_of_le_length ha, List.take_append_of_le_length hb] at htake
  exact h htake

theorem kem_ne_aead (kid : Text) : formatAad kemEnvelopeAlg (some kid) ≠ formatAad aeadAlg none := by
  have hne := @append_ne 30 kemAadHead (formatAad aeadAlg none) (by decide +kernel) (by decide +kernel)
    (by decide +kernel) kid.encode []
  rwa [← formatAad_kem, List.append_nil] at hne

theorem kem_ne_chunk (kid secretId chunkIndex : Text) :
    formatAad kemEnvelopeAlg (some kid) ≠ (chunkAad secretId chunkIndex).encode := by
  rw [formatAad_kem, encode_chunkAad]
  exact @append_ne 10 kemAadHead chunkAadHead (by decide +kernel) (by decide +kernel) (by decide +kernel) _ _

theorem aead_ne_chunk (secretId chunkIndex : Text) :
    formatAad aeadAlg none ≠ (chunkAad secretId chunkIndex).encode := by
  rw [encode_chunkAad, ← List.append_nil (formatAad aeadAlg none)]
  exact @append_ne 10 (formatAad aeadAlg none) chunkAadHead (by decide +kernel) (by decide +kernel)
    (by decide +kernel) _ _

/-- The associated data tells the kinds apart. -/
theorem Layer.HasAad.unique {l l' : Layer} {aad : Bytes} (h : l.HasAad aad) (h' : l'.HasAad aad) : l = l' := by
  cases l with
  | kem =>
    obtain ⟨kid, rfl⟩ := h
    cases l' with
    | kem => rfl
    | aead => exact absurd h' (kem_ne_aead kid)
    | chunk =>
      obtain ⟨_, _, h'⟩ := h'
      exact absurd h' (kem_ne_chunk _ _ _)
  | aead =>
    cases h
    cases l' with
    | kem =>
      obtain ⟨kid, h'⟩ := h'
      exact absurd h'.symm (kem_ne_aead kid)
    | aead => rfl
    | chunk =>
      obtain ⟨_, _, h'⟩ := h'
      exact absurd h' (aead_ne_chunk _ _)
  | chunk =>
    obtain ⟨_, _, rfl⟩ := h
    cases l' with
    | kem =>
      obtain ⟨kid, h'⟩ := h'
      exact absurd h'.symm (kem_ne_chunk _ _ _)
    | aead => exact absurd h'.symm (aead_ne_chunk _ _)
    | chunk => rfl

theorem isWellFormed_take_toHex (bytes : Bytes) (n : ℕ) : Text.isWellFormed ((toHex bytes).take n) = true := by
  refine List.all_eq_true.mpr fun p hp => ?_
  obtain ⟨c, -, rfl⟩ := List.mem_map.mp (List.mem_of_mem_take hp)
  rfl

theorem kid_eq_of_formatAad {kid kid' : Text} (hkid : kid.isWellFormed = true) (hkid' : kid'.isWellFormed = true)
    (h : formatAad kemEnvelopeAlg (some kid) = formatAad kemEnvelopeAlg (some kid')) : kid = kid' := by
  rw [formatAad_kem, formatAad_kem] at h
  exact encode_inj hkid hkid' (List.append_cancel_left h)

/-! ## What a sealing makes -/

section sealings

variable {prim : CryptoPrimitives} {call : SealCall} {kem : Option Bytes} {gcm : GcmCall}

theorem kemGcm_eq_ok {plaintext : Bytes} {publicHex : Text} {random : Randomness} {cipherText : Bytes}
    (h : kemGcm prim plaintext publicHex random = .ok (cipherText, gcm)) (field : String) :
    gcm.text = plaintext ∧ ∃ kid : Text, kid.isWellFormed = true ∧
      gcm.aad = formatAad kemEnvelopeAlg (some kid) ∧ kemSeal prim plaintext publicHex field random =
        .ok (kemEnvelope kid cipherText gcm.iv field (prim.gcmEncrypt gcm.key gcm.iv gcm.aad gcm.text)) := by
  obtain ⟨kid, hkid, h⟩ := bind_eq_ok.mp h
  obtain ⟨publicKey, hpublic, h⟩ := bind_eq_ok.mp h
  obtain ⟨⟨cipherText', shared⟩, hencapsulate, h⟩ := bind_eq_ok.mp h
  obtain ⟨key, hkey, h⟩ := bind_eq_ok.mp h
  cases h
  have hwell : kid.isWellFormed = true := by
    have hname := hkid
    rw [encryptionKeyId, hpublic, ok_bind] at hname
    rw [← Except.ok.inj hname]
    exact isWellFormed_take_toHex _ _
  refine ⟨rfl, kid, hwell, rfl, ?_⟩
  simp only [kemSeal, hkid, hpublic, hencapsulate, hkey, ok_bind]

/-- What a sealing to an encryption key makes. -/
theorem SealCall.gcm_kem (hlayer : call.layer = .kem) (h : call.gcm prim = .ok (kem, gcm)) :
    call.plaintext = .ok gcm.text ∧ KemField call.field ∧ ∃ (cipherText : Bytes) (kid : Text),
      kem = some cipherText ∧
      kid.isWellFormed = true ∧ gcm.aad = formatAad kemEnvelopeAlg (some kid) ∧ call.run prim =
        .ok (kemEnvelope kid cipherText gcm.iv call.field
          (prim.gcmEncrypt gcm.key gcm.iv gcm.aad gcm.text)) := by
  cases call with
  | encryptMessage message publicHex random =>
    obtain ⟨⟨cipherText, used⟩, hgcm, h⟩ := bind_eq_ok.mp h
    cases h
    obtain ⟨htext, kid, hwell, haad, hseal⟩ := kemGcm_eq_ok hgcm "content"
    exact ⟨congrArg Except.ok htext.symm, .inl rfl, cipherText, kid, rfl, hwell, haad, hseal⟩
  | wrapSessionKey keyHex publicHex random =>
    obtain ⟨sessionKey, hkey, h⟩ := bind_eq_ok.mp h
    obtain ⟨⟨cipherText, used⟩, hgcm, h⟩ := bind_eq_ok.mp h
    cases h
    obtain ⟨htext, kid, hwell, haad, hseal⟩ := kemGcm_eq_ok hgcm "encKey"
    refine ⟨hkey.trans (congrArg Except.ok htext.symm), .inr rfl, cipherText, kid, rfl, hwell, haad, ?_⟩
    rw [run, Envelopes.wrapSessionKey, hkey, ok_bind]
    exact hseal
  | encryptWithSessionKey | encryptSymmetric | encryptChunk => cases hlayer

/-- What a symmetric sealing makes. -/
theorem SealCall.gcm_aead (hlayer : call.layer = .aead) (h : call.gcm prim = .ok (kem, gcm)) :
    call.plaintext = .ok gcm.text ∧ AeadField call.field ∧ gcm.aad = formatAad aeadAlg none ∧
      call.keyHex.map importAesKey = some (.ok gcm.key) ∧ call.place = none ∧
      call.run prim = .ok (aeadEnvelope gcm.iv call.field
        (prim.gcmEncrypt gcm.key gcm.iv gcm.aad gcm.text)) := by
  cases call with
  | encryptWithSessionKey text keyHex iv =>
    obtain ⟨key, hkey, h⟩ := bind_eq_ok.mp h
    cases h
    refine ⟨rfl, .inl rfl, rfl, congrArg some hkey, rfl, ?_⟩
    rw [run, Envelopes.encryptWithSessionKey, aeadEncrypt, hkey]
    rfl
  | encryptSymmetric text keyHex iv =>
    obtain ⟨key, hkey, h⟩ := bind_eq_ok.mp h
    cases h
    refine ⟨rfl, .inr rfl, rfl, congrArg some hkey, rfl, ?_⟩
    rw [run, Envelopes.encryptSymmetric, aeadEncrypt, hkey]
    rfl
  | encryptMessage | wrapSessionKey | encryptChunk => cases hlayer

/-- What the sealing of a chunk makes. -/
theorem SealCall.gcm_chunk (hlayer : call.layer = .chunk) (h : call.gcm prim = .ok (kem, gcm)) :
    call.plaintext = .ok gcm.text ∧ call.place.map Text.encode = some gcm.aad ∧
      call.keyHex.map importAesKey = some (.ok gcm.key) ∧ call.field = "ciphertext" ∧
      call.run prim = .ok (.obj [(lit "iv", .str (toB64 gcm.iv)),
        (lit "ciphertext", .str (toB64 (prim.gcmEncrypt gcm.key gcm.iv gcm.aad gcm.text)))]) := by
  cases call with
  | encryptChunk bytes keyHex secretId chunkIndex iv =>
    obtain ⟨key, hkey, h⟩ := bind_eq_ok.mp h
    cases h
    refine ⟨rfl, rfl, congrArg some hkey, rfl, ?_⟩
    have haad : aadBytes (chunkAad secretId chunkIndex) "encryptChunk" =
        .ok (chunkAad secretId chunkIndex).encode := rfl
    rw [run, Envelopes.encryptChunk, haad, ok_bind, hkey]
    rfl
  | encryptMessage | wrapSessionKey | encryptWithSessionKey | encryptSymmetric => cases hlayer

theorem SealCall.hasAad (h : call.gcm prim = .ok (kem, gcm)) : call.layer.HasAad gcm.aad := by
  cases hlayer : call.layer with
  | kem =>
    obtain ⟨-, -, -, kid, -, -, haad, -⟩ := gcm_kem hlayer h
    exact ⟨kid, haad⟩
  | aead => exact (gcm_aead hlayer h).2.2.1
  | chunk =>
    obtain ⟨-, hplace, -⟩ := gcm_chunk hlayer h
    cases call with
    | encryptChunk bytes keyHex secretId chunkIndex iv => exact ⟨secretId, chunkIndex, (Option.some.inj hplace).symm⟩
    | encryptMessage | wrapSessionKey | encryptWithSessionKey | encryptSymmetric => cases hlayer

end sealings

/-! ## What an opening reads -/

section openings

variable {prim : CryptoPrimitives} {calls : List SealCall} {object : Value} {field what : String}

theorem assertFormat_eq_ok {alg : Text} (h : assertFormat object alg what = .ok ()) :
    object.get "v" = some (.num formatVersion) ∧ object.get "alg" = some (.str alg) := by
  obtain ⟨_, -, h⟩ := bind_eq_ok.mp h
  obtain ⟨_, hversion, halg⟩ := bind_eq_ok.mp h
  rw [refuseIf_eq_ok, Bool.not_eq_false'] at hversion halg
  constructor
  · unfold isVersion at hversion
    split at hversion
    · next n hv => rw [hv, beq_iff_eq.mp hversion]
    · cases hversion
  · unfold isText at halg
    split at halg
    · next s hs => rw [hs, beq_iff_eq.mp halg]
    · cases halg

theorem kidOf_eq_ok {kid : Text} (h : kidOf object what = .ok kid) :
    object.get "kid" = some (.str kid) ∧ kid.isWellFormed = true := by
  unfold kidOf at h
  split at h
  · next s hs =>
    split at h
    · next hid =>
      cases h
      exact ⟨hs, isWellFormed_of_consistsOf (Bool.and_eq_true_iff.mp hid).2⟩
    · cases h
  · cases h

theorem subtleDecrypt_eq_ok {key iv aad sealed text : Bytes}
    (h : subtleDecrypt prim key iv aad sealed = .ok text) : prim.gcmDecrypt key iv aad sealed = some text := by
  unfold subtleDecrypt at h
  cases hopen : prim.gcmDecrypt key iv aad sealed with
  | none =>
    rw [hopen] at h
    cases h
  | some opened =>
    rw [hopen] at h
    exact congrArg some (Except.ok.inj h)

theorem importKey_eq {key key' : Bytes} (h : importKey key = .ok key') : key = key' := by
  unfold importKey at h
  split at h
  · exact Except.ok.inj h
  · cases h

theorem kemOpen_eq_ok {seedHex : Text} {text : Bytes} (h : kemOpen prim object seedHex field what = .ok text) :
    ∃ kid kem seed key iv sealed, (object.get "v" = some (.num formatVersion) ∧
      object.get "alg" = some (.str kemEnvelopeAlg) ∧ object.get "kid" = some (.str kid) ∧
      object.get "kem" = some (.str (toB64 kem)) ∧ object.get "iv" = some (.str (toB64 iv)) ∧
      object.get field = some (.str (toB64 sealed))) ∧ kid.isWellFormed = true ∧
      prim.decapsulate kem seed = .ok key ∧
      prim.gcmDecrypt key iv (formatAad kemEnvelopeAlg (some kid)) sealed = some text := by
  obtain ⟨_, hformat, h⟩ := bind_eq_ok.mp h
  obtain ⟨kid, hkid, h⟩ := bind_eq_ok.mp h
  obtain ⟨kem, hkem, h⟩ := bind_eq_ok.mp h
  obtain ⟨seed, -, h⟩ := bind_eq_ok.mp h
  obtain ⟨shared, hshared, h⟩ := bind_eq_ok.mp h
  obtain ⟨iv, hiv, h⟩ := bind_eq_ok.mp h
  obtain ⟨key, hkey, h⟩ := bind_eq_ok.mp h
  obtain ⟨sealed, hsealed, hopen⟩ := bind_eq_ok.mp h
  obtain ⟨hversion, halg⟩ := assertFormat_eq_ok hformat
  obtain ⟨hname, hwell⟩ := kidOf_eq_ok hkid
  exact ⟨kid, kem, seed, key, iv, sealed, ⟨hversion, halg, hname, (fromB64_eq_ok.mp hkem).1,
    (fromB64_eq_ok.mp hiv).1, (fromB64_eq_ok.mp hsealed).1⟩, hwell, importKey_eq hkey ▸ hshared,
    subtleDecrypt_eq_ok hopen⟩

theorem aeadDecrypt_eq_ok {keyHex text : Text} (h : aeadDecrypt prim object keyHex field = .ok text) :
    ∃ key iv sealed opened, (object.get "v" = some (.num formatVersion) ∧
      object.get "alg" = some (.str aeadAlg) ∧ object.get "iv" = some (.str (toB64 iv)) ∧
      object.get field = some (.str (toB64 sealed))) ∧ importAesKey keyHex = .ok key ∧
      prim.gcmDecrypt key iv (formatAad aeadAlg none) sealed = some opened ∧ text = decodeText opened := by
  obtain ⟨_, hformat, h⟩ := bind_eq_ok.mp h
  obtain ⟨key, hkey, h⟩ := bind_eq_ok.mp h
  obtain ⟨iv, hiv, h⟩ := bind_eq_ok.mp h
  obtain ⟨sealed, hsealed, h⟩ := bind_eq_ok.mp h
  obtain ⟨opened, hopen, h⟩ := bind_eq_ok.mp h
  obtain ⟨hversion, halg⟩ := assertFormat_eq_ok hformat
  exact ⟨key, iv, sealed, opened, ⟨hversion, halg, (fromB64_eq_ok.mp hiv).1, (fromB64_eq_ok.mp hsealed).1⟩,
    hkey, subtleDecrypt_eq_ok hopen, (Except.ok.inj h).symm⟩

theorem decryptChunk_eq_ok {ivB64 ciphertextB64 : Option Value} {keyHex aad : Text} {text : Bytes}
    (h : decryptChunk prim ivB64 ciphertextB64 keyHex aad = .ok text) :
    ∃ key iv sealed, (ivB64 = some (.str (toB64 iv)) ∧ ciphertextB64 = some (.str (toB64 sealed))) ∧
      importAesKey keyHex = .ok key ∧ prim.gcmDecrypt key iv aad.encode sealed = some text := by
  obtain ⟨additional, haad, h⟩ := bind_eq_ok.mp h
  obtain ⟨key, hkey, h⟩ := bind_eq_ok.mp h
  obtain ⟨iv, hiv, h⟩ := bind_eq_ok.mp h
  obtain ⟨sealed, hsealed, hopen⟩ := bind_eq_ok.mp h
  unfold aadBytes at haad
  split at haad
  · cases haad
  · cases haad
    exact ⟨key, iv, sealed, ⟨(fromB64_eq_ok.mp hiv).1, (fromB64_eq_ok.mp hsealed).1⟩, hkey,
      subtleDecrypt_eq_ok hopen⟩

/-- With ideal primitives a decryption is of what a call of the same kind sealed. -/
theorem Ideal.sealed (h : Ideal prim calls) {l : Layer} {key iv aad sealed text : Bytes} (haad : l.HasAad aad)
    (hopen : prim.gcmDecrypt key iv aad sealed = some text) :
    sealed = prim.gcmEncrypt key iv aad text ∧ ∃ call ∈ calls, call.layer = l ∧
      ∃ kem, call.gcm prim = .ok (kem, ⟨key, iv, aad, text⟩) := by
  obtain ⟨hsealed, call, hcall, kem, hgcm⟩ := h.opens key iv aad sealed text hopen
  exact ⟨hsealed, call, hcall, (SealCall.hasAad hgcm).unique haad, kem, hgcm⟩

end openings

/-! ## What opens is what was sealed -/

section results

variable {prim : CryptoPrimitives} {calls : List SealCall} {object : Value} {opener : Opener}

theorem Ideal.openedAs_kem (h : Ideal prim calls) (hlayer : opener.layer = .kem) {seedHex : Text}
    {what : String} {text : Bytes} (hopen : kemOpen prim object seedHex opener.field what = .ok text) :
    ∃ call ∈ calls, OpenedAs prim opener object (opener.returned text) call := by
  obtain ⟨kid, kem, seed, key, iv, sealed, ⟨hversion, halg, hkid, hkem, hiv, hfield⟩, hwell, hshared, hopen⟩ :=
    kemOpen_eq_ok hopen
  have hkind : Layer.kem.HasAad (formatAad kemEnvelopeAlg (some kid)) := ⟨kid, rfl⟩
  obtain ⟨hsealed, call, hcall, hkind, encapsulated, hgcm⟩ := h.sealed hkind hopen
  obtain ⟨htext, hname, cipherText, kid', rfl, hwell', haad, hrun⟩ := SealCall.gcm_kem hkind hgcm
  obtain rfl := kid_eq_of_formatAad hwell hwell' haad
  obtain rfl := h.decapsulates call hcall cipherText _ hgcm kem seed hshared
  refine ⟨call, hcall, hkind.trans hlayer.symm, ⟨_, hrun, ?_, ?_⟩, ⟨text, htext, rfl⟩, ?_, ?_⟩
  · rw [hlayer]
    intro name hname
    simp only [Layer.markers, List.mem_cons, List.not_mem_nil, or_false] at hname
    rcases hname with rfl | rfl | rfl | rfl | rfl
    · exact hversion
    · exact halg
    · exact hkid
    · exact hkem
    · exact hiv
  · rw [get_kemEnvelope hname, hfield, hsealed]
  · cases opener <;> cases hlayer <;> cases call <;> cases hkind <;> rfl
  · cases opener <;> cases hlayer <;> cases call <;> cases hkind <;> rfl

theorem Ideal.openedAs_aead (h : Ideal prim calls) (hlayer : opener.layer = .aead) {keyHex text : Text}
    (hkey : opener.keyHex = some keyHex) (hopen : aeadDecrypt prim object keyHex opener.field = .ok text) :
    ∃ call ∈ calls, OpenedAs prim opener object (.text text) call := by
  obtain ⟨key, iv, sealed, opened, ⟨hversion, halg, hiv, hfield⟩, himport, hdecrypt, rfl⟩ :=
    aeadDecrypt_eq_ok hopen
  have haad : Layer.aead.HasAad (formatAad aeadAlg none) := rfl
  obtain ⟨hsealed, call, hcall, hkind, kem, hgcm⟩ := h.sealed haad hdecrypt
  obtain ⟨htext, hname, -, hsame, hplace, hrun⟩ := SealCall.gcm_aead hkind hgcm
  refine ⟨call, hcall, hkind.trans hlayer.symm, ⟨_, hrun, ?_, ?_⟩, ⟨opened, htext, ?_⟩, ?_, ?_⟩
  · rw [hlayer]
    intro name hname
    simp only [Layer.markers, List.mem_cons, List.not_mem_nil, or_false] at hname
    rcases hname with rfl | rfl | rfl
    · exact hversion
    · exact halg
    · exact hiv
  · rw [get_aeadEnvelope hname, hfield, hsealed]
  · cases opener <;> cases hlayer <;> rfl
  · rw [hsame, hkey, Option.map_some, himport]
  · rw [hplace]
    cases opener <;> cases hlayer <;> rfl

theorem Ideal.openedAs_chunk (h : Ideal prim calls) {keyHex secretId chunkIndex : Text} {bytes : Bytes}
    (hopen : decryptChunk prim (object.get "iv") (object.get "ciphertext") keyHex
      (chunkAad secretId chunkIndex) = .ok bytes) :
    ∃ call ∈ calls, OpenedAs prim (.decryptChunk keyHex secretId chunkIndex) object (.bytes bytes) call := by
  obtain ⟨key, iv, sealed, ⟨hiv, hfield⟩, himport, hopen⟩ := decryptChunk_eq_ok hopen
  have haad : Layer.chunk.HasAad (chunkAad secretId chunkIndex).encode := ⟨secretId, chunkIndex, rfl⟩
  obtain ⟨hsealed, call, hcall, hkind, kem, hgcm⟩ := h.sealed haad hopen
  obtain ⟨htext, hplace, hsame, hname, hrun⟩ := SealCall.gcm_chunk hkind hgcm
  refine ⟨call, hcall, hkind, ⟨_, hrun, ?_, ?_⟩, ⟨bytes, htext, rfl⟩, ?_, hplace.symm⟩
  · intro name hname
    obtain rfl := List.mem_singleton.mp hname
    exact hiv
  · rw [hname]
    exact hfield.trans (by rw [hsealed]; rfl)
  · rw [hsame]
    exact congrArg some himport

theorem Ideal.openedAs (h : Ideal prim calls) {result : Opened} (hopen : opener.apply prim object = .ok result) :
    ∃ call ∈ calls, OpenedAs prim opener object result call := by
  cases opener with
  | decryptMessage seedHex =>
    obtain ⟨text, htext, rfl⟩ := map_eq_ok.mp hopen
    obtain ⟨bytes, hbytes, htext⟩ := bind_eq_ok.mp htext
    cases htext
    exact h.openedAs_kem (by rfl) hbytes
  | unwrapSessionKey seedHex =>
    obtain ⟨text, htext, rfl⟩ := map_eq_ok.mp hopen
    obtain ⟨bytes, hbytes, htext⟩ := bind_eq_ok.mp htext
    cases htext
    exact h.openedAs_kem (by rfl) hbytes
  | decryptWithSessionKey keyHex =>
    obtain ⟨text, htext, rfl⟩ := map_eq_ok.mp hopen
    exact h.openedAs_aead rfl rfl htext
  | decryptSymmetric keyHex =>
    obtain ⟨text, htext, rfl⟩ := map_eq_ok.mp hopen
    exact h.openedAs_aead rfl rfl htext
  | decryptChunk keyHex secretId chunkIndex =>
    obtain ⟨bytes, hbytes, rfl⟩ := map_eq_ok.mp hopen
    exact h.openedAs_chunk hbytes

theorem apply_decryptMessage {seed text : Text} (h : decryptMessage prim object seed = .ok text) :
    (Opener.decryptMessage seed).apply prim object = .ok (.text text) := map_eq_ok.mpr ⟨text, h, rfl⟩

theorem apply_unwrapSessionKey {seed key : Text} (h : unwrapSessionKey prim object seed = .ok key) :
    (Opener.unwrapSessionKey seed).apply prim object = .ok (.text key) := map_eq_ok.mpr ⟨key, h, rfl⟩

/-- What an approved request releases is what the opening function returns. -/
theorem apply_of_decryptApproved {account : Option Account} {text : Text}
    (h : decryptApproved prim account object = .ok text) :
    ∃ seed, (Opener.decryptMessage seed).apply prim object = .ok (.text text) := by
  unfold decryptApproved at h
  split at h
  · cases h
  · obtain ⟨seed, -, htext⟩ := bind_eq_ok.mp h
    exact ⟨seed, apply_decryptMessage htext⟩

theorem apply_of_unwrapApproved {account : Option Account} {text : Text}
    (h : unwrapApproved prim account object = .ok text) :
    ∃ seed, (Opener.unwrapSessionKey seed).apply prim object = .ok (.text text) := by
  unfold unwrapApproved at h
  split at h
  · cases h
  · split at h
    · next hunwrap =>
      cases h
      obtain ⟨seed, -, htext⟩ := bind_eq_ok.mp hunwrap
      exact ⟨seed, apply_unwrapSessionKey htext⟩
    · cases h

/-- An item of a batch is released as it is on its own. -/
theorem exists_of_manyApproved {approved : Option Account → Value → Except String Text}
    {account : Option Account} {items : List Value} {results : List (Option Text)} {text : Text}
    (h : manyApproved approved account items = .ok results) (htext : some text ∈ results) :
    ∃ item ∈ items, approved account item = .ok text := by
  unfold manyApproved at h
  split at h
  · cases h
  · next account =>
    cases h
    obtain ⟨item, hitem, hresult⟩ := List.mem_map.mp htext
    refine ⟨item, hitem, ?_⟩
    cases happroved : approved (some account) item with
    | error e =>
      rw [happroved] at hresult
      cases hresult
    | ok released =>
      rw [happroved] at hresult
      exact congrArg Except.ok (Option.some.inj hresult)

end results

/-- What an object opens as was sealed by a call of the same kind, whose envelope has the markers that
were read, and the ciphertext under one of the names of that kind. An approved request releases
nothing else. -/
theorem opened_as_sealed {prim : CryptoPrimitives} {calls : List SealCall} (h : Ideal prim calls) :
    (∀ opener object result, opener.apply prim object = .ok result →
      ∃ call ∈ calls, OpenedAs prim opener object result call) ∧
    ∀ account,
      (∀ data text, decryptApproved prim account data = .ok text → ∃ seed, ∃ call ∈ calls,
        OpenedAs prim (.decryptMessage seed) data (.text text) call) ∧
      (∀ wrappedKey key, unwrapApproved prim account wrappedKey = .ok key → ∃ seed, ∃ call ∈ calls,
        OpenedAs prim (.unwrapSessionKey seed) wrappedKey (.text key) call) ∧
      (∀ items results text, manyApproved (decryptApproved prim) account items = .ok results →
        some text ∈ results → ∃ data ∈ items, ∃ seed, ∃ call ∈ calls,
          OpenedAs prim (.decryptMessage seed) data (.text text) call) ∧
      ∀ items results key, manyApproved (unwrapApproved prim) account items = .ok results →
        some key ∈ results → ∃ wrappedKey ∈ items, ∃ seed, ∃ call ∈ calls,
          OpenedAs prim (.unwrapSessionKey seed) wrappedKey (.text key) call := by
  have hdecrypt : ∀ account data text, decryptApproved prim account data = .ok text → ∃ seed, ∃ call ∈ calls,
      OpenedAs prim (.decryptMessage seed) data (.text text) call := fun account data text happroved =>
    have ⟨seed, happly⟩ := apply_of_decryptApproved happroved
    ⟨seed, h.openedAs happly⟩
  have hunwrap : ∀ account wrappedKey key, unwrapApproved prim account wrappedKey = .ok key →
      ∃ seed, ∃ call ∈ calls, OpenedAs prim (.unwrapSessionKey seed) wrappedKey (.text key) call :=
    fun account wrappedKey key happroved =>
      have ⟨seed, happly⟩ := apply_of_unwrapApproved happroved
      ⟨seed, h.openedAs happly⟩
  refine ⟨fun opener object result hopen => h.openedAs hopen, fun account => ⟨hdecrypt account,
    hunwrap account, fun items results text hmany htext => ?_, fun items results key hmany hkey => ?_⟩⟩
  · obtain ⟨data, hdata, happroved⟩ := exists_of_manyApproved hmany htext
    exact ⟨data, hdata, hdecrypt account data text happroved⟩
  · obtain ⟨wrappedKey, hwrapped, happroved⟩ := exists_of_manyApproved hmany hkey
    exact ⟨wrappedKey, hwrapped, hunwrap account wrappedKey key happroved⟩

/-! ## The content key of a secret -/

def contentKey : Text := lit "content key"

/-- The grant of a secret: its content key, sealed to its holder. -/
def grantCall : SealCall := .encryptMessage contentKey (lit "00") sampleRandomness

/-- Primitives that open what this call sealed, with short keys. -/
def grantPrimitives : CryptoPrimitives where
  gcmEncrypt _ _ _ text := text ++ [0]
  gcmDecrypt key iv aad sealed :=
    let kid := (toHex (List.replicate 48 0)).take keyIdHexLength
    if key = List.replicate 32 0 ∧ iv = sampleIv.bytes ∧ aad = formatAad kemEnvelopeAlg (some kid) ∧
      sealed = contentKey.encode ++ [0] then some contentKey.encode else none
  publicKey _ := .ok [0]
  encapsulate _ _ := .ok ([0], List.replicate 32 0)
  decapsulate kem _ := if kem = [0] then .ok (List.replicate 32 0) else .error "OperationError"
  sha384 _ := List.replicate 48 0

def grantHolder : Account :=
  { sampleHolder with
    encryption := freshKey (suites grantPrimitives sampleSuites) ⟨lit "00", lit "00"⟩ Number.zero }

theorem gcm_grantCall : grantCall.gcm grantPrimitives = .ok (some [0], ⟨List.replicate 32 0, sampleIv.bytes,
    formatAad kemEnvelopeAlg (some ((toHex (List.replicate 48 0)).take keyIdHexLength)), contentKey.encode⟩) :=
  rfl

theorem ideal_grantPrimitives : Ideal grantPrimitives [grantCall] where
  opens key iv aad sealed text hopen := by
    simp only [grantPrimitives] at hopen
    split at hopen
    · next hsame =>
      obtain ⟨rfl, rfl, rfl, rfl⟩ := hsame
      cases hopen
      exact ⟨rfl, grantCall, List.mem_singleton_self _, some [0], gcm_grantCall⟩
    · cases hopen
  decapsulates call hcall cipherText gcm hgcm kem seed hkem := by
    obtain rfl := List.mem_singleton.mp hcall
    rw [gcm_grantCall] at hgcm
    cases hgcm
    simp only [grantPrimitives] at hkem
    split at hkem
    · next h => exact h
    · cases hkem

/-- A field of an object under another name. -/
def rename (name name' : String) : Value → Value
  | .obj fields => .obj (fields.map fun f => if f.1 == lit name then (lit name', f.2) else f)
  | v => v

/-- The grant opens as what was sealed. -/
theorem opened_as_sealed_sample : ∃ envelope, grantCall.run grantPrimitives = .ok envelope ∧
    ∃ call ∈ [grantCall], OpenedAs grantPrimitives (.decryptMessage grantHolder.encryption.seed) envelope
      (.text contentKey) call := by
  have hopen : (do
      let envelope ← grantCall.run grantPrimitives
      decryptMessage grantPrimitives envelope grantHolder.encryption.seed) = .ok contentKey := by
    decide +kernel
  obtain ⟨envelope, hseal, hopen⟩ := bind_eq_ok.mp hopen
  exact ⟨envelope, hseal, (opened_as_sealed ideal_grantPrimitives).1 _ envelope _
    (apply_decryptMessage hopen)⟩

/-- The grant with its ciphertext under the name of a wrapped key: the approval to unlock session keys
releases the bytes of the content key. -/
theorem not_opened_as_sealed : Ideal grantPrimitives [grantCall] ∧ ∃ envelope,
    encryptMessage grantPrimitives contentKey (lit "00") sampleRandomness = .ok envelope ∧
    unwrapApproved grantPrimitives (some grantHolder) (rename "content" "encKey" envelope) =
      .ok (toHex contentKey.encode) := by
  have hrelease : (do
      let envelope ← encryptMessage grantPrimitives contentKey (lit "00") sampleRandomness
      unwrapApproved grantPrimitives (some grantHolder) (rename "content" "encKey" envelope)) =
      .ok (toHex contentKey.encode) := by decide +kernel
  obtain ⟨envelope, hseal, hrelease⟩ := bind_eq_ok.mp hrelease
  exact ⟨ideal_grantPrimitives, envelope, hseal, hrelease⟩

end Kryptolog.Client.Envelopes
