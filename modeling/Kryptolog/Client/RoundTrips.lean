import Kryptolog.Client.Envelopes

/-! # What is sealed and opened again

With sound primitives every envelope opens for the key that it was sealed to, which an account still
finds by its id after it has rotated, and gives the bytes back. The text of these bytes is the one
that was sealed, but for a byte order mark at its beginning.
-/

namespace Kryptolog.Client.Envelopes
set_option autoImplicit false

open Script Fallible Runs

/-- What the primitives are documented to do. -/
structure Sound (prim : CryptoPrimitives) : Prop where
  opens : ∀ key iv aad text, prim.gcmDecrypt key iv aad (prim.gcmEncrypt key iv aad text) = some text
  tagged : ∀ key iv aad text, (prim.gcmEncrypt key iv aad text).length = text.length + 16
  publicKey_length : ∀ seed key, prim.publicKey seed = .ok key → key.length = 1281
  encapsulates : ∀ seed key random, prim.publicKey seed = .ok key → ∃ cipherText shared,
    prim.encapsulate key random = .ok (cipherText, shared) ∧ prim.decapsulate cipherText seed = .ok shared ∧
      cipherText.length = 1185 ∧ shared.length = 32
  digest_length : ∀ input, (prim.sha384 input).length = 48

theorem ne_nil_of_length {n : ℕ} {bytes : Bytes} (h : bytes.length = n + 1) : bytes ≠ [] := by
  rintro rfl
  cases h

theorem Iv.ne_nil (iv : Iv) : iv.bytes ≠ [] := ne_nil_of_length iv.length_eq

section seals

variable {prim : CryptoPrimitives} {seedHex publicHex : Text} {field : String}

theorem Sound.sealed_ne_nil (h : Sound prim) (key iv aad text : Bytes) :
    prim.gcmEncrypt key iv aad text ≠ [] := ne_nil_of_length (h.tagged key iv aad text)

theorem Sound.subtleDecrypt (h : Sound prim) (key iv aad text : Bytes) :
    subtleDecrypt prim key iv aad (prim.gcmEncrypt key iv aad text) = .ok text := by
  rw [Envelopes.subtleDecrypt, h.opens]
  rfl

theorem importKey_eq_ok {key : Bytes} (h : key.length = 32) : importKey key = .ok key :=
  if_pos (.inr (.inr h))

theorem isEncryptionKeyId_take {digest : Bytes} (h : digest.length = 48) :
    isEncryptionKeyId ((toHex digest).take keyIdHexLength) = true := by
  have hlength : ((toHex digest).take keyIdHexLength).length = keyIdHexLength := by
    rw [List.length_take, length_toHex, h]
    rfl
  have hlower : Text.consistsOf Hex.isLowercase ((toHex digest).take keyIdHexLength) = true := by
    refine List.all_eq_true.mpr fun p hp => ?_
    obtain ⟨c, hc, rfl⟩ := List.mem_map.mp (List.mem_of_mem_take hp)
    exact Hex.isLowercase_encode hc
  rw [isEncryptionKeyId, hlength, hlower]
  rfl

/-- The ciphertext of an envelope has one of two names. -/
def KemField (field : String) : Prop := field = "content" ∨ field = "encKey"

def AeadField (field : String) : Prop := field = "content" ∨ field = "ciphertext"

theorem kidOf_kemEnvelope {kid : Text} (hkid : isEncryptionKeyId kid = true) (cipherText iv : Bytes)
    (field : String) (sealed : Bytes) (what : String) :
    kidOf (kemEnvelope kid cipherText iv field sealed) what = .ok kid := if_pos hkid

theorem get_kemEnvelope (hfield : KemField field) (kid : Text) (cipherText iv sealed : Bytes) :
    (kemEnvelope kid cipherText iv field sealed).get field = some (.str (toB64 sealed)) := by
  rcases hfield with rfl | rfl <;> rfl

theorem get_aeadEnvelope (hfield : AeadField field) (iv sealed : Bytes) :
    (aeadEnvelope iv field sealed).get field = some (.str (toB64 sealed)) := by
  rcases hfield with rfl | rfl <;> rfl

/-- An envelope names the key that it was sealed to, and opens for the seed of that key. -/
theorem Sound.kemOpen_kemSeal (h : Sound prim) (hpublic : encryptionPublicKeyOf prim seedHex = .ok publicHex)
    (hfield : KemField field) (plaintext : Bytes) (what : String) (random : Randomness) :
    ∃ kid envelope, encryptionKeyId prim publicHex = .ok kid ∧
      kemSeal prim plaintext publicHex field random = .ok envelope ∧
      envelope.get "kid" = some (.str kid) ∧ kemOpen prim envelope seedHex field what = .ok plaintext := by
  obtain ⟨seed, hseed, hpublic⟩ := bind_eq_ok.mp hpublic
  obtain ⟨key, hkey, hhex⟩ := bind_eq_ok.mp hpublic
  obtain ⟨cipherText, shared, hencapsulate, hdecapsulate, hlength, hshared⟩ :=
    h.encapsulates seed key random.kem hkey
  have hread : fromHex publicHex = .ok key := by
    rw [← Except.ok.inj hhex]
    exact fromHex_toHex (ne_nil_of_length (h.publicKey_length seed key hkey))
  have hkid : encryptionKeyId prim publicHex =
      .ok ((toHex (prim.sha384 (keyIdDomain ++ key))).take keyIdHexLength) := by
    rw [encryptionKeyId, hread]
    rfl
  have hvalid := isEncryptionKeyId_take (h.digest_length (keyIdDomain ++ key))
  generalize (toHex (prim.sha384 (keyIdDomain ++ key))).take keyIdHexLength = kid at hkid hvalid
  have hkem := fromB64_toB64 (ne_nil_of_length hlength)
  have hiv := fromB64_toB64 random.iv.ne_nil
  have himport := importKey_eq_ok hshared
  have hopened := h.subtleDecrypt shared random.iv.bytes (formatAad kemEnvelopeAlg (some kid)) plaintext
  have hsealed := fromB64_toB64
    (h.sealed_ne_nil shared random.iv.bytes (formatAad kemEnvelopeAlg (some kid)) plaintext)
  have hseal : kemSeal prim plaintext publicHex field random = .ok (kemEnvelope kid cipherText random.iv.bytes
      field (prim.gcmEncrypt shared random.iv.bytes (formatAad kemEnvelopeAlg (some kid)) plaintext)) := by
    simp only [kemSeal, hkid, hread, hencapsulate, himport, ok_bind]
  generalize prim.gcmEncrypt shared random.iv.bytes (formatAad kemEnvelopeAlg (some kid)) plaintext = sealed
    at hopened hsealed hseal
  have hformat : assertFormat (kemEnvelope kid cipherText random.iv.bytes field sealed) kemEnvelopeAlg what =
      .ok () := rfl
  have hgetKem : (kemEnvelope kid cipherText random.iv.bytes field sealed).get "kem" =
      some (.str (toB64 cipherText)) := rfl
  have hgetIv : (kemEnvelope kid cipherText random.iv.bytes field sealed).get "iv" =
      some (.str (toB64 random.iv.bytes)) := rfl
  refine ⟨kid, _, hkid, hseal, rfl, ?_⟩
  simp only [kemOpen, hformat, kidOf_kemEnvelope hvalid, hgetKem, hkem, hseed, hdecapsulate, hgetIv, hiv,
    himport, get_kemEnvelope hfield, hsealed, ok_bind, hopened]

/-- What is sealed under a key is opened under it, as far as its bytes tell the text. -/
theorem Sound.aeadDecrypt_aeadEncrypt (h : Sound prim) {keyHex : Text} {key : Bytes}
    (hkey : fromHex keyHex = .ok key) (hlength : key.length = 32) (hfield : AeadField field)
    (plaintext : Text) (iv : Iv) :
    ∃ envelope, aeadEncrypt prim plaintext keyHex field iv = .ok envelope ∧
      aeadDecrypt prim envelope keyHex field = .ok (decodeText plaintext.encode) := by
  have himport : importAesKey keyHex = .ok key := by
    rw [importAesKey, hkey]
    exact importKey_eq_ok hlength
  have hiv := fromB64_toB64 iv.ne_nil
  have hopened := h.subtleDecrypt key iv.bytes (formatAad aeadAlg none) plaintext.encode
  have hsealed := fromB64_toB64 (h.sealed_ne_nil key iv.bytes (formatAad aeadAlg none) plaintext.encode)
  have hseal : aeadEncrypt prim plaintext keyHex field iv = .ok (aeadEnvelope iv.bytes field
      (prim.gcmEncrypt key iv.bytes (formatAad aeadAlg none) plaintext.encode)) := by
    simp only [aeadEncrypt, himport, ok_bind]
  generalize prim.gcmEncrypt key iv.bytes (formatAad aeadAlg none) plaintext.encode = sealed
    at hopened hsealed hseal
  have hformat : assertFormat (aeadEnvelope iv.bytes field sealed) aeadAlg "AES-GCM envelope" = .ok () := rfl
  have hgetIv : (aeadEnvelope iv.bytes field sealed).get "iv" = some (.str (toB64 iv.bytes)) := rfl
  refine ⟨_, hseal, ?_⟩
  simp only [aeadDecrypt, hformat, himport, hgetIv, hiv, get_aeadEnvelope hfield, hsealed, ok_bind, hopened]

end seals

/-! ## The recipient's account -/

section accounts

variable (prim : CryptoPrimitives) (identity : KeySuites)

/-- `SEED_RE.encryption`, where the suite derives a key from the seed. -/
def isEncryptionSeed (seed : Text) : Bool :=
  seed.length == 224 && seed.consistsOf Hex.isLowercase && (encryptionPublicKeyOf prim seed).isOk

/-- The suites of accounts: these encryption keys, beside the keys of identities. -/
def suites : KeySuites :=
  { identity with
    encryptionPublicKeyOf := fun seed => (encryptionPublicKeyOf prim seed).toOption.getD []
    encryptionKeyId := fun key => (encryptionKeyId prim key).toOption.getD []
    isEncryptionSeed := isEncryptionSeed prim
    kemAlg := kemAlg }

end accounts

section rotated

variable {prim : CryptoPrimitives} {identity : KeySuites}

theorem encryptionPublicKeyOf_record {k : EncryptionKey} (h : KeyRecord (suites prim identity) k) :
    encryptionPublicKeyOf prim k.seed = .ok k.publicKey := by
  obtain ⟨hseed, hpublic, -⟩ := h
  have hok : (encryptionPublicKeyOf prim k.seed).isOk = true := (Bool.and_eq_true_iff.mp hseed).2
  have hpublic : k.publicKey = (encryptionPublicKeyOf prim k.seed).toOption.getD [] := hpublic
  cases hkey : encryptionPublicKeyOf prim k.seed with
  | error e =>
    rw [hkey] at hok
    cases hok
  | ok key =>
    rw [hkey] at hpublic
    exact congrArg Except.ok hpublic.symm

/-- A step of the account that does not destroy this key. -/
def KeepsKey (suites : KeySuites) (kid : Text) (a : Account) (step : Number × KeyAction) : Prop :=
  step.2.Fresh suites a ∧ step.2 ≠ .destroy kid

/-- A key that is not destroyed is held after every rotation. -/
theorem mem_keys_of_run {suites : KeySuites} {k : EncryptionKey} {a b : Account}
    {steps : List (Number × KeyAction)} (hrun : Run (restrict (KeepsKey suites k.kid) (KeyStep suites)) a steps b)
    (ha : a.Canonical suites) (hk : k ∈ a.keys) : b.Canonical suites ∧ k ∈ b.keys := by
  refine hrun.invariant (I := fun a => a.Canonical suites ∧ k ∈ a.keys) ?_ ⟨ha, hk⟩
  rintro a step b ⟨ha, hk⟩ ⟨⟨hfresh, hkept⟩, hstep⟩
  refine ⟨ha.step hfresh hstep, ?_⟩
  have hlaw := keyLaw_of_apply ha hstep
  cases haction : step.2 with
  | rotate fresh now =>
    rw [haction] at hlaw
    rw [hlaw.2]
    exact List.mem_cons_of_mem _ hk
  | revert newKid now =>
    rw [haction] at hlaw
    obtain ⟨_, _, -, -, hperm⟩ := hlaw
    exact hperm.mem_iff.mpr hk
  | destroy kid =>
    rw [haction] at hlaw hkept
    obtain ⟨-, gone, -, hgone, hperm⟩ := hlaw
    rcases List.mem_cons.mp (hperm.mem_iff.mp hk) with rfl | hmem
    · exact absurd (congrArg KeyAction.destroy hgone.symm) hkept
    · exact hmem

end rotated

/-! ## Round trips -/

/-- The text begins with a byte order mark. -/
def Marked (text : Text) : Prop := text.head? = some (.char '\uFEFF')

instance (text : Text) : Decidable (Marked text) :=
  inferInstanceAs (Decidable (text.head? = some (.char '\uFEFF')))

/-- A text comes back from an envelope if and only if it does not begin with a byte order mark, whatever
keys the recipient has rotated to in between, and a session key comes back always. -/
theorem decryption_undoes_encryption {prim : CryptoPrimitives} {identity : KeySuites} (h : Sound prim)
    {clock : Number} {account : Value} {a₀ a : Account} {steps : List (Number × KeyAction)}
    (hparse : parseAccount (suites prim identity) clock account = .ok a₀)
    (hrun : Run (restrict (KeepsKey (suites prim identity) a₀.encryption.kid)
      (KeyStep (suites prim identity))) a₀ steps a) :
    (∀ text : Text, text.isWellFormed = true →
      (∀ random, ∃ envelope, encryptMessage prim text a₀.encryption.publicKey random = .ok envelope ∧
        ((encryptionSeedFor a envelope >>= decryptMessage prim envelope) = .ok text ↔ ¬ Marked text)) ∧
      ∀ keyHex key iv, fromHex keyHex = .ok key → key.length = 32 →
        (∃ envelope, encryptWithSessionKey prim text keyHex iv = .ok envelope ∧
          (decryptWithSessionKey prim envelope keyHex = .ok text ↔ ¬ Marked text)) ∧
        ∃ envelope, encryptSymmetric prim text keyHex iv = .ok envelope ∧
          (decryptSymmetric prim envelope keyHex = .ok text ↔ ¬ Marked text)) ∧
    ∀ sessionKey : Bytes, sessionKey.length = 32 → ∀ random, ∃ wrappedKey,
      wrapSessionKey prim (toHex sessionKey) a₀.encryption.publicKey random = .ok wrappedKey ∧
        (encryptionSeedFor a wrappedKey >>= unwrapSessionKey prim wrappedKey) = .ok (toHex sessionKey) := by
  have hcanonical := canonical_of_parseAccount hparse
  obtain ⟨hafter, hheld⟩ := mem_keys_of_run hrun hcanonical List.mem_cons_self
  have hrecord : KeyRecord (suites prim identity) a₀.encryption := hcanonical.keys _ List.mem_cons_self
  have hpublic := encryptionPublicKeyOf_record hrecord
  -- the account finds the seed by the id that the envelope names
  have hseal : ∀ plaintext field what random, KemField field → ∃ envelope,
      kemSeal prim plaintext a₀.encryption.publicKey field random = .ok envelope ∧
        encryptionSeedFor a envelope = .ok a₀.encryption.seed ∧
        kemOpen prim envelope a₀.encryption.seed field what = .ok plaintext := by
    intro plaintext field what random hfield
    obtain ⟨kid, envelope, hkid, hseal, hget, hopen⟩ :=
      h.kemOpen_kemSeal hpublic hfield plaintext what random
    have hname : a₀.encryption.kid = kid := by
      have hkid' : a₀.encryption.kid = (encryptionKeyId prim a₀.encryption.publicKey).toOption.getD [] :=
        hrecord.2.2
      rw [hkid', hkid]
      rfl
    exact ⟨envelope, hseal, hafter.keyAlgebra.opens _ hheld envelope (hname ▸ hget), hopen⟩
  refine ⟨fun text htext => ⟨fun random => ?_, fun keyHex key iv hkey hlength => ⟨?_, ?_⟩⟩,
    fun sessionKey hlength random => ?_⟩
  · obtain ⟨envelope, hseal, hseed, hopen⟩ := hseal text.encode "content" "KEM envelope" random (.inl rfl)
    refine ⟨envelope, hseal, ?_⟩
    rw [hseed, ok_bind, decryptMessage, hopen, ok_bind, Except.ok.injEq]
    exact decodeText_encode htext
  · obtain ⟨envelope, hseal, hopen⟩ := h.aeadDecrypt_aeadEncrypt hkey hlength (.inl rfl) text iv
    refine ⟨envelope, hseal, ?_⟩
    rw [decryptWithSessionKey, hopen, Except.ok.injEq]
    exact decodeText_encode htext
  · obtain ⟨envelope, hseal, hopen⟩ := h.aeadDecrypt_aeadEncrypt hkey hlength (.inr rfl) text iv
    refine ⟨envelope, hseal, ?_⟩
    rw [decryptSymmetric, hopen, Except.ok.injEq]
    exact decodeText_encode htext
  · obtain ⟨envelope, hseal, hseed, hopen⟩ := hseal sessionKey "encKey" "wrapped key" random (.inr rfl)
    refine ⟨envelope, ?_, ?_⟩
    · rw [wrapSessionKey, fromHex_toHex (ne_nil_of_length hlength), ok_bind, hseal]
    · rw [hseed, ok_bind, unwrapSessionKey, hopen, ok_bind]

/-- Sealing that adds a tag and hides nothing, with keys that pad their seeds. -/
def samplePrimitives : CryptoPrimitives where
  gcmEncrypt _ _ _ text := text ++ List.replicate 16 0
  gcmDecrypt _ _ _ sealed := if sealed.length < 16 then none else some (sealed.take (sealed.length - 16))
  publicKey seed := .ok ((seed ++ List.replicate 1281 0).take 1281)
  encapsulate _ _ := .ok (List.replicate 1185 0, List.replicate 32 0)
  decapsulate _ _ := .ok (List.replicate 32 0)
  sha384 input := (input.drop keyIdDomain.length ++ List.replicate 48 0).take 48

theorem sound_samplePrimitives : Sound samplePrimitives where
  opens key iv aad text := by
    have hlength : (text ++ List.replicate 16 (0 : UInt8)).length = text.length + 16 := by
      rw [List.length_append, List.length_replicate]
    have htake : (text ++ List.replicate 16 (0 : UInt8)).take (text.length + 16 - 16) = text := by
      rw [Nat.add_sub_cancel, List.take_left]
    simp only [samplePrimitives, hlength]
    rw [if_neg (by omega), htake]
  tagged key iv aad text := by
    change (text ++ List.replicate 16 (0 : UInt8)).length = _
    rw [List.length_append, List.length_replicate]
  publicKey_length seed key hkey := by
    rw [← Except.ok.inj hkey, List.length_take, List.length_append, List.length_replicate]
    omega
  encapsulates seed key random hkey := ⟨_, _, rfl, rfl, List.length_replicate, List.length_replicate⟩
  digest_length input := by
    change ((input.drop keyIdDomain.length ++ List.replicate 48 (0 : UInt8)).take 48).length = 48
    rw [List.length_take, List.length_append, List.length_replicate]
    omega

def sampleIv : Iv := ⟨List.replicate 12 0, List.length_replicate⟩

def sampleRandomness : Randomness := ⟨sampleIv, []⟩

/-- The pair of a seed of equal digits. -/
def samplePair (digit : Char) : KeyPair :=
  let seed : Text := List.replicate 224 (.char digit)
  ⟨seed, (suites samplePrimitives sampleSuites).encryptionPublicKeyOf seed⟩

theorem samplePair_publicKey (digit : Char) : (samplePair digit).publicKey =
    (suites samplePrimitives sampleSuites).encryptionPublicKeyOf (samplePair digit).seed := rfl

theorem keyRecord_samplePair (digit : Char)
    (h : isEncryptionSeed samplePrimitives (samplePair digit).seed = true) :
    KeyRecord (suites samplePrimitives sampleSuites)
      (freshKey (suites samplePrimitives sampleSuites) (samplePair digit) Number.zero) :=
  ⟨h, samplePair_publicKey digit, rfl⟩

def sampleHolder : Account where
  id := lit "identity alice"
  name := []
  createdAt := Number.zero
  identity := ⟨lit "alice", lit "identity alice"⟩
  encryption := freshKey (suites samplePrimitives sampleSuites) (samplePair '0') Number.zero
  retiredEncryption := []

theorem canonical_sampleHolder : sampleHolder.Canonical (suites samplePrimitives sampleSuites) where
  identity := ⟨rfl, rfl⟩
  id := rfl
  keys k hk := by
    obtain rfl := List.mem_singleton.mp hk
    change KeyRecord (suites samplePrimitives sampleSuites) sampleHolder.encryption
    exact keyRecord_samplePair '0' (by decide +kernel)
  kids := List.nodup_singleton _
  capacity := Nat.zero_le _

/-- The holder after a rotation. -/
def rotatedHolder : Account :=
  { sampleHolder with
    encryption := freshKey (suites samplePrimitives sampleSuites) (samplePair '1') Number.zero
    retiredEncryption := [⟨sampleHolder.encryption, Number.zero⟩] }

theorem run_rotatedHolder : Run (restrict (KeepsKey (suites samplePrimitives sampleSuites)
    sampleHolder.encryption.kid) (KeyStep (suites samplePrimitives sampleSuites)))
    sampleHolder [(Number.zero, .rotate (samplePair '1') Number.zero)] rotatedHolder := by
  have hfresh : (KeyAction.rotate (samplePair '1') Number.zero).Fresh (suites samplePrimitives sampleSuites)
      sampleHolder := ⟨by decide +kernel, samplePair_publicKey '1', by decide +kernel⟩
  have hkept : KeyAction.rotate (samplePair '1') Number.zero ≠ .destroy sampleHolder.encryption.kid := by
    intro h
    cases h
  refine .single ⟨⟨hfresh, hkept⟩, ?_⟩
  rw [KeyStep, apply_value canonical_sampleHolder]
  exact rotate_eq_ok.mpr ⟨by decide, rfl⟩

/-- A message that was sealed before a rotation is opened after it. -/
theorem decryption_undoes_encryption_sample : ∃ envelope,
    encryptMessage samplePrimitives (lit "a") sampleHolder.encryption.publicKey sampleRandomness =
      .ok envelope ∧
    (encryptionSeedFor rotatedHolder envelope >>= decryptMessage samplePrimitives envelope) =
      .ok (lit "a") := by
  have hparse := parseAccount_value canonical_sampleHolder Number.zero
  obtain ⟨htexts, -⟩ := decryption_undoes_encryption sound_samplePrimitives hparse run_rotatedHolder
  obtain ⟨envelope, hseal, hopen⟩ := (htexts (lit "a") (by decide)).1 sampleRandomness
  exact ⟨envelope, hseal, hopen.mpr (by decide)⟩

/-- The text `"\uFEFFa"` comes back without its first character. -/
theorem not_decryption_undoes_encryption : ∃ text envelope, Text.isWellFormed text = true ∧
    encryptWithSessionKey samplePrimitives text (toHex (List.replicate 32 0)) sampleIv = .ok envelope ∧
    decryptWithSessionKey samplePrimitives envelope (toHex (List.replicate 32 0)) = .ok (lit "a") ∧
    text ≠ lit "a" := by
  have hkey : fromHex (toHex (List.replicate 32 0)) = .ok (List.replicate 32 0) :=
    fromHex_toHex (ne_nil_of_length (n := 31) List.length_replicate)
  obtain ⟨envelope, hseal, hopen⟩ := sound_samplePrimitives.aeadDecrypt_aeadEncrypt hkey
    List.length_replicate (.inl rfl) (.char '\uFEFF' :: lit "a") sampleIv
  have hdecoded : decodeText (Text.encode (.char '\uFEFF' :: lit "a")) = lit "a" := by decide +kernel
  exact ⟨_, envelope, by decide, hseal, hdecoded ▸ hopen, by decide⟩

end Kryptolog.Client.Envelopes
