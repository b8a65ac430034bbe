import Kryptolog.Client.BodyInjectivity
import Kryptolog.Client.CreatorBadge
import Kryptolog.Client.MultisigProof
import Kryptolog.Library.Fallible

/-! # What an audit proves

An audit that reports every signature of a proof as valid is compared with what it stands for: that someone
has signed, and that each signature is one of exactly what the proof shows. A proof that a page writes is
audited in turn.
-/

namespace Kryptolog.Client
set_option autoImplicit false

open Script Fallible Delimited

/-- The holder of an identity key of the address has signed the text. -/
def HasSigned (env : Viewer) (address message : Text) : Prop :=
  ∃ key signature, env.verifyIdentitySignature address key message signature = true

/-- A member is shown as a text: it is a string or a number. -/
def ReadsAs (v : Option Value) (t : Text) : Prop := v = some (.str t) ∨ ∃ n : Number, v = some (.num n) ∧ n.text = t

/-- The address has signed the content that is shown. -/
def SignedContent (env : Viewer) (address : Text) (content : Option Value) : Prop :=
  ∃ t, content = some (.str t) ∧ HasSigned env address (contentMessage t)

/-- The address has signed the approval of the workflow, the secret and the digest that are shown, which is the
approval of no others. -/
def SignedApproval (env : Viewer) (address : Text) (workflowId secretId ciphertextSha384 : Option Value) : Prop :=
  ∃ w s c, ReadsAs workflowId w ∧ ReadsAs secretId s ∧ ReadsAs ciphertextSha384 c ∧
    HasSigned env address (approvalMessage w s c) ∧
      ∀ (n m : Number) (h : Text), isHex h = true → approvalMessage n.text m.text h = approvalMessage w s c →
        n.text = w ∧ m.text = s ∧ h = c

/-- The address of an entry has signed what its role signs. -/
def EntrySound (env : Viewer) (proof entry : Value) : Prop :=
  ∃ a, entry.get "address" = some (.str a) ∧
    if isLiteral "signer" (entry.get "role") then
      SignedApproval env (toLowerCase a) (member₂ proof "workflow" "id") (member₂ proof "workflow" "secret_id")
        (member₂ proof "document" "ciphertext_sha384")
    else SignedContent env (toLowerCase a) (member₂ proof "document" "content")

/-- There is a signature, and every one is what it is shown for. -/
def ProofSound (env : Viewer) (proof : Value) : Prop :=
  if isLiteral "kryptolog_signed_document_proof" (proof.get "type") then
    ∃ a, member₂ proof "signer" "address" = some (.str a) ∧
      SignedContent env a (member₂ proof "document" "content")
  else ∃ e es, proofEntries proof = some (e :: es) ∧ ∀ entry ∈ e :: es, EntrySound env proof entry

/-- A proof shows what its entries sign as strings and numbers, and has an entry. -/
def IsExplicit (proof : Value) : Prop :=
  if isLiteral "kryptolog_signed_document_proof" (proof.get "type") then
    ∃ t, member₂ proof "document" "content" = some (.str t)
  else ∃ e es, proofEntries proof = some (e :: es) ∧ ∀ entry ∈ e :: es,
    if isLiteral "signer" (entry.get "role") then
      (∃ w, ReadsAs (member₂ proof "workflow" "id") w) ∧ (∃ s, ReadsAs (member₂ proof "workflow" "secret_id") s) ∧
        ∃ c, ReadsAs (member₂ proof "document" "ciphertext_sha384") c
    else ∃ t, member₂ proof "document" "content" = some (.str t)

/-- The signatures that are stored for a workflow verify with the keys that the server shows beside them. -/
structure SignaturesVerify (env : Viewer) (workflow : WorkflowDetail) (shown : Interpretation) : Prop where
  verified : shown.creatorSignature.isSome = true → shown.verificationStatus = .verified
  creator : ∀ signature, shown.creatorSignature = some signature →
    ∃ owner text, workflow.owner = some owner ∧ owner.identityPublicKey ≠ [] ∧
      memberText shown.creatorSignedContent = some text ∧
        env.verifyIdentitySignature (toLowerCase workflow.ownerAddress) owner.identityPublicKey
          (contentMessage text) signature = true
  signers : ∀ s ∈ workflow.signers, ∀ signature, s.hasSigned = true → s.signature = some signature →
    signature ≠ [] → ∃ user data, s.user = some user ∧ user.identityPublicKey ≠ [] ∧
      workflow.encryptedData = some data ∧ data ≠ [] ∧
        env.verifyIdentitySignature (toLowerCase s.userAddress) user.identityPublicKey
          (approvalMessage workflow.id.text workflow.secretId.text (env.sha384HexOfText data)) (.str signature) = true

/-- A proof of the workflow is written, and the audit of the file reports all of it as valid. -/
def ExportIsValid (env : Viewer) (workflow : WorkflowDetail) (shown : Interpretation) (exportedAt : Text) : Prop :=
  ∃ proof results, env.downloadMultisigProof workflow shown exportedAt = some proof ∧
    (env.parse (printed proof)).bind env.verifyProof = some results ∧ allValid results = true

/-- The signed content is no empty text, or the creator's signature is also one of the document that was
decrypted. -/
def ExportsSigned (env : Viewer) (workflow : WorkflowDetail) (shown : Interpretation) : Prop :=
  ∀ signature, shown.creatorSignature = some signature → present shown.creatorSignedContent = true ∨
    ∃ owner, workflow.owner = some owner ∧
      env.verifyIdentitySignature (toLowerCase workflow.ownerAddress) owner.identityPublicKey
        (contentMessage shown.rawDecryptedContent) signature = true

section audit

variable {env : Viewer} {proof entry : Value} {results : List SignerResult} {creatorBody : Text}
  {approval : Option Text}

/-! ### Approvals -/

theorem count_lines (a b c : Text) : (lines [a, b, c]).count newline =
    a.count newline + b.count newline + c.count newline + 2 := by
  have hlast : lines [c] = c := List.intercalate_singleton
  rw [lines_cons _ (List.cons_ne_nil _ _), lines_cons _ (List.cons_ne_nil _ _), hlast]
  simp only [List.count_append, List.count_cons_self]
  omega

/-- An approval whose parts are single lines is the approval of no others. -/
theorem approvalMessage_inj {w s c w' s' c' : Text} (hw : newline ∉ w) (hs : newline ∉ s) (hc : newline ∉ c)
    (h : approvalMessage w s c = approvalMessage w' s' c') : w = w' ∧ s = s' ∧ c = c' := by
  have hlines := (domainSeparate_inj h).2
  have hlabel : newline ∉ lit "workflow=" ∧ newline ∉ lit "secret=" ∧ newline ∉ lit "ct=" := by decide
  have hfew := congrArg (List.count newline) hlines
  simp only [count_lines, List.count_append, List.count_eq_zero_of_not_mem hlabel.1,
    List.count_eq_zero_of_not_mem hlabel.2.1, List.count_eq_zero_of_not_mem hlabel.2.2,
    List.count_eq_zero_of_not_mem hw, List.count_eq_zero_of_not_mem hs, List.count_eq_zero_of_not_mem hc] at hfew
  have hw' : newline ∉ w' := List.count_eq_zero.mp (by omega)
  have hs' : newline ∉ s' := List.count_eq_zero.mp (by omega)
  have hc' : newline ∉ c' := List.count_eq_zero.mp (by omega)
  have hparts := intercalate_inj (List.cons_ne_nil _ _) (List.cons_ne_nil _ _) (by simp [hlabel, hw, hs, hc])
    (by simp [hlabel, hw', hs', hc']) hlines
  simpa using hparts

/-! ### Entries -/

theorem verifyIdentitySignature_isAddress {address key message : Text} {signature : Value}
    (h : env.verifyIdentitySignature address key message signature = true) : isAddress (.str address) = true := by
  simp only [Messenger.verifyIdentitySignature, Messenger.isAddressOf, Bool.and_eq_true] at h
  exact h.1.1

/-- The address of an entry whose signature verifies is a text. -/
theorem address_of_verified {address key message : Text} {signature : Value}
    (haddress : entryAddress entry = some address)
    (h : env.verifyIdentitySignature address key message signature = true) :
    ∃ a, entry.get "address" = some (.str a) ∧ address = toLowerCase a := by
  simp only [entryAddress] at haddress
  split at haddress
  · obtain rfl := Option.some.inj haddress
    exact absurd (verifyIdentitySignature_isAddress h) (by decide)
  · next s hs =>
    exact ⟨s, (Option.filter_eq_some_iff.mp hs).1, (Option.some.inj haddress).symm⟩
  · cases haddress

theorem entryAddress_of_verified {a key message : Text} {signature : Value}
    (ha : entry.get "address" = some (.str a))
    (h : env.verifyIdentitySignature (toLowerCase a) key message signature = true) :
    entryAddress entry = some (toLowerCase a) := by
  have hne : a ≠ [] := by
    rintro rfl
    exact absurd (verifyIdentitySignature_isAddress h) (by decide)
  have htruthy : Value.truthy (.str a) = true := by simpa [Value.truthy] using hne
  simp only [entryAddress, ha, Option.filter_some, htruthy, if_true]

theorem entryValid_eq_true {body : Option Text} : env.entryValid body entry = some true ↔
    ∃ a key message, entry.get "address" = some (.str a) ∧ entry.get "identity_public_key" = some (.str key) ∧
      isLiteral proofAlgorithm (entry.get "algorithm") = true ∧ body = some message ∧
        env.verifyIdentitySignature (toLowerCase a) key message ((entry.get "signature").getD .null) = true := by
  constructor
  · intro h
    simp only [Viewer.entryValid] at h
    split at h
    · next message =>
      split at h
      · next halgorithm =>
        obtain ⟨address, haddress, hv⟩ := Option.map_eq_some_iff.mp h
        simp only [Viewer.verifyEntrySignature] at hv
        split at hv
        · next key hkey =>
          obtain ⟨a, ha, rfl⟩ := address_of_verified haddress hv
          exact ⟨a, key, message, ha, hkey, halgorithm, rfl, hv⟩
        · cases hv
      · cases h
    · cases h
  · rintro ⟨a, key, message, ha, hkey, halgorithm, rfl, hv⟩
    have haddress := entryAddress_of_verified ha hv
    simp [Viewer.entryValid, halgorithm, haddress, Viewer.verifyEntrySignature, hkey, hv]

theorem exists_valid {verdict : Option Bool} {f : Bool → SignerResult} (hf : ∀ valid, (f valid).valid = valid) :
    (∃ r, verdict.map f = some r ∧ r.valid = true) ↔ verdict = some true := by
  constructor
  · rintro ⟨r, hr, hvalid⟩
    obtain ⟨valid, rfl, rfl⟩ := Option.map_eq_some_iff.mp hr
    rw [hf] at hvalid
    rw [hvalid]
  · rintro rfl
    exact ⟨f true, rfl, hf true⟩

/-- An entry is valid where the address it names has signed the text of its role. -/
theorem verifyEntry_valid : (∃ r, env.verifyEntry creatorBody approval entry = some r ∧ r.valid = true) ↔
    env.entryValid (if isLiteral "signer" (entry.get "role") then approval else some creatorBody) entry =
      some true := by
  cases entry with
  | null =>
    constructor
    · rintro ⟨r, hr, -⟩
      cases hr
    · intro h
      obtain ⟨a, _, _, ha, -⟩ := entryValid_eq_true.mp h
      cases ha
  | _ =>
    simp only [Viewer.verifyEntry]
    exact exists_valid fun _ => rfl

/-! ### Proofs -/

theorem allValid_iff : allValid results = true ↔ ∀ r ∈ results, r.valid = true := List.all_eq_true

/-- An audit that comes to results has read the content, the version, the approval and the entries. -/
theorem verifyMultisigProofSignatures_eq_some :
    env.verifyMultisigProofSignatures proof = some results ↔ ∃ content approval entries,
      memberText (member₂ proof "document" "content") = some content ∧ assertProofVersion proof = some () ∧
      approvalBody proof = some approval ∧ proofEntries proof = some entries ∧
        entries.mapM (env.verifyEntry (contentMessage content) approval) = some results := by
  simp only [Viewer.verifyMultisigProofSignatures, Option.bind_eq_bind, Option.bind_eq_some_iff]
  constructor
  · rintro ⟨content, hcontent, ⟨⟩, hversion, approval, happroval, entries, hentries, hresults⟩
    exact ⟨content, approval, entries, hcontent, hversion, happroval, hentries, hresults⟩
  · rintro ⟨content, approval, entries, hcontent, hversion, happroval, hentries, hresults⟩
    exact ⟨content, hcontent, (), hversion, approval, happroval, entries, hentries, hresults⟩

theorem approvalBody_eq_some {body : Text} : approvalBody proof = some (some body) ↔ ∃ ciphertext w s c,
    member₂ proof "document" "ciphertext_sha384" = some ciphertext ∧ ciphertext ≠ .null ∧
    memberText (member₂ proof "workflow" "id") = some w ∧ memberText (member₂ proof "workflow" "secret_id") = some s ∧
      ciphertext.toText = some c ∧ approvalMessage w s c = body := by
  simp only [approvalBody]
  split
  · next h => simp [h]
  · next h => simp [h]
  · next ciphertext hnull h =>
    simp only [h, Option.bind_eq_bind, Option.bind_eq_some_iff, Option.some.injEq]
    constructor
    · rintro ⟨w, hw, s, hs, c, hc, hbody⟩
      exact ⟨ciphertext, w, s, c, rfl, hnull, hw, hs, hc, hbody⟩
    · rintro ⟨_, w, s, c, rfl, -, hw, hs, hc, hbody⟩
      exact ⟨w, hw, s, hs, c, hc, hbody⟩

/-- A member that is shown as a text is read as that text. -/
theorem ReadsAs.memberText {v : Option Value} {t : Text} (h : ReadsAs v t) : memberText v = some t := by
  obtain rfl | ⟨n, rfl, rfl⟩ := h
  · rfl
  · rfl

/-- A creator's entry that is valid is one of the content where the content is a text. -/
theorem signedContent_iff {a key content : Text} {signature : Value}
    (hcontent : memberText (member₂ proof "document" "content") = some content)
    (hv : env.verifyIdentitySignature a key (contentMessage content) signature = true) :
    SignedContent env a (member₂ proof "document" "content") ↔
      ∃ t, member₂ proof "document" "content" = some (.str t) := by
  constructor
  · rintro ⟨t, ht, -⟩
    exact ⟨t, ht⟩
  · rintro ⟨t, ht⟩
    rw [ht] at hcontent
    obtain rfl := Option.some.inj hcontent
    exact ⟨t, ht, key, signature, hv⟩

/-- A signer's entry that is valid is one of what is shown where that is shown as strings and numbers. -/
theorem signedApproval_iff {a key body : Text} {signature : Value} (hbody : approvalBody proof = some (some body))
    (hv : env.verifyIdentitySignature a key body signature = true) :
    SignedApproval env a (member₂ proof "workflow" "id") (member₂ proof "workflow" "secret_id")
        (member₂ proof "document" "ciphertext_sha384") ↔
      (∃ w, ReadsAs (member₂ proof "workflow" "id") w) ∧ (∃ s, ReadsAs (member₂ proof "workflow" "secret_id") s) ∧
        ∃ c, ReadsAs (member₂ proof "document" "ciphertext_sha384") c := by
  constructor
  · rintro ⟨w, s, c, hw, hs, hc, -⟩
    exact ⟨⟨w, hw⟩, ⟨s, hs⟩, c, hc⟩
  · rintro ⟨⟨w, hw⟩, ⟨s, hs⟩, c, hc⟩
    obtain ⟨ciphertext, _, _, _, hciphertext, -, hw', hs', hc', rfl⟩ := approvalBody_eq_some.mp hbody
    obtain rfl := Option.some.inj (hw.memberText.symm.trans hw')
    obtain rfl := Option.some.inj (hs.memberText.symm.trans hs')
    have hcText := hc.memberText
    rw [hciphertext] at hcText
    obtain rfl := Option.some.inj (hcText.symm.trans hc')
    refine ⟨w, s, c, hw, hs, hc, ⟨key, signature, hv⟩, fun n m h hhex heq => ?_⟩
    exact approvalMessage_inj (newline_notMem (isPlain_num n)) (newline_notMem (isPlain_num m))
      (newline_notMem (isPlain_hex hhex)) heq

/-- An entry that is valid is sound where what its role signs is shown as strings and numbers. -/
theorem entrySound_iff {content : Text} (hcontent : memberText (member₂ proof "document" "content") = some content)
    (hbody : approvalBody proof = some approval)
    (hvalid : env.entryValid (if isLiteral "signer" (entry.get "role") then approval
      else some (contentMessage content)) entry = some true) :
    EntrySound env proof entry ↔
      if isLiteral "signer" (entry.get "role") then
        (∃ w, ReadsAs (member₂ proof "workflow" "id") w) ∧ (∃ s, ReadsAs (member₂ proof "workflow" "secret_id") s) ∧
          ∃ c, ReadsAs (member₂ proof "document" "ciphertext_sha384") c
      else ∃ t, member₂ proof "document" "content" = some (.str t) := by
  obtain ⟨a, key, message, ha, -, -, hmessage, hv⟩ := entryValid_eq_true.mp hvalid
  have hone : EntrySound env proof entry ↔ if isLiteral "signer" (entry.get "role") then
      SignedApproval env (toLowerCase a) (member₂ proof "workflow" "id") (member₂ proof "workflow" "secret_id")
        (member₂ proof "document" "ciphertext_sha384")
      else SignedContent env (toLowerCase a) (member₂ proof "document" "content") := by
    constructor
    · rintro ⟨a', ha', h⟩
      obtain rfl := Value.str.inj (Option.some.inj (ha.symm.trans ha'))
      exact h
    · intro h
      exact ⟨a, ha, h⟩
  rw [hone]
  split
  · next hsigner =>
    rw [if_pos hsigner] at hmessage
    exact signedApproval_iff (hbody.trans (congrArg some hmessage)) hv
  · next hsigner =>
    rw [if_neg hsigner] at hmessage
    obtain rfl := Option.some.inj hmessage
    exact signedContent_iff hcontent hv

/-- The entries of a proof whose audit reports all valid. -/
theorem entries_sound_iff (hresults : env.verifyMultisigProofSignatures proof = some results)
    (hvalid : allValid results = true) :
    (∃ e es, proofEntries proof = some (e :: es) ∧ ∀ entry ∈ e :: es, EntrySound env proof entry) ↔
      ∃ e es, proofEntries proof = some (e :: es) ∧ ∀ entry ∈ e :: es,
        if isLiteral "signer" (entry.get "role") then
          (∃ w, ReadsAs (member₂ proof "workflow" "id") w) ∧
            (∃ s, ReadsAs (member₂ proof "workflow" "secret_id") s) ∧
              ∃ c, ReadsAs (member₂ proof "document" "ciphertext_sha384") c
        else ∃ t, member₂ proof "document" "content" = some (.str t) := by
  obtain ⟨content, approval, entries, hcontent, -, hbody, hentries, hmap⟩ :=
    verifyMultisigProofSignatures_eq_some.mp hresults
  have hall := exists_mapM_forall.mp ⟨results, hmap, allValid_iff.mp hvalid⟩
  refine exists_congr fun e => exists_congr fun es => and_congr_right fun hes => ?_
  obtain rfl := Option.some.inj (hentries.symm.trans hes)
  exact forall₂_congr fun entry hentry => entrySound_iff hcontent hbody (verifyEntry_valid.mp (hall entry hentry))

theorem sameAddress_some {address : Text} {named : Option Value} :
    sameAddress (some address) named = true ↔ named = some (.str address) := by
  cases named with
  | none => simp [sameAddress]
  | some v =>
    cases v with
    | str s => simp [sameAddress, @eq_comm _ address s]
    | _ => simp [sameAddress]

theorem singleVerdict_valid {signer : Value} {signerAddress : Option Text}
    (h : env.singleVerdict proof signer = some (true, signerAddress)) : ∃ key text a,
    memberText (member₂ proof "document" "content") = some text ∧ signerAddress = some a ∧
      env.verifyIdentitySignature a key (contentMessage text) ((proof.get "signature").getD .null) = true := by
  simp only [Viewer.singleVerdict] at h
  split at h
  · split at h
    · cases h
    · cases h
    · next document _ hdocument =>
      obtain ⟨key, text, a, -, htext, -, rfl, hv⟩ := verifySignedDocument_valid.mp h
      refine ⟨key, text, a, ?_, rfl, hv⟩
      rw [member₂, hdocument]
      exact htext
  · cases h

/-- A single signature that is reported as valid is one of the content of the address that is named. -/
theorem single_sound_iff (hresults : env.verifySingleSignature proof = some results)
    (hvalid : allValid results = true) :
    (∃ a, member₂ proof "signer" "address" = some (.str a) ∧
      SignedContent env a (member₂ proof "document" "content")) ↔
        ∃ t, member₂ proof "document" "content" = some (.str t) := by
  simp only [Viewer.verifySingleSignature, Option.bind_eq_bind, Option.bind_eq_some_iff] at hresults
  obtain ⟨⟨⟩, -, hresults⟩ := hresults
  split at hresults
  · cases hresults
  · cases hresults
  · next signer _ hsigner =>
    obtain ⟨⟨valid, signerAddress⟩, hverdict, rfl⟩ := Option.map_eq_some_iff.mp hresults
    obtain ⟨rfl, hsame⟩ := Bool.and_eq_true_iff.mp (allValid_iff.mp hvalid _ (List.mem_singleton_self _))
    obtain ⟨key, text, a, htext, rfl, hv⟩ := singleVerdict_valid hverdict
    have ha := sameAddress_some.mp hsame
    rw [member₂, hsigner, Option.bind_some, ha]
    constructor
    · rintro ⟨_, -, t, ht, -⟩
      exact ⟨t, ht⟩
    · rintro ⟨t, ht⟩
      exact ⟨a, rfl, (signedContent_iff htext hv).mpr ⟨t, ht⟩⟩

/-- A proof that the audit reports as all valid is sound where it shows what was signed and has an entry. -/
theorem proofSound_iff (hresults : env.verifyProof proof = some results) (hvalid : allValid results = true) :
    ProofSound env proof ↔ IsExplicit proof := by
  rw [Viewer.verifyProof] at hresults
  rw [ProofSound, IsExplicit]
  split
  · next hsingle =>
    rw [if_pos hsingle] at hresults
    exact single_sound_iff hresults hvalid
  · next hsingle =>
    rw [if_neg hsingle] at hresults
    split at hresults
    · exact entries_sound_iff hresults hvalid
    · cases hresults

/-! ### Exports -/

variable {workflow : WorkflowDetail} {shown : Interpretation} {exportedAt : Text}

theorem orElse_of_present {a : Option Value} {b : Value} (h : present a = true) : some (orElse a b) = a := by
  cases a with
  | none => cases h
  | some v =>
    have hv : v.truthy = true := h
    rw [orElse, Option.filter_some, if_pos hv]
    rfl

theorem orElse_of_not_present {a : Option Value} {b : Value} (h : present a = false) : orElse a b = b := by
  cases a with
  | none => rfl
  | some v =>
    have hv : v.truthy = false := h
    rw [orElse, Option.filter_some, if_neg (by simp [hv])]
    rfl

/-- What is shown without a signature has no signed content. -/
theorem creatorSignedContent_of_unsigned {ownerAddress contentString : Text} {chunks : ChunkSet}
    (h : env.interpretDecryptedContent ownerAddress chunks contentString = some shown)
    (hunsigned : shown.creatorSignature = none) : shown.creatorSignedContent = none := by
  rw [Viewer.interpretDecryptedContent] at h
  split at h
  · obtain ⟨⟨valid, address⟩, -, h⟩ := Option.bind_eq_some_iff.mp h
    obtain rfl := Option.some.inj h
    cases hunsigned
  · obtain rfl := Option.some.inj h
    rfl

theorem exported_members {proof : Value} (h : env.downloadMultisigProof workflow shown exportedAt = some proof) :
    env.verifyProof proof = env.verifyMultisigProofSignatures proof ∧ assertProofVersion proof = some () ∧
    member₂ proof "document" "content" =
      some (orElse shown.creatorSignedContent (.str shown.rawDecryptedContent)) ∧
    member₂ proof "document" "ciphertext_sha384" =
      some (column ((workflow.encryptedData.filter (· ≠ [])).map env.sha384HexOfText)) ∧
    member₂ proof "workflow" "id" = some (.num workflow.id) ∧
    member₂ proof "workflow" "secret_id" = some (.num workflow.secretId) ∧
    proofEntries proof = some ((shown.creatorSignature.map fun signature => proofEntry workflow.ownerAddress
      workflow.owner signature (.str workflow.createdAt) "creator").toList ++
        workflow.signers.filterMap SignerEntry.proofEntry) := by
  simp only [Viewer.downloadMultisigProof] at h
  split at h
  · cases h
  · obtain rfl := Option.some.inj h
    refine ⟨rfl, rfl, rfl, rfl, rfl, rfl, rfl⟩

/-- The entries of a proof are reported as valid where each is one of the text of its role. -/
theorem multisig_valid_iff {content : Text} {entries : List Value}
    (hcontent : memberText (member₂ proof "document" "content") = some content)
    (hversion : assertProofVersion proof = some ()) (hbody : approvalBody proof = some approval)
    (hentries : proofEntries proof = some entries) :
    (∃ results, env.verifyMultisigProofSignatures proof = some results ∧ allValid results = true) ↔
      ∀ entry ∈ entries, env.entryValid (if isLiteral "signer" (entry.get "role") then approval
        else some (contentMessage content)) entry = some true := by
  have hmap : ∀ results, env.verifyMultisigProofSignatures proof = some results ↔
      entries.mapM (env.verifyEntry (contentMessage content) approval) = some results := by
    intro results
    rw [verifyMultisigProofSignatures_eq_some]
    constructor
    · rintro ⟨_, _, _, hcontent', -, hbody', hentries', hresults⟩
      obtain rfl := Option.some.inj (hcontent.symm.trans hcontent')
      obtain rfl := Option.some.inj (hbody.symm.trans hbody')
      obtain rfl := Option.some.inj (hentries.symm.trans hentries')
      exact hresults
    · intro hresults
      exact ⟨content, approval, entries, hcontent, hversion, hbody, hentries, hresults⟩
  simp only [hmap, allValid_iff]
  rw [exists_mapM_forall]
  exact forall₂_congr fun entry _ => verifyEntry_valid

/-- An entry that is written is valid where the user it shows has signed. -/
theorem entryValid_proofEntry {address message : Text} {user : EmbeddedUser} {signature signedAt : Value}
    {role : String} (hkey : user.identityPublicKey ≠ []) :
    env.entryValid (some message) (proofEntry address (some user) signature signedAt role) = some true ↔
      env.verifyIdentitySignature (toLowerCase address) user.identityPublicKey message signature = true := by
  have hentry : (proofEntry address (some user) signature signedAt role).get "identity_public_key" =
      some (.str user.identityPublicKey) := by
    show some (textOrNull (some user.identityPublicKey)) = _
    simp [textOrNull, Option.filter, hkey]
  rw [entryValid_eq_true]
  constructor
  · rintro ⟨a, key, _, ha, hk, -, hmessage, hv⟩
    obtain rfl := Option.some.inj hmessage
    obtain rfl : address = a := Value.str.inj (Option.some.inj ha)
    obtain rfl := Value.str.inj (Option.some.inj (hentry.symm.trans hk))
    exact hv
  · intro hv
    exact ⟨address, user.identityPublicKey, message, rfl, hentry, rfl, rfl, hv⟩

/-- The entries of the signers are valid in every proof that is written. -/
theorem signers_valid {creatorBody : Text} (hverify : SignaturesVerify env workflow shown)
    (hbody : ∀ data, workflow.encryptedData = some data → data ≠ [] →
      approval = some (approvalMessage workflow.id.text workflow.secretId.text (env.sha384HexOfText data))) :
    ∀ entry ∈ workflow.signers.filterMap SignerEntry.proofEntry,
      env.entryValid (if isLiteral "signer" (entry.get "role") then approval else some creatorBody) entry =
        some true := by
  intro entry hmem
  obtain ⟨s, hs, hentry⟩ := List.mem_filterMap.mp hmem
  simp only [SignerEntry.proofEntry] at hentry
  split at hentry
  · next hsigned =>
    obtain ⟨signature, hsignature, rfl⟩ := Option.map_eq_some_iff.mp hentry
    obtain ⟨hsignature, hne⟩ := Option.filter_eq_some_iff.mp hsignature
    obtain ⟨user, data, huser, hkey, hdata, hdne, hv⟩ :=
      hverify.signers s hs signature hsigned hsignature (by simpa using hne)
    have hrole : isLiteral "signer" ((Client.proofEntry s.userAddress s.user (.str signature) (column s.signedAt)
        "signer").get "role") = true := rfl
    rw [if_pos hrole, huser, hbody data hdata hdne, entryValid_proofEntry hkey]
    exact hv
  · cases hentry

/-- The audit of a proof that is written comes down to the entry of the creator. -/
theorem export_entries_iff {content : Text} {owner : EmbeddedUser} {signature : Value}
    (hverify : SignaturesVerify env workflow shown) (hkey : owner.identityPublicKey ≠ [])
    (hbody : ∀ data, workflow.encryptedData = some data → data ≠ [] →
      approval = some (approvalMessage workflow.id.text workflow.secretId.text (env.sha384HexOfText data))) :
    (∀ entry ∈ proofEntry workflow.ownerAddress (some owner) signature (.str workflow.createdAt) "creator" ::
        workflow.signers.filterMap SignerEntry.proofEntry,
      env.entryValid (if isLiteral "signer" (entry.get "role") then approval else some (contentMessage content)) entry =
        some true) ↔
      env.verifyIdentitySignature (toLowerCase workflow.ownerAddress) owner.identityPublicKey
        (contentMessage content) signature = true := by
  have hrole : ¬ isLiteral "signer" ((proofEntry workflow.ownerAddress (some owner) signature
      (.str workflow.createdAt) "creator").get "role") = true := by
    intro h
    cases h
  rw [List.forall_mem_cons, and_iff_left (signers_valid hverify hbody), if_neg hrole, entryValid_proofEntry hkey]

theorem exported_approval (h : env.downloadMultisigProof workflow shown exportedAt = some proof) :
    ∃ approval, approvalBody proof = some approval ∧ ∀ data, workflow.encryptedData = some data → data ≠ [] →
      approval = some (approvalMessage workflow.id.text workflow.secretId.text (env.sha384HexOfText data)) := by
  obtain ⟨-, -, -, hciphertext, hid, hsecret, -⟩ := exported_members h
  cases hdata : workflow.encryptedData.filter (· ≠ []) with
  | none =>
    rw [hdata] at hciphertext
    refine ⟨none, by simp only [approvalBody, hciphertext, Option.map_none, column], fun data hd hne => ?_⟩
    rw [hd, Option.filter_some, if_pos (by simpa using hne)] at hdata
    cases hdata
  | some data =>
    rw [hdata] at hciphertext
    have hnull : column ((some data).map env.sha384HexOfText) ≠ .null := by
      intro hnull
      cases hnull
    have hw : memberText (member₂ proof "workflow" "id") = some workflow.id.text := by
      rw [hid]
      rfl
    have hs : memberText (member₂ proof "workflow" "secret_id") = some workflow.secretId.text := by
      rw [hsecret]
      rfl
    refine ⟨_, approvalBody_eq_some.mpr ⟨_, _, _, _, hciphertext, hnull, hw, hs, rfl, rfl⟩, fun data' hd _ => ?_⟩
    obtain rfl := Option.some.inj ((Option.filter_eq_some_iff.mp hdata).1.symm.trans hd)
    rfl

/-- A proof is written of signatures that verify, and is reported as all valid where it shows what the creator
signed. -/
theorem exportIsValid_iff {contentString : Text} {chunks : ChunkSet}
    (hshown : env.interpretDecryptedContent workflow.ownerAddress chunks contentString = some shown)
    (hverify : SignaturesVerify env workflow shown)
    (hparse : ∀ proof, env.downloadMultisigProof workflow shown exportedAt = some proof →
      env.parse (printed proof) = some proof) :
    ExportIsValid env workflow shown exportedAt ↔ ExportsSigned env workflow shown := by
  obtain ⟨proof, hproof⟩ : ∃ proof, env.downloadMultisigProof workflow shown exportedAt = some proof := by
    refine ⟨_, if_neg ?_⟩
    simpa using hverify.verified
  obtain ⟨hmultisig, hversion, hcontent, -, -, -, hentries⟩ := exported_members hproof
  obtain ⟨approval, happroval, hbody⟩ := exported_approval hproof
  have hvalid : ExportIsValid env workflow shown exportedAt ↔
      ∃ results, env.verifyMultisigProofSignatures proof = some results ∧ allValid results = true := by
    constructor
    · rintro ⟨_, results, hproof', hresults, hall⟩
      obtain rfl := Option.some.inj (hproof.symm.trans hproof')
      rw [hparse _ hproof, Option.bind_some, hmultisig] at hresults
      exact ⟨results, hresults, hall⟩
    · rintro ⟨results, hresults, hall⟩
      refine ⟨proof, results, hproof, ?_, hall⟩
      rw [hparse _ hproof, Option.bind_some, hmultisig, hresults]
  rw [hvalid]
  cases hcreator : shown.creatorSignature with
  | none =>
    rw [creatorSignedContent_of_unsigned hshown hcreator] at hcontent
    have htext : memberText (member₂ proof "document" "content") = some shown.rawDecryptedContent := by
      rw [hcontent]
      rfl
    rw [multisig_valid_iff htext hversion happroval hentries, hcreator]
    refine iff_of_true (signers_valid hverify hbody) fun signature hsignature => ?_
    rw [hcreator] at hsignature
    cases hsignature
  | some signature =>
    obtain ⟨owner, text, howner, hkey, htext, hv⟩ := hverify.creator signature hcreator
    have hexports : ExportsSigned env workflow shown ↔ present shown.creatorSignedContent = true ∨
        env.verifyIdentitySignature (toLowerCase workflow.ownerAddress) owner.identityPublicKey
          (contentMessage shown.rawDecryptedContent) signature = true := by
      simp [ExportsSigned, hcreator, howner]
    rw [hexports]
    cases hpresent : present shown.creatorSignedContent with
    | true =>
      rw [orElse_of_present hpresent] at hcontent
      rw [multisig_valid_iff (hcontent ▸ htext) hversion happroval hentries, hcreator, howner]
      exact iff_of_true ((export_entries_iff hverify hkey hbody).mpr hv) (.inl rfl)
    | false =>
      rw [orElse_of_not_present hpresent] at hcontent
      have hraw : memberText (member₂ proof "document" "content") = some shown.rawDecryptedContent := by
        rw [hcontent]
        rfl
      rw [multisig_valid_iff hraw hversion happroval hentries, hcreator, howner]
      exact (export_entries_iff hverify hkey hbody).trans ⟨.inr, fun h => h.resolve_left Bool.false_ne_true⟩

end audit

/-- A proof that is written of signatures that verify is reported as all valid exactly where it shows what the
creator signed, and one that is reported as all valid is sound exactly where it has an entry and shows what was
signed as strings and numbers. -/
theorem export_and_audit (env : Viewer) :
    (∀ (workflow : WorkflowDetail) (shown : Interpretation) (chunks : ChunkSet) (contentString exportedAt : Text),
      env.interpretDecryptedContent workflow.ownerAddress chunks contentString = some shown →
      SignaturesVerify env workflow shown →
      (∀ proof, env.downloadMultisigProof workflow shown exportedAt = some proof →
        env.parse (printed proof) = some proof) →
        (ExportIsValid env workflow shown exportedAt ↔ ExportsSigned env workflow shown)) ∧
    ∀ (proof : Value) (results : List SignerResult), env.verifyProof proof = some results →
      allValid results = true → (ProofSound env proof ↔ IsExplicit proof) :=
  ⟨fun _ _ _ _ _ hshown hverify hparse => exportIsValid_iff hshown hverify hparse,
    fun _ _ hresults hvalid => proofSound_iff hresults hvalid⟩

/-! ## A workflow of one signer -/

section sample

def auditedWorkflow : WorkflowDetail where
  id := Number.zero
  secretId := Number.zero
  name := lit "w"
  status := lit "completed"
  createdAt := lit "t"
  ownerAddress := sampleOwner
  owner := some ⟨sampleOwner, none⟩
  signers := [⟨sampleOwner, true, some (lit "signature"), none, some ⟨sampleOwner, none⟩⟩]
  encryptedData := some (lit "ct")

/-- A text that nobody signed. -/
def auditedText : Interpretation := ⟨.unsigned, none, none, lit "x", .value (some (.str (lit "x")))⟩

def auditedProof : Value := (sampleViewer.downloadMultisigProof auditedWorkflow auditedText (lit "t")).getD .null

/-- The parser reads the file of the proof. -/
def auditor : Viewer :=
  { sampleViewer with parse := fun text => if text = printed auditedProof then some auditedProof else none }

theorem signaturesVerify_audited : SignaturesVerify auditor auditedWorkflow auditedText where
  verified := by
    intro h
    cases h
  creator := by
    intro _ h
    cases h
  signers := by
    intro s hs signature _ hsignature _
    obtain rfl := List.mem_singleton.mp hs
    obtain rfl := Option.some.inj hsignature
    exact ⟨⟨sampleOwner, none⟩, lit "ct", rfl, by decide, rfl, by decide, by decide +kernel⟩

theorem isExplicit_audited : IsExplicit auditedProof := by
  rw [IsExplicit, if_neg (by decide +kernel)]
  refine ⟨_, _, rfl, fun entry hentry => ?_⟩
  obtain rfl := List.mem_singleton.mp hentry
  rw [if_pos (by decide +kernel)]
  exact ⟨⟨_, .inr ⟨_, rfl, rfl⟩⟩, ⟨_, .inr ⟨_, rfl, rfl⟩⟩, _, .inl rfl⟩

/-- The proof of the signer is reported as all valid, and is sound. -/
theorem export_and_audit_sample :
    ExportIsValid auditor auditedWorkflow auditedText (lit "t") ∧ ProofSound auditor auditedProof := by
  obtain ⟨hexport, hsound⟩ := export_and_audit auditor
  have hparse : auditor.parse (lit "x") = none := by
    have hne : lit "x" ≠ printed auditedProof := by decide +kernel
    simp only [auditor, if_neg hne]
  have hshown : auditor.interpretDecryptedContent auditedWorkflow.ownerAddress (fun _ => none) (lit "x") =
      some auditedText := by
    simp only [Viewer.interpretDecryptedContent, hparse]
    rfl
  have hvalid : ExportIsValid auditor auditedWorkflow auditedText (lit "t") := by
    refine (hexport auditedWorkflow auditedText _ _ (lit "t") hshown signaturesVerify_audited ?_).mpr ?_
    · intro proof hproof
      obtain rfl : auditedProof = proof := Option.some.inj hproof
      simp only [auditor, if_true]
    · intro _ h
      cases h
  refine ⟨hvalid, ?_⟩
  obtain ⟨proof, results, hproof, hresults, hall⟩ := hvalid
  obtain rfl : auditedProof = proof := Option.some.inj hproof
  have hread : auditor.parse (printed auditedProof) = some auditedProof := by simp only [auditor, if_true]
  rw [hread, Option.bind_some] at hresults
  exact (hsound _ _ hresults hall).mpr isExplicit_audited

/-- A proof without signatures. -/
def emptyProof : Value :=
  .obj [(lit "type", .str (lit "kryptolog_multisig_proof")), (lit "version", .str (lit "3.0")),
    (lit "document", .obj [(lit "content", .str (lit "x"))]), (lit "signatures", .arr [])]

/-- It is reported as all valid. -/
theorem not_audit_sound : ¬ ∀ (env : Viewer) (proof : Value) (results : List SignerResult),
    env.verifyProof proof = some results → allValid results = true → ProofSound env proof := by
  intro h
  have hsound := h auditor emptyProof [] rfl rfl
  rw [ProofSound, if_neg (by decide +kernel)] at hsound
  obtain ⟨e, es, hentries, -⟩ := hsound
  cases hentries

end sample

end Kryptolog.Client
