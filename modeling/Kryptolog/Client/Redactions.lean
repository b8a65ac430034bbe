import Kryptolog.Client.Messages
import Kryptolog.Client.Mirror
import Kryptolog.Server.EraseFates
import Kryptolog.Server.EraseProgress

/-! # Redactions, as a page reads them

An erase round stores the content that the server rebuilt from a row, with the signature of the author.
Here that content goes back to a page: the JSON text is read by `JSON.parse`, and the body that
`verifyMessage.js` builds from it is the one that the server had verified.
-/

namespace Kryptolog.Client
set_option autoImplicit false

open Script Fallible
open Json (Str)
open Server (Database Message User Round Kind Address Primitives RedactedFrom redactedContent)

/-! ## JSON texts that a page can read -/

/-- A name that is no text has a surrogate that makes it so. -/
def isName : Str → Bool
  | .uni _ => true
  | .lone points => points.any fun n => 55296 ≤ n && n < 57344

mutual

/-- No part of the value is written with one of the words `NaN` and `Infinity`. -/
def isStandard : Json.Value → Bool
  | .float (.finite _) => true
  | .float _ => false
  | .arr items => areStandard items
  | .obj fields => areStandardFields fields
  | _ => true

def areStandard : List Json.Value → Bool
  | [] => true
  | v :: vs => isStandard v && areStandard vs

def areStandardFields : List (Str × Json.Value) → Bool
  | [] => true
  | (k, v) :: fs => isName k && isStandard v && areStandardFields fs

end

/-- A row, as the API serves it. -/
def served (row : Message) : MessageRow :=
  ⟨row.id, lit row.senderAddress.text, lit row.target, row.content, none⟩

/-- The page reads the content of a row as a payload of the row's kind. -/
def ReadByPage (r : NumberReader) (kind : Kind) (row : Message) : Prop :=
  ∃ payload, row.content = .json payload ∧ isStandard payload = true ∧
    isNumber (version kind) ((toScript r payload).get "v") = true

/-- The wrapped key that a row offers to a reader. -/
def Messenger.offers (env : Messenger) (kind : Kind) (me : Text) (msg : MessageRow) : Option Value :=
  (sessionPayload kind (env.parseJson msg.content)).bind (keyBlob msg kind me)

/-- The parts of the page that the server has too: JSON, the digest and the signatures. -/
structure ReadsAlike (env : Messenger) (r : NumberReader) (prim : Primitives) : Prop where
  json : ∀ v, isStandard v = true → env.parseJson (.json v) = some (toScript r v)
  digest : env.sha384Hex = prim.sha384Hex
  /-- No signature is empty. -/
  signature : ∀ key body signature, prim.verifyIdentitySignature key body signature = true →
    signature ≠ "" ∧ env.verifySignature (lit signature) (lit body) (lit key) = true

/-- Users have the addresses of their keys, which the directory serves, and direct messages go to users. -/
structure Addressed (env : Messenger) (db : Database) : Prop where
  bound : ∀ u ∈ db.users, env.isAddressOf (lit u.address.text) (lit u.identityPublicKey) = true
  listed : ∀ u ∈ db.users, env.identityKeyFor (lit u.address.text) = some (lit u.identityPublicKey)
  recipient : ∀ row ∈ db.messages, ∃ u ∈ db.users, u.address.text = Server.lowerText row.target

/-- The row `row'` is a redaction that its author signed, with the keys of `row`. -/
structure ReadsAsAuthors (env : Messenger) (kind : Kind) (row row' : Message) : Prop where
  verified : env.verifyMessageAuthenticity (served row') (env.parseJson row'.content) kind = some true
  redacted : (sessionPayload kind (env.parseJson row'.content)).any isRedacted = true
  offers : ∀ me, env.offers kind me (served row') = env.offers kind me (served row)

section read

variable {r : NumberReader} {kind : Kind} {fields : List (Str × Json.Value)} {p v : Json.Value}

theorem isName_iff {k : Str} : isName k = true ↔ IsName k := by
  cases k with
  | uni s => exact ⟨fun _ => trivial, fun _ => rfl⟩
  | lone points => simp [isName, IsName]

theorem areStandardFields_iff : areStandardFields fields = true ↔
    ∀ f ∈ fields, IsName f.1 ∧ isStandard f.2 = true := by
  induction fields with
  | nil => simp [areStandardFields]
  | cons f fs ih =>
    rw [areStandardFields, Bool.and_eq_true, Bool.and_eq_true, ih, isName_iff, List.forall_mem_cons]

theorem isStandard_of_get {name : String} (h : isStandard p = true) (hget : p.get name = some v) :
    isStandard v = true := by
  cases p with
  | obj fields =>
    rw [isStandard, areStandardFields_iff] at h
    obtain ⟨k, hk⟩ : ∃ k, (k, v) ∈ fields := by
      have hlookup : fields.lookup (.uni name) = some v := hget
      rw [List.lookup_eq_some_iff] at hlookup
      obtain ⟨l₁, l₂, hfields, -⟩ := hlookup
      exact ⟨.uni name, hfields ▸ List.mem_append_right l₁ List.mem_cons_self⟩
    exact (h _ hk).2
  | _ => cases hget

theorem isStandard_getD {name : String} (h : isStandard p = true) :
    isStandard ((p.get name).getD .null) = true := by
  cases hget : p.get name with
  | none => rfl
  | some v => exact isStandard_of_get h hget

/-- What a page reads of a member. -/
theorem get_toScript_standard (r : NumberReader) (name : String) (h : isStandard p = true) :
    (toScript r p).get name = (p.get name).map (toScript r) := by
  cases p with
  | obj fields =>
    rw [isStandard, areStandardFields_iff] at h
    exact get_toScript r name fun f hf => (h f hf).1
  | null | bool | int | float | str | arr => rfl

theorem redactedContent_eq (kind : Kind) (row : Message) (p : Json.Value) (signature : String)
    (h : isStandard p = true) : ∃ q, isStandard q = true ∧
      redactedContent kind p signature (Server.convAndGid kind row).2 = .json q ∧
      RedactedFrom kind row.target p signature q ∧ (kind = .dm → q.get "gid" = none) := by
  obtain ⟨q, hq, hred⟩ := Server.payloadIn_redactedContent kind row p signature
  have hfield : ∀ name, isStandard ((p.get name).getD .null) = true := fun name => isStandard_getD h
  cases kind with
  | dm =>
    obtain rfl := Option.some.inj hq
    exact ⟨_, by simp [isStandard, areStandardFields, isName, hfield], rfl, hred, fun _ => rfl⟩
  | group =>
    obtain rfl := Option.some.inj hq
    exact ⟨_, by simp [isStandard, areStandardFields, isName, hfield], rfl, hred, fun h => by cases h⟩

theorem toLowerCase_lit (s : String) : toLowerCase (lit s) = lit (Server.lowerText s) := by
  rw [toLowerCase, Server.lowerText, lit_ofList, lit, List.map_map, List.map_map]
  rfl

theorem noFinalBreak_of_all {test : Char → Bool} {s : String} (htest : test '\n' = false)
    (h : s.toList.all test = true) : NoFinalBreak (.str (.uni s)) := by
  intro hlast
  have hmem : '\n' ∈ s.toList := List.mem_of_getLast? hlast
  have hbreak := List.all_eq_true.mp h _ hmem
  rw [htest] at hbreak
  cases hbreak

theorem noFinalBreak_of_isAddress {s : String} (h : isAddress (.str (lit s)) = true) :
    NoFinalBreak (.str (.uni s)) := by
  have hhex : Text.consistsOf Server.isLowerHexDigit (lit s) = true := (Bool.and_eq_true_iff.mp h).2
  rw [consistsOf_lit] at hhex
  exact noFinalBreak_of_all (by decide) hhex

end read

section body

variable {env : Messenger} {r : NumberReader} {prim : Primitives} {kind : Kind} {row row' : Message}
  {p q : Json.Value} {signature body : String}

/-- The server builds a body of a group message for a channel id that is an identifier. -/
theorem isSignedIdentifierText_of_body {a : Address}
    (h : Server.redactionBody prim a (.group, row, p) = .ok body) :
    Server.isSignedIdentifierText row.target = true := by
  simp only [Server.redactionBody, Server.convAndGid, Server.messageSigningBody, bind_eq_ok,
    refuseIf_eq_ok] at h
  obtain ⟨_, -, _, -, _, hconv, _, hgid, -⟩ := h
  by_cases hempty : row.target = ""
  · rw [hempty] at hconv
    simp [Server.isValidAddress, Server.matchHex, Server.isSignedIdentifierText] at hconv
  · simpa [hempty] using hgid

/-- The body of a redaction, over fields that may be absent. -/
theorem untypedBody (str : Json.Value → String) {a : Address} {conv gid : String}
    (hconv : Server.convAndGid kind row = (conv, gid))
    (h : Server.redactionBody prim a (kind, row, p) = .ok body) :
    Server.Untyped.messageSigningBody str prim (.str (.uni a.text)) (.str (.uni conv))
      ((p.get "sid").getD .null) ((p.get "ts").getD .null) ((p.get "seq").getD .null) .null
      (.str (.uni gid)) ((p.get "keys").getD .null) = .ok body := by
  simp only [Server.redactionBody, hconv] at h
  have hkeys : (p.get "keys").getD .null ≠ .null := by
    intro hnull
    rw [hnull, Server.messageSigningBody] at h
    cases h
  rw [Server.Untyped.messageSigningBody_text str prim _ _ _ _ _ _ _ hkeys, ← h]
  cases p.get "sid" <;> cases p.get "ts" <;> cases p.get "seq" <;> rfl

/-- The body that a page builds from a redacted row is the one that the server verified. -/
theorem signedBody_redacted (hred : RedactedFrom kind row.target p signature q)
    (hdm : kind = .dm → q.get "gid" = none) (hstandard : isStandard q = true)
    (hdigest : env.sha384Hex = prim.sha384Hex)
    (hbody : Server.redactionBody prim row.senderAddress (kind, row, p) = .ok body)
    (hsender : isAddress (.str (lit row.senderAddress.text)) = true)
    (hrecipient : kind = .dm → isAddress (.str (lit (Server.lowerText row.target))) = true)
    (hsame : row'.senderAddress = row.senderAddress ∧ row'.target = row.target) :
    ∃ conv, Messenger.deliveredConversation (served row') (toScript r q) kind = some conv ∧
      env.signedBody (served row') (toScript r q) conv = .ok (lit body) := by
  have hget : ∀ name, (toScript r q).get name = (q.get name).map (toScript r) := fun name =>
    get_toScript_standard r name hstandard
  have hcopied : ∀ name ∈ ["v", "sid", "ts", "seq", "keys"],
      ((toScript r q).get name).getD .null = toScript r ((p.get name).getD .null) := fun name hname => by
    rw [hget, hred.copied name hname]
    rfl
  have hct : ((toScript r q).get "ct").getD .null = toScript r .null := by
    rw [hget, hred.ct]
    rfl
  have haddress : toLowerCase (served row').senderAddress = lit row.senderAddress.text := by
    rw [served, toLowerCase_lit, hsame.1, row.senderAddress.lowered]
  cases kind with
  | dm =>
    have hgid : (toScript r q).get "gid" = none := by
      rw [hget, hdm rfl]
      rfl
    have huntyped := untypedBody (fun _ => "") rfl hbody
    have hmirror := message_mirror r (noFinalBreak_of_isAddress hsender)
      (noFinalBreak_of_isAddress (hrecipient rfl)) (.inr ⟨"", rfl⟩) (.inl (.inl rfl)) huntyped
    refine ⟨lit (Server.lowerText row.target), ?_, ?_⟩
    · rw [Messenger.deliveredConversation, hgid, served, toLowerCase_lit, hsame.2]
      rfl
    · simp only [Messenger.signedBody, haddress, hgid, hcopied, hct, hdigest, List.mem_cons, true_or, or_true]
      exact hmirror
  | group =>
    have hidentifier := isSignedIdentifierText_of_body hbody
    have hbreak : NoFinalBreak (.str (.uni row.target)) := by
      rw [Server.isSignedIdentifierText, Bool.and_eq_true, Bool.and_eq_true] at hidentifier
      exact noFinalBreak_of_all (by decide) hidentifier.1.1
    have hnonempty : lit row.target ≠ [] := by
      intro hnil
      have hempty : row.target.toList = [] := List.map_eq_nil_iff.mp hnil
      simp [Server.isSignedIdentifierText, hempty] at hidentifier
    have hgid : (toScript r q).get "gid" = some (.str (lit row.target)) := by
      rw [hget, hred.gid rfl]
      rfl
    have hpresent : present ((toScript r q).get "gid") = true := by
      rw [hgid]
      simpa [present, Value.truthy] using hnonempty
    have huntyped := untypedBody (fun _ => "") rfl hbody
    have hmirror := message_mirror r (noFinalBreak_of_isAddress hsender) hbreak (.inr ⟨row.target, rfl⟩)
      (.inl (.inl rfl)) huntyped
    refine ⟨lit row.target, ?_, ?_⟩
    · rw [Messenger.deliveredConversation, hgid]
      simp [served, hsame.2, hnonempty]
    · simp only [Messenger.signedBody, haddress, hpresent, if_true, hcopied, hct, hdigest, List.mem_cons,
        true_or, or_true]
      rw [hgid]
      exact hmirror

theorem sid_of_signable (h : Server.isSignable p = true) :
    ∃ sid, p.get "sid" = some (.str (.uni sid)) ∧ lit sid ≠ [] := by
  have hsid : Server.isSignedIdentifier (p.get "sid") = true := by
    simp only [Server.isSignable, Bool.and_eq_true] at h
    exact h.1.1.1
  unfold Server.isSignedIdentifier at hsid
  split at hsid
  · next s hs =>
    refine ⟨s, hs, fun hnil => ?_⟩
    have hempty : s.toList = [] := List.map_eq_nil_iff.mp hnil
    simp [Server.isSignedIdentifierText, hempty] at hsid
  · cases hsid

/-- A payload with a version and a session id is one of its kind. -/
theorem sessionPayload_eq {v : Value} {sid : Text} (hversion : isNumber (version kind) (v.get "v") = true)
    (hsid : v.get "sid" = some (.str sid)) (hne : sid ≠ []) : sessionPayload kind (some v) = some v := by
  refine Option.filter_some_pos ?_
  rw [hversion, hsid]
  simpa [present, Value.truthy] using hne

/-- A verified redaction of a row that the page read reads as its author's. -/
theorem readsAsAuthors (halike : ReadsAlike env r prim) {db : Database} (haddressed : Addressed env db)
    {author : User} (hauthor : author ∈ db.users) {scope : Server.Scope} {redaction : Server.Redaction}
    (hverified : Server.Verified prim db author scope redaction row p signature)
    (hsame : row'.senderAddress = row.senderAddress ∧ row'.target = row.target)
    (hcontent : row'.content = redactedContent redaction.1 p signature (Server.convAndGid redaction.1 row).2)
    (hread : ReadByPage r redaction.1 row) : ReadsAsAuthors env redaction.1 row row' := by
  obtain ⟨payload, hdoc, hpayload, hversion⟩ := hread
  obtain ⟨hstored, hsender, -⟩ := Server.mem_ownMessages.mp hverified.own
  obtain rfl : payload = p := by
    have hp := hverified.payload
    rw [hdoc] at hp
    cases payload with
    | obj fields => exact Option.some.inj hp
    | _ => cases hp
  obtain ⟨q, hstandard, hq, hred, hdm⟩ := redactedContent_eq redaction.1 row payload signature hpayload
  obtain ⟨body, hbody, hsignature⟩ := hverified.genuine
  rw [← hsender] at hbody
  obtain ⟨hnonempty, hscript⟩ := halike.signature _ _ _ hsignature
  have hbound := haddressed.bound author hauthor
  rw [← hsender] at hbound
  have haddress : isAddress (.str (lit row.senderAddress.text)) = true := (Bool.and_eq_true_iff.mp hbound).1
  have hrecipient : redaction.1 = .dm → isAddress (.str (lit (Server.lowerText row.target))) = true := by
    intro hkind
    rw [hkind] at hstored
    obtain ⟨u, hu, htarget⟩ := haddressed.recipient row hstored
    rw [← htarget]
    exact (Bool.and_eq_true_iff.mp (haddressed.bound u hu)).1
  obtain ⟨conv, hconv, hsigned⟩ := signedBody_redacted (r := r) hred hdm hstandard halike.digest hbody haddress
    hrecipient hsame
  have hparse : env.parseJson row'.content = some (toScript r q) := by
    rw [hcontent, hq, halike.json q hstandard]
  have hget : ∀ name, (toScript r q).get name = (q.get name).map (toScript r) := fun name =>
    get_toScript_standard r name hstandard
  have hcopied : ∀ name ∈ ["v", "sid", "ts", "seq", "keys"], (payload.get name).isSome = true →
      (toScript r q).get name = (toScript r payload).get name := by
    intro name hname hsome
    obtain ⟨v, hv⟩ := Option.isSome_iff_exists.mp hsome
    rw [hget, hred.copied name hname, get_toScript_standard r name hpayload, hv]
    rfl
  obtain ⟨hcarrier, hsignable⟩ := Bool.and_eq_true_iff.mp hverified.listed
  have hkeys : (payload.get "keys").isSome = true := by
    cases hget : payload.get "keys" with
    | none => simp [Server.isCarrier, hget, Json.present] at hcarrier
    | some v => rfl
  obtain ⟨sid, hsid, hsidtext⟩ := sid_of_signable hsignable
  have hversioned : (payload.get "v").isSome = true := by
    cases hv : payload.get "v" with
    | none =>
      rw [get_toScript_standard r "v" hpayload, hv] at hversion
      cases hversion
    | some v => rfl
  have hpayloadSid : (toScript r payload).get "sid" = some (.str (lit sid)) := by
    rw [get_toScript_standard r "sid" hpayload, hsid]
    rfl
  have hqSid : (toScript r q).get "sid" = some (.str (lit sid)) := by
    rw [hcopied "sid" (by simp) (by rw [hsid]; rfl), hpayloadSid]
  have hsession : sessionPayload redaction.1 (some (toScript r q)) = some (toScript r q) :=
    sessionPayload_eq (by rw [hcopied "v" (by simp) hversioned, hversion]) hqSid hsidtext
  have hsession' : sessionPayload redaction.1 (some (toScript r payload)) = some (toScript r payload) :=
    sessionPayload_eq hversion hpayloadSid hsidtext
  refine ⟨?_, ?_, fun me => ?_⟩
  · have hsig : ((toScript r q).get "sig").filter Value.truthy = some (.str (lit signature)) := by
      rw [hget, hred.sig]
      refine Option.filter_some_pos ?_
      simpa [toScript, readStr, Value.truthy, lit, String.toList_eq_nil_iff] using hnonempty
    have hlower : toLowerCase (served row').senderAddress = lit author.address.text := by
      rw [served, toLowerCase_lit, hsame.1, hsender, author.address.lowered]
    rw [hparse]
    simp only [Messenger.verifyMessageAuthenticity, hsig, hconv, hsigned, hlower, haddressed.listed author hauthor,
      Messenger.verifyIdentitySignature, haddressed.bound author hauthor, hscript, Bool.and_self]
  · rw [hparse, hsession, Option.any_some, isRedacted, hget, hred.ct]
    rfl
  · have hblob : keyBlob (served row') redaction.1 me (toScript r q) =
        keyBlob (served row) redaction.1 me (toScript r payload) := by
      have hserved : (served row').senderAddress = (served row).senderAddress := by rw [served, served, hsame.1]
      simp only [keyBlob, hcopied "keys" (by simp) hkeys, hserved]
    have hcontents : (served row').content = row'.content ∧ (served row).content = row.content := ⟨rfl, rfl⟩
    rw [Messenger.offers, Messenger.offers, hcontents.1, hcontents.2, hparse, hdoc, halike.json _ hpayload, hsession,
      hsession']
    exact hblob

end body

/-- After an accepted round, a row is as it was or has content that reads as its author's, where the page
read it before. -/
theorem redactions_read_as_authors (env : Messenger) (r : NumberReader) (prim : Primitives) (cfg : Server.Config)
    (db db' : Database) (round : Round) (resp : Server.EraseResponse) (halike : ReadsAlike env r prim)
    (haddressed : Addressed env db) (h : Server.eraseRound prim cfg db round = (db', .ok resp)) :
    ∀ kind, ∀ row' ∈ db'.store kind, ∃ row ∈ db.store kind, row'.id = row.id ∧
      (row' = row ∨ (ReadByPage r kind row → ReadsAsAuthors env kind row row')) := by
  intro kind row' hrow'
  obtain ⟨author, hauthor, -, scope, -, pending, db₁, hredacts, -, -, -, heffect⟩ := Server.eraseRound_ok h
  have hrow₁ : row' ∈ db₁.store kind := by
    cases heffect with
    | redacting _ _ _ hsame => exact hsame.store kind ▸ hrow'
    | done _ _ _ db₂ hdeleted hgroups _ => exact ((hdeleted.mem kind row').mp (hgroups.old' hrow')).1
  obtain ⟨row, hrow, rfl⟩ : ∃ row ∈ (db.store kind).rows, Server.rewrite pending kind row = row' := by
    have hmem : row' ∈ (db₁.store kind).rows := hrow₁
    rw [hredacts.store kind] at hmem
    exact List.mem_map.mp hmem
  obtain ⟨hid, hsender, htarget⟩ := Server.rewrite_same pending kind row
  refine ⟨row, hrow, hid, ?_⟩
  rcases hredacts.fate hrow with ⟨-, heq⟩ | ⟨redaction, -, p, signature, rfl, hverified, hcontent⟩
  · exact .inl heq
  · exact .inr (readsAsAuthors halike haddressed hauthor hverified ⟨hsender, htarget⟩ hcontent)

/-! ## A message with one wrapped key -/

section sample

open Server (sampleAddress sampleWriter sampleConfig)

/-- A signature is a mark, the key and the text it signs. -/
def sampleSigning : Primitives where
  sha384Hex text := text
  verifyIdentitySignature key message signature := signature == "signed" ++ (key ++ message)
  unicodeDigit _ := none

def sampleMessenger : Messenger where
  parseJson d := match d with
    | .json v => some (toScript sampleReader v)
    | _ => none
  sha384Hex text := text
  addressOf key := some (lit (sampleAddress (if key = lit "writer" then 'a' else 'b')).text)
  verifySignature signature message key := signature == lit "signed" ++ (key ++ message)
  identityKeyFor address :=
    some (lit (if address = lit (sampleAddress 'a').text then "writer" else "reader"))

def sampleReaderUser : User :=
  ⟨sampleAddress 'b', "reader", none, none, none, none, none, none, 0, none, false⟩

/-- The payload of a message of version `v`. -/
def sampleVersioned (v : ℤ) : Json.Value :=
  .obj [(.uni "v", .int v), (.uni "sid", .str (.uni "s")), (.uni "ts", .int 0), (.uni "seq", .int 0),
    (.uni "keys", .obj [(.uni "recip", .obj [(.uni "encKey", .str (.uni "k"))])]),
    (.uni "ct", .str (.uni "c"))]

def sampleWritten (v : ℤ) : Message :=
  ⟨0, sampleAddress 'a', (sampleAddress 'b').text, .json (sampleVersioned v)⟩

def sampleConversation (v : ℤ) : Database where
  __ := Database.empty
  users := ⟨[sampleWriter, sampleReaderUser], by decide +kernel⟩
  messages := ⟨⟨[sampleWritten v], List.nodup_singleton _⟩, 1, by
    intro row hrow
    rw [List.mem_singleton.mp hrow]
    exact Nat.zero_lt_one⟩

theorem readsAlike_sample : ReadsAlike sampleMessenger sampleReader sampleSigning where
  json := fun _ _ => rfl
  digest := rfl
  signature := by
    intro key body signature h
    have heq : signature = "signed" ++ (key ++ body) := beq_iff_eq.mp h
    refine ⟨fun hempty => ?_, ?_⟩
    · rw [hempty] at heq
      have hlen := congrArg String.length heq
      have hpos : 0 < "signed".length := by decide
      simp only [String.length_append, String.length_empty] at hlen
      omega
    · rw [heq]
      simp [sampleMessenger, lit_append]

theorem isAddress_sample : isAddress (.str (lit (sampleAddress 'a').text)) = true ∧
    isAddress (.str (lit (sampleAddress 'b').text)) = true := by decide +kernel

theorem addressed_sample (v : ℤ) : Addressed sampleMessenger (sampleConversation v) where
  bound := by
    intro u hu
    rcases List.mem_pair.mp hu with rfl | rfl
    · simp [Messenger.isAddressOf, isAddress_sample.1, sampleMessenger, sampleWriter]
    · have hkey : lit "reader" ≠ lit "writer" := by decide
      simp [Messenger.isAddressOf, isAddress_sample.2, sampleMessenger, sampleReaderUser, hkey]
  listed := by
    intro u hu
    rcases List.mem_pair.mp hu with rfl | rfl
    · simp [sampleMessenger, sampleWriter]
    · have haddress : lit (sampleAddress 'b').text ≠ lit (sampleAddress 'a').text := by decide +kernel
      simp [sampleMessenger, sampleReaderUser, haddress]
  recipient := by
    intro row hrow
    obtain rfl : row = sampleWritten v := List.mem_singleton.mp hrow
    exact ⟨sampleReaderUser, List.mem_pair.mpr (.inr rfl), (sampleAddress 'b').lowered.symm⟩

/-- The writer redacts the message in a round that the server accepts. -/
theorem redacted_sample (v : ℤ) : ∃ round resp db' row' signature,
    Server.eraseRound sampleSigning sampleConfig (sampleConversation v) round = (db', .ok resp) ∧
      row' ∈ db'.store .dm ∧
      row'.content = redactedContent .dm (sampleVersioned v) signature "" := by
  have hown : Server.ownMessages (sampleConversation v) sampleWriter.address none = [(.dm, sampleWritten v)] := by
    simp [Server.ownMessages, Server.Scope.kinds, sampleConversation, Server.Database.store, Server.Database.empty,
      Tables.Serial.empty, Tables.Table.empty, Tables.Table.where', sampleWritten, sampleWriter, Server.inScope]
  have hpayload : Server.payloadIn (sampleWritten v).content = some (sampleVersioned v) := rfl
  have hlisted : Server.isListed (sampleVersioned v) = true := rfl
  have hread : Server.AllReadable (sampleConversation v) sampleWriter.address none := by
    rw [Server.AllReadable, hown]
    simp [sampleWritten, Server.readable]
  have hfinishable : Server.Finishable (sampleConversation v) sampleWriter.address none := by
    refine ⟨hread, ?_⟩
    rw [hown]
    intro c hc p hp _
    obtain rfl := List.mem_singleton.mp hc
    obtain rfl : sampleVersioned v = p := Option.some.inj hp
    have hts : (sampleVersioned v).get "ts" = some (.int 0) := rfl
    have hseq : (sampleVersioned v).get "seq" = some (.int 0) := rfl
    refine ⟨fun z hz => ?_, fun z hz => ?_, (fun h => by cases h)⟩
    · rw [hts] at hz
      cases hz
      decide
    · rw [hseq] at hz
      cases hz
      decide
  have hvalid : ∀ c, Server.isLowerHexDigit c = true → c.toLower = c →
      Server.isValidAddress (sampleAddress c).text = true := fun c hc hlower =>
    Server.isValidAddress_sampleAddress hc hlower
  have hdeliverable : Server.Deliverable (sampleConversation v) sampleWriter.address := by
    refine ⟨hvalid 'a' (by decide) (by decide), fun row hrow _ => ?_, fun _ h => by cases h⟩
    obtain rfl : row = sampleWritten v := List.mem_singleton.mp hrow
    have htarget : Server.lowerText (sampleWritten v).target = (sampleAddress 'b').text :=
      (sampleAddress 'b').lowered
    rw [htarget]
    exact hvalid 'b' (by decide) (by decide)
  have hsign : ∀ m, ∃ signature,
      sampleSigning.verifyIdentitySignature sampleWriter.identityPublicKey m signature = true := fun m =>
    ⟨_, beq_self_eq_true _⟩
  have hleft : 0 < Server.leftToRedact (sampleConversation v) sampleWriter.address none := by
    rw [Server.leftToRedact, hown]
    exact List.countP_pos_iff.mpr ⟨_, List.mem_singleton_self _, by rw [hpayload, Option.any_some, hlisted]⟩
  obtain ⟨entry, hentry⟩ := Server.exists_redaction hfinishable hdeliverable hsign hleft
  have hkeys : ([entry].map (·.1)).Nodup := List.nodup_singleton _
  have hone : 1 ≤ Server.maxRedactionsPerDelete := by decide
  have hscoped : Server.EraseTarget.account.scope = .ok none := rfl
  obtain ⟨round, hround, hredactions, db', resp, hok⟩ := Server.exists_round
    Server.serves_sampleConfig (List.mem_cons_self : sampleWriter ∈ (sampleConversation v).users.rows) rfl hsign
    hscoped hkeys hone hentry
  obtain ⟨author, hauthor, haddress, scope, hscope, pending, db₁, hredacts, hlength, -, -, heffect⟩ :=
    Server.eraseRound_ok hok
  obtain rfl : author = sampleWriter :=
    Tables.Table.eq_of_key hauthor List.mem_cons_self (haddress.trans hround.author)
  obtain rfl : scope = none := by
    rw [hround.target] at hscope
    exact (Except.ok.inj hscope).symm
  have hrow : sampleWritten v ∈ (sampleConversation v).store .dm := List.mem_singleton_self _
  obtain ⟨redaction, hredaction⟩ : ∃ redaction, redaction ∈ pending := by
    refine List.exists_mem_of_length_pos ?_
    rw [hlength, hredactions]
    exact Nat.zero_lt_one
  obtain ⟨row, p, signature, hverified⟩ := hredacts.verified redaction hredaction
  have hmem := hverified.own
  rw [hown, List.mem_singleton, Prod.mk.injEq] at hmem
  rcases hredacts.fate hrow with ⟨hnone, -⟩ | ⟨_, -, p', signature', -, hverified', hcontent⟩
  · exact absurd ⟨hmem.1, hmem.2 ▸ hverified.id⟩ (hnone redaction hredaction)
  obtain rfl : sampleVersioned v = p' := Option.some.inj (hpayload.symm.trans hverified'.payload)
  have hrow₁ : Server.rewrite pending .dm (sampleWritten v) ∈ db₁.store .dm := by
    change _ ∈ (db₁.store .dm).rows
    rw [hredacts.store .dm]
    exact List.mem_map_of_mem hrow
  refine ⟨round, resp, db', _, signature', hok, ?_, hcontent⟩
  cases heffect with
  | redacting _ _ _ hsame => exact (hsame.store .dm).symm ▸ hrow₁
  | done _ _ _ db₂ hdeleted hgroups _ =>
    have hkept : ¬ Server.Keyless db₁ sampleWriter.address none .dm
        (Server.rewrite pending .dm (sampleWritten v)) := by
      rintro ⟨-, hkeyless⟩
      rw [hcontent] at hkeyless
      have hkeyed : (Server.payloadIn (redactedContent .dm (sampleVersioned v) signature' "")).any
          Server.isKeyless = false := rfl
      exact absurd (hkeyed.symm.trans hkeyless) Bool.false_ne_true
    exact (hgroups.kept' ((hdeleted.mem .dm _).mpr ⟨hrow₁, hkept⟩)).resolve_right fun h => by cases h.1

theorem readByPage_sample : ReadByPage sampleReader .dm (sampleWritten 1) :=
  ⟨sampleVersioned 1, rfl, rfl, by decide +kernel⟩

/-- The redaction of a message of version 1 reads as its author's. -/
theorem redactions_read_as_authors_sample : ∃ row' : Message, (∃ signature,
    row'.content = redactedContent .dm (sampleVersioned 1) signature "") ∧
      ReadsAsAuthors sampleMessenger .dm (sampleWritten 1) row' := by
  obtain ⟨round, resp, db', row', signature, hok, hrow', hcontent⟩ := redacted_sample 1
  obtain ⟨row, hrow, -, hreads⟩ := redactions_read_as_authors sampleMessenger sampleReader sampleSigning
    sampleConfig (sampleConversation 1) db' round resp readsAlike_sample (addressed_sample 1) hok .dm row' hrow'
  obtain rfl : row = sampleWritten 1 := List.mem_singleton.mp hrow
  refine ⟨row', ⟨signature, hcontent⟩, ?_⟩
  rcases hreads with rfl | hreads
  · cases hcontent
  · exact hreads readByPage_sample

/-- A message of another version is redacted, and its redaction is not recognised. -/
theorem not_redactions_read_as_authors : ¬ ∀ (env : Messenger) (r : NumberReader) (prim : Primitives)
    (cfg : Server.Config) (db db' : Database) (round : Round) (resp : Server.EraseResponse),
    ReadsAlike env r prim → Addressed env db → Server.eraseRound prim cfg db round = (db', .ok resp) →
      ∀ kind, ∀ row' ∈ db'.store kind, ∃ row ∈ db.store kind, row'.id = row.id ∧
        (row' = row ∨ ReadsAsAuthors env kind row row') := by
  intro h
  obtain ⟨round, resp, db', row', signature, hok, hrow', hcontent⟩ := redacted_sample 2
  obtain ⟨row, hrow, -, hreads⟩ := h sampleMessenger sampleReader sampleSigning sampleConfig
    (sampleConversation 2) db' round resp readsAlike_sample (addressed_sample 2) hok .dm row' hrow'
  obtain rfl : row = sampleWritten 2 := List.mem_singleton.mp hrow
  rcases hreads with rfl | hreads
  · cases hcontent
  · have hredacted := hreads.redacted
    rw [hcontent] at hredacted
    have hunread : sessionPayload .dm (sampleMessenger.parseJson
        (redactedContent .dm (sampleVersioned 2) signature "")) = none := by
      refine Option.filter_some_neg ?_
      rfl
    rw [hunread] at hredacted
    cases hredacted

end sample

end Kryptolog.Client
