import Kryptolog.Library.Runs
import Kryptolog.Server.EraseRounds
import Kryptolog.Server.WorkflowInvariant

/-! # Can an erase be finished?

An erase completes when no row is left to redact. The rows that it demands are those that
`_is_signable` lets pass; the rows that can be redacted are those for which a body can be built
that a signature covers. The two tests are different code with different bounds. `Finishable`
says that they agree on every row of the author in the scope, and that every such row can be read
at all. `erase_done_iff`: that is exactly when some sequence of rounds completes the erase.
-/

namespace Kryptolog.Server
set_option autoImplicit false

open Tables Json Fallible Runs

/-- Every row can be read, and every row that is demanded can be redacted. -/
structure Finishable (db : Database) (a : Address) (scope : Scope) : Prop where
  readable : AllReadable db a scope
  redactable : ∀ c ∈ ownMessages db a scope, ∀ p, payloadIn c.2.content = some p →
    isListed p = true → Redactable c.1 c.2 p

/-- What the send endpoints let into the tables from `a`: a direct message goes to the address of a
user, a group message to a channel, whose id the server made. The content is any text. -/
structure Deliverable (db : Database) (a : Address) : Prop where
  sender : isValidAddress a.text = true
  recipient : ∀ row ∈ db.messages, row.senderAddress = a → isValidAddress (lowerText row.target) = true
  channel : ∀ row ∈ db.groupMessages, row.senderAddress = a → isSignedIdentifierText row.target = true

/-- The server takes signatures at all: its deployment has an id that can be signed, and it accepts
some origin. -/
structure Config.Serves (cfg : Config) : Prop where
  deployment : isSignedIdentifierText cfg.deploymentId = true
  origin : ∃ origin, isCanonicalOrigin origin = true ∧
    (cfg.loginOrigins.isEmpty || cfg.loginOrigins.contains origin) = true

/-- The bound on the redactions of one request. -/
def maxRedactionsPerDelete : ℕ := 1000

/-- A round of the erase of `target` by the user at `a`. -/
structure Round.IsRoundOf (round : Round) (a : Address) (target : EraseTarget) : Prop where
  author : lower round.token.sub = a
  target : round.target = target
  size : round.request.redactions.length ≤ maxRedactionsPerDelete

/-- An accepted round with its answer. It is accepted only under signatures of the author. -/
def AcceptedRound (prim : Primitives) (cfg : Config) (db : Database) (x : Round × EraseResponse)
    (db' : Database) : Prop :=
  eraseRound prim cfg db x.1 = (db', .ok x.2)

/-! ## Bodies that can be built -/

theorem signedInt_of_bounded {v : Option Value} (hint : ∃ z, v = some (.int z) ∧ 0 ≤ z)
    (h : ∀ z, v = some (.int z) → z < 2 ^ 53) : ∃ z, signedInt v = some z := by
  obtain ⟨z, rfl, hz⟩ := hint
  have hlt := h z rfl
  refine ⟨z, ?_⟩
  rw [signedInt, if_pos (by simp only [hz, hlt, decide_true, Bool.and_self])]

/-- What looks signable names a session and a position, and has an envelope of the right shape. -/
theorem isSignable_eq_true {p : Value} (h : isSignable p = true) :
    isSignedIdentifier (p.get "sid") = true ∧ (∃ z, p.get "ts" = some (.int z) ∧ 0 ≤ z) ∧
      (∃ z, p.get "seq" = some (.int z) ∧ 0 ≤ z) ∧
      ∃ keys, p.get "keys" = some keys ∧ checkEnvelopeShape keys = .ok () := by
  simp only [isSignable, Bool.and_eq_true] at h
  obtain ⟨⟨⟨hsid, hts⟩, hseq⟩, hkeys⟩ := h
  have hts' : ∃ z, p.get "ts" = some (.int z) ∧ 0 ≤ z := by
    split at hts
    · next z hz => exact ⟨z, hz, by simpa using hts⟩
    · cases hts
  have hseq' : ∃ z, p.get "seq" = some (.int z) ∧ 0 ≤ z := by
    split at hseq
    · next z hz => exact ⟨z, hz, by simpa using hseq⟩
    · cases hseq
  refine ⟨hsid, hts', hseq', ?_⟩
  cases hk : p.get "keys" with
  | none => simp [hk] at hkeys
  | some keys =>
    refine ⟨keys, rfl, ?_⟩
    rw [hk, Option.any_some] at hkeys
    cases hshape : checkEnvelopeShape keys with
    | ok u => rfl
    | error e => simp [hshape, Except.isOk, Except.toBool] at hkeys

/-- A row that the send endpoints accepted and that is redactable has a body to sign. -/
theorem redactionBody_ok (prim : Primitives) {db : Database} {a : Address} {scope : Scope}
    {kind : Kind} {row : Message} {p : Value} (hdel : Deliverable db a)
    (hown : (kind, row) ∈ ownMessages db a scope) (hl : isListed p = true)
    (hred : Redactable kind row p) : ∃ body, redactionBody prim a (kind, row, p) = .ok body := by
  obtain ⟨hsid, hts, hseq, keys, hkeys, hshape⟩ :=
    isSignable_eq_true (Bool.and_eq_true_iff.mp hl).2
  obtain ⟨text, htext⟩ := canonicalJson_envelope hshape
  obtain ⟨t, ht⟩ := signedInt_of_bounded hts hred.ts
  obtain ⟨q, hq⟩ := signedInt_of_bounded hseq hred.seq
  obtain ⟨hmem, hsender, -⟩ := mem_ownMessages.mp hown
  have hconv : (!isValidAddress a.text || !(isValidAddress (convAndGid kind row).1 ||
      isSignedIdentifierText (convAndGid kind row).1)) = false := by
    cases kind with
    | dm => simp [convAndGid, hdel.sender, hdel.recipient row hmem hsender]
    | group => simp [convAndGid, hdel.sender, hdel.channel row hmem hsender]
  have hgid : ((convAndGid kind row).2 != "" &&
      !isSignedIdentifierText (convAndGid kind row).2) = false := by
    cases kind with
    | dm => rfl
    | group => simp [convAndGid, hdel.channel row hmem hsender]
  simp only [redactionBody, messageSigningBody, hkeys, Option.getD_some, ht, hq]
  exact ⟨_, bind_eq_ok.mpr ⟨(), hshape, bind_eq_ok.mpr ⟨(), refuseIf_eq_ok.mpr (by simp [hsid]),
    bind_eq_ok.mpr ⟨(), refuseIf_eq_ok.mpr hconv, bind_eq_ok.mpr ⟨(), refuseIf_eq_ok.mpr hgid,
      bind_eq_ok.mpr ⟨text, htext, rfl⟩⟩⟩⟩⟩⟩

/-! ## Keys of rows -/

theorem toList_redactionKey (kind : Kind) (id : ℕ) :
    (redactionKey kind id).toList = kind.text.toList ++ ':' :: Nat.toDigits 10 id := by
  have hkey : redactionKey kind id = kind.text ++ ":" ++ id.repr := rfl
  rw [hkey, String.toList_append, String.toList_append, Nat.toList_repr, List.append_assoc]
  rfl

theorem pyDigit_of_isDigit {prim : Primitives} {c : Char} (h : c.isDigit = true) :
    pyDigit prim c = some (some (c.toNat - 48)) := by
  rw [pyDigit, if_pos h]

theorem pyInt_digits {prim : Primitives} {digits : List Char}
    (h : ∀ c ∈ digits, c.isDigit = true) (n : ℕ) :
    digits.foldlM (fun n c => match pyDigit prim c with
      | some (some d) => Except.ok (10 * n + d)
      | _ => .error (.unhandled "ValueError")) n =
      (.ok (Nat.ofDigitChars 10 digits n) : Except Fault ℕ) := by
  induction digits generalizing n with
  | nil => rfl
  | cons c digits ih =>
    obtain ⟨hc, hrest⟩ := List.forall_mem_cons.mp h
    rw [List.foldlM_cons, pyDigit_of_isDigit hc]
    exact (ih hrest (10 * n + (c.toNat - 48))).trans (by rw [Nat.ofDigitChars_cons]; rfl)

/-- The key that is listed for a row is read back to that row. -/
theorem parseKey_redactionKey (prim : Primitives) (kind : Kind) (id : ℕ) :
    parseKey prim (redactionKey kind id) = .ok (kind, id) := by
  have hdigits : ∀ c ∈ Nat.toDigits 10 id, c.isDigit = true := fun c hc =>
    Nat.isDigit_of_mem_toDigits (by omega) (by omega) hc
  have hall : (Nat.toDigits 10 id).all (fun c => (pyDigit prim c).isSome) = true :=
    List.all_eq_true.mpr fun c hc => by rw [pyDigit_of_isDigit (hdigits c hc)]; rfl
  have hint : pyInt prim (Nat.toDigits 10 id) = .ok id :=
    (pyInt_digits hdigits 0).trans (by rw [Nat.ofDigitChars_ten_toDigits])
  have hne : (Nat.toDigits 10 id).isEmpty = false := by simp
  cases kind <;>
    simp [parseKey, toList_redactionKey, Kind.text, kindOfText, hall, hne, hint, bind, Except.bind]

/-! ## One honest round -/

section honest

variable {prim : Primitives} {cfg : Config} {db : Database} {u : User} {scope : Scope}

/-- A row of the author is found under its id. -/
theorem find_own {a : Address} {c : Kind × Message} (hown : c ∈ ownMessages db a scope) :
    (db.store c.1).find? (fun x => x.id == c.2.id && x.senderAddress == a) = some c.2 := by
  obtain ⟨hmem, hsender, -⟩ := mem_ownMessages.mp hown
  obtain ⟨x, hx⟩ := Table.find?_isSome (T := (db.store c.1).toTable)
    (p := fun x => x.id == c.2.id && x.senderAddress == a) hmem (by simp [hsender])
  obtain ⟨hxmem, hxp⟩ := Table.find?_mem hx
  rw [hx, Serial.eq_of_key hxmem hmem (by simpa using (Bool.and_eq_true_iff.mp hxp).1)]

/-- Any key that names a listed row which is redactable is verified under a genuine signature. -/
theorem verifyRedaction_row {c : Kind × Message} {p : Value} {key body signature : String}
    (hkey : parseKey prim key = .ok (c.1, c.2.id))
    (hown : c ∈ ownMessages db u.address scope) (hp : payloadIn c.2.content = some p)
    (hread : readable c.2.content = true) (hl : isListed p = true) (hred : Redactable c.1 c.2 p)
    (hbody : redactionBody prim u.address (c.1, c.2, p) = .ok body)
    (hver : prim.verifyIdentitySignature u.identityPublicKey body signature = true) :
    verifyRedaction prim db u scope (key, signature) =
      .ok (c.1, c.2.id, redactedContent c.1 p signature (convAndGid c.1 c.2).2) := by
  obtain ⟨kind, row⟩ := c
  obtain ⟨-, -, hscope⟩ := mem_ownMessages.mp hown
  have hrow : redactableRow prim db u.address key scope = .ok (kind, row, p) := by
    obtain ⟨hcarrier, hsignable⟩ := Bool.and_eq_true_iff.mp hl
    simp only [redactableRow, hkey, bind, Except.bind, find_own hown, hscope,
      payloadOf_eq_ok.mpr ⟨hread, rfl⟩, hp, hcarrier, hsignable]
    rfl
  have hgroup : declaresOtherGroup kind row p = false := declaresOtherGroup_eq_false.mpr hred.gid
  simp only [verifyRedaction, hrow, bind, Except.bind, hgroup, refuseIf, hbody, hver]
  rfl

/-- A listed row that is redactable is redacted under a genuine signature. -/
theorem applyRedactions_row {c : Kind × Message} {p : Value} {body signature : String}
    (hown : c ∈ ownMessages db u.address scope) (hp : payloadIn c.2.content = some p)
    (hread : readable c.2.content = true) (hl : isListed p = true) (hred : Redactable c.1 c.2 p)
    (hbody : redactionBody prim u.address (c.1, c.2, p) = .ok body)
    (hver : prim.verifyIdentitySignature u.identityPublicKey body signature = true) :
    ∃ r, applyRedactions prim db u [(redactionKey c.1 c.2.id, signature)] scope =
      .ok (setContent db r, 1) := by
  have hverify := verifyRedaction_row (parseKey_redactionKey prim c.1 c.2.id) hown hp hread hl hred
    hbody hver
  exact ⟨_, bind_eq_ok.mpr ⟨[_], mapM_eq_ok.mpr (.cons hverify .nil), rfl⟩⟩

theorem applyRedactions_nil : applyRedactions prim db u [] scope = .ok (db, 0) := by
  simp [applyRedactions, verifiedRedactions, bind, Except.bind, pure, Except.pure]

theorem deleteOwnMessages_isOk {a : Address} (h : AllReadable db a scope) :
    ∃ r, deleteOwnMessages db a scope = .ok r :=
  ⟨_, bind_eq_ok.mpr ⟨_, selectRows_eq_ok.mpr ⟨h, rfl⟩, rfl⟩⟩

/-- Once its redactions are applied, a conversation's round goes through. -/
theorem eraseScope_isOk {key : Kind × String} {redactions : List (String × String)} {n : ℕ}
    {db₁ : Database} (happly : applyRedactions prim db u redactions (some key) = .ok (db₁, n))
    (hread : AllReadable db₁ u.address (some key)) :
    ∃ r, eraseScope prim db u key redactions = .ok r := by
  have hkeys := redactionKeys_eq_ok.mpr ⟨hread, rfl⟩
  obtain ⟨d, hdelete⟩ := deleteOwnMessages_isOk hread
  simp only [eraseScope, happly, hkeys, bind, Except.bind]
  split
  · exact ⟨_, rfl⟩
  · simp only [keptMessages_eq_ok.mpr ⟨hread, rfl⟩, hdelete]
    exact ⟨_, rfl⟩

/-- And so does an account's. -/
theorem eraseAccount_isOk (now : Time) {redactions : List (String × String)} {n : ℕ}
    {db₁ : Database} (happly : applyRedactions prim db u redactions none = .ok (db₁, n))
    (hread : AllReadable db₁ u.address none) :
    ∃ r, eraseAccount prim db now u redactions = .ok r := by
  have hkeys := redactionKeys_eq_ok.mpr ⟨hread, rfl⟩
  obtain ⟨d, hdelete⟩ := deleteOwnMessages_isOk hread
  simp only [eraseAccount, happly, hkeys, bind, Except.bind]
  split
  · exact ⟨_, rfl⟩
  · simp only [keptMessages_eq_ok.mpr ⟨hread, rfl⟩, deleteAccount, hdelete, Except.map]
    exact ⟨_, rfl⟩

/-- A challenge for the address. -/
def challengeFor (a : Address) : Table Nonce := ⟨[⟨"0", a, 1⟩], List.nodup_singleton _⟩

theorem claimNonce_challengeFor (db : Database) (a : Address) :
    (claimNonce { db with nonces := challengeFor a } 0 a "0").2 = true := by
  simp [claimNonce, challengeFor, Table.where']

/-- The round of an honest client: whatever redactions apply, the server accepts the round that
carries them. -/
theorem exists_round {target : EraseTarget} {redactions : List (String × String)}
    (hcfg : cfg.Serves) (hu : u ∈ db.users) (hactive : u.active = true)
    (hsign : ∀ m, ∃ signature, prim.verifyIdentitySignature u.identityPublicKey m signature = true)
    (htarget : target.scope = .ok scope) (hnodup : (redactions.map (·.1)).Nodup)
    (hsize : redactions.length ≤ maxRedactionsPerDelete)
    (happly : ∀ d, SameContents db d → ∃ d₁ n,
      applyRedactions prim d u redactions scope = .ok (d₁, n) ∧ AllReadable d₁ u.address scope) :
    ∃ round : Round, round.IsRoundOf u.address target ∧ round.request.redactions = redactions ∧
      ∃ db' resp, eraseRound prim cfg db round = (db', .ok resp) := by
  obtain ⟨origin, horigin, hallowed⟩ := hcfg.origin
  obtain ⟨d₁, n, hd₁, hread⟩ := happly
    (claimNonce { db with nonces := challengeFor u.address } 0 u.address "0").1
    ((SameContents.challenges db _).trans (.challenges _ _))
  have hcaller : getCurrentUser { db with nonces := challengeFor u.address }
      ⟨u.address.text, u.tokenVersion⟩ = .ok u := getCurrentUser_of_active hu hactive
  have hserver : checkSignedForThisServer cfg origin cfg.deploymentId = .ok () := by
    rw [checkSignedForThisServer, horigin, hallowed]
    simp
  have hwon := claimNonce_challengeFor db u.address
  have hhex : isHex "0" = true := by decide
  cases target with
  | account =>
    cases htarget
    obtain ⟨message, hmessage⟩ : ∃ message, accountDeletionMessage prim "0" .erase
        (redactions.map (·.1)) origin cfg.deploymentId = .ok message := by
      simp only [accountDeletionMessage, refuseIf, hhex, horigin, hcfg.deployment]
      exact ⟨_, rfl⟩
    obtain ⟨signature, hver⟩ := hsign message
    obtain ⟨r, hr⟩ := eraseAccount_isOk 0 hd₁ hread
    refine ⟨⟨challengeFor u.address, 0, ⟨u.address.text, u.tokenVersion⟩, .account,
      ⟨"0", origin, cfg.deploymentId, signature, redactions⟩⟩, ⟨lower_text _, rfl, hsize⟩, rfl,
      r.1, r.2, ?_⟩
    have hauth : authorizeDeletion prim cfg u .erase
        ⟨"0", origin, cfg.deploymentId, signature, redactions⟩ = .ok () :=
      authorizeDeletion_eq_ok hnodup hactive hserver hmessage hver
    simp only [eraseRound, hcaller, performDeletion, hwon, Bool.not_true, Bool.false_eq_true,
      if_false]
    exact transaction_eq_ok.mpr (bind_eq_ok.mpr ⟨(), hauth, hr⟩)
  | conversation kind path =>
    obtain ⟨key, hkey, rfl⟩ := map_eq_ok.mp htarget
    obtain ⟨message, hmessage⟩ : ∃ message, conversationEraseMessage prim "0" key.1 key.2
        (redactions.map (·.1)) origin cfg.deploymentId = .ok message := by
      have hvalid : ((key.1 == .dm && isValidAddress key.2) ||
          (key.1 == .group && isSignedIdentifierText key.2)) = true := by
        unfold scopeOfPath at hkey
        cases kind with
        | dm =>
          dsimp only at hkey
          split at hkey
          · next hv =>
            cases hkey
            simp [hv]
          · cases hkey
        | group =>
          dsimp only at hkey
          split at hkey
          · next hv =>
            cases hkey
            simp [hv]
          · cases hkey
      simp only [conversationEraseMessage, refuseIf, hhex, hvalid, horigin, hcfg.deployment]
      exact ⟨_, rfl⟩
    obtain ⟨signature, hver⟩ := hsign message
    obtain ⟨r, hr⟩ := eraseScope_isOk hd₁ hread
    refine ⟨⟨challengeFor u.address, 0, ⟨u.address.text, u.tokenVersion⟩, .conversation kind path,
      ⟨"0", origin, cfg.deploymentId, signature, redactions⟩⟩, ⟨lower_text _, rfl, hsize⟩, rfl,
      r.1, r.2, ?_⟩
    have hauth : authorizeErase prim cfg u key
        ⟨"0", origin, cfg.deploymentId, signature, redactions⟩ = .ok () := by
      simp [authorizeErase, refuseIf, hnodup, hserver, hmessage, hver, bind, Except.bind]
    simp only [eraseRound, hcaller, eraseConversation, hkey, hwon, Bool.not_true,
      Bool.false_eq_true, if_false]
    exact transaction_eq_ok.mpr (bind_eq_ok.mpr ⟨(), hauth, hr⟩)

end honest

/-! ## Runs of rounds -/

section runs

variable {prim : Primitives} {cfg : Config} {db db' : Database} {u : User} {scope : Scope}

/-- Redacting rows neither makes an erase finishable nor stops it from being so. -/
theorem Redacts.finishable_iff {author : User} {pending : List Redaction}
    (h : Redacts prim db db' author scope pending) :
    Finishable db' author.address scope ↔ Finishable db author.address scope := by
  have hown := h.ownMessages_eq author.address scope
  constructor
  · intro hf
    refine ⟨fun c hc => ?_, fun c hc p hp hl => ?_⟩
    · rcases h.fate (mem_ownMessages.mp hc).1 with ⟨-, heq⟩ | ⟨r, -, p, signature, -, hver, -⟩
      · have hc' : (c.1, rewrite pending c.1 c.2) ∈ ownMessages db' author.address scope := by
          rw [hown]
          exact List.mem_map_of_mem hc
        exact heq ▸ hf.readable _ hc'
      · have hpay := hver.payload
        cases hcontent : c.2.content with
        | tooDeep raw =>
          rw [hcontent] at hpay
          cases hpay
        | _ => rfl
    · rcases h.fate (mem_ownMessages.mp hc).1 with ⟨-, heq⟩ | ⟨r, -, p', signature, hk, hver, -⟩
      · have hc' : (c.1, rewrite pending c.1 c.2) ∈ ownMessages db' author.address scope := by
          rw [hown]
          exact List.mem_map_of_mem hc
        rw [heq] at hc'
        exact hf.redactable c hc' p hp hl
      · obtain rfl : p' = p := Option.some.inj (hver.payload.symm.trans hp)
        exact hk ▸ hver.redactable
  · intro hf
    refine ⟨fun c hc => ?_, fun c hc p hp hl => ?_⟩
    all_goals
      rw [hown] at hc
      obtain ⟨c₀, hc₀, rfl⟩ := List.mem_map.mp hc
    · rcases h.fate (mem_ownMessages.mp hc₀).1 with ⟨-, heq⟩ | ⟨r, -, p, signature, -, -, hcontent⟩
      · dsimp only
        rw [heq]
        exact hf.readable c₀ hc₀
      · dsimp only
        rw [hcontent]
        rfl
    · obtain ⟨-, heq⟩ := h.listed (mem_ownMessages.mp hc₀).1 (by rw [hp]; exact hl)
      dsimp only at hp ⊢
      rw [heq] at hp ⊢
      exact hf.redactable c₀ hc₀ p hp hl

theorem SameContents.finishable_iff (h : SameContents db db') {a : Address} :
    Finishable db' a scope ↔ Finishable db a scope := by
  have hown : ownMessages db' a scope = ownMessages db a scope := ownMessages_congr h.store
  constructor <;> intro hf
  · exact ⟨fun c hc => hf.readable c (hown ▸ hc), fun c hc => hf.redactable c (hown ▸ hc)⟩
  · exact ⟨fun c hc => hf.readable c (hown ▸ hc), fun c hc => hf.redactable c (hown ▸ hc)⟩

/-- Where nothing is left to redact, nothing demanded is in the way. -/
theorem finishable_of_left {a : Address} (hread : AllReadable db a scope)
    (hleft : leftToRedact db a scope = 0) : Finishable db a scope := by
  refine ⟨hread, fun c hc p hp hl => ?_⟩
  have hnone := List.countP_eq_zero.mp hleft c hc
  rw [hp] at hnone
  exact absurd hl hnone

/-- An accepted round either completes, from a state that could be finished, or leaves the
question as it was. -/
theorem acceptedRound_finishable {x : Round × EraseResponse} {a : Address} {target : EraseTarget}
    (hx : x.1.IsRoundOf a target) (htarget : target.scope = .ok scope)
    (h : AcceptedRound prim cfg db x db') :
    Finishable db a scope ∨ (x.2.status = .redacting ∧
      (Finishable db' a scope ↔ Finishable db a scope)) := by
  obtain ⟨author, -, haddr, scope', hscope, pending, db₁, hredacts, -, -, hread, houtcome⟩ :=
    eraseRound_ok h
  obtain rfl : scope' = scope := by
    rw [hx.target, htarget] at hscope
    exact (Except.ok.inj hscope).symm
  obtain rfl : author.address = a := haddr.trans hx.author
  cases houtcome with
  | redacting hst _ _ hsame =>
    exact .inr ⟨hst, hsame.finishable_iff.trans hredacts.finishable_iff⟩
  | done _ hleft _ db₂ _ _ _ =>
    exact .inl (hredacts.finishable_iff.mp (finishable_of_left hread hleft))

/-- A run of rounds that completes started where the erase could be finished. -/
theorem finishable_of_run {a : Address} {target : EraseTarget} (htarget : target.scope = .ok scope)
    {xs : List (Round × EraseResponse)} (hrun : Run (AcceptedRound prim cfg) db xs db')
    (hxs : ∀ x ∈ xs, x.1.IsRoundOf a target) (hdone : ∃ x ∈ xs, x.2.status ≠ .redacting) :
    Finishable db a scope := by
  induction hrun with
  | nil => obtain ⟨x, hx, -⟩ := hdone; cases hx
  | @cons db mid db' x xs hstep _ ih =>
    obtain ⟨hx, hrest⟩ := List.forall_mem_cons.mp hxs
    rcases acceptedRound_finishable hx htarget hstep with hf | ⟨hst, hiff⟩
    · exact hf
    · obtain ⟨y, hy, hne⟩ := hdone
      rcases List.mem_cons.mp hy with rfl | hy
      · exact absurd hst hne
      · exact hiff.mp (ih hrest ⟨y, hy, hne⟩)

theorem SameContents.deliverable (h : SameContents db db') {a : Address} (hdel : Deliverable db a) :
    Deliverable db' a where
  sender := hdel.sender
  recipient := fun row hrow => by
    have hstore : db'.messages = db.messages := h.store .dm
    exact hdel.recipient row (hstore ▸ hrow)
  channel := fun row hrow => by
    have hstore : db'.groupMessages = db.groupMessages := h.store .group
    exact hdel.channel row (hstore ▸ hrow)

/-- Redactions leave sender and target of a row. -/
theorem Redacts.deliverable {author : User} {pending : List Redaction} {a : Address}
    (h : Redacts prim db db' author scope pending) (hdel : Deliverable db a) :
    Deliverable db' a := by
  have hold : ∀ kind, ∀ row ∈ db'.store kind, ∃ row₀ ∈ db.store kind,
      row.senderAddress = row₀.senderAddress ∧ row.target = row₀.target := by
    intro kind row hrow
    have hrow' : row ∈ (db.store kind).rows.map (rewrite pending kind) := h.store kind ▸ hrow
    obtain ⟨row₀, hrow₀, rfl⟩ := List.mem_map.mp hrow'
    exact ⟨row₀, hrow₀, (rewrite_same pending kind row₀).2⟩
  refine ⟨hdel.sender, fun row hrow hsender => ?_, fun row hrow hsender => ?_⟩
  · obtain ⟨row₀, hrow₀, hs, ht⟩ := hold .dm row hrow
    rw [ht]
    exact hdel.recipient row₀ hrow₀ (hs.symm.trans hsender)
  · obtain ⟨row₀, hrow₀, hs, ht⟩ := hold .group row hrow
    rw [ht]
    exact hdel.channel row₀ hrow₀ (hs.symm.trans hsender)

/-- One listed row and a genuine signature make a round's redactions. -/
theorem exists_redaction (hf : Finishable db u.address scope) (hdel : Deliverable db u.address)
    (hsign : ∀ m, ∃ signature, prim.verifyIdentitySignature u.identityPublicKey m signature = true)
    (hleft : 0 < leftToRedact db u.address scope) :
    ∃ entry, ∀ d, SameContents db d → ∃ d₁ n,
      applyRedactions prim d u [entry] scope = .ok (d₁, n) ∧ AllReadable d₁ u.address scope := by
  obtain ⟨c, hc, hany⟩ := List.countP_pos_iff.mp hleft
  cases hp : payloadIn c.2.content with
  | none => simp [hp] at hany
  | some p =>
    rw [hp, Option.any_some] at hany
    have hred := hf.redactable c hc p hp hany
    obtain ⟨body, hbody⟩ := redactionBody_ok prim hdel hc hany hred
    obtain ⟨signature, hver⟩ := hsign body
    refine ⟨(redactionKey c.1 c.2.id, signature), fun d hd => ?_⟩
    have hown : c ∈ ownMessages d u.address scope := ownMessages_congr hd.store ▸ hc
    obtain ⟨r, hr⟩ := applyRedactions_row hown hp (hf.readable c hc) hany hred hbody hver
    obtain ⟨pending, hredacts, -, -⟩ := applyRedactions_ok hr
    exact ⟨_, _, hr,
      (hredacts.finishable_iff.mpr ((SameContents.finishable_iff hd).mpr hf)).readable⟩

/-- From where an erase can be finished rounds of one redaction each finish it: the induction is on
the number of rows left. -/
theorem run_of_finishable {target : EraseTarget} (hcfg : cfg.Serves) (hu : u ∈ db.users)
    (hactive : u.active = true)
    (hsign : ∀ m, ∃ signature, prim.verifyIdentitySignature u.identityPublicKey m signature = true)
    (hdel : Deliverable db u.address) (htarget : target.scope = .ok scope)
    (hf : Finishable db u.address scope) :
    ∃ xs db', Run (AcceptedRound prim cfg) db xs db' ∧
      (∀ x ∈ xs, x.1.IsRoundOf u.address target) ∧ ∃ x ∈ xs, x.2.status ≠ .redacting := by
  induction hn : leftToRedact db u.address scope using Nat.strong_induction_on generalizing db with
  | _ n ih =>
    subst hn
    obtain ⟨redactions, hkeys, hsize, hnone, happly⟩ : ∃ redactions : List (String × String),
        (redactions.map (·.1)).Nodup ∧ redactions.length ≤ maxRedactionsPerDelete ∧
        (redactions = [] → leftToRedact db u.address scope = 0) ∧
        ∀ d, SameContents db d → ∃ d₁ n,
          applyRedactions prim d u redactions scope = .ok (d₁, n) ∧
            AllReadable d₁ u.address scope := by
      by_cases hleft : leftToRedact db u.address scope = 0
      · refine ⟨[], List.nodup_nil, Nat.zero_le _, fun _ => hleft, fun d hd => ⟨d, 0, ?_, ?_⟩⟩
        · exact applyRedactions_nil
        · exact ((SameContents.finishable_iff hd).mpr hf).readable
      · obtain ⟨entry, hentry⟩ := exists_redaction hf hdel hsign (Nat.pos_of_ne_zero hleft)
        have hone : 1 ≤ maxRedactionsPerDelete := by decide
        exact ⟨[entry], List.nodup_singleton _, hone, (fun h => by cases h), hentry⟩
    obtain ⟨round, hround, hreds, db', resp, hok⟩ :=
      exists_round hcfg hu hactive hsign htarget hkeys hsize happly
    obtain ⟨author, hauthor, haddr, scope', hscope, pending, db₁, hredacts, hlength, -, -, houtcome⟩ :=
      eraseRound_ok hok
    obtain rfl : scope' = scope := by
      rw [hround.target, htarget] at hscope
      exact (Except.ok.inj hscope).symm
    obtain rfl : author = u := Table.eq_of_key hauthor hu (haddr.trans hround.author)
    cases houtcome with
    | done hst _ _ db₂ _ _ _ =>
      refine ⟨[(round, resp)], db', .single hok, ?_, (round, resp), List.mem_singleton_self _, hst⟩
      exact fun x hx => List.mem_singleton.mp hx ▸ hround
    | redacting hst hpos _ hsame =>
      have hne : pending ≠ [] := by
        rintro rfl
        have hzero := hnone (List.eq_nil_of_length_eq_zero (by rw [← hreds, ← hlength]; rfl))
        have hle := hredacts.leftToRedact_le
        omega
      have hlt : leftToRedact db' author.address scope' < leftToRedact db author.address scope' := by
        rw [leftToRedact, ownMessages_congr hsame.store]
        exact hredacts.leftToRedact_lt hne
      have hu' : author ∈ db'.users := by rw [hsame.users, hredacts.users]; exact hu
      obtain ⟨xs, db₂, hrun, hxs, x, hx, hdone⟩ := ih _ hlt hu'
        (hsame.deliverable (hredacts.deliverable hdel))
        (hsame.finishable_iff.mpr (hredacts.finishable_iff.mpr hf)) rfl
      exact ⟨(round, resp) :: xs, db₂, .cons hok hrun, List.forall_mem_cons.mpr ⟨hround, hxs⟩,
        x, List.mem_cons_of_mem _ hx, hdone⟩

/-- Some sequence of rounds completes the erase exactly where every row of the author in the scope
can be read and every row that is demanded can be redacted. -/
theorem erase_done_iff {target : EraseTarget} (hcfg : cfg.Serves) (hu : u ∈ db.users)
    (hactive : u.active = true)
    (hsign : ∀ m, ∃ signature, prim.verifyIdentitySignature u.identityPublicKey m signature = true)
    (hdel : Deliverable db u.address) (htarget : target.scope = .ok scope) :
    (∃ xs db', Run (AcceptedRound prim cfg) db xs db' ∧
      (∀ x ∈ xs, x.1.IsRoundOf u.address target) ∧ ∃ x ∈ xs, x.2.status ≠ .redacting) ↔
      Finishable db u.address scope := by
  constructor
  · rintro ⟨xs, db', hrun, hxs, hdone⟩
    exact finishable_of_run htarget hrun hxs hdone
  · exact run_of_finishable hcfg hu hactive hsign hdel htarget

end runs

/-! ## A message at the end of time -/

def sampleAddress (c : Char) : Address := lower (String.ofList (List.replicate 96 c))

def sampleWriter : User :=
  ⟨sampleAddress 'a', "writer", none, none, none, none, none, none, 0, none, false⟩

/-- A message at the position `ts` with one wrapped key. -/
def samplePayload (ts : ℤ) : Value :=
  .obj [(.uni "sid", .str (.uni "s")), (.uni "ts", .int ts), (.uni "seq", .int 0),
    (.uni "keys", .obj [(.uni "b", .obj [(.uni "encKey", .str (.uni "k"))])]),
    (.uni "ct", .str (.uni "c"))]

def sampleMessage (ts : ℤ) : Message :=
  ⟨0, sampleAddress 'a', (sampleAddress 'b').text, .json (samplePayload ts)⟩

/-- The writer has sent one message. -/
def sampleSent (ts : ℤ) : Database where
  __ := Database.empty
  users := ⟨[sampleWriter], List.nodup_singleton _⟩
  messages := ⟨⟨[sampleMessage ts], List.nodup_singleton _⟩, 1, by
    intro row hrow
    rw [List.mem_singleton.mp hrow]
    exact Nat.zero_lt_one⟩

theorem serves_sampleConfig : sampleConfig.Serves :=
  ⟨by decide, "https://sample", by decide, by decide⟩

theorem sampleWriter_signs (m : String) : ∃ signature,
    samplePrimitives.verifyIdentitySignature sampleWriter.identityPublicKey m signature = true :=
  ⟨"writer" ++ m, beq_self_eq_true _⟩

theorem isValidAddress_sampleAddress {c : Char} (hhex : isLowerHexDigit c = true)
    (hlower : c.toLower = c) : isValidAddress (sampleAddress c).text = true := by
  have htext : (sampleAddress c).text =
      String.ofList ((String.ofList (List.replicate 96 c)).toList.map Char.toLower) := rfl
  rw [String.toList_ofList, List.map_replicate, hlower] at htext
  rw [htext]
  exact matchHex_replicate 96 hhex

theorem deliverable_sampleSent (ts : ℤ) : Deliverable (sampleSent ts) sampleWriter.address where
  sender := isValidAddress_sampleAddress (c := 'a') (by decide) (by decide)
  recipient := fun row hrow _ => by
    obtain rfl : row = sampleMessage ts := List.mem_singleton.mp hrow
    have htarget : lowerText (sampleMessage ts).target = (sampleAddress 'b').text :=
      (sampleAddress 'b').lowered
    rw [htarget]
    exact isValidAddress_sampleAddress (by decide) (by decide)
  channel := fun _ h => by cases h

theorem ownMessages_sampleSent (ts : ℤ) :
    ownMessages (sampleSent ts) sampleWriter.address none = [(.dm, sampleMessage ts)] := by
  simp [ownMessages, Scope.kinds, sampleSent, Database.store, Database.empty, Serial.empty,
    Table.empty, Table.where', sampleMessage, sampleWriter, inScope]

/-- The writer of an ordinary message can erase the account. -/
theorem erase_done_iff_sample :
    ∃ xs db', Run (AcceptedRound samplePrimitives sampleConfig) (sampleSent 0) xs db' ∧
      (∀ x ∈ xs, x.1.IsRoundOf sampleWriter.address .account) ∧
        ∃ x ∈ xs, x.2.status ≠ .redacting := by
  have hread : AllReadable (sampleSent 0) sampleWriter.address none := by
    rw [AllReadable, ownMessages_sampleSent]
    simp [sampleMessage, readable]
  have hred : ∀ c ∈ ownMessages (sampleSent 0) sampleWriter.address none, ∀ p,
      payloadIn c.2.content = some p → isListed p = true → Redactable c.1 c.2 p := by
    rw [ownMessages_sampleSent]
    intro c hc p hp _
    obtain rfl := List.mem_singleton.mp hc
    obtain rfl : samplePayload 0 = p := Option.some.inj hp
    have hts : (samplePayload 0).get "ts" = some (.int 0) := rfl
    have hseq : (samplePayload 0).get "seq" = some (.int 0) := rfl
    refine ⟨fun z hz => ?_, fun z hz => ?_, (fun _ h => by cases h)⟩
    · rw [hts] at hz
      cases hz
      decide
    · rw [hseq] at hz
      cases hz
      decide
  exact (erase_done_iff serves_sampleConfig (List.mem_singleton_self _) rfl sampleWriter_signs
    (deliverable_sampleSent 0) rfl).mpr ⟨hread, hred⟩

/-- A message whose position is `2^53` is demanded by every round and can be redacted by none. -/
theorem not_erase_done_position :
    ¬ ∀ (db : Database) (u : User) (target : EraseTarget) (scope : Scope), u ∈ db.users →
      u.active = true →
      (∀ m, ∃ signature,
        samplePrimitives.verifyIdentitySignature u.identityPublicKey m signature = true) →
      Deliverable db u.address → target.scope = .ok scope →
      ∃ xs db', Run (AcceptedRound samplePrimitives sampleConfig) db xs db' ∧
        (∀ x ∈ xs, x.1.IsRoundOf u.address target) ∧ ∃ x ∈ xs, x.2.status ≠ .redacting := by
  intro h
  obtain ⟨xs, db', hrun, hxs, hdone⟩ := h (sampleSent (2 ^ 53)) sampleWriter .account none
    (List.mem_singleton_self _) rfl sampleWriter_signs (deliverable_sampleSent _) rfl
  have htarget : EraseTarget.account.scope = .ok none := rfl
  have hf := finishable_of_run htarget hrun hxs hdone
  have hmem : (Kind.dm, sampleMessage (2 ^ 53)) ∈
      ownMessages (sampleSent (2 ^ 53)) sampleWriter.address none := by
    rw [ownMessages_sampleSent]
    exact List.mem_singleton_self _
  have hred := hf.redactable _ hmem (samplePayload (2 ^ 53)) rfl (by decide)
  have hlt := hred.ts (2 ^ 53) rfl
  exact absurd hlt (lt_irrefl _)

end Kryptolog.Server
