import Kryptolog.Client.BodyInjectivity
import Kryptolog.Extension.Approvals
import Kryptolog.Library.History

/-! # Pages get what they asked for

What a message of a page leads to, request by request: what its window asks about, and what is signed.
In every run a page that gets a signature, or something that was opened, gets what its own request asks
for, of the origin that the browser reports, and but for the messages of a chat it gets it after a page of
the extension has approved this request.
-/

namespace Kryptolog.Extension
set_option autoImplicit false

open Script Runs Tasks Fallible
open Client (Account SigningContext domainSeparate loginChallengeBody accountDeletionBody conversationEraseBody
  multisigApprovalMessage messageSigningBody keyRotationBody encryptionKeyAttestationBody)

variable {prim : ExtensionPrimitives}

/-! ## What a request asks for -/

/-- The response holds something that only the keys of an account give. -/
def Response.isPrivate : Response → Bool
  | signature _ _ | attestation _ _ | decrypted _ | decryptedMany _ | rotated _ _ _ _ _ => true
  | _ => false

/-- What the window of a request asks about. -/
def Request.AsksFor (prim : ExtensionPrimitives) (origin : Text) : Request → Approval → Prop
  | .connect, .connect => True
  | .sign m, .sign kind _ body => body = m ∧ (kind = .text ∧ contextOf m = none ∨
      kind = .content ∧ contextOf m = some SigningContext.content.text)
  | .signLogin nonce deployment, .sign kind account body => kind = .login ∧ ∃ s, body = some (.str s) ∧
      loginChallengeBody nonce (.str origin) deployment (.str account.encryption.publicKey) = .ok s
  | .signAccountDeletion nonce mode redactionKeys deployment, .sign kind _ body => kind = .accountDeletion ∧
      ∃ keys s, redactionList redactionKeys = .ok keys ∧ body = some (.str s) ∧
        accountDeletionBody prim.sha384Hex nonce mode keys (.str origin) deployment = .ok s
  | .signConversationErase nonce of conversation redactionKeys deployment, .sign kind _ body =>
    kind = .conversationErase ∧ ∃ keys s, redactionList redactionKeys = .ok keys ∧ body = some (.str s) ∧
      conversationEraseBody prim.sha384Hex nonce of conversation keys (.str origin) deployment = .ok s
  | .signMultisigApproval workflowId secretId ct, .sign kind _ body => kind = .multisigApproval ∧
      ∃ s, body = some (.str s) ∧ multisigApprovalMessage workflowId secretId ct = .ok s
  | .signMessage m, .sign kind _ body => kind = .message ∧ body = m ∧ isMessageBody m = true
  | .rotateEncryptionKey ts, .rotate _ n _ => ts = .num n
  | .decrypt data, .decrypt data' => data' = data
  | .unwrapSessionKey key, .unwrapSessionKey key' => key' = key
  | .decryptMany items, .decryptMany items' => items' = items
  | .unwrapManySessionKeys keys, .unwrapManySessionKeys keys' => keys' = keys
  | _, _ => False

/-- What is signed for a request. -/
def Request.Signs (prim : ExtensionPrimitives) (origin text : Text) : Request → Prop
  | .sign m => messageText m = some text ∧ (contextOf m = none ∨ contextOf m = some SigningContext.content.text)
  | .signLogin nonce deployment =>
    ∃ key, loginChallengeBody nonce (.str origin) deployment (.str key) = .ok text
  | .signAccountDeletion nonce mode redactionKeys deployment => ∃ keys, redactionList redactionKeys = .ok keys ∧
      accountDeletionBody prim.sha384Hex nonce mode keys (.str origin) deployment = .ok text
  | .signConversationErase nonce of conversation redactionKeys deployment =>
    ∃ keys, redactionList redactionKeys = .ok keys ∧
      conversationEraseBody prim.sha384Hex nonce of conversation keys (.str origin) deployment = .ok text
  | .signMultisigApproval workflowId secretId ct => multisigApprovalMessage workflowId secretId ct = .ok text
  | .signMessage m => m = some (.str text) ∧ messageSigningPrefix.isPrefixOf text = true
  | _ => False

theorem Request.AsksFor.signs {origin text : Text} {request : Request} {kind : SignKind} {account : Account}
    {body : Option Value} (h : request.AsksFor prim origin (.sign kind account body))
    (htext : messageText body = some text) : request.Signs prim origin text := by
  cases request with
  | sign m =>
    obtain ⟨rfl, hkind⟩ := h
    exact ⟨htext, hkind.imp And.right And.right⟩
  | signLogin nonce deployment =>
    obtain ⟨-, s, rfl, hbody⟩ := h
    obtain rfl := Option.some.inj htext
    exact ⟨_, hbody⟩
  | signAccountDeletion nonce mode redactionKeys deployment =>
    obtain ⟨-, keys, s, hkeys, rfl, hbody⟩ := h
    obtain rfl := Option.some.inj htext
    exact ⟨keys, hkeys, hbody⟩
  | signConversationErase nonce of conversation redactionKeys deployment =>
    obtain ⟨-, keys, s, hkeys, rfl, hbody⟩ := h
    obtain rfl := Option.some.inj htext
    exact ⟨keys, hkeys, hbody⟩
  | signMultisigApproval workflowId secretId ct =>
    obtain ⟨-, s, rfl, hbody⟩ := h
    obtain rfl := Option.some.inj htext
    exact hbody
  | signMessage m =>
    obtain ⟨-, rfl, hmessage⟩ := h
    unfold isMessageBody at hmessage
    split at hmessage
    · obtain rfl := Option.some.inj htext
      exact ⟨rfl, hmessage⟩
    · cases hmessage
  | _ => cases h

/-! ## The first turn of a page's message -/

/-- What the first turn of a message of a page does. -/
inductive PageTurn (prim : ExtensionPrimitives) (c : Background) (owner : ℕ) (sender : Sender) (request : Request)
    (inputs : Inputs) : Background × Point → Prop
  | answered (d : Background) (hd : Still c d) (r : Response) (hr : r.isPrivate = false) :
    PageTurn prim c owner sender request inputs (answer d owner r)
  | waits (q : Point) (hq : q.isIdle = true) (hr : ∀ r, q = .answering r → r.isPrivate = false) :
    PageTurn prim c owner sender request inputs (c, q)
  | asks (origin : Text) (approval : Approval) (horigin : sender.origin = some origin)
    (hasks : request.AsksFor prim origin approval) :
    PageTurn prim c owner sender request inputs (requestApproval c owner origin approval inputs)
  | signsMessage (granted : Bool) (account : Account) (body : Text)
    (hrequest : request = .signMessage (some (.str body))) (hbody : messageSigningPrefix.isPrefixOf body = true)
    (horigin : sender.origin.isSome = true) :
    PageTurn prim c owner sender request inputs (c, .signing sender (.autoSigned granted) account body)
  | attests (account : Account) (body : Text) (hrequest : request = .getKeyAttestation)
    (hbody : encryptionKeyAttestationBody (.str account.id) (.str account.encryption.publicKey) = .ok body)
    (horigin : sender.origin.isSome = true) :
    PageTurn prim c owner sender request inputs (c, .signing sender .attested account body)
  | saves (d : Background) (hd : Still c d) (removes : Option Removal) :
    PageTurn prim c owner sender request inputs (saveAndRespond d owner .success removes inputs)

section page

variable {c : Background} {owner : ℕ} {sender : Sender} {request : Request} {inputs : Inputs}

theorem PageTurn.thrown (error : String) : PageTurn prim c owner sender request inputs (throw c owner error) :=
  .answered c (.refl c) _ rfl

theorem PageTurn.signature {kind : SignKind} {body : Option Value}
    (h : ∀ origin account, sender.origin = some origin → requireConnectedAccount c sender = .ok (origin, account) →
      request.AsksFor prim origin (.sign kind account body)) :
    PageTurn prim c owner sender request inputs (requestSignature c owner sender kind body inputs) := by
  unfold requestSignature
  split
  · exact .thrown _
  · next origin account haccount =>
    obtain ⟨-, horigin, -⟩ := requireConnectedAccount_eq_ok haccount
    exact .asks origin _ horigin (h origin account horigin haccount)

/-- The window of the login shows the account whose key is in the body. -/
theorem requireActiveAccount_of_connected {origin : Text} {account : Account}
    (h : requireConnectedAccount c sender = .ok (origin, account)) : requireActiveAccount c = .ok account := by
  obtain ⟨v, -, hv, -, hactive⟩ := requireConnectedAccount_eq_ok h
  simp only [requireActiveAccount, hv, hactive]

theorem page_sign (m : Option Value) (hexternal : sender.isInternal = false) :
    PageTurn prim c owner sender (.sign m) inputs (handleSign c owner sender m inputs) := by
  unfold handleSign
  split
  · exact .thrown _
  · rw [hexternal]
    split
    · next h => cases h
    · split
      · next hcontext => exact .signature fun _ _ _ _ => ⟨rfl, .inl ⟨rfl, hcontext⟩⟩
      · next context hcontext =>
        split
        · next hcontent =>
          rw [hcontent] at hcontext
          exact .signature fun _ _ _ _ => ⟨rfl, .inr ⟨rfl, hcontext⟩⟩
        · exact .answered c (.refl c) _ rfl

theorem page_signLogin (nonce deployment : Value) : PageTurn prim c owner sender (.signLogin nonce deployment) inputs
    (handleSignLogin c owner sender nonce deployment inputs) := by
  unfold handleSignLogin
  split
  · exact .thrown _
  · split
    · exact .thrown _
    · next shown hshown =>
      unfold requestBuilt
      split
      · exact .thrown _
      · next s hs =>
        refine .signature fun origin account horigin haccount => ⟨rfl, s, rfl, ?_⟩
        have hsame := requireActiveAccount_of_connected haccount
        rw [hshown] at hsame
        obtain rfl := Except.ok.inj hsame
        rw [originValue_eq horigin] at hs
        exact hs

theorem page_signAccountDeletion (nonce mode redactionKeys deployment : Value) :
    PageTurn prim c owner sender (.signAccountDeletion nonce mode redactionKeys deployment) inputs
      (handleSignAccountDeletion prim c owner sender nonce mode redactionKeys deployment inputs) := by
  unfold handleSignAccountDeletion
  split
  · exact .thrown _
  · split
    · exact .thrown _
    · next keys hkeys =>
      split
      · exact .thrown _
      · next body hbody =>
        split
        · exact .thrown _
        · refine .signature fun origin _ horigin _ => ⟨rfl, keys, body, hkeys, rfl, ?_⟩
          rw [originValue_eq horigin] at hbody
          exact hbody

theorem page_signConversationErase (nonce of conversation redactionKeys deployment : Value) :
    PageTurn prim c owner sender (.signConversationErase nonce of conversation redactionKeys deployment) inputs
      (handleSignConversationErase prim c owner sender nonce of conversation redactionKeys deployment inputs) := by
  unfold handleSignConversationErase
  split
  · exact .thrown _
  · split
    · exact .thrown _
    · next keys hkeys =>
      unfold requestBuilt
      split
      · exact .thrown _
      · next s hs =>
        refine .signature fun origin _ horigin _ => ⟨rfl, keys, s, hkeys, rfl, ?_⟩
        rw [originValue_eq horigin] at hs
        exact hs

theorem page_signMultisigApproval (workflowId secretId ct : Value) :
    PageTurn prim c owner sender (.signMultisigApproval workflowId secretId ct) inputs
      (handleSignMultisigApproval c owner sender workflowId secretId ct inputs) := by
  unfold handleSignMultisigApproval
  split
  · exact .thrown _
  · split
    · exact .thrown _
    · unfold requestBuilt
      split
      · exact .thrown _
      · next s hs => exact .signature fun _ _ _ _ => ⟨rfl, s, rfl, hs⟩

theorem page_signMessage (m : Option Value) (hexternal : sender.isInternal = false) :
    PageTurn prim c owner sender (.signMessage m) inputs (handleSignMessage prim c owner sender m inputs) := by
  unfold handleSignMessage
  split
  · exact .thrown _
  · split
    · next body =>
      split
      · exact .thrown _
      · next hmessage =>
        have hbody : messageSigningPrefix.isPrefixOf body = true := by simpa using hmessage
        split
        · exact .thrown _
        · next v hv =>
          simp only
          split
          · exact .thrown _
          · next hsender =>
            have horigin : sender.origin.isSome = true := by
              cases horigin : sender.origin with
              | none => simp [hexternal, horigin] at hsender
              | some origin => rfl
            split
            · split
              · exact .thrown _
              · exact .signsMessage _ _ body rfl hbody horigin
            · exact .signature fun _ _ _ _ => ⟨rfl, rfl, hbody⟩
    · exact .thrown _

theorem page_getKeyAttestation (hexternal : sender.isInternal = false) :
    PageTurn prim c owner sender .getKeyAttestation inputs (handleGetKeyAttestation c owner sender) := by
  unfold handleGetKeyAttestation
  split
  · exact .thrown _
  · next hsender =>
    have horigin : sender.origin.isSome = true := by
      cases horigin : sender.origin with
      | none => simp [hexternal, horigin] at hsender
      | some origin => rfl
    split
    · exact .thrown _
    · split
      · exact .thrown _
      · split
        · exact .thrown _
        · next body hbody => exact .attests _ body rfl hbody horigin

theorem page_opens {approval : Approval} (h : ∀ origin, request.AsksFor prim origin approval) :
    PageTurn prim c owner sender request inputs (handleOpen c owner sender approval inputs) := by
  unfold handleOpen
  split
  · exact .thrown _
  · split
    · exact .thrown _
    · exact .thrown _
    · next origin v horigin hv =>
      split
      · exact .thrown _
      · exact .asks origin approval horigin (h origin)

theorem page_encryptTo (publicKey : Value) (plaintext : Option Value) :
    PageTurn prim c owner sender request inputs (encryptTo prim c owner publicKey plaintext inputs) := by
  unfold encryptTo
  split
  · exact .thrown _
  · refine .waits _ rfl fun r hr => ?_
    cases hr
    rfl

theorem page_rotateEncryptionKey (ts : Value) : PageTurn prim c owner sender (.rotateEncryptionKey ts) inputs
    (handleRotateEncryptionKey c owner sender ts inputs) := by
  unfold handleRotateEncryptionKey
  split
  · exact .thrown _
  · split
    · exact .thrown _
    · exact .thrown _
    · next origin v horigin hv =>
      split
      · exact .thrown _
      · split
        · exact .thrown _
        · next n hn =>
          split
          · exact .thrown _
          · refine .asks origin _ horigin ?_
            unfold isRotationTime at hn
            split at hn
            · split at hn
              · obtain rfl := Option.some.inj hn
                rfl
              · cases hn
            · cases hn

theorem page_replaceActive {d : Background} (hd : Still c d) {change : Account → Except String Account}
    {removes : Account → Option Removal} : PageTurn prim c owner sender request inputs
      (replaceActive d owner change removes inputs) := by
  have hthrow (error : String) : PageTurn prim c owner sender request inputs (throw d owner error) :=
    .answered d hd _ rfl
  unfold replaceActive
  split
  · exact hthrow _
  · exact hthrow _
  · split
    · exact hthrow _
    · next v account _ _ _ changed _ =>
      have hchanged : Still c (d.setVault (v.replaceAccount changed)) := ⟨hd.queue, hd.handling, hd.responses⟩
      exact .saves _ hchanged _

theorem page_revertEncryptionKeyRotation (newKid : Value) : PageTurn prim c owner sender request inputs
    (handleRevertEncryptionKeyRotation c owner sender newKid inputs) := by
  unfold handleRevertEncryptionKeyRotation
  split
  · exact .thrown _
  · split
    · exact .thrown _
    · split
      · split
        · refine page_replaceActive ?_
          exact ⟨rfl, rfl, rfl⟩
        · exact .thrown _
      · exact .thrown _

theorem page_connect : PageTurn prim c owner sender .connect inputs (handleConnect c owner sender inputs) := by
  unfold handleConnect
  split
  · exact .thrown _
  · next origin horigin =>
    split
    · split
      · exact .waits _ rfl fun r hr => by cases hr
      · exact .waits _ rfl fun r hr => by cases hr
    · split
      · exact .thrown _
      · split
        · exact .answered c (.refl c) _ rfl
        · exact .asks origin .connect horigin trivial

theorem page_checkConnection :
    PageTurn prim c owner sender request inputs (handleCheckConnection c owner sender) := by
  unfold handleCheckConnection
  split
  · exact .answered c (.refl c) _ rfl
  · split
    · exact .thrown _
    · exact .answered c (.refl c) _ rfl

theorem page_getActiveAccount :
    PageTurn prim c owner sender request inputs (handleGetActiveAccount c owner sender) := by
  unfold handleGetActiveAccount
  split
  · exact .thrown _
  · split
    · exact .thrown _
    · split
      · exact .thrown _
      · exact .answered c (.refl c) _ rfl

theorem page_encrypt (message publicKey : Option Value) : PageTurn prim c owner sender request inputs
    (handleEncrypt prim c owner message publicKey inputs) := by
  unfold handleEncrypt
  split
  · exact page_encryptTo ..
  · split
    · exact .thrown _
    · split
      · exact .thrown _
      · exact page_encryptTo ..

theorem page_wrapSessionKey (sessionKey publicKey : Value) : PageTurn prim c owner sender request inputs
    (handleWrapSessionKey prim c owner sessionKey publicKey inputs) := by
  unfold handleWrapSessionKey
  split
  · exact .thrown _
  · split
    · exact .thrown _
    · exact page_encryptTo ..

/-- A message of a page does one of these. -/
theorem page_dispatch {caller : Caller} (hexternal : sender.isInternal = false) :
    PageTurn prim c caller.number sender request inputs (dispatch prim c caller sender request inputs) := by
  unfold dispatch
  simp only
  split
  · exact .thrown _
  · next hrequest =>
    have hpage : request.isInternal = false := by simpa [hexternal] using hrequest
    cases request with
    | checkConnection => exact page_checkConnection
    | handshake => exact .answered c (.refl c) _ rfl
    | connect => exact page_connect
    | getActiveAccount => exact page_getActiveAccount
    | sign m => exact page_sign m hexternal
    | signLogin nonce deployment => exact page_signLogin nonce deployment
    | signAccountDeletion nonce mode keys deployment => exact page_signAccountDeletion nonce mode keys deployment
    | signConversationErase nonce of conversation keys deployment =>
      exact page_signConversationErase nonce of conversation keys deployment
    | signMultisigApproval workflowId secretId ct => exact page_signMultisigApproval workflowId secretId ct
    | rotateEncryptionKey ts => exact page_rotateEncryptionKey ts
    | revertEncryptionKeyRotation newKid => exact page_revertEncryptionKeyRotation newKid
    | signMessage m => exact page_signMessage m hexternal
    | getKeyAttestation => exact page_getKeyAttestation hexternal
    | encrypt message publicKey => exact page_encrypt message publicKey
    | decrypt data => exact page_opens fun _ => rfl
    | generateSessionKey =>
      refine .waits _ rfl fun r hr => ?_
      cases hr
      rfl
    | wrapSessionKey sessionKey publicKey => exact page_wrapSessionKey sessionKey publicKey
    | unwrapSessionKey wrappedKey => exact page_opens fun _ => rfl
    | decryptMany items => exact page_opens fun _ => rfl
    | unwrapManySessionKeys wrappedKeys => exact page_opens fun _ => rfl
    | unknown type => exact .answered c (.refl c) _ rfl
    | _ => cases hpage

end page

/-! ## What a page may be told -/

/-- A page of the extension has approved the request. -/
def ApprovedIn (log : List Call) (requestId : ℕ) : Prop :=
  ∃ sender inputs, sender.isInternal = true ∧ Call.message sender (.resolveRequest requestId true) inputs ∈ log

/-- What the request number `i` of a page gives the page of what only the keys of an account give. -/
def Request.Grants (prim : ExtensionPrimitives) (log : List Call) (i : ℕ) (origin : Text) (request : Request) :
    Response → Prop
  | .signature _ text => request.Signs prim origin text ∧ (ApprovedIn log i ∨ ∃ m, request = .signMessage m)
  | .attestation seed body => request = .getKeyAttestation ∧ ∃ account : Account, account.identity.seed = seed ∧
      encryptionKeyAttestationBody (.str account.id) (.str account.encryption.publicKey) = .ok body
  | .decrypted text => ApprovedIn log i ∧ ∃ seed,
      (∃ data, request = .decrypt data ∧ prim.decryptMessage seed data = some text) ∨
      ∃ key, request = .unwrapSessionKey key ∧ prim.unwrapSessionKey seed key = some text
  | .decryptedMany texts => ApprovedIn log i ∧ ∃ account,
      (∃ items, request = .decryptMany items ∧ openEach account prim.decryptMessage items = .decryptedMany texts) ∨
      ∃ keys, request = .unwrapManySessionKeys keys ∧
        openEach account prim.unwrapSessionKey keys = .decryptedMany texts
  | .rotated _ _ _ _ ts => ApprovedIn log i ∧ request = .rotateEncryptionKey (.num ts)
  | _ => True

/-- What a call may be answered with: a page is told its due. -/
def Call.Grants (prim : ExtensionPrimitives) (log : List Call) (i : ℕ) (r : Response) : Call → Prop
  | .message sender request _ => sender.isInternal = false → r.isPrivate = true →
      ∃ origin, sender.origin = some origin ∧ request.Grants prim log i origin r
  | _ => r.isPrivate = false

/-- What waits for approval on behalf of a call. -/
def Call.Asks (prim : ExtensionPrimitives) (p : Pending) : Call → Prop
  | .message sender request _ => sender.isInternal = false →
      sender.origin = some p.origin ∧ request.AsksFor prim p.origin p.approval
  | _ => False

def Granted (prim : ExtensionPrimitives) (log : List Call) (i : ℕ) (r : Response) : Prop :=
  ∃ call, log[i]? = some call ∧ call.Grants prim log i r

def AskedBy (prim : ExtensionPrimitives) (log : List Call) (p : Pending) : Prop :=
  ∃ call, log[p.owner]? = some call ∧ call.Asks prim p

/-- A signature that needs no window. -/
def signatureFor (grounds : Grounds) (account : Account) (body : Text) : Response :=
  match grounds with
  | .attested => .attestation account.identity.seed body
  | _ => .signature account.identity.seed body

def After.Told (prim : ExtensionPrimitives) (log : List Call) (i : ℕ) : After → Prop
  | .respond r => Granted prim log i r
  | .connected p => AskedBy prim log p
  | .rotated p _ _ ts _ => AskedBy prim log p ∧
      ∀ publicKey oldKid newKid seed, Granted prim log p.owner (.rotated publicKey oldKid newKid seed ts)
  | _ => True

/-- What the task `i` is about to say, it may say. -/
def Point.Told (prim : ExtensionPrimitives) (log : List Call) (i : ℕ) : Point → Prop
  | .arrived sender request inputs => log[i]? = some (.message sender request inputs)
  | .answering r => Granted prim log i r
  | .signing _ grounds account body => Granted prim log i (signatureFor grounds account body)
  | .signingApproved p account body => Granted prim log p.owner (.signature account.identity.seed body)
  | .revealing p _ outcome => ∀ r, outcome = some r → Granted prim log p.owner r
  | .attesting p _ _ ts =>
    ∀ publicKey oldKid newKid seed, Granted prim log p.owner (.rotated publicKey oldKid newKid seed ts)
  | .rederiving after _ _ | .sealing after _ _ _ | .stored after _ | .adopting after _ | .saved after =>
    after.Told prim log i
  | _ => True

/-- What waits was asked for, and what was said may be said. -/
structure Background.Told (prim : ExtensionPrimitives) (log : List Call) (c : Background) : Prop where
  queue : ∀ p ∈ c.pendingRequests, AskedBy prim log p
  responses : ∀ x ∈ c.responses, Granted prim log x.1 x.2

/-- What a turn of the task `i` leads to. -/
def TurnTold (prim : ExtensionPrimitives) (log : List Call) (i : ℕ) (out : Background × Point) : Prop :=
  out.1.Told prim log ∧ out.2.Told prim log i

section told

variable {log : List Call} {c d : Background} {i : ℕ} {r : Response} {p : Pending}

theorem granted_public (hi : i < log.length) (hr : r.isPrivate = false) : Granted prim log i r := by
  refine ⟨log[i], List.getElem?_eq_getElem hi, ?_⟩
  unfold Call.Grants
  split
  · intro _ hprivate
    rw [hr] at hprivate
    cases hprivate
  · exact hr

theorem AskedBy.lt (h : AskedBy prim log p) : p.owner < log.length := by
  obtain ⟨call, hcall, -⟩ := h
  exact (List.getElem?_eq_some_iff.mp hcall).1

theorem Background.Told.respond (h : c.Told prim log) (hr : Granted prim log i r) :
    (c.respond i r).Told prim log where
  queue := h.queue
  responses x hx := by
    rcases List.mem_append.mp hx with hx | hx
    · exact h.responses x hx
    · obtain rfl := List.mem_singleton.mp hx
      exact hr

theorem Background.Told.endHandler (h : c.Told prim log) (by_ : ℕ) {outcome : Option Response}
    (hr : ∀ r, outcome = some r → Granted prim log p.owner r) : (c.endHandler p by_ outcome).Told prim log := by
  cases outcome with
  | none => exact ⟨h.queue, h.responses⟩
  | some r =>
    have hended : (c.endHandler p by_ none).Told prim log := ⟨h.queue, h.responses⟩
    exact hended.respond (hr r rfl)

theorem Background.Told.reject (h : c.Told prim log) (owner : ℕ) (error : Text) :
    (c.reject owner error).Told prim log := by
  unfold Background.reject
  split
  · exact h
  · next p hp =>
    have hasked := h.queue p (List.mem_of_find?_eq_some hp)
    have hremoved : (c.removePending p.owner).Told prim log :=
      ⟨fun q hq => h.queue q (List.mem_of_mem_filter hq), h.responses⟩
    exact hremoved.respond (granted_public hasked.lt rfl)

theorem Background.Told.rejectAll (h : c.Told prim log) (reason : Text) :
    (c.rejectAllApprovals reason).Told prim log where
  queue p hp := absurd hp List.not_mem_nil
  responses x hx := by
    rcases List.mem_append.mp hx with hx | hx
    · exact h.responses x hx
    · obtain ⟨p, hp, rfl⟩ := List.mem_map.mp hx
      exact granted_public (h.queue p hp).lt rfl

theorem told_answer (h : d.Told prim log) (hr : Granted prim log i r) : TurnTold prim log i (answer d i r) :=
  ⟨h.respond hr, trivial⟩

theorem told_throw (h : d.Told prim log) (hi : i < log.length) (error : String) :
    TurnTold prim log i (throw d i error) := told_answer h (granted_public hi rfl)

theorem told_save {owner : ℕ} {after : After} {removes : Option Removal} {inputs : Inputs} {out : Background × Point}
    (h : d.Told prim log) (hafter : after.Told prim log i)
    (hsave : saveVaultWithSessionKey d owner after removes inputs = .ok out) : TurnTold prim log i out := by
  unfold saveVaultWithSessionKey at hsave
  split at hsave
  · cases hsave
    exact ⟨h, hafter⟩
  · cases hsave
  · cases hsave
    exact ⟨⟨h.queue, h.responses⟩, hafter⟩

theorem told_saveAndRespond (h : d.Told prim log) (hi : i < log.length) (hr : Granted prim log i r)
    (removes : Option Removal) (inputs : Inputs) : TurnTold prim log i (saveAndRespond d i r removes inputs) := by
  unfold saveAndRespond
  split
  · exact told_throw h hi _
  · next hsave =>
    refine told_save h ?_ hsave
    exact hr

theorem told_ended (h : d.Told prim log) (by_ : ℕ) {outcome : Option Response}
    (hr : ∀ r, outcome = some r → Granted prim log p.owner r) :
    TurnTold prim log i (d.endHandler p by_ outcome, .done) := ⟨h.endHandler by_ hr, trivial⟩

theorem told_failed (h : d.Told prim log) (by_ : ℕ) (hp : AskedBy prim log p) (error : Text) :
    TurnTold prim log i (d.endHandler p by_ (some (.failed error)), .done) := by
  refine told_ended h by_ fun r hr => ?_
  cases hr
  exact granted_public hp.lt rfl

theorem told_thrown (h : d.Told prim log) (by_ : ℕ) (p : Pending) :
    TurnTold prim log i (d.endHandler p by_ none, .done) := told_ended h by_ fun r hr => by cases hr

theorem told_saveInHandler (h : d.Told prim log) {after : After} (hafter : after.Told prim log i) (inputs : Inputs) :
    TurnTold prim log i (saveInHandler d i p after inputs) := by
  unfold saveInHandler
  split
  · exact told_thrown h i p
  · next hsave => exact told_save h hafter hsave

theorem told_requestApproval (h : c.Told prim log) (hi : i < log.length) {origin : Text} {approval : Approval}
    (hasked : AskedBy prim log ⟨i, origin, approval⟩) (inputs : Inputs) :
    TurnTold prim log i (requestApproval c i origin approval inputs) := by
  unfold requestApproval
  split
  · exact told_throw h hi _
  · split
    · exact told_answer h (granted_public hi rfl)
    · have hqueued : (c.enqueue ⟨i, origin, approval⟩).Told prim log := by
        refine ⟨fun q hq => ?_, h.responses⟩
        rcases List.mem_append.mp hq with hq | hq
        · exact h.queue q hq
        · obtain rfl := List.mem_singleton.mp hq
          exact hasked
      unfold openApprovalWindow
      split <;> exact ⟨hqueued, trivial⟩

/-- What is asked for, once it is approved, may be given. -/
theorem AskedBy.granted (h : AskedBy prim log p) (hr : ∀ sender request inputs,
    log[p.owner]? = some (.message sender request inputs) → request.AsksFor prim p.origin p.approval →
      request.Grants prim log p.owner p.origin r) : Granted prim log p.owner r := by
  obtain ⟨call, hcall, hasks⟩ := h
  refine ⟨call, hcall, ?_⟩
  cases call with
  | message sender request inputs =>
    intro hexternal _
    obtain ⟨horigin, hasksFor⟩ := hasks hexternal
    exact ⟨p.origin, horigin, hr sender request inputs hcall hasksFor⟩
  | _ => cases hasks

theorem openEach_cases (account : Account) (open_ : Text → Value → Option Text) (items : Option Value) :
    (∃ texts, openEach account open_ items = .decryptedMany texts) ∨
      ∃ error, openEach account open_ items = .failed error := by
  unfold openEach
  split
  · exact .inl ⟨_, rfl⟩
  · exact .inr ⟨_, rfl⟩

theorem told_onApprove (h : c.Told prim log) (hasked : AskedBy prim log p) (happroved : ApprovedIn log p.owner)
    (inputs : Inputs) : TurnTold prim log i (onApprove prim c i p inputs) := by
  unfold onApprove
  split
  · exact told_thrown h i p
  · split
    · refine told_saveInHandler ?_ ?_ inputs
      · exact ⟨h.queue, h.responses⟩
      · exact hasked
    · next kind shown body happroval =>
      split
      · exact told_failed h i hasked _
      · next active _ =>
        split
        · exact told_thrown h i p
        · next text htext =>
          refine ⟨h, hasked.granted fun sender request inputs _ hasks => ?_⟩
          rw [happroval] at hasks
          exact ⟨hasks.signs htext, .inl happroved⟩
    · next data happroval =>
      split
      · exact told_failed h i hasked _
      · split
        · exact told_thrown h i p
        · next seed _ =>
          refine ⟨h, fun r hr => ?_⟩
          obtain ⟨text, htext, rfl⟩ := Option.map_eq_some_iff.mp hr
          refine hasked.granted fun sender request inputs _ hasks => ⟨happroved, seed, .inl ?_⟩
          rw [happroval] at hasks
          cases request <;> first | exact ⟨_, rfl, hasks ▸ htext⟩ | cases hasks
    · next key happroval =>
      split
      · exact told_failed h i hasked _
      · split
        · exact told_failed h i hasked _
        · next seed _ =>
          refine ⟨h, fun r hr => ?_⟩
          obtain rfl := Option.some.inj hr
          cases hkey : prim.unwrapSessionKey seed key with
          | none => exact granted_public hasked.lt rfl
          | some text =>
            refine hasked.granted fun sender request inputs _ hasks => ⟨happroved, seed, .inr ?_⟩
            rw [happroval] at hasks
            cases request <;> first | exact ⟨_, rfl, hasks ▸ hkey⟩ | cases hasks
    · next items happroval =>
      split
      · exact told_failed h i hasked _
      · next active _ =>
        refine ⟨h, fun r hr => ?_⟩
        obtain rfl := Option.some.inj hr
        rcases openEach_cases active prim.decryptMessage items with ⟨texts, htexts⟩ | ⟨error, herror⟩
        · rw [htexts]
          refine hasked.granted fun sender request inputs _ hasks => ⟨happroved, active, .inl ?_⟩
          rw [happroval] at hasks
          cases request <;> first | exact ⟨_, rfl, hasks ▸ htexts⟩ | cases hasks
        · rw [herror]
          exact granted_public hasked.lt rfl
    · next keys happroval =>
      split
      · exact told_failed h i hasked _
      · next active _ =>
        refine ⟨h, fun r hr => ?_⟩
        obtain rfl := Option.some.inj hr
        rcases openEach_cases active prim.unwrapSessionKey keys with ⟨texts, htexts⟩ | ⟨error, herror⟩
        · rw [htexts]
          refine hasked.granted fun sender request inputs _ hasks => ⟨happroved, active, .inr ?_⟩
          rw [happroval] at hasks
          cases request <;> first | exact ⟨_, rfl, hasks ▸ htexts⟩ | cases hasks
        · rw [herror]
          exact granted_public hasked.lt rfl
    · next shown ts fresh happroval =>
      split
      · exact told_failed h i hasked _
      · split
        · split
          · exact told_thrown h i p
          · refine told_saveInHandler ?_ ?_ inputs
            · exact ⟨h.queue, h.responses⟩
            refine ⟨hasked, fun _ _ _ _ => hasked.granted fun sender request inputs _ hasks => ⟨happroved, ?_⟩⟩
            rw [happroval] at hasks
            cases request <;> first | exact congrArg _ hasks | cases hasks
        · exact told_failed h i hasked _

theorem told_settleApproval (h : c.Told prim log) (hi : i < log.length) {requestId : ℕ} {approved : Bool}
    (happroved : approved = true → ApprovedIn log requestId) (inputs : Inputs) :
    TurnTold prim log i (settleApproval prim c i requestId approved inputs) := by
  unfold settleApproval
  split
  · exact told_answer h (granted_public hi rfl)
  · next p hp =>
    have howner : p.owner = requestId := by
      simpa using List.find?_some (p := fun q : Pending => q.owner == requestId) hp
    have hasked := h.queue p (List.mem_of_find?_eq_some hp)
    split
    · next hyes =>
      have hstarted : ((c.startHandler p i).respond i .success).Told prim log := by
        have hremoved : (c.startHandler p i).Told prim log :=
          ⟨fun q hq => h.queue q (List.mem_of_mem_filter hq), h.responses⟩
        exact hremoved.respond (granted_public hi rfl)
      exact told_onApprove hstarted hasked (howner ▸ happroved hyes) inputs
    · exact told_answer (h.reject ..) (granted_public hi rfl)

theorem told_failSync (h : c.Told prim log) (hi : i < log.length) (what : Syncing) (error : String) :
    TurnTold prim log i (failSync c i what error) := by
  cases what with
  | unlock => exact told_throw h hi _
  | initialization => exact ⟨⟨h.queue, h.responses⟩, trivial⟩

theorem told_endSync (h : c.Told prim log) (hi : i < log.length) (what : Syncing) :
    TurnTold prim log i (endSync c i what) := by
  cases what with
  | unlock => exact told_answer h (granted_public hi rfl)
  | initialization => exact ⟨⟨h.queue, h.responses⟩, trivial⟩

theorem told_startSync (h : c.Told prim log) (hi : i < log.length) (what : Syncing) (inputs : Inputs) :
    TurnTold prim log i (startSync prim c i what inputs) := by
  unfold startSync
  split
  · exact told_endSync h hi what
  · exact ⟨h, trivial⟩

theorem told_startUnlock (h : d.Told prim log) (hi : i < log.length) (what : Unlocking) (password : Text)
    (inputs : Inputs) : TurnTold prim log i (startUnlock d i what password inputs) := by
  unfold startUnlock
  split
  · exact told_throw h hi _
  · exact ⟨h, trivial⟩

theorem told_finishImport {caller : Caller} (h : c.Told prim log) (hi : caller.number < log.length)
    (data : Except Text ExtensionVault) (password : Option Text) (inputs : Inputs) :
    TurnTold prim log caller.number (finishImport c caller data password inputs) := by
  unfold finishImport
  split
  · exact told_answer h (granted_public hi rfl)
  · next imported =>
    have hmerged :
        { (mergeImport c caller imported).markUnlocked caller with hasPassword := true }.Told prim log := by
      unfold mergeImport
      split <;> exact ⟨h.queue, h.responses⟩
    simp only
    split
    · exact ⟨hmerged, trivial⟩
    · split
      · exact told_throw hmerged hi _
      · next hsave =>
        refine told_save hmerged ?_ hsave
        trivial

theorem told_finishSave {caller : Caller} {after : After} (h : c.Told prim log) (hi : caller.number < log.length)
    (hafter : after.Told prim log caller.number) : TurnTold prim log caller.number (finishSave c caller after) := by
  cases after with
  | respond r => exact told_answer h hafter
  | setUp password inputs =>
    refine told_startUnlock ?_ hi _ _ _
    exact ⟨h.queue, h.responses⟩
  | imported =>
    unfold finishSave
    simp only
    split
    · exact told_throw h hi _
    · split
      · exact told_throw h hi _
      · exact told_answer h (granted_public hi rfl)
  | synced what =>
    unfold finishSave
    simp only
    split
    · exact told_failSync h hi what _
    · exact told_endSync h hi what
  | connected p =>
    refine told_ended h _ fun r hr => ?_
    cases hr
    exact granted_public hafter.lt rfl
  | rotated p active rotated ts now => exact ⟨⟨h.queue, h.responses⟩, hafter.2⟩

theorem told_failSave {caller : Caller} {after : After} (h : c.Told prim log) (hi : caller.number < log.length) :
    TurnTold prim log caller.number (failSave c caller after) := by
  cases after with
  | respond | setUp | imported => exact told_throw h hi _
  | synced what => exact told_failSync h hi what _
  | connected p => exact told_thrown h _ p
  | rotated p => exact told_thrown h _ p

/-- The first turn of a message of the extension's own pages, which may be told anything. -/
theorem dispatched_told {caller : Caller} {sender : Sender} {request : Request} {inputs : Inputs}
    {out : Background × Point} (hout : Dispatched prim c caller sender request inputs out) (h : c.Told prim log)
    (hcall : log[caller.number]? = some (.message sender request inputs)) (hinternal : sender.isInternal = true) :
    TurnTold prim log caller.number out := by
  have hi : caller.number < log.length := (List.getElem?_eq_some_iff.mp hcall).1
  have hany (r : Response) : Granted prim log caller.number r :=
    ⟨_, hcall, fun hexternal => absurd hinternal (by rw [hexternal]; exact Bool.false_ne_true)⟩
  cases hout with
  | answered rotation r =>
    refine told_answer ?_ (hany r)
    exact ⟨h.queue, h.responses⟩
  | waits q hq =>
    refine ⟨h, ?_⟩
    cases q <;> first | trivial | exact hany _
  | unlocks | decryptsImport => exact ⟨h, trivial⟩
  | setsUp | locks => exact ⟨⟨h.queue, h.responses⟩, trivial⟩
  | changes =>
    refine told_saveAndRespond ?_ hi (hany _) _ _
    exact ⟨h.queue, h.responses⟩
  | imports data password => exact told_finishImport h hi data password inputs
  | asks origin approval =>
    refine told_requestApproval h hi ⟨_, hcall, fun hexternal => ?_⟩ inputs
    rw [hinternal] at hexternal
    cases hexternal
  | settles requestId approved hrequest =>
    subst hrequest
    refine told_settleApproval h hi (fun happroved => ⟨sender, inputs, hinternal, ?_⟩) inputs
    rw [← happroved]
    exact List.mem_of_getElem? hcall
  | signs v grounds account body => exact ⟨h, hany _⟩

/-- The first turn of a message of a page. -/
theorem PageTurn.told {caller : Caller} {sender : Sender} {request : Request} {inputs : Inputs}
    {out : Background × Point} (hout : PageTurn prim c caller.number sender request inputs out) (h : c.Told prim log)
    (hcall : log[caller.number]? = some (.message sender request inputs)) :
    TurnTold prim log caller.number out := by
  have hi : caller.number < log.length := (List.getElem?_eq_some_iff.mp hcall).1
  have hstill {d : Background} (hd : Still c d) : d.Told prim log :=
    ⟨hd.queue ▸ h.queue, hd.responses ▸ h.responses⟩
  cases hout with
  | answered d hd r hr => exact told_answer (hstill hd) (granted_public hi hr)
  | waits q hq hr =>
    refine ⟨h, ?_⟩
    cases q <;> first | trivial | exact granted_public hi (hr _ rfl)
  | asks origin approval horigin hasks =>
    exact told_requestApproval h hi ⟨_, hcall, fun _ => ⟨horigin, hasks⟩⟩ inputs
  | signsMessage granted account body hrequest hbody horigin =>
    obtain ⟨origin, horigin⟩ := Option.isSome_iff_exists.mp horigin
    subst hrequest
    exact ⟨h, _, hcall, fun _ _ => ⟨origin, horigin, ⟨rfl, hbody⟩, .inr ⟨_, rfl⟩⟩⟩
  | attests account body hrequest hbody horigin =>
    obtain ⟨origin, horigin⟩ := Option.isSome_iff_exists.mp horigin
    subst hrequest
    exact ⟨h, _, hcall, fun _ _ => ⟨origin, horigin, rfl, account, rfl, hbody⟩⟩
  | saves d hd removes => exact told_saveAndRespond (hstill hd) hi (granted_public hi rfl) _ _

theorem told_dispatch {caller : Caller} {sender : Sender} {request : Request} {inputs : Inputs} (h : c.Told prim log)
    (hcall : log[caller.number]? = some (.message sender request inputs)) :
    TurnTold prim log caller.number (dispatch prim c caller sender request inputs) := by
  cases hinternal : sender.isInternal with
  | true => exact dispatched_told dispatch_dispatched h hcall hinternal
  | false => exact (page_dispatch hinternal).told h hcall

theorem resume_told {caller : Caller} {p : Point} {out : Background × Point}
    (hout : Point.resume prim caller c p = some out) (h : c.Told prim log) (hi : caller.number < log.length)
    (hp : p.Told prim log caller.number) : TurnTold prim log caller.number out := by
  cases p with
  | arrived sender request inputs =>
    simp only [Point.resume] at hout
    split at hout <;> cases hout
    · exact told_dispatch h hp
    · exact told_throw h hi _
  | focusingPopup window focuses =>
    simp only [Point.resume] at hout
    split at hout <;> cases hout
    · exact told_throw h hi _
    · exact ⟨⟨h.queue, h.responses⟩, trivial⟩
  | creatingPopup window =>
    cases hout
    refine told_throw ?_ hi _
    exact ⟨h.queue, h.responses⟩
  | focusing window focuses =>
    simp only [Point.resume] at hout
    split at hout <;> cases hout
    · exact ⟨h, trivial⟩
    · exact ⟨⟨h.queue, h.responses⟩, trivial⟩
  | creating window =>
    cases window <;> cases hout
    · exact ⟨h.reject .., trivial⟩
    · exact ⟨⟨h.queue, h.responses⟩, trivial⟩
  | unlocking what password blob inputs =>
    simp only [Point.resume] at hout
    split at hout <;> cases hout
    · exact ⟨⟨h.queue, h.responses⟩, trivial⟩
    · refine told_answer h (granted_public hi ?_)
      cases what <;> rfl
  | opened what inputs =>
    cases hout
    refine ⟨?_, trivial⟩
    unfold Background.persistSession
    split
    · exact h
    · exact ⟨h.queue, h.responses⟩
  | persisted what inputs =>
    cases what <;> cases hout
    · exact told_startSync h hi _ _
    · exact told_answer h (granted_public hi rfl)
  | syncing what origins changed inputs =>
    cases origins with
    | nil =>
      simp only [Point.resume] at hout
      split at hout
      · cases hout
        exact told_failSync h hi what _
      · split at hout
        · split at hout <;> cases hout
          · exact told_failSync h hi what _
          · next hsave =>
            refine told_save h ?_ hsave
            trivial
        · cases hout
          exact told_endSync h hi what
    | cons origin origins =>
      simp only [Point.resume] at hout
      split at hout
      · split at hout <;> cases hout
        · exact told_failSync h hi what _
        · exact ⟨⟨h.queue, h.responses⟩, trivial⟩
      · cases hout
        exact ⟨h, trivial⟩
  | restoring blob key inputs =>
    simp only [Point.resume] at hout
    split at hout <;> cases hout
    · refine told_startSync ?_ hi _ _
      exact ⟨h.queue, h.responses⟩
    · exact ⟨⟨h.queue, h.responses⟩, trivial⟩
  | clearing =>
    cases hout
    exact told_answer h (granted_public hi rfl)
  | checkingIdle expired =>
    cases hout
    refine ⟨?_, trivial⟩
    split
    · exact ⟨h.queue, h.responses⟩
    · exact h
  | decryptingImport data password inputs =>
    cases hout
    exact told_finishImport h hi data password inputs
  | rederiving after password inputs =>
    cases hout
    exact ⟨⟨h.queue, h.responses⟩, hp⟩
  | sealing after sealed fresh stores =>
    simp only [Point.resume] at hout
    split at hout <;> cases hout
    · exact ⟨⟨h.queue, h.responses⟩, hp⟩
    · refine told_failSave ?_ hi
      exact ⟨h.queue, h.responses⟩
  | stored after key =>
    cases key <;> cases hout <;> exact ⟨⟨h.queue, h.responses⟩, hp⟩
  | adopting after key =>
    cases hout
    exact ⟨⟨h.queue, h.responses⟩, hp⟩
  | saved after =>
    cases hout
    exact told_finishSave h hi hp
  | checkingHost origin inputs =>
    simp only [Point.resume] at hout
    split at hout <;> cases hout
    · unfold trustSite
      split
      · exact told_throw h hi _
      · refine told_saveAndRespond ?_ hi (granted_public hi rfl) _ _
        exact ⟨h.queue, h.responses⟩
    · exact told_throw h hi _
  | answering r =>
    cases hout
    exact told_answer h hp
  | signing sender grounds account body =>
    simp only [Point.resume] at hout
    split at hout <;> cases hout
    · refine told_answer h ?_
      exact hp
    · refine told_answer ?_ ?_
      · exact ⟨h.queue, h.responses⟩
      · exact hp
  | signingApproved p account body =>
    cases hout
    refine told_ended ?_ _ fun r hr => ?_
    · exact ⟨h.queue, h.responses⟩
    · cases hr
      exact hp
  | revealing p account outcome =>
    cases hout
    refine told_ended ?_ _ hp
    split
    · exact ⟨h.queue, h.responses⟩
    · exact h
  | attesting p account rotated ts =>
    cases hout
    refine told_ended ?_ _ fun r hr => ?_
    · exact ⟨h.queue, h.responses⟩
    · cases hr
      exact hp ..
  | done => cases hout

end told

/-! ## Runs -/

section runs

variable {log : List Call}

theorem Request.Grants.mono {i : ℕ} {origin : Text} {request : Request} {r : Response} (call : Call)
    (h : request.Grants prim log i origin r) : request.Grants prim (log ++ [call]) i origin r := by
  have happroved : ApprovedIn log i → ApprovedIn (log ++ [call]) i := by
    rintro ⟨sender, inputs, hinternal, hmem⟩
    exact ⟨sender, inputs, hinternal, List.mem_append_left _ hmem⟩
  cases r with
  | signature seed text => exact ⟨h.1, h.2.imp_left happroved⟩
  | decrypted | decryptedMany | rotated => exact ⟨happroved h.1, h.2⟩
  | attestation => exact h
  | _ => trivial

theorem getElem?_snoc {i : ℕ} {c : Call} (call : Call) (h : log[i]? = some c) : (log ++ [call])[i]? = some c := by
  rw [List.getElem?_append_left (List.getElem?_eq_some_iff.mp h).1, h]

theorem Granted.mono {i : ℕ} {r : Response} (call : Call) (h : Granted prim log i r) :
    Granted prim (log ++ [call]) i r := by
  obtain ⟨c, hc, hgrants⟩ := h
  refine ⟨c, getElem?_snoc call hc, ?_⟩
  cases c with
  | message sender request inputs =>
    intro hexternal hprivate
    obtain ⟨origin, horigin, hgrants⟩ := hgrants hexternal hprivate
    exact ⟨origin, horigin, hgrants.mono call⟩
  | _ => exact hgrants

theorem AskedBy.mono {p : Pending} (call : Call) (h : AskedBy prim log p) : AskedBy prim (log ++ [call]) p := by
  obtain ⟨c, hc, hasks⟩ := h
  exact ⟨c, getElem?_snoc call hc, hasks⟩

theorem After.Told.mono {i : ℕ} {after : After} (call : Call) (h : after.Told prim log i) :
    after.Told prim (log ++ [call]) i := by
  cases after with
  | respond r => exact Granted.mono call h
  | connected p => exact AskedBy.mono call h
  | rotated p active rotated ts now =>
    exact ⟨AskedBy.mono call h.1, fun _ _ _ _ => Granted.mono call (h.2 ..)⟩
  | _ => trivial

theorem Point.Told.mono {i : ℕ} {p : Point} (call : Call) (h : p.Told prim log i) :
    p.Told prim (log ++ [call]) i := by
  cases p with
  | arrived sender request inputs => exact getElem?_snoc call h
  | answering r => exact Granted.mono call h
  | signing sender grounds account body => exact Granted.mono call h
  | signingApproved p account body => exact Granted.mono call h
  | revealing p account outcome => exact fun r hr => (h r hr).mono call
  | attesting p account rotated ts => exact fun _ _ _ _ => Granted.mono call (h ..)
  | rederiving after | sealing after | stored after | adopting after | saved after =>
    exact After.Told.mono call h
  | _ => trivial

theorem Background.Told.mono {c : Background} (call : Call) (h : c.Told prim log) : c.Told prim (log ++ [call]) :=
  ⟨fun p hp => (h.queue p hp).mono call, fun x hx => (h.responses x hx).mono call⟩

/-- What a call does before its first await says nothing that is private. -/
theorem begin_told {c : Background} {call : Call} {n : ℕ} (h : c.Told prim log) (hcall : log[n]? = some call) :
    TurnTold prim log n (Call.begin c call) := by
  unfold Call.begin
  cases call with
  | message sender request inputs => exact ⟨h, hcall⟩
  | start expired inputs =>
    simp only
    split
    · unfold initializeStorage
      simp only
      split <;> exact ⟨⟨h.queue, h.responses⟩, trivial⟩
    · exact ⟨h, trivial⟩
  | idleAlarm expired =>
    simp only
    split <;> exact ⟨h, trivial⟩
  | windowRemoved windowId =>
    refine ⟨?_, trivial⟩
    simp only [Background.handleWindowClosed]
    split <;> split
    · refine Background.Told.rejectAll ?_ _
      exact ⟨h.queue, h.responses⟩
    · exact ⟨h.queue, h.responses⟩
    · refine Background.Told.rejectAll ?_ _
      exact ⟨h.queue, h.responses⟩
    · exact h
  | timeout owner => exact ⟨h.reject .., trivial⟩

/-- The facts of the worker, with the calls that it was given. -/
structure ToldFact (prim : ExtensionPrimitives) (s : Background × List Call) (i : ℕ) (t : ExtensionTask) : Prop where
  number : t.caller.number = i
  point : t.point.Told prim s.2 i

theorem told_rule (prim : ExtensionPrimitives) : Rule (extension prim).remembering
    (fun n s => s.2.length = n ∧ s.1.Told prim s.2) (ToldFact prim) (fun _ _ => True) fun _ _ => True where
  call n s call hs _ := by
    obtain ⟨rfl, htold⟩ := hs
    have hcall : (s.2 ++ [call])[s.2.length]? = some call := by simp
    obtain ⟨hbegun, hpoint⟩ := begin_told (htold.mono call) hcall
    refine ⟨⟨by simp [Program.remembering], hbegun⟩, ⟨rfl, hpoint⟩, fun j t _ ht => ⟨ht.number, ?_⟩⟩
    exact ht.point.mono call
  resume n s i t d q hs hi hfact _ h := by
    obtain ⟨rfl, htold⟩ := hs
    obtain ⟨out, hout, heq⟩ := Option.map_eq_some_iff.mp h
    obtain ⟨turn, hturn, rfl⟩ := Option.map_eq_some_iff.mp hout
    cases heq
    obtain ⟨rfl, hpoint⟩ := hfact
    obtain ⟨hnext, hq⟩ := resume_told hturn htold hi hpoint
    exact ⟨⟨rfl, hnext⟩, ⟨rfl, hq⟩, fun j r _ hr => ⟨hr.number, hr.point⟩⟩
  restart n s hs := ⟨hs.1, fun p hp => absurd hp List.not_mem_nil, hs.2.responses⟩

/-- What was said in a run may be said. -/
theorem run_granted {c : Background} (hc : c.Fresh) {as : List (Action Call)} {s : State Background ExtensionTask}
    (h : Run (ofPartial (extension prim).step) (.start c) as s) :
    ∀ x ∈ s.shared.responses, Granted prim (calls as) x.1 x.2 := by
  have hstart : ([] : List Call).length = 0 ∧ c.Told prim [] := by
    refine ⟨rfl, fun p hp => ?_, fun x hx => ?_⟩
    · rw [hc.queue] at hp
      cases hp
    · rw [hc.responses] at hx
      cases hx
  exact ((told_rule prim).run_asked hstart h).shared.2.responses

/-- Every private response that a page was given in a run is what its own message asks for, and the extension's
own page has approved this message, unless it asks for the signature of a chat message or for the attestation
of the key. -/
theorem pages_get_what_they_asked {c : Background} (hc : c.Fresh) {as : List (Action Call)}
    {s : State Background ExtensionTask} (h : Run (ofPartial (extension prim).step) (.start c) as s)
    {i : ℕ} {r : Response} (hr : (i, r) ∈ s.shared.responses) (hprivate : r.isPrivate = true) :
    ∃ sender request inputs, (calls as)[i]? = some (.message sender request inputs) ∧
      (sender.isInternal = true ∨ ∃ origin, sender.origin = some origin ∧
        request.Grants prim (calls as) i origin r) := by
  obtain ⟨call, hcall, hgrants⟩ := run_granted hc h _ hr
  cases call with
  | message sender request inputs =>
    refine ⟨sender, request, inputs, hcall, ?_⟩
    cases hinternal : sender.isInternal with
    | true => exact .inl rfl
    | false => exact .inr (hgrants hinternal hprivate)
  | _ =>
    have hpublic : r.isPrivate = false := hgrants
    rw [hprivate] at hpublic
    cases hpublic

end runs

/-! ## Reserved bodies -/

/-- What a builder of a reserved body makes, of any arguments. -/
inductive Reserved (sha384Hex : String → String) (text : Text) : Prop
  | login (nonce origin deployment key : Value)
    (h : loginChallengeBody nonce origin deployment key = .ok text)
  | accountDeletion (nonce mode : Value) (keys : List Value) (origin deployment : Value)
    (h : accountDeletionBody sha384Hex nonce mode keys origin deployment = .ok text)
  | conversationErase (nonce kind conversation : Value) (keys : List Value) (origin deployment : Value)
    (h : conversationEraseBody sha384Hex nonce kind conversation keys origin deployment = .ok text)
  | multisigApproval (workflowId secretId ct : Value) (h : multisigApprovalMessage workflowId secretId ct = .ok text)
  | message (sender conv sid ct gid keys ts seq : Value)
    (h : messageSigningBody sha384Hex sender conv sid ct gid keys ts seq = .ok text)
  | rotation (address oldKid newKid ts : Value) (h : keyRotationBody address oldKid newKid ts = .ok text)
  | attestation (address key : Value) (h : encryptionKeyAttestationBody address key = .ok text)

/-- A body names its context, which is not that of a document. -/
theorem Reserved.separated {sha384Hex : String → String} {text : Text} (h : Reserved sha384Hex text) :
    ∃ context body, context ≠ SigningContext.content ∧ text = domainSeparate context.text body := by
  cases h with
  | login nonce origin deployment key h =>
    repeat obtain ⟨_, -, h⟩ := bind_eq_ok.mp h
    exact ⟨.login, _, by decide, (Except.ok.inj h).symm⟩
  | accountDeletion nonce mode keys origin deployment h =>
    repeat obtain ⟨_, -, h⟩ := bind_eq_ok.mp h
    exact ⟨.accountDeletion, _, by decide, (Except.ok.inj h).symm⟩
  | conversationErase nonce kind conversation keys origin deployment h =>
    repeat obtain ⟨_, -, h⟩ := bind_eq_ok.mp h
    exact ⟨.conversationErase, _, by decide, (Except.ok.inj h).symm⟩
  | multisigApproval workflowId secretId ct h =>
    repeat obtain ⟨_, -, h⟩ := bind_eq_ok.mp h
    exact ⟨.multisigApproval, _, by decide, (Except.ok.inj h).symm⟩
  | message sender conv sid ct gid keys ts seq h =>
    repeat obtain ⟨_, -, h⟩ := bind_eq_ok.mp h
    exact ⟨.message, _, by decide, (Except.ok.inj h).symm⟩
  | rotation address oldKid newKid ts h =>
    repeat obtain ⟨_, -, h⟩ := bind_eq_ok.mp h
    exact ⟨.keyRotation, _, by decide, (Except.ok.inj h).symm⟩
  | attestation address key h =>
    repeat obtain ⟨_, -, h⟩ := bind_eq_ok.mp h
    exact ⟨.keyAttestation, _, by decide, (Except.ok.inj h).symm⟩

/-- The encoder's replacement of a lone surrogate. -/
def repaired : Script.Point → Script.Point
  | .surrogate _ => .char '\uFFFD'
  | p => p

theorem encode_repaired (s : Text) : Text.encode (s.map repaired) = s.encode := by
  induction s with
  | nil => rfl
  | cons p s ih =>
    rw [List.map_cons, Text.encode, Text.encode, List.flatMap_cons, List.flatMap_cons]
    refine congrArg₂ _ ?_ ih
    cases p with
    | char c => rfl
    | surrogate n =>
      simp only [repaired, Script.Point.bytes]
      decide

/-- Bytes that begin with plain letters are those of texts that begin with them. -/
theorem prefix_of_encode {pre t s : Text} (hpre : ∀ p ∈ pre, ∃ c : Char, p = .char c ∧ c ≠ '\uFFFD')
    (h : s.encode = Text.encode (pre ++ t)) : ∃ t', s = pre ++ t' := by
  have hwell (s : Text) : Text.isWellFormed (s.map repaired) = true := by
    refine List.all_eq_true.mpr fun p hp => ?_
    obtain ⟨q, -, rfl⟩ := List.mem_map.mp hp
    cases q <;> rfl
  have hmap : s.map repaired = (pre ++ t).map repaired := by
    refine encode_inj (hwell s) (hwell _) ?_
    rw [encode_repaired, encode_repaired, h]
  clear h
  induction pre generalizing s with
  | nil => exact ⟨s, rfl⟩
  | cons p pre ih =>
    obtain ⟨⟨c, rfl, hc⟩, hrest⟩ := List.forall_mem_cons.mp hpre
    cases s with
    | nil => cases hmap
    | cons q s =>
      rw [List.cons_append, List.map_cons, List.map_cons, List.cons.injEq] at hmap
      obtain ⟨t', rfl⟩ := ih hrest hmap.2
      refine ⟨t', ?_⟩
      cases q with
      | char c' =>
        have hsame : Script.Point.char c' = .char c := hmap.1
        rw [hsame]
        rfl
      | surrogate n =>
        have hrepaired : Script.Point.char '\uFFFD' = .char c := hmap.1
        cases hrepaired
        exact absurd rfl hc

/-- The lines above a body. -/
def header (context : SigningContext) : Text := contextPrefix ++ context.text ++ [.char '\n']

theorem domainSeparate_eq (context : SigningContext) (body : Text) :
    domainSeparate context.text body = header context ++ body := by
  have hbody : Client.lines [body] = body := by simp [Client.lines]
  simp only [domainSeparate, Client.lines_cons _ (List.cons_ne_nil _ _), hbody]
  cases context <;> rfl

theorem plain_header (context : SigningContext) :
    ∀ p ∈ header context, ∃ c : Char, p = .char c ∧ c ≠ '\uFFFD' := by
  have hplain : (header context).all (Script.Point.satisfies (· != '\uFFFD')) = true := by
    cases context <;> decide
  intro p hp
  have hp := List.all_eq_true.mp hplain p hp
  cases p with
  | surrogate n => cases hp
  | char c => exact ⟨c, rfl, by simpa [Script.Point.satisfies] using hp⟩

theorem contextOf_header (context : SigningContext) (t : Text) :
    contextOf (some (.str (header context ++ t))) = some context.text := by
  have hdrop : (header context ++ t).drop contextPrefix.length = context.text ++ (.char '\n' :: t) := by
    cases context <;> rfl
  have hprefix : contextPrefix.isPrefixOf (header context ++ t) = true := by
    cases context <;> rfl
  have hline : (context.text ++ (.char '\n' :: t)).takeWhile (· != .char '\n') = context.text := by
    cases context <;> rfl
  rw [contextOf, if_pos hprefix, hdrop, hline]

/-- Of a string that a page hands to the generic request, what is signed are not the bytes of a reserved body. -/
theorem generic_signature_not_reserved {c : Background} (hc : c.Fresh) {as : List (Action Call)}
    {s : State Background ExtensionTask} (h : Run (ofPartial (extension prim).step) (.start c) as s)
    {i : ℕ} {seed text message : Text} (hr : (i, .signature seed text) ∈ s.shared.responses) {sender : Sender}
    {inputs : Inputs} (hcall : (calls as)[i]? = some (.message sender (.sign (some (.str message))) inputs))
    (hexternal : sender.isInternal = false) :
    text = message ∧ ∀ body, Reserved prim.sha384Hex body → text.encode ≠ body.encode := by
  obtain ⟨call, hcall', hgrants⟩ := run_granted hc h _ hr
  obtain rfl := Option.some.inj (hcall.symm.trans hcall')
  obtain ⟨origin, horigin, ⟨htext, hcontext⟩, -⟩ := hgrants hexternal rfl
  obtain rfl : message = text := Option.some.inj htext
  refine ⟨rfl, fun body hbody hsame => ?_⟩
  obtain ⟨context, rest, hne, rfl⟩ := hbody.separated
  rw [domainSeparate_eq] at hsame
  obtain ⟨t, rfl⟩ := prefix_of_encode (plain_header context) hsame
  rw [contextOf_header] at hcontext
  rcases hcontext with hnone | hcontent
  · cases hnone
  · exact hne (Client.SigningContext.text_inj (Option.some.inj hcontent))

/-! ## A sample -/

theorem approvedSignature_responds : ∃ s, Run (ofPartial (extension samplePrimitives).step) (.start sampleUnlocked)
    approvedSignature s ∧
      (0, .signature (Client.sampleAccount "old" []).identity.seed (lit "hello")) ∈ s.shared.responses :=
  ⟨_, Run.ofPartial_foldlM _ _ _ _ rfl, .tail _ (.head _)⟩

/-- The signature of the text that the site asked for. -/
theorem pages_get_what_they_asked_sample : ∃ sender request inputs,
    (calls approvedSignature)[0]? = some (.message sender request inputs) ∧
      (sender.isInternal = true ∨ ∃ origin, sender.origin = some origin ∧
        request.Grants samplePrimitives (calls approvedSignature) 0 origin
          (.signature (Client.sampleAccount "old" []).identity.seed (lit "hello"))) := by
  obtain ⟨s, hrun, hr⟩ := approvedSignature_responds
  exact pages_get_what_they_asked sampleUnlocked_fresh hrun hr rfl

theorem generic_signature_not_reserved_sample : lit "hello" = lit "hello" ∧
    ∀ body, Reserved samplePrimitives.sha384Hex body → (lit "hello").encode ≠ body.encode := by
  obtain ⟨s, hrun, hr⟩ := approvedSignature_responds
  exact generic_signature_not_reserved sampleUnlocked_fresh hrun hr rfl rfl

end Kryptolog.Extension
