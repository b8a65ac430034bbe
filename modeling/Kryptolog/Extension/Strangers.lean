import Kryptolog.Extension.Worker
import Kryptolog.Library.Lockstep

/-! # What a page without a grant learns

Two workers that agree on the lock, on the windows and on what waits for approval, and in neither of which
an origin holds a grant. Whatever the pages of this origin send, and whatever windows and timers do, every
message gets the same response from both: nothing in it comes from the vault. A request to encrypt that
names no key is left out, since what it returns is sealed to the key of the active account.
-/

namespace Kryptolog.Extension
set_option autoImplicit false

open Script Tasks Runs Fallible
open Client (Account loginChallengeBody)

variable {prim : ExtensionPrimitives} {origin : Text}

/-! ## What two workers agree on -/

/-- Both have no active account, or both have one, with a key that a login can name. -/
def AlikeActive (x y : Option Account) : Prop :=
  (x = none ∧ y = none) ∨ ∃ a b, x = some a ∧ y = some b ∧
    Client.isHex a.encryption.publicKey = true ∧ Client.isHex b.encryption.publicKey = true

/-- Both vaults are closed, or both are open and without a grant for the origin. -/
def Veiled (origin : Text) (x y : Option ExtensionVault) : Prop :=
  (x = none ∧ y = none) ∨ ∃ v w, x = some v ∧ y = some w ∧ v.permissions.contains origin = false ∧
    w.permissions.contains origin = false ∧ AlikeActive v.activeAccount w.activeAccount

/-- The message of a pending request, and where it is from. -/
def Pending.place (p : Pending) : ℕ × Text := (p.owner, p.origin)

structure Alike (origin : Text) (c d : Background) : Prop where
  isLocked : c.isLocked = d.isLocked
  initialization : c.initialization = d.initialization
  popupWindowId : c.popupWindowId = d.popupWindowId
  approvalWindowId : c.approvalWindowId = d.approvalWindowId
  pending : c.pendingRequests.map Pending.place = d.pendingRequests.map Pending.place
  responses : c.responses = d.responses
  vault : Veiled origin c.vault d.vault
  /-- The origin has made no rotation that it may undo. -/
  rotation : ∀ r, c.pendingRotation = some r ∨ d.pendingRotation = some r → r.origin ≠ origin

/-- The envelope is sealed to the key of the active account. -/
def Request.usesOwnKey : Request → Bool
  | encrypt _ publicKey => (publicKey.filter Value.truthy).isNone
  | _ => false

/-- The messages of the origin's pages, and what the browser reports. -/
inductive Outside (origin : Text) : Call → Prop
  | message (request : Request) (inputs : Inputs) (h : request.usesOwnKey = false) :
      Outside origin (.message ⟨false, some origin⟩ request inputs)
  | idleAlarm (expired : Bool) : Outside origin (.idleAlarm expired)
  | windowRemoved (windowId : ℕ) : Outside origin (.windowRemoved windowId)
  | timeout (owner : ℕ) : Outside origin (.timeout owner)

/-- Where such a call may wait. -/
inductive Unprivileged (origin : Text) : Point → Prop
  | arrived (request : Request) (inputs : Inputs) (h : request.usesOwnKey = false) :
      Unprivileged origin (.arrived ⟨false, some origin⟩ request inputs)
  | focusingPopup (window : Option ℕ) (focuses : Bool) : Unprivileged origin (.focusingPopup window focuses)
  | creatingPopup (window : Option ℕ) : Unprivileged origin (.creatingPopup window)
  | focusing (window : Option ℕ) (focuses : Bool) : Unprivileged origin (.focusing window focuses)
  | creating (window : Option ℕ) : Unprivileged origin (.creating window)
  | answering (r : Response) : Unprivileged origin (.answering r)
  | checkingIdle (expired : Bool) : Unprivileged origin (.checkingIdle expired)
  | done : Unprivileged origin .done

/-- Two turns that lead to the same place. -/
structure Same (origin : Text) (out out' : Background × Point) : Prop where
  alike : Alike origin out.1 out'.1
  point : out.2 = out'.2
  unprivileged : Unprivileged origin out.2

/-! ## The steps that the handlers share -/

section steps

variable {c d : Background} {owner : ℕ} {inputs : Inputs}

theorem Alike.answer (h : Alike origin c d) (owner : ℕ) (r : Response) :
    Same origin (answer c owner r) (answer d owner r) where
  alike := { h with responses := congrArg (· ++ [(owner, r)]) h.responses }
  point := rfl
  unprivileged := .done

theorem Alike.throw (h : Alike origin c d) (owner : ℕ) (error : String) :
    Same origin (throw c owner error) (throw d owner error) :=
  h.answer owner _

theorem Alike.waits (h : Alike origin c d) {p : Point} (hp : Unprivileged origin p) : Same origin (c, p) (d, p) :=
  ⟨h, rfl, hp⟩

theorem Alike.length (h : Alike origin c d) : c.pendingRequests.length = d.pendingRequests.length := by
  have := congrArg List.length h.pending
  simpa using this

theorem pendingForOrigin_eq (c : Background) (o : Text) :
    c.pendingForOrigin o = ((c.pendingRequests.map Pending.place).filter (·.2 == o)).length := by
  simp [Background.pendingForOrigin, List.filter_map, Pending.place, Function.comp_def]

theorem Alike.openApprovalWindow (h : Alike origin c d) (inputs : Inputs) :
    Same origin (openApprovalWindow c inputs) (openApprovalWindow d inputs) := by
  have hwindow := h.approvalWindowId
  unfold Extension.openApprovalWindow
  cases hd : d.approvalWindowId with
  | none =>
    rw [hwindow.trans hd]
    exact h.waits (.creating _)
  | some window =>
    rw [hwindow.trans hd]
    exact h.waits (.focusing _ _)

theorem Alike.requestApproval (h : Alike origin c d) (owner : ℕ) (o : Text) (inputs : Inputs) :
    Same origin (requestApproval c owner o .connect inputs) (requestApproval d owner o .connect inputs) := by
  have hcount : c.pendingForOrigin o = d.pendingForOrigin o := by
    rw [pendingForOrigin_eq, pendingForOrigin_eq, h.pending]
  unfold Extension.requestApproval
  rw [h.length, hcount]
  split
  · exact h.throw _ _
  · split
    · exact h.answer _ _
    · have hadded : Alike origin
          { c with pendingRequests := c.pendingRequests ++ [⟨owner, o, .connect⟩] }
          { d with pendingRequests := d.pendingRequests ++ [⟨owner, o, .connect⟩] } :=
        { h with pending := by simp [h.pending] }
      exact hadded.openApprovalWindow inputs

/-- What the active account is needed for fails in both workers, or in neither. -/
theorem Alike.requireActiveAccount (h : Alike origin c d) :
    (∃ e, requireActiveAccount c = .error e ∧ requireActiveAccount d = .error e) ∨
      ∃ a b, requireActiveAccount c = .ok a ∧ requireActiveAccount d = .ok b ∧
        Client.isHex a.encryption.publicKey = true ∧ Client.isHex b.encryption.publicKey = true := by
  unfold Extension.requireActiveAccount
  obtain ⟨hc, hd⟩ | ⟨v, w, hc, hd, -, -, hactive⟩ := h.vault
  · simp [hc, hd]
  · obtain ⟨ha, hb⟩ | ⟨a, b, ha, hb, hhex⟩ := hactive
    · simp [hc, hd, ha, hb]
    · simp [hc, hd, ha, hb, hhex]

/-- The sender has no grant in either worker. -/
theorem Alike.requireConnectedAccount (h : Alike origin c d) : ∃ e,
    requireConnectedAccount c ⟨false, some origin⟩ = .error e ∧
      requireConnectedAccount d ⟨false, some origin⟩ = .error e := by
  unfold Extension.requireConnectedAccount
  obtain ⟨hc, hd⟩ | ⟨v, w, hc, hd, hv, hw, -⟩ := h.vault
  · exact ⟨typeError, by simp [hc], by simp [hd]⟩
  · refine ⟨"Site not connected", ?_, ?_⟩
    · simp only [hc, hv]
      rfl
    · simp only [hd, hw]
      rfl

theorem Alike.requireShownAccount (h : Alike origin c d) (error : String) : ∃ e,
    requireShownAccount c ⟨false, some origin⟩ error = .error e ∧
      requireShownAccount d ⟨false, some origin⟩ error = .error e := by
  unfold Extension.requireShownAccount
  obtain ⟨hc, hd⟩ | ⟨v, w, hc, hd, hv, hw, -⟩ := h.vault
  · exact ⟨typeError, by simp [hc], by simp [hd]⟩
  · refine ⟨error, ?_, ?_⟩
    · simp only [hc, Option.any_some, hv]
      rfl
    · simp only [hd, Option.any_some, hw]
      rfl

theorem Alike.requestSignature (h : Alike origin c d) (owner : ℕ) (kind : SignKind) (body body' : Option Value)
    (inputs : Inputs) : Same origin (requestSignature c owner ⟨false, some origin⟩ kind body inputs)
      (requestSignature d owner ⟨false, some origin⟩ kind body' inputs) := by
  obtain ⟨e, hc, hd⟩ := h.requireConnectedAccount
  unfold Extension.requestSignature
  rw [hc, hd]
  exact h.throw _ _

/-- The error of a builder comes before the grant is looked at. -/
theorem Alike.requestBuilt (h : Alike origin c d) (owner : ℕ) (kind : SignKind) {body body' : Except String Text}
    (hbody : ∀ e, body = .error e ↔ body' = .error e) (inputs : Inputs) :
    Same origin (requestBuilt c owner ⟨false, some origin⟩ kind body inputs)
      (requestBuilt d owner ⟨false, some origin⟩ kind body' inputs) := by
  cases body with
  | error e =>
    rw [(hbody e).mp rfl]
    exact h.throw _ _
  | ok text =>
    cases body' with
    | error e =>
      cases (hbody e).mpr rfl
    | ok text' => exact h.requestSignature _ _ _ _ _

theorem Alike.handleOpen (h : Alike origin c d) (owner : ℕ) (approval : Approval) (inputs : Inputs) :
    Same origin (handleOpen c owner ⟨false, some origin⟩ approval inputs)
      (handleOpen d owner ⟨false, some origin⟩ approval inputs) := by
  unfold Extension.handleOpen
  rw [h.isLocked]
  split
  · exact h.throw _ _
  · obtain ⟨hc, hd⟩ | ⟨v, w, hc, hd, hv, hw, -⟩ := h.vault
    · simp only [hc, hd]
      exact h.throw _ _
    · simp only [hc, hd, hv, hw]
      exact h.throw _ _

/-- A login is refused for a key of either account, or for neither. -/
theorem loginChallengeBody_error {nonce origin deployment : Value} {key key' : Text}
    (hkey : Client.isHex key = true) (hkey' : Client.isHex key' = true) (e : String) :
    loginChallengeBody nonce origin deployment (.str key) = .error e ↔
      loginChallengeBody nonce origin deployment (.str key') = .error e := by
  unfold loginChallengeBody
  simp [Client.interpolate, Value.toText, hkey, hkey', Client.need, bind_eq_error, refuseIf]

end steps

/-! ## The messages of the origin -/

section messages

variable {c d : Background} {owner : ℕ} {inputs : Inputs}

theorem Alike.handleConnect (h : Alike origin c d) (owner : ℕ) (inputs : Inputs) :
    Same origin (handleConnect c owner ⟨false, some origin⟩ inputs)
      (handleConnect d owner ⟨false, some origin⟩ inputs) := by
  unfold Extension.handleConnect
  simp only [h.isLocked, h.popupWindowId]
  split
  · split
    · exact h.waits (.focusingPopup _ _)
    · exact h.waits (.creatingPopup _)
  · obtain ⟨hc, hd⟩ | ⟨v, w, hc, hd, hv, hw, -⟩ := h.vault
    · simp only [hc, hd]
      exact h.throw _ _
    · simp only [hc, hd, hv, hw]
      exact h.requestApproval _ _ _

theorem Alike.handleCheckConnection (h : Alike origin c d) (owner : ℕ) :
    Same origin (handleCheckConnection c owner ⟨false, some origin⟩)
      (handleCheckConnection d owner ⟨false, some origin⟩) := by
  unfold Extension.handleCheckConnection
  rw [h.isLocked]
  split
  · exact h.answer _ _
  · obtain ⟨hc, hd⟩ | ⟨v, w, hc, hd, hv, hw, -⟩ := h.vault
    · simp only [hc, hd]
      exact h.throw _ _
    · simp only [hc, hd, Option.any_some, hv, hw]
      exact h.answer _ _

theorem Alike.handleSign (h : Alike origin c d) (owner : ℕ) (message : Option Value) (inputs : Inputs) :
    Same origin (handleSign c owner ⟨false, some origin⟩ message inputs)
      (handleSign d owner ⟨false, some origin⟩ message inputs) := by
  unfold Extension.handleSign
  simp only [h.isLocked, Bool.false_eq_true, if_false]
  split
  · exact h.throw _ _
  · split
    · exact h.requestSignature _ _ _ _ _
    · split
      · exact h.requestSignature _ _ _ _ _
      · exact h.answer _ _

theorem Alike.handleSignLogin (h : Alike origin c d) (owner : ℕ) (nonce deployment : Value) (inputs : Inputs) :
    Same origin (handleSignLogin c owner ⟨false, some origin⟩ nonce deployment inputs)
      (handleSignLogin d owner ⟨false, some origin⟩ nonce deployment inputs) := by
  unfold Extension.handleSignLogin
  rw [h.isLocked]
  split
  · exact h.throw _ _
  · obtain ⟨e, hc, hd⟩ | ⟨a, b, hc, hd, ha, hb⟩ := h.requireActiveAccount
    · rw [hc, hd]
      exact h.throw _ _
    · rw [hc, hd]
      exact h.requestBuilt _ _ (loginChallengeBody_error ha hb) _

theorem Alike.handleSignAccountDeletion (h : Alike origin c d) (owner : ℕ)
    (nonce mode redactionKeys deployment : Value) (inputs : Inputs) :
    Same origin
      (handleSignAccountDeletion prim c owner ⟨false, some origin⟩ nonce mode redactionKeys deployment inputs)
      (handleSignAccountDeletion prim d owner ⟨false, some origin⟩ nonce mode redactionKeys deployment inputs) := by
  unfold Extension.handleSignAccountDeletion
  rw [h.isLocked]
  split
  · exact h.throw _ _
  · split
    · exact h.throw _ _
    · split
      · exact h.throw _ _
      · obtain ⟨e, hc, hd⟩ | ⟨a, b, hc, hd, -, -⟩ := h.requireActiveAccount
        · rw [hc, hd]
          exact h.throw _ _
        · rw [hc, hd]
          exact h.requestSignature _ _ _ _ _

theorem Alike.handleSignConversationErase (h : Alike origin c d) (owner : ℕ)
    (nonce kind conversation redactionKeys deployment : Value) (inputs : Inputs) :
    Same origin
      (handleSignConversationErase prim c owner ⟨false, some origin⟩ nonce kind conversation redactionKeys
        deployment inputs)
      (handleSignConversationErase prim d owner ⟨false, some origin⟩ nonce kind conversation redactionKeys
        deployment inputs) := by
  unfold Extension.handleSignConversationErase
  rw [h.isLocked]
  split
  · exact h.throw _ _
  · split
    · exact h.throw _ _
    · exact h.requestBuilt _ _ (fun _ => Iff.rfl) _

theorem Alike.handleSignMultisigApproval (h : Alike origin c d) (owner : ℕ)
    (workflowId secretId ciphertextSha384 : Value) (inputs : Inputs) :
    Same origin
      (handleSignMultisigApproval c owner ⟨false, some origin⟩ workflowId secretId ciphertextSha384 inputs)
      (handleSignMultisigApproval d owner ⟨false, some origin⟩ workflowId secretId ciphertextSha384 inputs) := by
  unfold Extension.handleSignMultisigApproval
  rw [h.isLocked]
  split
  · exact h.throw _ _
  · split
    · exact h.throw _ _
    · exact h.requestBuilt _ _ (fun _ => Iff.rfl) _

theorem Alike.handleSignMessage (h : Alike origin c d) (owner : ℕ) (message : Option Value) (inputs : Inputs) :
    Same origin (handleSignMessage prim c owner ⟨false, some origin⟩ message inputs)
      (handleSignMessage prim d owner ⟨false, some origin⟩ message inputs) := by
  unfold Extension.handleSignMessage
  rw [h.isLocked]
  split
  · exact h.throw _ _
  · split
    · split
      · exact h.throw _ _
      · obtain ⟨hc, hd⟩ | ⟨v, w, hc, hd, hv, hw, -⟩ := h.vault
        · simp only [hc, hd]
          exact h.throw _ _
        · simp only [hc, hd, Option.any_some, hv, hw]
          exact h.throw _ _
    · exact h.throw _ _

theorem Alike.handleGetActiveAccount (h : Alike origin c d) (owner : ℕ) :
    Same origin (handleGetActiveAccount c owner ⟨false, some origin⟩)
      (handleGetActiveAccount d owner ⟨false, some origin⟩) := by
  obtain ⟨e, hc, hd⟩ := h.requireShownAccount "Not Connected"
  unfold Extension.handleGetActiveAccount
  rw [h.isLocked, hc, hd]
  split
  · exact h.throw _ _
  · split
    · exact h.throw _ _
    · exact h.throw _ _

theorem Alike.handleGetKeyAttestation (h : Alike origin c d) (owner : ℕ) :
    Same origin (handleGetKeyAttestation c owner ⟨false, some origin⟩)
      (handleGetKeyAttestation d owner ⟨false, some origin⟩) := by
  obtain ⟨e, hc, hd⟩ := h.requireShownAccount "Site not connected"
  unfold Extension.handleGetKeyAttestation
  rw [h.isLocked, hc, hd]
  split
  · exact h.throw _ _
  · split
    · exact h.throw _ _
    · exact h.throw _ _

theorem Alike.encryptTo (h : Alike origin c d) (owner : ℕ) (publicKey : Value) (plaintext : Option Value)
    (inputs : Inputs) : Same origin (encryptTo prim c owner publicKey plaintext inputs)
      (encryptTo prim d owner publicKey plaintext inputs) := by
  unfold Extension.encryptTo
  split
  · exact h.throw _ _
  · exact h.waits (.answering _)

theorem Alike.handleEncrypt (h : Alike origin c d) (owner : ℕ) {message publicKey : Option Value}
    (hkey : (Request.encrypt message publicKey).usesOwnKey = false) (inputs : Inputs) :
    Same origin (handleEncrypt prim c owner message publicKey inputs)
      (handleEncrypt prim d owner message publicKey inputs) := by
  unfold Extension.handleEncrypt
  split
  · exact h.encryptTo _ _ _ _
  · next hnone =>
    rw [Request.usesOwnKey, hnone] at hkey
    cases hkey

theorem Alike.handleWrapSessionKey (h : Alike origin c d) (owner : ℕ) (sessionKey publicKey : Value)
    (inputs : Inputs) : Same origin (handleWrapSessionKey prim c owner sessionKey publicKey inputs)
      (handleWrapSessionKey prim d owner sessionKey publicKey inputs) := by
  unfold Extension.handleWrapSessionKey
  split
  · exact h.throw _ _
  · split
    · exact h.throw _ _
    · exact h.encryptTo _ _ _ _

theorem Alike.handleRotateEncryptionKey (h : Alike origin c d) (owner : ℕ) (ts : Value) (inputs : Inputs) :
    Same origin (handleRotateEncryptionKey c owner ⟨false, some origin⟩ ts inputs)
      (handleRotateEncryptionKey d owner ⟨false, some origin⟩ ts inputs) := by
  unfold Extension.handleRotateEncryptionKey
  rw [h.isLocked]
  split
  · exact h.throw _ _
  · obtain ⟨hc, hd⟩ | ⟨v, w, hc, hd, hv, hw, -⟩ := h.vault
    · simp only [hc, hd]
      exact h.throw _ _
    · simp only [hc, hd, hv, hw]
      exact h.throw _ _

theorem undoable_eq_false {newKid : Value} {now : Number}
    (h : ∀ r, c.pendingRotation = some r → r.origin ≠ origin) : undoable c origin newKid now = false := by
  unfold undoable
  cases hrotation : c.pendingRotation with
  | none => rfl
  | some r => simp [h r hrotation]

theorem Alike.handleRevert (h : Alike origin c d) (owner : ℕ) (newKid : Value) (inputs : Inputs) :
    Same origin (handleRevertEncryptionKeyRotation c owner ⟨false, some origin⟩ newKid inputs)
      (handleRevertEncryptionKeyRotation d owner ⟨false, some origin⟩ newKid inputs) := by
  have hc : undoable c origin newKid inputs.now = false := undoable_eq_false fun r hr => h.rotation r (.inl hr)
  have hd : undoable d origin newKid inputs.now = false := undoable_eq_false fun r hr => h.rotation r (.inr hr)
  unfold handleRevertEncryptionKeyRotation
  simp only [h.isLocked, hc, hd, Bool.false_eq_true, if_false]
  split
  · exact h.throw _ _
  · exact h.throw _ _

/-- One case for each request. -/
theorem Alike.dispatch (h : Alike origin c d) {caller caller' : Caller} (hnumber : caller.number = caller'.number)
    {request : Request} (hkey : request.usesOwnKey = false) (inputs : Inputs) :
    Same origin (dispatch prim c caller ⟨false, some origin⟩ request inputs)
      (dispatch prim d caller' ⟨false, some origin⟩ request inputs) := by
  unfold Extension.dispatch
  rw [hnumber]
  cases hinternal : request.isInternal with
  | true =>
    simp only [Bool.not_false, Bool.and_self, if_true]
    exact h.throw _ _
  | false =>
    simp only [Bool.false_and, Bool.false_eq_true, if_false]
    cases request with
    | checkConnection => exact h.handleCheckConnection _
    | handshake => exact h.answer _ _
    | connect => exact h.handleConnect _ _
    | getActiveAccount => exact h.handleGetActiveAccount _
    | sign message => exact h.handleSign _ _ _
    | signLogin nonce deployment => exact h.handleSignLogin _ _ _ _
    | signAccountDeletion nonce mode redactionKeys deployment => exact h.handleSignAccountDeletion _ _ _ _ _ _
    | signConversationErase nonce kind conversation redactionKeys deployment =>
      exact h.handleSignConversationErase _ _ _ _ _ _ _
    | signMultisigApproval workflowId secretId ct => exact h.handleSignMultisigApproval _ _ _ _ _
    | rotateEncryptionKey ts => exact h.handleRotateEncryptionKey _ _ _
    | revertEncryptionKeyRotation newKid => exact h.handleRevert _ _ _
    | signMessage message => exact h.handleSignMessage _ _ _
    | getKeyAttestation => exact h.handleGetKeyAttestation _
    | encrypt message publicKey => exact h.handleEncrypt _ hkey _
    | decrypt data => exact h.handleOpen _ _ _
    | generateSessionKey => exact h.waits (.answering _)
    | wrapSessionKey sessionKey publicKey => exact h.handleWrapSessionKey _ _ _ _
    | unwrapSessionKey wrappedKey => exact h.handleOpen _ _ _
    | decryptMany items => exact h.handleOpen _ _ _
    | unwrapManySessionKeys wrappedKeys => exact h.handleOpen _ _ _
    | unknown type => exact h.answer _ _
    | _ => cases hinternal

end messages

/-! ## Windows, timers and turns -/

section turns

variable {c d : Background}

theorem Alike.lock (h : Alike origin c d) : Alike origin c.lock d.lock where
  isLocked := rfl
  initialization := h.initialization
  popupWindowId := h.popupWindowId
  approvalWindowId := h.approvalWindowId
  pending := h.pending
  responses := h.responses
  vault := .inl ⟨rfl, rfl⟩
  rotation r hr := by simp [Background.lock] at hr

theorem map_place_pending (c : Background) (owner : ℕ) :
    (c.pending owner).map Pending.place = (c.pendingRequests.map Pending.place).find? (·.1 == owner) := by
  rw [List.find?_map]
  rfl

theorem map_place_removePending (c : Background) (owner : ℕ) :
    (c.removePending owner).pendingRequests.map Pending.place =
      (c.pendingRequests.map Pending.place).filter (·.1 != owner) := by
  rw [List.filter_map]
  rfl

theorem Alike.reject (h : Alike origin c d) (owner : ℕ) (error : Text) :
    Alike origin (c.reject owner error) (d.reject owner error) := by
  have hfind : (c.pending owner).map Pending.place = (d.pending owner).map Pending.place := by
    rw [map_place_pending, map_place_pending, h.pending]
  unfold Background.reject
  cases hc : c.pending owner with
  | none =>
    rw [hc, Option.map_none, eq_comm, Option.map_eq_none_iff] at hfind
    rw [hfind]
    exact h
  | some p =>
    rw [hc, Option.map_some, eq_comm, Option.map_eq_some_iff] at hfind
    obtain ⟨q, hd, hplace⟩ := hfind
    have howner : q.owner = p.owner := (Prod.mk.inj hplace).1
    simp only [hd, howner]
    exact { h with
      pending := by
        have hc' := map_place_removePending c p.owner
        have hd' := map_place_removePending d p.owner
        rw [h.pending, ← hd'] at hc'
        exact hc'
      responses := by
        simp only [Background.fail, Background.respond, Background.removePending, h.responses] }

theorem map_failed (c : Background) (reason : Text) :
    (c.pendingRequests.map fun p => (p.owner, Response.failed reason)) =
      (c.pendingRequests.map Pending.place).map fun place => (place.1, .failed reason) := by
  rw [List.map_map]
  rfl

theorem Alike.rejectAllApprovals (h : Alike origin c d) (reason : Text) :
    Alike origin (c.rejectAllApprovals reason) (d.rejectAllApprovals reason) :=
  { h with
    pending := rfl
    responses := by
      simp only [Background.rejectAllApprovals]
      rw [map_failed, map_failed, h.pending, h.responses] }

theorem Alike.withPopup (h : Alike origin c d) {x y : Option ℕ} (hxy : x = y) :
    Alike origin { c with popupWindowId := x } { d with popupWindowId := y } :=
  { h with popupWindowId := hxy }

theorem Alike.withWindow (h : Alike origin c d) (x : Option ℕ) :
    Alike origin { c with approvalWindowId := x } { d with approvalWindowId := x } :=
  { h with approvalWindowId := rfl }

theorem Alike.closePopup (h : Alike origin c d) (windowId : ℕ) :
    Alike origin (if c.popupWindowId = some windowId then { c with popupWindowId := none } else c)
      (if d.popupWindowId = some windowId then { d with popupWindowId := none } else d) := by
  by_cases hd : d.popupWindowId = some windowId
  · rw [if_pos (h.popupWindowId.trans hd), if_pos hd]
    exact h.withPopup rfl
  · rw [if_neg fun hc => hd (h.popupWindowId.symm.trans hc), if_neg hd]
    exact h

theorem Alike.handleWindowClosed (h : Alike origin c d) (windowId : ℕ) :
    Alike origin (c.handleWindowClosed windowId) (d.handleWindowClosed windowId) := by
  have hclosed := h.closePopup windowId
  unfold Background.handleWindowClosed
  extract_lets c' d'
  by_cases hd : d'.approvalWindowId = some windowId
  · rw [if_pos (hclosed.approvalWindowId.trans hd), if_pos hd]
    exact (hclosed.withWindow none).rejectAllApprovals _
  · rw [if_neg fun hc => hd (hclosed.approvalWindowId.symm.trans hc), if_neg hd]
    exact hclosed

/-- A turn of the one worker, where an unprivileged call waits, is a turn of the other. -/
theorem Alike.resume (h : Alike origin c d) {caller caller' : Caller} (hnumber : caller.number = caller'.number)
    {p : Point} (hp : Unprivileged origin p) {out : Background × Point}
    (hout : Point.resume prim caller c p = some out) :
    ∃ out', Point.resume prim caller' d p = some out' ∧ Same origin out out' := by
  cases hp with
  | arrived request inputs hkey =>
    simp only [Point.resume] at hout ⊢
    rw [h.initialization] at hout
    cases hinit : d.initialization with
    | done =>
      rw [hinit] at hout
      cases hout
      exact ⟨_, rfl, h.dispatch hnumber hkey inputs⟩
    | failed =>
      rw [hinit] at hout
      cases hout
      exact ⟨_, rfl, hnumber ▸ h.throw _ _⟩
    | notStarted | running =>
      rw [hinit] at hout
      cases hout
  | focusingPopup window focuses =>
    simp only [Point.resume] at hout ⊢
    cases focuses with
    | true =>
      cases hout
      exact ⟨_, rfl, hnumber ▸ h.throw _ _⟩
    | false =>
      cases hout
      exact ⟨_, rfl, (h.withPopup rfl).waits (.creatingPopup _)⟩
  | creatingPopup window =>
    cases hout
    refine ⟨_, rfl, ?_⟩
    rw [← hnumber]
    exact (h.withPopup (congrArg window.or h.popupWindowId)).throw _ _
  | focusing window focuses =>
    simp only [Point.resume] at hout ⊢
    cases focuses with
    | true =>
      cases hout
      exact ⟨_, rfl, h.waits .done⟩
    | false =>
      cases hout
      exact ⟨_, rfl, (h.withWindow none).waits (.creating _)⟩
  | creating window =>
    cases window with
    | none =>
      cases hout
      refine ⟨_, rfl, ?_⟩
      rw [← hnumber]
      exact (h.reject _ _).waits .done
    | some windowId =>
      cases hout
      exact ⟨_, rfl, (h.withWindow (some windowId)).waits .done⟩
  | answering r =>
    cases hout
    exact ⟨_, rfl, hnumber ▸ h.answer _ _⟩
  | checkingIdle expired =>
    cases expired with
    | true =>
      cases hout
      exact ⟨_, rfl, h.lock.waits .done⟩
    | false =>
      cases hout
      exact ⟨_, rfl, h.waits .done⟩
  | done => cases hout

theorem Alike.begin (h : Alike origin c d) {call : Call} (hcall : Outside origin call) :
    Same origin (Call.begin c call) (Call.begin d call) := by
  cases hcall with
  | message request inputs hkey => exact h.waits (.arrived _ _ hkey)
  | idleAlarm expired =>
    simp only [Call.begin, h.isLocked]
    split
    · exact h.waits .done
    · exact h.waits (.checkingIdle _)
  | windowRemoved windowId => exact (h.handleWindowClosed _).waits .done
  | timeout owner => exact (h.reject _ _).waits .done

theorem Alike.restart (h : Alike origin c d) : Alike origin c.restart d.restart where
  isLocked := rfl
  initialization := rfl
  popupWindowId := rfl
  approvalWindowId := rfl
  pending := rfl
  responses := h.responses
  vault := .inl ⟨rfl, rfl⟩
  rotation r hr := by simp [Background.restart] at hr

end turns

/-! ## Runs -/

/-- Two calls that wait at the same place. -/
structure SameCall (origin : Text) (t u : ExtensionTask) : Prop where
  point : t.point = u.point
  number : t.caller.number = u.caller.number
  unprivileged : Unprivileged origin t.point

theorem extension_lockstep (prim : ExtensionPrimitives) (origin : Text) :
    Lockstep (extension prim) (Alike origin) (SameCall origin) (Outside origin) where
  call n call c d hcall h := by
    have hsame := h.begin hcall
    exact ⟨hsame.alike, hsame.point, rfl, hsame.unprivileged⟩
  resume c d t u c' t' h hcall hout := by
    obtain ⟨out, hout, heq⟩ := Option.map_eq_some_iff.mp hout
    obtain ⟨out', hout', hsame⟩ := h.resume hcall.number hcall.unprivileged hout
    cases heq
    refine ⟨out'.1, { u with point := out'.2 }, ?_, hsame.alike, hsame.point, hcall.number, hsame.unprivileged⟩
    refine Option.map_eq_some_iff.mpr ⟨out', ?_, rfl⟩
    rw [← hcall.point]
    exact hout'
  restart c d h := h.restart

/-- The unlocked worker, with this encryption key. -/
def workerWithKey (key : Text) : Background :=
  { sampleUnlocked with
    vault := some { sampleVault with
      accounts := [{ Client.sampleAccount "old" [] with encryption := ⟨key, key, key, Client.Number.zero⟩ }] } }

def strangeOrigin : Text := lit "https://other.example"

theorem not_connected_strangeOrigin : sampleVault.permissions.contains strangeOrigin = false := by decide

theorem alike_workerWithKey {key key' : Text} (h : Client.isHex key = true) (h' : Client.isHex key' = true) :
    Alike strangeOrigin (workerWithKey key) (workerWithKey key') where
  isLocked := rfl
  initialization := rfl
  popupWindowId := rfl
  approvalWindowId := rfl
  pending := rfl
  responses := rfl
  vault := .inr ⟨_, _, rfl, rfl, not_connected_strangeOrigin, not_connected_strangeOrigin,
    .inr ⟨_, _, rfl, rfl, h, h'⟩⟩
  rotation r hr := by simp [workerWithKey, sampleUnlocked, sampleLocked] at hr

end Kryptolog.Extension
