import Mathlib.Data.List.Sort
import Mathlib.Logic.Function.Basic
import Kryptolog.Library.Runs
import Kryptolog.Client.MessageSessions
import Kryptolog.Client.TrustedKeys

/-! # Sending messages

`sendMessage` and `sendGroupMessage` of `MessengerContext.jsx`, with the state that they share with the pipelines
of `useMessageSessions.js`: the cache of session keys, the active session of each conversation, and the position
that each session has reached.

A state setter queues an update. A commit applies the queue in its order, and a ref of the hook has the state of
the last commit. A send works with the state of the commit before it began. The composer takes no message while
one is being sent.
-/

namespace Kryptolog.Client
set_option autoImplicit false

open Script
open Server (Kind)
open Runs

/-! ## What a commit renders -/

structure Rendered where
  sessionKeys : SessionKeys
  activeSessionIds : Text → Option Text

inductive KeyUpdate
  /-- `setSessionKeys(prev => ({ ...prev, [id]: key }))`. -/
  | addKey (id key : Text)
  /-- `setSessionKeys(newKeys)`. -/
  | setKeys (keys : SessionKeys)
  | activate (conv sid : Text)
  /-- `abandonSession` and `invalidateGroupSession`. -/
  | deactivate (conv : Text)

def KeyUpdate.apply (r : Rendered) : KeyUpdate → Rendered
  | addKey id key => { r with sessionKeys := Function.update r.sessionKeys id (some key) }
  | setKeys keys => { r with sessionKeys := keys }
  | activate conv sid => { r with activeSessionIds := Function.update r.activeSessionIds conv (some sid) }
  | deactivate conv => { r with activeSessionIds := Function.update r.activeSessionIds conv none }

/-! ## Sessions of the sender -/

/-- `SESSION_MAX_MESSAGES`. -/
def sessionMaxMessages : ℕ := 100

/-- `SESSION_MAX_AGE_MS`. -/
def sessionMaxAge : ℕ := 24 * 60 * 60 * 1000

/-- An entry of `sendStateRef`. -/
structure SendState where
  next : ℕ
  startedAt : ℕ

/-- `sessionUsable`, of an entry that is there. -/
def SendState.isUsable (st : SendState) (now : ℕ) : Bool :=
  st.next < sessionMaxMessages && now < st.startedAt + sessionMaxAge

/-- `sessionKeyId`, of a session that has a text. -/
def keyIdOf (conv sid : Text) : Text := conv ++ .char ':' :: sid

/-- What the send path works with. -/
structure Sender extends Reader where
  gate : TrustGate
  /-- `wrapSessionKey`, on a session key and an encryption key. -/
  wrapSessionKey : Text → Text → Value

/-- Whom a message is sent to. -/
inductive Target
  | partner (user : Contact)
  | channel (id : Text) (members : List Contact)

/-- `gateGroupMembers`: the members that a key is wrapped for. -/
def gateGroupMembers (gate : TrustGate) (now : Number) : TrustStores → List Contact → TrustStores × List Contact
  | s, [] => (s, [])
  | s, m :: ms =>
    let (s, safe) := gate.gateMember now s m
    let (s, rest) := gateGroupMembers gate now s ms
    (s, if safe then m :: rest else rest)

namespace Target

def mode : Target → Kind
  | partner _ => .dm
  | channel _ _ => .group

/-- The name of the conversation. -/
def conv : Target → Text
  | partner user => toLowerCase user.address
  | channel id _ => lit "group_" ++ id

/-- The gate of a send, and whom it lets a key be wrapped for, where it does not throw. -/
def gate (gate : TrustGate) (now : Number) (s : TrustStores) : Target → TrustStores × Option (List Contact)
  | partner user =>
    let (s, passed) := gate.sendGate now s user
    (s, if passed then some [user] else none)
  | channel _ members =>
    let (s, safe) := gateGroupMembers gate now s members
    (s, some safe)

/-- `wrappedFor` and `safeSet`: which keys a session is wrapped to. -/
def wrappedFor (ownKey : Text) (recipients : List Contact) : Target → Text
  | partner user => user.encryptionPublicKey ++ .char '|' :: ownKey
  | channel _ _ => [.char ','].intercalate ((recipients.map fun m =>
      m.address ++ .char ':' :: m.encryptionPublicKey).insertionSort fun a b => Text.le a b)

/-- Each address with the key that a session key is wrapped to for it. -/
def wraps (me ownKey : Text) (recipients : List Contact) : Target → List (Text × Text)
  | partner user =>
    (toLowerCase user.address, user.encryptionPublicKey) :: if ownKey.isEmpty then [] else [(me, ownKey)]
  | channel _ _ => recipients.map fun m => (m.address, m.encryptionPublicKey)

/-- `keyPayload`. -/
def keyPayload (env : Sender) (ownKey : Text) (recipients : List Contact) (key : Text) : Target → Value
  | partner user => .obj [(lit "recip", env.wrapSessionKey key user.encryptionPublicKey),
      (lit "sender", if ownKey.isEmpty then .null else env.wrapSessionKey key ownKey)]
  | channel _ _ => .obj (recipients.map fun m => (m.address, env.wrapSessionKey key m.encryptionPublicKey))

/-- `gid`, which a group message has. -/
def gid : Target → List (Text × Value)
  | partner _ => []
  | channel id _ => [(lit "gid", .str id)]

end Target

/-! ## A send in progress -/

/-- A message that has its session and its position. -/
structure Numbered where
  sid : Text
  key : Text
  /-- `keyPayload`, of the message that starts a session. -/
  keys : Option Value
  seq : ℕ
  ts : ℕ

/-- `payload`, as the message is posted. -/
def Numbered.payload (n : Numbered) (target : Target) (ct sig : Text) : Value :=
  .obj ([(lit "v", .num (.ofNat (version target.mode))), (lit "sid", .str n.sid)] ++ target.gid ++
    [(lit "ts", .num (.ofNat n.ts)), (lit "seq", .num (.ofNat n.seq)), (lit "keys", n.keys.getD .null),
      (lit "ct", .str ct), (lit "sig", .str sig)])

/-- What a send waits for. -/
inductive SendPoint
  | gating
  /-- For a new session key and its wraps, to those who passed the gate with these stores. -/
  | minting (gated : TrustStores) (recipients : List Contact)
  /-- For the ciphertext and the signature. -/
  | sealing (n : Numbered)
  /-- For the server. -/
  | posting (n : Numbered) (ct sig : Text)
  /-- For the answer of the server, which has accepted the message. -/
  | answering (n : Numbered)

structure Sending where
  target : Target
  /-- `myKey`, or the empty text. -/
  ownKey : Text
  /-- What the send sees of the state. -/
  snapshot : Rendered
  point : SendPoint

/-- A message on the server. -/
structure Posted where
  id : ℕ
  createdAt : ℤ
  target : Target
  n : Numbered
  ct : Text
  sig : Text

def Posted.keyId (m : Posted) : Text := keyIdOf m.target.conv m.n.sid

/-- What the content of the message parses to. -/
def Posted.payload (m : Posted) : Value := m.n.payload m.target m.ct m.sig

/-- A session that the client has started. -/
structure StartedSession where
  conv : Text
  sid : Text
  key : Text
  wraps : List (Text × Text)
  /-- The stores of trusted keys that the gate had. -/
  gated : TrustStores

def StartedSession.keyId (x : StartedSession) : Text := keyIdOf x.conv x.sid

/-- An arrival of messages that may bring keys. -/
inductive Loading
  /-- `processMessages`, until it has verified its rows. -/
  | verifying (mode : Kind) (rows : List MessageRow)
  /-- `processMessages`, while the custody opens the batch. -/
  | unwrapping (wrapped : List (Text × Value))
  /-- `handleManualDecrypt`, while the custody opens the key. -/
  | byHand (id : Text) (blob : Value)
  | ended

/-! ## The page -/

structure SendPage where
  rendered : Rendered
  queue : List KeyUpdate
  /-- `sendStateRef`. -/
  sendState : Text → Option SendState
  /-- `dmSessionKeysRef` and `groupSessionMembersRef`. -/
  wrappedFor : Kind → Text → Option Text
  stores : TrustStores
  sending : Option Sending
  loads : List Loading
  /-- The key ids that messages or sessions have named so far. -/
  named : List Text
  sessions : List StartedSession
  accepted : List Posted

inductive SendAction
  | submit (target : Target) (ownKey : Text)
  /-- The gate is asked, and a session is reused where it can be. -/
  | gate (now : ℕ)
  /-- A session is started. -/
  | mint (sid key : Text) (now : ℕ)
  /-- The key cannot be generated or wrapped. -/
  | failMint
  | sign (ct sig : Text)
  /-- The message cannot be encrypted or signed. -/
  | failSign
  | accept (id : ℕ) (createdAt : ℤ)
  | refuse
  | respond
  /-- The answer of the server is lost. -/
  | lose
  /-- A page of history comes. -/
  | receive (mode : Kind) (rows : List MessageRow)
  /-- `processMessages` asks the custody for the keys that are missing. -/
  | collect (i : ℕ)
  /-- The custody answers. -/
  | adopt (i : ℕ) (granted : Bool)
  /-- A message is decrypted by hand. -/
  | decrypt (mode : Kind) (row : MessageRow)
  | adoptOne (i : ℕ) (granted : Bool)
  /-- A message arrives live. -/
  | arrive (mode : Kind) (row : MessageRow)
  /-- A member joins or leaves a group. -/
  | invalidate (channelId : Text)
  /-- The stores of trusted keys are used or changed elsewhere. -/
  | trust (now : Number) (event : TrustEvent)
  | commit

namespace SendPage

/-- A page after it is loaded. -/
def start (stores : TrustStores) : SendPage where
  rendered := ⟨fun _ => none, fun _ => none⟩
  queue := []
  sendState _ := none
  wrappedFor _ _ := none
  stores := stores
  sending := none
  loads := []
  named := []
  sessions := []
  accepted := []

variable (env : Sender) (s : SendPage)

/-- The state that the next commit renders. -/
def current : Rendered := s.queue.foldl KeyUpdate.apply s.rendered

/-- The session that a send reuses: its id, its key, and its entry of `sendStateRef`. -/
def reusable (d : Sending) (recipients : List Contact) (now : ℕ) : Option (Text × Text × SendState) := do
  let sid ← d.snapshot.activeSessionIds d.target.conv
  let id := keyIdOf d.target.conv sid
  let key ← d.snapshot.sessionKeys id
  let st ← s.sendState id
  if st.isUsable now ∧ s.wrappedFor d.target.mode id = some (d.target.wrappedFor d.ownKey recipients) then
    some (sid, key, st)
  else none

/-- `sendMessage` and `sendGroupMessage` from the gate to their next wait. -/
def passGate (d : Sending) (now : ℕ) : SendPage :=
  let (stores, passed) := d.target.gate env.gate (.ofNat now) s.stores
  match passed with
  | none => { s with stores := stores, sending := none }
  | some recipients =>
    match s.reusable d recipients now with
    | none => { s with stores := stores, sending := some { d with point := .minting s.stores recipients } }
    | some (sid, key, st) =>
      { s with
        stores := stores
        sendState := Function.update s.sendState (keyIdOf d.target.conv sid) (some { st with next := st.next + 1 })
        sending := some { d with point := .sealing ⟨sid, key, none, st.next, now⟩ } }

/-- A session is started, and its first position is taken. -/
def startSession (d : Sending) (gated : TrustStores) (recipients : List Contact) (sid key : Text) (now : ℕ) : SendPage :=
  let conv := d.target.conv
  let id := keyIdOf conv sid
  { s with
    queue := s.queue ++ [.addKey id key, .activate conv sid]
    sendState := Function.update s.sendState id (some ⟨1, now⟩)
    wrappedFor := Function.update s.wrappedFor d.target.mode
      (Function.update (s.wrappedFor d.target.mode) id (some (d.target.wrappedFor d.ownKey recipients)))
    sending := some { d with
      point := .sealing ⟨sid, key, some (d.target.keyPayload env d.ownKey recipients key), 0, now⟩ }
    named := id :: s.named
    sessions := ⟨conv, sid, key, d.target.wraps env.me d.ownKey recipients, gated⟩ :: s.sessions }

/-- The `catch` around the request: a session that started with the message is abandoned. -/
def failPost (d : Sending) (n : Numbered) : SendPage :=
  if n.keys.isSome then
    { s with
      sendState := Function.update s.sendState (keyIdOf d.target.conv n.sid) none
      queue := s.queue ++ [.deactivate d.target.conv]
      sending := none }
  else { s with sending := none }

/-- The server accepts messages one after another. -/
def isNext (id : ℕ) (createdAt : ℤ) : Bool := s.accepted.all fun m => m.id < id && m.createdAt ≤ createdAt

/-- Steps 2 and 3 of `processMessages`. -/
def wrappedOf (mode : Kind) (rows : List MessageRow) : List (Text × Value) :=
  match (rows.map (env.prepare mode)).mapM (env.decryptCached mode s.rendered.sessionKeys) with
  | some processed => env.keysToUnwrap mode s.rendered.sessionKeys processed
  | none => []

/-- The key ids that rows name. -/
def namesOf (mode : Kind) (rows : List MessageRow) : List Text :=
  rows.filterMap fun row => (env.sessionOf mode row).map (·.2)

/-- The wrapped key that `handleManualDecrypt` may open, and the id of the key. -/
def askedByHand (mode : Kind) (row : MessageRow) : Option (Text × Value) := do
  let (p, id) ← env.sessionOf mode row
  if (s.rendered.sessionKeys id).isSome || !mayAdoptSession row (env.verified mode row) mode env.me then none
  else (keyBlob row mode env.me p).map (id, ·)

def step : SendAction → Option SendPage
  | .submit target ownKey =>
    if s.sending.isNone then some { s with sending := some ⟨target, ownKey, s.rendered, .gating⟩ } else none
  | .gate now =>
    match s.sending with
    | some ⟨target, ownKey, snapshot, .gating⟩ => some (s.passGate env ⟨target, ownKey, snapshot, .gating⟩ now)
    | _ => none
  | .mint sid key now =>
    match s.sending with
    | some ⟨target, ownKey, snapshot, .minting gated recipients⟩ =>
      if keyIdOf target.conv sid ∈ s.named then none
      else some (s.startSession env ⟨target, ownKey, snapshot, .minting gated recipients⟩ gated recipients sid key now)
    | _ => none
  | .failMint =>
    match s.sending with
    | some ⟨_, _, _, .minting _ _⟩ => some { s with sending := none }
    | _ => none
  | .sign ct sig =>
    match s.sending with
    | some ⟨target, ownKey, snapshot, .sealing n⟩ =>
      some { s with sending := some ⟨target, ownKey, snapshot, .posting n ct sig⟩ }
    | _ => none
  | .failSign =>
    match s.sending with
    | some ⟨_, _, _, .sealing _⟩ => some { s with sending := none }
    | _ => none
  | .accept id createdAt =>
    match s.sending with
    | some ⟨target, ownKey, snapshot, .posting n ct sig⟩ =>
      if s.isNext id createdAt then
        some { s with
          sending := some ⟨target, ownKey, snapshot, .answering n⟩
          accepted := s.accepted ++ [⟨id, createdAt, target, n, ct, sig⟩] }
      else none
    | _ => none
  | .refuse =>
    match s.sending with
    | some ⟨target, ownKey, snapshot, .posting n ct sig⟩ =>
      some (s.failPost ⟨target, ownKey, snapshot, .posting n ct sig⟩ n)
    | _ => none
  | .respond =>
    match s.sending with
    | some ⟨_, _, _, .answering _⟩ => some { s with sending := none }
    | _ => none
  | .lose =>
    match s.sending with
    | some ⟨target, ownKey, snapshot, .answering n⟩ =>
      some (s.failPost ⟨target, ownKey, snapshot, .answering n⟩ n)
    | _ => none
  | .receive mode rows =>
    some { s with loads := s.loads ++ [.verifying mode rows], named := namesOf env mode rows ++ s.named }
  | .collect i =>
    match s.loads[i]? with
    | some (.verifying mode rows) =>
      let wrapped := s.wrappedOf env mode rows
      some { s with loads := s.loads.set i (if wrapped.isEmpty then .ended else .unwrapping wrapped) }
    | _ => none
  | .adopt i granted =>
    match s.loads[i]? with
    | some (.unwrapping wrapped) =>
      some { s with
        loads := s.loads.set i .ended
        queue := s.queue ++ if granted then [.setKeys (env.adopt s.rendered.sessionKeys wrapped)] else [] }
    | _ => none
  | .decrypt mode row =>
    some { s with
      loads := s.loads ++ ((s.askedByHand env mode row).map fun e => .byHand e.1 e.2).toList
      named := namesOf env mode [row] ++ s.named }
  | .adoptOne i granted =>
    match s.loads[i]? with
    | some (.byHand id blob) =>
      some { s with
        loads := s.loads.set i .ended
        queue := s.queue ++ ((env.opened granted blob).map fun key => .addKey id key).toList }
    | _ => none
  | .arrive mode row => some { s with named := namesOf env mode [row] ++ s.named }
  | .invalidate channelId => some { s with queue := s.queue ++ [.deactivate (lit "group_" ++ channelId)] }
  | .trust now event => some { s with stores := (event.step env.gate now s.stores).1 }
  | .commit => some { s with rendered := s.current, queue := [] }

/-- What a step does, and when it can be taken. -/
def Takes (t : SendPage) : SendAction → Prop
  | .submit target ownKey => s.sending = none ∧ t = { s with sending := some ⟨target, ownKey, s.rendered, .gating⟩ }
  | .gate now => ∃ d, s.sending = some d ∧ d.point = .gating ∧ t = s.passGate env d now
  | .mint sid key now => ∃ d gated recipients, s.sending = some d ∧ d.point = .minting gated recipients ∧
      keyIdOf d.target.conv sid ∉ s.named ∧ t = s.startSession env d gated recipients sid key now
  | .failMint => ∃ d gated recipients, s.sending = some d ∧ d.point = .minting gated recipients ∧
      t = { s with sending := none }
  | .sign ct sig => ∃ d n, s.sending = some d ∧ d.point = .sealing n ∧
      t = { s with sending := some { d with point := .posting n ct sig } }
  | .failSign => ∃ d n, s.sending = some d ∧ d.point = .sealing n ∧ t = { s with sending := none }
  | .accept id createdAt => ∃ d n ct sig, s.sending = some d ∧ d.point = .posting n ct sig ∧
      s.isNext id createdAt = true ∧ t = { s with
        sending := some { d with point := .answering n }
        accepted := s.accepted ++ [⟨id, createdAt, d.target, n, ct, sig⟩] }
  | .refuse => ∃ d n ct sig, s.sending = some d ∧ d.point = .posting n ct sig ∧ t = s.failPost d n
  | .respond => ∃ d n, s.sending = some d ∧ d.point = .answering n ∧ t = { s with sending := none }
  | .lose => ∃ d n, s.sending = some d ∧ d.point = .answering n ∧ t = s.failPost d n
  | .receive mode rows =>
    t = { s with loads := s.loads ++ [.verifying mode rows], named := namesOf env mode rows ++ s.named }
  | .collect i => ∃ mode rows, s.loads[i]? = some (.verifying mode rows) ∧ t = { s with
      loads := s.loads.set i
        (if (s.wrappedOf env mode rows).isEmpty then .ended else .unwrapping (s.wrappedOf env mode rows)) }
  | .adopt i granted => ∃ wrapped, s.loads[i]? = some (.unwrapping wrapped) ∧ t = { s with
      loads := s.loads.set i .ended
      queue := s.queue ++ if granted then [.setKeys (env.adopt s.rendered.sessionKeys wrapped)] else [] }
  | .decrypt mode row => t = { s with
      loads := s.loads ++ ((s.askedByHand env mode row).map fun e => .byHand e.1 e.2).toList
      named := namesOf env mode [row] ++ s.named }
  | .adoptOne i granted => ∃ id blob, s.loads[i]? = some (.byHand id blob) ∧ t = { s with
      loads := s.loads.set i .ended
      queue := s.queue ++ ((env.opened granted blob).map fun key => .addKey id key).toList }
  | .arrive mode row => t = { s with named := namesOf env mode [row] ++ s.named }
  | .invalidate channelId => t = { s with queue := s.queue ++ [.deactivate (lit "group_" ++ channelId)] }
  | .trust now event => t = { s with stores := (event.step env.gate now s.stores).1 }
  | .commit => t = { s with rendered := s.current, queue := [] }

variable {env s} {t : SendPage} {a : SendAction}

theorem takes_of_step (h : s.step env a = some t) : s.Takes env t a := by
  cases a with
  | submit target ownKey =>
    rw [step, Option.ite_none_right_eq_some] at h
    exact ⟨Option.isNone_iff_eq_none.mp h.1, (Option.some.inj h.2).symm⟩
  | gate now =>
    rw [step] at h
    split at h
    · next hsending => exact ⟨_, hsending, rfl, (Option.some.inj h).symm⟩
    · cases h
  | mint sid key now =>
    rw [step] at h
    split at h
    · next hsending =>
      rw [Option.ite_none_left_eq_some] at h
      exact ⟨_, _, _, hsending, rfl, h.1, (Option.some.inj h.2).symm⟩
    · cases h
  | failMint =>
    rw [step] at h
    split at h
    · next hsending => exact ⟨_, _, _, hsending, rfl, (Option.some.inj h).symm⟩
    · cases h
  | sign ct sig =>
    rw [step] at h
    split at h
    · next hsending => exact ⟨_, _, hsending, rfl, (Option.some.inj h).symm⟩
    · cases h
  | failSign =>
    rw [step] at h
    split at h
    · next hsending => exact ⟨_, _, hsending, rfl, (Option.some.inj h).symm⟩
    · cases h
  | accept id createdAt =>
    rw [step] at h
    split at h
    · next hsending =>
      rw [Option.ite_none_right_eq_some] at h
      exact ⟨_, _, _, _, hsending, rfl, h.1, (Option.some.inj h.2).symm⟩
    · cases h
  | refuse =>
    rw [step] at h
    split at h
    · next hsending => exact ⟨_, _, _, _, hsending, rfl, (Option.some.inj h).symm⟩
    · cases h
  | respond =>
    rw [step] at h
    split at h
    · next hsending => exact ⟨_, _, hsending, rfl, (Option.some.inj h).symm⟩
    · cases h
  | lose =>
    rw [step] at h
    split at h
    · next hsending => exact ⟨_, _, hsending, rfl, (Option.some.inj h).symm⟩
    · cases h
  | collect i =>
    rw [step] at h
    split at h
    · next hload => exact ⟨_, _, hload, (Option.some.inj h).symm⟩
    · cases h
  | adopt i granted =>
    rw [step] at h
    split at h
    · next hload => exact ⟨_, hload, (Option.some.inj h).symm⟩
    · cases h
  | adoptOne i granted =>
    rw [step] at h
    split at h
    · next hload => exact ⟨_, _, hload, (Option.some.inj h).symm⟩
    · cases h
  | receive mode rows => exact (Option.some.inj h).symm
  | decrypt mode row => exact (Option.some.inj h).symm
  | arrive mode row => exact (Option.some.inj h).symm
  | invalidate channelId => exact (Option.some.inj h).symm
  | trust now event => exact (Option.some.inj h).symm
  | commit => exact (Option.some.inj h).symm

/-- Only a commit renders. -/
theorem rendered_of_step (h : s.step env a = some t) (ha : a ≠ .commit) : t.rendered = s.rendered := by
  have htakes := takes_of_step h
  cases a with
  | submit target ownKey =>
    obtain ⟨-, rfl⟩ := htakes
    rfl
  | gate now =>
    obtain ⟨d, -, -, rfl⟩ := htakes
    rw [passGate]
    split
    next stores passed _ =>
    cases passed with
    | none => rfl
    | some recipients =>
      simp only
      split <;> rfl
  | mint sid key now =>
    obtain ⟨d, gated, recipients, -, -, -, rfl⟩ := htakes
    rfl
  | failMint =>
    obtain ⟨d, gated, recipients, -, -, rfl⟩ := htakes
    rfl
  | sign ct sig =>
    obtain ⟨d, n, -, -, rfl⟩ := htakes
    rfl
  | accept id createdAt =>
    obtain ⟨d, n, ct, sig, -, -, -, rfl⟩ := htakes
    rfl
  | refuse =>
    obtain ⟨d, n, ct, sig, -, -, rfl⟩ := htakes
    rw [failPost]
    split <;> rfl
  | lose =>
    obtain ⟨d, n, -, -, rfl⟩ := htakes
    rw [failPost]
    split <;> rfl
  | failSign | respond =>
    obtain ⟨d, n, -, -, rfl⟩ := htakes
    rfl
  | collect i =>
    obtain ⟨mode, rows, -, rfl⟩ := htakes
    rfl
  | adopt i granted =>
    obtain ⟨wrapped, -, rfl⟩ := htakes
    rfl
  | adoptOne i granted =>
    obtain ⟨id, blob, -, rfl⟩ := htakes
    rfl
  | receive mode rows | decrypt mode row | arrive mode row | invalidate channelId | trust now event =>
    obtain rfl := htakes
    rfl
  | commit => exact absurd rfl ha

end SendPage

end Kryptolog.Client
