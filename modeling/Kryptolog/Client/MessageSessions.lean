import Kryptolog.Client.Messages

/-! # Session keys and the two ways in which messages arrive

`useMessageSessions.js` and `freshness.js`, with the two handlers of `MessengerContext.jsx` for a message
that comes over the socket. A page of history may add keys to the cache of session keys, which names a key
by its conversation and session id; a message decrypted by hand may add one; a message that arrives live
adds none.
-/

namespace Kryptolog.Client
set_option autoImplicit false

open Script
open Server (Kind)

/-! ## Freshness -/

inductive Freshness
  | replayed
  | skew
  | reordered
  | gap
  deriving DecidableEq

/-- `MAX_CLOCK_SKEW_MS`. -/
def maxClockSkew : ℕ := 10 * 60 * 1000

/-- What one sender has delivered in one session: the message at each position, the highest position, and
the time of the latest message. -/
structure Delivered where
  ids : List (ℕ × ℕ)
  maxSeq : Option ℕ
  maxAt : Option ℤ

/-- `seen`: what was delivered, by conversation, session and sender. -/
abbrev Seen := Text → Option Delivered

/-- `p.ts` or `p.seq`, where it is a count. -/
def count (payload : Value) (name : String) : Option ℕ :=
  match payload.get name with
  | some (.num n) => if n.isCount then some (Number.digitsValue n.spelling) else none
  | _ => none

/-- A message that freshness is asked of, with what it signs. -/
structure Dated where
  id : ℕ
  ts : ℕ
  seq : ℕ
  deliveredAt : Option ℤ

namespace Dated

variable (d : Dated) (state : Delivered)

/-- Another message was delivered at the position. -/
def isReplayed : Bool := (state.ids.lookup d.seq).any (· != d.id)

def isSkewed : Bool := d.deliveredAt.any fun t => maxClockSkew < ((d.ts : ℤ) - t).natAbs

/-- `at >= state.maxAt`, of a time that is a number. -/
def isLatest : Bool := d.deliveredAt.any fun t => state.maxAt.all (· ≤ t)

def isReordered : Bool :=
  d.isLatest state && (state.ids.lookup d.seq).isNone && state.maxSeq.any (d.seq ≤ ·)

def isGap : Bool := d.isLatest state && state.maxSeq.any (· + 1 < d.seq)

/-- The verdict under the id of the message, after the one that stood there. -/
def judge (previous : Option Freshness) : Option Freshness :=
  if d.isReplayed state then some .replayed
  else
    let verdict := if d.isSkewed then some .skew else previous
    if d.isReordered state then verdict.or (some .reordered)
    else if d.isGap state then verdict.or (some .gap)
    else verdict

/-- What is known after the message. -/
def record : Delivered :=
  if d.isReplayed state then state
  else
    { ids := if (state.ids.lookup d.seq).isSome then state.ids else (d.seq, d.id) :: state.ids
      maxSeq := if d.isLatest state && state.maxSeq.all (· < d.seq) then some d.seq else state.maxSeq
      maxAt := if d.isLatest state then d.deliveredAt else state.maxAt }

end Dated

/-! ## The hook -/

/-- A message as the hook returns it. -/
structure Received where
  row : MessageRow
  verified : Option Bool
  redacted : Bool
  freshness : Option Freshness
  plainText : Option Text
  /-- `_sessionPayload`. -/
  payload : Option Value

/-- What a reader's page works with. -/
structure Reader extends Messenger where
  /-- `user.address.toLowerCase()`. -/
  me : Text
  /-- `unwrapSessionKey`, where the custody opens the wrapped key. -/
  unwrapSessionKey : Value → Option Text
  /-- `decryptWithSessionKey` on a ciphertext and a key, where it does not throw. -/
  decryptWithSessionKey : Value → Text → Option Text

/-- The cache of session keys. -/
abbrev SessionKeys := Text → Option Text

namespace Reader

variable (env : Reader) (mode : Kind)

/-- The name of the key that a payload of a row is decrypted with. -/
def keyId (row : MessageRow) (payload : Value) : Option Text :=
  sessionKeyId (conversationIdForMessage row env.me mode) ((payload.get "sid").getD .null)

/-- The payload of a row, with the name of its session key. -/
def sessionOf (row : MessageRow) : Option (Value × Text) :=
  (sessionPayload mode (env.parseJson row.content)).bind fun p => (env.keyId mode row p).map (p, ·)

def verified (row : MessageRow) : Option Bool :=
  env.verifyMessageAuthenticity row (env.parseJson row.content) mode

def decrypt (payload : Value) (key : Text) : Option Text :=
  env.decryptWithSessionKey ((payload.get "ct").getD .null) key

/-- Step 1 of `processMessages`. -/
def prepare (row : MessageRow) : Received :=
  let payload := sessionPayload mode (env.parseJson row.content)
  ⟨row, env.verified mode row, payload.any isRedacted, none, none, payload⟩

/-- The position of a verified message, and where its sender's deliveries are kept. -/
def position (m : Received) : Option (Option (Text × Dated)) :=
  match m.payload with
  | none => some none
  | some p =>
    match decide (m.verified = some true), count p "ts", count p "seq" with
    | true, some ts, some seq =>
      (env.keyId mode m.row p).map fun id =>
        some (id ++ .char ':' :: toLowerCase m.row.senderAddress, ⟨m.row.id, ts, seq, m.row.createdAt⟩)
    | _, _, _ => some none

/-- `assessFreshness`: the verdicts by message id, and what is known afterwards. It throws, with what it has
noted so far, where a session id has no text. -/
def assessFreshness : List Received → (ℕ → Option Freshness) → Seen → Option (ℕ → Option Freshness) × Seen
  | [], verdicts, seen => (some verdicts, seen)
  | m :: ms, verdicts, seen =>
    match env.position mode m with
    | none => (none, seen)
    | some none => assessFreshness ms verdicts seen
    | some (some (key, d)) =>
      let state := (seen key).getD ⟨[], none, none⟩
      assessFreshness ms (fun id => if id = d.id then d.judge state (verdicts id) else verdicts id)
        (fun k => if k = key then some (d.record state) else seen k)

/-- Steps 2 and 4 on one message: what the cache covers is decrypted. -/
def decryptCached (keys : SessionKeys) (m : Received) : Option Received :=
  match m.payload with
  | none => some m
  | some p =>
    if m.plainText.isSome then some m
    else (env.keyId mode m.row p).map fun id =>
      match keys id with
      | some key => if m.redacted then m else { m with plainText := env.decrypt p key }
      | none => m

/-- The wrapped key that a message may seed the cache with, and the name of the key. -/
def seed (m : Received) : Option (Text × Value) := do
  let p ← m.payload
  let id ← env.keyId mode m.row p
  if mayAdoptSession m.row m.verified mode env.me then
    (keyBlob m.row mode env.me p).map (id, ·)
  else none

/-- Step 3: the first wrapped key for each name that the cache lacks. -/
def keysToUnwrap (keys : SessionKeys) : List Received → List (Text × Value)
  | [] => []
  | m :: ms =>
    let rest := keysToUnwrap keys ms
    match env.seed mode m with
    | some (id, blob) =>
      if (keys id).isSome then rest else (id, blob) :: rest.filter fun e => e.1 != id
    | none => rest

/-- What the custody gives for a wrapped key: an empty text counts as nothing. -/
def opened (granted : Bool) (blob : Value) : Option Text :=
  if granted then (env.unwrapSessionKey blob).filter (· ≠ []) else none

/-- Step 4: the cache with what the batch opened. -/
def adopt (keys : SessionKeys) (wrapped : List (Text × Value)) : SessionKeys := fun id =>
  match wrapped.lookup id with
  | some blob => (env.opened true blob).or (keys id)
  | none => keys id

/-- Steps 2 to 4: the messages and the cache, unless a session id has no text. The batch goes to the custody,
which may refuse it. -/
def open_ (prepared : List Received) (granted : Bool) (keys : SessionKeys) :
    Option (List Received × SessionKeys) := do
  let processed ← prepared.mapM (env.decryptCached mode keys)
  let wrapped := env.keysToUnwrap mode keys processed
  if wrapped.isEmpty || !granted then some (processed, keys)
  else
    let keys := env.adopt keys wrapped
    some (← processed.mapM (env.decryptCached mode keys), keys)

/-- `processMessages`, and what has been delivered after it. -/
def processMessages (rows : List MessageRow) (granted : Bool) (keys : SessionKeys) (seen : Seen) :
    Option (List Received × SessionKeys) × Seen :=
  let prepared := rows.map (env.prepare mode)
  let (verdicts, seen) := env.assessFreshness mode prepared (fun _ => none) seen
  (verdicts.bind fun verdicts =>
    env.open_ mode (prepared.map fun m => { m with freshness := verdicts m.row.id }) granted keys, seen)

/-- A message without a text, once its session key is there. -/
def reopen (id key : Text) (m : Received) : Received :=
  if m.plainText.all List.isEmpty then
    match sessionPayload mode (env.parseJson m.row.content) with
    | some p =>
      if env.keyId mode m.row p = some id then
        match env.decrypt p key with
        | some text => { m with plainText := some text }
        | none => m
      else m
    | none => m
  else m

/-- `handleManualDecrypt`, on the cache and the messages of the open conversation. -/
def handleManualDecrypt (row : MessageRow) (granted : Bool) (keys : SessionKeys) (messages : List Received) :
    SessionKeys × List Received :=
  match env.sessionOf mode row with
  | none => (keys, messages)
  | some (p, id) =>
    match keys id with
    | some key =>
      match env.decrypt p key with
      | some text =>
        (keys, messages.map fun m => if m.row.id = row.id then { m with plainText := some text } else m)
      | none => (keys, messages)
    | none =>
      if mayAdoptSession row (env.verified mode row) mode env.me then
        match (keyBlob row mode env.me p).bind (env.opened granted) with
        | some key => (fun k => if k = id then some key else keys k, messages.map (env.reopen mode id key))
        | none => (keys, messages)
      else (keys, messages)

/-- `handleIncomingMessage` and `handleIncomingGroupMessage`: the message that they show. -/
def handleIncoming (row : MessageRow) (keys : SessionKeys) : Received :=
  let unread : Received := ⟨row, none, false, none, none, none⟩
  match env.sessionOf mode row with
  | none => unread
  | some (p, id) =>
    match keys id with
    | none => { unread with verified := env.verified mode row }
    | some key =>
      match env.decrypt p key with
      | none => unread
      | some text => { unread with verified := env.verified mode row, plainText := some text }

end Reader

/-! ## An open conversation -/

structure Chat where
  keys : SessionKeys
  seen : Seen
  messages : List Received

inductive ChatEvent
  /-- A page of history is loaded and shown. -/
  | load (rows : List MessageRow) (granted : Bool)
  /-- The reader decrypts a message by hand. -/
  | decrypt (row : MessageRow) (granted : Bool)
  /-- A message of the conversation arrives. -/
  | arrive (row : MessageRow)

def ChatEvent.rows : ChatEvent → List MessageRow
  | load rows _ => rows
  | decrypt row _ | arrive row => [row]

def Chat.step (env : Reader) (mode : Kind) (chat : Chat) : ChatEvent → Chat
  | .load rows granted =>
    match env.processMessages mode rows granted chat.keys chat.seen with
    | (some (messages, keys), seen) => ⟨keys, seen, messages⟩
    | (none, seen) => ⟨chat.keys, seen, []⟩
  | .decrypt row granted =>
    let r := env.handleManualDecrypt mode row granted chat.keys chat.messages
    ⟨r.1, chat.seen, r.2⟩
  | .arrive row =>
    if chat.messages.any (·.row.id == row.id) then chat
    else { chat with messages := chat.messages ++ [env.handleIncoming mode row chat.keys] }

/-! ## What the hook computes -/

namespace Reader

variable (env : Reader) (mode : Kind)

/-- The session id of the row, where it has one, has a text. -/
def IsNamed (row : MessageRow) : Prop :=
  (sessionPayload mode (env.parseJson row.content)).isSome = true → (env.sessionOf mode row).isSome = true

/-- The plain text of a row under the cached keys. -/
def plainText (keys : SessionKeys) (row : MessageRow) : Option Text :=
  (env.sessionOf mode row).bind fun s =>
    if isRedacted s.1 then none else (keys s.2).bind (env.decrypt s.1)

/-- A row as the hook returns it. -/
def shown (row : MessageRow) (verdict : Option Freshness) (text : Option Text) : Received :=
  { env.prepare mode row with freshness := verdict, plainText := text }

/-- The wrapped key of a session that the first row with one offers. -/
def offered (id : Text) (rows : List MessageRow) : Option Value :=
  rows.findSome? fun row => ((env.seed mode (env.prepare mode row)).filter (·.1 = id)).map (·.2)

/-- The cache after a batch of rows. -/
def keysAfter (rows : List MessageRow) (granted : Bool) (keys : SessionKeys) : SessionKeys := fun id =>
  (keys id).or ((env.offered mode id rows).bind (env.opened granted))

end Reader

section hook

variable {env : Reader} {mode : Kind} {keys keys' : SessionKeys} {row : MessageRow} {rows : List MessageRow}
  {granted : Bool} {verdicts : ℕ → Option Freshness} {texts : MessageRow → Option Text}

theorem sessionOf_eq_some {p : Value} {id : Text} : env.sessionOf mode row = some (p, id) ↔
    sessionPayload mode (env.parseJson row.content) = some p ∧ env.keyId mode row p = some id := by
  rw [Reader.sessionOf, Option.bind_eq_some_iff]
  constructor
  · rintro ⟨p', hp, hid⟩
    obtain ⟨id', hid', heq⟩ := Option.map_eq_some_iff.mp hid
    obtain ⟨rfl, rfl⟩ := Prod.mk.inj heq
    exact ⟨hp, hid'⟩
  · rintro ⟨hp, hid⟩
    exact ⟨p, hp, by rw [hid, Option.map_some]⟩

/-- Steps 2 and 4 on a message. -/
theorem decryptCached_shown (verdict : Option Freshness) (text : Option Text) (h : env.IsNamed mode row) :
    env.decryptCached mode keys (env.shown mode row verdict text) =
      some (env.shown mode row verdict (text.or (env.plainText mode keys row))) := by
  simp only [Reader.IsNamed, Reader.sessionOf] at h
  simp only [Reader.decryptCached, Reader.plainText, Reader.sessionOf, Reader.shown, Reader.prepare]
  obtain hp | ⟨p, hp⟩ := Option.eq_none_or_eq_some (sessionPayload mode (env.parseJson row.content))
  · simp [hp]
  · obtain ⟨id, hid⟩ : ∃ id, env.keyId mode row p = some id := by
      simpa [hp, Option.isSome_iff_exists] using h
    cases text with
    | some t => simp [hp]
    | none =>
      simp only [hp, hid]
      cases hkey : keys id with
      | none => simp [hid, hkey]
      | some key => by_cases hred : isRedacted p <;> simp [hid, hkey, hred]

theorem mapM_decryptCached (h : ∀ row ∈ rows, env.IsNamed mode row) :
    (rows.map fun row => env.shown mode row (verdicts row.id) (texts row)).mapM (env.decryptCached mode keys) =
      some (rows.map fun row =>
        env.shown mode row (verdicts row.id) ((texts row).or (env.plainText mode keys row))) := by
  induction rows with
  | nil => rfl
  | cons row rows ih =>
    obtain ⟨hrow, hrows⟩ := List.forall_mem_cons.mp h
    rw [List.map_cons, List.mapM_cons, decryptCached_shown _ _ hrow, ih hrows]
    rfl

theorem lookup_filter_ne {id id' : Text} (h : id ≠ id') (wrapped : List (Text × Value)) :
    (wrapped.filter fun e => e.1 != id').lookup id = wrapped.lookup id := by
  induction wrapped with
  | nil => rfl
  | cons e wrapped ih =>
    by_cases he : e.1 = id'
    · have hne : (id == e.1) = false := by simp [he, h]
      rw [List.filter_cons_of_neg (by simp [he]), ih, List.lookup_cons, hne]
    · rw [List.filter_cons_of_pos (by simp [he]), List.lookup_cons, List.lookup_cons, ih]

/-- The first offer of each session that the cache lacks is what goes to the custody. -/
theorem lookup_keysToUnwrap (id : Text) :
    (env.keysToUnwrap mode keys
        (rows.map fun row => env.shown mode row (verdicts row.id) (texts row))).lookup id =
      if (keys id).isSome then none else env.offered mode id rows := by
  induction rows with
  | nil => simp [Reader.keysToUnwrap, Reader.offered]
  | cons row rows ih =>
    have hseed : env.seed mode (env.shown mode row (verdicts row.id) (texts row)) =
      env.seed mode (env.prepare mode row) := rfl
    rw [List.map_cons, Reader.keysToUnwrap, hseed, Reader.offered, List.findSome?_cons, ← Reader.offered]
    cases env.seed mode (env.prepare mode row) with
    | none => exact ih
    | some offer =>
      obtain ⟨id', blob⟩ := offer
      by_cases hid : id = id'
      · subst hid
        cases hkey : keys id with
        | none => simp [hkey, Option.filter_some]
        | some key => simpa [hkey] using ih
      · have hrest : Option.filter (fun e => decide (e.1 = id)) (some (id', blob)) = none := by
          simp [Ne.symm hid]
        have hne : (id == id') = false := by simp [hid]
        simp only [hrest, Option.map_none]
        split
        · exact ih
        · rw [List.lookup_cons, hne]
          simpa only [lookup_filter_ne hid] using ih

/-- A row offers its wrapped key where its signature lets it. -/
theorem seed_prepare : env.seed mode (env.prepare mode row) =
    (env.sessionOf mode row).bind fun s =>
      if mayAdoptSession row (env.verified mode row) mode env.me then (keyBlob row mode env.me s.1).map (s.2, ·)
      else none := by
  simp only [Reader.seed, Reader.sessionOf, Reader.prepare, Option.bind_eq_bind, Option.bind_assoc,
    Option.bind_map]
  rfl

theorem offered_none (h : env.sessionOf mode row = none) (id : Text) : env.offered mode id [row] = none := by
  rw [Reader.offered, List.findSome?_cons, seed_prepare, h]
  rfl

/-- What one row offers. -/
theorem offered_some {p : Value} {id : Text} (h : env.sessionOf mode row = some (p, id)) (id' : Text) :
    env.offered mode id' [row] =
      if id = id' ∧ mayAdoptSession row (env.verified mode row) mode env.me = true then
        keyBlob row mode env.me p
      else none := by
  rw [Reader.offered, List.findSome?_cons, seed_prepare, h, Option.bind_some]
  by_cases hid : id = id' <;>
    by_cases hmay : mayAdoptSession row (env.verified mode row) mode env.me = true <;>
      cases keyBlob row mode env.me p <;> simp [hid, hmay, Option.filter_some]

theorem keysAfter_refused : env.keysAfter mode rows false keys = keys := by
  funext id
  rw [Reader.keysAfter]
  cases env.offered mode id rows <;> simp [Reader.opened]

/-- Step 4 on what step 3 collects. -/
theorem adopt_keysToUnwrap :
    env.adopt keys (env.keysToUnwrap mode keys
      (rows.map fun row => env.shown mode row (verdicts row.id) (texts row))) =
        env.keysAfter mode rows true keys := by
  funext id
  simp only [Reader.adopt, Reader.keysAfter, lookup_keysToUnwrap]
  cases hkey : keys id with
  | some key => simp
  | none => cases hoffer : env.offered mode id rows <;> simp [Reader.opened]

/-- A text that is readable stays so when keys are added. -/
theorem plainText_or (h : ∀ id key, keys id = some key → keys' id = some key) :
    (env.plainText mode keys row).or (env.plainText mode keys' row) = env.plainText mode keys' row := by
  simp only [Reader.plainText]
  cases env.sessionOf mode row with
  | none => rfl
  | some s =>
    simp only [Option.bind_some]
    split
    · rfl
    · cases hkey : keys s.2 with
      | none => simp
      | some key =>
        rw [h _ _ hkey, Option.or_self]

theorem keysAfter_of_cached (id key : Text) (h : keys id = some key) :
    env.keysAfter mode rows granted keys id = some key := by
  simp [Reader.keysAfter, h]

/-- Steps 2 to 4. -/
theorem open_eq (h : ∀ row ∈ rows, env.IsNamed mode row) :
    env.open_ mode (rows.map fun row => env.shown mode row (verdicts row.id) none) granted keys =
      some (rows.map fun row => env.shown mode row (verdicts row.id)
          (env.plainText mode (env.keysAfter mode rows granted keys) row),
        env.keysAfter mode rows granted keys) := by
  have hcached := @mapM_decryptCached env mode keys rows verdicts (fun _ => none) h
  have hadopt := @adopt_keysToUnwrap env mode keys rows verdicts fun row => env.plainText mode keys row
  simp only [Option.none_or] at hcached
  rw [Reader.open_, hcached]
  simp only [Option.bind_eq_bind, Option.bind_some]
  cases granted with
  | false => simp [keysAfter_refused]
  | true =>
    split
    · next hempty =>
      rw [Bool.not_true, Bool.or_false, List.isEmpty_iff] at hempty
      rw [hempty] at hadopt
      rw [← hadopt]
      rfl
    · have hmore : ∀ row, (env.plainText mode keys row).or
          (env.plainText mode (env.keysAfter mode rows true keys) row) =
            env.plainText mode (env.keysAfter mode rows true keys) row :=
        fun row => plainText_or keysAfter_of_cached
      rw [hadopt, mapM_decryptCached h]
      simp only [Option.bind_some, hmore]

/-- `processMessages` on rows whose session ids have texts. -/
theorem processMessages_eq {seen seen' : Seen} {verdicts : ℕ → Option Freshness}
    (h : ∀ row ∈ rows, env.IsNamed mode row)
    (hfresh : env.assessFreshness mode (rows.map (env.prepare mode)) (fun _ => none) seen =
      (some verdicts, seen')) :
    env.processMessages mode rows granted keys seen =
      (some (rows.map fun row => env.shown mode row (verdicts row.id)
          (env.plainText mode (env.keysAfter mode rows granted keys) row),
        env.keysAfter mode rows granted keys), seen') := by
  have hopen := @open_eq env mode keys rows granted verdicts h
  simp only [Reader.processMessages, hfresh, Option.bind_some, List.map_map]
  exact congrArg (·, seen') hopen

theorem position_isSome (h : env.IsNamed mode row) :
    ∃ entry, env.position mode (env.prepare mode row) = some entry := by
  simp only [Reader.IsNamed, Reader.sessionOf] at h
  simp only [Reader.position, Reader.prepare]
  obtain hp | ⟨p, hp⟩ := Option.eq_none_or_eq_some (sessionPayload mode (env.parseJson row.content))
  · exact ⟨none, by simp [hp]⟩
  · obtain ⟨id, hid⟩ : ∃ id, env.keyId mode row p = some id := by
      simpa [hp, Option.isSome_iff_exists] using h
    simp only [hp, hid]
    split
    · exact ⟨_, rfl⟩
    · exact ⟨none, rfl⟩

/-- Freshness is assessed of every list of rows whose session ids have texts. -/
theorem assessFreshness_isSome (h : ∀ row ∈ rows, env.IsNamed mode row) (verdicts : ℕ → Option Freshness)
    (seen : Seen) : ∃ verdicts' seen',
      env.assessFreshness mode (rows.map (env.prepare mode)) verdicts seen = (some verdicts', seen') := by
  induction rows generalizing verdicts seen with
  | nil => exact ⟨verdicts, seen, rfl⟩
  | cons row rows ih =>
    obtain ⟨hrow, hrows⟩ := List.forall_mem_cons.mp h
    obtain ⟨entry, hentry⟩ := position_isSome hrow
    rw [List.map_cons, Reader.assessFreshness, hentry]
    cases entry with
    | none => exact ih hrows verdicts seen
    | some entry => exact ih hrows _ _

/-! ### By hand -/

theorem handleManualDecrypt_none (h : env.sessionOf mode row = none) (messages : List Received) :
    env.handleManualDecrypt mode row granted keys messages = (keys, messages) := by
  rw [Reader.handleManualDecrypt, h]

theorem handleManualDecrypt_cached {p : Value} {id key : Text} (h : env.sessionOf mode row = some (p, id))
    (hkey : keys id = some key) (messages : List Received) :
    env.handleManualDecrypt mode row granted keys messages = (keys, messages.map fun m =>
      if m.row.id = row.id then { m with plainText := (env.decrypt p key).or m.plainText } else m) := by
  rw [Reader.handleManualDecrypt, h]
  simp only [hkey]
  cases env.decrypt p key with
  | none => simp
  | some text => simp

theorem handleManualDecrypt_missing {p : Value} {id : Text} (h : env.sessionOf mode row = some (p, id))
    (hkey : keys id = none) (messages : List Received) :
    env.handleManualDecrypt mode row granted keys messages =
      (env.keysAfter mode [row] granted keys,
        match env.keysAfter mode [row] granted keys id with
        | some key => messages.map (env.reopen mode id key)
        | none => messages) := by
  have hafter : ∀ id', env.keysAfter mode [row] granted keys id' = (keys id').or
      ((if id = id' ∧ mayAdoptSession row (env.verified mode row) mode env.me = true then
        keyBlob row mode env.me p else none).bind (env.opened granted)) := by
    intro id'
    rw [Reader.keysAfter, offered_some h]
  have hunchanged (hno : mayAdoptSession row (env.verified mode row) mode env.me = true →
      (keyBlob row mode env.me p).bind (env.opened granted) = none) :
      env.keysAfter mode [row] granted keys = keys := by
    funext id'
    rw [hafter]
    split
    · next hid => rw [hno hid.2, Option.or_none]
    · rw [Option.bind_none, Option.or_none]
  rw [Reader.handleManualDecrypt, h]
  simp only [hkey]
  by_cases hmay : mayAdoptSession row (env.verified mode row) mode env.me = true
  · rw [if_pos hmay]
    cases hopen : (keyBlob row mode env.me p).bind (env.opened granted) with
    | none => rw [hunchanged fun _ => hopen, hkey]
    | some key =>
      have hkeys : env.keysAfter mode [row] granted keys = fun id' => if id' = id then some key else keys id' := by
        funext id'
        rw [hafter]
        by_cases hid : id' = id
        · subst hid
          simp [hkey, hmay, hopen]
        · simp [hid, Ne.symm hid]
      simp [hkeys]
  · rw [if_neg hmay, hunchanged fun hyes => absurd hyes hmay, hkey]

theorem handleManualDecrypt_keys (messages : List Received) :
    (env.handleManualDecrypt mode row granted keys messages).1 = env.keysAfter mode [row] granted keys := by
  cases hsession : env.sessionOf mode row with
  | none =>
    funext id
    rw [handleManualDecrypt_none hsession, Reader.keysAfter, offered_none hsession, Option.bind_none, Option.or_none]
  | some s =>
    obtain ⟨p, id⟩ := s
    cases hkey : keys id with
    | none => rw [handleManualDecrypt_missing hsession hkey]
    | some key =>
      funext id'
      rw [handleManualDecrypt_cached hsession hkey, Reader.keysAfter, offered_some hsession]
      by_cases hid : id = id'
      · simp [← hid, hkey]
      · simp [hid]

theorem reopen_row (id key : Text) (m : Received) : (env.reopen mode id key m).row = m.row := by
  rw [Reader.reopen]
  split
  · split
    · split
      · split <;> rfl
      · rfl
    · rfl
  · rfl

theorem reopen_eq {p : Value} {k id key : Text} {m : Received} (h : env.sessionOf mode m.row = some (p, k)) :
    env.reopen mode id key m =
      if m.plainText.all List.isEmpty ∧ k = id then { m with plainText := (env.decrypt p key).or m.plainText }
      else m := by
  obtain ⟨hp, hk⟩ := sessionOf_eq_some.mp h
  rw [Reader.reopen, hp]
  by_cases hempty : m.plainText.all List.isEmpty = true
  · by_cases hname : k = id
    · subst hname
      simp only [hempty, hk, if_true, and_self]
      cases env.decrypt p key <;> simp
    · simp [hempty, hk, hname]
  · simp [hempty]

/-! ### Live -/

theorem handleIncoming_plainText : (env.handleIncoming mode row keys).plainText =
    (env.sessionOf mode row).bind fun s => (keys s.2).bind (env.decrypt s.1) := by
  rw [Reader.handleIncoming]
  cases env.sessionOf mode row with
  | none => rfl
  | some s =>
    obtain ⟨p, id⟩ := s
    simp only [Option.bind_some]
    cases keys id with
    | none => rfl
    | some key => cases hd : env.decrypt p key <;> simp [hd]

theorem handleIncoming_row : (env.handleIncoming mode row keys).row = row := by
  rw [Reader.handleIncoming]
  cases env.sessionOf mode row with
  | none => rfl
  | some s =>
    obtain ⟨p, id⟩ := s
    cases hkey : keys id with
    | none => simp [hkey]
    | some key => cases hd : env.decrypt p key <;> simp [hkey, hd]

end hook

end Kryptolog.Client
