import Kryptolog.Client.OpenChats
import Kryptolog.Client.SessionIsolation

/-! # Messages decrypted by hand

`handleManualDecrypt` between its awaits, beside the other setters of the open direct chat and the open group. With a
key from the cache it writes one text into the list that is shown. With a key that it had to unwrap it puts a list in
the place of the one that is shown: the list of the last commit when the key arrived, with the texts it decrypted.
-/

namespace Kryptolog.Client
set_option autoImplicit false

open Script
open Server (Kind)
open Runs

/-! ## The two lists -/

/-- `activeConversation` or `activeGroupConversation`: its conversation, unless it has no `user` or `channel`. -/
structure OpenList where
  chat : Option Text
  messages : List Received

/-- A call of `handleManualDecrypt`, by what it waits for. -/
inductive ManualTask
  /-- The custody, for the wrapped key. -/
  | unwrapping (kind : Kind) (row : MessageRow) (id : Text) (blob : Value)
  /-- The text, decrypted with a key from the cache. -/
  | writing (kind : Kind) (row : MessageRow) (text : Text)
  /-- The texts of `currentMessages`, decrypted with the new key. -/
  | merging (kind : Kind) (row : MessageRow) (id key : Text) (currentMessages : List Received)
  | ended

structure Reading where
  shown : Kind → Option OpenList
  /-- `activeConversationRef` and `activeGroupConversationRef`. -/
  refs : Kind → Option OpenList
  keys : SessionKeys
  keysRef : SessionKeys
  tasks : List ManualTask
  /-- An update threw, and React has taken the page down. -/
  broken : Bool

/-- A call of a setter, or a part of `handleManualDecrypt` between two awaits. -/
inductive ReadingAction
  /-- A conversation is opened, with no messages, or its history has come. -/
  | replace (kind : Kind) (chat : Text) (messages : List Received)
  | close (kind : Kind)
  /-- A live message has been decrypted. -/
  | arrive (kind : Kind) (m : Received)
  /-- A send is answered. -/
  | sent (kind : Kind) (m : Received)
  /-- Keys of loaded messages go to the cache. -/
  | cache (keys : SessionKeys)
  | decrypt (kind : Kind) (row : MessageRow)
  | unwrapped (i : ℕ) (granted : Bool)
  | finish (i : ℕ)
  | commit

namespace OpenList

variable (c : OpenList)

/-- A message is appended where no message has its id. -/
def append (m : Received) : OpenList :=
  if c.messages.any (·.row.id == m.row.id) then c else { c with messages := c.messages ++ [m] }

/-- The text of one message. -/
def write (row : MessageRow) (text : Text) : OpenList :=
  { c with messages := c.messages.map fun m => if m.row.id = row.id then { m with plainText := some text } else m }

end OpenList

namespace Reading

def start : Reading where
  shown := fun _ => none
  refs := fun _ => none
  keys := fun _ => none
  keysRef := fun _ => none
  tasks := []
  broken := false

variable (env : Reader) (s : Reading)

def setShown (kind : Kind) (c : Option OpenList) : Reading := { s with shown := Function.update s.shown kind c }

def begin_ (task : ManualTask) : Reading := { s with tasks := s.tasks ++ [task] }

def await (i : ℕ) (task : ManualTask) : Reading := { s with tasks := s.tasks.set i task }

/-- `handleManualDecrypt`, up to its first await. -/
def manualDecrypt (kind : Kind) (row : MessageRow) : Reading :=
  match env.sessionOf kind row with
  | none => s
  | some (p, id) =>
    match s.keysRef id with
    | some key =>
      match env.decrypt p key with
      | some text => s.begin_ (.writing kind row text)
      | none => s
    | none =>
      if mayAdoptSession row (env.verified kind row) kind env.me then
        match keyBlob row kind env.me p with
        | some blob => s.begin_ (.unwrapping kind row id blob)
        | none => s
      else s

/-- The key has been unwrapped: it goes to the cache, and the list of the last commit is read. -/
def receiveKey (i : ℕ) (kind : Kind) (row : MessageRow) (id key : Text) : Reading :=
  { s with keys := fun k => if k = id then some key else s.keys k }.await i
    (.merging kind row id key (((s.refs kind).map OpenList.messages).getD []))

/-- The last update. -/
def finish (i : ℕ) : ManualTask → Option Reading
  | .writing kind row text =>
    match s.shown kind with
    | some c => some ((s.setShown kind (some (c.write row text))).await i .ended)
    | none => some { s.await i .ended with broken := true }
  | .merging kind _ id key currentMessages =>
    some ((s.setShown kind
      (some ⟨(s.shown kind).bind OpenList.chat, currentMessages.map (env.reopen kind id key)⟩)).await i .ended)
  | _ => none

/-- A step of a page that is up. -/
def take : ReadingAction → Option Reading
  | .replace kind chat messages => some (s.setShown kind (some ⟨some chat, messages⟩))
  | .close kind => some (s.setShown kind none)
  | .arrive kind m =>
    let chat := conversationIdForMessage m.row env.me kind
    if (s.refs kind).any (·.chat = some chat) then
      some (s.setShown kind ((s.shown kind).map fun c => if c.chat = some chat then c.append m else c))
    else some s
  | .sent kind m => some (s.setShown kind ((s.shown kind).map (·.append m)))
  | .cache keys => some { s with keys := keys }
  | .decrypt kind row => some (s.manualDecrypt env kind row)
  | .unwrapped i granted =>
    match s.tasks[i]? with
    | some (.unwrapping kind row id blob) =>
      match env.opened granted blob with
      | some key => some (s.receiveKey i kind row id key)
      | none => some (s.await i .ended)
    | _ => none
  | .finish i => s.tasks[i]?.bind (s.finish env i)
  | .commit => some { s with refs := s.shown, keysRef := s.keys }

def step (a : ReadingAction) : Option Reading := if s.broken then none else s.take env a

end Reading

/-! ## What the server serves -/

/-- The id of a message names its conversation, and the name of a conversation holds no colon. -/
def Reader.IsServed (env : Reader) (conv : Kind → ℕ → Text) (kind : Kind) (row : MessageRow) : Prop :=
  conversationIdForMessage row env.me kind = conv kind row.id ∧ .char ':' ∉ conv kind row.id

/-- The messages that an action brings. -/
def ReadingAction.rows : ReadingAction → List (Kind × MessageRow)
  | replace kind _ messages => messages.map fun m => (kind, m.row)
  | arrive kind m | sent kind m => [(kind, m.row)]
  | decrypt kind row => [(kind, row)]
  | close _ | cache _ | unwrapped .. | finish _ | commit => []

def ReadingAction.IsServed (env : Reader) (conv : Kind → ℕ → Text) (a : ReadingAction) : Prop :=
  ∀ r ∈ a.rows, env.IsServed conv r.1 r.2

instance (env : Reader) (conv : Kind → ℕ → Text) (kind : Kind) (row : MessageRow) :
    Decidable (env.IsServed conv kind row) := inferInstanceAs (Decidable (_ ∧ _))

instance (env : Reader) (conv : Kind → ℕ → Text) (a : ReadingAction) : Decidable (a.IsServed env conv) :=
  inferInstanceAs (Decidable (∀ r ∈ a.rows, _))

/-! ## What an update leaves -/

/-- A message, without its text where it is of the conversation. -/
def Reader.withoutText (env : Reader) (kind : Kind) (chat : Text) (m : Received) : Received :=
  if conversationIdForMessage m.row env.me kind = chat then { m with plainText := none } else m

/-- Nothing has changed that is shown but the texts of messages of the conversation. -/
structure OnlyTexts (env : Reader) (kind : Kind) (chat : Text) (s t : Reading) : Prop where
  rest : t = { s with shown := t.shown, tasks := t.tasks }
  other : ∀ k, k ≠ kind → t.shown k = s.shown k
  own : (t.shown kind).map (fun c => (c.chat, c.messages.map (env.withoutText kind chat))) =
    (s.shown kind).map fun c => (c.chat, c.messages.map (env.withoutText kind chat))

/-- A conversation is open when a text is written into it; and a list that is merged has the messages that are shown
then, which differ from it at most in the texts of the conversation. -/
def Reading.IsCurrent (env : Reader) (s : Reading) : ManualTask → Prop
  | .writing kind _ _ => (s.shown kind).isSome = true
  | .merging kind row _ _ currentMessages => ∃ c, s.shown kind = some c ∧
      c.messages.map (env.withoutText kind (conversationIdForMessage row env.me kind)) =
        currentMessages.map (env.withoutText kind (conversationIdForMessage row env.me kind))
  | _ => True

/-- The message that a call waits to update the conversation of. -/
def ManualTask.updates : ManualTask → Option (Kind × MessageRow)
  | writing kind row _ | merging kind row _ _ _ => some (kind, row)
  | unwrapping .. | ended => none

section texts

variable {env : Reader} {conv : Kind → ℕ → Text} {kind : Kind} {row row' : MessageRow} {p p' : Value}
  {id key chat : Text} {m m' : Received}

theorem withoutText_of_alike (hrow : m'.row = m.row)
    (h : m' = m ∨ (conversationIdForMessage m.row env.me kind = chat ∧ { m' with plainText := m.plainText } = m)) :
    env.withoutText kind chat m' = env.withoutText kind chat m := by
  rcases h with rfl | ⟨hchat, hm⟩
  · rfl
  · rw [Reader.withoutText, Reader.withoutText, hrow, if_pos hchat, if_pos hchat, ← hm]

/-- The name of a session key says which conversation it is of. -/
theorem conversation_of_keyId (hrow : env.IsServed conv kind row) (hrow' : env.IsServed conv kind row')
    (h : env.keyId kind row p = some id) (h' : env.keyId kind row' p' = some id) :
    conversationIdForMessage row' env.me kind = conversationIdForMessage row env.me kind := by
  obtain ⟨sid, -, hid⟩ := Option.map_eq_some_iff.mp h
  obtain ⟨sid', -, hid'⟩ := Option.map_eq_some_iff.mp h'
  have hplain : .char ':' ∉ conversationIdForMessage row env.me kind := hrow.1 ▸ hrow.2
  have hplain' : .char ':' ∉ conversationIdForMessage row' env.me kind := hrow'.1 ▸ hrow'.2
  exact (Delimited.append_cons_inj hplain' hplain (hid'.trans hid.symm)).1

/-- A new key opens messages of its conversation only. -/
theorem withoutText_reopen (hrow : env.IsServed conv kind row) (hm : env.IsServed conv kind m.row)
    (hid : env.keyId kind row p = some id) :
    env.withoutText kind (conversationIdForMessage row env.me kind) (env.reopen kind id key m) =
      env.withoutText kind (conversationIdForMessage row env.me kind) m := by
  refine withoutText_of_alike (reopen_row id key m) ?_
  rw [Reader.reopen]
  split
  · split
    · split
      · next hname =>
        split
        · exact .inr ⟨conversation_of_keyId hrow hm hid hname, rfl⟩
        · exact .inl rfl
      · exact .inl rfl
    · exact .inl rfl
  · exact .inl rfl

theorem withoutText_write (hrow : env.IsServed conv kind row) (hm : env.IsServed conv kind m.row) (text : Text) :
    env.withoutText kind (conversationIdForMessage row env.me kind)
        (if m.row.id = row.id then { m with plainText := some text } else m) =
      env.withoutText kind (conversationIdForMessage row env.me kind) m := by
  split
  · next hid => exact withoutText_of_alike rfl (.inr ⟨by rw [hm.1, hrow.1, hid], rfl⟩)
  · rfl

end texts

/-! ## Every run -/

def OpenList.IsServed (env : Reader) (conv : Kind → ℕ → Text) (kind : Kind) (c : OpenList) : Prop :=
  ∀ m ∈ c.messages, env.IsServed conv kind m.row

theorem OpenList.IsServed.append {env : Reader} {conv : Kind → ℕ → Text} {kind : Kind} {c : OpenList} {m : Received}
    (hc : c.IsServed env conv kind) (hm : env.IsServed conv kind m.row) : (c.append m).IsServed env conv kind := by
  rw [OpenList.append]
  split
  · exact hc
  · exact List.forall_mem_append.mpr ⟨hc, List.forall_mem_singleton.mpr hm⟩

/-- The messages that a call has read are served, and the key that it merges is named after its message. -/
def ManualTask.IsServed (env : Reader) (conv : Kind → ℕ → Text) : ManualTask → Prop
  | unwrapping kind row id _ => env.IsServed conv kind row ∧ ∃ p, env.keyId kind row p = some id
  | writing kind row _ => env.IsServed conv kind row
  | merging kind row id _ currentMessages => env.IsServed conv kind row ∧ (∃ p, env.keyId kind row p = some id) ∧
      ∀ m ∈ currentMessages, env.IsServed conv kind m.row
  | ended => True

structure Reading.IsServed (env : Reader) (conv : Kind → ℕ → Text) (s : Reading) : Prop where
  shown : ∀ kind, ∀ c ∈ s.shown kind, c.IsServed env conv kind
  refs : ∀ kind, ∀ c ∈ s.refs kind, c.IsServed env conv kind
  tasks : ∀ task ∈ s.tasks, task.IsServed env conv

namespace Reading

section served

variable {env : Reader} {conv : Kind → ℕ → Text} {s t : Reading} {kind : Kind} {row : MessageRow}
  {a : ReadingAction} {task : ManualTask} {i : ℕ}

theorem setShown_self (c : Option OpenList) : (s.setShown kind c).shown kind = c := Function.update_self ..

theorem setShown_of_ne {k : Kind} (hk : k ≠ kind) (c : Option OpenList) : (s.setShown kind c).shown k = s.shown k :=
  Function.update_of_ne hk ..

theorem IsServed.start : start.IsServed env conv where
  shown _ _ h := nomatch h
  refs _ _ h := nomatch h
  tasks _ h := nomatch h

theorem IsServed.setShown (h : s.IsServed env conv) {c : Option OpenList}
    (hc : ∀ l ∈ c, l.IsServed env conv kind) : (s.setShown kind c).IsServed env conv where
  shown k l hl := by
    by_cases hk : k = kind
    · subst hk
      rw [setShown_self] at hl
      exact hc l hl
    · rw [setShown_of_ne hk] at hl
      exact h.shown k l hl
  refs := h.refs
  tasks := h.tasks

theorem IsServed.begin_ (h : s.IsServed env conv) (htask : task.IsServed env conv) :
    (s.begin_ task).IsServed env conv where
  shown := h.shown
  refs := h.refs
  tasks := List.forall_mem_append.mpr ⟨h.tasks, List.forall_mem_singleton.mpr htask⟩

theorem IsServed.await (h : s.IsServed env conv) (task : ManualTask) (htask : task.IsServed env conv) :
    (s.await i task).IsServed env conv where
  shown := h.shown
  refs := h.refs
  tasks x hx := by
    rcases List.mem_or_eq_of_mem_set hx with hx | rfl
    · exact h.tasks x hx
    · exact htask

theorem IsServed.manualDecrypt (h : s.IsServed env conv) (hrow : env.IsServed conv kind row) :
    (s.manualDecrypt env kind row).IsServed env conv := by
  rw [Reading.manualDecrypt]
  split
  · exact h
  · next p id hsession =>
    split
    · split
      · exact h.begin_ hrow
      · exact h
    · split
      · split
        · exact h.begin_ ⟨hrow, p, (sessionOf_eq_some.mp hsession).2⟩
        · exact h
      · exact h

theorem IsServed.finish (h : s.IsServed env conv) (htask : task.IsServed env conv)
    (hs : s.finish env i task = some t) : t.IsServed env conv := by
  cases task with
  | writing kind row text =>
    simp only [Reading.finish] at hs
    split at hs
    · next c hc =>
      obtain rfl := Option.some.inj hs
      refine (h.setShown fun l hl => ?_).await .ended trivial
      obtain rfl := Option.some.inj hl
      intro m hm
      obtain ⟨x, hx, rfl⟩ := List.mem_map.mp hm
      have := h.shown kind c hc x hx
      split <;> exact this
    · obtain rfl := Option.some.inj hs
      exact ⟨h.shown, h.refs, (h.await .ended trivial).tasks⟩
  | merging kind row id key currentMessages =>
    obtain rfl := Option.some.inj hs
    refine (h.setShown fun l hl => ?_).await .ended trivial
    obtain rfl := Option.some.inj hl
    intro m hm
    obtain ⟨x, hx, rfl⟩ := List.mem_map.mp hm
    rw [reopen_row]
    exact htask.2.2 x hx
  | unwrapping => cases hs
  | ended => cases hs

theorem IsServed.step (h : s.IsServed env conv) (ha : a.IsServed env conv) (hs : s.step env a = some t) :
    t.IsServed env conv := by
  rw [Reading.step] at hs
  split at hs
  · cases hs
  · cases a with
    | replace kind chat messages =>
      obtain rfl := Option.some.inj hs
      refine h.setShown fun l hl => ?_
      obtain rfl := Option.some.inj hl
      exact fun m hm => ha _ (List.mem_map.mpr ⟨m, hm, rfl⟩)
    | close kind =>
      obtain rfl := Option.some.inj hs
      exact h.setShown fun l hl => nomatch hl
    | arrive kind m =>
      have hm : env.IsServed conv kind m.row := ha _ List.mem_cons_self
      simp only [take] at hs
      split at hs
      · obtain rfl := Option.some.inj hs
        refine h.setShown fun l hl => ?_
        obtain ⟨c, hc, rfl⟩ := Option.map_eq_some_iff.mp hl
        split
        · exact (h.shown kind c hc).append hm
        · exact h.shown kind c hc
      · obtain rfl := Option.some.inj hs
        exact h
    | sent kind m =>
      obtain rfl := Option.some.inj hs
      refine h.setShown fun l hl => ?_
      obtain ⟨c, hc, rfl⟩ := Option.map_eq_some_iff.mp hl
      exact (h.shown kind c hc).append (ha _ List.mem_cons_self)
    | cache keys =>
      obtain rfl := Option.some.inj hs
      exact ⟨h.shown, h.refs, h.tasks⟩
    | decrypt kind row =>
      obtain rfl := Option.some.inj hs
      exact h.manualDecrypt (ha _ List.mem_cons_self)
    | unwrapped i granted =>
      simp only [take] at hs
      split at hs
      · next kind row id blob htask =>
        obtain ⟨hrow, hid⟩ := h.tasks _ (List.mem_of_getElem? htask)
        split at hs
        · obtain rfl := Option.some.inj hs
          refine ⟨h.shown, h.refs, (h.await (.merging ..) ⟨hrow, hid, ?_⟩).tasks⟩
          intro m hm
          cases hrefs : s.refs kind with
          | none =>
            rw [hrefs] at hm
            cases hm
          | some c =>
            rw [hrefs] at hm
            exact h.refs kind c hrefs m hm
        · obtain rfl := Option.some.inj hs
          exact h.await .ended trivial
      · cases hs
    | finish i =>
      obtain ⟨task, htask, hs⟩ := Option.bind_eq_some_iff.mp hs
      exact h.finish (h.tasks task (List.mem_of_getElem? htask)) hs
    | commit =>
      obtain rfl := Option.some.inj hs
      exact ⟨h.shown, h.shown, h.tasks⟩

theorem IsServed.run {actions : List ReadingAction}
    (h : Run (restrict (fun _ a => a.IsServed env conv) (ofPartial (Reading.step env))) .start actions s) :
    s.IsServed env conv :=
  h.invariant (I := IsServed env conv) (fun _ _ _ hI hs => hI.step hs.1 hs.2) .start

/-! ### The last update -/

/-- A text that is written is one of the conversation, as long as there is something to write into. -/
theorem finish_writing {text : Text} (h : s.finish env i (.writing kind row text) = some t)
    (hup : s.broken = false) (hserved : s.IsServed env conv) (hrow : env.IsServed conv kind row) :
    OnlyTexts env kind (conversationIdForMessage row env.me kind) s t ↔ (s.shown kind).isSome = true := by
  simp only [Reading.finish] at h
  split at h
  · next c hc =>
    obtain rfl := Option.some.inj h
    refine iff_of_true ⟨rfl, fun k hk => setShown_of_ne hk _, ?_⟩ (by rw [hc]; rfl)
    change ((s.setShown kind _).shown kind).map _ = _
    rw [setShown_self, hc, Option.map_some, Option.map_some, OpenList.write, List.map_map]
    refine congrArg some (Prod.ext rfl (List.map_congr_left fun m hm => ?_))
    exact withoutText_write hrow (hserved.shown kind c hc m hm) text
  · next hc =>
    obtain rfl := Option.some.inj h
    refine iff_of_false (fun honly => ?_) (by simp [hc])
    have hbroken := congrArg Reading.broken honly.rest
    rw [hup] at hbroken
    cases hbroken

/-- A list that is merged brings back the messages that it was read with. -/
theorem finish_merging {id key : Text} {p : Value} {currentMessages : List Received}
    (h : s.finish env i (.merging kind row id key currentMessages) = some t) (hrow : env.IsServed conv kind row)
    (hid : env.keyId kind row p = some id) (hcurrent : ∀ m ∈ currentMessages, env.IsServed conv kind m.row) :
    OnlyTexts env kind (conversationIdForMessage row env.me kind) s t ↔
      s.IsCurrent env (.merging kind row id key currentMessages) := by
  obtain rfl := Option.some.inj h
  have hmerged : (currentMessages.map (env.reopen kind id key)).map
      (env.withoutText kind (conversationIdForMessage row env.me kind)) =
        currentMessages.map (env.withoutText kind (conversationIdForMessage row env.me kind)) := by
    rw [List.map_map]
    exact List.map_congr_left fun m hm => withoutText_reopen hrow (hcurrent m hm) hid
  have hshown : ((s.setShown kind (some ⟨(s.shown kind).bind OpenList.chat,
      currentMessages.map (env.reopen kind id key)⟩)).await i .ended).shown kind =
        some ⟨(s.shown kind).bind OpenList.chat, currentMessages.map (env.reopen kind id key)⟩ := setShown_self _
  constructor
  · intro honly
    have hown := honly.own
    rw [hshown, Option.map_some] at hown
    simp only [hmerged] at hown
    cases hc : s.shown kind with
    | none =>
      rw [hc] at hown
      cases hown
    | some c =>
      rw [hc] at hown
      exact ⟨c, hc, (congrArg Prod.snd (Option.some.inj hown)).symm⟩
  · rintro ⟨c, hc, hsame⟩
    refine ⟨rfl, fun k hk => setShown_of_ne hk _, ?_⟩
    rw [hshown, Option.map_some, hc, Option.map_some]
    simp only [hmerged, hsame]
    rfl

/-! ### A call that nothing interrupts -/

/-- With a key from the cache a call does what `handleManualDecrypt` computes. -/
theorem alone_cached {c : OpenList} {p : Value} {id key text : Text} (granted : Bool)
    (hup : s.broken = false) (hc : s.shown kind = some c) (hsession : env.sessionOf kind row = some (p, id))
    (hkey : s.keysRef id = some key) (htext : env.decrypt p key = some text) :
    ((s.step env (.decrypt kind row)).bind fun s' => s'.step env (.finish s.tasks.length)).map
        (fun t => (t.shown kind).map OpenList.messages) =
      some (some (env.handleManualDecrypt kind row granted s.keysRef c.messages).2) := by
  have hbegun : s.manualDecrypt env kind row = s.begin_ (.writing kind row text) := by
    rw [Reading.manualDecrypt, hsession]
    simp only [hkey, htext]
  have hstep : s.step env (.decrypt kind row) = some (s.begin_ (.writing kind row text)) := by
    rw [Reading.step, hup, ← hbegun]
    rfl
  have htask : (s.begin_ (.writing kind row text)).tasks[s.tasks.length]? = some (.writing kind row text) := by
    simp [Reading.begin_]
  have hfinish : (s.begin_ (.writing kind row text)).step env (.finish s.tasks.length) =
      some (((s.begin_ (.writing kind row text)).setShown kind (some (c.write row text))).await s.tasks.length
        .ended) := by
    have hbroken : (s.begin_ (.writing kind row text)).broken = false := hup
    have hshown : (s.begin_ (.writing kind row text)).shown kind = some c := hc
    rw [Reading.step, hbroken, if_neg Bool.false_ne_true, Reading.take, htask, Option.bind_some, Reading.finish,
      hshown]
  have hmanual : (env.handleManualDecrypt kind row granted s.keysRef c.messages).2 = (c.write row text).messages := by
    rw [handleManualDecrypt_cached hsession hkey, htext]
    rfl
  rw [hstep, Option.bind_some, hfinish, Option.map_some, hmanual]
  change some (((Reading.setShown _ kind _).shown kind).map _) = _
  rw [setShown_self]
  rfl

/-- With a key that it unwraps, too, where the refs are as the state is. -/
theorem alone_missing {c : OpenList} {p blob : Value} {id key : Text} {granted : Bool} (hup : s.broken = false)
    (hrefs : s.refs kind = some c) (hsession : env.sessionOf kind row = some (p, id))
    (hkey : s.keysRef id = none) (hadopt : mayAdoptSession row (env.verified kind row) kind env.me = true)
    (hblob : keyBlob row kind env.me p = some blob) (hopened : env.opened granted blob = some key) :
    (((s.step env (.decrypt kind row)).bind fun s' => s'.step env (.unwrapped s.tasks.length granted)).bind
        fun s' => s'.step env (.finish s.tasks.length)).map (fun t => (t.shown kind).map OpenList.messages) =
      some (some (env.handleManualDecrypt kind row granted s.keysRef c.messages).2) := by
  have hbegun : s.manualDecrypt env kind row = s.begin_ (.unwrapping kind row id blob) := by
    rw [Reading.manualDecrypt, hsession]
    simp only [hkey, hadopt, hblob, if_true]
  have hstep : s.step env (.decrypt kind row) = some (s.begin_ (.unwrapping kind row id blob)) := by
    rw [Reading.step, hup, ← hbegun]
    rfl
  have htask : (s.begin_ (.unwrapping kind row id blob)).tasks[s.tasks.length]? =
      some (.unwrapping kind row id blob) := by simp [Reading.begin_]
  have hunwrapped : (s.begin_ (.unwrapping kind row id blob)).step env (.unwrapped s.tasks.length granted) =
      some ((s.begin_ (.unwrapping kind row id blob)).receiveKey s.tasks.length kind row id key) := by
    have hbroken : (s.begin_ (.unwrapping kind row id blob)).broken = false := hup
    rw [Reading.step, hbroken, if_neg Bool.false_ne_true, Reading.take, htask]
    simp only [hopened]
  have hcaptured : ((s.begin_ (.unwrapping kind row id blob)).receiveKey s.tasks.length kind row id key).tasks[
      s.tasks.length]? = some (.merging kind row id key c.messages) := by
    have hmessages : ((s.begin_ (.unwrapping kind row id blob)).refs kind) = some c := hrefs
    rw [Reading.receiveKey, Reading.await, hmessages]
    simp [Reading.begin_]
  have hmanual : (env.handleManualDecrypt kind row granted s.keysRef c.messages).2 =
      c.messages.map (env.reopen kind id key) := by
    rw [Reader.handleManualDecrypt, hsession]
    simp only [hkey, hadopt, hblob, if_true, Option.bind_some, hopened]
  rw [hstep, Option.bind_some, hunwrapped, Option.bind_some, hmanual]
  generalize hs' : (s.begin_ (.unwrapping kind row id blob)).receiveKey s.tasks.length kind row id key = s'
  rw [hs'] at hcaptured
  have hbroken : s'.broken = false := by rw [← hs']; exact hup
  rw [Reading.step, hbroken, if_neg Bool.false_ne_true, Reading.take, hcaptured, Option.bind_some, Reading.finish,
    Option.map_some]
  change some (((Reading.setShown _ kind _).shown kind).map _) = _
  rw [setShown_self]
  rfl

end served

end Reading

section sample

def sharedMessage (id : ℕ) : Received := sharedReader.handleIncoming .group (sharedRow id 'a' "ka") fun _ => none

/-- The first message of a conversation is decrypted by hand, and its key has come. -/
def readingActions : List ReadingAction :=
  [.replace .group (lit "group_g") [sharedMessage 0], .commit, .decrypt .group (sharedRow 0 'a' "ka"),
    .unwrapped 0 true]

/-- Every message is of one group. -/
def sharedConversation : Kind → ℕ → Text := fun _ _ => lit "group_g"

def readingStep (s : Reading) (a : ReadingAction) : Option Reading :=
  if decide (a.IsServed sharedReader sharedConversation) = true then s.step sharedReader a else none

theorem run_reading (actions : List ReadingAction) (h : (actions.foldlM readingStep .start).isSome = true) :
    Run (restrict (fun _ (a : ReadingAction) => a.IsServed sharedReader sharedConversation)
      (ofPartial (Reading.step sharedReader)))
      .start actions (after readingStep actions .start) :=
  Run.restrict_after (g := fun _ (a : ReadingAction) => decide (a.IsServed sharedReader sharedConversation))
    (fun _ _ => of_decide_eq_true) h

def sharedTask : ManualTask :=
  .merging .group (sharedRow 0 'a' "ka") (lit "group_g:s") (lit "ka") [sharedMessage 0]

end sample

end Kryptolog.Client
