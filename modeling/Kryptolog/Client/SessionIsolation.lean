import Kryptolog.Client.MessageSessions
import Kryptolog.Library.Runs

/-! # Isolation of the senders in a session

A session is meant to have one sender, but the cache names its keys by conversation and session id alone, and
the first verified offer fills a name. Here two histories of a chat are compared that show the reader the same
messages of one sender in one session, among any messages of others.
-/

namespace Kryptolog.Client
set_option autoImplicit false

open Script Runs
open Server (Kind)

/-- The row is `m`, or a verified message of its sender in its session. -/
def Reader.isOwn (env : Reader) (mode : Kind) (m row : MessageRow) : Bool :=
  decide (row.id = m.id ∨
    (env.verified mode row = some true ∧
      toLowerCase row.senderAddress = toLowerCase m.senderAddress ∧
      (env.sessionOf mode row).map (·.2) = (env.sessionOf mode m).map (·.2)))

/-- What remains of an event when some rows are not delivered. -/
def ChatEvent.keep (p : MessageRow → Bool) : ChatEvent → Option ChatEvent
  | .load rows granted => some (.load (rows.filter p) granted)
  | .decrypt row granted => if p row then some (.decrypt row granted) else none
  | .arrive row => if p row then some (.arrive row) else none

/-- The rows whose wrapped keys an event may open. -/
def ChatEvent.offering : ChatEvent → List MessageRow
  | .load rows true => rows
  | .decrypt row true => [row]
  | _ => []

/-- What is shown for the message with an id. -/
def textsOf (id : ℕ) (messages : List Received) : List (Option Text) :=
  (messages.filter (·.row.id == id)).map (·.plainText)

/-- The row offers a wrapped key for the session. -/
def Reader.offers (env : Reader) (mode : Kind) (id : Text) (row : MessageRow) : Bool :=
  (env.seed mode (env.prepare mode row)).any (·.1 = id)

/-- No row has the id of `m` but `m`; the session ids in a page have texts; and a key for the session `k` that
the cache lacks is first offered by the sender of `m`. -/
structure Undisturbed (env : Reader) (mode : Kind) (m : MessageRow) (k : Text) (chat : Chat) (e : ChatEvent) :
    Prop where
  alone : ∀ row ∈ e.rows, row.id = m.id → row = m
  named : ∀ rows granted, e = .load rows granted → ∀ row ∈ rows, env.IsNamed mode row
  first : chat.keys k = none → ∀ row, e.offering.find? (env.offers mode k) = some row →
    toLowerCase row.senderAddress = toLowerCase m.senderAddress

/-- Two chats agree on the key of the session and on the texts of `m`, where `m` has its id to itself. -/
structure AgreeOn (m : MessageRow) (k : Text) (chat chat' : Chat) : Prop where
  keys : chat.keys k = chat'.keys k
  texts : textsOf m.id chat.messages = textsOf m.id chat'.messages
  alone : ∀ x ∈ chat.messages, x.row.id = m.id → x.row = m
  alone' : ∀ x ∈ chat'.messages, x.row.id = m.id → x.row = m

section isolation

variable {env : Reader} {mode : Kind} {m row : MessageRow} {p : Value} {k : Text} {keys keys' : SessionKeys}
  {rows : List MessageRow} {granted : Bool} {messages : List Received}

/-! ### Offers -/

theorem offered_eq : env.offered mode k rows =
    (rows.find? (env.offers mode k)).bind fun row => (env.seed mode (env.prepare mode row)).map (·.2) := by
  induction rows with
  | nil => rfl
  | cons row rows ih =>
    rw [Reader.offered, List.findSome?_cons, ← Reader.offered, ih]
    cases hseed : env.seed mode (env.prepare mode row) with
    | none =>
      have hno : env.offers mode k row = false := by rw [Reader.offers, hseed, Option.any_none]
      rw [List.find?_cons_of_neg (by rw [hno]; exact Bool.false_ne_true)]
      rfl
    | some offer =>
      by_cases hid : offer.1 = k
      · have hyes : env.offers mode k row = true := by simp [Reader.offers, hseed, hid]
        rw [List.find?_cons_of_pos hyes, Option.bind_some, hseed, Option.filter_some_pos (by simpa using hid)]
        rfl
      · have hno : env.offers mode k row = false := by simp [Reader.offers, hseed, hid]
        rw [List.find?_cons_of_neg (by rw [hno]; exact Bool.false_ne_true),
          Option.filter_some_neg (by simpa using hid)]
        rfl

theorem find?_filter_of_first {p q : MessageRow → Bool}
    (h : ∀ row, rows.find? q = some row → p row = true) : (rows.filter p).find? q = rows.find? q := by
  induction rows with
  | nil => rfl
  | cons row rows ih =>
    by_cases hq : q row = true
    · rw [List.filter_cons_of_pos (h row (List.find?_cons_of_pos hq)), List.find?_cons_of_pos hq,
        List.find?_cons_of_pos hq]
    · rw [List.find?_cons_of_neg hq] at h ⊢
      by_cases hp : p row = true
      · rw [List.filter_cons_of_pos hp, List.find?_cons_of_neg hq, ih h]
      · rw [List.filter_cons_of_neg hp, ih h]

/-- What the sender of `m` offers for the session is among its own messages. -/
theorem isOwn_of_offers (hm : env.sessionOf mode m = some (p, k)) (h : env.offers mode k row = true)
    (hsender : toLowerCase row.senderAddress = toLowerCase m.senderAddress) :
    env.isOwn mode m row = true := by
  obtain ⟨offer, hseed, hid⟩ : ∃ offer, env.seed mode (env.prepare mode row) = some offer ∧ offer.1 = k := by
    cases hseed : env.seed mode (env.prepare mode row) with
    | none => simp [Reader.offers, hseed] at h
    | some offer => exact ⟨offer, rfl, by simpa [Reader.offers, hseed] using h⟩
  rw [seed_prepare, Option.bind_eq_some_iff] at hseed
  obtain ⟨s, hsession, hoffer⟩ := hseed
  split at hoffer
  · next hmay =>
    obtain ⟨blob, -, rfl⟩ := Option.map_eq_some_iff.mp hoffer
    simp only [mayAdoptSession, Bool.and_eq_true, beq_iff_eq] at hmay
    exact decide_eq_true (.inr ⟨hmay.1, hsender, by simp [hsession, hm, ← hid]⟩)
  · cases hoffer

/-- The key that a batch leaves under the name of the session. -/
theorem keysAfter_filter (hm : env.sessionOf mode m = some (p, k)) (hkeys : keys k = keys' k)
    (hfirst : keys k = none → ∀ row, rows.find? (env.offers mode k) = some row →
      toLowerCase row.senderAddress = toLowerCase m.senderAddress) :
    env.keysAfter mode rows granted keys k =
      env.keysAfter mode (rows.filter (env.isOwn mode m)) granted keys' k := by
  rw [Reader.keysAfter, Reader.keysAfter, ← hkeys]
  cases hkey : keys k with
  | some key => rfl
  | none =>
    have hown : ∀ row, rows.find? (env.offers mode k) = some row → env.isOwn mode m row = true := fun row hrow =>
      isOwn_of_offers hm (List.find?_some hrow) (hfirst hkey row hrow)
    rw [offered_eq, offered_eq, find?_filter_of_first hown]

/-! ### Texts -/

theorem textsOf_map {f : Received → Received} {g : Option Text → Option Text} (hrow : ∀ x, (f x).row = x.row)
    (htext : ∀ x ∈ messages, x.row.id = m.id → (f x).plainText = g x.plainText) :
    textsOf m.id (messages.map f) = (textsOf m.id messages).map g := by
  rw [textsOf, textsOf, List.filter_map, List.map_map, List.map_map]
  have hfilter : messages.filter ((fun x => x.row.id == m.id) ∘ f) = messages.filter (·.row.id == m.id) :=
    List.filter_congr fun x _ => by rw [Function.comp, hrow]
  rw [hfilter]
  refine List.map_congr_left fun x hx => ?_
  obtain ⟨hmem, hid⟩ := List.mem_filter.mp hx
  exact htext x hmem (beq_iff_eq.mp hid)

theorem plainText_congr (hm : env.sessionOf mode m = some (p, k)) (hkeys : keys k = keys' k) :
    env.plainText mode keys m = env.plainText mode keys' m := by
  simp only [Reader.plainText, hm, Option.bind_some, hkeys]

/-! ### Events -/

theorem step_load (h : ∀ row ∈ rows, env.IsNamed mode row) (granted : Bool) (chat : Chat) :
    ∃ (verdicts : ℕ → Option Freshness) (seen : Seen), chat.step env mode (.load rows granted) =
      ⟨env.keysAfter mode rows granted chat.keys, seen, rows.map fun row => env.shown mode row (verdicts row.id)
        (env.plainText mode (env.keysAfter mode rows granted chat.keys) row)⟩ := by
  obtain ⟨verdicts, seen, hfresh⟩ := assessFreshness_isSome h (fun _ => none) chat.seen
  exact ⟨verdicts, seen, by rw [Chat.step, processMessages_eq h hfresh]⟩

theorem textsOf_shown (verdicts : ℕ → Option Freshness) (halone : ∀ row ∈ rows, row.id = m.id → row = m) :
    textsOf m.id (rows.map fun row => env.shown mode row (verdicts row.id) (env.plainText mode keys row)) =
      (rows.filter (·.id == m.id)).map fun _ => env.plainText mode keys m := by
  rw [textsOf, List.filter_map, List.map_map]
  refine List.map_congr_left fun row hrow => ?_
  obtain ⟨hmem, hid⟩ := List.mem_filter.mp hrow
  have hid' : row.id = m.id := beq_iff_eq.mp hid
  rw [halone row hmem hid']
  rfl

theorem filter_isOwn (rows : List MessageRow) :
    (rows.filter (env.isOwn mode m)).filter (·.id == m.id) = rows.filter (·.id == m.id) := by
  rw [List.filter_filter]
  refine List.filter_congr fun row _ => ?_
  by_cases hid : row.id = m.id <;> simp [Reader.isOwn, hid]

theorem agreeOn_load (hm : env.sessionOf mode m = some (p, k)) {chat chat' : Chat} (h : AgreeOn m k chat chat')
    (hclean : Undisturbed env mode m k chat (.load rows granted)) :
    AgreeOn m k (chat.step env mode (.load rows granted))
      (chat'.step env mode (.load (rows.filter (env.isOwn mode m)) granted)) := by
  have hnamed := hclean.named rows granted rfl
  have halone : ∀ row ∈ rows, row.id = m.id → row = m := hclean.alone
  have hkeys : env.keysAfter mode rows granted chat.keys k =
      env.keysAfter mode (rows.filter (env.isOwn mode m)) granted chat'.keys k := by
    cases granted with
    | false => rw [keysAfter_refused, keysAfter_refused, h.keys]
    | true => exact keysAfter_filter hm h.keys hclean.first
  obtain ⟨verdicts, seen, hstep⟩ := step_load hnamed granted chat
  obtain ⟨verdicts', seen', hstep'⟩ := step_load
    (fun row hrow => hnamed row (List.mem_of_mem_filter hrow)) granted chat'
  rw [hstep, hstep']
  refine ⟨hkeys, ?_, ?_, ?_⟩
  · rw [textsOf_shown verdicts halone,
      textsOf_shown verdicts' fun row hrow => halone row (List.mem_of_mem_filter hrow), filter_isOwn,
      plainText_congr hm hkeys]
  · intro x hx hid
    obtain ⟨row, hrow, rfl⟩ := List.mem_map.mp hx
    exact halone row hrow hid
  · intro x hx hid
    obtain ⟨row, hrow, rfl⟩ := List.mem_map.mp hx
    exact halone row (List.mem_of_mem_filter hrow) hid

/-- What a message decrypted by hand does to a text of `m`. -/
def Reader.reread (env : Reader) (mode : Kind) (m : MessageRow) (p : Value) (k : Text) (row : MessageRow)
    (granted : Bool) (keys : SessionKeys) (text : Option Text) : Option Text :=
  match keys k, env.keysAfter mode [row] granted keys k with
  | some key, _ => if row.id = m.id then (env.decrypt p key).or text else text
  | none, some key => if text.all List.isEmpty then (env.decrypt p key).or text else text
  | none, none => text

theorem reread_eq_self (hkeys : env.keysAfter mode [row] granted keys k = keys k) (hid : row.id ≠ m.id) :
    env.reread mode m p k row granted keys = id := by
  funext text
  rw [Reader.reread, hkeys]
  cases keys k with
  | none => rfl
  | some key => simp [hid]

theorem keysAfter_other {p' : Value} {id : Text} (hrow : env.sessionOf mode row = some (p', id))
    (h : id ≠ k ∨ (keys k).isSome = true) : env.keysAfter mode [row] granted keys k = keys k := by
  rw [Reader.keysAfter, offered_some hrow]
  rcases h with hne | hsome
  · simp [hne]
  · obtain ⟨key, hkey⟩ := Option.isSome_iff_exists.mp hsome
    simp [hkey]

theorem textsOf_decrypt (hm : env.sessionOf mode m = some (p, k)) (hrow : row.id = m.id → row = m)
    (halone : ∀ x ∈ messages, x.row.id = m.id → x.row = m) :
    textsOf m.id (env.handleManualDecrypt mode row granted keys messages).2 =
      (textsOf m.id messages).map (env.reread mode m p k row granted keys) := by
  cases hsession : env.sessionOf mode row with
  | none =>
    have hne : row.id ≠ m.id := fun hid => by rw [hrow hid, hm] at hsession; cases hsession
    have hkeys : env.keysAfter mode [row] granted keys k = keys k := by
      rw [Reader.keysAfter, offered_none hsession, Option.bind_none, Option.or_none]
    rw [handleManualDecrypt_none hsession, reread_eq_self hkeys hne, List.map_id]
  | some s =>
    obtain ⟨p', id⟩ := s
    have hname : row.id = m.id → p' = p ∧ id = k := by
      intro hid
      rw [hrow hid, hm] at hsession
      exact ⟨(Prod.mk.inj (Option.some.inj hsession)).1.symm, (Prod.mk.inj (Option.some.inj hsession)).2.symm⟩
    cases hkey : keys id with
    | some key =>
      rw [handleManualDecrypt_cached hsession hkey]
      refine textsOf_map (fun x => by split <;> rfl) fun x hx hid => ?_
      by_cases hsame : row.id = m.id
      · obtain ⟨rfl, rfl⟩ := hname hsame
        simp [Reader.reread, hkey, hid, hsame]
      · have hkeys : env.keysAfter mode [row] granted keys k = keys k := by
          refine keysAfter_other hsession ?_
          by_cases hk : id = k
          · exact .inr (by rw [← hk, hkey]; rfl)
          · exact .inl hk
        rw [reread_eq_self hkeys hsame, if_neg (by rw [hid]; exact Ne.symm hsame)]
        rfl
    | none =>
      rw [handleManualDecrypt_missing hsession hkey]
      by_cases hk : id = k
      · -- The row is of the session, and brings its key or nothing.
        subst hk
        cases hafter : env.keysAfter mode [row] granted keys id with
        | none =>
          have hread : env.reread mode m p id row granted keys = fun text => text := by
            funext text
            rw [Reader.reread, hkey, hafter]
          rw [hread, List.map_id']
        | some key =>
          refine textsOf_map (reopen_row id key) fun x hx hid => ?_
          rw [reopen_eq (by rw [halone x hx hid, hm]), Reader.reread, hkey, hafter]
          simp only [and_true]
          split <;> rfl
      · have hne : row.id ≠ m.id := fun hid => hk (hname hid).2
        rw [reread_eq_self (keysAfter_other hsession (.inl hk)) hne, List.map_id]
        cases env.keysAfter mode [row] granted keys id with
        | none => rfl
        | some key =>
          refine (textsOf_map (reopen_row id key) fun x hx hid => ?_).trans (List.map_id _)
          rw [reopen_eq (by rw [halone x hx hid, hm]), if_neg fun h => hk h.2.symm]
          rfl

theorem rows_handleManualDecrypt {x : Received}
    (hx : x ∈ (env.handleManualDecrypt mode row granted keys messages).2) : ∃ y ∈ messages, y.row = x.row := by
  cases hsession : env.sessionOf mode row with
  | none =>
    rw [handleManualDecrypt_none hsession] at hx
    exact ⟨x, hx, rfl⟩
  | some s =>
    obtain ⟨p, id⟩ := s
    cases hkey : keys id with
    | some key =>
      rw [handleManualDecrypt_cached hsession hkey] at hx
      obtain ⟨y, hy, rfl⟩ := List.mem_map.mp hx
      exact ⟨y, hy, by split <;> rfl⟩
    | none =>
      rw [handleManualDecrypt_missing hsession hkey] at hx
      cases hafter : env.keysAfter mode [row] granted keys id with
      | none =>
        simp only [hafter] at hx
        exact ⟨x, hx, rfl⟩
      | some key =>
        simp only [hafter] at hx
        obtain ⟨y, hy, rfl⟩ := List.mem_map.mp hx
        exact ⟨y, hy, (reopen_row id key y).symm⟩

/-- A message of others that is decrypted by hand leaves `m` and its key. -/
theorem unread_of_not_isOwn (hm : env.sessionOf mode m = some (p, k)) {chat : Chat}
    (hclean : Undisturbed env mode m k chat (.decrypt row granted)) (hother : ¬ env.isOwn mode m row = true) :
    env.keysAfter mode [row] granted chat.keys k = chat.keys k ∧ row.id ≠ m.id := by
  refine ⟨?_, fun hid => hother (decide_eq_true (.inl hid))⟩
  cases hkey : chat.keys k with
  | some key => exact keysAfter_of_cached k key hkey
  | none =>
    cases granted with
    | false => rw [keysAfter_refused, hkey]
    | true =>
      have hoffer : ¬ env.offers mode k row = true := fun h =>
        hother (isOwn_of_offers hm h (hclean.first hkey row (List.find?_cons_of_pos h)))
      rw [Reader.keysAfter, offered_eq, List.find?_cons_of_neg hoffer, hkey]
      rfl

theorem agreeOn_decrypt (hm : env.sessionOf mode m = some (p, k)) {chat chat' : Chat}
    (h : AgreeOn m k chat chat') (hclean : Undisturbed env mode m k chat (.decrypt row granted)) :
    AgreeOn m k (chat.step env mode (.decrypt row granted))
      ((ChatEvent.keep (env.isOwn mode m) (.decrypt row granted)).elim chat' (chat'.step env mode)) := by
  have hrow : row.id = m.id → row = m := hclean.alone row List.mem_cons_self
  have halone : ∀ {chat : Chat}, (∀ x ∈ chat.messages, x.row.id = m.id → x.row = m) →
      ∀ x ∈ (chat.step env mode (.decrypt row granted)).messages, x.row.id = m.id → x.row = m := by
    intro chat hmessages x hx hid
    obtain ⟨y, hy, hxy⟩ := rows_handleManualDecrypt hx
    exact hxy ▸ hmessages y hy (hxy ▸ hid)
  by_cases hown : env.isOwn mode m row = true
  · rw [ChatEvent.keep, if_pos hown]
    have hkeys : env.keysAfter mode [row] granted chat.keys k = env.keysAfter mode [row] granted chat'.keys k := by
      rw [Reader.keysAfter, Reader.keysAfter, h.keys]
    refine ⟨?_, ?_, halone h.alone, halone h.alone'⟩
    · show (env.handleManualDecrypt mode row granted chat.keys chat.messages).1 k =
        (env.handleManualDecrypt mode row granted chat'.keys chat'.messages).1 k
      rw [handleManualDecrypt_keys, handleManualDecrypt_keys, hkeys]
    · have hread : env.reread mode m p k row granted chat.keys = env.reread mode m p k row granted chat'.keys := by
        funext text
        rw [Reader.reread, Reader.reread, hkeys, h.keys]
      show textsOf m.id (env.handleManualDecrypt mode row granted chat.keys chat.messages).2 =
        textsOf m.id (env.handleManualDecrypt mode row granted chat'.keys chat'.messages).2
      rw [textsOf_decrypt hm hrow h.alone, textsOf_decrypt hm hrow h.alone', h.texts, hread]
  · rw [ChatEvent.keep, if_neg hown]
    obtain ⟨hkeys, hne⟩ := unread_of_not_isOwn hm hclean hown
    refine ⟨?_, ?_, halone h.alone, h.alone'⟩
    · show (env.handleManualDecrypt mode row granted chat.keys chat.messages).1 k = chat'.keys k
      rw [handleManualDecrypt_keys, hkeys, h.keys]
    · show textsOf m.id (env.handleManualDecrypt mode row granted chat.keys chat.messages).2 =
        textsOf m.id chat'.messages
      rw [textsOf_decrypt hm hrow h.alone, reread_eq_self hkeys hne, List.map_id, h.texts]

theorem any_iff_textsOf : messages.any (·.row.id == m.id) = true ↔ textsOf m.id messages ≠ [] := by
  rw [textsOf, Ne, List.map_eq_nil_iff, List.filter_eq_nil_iff, List.any_eq_true]
  simp

theorem step_arrive_keys (chat : Chat) : (chat.step env mode (.arrive row)).keys = chat.keys := by
  rw [Chat.step]
  split <;> rfl

theorem textsOf_arrive (chat : Chat) : textsOf m.id (chat.step env mode (.arrive row)).messages =
    if row.id = m.id ∧ textsOf m.id chat.messages = [] then [(env.handleIncoming mode row chat.keys).plainText]
    else textsOf m.id chat.messages := by
  rw [Chat.step]
  by_cases hid : row.id = m.id
  · by_cases hany : chat.messages.any (·.row.id == row.id) = true
    · have hne : textsOf m.id chat.messages ≠ [] := any_iff_textsOf.mp (hid ▸ hany)
      rw [if_pos hany, if_neg fun h => hne h.2]
    · have hnil : textsOf m.id chat.messages = [] := by
        by_contra hne
        exact hany (hid ▸ any_iff_textsOf.mpr hne)
      rw [if_neg hany, if_pos ⟨hid, hnil⟩]
      rw [textsOf, List.map_eq_nil_iff] at hnil
      simp [textsOf, hnil, handleIncoming_row, hid]
  · have hno : ¬ (row.id = m.id ∧ textsOf m.id chat.messages = []) := fun h => hid h.1
    rw [if_neg hno]
    split
    · rfl
    · simp [textsOf, handleIncoming_row, hid]

theorem agreeOn_arrive (hm : env.sessionOf mode m = some (p, k)) {chat chat' : Chat}
    (h : AgreeOn m k chat chat') (hclean : Undisturbed env mode m k chat (.arrive row)) :
    AgreeOn m k (chat.step env mode (.arrive row))
      ((ChatEvent.keep (env.isOwn mode m) (.arrive row)).elim chat' (chat'.step env mode)) := by
  have hrow : row.id = m.id → row = m := hclean.alone row List.mem_cons_self
  have halone : ∀ {chat : Chat}, (∀ x ∈ chat.messages, x.row.id = m.id → x.row = m) →
      ∀ x ∈ (chat.step env mode (.arrive row)).messages, x.row.id = m.id → x.row = m := by
    intro chat hmessages x hx hid
    rw [Chat.step] at hx
    split at hx
    · exact hmessages x hx hid
    · rcases List.mem_append.mp hx with hold | hnew
      · exact hmessages x hold hid
      · rw [List.mem_singleton.mp hnew, handleIncoming_row] at hid ⊢
        exact hrow hid
  by_cases hown : env.isOwn mode m row = true
  · rw [ChatEvent.keep, if_pos hown]
    refine ⟨?_, ?_, halone h.alone, halone h.alone'⟩
    · show (chat.step env mode (.arrive row)).keys k = (chat'.step env mode (.arrive row)).keys k
      rw [step_arrive_keys, step_arrive_keys, h.keys]
    · show textsOf m.id (chat.step env mode (.arrive row)).messages =
        textsOf m.id (chat'.step env mode (.arrive row)).messages
      rw [textsOf_arrive, textsOf_arrive, h.texts]
      by_cases hid : row.id = m.id
      · rw [hrow hid, handleIncoming_plainText, handleIncoming_plainText, hm, Option.bind_some, Option.bind_some,
          h.keys]
      · rw [if_neg fun hc => hid hc.1, if_neg fun hc => hid hc.1]
  · rw [ChatEvent.keep, if_neg hown]
    have hne : row.id ≠ m.id := fun hid => hown (decide_eq_true (.inl hid))
    refine ⟨?_, ?_, halone h.alone, h.alone'⟩
    · rw [step_arrive_keys]
      exact h.keys
    · rw [textsOf_arrive, if_neg fun hc => hne hc.1]
      exact h.texts

/-- Step lemma: an event that does not disturb `m` does to its chat what its rows of `m` do to the other. -/
theorem agreeOn_step (hm : env.sessionOf mode m = some (p, k)) (chat chat' : Chat) (e : ChatEvent)
    (h : AgreeOn m k chat chat') (hclean : Undisturbed env mode m k chat e) :
    AgreeOn m k (chat.step env mode e)
      ((e.keep (env.isOwn mode m)).elim chat' (chat'.step env mode)) := by
  cases e with
  | load rows granted => exact agreeOn_load hm h hclean
  | decrypt row granted => exact agreeOn_decrypt hm h hclean
  | arrive row => exact agreeOn_arrive hm h hclean

/-- Run lemma: `m` reads as in the chat that shows its sender's messages alone. -/
theorem textsOf_run (hm : env.sessionOf mode m = some (p, k)) {chat : Chat} {events : List ChatEvent}
    {seen : Seen} (hkeys : keys k = keys' k) (seen' : Seen)
    (h : Run (restrict (Undisturbed env mode m k) (ofFun (Chat.step env mode))) ⟨keys, seen, []⟩ events chat) :
    textsOf m.id chat.messages = textsOf m.id
      ((events.filterMap (ChatEvent.keep (env.isOwn mode m))).foldl (Chat.step env mode)
        ⟨keys', seen', []⟩).messages := by
  have hstart : AgreeOn m k ⟨keys, seen, []⟩ ⟨keys', seen', []⟩ :=
    ⟨hkeys, rfl, fun _ hx => (by cases hx), fun _ hx => (by cases hx)⟩
  exact (h.rel_view (agreeOn_step hm) hstart).texts

end isolation

/-- Two histories that nothing disturbs read `m` alike, where they show the same messages of its sender in its
session and begin with the same key of the session. -/
theorem session_isolated (env : Reader) (mode : Kind) (m : MessageRow) (p : Value) (k : Text)
    (keys keys' : SessionKeys) (seen seen' : Seen) (events events' : List ChatEvent) (chat chat' : Chat)
    (hm : env.sessionOf mode m = some (p, k)) (hkeys : keys k = keys' k)
    (hview : events.filterMap (ChatEvent.keep (env.isOwn mode m)) =
      events'.filterMap (ChatEvent.keep (env.isOwn mode m)))
    (h : Run (restrict (Undisturbed env mode m k) (ofFun (Chat.step env mode))) ⟨keys, seen, []⟩ events chat)
    (h' : Run (restrict (Undisturbed env mode m k) (ofFun (Chat.step env mode))) ⟨keys', seen', []⟩ events' chat') :
    textsOf m.id chat.messages = textsOf m.id chat'.messages := by
  rw [textsOf_run hm hkeys seen h, textsOf_run hm rfl seen h', hview]

/-! ## Two senders of one session -/

section sample

/-- An address of one digit. -/
def uniformAddress (c : Char) : Text := List.replicate 96 (.char c)

/-- The payload of a group message of the session `s` in the channel `g`, with a wrapped key for its reader. -/
def sharedPayload (key : String) : Value :=
  .obj [(lit "v", .num ⟨['2'], by decide, by decide⟩), (lit "sid", .str (lit "s")), (lit "gid", .str (lit "g")),
    (lit "ts", .num ⟨['0'], by decide, by decide⟩), (lit "seq", .num ⟨['0'], by decide, by decide⟩),
    (lit "keys", .obj [(lit "me", .str (lit key))]), (lit "ct", .str (lit "ct")), (lit "sig", .str (lit "sig"))]

/-- A row whose content is the wrapped key of its payload, from the sender whose identity key is its digit. -/
def sharedRow (id : ℕ) (sender : Char) (key : String) : MessageRow :=
  ⟨id, uniformAddress sender, lit "g", .notJson key, none⟩

/-- Every signature verifies, a wrapped key opens to itself, and the message is encrypted with the key `ka`. -/
def sharedReader : Reader where
  parseJson d := match d with
    | .notJson raw => some (sharedPayload raw)
    | _ => none
  sha384Hex text := text
  addressOf key := some key
  verifySignature _ _ _ := true
  identityKeyFor address := some address
  me := lit "me"
  unwrapSessionKey blob := match blob with
    | .str key => some key
    | _ => none
  decryptWithSessionKey _ key := if key = lit "ka" then some (lit "text") else none

/-- A reader without keys who loads a page. -/
def sharedChat (rows : List MessageRow) : Chat :=
  [.load rows true].foldl (Chat.step sharedReader .group) ⟨fun _ => none, fun _ => none, []⟩

theorem sessionOf_shared (id : ℕ) (sender : Char) (key : String) :
    sharedReader.sessionOf .group (sharedRow id sender key) = some (sharedPayload key, lit "group_g:s") := rfl

theorem isOwn_shared : sharedReader.isOwn .group (sharedRow 0 'a' "ka") (sharedRow 0 'a' "ka") = true ∧
    sharedReader.isOwn .group (sharedRow 0 'a' "ka") (sharedRow 1 'b' "kb") = false := by decide +kernel

/-- The text of the message, after the offer of another sender, before it, and alone. -/
theorem textsOf_shared :
    textsOf 0 (sharedChat [sharedRow 1 'b' "kb", sharedRow 0 'a' "ka"]).messages = [none] ∧
      textsOf 0 (sharedChat [sharedRow 0 'a' "ka"]).messages = [some (lit "text")] := by decide +kernel

/-- A page that begins with the message is not disturbed. -/
theorem undisturbed_shared {rows : List MessageRow} (chat : Chat)
    (hrows : rows = [sharedRow 0 'a' "ka"] ∨ rows = [sharedRow 0 'a' "ka", sharedRow 1 'b' "kb"]) :
    Undisturbed sharedReader .group (sharedRow 0 'a' "ka") (lit "group_g:s") chat (.load rows true) := by
  have hoffer : sharedReader.offers .group (lit "group_g:s") (sharedRow 0 'a' "ka") = true := by decide +kernel
  have hmem : ∀ row ∈ rows, row = sharedRow 0 'a' "ka" ∨ row = sharedRow 1 'b' "kb" := by
    rcases hrows with rfl | rfl <;> simp
  refine ⟨fun row hrow hid => ?_, ?_, fun _ row hrow => ?_⟩
  · rcases hmem row hrow with rfl | rfl
    · rfl
    · cases hid
  · intro rows' granted heq row hrow _
    obtain ⟨rfl, -⟩ := ChatEvent.load.inj heq
    rcases hmem row hrow with rfl | rfl <;> rfl
  · have hfirst : rows.find? (sharedReader.offers .group (lit "group_g:s")) = some (sharedRow 0 'a' "ka") := by
      rcases hrows with rfl | rfl <;> exact List.find?_cons_of_pos hoffer
    obtain rfl : sharedRow 0 'a' "ka" = row := Option.some.inj (hfirst.symm.trans hrow)
    rfl

/-- Another sender's offer after the message leaves its text. -/
theorem session_isolated_sample :
    textsOf 0 (sharedChat [sharedRow 0 'a' "ka", sharedRow 1 'b' "kb"]).messages =
      textsOf 0 (sharedChat [sharedRow 0 'a' "ka"]).messages := by
  refine session_isolated sharedReader .group (sharedRow 0 'a' "ka") _ (lit "group_g:s") (fun _ => none)
    (fun _ => none) (fun _ => none) (fun _ => none) [.load [sharedRow 0 'a' "ka", sharedRow 1 'b' "kb"] true]
    [.load [sharedRow 0 'a' "ka"] true] _ _ (sessionOf_shared _ _ _) rfl ?_
    (.single ⟨undisturbed_shared _ (.inr rfl), rfl⟩) (.single ⟨undisturbed_shared _ (.inl rfl), rfl⟩)
  simp [ChatEvent.keep, isOwn_shared]

/-- An offer of another sender that comes first leaves the message unread. -/
theorem not_session_isolated : ¬ ∀ (env : Reader) (mode : Kind) (m : MessageRow) (p : Value) (k : Text)
    (keys : SessionKeys) (seen : Seen) (events events' : List ChatEvent), env.sessionOf mode m = some (p, k) →
    events.filterMap (ChatEvent.keep (env.isOwn mode m)) = events'.filterMap (ChatEvent.keep (env.isOwn mode m)) →
    textsOf m.id (events.foldl (Chat.step env mode) ⟨keys, seen, []⟩).messages =
      textsOf m.id (events'.foldl (Chat.step env mode) ⟨keys, seen, []⟩).messages := by
  intro h
  have halike := h sharedReader .group (sharedRow 0 'a' "ka") _ (lit "group_g:s") (fun _ => none) (fun _ => none)
    [.load [sharedRow 1 'b' "kb", sharedRow 0 'a' "ka"] true] [.load [sharedRow 0 'a' "ka"] true]
    (sessionOf_shared _ _ _) (by simp [ChatEvent.keep, isOwn_shared])
  have htexts := textsOf_shared.1.symm.trans (halike.trans textsOf_shared.2)
  cases List.cons.inj htexts |>.1

end sample

end Kryptolog.Client
