import Kryptolog.Client.SendSequence

/-! # Where the keys of sends come from

A send finds its key in the cache that received messages fill too. Where no batch of unwrapped keys replaces the
cache while a key waits for the next commit, and no unwrapped key takes the place of another, every message is
encrypted with a key that the client generated for its conversation, and a key stays in the cache.
-/

namespace Kryptolog.Client
set_option autoImplicit false

open Script
open Server (Kind)
open Runs

/-! ## What the gate lets pass -/

/-- With these stores, the gate lets a key be wrapped for a contact. -/
def TrustGate.Accepts (gate : TrustGate) (s : TrustStores) (m : Contact) : Prop :=
  gate.attestationStatus m = .verified ∧
    (m.address = toLowerCase gate.me ∨ checkContactKey s.keys m.address m.encryptionPublicKey ≠ .changed)

section gate

variable {gate : TrustGate} {now : Number} {s s' : TrustStores} {user m : Contact} {stored : Option Value}
  {address : Text} {r : Value} {members recipients : List Contact} {target : Target}

theorem attestationVerdict_verified (h : (gate.attestationVerdict now s user).2 = .verified) :
    gate.attestationStatus user = .verified := by
  rw [TrustGate.attestationVerdict] at h
  split at h
  · assumption
  · split at h <;> cases h
  · exact h

/-- A first use keeps the records that are there. -/
theorem recordOf_pinContactKey (hr : TrustStore.recordOf stored address = some r) (htruthy : r.truthy = true) :
    TrustStore.recordOf (pinContactKey now stored user).1 address = some r := by
  rw [pinContactKey]
  simp only
  split
  · next hnew =>
    rw [trustContactKey]
    split
    · exact hr
    · by_cases haddress : toLowerCase address = toLowerCase user.address
      · -- a contact with a record is not new
        rw [checkContactKey] at hnew
        split at hnew
        · cases hnew
        · rw [TrustStore.recordOf] at hr
          rw [TrustStore.recordOf, ← haddress, hr] at hnew
          simp only [Option.filter_some, htruthy, if_true] at hnew
          split at hnew <;> cases hnew
      · exact (recordOf_remember_ne _ _ haddress).trans hr
  · exact hr

/-- A key that has changed is still changed after another member has passed the gate. -/
theorem changed_gateMember (h : checkContactKey s.keys m.address m.encryptionPublicKey = .changed) :
    checkContactKey (gate.gateMember now s user).1.keys m.address m.encryptionPublicKey = .changed := by
  have hpin : checkContactKey (pinContactKey now s.keys user).1 m.address m.encryptionPublicKey = .changed := by
    rw [checkContactKey] at h ⊢
    split at h
    · cases h
    · next hempty =>
      rw [if_neg hempty]
      cases hr : TrustStore.recordOf s.keys m.address with
      | none =>
        rw [hr] at h
        cases h
      | some r =>
        rw [hr] at h
        by_cases htruthy : r.truthy = true
        · rw [recordOf_pinContactKey hr htruthy]
          exact h
        · simp [Option.filter_some, htruthy] at h
  rcases @gateMember_stores gate now s user with hs | hs | hs
  · rw [hs]
    exact h
  · rw [hs, attestationVerdict_keys]
    exact h
  · rw [hs]
    exact hpin

theorem accepts_of_gateMember (h : (gate.gateMember now s user).2 = true) : gate.Accepts s user := by
  rw [TrustGate.gateMember] at h
  split at h
  · cases h
  · simp only at h
    split at h
    · cases h
    · next hverified =>
      refine ⟨attestationVerdict_verified (not_not.mp hverified), ?_⟩
      split at h
      · next hown => exact .inl hown
      · refine .inr fun hchanged => ?_
        rw [attestationVerdict_keys, pinContactKey, hchanged] at h
        cases h

theorem accepts_of_sendGate (h : (gate.sendGate now s user).2 = true) : gate.Accepts s user := by
  rw [TrustGate.sendGate] at h
  split at h
  · cases h
  · simp only at h
    split at h
    · next hsafe =>
      have hverified : (gate.attestationVerdict now s user).2 = .verified := of_decide_eq_true hsafe
      refine ⟨attestationVerdict_verified hverified, .inr fun hchanged => ?_⟩
      have hkeys : (gate.assertSafeRecipient now s user).1.keys = s.keys := attestationVerdict_keys
      rw [hkeys, assertKeyUnchanged, pinContactKey, hchanged] at h
      cases h
    · cases h

/-- The members that the gate leaves are accepted by the stores it began with. -/
theorem accepts_of_gateGroupMembers (h : m ∈ (gateGroupMembers gate now s members).2) : gate.Accepts s m := by
  induction members generalizing s with
  | nil => cases h
  | cons first members ih =>
    have hback (hm : gate.Accepts (gate.gateMember now s first).1 m) : gate.Accepts s m :=
      ⟨hm.1, hm.2.imp_right fun hok hchanged => hok (changed_gateMember hchanged)⟩
    rw [gateGroupMembers] at h
    simp only at h
    split at h
    · next hsafe =>
      rcases List.mem_cons.mp h with rfl | h
      · exact accepts_of_gateMember hsafe
      · exact hback (ih h)
    · exact hback (ih h)

/-- Each key that a session key is wrapped to is the sender's own, or one that the gate accepts. -/
def Sender.Wraps (env : Sender) (gated : TrustStores) (wraps : List (Text × Text)) : Prop :=
  ∀ e ∈ wraps, e.1 = env.me ∨ ∃ m : Contact, (e.1 = m.address ∨ e.1 = toLowerCase m.address) ∧
    e.2 = m.encryptionPublicKey ∧ env.gate.Accepts gated m

theorem wraps_of_gate {env : Sender} {ownKey : Text} (h : target.gate env.gate now s = (s', some recipients)) :
    env.Wraps s (target.wraps env.me ownKey recipients) := by
  intro e he
  cases target with
  | partner user =>
    simp only [Target.gate, Prod.mk.injEq, Option.ite_none_right_eq_some] at h
    rcases List.mem_cons.mp he with rfl | he
    · exact .inr ⟨user, .inr rfl, rfl, accepts_of_sendGate h.2.1⟩
    · split at he
      · cases he
      · rw [List.mem_singleton.mp he]
        exact .inl rfl
  | channel id members =>
    simp only [Target.gate, Prod.mk.injEq, Option.some.injEq] at h
    obtain ⟨m, hm, rfl⟩ := List.mem_map.mp he
    exact .inr ⟨m, .inl rfl, rfl, accepts_of_gateGroupMembers (h.2 ▸ hm)⟩

end gate

/-! ## Keys -/

/-- The update may change the cache of session keys. -/
def KeyUpdate.writesKeys : KeyUpdate → Bool
  | addKey _ _ | setKeys _ => true
  | activate _ _ | deactivate _ => false

/-- The key ids that an arrival names, and of them those that the custody is asked for. -/
def Loading.ids (env : Sender) : Loading → List Text
  | verifying mode rows => SendPage.namesOf env mode rows
  | unwrapping wrapped => wrapped.map (·.1)
  | byHand id _ => [id]
  | ended => []

/-- A message that has its session and its position. -/
def SendPoint.numbered : SendPoint → Option Numbered
  | sealing n | posting n _ _ | answering n => some n
  | gating | minting _ _ => none

namespace SendPage

variable (env : Sender) (s : SendPage)

/-- No key is in the cache, or queued for it, under the ids of an arrival. -/
def Lacks (i : ℕ) : Bool := ((s.loads[i]?).toList.flatMap (Loading.ids env)).all fun id =>
  (s.current.sessionKeys id).isNone

/-- The action replaces no key of the cache, and no key that is queued for it. -/
def KeepsKeys : SendAction → Prop
  | .adopt i true => s.queue.all (!·.writesKeys) = true ∧ s.Lacks env i = true
  | .adoptOne i true => s.Lacks env i = true
  | _ => True

instance : ∀ a, Decidable (s.KeepsKeys env a)
  | .adopt i true => inferInstanceAs (Decidable (s.queue.all (!·.writesKeys) = true ∧ s.Lacks env i = true))
  | .adoptOne i true => inferInstanceAs (Decidable (s.Lacks env i = true))
  | .adopt _ false | .adoptOne _ false | .submit .. | .gate _ | .mint .. | .failMint | .sign .. | .failSign
  | .accept .. | .refuse | .respond | .lose | .receive .. | .collect _ | .decrypt .. | .arrive .. | .invalidate _
  | .trust .. | .commit => .isTrue trivial

/-- The client has started the session with the key. -/
def HasSession (conv sid key : Text) : Prop := ∃ x ∈ s.sessions, x.conv = conv ∧ x.sid = sid ∧ x.key = key

/-- The keys of a rendered state are kept, and its active sessions are the client's own. -/
structure Sees (r : Rendered) : Prop where
  keys : ∀ id k, r.sessionKeys id = some k → s.current.sessionKeys id = some k
  active : ∀ conv sid, r.activeSessionIds conv = some sid → ∃ key, s.HasSession conv sid key

/-- What holds of a send in progress. -/
structure SendsOwn (d : Sending) : Prop where
  snapshot : s.Sees d.snapshot
  numbered : ∀ n, d.point.numbered = some n → s.HasSession d.target.conv n.sid n.key
  minting : ∀ gated recipients, d.point = .minting gated recipients →
    env.Wraps gated (d.target.wraps env.me d.ownKey recipients)

/-- The cache has the key of every session that the client has started. -/
structure KeysOwn : Prop where
  own : ∀ x ∈ s.sessions, s.current.sessionKeys x.keyId = some x.key
  wraps : ∀ x ∈ s.sessions, env.Wraps x.gated x.wraps
  rendered : s.Sees s.rendered
  current : s.Sees s.current
  sending : ∀ d, s.sending = some d → SendsOwn env s d
  accepted : ∀ m ∈ s.accepted, s.HasSession m.target.conv m.n.sid m.n.key
  named : ∀ id k, s.current.sessionKeys id = some k → id ∈ s.named
  loads : ∀ load ∈ s.loads, ∀ id ∈ load.ids env, id ∈ s.named

/-- The keys and the sessions of a page are those of an earlier one, and more. -/
structure Grows (t : SendPage) : Prop where
  keys : ∀ id k, s.current.sessionKeys id = some k → t.current.sessionKeys id = some k
  sessions : s.sessions ⊆ t.sessions
  named : s.named ⊆ t.named

end SendPage

section keeps

variable {env : Sender} {s t : SendPage} {a : SendAction} {d : Sending} {conv sid key : Text} {r : Rendered}

theorem current_congr (hrendered : t.rendered = s.rendered) (hqueue : t.queue = s.queue) : t.current = s.current := by
  rw [SendPage.current, SendPage.current, hrendered, hqueue]

theorem current_append {updates : List KeyUpdate} (hrendered : t.rendered = s.rendered)
    (hqueue : t.queue = s.queue ++ updates) : t.current = updates.foldl KeyUpdate.apply s.current := by
  rw [SendPage.current, SendPage.current, hrendered, hqueue, List.foldl_append]

theorem SendPage.HasSession.grows (h : s.HasSession conv sid key) (hgrows : s.Grows t) : t.HasSession conv sid key :=
  let ⟨x, hx, hparts⟩ := h
  ⟨x, hgrows.sessions hx, hparts⟩

theorem SendPage.Sees.grows (h : s.Sees r) (hgrows : s.Grows t) : t.Sees r where
  keys id k hk := hgrows.keys id k (h.keys id k hk)
  active conv sid hactive :=
    let ⟨key, hkey⟩ := h.active conv sid hactive
    ⟨key, hkey.grows hgrows⟩

theorem SendPage.SendsOwn.grows (h : s.SendsOwn env d) (hgrows : s.Grows t) : t.SendsOwn env d where
  snapshot := h.snapshot.grows hgrows
  numbered n hn := (h.numbered n hn).grows hgrows
  minting := h.minting

/-- A step that leaves what is rendered, what is queued and the sessions. -/
theorem SendPage.KeysOwn.still (h : s.KeysOwn env) (hrendered : t.rendered = s.rendered) (hqueue : t.queue = s.queue)
    (hsessions : t.sessions = s.sessions) (hnamed : s.named ⊆ t.named)
    (hsending : ∀ d, t.sending = some d → s.SendsOwn env d)
    (haccepted : ∀ m ∈ t.accepted, s.HasSession m.target.conv m.n.sid m.n.key)
    (hloads : ∀ load ∈ t.loads, ∀ id ∈ load.ids env, id ∈ t.named) : t.KeysOwn env := by
  have hcurrent := current_congr hrendered hqueue
  have hgrows : s.Grows t := ⟨fun id k hk => hcurrent ▸ hk, hsessions ▸ List.Subset.refl _, hnamed⟩
  refine ⟨fun x hx => ?_, fun x hx => h.wraps x (hsessions ▸ hx), ?_, ?_, fun d hd => (hsending d hd).grows hgrows,
    fun m hm => (haccepted m hm).grows hgrows, fun id k hk => ?_, hloads⟩
  · rw [hcurrent]
    exact h.own x (hsessions ▸ hx)
  · rw [hrendered]
    exact h.rendered.grows hgrows
  · rw [hcurrent]
    exact h.current.grows hgrows
  · exact hnamed (h.named id k (hcurrent ▸ hk))

/-- A step that queues updates and starts no session. -/
theorem SendPage.KeysOwn.queued (h : s.KeysOwn env) (hrendered : t.rendered = s.rendered)
    (hsessions : t.sessions = s.sessions) (hnamed : t.named = s.named)
    (hkeys : ∀ id k, s.current.sessionKeys id = some k → t.current.sessionKeys id = some k)
    (hnew : ∀ id k, t.current.sessionKeys id = some k → id ∈ s.named)
    (hactive : ∀ conv sid, t.current.activeSessionIds conv = some sid →
      s.current.activeSessionIds conv = some sid)
    (hsending : ∀ d, t.sending = some d → s.SendsOwn env d) (haccepted : t.accepted = s.accepted)
    (hloads : ∀ load ∈ t.loads, ∀ id ∈ load.ids env, id ∈ s.named) : t.KeysOwn env := by
  have hgrows : s.Grows t := ⟨hkeys, hsessions ▸ List.Subset.refl _, hnamed ▸ List.Subset.refl _⟩
  refine ⟨fun x hx => hkeys _ _ (h.own x (hsessions ▸ hx)), fun x hx => h.wraps x (hsessions ▸ hx), ?_,
    ⟨fun _ _ hk => hk, fun conv sid hsid => ?_⟩, fun d hd => (hsending d hd).grows hgrows,
    fun m hm => (h.accepted m (haccepted ▸ hm)).grows hgrows, fun id k hk => hnamed ▸ hnew id k hk,
    fun load hload id hid => hnamed ▸ hloads load hload id hid⟩
  · rw [hrendered]
    exact h.rendered.grows hgrows
  · obtain ⟨key, hkey⟩ := h.current.active conv sid (hactive conv sid hsid)
    exact ⟨key, hkey.grows hgrows⟩

/-! ### Steps -/

theorem current_keys_of_quiet (h : s.queue.all (!·.writesKeys) = true) :
    s.current.sessionKeys = s.rendered.sessionKeys := by
  rw [SendPage.current]
  revert h
  generalize s.rendered = r
  generalize s.queue = queue
  intro h
  induction queue generalizing r with
  | nil => rfl
  | cons u queue ih =>
    obtain ⟨hu, hqueue⟩ := Bool.and_eq_true_iff.mp h
    rw [List.foldl_cons, ih _ hqueue]
    cases u with
    | addKey id key => cases hu
    | setKeys keys => cases hu
    | activate conv sid => rfl
    | deactivate conv => rfl

theorem decryptCached_parts {mode : Kind} {keys : SessionKeys} {m m' : Received}
    (h : env.decryptCached mode keys m = some m') : m'.row = m.row ∧ m'.payload = m.payload := by
  rw [Reader.decryptCached] at h
  split at h
  · exact Option.some.inj h ▸ ⟨rfl, rfl⟩
  · split at h
    · exact Option.some.inj h ▸ ⟨rfl, rfl⟩
    · obtain ⟨id, -, rfl⟩ := Option.map_eq_some_iff.mp h
      split
      · split <;> exact ⟨rfl, rfl⟩
      · exact ⟨rfl, rfl⟩

theorem keysToUnwrap_ids {mode : Kind} {keys : SessionKeys} {ms : List Received} {e : Text × Value}
    (h : e ∈ env.keysToUnwrap mode keys ms) : ∃ m ∈ ms, ∃ blob, env.seed mode m = some (e.1, blob) := by
  induction ms with
  | nil => cases h
  | cons m ms ih =>
    have hrest (h : e ∈ env.keysToUnwrap mode keys ms) : ∃ m' ∈ m :: ms, ∃ blob, env.seed mode m' = some (e.1, blob) :=
      let ⟨m', hm', hseed⟩ := ih h
      ⟨m', List.mem_cons_of_mem _ hm', hseed⟩
    rw [Reader.keysToUnwrap] at h
    split at h
    · next id blob hseed =>
      split at h
      · exact hrest h
      · rcases List.mem_cons.mp h with rfl | h
        · exact ⟨m, List.mem_cons_self, blob, hseed⟩
        · exact hrest (List.mem_of_mem_filter h)
    · exact hrest h

/-- The custody is asked for the keys of sessions that the rows name. -/
theorem mem_namesOf_of_wrapped {mode : Kind} {rows : List MessageRow} {e : Text × Value}
    (h : e ∈ s.wrappedOf env mode rows) : e.1 ∈ SendPage.namesOf env mode rows := by
  rw [SendPage.wrappedOf] at h
  split at h
  · next processed hprocessed =>
    obtain ⟨m, hm, blob, hseed⟩ := keysToUnwrap_ids h
    obtain ⟨i, hi, rfl⟩ := List.mem_iff_getElem.mp hm
    have hall := Fallible.mapM_eq_some.mp hprocessed
    have hlength := hall.length_eq
    have hi' : i < (rows.map (env.prepare mode)).length := hlength ▸ hi
    obtain ⟨hrow, hpayload⟩ := decryptCached_parts (hall.get hi' hi)
    rw [List.length_map] at hi'
    refine List.mem_filterMap.mpr ⟨rows[i], List.getElem_mem hi', ?_⟩
    simp only [List.get_eq_getElem, List.getElem_map, Reader.prepare] at hrow hpayload
    simp only [Reader.seed, hrow, hpayload, Option.bind_eq_bind, Option.bind_eq_some_iff] at hseed
    obtain ⟨p, hp, id, hid, hif⟩ := hseed
    split at hif
    · obtain ⟨_, -, heq⟩ := Option.map_eq_some_iff.mp hif
      obtain ⟨rfl, -⟩ := Prod.mk.inj heq
      rw [sessionOf_eq_some.mpr ⟨hp, hid⟩, Option.map_some]
    · cases hif
  · cases h

theorem lacks_iff {i : ℕ} {load : Loading} (hload : s.loads[i]? = some load) :
    s.Lacks env i = true ↔ ∀ id ∈ load.ids env, s.current.sessionKeys id = none := by
  rw [SendPage.Lacks, hload]
  simp

theorem keysOwn_start (stores : TrustStores) : (SendPage.start stores).KeysOwn env where
  own _ hx := nomatch hx
  wraps _ hx := nomatch hx
  rendered := ⟨fun _ _ hk => hk, nofun⟩
  current := ⟨fun _ _ hk => hk, nofun⟩
  sending _ hd := nomatch hd
  accepted _ hm := nomatch hm
  named _ _ hk := nomatch hk
  loads _ hload := nomatch hload

/-- The session that is reused is the client's own, with its key. -/
theorem SendPage.KeysOwn.reused (h : s.KeysOwn env) (hsnapshot : s.Sees d.snapshot) {recipients : List Contact}
    {now : ℕ} {st : SendState} (hreuse : s.reusable d recipients now = some (sid, key, st)) :
    s.HasSession d.target.conv sid key := by
  simp only [SendPage.reusable, Option.bind_eq_bind, Option.bind_eq_some_iff] at hreuse
  obtain ⟨sid', hsid, key', hkey, st', -, hif⟩ := hreuse
  split at hif
  · obtain ⟨rfl, rfl, -⟩ : sid' = sid ∧ key' = key ∧ st' = st := by simpa using hif
    obtain ⟨_, x, hx, hconv, hxsid, -⟩ := hsnapshot.active _ _ hsid
    refine ⟨x, hx, hconv, hxsid, ?_⟩
    have hown := h.own x hx
    rw [StartedSession.keyId, hconv, hxsid, hsnapshot.keys _ _ hkey] at hown
    exact (Option.some.inj hown).symm
  · cases hif

theorem keysOwn_passGate (h : s.KeysOwn env) (hsending : s.sending = some d) (now : ℕ) :
    (s.passGate env d now).KeysOwn env := by
  have hd := h.sending d hsending
  rw [SendPage.passGate]
  split
  next stores passed hgate =>
  cases passed with
  | none => exact h.still rfl rfl rfl (List.Subset.refl _) (by simp) h.accepted h.loads
  | some recipients =>
    simp only
    cases hreuse : s.reusable d recipients now with
    | none =>
      refine h.still rfl rfl rfl (List.Subset.refl _) (fun d' hd' => ?_) h.accepted h.loads
      obtain rfl := Option.some.inj hd'
      refine ⟨hd.snapshot, by simp [SendPoint.numbered], fun gated recipients' hpoint => ?_⟩
      obtain ⟨rfl, rfl⟩ := SendPoint.minting.inj hpoint
      exact wraps_of_gate hgate
    | some e =>
      obtain ⟨sid, key, st⟩ := e
      refine h.still rfl rfl rfl (List.Subset.refl _) (fun d' hd' => ?_) h.accepted h.loads
      obtain rfl := Option.some.inj hd'
      refine ⟨hd.snapshot, fun n hn => ?_, by simp⟩
      obtain rfl := Option.some.inj hn
      exact h.reused hd.snapshot hreuse

theorem keysOwn_startSession (h : s.KeysOwn env) (hsending : s.sending = some d) {gated : TrustStores}
    {recipients : List Contact} (hpoint : d.point = .minting gated recipients)
    (hfresh : keyIdOf d.target.conv sid ∉ s.named) (now : ℕ) :
    (s.startSession env d gated recipients sid key now).KeysOwn env := by
  have hd := h.sending d hsending
  generalize ht : s.startSession env d gated recipients sid key now = t
  have hcurrent : t.current = [KeyUpdate.addKey (keyIdOf d.target.conv sid) key, .activate d.target.conv sid].foldl
      KeyUpdate.apply s.current := by
    rw [← ht]
    exact current_append rfl rfl
  have hkeys : t.current.sessionKeys = Function.update s.current.sessionKeys (keyIdOf d.target.conv sid) (some key) := by
    rw [hcurrent]
    rfl
  have hactive : t.current.activeSessionIds =
      Function.update s.current.activeSessionIds d.target.conv (some sid) := by
    rw [hcurrent]
    rfl
  have hsessions : t.sessions =
      ⟨d.target.conv, sid, key, d.target.wraps env.me d.ownKey recipients, gated⟩ :: s.sessions := by
    rw [← ht]
    rfl
  have hnamed : t.named = keyIdOf d.target.conv sid :: s.named := by
    rw [← ht]
    rfl
  have hold (id : Text) (k : Text) (hk : s.current.sessionKeys id = some k) : id ≠ keyIdOf d.target.conv sid := by
    rintro rfl
    exact hfresh (h.named _ _ hk)
  have hgrows : s.Grows t := by
    refine ⟨fun id k hk => ?_, hsessions ▸ List.subset_cons_self _ _, hnamed ▸ List.subset_cons_self _ _⟩
    rw [hkeys, Function.update_of_ne (hold id k hk)]
    exact hk
  have hnew : t.HasSession d.target.conv sid key := ⟨_, hsessions ▸ List.mem_cons_self, rfl, rfl, rfl⟩
  refine ⟨fun x hx => ?_, fun x hx => ?_, ?_, ⟨fun _ _ hk => hk, fun conv sid' hsid => ?_⟩, fun d' hd' => ?_,
    fun m hm => ?_, fun id k hk => ?_, fun load hload id hid => ?_⟩
  · rw [hsessions] at hx
    rcases List.mem_cons.mp hx with rfl | hx
    · rw [hkeys]
      exact Function.update_self ..
    · exact hgrows.keys _ _ (h.own x hx)
  · rw [hsessions] at hx
    rcases List.mem_cons.mp hx with rfl | hx
    · exact hd.minting gated recipients hpoint
    · exact h.wraps x hx
  · have hrendered : t.rendered = s.rendered := by
      rw [← ht]
      rfl
    rw [hrendered]
    exact h.rendered.grows hgrows
  · rw [hactive] at hsid
    by_cases hconv : conv = d.target.conv
    · rw [hconv, Function.update_self] at hsid
      obtain rfl := Option.some.inj hsid
      exact ⟨key, hconv ▸ hnew⟩
    · rw [Function.update_of_ne hconv] at hsid
      obtain ⟨key', hkey'⟩ := h.current.active conv sid' hsid
      exact ⟨key', hkey'.grows hgrows⟩
  · rw [← ht] at hd'
    obtain rfl := Option.some.inj hd'
    refine ⟨hd.snapshot.grows hgrows, fun n hn => ?_, nofun⟩
    obtain rfl := Option.some.inj hn
    exact hnew
  · rw [← ht] at hm
    exact (h.accepted m hm).grows hgrows
  · rw [hkeys] at hk
    rw [hnamed]
    by_cases hid : id = keyIdOf d.target.conv sid
    · exact hid ▸ List.mem_cons_self
    · rw [Function.update_of_ne hid] at hk
      exact List.mem_cons_of_mem _ (h.named id k hk)
  · rw [← ht] at hload
    exact hgrows.named (h.loads load hload id hid)

theorem keysOwn_failPost (h : s.KeysOwn env) (d : Sending) (n : Numbered) : (s.failPost d n).KeysOwn env := by
  rw [SendPage.failPost]
  split
  · have hcurrent := current_append (s := s) (t := { s with
      sendState := Function.update s.sendState (keyIdOf d.target.conv n.sid) none
      queue := s.queue ++ [.deactivate d.target.conv]
      sending := none }) rfl rfl
    refine h.queued rfl rfl rfl (fun id k hk => by rw [hcurrent]; exact hk) (fun id k hk => ?_)
      (fun conv sid hsid => ?_) (by simp) rfl h.loads
    · rw [hcurrent] at hk
      exact h.named id k hk
    · rw [hcurrent] at hsid
      by_cases hconv : conv = d.target.conv
      · rw [hconv] at hsid
        simp [KeyUpdate.apply] at hsid
      · simpa [KeyUpdate.apply, Function.update_of_ne hconv] using hsid
  · exact h.still rfl rfl rfl (List.Subset.refl _) (by simp) h.accepted h.loads

/-- A load that has ended names nothing. -/
theorem SendPage.KeysOwn.ended (h : s.KeysOwn env) (i : ℕ) :
    ∀ load ∈ s.loads.set i .ended, ∀ id ∈ load.ids env, id ∈ s.named := by
  intro load hload id hid
  rcases List.mem_or_eq_of_mem_set hload with hload | rfl
  · exact h.loads load hload id hid
  · cases hid

theorem keysOwn_adopt (h : s.KeysOwn env) {i : ℕ} {wrapped : List (Text × Value)} {granted : Bool}
    (hkeeps : s.KeepsKeys env (.adopt i granted)) (hload : s.loads[i]? = some (.unwrapping wrapped))
    (ht : t = { s with
      loads := s.loads.set i .ended
      queue := s.queue ++ if granted then [.setKeys (env.adopt s.rendered.sessionKeys wrapped)] else [] }) :
    t.KeysOwn env := by
  subst ht
  cases granted with
  | false =>
    exact h.still rfl (List.append_nil _) rfl (List.Subset.refl _) h.sending h.accepted (h.ended i)
  | true =>
    obtain ⟨hquiet, hlacks⟩ := hkeeps
    rw [if_pos rfl]
    have hcurrent := current_append (s := s) (t := { s with
      loads := s.loads.set i .ended
      queue := s.queue ++ [.setKeys (env.adopt s.rendered.sessionKeys wrapped)] }) rfl rfl
    have hids {id : Text} {blob : Value} (hlookup : wrapped.lookup id = some blob) :
        id ∈ (Loading.unwrapping wrapped).ids env := by
      obtain ⟨before, rest, rfl, -⟩ := List.lookup_eq_some_iff.mp hlookup
      exact List.mem_map.mpr ⟨(id, blob), by simp, rfl⟩
    refine h.queued rfl rfl rfl (fun id k hk => ?_) (fun id k hk => ?_) (fun conv sid hsid => ?_) h.sending rfl
      (h.ended i)
    · rw [hcurrent]
      have hrendered : s.rendered.sessionKeys id = some k := by rwa [← current_keys_of_quiet hquiet]
      simp only [List.foldl_cons, List.foldl_nil, KeyUpdate.apply, Reader.adopt]
      cases hlookup : wrapped.lookup id with
      | none => exact hrendered
      | some blob =>
        rw [(lacks_iff hload).mp hlacks id (hids hlookup)] at hk
        cases hk
    · rw [hcurrent] at hk
      simp only [List.foldl_cons, List.foldl_nil, KeyUpdate.apply, Reader.adopt] at hk
      cases hlookup : wrapped.lookup id with
      | none =>
        rw [hlookup] at hk
        exact h.named id k (h.rendered.keys id k hk)
      | some blob => exact h.loads _ (List.mem_of_getElem? hload) id (hids hlookup)
    · rw [hcurrent] at hsid
      exact hsid

theorem keysOwn_adoptOne (h : s.KeysOwn env) {i : ℕ} {id : Text} {blob : Value} {granted : Bool}
    (hkeeps : s.KeepsKeys env (.adoptOne i granted)) (hload : s.loads[i]? = some (.byHand id blob))
    (ht : t = { s with
      loads := s.loads.set i .ended
      queue := s.queue ++ ((env.opened granted blob).map fun key => .addKey id key).toList }) : t.KeysOwn env := by
  subst ht
  cases hopened : env.opened granted blob with
  | none =>
    simp only [Option.map_none, Option.toList_none]
    exact h.still rfl (List.append_nil _) rfl (List.Subset.refl _) h.sending h.accepted (h.ended i)
  | some key =>
    have hlacks : s.Lacks env i = true := by
      cases granted with
      | false => cases hopened
      | true => exact hkeeps
    have hnone := (lacks_iff hload).mp hlacks id List.mem_cons_self
    simp only [Option.map_some, Option.toList_some]
    have hcurrent := current_append (s := s) (t := { s with
      loads := s.loads.set i .ended
      queue := s.queue ++ [.addKey id key] }) rfl rfl
    refine h.queued rfl rfl rfl (fun id' k hk => ?_) (fun id' k hk => ?_) (fun conv sid hsid => ?_) h.sending rfl
      (h.ended i)
    · rw [hcurrent]
      have hne : id' ≠ id := by
        rintro rfl
        rw [hnone] at hk
        cases hk
      simpa [KeyUpdate.apply, Function.update_of_ne hne] using hk
    · rw [hcurrent] at hk
      by_cases hid : id' = id
      · exact hid ▸ h.loads _ (List.mem_of_getElem? hload) id List.mem_cons_self
      · exact h.named id' k (by simpa [KeyUpdate.apply, Function.update_of_ne hid] using hk)
    · rw [hcurrent] at hsid
      exact hsid

/-- Every step that replaces no key keeps the client's keys. -/
theorem keysOwn_step (h : s.KeysOwn env) (hkeeps : s.KeepsKeys env a) (hstep : s.step env a = some t) :
    t.KeysOwn env := by
  have htakes := SendPage.takes_of_step hstep
  cases a with
  | submit target ownKey =>
    obtain ⟨-, rfl⟩ := htakes
    refine h.still rfl rfl rfl (List.Subset.refl _) (fun d hd => ?_) h.accepted h.loads
    obtain rfl := Option.some.inj hd
    exact ⟨h.rendered, nofun, nofun⟩
  | gate now =>
    obtain ⟨d, hsending, -, rfl⟩ := htakes
    exact keysOwn_passGate h hsending now
  | mint sid key now =>
    obtain ⟨d, gated, recipients, hsending, hpoint, hfresh, rfl⟩ := htakes
    exact keysOwn_startSession h hsending hpoint hfresh now
  | failMint =>
    obtain ⟨d, gated, recipients, -, -, rfl⟩ := htakes
    exact h.still rfl rfl rfl (List.Subset.refl _) nofun h.accepted h.loads
  | sign ct sig =>
    obtain ⟨d, n, hsending, hpoint, rfl⟩ := htakes
    have hd := h.sending d hsending
    refine h.still rfl rfl rfl (List.Subset.refl _) (fun d' hd' => ?_) h.accepted h.loads
    obtain rfl := Option.some.inj hd'
    refine ⟨hd.snapshot, fun n' hn' => ?_, nofun⟩
    obtain rfl := Option.some.inj hn'
    exact hd.numbered n (by rw [hpoint, SendPoint.numbered])
  | failSign =>
    obtain ⟨d, n, -, -, rfl⟩ := htakes
    exact h.still rfl rfl rfl (List.Subset.refl _) nofun h.accepted h.loads
  | accept id createdAt =>
    obtain ⟨d, n, ct, sig, hsending, hpoint, -, rfl⟩ := htakes
    have hd := h.sending d hsending
    have hn := hd.numbered n (by rw [hpoint, SendPoint.numbered])
    refine h.still rfl rfl rfl (List.Subset.refl _) (fun d' hd' => ?_) (fun m hm => ?_) h.loads
    · obtain rfl := Option.some.inj hd'
      refine ⟨hd.snapshot, fun n' hn' => ?_, nofun⟩
      obtain rfl := Option.some.inj hn'
      exact hn
    · rcases List.mem_append.mp hm with hm | hm
      · exact h.accepted m hm
      · rw [List.mem_singleton.mp hm]
        exact hn
  | refuse =>
    obtain ⟨d, n, ct, sig, -, -, rfl⟩ := htakes
    exact keysOwn_failPost h d n
  | respond =>
    obtain ⟨d, n, -, -, rfl⟩ := htakes
    exact h.still rfl rfl rfl (List.Subset.refl _) nofun h.accepted h.loads
  | lose =>
    obtain ⟨d, n, -, -, rfl⟩ := htakes
    exact keysOwn_failPost h d n
  | receive mode rows =>
    obtain rfl := htakes
    refine h.still rfl rfl rfl (List.subset_append_right _ _) h.sending h.accepted fun load hload id hid => ?_
    rcases List.mem_append.mp hload with hload | hload
    · exact List.mem_append_right _ (h.loads load hload id hid)
    · rw [List.mem_singleton.mp hload] at hid
      exact List.mem_append_left _ hid
  | collect i =>
    obtain ⟨mode, rows, hload, rfl⟩ := htakes
    have hnames := h.loads _ (List.mem_of_getElem? hload)
    refine h.still rfl rfl rfl (List.Subset.refl _) h.sending h.accepted fun load hmem id hid => ?_
    rcases List.mem_or_eq_of_mem_set hmem with hmem | rfl
    · exact h.loads load hmem id hid
    · split at hid
      · cases hid
      · obtain ⟨e, he, rfl⟩ := List.mem_map.mp hid
        exact hnames _ (mem_namesOf_of_wrapped he)
  | adopt i granted =>
    obtain ⟨wrapped, hload, ht⟩ := htakes
    exact keysOwn_adopt h hkeeps hload ht
  | decrypt mode row =>
    obtain rfl := htakes
    refine h.still rfl rfl rfl (List.subset_append_right _ _) h.sending h.accepted fun load hload id hid => ?_
    rcases List.mem_append.mp hload with hload | hload
    · exact List.mem_append_right _ (h.loads load hload id hid)
    · obtain ⟨e, he, rfl⟩ := Option.map_eq_some_iff.mp (Option.mem_toList.mp hload)
      obtain rfl := List.mem_singleton.mp hid
      simp only [SendPage.askedByHand, Option.bind_eq_bind, Option.bind_eq_some_iff] at he
      obtain ⟨⟨p, id⟩, hsession, hif⟩ := he
      split at hif
      · cases hif
      · obtain ⟨_, -, rfl⟩ := Option.map_eq_some_iff.mp hif
        refine List.mem_append_left _ (List.mem_filterMap.mpr ⟨row, List.mem_cons_self, ?_⟩)
        rw [hsession, Option.map_some]
  | adoptOne i granted =>
    obtain ⟨id, blob, hload, ht⟩ := htakes
    exact keysOwn_adoptOne h hkeeps hload ht
  | arrive mode row =>
    obtain rfl := htakes
    exact h.still rfl rfl rfl (List.subset_append_right _ _) h.sending h.accepted fun load hload id hid =>
      List.mem_append_right _ (h.loads load hload id hid)
  | invalidate channelId =>
    obtain rfl := htakes
    have hcurrent := current_append (s := s) (t := { s with
      queue := s.queue ++ [.deactivate (lit "group_" ++ channelId)] }) rfl rfl
    refine h.queued rfl rfl rfl (fun id k hk => by rw [hcurrent]; exact hk) (fun id k hk => ?_)
      (fun conv sid hsid => ?_) h.sending rfl h.loads
    · rw [hcurrent] at hk
      exact h.named id k hk
    · rw [hcurrent] at hsid
      by_cases hconv : conv = lit "group_" ++ channelId
      · rw [hconv] at hsid
        simp [KeyUpdate.apply] at hsid
      · simpa [KeyUpdate.apply, Function.update_of_ne hconv] using hsid
  | trust now event =>
    obtain rfl := htakes
    exact h.still rfl rfl rfl (List.Subset.refl _) h.sending h.accepted h.loads
  | commit =>
    obtain rfl := htakes
    have hgrows : s.Grows { s with rendered := s.current, queue := [] } :=
      ⟨fun _ _ hk => hk, List.Subset.refl _, List.Subset.refl _⟩
    exact ⟨h.own, h.wraps, h.current.grows hgrows, h.current.grows hgrows,
      fun d hd => (h.sending d hd).grows hgrows, h.accepted, h.named, h.loads⟩

end keeps

/-- A key of the cache is there after a step that replaces none. -/
theorem rendered_step {env : Sender} {s t : SendPage} {a : SendAction} (h : s.KeysOwn env)
    (hstep : s.step env a = some t) {id key : Text} (hkey : s.rendered.sessionKeys id = some key) :
    t.rendered.sessionKeys id = some key := by
  by_cases hcommit : a = .commit
  · subst hcommit
    obtain rfl := SendPage.takes_of_step hstep
    exact h.rendered.keys id key hkey
  · rwa [SendPage.rendered_of_step hstep hcommit]

/-- Where no batch of unwrapped keys replaces a key that waits for a commit, and no unwrapped key takes the place of
another, a message is encrypted with a key that the client has generated for its conversation; that key was wrapped
to nobody but the sender and those whom the gate accepted when the session started; and a key stays in the cache. -/
theorem send_keys_own (env : Sender) (stores : TrustStores) {actions : List SendAction} {s : SendPage}
    (h : Run (restrict (SendPage.KeepsKeys env) (ofPartial (SendPage.step env))) (.start stores) actions s) :
    (∀ d, s.sending = some d → ∀ n, d.point.numbered = some n →
        ∃ x ∈ s.sessions, x.conv = d.target.conv ∧ x.sid = n.sid ∧ x.key = n.key) ∧
      (∀ m ∈ s.accepted, ∃ x ∈ s.sessions, x.conv = m.target.conv ∧ x.sid = m.n.sid ∧ x.key = m.n.key) ∧
      (∀ x ∈ s.sessions, ∀ e ∈ x.wraps, e.1 = env.me ∨ ∃ m : Contact,
        (e.1 = m.address ∨ e.1 = toLowerCase m.address) ∧ e.2 = m.encryptionPublicKey ∧
          env.gate.Accepts x.gated m) ∧
      ∀ more t, Run (restrict (SendPage.KeepsKeys env) (ofPartial (SendPage.step env))) s more t →
        ∀ id key, s.rendered.sessionKeys id = some key → t.rendered.sessionKeys id = some key := by
  have hstep : ∀ s a t, SendPage.KeysOwn env s →
      restrict (SendPage.KeepsKeys env) (ofPartial (SendPage.step env)) s a t → SendPage.KeysOwn env t :=
    fun s a t hs hst => keysOwn_step hs hst.1 hst.2
  have hown : s.KeysOwn env := h.invariant hstep (keysOwn_start stores)
  refine ⟨fun d hd => (hown.sending d hd).numbered, hown.accepted, hown.wraps, fun more t hmore => ?_⟩
  refine hmore.preserves (R := fun s t => ∀ id key, s.rendered.sessionKeys id = some key →
    t.rendered.sessionKeys id = some key) (fun _ _ _ hkey => hkey) ?_ hstep ?_ hown
  · exact fun s t u hst htu id key hkey => htu id key (hst id key hkey)
  · exact fun s a t hs hst id key => rendered_step hs hst.2

/-! ## A copied session id -/

section sample

/-- A message of the partner in a session, with a wrapped key of the partner's choice. -/
def offerPayload (sid : String) : Value :=
  .obj [(lit "v", .num (.ofNat 1)), (lit "sid", .str (lit sid)),
    (lit "ts", .num (.ofNat 0)), (lit "seq", .num (.ofNat 0)),
    (lit "keys", .obj [(lit "recip", .str (lit "kb"))]), (lit "ct", .str (lit "ct")), (lit "sig", .str (lit "sig"))]

def offerRow (sid : String) : MessageRow := ⟨0, uniformAddress 'b', uniformAddress 'a', .notJson sid, none⟩

/-- A client to which the content of a message is its session id. -/
def offeredSender : Sender where
  toReader := { sharedReader with
    me := uniformAddress 'a'
    parseJson := fun d => match d with
      | .notJson sid => some (offerPayload sid)
      | _ => none }
  gate := ⟨uniformAddress 'a', fun _ _ _ _ => true⟩
  wrapSessionKey key _ := .str key

/-- The partner's copy of a session id is loaded when the key of the session is in the cache. -/
def copiedAfterCommit : List SendAction :=
  beginSession ++ finishSend 0 ++ [.receive .dm [offerRow "s"], .collect 0] ++ beginSend 1

def afterCopy : SendPage :=
  after (fun s a => if decide (s.KeepsKeys offeredSender a) = true then s.step offeredSender a else none)
    copiedAfterCommit (.start ⟨none, none⟩)

theorem send_keys_own_sample :
    (∀ d, afterCopy.sending = some d → ∀ n, d.point.numbered = some n →
        ∃ x ∈ afterCopy.sessions, x.conv = d.target.conv ∧ x.sid = n.sid ∧ x.key = n.key) ∧
      (∀ m ∈ afterCopy.accepted,
        ∃ x ∈ afterCopy.sessions, x.conv = m.target.conv ∧ x.sid = m.n.sid ∧ x.key = m.n.key) ∧
      (∀ x ∈ afterCopy.sessions, ∀ e ∈ x.wraps, e.1 = offeredSender.me ∨ ∃ m : Contact,
        (e.1 = m.address ∨ e.1 = toLowerCase m.address) ∧ e.2 = m.encryptionPublicKey ∧
          offeredSender.gate.Accepts x.gated m) ∧
      ∀ more t, Run (restrict (SendPage.KeepsKeys offeredSender) (ofPartial (SendPage.step offeredSender))) afterCopy
          more t → ∀ id key, afterCopy.rendered.sessionKeys id = some key →
            t.rendered.sessionKeys id = some key :=
  send_keys_own offeredSender ⟨none, none⟩
    (Run.restrict_after (fun _ _ => of_decide_eq_true) (by decide +kernel))

/-- A page of another session replaces the cache before the key of a new session is committed, and a copy of the
session's id brings a key of the partner. -/
def copiedAfterLoss : List SendAction :=
  [.receive .dm [offerRow "u"], .collect 0] ++ beginSession ++ [.adopt 0 true] ++ finishSend 0 ++
    [.receive .dm [offerRow "s"], .collect 1, .adopt 1 true, .commit] ++ beginSend 1

def afterLoss : SendPage := after (SendPage.step offeredSender) copiedAfterLoss (.start ⟨none, none⟩)

/-- The next message is encrypted with the partner's key. -/
theorem not_send_keys_own : ¬ ∀ (env : Sender) (stores : TrustStores) (actions : List SendAction) (s : SendPage),
    Run (ofPartial (SendPage.step env)) (.start stores) actions s →
      ∀ d, s.sending = some d → ∀ n, d.point.numbered = some n →
        ∃ x ∈ s.sessions, x.conv = d.target.conv ∧ x.sid = n.sid ∧ x.key = n.key := by
  intro h
  have hown := h offeredSender ⟨none, none⟩ copiedAfterLoss afterLoss (Run.ofPartial_after (by decide +kernel))
  have hsent : afterLoss.sending.any (fun d => d.point.numbered.any fun n => decide (n.key = lit "kb")) = true := by
    decide +kernel
  have hstarted : afterLoss.sessions.all (fun x => decide (x.key = lit "k")) = true := by decide +kernel
  obtain ⟨d, hd, hn⟩ := (Option.any_eq_true _ _).mp hsent
  obtain ⟨n, hn, hkb⟩ := (Option.any_eq_true _ _).mp hn
  obtain ⟨x, hx, -, -, hkey⟩ := hown d hd n hn
  have hk : x.key = lit "k" := of_decide_eq_true (List.all_eq_true.mp hstarted x hx)
  rw [hkey, of_decide_eq_true hkb] at hk
  exact absurd hk (by decide)

end sample

end Kryptolog.Client
