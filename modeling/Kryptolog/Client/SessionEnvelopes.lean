import Kryptolog.Library.Delimited
import Kryptolog.Client.MessageSizes
import Kryptolog.Client.SendKeys

/-! # Whom a session's key reaches

The key of a session travels only in the message that starts the session. A later message reuses the session if
`dmSessionKeysRef` or `groupSessionMembersRef` has for it what the gate has just passed; where addresses and keys are
hexadecimal, that text tells them. Where no send gives a new session's first message up before its request, whatever
message the server accepts follows one that carries its key for everyone whom the gate accepted when it was sent.
-/

namespace Kryptolog.Client
set_option autoImplicit false

open Script Delimited
open Server (Kind isLowerHexDigit)
open Runs

/-! ## What the texts tell -/

/-- The records of a send are as the server has checked them, and a member is one row. -/
def Target.IsServed : Target → Prop
  | .partner user => user.IsServed
  | .channel _ members => (members.map (·.address)).Nodup ∧ ∀ m ∈ members, m.IsServed

instance decidableTargetIsServed : ∀ target : Target, Decidable target.IsServed
  | .partner user => inferInstanceAs (Decidable user.IsServed)
  | .channel _ members => inferInstanceAs (Decidable ((members.map (·.address)).Nodup ∧ ∀ m ∈ members, m.IsServed))

def Target.contacts : Target → List Contact
  | .partner user => [user]
  | .channel _ members => members

section texts

variable {me ownKey ownKey' : Text} {recipients recipients' : List Contact} {target target' : Target}

theorem Contact.IsServed.isHexText {c : Contact} (h : c.IsServed) : IsHexText c.address :=
  (Bool.and_eq_true_iff.mp h.1).2

theorem IsHexText.notMem {s : Text} (h : IsHexText s) {c : Char} (hc : isLowerHexDigit c = false) : .char c ∉ s := by
  intro hmem
  have hdigit := List.all_eq_true.mp h _ hmem
  rw [Point.satisfies, hc] at hdigit
  cases hdigit

/-- An entry of `safeSet`. -/
def wrapEntry (p : Text × Text) : Text := p.1 ++ .char ':' :: p.2

theorem wrapEntry_inj {p q : Text × Text} (hp : IsHexText p.1) (hq : IsHexText q.1) (h : wrapEntry p = wrapEntry q) :
    p = q :=
  let ⟨haddress, hkey⟩ := append_cons_inj (hp.notMem (by decide)) (hq.notMem (by decide)) h
  Prod.ext haddress hkey

/-- `safeSet`, of the addresses and keys of its members. -/
def safeSetText (ps : List (Text × Text)) : Text :=
  [.char ','].intercalate ((ps.map wrapEntry).insertionSort fun a b => Text.le a b)

theorem safeSetText_entries {ps : List (Text × Text)} (hps : ∀ p ∈ ps, IsHexText p.1 ∧ IsHexText p.2) :
    ∀ e ∈ (ps.map wrapEntry).insertionSort fun a b => Text.le a b, e ≠ [] ∧ Point.char ',' ∉ e := by
  intro e he
  obtain ⟨p, hp, rfl⟩ := List.mem_map.mp ((List.perm_insertionSort _ _).mem_iff.mp he)
  refine ⟨by simp [wrapEntry], ?_⟩
  rw [wrapEntry, List.mem_append, List.mem_cons]
  rintro (hmem | hmem | hmem)
  · exact (hps p hp).1.notMem (by decide) hmem
  · exact absurd hmem (by decide)
  · exact (hps p hp).2.notMem (by decide) hmem

/-- `safeSet` tells its members. -/
theorem mem_iff_of_safeSetText {ps qs : List (Text × Text)} (hps : ∀ p ∈ ps, IsHexText p.1 ∧ IsHexText p.2)
    (hqs : ∀ q ∈ qs, IsHexText q.1 ∧ IsHexText q.2) (h : safeSetText ps = safeSetText qs) (p : Text × Text) :
    p ∈ ps ↔ p ∈ qs := by
  have hsorted := intercalate_inj_of_ne_nil (safeSetText_entries hps) (safeSetText_entries hqs) h
  have hmap : (ps.map wrapEntry).Perm (qs.map wrapEntry) := by
    refine (List.perm_insertionSort (fun a b => Text.le a b) (ps.map wrapEntry)).symm.trans ?_
    rw [hsorted]
    exact List.perm_insertionSort _ _
  constructor
  · intro hmem
    obtain ⟨q, hq, heq⟩ := List.mem_map.mp (hmap.mem_iff.mp (List.mem_map_of_mem hmem))
    rwa [← wrapEntry_inj (hqs q hq).1 (hps p hmem).1 heq]
  · intro hmem
    obtain ⟨q, hq, heq⟩ := List.mem_map.mp (hmap.mem_iff.mpr (List.mem_map_of_mem hmem))
    rwa [← wrapEntry_inj (hps q hq).1 (hqs p hmem).1 heq]

theorem wrappedFor_channel (id : Text) (members : List Contact) :
    (Target.channel id members).wrappedFor ownKey recipients =
      safeSetText ((Target.channel id members).wraps me ownKey recipients) := by
  rw [Target.wrappedFor, safeSetText, Target.wraps, List.map_map]
  rfl

/-- Two sends of a conversation that are remembered by one text wrap for the same. -/
theorem mem_wraps_iff (hmode : target.mode = target'.mode) (hconv : target.conv = target'.conv)
    (hserved : target.IsServed) (hserved' : target'.IsServed) (hrecipients : recipients ⊆ target.contacts)
    (hrecipients' : recipients' ⊆ target'.contacts)
    (h : target.wrappedFor ownKey recipients = target'.wrappedFor ownKey' recipients') (p : Text × Text) :
    p ∈ target.wraps me ownKey recipients ↔ p ∈ target'.wraps me ownKey' recipients' := by
  cases target with
  | partner user =>
    cases target' with
    | partner user' =>
      have hbar {s : Text} (hs : IsHexText s) : Point.char '|' ∉ s := hs.notMem (by decide)
      obtain ⟨hkey, rfl⟩ := append_cons_inj (hbar hserved.2) (hbar hserved'.2) h
      have hconv : toLowerCase user.address = toLowerCase user'.address := hconv
      rw [Target.wraps, Target.wraps, hkey, hconv]
    | channel id members => cases hmode
  | channel id members =>
    cases target' with
    | partner user' => cases hmode
    | channel id' members' =>
      rw [@wrappedFor_channel me, @wrappedFor_channel me] at h
      refine mem_iff_of_safeSetText (fun p hp => ?_) (fun p hp => ?_) h p
      · obtain ⟨m, hm, rfl⟩ := List.mem_map.mp hp
        exact ⟨(hserved.2 m (hrecipients hm)).isHexText, (hserved.2 m (hrecipients hm)).2⟩
      · obtain ⟨m, hm, rfl⟩ := List.mem_map.mp hp
        exact ⟨(hserved'.2 m (hrecipients' hm)).isHexText, (hserved'.2 m (hrecipients' hm)).2⟩

theorem subset_of_gateGroupMembers {gate : TrustGate} {now : Number} (stores : TrustStores)
    (members : List Contact) : (gateGroupMembers gate now stores members).2 ⊆ members := by
  induction members generalizing stores with
  | nil => exact List.Subset.refl _
  | cons m members ih =>
    rw [gateGroupMembers]
    simp only
    split
    · exact List.cons_subset_cons m (ih _)
    · exact List.subset_cons_of_subset m (ih _)

/-- A contact that the gate accepts stays so when another address has passed it. -/
theorem accepts_gateMember {gate : TrustGate} {now : Number} {stores : TrustStores} {user m : Contact}
    (hne : toLowerCase m.address ≠ toLowerCase user.address) (h : gate.Accepts stores m) :
    gate.Accepts (gate.gateMember now stores user).1 m := by
  refine ⟨h.1, h.2.imp_right fun hkey => ?_⟩
  rcases @gateMember_stores gate now stores user with hs | hs | hs
  · rwa [hs]
  · rwa [hs, attestationVerdict_keys]
  · have hrecord : TrustStore.recordOf (pinContactKey now stores.keys user).1 m.address =
        TrustStore.recordOf stores.keys m.address := by
      rw [pinContactKey]
      simp only
      split
      · rw [trustContactKey]
        split
        · rfl
        · exact recordOf_remember_ne _ _ hne
      · rfl
    rwa [hs, checkContactKey, hrecord]

theorem gateMember_of_accepts {gate : TrustGate} {now : Number} {stores : TrustStores} {m : Contact}
    (h : gate.Accepts stores m) : (gate.gateMember now stores m).2 = true := by
  obtain ⟨hverified, hkey⟩ := h
  have hsome : m.encryptionPublicKey.isEmpty = false := by
    by_contra hempty
    simp [TrustGate.attestationStatus, Bool.not_eq_false _ ▸ hempty] at hverified
  have hverdict : gate.attestationVerdict now stores m = ({ stores with
      attested := TrustGate.rememberAttested now stores.attested m.address m.encryptionPublicKey }, .verified) := by
    rw [TrustGate.attestationVerdict, hverified]
  rw [TrustGate.gateMember, hsome, if_neg Bool.false_ne_true, hverdict]
  by_cases hown : m.address = toLowerCase gate.me
  · simp [hown]
  · simpa [hown, pinContactKey] using hkey.resolve_left hown

/-- Of members with distinct addresses, those that the gate accepts are kept. -/
theorem mem_gateGroupMembers {gate : TrustGate} {now : Number} {stores : TrustStores} {members : List Contact}
    {m : Contact} (hnodup : (members.map fun m => toLowerCase m.address).Nodup) (hm : m ∈ members)
    (h : gate.Accepts stores m) : m ∈ (gateGroupMembers gate now stores members).2 := by
  induction members generalizing stores with
  | nil => cases hm
  | cons first members ih =>
    obtain ⟨hfirst, hnodup⟩ := List.nodup_cons.mp hnodup
    rw [gateGroupMembers]
    simp only
    rcases List.mem_cons.mp hm with rfl | hm
    · rw [if_pos (gateMember_of_accepts h)]
      exact List.mem_cons_self
    · have hne : toLowerCase m.address ≠ toLowerCase first.address :=
        fun heq => hfirst (List.mem_map.mpr ⟨m, hm, heq⟩)
      have haccepts : gate.Accepts (gate.gateMember now stores first).1 m := accepts_gateMember hne h
      have hrest := ih hnodup hm haccepts
      split
      · exact List.mem_cons_of_mem _ hrest
      · exact hrest

theorem subset_of_gate {gate : TrustGate} {now : Number} {stores stores' : TrustStores}
    (h : target.gate gate now stores = (stores', some recipients)) : recipients ⊆ target.contacts := by
  cases target with
  | partner user =>
    simp only [Target.gate, Prod.mk.injEq, Option.ite_none_right_eq_some, Option.some.injEq] at h
    exact h.2.2 ▸ List.Subset.refl _
  | channel id members =>
    simp only [Target.gate, Prod.mk.injEq, Option.some.injEq] at h
    exact h.2 ▸ subset_of_gateGroupMembers stores members

end texts

/-! ## What the page remembers -/

/-- The session was started for the target, and wrapped for these recipients. -/
structure StartedSession.IsOf (env : Sender) (x : StartedSession) (target : Target) (ownKey : Text)
    (recipients : List Contact) : Prop where
  conv : x.conv = target.conv
  wraps : x.wraps = target.wraps env.me ownKey recipients
  served : target.IsServed
  contacts : recipients ⊆ target.contacts

/-- The action is one of the send in progress. -/
def SendAction.sends : SendAction → Bool
  | submit .. | gate _ | mint .. | failMint | sign .. | failSign | accept .. | refuse | respond | lose => true
  | receive .. | collect _ | adopt .. | decrypt .. | adoptOne .. | arrive .. | invalidate _ | trust .. | commit =>
    false

namespace SendPage

variable (env : Sender) (s : SendPage)

/-- Each text by which a session is remembered is that of its wraps. -/
structure Recorded : Prop where
  named : ∀ x ∈ s.sessions, x.keyId ∈ s.named
  nodup : (s.sessions.map (·.keyId)).Nodup
  texts : ∀ kind id text, s.wrappedFor kind id = some text → ∃ x ∈ s.sessions, x.keyId = id ∧
    ∃ target ownKey recipients, x.IsOf env target ownKey recipients ∧ target.mode = kind ∧
      text = target.wrappedFor ownKey recipients
  sending : ∀ d, s.sending = some d → d.target.IsServed ∧
    ∀ gated recipients, d.point = .minting gated recipients → recipients ⊆ d.target.contacts

/-- A send is asked for with records of the directory. -/
def Submits : SendAction → Prop
  | .submit target _ => target.IsServed
  | _ => True

instance : ∀ a, Decidable (Submits a)
  | .submit target _ => inferInstanceAs (Decidable target.IsServed)
  | .gate _ | .mint .. | .failMint | .sign .. | .failSign | .accept .. | .refuse | .respond | .lose | .receive ..
  | .collect _ | .adopt .. | .decrypt .. | .adoptOne .. | .arrive .. | .invalidate _ | .trust .. | .commit =>
    .isTrue trivial

end SendPage

section steps

variable {env : Sender} {s t : SendPage} {a : SendAction} {d : Sending} {sid key : Text} {recipients : List Contact}

/-- Every other action leaves the send in progress, the messages and the sessions. -/
theorem quiet_step (hquiet : a.sends = false) (hstep : s.step env a = some t) :
    t.sending = s.sending ∧ t.sessions = s.sessions ∧ t.sendState = s.sendState ∧ t.wrappedFor = s.wrappedFor ∧
      t.accepted = s.accepted ∧ s.named ⊆ t.named := by
  have htakes := SendPage.takes_of_step hstep
  cases a with
  | receive | decrypt | arrive =>
    obtain rfl := htakes
    exact ⟨rfl, rfl, rfl, rfl, rfl, List.subset_append_right _ _⟩
  | invalidate | trust | commit =>
    obtain rfl := htakes
    exact ⟨rfl, rfl, rfl, rfl, rfl, List.Subset.refl _⟩
  | collect | adoptOne =>
    obtain ⟨_, _, -, rfl⟩ := htakes
    exact ⟨rfl, rfl, rfl, rfl, rfl, List.Subset.refl _⟩
  | adopt =>
    obtain ⟨_, -, rfl⟩ := htakes
    exact ⟨rfl, rfl, rfl, rfl, rfl, List.Subset.refl _⟩
  | _ => cases hquiet

theorem recorded_start (stores : TrustStores) : (SendPage.start stores).Recorded env where
  named _ hx := nomatch hx
  nodup := List.nodup_nil
  texts _ _ _ h := nomatch h
  sending _ h := nomatch h

theorem SendPage.Recorded.still (h : s.Recorded env) (hsessions : t.sessions = s.sessions)
    (hwrapped : t.wrappedFor = s.wrappedFor) (hnamed : s.named ⊆ t.named)
    (hsending : ∀ d, t.sending = some d → d.target.IsServed ∧
      ∀ gated recipients, d.point = .minting gated recipients → recipients ⊆ d.target.contacts) : t.Recorded env where
  named x hx := hnamed (h.named x (hsessions ▸ hx))
  nodup := hsessions ▸ h.nodup
  texts kind id text htext := by
    rw [hsessions]
    exact h.texts kind id text (hwrapped ▸ htext)
  sending := hsending

/-- Two sessions of one key id are one. -/
theorem SendPage.Recorded.unique (h : s.Recorded env) {x y : StartedSession} (hx : x ∈ s.sessions)
    (hy : y ∈ s.sessions) (hid : x.keyId = y.keyId) : x = y :=
  List.inj_on_of_nodup_map h.nodup hx hy hid

theorem recorded_passGate (h : s.Recorded env) (hsending : s.sending = some d) (now : ℕ) :
    (s.passGate env d now).Recorded env := by
  have hserved := (h.sending d hsending).1
  rw [SendPage.passGate]
  split
  next stores passed hgate =>
  cases passed with
  | none => exact h.still rfl rfl (List.Subset.refl _) (by simp)
  | some recipients =>
    simp only
    cases hreuse : s.reusable d recipients now with
    | none =>
      refine h.still rfl rfl (List.Subset.refl _) fun d' hd' => ?_
      obtain rfl := Option.some.inj hd'
      refine ⟨hserved, fun gated recipients' hpoint => ?_⟩
      obtain ⟨rfl, rfl⟩ := SendPoint.minting.inj hpoint
      exact subset_of_gate hgate
    | some e =>
      obtain ⟨sid, key, st⟩ := e
      refine h.still rfl rfl (List.Subset.refl _) fun d' hd' => ?_
      obtain rfl := Option.some.inj hd'
      exact ⟨hserved, by simp⟩

theorem recorded_startSession (h : s.Recorded env) (hsending : s.sending = some d) {gated : TrustStores}
    (hpoint : d.point = .minting gated recipients) (hfresh : keyIdOf d.target.conv sid ∉ s.named) (now : ℕ) :
    (s.startSession env d gated recipients sid key now).Recorded env := by
  obtain ⟨hserved, hcontacts⟩ := h.sending d hsending
  refine ⟨fun x hx => ?_, ?_, fun kind id text htext => ?_, fun d' hd' => ?_⟩
  · rcases List.mem_cons.mp hx with rfl | hx
    · exact List.mem_cons_self
    · exact List.mem_cons_of_mem _ (h.named x hx)
  · refine List.nodup_cons.mpr ⟨fun hmem => ?_, h.nodup⟩
    obtain ⟨x, hx, hid⟩ := List.mem_map.mp hmem
    have hid : x.keyId = keyIdOf d.target.conv sid := hid
    exact hfresh (hid ▸ h.named x hx)
  · have hold (hsame : s.wrappedFor kind id = some text) : ∃ x ∈ s.sessions, x.keyId = id ∧
        ∃ target ownKey recipients, x.IsOf env target ownKey recipients ∧ target.mode = kind ∧
          text = target.wrappedFor ownKey recipients := h.texts kind id text hsame
    by_cases hkind : kind = d.target.mode
    · by_cases hid : id = keyIdOf d.target.conv sid
      · refine ⟨_, List.mem_cons_self, hid.symm, d.target, d.ownKey, recipients,
          ⟨rfl, rfl, hserved, hcontacts gated recipients hpoint⟩, hkind.symm, ?_⟩
        simpa [SendPage.startSession, hkind, hid, eq_comm] using htext
      · obtain ⟨x, hx, hrest⟩ := hold (by simpa [SendPage.startSession, hkind, Function.update_of_ne hid] using htext)
        exact ⟨x, List.mem_cons_of_mem _ hx, hrest⟩
    · obtain ⟨x, hx, hrest⟩ := hold (by simpa [SendPage.startSession, Function.update_of_ne hkind] using htext)
      exact ⟨x, List.mem_cons_of_mem _ hx, hrest⟩
  · obtain rfl := Option.some.inj hd'
    exact ⟨hserved, by simp⟩

theorem recorded_failPost (h : s.Recorded env) (d : Sending) (n : Numbered) : (s.failPost d n).Recorded env := by
  rw [SendPage.failPost]
  split <;> exact h.still rfl rfl (List.Subset.refl _) (by simp)

theorem recorded_step (h : s.Recorded env) (hsubmits : SendPage.Submits a) (hstep : s.step env a = some t) :
    t.Recorded env := by
  cases hsends : a.sends with
  | false =>
    obtain ⟨hsending, hsessions, -, hwrapped, -, hnamed⟩ := quiet_step hsends hstep
    exact h.still hsessions hwrapped hnamed (hsending ▸ h.sending)
  | true =>
  have htakes := SendPage.takes_of_step hstep
  cases a with
  | submit target ownKey =>
    obtain ⟨-, rfl⟩ := htakes
    refine h.still rfl rfl (List.Subset.refl _) fun d' hd' => ?_
    obtain rfl := Option.some.inj hd'
    exact ⟨hsubmits, by simp⟩
  | gate now =>
    obtain ⟨d, hsending, -, rfl⟩ := htakes
    exact recorded_passGate h hsending now
  | mint sid key now =>
    obtain ⟨d, gated, recipients, hsending, hpoint, hfresh, rfl⟩ := htakes
    exact recorded_startSession h hsending hpoint hfresh now
  | failMint =>
    obtain ⟨d, gated, recipients, -, -, rfl⟩ := htakes
    exact h.still rfl rfl (List.Subset.refl _) (by simp)
  | sign ct sig =>
    obtain ⟨d, n, hsending, -, rfl⟩ := htakes
    refine h.still rfl rfl (List.Subset.refl _) fun d' hd' => ?_
    obtain rfl := Option.some.inj hd'
    exact ⟨(h.sending d hsending).1, by simp⟩
  | accept id createdAt =>
    obtain ⟨d, n, ct, sig, hsending, -, -, rfl⟩ := htakes
    refine h.still rfl rfl (List.Subset.refl _) fun d' hd' => ?_
    obtain rfl := Option.some.inj hd'
    exact ⟨(h.sending d hsending).1, by simp⟩
  | failSign | respond =>
    obtain ⟨d, n, -, -, rfl⟩ := htakes
    exact h.still rfl rfl (List.Subset.refl _) (by simp)
  | refuse =>
    obtain ⟨d, n, ct, sig, -, -, rfl⟩ := htakes
    exact recorded_failPost h d n
  | lose =>
    obtain ⟨d, n, -, -, rfl⟩ := htakes
    exact recorded_failPost h d n
  | receive | collect | adopt | decrypt | adoptOne | arrive | invalidate | trust | commit => cases hsends

/-- The session that a send reuses is wrapped for those whom the gate has passed. -/
theorem SendPage.Recorded.reused (h : s.Recorded env) (hown : s.KeysOwn env) (hsending : s.sending = some d)
    {now : ℕ} {st : SendState} (hrecipients : recipients ⊆ d.target.contacts)
    (hreuse : s.reusable d recipients now = some (sid, key, st)) :
    ∃ x ∈ s.sessions, x.conv = d.target.conv ∧ x.sid = sid ∧ x.key = key ∧ s.sendState x.keyId = some st ∧
      ∃ target ownKey rs, x.IsOf env target ownKey rs ∧ target.mode = d.target.mode ∧
        ∀ p, p ∈ d.target.wraps env.me d.ownKey recipients ↔ p ∈ x.wraps := by
  obtain ⟨x, hx, hconv, hsid, hkey⟩ := hown.reused (hown.sending d hsending).snapshot hreuse
  simp only [SendPage.reusable, Option.bind_eq_bind, Option.bind_eq_some_iff] at hreuse
  obtain ⟨sid', -, key', -, st', hst, hif⟩ := hreuse
  split at hif
  · next husable =>
    obtain ⟨rfl, rfl, rfl⟩ : sid' = sid ∧ key' = key ∧ st' = st := by simpa using hif
    have hid : x.keyId = keyIdOf d.target.conv sid' := by rw [StartedSession.keyId, hconv, hsid]
    obtain ⟨y, hy, hyid, target, ownKey, rs, hof, hmode, htext⟩ := h.texts _ _ _ husable.2
    obtain rfl : y = x := h.unique hy hx (hyid.trans hid.symm)
    refine ⟨y, hy, hconv, hsid, hkey, hid ▸ hst, target, ownKey, rs, hof, hmode, fun p => ?_⟩
    rw [hof.wraps]
    exact mem_wraps_iff hmode.symm (hconv.symm.trans hof.conv) (h.sending d hsending).1 hof.served hrecipients
      hof.contacts htext p
  · cases hif

end steps

/-! ## Whom the messages reach -/

/-- A message that has its position and is not on the server. -/
def Sending.unposted (d : Sending) : Option Numbered :=
  match d.point with
  | .sealing n | .posting n _ _ => some n
  | .gating | .minting _ _ | .answering _ => none

def SendAction.asks : SendAction → Bool
  | gate _ => true
  | _ => false

def SendAction.posts : SendAction → Bool
  | accept .. => true
  | _ => false

/-- A page, with the stores of trusted keys that the gate of each message had. -/
structure GatedPage where
  page : SendPage
  /-- For the send in progress. -/
  asked : TrustStores
  sent : List (Posted × TrustStores)

namespace GatedPage

def start (stores : TrustStores) : GatedPage := ⟨.start stores, stores, []⟩

variable (env : Sender) (p : GatedPage)

def step (a : SendAction) : Option GatedPage :=
  (p.page.step env a).map fun t =>
    { page := t
      asked := if a.asks then p.page.stores else p.asked
      sent := if a.posts then p.sent ++ t.accepted.getLast?.toList.map (·, p.asked) else p.sent }

/-- No message that starts a session is given up before its request. -/
def KeepsFirst : SendAction → Prop
  | .failSign => (p.page.sending.bind Sending.unposted).all (·.keys.isNone) = true
  | _ => True

instance : ∀ a, Decidable (p.KeepsFirst a)
  | .failSign => inferInstanceAs (Decidable (_ = true))
  | .submit .. | .gate _ | .mint .. | .failMint | .sign .. | .accept .. | .refuse | .respond | .lose | .receive ..
  | .collect _ | .adopt .. | .decrypt .. | .adoptOne .. | .arrive .. | .invalidate _ | .trust .. | .commit =>
    .isTrue trivial

/-- Besides, the records of a send are the directory's, and no key of the cache is replaced. -/
def Follows (a : SendAction) : Prop := SendPage.Submits a ∧ p.page.KeepsKeys env a ∧ p.KeepsFirst a

instance (a : SendAction) : Decidable (p.Follows env a) := inferInstanceAs (Decidable (_ ∧ _ ∧ _))

end GatedPage

/-- The message carries the key of the session to those whom it was wrapped for. -/
structure Numbered.Starts (env : Sender) (target : Target) (n : Numbered) (x : StartedSession) : Prop where
  sid : x.sid = n.sid
  key : x.key = n.key
  keys : ∃ ownKey recipients, x.IsOf env target ownKey recipients ∧
    n.keys = some (target.keyPayload env ownKey recipients n.key)

/-- The message is sealed with the key of the session. -/
structure Numbered.Uses (target : Target) (n : Numbered) (x : StartedSession) : Prop where
  conv : x.conv = target.conv
  sid : x.sid = n.sid
  key : x.key = n.key

/-- The session is wrapped for every contact whom the gate accepts with these stores. -/
def StartedSession.Covers (env : Sender) (x : StartedSession) (gated : TrustStores) (target : Target) : Prop :=
  ∀ c ∈ target.contacts, env.gate.Accepts gated c → (c.address, c.encryptionPublicKey) ∈ x.wraps

namespace GatedPage

/-- A message on the server carries the key of the session. -/
def HasFirst (env : Sender) (p : GatedPage) (x : StartedSession) : Prop :=
  ∃ f ∈ p.page.accepted, f.n.Starts env f.target x

structure Carried (env : Sender) (p : GatedPage) : Prop where
  sessions : ∀ x ∈ p.page.sessions, p.page.sendState x.keyId ≠ none →
    (∃ d n, p.page.sending = some d ∧ d.unposted = some n ∧ n.Starts env d.target x) ∨ p.HasFirst env x
  minting : ∀ d gated recipients, p.page.sending = some d → d.point = .minting gated recipients →
    ∀ c ∈ d.target.contacts, env.gate.Accepts p.asked c → c ∈ recipients
  unposted : ∀ d n, p.page.sending = some d → d.unposted = some n →
    ∃ x ∈ p.page.sessions, n.Uses d.target x ∧ x.Covers env p.asked d.target ∧
      (n.Starts env d.target x ∨ n.keys = none ∧ p.HasFirst env x)
  sent : ∀ e ∈ p.sent, e.1.target.IsServed ∧ ∃ x, e.1.n.Uses e.1.target x ∧ x.Covers env e.2 e.1.target ∧
    ∃ f ∈ p.page.accepted, f.id ≤ e.1.id ∧ f.n.Starts env f.target x
  accepted : p.sent.map (·.1) = p.page.accepted

end GatedPage

section carried

variable {env : Sender} {p q : GatedPage} {s t : SendPage} {a : SendAction} {d : Sending} {n : Numbered}
  {x : StartedSession} {sid key ownKey : Text} {recipients : List Contact} {target : Target}

theorem mem_wraps (hserved : target.IsServed) (hsub : recipients ⊆ target.contacts) {c : Contact}
    (hc : c ∈ recipients) : (c.address, c.encryptionPublicKey) ∈ target.wraps env.me ownKey recipients := by
  cases target with
  | partner user =>
    obtain rfl : c = user := List.mem_singleton.mp (hsub hc)
    rw [Target.wraps, MessageSizes.toLowerCase_address hserved.1]
    exact List.mem_cons_self
  | channel id members => exact List.mem_map.mpr ⟨c, hc, rfl⟩

/-- The gate passes every contact that it accepts. -/
theorem mem_of_accepts {gate : TrustGate} {now : Number} {stores stores' : TrustStores} (hserved : target.IsServed)
    (hgate : target.gate gate now stores = (stores', some recipients)) {c : Contact} (hc : c ∈ target.contacts)
    (haccepts : gate.Accepts stores c) : c ∈ recipients := by
  cases target with
  | partner user =>
    simp only [Target.gate, Prod.mk.injEq, Option.ite_none_right_eq_some, Option.some.injEq] at hgate
    exact hgate.2.2 ▸ hc
  | channel id members =>
    simp only [Target.gate, Prod.mk.injEq, Option.some.injEq] at hgate
    have hlower : (members.map fun m => toLowerCase m.address) = members.map (·.address) :=
      List.map_congr_left fun m hm => MessageSizes.toLowerCase_address (hserved.2 m hm).1
    exact hgate.2 ▸ mem_gateGroupMembers (hlower ▸ hserved.1) hc haccepts

theorem Numbered.Starts.uses (h : n.Starts env target x) : n.Uses target x :=
  let ⟨_, _, hof, _⟩ := h.keys
  ⟨hof.conv, h.sid, h.key⟩

theorem Numbered.Starts.keyId (h : n.Starts env target x) : x.keyId = keyIdOf target.conv n.sid := by
  rw [StartedSession.keyId, h.uses.conv, h.sid]

theorem Numbered.Starts.keys_ne (h : n.Starts env target x) : n.keys ≠ none := by
  obtain ⟨_, _, -, hkeys⟩ := h.keys
  simp [hkeys]

namespace GatedPage

theorem carried_start (stores : TrustStores) : (start stores).Carried env where
  sessions _ hx := nomatch hx
  minting _ _ _ h := nomatch h
  unposted _ _ h := nomatch h
  sent _ he := nomatch he
  accepted := rfl

theorem HasFirst.grows (h : p.HasFirst env x) (haccepted : p.page.accepted ⊆ q.page.accepted) : q.HasFirst env x :=
  let ⟨f, hf, hstarts⟩ := h
  ⟨f, haccepted hf, hstarts⟩

/-- A step that starts no session, has no message accepted, and gives a first message up only with its session. -/
theorem Carried.still (h : p.Carried env) (hsessions : q.page.sessions = p.page.sessions)
    (haccepted : q.page.accepted = p.page.accepted) (hsent : q.sent = p.sent)
    (hstate : ∀ x ∈ p.page.sessions, q.page.sendState x.keyId ≠ none → p.page.sendState x.keyId ≠ none ∧
      ∀ d n, p.page.sending = some d → d.unposted = some n → n.Starts env d.target x →
        ∃ d', q.page.sending = some d' ∧ d'.unposted = some n ∧ d'.target = d.target)
    (hminting : ∀ d gated recipients, q.page.sending = some d → d.point = .minting gated recipients →
      ∀ c ∈ d.target.contacts, env.gate.Accepts q.asked c → c ∈ recipients)
    (hunposted : ∀ d n, q.page.sending = some d → d.unposted = some n →
      ∃ x ∈ p.page.sessions, n.Uses d.target x ∧ x.Covers env q.asked d.target ∧
        (n.Starts env d.target x ∨ n.keys = none ∧ p.HasFirst env x)) : q.Carried env where
  sessions x hx hne := by
    rw [hsessions] at hx
    obtain ⟨hbefore, hkept⟩ := hstate x hx hne
    rcases h.sessions x hx hbefore with ⟨d, n, hd, hn, hstarts⟩ | hfirst
    · obtain ⟨d', hd', hn', htarget⟩ := hkept d n hd hn hstarts
      exact .inl ⟨d', n, hd', hn', htarget ▸ hstarts⟩
    · exact .inr (hfirst.grows (haccepted ▸ List.Subset.refl _))
  minting := hminting
  unposted d n hd hn := by
    obtain ⟨x, hx, huses, hcovers, hfirst⟩ := hunposted d n hd hn
    refine ⟨x, hsessions ▸ hx, huses, hcovers, hfirst.imp_right fun hold => ⟨hold.1, ?_⟩⟩
    exact hold.2.grows (haccepted ▸ List.Subset.refl _)
  sent e he := by
    rw [haccepted]
    exact h.sent e (hsent ▸ he)
  accepted := by rw [hsent, haccepted, h.accepted]

/-- A step that leaves the send in progress as it is. -/
theorem Carried.quiet (h : p.Carried env) (hsessions : t.sessions = p.page.sessions)
    (hstate : t.sendState = p.page.sendState) (haccepted : t.accepted = p.page.accepted)
    (hsending : t.sending = p.page.sending) : (GatedPage.mk t p.asked p.sent).Carried env := by
  refine h.still hsessions haccepted rfl (fun x _ hne => ⟨hstate ▸ hne, fun d n hd hn _ => ?_⟩)
    (fun d gated recipients hd => h.minting d gated recipients (hsending ▸ hd))
    fun d n hd => h.unposted d n (hsending ▸ hd)
  exact ⟨d, hsending.trans hd, hn, rfl⟩

/-- A step from a send without a message that waits for its request, to none or to one that waits for the gate. -/
theorem Carried.idle (h : p.Carried env) (hsessions : q.page.sessions = p.page.sessions)
    (hstate : q.page.sendState = p.page.sendState) (haccepted : q.page.accepted = p.page.accepted)
    (hsent : q.sent = p.sent) (hbefore : ∀ d ∈ p.page.sending, ∀ n ∈ d.unposted, n.keys = none)
    (hafter : ∀ d ∈ q.page.sending, d.point = .gating) : q.Carried env := by
  refine h.still hsessions haccepted hsent (fun x _ hne => ⟨hstate ▸ hne, fun d n hd hn hstarts => ?_⟩)
    (fun d gated recipients hd hpoint => ?_) fun d n hd hn => ?_
  · exact absurd (hbefore d hd n hn) hstarts.keys_ne
  · rw [hafter d hd] at hpoint
    cases hpoint
  · rw [Sending.unposted, hafter d hd] at hn
    cases hn

theorem unposted_of_point (hd : p.page.sending = some d) (hnone : d.unposted = none) :
    ∀ d ∈ p.page.sending, ∀ n ∈ d.unposted, n.keys = none := by
  intro d' hd' n hn
  obtain rfl := Option.some.inj (hd.symm.trans hd')
  rw [hnone] at hn
  cases hn

theorem carried_passGate (h : p.Carried env) (hown : p.page.KeysOwn env) (hrecorded : p.page.Recorded env)
    (hd : p.page.sending = some d) (hpoint : d.point = .gating) (now : ℕ) :
    (GatedPage.mk (p.page.passGate env d now) p.page.stores p.sent).Carried env := by
  have hserved := (hrecorded.sending d hd).1
  have hnone : d.unposted = none := by rw [Sending.unposted, hpoint]
  have hbefore := unposted_of_point hd hnone
  have hfree {x : StartedSession} (hx : x ∈ p.page.sessions) (hne : p.page.sendState x.keyId ≠ none) :
      p.HasFirst env x := by
    rcases h.sessions x hx hne with ⟨d', n, hd', hn, hstarts⟩ | hfirst
    · exact absurd (hbefore d' hd' n hn) hstarts.keys_ne
    · exact hfirst
  rw [SendPage.passGate]
  split
  next stores passed hgate =>
  cases passed with
  | none => exact h.idle rfl rfl rfl rfl hbefore (by simp)
  | some recipients =>
    simp only
    cases hreuse : p.page.reusable d recipients now with
    | none =>
      refine h.still rfl rfl rfl (fun x _ hne => ⟨hne, fun d n hd hn hstarts => ?_⟩)
        (fun d' gated recipients' hd' hpoint' => ?_) fun d' n hd' hn => ?_
      · exact absurd (hbefore d hd n hn) hstarts.keys_ne
      · obtain rfl := Option.some.inj hd'
        obtain ⟨rfl, rfl⟩ := SendPoint.minting.inj hpoint'
        exact fun c hc haccepts => mem_of_accepts hserved hgate hc haccepts
      · obtain rfl := Option.some.inj hd'
        cases hn
    | some e =>
      obtain ⟨sid, key, st⟩ := e
      have hsub := subset_of_gate hgate
      obtain ⟨x, hx, hconv, hsid, hkey, hst, _, _, _, -, -, hwraps⟩ := hrecorded.reused hown hd hsub hreuse
      have hid : keyIdOf d.target.conv sid = x.keyId := by rw [StartedSession.keyId, hconv, hsid]
      refine h.still rfl rfl rfl (fun y hy hne => ⟨?_, fun d n hd hn hstarts => ?_⟩)
        (fun d' gated recipients' hd' hpoint' => ?_) fun d' n hd' hn => ?_
      · by_cases hyx : y.keyId = x.keyId
        · rw [hyx, hst]
          exact Option.some_ne_none st
        · have hne : Function.update p.page.sendState (keyIdOf d.target.conv sid) _ y.keyId ≠ none := hne
          rwa [hid, Function.update_of_ne hyx] at hne
      · exact absurd (hbefore d hd n hn) hstarts.keys_ne
      · obtain rfl := Option.some.inj hd'
        cases hpoint'
      · obtain rfl := Option.some.inj hd'
        obtain rfl := Option.some.inj hn
        refine ⟨x, hx, ⟨hconv, hsid, hkey⟩, fun c hc haccepts => ?_, .inr ⟨rfl, hfree hx (by simp [hst])⟩⟩
        exact (hwraps _).mp (mem_wraps hserved hsub (mem_of_accepts hserved hgate hc haccepts))

theorem carried_startSession (h : p.Carried env) (hrecorded : p.page.Recorded env) (hd : p.page.sending = some d)
    {gated : TrustStores} (hpoint : d.point = .minting gated recipients)
    (hfresh : keyIdOf d.target.conv sid ∉ p.page.named) (now : ℕ) :
    (GatedPage.mk (p.page.startSession env d gated recipients sid key now) p.asked p.sent).Carried env := by
  obtain ⟨hserved, hcontacts⟩ := hrecorded.sending d hd
  have hsub := hcontacts gated recipients hpoint
  have hbefore := unposted_of_point hd (by rw [Sending.unposted, hpoint])
  generalize hnew : StartedSession.mk d.target.conv sid key (d.target.wraps env.me d.ownKey recipients) gated = new
  generalize hfirst : Numbered.mk sid key (some (d.target.keyPayload env d.ownKey recipients key)) 0 now = n
  have hstarts : n.Starts env d.target new := by
    rw [← hnew, ← hfirst]
    exact ⟨rfl, rfl, _, _, ⟨rfl, rfl, hserved, hsub⟩, rfl⟩
  have hold {x : StartedSession} (hx : x ∈ p.page.sessions) : x.keyId ≠ keyIdOf d.target.conv sid :=
    fun hid => hfresh (hid ▸ hrecorded.named x hx)
  refine ⟨fun x hx hne => ?_, fun d' gated' rs hd' hpoint' => ?_, fun d' n' hd' hn' => ?_, fun e he => ?_, h.accepted⟩
  · rw [SendPage.startSession, hnew] at hx
    rcases List.mem_cons.mp hx with rfl | hx
    · refine .inl ⟨_, n, rfl, ?_, hstarts⟩
      rw [← hfirst]
      rfl
    · rw [SendPage.startSession] at hne
      have hne : p.page.sendState x.keyId ≠ none := by simpa [Function.update_of_ne (hold hx)] using hne
      rcases h.sessions x hx hne with ⟨d', n', hd', hn', hs⟩ | hfirst
      · exact absurd (hbefore d' hd' n' hn') hs.keys_ne
      · exact .inr hfirst
  · obtain rfl := Option.some.inj hd'
    cases hpoint'
  · obtain rfl := Option.some.inj hd'
    obtain rfl : n = n' := hfirst.symm.trans (Option.some.inj hn')
    refine ⟨new, ?_, hstarts.uses, fun c hc haccepts => ?_, .inl hstarts⟩
    · rw [SendPage.startSession, hnew]
      exact List.mem_cons_self
    · rw [← hnew]
      exact mem_wraps hserved hsub (h.minting d gated recipients hd hpoint c hc haccepts)
  · exact h.sent e he

/-- A message that is given up takes the session that it starts with it. -/
theorem carried_failPost (h : p.Carried env) (hd : p.page.sending = some d)
    (hn : d.unposted = some n ∨ d.unposted = none) :
    (GatedPage.mk (p.page.failPost d n) p.asked p.sent).Carried env := by
  have hof {d' : Sending} {n' : Numbered} (hd' : p.page.sending = some d') (hn' : d'.unposted = some n') :
      d' = d ∧ n' = n := by
    obtain rfl := Option.some.inj (hd.symm.trans hd')
    rcases hn with hn | hn
    · exact ⟨rfl, Option.some.inj (hn'.symm.trans hn)⟩
    · rw [hn] at hn'
      cases hn'
  rw [SendPage.failPost]
  split
  · refine h.still rfl rfl rfl (fun x _ hne => ?_) (fun d' _ _ hd' => absurd hd'.symm (Option.some_ne_none d'))
      fun d' _ hd' => absurd hd'.symm (Option.some_ne_none d')
    have hid : x.keyId ≠ keyIdOf d.target.conv n.sid := fun hid => by simp [hid] at hne
    refine ⟨by simpa [Function.update_of_ne hid] using hne, fun d' n' hd' hn' hstarts => ?_⟩
    obtain ⟨rfl, rfl⟩ := hof hd' hn'
    exact absurd hstarts.keyId hid
  · next hkeys =>
    refine h.idle rfl rfl rfl rfl (fun d' hd' n' hn' => ?_) (by simp)
    rw [(hof hd' hn').2]
    simpa using hkeys

theorem carried_accept (h : p.Carried env) (hrecorded : p.page.Recorded env) (hd : p.page.sending = some d)
    {ct sig : Text} (hpoint : d.point = .posting n ct sig) {id : ℕ} {createdAt : ℤ}
    (hnext : p.page.isNext id createdAt = true) :
    (GatedPage.mk { p.page with
        sending := some { d with point := .answering n }
        accepted := p.page.accepted ++ [⟨id, createdAt, d.target, n, ct, sig⟩] } p.asked
      (p.sent ++ [(⟨id, createdAt, d.target, n, ct, sig⟩, p.asked)])).Carried env := by
  have hn : d.unposted = some n := by rw [Sending.unposted, hpoint]
  have hgrows : p.page.accepted ⊆ p.page.accepted ++ [⟨id, createdAt, d.target, n, ct, sig⟩] :=
    List.subset_append_left _ _
  obtain ⟨x, -, huses, hcovers, hfirst⟩ := h.unposted d n hd hn
  refine ⟨fun y hy hne => .inr ?_, fun d' _ _ hd' hpoint' => ?_, fun d' _ hd' hn' => ?_, fun e he => ?_, ?_⟩
  · rcases h.sessions y hy hne with ⟨d', n', hd', hn', hstarts⟩ | hfirst
    · obtain rfl := Option.some.inj (hd.symm.trans hd')
      obtain rfl := Option.some.inj (hn.symm.trans hn')
      exact ⟨_, List.mem_append_right _ List.mem_cons_self, hstarts⟩
    · exact hfirst.grows hgrows
  · obtain rfl := Option.some.inj hd'
    cases hpoint'
  · obtain rfl := Option.some.inj hd'
    cases hn'
  · rcases List.mem_append.mp he with he | he
    · obtain ⟨hserved, y, hy, hc, f, hf, hle, hstarts⟩ := h.sent e he
      exact ⟨hserved, y, hy, hc, f, hgrows hf, hle, hstarts⟩
    · obtain rfl := List.mem_singleton.mp he
      refine ⟨(hrecorded.sending d hd).1, x, huses, hcovers, ?_⟩
      rcases hfirst with hstarts | ⟨-, f, hf, hstarts⟩
      · exact ⟨_, List.mem_append_right _ List.mem_cons_self, le_refl id, hstarts⟩
      · have hlt := List.all_eq_true.mp hnext f hf
        simp only [Bool.and_eq_true, decide_eq_true_eq] at hlt
        exact ⟨f, hgrows hf, hlt.1.le, hstarts⟩
  · simp only [List.map_append, h.accepted, List.map_cons, List.map_nil]

theorem carried_step (h : p.Carried env) (hown : p.page.KeysOwn env) (hrecorded : p.page.Recorded env)
    (hfollows : p.Follows env a) (hstep : p.step env a = some q) : q.Carried env := by
  obtain ⟨t, hst, rfl⟩ := Option.map_eq_some_iff.mp hstep
  cases hsends : a.sends with
  | false =>
    obtain ⟨hsending, hsessions, hstate, -, haccepted, -⟩ := quiet_step hsends hst
    have hasks : a.asks = false := by
      cases a with
      | gate => cases hsends
      | _ => rfl
    have hposts : a.posts = false := by
      cases a with
      | accept => cases hsends
      | _ => rfl
    rw [hasks, hposts]
    exact h.quiet hsessions hstate haccepted hsending
  | true =>
  have htakes := SendPage.takes_of_step hst
  cases a with
  | submit target ownKey =>
    obtain ⟨hnone, rfl⟩ := htakes
    refine h.idle rfl rfl rfl rfl (by simp [hnone]) fun d hd => ?_
    obtain rfl := Option.some.inj hd
    rfl
  | gate now =>
    obtain ⟨d, hd, hpoint, rfl⟩ := htakes
    exact carried_passGate h hown hrecorded hd hpoint now
  | mint sid key now =>
    obtain ⟨d, gated, recipients, hd, hpoint, hfresh, rfl⟩ := htakes
    exact carried_startSession h hrecorded hd hpoint hfresh now
  | failMint =>
    obtain ⟨d, gated, recipients, hd, hpoint, rfl⟩ := htakes
    exact h.idle rfl rfl rfl rfl (unposted_of_point hd (by rw [Sending.unposted, hpoint])) (by simp)
  | sign ct sig =>
    obtain ⟨d, n, hd, hpoint, rfl⟩ := htakes
    have hn : d.unposted = some n := by rw [Sending.unposted, hpoint]
    refine h.still rfl rfl rfl (fun x _ hne => ⟨hne, fun d' n' hd' hn' _ => ?_⟩) (fun d' _ _ hd' hpoint' => ?_)
      fun d' n' hd' hn' => ?_
    · obtain rfl := Option.some.inj (hd.symm.trans hd')
      exact ⟨_, rfl, hn.symm.trans hn', rfl⟩
    · obtain rfl := Option.some.inj hd'
      cases hpoint'
    · obtain rfl := Option.some.inj hd'
      obtain rfl : n = n' := Option.some.inj hn'
      exact h.unposted d n hd hn
  | failSign =>
    obtain ⟨_, _, -, -, rfl⟩ := htakes
    have hkeys : (p.page.sending.bind Sending.unposted).all (·.keys.isNone) = true := hfollows.2.2
    refine h.idle rfl rfl rfl rfl (fun d hd n hn => ?_) (by simp)
    rw [hd, Option.bind_some, hn] at hkeys
    simpa using hkeys
  | accept id createdAt =>
    obtain ⟨d, n, ct, sig, hd, hpoint, hnext, rfl⟩ := htakes
    have hlast := List.getLast?_concat (l := p.page.accepted) (a := Posted.mk id createdAt d.target n ct sig)
    simp only [SendAction.posts, SendAction.asks, hlast]
    exact carried_accept h hrecorded hd hpoint hnext
  | refuse =>
    obtain ⟨d, n, ct, sig, hd, hpoint, rfl⟩ := htakes
    exact carried_failPost h hd (.inl (by rw [Sending.unposted, hpoint]))
  | respond =>
    obtain ⟨d, n, hd, hpoint, rfl⟩ := htakes
    exact h.idle rfl rfl rfl rfl (unposted_of_point hd (by rw [Sending.unposted, hpoint])) (by simp)
  | lose =>
    obtain ⟨d, n, hd, hpoint, rfl⟩ := htakes
    exact carried_failPost h hd (.inr (by rw [Sending.unposted, hpoint]))
  | receive | collect | adopt | decrypt | adoptOne | arrive | invalidate | trust | commit => cases hsends

end GatedPage

end carried

/-! ## What a recipient finds -/

section envelopes

variable {env : Sender} {x : StartedSession} {ownKey : Text} {recipients : List Contact} {target : Target}

theorem lookup_of_forall {fields : List (Text × Value)} {name : Text} {v : Value} (hmem : (name, v) ∈ fields)
    (hall : ∀ w, (name, w) ∈ fields → w = v) : fields.lookup name = some v := by
  induction fields with
  | nil => cases hmem
  | cons field fields ih =>
    obtain ⟨name', w⟩ := field
    by_cases hname : name = name'
    · subst hname
      simpa using hall w List.mem_cons_self
    · have hrest : (name, v) ∈ fields := by simpa [hname] using hmem
      rw [List.lookup_cons, beq_eq_false_iff_ne.mpr hname]
      exact ih hrest fun w hw => hall w (List.mem_cons_of_mem _ hw)

theorem payload_keys (m : Posted) : m.payload.get "keys" = some (m.n.keys.getD .null) := by
  cases htarget : m.target <;> simp [Posted.payload, Numbered.payload, htarget, Target.gid, Value.get] <;> rfl

theorem keyBlob_dm {row : MessageRow} {me : Text} {payload : Value} {fields : List (Text × Value)}
    (h : payload.get "keys" = some (.obj fields)) (hne : toLowerCase row.senderAddress ≠ me) :
    keyBlob row .dm me payload = (fields.lookup (lit "recip")).filter Value.truthy := by
  have htruthy : (some (Value.obj fields)).filter Value.truthy = some (.obj fields) := rfl
  simp only [keyBlob, h, htruthy, if_neg hne]
  rfl

theorem keyBlob_group {row : MessageRow} {me : Text} {payload : Value} {fields : List (Text × Value)}
    (h : payload.get "keys" = some (.obj fields)) :
    keyBlob row .group me payload = (fields.lookup me).filter Value.truthy := by
  have htruthy : (some (Value.obj fields)).filter Value.truthy = some (.obj fields) := rfl
  simp only [keyBlob, h, htruthy]
  rfl

/-- Whom a session was wrapped for finds the envelope in the message that starts it. -/
theorem keyBlob_of_starts (hwrap : ∀ key k, (env.wrapSessionKey key k).truthy = true) {f : Posted}
    (hstarts : f.n.Starts env f.target x) {c : Contact} (hc : (c.address, c.encryptionPublicKey) ∈ x.wraps)
    {row : MessageRow} (hsender : toLowerCase row.senderAddress = env.me)
    (hother : f.target.mode = .dm → c.address ≠ env.me) :
    keyBlob row f.target.mode c.address f.payload = some (env.wrapSessionKey f.n.key c.encryptionPublicKey) := by
  obtain ⟨ownKey, recipients, hof, hkeys⟩ := hstarts.keys
  have hpayload : f.payload.get "keys" = some (f.target.keyPayload env ownKey recipients f.n.key) := by
    rw [payload_keys, hkeys, Option.getD_some]
  have hfound : (some (env.wrapSessionKey f.n.key c.encryptionPublicKey)).filter Value.truthy = _ :=
    Option.filter_some_pos (hwrap f.n.key c.encryptionPublicKey)
  rw [hof.wraps] at hc
  have hserved := hof.served
  have hsub := hof.contacts
  cases htarget : f.target with
  | partner user =>
    rw [htarget] at hc hother hpayload
    have hne : env.me ≠ c.address := (hother rfl).symm
    have hkey : c.encryptionPublicKey = user.encryptionPublicKey := by
      rcases List.mem_cons.mp hc with heq | hown
      · exact (Prod.mk.inj heq).2
      · split at hown
        · cases hown
        · exact absurd (Prod.mk.inj (List.mem_singleton.mp hown)).1.symm hne
    rw [← hfound, hkey]
    exact keyBlob_dm hpayload (hsender ▸ hne)
  | channel id members =>
    rw [htarget] at hc hserved hsub hpayload
    have hlookup : (recipients.map fun m => (m.address, env.wrapSessionKey f.n.key m.encryptionPublicKey)).lookup
        c.address = some (env.wrapSessionKey f.n.key c.encryptionPublicKey) := by
      obtain ⟨m, hm, heq⟩ := List.mem_map.mp hc
      obtain ⟨haddress, hkey⟩ := Prod.mk.inj heq
      refine lookup_of_forall (List.mem_map.mpr ⟨m, hm, by rw [haddress, hkey]⟩) fun w hw => ?_
      obtain ⟨m', hm', heq'⟩ := List.mem_map.mp hw
      obtain ⟨haddress', rfl⟩ := Prod.mk.inj heq'
      have hsame : m' = m :=
        List.inj_on_of_nodup_map hserved.1 (hsub hm') (hsub hm) (haddress'.trans haddress.symm)
      rw [hsame, hkey]
    rw [← hfound, ← hlookup]
    exact keyBlob_group hpayload

end envelopes

/-- Where no batch of unwrapped keys replaces a key of the cache, and no message that starts a session is given up
before its request, every message on the server follows one of its session, or is it, in which everyone whom the gate
accepted when the message was sent finds the key that the message is sealed with. -/
theorem recipients_find_the_key (env : Sender) (hwrap : ∀ key k, (env.wrapSessionKey key k).truthy = true)
    (stores : TrustStores) {actions : List SendAction} {p : GatedPage}
    (h : Run (restrict (GatedPage.Follows env) (ofPartial (GatedPage.step env))) (.start stores) actions p) :
    p.sent.map (·.1) = p.page.accepted ∧ ∀ m gated, (m, gated) ∈ p.sent → ∃ f ∈ p.page.accepted,
      f.id ≤ m.id ∧ f.target.conv = m.target.conv ∧ f.n.sid = m.n.sid ∧
        ∀ c ∈ m.target.contacts, env.gate.Accepts gated c → ∀ row : MessageRow,
          toLowerCase row.senderAddress = env.me → (f.target.mode = .dm → c.address ≠ env.me) →
            keyBlob row f.target.mode c.address f.payload =
              some (env.wrapSessionKey m.n.key c.encryptionPublicKey) := by
  have hcarried : p.page.KeysOwn env ∧ p.page.Recorded env ∧ p.Carried env := by
    refine h.invariant (I := fun p => p.page.KeysOwn env ∧ p.page.Recorded env ∧ p.Carried env) ?_
      ⟨keysOwn_start stores, recorded_start stores, GatedPage.carried_start stores⟩
    rintro p a q ⟨hown, hrecorded, hcarried⟩ ⟨hfollows, hstep⟩
    have hcarried' := GatedPage.carried_step hcarried hown hrecorded hfollows hstep
    obtain ⟨t, hst, rfl⟩ := Option.map_eq_some_iff.mp hstep
    exact ⟨keysOwn_step hown hfollows.2.1 hst, recorded_step hrecorded hfollows.1 hst, hcarried'⟩
  refine ⟨hcarried.2.2.accepted, fun m gated hm => ?_⟩
  obtain ⟨-, x, huses, hcovers, f, hf, hle, hstarts⟩ := hcarried.2.2.sent _ hm
  refine ⟨f, hf, hle, hstarts.uses.conv.symm.trans huses.conv, hstarts.sid.symm.trans huses.sid, ?_⟩
  intro c hc haccepts row hsender hother
  rw [← huses.key, hstarts.key]
  exact keyBlob_of_starts hwrap hstarts (hcovers c hc haccepts) hsender hother

section sample

/-- A client that wraps a key by naming it. -/
def sampleWrapper : Sender where
  toReader := { sharedReader with me := uniformAddress 'a' }
  gate := ⟨uniformAddress 'a', fun _ _ _ _ => true⟩
  wrapSessionKey key _ := .obj [(lit "encKey", .str key)]

def sampleMembers : List Contact :=
  ['b', 'c'].map fun c => ⟨uniformAddress c, [.char c, .char c], lit "key", lit "attestation"⟩

/-- A message to a group that is refused, one of a new session, and one more of it. -/
def sampleSends : List SendAction :=
  let submit (now : ℕ) : List SendAction := [.submit (.channel (lit "g") sampleMembers) [], .gate now]
  submit 0 ++ [.mint (lit "s") (lit "k") 0, .sign (lit "c") (lit "sig"), .refuse] ++
    submit 1 ++ [.mint (lit "t") (lit "l") 1] ++ finishSend 0 ++ submit 2 ++ finishSend 1

def sampleGated : GatedPage :=
  after (fun p a => if decide (p.Follows sampleWrapper a) = true then p.step sampleWrapper a else none) sampleSends
    (.start ⟨none, none⟩)

theorem recipients_find_the_key_sample :
    sampleGated.sent.map (·.1) = sampleGated.page.accepted ∧ ∀ m gated, (m, gated) ∈ sampleGated.sent →
      ∃ f ∈ sampleGated.page.accepted, f.id ≤ m.id ∧ f.target.conv = m.target.conv ∧ f.n.sid = m.n.sid ∧
        ∀ c ∈ m.target.contacts, sampleWrapper.gate.Accepts gated c → ∀ row : MessageRow,
          toLowerCase row.senderAddress = sampleWrapper.me → (f.target.mode = .dm → c.address ≠ sampleWrapper.me) →
            keyBlob row f.target.mode c.address f.payload =
              some (sampleWrapper.wrapSessionKey m.n.key c.encryptionPublicKey) :=
  recipients_find_the_key sampleWrapper (fun _ _ => rfl) ⟨none, none⟩
    (Run.restrict_after (fun _ _ => of_decide_eq_true) (by decide +kernel))

/-- The second message on the server has no envelope of its own. -/
example : sampleGated.page.accepted.map (fun m => (m.id, m.n.sid, m.n.keys.isSome)) =
    [(0, lit "t", true), (1, lit "t", false)] := by
  decide +kernel

end sample

end Kryptolog.Client
