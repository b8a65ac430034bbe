import Kryptolog.Client.FreshnessVerdicts
import Kryptolog.Client.SendPath

/-! # The positions of a session's messages

A position is taken before the outcome of the send is known, and only a session whose first message the server
refuses is given up with it. Where no send fails that has taken a position after an accepted message, the accepted
messages of every session stand at consecutive positions, and no reader is warned of them.
-/

namespace Kryptolog.Client
set_option autoImplicit false

open Script
open Server (Kind)
open Runs

/-! ## Positions -/

/-- The position that a send has taken and that no message has on the server yet. -/
def Sending.pending (d : Sending) : Option (Text × ℕ) :=
  match d.point with
  | .sealing n | .posting n _ _ => some (keyIdOf d.target.conv n.sid, n.seq)
  | _ => none

namespace SendPage

variable (s : SendPage)

def pending : Option (Text × ℕ) := s.sending.bind Sending.pending

/-- The accepted messages of a session, in their order. -/
def sequence (id : Text) : List Posted := s.accepted.filter (·.keyId = id)

/-- The action is not the failure of a send that has taken a position after an accepted message. -/
def KeepsPosition : SendAction → Prop
  | .failSign | .refuse => ∀ m ∈ s.accepted, s.pending.all (·.1 ≠ m.keyId) = true
  | _ => True

instance (a : SendAction) : Decidable (s.KeepsPosition a) := by
  cases a <;> unfold KeepsPosition <;> infer_instance

/-- What a step does to the positions. -/
inductive Numbers (s t : SendPage) : SendAction → Prop
  | quiet {a : SendAction} (pending : t.pending = s.pending) (sendState : t.sendState = s.sendState)
      (accepted : t.accepted = s.accepted) (named : s.named ⊆ t.named) : Numbers s t a
  | settle {a : SendAction} (pending : t.pending = none) (sendState : ∀ id, t.sendState id = s.sendState id ∨
      t.sendState id = none) (accepted : t.accepted = s.accepted) (named : t.named = s.named)
      (given : s.pending = none ∨ a = .failSign ∨ a = .refuse) : Numbers s t a
  | reuse {a : SendAction} (id : Text) (st : SendState) (next : s.sendState id = some st) (free : s.pending = none)
      (pending : t.pending = some (id, st.next))
      (sendState : t.sendState = Function.update s.sendState id (some { st with next := st.next + 1 }))
      (accepted : t.accepted = s.accepted) (named : t.named = s.named) : Numbers s t a
  | start {a : SendAction} (id : Text) (now : ℕ) (fresh : id ∉ s.named) (free : s.pending = none)
      (pending : t.pending = some (id, 0))
      (sendState : t.sendState = Function.update s.sendState id (some ⟨1, now⟩))
      (accepted : t.accepted = s.accepted) (named : t.named = id :: s.named) : Numbers s t a
  | accept {a : SendAction} (m : Posted) (taken : s.pending = some (m.keyId, m.n.seq)) (pending : t.pending = none)
      (next : s.isNext m.id m.createdAt = true) (sendState : t.sendState = s.sendState)
      (accepted : t.accepted = s.accepted ++ [m]) (named : t.named = s.named) : Numbers s t a

end SendPage

section steps

variable {env : Sender} {s t : SendPage} {a : SendAction}

theorem pending_of_point {d : Sending} {p : Option (Text × ℕ)} (h : s.sending = some d) (hp : d.pending = p) :
    s.pending = p := by
  rw [SendPage.pending, h, Option.bind_some, hp]

theorem numbers_passGate {d : Sending} {now : ℕ} (h : s.sending = some d) (hpoint : d.point = .gating) :
    SendPage.Numbers s (s.passGate env d now) a := by
  have hfree : s.pending = none := pending_of_point h (by rw [Sending.pending, hpoint])
  rw [SendPage.passGate]
  split
  next stores passed hgate =>
  cases passed with
  | none => exact .settle rfl (fun _ => .inl rfl) rfl rfl (.inl hfree)
  | some recipients =>
    simp only
    cases hreuse : s.reusable d recipients now with
    | none => exact .settle rfl (fun _ => .inl rfl) rfl rfl (.inl hfree)
    | some r =>
      obtain ⟨sid, key, st⟩ := r
      have hnext : s.sendState (keyIdOf d.target.conv sid) = some st := by
        simp only [SendPage.reusable, Option.bind_eq_bind, Option.bind_eq_some_iff] at hreuse
        obtain ⟨sid', -, key', -, st', hst, hif⟩ := hreuse
        split at hif
        · obtain ⟨rfl, rfl, rfl⟩ : sid' = sid ∧ key' = key ∧ st' = st := by simpa using hif
          exact hst
        · cases hif
      exact .reuse _ st hnext hfree rfl rfl rfl rfl

theorem numbers_failPost {d : Sending} {n : Numbered} (h : s.pending = none ∨ a = .failSign ∨ a = .refuse) :
    SendPage.Numbers s (s.failPost d n) a := by
  rw [SendPage.failPost]
  split
  · refine .settle rfl (fun id => ?_) rfl rfl h
    by_cases hid : id = keyIdOf d.target.conv n.sid
    · rw [hid]
      exact .inr (Function.update_self ..)
    · exact .inl (Function.update_of_ne hid ..)
  · exact .settle rfl (fun _ => .inl rfl) rfl rfl h

/-- Every step takes a position, gives one up, has it accepted, or leaves the positions alone. -/
theorem numbers_of_step (h : s.step env a = some t) : s.Numbers t a := by
  have htakes := SendPage.takes_of_step h
  cases a with
  | submit target ownKey =>
    obtain ⟨hsending, rfl⟩ := htakes
    refine .settle rfl (fun _ => .inl rfl) rfl rfl (.inl ?_)
    rw [SendPage.pending, hsending, Option.bind_none]
  | gate now =>
    obtain ⟨d, hsending, hpoint, rfl⟩ := htakes
    exact numbers_passGate hsending hpoint
  | mint sid key now =>
    obtain ⟨d, gated, recipients, hsending, hpoint, hfresh, rfl⟩ := htakes
    exact .start _ now hfresh (pending_of_point hsending (by rw [Sending.pending, hpoint])) rfl rfl rfl rfl
  | failMint =>
    obtain ⟨d, gated, recipients, hsending, hpoint, rfl⟩ := htakes
    exact .settle rfl (fun _ => .inl rfl) rfl rfl (.inl (pending_of_point hsending (by rw [Sending.pending, hpoint])))
  | sign ct sig =>
    obtain ⟨d, n, hsending, hpoint, rfl⟩ := htakes
    refine .quiet ?_ rfl rfl (List.Subset.refl _)
    rw [pending_of_point hsending rfl, Sending.pending, hpoint]
    rfl
  | failSign =>
    obtain ⟨d, n, hsending, hpoint, rfl⟩ := htakes
    exact .settle rfl (fun _ => .inl rfl) rfl rfl (.inr (.inl rfl))
  | accept id createdAt =>
    obtain ⟨d, n, ct, sig, hsending, hpoint, hnext, rfl⟩ := htakes
    exact .accept ⟨id, createdAt, d.target, n, ct, sig⟩ (pending_of_point hsending (by rw [Sending.pending, hpoint]; rfl))
      rfl hnext rfl rfl rfl
  | refuse =>
    obtain ⟨d, n, ct, sig, hsending, hpoint, rfl⟩ := htakes
    exact numbers_failPost (.inr (.inr rfl))
  | respond =>
    obtain ⟨d, n, hsending, hpoint, rfl⟩ := htakes
    exact .settle rfl (fun _ => .inl rfl) rfl rfl (.inl (pending_of_point hsending (by rw [Sending.pending, hpoint])))
  | lose =>
    obtain ⟨d, n, hsending, hpoint, rfl⟩ := htakes
    exact numbers_failPost (.inl (pending_of_point hsending (by rw [Sending.pending, hpoint])))
  | receive mode rows =>
    obtain rfl := htakes
    exact .quiet rfl rfl rfl (List.subset_append_right _ _)
  | collect i =>
    obtain ⟨mode, rows, -, rfl⟩ := htakes
    exact .quiet rfl rfl rfl (List.Subset.refl _)
  | adopt i granted =>
    obtain ⟨wrapped, -, rfl⟩ := htakes
    exact .quiet rfl rfl rfl (List.Subset.refl _)
  | decrypt mode row =>
    obtain rfl := htakes
    exact .quiet rfl rfl rfl (List.subset_append_right _ _)
  | adoptOne i granted =>
    obtain ⟨id, blob, -, rfl⟩ := htakes
    exact .quiet rfl rfl rfl (List.Subset.refl _)
  | arrive mode row =>
    obtain rfl := htakes
    exact .quiet rfl rfl rfl (List.subset_append_right _ _)
  | invalidate channelId | trust now event | commit =>
    obtain rfl := htakes
    exact .quiet rfl rfl rfl (List.Subset.refl _)

end steps

/-! ## What runs keep -/

/-- The position that the next message of a session takes on the server. -/
def SendPage.due (s : SendPage) (id : Text) : Option ℕ :=
  match s.pending.filter (·.1 = id) with
  | some p => some p.2
  | none => (s.sendState id).map (·.next)

/-- The accepted messages of each session stand at consecutive positions, and the next one follows them. -/
structure SendPage.Sequenced (s : SendPage) : Prop where
  chain : ∀ id, (s.sequence id).IsChain fun m m' => m'.n.seq = m.n.seq + 1
  due : ∀ id q, s.due id = some q → ∀ m ∈ (s.sequence id).getLast?, q = m.n.seq + 1
  pending : ∀ p, s.pending = some p → p.1 ∈ s.named ∧ ∀ st, s.sendState p.1 = some st → st.next = p.2 + 1
  reached : ∀ id st, s.sendState id = some st → id ∈ s.named
  named : ∀ m ∈ s.accepted, m.keyId ∈ s.named
  order : s.accepted.Pairwise fun m m' => m.id < m'.id ∧ m.createdAt ≤ m'.createdAt

section runs

variable {env : Sender} {s t : SendPage} {a : SendAction} {id : Text} {q : ℕ}

theorem due_of_pending (h : s.pending = some (id, q)) : s.due id = some q := by
  rw [SendPage.due, h]
  simp [Option.filter_some]

theorem due_of_not_pending (h : s.pending.all (·.1 ≠ id) = true) : s.due id = (s.sendState id).map (·.next) := by
  have hnone : s.pending.filter (·.1 = id) = none := by
    cases hp : s.pending with
    | none => rfl
    | some p =>
      rw [hp] at h
      simpa [Option.filter_some] using h
  rw [SendPage.due, hnone]

theorem sequence_congr (h : t.accepted = s.accepted) (id : Text) : t.sequence id = s.sequence id := by
  rw [SendPage.sequence, SendPage.sequence, h]

theorem mem_accepted_of_getLast? {m : Posted} (h : m ∈ (s.sequence id).getLast?) : m ∈ s.accepted ∧ m.keyId = id := by
  have hmem := List.mem_of_getLast? h
  rw [SendPage.sequence, List.mem_filter] at hmem
  exact ⟨hmem.1, of_decide_eq_true hmem.2⟩

/-- The positions stay in sequence where the next one of each session does. -/
theorem SendPage.Sequenced.kept (h : s.Sequenced) (haccepted : t.accepted = s.accepted) (hnamed : s.named ⊆ t.named)
    (hdue : ∀ id q, t.due id = some q → s.due id = some q ∨ ∀ m ∈ s.accepted, m.keyId ≠ id)
    (hpending : ∀ p, t.pending = some p → p.1 ∈ t.named ∧ ∀ st, t.sendState p.1 = some st → st.next = p.2 + 1)
    (hreached : ∀ id st, t.sendState id = some st → id ∈ t.named) : t.Sequenced where
  chain id := by
    rw [sequence_congr haccepted]
    exact h.chain id
  due id q hq m hm := by
    rw [sequence_congr haccepted] at hm
    rcases hdue id q hq with hold | hnone
    · exact h.due id q hold m hm
    · obtain ⟨hmem, hid⟩ := mem_accepted_of_getLast? hm
      exact absurd hid (hnone m hmem)
  pending := hpending
  reached := hreached
  named m hm := hnamed (h.named m (haccepted ▸ hm))
  order := by
    rw [haccepted]
    exact h.order

theorem sequenced_start (stores : TrustStores) : (SendPage.start stores).Sequenced where
  chain _ := .nil
  due _ _ _ _ hm := nomatch hm
  pending _ hp := nomatch hp
  reached _ _ hst := nomatch hst
  named _ hm := nomatch hm
  order := .nil

theorem sequenced_step (h : s.Sequenced) (hkeeps : s.KeepsPosition a) (hstep : s.step env a = some t) :
    t.Sequenced := by
  cases numbers_of_step hstep with
  | quiet hpending hstate haccepted hnamed =>
    refine h.kept haccepted hnamed (fun id q hq => .inl ?_) (fun p hp => ?_) fun id st hst => ?_
    · rwa [SendPage.due, hpending, hstate] at hq
    · obtain ⟨hp, hnext⟩ := h.pending p (hpending ▸ hp)
      exact ⟨hnamed hp, fun st hst => hnext st (hstate ▸ hst)⟩
    · exact hnamed (h.reached id st (hstate ▸ hst))
  | settle hpending hstate haccepted hnamed hgiven =>
    have hall (id : Text) : t.pending.all (·.1 ≠ id) = true := by rw [hpending]; rfl
    refine h.kept haccepted (hnamed ▸ List.Subset.refl _) (fun id q hq => ?_)
      (fun p hp => nomatch hpending.symm.trans hp) fun id st hst => ?_
    · rw [due_of_not_pending (hall id)] at hq
      rcases hstate id with hsame | hnone
      · rw [hsame] at hq
        by_cases hid : s.pending.all (·.1 ≠ id) = true
        · exact .inl ((due_of_not_pending hid).trans hq)
        · -- the send that failed had taken a position in the session
          have hgone : a = .failSign ∨ a = .refuse := by
            rcases hgiven with hnone | hgiven
            · rw [hnone] at hid
              exact absurd rfl hid
            · exact hgiven
          refine .inr fun m hm hkey => hid ?_
          rcases hgone with rfl | rfl
          · exact hkey ▸ hkeeps m hm
          · exact hkey ▸ hkeeps m hm
      · rw [hnone] at hq
        cases hq
    · rw [hnamed]
      rcases hstate id with hsame | hnone
      · exact h.reached id st (hsame ▸ hst)
      · rw [hnone] at hst
        cases hst
  | reuse id st hnext hfree hpending hstate haccepted hnamed =>
    have hold (id' : Text) : s.due id' = (s.sendState id').map (·.next) := due_of_not_pending (by rw [hfree]; rfl)
    have hid : id ∈ t.named := by
      rw [hnamed]
      exact h.reached id st hnext
    refine h.kept haccepted (hnamed ▸ List.Subset.refl _) (fun id' q hq => .inl ?_) (fun p hp => ?_) fun id' st' hst' => ?_
    · by_cases hid : id' = id
      · rw [hid, due_of_pending hpending] at hq
        rw [hold, hid, hnext]
        exact hq
      · have hother : t.pending.all (·.1 ≠ id') = true := by
          rw [hpending]
          simpa using Ne.symm hid
        rw [due_of_not_pending hother, hstate, Function.update_of_ne hid] at hq
        exact (hold id').trans hq
    · obtain rfl : (id, st.next) = p := Option.some.inj (hpending.symm.trans hp)
      refine ⟨hid, fun st' hst' => ?_⟩
      rw [hstate, Function.update_self] at hst'
      obtain rfl := Option.some.inj hst'
      rfl
    · by_cases hid' : id' = id
      · rwa [hid']
      · rw [hstate, Function.update_of_ne hid'] at hst'
        rw [hnamed]
        exact h.reached id' st' hst'
  | start id now hfresh hfree hpending hstate haccepted hnamed =>
    have hold (id' : Text) : s.due id' = (s.sendState id').map (·.next) := due_of_not_pending (by rw [hfree]; rfl)
    have hid : id ∈ t.named := hnamed ▸ List.mem_cons_self
    have hsub : s.named ⊆ t.named := hnamed ▸ List.subset_cons_self _ _
    refine h.kept haccepted hsub (fun id' q hq => ?_) (fun p hp => ?_) fun id' st' hst' => ?_
    · by_cases hid : id' = id
      · refine .inr fun m hm hkey => hfresh ?_
        rw [← hid, ← hkey]
        exact h.named m hm
      · have hother : t.pending.all (·.1 ≠ id') = true := by
          rw [hpending]
          simpa using Ne.symm hid
        rw [due_of_not_pending hother, hstate, Function.update_of_ne hid] at hq
        exact .inl ((hold id').trans hq)
    · obtain rfl : (id, 0) = p := Option.some.inj (hpending.symm.trans hp)
      refine ⟨hid, fun st' hst' => ?_⟩
      rw [hstate, Function.update_self] at hst'
      obtain rfl := Option.some.inj hst'
      rfl
    · by_cases hid' : id' = id
      · rwa [hid']
      · rw [hstate, Function.update_of_ne hid'] at hst'
        exact hsub (h.reached id' st' hst')
  | accept m htaken hpending hnext hstate haccepted hnamed =>
    have hdue := due_of_pending htaken
    have hsequence (id : Text) : t.sequence id = s.sequence id ++ if m.keyId = id then [m] else [] := by
      rw [SendPage.sequence, haccepted, List.filter_append, SendPage.sequence]
      by_cases hid : m.keyId = id <;> simp [hid]
    have hall (id : Text) : t.pending.all (·.1 ≠ id) = true := by rw [hpending]; rfl
    have hreached (id : Text) (st : SendState) (hst : t.sendState id = some st) : id ∈ t.named :=
      hnamed ▸ h.reached id st (hstate ▸ hst)
    refine ⟨fun id => ?_, fun id q hq m' hm' => ?_, (fun p hp => nomatch hpending.symm.trans hp), hreached,
      fun m' hm' => ?_, ?_⟩
    · rw [hsequence]
      by_cases hid : m.keyId = id
      · rw [if_pos hid]
        refine List.isChain_append.mpr ⟨h.chain id, .singleton m, fun x hx y hy => ?_⟩
        obtain rfl := Option.some.inj hy
        exact h.due id _ (hid ▸ hdue) x hx
      · rw [if_neg hid, List.append_nil]
        exact h.chain id
    · rw [hsequence] at hm'
      rw [due_of_not_pending (hall id), hstate] at hq
      by_cases hid : m.keyId = id
      · rw [if_pos hid, List.getLast?_concat] at hm'
        obtain rfl := Option.some.inj hm'
        obtain ⟨st, hst, rfl⟩ := Option.map_eq_some_iff.mp hq
        exact (h.pending _ htaken).2 st (hid ▸ hst)
      · rw [if_neg hid, List.append_nil] at hm'
        have hother : s.pending.all (·.1 ≠ id) = true := by
          rw [htaken]
          simpa using hid
        exact h.due id q ((due_of_not_pending hother).trans hq) m' hm'
    · rw [haccepted] at hm'
      rw [hnamed]
      rcases List.mem_append.mp hm' with hm' | hm'
      · exact h.named m' hm'
      · rw [List.mem_singleton.mp hm']
        exact (h.pending _ htaken).1
    · rw [haccepted]
      refine List.pairwise_append.mpr ⟨h.order, List.pairwise_singleton _ _, fun x hx y hy => ?_⟩
      rw [List.mem_singleton.mp hy]
      have hlast := List.all_eq_true.mp hnext x hx
      simpa using hlast

end runs

/-! ## What readers are warned of -/

/-- Messages at consecutive positions, in the order of their times. -/
structure InOrder (ds : List Dated) : Prop where
  seqs : ds.IsChain fun d d' => d'.seq = d.seq + 1
  later : ds.Pairwise fun d d' => d.id ≠ d'.id ∧
    ∃ t t', d.deliveredAt = some t ∧ d'.deliveredAt = some t' ∧ t ≤ t'
  finite : ∀ d ∈ ds, d.deliveredAt.isSome = true

section order

variable {all ds ms : List Dated} {d : Dated} {state : Delivered}

theorem InOrder.of_prefix (h : InOrder all) (hds : ds <+: all) : InOrder ds where
  seqs := h.seqs.prefix hds
  later := h.later.sublist hds.sublist
  finite d hd := h.finite d (hds.subset hd)

theorem InOrder.seq_lt (h : InOrder ds) : ds.Pairwise fun d d' => d.seq < d'.seq := by
  have hlt : ds.IsChain fun d d' => d.seq < d'.seq := h.seqs.imp fun d d' h => by omega
  exact hlt.pairwise

/-- The last of the messages is the latest. -/
theorem InOrder.le_last (h : InOrder ds) (hd : d ∈ ds) {t : ℤ} (ht : ds.getLast?.bind (·.deliveredAt) = some t) :
    ∃ t', d.deliveredAt = some t' ∧ t' ≤ t := by
  obtain ⟨last, hlast, hat⟩ := Option.bind_eq_some_iff.mp ht
  obtain ⟨pre, rfl⟩ : ∃ pre, ds = pre ++ [last] := ⟨_, (List.dropLast_append_getLast? last hlast).symm⟩
  rcases List.mem_append.mp hd with hd | hd
  · obtain ⟨-, t', t'', ht', ht'', hle⟩ := (List.pairwise_append.mp h.later).2.2 d hd last (by simp)
    obtain rfl := Option.some.inj (hat.symm.trans ht'')
    exact ⟨t', ht', hle⟩
  · obtain rfl := List.mem_singleton.mp hd
    exact ⟨t, hat, le_rfl⟩

/-- A message that was delivered before changes nothing, and is not flagged for its position. -/
theorem Tracks.again (h : Tracks ds state) (hds : InOrder ds) (hd : d ∈ ds) :
    d.judge state none = (if d.isSkewed then some .skew else none) ∧ d.record state = state := by
  obtain ⟨q, hq⟩ : ∃ q, state.maxSeq = some q := by
    rw [h.maxSeq]
    cases hlast : ds.getLast? with
    | none =>
      rw [List.getLast?_eq_none_iff.mp hlast] at hd
      cases hd
    | some last => exact ⟨last.seq, rfl⟩
  have hle := h.le d hd q hq
  have hlookup : state.ids.lookup d.seq = some d.id := by
    rw [h.ids]
    cases hfind : ds.find? (·.seq == d.seq) with
    | none => simpa using List.find?_eq_none.mp hfind d hd
    | some d' =>
      have hseq : d'.seq = d.seq := by simpa using List.find?_some hfind
      have hnodup : (ds.map (·.seq)).Nodup := List.pairwise_map.mpr (hds.seq_lt.imp Nat.ne_of_lt)
      have hsame : d' = d := List.inj_on_of_nodup_map hnodup (List.mem_of_find?_eq_some hfind) hd hseq
      rw [hsame, Option.map_some]
  have hreplayed : d.isReplayed state = false := by simp [Dated.isReplayed, hlookup]
  have hreordered : d.isReordered state = false := by simp [Dated.isReordered, hlookup]
  have hgap : d.isGap state = false := by
    have hnot : ¬ q + 1 < d.seq := by omega
    simp [Dated.isGap, hq, hnot]
  have hhigher : state.maxSeq.all (· < d.seq) = false := by simpa [hq] using hle
  have hmaxAt : d.isLatest state = true → d.deliveredAt = state.maxAt := by
    intro hlatest
    obtain ⟨t, ht⟩ := Option.isSome_iff_exists.mp (hds.finite d hd)
    obtain ⟨last, hlast⟩ : ∃ last, ds.getLast? = some last := by
      rw [h.maxSeq] at hq
      obtain ⟨last, hlast, -⟩ := Option.map_eq_some_iff.mp hq
      exact ⟨last, hlast⟩
    obtain ⟨t', ht'⟩ := Option.isSome_iff_exists.mp (hds.finite last (List.mem_of_getLast? hlast))
    have hat : state.maxAt = some t' := by rw [h.maxAt, hlast, Option.bind_some, ht']
    obtain ⟨t'', hd', hle'⟩ := hds.le_last hd (h.maxAt.symm.trans hat)
    obtain rfl := Option.some.inj (ht.symm.trans hd')
    rw [Dated.isLatest, ht, hat, Option.any_some, Option.all_some] at hlatest
    rw [ht, hat, le_antisymm hle' (of_decide_eq_true hlatest)]
  refine ⟨by simp [Dated.judge, hreplayed, hreordered, hgap], ?_⟩
  rw [Dated.record, hreplayed, hlookup, hhigher]
  simp only [Bool.false_eq_true, if_false, Option.isSome_some, if_true, Bool.and_false]
  split
  · next hlatest => rw [hmaxAt hlatest]
  · rfl

/-- The next message of the sequence is not flagged for its position. -/
theorem Tracks.next (h : Tracks ds state) (hall : InOrder (ds ++ [d])) :
    d.judge state none = (if d.isSkewed then some .skew else none) ∧ Tracks (ds ++ [d]) (d.record state) := by
  have hnext : state.maxSeq.all (d.seq == · + 1) = true := by
    rw [h.maxSeq]
    cases hlast : ds.getLast? with
    | none => rfl
    | some last =>
      have hseq := (List.isChain_append.mp hall.seqs).2.2 last hlast d rfl
      simpa using hseq
  have hlatest : d.isLatest state = true := by
    obtain ⟨t, ht⟩ := Option.isSome_iff_exists.mp (hall.finite d (by simp))
    rw [Dated.isLatest, ht, Option.any_some, h.maxAt]
    cases hlast : ds.getLast? with
    | none => rfl
    | some last =>
      obtain ⟨-, t₀, t', hat, hat', hle⟩ := (List.pairwise_append.mp hall.later).2.2 last
        (List.mem_of_getLast? hlast) d (by simp)
      obtain rfl := Option.some.inj (ht.symm.trans hat')
      simpa [hat] using hle
  exact ⟨h.judge_next hnext, h.record hnext hlatest⟩

/-- A message after those of a part that has been delivered is not flagged for its position. -/
theorem Tracks.meets (h : Tracks ds state) (hall : InOrder all) (hds : ds <+: all) (hms : ms <+: ds)
    (hd : ms ++ [d] <+: all) : d.judge state none = (if d.isSkewed then some .skew else none) ∧
      ∃ ds', ds' <+: all ∧ ms ++ [d] <+: ds' ∧ Tracks ds' (d.record state) := by
  have hlast : d ∈ ms ++ [d] := by simp
  have hagain (hold : ms ++ [d] <+: ds) : d.judge state none = (if d.isSkewed then some .skew else none) ∧
      ∃ ds', ds' <+: all ∧ ms ++ [d] <+: ds' ∧ Tracks ds' (d.record state) := by
    obtain ⟨hjudge, hrecord⟩ := h.again (hall.of_prefix hds) (hold.subset hlast)
    rw [hrecord]
    exact ⟨hjudge, ds, hds, hold, h⟩
  rcases List.prefix_or_prefix_of_prefix hd hds with hold | hnew
  · exact hagain hold
  · rcases List.prefix_concat_iff.mp hnew with hsame | hshort
    · exact hagain (hsame ▸ List.prefix_rfl)
    · obtain rfl : ms = ds := hms.eq_of_length_le hshort.length_le
      obtain ⟨hjudge, hrecord⟩ := h.next (hall.of_prefix hd)
      exact ⟨hjudge, _, hd, List.prefix_rfl, hrecord⟩

/-- What is kept after a page with a part of the sequence. -/
theorem Tracks.reads (h : Tracks ds state) (hall : InOrder all) (hds : ds <+: all) (hms : ms <+: all) :
    ∃ ds', ds' <+: all ∧ ms <+: ds' ∧ Tracks ds' (ms.foldl (fun state d => d.record state) state) := by
  induction ms using List.reverseRecOn with
  | nil => exact ⟨ds, hds, List.nil_prefix, h⟩
  | append_singleton ms d ih =>
    obtain ⟨ds', hds', hms', h'⟩ := ih ((List.prefix_append _ _).trans hms)
    obtain ⟨-, ds'', hds'', hms'', h''⟩ := h'.meets hall hds' hms' hms
    rw [List.foldl_append]
    exact ⟨ds'', hds'', hms'', h''⟩

end order

/-- What the message signs, and when it was delivered. -/
def Posted.dated (m : Posted) : Dated := ⟨m.id, m.n.ts, m.n.seq, some m.createdAt⟩

/-- The row of a message on the server, as a reader parses it. -/
structure Reader.Shows (env : Reader) (row : MessageRow) (m : Posted) : Prop where
  id : row.id = m.id
  createdAt : row.createdAt = some m.createdAt
  content : env.parseJson row.content = some m.payload

/-- Among the rows of a page, those that a reader counts to a session are the rows of these messages. -/
structure Reader.Loads (env : Reader) (mode : Kind) (q : SequenceId) (ms : List Posted) (rows : List MessageRow) :
    Prop where
  ids : (rows.map (·.id)).Nodup
  shown : List.Forall₂ env.Shows (rows.filter fun row => (env.sequenceOf mode row).any (·.1 = q)) ms

/-- What a reader has kept after loading pages, one after another. -/
def Reader.seenAfter (env : Reader) (mode : Kind) (pages : List (List MessageRow)) : Seen :=
  pages.foldl (fun seen rows => (env.assessFreshness mode (rows.map (env.prepare mode)) (fun _ => none) seen).2)
    fun _ => none

section readers

variable {env : Reader} {mode : Kind} {q : SequenceId} {ms : List Posted} {rows : List MessageRow} {row : MessageRow}
  {m : Posted} {all : List Posted} {d : Dated} {seen : Seen}

theorem payload_ts (m : Posted) : m.payload.get "ts" = some (.num (.ofNat m.n.ts)) := by
  rw [Posted.payload]
  cases m.target <;> rfl

theorem payload_seq (m : Posted) : m.payload.get "seq" = some (.num (.ofNat m.n.seq)) := by
  rw [Posted.payload]
  cases m.target <;> rfl

theorem count_ofNat {p : Value} {name : String} {n k : ℕ} (h : p.get name = some (.num (.ofNat n)))
    (hk : count p name = some k) : k = n := by
  rw [count, h] at hk
  simp only at hk
  split at hk
  · rw [Number.digitsValue_ofNat] at hk
    exact (Option.some.inj hk).symm
  · cases hk

/-- A row that is judged is dated as its message is. -/
theorem Reader.Shows.dated (h : env.Shows row m) (hrow : env.sequenceOf mode row = some (q, d)) : d = m.dated := by
  obtain ⟨-, p, ts, seq, sid, hp, hts, hseq, -, -, rfl⟩ := sequenceOf_eq_some.mp hrow
  have hparsed : env.parseJson row.content = some p := (Option.filter_eq_some_iff.mp hp).1
  obtain rfl : m.payload = p := Option.some.inj (h.content.symm.trans hparsed)
  rw [count_ofNat (payload_ts m) hts, count_ofNat (payload_seq m) hseq, h.id, h.createdAt]
  rfl

theorem Reader.Loads.sequence_eq (h : env.Loads mode q ms rows) : env.sequence mode q rows = ms.map Posted.dated := by
  obtain ⟨-, hshown⟩ := h
  induction rows generalizing ms with
  | nil =>
    cases hshown
    rfl
  | cons row rows ih =>
    rw [Reader.sequence, List.filterMap_cons, ← Reader.sequence]
    cases hrow : env.sequenceOf mode row with
    | none =>
      rw [List.filter_cons_of_neg (by simp [hrow])] at hshown
      exact ih hshown
    | some e =>
      obtain ⟨q', d⟩ := e
      by_cases hq : q' = q
      · subst hq
        rw [List.filter_cons_of_pos (by simp [hrow])] at hshown
        cases hshown with
        | cons hfirst hrest =>
          rw [List.map_cons, ← hfirst.dated hrow, ← ih hrest]
          simp [Option.filter_some]
      · rw [List.filter_cons_of_neg (by simp [hrow, hq])] at hshown
        rw [← ih hshown]
        simp [Option.filter_some, hq]

theorem inOrder_sequence {s : SendPage} (h : s.Sequenced) (id : Text) :
    InOrder ((s.sequence id).map Posted.dated) where
  seqs := (List.isChain_map _).mpr (h.chain id)
  later := by
    refine List.pairwise_map.mpr ((h.order.filter _).imp fun hm => ?_)
    exact ⟨hm.1.ne, _, _, rfl, rfl, hm.2⟩
  finite d hd := by
    obtain ⟨m, -, rfl⟩ := List.mem_map.mp hd
    rfl

/-- What is kept of a session after pages with parts of it from its start. -/
theorem tracks_seenAfter (hq : q.IsPlain) (hall : InOrder (all.map Posted.dated)) (pages : List (List MessageRow))
    (hpages : ∀ rows ∈ pages, ∃ ms, ms <+: all ∧ env.Loads mode q ms rows) :
    ∃ ds, ds <+: all.map Posted.dated ∧ Tracks ds ((env.seenAfter mode pages q.key).getD .empty) := by
  induction pages using List.reverseRecOn with
  | nil => exact ⟨[], List.nil_prefix, .empty⟩
  | append_singleton pages rows ih =>
    obtain ⟨ds, hds, h⟩ := ih fun rows hrows => hpages rows (List.mem_append_left _ hrows)
    obtain ⟨ms, hms, hloads⟩ := hpages rows (by simp)
    rw [Reader.seenAfter, List.foldl_append, List.foldl_cons, List.foldl_nil, ← Reader.seenAfter, assessFreshness_eq,
      assessAll_seen, under_entries hq, hloads.sequence_eq]
    obtain ⟨ds', hds', -, h'⟩ := h.reads hall hds (hms.map _)
    exact ⟨ds', hds', h'⟩

/-- No row of the session is flagged for its position. -/
theorem verdict_of_loads (hq : q.IsPlain) (hall : InOrder (all.map Posted.dated)) {ds : List Dated}
    (h : Tracks ds ((seen q.key).getD .empty)) (hds : ds <+: all.map Posted.dated) (hms : ms <+: all)
    (hloads : env.Loads mode q ms rows) (hrow : row ∈ rows) (hcounted : env.sequenceOf mode row = some (q, d)) :
    (assessAll (env.entries mode rows) (fun _ => none) seen).1 row.id =
      if d.isSkewed then some .skew else none := by
  have hids : (env.entries mode rows).Pairwise fun e e' => e.2.id ≠ e'.2.id :=
    entries_pairwise (R := fun id _ id' _ => id ≠ id') (List.pairwise_map.mp hloads.ids)
  obtain ⟨pre, post, hsplit⟩ : ∃ pre post, env.entries mode rows = pre ++ (q.key, d) :: post := by
    refine List.append_of_mem (List.mem_filterMap.mpr ⟨row, hrow, ?_⟩)
    rw [hcounted, Option.map_some]
  have hprefix : under q.key pre ++ [d] <+: all.map Posted.dated := by
    have hunder : under q.key (env.entries mode rows) = under q.key pre ++ d :: under q.key post := by
      rw [hsplit]
      simp [under]
    rw [under_entries hq, hloads.sequence_eq] at hunder
    refine List.IsPrefix.trans ⟨under q.key post, ?_⟩ (hms.map Posted.dated)
    rw [hunder, List.append_assoc, List.singleton_append]
  rw [hsplit] at hids ⊢
  rw [← (sequenceOf_dated hcounted).1, assessAll_verdict hids]
  obtain ⟨ds', hds', hpre, h'⟩ := h.reads hall hds ((List.prefix_append _ _).trans hprefix)
  exact (h'.meets hall hds' hpre hprefix).1

end readers

/-- Where no send fails that has taken a position after an accepted message of its session, the accepted messages
of each session stand at consecutive positions, and a reader who loads the session from its start, however often,
is warned of no gap, no reordering and no replay. -/
theorem accepted_in_sequence (env : Sender) (stores : TrustStores) {actions : List SendAction} {s : SendPage}
    (h : Run (restrict SendPage.KeepsPosition (ofPartial (SendPage.step env))) (.start stores) actions s) (id : Text) :
    (s.sequence id).IsChain (fun m m' => m'.n.seq = m.n.seq + 1) ∧
      ∀ (reader : Reader) (mode : Kind) (q : SequenceId) (pages : List (List MessageRow)) (rows : List MessageRow),
        (∀ page ∈ rows :: pages, ∃ ms, ms <+: s.sequence id ∧ reader.Loads mode q ms page) →
          ∃ verdicts seen, reader.assessFreshness mode (rows.map (reader.prepare mode)) (fun _ => none)
              (reader.seenAfter mode pages) = (some verdicts, seen) ∧
            ∀ row ∈ rows, ∀ d, reader.sequenceOf mode row = some (q, d) →
              verdicts row.id = none ∨ verdicts row.id = some .skew := by
  have hsequenced : s.Sequenced := by
    refine h.invariant (fun s a t hs hst => ?_) (sequenced_start stores)
    exact sequenced_step hs hst.1 hst.2
  refine ⟨hsequenced.chain id, fun reader mode q pages rows hpages => ⟨_, _, assessFreshness_eq, ?_⟩⟩
  intro row hrow d hcounted
  have hq := sequenceOf_isPlain hcounted
  have hall := inOrder_sequence hsequenced id
  obtain ⟨ds, hds, htracks⟩ := tracks_seenAfter hq hall pages fun page hpage =>
    hpages page (List.mem_cons_of_mem _ hpage)
  obtain ⟨ms, hms, hloads⟩ := hpages rows List.mem_cons_self
  rw [verdict_of_loads hq hall htracks hds hms hloads hrow hcounted]
  cases d.isSkewed with
  | true => exact .inr rfl
  | false => exact .inl rfl

/-! ## A session of two messages -/

section sample

def sampleSender : Sender where
  toReader := sharedReader
  gate := ⟨lit "me", fun _ _ _ _ => true⟩
  wrapSessionKey key _ := .str key

/-- A partner whose key has an attestation. -/
def samplePartner : Contact := ⟨uniformAddress 'b', lit "kb", lit "ib", lit "at"⟩

/-- A send up to the gate, the start of a session, and a message that is sent. -/
def beginSend (now : ℕ) : List SendAction := [.submit (.partner samplePartner) (lit "km"), .gate now]

def beginSession : List SendAction := beginSend 0 ++ [.mint (lit "s") (lit "k") 0]

def finishSend (id : ℕ) : List SendAction := [.sign (lit "c") (lit "sig"), .accept id 0, .respond, .commit]

/-- A first message is refused, and two messages of a new session are accepted. -/
def twoMessages : List SendAction :=
  beginSession ++ [.sign (lit "c") (lit "sig"), .refuse] ++ beginSend 0 ++ [.mint (lit "t") (lit "k") 0] ++
    finishSend 0 ++ beginSend 1 ++ finishSend 1

def sampleSent : SendPage :=
  after (fun s a => if decide (s.KeepsPosition a) = true then s.step sampleSender a else none) twoMessages
    (.start ⟨none, none⟩)

theorem run_twoMessages : Run (restrict SendPage.KeepsPosition (ofPartial (SendPage.step sampleSender)))
    (.start ⟨none, none⟩) twoMessages sampleSent :=
  Run.restrict_after (fun _ _ => of_decide_eq_true) (by decide +kernel)

/-- The partner's page, to which the content of a message is its number among the accepted ones. -/
def partnerReader : Reader :=
  { sharedReader with
    me := uniformAddress 'b'
    parseJson := fun d => match d with
      | .notJson "0" => sampleSent.accepted[0]?.map Posted.payload
      | .notJson "1" => sampleSent.accepted[1]?.map Posted.payload
      | _ => none }

def partnerRow (id : ℕ) (content : String) : MessageRow :=
  ⟨id, uniformAddress 'a', uniformAddress 'b', .notJson content, some 0⟩

def partnerPage : List MessageRow := [partnerRow 0 "0", partnerRow 1 "1"]

def partnerSession : SequenceId := ⟨uniformAddress 'a', lit "t", uniformAddress 'a'⟩

def sampleKeyId : Text := keyIdOf (uniformAddress 'b') (lit "t")

theorem counted_partnerPage : ∀ row ∈ partnerPage,
    (partnerReader.sequenceOf .dm row).any (·.1 = partnerSession) = true := by
  refine List.forall_mem_cons.mpr ⟨?_, List.forall_mem_singleton.mpr ?_⟩ <;> decide +kernel

theorem loads_partnerPage : partnerReader.Loads .dm partnerSession (sampleSent.sequence sampleKeyId) partnerPage := by
  refine ⟨by decide, ?_⟩
  rw [List.filter_eq_self.mpr counted_partnerPage]
  exact .cons ⟨rfl, rfl, rfl⟩ (.cons ⟨rfl, rfl, rfl⟩ .nil)

/-- The partner loads the two messages twice. -/
theorem accepted_in_sequence_sample :
    (sampleSent.sequence sampleKeyId).IsChain (fun m m' => m'.n.seq = m.n.seq + 1) ∧
      ∃ verdicts seen, partnerReader.assessFreshness .dm (partnerPage.map (partnerReader.prepare .dm)) (fun _ => none)
          (partnerReader.seenAfter .dm [partnerPage]) = (some verdicts, seen) ∧
        ∀ row ∈ partnerPage, ∀ d, partnerReader.sequenceOf .dm row = some (partnerSession, d) →
          verdicts row.id = none ∨ verdicts row.id = some .skew := by
  obtain ⟨hchain, hreaders⟩ := accepted_in_sequence sampleSender ⟨none, none⟩ run_twoMessages sampleKeyId
  refine ⟨hchain, hreaders partnerReader .dm partnerSession [partnerPage] partnerPage fun page hpage => ?_⟩
  obtain rfl : page = partnerPage := by simpa using hpage
  exact ⟨_, List.prefix_rfl, loads_partnerPage⟩

/-- The second message of a session is refused, and the third is accepted. -/
def refusedSecond : List SendAction :=
  beginSession ++ finishSend 0 ++ beginSend 1 ++ [.sign (lit "c") (lit "sig"), .refuse] ++ beginSend 2 ++ finishSend 1

def afterRefusal : SendPage := after (SendPage.step sampleSender) refusedSecond (.start ⟨none, none⟩)

/-- The messages on the server stand at the positions 0 and 2. -/
theorem not_accepted_in_sequence : ¬ ∀ (env : Sender) (stores : TrustStores) (actions : List SendAction)
    (s : SendPage), Run (ofPartial (SendPage.step env)) (.start stores) actions s → ∀ id,
      (s.sequence id).IsChain (fun m m' => m'.n.seq = m.n.seq + 1) := by
  intro h
  have hchain := h sampleSender ⟨none, none⟩ refusedSecond afterRefusal (Run.ofPartial_after (by decide +kernel))
    (keyIdOf (uniformAddress 'b') (lit "s"))
  have hseqs : ((afterRefusal.sequence (keyIdOf (uniformAddress 'b') (lit "s"))).map fun m => m.n.seq).IsChain
      fun q q' => q' = q + 1 := (List.isChain_map _).mpr hchain
  exact absurd hseqs (by decide +kernel)

end sample

end Kryptolog.Client
