import Kryptolog.Server.TokenRevocation

/-! # Challenges and transfers, once

The `DELETE` that spends a row decides who goes on. What clients have seen is counted: a challenge
is spent no more often than it was issued, and the blobs of an id are delivered no more often than
they were stored. Where the row is still there, less often.
-/

namespace Kryptolog.Server
set_option autoImplicit false

open Tables ReadCommitted Runs

/-! ## Counting -/

def Seen.issues (n : Nonce) : Seen → Bool
  | .issued m => decide (m = n)
  | _ => false

def Seen.claims (n : Nonce) : Seen → Bool
  | .claimed m _ _ => decide (m = n)
  | _ => false

def Seen.stores (id : String) : Seen → Bool
  | .stored t => t.id == id
  | _ => false

def Seen.delivers (id : String) : Seen → Bool
  | .delivered t _ => t.id == id
  | _ => false

/-- How often clients have seen something. -/
def Accounts.count (c : Accounts) (p : Seen → Bool) : ℕ := c.history.countP p

structure ChallengesSpent (c : Accounts) : Prop where
  spent : ∀ n, c.count (Seen.claims n) ≤ c.count (Seen.issues n)
  outstanding : ∀ n ∈ c.nonces, c.count (Seen.claims n) < c.count (Seen.issues n)
  own : ∀ n a now, .claimed n a now ∈ c.history → n.address = a ∧ now < n.expiresAt

structure TransfersTaken (c : Accounts) : Prop where
  taken : ∀ id, c.count (Seen.delivers id) ≤ c.count (Seen.stores id)
  waiting : ∀ t ∈ c.transfers, c.count (Seen.delivers t.id) < c.count (Seen.stores t.id)
  stored : ∀ t ∈ c.transfers, .stored t ∈ c.history
  live : ∀ t now, .delivered t now ∈ c.history → .stored t ∈ c.history ∧
    ∃ r, .stored r ∈ c.history ∧ r.id = t.id ∧ now < r.expiresAt

section changes

variable {c d : Accounts} {e : AccountChange}

theorem count_apply (p : Seen → Bool) : (e.apply c).count p = c.count p + e.seen.countP p := by
  rw [Accounts.count, history_apply, List.countP_append]
  rfl

theorem mem_history_apply {x : Seen} (h : x ∈ c.history) : x ∈ (e.apply c).history := by
  rw [history_apply]
  exact List.mem_append_left _ h

/-- What a statement that spends a row has found. -/
def AccountChange.Found (c : Accounts) : AccountChange → Prop
  | .claimNonce n a now => n ∈ c.nonces ∧ n.address = a ∧ now < n.expiresAt
  | .claimTransfer t now =>
    .stored t ∈ c.history ∧ ∃ r ∈ c.transfers, r.id = t.id ∧ now < r.expiresAt
  | _ => True

/-- A change that leaves the challenges that were issued and spent. -/
theorem ChallengesSpent.of_quiet (h : ChallengesSpent c)
    (hclaims : ∀ n, e.seen.countP (Seen.claims n) = 0)
    (hnonces : ∀ n ∈ (e.apply c).nonces, n ∈ c.nonces)
    (hseen : ∀ n a now, .claimed n a now ∉ e.seen) : ChallengesSpent (e.apply c) where
  spent n := by
    rw [count_apply, count_apply, hclaims n]
    have hspent := h.spent n
    omega
  outstanding n hn := by
    rw [count_apply, count_apply, hclaims n]
    have hless := h.outstanding n (hnonces n hn)
    omega
  own n a now hclaimed := by
    rw [history_apply, List.mem_append] at hclaimed
    rcases hclaimed with hold | hnew
    · exact h.own n a now hold
    · exact absurd hnew (hseen n a now)

theorem ChallengesSpent.apply (h : ChallengesSpent c) (hfound : e.Found c) :
    ChallengesSpent (e.apply c) := by
  cases e with
  | insertNonce m =>
    have hissues : (AccountChange.insertNonce m).seen.countP (Seen.issues m) = 1 := by
      simp [AccountChange.seen, Seen.issues]
    have hclaims : ∀ n, (AccountChange.insertNonce m).seen.countP (Seen.claims n) = 0 := by
      intro n
      simp [AccountChange.seen, Seen.claims]
    refine ⟨fun n => ?_, fun n hn => ?_, fun n a now hclaimed => ?_⟩
    · rw [count_apply, count_apply, hclaims n]
      have hspent := h.spent n
      omega
    · rw [count_apply, count_apply, hclaims n]
      rcases Table.mem_insert hn with hold | rfl
      · have hless := h.outstanding n hold
        omega
      · rw [hissues]
        have hspent := h.spent n
        omega
    · rw [history_apply, List.mem_append] at hclaimed
      rcases hclaimed with hold | hnew
      · exact h.own n a now hold
      · simp [AccountChange.seen] at hnew
  | claimNonce m a now =>
    obtain ⟨hm, ha, hlive⟩ := hfound
    have hissues : ∀ n, (AccountChange.claimNonce m a now).seen.countP (Seen.issues n) = 0 := by
      intro n
      simp [AccountChange.seen, Seen.issues]
    have hclaims : ∀ n, n ≠ m →
        (AccountChange.claimNonce m a now).seen.countP (Seen.claims n) = 0 := by
      intro n hne
      simp [AccountChange.seen, Seen.claims, Ne.symm hne]
    have hclaim : (AccountChange.claimNonce m a now).seen.countP (Seen.claims m) = 1 := by
      simp [AccountChange.seen, Seen.claims]
    refine ⟨fun n => ?_, fun n hn => ?_, fun n b now' hclaimed => ?_⟩
    · rw [count_apply, count_apply, hissues n]
      by_cases hnm : n = m
      · have hless := h.outstanding m hm
        rw [hnm, hclaim]
        omega
      · rw [hclaims n hnm]
        have hspent := h.spent n
        omega
    · obtain ⟨hold, hother⟩ := Table.mem_delete.mp hn
      have hnm : n ≠ m := by
        rintro rfl
        simp at hother
      rw [count_apply, count_apply, hissues n, hclaims n hnm]
      have hless := h.outstanding n hold
      omega
    · rw [history_apply, List.mem_append] at hclaimed
      rcases hclaimed with hold | hnew
      · exact h.own n b now' hold
      · cases List.mem_singleton.mp hnew
        exact ⟨ha, hlive⟩
  | deleteNonces values =>
    exact h.of_quiet (fun n => rfl) (fun n hn => (Table.mem_delete.mp hn).1) (by simp [AccountChange.seen])
  | insertUser | updateUser | logOut | deleteTransfers | insertTransfer | claimTransfer | mint =>
    exact h.of_quiet (fun n => rfl) (fun n hn => hn) (by simp [AccountChange.seen])

/-- A change that leaves the transfers that were stored and delivered. -/
theorem TransfersTaken.of_quiet (h : TransfersTaken c)
    (hdelivers : ∀ id, e.seen.countP (Seen.delivers id) = 0)
    (htransfers : ∀ t ∈ (e.apply c).transfers, t ∈ c.transfers)
    (hseen : ∀ t now, .delivered t now ∉ e.seen) : TransfersTaken (e.apply c) where
  taken id := by
    rw [count_apply, count_apply, hdelivers id]
    have htaken := h.taken id
    omega
  waiting t ht := by
    rw [count_apply, count_apply, hdelivers t.id]
    have hless := h.waiting t (htransfers t ht)
    omega
  stored t ht := mem_history_apply (h.stored t (htransfers t ht))
  live t now hdelivered := by
    rw [history_apply, List.mem_append] at hdelivered
    rcases hdelivered with hold | hnew
    · obtain ⟨ht, r, hr, hid, hlive⟩ := h.live t now hold
      exact ⟨mem_history_apply ht, r, mem_history_apply hr, hid, hlive⟩
    · exact absurd hnew (hseen t now)

theorem TransfersTaken.apply (h : TransfersTaken c) (hfound : e.Found c) :
    TransfersTaken (e.apply c) := by
  cases e with
  | insertTransfer u =>
    have hstores : (AccountChange.insertTransfer u).seen.countP (Seen.stores u.id) = 1 := by
      simp [AccountChange.seen, Seen.stores]
    have hdelivers : ∀ id, (AccountChange.insertTransfer u).seen.countP (Seen.delivers id) = 0 := by
      intro id
      simp [AccountChange.seen, Seen.delivers]
    refine ⟨fun id => ?_, fun t ht => ?_, fun t ht => ?_, fun t now hdelivered => ?_⟩
    · rw [count_apply, count_apply, hdelivers id]
      have htaken := h.taken id
      omega
    · rw [count_apply, count_apply, hdelivers t.id]
      rcases Table.mem_insert ht with hold | rfl
      · have hless := h.waiting t hold
        omega
      · rw [hstores]
        have htaken := h.taken t.id
        omega
    · rcases Table.mem_insert ht with hold | rfl
      · exact mem_history_apply (h.stored t hold)
      · rw [history_apply]
        exact List.mem_append_right _ List.mem_cons_self
    · rw [history_apply, List.mem_append] at hdelivered
      rcases hdelivered with hold | hnew
      · obtain ⟨ht, r, hr, hid, hlive⟩ := h.live t now hold
        exact ⟨mem_history_apply ht, r, mem_history_apply hr, hid, hlive⟩
      · simp [AccountChange.seen] at hnew
  | claimTransfer u now =>
    obtain ⟨hu, r, hr, hid, hlive⟩ := hfound
    have hstores : ∀ id, (AccountChange.claimTransfer u now).seen.countP (Seen.stores id) = 0 := by
      intro id
      simp [AccountChange.seen, Seen.stores]
    have hdelivers : ∀ id, u.id ≠ id →
        (AccountChange.claimTransfer u now).seen.countP (Seen.delivers id) = 0 := by
      intro id hne
      simp [AccountChange.seen, Seen.delivers, hne]
    have hdeliver : (AccountChange.claimTransfer u now).seen.countP (Seen.delivers u.id) = 1 := by
      simp [AccountChange.seen, Seen.delivers]
    refine ⟨fun id => ?_, fun t ht => ?_, fun t ht => ?_, fun t now' hdelivered => ?_⟩
    · rw [count_apply, count_apply, hstores id]
      by_cases hui : u.id = id
      · have hless := h.waiting r hr
        rw [← hui, hdeliver]
        rw [hid] at hless
        omega
      · rw [hdelivers id hui]
        have htaken := h.taken id
        omega
    · obtain ⟨hold, hother⟩ := Table.mem_delete.mp ht
      have hne : u.id ≠ t.id := fun heq => by simp [heq] at hother
      rw [count_apply, count_apply, hstores t.id, hdelivers t.id hne]
      have hless := h.waiting t hold
      omega
    · exact mem_history_apply (h.stored t (Table.mem_delete.mp ht).1)
    · rw [history_apply, List.mem_append] at hdelivered
      rcases hdelivered with hold | hnew
      · obtain ⟨ht, r', hr', hid', hlive'⟩ := h.live t now' hold
        exact ⟨mem_history_apply ht, r', mem_history_apply hr', hid', hlive'⟩
      · cases List.mem_singleton.mp hnew
        exact ⟨mem_history_apply hu, r, mem_history_apply (h.stored r hr), hid, hlive⟩
  | deleteTransfers ids =>
    exact h.of_quiet (fun id => rfl) (fun t ht => (Table.mem_delete.mp ht).1)
      (by simp [AccountChange.seen])
  | insertUser | updateUser | logOut | deleteNonces | insertNonce | claimNonce | mint =>
    exact h.of_quiet (fun id => rfl) (fun t ht => ht) (by simp [AccountChange.seen])

/-- Challenges and transfers are each spent once. -/
def SpentOnce (c : Accounts) : Prop := ChallengesSpent c ∧ TransfersTaken c

theorem SpentOnce.apply (h : SpentOnce c) (hfound : e.Found c) : SpentOnce (e.apply c) :=
  ⟨h.1.apply hfound, h.2.apply hfound⟩

/-- A change leaves the rows that it does not take. -/
theorem mem_nonces_apply {n : Nonce} (hn : n ∈ c.nonces) (h : AccountRow.nonce n.nonce ∉ e.rows) :
    n ∈ (e.apply c).nonces := by
  cases e with
  | deleteNonces values =>
    refine Table.mem_delete.mpr ⟨hn, ?_⟩
    simpa [AccountChange.rows] using h
  | insertNonce m => exact Table.mem_insert_of_mem hn
  | claimNonce m a now =>
    refine Table.mem_delete.mpr ⟨hn, ?_⟩
    simpa [AccountChange.rows] using h
  | _ => exact hn

theorem mem_transfers_apply {t : KeyTransfer} (ht : t ∈ c.transfers)
    (h : AccountRow.transfer t.id ∉ e.rows) : t ∈ (e.apply c).transfers := by
  cases e with
  | deleteTransfers ids =>
    refine Table.mem_delete.mpr ⟨ht, ?_⟩
    simpa [AccountChange.rows] using h
  | insertTransfer u => exact Table.mem_insert_of_mem ht
  | claimTransfer u now =>
    refine Table.mem_delete.mpr ⟨ht, ?_⟩
    simpa [AccountChange.rows] using h
  | _ => exact ht

/-- What a statement has found, the changes of other rows leave. -/
theorem found_apply {e' : AccountChange} (h : e.Found c) (hrows : e'.rows.Disjoint e.rows) :
    e.Found (e'.apply c) := by
  cases e with
  | claimNonce n a now =>
    obtain ⟨hn, hown⟩ := h
    exact ⟨mem_nonces_apply hn fun hk => hrows hk List.mem_cons_self, hown⟩
  | claimTransfer t now =>
    obtain ⟨ht, r, hr, hid, hlive⟩ := h
    refine ⟨mem_history_apply ht, r, mem_transfers_apply hr fun hk => hrows hk ?_, hid, hlive⟩
    rw [hid]
    exact List.mem_cons_self
  | _ => trivial

theorem found_applyAll {es : List AccountChange} (h : e.Found c)
    (hrows : ∀ e' ∈ es, e'.rows.Disjoint e.rows) : e.Found (AccountChange.applyAll c es) := by
  induction es generalizing c with
  | nil => exact h
  | cons e' es ih =>
    exact ih (found_apply h (hrows e' List.mem_cons_self))
      fun e'' he'' => hrows e'' (List.mem_cons_of_mem _ he'')

theorem mem_history_applyAll {x : Seen} {es : List AccountChange} (h : x ∈ c.history) :
    x ∈ (AccountChange.applyAll c es).history := by
  rw [history_applyAll]
  exact List.mem_append_left _ h

end changes

/-! ## The points -/

section points

variable {prim : KeyPrimitives} {cfg : Config} {c : Accounts} {p q next : AccountPoint}

/-- What a point has found: the row that it spends, and the blob that it would deliver. -/
def Finds (c : Accounts) : AccountPoint → Prop
  | .claimed now by' (some n) => (AccountChange.claimNonce n by'.address now).Found c
  | .takeTransfer _ t => .stored t ∈ c.history
  | .transferTaken now t true => (AccountChange.claimTransfer t now).Found c
  | _ => True

theorem finds_entry (call : AccountCall) : Finds c call.entry := by
  obtain ⟨now, token, request⟩ := call
  cases request with
  | getNonce address value =>
    simp only [AccountCall.entry]
    split
    · trivial
    · trivial
  | login | logout | deleteAccount | eraseConversation | createTransfer | claimTransfer => trivial

theorem finds_afterIdentity {now : Time} {admitted : Bool} {req : LoginRequest} (u : Option User) :
    Finds c (afterIdentity prim now admitted req u) := by
  cases u with
  | none => trivial
  | some u =>
    simp only [afterIdentity]
    split
    · split
      · trivial
      · trivial
    · split
      · trivial
      · split
        · trivial
        · trivial

theorem finds_afterName {now : Time} {admitted : Bool} {req : LoginRequest} (loaded : Option User)
    (name : Except Fault String) : Finds c (afterName prim now admitted req loaded name) := by
  cases name with
  | error fault => trivial
  | ok username =>
    cases loaded with
    | none =>
      simp only [afterName]
      split
      · trivial
      · trivial
    | some u =>
      simp only [afterName]
      split
      · trivial
      · trivial

theorem finds_select (hbase : SpentOnce c) {select : Accounts → AccountPoint}
    (h : (accounts prim cfg).op p = .select select) : Finds c (select c) := by
  cases p with
  | authenticate now token request =>
    cases h
    dsimp only
    split
    · trivial
    · cases request with
      | getNonce | login | logout | deleteAccount | eraseConversation | createTransfer
      | claimTransfer => trivial
  | verifyLogin now admitted req =>
    cases h
    dsimp only
    split
    · trivial
    · trivial
  | readIdentity now admitted req =>
    cases h
    exact finds_afterIdentity _
  | nameIdentity now admitted req loaded =>
    cases h
    exact finds_afterName _ _
  | refreshIdentity a =>
    cases h
    dsimp only
    split
    · trivial
    · trivial
  | readTransfer now id =>
    cases h
    dsimp only
    split
    · trivial
    · next t ht => exact hbase.2.stored t (Table.find?_mem ht).1
  | _ => cases h

theorem finds_write {exec : Accounts → Accounts → Outcome AccountRow AccountChange AccountPoint}
    (hfinds : Finds c p) (h : (accounts prim cfg).op p = .write exec) (snap : Accounts) :
    Finds c (exec snap (AccountChange.applyAll c p.log)).next := by
  have hgoes := goes_of_write h snap (AccountChange.applyAll c p.log)
  revert hgoes
  generalize (exec snap (AccountChange.applyAll c p.log)).next = q
  intro hgoes
  cases hgoes with
  | claimed now by' n hn haddress hlive => exact ⟨hn, haddress, hlive⟩
  | transferTaken now t r hr hid hlive => exact ⟨hfinds, r, hr, hid, hlive⟩
  | _ => trivial

theorem finds_commit {d : Accounts} (h : (accounts prim cfg).op p = .commit next) :
    Finds d next := by
  cases p with
  | claimed now by' won =>
    cases h
    split
    · cases by' with
      | login | deletion | erase => trivial
    · trivial
  | transferTaken now t won =>
    cases h
    split
    · trivial
    · trivial
  | nonceInserted | identityInserted | identityUpdated | minted | loggedOut | roundDone
  | accountStripped | transferInserted | transferDropped => cases h; trivial
  | _ => cases h

theorem finds_stable (hq : Finds c q) (hlocks : p.locks.Disjoint q.locks) :
    Finds (AccountChange.applyAll c p.log) q := by
  have hrows : ∀ e ∈ q.log, ∀ e' ∈ p.log, e'.rows.Disjoint e.rows := fun e he e' he' k hk hk' =>
    hlocks (rows_subset_locks he' hk) (rows_subset_locks he hk')
  cases q with
  | claimed now by' won =>
    cases won with
    | none => trivial
    | some n =>
      have hfound : (AccountChange.claimNonce n by'.address now).Found c := hq
      exact found_applyAll hfound (hrows _ (List.mem_singleton_self _))
  | takeTransfer now t => exact mem_history_applyAll hq
  | transferTaken now t won =>
    cases won with
    | false => trivial
    | true =>
      have hfound : (AccountChange.claimTransfer t now).Found c := hq
      exact found_applyAll hfound (hrows _ (List.mem_singleton_self _))
  | _ => trivial

theorem spentOnce_commit (hbase : SpentOnce c) (hfinds : Finds c p)
    (h : (accounts prim cfg).op p = .commit next) : SpentOnce (AccountChange.applyAll c p.log) := by
  have hquiet : ∀ {d : Accounts} {e : AccountChange}, SpentOnce d → (∀ c, e.Found c) →
      SpentOnce (e.apply d) := fun hd he => hd.apply (he _)
  cases p with
  | claimed now by' won =>
    cases won with
    | none => exact hbase
    | some n =>
      have hfound : (AccountChange.claimNonce n by'.address now).Found c := hfinds
      exact hbase.apply hfound
  | transferTaken now t won =>
    cases won with
    | false => exact hbase
    | true =>
      have hfound : (AccountChange.claimTransfer t now).Found c := hfinds
      exact hbase.apply hfound
  | nonceInserted swept n =>
    have hswept := hquiet (e := .deleteNonces swept) hbase fun _ => trivial
    exact hquiet (e := .insertNonce n) hswept fun _ => trivial
  | accountStripped now u mode swept =>
    have hswept := hquiet (e := .deleteNonces swept) hbase fun _ => trivial
    exact hquiet (e := .updateUser u.address (.between u (stripIdentity mode now u))) hswept
      fun _ => trivial
  | transferInserted swept t =>
    have hswept := hquiet (e := .deleteTransfers swept) hbase fun _ => trivial
    exact hquiet (e := .insertTransfer t) hswept fun _ => trivial
  | identityInserted row => exact hquiet (e := .insertUser row) hbase fun _ => trivial
  | identityUpdated a upd => exact hquiet (e := .updateUser a upd) hbase fun _ => trivial
  | loggedOut a version => exact hquiet (e := .logOut a version) hbase fun _ => trivial
  | minted token => exact hquiet (e := .mint token) hbase fun _ => trivial
  | transferDropped ids => exact hquiet (e := .deleteTransfers ids) hbase fun _ => trivial
  | roundDone => exact hbase
  | _ => cases h

theorem spendingRule : PointRule (accounts prim cfg) AccountPoint.log AccountPoint.locks SpentOnce
    Finds (fun _ _ => True) where
  entry _ call _ := finds_entry call
  select c p select hbase _ h := by
    have hidle := (idle_of_select h).1
    rw [hidle]
    exact finds_select hbase h
  write c p exec snap _ hfinds h := finds_write hfinds h snap
  commit c p next hbase hfinds h _ := ⟨spentOnce_commit hbase hfinds h, finds_commit h⟩
  stable c p next q _ _ _ _ hq hlocks := finds_stable hq hlocks

end points

/-! ## Runs -/

/-- The run starts with challenges and transfers that clients have been given, and nothing spent. -/
structure Unspent (c : Accounts) : Prop where
  issued : ∀ n ∈ c.nonces, .issued n ∈ c.history
  stored : ∀ t ∈ c.transfers, .stored t ∈ c.history
  unclaimed : ∀ n a now, .claimed n a now ∉ c.history
  undelivered : ∀ t now, .delivered t now ∉ c.history

theorem count_eq_zero {c : Accounts} {p : Seen → Bool} (h : ∀ x ∈ c.history, p x = false) :
    c.count p = 0 := List.countP_eq_zero.mpr fun x hx => by simp [h x hx]

theorem count_pos {c : Accounts} {p : Seen → Bool} {x : Seen} (hx : x ∈ c.history) (hp : p x = true) :
    0 < c.count p := List.countP_pos_iff.mpr ⟨x, hx, hp⟩

theorem Unspent.spentOnce {c : Accounts} (h : Unspent c) : SpentOnce c := by
  have hclaims : ∀ n, c.count (Seen.claims n) = 0 := by
    intro n
    refine count_eq_zero fun x hx => ?_
    cases x with
    | claimed m a now => exact absurd hx (h.unclaimed m a now)
    | _ => rfl
  have hdelivers : ∀ id, c.count (Seen.delivers id) = 0 := by
    intro id
    refine count_eq_zero fun x hx => ?_
    cases x with
    | delivered t now => exact absurd hx (h.undelivered t now)
    | _ => rfl
  constructor
  · refine ⟨fun n => ?_, fun n hn => ?_, fun n a now hn => absurd hn (h.unclaimed n a now)⟩
    · rw [hclaims n]
      exact Nat.zero_le _
    · rw [hclaims n]
      exact count_pos (h.issued n hn) (decide_eq_true rfl)
  · refine ⟨fun id => ?_, fun t ht => ?_, h.stored, fun t now ht => absurd ht (h.undelivered t now)⟩
    · rw [hdelivers id]
      exact Nat.zero_le _
    · rw [hdelivers t.id]
      exact count_pos (h.stored t ht) (beq_self_eq_true _)

def Seen.storedId : Seen → Option String
  | .stored t => some t.id
  | _ => none

/-- The ids that were drawn for transfers. -/
def Accounts.storedIds (c : Accounts) : List String := c.history.filterMap Seen.storedId

theorem count_stores {c : Accounts} {id : String} :
    c.count (Seen.stores id) = c.storedIds.count id := by
  rw [Accounts.storedIds, List.count_filterMap]
  refine List.countP_congr fun x _ => ?_
  cases x with
  | stored t => simp [Seen.stores, Seen.storedId]
  | _ => simp [Seen.stores, Seen.storedId]

/-- What is seen once at most is one. -/
theorem eq_of_count_le_one {c : Accounts} {p : Seen → Bool} {x y : Seen} (h : c.count p ≤ 1)
    (hx : x ∈ c.history) (hpx : p x = true) (hy : y ∈ c.history) (hpy : p y = true) : x = y := by
  rw [Accounts.count, List.countP_eq_length_filter] at h
  have hx' := List.mem_filter.mpr ⟨hx, hpx⟩
  have hy' := List.mem_filter.mpr ⟨hy, hpy⟩
  generalize c.history.filter p = seen at h hx' hy'
  match seen, h with
  | [], _ => cases hx'
  | [z], _ => rw [List.mem_singleton.mp hx', List.mem_singleton.mp hy']

/-- Two transfers of one id are one, where no id was drawn twice. -/
theorem stored_unique {c : Accounts} {t r : KeyTransfer} (hids : c.storedIds.Nodup)
    (ht : .stored t ∈ c.history) (hr : .stored r ∈ c.history) (hid : r.id = t.id) : r = t := by
  have hone : c.count (Seen.stores t.id) ≤ 1 := by
    rw [count_stores]
    exact List.nodup_iff_count_le_one.mp hids t.id
  have heq := eq_of_count_le_one hone hr (beq_iff_eq.mpr hid) ht (beq_self_eq_true t.id)
  exact Seen.stored.inj heq

/-- A challenge is spent no more often than it was issued, and less often where it can still be
spent; only for its address and before it expires. A transfer is delivered no more often than its
id was stored: where `token_urlsafe` draws no id twice, once at most, and before it expires. -/
theorem spent_once {prim : KeyPrimitives} {cfg : Config} {c₀ : Accounts}
    {as : List (Action AccountCall)} {s : State Accounts AccountRow AccountChange AccountPoint}
    (hstart : Unspent c₀) (hrun : Run (ofPartial (accounts prim cfg).step) (.start c₀) as s) :
    (∀ n, s.committed.count (Seen.claims n) ≤ s.committed.count (Seen.issues n) ∧
      (n ∈ s.committed.nonces →
        s.committed.count (Seen.claims n) < s.committed.count (Seen.issues n))) ∧
    (∀ n a now, .claimed n a now ∈ s.committed.history → n.address = a ∧ now < n.expiresAt) ∧
    (∀ id, s.committed.count (Seen.delivers id) ≤ s.committed.count (Seen.stores id)) ∧
    (s.committed.storedIds.Nodup → (∀ id, s.committed.count (Seen.delivers id) ≤ 1) ∧
      ∀ t now, .delivered t now ∈ s.committed.history → now < t.expiresAt) := by
  have hprepared : Run (restrict (Prepared fun _ _ => True) (ofPartial (accounts prim cfg).step))
    (.start c₀) as s := prepared_of_ready (fun _ _ => trivial) hrun
  have hgood := spendingRule.run_holds tracking_accounts hprepared (.start hstart.spentOnce)
  obtain ⟨hchallenges, htransfers⟩ := hgood.base
  refine ⟨fun n => ⟨hchallenges.spent n, hchallenges.outstanding n⟩, hchallenges.own,
    htransfers.taken, fun hids => ⟨fun id => ?_, fun t now hdelivered => ?_⟩⟩
  · have htaken := htransfers.taken id
    rw [count_stores] at htaken
    exact htaken.trans (List.nodup_iff_count_le_one.mp hids id)
  · obtain ⟨ht, r, hr, hid, hlive⟩ := htransfers.live t now hdelivered
    rw [stored_unique hids ht hr hid] at hlive
    exact hlive

/-- A device uploads a transfer, another claims it, and the account logs in. -/
theorem spent_once_sample : ∃ as s,
    Run (ofPartial sampleMachine.step)
        (.start (sampleAccounts 0 sampleNonces [.issued sampleNonce])) as s ∧
      s.committed.history = [.issued sampleNonce, .stored ⟨"1a", "blob", 600000⟩,
        .delivered ⟨"1a", "blob", 600000⟩ 1, .claimed sampleNonce (sampleVersion 0).address 2] ∧
      s.committed.count (Seen.claims sampleNonce) ≤ s.committed.count (Seen.issues sampleNonce) ∧
      s.committed.count (Seen.delivers "1a") ≤ 1 := by
  have hstart : Unspent (sampleAccounts 0 sampleNonces [.issued sampleNonce]) := by
    refine ⟨fun n hn => ?_, fun t ht => (List.not_mem_nil ht).elim, fun n a now h => ?_,
      fun t now h => ?_⟩
    · obtain rfl : n = sampleNonce := List.mem_singleton.mp hn
      exact List.mem_singleton_self _
    · cases List.mem_singleton.mp h
    · cases List.mem_singleton.mp h
  have htransfer : Run (ofPartial sampleMachine.step)
      (.start (sampleAccounts 0 sampleNonces [.issued sampleNonce]))
      [.arrive ⟨0, sampleToken 0, .createTransfer "1a" "blob" 600000⟩, .select 0, .start 0,
        .finish 0, .start 0, .finish 0, .commit 0, .arrive ⟨1, sampleToken 0, .claimTransfer "1a"⟩,
        .select 1, .start 1, .finish 1, .commit 1]
      ⟨sampleAccounts 0 sampleNonces [.issued sampleNonce, .stored ⟨"1a", "blob", 600000⟩,
          .delivered ⟨"1a", "blob", 600000⟩ 1],
        [some (.fresh .ended), some (.fresh .ended)]⟩ := Run.ofPartial_foldlM _ _ _ _ rfl
  have hlogin : Run (ofPartial sampleMachine.step)
      ⟨sampleAccounts 0 sampleNonces [.issued sampleNonce, .stored ⟨"1a", "blob", 600000⟩,
          .delivered ⟨"1a", "blob", 600000⟩ 1], [some (.fresh .ended), some (.fresh .ended)]⟩
      [.arrive ⟨2, sampleToken 0, .login true (sampleLogin none)⟩, .start 2, .finish 2, .commit 2]
      ⟨sampleAccounts 0 .empty [.issued sampleNonce, .stored ⟨"1a", "blob", 600000⟩,
          .delivered ⟨"1a", "blob", 600000⟩ 1, .claimed sampleNonce (sampleVersion 0).address 2],
        [some (.fresh .ended), some (.fresh .ended),
          some (.fresh (.verifyLogin 2 true (sampleLogin none)))]⟩ := Run.ofPartial_foldlM _ _ _ _ rfl
  have hrun := htransfer.append hlogin
  obtain ⟨hchallenges, -, -, htransfers⟩ := spent_once hstart hrun
  exact ⟨_, _, hrun, rfl, (hchallenges sampleNonce).1,
    (htransfers (List.nodup_singleton "1a")).1 "1a"⟩

end Kryptolog.Server
