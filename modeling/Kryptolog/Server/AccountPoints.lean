import Kryptolog.Server.Accounts
import Kryptolog.Server.Moves

/-! # What the points of account requests say

Every point says which changes its transaction has made and which rows it holds
(`tracking_accounts`). The points of a login and of a deletion also know something of the row
that they write (`Knows`): a login sets neither its version nor its block, and a deletion holds
the row that it read.
-/

namespace Kryptolog.Server
set_option autoImplicit false

open Tables Fallible ReadCommitted

/-! ## What the points say -/

section tracking

variable {prim : KeyPrimitives} {cfg : Config} {now : Time} {admitted : Bool} {req : LoginRequest}

/-- Nothing is changed or held. -/
def AccountPoint.Idle (p : AccountPoint) : Prop := p.log = [] ∧ p.locks = []

theorem idle_ended : AccountPoint.ended.Idle := ⟨rfl, rfl⟩

theorem idle_afterClaim (by' : Claimant) : (afterClaim now by').Idle := by
  cases by' with
  | login | deletion | erase => exact ⟨rfl, rfl⟩

theorem idle_afterAuthentication (caller : User) (request : AccountRequest) :
    (afterAuthentication now caller request).Idle := by
  cases request with
  | getNonce | login | logout | deleteAccount | eraseConversation | createTransfer
  | claimTransfer => exact ⟨rfl, rfl⟩

theorem idle_afterIdentity (u : Option User) :
    (afterIdentity prim now admitted req u).Idle := by
  cases u with
  | none => exact ⟨rfl, rfl⟩
  | some u =>
    simp only [afterIdentity]
    split
    · split
      · exact ⟨rfl, rfl⟩
      · exact idle_ended
    · split
      · exact idle_ended
      · split
        · exact ⟨rfl, rfl⟩
        · exact ⟨rfl, rfl⟩

theorem idle_afterName (loaded : Option User) (name : Except Fault String) :
    (afterName prim now admitted req loaded name).Idle := by
  cases name with
  | error fault => exact idle_ended
  | ok username =>
    cases loaded with
    | none =>
      simp only [afterName]
      split
      · exact idle_ended
      · exact ⟨rfl, rfl⟩
    | some u =>
      simp only [afterName]
      split
      · exact idle_ended
      · exact ⟨rfl, rfl⟩

theorem idle_entry (call : AccountCall) : call.entry.Idle := by
  obtain ⟨now, token, request⟩ := call
  cases request with
  | getNonce address value =>
    simp only [AccountCall.entry]
    split
    · exact ⟨rfl, rfl⟩
    · exact idle_ended
  | login | logout | deleteAccount | eraseConversation | createTransfer | claimTransfer =>
    exact ⟨rfl, rfl⟩

/-- What follows the lock of an account holds its row and has changed nothing. -/
theorem afterLock_cases {mode : Mode} {req : EraseRequest} {outcome : RoundOutcome}
    {locked : User} (P : AccountPoint → Prop) (hended : P .ended) (hround : P (.roundDone locked))
    (hdelete : P (.deleteNonces now locked mode)) :
    P (afterLock prim cfg now mode req outcome locked) := by
  unfold afterLock
  split
  · exact hended
  · split
    · split
      · exact hdelete
      · exact hended
    · exact hended
    · exact hround
    · exact hdelete

/-- The points from which a statement only reads have changed nothing. -/
theorem idle_of_select {p : AccountPoint} {next : Accounts → AccountPoint}
    (h : (accounts prim cfg).op p = .select next) : p.Idle := by
  cases p <;> first | exact ⟨rfl, rfl⟩ | cases h

theorem idle_select {p : AccountPoint} {next : Accounts → AccountPoint}
    (h : (accounts prim cfg).op p = .select next) (c : Accounts) : (next c).Idle := by
  cases p with
  | authenticate now token request =>
    cases h
    dsimp only
    split
    · exact idle_ended
    · exact idle_afterAuthentication _ _
  | verifyLogin now admitted req =>
    cases h
    dsimp only
    split
    · exact idle_ended
    · exact ⟨rfl, rfl⟩
  | readIdentity now admitted req =>
    cases h
    exact idle_afterIdentity _
  | nameIdentity now admitted req loaded =>
    cases h
    exact idle_afterName _ _
  | refreshIdentity a =>
    cases h
    dsimp only
    split
    · exact idle_ended
    · exact ⟨rfl, rfl⟩
  | readTransfer now id =>
    cases h
    dsimp only
    split
    · exact idle_ended
    · exact ⟨rfl, rfl⟩
  | _ => cases h

/-- Where a statement that writes may leave its transaction, with what it found. -/
inductive Goes (cur : Accounts) : AccountPoint → AccountPoint → Prop
  | ended (p : AccountPoint) : Goes cur p .ended
  | insertNonce (now : Time) (n : Nonce) (swept : List String) :
      Goes cur (.sweepNonces now n) (.insertNonce swept n)
  | nonceInserted (swept : List String) (n : Nonce) :
      Goes cur (.insertNonce swept n) (.nonceInserted swept n)
  | claimed (now : Time) (by' : Claimant) (n : Nonce) (hn : n ∈ cur.nonces)
      (haddress : n.address = by'.address) (hlive : now < n.expiresAt) :
      Goes cur (.claim now by') (.claimed now by' (some n))
  | lost (now : Time) (by' : Claimant) : Goes cur (.claim now by') (.claimed now by' none)
  | identityInserted (row : User) : Goes cur (.insertIdentity true row) (.identityInserted row)
  | identityUpdated (a : Address) (upd : UserUpdate) :
      Goes cur (.updateIdentity true a upd) (.identityUpdated a upd)
  | minted (token : Token) : Goes cur (.mint token) (.minted token)
  | loggedOut (loaded : User) :
      Goes cur (.logOut loaded) (.loggedOut loaded.address (loaded.tokenVersion + 1))
  | roundDone (now : Time) (caller : User) (mode : Mode) (req : EraseRequest)
      (outcome : RoundOutcome) (locked : User)
      (hlocked : findUser cur.toDatabase caller.address = some locked) :
      Goes cur (.lockAccount now caller mode req outcome) (.roundDone locked)
  | deleteNonces (now : Time) (caller : User) (mode : Mode) (req : EraseRequest)
      (outcome : RoundOutcome) (locked : User)
      (hlocked : findUser cur.toDatabase caller.address = some locked)
      (hactive : locked.active = true) :
      Goes cur (.lockAccount now caller mode req outcome) (.deleteNonces now locked mode)
  | stripAccount (now : Time) (locked : User) (mode : Mode) (swept : List String) :
      Goes cur (.deleteNonces now locked mode) (.stripAccount now locked mode swept)
  | accountStripped (now : Time) (locked : User) (mode : Mode) (swept : List String) :
      Goes cur (.stripAccount now locked mode swept) (.accountStripped now locked mode swept)
  | insertTransfer (now : Time) (t : KeyTransfer) (swept : List String) :
      Goes cur (.sweepTransfers now t) (.insertTransfer swept t)
  | transferInserted (swept : List String) (t : KeyTransfer) :
      Goes cur (.insertTransfer swept t) (.transferInserted swept t)
  | transferTaken (now : Time) (t r : KeyTransfer) (hr : r ∈ cur.transfers) (hid : r.id = t.id)
      (hlive : now < r.expiresAt) : Goes cur (.takeTransfer now t) (.transferTaken now t true)
  | transferLost (now : Time) (t : KeyTransfer) :
      Goes cur (.takeTransfer now t) (.transferTaken now t false)
  | transferDropped (id : String) (ids : List String) :
      Goes cur (.dropTransfer id) (.transferDropped ids)

theorem mem_selected {ρ κ : Type} [Keyed ρ κ] [DecidableEq κ] {snap cur : Table ρ} {p : ρ → Bool}
    {r : ρ} (h : r ∈ selected snap cur p) : r ∈ cur ∧ p r = true :=
  Table.mem_where'.mp (List.mem_of_mem_filter h)

theorem active_of_authorizeDeletion {locked : User} {mode : Mode} {req : EraseRequest} {v : Unit}
    (h : authorizeDeletion prim.toPrimitives cfg locked mode req = .ok v) :
    locked.active = true := by
  simp only [authorizeDeletion, bind_eq_ok, refuseIf_eq_ok] at h
  obtain ⟨-, -, -, hactive, -⟩ := h
  simpa using hactive

theorem goes_afterLock {cur : Accounts} {caller locked : User} {mode : Mode} {req : EraseRequest}
    {outcome : RoundOutcome} (hlocked : findUser cur.toDatabase caller.address = some locked) :
    Goes cur (.lockAccount now caller mode req outcome)
      (afterLock prim cfg now mode req outcome locked) := by
  unfold afterLock
  split
  · exact .ended _
  · next hok =>
    have hactive := active_of_authorizeDeletion hok
    split
    · split
      · exact .deleteNonces now caller .leave req outcome locked hlocked hactive
      · exact .ended _
    · exact .ended _
    · exact .roundDone now caller .erase req .redacting locked hlocked
    · exact .deleteNonces now caller .erase req .deleted locked hlocked hactive

theorem goes_of_write {p : AccountPoint}
    {exec : Accounts → Accounts → Outcome AccountRow AccountChange AccountPoint}
    (h : (accounts prim cfg).op p = .write exec) (snap cur : Accounts) :
    Goes cur p (exec snap cur).next := by
  cases p with
  | sweepNonces now n => cases h; exact .insertNonce now n _
  | insertNonce swept n =>
    cases h
    by_cases htaken : (cur.nonces.any (·.nonce == n.nonce)) = true
    · simp only [if_pos htaken]
      exact .ended _
    · simp only [if_neg htaken]
      exact .nonceInserted swept n
  | claim now by' =>
    cases h
    dsimp only
    split
    · next n hsel =>
      have hmem := mem_selected (r := n) (hsel ▸ List.mem_singleton_self n)
      simp only [Bool.and_eq_true, beq_iff_eq, decide_eq_true_eq] at hmem
      exact .claimed now by' n hmem.1 hmem.2.1.1 hmem.2.2
    · exact .lost now by'
  | insertIdentity admitted row =>
    cases h
    dsimp only
    split
    · exact .ended _
    · cases admitted with
      | false => exact .ended _
      | true => exact .identityInserted row
  | updateIdentity admitted a upd =>
    cases h
    dsimp only
    split
    · exact .ended _
    · split
      · exact .ended _
      · cases admitted with
        | false => exact .ended _
        | true => exact .identityUpdated a upd
  | mint token => cases h; exact .minted token
  | logOut loaded =>
    cases h
    dsimp only
    split
    · exact .ended _
    · exact .loggedOut loaded
  | lockAccount now caller mode req outcome =>
    cases h
    dsimp only
    split
    · exact .ended _
    · next locked hlocked => exact goes_afterLock hlocked
  | deleteNonces now locked mode => cases h; exact .stripAccount now locked mode _
  | stripAccount now locked mode swept =>
    cases h
    dsimp only
    split
    · exact .ended _
    · split
      · exact .ended _
      · exact .accountStripped now locked mode swept
  | sweepTransfers now t => cases h; exact .insertTransfer now t _
  | insertTransfer swept t =>
    cases h
    dsimp only
    split
    · exact .ended _
    · exact .transferInserted swept t
  | takeTransfer now t =>
    cases h
    dsimp only
    split
    · next r hsel =>
      have hmem := mem_selected (r := r) (hsel ▸ List.mem_singleton_self r)
      simp only [Bool.and_eq_true, beq_iff_eq, decide_eq_true_eq] at hmem
      exact .transferTaken now t r hmem.1 hmem.2.1 hmem.2.2
    · exact .transferLost now t
  | dropTransfer id => cases h; exact .transferDropped id _
  | _ => cases h

/-- What a statement leaves is what its next point says, up to one where nothing follows. -/
def Leaves (p : AccountPoint) (out : Outcome AccountRow AccountChange AccountPoint) : Prop :=
  out.next = .ended ∨
    (out.next.log = p.log ++ out.effects ∧ out.next.locks ⊆ p.locks ++ out.locks)

/-- A statement that took the rows of its changes. -/
theorem leaves_took {p next : AccountPoint} {changes : List AccountChange}
    (hlog : next.log = p.log ++ changes)
    (hlocks : next.locks ⊆ p.locks ++ changes.flatMap AccountChange.rows) :
    Leaves p (took changes next) := .inr ⟨hlog, hlocks⟩

theorem leaves_of_write {p : AccountPoint}
    {exec : Accounts → Accounts → Outcome AccountRow AccountChange AccountPoint}
    (h : (accounts prim cfg).op p = .write exec) (snap cur : Accounts) :
    Leaves p (exec snap cur) := by
  cases p with
  | sweepNonces now n => cases h; exact leaves_took rfl (fun k hk => hk)
  | insertNonce swept n =>
    cases h
    dsimp only
    split
    · exact .inl rfl
    · refine leaves_took rfl ?_
      simp [AccountPoint.locks, AccountPoint.log]
  | claim now by' =>
    cases h
    dsimp only
    split
    · exact leaves_took rfl (fun k hk => hk)
    · exact leaves_took rfl (fun k hk => hk)
  | insertIdentity admitted row =>
    cases h
    dsimp only
    split
    · exact .inl rfl
    · cases admitted with
      | false => exact .inl rfl
      | true => exact leaves_took rfl (fun k hk => hk)
  | updateIdentity admitted a upd =>
    cases h
    dsimp only
    split
    · exact .inl rfl
    · split
      · exact .inl rfl
      · cases admitted with
        | false => exact .inl rfl
        | true => exact leaves_took rfl (fun k hk => hk)
  | mint token => cases h; exact leaves_took rfl (fun k hk => hk)
  | logOut loaded =>
    cases h
    dsimp only
    split
    · exact .inl rfl
    · exact leaves_took rfl (fun k hk => hk)
  | lockAccount now caller mode req outcome =>
    cases h
    dsimp only
    split
    · exact .inl rfl
    · next locked _ =>
      refine afterLock_cases (fun q => Leaves (.lockAccount now caller mode req outcome)
        ⟨[.user locked.address], [], q⟩) (.inl rfl) ?_ ?_
      · exact .inr ⟨rfl, fun k hk => hk⟩
      · exact .inr ⟨rfl, fun k hk => hk⟩
  | deleteNonces now locked mode =>
    cases h
    refine leaves_took rfl ?_
    simp [AccountPoint.locks, AccountPoint.log]
  | stripAccount now locked mode swept =>
    cases h
    dsimp only
    split
    · exact .inl rfl
    · split
      · exact .inl rfl
      · refine leaves_took rfl ?_
        simp [AccountPoint.locks, AccountPoint.log, AccountChange.rows]
  | sweepTransfers now t => cases h; exact leaves_took rfl (fun k hk => hk)
  | insertTransfer swept t =>
    cases h
    dsimp only
    split
    · exact .inl rfl
    · refine leaves_took rfl ?_
      simp [AccountPoint.locks, AccountPoint.log]
  | takeTransfer now t =>
    cases h
    dsimp only
    split
    · exact leaves_took rfl (fun k hk => hk)
    · exact leaves_took rfl (fun k hk => hk)
  | dropTransfer id => cases h; exact leaves_took rfl (fun k hk => hk)
  | _ => cases h

theorem idle_of_commit {p next : AccountPoint} (h : (accounts prim cfg).op p = .commit next) :
    next.Idle := by
  cases p with
  | claimed now by' won =>
    cases h
    split
    · exact idle_afterClaim _
    · exact idle_ended
  | transferTaken now t won =>
    cases h
    split
    · exact ⟨rfl, rfl⟩
    · exact idle_ended
  | nonceInserted | identityInserted | identityUpdated | minted | loggedOut | roundDone
  | accountStripped | transferInserted | transferDropped => cases h; exact ⟨rfl, rfl⟩
  | _ => cases h

theorem tracking_accounts : Tracking (accounts prim cfg) AccountPoint.log AccountPoint.locks where
  entry := idle_entry
  select p next c h := by
    right
    obtain ⟨hlog, hlocks⟩ := idle_of_select h
    obtain ⟨hlog', hlocks'⟩ := idle_select h c
    rw [hlog, hlocks, hlog', hlocks']
    exact ⟨rfl, fun k hk => hk⟩
  write p exec snap cur h := by
    rcases leaves_of_write h snap cur with hended | hleaves
    · left
      rw [hended]
      rfl
    · exact .inr hleaves
  commit p next h := idle_of_commit h

/-- A point holds the rows of its changes. -/
theorem rows_subset_locks {p : AccountPoint} {e : AccountChange} (he : e ∈ p.log) :
    e.rows ⊆ p.locks := by
  have hrows : e.rows ⊆ p.log.flatMap AccountChange.rows := fun k hk =>
    List.mem_flatMap.mpr ⟨e, he, hk⟩
  cases p with
  | roundDone | deleteNonces => cases he
  | stripAccount now u mode swept => exact fun k hk => List.mem_cons_of_mem _ (hrows hk)
  | _ => exact hrows

end tracking

/-! ## What changes leave -/

/-- What clients see of a change. -/
def AccountChange.seen : AccountChange → List Seen
  | .logOut a _ => [.loggedOut a]
  | .insertNonce n => [.issued n]
  | .claimNonce n a now => [.claimed n a now]
  | .insertTransfer t => [.stored t]
  | .claimTransfer t now => [.delivered t now]
  | .mint token => [.minted token]
  | .insertUser _ | .updateUser _ _ | .deleteNonces _ | .deleteTransfers _ => []

section changes

variable {c : Accounts} {a : Address} {e : AccountChange} {es : List AccountChange}

/-- The changes of a list, one after the other. -/
def AccountChange.applyAll (c : Accounts) (es : List AccountChange) : Accounts :=
  es.foldl (fun c e => e.apply c) c

theorem history_apply : (e.apply c).history = c.history ++ e.seen := by
  cases e <;> simp [AccountChange.apply, AccountChange.seen]

theorem history_applyAll :
    (AccountChange.applyAll c es).history = c.history ++ es.flatMap AccountChange.seen := by
  induction es generalizing c with
  | nil => simp [AccountChange.applyAll]
  | cons e es ih =>
    have hrest := ih (c := e.apply c)
    rw [history_apply] at hrest
    rw [List.flatMap_cons, ← List.append_assoc, ← hrest]
    rfl

/-- A change that does not take the row of an account leaves it. -/
theorem findUser_apply (h : AccountRow.user a ∉ e.rows) :
    findUser (e.apply c).toDatabase a = findUser c.toDatabase a := by
  have hother : ∀ {b : Address}, b ≠ a → ∀ u : User, (u.address == a) = true →
      (u.address == b) = false := by
    intro b hb u hu
    rw [beq_iff_eq] at hu
    rw [hu, beq_eq_false_iff_ne]
    exact Ne.symm hb
  cases e with
  | insertUser row =>
    have hne : row.address ≠ a := by simpa [AccountChange.rows, eq_comm] using h
    exact Table.find?_insert_of_ne (beq_eq_false_iff_ne.mpr hne)
  | updateUser b upd =>
    have hne : b ≠ a := by simpa [AccountChange.rows, eq_comm] using h
    exact Table.find?_update_of_ne (f := upd.set) (fun _ => rfl) (fun _ => rfl) (hother hne)
  | logOut b version =>
    have hne : b ≠ a := by simpa [AccountChange.rows, eq_comm] using h
    exact Table.find?_update_of_ne (f := fun u => { u with tokenVersion := version })
      (fun _ => rfl) (fun _ => rfl) (hother hne)
  | _ => rfl

theorem findUser_applyAll (h : ∀ e ∈ es, AccountRow.user a ∉ e.rows) :
    findUser (AccountChange.applyAll c es).toDatabase a = findUser c.toDatabase a := by
  induction es generalizing c with
  | nil => rfl
  | cons e es ih =>
    have hrest := ih (c := e.apply c) fun e' he' => h e' (List.mem_cons_of_mem _ he')
    rw [findUser_apply (h e List.mem_cons_self)] at hrest
    exact hrest

/-- The point at which clients see something. -/
def Seen.At : Seen → AccountPoint → Prop
  | .issued n, p => ∃ swept, p = .nonceInserted swept n
  | .claimed n a now, p => ∃ by', p = .claimed now by' (some n) ∧ a = by'.address
  | .minted token, p => p = .minted token
  | .loggedOut a, p => ∃ version, p = .loggedOut a version
  | .stored t, p => ∃ swept, p = .transferInserted swept t
  | .delivered t now, p => p = .transferTaken now t true

theorem seen_at {p : AccountPoint} {x : Seen} (h : x ∈ p.log.flatMap AccountChange.seen) :
    x.At p := by
  cases p with
  | nonceInserted swept n =>
    obtain rfl : x = .issued n := by simpa [AccountPoint.log, AccountChange.seen] using h
    exact ⟨swept, rfl⟩
  | claimed now by' won =>
    cases won with
    | none => cases h
    | some n =>
      obtain rfl : x = .claimed n by'.address now := List.mem_singleton.mp h
      exact ⟨by', rfl, rfl⟩
  | minted token =>
    obtain rfl : x = .minted token := List.mem_singleton.mp h
    rfl
  | loggedOut a version =>
    obtain rfl : x = .loggedOut a := List.mem_singleton.mp h
    exact ⟨version, rfl⟩
  | transferInserted swept t =>
    obtain rfl : x = .stored t := by simpa [AccountPoint.log, AccountChange.seen] using h
    exact ⟨swept, rfl⟩
  | transferTaken now t won =>
    cases won with
    | false => cases h
    | true =>
      obtain rfl : x = .delivered t now := List.mem_singleton.mp h
      rfl
  | _ => simp [AccountPoint.log, AccountChange.seen] at h

theorem after_accounts {prim : KeyPrimitives} {cfg : Config} (c : Accounts)
    (es : List AccountChange) : (accounts prim cfg).after c es = AccountChange.applyAll c es := rfl

end changes

/-! ## What the points know -/

section knows

variable {prim : KeyPrimitives} {cfg : Config} {c : Accounts} {p q : AccountPoint} {now : Time}
  {req : LoginRequest} {u row : User} {key attestation : Option String} {upd : UserUpdate}

/-- An update that leaves the version and the block. -/
def UserUpdate.KeepsStanding (upd : UserUpdate) : Prop := upd.tokenVersion = .none ∧ upd.blocked = .none

/-- What a point knows of the row that it writes: a login sets neither version nor block, and a
deletion holds the row that it read, of an account that is not deleted. -/
def Knows (c : Accounts) : AccountPoint → Prop
  | .updateIdentity _ _ upd | .identityUpdated _ upd => upd.KeepsStanding
  | .deleteNonces _ u _ | .stripAccount _ u _ _ | .accountStripped _ u _ _ =>
    findUser c.toDatabase u.address = some u ∧ u.active = true
  | _ => True

theorem keepsStanding_between (h : row.tokenVersion = u.tokenVersion ∧ row.blocked = u.blocked) :
    (UserUpdate.between u row).KeepsStanding := ⟨if_pos h.1.symm, if_pos h.2.symm⟩

theorem setEncryptionKey_standing (h : setEncryptionKey prim u key attestation = .ok row) :
    row.tokenVersion = u.tokenVersion ∧ row.blocked = u.blocked := by
  unfold setEncryptionKey at h
  split at h
  · obtain ⟨kid, -, hrow⟩ := bind_eq_ok.mp h
    cases hrow
    exact ⟨rfl, rfl⟩
  · cases h
    exact ⟨rfl, rfl⟩

theorem updatedRow_standing (h : updatedRow prim now req u = .ok row) :
    row.tokenVersion = u.tokenVersion ∧ row.blocked = u.blocked := by
  unfold updatedRow at h
  split at h
  · have hset := setEncryptionKey_standing h
    exact hset
  · split at h
    · cases h
      exact ⟨rfl, rfl⟩
    · cases h
      exact ⟨rfl, rfl⟩

theorem revivedRow_standing {username : String} (h : revivedRow prim now req username u = .ok row) :
    row.tokenVersion = u.tokenVersion ∧ row.blocked = u.blocked := by
  obtain ⟨keyed, hset, hrow⟩ := bind_eq_ok.mp h
  cases hrow
  have hstanding := setEncryptionKey_standing hset
  exact hstanding

theorem knows_entry (call : AccountCall) : Knows c call.entry := by
  obtain ⟨now, token, request⟩ := call
  cases request with
  | getNonce address value =>
    simp only [AccountCall.entry]
    split
    · trivial
    · trivial
  | login | logout | deleteAccount | eraseConversation | createTransfer | claimTransfer => trivial

theorem knows_afterClaim (by' : Claimant) : Knows c (afterClaim now by') := by
  cases by' with
  | login | deletion | erase => trivial

theorem knows_afterIdentity {admitted : Bool} (u : Option User) :
    Knows c (afterIdentity prim now admitted req u) := by
  cases u with
  | none => trivial
  | some u =>
    simp only [afterIdentity]
    split
    · split
      · trivial
      · trivial
    · split
      · trivial
      · next row hrow =>
        split
        · trivial
        · exact keepsStanding_between (updatedRow_standing hrow)

theorem knows_afterName {admitted : Bool} (loaded : Option User) (name : Except Fault String) :
    Knows c (afterName prim now admitted req loaded name) := by
  cases name with
  | error fault => trivial
  | ok username =>
    cases loaded with
    | none =>
      simp only [afterName]
      split
      · trivial
      · trivial
    | some u =>
      simp only [afterName]
      split
      · trivial
      · next row hrow => exact keepsStanding_between (revivedRow_standing hrow)

theorem knows_select {select : Accounts → AccountPoint}
    (h : (accounts prim cfg).op p = .select select) : Knows c (select c) := by
  cases p with
  | authenticate now token request =>
    cases h
    dsimp only
    split
    · trivial
    · cases request with
      | getNonce | login | logout | deleteAccount | eraseConversation | createTransfer
      | claimTransfer => trivial
  | verifyLogin now admitted req =>
    cases h
    dsimp only
    split
    · trivial
    · trivial
  | readIdentity now admitted req =>
    cases h
    exact knows_afterIdentity _
  | nameIdentity now admitted req loaded =>
    cases h
    exact knows_afterName _ _
  | refreshIdentity a =>
    cases h
    dsimp only
    split
    · trivial
    · trivial
  | readTransfer now id =>
    cases h
    dsimp only
    split
    · trivial
    · trivial
  | _ => cases h

theorem knows_write {exec : Accounts → Accounts → Outcome AccountRow AccountChange AccountPoint}
    (hknows : Knows c p) (h : (accounts prim cfg).op p = .write exec) (snap : Accounts) :
    Knows c (exec snap (AccountChange.applyAll c p.log)).next := by
  have hgoes := goes_of_write h snap (AccountChange.applyAll c p.log)
  revert hgoes
  generalize (exec snap (AccountChange.applyAll c p.log)).next = q
  intro hgoes
  cases hgoes with
  | deleteNonces now caller mode req outcome locked hlocked hactive =>
    obtain ⟨-, ha⟩ := findUser_mem hlocked
    refine ⟨?_, hactive⟩
    rw [ha]
    exact hlocked
  | identityUpdated | stripAccount | accountStripped => exact hknows
  | _ => trivial

theorem knows_commit {next : AccountPoint} {d : Accounts}
    (h : (accounts prim cfg).op p = .commit next) : Knows d next := by
  cases p with
  | claimed now by' won =>
    cases h
    split
    · exact knows_afterClaim _
    · trivial
  | transferTaken now t won =>
    cases h
    split
    · trivial
    · trivial
  | nonceInserted | identityInserted | identityUpdated | minted | loggedOut | roundDone
  | accountStripped | transferInserted | transferDropped => cases h; trivial
  | _ => cases h

/-- What a point knows, the commits of others leave. -/
theorem knows_stable (hknows : Knows c q) (hlocks : p.locks.Disjoint q.locks) :
    Knows (AccountChange.applyAll c p.log) q := by
  have hlocked : ∀ u : User, findUser c.toDatabase u.address = some u →
      AccountRow.user u.address ∈ q.locks →
      findUser (AccountChange.applyAll c p.log).toDatabase u.address = some u := by
    intro u hu hk
    rw [findUser_applyAll fun e he hke => hlocks (rows_subset_locks he hke) hk]
    exact hu
  cases q with
  | updateIdentity | identityUpdated => exact hknows
  | deleteNonces now u mode => exact ⟨hlocked u hknows.1 List.mem_cons_self, hknows.2⟩
  | stripAccount now u mode swept => exact ⟨hlocked u hknows.1 List.mem_cons_self, hknows.2⟩
  | accountStripped now u mode swept =>
    refine ⟨hlocked u hknows.1 ?_, hknows.2⟩
    simp [AccountPoint.locks, AccountPoint.log, AccountChange.rows]
  | _ => trivial

end knows

end Kryptolog.Server
