import Kryptolog.Server.EraseFinality

/-! # Admission by invite

`invites.py` with the registrations and revivals of `routers/auth.py`, statement by statement. The
row of the user is flushed first, then one guarded `UPDATE` takes a use of the code, and the two
are committed together. A login finds out which of these it is by reading the row of its address
without a lock.

A request comes after its challenge is spent, in a transaction that touches neither table. It
reads the clock twice, for the row and for the code.
-/

namespace Kryptolog.Server
set_option autoImplicit false

open Tables Fallible ReadCommitted Runs

structure InviteCode where
  code : String
  expiresAt : Option Time
  maxUses : ℕ
  uses : ℕ
  usedBy : Option Address
  usedAt : Option Time

instance : Keyed InviteCode String := ⟨InviteCode.code⟩

@[simp] theorem key_invite (i : InviteCode) : Keyed.key i = i.code := rfl

structure Admissions extends Database where
  invites : Table InviteCode

/-- A login, with the code it carries (empty for none) and what it reads off the clock. -/
structure AdmissionCall where
  now : Time
  inviteNow : Time
  inviteCode : String
  req : LoginRequest

def AdmissionCall.address (call : AdmissionCall) : Address := lower call.req.address

inductive AdmissionRow
  | user (address : Address)
  | invite (code : String)
  deriving DecidableEq

inductive AdmissionChange
  | insertUser (row : User)
  | updateUser (a : Address) (upd : UserUpdate)
  | takeUse (code : String) (usedBy : Address) (usedAt : Time)

def AdmissionChange.row : AdmissionChange → AdmissionRow
  | .insertUser row => .user row.address
  | .updateUser a _ => .user a
  | .takeUse code _ _ => .invite code

/-- One more use. -/
def InviteCode.take (usedBy : Address) (usedAt : Time) (i : InviteCode) : InviteCode :=
  { i with uses := i.uses + 1, usedBy := some usedBy, usedAt := some usedAt }

theorem UserUpdate.key_set (upd : UserUpdate) (u : User) : Keyed.key (upd.set u) = Keyed.key u := rfl

theorem InviteCode.key_take (usedBy : Address) (usedAt : Time) (i : InviteCode) :
    Keyed.key (i.take usedBy usedAt) = Keyed.key i := rfl

def AdmissionChange.apply (c : Admissions) : AdmissionChange → Admissions
  | .insertUser row => { c with users := c.users.insert row }
  | .updateUser a upd => { c with users := c.users.update (·.address == a) upd.set upd.key_set }
  | .takeUse code usedBy usedAt => { c with
      invites := c.invites.update (·.code == code) (InviteCode.take usedBy usedAt)
        (InviteCode.key_take usedBy usedAt) }

theorem mem_takeUse {c : Admissions} {code : String} {a : Address} {now : Time} {i : InviteCode} :
    i ∈ (AdmissionChange.apply c (.takeUse code a now)).invites ↔
      ∃ i₀ ∈ c.invites, (if i₀.code == code then i₀.take a now else i₀) = i := List.mem_map

/-- The use that an admission takes. -/
def AdmissionCall.use (call : AdmissionCall) : AdmissionChange :=
  .takeUse call.inviteCode call.address call.inviteNow

/-- The `WHERE` of the update. -/
def InviteCode.spendable (call : AdmissionCall) (i : InviteCode) : Bool :=
  i.code == call.inviteCode && decide (i.uses < i.maxUses) &&
    i.expiresAt.all (fun t => decide (call.inviteNow < t))

/-- Where the transaction is. After the flush it has made `change`. -/
inductive AdmissionPoint
  | verifyLogin (call : AdmissionCall)
  | readIdentity (call : AdmissionCall)
  | nameIdentity (call : AdmissionCall) (loaded : Option User)
  | insertIdentity (call : AdmissionCall) (row : User)
  | reviveIdentity (call : AdmissionCall) (upd : UserUpdate)
  | updateIdentity (call : AdmissionCall) (upd : UserUpdate)
  | consumeInvite (call : AdmissionCall) (change : AdmissionChange)
  | admitted (call : AdmissionCall) (change : AdmissionChange) (took : Bool)
  | identityUpdated (call : AdmissionCall) (upd : UserUpdate)
  | ended

namespace AdmissionPoint

def log : AdmissionPoint → List AdmissionChange
  | .consumeInvite _ change => [change]
  | .admitted call change took => if took then [change, call.use] else [change]
  | .identityUpdated call upd => [.updateUser call.address upd]
  | _ => []

def locks (p : AdmissionPoint) : List AdmissionRow := p.log.map AdmissionChange.row

/-- The request that a transaction serves. -/
def call : AdmissionPoint → Option AdmissionCall
  | .verifyLogin call | .readIdentity call | .nameIdentity call _ | .insertIdentity call _
  | .reviveIdentity call _ | .updateIdentity call _ | .consumeInvite call _ | .admitted call _ _
  | .identityUpdated call _ => some call
  | .ended => none

end AdmissionPoint

/-- The way on after a statement that changed a row. -/
def changedRow (change : AdmissionChange) (next : AdmissionPoint) :
    Outcome AdmissionRow AdmissionChange AdmissionPoint := ⟨[change.row], [change], next⟩

/-- A refusal, with its rollback. -/
def rolledBack : Outcome AdmissionRow AdmissionChange AdmissionPoint := ⟨[], [], .ended⟩

/-- With the row of the address. -/
def admissionOf (prim : KeyPrimitives) (call : AdmissionCall) : Option User → AdmissionPoint
  | none => .nameIdentity call none
  | some u =>
    if u.deletedAt.isSome then
      if mayRegister u then .nameIdentity call (some u) else .ended
    else
      match updatedRow prim call.now call.req u with
      | .error _ => .ended
      | .ok row =>
        let upd := UserUpdate.between u row
        if upd = .none then .ended else .updateIdentity call upd

/-- With the username that it will hold. -/
def namedAdmission (prim : KeyPrimitives) (call : AdmissionCall) (loaded : Option User)
    (name : Except Fault String) : AdmissionPoint :=
  match name with
  | .error _ => .ended
  | .ok username =>
    match loaded with
    | none =>
      match newUserRow prim call.req call.address username with
      | .error _ => .ended
      | .ok row => .insertIdentity call row
    | some u =>
      match revivedRow prim call.now call.req username u with
      | .error _ => .ended
      | .ok row => .reviveIdentity call (.between u row)

/-- After the flush: `_consume_invite_or_403`. -/
def afterFlush (required : Bool) (call : AdmissionCall) (change : AdmissionChange) : AdmissionPoint :=
  if required then .consumeInvite call change else .admitted call change false

def AdmissionPoint.op (prim : KeyPrimitives) (cfg : Config) (required : Bool) :
    AdmissionPoint → Op Admissions AdmissionRow AdmissionChange AdmissionPoint
  | .verifyLogin call => .select fun _ =>
    match verifyLoginPayload prim cfg call.req call.address with
    | .error _ => .ended
    | .ok _ => .readIdentity call
  | .readIdentity call => .select fun c =>
    admissionOf prim call (findUser c.toDatabase call.address)
  | .nameIdentity call loaded => .select fun c =>
    namedAdmission prim call loaded
      (claimUsername prim c.toDatabase call.req call.address (loaded.bind (·.username)))
  | .insertIdentity call row => .write fun _ cur =>
    if cur.users.any (·.address == row.address) || !row.checks then rolledBack
    else changedRow (.insertUser row) (afterFlush required call (.insertUser row))
  | .reviveIdentity call upd => .write fun _ cur =>
    match findUser cur.toDatabase call.address with
    | none => rolledBack
    | some u =>
      if !(upd.set u).checks then rolledBack
      else changedRow (.updateUser call.address upd)
        (afterFlush required call (.updateUser call.address upd))
  | .updateIdentity call upd => .write fun _ cur =>
    match findUser cur.toDatabase call.address with
    | none => rolledBack
    | some u =>
      if !(upd.set u).checks then rolledBack
      else changedRow (.updateUser call.address upd) (.identityUpdated call upd)
  | .consumeInvite call change => .write fun snap cur =>
    if call.inviteCode = "" then rolledBack
    else
      match selected snap.invites cur.invites (InviteCode.spendable call) with
      | [_] => changedRow call.use (.admitted call change true)
      | _ => rolledBack
  | .admitted _ _ _ => .commit .ended
  | .identityUpdated _ _ => .commit .ended
  | .ended => .halt

def admissions (prim : KeyPrimitives) (cfg : Config) (required : Bool) :
    Machine Admissions AdmissionRow AdmissionChange AdmissionPoint AdmissionCall where
  apply e c := e.apply c
  entry := .verifyLogin
  op := AdmissionPoint.op prim cfg required

/-! ## What the points say -/

section tracking

variable {prim : KeyPrimitives} {cfg : Config} {required : Bool} {call : AdmissionCall}
  {c : Admissions} {p q : AdmissionPoint}

theorem setEncryptionKey_deletedAt {u row : User} {key attestation : Option String}
    (h : setEncryptionKey prim u key attestation = .ok row) : row.deletedAt = u.deletedAt := by
  unfold setEncryptionKey at h
  split at h
  · obtain ⟨kid, -, hrow⟩ := bind_eq_ok.mp h
    cases hrow
    rfl
  · cases h
    rfl

theorem updatedRow_deletedAt {u row : User} {now : Time} {req : LoginRequest}
    (h : updatedRow prim now req u = .ok row) : row.deletedAt = u.deletedAt := by
  unfold updatedRow at h
  split at h
  · exact (setEncryptionKey_deletedAt h).trans rfl
  · split at h <;> cases h <;> rfl

/-- With the row of the address a login names an identity, updates an active one, or ends. -/
theorem admissionOf_cases (P : AdmissionPoint → Prop) (loaded : Option User) (hended : P .ended)
    (hname : (∀ u, loaded = some u → u.deletedAt.isSome = true) → P (.nameIdentity call loaded))
    (hupdate : ∀ upd : UserUpdate, upd.deletedAt = none → P (.updateIdentity call upd)) :
    P (admissionOf prim call loaded) := by
  cases loaded with
  | none => exact hname fun u h => by cases h
  | some u =>
    simp only [admissionOf]
    split
    · next hdeleted =>
      split
      · refine hname fun u' h => ?_
        cases h
        exact hdeleted
      · exact hended
    · split
      · exact hended
      · next row hrow =>
        split
        · exact hended
        · exact hupdate _ (if_pos (updatedRow_deletedAt hrow).symm)

/-- With its name it inserts the row of the address, revives it, or ends. -/
theorem namedAdmission_cases (P : AdmissionPoint → Prop) (loaded : Option User)
    (name : Except Fault String) (hended : P .ended)
    (hinsert : ∀ row : User, row.address = call.address → row.deletedAt = none →
      P (.insertIdentity call row))
    (hrevive : ∀ upd : UserUpdate,
      ((∀ u, loaded = some u → u.deletedAt.isSome = true) → upd.deletedAt = some none) →
        P (.reviveIdentity call upd)) :
    P (namedAdmission prim call loaded name) := by
  cases name with
  | error fault => exact hended
  | ok username =>
    cases loaded with
    | none =>
      simp only [namedAdmission]
      split
      · exact hended
      · next row hrow =>
        exact hinsert row ((setEncryptionKey_rest hrow).1.trans rfl)
          ((setEncryptionKey_deletedAt hrow).trans rfl)
    | some u =>
      simp only [namedAdmission]
      split
      · exact hended
      · next row hrow =>
        obtain ⟨keyed, -, hkeyed⟩ := bind_eq_ok.mp hrow
        cases hkeyed
        refine hrevive _ fun hloaded => ?_
        have hdeleted := hloaded u rfl
        have hne : u.deletedAt ≠ none := fun h => by simp [h] at hdeleted
        exact if_neg hne

/-- The points between reading statements have changed nothing. -/
theorem log_of_select {next : Admissions → AdmissionPoint}
    (h : (admissions prim cfg required).op p = .select next) : p.log = [] ∧ (next c).log = [] := by
  cases p with
  | verifyLogin call =>
    cases h
    dsimp only
    split <;> exact ⟨rfl, rfl⟩
  | readIdentity call =>
    cases h
    exact ⟨rfl, admissionOf_cases (fun q => q.log = []) _ rfl (fun _ => rfl) (fun _ _ => rfl)⟩
  | nameIdentity call loaded =>
    cases h
    exact ⟨rfl, namedAdmission_cases (fun q => q.log = []) _ _ rfl (fun _ _ _ => rfl) (fun _ _ => rfl)⟩
  | _ => cases h

/-- A writing statement rolls back, or its point tells what it changed. -/
theorem log_of_write {exec : Admissions → Admissions → Outcome AdmissionRow AdmissionChange AdmissionPoint}
    (h : (admissions prim cfg required).op p = .write exec) (snap cur : Admissions) :
    (exec snap cur).next = .ended ∨ ((exec snap cur).next.log = p.log ++ (exec snap cur).effects ∧
      (exec snap cur).locks = (exec snap cur).effects.map AdmissionChange.row) := by
  cases p with
  | insertIdentity call row =>
    cases h
    dsimp only
    split
    · exact .inl rfl
    · refine .inr ⟨?_, rfl⟩
      cases required <;> rfl
  | reviveIdentity call upd =>
    cases h
    dsimp only
    split
    · exact .inl rfl
    · split
      · exact .inl rfl
      · refine .inr ⟨?_, rfl⟩
        cases required <;> rfl
  | updateIdentity call upd =>
    cases h
    dsimp only
    split
    · exact .inl rfl
    · split
      · exact .inl rfl
      · exact .inr ⟨rfl, rfl⟩
  | consumeInvite call change =>
    cases h
    dsimp only
    split
    · exact .inl rfl
    · split
      · exact .inr ⟨rfl, rfl⟩
      · exact .inl rfl
  | _ => cases h

theorem next_of_commit {next : AdmissionPoint}
    (h : (admissions prim cfg required).op p = .commit next) : next = .ended := by
  cases p with
  | admitted | identityUpdated =>
    cases h
    rfl
  | _ => cases h

theorem tracking_admissions :
    Tracking (admissions prim cfg required) AdmissionPoint.log AdmissionPoint.locks where
  entry call := ⟨rfl, rfl⟩
  select p next c h := by
    obtain ⟨hlog, hlog'⟩ := log_of_select (c := c) h
    exact .inr ⟨hlog'.trans hlog.symm, by rw [AdmissionPoint.locks, hlog']; exact List.nil_subset _⟩
  write p exec snap cur h := by
    rcases log_of_write h snap cur with hended | ⟨hlog, hlocks⟩
    · left
      rw [hended]
      rfl
    · refine .inr ⟨hlog, ?_⟩
      rw [AdmissionPoint.locks, AdmissionPoint.locks, hlog, hlocks, List.map_append]
      exact List.Subset.refl _
  commit p next h := by
    rw [next_of_commit h]
    exact ⟨rfl, rfl⟩

end tracking

/-! ## What the points know -/

/-- A change that lets the caller in: the row is new, or it comes back. -/
def Admits (c : Admissions) (call : AdmissionCall) : AdmissionChange → Prop
  | .insertUser row => row.address = call.address ∧ row.deletedAt = none ∧
      ∀ u ∈ c.users, u.address ≠ call.address
  | .updateUser a upd => a = call.address ∧ upd.deletedAt = some none ∧
      ∃ u ∈ c.users, u.address = call.address
  | .takeUse _ _ _ => False

/-- The code of the request has a use left that has not expired. -/
def HasUse (c : Admissions) (call : AdmissionCall) : Prop :=
  ∃ i ∈ c.invites, i.spendable call = true

/-- What a point knows. -/
def AdmissionPoint.Knows (required : Bool) (c : Admissions) : AdmissionPoint → Prop
  | .nameIdentity _ loaded => ∀ u, loaded = some u → u.deletedAt.isSome = true
  | .insertIdentity call row => row.address = call.address ∧ row.deletedAt = none
  | .reviveIdentity _ upd => upd.deletedAt = some none
  | .updateIdentity _ upd | .identityUpdated _ upd => upd.deletedAt = none
  | .consumeInvite call change => required = true ∧ Admits c call change
  | .admitted call change took =>
    took = required ∧ Admits c call change ∧ (took = true → HasUse c call)
  | _ => True

/-- No code is overspent. -/
def WithinUses (c : Admissions) : Prop := ∀ i ∈ c.invites, i.uses ≤ i.maxUses

section knows

variable {prim : KeyPrimitives} {cfg : Config} {required : Bool} {call : AdmissionCall}
  {c : Admissions} {p q : AdmissionPoint} {change : AdmissionChange}

theorem Admits.row_eq (h : Admits c call change) : change.row = .user call.address := by
  cases change with
  | insertUser row => exact congrArg AdmissionRow.user h.1
  | updateUser a upd => exact congrArg AdmissionRow.user h.1
  | takeUse code usedBy usedAt => exact h.elim

theorem admission_select {next : Admissions → AdmissionPoint} (hp : p.Knows required c)
    (h : (admissions prim cfg required).op p = .select next) (d : Admissions) :
    (next d).Knows required c := by
  cases p with
  | verifyLogin call =>
    cases h
    dsimp only
    split <;> trivial
  | readIdentity call =>
    cases h
    exact admissionOf_cases (AdmissionPoint.Knows required c) _ trivial id (fun _ => id)
  | nameIdentity call loaded =>
    cases h
    exact namedAdmission_cases (AdmissionPoint.Knows required c) _ _ trivial (fun _ => And.intro)
      (fun _ hupd => hupd hp)
  | _ => cases h

theorem admission_afterFlush (h : Admits c call change) :
    (afterFlush required call change).Knows required c := by
  cases required with
  | true => exact ⟨rfl, h⟩
  | false => exact ⟨rfl, h, (fun h => by cases h)⟩

/-- The codes after a change that lets the caller in. -/
theorem invites_of_admits (h : Admits c call change) (d : Admissions) :
    (change.apply d).invites = d.invites := by
  cases change with
  | insertUser row => rfl
  | updateUser a upd => rfl
  | takeUse code usedBy usedAt => exact h.elim

theorem admission_write
    {exec : Admissions → Admissions → Outcome AdmissionRow AdmissionChange AdmissionPoint}
    (hp : p.Knows required c) (h : (admissions prim cfg required).op p = .write exec)
    (snap : Admissions) :
    (exec snap ((admissions prim cfg required).after c p.log)).next.Knows required c := by
  cases p with
  | insertIdentity call row =>
    cases h
    dsimp only
    split
    · trivial
    · next hfree =>
      rw [Bool.not_eq_true, Bool.or_eq_false_iff, Table.any_eq_false] at hfree
      refine admission_afterFlush ⟨hp.1, hp.2, fun u hu e => ?_⟩
      simpa [e, hp.1] using hfree.1 u hu
  | reviveIdentity call upd =>
    cases h
    dsimp only
    split
    · trivial
    · next u hu =>
      split
      · trivial
      · obtain ⟨hmem, haddress⟩ := Table.find?_mem hu
        exact admission_afterFlush ⟨rfl, hp, u, hmem, beq_iff_eq.mp haddress⟩
  | updateIdentity call upd =>
    cases h
    dsimp only
    split
    · trivial
    · split
      · trivial
      · exact hp
  | consumeInvite call change =>
    cases h
    dsimp only
    split
    · trivial
    · split
      · next i hsel =>
        refine ⟨hp.1.symm, hp.2, fun _ => ⟨i, ?_⟩⟩
        have hi : i ∈ selected snap.invites (change.apply c).invites (InviteCode.spendable call) := by
          have hsel' : selected snap.invites (change.apply c).invites (InviteCode.spendable call) =
              [i] := hsel
          rw [hsel']
          exact List.mem_singleton_self i
        rw [invites_of_admits hp.2, selected, List.mem_filter, Table.mem_where'] at hi
        exact hi.1
      · trivial
  | _ => cases h

/-! ## Commits -/

theorem after_admissions (c : Admissions) (es : List AdmissionChange) :
    (admissions prim cfg required).after c es = es.foldl AdmissionChange.apply c := rfl

/-- A change of other rows leaves who has a row. -/
theorem hasRow_apply {a : Address} {e : AdmissionChange} (h : e.row ≠ .user a) :
    (∃ u ∈ (e.apply c).users, u.address = a) ↔ ∃ u ∈ c.users, u.address = a := by
  cases e with
  | insertUser row =>
    constructor
    · rintro ⟨u, hu, rfl⟩
      rcases Table.mem_insert hu with hu | rfl
      · exact ⟨u, hu, rfl⟩
      · exact absurd rfl h
    · rintro ⟨u, hu, rfl⟩
      exact ⟨u, Table.mem_insert_of_mem hu, rfl⟩
  | updateUser b upd =>
    have hkeys : (∃ u ∈ c.users.update (·.address == b) upd.set upd.key_set, u.address = a) ↔
        ∃ u ∈ c.users, u.address = a := Table.exists_update (by intro; rfl) fun u _ => Iff.rfl
    exact hkeys
  | takeUse code usedBy usedAt => exact Iff.rfl

/-- A change of other rows leaves the code. -/
theorem hasUse_apply {e : AdmissionChange} (h : e.row ≠ .invite call.inviteCode)
    (huse : HasUse c call) : HasUse (e.apply c) call := by
  obtain ⟨i, hi, hspendable⟩ := huse
  cases e with
  | insertUser row => exact ⟨i, hi, hspendable⟩
  | updateUser b upd => exact ⟨i, hi, hspendable⟩
  | takeUse code usedBy usedAt =>
    refine ⟨i, mem_takeUse.mpr ⟨i, hi, if_neg ?_⟩, hspendable⟩
    simp only [InviteCode.spendable, Bool.and_eq_true, beq_iff_eq] at hspendable
    rw [hspendable.1.1, beq_iff_eq]
    exact fun hcode => h (congrArg AdmissionRow.invite hcode.symm)

theorem admits_apply {e : AdmissionChange} (h : e.row ≠ .user call.address)
    (hadmits : Admits c call change) : Admits (e.apply c) call change := by
  have hrow := hasRow_apply (c := c) h
  cases change with
  | insertUser row =>
    refine ⟨hadmits.1, hadmits.2.1, fun u hu haddress => ?_⟩
    obtain ⟨v, hv, haddress'⟩ := hrow.mp ⟨u, hu, haddress⟩
    exact hadmits.2.2 v hv haddress'
  | updateUser a upd => exact ⟨hadmits.1, hadmits.2.1, hrow.mpr hadmits.2.2⟩
  | takeUse code usedBy usedAt => exact hadmits.elim

/-- What a point knows is about rows that it holds. -/
theorem knows_apply {e : AdmissionChange} (h : e.row ∉ p.locks) (hp : p.Knows required c) :
    p.Knows required (e.apply c) := by
  cases p with
  | consumeInvite call change =>
    refine ⟨hp.1, admits_apply (fun hrow => h ?_) hp.2⟩
    rw [hrow, ← hp.2.row_eq]
    exact List.mem_singleton_self _
  | admitted call change took =>
    obtain ⟨htook, hadmits, huse⟩ := hp
    refine ⟨htook, admits_apply (fun hrow => h ?_) hadmits, fun ht => hasUse_apply (fun hrow => h ?_) (huse ht)⟩
    · rw [hrow, ← hadmits.row_eq]
      cases took <;> exact List.mem_cons_self
    · rw [hrow, ht]
      exact List.mem_cons_of_mem _ (List.mem_singleton_self _)
  | _ => exact hp

theorem knows_applyAll {es : List AdmissionChange} (h : ∀ e ∈ es, e.row ∉ p.locks)
    (hp : p.Knows required c) : p.Knows required (es.foldl AdmissionChange.apply c) := by
  induction es generalizing c with
  | nil => exact hp
  | cons e es ih =>
    obtain ⟨he, hes⟩ := List.forall_mem_cons.mp h
    exact ih hes (knows_apply he hp)

/-- The use of an admission does not overspend its code. -/
theorem withinUses_use (hbase : WithinUses c) (huse : HasUse c call) : WithinUses (call.use.apply c) := by
  obtain ⟨i, hi, hspendable⟩ := huse
  simp only [InviteCode.spendable, Bool.and_eq_true, beq_iff_eq, decide_eq_true_eq] at hspendable
  intro j hj
  obtain ⟨j₀, hj₀, rfl⟩ := mem_takeUse.mp hj
  split
  · next hcode =>
    obtain rfl : j₀ = i := Table.eq_of_key hj₀ hi ((beq_iff_eq.mp hcode).trans hspendable.1.1.symm)
    exact hspendable.1.2
  · exact hbase j₀ hj₀

theorem withinUses_of_invites {d : Admissions} (h : d.invites = c.invites) (hbase : WithinUses c) :
    WithinUses d := by
  rw [WithinUses, h]
  exact hbase

theorem admission_commit {next : AdmissionPoint} (hbase : WithinUses c) (hp : p.Knows required c)
    (h : (admissions prim cfg required).op p = .commit next) :
    WithinUses (p.log.foldl AdmissionChange.apply c) := by
  cases p with
  | admitted call change took =>
    obtain ⟨-, hadmits, huse⟩ := hp
    have hchange := withinUses_of_invites (invites_of_admits hadmits c) hbase
    cases took with
    | false => exact hchange
    | true =>
      obtain ⟨i, hi, hspendable⟩ := huse rfl
      have hafter : HasUse (change.apply c) call :=
        ⟨i, by rwa [invites_of_admits hadmits], hspendable⟩
      exact withinUses_use hchange hafter
  | identityUpdated call upd => exact withinUses_of_invites rfl hbase
  | _ => cases h

theorem pointRule_admissions : PointRule (admissions prim cfg required) AdmissionPoint.log
    AdmissionPoint.locks WithinUses (fun c p => p.Knows required c) (fun _ _ => True) where
  entry c call _ := trivial
  select c p next _ hp h := admission_select hp h _
  write c p exec snap _ hp h := admission_write hp h snap
  commit c p next hbase hp h _ := by
    rw [next_of_commit h]
    exact ⟨admission_commit hbase hp h, trivial⟩
  stable c p next q _ _ _ _ hq hlocks := by
    refine knows_applyAll (fun e he hk => hlocks ?_ hk) hq
    exact List.mem_map_of_mem he

/-- The points of a transaction serve one request. -/
theorem call_of_follows (h : (admissions prim cfg required).Follows p q) (call : AdmissionCall)
    (hq : q.call = some call) : p.call = some call := by
  have hflush : ∀ call change, (afterFlush required call change).call = some call := by
    intro call change
    cases required <;> rfl
  cases h with
  | select h c =>
    cases p with
    | verifyLogin call' =>
      cases h
      dsimp only at hq
      split at hq
      · cases hq
      · exact hq
    | readIdentity call' =>
      cases h
      exact admissionOf_cases (fun q => q.call = some call → some call' = some call) _
        (fun h => by cases h) (fun _ h => h) (fun _ _ h => h) hq
    | nameIdentity call' loaded =>
      cases h
      exact namedAdmission_cases (fun q => q.call = some call → some call' = some call) _ _
        (fun h => by cases h) (fun _ _ _ h => h) (fun _ _ h => h) hq
    | _ => cases h
  | write h snap cur =>
    cases p with
    | insertIdentity call' row =>
      cases h
      dsimp only at hq
      split at hq
      · cases hq
      · exact (hflush _ _).symm.trans hq
    | reviveIdentity call' upd =>
      cases h
      dsimp only at hq
      split at hq
      · cases hq
      · split at hq
        · cases hq
        · exact (hflush _ _).symm.trans hq
    | updateIdentity call' upd =>
      cases h
      dsimp only at hq
      split at hq
      · cases hq
      · split at hq
        · cases hq
        · exact hq
    | consumeInvite call' change =>
      cases h
      dsimp only at hq
      split at hq
      · cases hq
      · split at hq
        · exact hq
        · cases hq
    | _ => cases h
  | commit h =>
    rw [next_of_commit h] at hq
    cases hq

end knows

/-! ## The effect of a commit -/

/-- One use of the request's code, at the instant at which it read the clock. -/
def TakesUse (call : AdmissionCall) (c c' : Admissions) : Prop :=
  ∃ i ∈ c.invites, i.code = call.inviteCode ∧ i.uses < i.maxUses ∧
    (∀ t, i.expiresAt = some t → call.inviteNow < t) ∧
    c'.invites = c.invites.update (·.code == i.code) (InviteCode.take call.address call.inviteNow)
      (fun _ => rfl)

/-- The account of the request is let in: its row is new, or it is no longer deleted. -/
def LetsIn (call : AdmissionCall) (c c' : Admissions) : Prop :=
  (∃ row : User, row.address = call.address ∧ row.deletedAt = none ∧
    (∀ u ∈ c.users, u.address ≠ call.address) ∧ c'.users = c.users.insert row) ∨
  (∃ upd : UserUpdate, upd.deletedAt = some none ∧ (∃ u ∈ c.users, u.address = call.address) ∧
    c'.users = c.users.update (·.address == call.address) upd.set upd.key_set)

/-- What the commit of a request does. Where invites are required, an admission takes one use. -/
inductive CommitEffect (required : Bool) (call : AdmissionCall) (c c' : Admissions) : Prop
  | login (upd : UserUpdate) (hkept : upd.deletedAt = none)
      (husers : c'.users = c.users.update (·.address == call.address) upd.set upd.key_set)
      (hinvites : c'.invites = c.invites)
  | admission (husers : LetsIn call c c')
      (hinvites : if required then TakesUse call c c' else c'.invites = c.invites)

section effect

variable {prim : KeyPrimitives} {cfg : Config} {required : Bool} {call : AdmissionCall}
  {c c' : Admissions} {p : AdmissionPoint}

theorem Admits.letsIn {change : AdmissionChange} (h : Admits c call change)
    (hc' : c'.users = (change.apply c).users) : LetsIn call c c' := by
  cases change with
  | insertUser row => exact .inl ⟨row, h.1, h.2.1, h.2.2, hc'⟩
  | updateUser a upd =>
    obtain ⟨rfl, hdeleted, hrow⟩ := h
    exact .inr ⟨upd, hdeleted, hrow, hc'⟩
  | takeUse code usedBy usedAt => exact h.elim

theorem HasUse.takes {d : Admissions} (h : HasUse c call) (hd : d.invites = c.invites) :
    TakesUse call c (call.use.apply d) := by
  obtain ⟨i, hi, hspendable⟩ := h
  simp only [InviteCode.spendable, Bool.and_eq_true, beq_iff_eq, decide_eq_true_eq] at hspendable
  refine ⟨i, hi, hspendable.1.1, hspendable.1.2, fun t ht => ?_, ?_⟩
  · have hlive := hspendable.2
    rw [ht] at hlive
    simpa using hlive
  · have hafter : (call.use.apply d).invites = d.invites.update (·.code == call.inviteCode)
        (InviteCode.take call.address call.inviteNow)
        (InviteCode.key_take call.address call.inviteNow) := rfl
    rw [hafter, hd, hspendable.1.1]

theorem effect_of_commit {next : AdmissionPoint} (hp : p.Knows required c)
    (h : (admissions prim cfg required).op p = .commit next) :
    ∃ call, p.call = some call ∧
      CommitEffect required call c (p.log.foldl AdmissionChange.apply c) := by
  cases p with
  | admitted call change took =>
    obtain ⟨rfl, hadmits, huse⟩ := hp
    refine ⟨call, rfl, ?_⟩
    cases took with
    | false => exact .admission (hadmits.letsIn rfl) (invites_of_admits hadmits c)
    | true => exact .admission (hadmits.letsIn rfl) ((huse rfl).takes (invites_of_admits hadmits c))
  | identityUpdated call upd => exact ⟨call, rfl, .login upd hp rfl rfl⟩
  | _ => cases h

end effect

/-- In every interleaving of registrations, revivals and logins: no code is overspent, and a step
either commits nothing or is the commit of a request that arrived. That admits the address of the
request, with exactly one use of its code where invites are required, or it admits nobody and takes
none. -/
theorem admission_by_invite {prim : KeyPrimitives} {cfg : Config} {required : Bool} {c₀ : Admissions}
    {as : List (Action AdmissionCall)}
    {s : State Admissions AdmissionRow AdmissionChange AdmissionPoint} (hstart : WithinUses c₀)
    (hrun : Run (ofPartial (admissions prim cfg required).step) (.start c₀) as s) :
    WithinUses s.committed ∧ ∀ a s', (admissions prim cfg required).step s a = some s' →
      (a.isCommit = false ∧ s'.committed = s.committed) ∨
      (a.isCommit = true ∧ ∃ call, Action.arrive call ∈ as ∧
        CommitEffect required call s.committed s'.committed) := by
  have hholds := pointRule_admissions.run_holds tracking_admissions
    (prepared_of_ready (fun _ _ => trivial) hrun) (.start hstart)
  refine ⟨hholds.base, fun a s' hstep => ?_⟩
  rcases PointRule.commit_effect hholds hstep with hnone | ⟨i, t, next, rfl, ht, hop, hknows, hafter⟩
  · exact .inl hnone
  · obtain ⟨call, hcall, heffect⟩ := effect_of_commit hknows hop
    refine .inr ⟨rfl, call, ?_, ?_⟩
    · refine arrived_of_origin AdmissionPoint.call ?_ ?_ hrun ht hcall
      · exact fun r r' h => (Option.some.inj h).symm
      · exact fun p q h => call_of_follows h
    · rw [hafter, after_admissions]
      exact heffect

/-! ## A registration by invite -/

def sampleInvited : Admissions where
  __ := Database.empty
  invites := ⟨[⟨"code", none, 1, 0, none, none⟩], List.nodup_singleton _⟩

def sampleCandidate : AdmissionCall := ⟨0, 0, "code", sampleLogin none⟩

def sampleAdmissions : Machine Admissions AdmissionRow AdmissionChange AdmissionPoint AdmissionCall :=
  admissions sampleKeyPrimitives sampleConfig true

/-- The row of the candidate. -/
def sampleNewcomer (username : String) : User :=
  ⟨sampleCandidate.address, sampleIdentity, some username, none, none, none, none, none, 0, none, false⟩

/-- One session, and nothing committed yet. -/
def sampleAdmitting (p : AdmissionPoint) : State Admissions AdmissionRow AdmissionChange AdmissionPoint :=
  ⟨sampleInvited, [some ⟨p, none, p.locks, p.log⟩]⟩

theorem select_sampleAdmitting {p : AdmissionPoint} {next : Admissions → AdmissionPoint}
    (hop : sampleAdmissions.op p = .select next) (hlog : p.log = []) (hlog' : (next sampleInvited).log = []) :
    sampleAdmissions.step (sampleAdmitting p) (.select 0) =
      some (sampleAdmitting (next sampleInvited)) := by
  have hsession : (sampleAdmitting p).session 0 = some ⟨p, none, p.locks, p.log⟩ := rfl
  rw [Machine.select_eq hsession hop]
  simp [sampleAdmitting, State.put, Session.goto, AdmissionPoint.locks, hlog, hlog', Machine.view]

theorem address_sampleCandidate : sampleCandidate.address = (sampleServed '2' none).address :=
  lower_text (sampleServed '2' none).address

theorem checks_sampleNewcomer (username : String) : (sampleNewcomer username).checks = true := by
  refine checks_of_keyless ?_ length_sampleIdentity rfl rfl rfl
  have haddress : (sampleNewcomer username).address = (sampleServed '2' none).address :=
    address_sampleCandidate
  rw [haddress]
  exact hexColumn_sampleText 96 (by decide)

/-- The reads of the sample registration. -/
theorem run_sampleReads : ∃ username, Run (ofPartial sampleAdmissions.step) (.start sampleInvited)
    [.arrive sampleCandidate, .select 0, .select 0, .select 0]
    (sampleAdmitting (.insertIdentity sampleCandidate (sampleNewcomer username))) := by
  have hverify : sampleAdmissions.op (.verifyLogin sampleCandidate) =
      .select fun _ => .readIdentity sampleCandidate := by
    have hpayload : verifyLoginPayload sampleKeyPrimitives sampleConfig sampleCandidate.req
        sampleCandidate.address = .ok () := verifyLoginPayload_sample
    simp only [sampleAdmissions, admissions, AdmissionPoint.op, hpayload]
  obtain ⟨username, hname⟩ : ∃ username, claimUsername sampleKeyPrimitives sampleInvited.toDatabase
      sampleCandidate.req sampleCandidate.address none = .ok username := ⟨_, rfl⟩
  have hnamed : namedAdmission sampleKeyPrimitives sampleCandidate none
      (claimUsername sampleKeyPrimitives sampleInvited.toDatabase sampleCandidate.req
        sampleCandidate.address none) =
        .insertIdentity sampleCandidate (sampleNewcomer username) := by
    rw [hname]
    rfl
  refine ⟨username, .cons rfl (.cons (select_sampleAdmitting hverify rfl rfl)
    (.cons (select_sampleAdmitting rfl rfl rfl) (.single ?_)))⟩
  have hop : sampleAdmissions.op (.nameIdentity sampleCandidate none) = .select fun c =>
      namedAdmission sampleKeyPrimitives sampleCandidate none (claimUsername sampleKeyPrimitives
        c.toDatabase sampleCandidate.req sampleCandidate.address none) := rfl
  have hstep := select_sampleAdmitting hop rfl (by rw [hnamed]; rfl)
  rw [hnamed] at hstep
  exact hstep

/-- A statement of the sample registration that changes a row. -/
theorem write_sampleAdmitting {p q : AdmissionPoint} {change : AdmissionChange}
    {exec : Admissions → Admissions → Outcome AdmissionRow AdmissionChange AdmissionPoint}
    (hop : sampleAdmissions.op p = .write exec) (hlog : q.log = p.log ++ [change])
    (hout : exec (sampleAdmissions.view sampleInvited ⟨p, none, p.locks, p.log⟩)
      (sampleAdmissions.view sampleInvited ⟨p, none, p.locks, p.log⟩) = changedRow change q) :
    Run (ofPartial sampleAdmissions.step) (sampleAdmitting p) [.start 0, .finish 0]
      (sampleAdmitting q) := by
  have hsession : (sampleAdmitting p).session 0 = some ⟨p, none, p.locks, p.log⟩ := rfl
  have hrun := Machine.write_run hsession hop hout (by simp [changedRow, sampleAdmitting, State.lockedFor])
  have hq : (sampleAdmitting p).put 0
      (some ((⟨p, none, p.locks, p.log⟩ : Session _ _ _ _).finish (changedRow change q))) =
        sampleAdmitting q := by
    simp [sampleAdmitting, State.put, Session.finish, changedRow, AdmissionPoint.locks, hlog]
  rwa [hq] at hrun

/-- Its insert and the use it takes. -/
theorem run_sampleWrites (username : String) : Run (ofPartial sampleAdmissions.step)
    (sampleAdmitting (.insertIdentity sampleCandidate (sampleNewcomer username)))
    ([.start 0, .finish 0] ++ [.start 0, .finish 0])
    (sampleAdmitting (.admitted sampleCandidate (.insertUser (sampleNewcomer username)) true)) := by
  have hinsert : Run (ofPartial sampleAdmissions.step)
      (sampleAdmitting (.insertIdentity sampleCandidate (sampleNewcomer username)))
      [.start 0, .finish 0]
      (sampleAdmitting (.consumeInvite sampleCandidate (.insertUser (sampleNewcomer username)))) := by
    refine write_sampleAdmitting rfl rfl ?_
    have hfree : (sampleInvited.users.any (·.address == (sampleNewcomer username).address) ||
        !(sampleNewcomer username).checks) = false := by
      rw [checks_sampleNewcomer]
      rfl
    exact if_neg (by rw [Bool.not_eq_true]; exact hfree)
  refine hinsert.append (write_sampleAdmitting rfl rfl ?_)
  rfl

/-- Alice registers with the one use of a code. -/
theorem admission_by_invite_sample : ∃ as s s', WithinUses sampleInvited ∧
    Run (ofPartial (admissions sampleKeyPrimitives sampleConfig true).step) (.start sampleInvited) as s ∧
    (admissions sampleKeyPrimitives sampleConfig true).step s (.commit 0) = some s' ∧
    ∃ call, Action.arrive call ∈ as ∧ CommitEffect true call s.committed s'.committed := by
  have hwithin : WithinUses sampleInvited := by
    intro i hi
    obtain rfl := List.mem_singleton.mp hi
    exact Nat.zero_le _
  obtain ⟨username, hreads⟩ := run_sampleReads
  have hrun := hreads.append (run_sampleWrites username)
  refine ⟨_, _, _, hwithin, hrun, rfl, ?_⟩
  rcases (admission_by_invite hwithin hrun).2 (.commit 0) _ rfl with ⟨hcommit, -⟩ | ⟨-, heffect⟩
  · cases hcommit
  · exact heffect

end Kryptolog.Server
