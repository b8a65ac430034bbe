import Kryptolog.Server.DirectoryIntegrity

/-! # Replayed rotations

A rotation is signed from the key that is served, so a copy of it counts for nothing while
another key is served. It counts again once that key is back, by a login that publishes it or by
a rotation that returns to it, and its timestamp is still recent.
-/

namespace Kryptolog.Server
set_option autoImplicit false

open Tables Json Fallible Runs

/-- The rotation that an event brings, where the server accepts it, with the address. -/
def acceptedRotation (prim : KeyPrimitives) (d : Directory) :
    DirectoryEvent → Option (Address × KeyRotationRequest)
  | .call ⟨now, token, .rotate req⟩ =>
    match getCurrentUser d.toDatabase token with
    | .error _ => none
    | .ok caller =>
      match rotate prim d now caller req with
      | .error _ => none
      | .ok _ => some (caller.address, req)
  | _ => none

/-- The directory with the rotations that were accepted so far. -/
structure Logged where
  directory : Directory
  accepted : List (Address × KeyRotationRequest)

def LoggedStep (prim : KeyPrimitives) (cfg : Config) (s : Logged) (e : DirectoryEvent)
    (s' : Logged) : Prop :=
  DirectoryStep prim cfg s.directory e s'.directory ∧
    s'.accepted = s.accepted ++ (acceptedRotation prim s.directory e).toList

/-- A recent rotation comes in while the served key is not the one that a recorded rotation with
its timestamp and signature replaced. -/
def ServesAnotherKey (d : Directory) : DirectoryEvent → Prop
  | .call ⟨now, token, .rotate req⟩ =>
    ∀ caller, getCurrentUser d.toDatabase token = .ok caller →
      ((now : ℤ) - req.ts).natAbs ≤ rotationClockSkew →
      ∀ r ∈ d.rotations, r.userAddress = caller.address → r.ts = req.ts →
        r.signature = req.signature → caller.encryptionKeyId ≠ some r.oldKid
  | _ => True

/-- A signature verifies for one body only. -/
def BindsBody (prim : Primitives) : Prop :=
  ∀ key body body' signature, prim.verifyIdentitySignature key body signature = true →
    prim.verifyIdentitySignature key body' signature = true → body = body'

/-! ## Erased accounts -/

section erased

variable {prim : KeyPrimitives} {cfg : Config} {d d' : Directory} {db db' : Database} {now : Time}
  {caller u row : User} {a address : Address} {seen : Set String}

def Erased (db : Database) (a : Address) : Prop :=
  ∃ u ∈ db.users, u.address = a ∧ u.active = false ∧ u.blocked = true

theorem Erased.inactive (h : Erased db a) (hu : u ∈ db.users) (ha : u.address = a) :
    u.active = false ∧ u.blocked = true := by
  obtain ⟨e, he, hea, hactive, hblocked⟩ := h
  obtain rfl : u = e := Table.eq_of_key hu he (ha.trans hea.symm)
  exact ⟨hactive, hblocked⟩

/-- A move keeps every row of the users, or strips it. -/
theorem Move.image {p : Primitives} {uploads : ℕ → Prop} (h : Move p uploads db db')
    (hu : u ∈ db.users) : u ∈ db'.users ∨ ∃ mode now, stripIdentity mode now u ∈ db'.users := by
  cases h with
  | messaging _ hmsg => exact .inl (hmsg.2 ▸ hu)
  | strip mode now a =>
    have himage := Table.update_of_mem hu (·.address == a) (stripIdentity mode now) (fun _ => rfl)
    split at himage
    · exact .inr ⟨mode, now, himage⟩
    · exact .inl himage
  | complete w r signature now supplied _ _ _ hr =>
    obtain ⟨T, rfl, -⟩ := completeWorkflow_ok hr
    exact .inl hu
  | newSecret | editSecret | dropSecret | grants | uploadChunk | newWorkflow | sign | reject
  | dropWorkflow | dropRecipients | rewrapSigner | rewrapRecipient => exact .inl hu

theorem Moves.erased {p : Primitives} {uploads : ℕ → Prop} (h : Moves p uploads db db')
    (he : Erased db a) : Erased db' a := by
  refine h.invariant (I := fun db => Erased db a) ?_ he
  rintro db db' ⟨u, hu, ha, hactive, hblocked⟩ hmove
  rcases hmove.image hu with hu' | ⟨mode, now, hu'⟩
  · exact ⟨u, hu', ha, hactive, hblocked⟩
  · refine ⟨_, hu', ha, rfl, ?_⟩
    change (u.blocked || mode == .erase) = true
    rw [hblocked, Bool.true_or]

theorem Moves.hasRow {p : Primitives} {uploads : ℕ → Prop} (h : Moves p uploads db db')
    (hu : ∃ u ∈ db.users, u.address = a) : ∃ u ∈ db'.users, u.address = a := by
  refine h.invariant (I := fun db => ∃ u ∈ db.users, u.address = a) ?_ hu
  rintro db db' ⟨u, hu, ha⟩ hmove
  rcases hmove.image hu with hu' | ⟨mode, now, hu'⟩
  · exact ⟨u, hu', ha⟩
  · exact ⟨_, hu', ha⟩

theorem erased_of_deleteAccount (hrow : ∃ u ∈ db.users, u.address = a)
    (h : deleteAccount db now a .erase = .ok db') : Erased db' a := by
  obtain ⟨⟨db₁, n⟩, h₁, rfl⟩ := map_eq_ok.mp h
  have hleft : ∃ u ∈ (dropHoldings db₁ a .erase).users, u.address = a := by
    rw [← (deleteOwnMessages_messaging h₁).2] at hrow
    have hmoves : Moves (Primitives.mk (fun m => m) (fun _ _ _ => true) (fun _ => none))
        (fun _ => True) db₁ (dropHoldings db₁ a .erase) := dropHoldings_moves .erase
    exact hmoves.hasRow hrow
  obtain ⟨u, hu, ha⟩ := hleft
  have hstripped := Table.update_of_mem hu (·.address == a) (stripIdentity .erase now)
    (fun _ => rfl)
  rw [if_pos (beq_iff_eq.mpr ha)] at hstripped
  refine ⟨stripIdentity .erase now u, hstripped, ha, rfl, ?_⟩
  exact Bool.or_true u.blocked

/-- The account of an erase that answered `deleted` is erased. -/
theorem erased_of_performDeletion {req : EraseRequest} {response : EraseResponse}
    (hcaller : caller ∈ db.users)
    (h : performDeletion prim.toPrimitives cfg db now caller .erase req = (db', .ok response))
    (hdeleted : response.status = .deleted) : Erased db' caller.address := by
  have hclaimed : ∃ u ∈ (claimNonce db now caller.address req.nonce).1.users,
      u.address = caller.address := ⟨caller, hcaller, rfl⟩
  simp only [performDeletion] at h
  split at h
  · cases h
  · unfold transaction at h
    split at h
    · rename_i db₁ r₁ hok
      cases h
      obtain ⟨_, -, hok⟩ := bind_eq_ok.mp hok
      simp only [eraseAccount, bind_eq_ok] at hok
      obtain ⟨⟨db₂, n⟩, happly, keys, -, hok⟩ := hok
      have hmsg := applyRedactions_messaging happly
      split at hok
      · cases hok
        cases hdeleted
      · simp only [bind_eq_ok] at hok
        obtain ⟨kept, -, db₃, hdel, hok⟩ := hok
        cases hok
        exact erased_of_deleteAccount (hmsg.2 ▸ hclaimed) hdel
    · cases h

theorem mem_setUser_of_ne (hu : u ∈ db.users) (hne : u.address ≠ row.address) :
    u ∈ (setUser db row).users := by
  have himage := Table.update_of_mem hu (·.address == row.address)
    (fun u => { row with address := u.address }) (fun _ => rfl)
  rw [if_neg (by simpa using hne)] at himage
  exact himage

theorem Erased.setUser (h : Erased db a) (hne : row.address ≠ a) :
    Erased (Kryptolog.Server.setUser db row) a := by
  obtain ⟨u, hu, rfl, hactive, hblocked⟩ := h
  exact ⟨u, mem_setUser_of_ne hu (Ne.symm hne), rfl, hactive, hblocked⟩

/-- A login refuses an erased account. -/
theorem upsertIdentity_erased {admitted : Bool} {req : LoginRequest}
    (hfree : CollisionFree prim seen) (hdb : ∀ u ∈ db.users, Known prim seen u)
    (hver : VerifiedLogin prim req address) (hreq : req.identityPublicKey ∈ seen)
    (h : upsertIdentity prim db now admitted req address = .ok (db', row)) (he : Erased db a) :
    Erased db' a := by
  unfold upsertIdentity at h
  split at h
  · simp only [bind_eq_ok] at h
    obtain ⟨name, -, row', -, -, -, -, -, h⟩ := h
    cases h
    obtain ⟨u, hu, hrest⟩ := he
    exact ⟨u, Table.mem_insert_of_mem hu, hrest⟩
  · rename_i u₀ hfind
    obtain ⟨hmem, haddress⟩ := findUser_mem hfind
    split at h
    · simp only [bind_eq_ok, checkRow_eq_ok, refuseIf_eq_ok] at h
      obtain ⟨-, hmay, name, -, row', hrow, -, hchecks, -, -, h⟩ := h
      cases h
      refine he.setUser fun ha => ?_
      have hrowAddress := (revivedRow_known haddress hver hreq hrow hchecks).2
      have hblocked := (he.inactive hmem (haddress.trans (hrowAddress.symm.trans ha))).2
      simp [mayRegister, hblocked] at hmay
    · rename_i hactive
      simp only [bind_eq_ok, checkRow_eq_ok] at h
      obtain ⟨row', hrow, -, hchecks, h⟩ := h
      cases h
      refine he.setUser fun ha => ?_
      have hrowAddress := (updatedRow_known hfree (hdb u₀ hmem) haddress hver hreq hrow hchecks).2
      have hinactive := (he.inactive hmem (haddress.trans (hrowAddress.symm.trans ha))).1
      simp [User.active] at hinactive
      simp [hinactive] at hactive

/-- An erased account stays erased. -/
theorem DirectoryStep.erased {e : DirectoryEvent} (hfree : CollisionFree prim seen)
    (hkey : ∀ key, e.identityKey = some key → key ∈ seen)
    (hd : ∀ u ∈ d.users, Known prim seen u) (h : DirectoryStep prim cfg d e d')
    (he : Erased d.toDatabase a) : Erased d'.toDatabase a := by
  cases e with
  | elsewhere =>
    rw [Erased, h.1]
    exact he
  | call c =>
    obtain ⟨now, token, request⟩ := c
    subst h
    cases request with
    | getNonce address value =>
      rw [Erased]
      simp only [serveDirectory, getNonce_users]
      exact he
    | login admitted req =>
      simp only [serveDirectory, login]
      split
      · exact he
      · unfold transaction
        split
        · rename_i db' tok hok
          simp only [bind_eq_ok] at hok
          obtain ⟨_, hpayload, ⟨db₁, row⟩, hupsert, hok⟩ := hok
          cases hok
          have hclaimed : ∀ u ∈ (claimNonce d.toDatabase now (lower req.address) req.nonce).1.users,
              Known prim seen u := hd
          exact upsertIdentity_erased hfree hclaimed (verified_of_payload hpayload) (hkey _ rfl)
            hupsert he
        · exact he
    | logout =>
      simp only [serveDirectory]
      split
      · exact he
      · rename_i caller hcaller
        obtain ⟨u, hu, ha, hactive, hblocked⟩ := he
        have himage := Table.update_of_mem hu (·.address == caller.address)
          (fun u => { u with tokenVersion := caller.tokenVersion + 1 }) (fun _ => rfl)
        split at himage
        · exact ⟨_, himage, ha, hactive, hblocked⟩
        · exact ⟨_, himage, ha, hactive, hblocked⟩
    | rotate req =>
      simp only [serveDirectory]
      split
      · exact he
      · rename_i caller hcaller
        obtain ⟨hmem, -, hactive⟩ := getCurrentUser_ok hcaller
        simp only [serveCaller]
        cases hrot : rotate prim d now caller req with
        | error fault => exact he
        | ok d₁ =>
          obtain ⟨oldKid, newKid, row, -, hset, -, rfl⟩ := rotate_ok hrot
          refine he.setUser fun ha => ?_
          have hinactive := (he.inactive hmem ((setEncryptionKey_rest hset).1.symm.trans ha)).1
          rw [hactive] at hinactive
          cases hinactive
    | deleteAccount mode req =>
      simp only [serveDirectory]
      split
      · exact he
      · rename_i caller hcaller
        have hmoves : Moves prim.toPrimitives (fun _ => True) d.toDatabase
            (performDeletion prim.toPrimitives cfg d.toDatabase now caller mode req).1 :=
          performDeletion_moves mode req
        exact hmoves.erased he

end erased

/-! ## What was accepted -/

section replay

variable {prim : KeyPrimitives} {cfg : Config} {d d' : Directory} {a : Address}
  {req : KeyRotationRequest} {seen : Set String}

/-- The request was accepted as a rotation from `oldKid`. -/
structure SignedFrom (prim : KeyPrimitives) (seen : Set String) (a : Address)
    (req : KeyRotationRequest) (oldKid : String) : Prop where
  intro ::
  signed : ∃ newKid body, encryptionKeyId prim req.encryptionPublicKey = .ok newKid ∧
    keyRotationMessage a.text oldKid newKid req.ts = .ok body ∧
    ∃ key ∈ seen, addressOf prim key = some a.text ∧ key.toList.length = 4098 ∧
      prim.verifyIdentitySignature key body req.signature = true

/-- The rotation is on record, or its account is erased. -/
def Remembered (prim : KeyPrimitives) (seen : Set String) (d : Directory) (a : Address)
    (req : KeyRotationRequest) : Prop :=
  (∃ r ∈ d.rotations, r.userAddress = a ∧ r.ts = req.ts ∧ r.signature = req.signature ∧
    SignedFrom prim seen a req r.oldKid) ∨ Erased d.toDatabase a

theorem body_of_keyRotationMessage {address oldKid newKid body : String} {ts : ℕ}
    (h : keyRotationMessage address oldKid newKid ts = .ok body) :
    body = domainSeparate "key-rotation"
      (s!"address={address}\nold-kid={oldKid}\nnew-kid={newKid}\nnew-alg={kemAlg}" ++
        s!"\nts={ts}") := by
  simp only [keyRotationMessage, bind_eq_ok] at h
  obtain ⟨-, -, -, -, -, -, h⟩ := h
  injection h with h
  exact h.symm

/-- The body of a rotation names the key that it starts from. -/
theorem oldKid_of_body {address oldKid oldKid' newKid body : String} {ts : ℕ}
    (h : keyRotationMessage address oldKid newKid ts = .ok body)
    (h' : keyRotationMessage address oldKid' newKid ts = .ok body) : oldKid = oldKid' := by
  have hsame := (body_of_keyRotationMessage h).symm.trans (body_of_keyRotationMessage h')
  have hfields := (String.append_right_inj _).mp hsame
  have hfields := (String.append_left_inj _).mp hfields
  have hfields := (String.append_left_inj _).mp hfields
  have hfields := (String.append_left_inj _).mp hfields
  have hfields := (String.append_left_inj _).mp hfields
  have hfields := (String.append_left_inj _).mp hfields
  exact (String.append_right_inj _).mp hfields

/-- Two rotations that one request was accepted as start from one key. -/
theorem SignedFrom.unique {oldKid oldKid' : String} (hfree : CollisionFree prim seen)
    (hbind : BindsBody prim.toPrimitives) (h : SignedFrom prim seen a req oldKid)
    (h' : SignedFrom prim seen a req oldKid') : oldKid = oldKid' := by
  obtain ⟨newKid, body, hnew, hbody, key, hkey, haddress, hlength, hver⟩ := h.signed
  obtain ⟨newKid', body', hnew', hbody', key', hkey', haddress', hlength', hver'⟩ := h'.signed
  obtain rfl : newKid = newKid' := Except.ok.inj (hnew.symm.trans hnew')
  have hhash : prim.sha384OfKey addressDomain key = prim.sha384OfKey addressDomain key' := by
    rw [addressOf_eq_some haddress hlength.le, addressOf_eq_some haddress' hlength'.le]
  obtain rfl : key = key' := hfree key hkey key' hkey' hhash
  obtain rfl : body = body' := hbind key body body' req.signature hver hver'
  exact oldKid_of_body hbody hbody'

/-- What an accepted rotation was signed from. -/
theorem signedFrom_of_rotated {now : Time} {caller : User} {oldKid newKid : String}
    (hcaller : Known prim seen caller) (h : Rotated prim now caller req oldKid newKid) :
    SignedFrom prim seen caller.address req oldKid := by
  obtain ⟨body, hbody, hver⟩ := h.signed
  exact ⟨newKid, body, h.new, hbody, caller.identityPublicKey, hcaller.known, hcaller.identity,
    hcaller.length, hver⟩

theorem acceptedRotation_eq_some {e : DirectoryEvent}
    (h : acceptedRotation prim d e = some (a, req)) :
    ∃ now token caller d₁, e = .call ⟨now, token, .rotate req⟩ ∧
      getCurrentUser d.toDatabase token = .ok caller ∧ caller.address = a ∧
      rotate prim d now caller req = .ok d₁ := by
  unfold acceptedRotation at h
  split at h
  · rename_i now token req'
    split at h
    · cases h
    · rename_i caller hcaller
      split at h
      · cases h
      · rename_i d₁ hrot
        cases h
        exact ⟨now, token, caller, d₁, rfl, hcaller, rfl, hrot⟩
  · cases h

/-- A record goes only with the erase of its account. -/
theorem DirectoryStep.rotations {e : DirectoryEvent} {r : EncryptionKeyRotation}
    (h : DirectoryStep prim cfg d e d') (hr : r ∈ d.rotations) :
    r ∈ d'.rotations ∨ Erased d'.toDatabase r.userAddress := by
  cases e with
  | elsewhere => exact .inl (h.2 ▸ hr)
  | call c =>
    obtain ⟨now, token, request⟩ := c
    subst h
    cases request with
    | getNonce | login => exact .inl hr
    | logout =>
      simp only [serveDirectory]
      split
      · exact .inl hr
      · exact .inl hr
    | rotate req =>
      simp only [serveDirectory]
      split
      · exact .inl hr
      · rename_i caller hcaller
        simp only [serveCaller]
        cases hrot : rotate prim d now caller req with
        | error fault => exact .inl hr
        | ok d₁ =>
          obtain ⟨oldKid, newKid, row, -, -, -, rfl⟩ := rotate_ok hrot
          exact .inl (Serial.mem_insert.mpr (.inl hr))
    | deleteAccount mode req =>
      simp only [serveDirectory]
      split
      · exact .inl hr
      · rename_i caller hcaller
        have hmem := (getCurrentUser_ok hcaller).1
        simp only [serveCaller]
        cases hdel : performDeletion prim.toPrimitives cfg d.toDatabase now caller mode req with
        | mk db' answer =>
          cases answer with
          | error fault => exact .inl hr
          | ok response =>
            simp only [dropRotations]
            by_cases herase : mode = .erase ∧ response.status = .deleted
            · rw [if_pos herase]
              obtain ⟨rfl, hdeleted⟩ := herase
              by_cases ha : r.userAddress = caller.address
              · exact .inr (ha ▸ erased_of_performDeletion hmem hdel hdeleted)
              · exact .inl (Serial.mem_delete.mpr ⟨hr, by simpa using ha⟩)
            · rw [if_neg herase]
              exact .inl hr

/-- What the log and the directory agree on. -/
structure LogConsistent (prim : KeyPrimitives) (seen : Set String) (s : Logged) : Prop where
  known : ∀ u ∈ s.directory.users, Known prim seen u
  remembered : ∀ x ∈ s.accepted, Remembered prim seen s.directory x.1 x.2
  nodup : s.accepted.Nodup

theorem Remembered.step {e : DirectoryEvent} (hfree : CollisionFree prim seen)
    (hkey : ∀ key, e.identityKey = some key → key ∈ seen)
    (hd : ∀ u ∈ d.users, Known prim seen u) (hstep : DirectoryStep prim cfg d e d')
    (h : Remembered prim seen d a req) : Remembered prim seen d' a req := by
  rcases h with ⟨r, hr, rfl, hrest⟩ | he
  · rcases hstep.rotations hr with hr' | he
    · exact .inl ⟨r, hr', rfl, hrest⟩
    · exact .inr he
  · exact .inr (hstep.erased hfree hkey hd he)

/-- A request that is on record is not accepted while another key is served. -/
theorem not_remembered_of_accepted {e : DirectoryEvent} (hfree : CollisionFree prim seen)
    (hbind : BindsBody prim.toPrimitives) (hd : ∀ u ∈ d.users, Known prim seen u)
    (hserves : ServesAnotherKey d e) (h : acceptedRotation prim d e = some (a, req)) :
    ¬ Remembered prim seen d a req := by
  obtain ⟨now, token, caller, d₁, rfl, hcaller, rfl, hrot⟩ := acceptedRotation_eq_some h
  obtain ⟨oldKid, newKid, row, hrotated, -⟩ := rotate_ok hrot
  obtain ⟨hmem, -, hactive⟩ := getCurrentUser_ok hcaller
  rintro (⟨r, hr, ha, hts, hsig, hfrom⟩ | he)
  · have hsame := hfrom.unique hfree hbind (signedFrom_of_rotated (hd caller hmem) hrotated)
    refine hserves caller hcaller hrotated.recent r hr ha hts hsig ?_
    rw [hsame]
    exact hrotated.served
  · have hinactive := (he.inactive hmem rfl).1
    rw [hactive] at hinactive
    cases hinactive

/-- An accepted rotation is on record. -/
theorem remembered_of_accepted {e : DirectoryEvent} (hd : ∀ u ∈ d.users, Known prim seen u)
    (hstep : DirectoryStep prim cfg d e d') (h : acceptedRotation prim d e = some (a, req)) :
    Remembered prim seen d' a req := by
  obtain ⟨now, token, caller, d₁, rfl, hcaller, rfl, hrot⟩ := acceptedRotation_eq_some h
  have hmem := (getCurrentUser_ok hcaller).1
  have hserve : d' = d₁ := by
    rw [← show serveDirectory prim cfg d ⟨now, token, .rotate req⟩ = d' from hstep]
    simp only [serveDirectory, hcaller, serveCaller, hrot]
    rfl
  obtain ⟨oldKid, newKid, row, hrotated, -, -, rfl⟩ := rotate_ok hrot
  subst hserve
  exact .inl ⟨_, Serial.mem_insert.mpr (.inr rfl), rfl, rfl, rfl,
    signedFrom_of_rotated (hd caller hmem) hrotated⟩

theorem LogConsistent.step {s s' : Logged} {e : DirectoryEvent} (hfree : CollisionFree prim seen)
    (hbind : BindsBody prim.toPrimitives) (hkey : ∀ key, e.identityKey = some key → key ∈ seen)
    (hs : LogConsistent prim seen s) (hserves : ServesAnotherKey s.directory e)
    (h : LoggedStep prim cfg s e s') : LogConsistent prim seen s' := by
  obtain ⟨hstep, haccepted⟩ := h
  have hold : ∀ x ∈ s.accepted, Remembered prim seen s'.directory x.1 x.2 :=
    fun x hx => (hs.remembered x hx).step hfree hkey hs.known hstep
  refine ⟨hstep.known hfree hkey hs.known, ?_, ?_⟩
  · intro x hx
    rw [haccepted, List.mem_append, Option.mem_toList] at hx
    rcases hx with hx | hx
    · exact hold x hx
    · exact remembered_of_accepted hs.known hstep hx
  · rw [haccepted, List.nodup_append]
    refine ⟨hs.nodup, ?_, ?_⟩
    · cases acceptedRotation prim s.directory e with
      | none => exact List.nodup_nil
      | some x => exact List.nodup_singleton x
    rintro x hx y hy rfl
    rw [Option.mem_toList] at hy
    exact not_remembered_of_accepted hfree hbind hs.known hserves hy (hs.remembered x hx)

end replay

/-- In a run in which no rotation comes in while the key is served that its earlier copy replaced,
no rotation is accepted twice. -/
theorem rotation_single_use {prim : KeyPrimitives} {cfg : Config} {d₀ : Directory}
    {events : List DirectoryEvent} {s : Logged} (hstart : ∀ u ∈ d₀.users, Consistent prim u)
    (hfree : CollisionFree prim (identityKeys d₀ events)) (hbind : BindsBody prim.toPrimitives)
    (hrun : Run (restrict (fun s e => ServesAnotherKey s.directory e) (LoggedStep prim cfg))
      ⟨d₀, []⟩ events s) : s.accepted.Nodup := by
  have hgood : LogConsistent prim (identityKeys d₀ events) s := by
    refine hrun.restrict_mem.invariant ?_ ?_
    · intro s e s' hs hstep
      exact hs.step hfree hbind (fun key hkey => .inr ⟨e, hstep.1, hkey⟩) hstep.2.1 hstep.2.2
    · exact ⟨fun u hu => ⟨hstart u hu, .inl ⟨u, hu, rfl⟩⟩, by simp, List.nodup_nil⟩
  exact hgood.nodup

/-! ## A replay -/

def sampleRotationBody (c c' : Char) : String :=
  let (address, old, new) := (sampleText 96 '1', sampleText 32 c, sampleText 32 c')
  domainSeparate "key-rotation"
    (s!"address={address}\nold-kid={old}\nnew-kid={new}\nnew-alg={kemAlg}" ++ s!"\nts={0}")

/-- The rotation of the sample identity from one key to another. -/
def sampleRotation (c c' : Char) : KeyRotationRequest where
  encryptionPublicKey := sampleKey c'
  encryptionKeyAttestation := sampleAttestation (sampleKey c')
  ts := 0
  signature := sampleIdentity ++ sampleRotationBody c c'

def sampleRecord (c c' : Char) (id : ℕ) : EncryptionKeyRotation :=
  ⟨id, (sampleServed c none).address, sampleText 32 c, sampleText 32 c', kemAlg, 0,
    (sampleRotation c c').signature⟩

theorem sampleText_ne {n : ℕ} {c c' : Char} (hne : c ≠ c') : sampleText (n + 1) c ≠ sampleText (n + 1) c' := by
  intro h
  have hlists := congrArg String.toList h
  rw [toList_sampleText, toList_sampleText, List.replicate_succ, List.replicate_succ] at hlists
  exact hne (List.cons.inj hlists).1

theorem sampleKey_ne {c c' : Char} (hne : c ≠ c') : sampleKey c ≠ sampleKey c' := by
  intro h
  have hlists := congrArg String.toList h
  rw [toList_sampleKey, toList_sampleKey] at hlists
  have hrest := (List.cons.inj (List.cons.inj hlists).2).2
  exact hne (List.cons.inj hrest).1

section sample

variable {c c' : Char} {t : Option Time} {T : Serial EncryptionKeyRotation}

theorem textPresent_sampleKey : textPresent (some (sampleKey c)) = true := by
  refine textPresent_iff.mpr ⟨_, rfl, fun h => ?_⟩
  have hlists := congrArg String.toList h
  rw [toList_sampleKey] at hlists
  cases hlists

theorem textPresent_sampleText (n : ℕ) : textPresent (some (sampleText (n + 1) c)) = true := by
  refine textPresent_iff.mpr ⟨_, rfl, fun h => ?_⟩
  have hlists := congrArg String.toList h
  rw [toList_sampleText] at hlists
  cases hlists

theorem isValidEncryptionKey_sample (hhex : isLowerHexDigit c = true) :
    isValidEncryptionKey sampleKeyPrimitives (sampleKey c) = true := by
  have hpoint : isValidP384Point sampleKeyPrimitives ((sampleKey c).toList.take (2 * 97)) = true := by
    rw [toList_sampleKey, isValidP384Point, List.take_succ_cons, List.take_succ_cons,
      List.take_replicate]
    rfl
  rw [isValidEncryptionKey, matchHex_sampleKey hhex, hexBytes_of_all (all_sampleKey hhex), hpoint]
  rfl

/-- The checks of a rotation, passed. -/
theorem verifyRotation_eq_ok {prim : KeyPrimitives} {now : Time} {u : User}
    {req : KeyRotationRequest} {oldKid newKid : String}
    (hkey : textPresent u.encryptionPublicKey = true)
    (hkid : textPresent u.encryptionKeyId = true)
    (hvalid : isValidEncryptionKey prim req.encryptionPublicKey = true)
    (hother : u.encryptionPublicKey ≠ some req.encryptionPublicKey)
    (h : Rotated prim now u req oldKid newKid) :
    verifyRotation prim now u req = .ok (oldKid, newKid) := by
  obtain ⟨body, hbody, hsigned⟩ := h.signed
  have hrecent : decide (rotationClockSkew < ((now : ℤ) - req.ts).natAbs) = false :=
    decide_eq_false (Nat.not_lt.mpr h.recent)
  have hother' : (u.encryptionPublicKey == some req.encryptionPublicKey) = false :=
    beq_eq_false_iff_ne.mpr hother
  have hgetD : u.encryptionKeyId.getD "" = oldKid := by
    rw [h.served]
    rfl
  simp only [verifyRotation, hkey, hkid, hvalid, hother', hrecent, h.attested, h.new, hgetD, hbody,
    hsigned, refuseIf, bind, Except.bind, Bool.not_true, Bool.or_self, Bool.false_eq_true, if_false]

theorem rotate_eq_ok {prim : KeyPrimitives} {d : Directory} {now : Time} {u row : User}
    {req : KeyRotationRequest} {oldKid newKid : String} (hactive : u.active = true)
    (hver : verifyRotation prim now u req = .ok (oldKid, newKid))
    (hset : setEncryptionKey prim u (some req.encryptionPublicKey)
      (some req.encryptionKeyAttestation) = .ok row)
    (hchecks : ({ row with keyChangedAt := some now } : User).checks = true) :
    rotate prim d now u req = .ok { d with
      toDatabase := setUser d.toDatabase { row with keyChangedAt := some now }
      rotations := d.rotations.insert
        (fun id => ⟨id, u.address, oldKid, newKid, kemAlg, req.ts, req.signature⟩)
        (fun _ => rfl) } := by
  simp only [rotate, hactive, hver, hset, checkRow, hchecks, refuseIf, bind, Except.bind,
    Bool.not_true, Bool.false_eq_true, if_false]

theorem rotated_sample (hc : isLowerHexDigit c = true) (hc' : isLowerHexDigit c' = true)
    (hne : c ≠ c') : Rotated sampleKeyPrimitives 0 (sampleServed c t) (sampleRotation c c')
      (sampleText 32 c) (sampleText 32 c') where
  served := rfl
  recent := Nat.zero_le _
  attested := verifyAttestation_sample (isHex_sampleKey hc')
  new := encryptionKeyId_sample hc'
  signed := by
    have hold : isValidKeyId (sampleText 32 c) = true := matchHex_replicate 32 hc
    have hnew : isValidKeyId (sampleText 32 c') = true := matchHex_replicate 32 hc'
    have hkids : (sampleText 32 c == sampleText 32 c') = false :=
      beq_eq_false_iff_ne.mpr (sampleText_ne hne)
    refine ⟨_, ?_, beq_self_eq_true _⟩
    change keyRotationMessage (sampleText 96 '1') (sampleText 32 c) (sampleText 32 c') 0 = _
    simp only [keyRotationMessage, isValidAddress_sample, hold, hnew, hkids, refuseIf, bind,
      Except.bind, Bool.not_true, Bool.and_self, Bool.or_self, Bool.false_eq_true, if_false]
    rfl

theorem checks_sampleServed (hc : isLowerHexDigit c = true) : (sampleServed c t).checks = true := by
  have haddress : hexColumn 96 (sampleText 96 '1') = true := by
    rw [hexColumn, toList_sampleText, List.length_replicate, List.all_replicate]
    rfl
  have hkid : hexColumn 32 (sampleText 32 c) = true := by
    rw [hexColumn, toList_sampleText, List.length_replicate, List.all_replicate, hc]
    rfl
  have hkey : (sampleKey c).toList.length = 2562 := by
    rw [toList_sampleKey, List.length_cons, List.length_cons, List.length_replicate]
  simp only [User.checks, sampleServed, haddress, hkid, hkey, length_sampleIdentity,
    beq_self_eq_true, Bool.and_self]

theorem setEncryptionKey_sample (hc' : isLowerHexDigit c' = true) :
    setEncryptionKey sampleKeyPrimitives (sampleServed c t)
      (some (sampleRotation c c').encryptionPublicKey)
      (some (sampleRotation c c').encryptionKeyAttestation) = .ok (sampleServed c' t) := by
  have hnew : encryptionKeyId sampleKeyPrimitives ((some (sampleKey c')).getD "") =
      .ok (sampleText 32 c') := encryptionKeyId_sample hc'
  change setEncryptionKey sampleKeyPrimitives (sampleServed c t) (some (sampleKey c'))
    (some (sampleAttestation (sampleKey c'))) = .ok (sampleServed c' t)
  rw [setEncryptionKey, if_pos textPresent_sampleKey, hnew]
  rfl

theorem verifyRotation_sample (hc : isLowerHexDigit c = true) (hc' : isLowerHexDigit c' = true)
    (hne : c ≠ c') : verifyRotation sampleKeyPrimitives 0 (sampleServed c t) (sampleRotation c c') =
      .ok (sampleText 32 c, sampleText 32 c') := by
  have hkey : textPresent (sampleServed c t).encryptionPublicKey = true := textPresent_sampleKey
  have hkid : textPresent (sampleServed c t).encryptionKeyId = true := textPresent_sampleText 31
  have hvalid : isValidEncryptionKey sampleKeyPrimitives (sampleRotation c c').encryptionPublicKey =
      true := isValidEncryptionKey_sample hc'
  have hother : (sampleServed c t).encryptionPublicKey ≠
      some (sampleRotation c c').encryptionPublicKey :=
    fun h => sampleKey_ne hne (Option.some.inj h)
  exact verifyRotation_eq_ok hkey hkid hvalid hother (rotated_sample hc hc' hne)

theorem rotate_sample (hc : isLowerHexDigit c = true) (hc' : isLowerHexDigit c' = true)
    (hne : c ≠ c') :
    rotate sampleKeyPrimitives (sampleDirectory c t T) 0 (sampleServed c t) (sampleRotation c c') =
      .ok (sampleDirectory c' (some 0) (T.insert (sampleRecord c c') (fun _ => rfl))) := by
  have hchecks : ({ sampleServed c' t with keyChangedAt := some 0 } : User).checks = true :=
    checks_sampleServed hc'
  have hrow : (if (sampleServed c t).address == (sampleServed c' t).address then
      ({ sampleServed c' (some 0) with address := (sampleServed c t).address } : User)
      else sampleServed c t) = sampleServed c' (some 0) :=
    if_pos (beq_self_eq_true (sampleServed c t).address)
  have husers : (setUser (sampleDirectory c t T).toDatabase
      { sampleServed c' t with keyChangedAt := some 0 }).users =
        (sampleDirectory c' (some 0) T).users :=
    Table.ext (congrArg (fun u => [u]) hrow)
  rw [rotate_eq_ok rfl (verifyRotation_sample hc hc' hne) (setEncryptionKey_sample hc') hchecks]
  refine congrArg Except.ok ?_
  exact congrArg (fun users => ({
    __ := Database.empty
    users := users
    rotations := _ } : Directory)) husers

/-- The sample identity asks for a rotation. -/
def sampleRotate (c c' : Char) : DirectoryEvent :=
  .call ⟨0, ⟨sampleText 96 '1', 0⟩, .rotate (sampleRotation c c')⟩

theorem getCurrentUser_sample : getCurrentUser (sampleDirectory c t T).toDatabase
    ⟨sampleText 96 '1', 0⟩ = .ok (sampleServed c t) :=
  getCurrentUser_of_active (u := sampleServed c t) (List.mem_singleton_self _) rfl

theorem loggedStep_sample {cfg : Config} (hc : isLowerHexDigit c = true)
    (hc' : isLowerHexDigit c' = true) (hne : c ≠ c') (log : List (Address × KeyRotationRequest)) :
    LoggedStep sampleKeyPrimitives cfg ⟨sampleDirectory c t T, log⟩ (sampleRotate c c')
      ⟨sampleDirectory c' (some 0) (T.insert (sampleRecord c c') (fun _ => rfl)),
        log ++ [((sampleServed '2' none).address, sampleRotation c c')]⟩ := by
  have hrot := rotate_sample (t := t) (T := T) hc hc' hne
  constructor
  · change serveDirectory sampleKeyPrimitives cfg (sampleDirectory c t T) _ = _
    simp only [serveDirectory, getCurrentUser_sample, serveCaller, hrot]
    rfl
  · change log ++ _ = log ++ (acceptedRotation sampleKeyPrimitives (sampleDirectory c t T)
      (sampleRotate c c')).toList
    simp only [acceptedRotation, sampleRotate, getCurrentUser_sample, hrot]
    rfl

end sample

theorem bindsBody_sample : BindsBody sampleKeyPrimitives.toPrimitives := by
  intro key body body' signature h h'
  have hbody : signature = key ++ body := beq_iff_eq.mp h
  have hbody' : signature = key ++ body' := beq_iff_eq.mp h'
  exact (String.append_right_inj key).mp (hbody.symm.trans hbody')

theorem rotation_single_use_sample : ∃ s,
    Run (restrict (fun s e => ServesAnotherKey s.directory e)
      (LoggedStep sampleKeyPrimitives sampleConfig)) ⟨sampleDirectory '2' none .empty, []⟩
        [sampleRotate '2' '3'] s ∧
      s.accepted = [((sampleServed '2' none).address, sampleRotation '2' '3')] ∧
      s.accepted.Nodup := by
  have hserves : ServesAnotherKey (sampleDirectory '2' none .empty) (sampleRotate '2' '3') := by
    intro caller hcaller hrecent r hr
    cases hr
  have hrun : Run (restrict (fun s e => ServesAnotherKey s.directory e)
    (LoggedStep sampleKeyPrimitives sampleConfig)) ⟨sampleDirectory '2' none .empty, []⟩
      [sampleRotate '2' '3'] _ :=
    .single ⟨hserves, loggedStep_sample (by decide) (by decide) (by decide) []⟩
  refine ⟨_, hrun, rfl, rotation_single_use consistent_sampleDirectory (identityKeys_sample ?_)
    bindsBody_sample hrun⟩
  intro e he
  obtain rfl : e = sampleRotate '2' '3' := List.mem_singleton.mp he
  rfl

/-- The key goes from the first to the second and back, and the first request is accepted again. -/
theorem rotation_replayed : ¬ ∀ (prim : KeyPrimitives) (cfg : Config) (d₀ : Directory)
    (events : List DirectoryEvent) (s : Logged), (∀ u ∈ d₀.users, Consistent prim u) →
      CollisionFree prim (identityKeys d₀ events) → BindsBody prim.toPrimitives →
        Run (LoggedStep prim cfg) ⟨d₀, []⟩ events s → s.accepted.Nodup := by
  intro h
  have hrun : Run (LoggedStep sampleKeyPrimitives sampleConfig)
      ⟨sampleDirectory '2' none .empty, []⟩
      [sampleRotate '2' '3', sampleRotate '3' '2', sampleRotate '2' '3'] _ :=
    .cons (loggedStep_sample (by decide) (by decide) (by decide) [])
      (.cons (loggedStep_sample (by decide) (by decide) (by decide) _)
        (.single (loggedStep_sample (by decide) (by decide) (by decide) _)))
  have hnodup := h _ _ _ _ _ consistent_sampleDirectory (identityKeys_sample ?_) bindsBody_sample hrun
  · simp at hnodup
  · intro e he
    have hrotate : e = sampleRotate '2' '3' ∨ e = sampleRotate '3' '2' := by
      simp only [List.mem_cons, List.not_mem_nil, or_false] at he
      rcases he with rfl | rfl | rfl
      · exact .inl rfl
      · exact .inr rfl
      · exact .inl rfl
    rcases hrotate with rfl | rfl
    · rfl
    · rfl

end Kryptolog.Server
