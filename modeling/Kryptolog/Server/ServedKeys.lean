import Kryptolog.Server.DirectoryIntegrity

/-! # Whose requests change the served key

The directory serves one encryption key for an address, or none. A login and a rotation of that
address put another one in its place, a deletion takes it away, and nothing else touches it.
-/

namespace Kryptolog.Server
set_option autoImplicit false

open Tables Json Fallible

/-- The directory answers with this encryption key for the address. -/
def Serves (d : Directory) (a : Address) (key : String) : Prop :=
  ∃ u ∈ d.users, u.address = a ∧ u.encryptionPublicKey = some key

/-- A request that brings an encryption key for the address. -/
def DirectoryRequest.Publishes (token : Token) (a : Address) (key : String) : DirectoryRequest → Prop
  | login _ req => lower req.address = a ∧ req.encryptionPublicKey = some key
  | rotate req => lower token.sub = a ∧ req.encryptionPublicKey = key
  | _ => False

def DirectoryEvent.Publishes (a : Address) (key : String) : DirectoryEvent → Prop
  | call c => c.request.Publishes c.token a key
  | elsewhere => False

section steps

variable {prim : KeyPrimitives} {cfg : Config} {d d' : Directory} {db : Database} {now : Time}
  {u row caller : User} {a : Address} {key : String} {token : Token}

theorem setEncryptionKey_key {key attestation : Option String}
    (h : setEncryptionKey prim u key attestation = .ok row) : row.encryptionPublicKey = key := by
  unfold setEncryptionKey at h
  split at h
  · obtain ⟨kid, -, hrow⟩ := bind_eq_ok.mp h
    cases hrow
    rfl
  · cases h
    rfl

/-- The row that a login of an active account leaves has the key of the request, or the one it had. -/
theorem updatedRow_key {req : LoginRequest} (h : updatedRow prim now req u = .ok row) :
    row.address = u.address ∧ (row.encryptionPublicKey = req.encryptionPublicKey ∨
      row.encryptionPublicKey = u.encryptionPublicKey) := by
  unfold updatedRow at h
  split at h
  · exact ⟨(setEncryptionKey_rest h).1, .inl (setEncryptionKey_key h)⟩
  · split at h <;> cases h <;> exact ⟨rfl, .inr rfl⟩

theorem revivedRow_key {req : LoginRequest} {username : String}
    (h : revivedRow prim now req username u = .ok row) :
    row.address = u.address ∧ row.encryptionPublicKey = req.encryptionPublicKey := by
  obtain ⟨keyed, hset, hrow⟩ := bind_eq_ok.mp h
  have hkey : keyed.encryptionPublicKey = req.encryptionPublicKey := setEncryptionKey_key hset
  cases hrow
  exact ⟨(setEncryptionKey_rest hset).1, hkey⟩

theorem upsertIdentity_serves {db' : Database} {admitted : Bool} {req : LoginRequest} {address : Address}
    (h : upsertIdentity prim db now admitted req address = .ok (db', row)) (hu : u ∈ db'.users)
    (hkey : u.encryptionPublicKey = some key) :
    (∃ u₀ ∈ db.users, u₀.address = u.address ∧ u₀.encryptionPublicKey = some key) ∨
      address = u.address ∧ req.encryptionPublicKey = some key := by
  unfold upsertIdentity at h
  split at h
  · simp only [bind_eq_ok, checkRow_eq_ok] at h
    obtain ⟨name, -, row', hrow, -, -, -, -, h⟩ := h
    cases h
    rcases Table.mem_insert hu with hu | rfl
    · exact .inl ⟨u, hu, rfl, hkey⟩
    · exact .inr ⟨(setEncryptionKey_rest hrow).1.symm, (setEncryptionKey_key hrow).symm.trans hkey⟩
  · next u₀ hfind =>
    obtain ⟨hmem, haddress⟩ := findUser_mem hfind
    split at h
    · simp only [bind_eq_ok, checkRow_eq_ok] at h
      obtain ⟨-, -, name, -, row', hrow, -, -, -, -, h⟩ := h
      cases h
      obtain ⟨hrest, hnew⟩ := revivedRow_key hrow
      rcases mem_setUser hu with hu | rfl
      · exact .inl ⟨u, hu, rfl, hkey⟩
      · exact .inr ⟨(hrest.trans haddress).symm, hnew.symm.trans hkey⟩
    · simp only [bind_eq_ok, checkRow_eq_ok] at h
      obtain ⟨row', hrow, -, -, h⟩ := h
      cases h
      obtain ⟨hrest, hnew⟩ := updatedRow_key hrow
      rcases mem_setUser hu with hu | rfl
      · exact .inl ⟨u, hu, rfl, hkey⟩
      · rcases hnew with hnew | hnew
        · exact .inr ⟨(hrest.trans haddress).symm, hnew.symm.trans hkey⟩
        · exact .inl ⟨u₀, hmem, hrest.symm, hnew.symm.trans hkey⟩

theorem login_serves {admitted : Bool} {req : LoginRequest}
    (hu : u ∈ (login prim cfg db now admitted req).1.users) (hkey : u.encryptionPublicKey = some key) :
    (∃ u₀ ∈ db.users, u₀.address = u.address ∧ u₀.encryptionPublicKey = some key) ∨
      lower req.address = u.address ∧ req.encryptionPublicKey = some key := by
  simp only [login] at hu
  split at hu
  · exact .inl ⟨u, hu, rfl, hkey⟩
  · unfold transaction at hu
    split at hu
    · next db' granted h =>
      simp only [bind_eq_ok] at h
      obtain ⟨-, -, ⟨db₁, row⟩, hupsert, h⟩ := h
      cases h
      -- the challenge that is spent first leaves the users as they are
      have hserves := upsertIdentity_serves hupsert hu hkey
      exact hserves
    · exact .inl ⟨u, hu, rfl, hkey⟩

theorem performDeletion_serves {mode : Mode} {req : EraseRequest}
    (hu : u ∈ (performDeletion prim.toPrimitives cfg db now caller mode req).1.users)
    (hkey : u.encryptionPublicKey = some key) : u ∈ db.users := by
  have hmoves : Moves prim.toPrimitives (fun _ => True) db
      (performDeletion prim.toPrimitives cfg db now caller mode req).1 :=
    performDeletion_moves mode req
  -- a row that a deletion writes has no key left
  refine hmoves.invariant (I := fun db' => ∀ u ∈ db'.users, u.encryptionPublicKey = some key → u ∈ db.users)
    ?_ (fun u hu _ => hu) u hu hkey
  intro db₁ db₂ hkept hmove u hu hkey
  rcases hmove.mem_users hu with hu | ⟨mode, now, u₀, -, rfl⟩
  · exact hkept u hu hkey
  · cases hkey

theorem serveCaller_serves {request : DirectoryRequest}
    (ha : caller.address = lower token.sub) (h : Serves (serveCaller prim cfg d now caller request) a key) :
    Serves d a key ∨ request.Publishes token a key := by
  obtain ⟨u, hu, rfl, hkey⟩ := h
  cases request with
  | getNonce | login => exact .inl ⟨u, hu, rfl, hkey⟩
  | logout =>
    obtain ⟨u₀, hu₀, rfl⟩ := List.mem_map.mp (Table.mem_rows.mpr hu)
    refine .inl ⟨u₀, hu₀, ?_, ?_⟩
    · split <;> rfl
    · split at hkey <;> exact hkey
  | deleteAccount mode req => exact .inl ⟨u, performDeletion_serves hu hkey, rfl, hkey⟩
  | rotate req =>
    simp only [serveCaller] at hu
    cases hrot : rotate prim d now caller req with
    | error fault =>
      rw [hrot] at hu
      exact .inl ⟨u, hu, rfl, hkey⟩
    | ok d₁ =>
      rw [hrot] at hu
      obtain ⟨oldKid, newKid, row, -, hset, -, rfl⟩ := rotate_ok hrot
      rcases mem_setUser hu with hu | rfl
      · exact .inl ⟨u, hu, rfl, hkey⟩
      · have hnew : row.encryptionPublicKey = some req.encryptionPublicKey := setEncryptionKey_key hset
        refine .inr ⟨?_, Option.some.inj (hnew.symm.trans hkey)⟩
        exact ha.symm.trans (setEncryptionKey_rest hset).1.symm

/-- What a step serves was served before it, or is what the step publishes for the address. -/
theorem DirectoryStep.serves {e : DirectoryEvent} (h : DirectoryStep prim cfg d e d')
    (hserves : Serves d' a key) : Serves d a key ∨ e.Publishes a key := by
  cases e with
  | elsewhere =>
    obtain ⟨u, hu, rest⟩ := hserves
    exact .inl ⟨u, h.1 ▸ hu, rest⟩
  | call c =>
    obtain ⟨now, token, request⟩ := c
    subst h
    cases request with
    | getNonce address value =>
      obtain ⟨u, hu, rest⟩ := hserves
      simp only [serveDirectory, getNonce_users] at hu
      exact .inl ⟨u, hu, rest⟩
    | login admitted req =>
      obtain ⟨u, hu, rfl, hkey⟩ := hserves
      rcases login_serves hu hkey with ⟨u₀, hu₀, ha, hkey₀⟩ | hpublishes
      · exact .inl ⟨u₀, hu₀, ha, hkey₀⟩
      · exact .inr hpublishes
    | logout | rotate | deleteAccount =>
      simp only [serveDirectory] at hserves
      split at hserves
      · exact .inl hserves
      · next caller hcaller =>
        exact serveCaller_serves (getCurrentUser_ok hcaller).2.1 hserves

end steps

end Kryptolog.Server
