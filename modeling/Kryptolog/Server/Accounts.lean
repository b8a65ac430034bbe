import Kryptolog.Library.TrackedPoints
import Kryptolog.Server.Identity

/-! # Challenges, logins, logouts, deletions and transfers, statement by statement

The endpoints of `routers/auth.py`, `routers/account.py` and `routers/transfers.py`, each as the
transactions it runs. A challenge and a transfer are spent by the `DELETE` whose row count decides
who goes on. A login reads the row of its address without a lock and writes it back later; the
session then updates the columns that differ from the row that was read, and no others. A
deletion locks its row and reads it again before it writes.

* What the messages of an account make of a round of its erase is part of the request here
  (`RoundOutcome`), and so are the values that `secrets.token_urlsafe` draws.
* `history` is what clients have seen: the challenges and tokens handed out, the challenges spent,
  the logouts, the transfers stored and delivered. No endpoint reads it.
-/

namespace Kryptolog.Server
set_option autoImplicit false

open Tables Fallible ReadCommitted

/-! ## The tables -/

structure KeyTransfer where
  id : String
  ciphertext : String
  expiresAt : Time
  deriving DecidableEq

instance : Keyed KeyTransfer String := ⟨KeyTransfer.id⟩

@[simp] theorem key_transfer (t : KeyTransfer) : Keyed.key t = t.id := rfl

@[simp] theorem key_nonce (n : Nonce) : Keyed.key n = n.nonce := rfl

/-- What clients have seen. -/
inductive Seen
  | issued (n : Nonce)
  | claimed (n : Nonce) (a : Address) (now : Time)
  | minted (token : Token)
  | loggedOut (a : Address)
  | stored (t : KeyTransfer)
  | delivered (t : KeyTransfer) (now : Time)

structure Accounts extends Database where
  transfers : Table KeyTransfer
  history : List Seen

/-! ## Changes -/

/-- The columns that an `UPDATE` of a user sets. -/
structure UserUpdate where
  identityPublicKey : Option String
  username : Option (Option String)
  encryptionPublicKey : Option (Option String)
  encryptionKeyAlg : Option (Option String)
  encryptionKeyId : Option (Option String)
  encryptionKeyAttestation : Option (Option String)
  keyChangedAt : Option (Option Time)
  tokenVersion : Option ℕ
  deletedAt : Option (Option Time)
  blocked : Option Bool
  deriving DecidableEq

def changed {α : Type} [DecidableEq α] (old new : α) : Option α := if old = new then none else some new

/-- What a flush sends: the columns in which the object differs from the row that was loaded. -/
def UserUpdate.between (old new : User) : UserUpdate where
  identityPublicKey := changed old.identityPublicKey new.identityPublicKey
  username := changed old.username new.username
  encryptionPublicKey := changed old.encryptionPublicKey new.encryptionPublicKey
  encryptionKeyAlg := changed old.encryptionKeyAlg new.encryptionKeyAlg
  encryptionKeyId := changed old.encryptionKeyId new.encryptionKeyId
  encryptionKeyAttestation := changed old.encryptionKeyAttestation new.encryptionKeyAttestation
  keyChangedAt := changed old.keyChangedAt new.keyChangedAt
  tokenVersion := changed old.tokenVersion new.tokenVersion
  deletedAt := changed old.deletedAt new.deletedAt
  blocked := changed old.blocked new.blocked

/-- No column: nothing is flushed. -/
def UserUpdate.none : UserUpdate :=
  ⟨.none, .none, .none, .none, .none, .none, .none, .none, .none, .none⟩

def UserUpdate.set (upd : UserUpdate) (u : User) : User where
  address := u.address
  identityPublicKey := upd.identityPublicKey.getD u.identityPublicKey
  username := upd.username.getD u.username
  encryptionPublicKey := upd.encryptionPublicKey.getD u.encryptionPublicKey
  encryptionKeyAlg := upd.encryptionKeyAlg.getD u.encryptionKeyAlg
  encryptionKeyId := upd.encryptionKeyId.getD u.encryptionKeyId
  encryptionKeyAttestation := upd.encryptionKeyAttestation.getD u.encryptionKeyAttestation
  keyChangedAt := upd.keyChangedAt.getD u.keyChangedAt
  tokenVersion := upd.tokenVersion.getD u.tokenVersion
  deletedAt := upd.deletedAt.getD u.deletedAt
  blocked := upd.blocked.getD u.blocked

@[simp] theorem getD_changed {α : Type} [DecidableEq α] (old new : α) :
    (changed old new).getD old = new := by
  unfold changed
  split
  · assumption
  · rfl

/-- On the row that was loaded, the changed columns make the object. -/
theorem UserUpdate.set_between (old new : User) :
    (UserUpdate.between old new).set old = { new with address := old.address } := by
  simp [UserUpdate.between, UserUpdate.set]

theorem UserUpdate.between_self (u : User) : UserUpdate.between u u = .none := by
  simp [UserUpdate.between, UserUpdate.none, changed]

inductive AccountRow
  | user (address : Address)
  | nonce (value : String)
  | transfer (id : String)
  deriving DecidableEq

/-- What a statement changed, by the rows it took. A statement that spends a challenge or a
transfer also says so to its client. -/
inductive AccountChange
  | insertUser (row : User)
  | updateUser (a : Address) (upd : UserUpdate)
  | logOut (a : Address) (version : ℕ)
  | deleteNonces (values : List String)
  | insertNonce (n : Nonce)
  | claimNonce (n : Nonce) (a : Address) (now : Time)
  | deleteTransfers (ids : List String)
  | insertTransfer (t : KeyTransfer)
  | claimTransfer (t : KeyTransfer) (now : Time)
  | mint (token : Token)

/-- The rows that a change takes. -/
def AccountChange.rows : AccountChange → List AccountRow
  | .insertUser row => [.user row.address]
  | .updateUser a _ => [.user a]
  | .logOut a _ => [.user a]
  | .deleteNonces values => values.map .nonce
  | .insertNonce n => [.nonce n.nonce]
  | .claimNonce n _ _ => [.nonce n.nonce]
  | .deleteTransfers ids => ids.map .transfer
  | .insertTransfer t => [.transfer t.id]
  | .claimTransfer t _ => [.transfer t.id]
  | .mint _ => []

def AccountChange.apply (c : Accounts) : AccountChange → Accounts
  | .insertUser row => { c with users := c.users.insert row }
  | .updateUser a upd => { c with users := c.users.update (·.address == a) upd.set (fun _ => rfl) }
  | .logOut a version => { c with
      users := c.users.update (·.address == a) (fun u => { u with tokenVersion := version })
        (fun _ => rfl)
      history := c.history ++ [.loggedOut a] }
  | .deleteNonces values => { c with nonces := c.nonces.delete (values.contains ·.nonce) }
  | .insertNonce n => { c with
      nonces := c.nonces.insert n
      history := c.history ++ [.issued n] }
  | .claimNonce n a now => { c with
      nonces := c.nonces.delete (·.nonce == n.nonce)
      history := c.history ++ [.claimed n a now] }
  | .deleteTransfers ids => { c with transfers := c.transfers.delete (ids.contains ·.id) }
  | .insertTransfer t => { c with
      transfers := c.transfers.insert t
      history := c.history ++ [.stored t] }
  | .claimTransfer t now => { c with
      transfers := c.transfers.delete (·.id == t.id)
      history := c.history ++ [.delivered t now] }
  | .mint token => { c with history := c.history ++ [.minted token] }

/-- The rows of a `DELETE`: those its snapshot selects, as they are now, where its condition still
selects them. -/
def selected {ρ κ : Type} [Keyed ρ κ] [DecidableEq κ] (snap cur : Table ρ) (p : ρ → Bool) : List ρ :=
  (cur.where' p).filter fun r => snap.any fun r₀ => decide (Keyed.key r₀ = Keyed.key r) && p r₀

/-! ## Requests -/

/-- What the messages of an account make of an authorized round of its erase. -/
inductive RoundOutcome
  | refused
  | redacting
  | deleted
  deriving DecidableEq

inductive AccountRequest
  | getNonce (address value : String)
  | login (admitted : Bool) (req : LoginRequest)
  | logout
  | deleteAccount (mode : Mode) (req : EraseRequest) (outcome : RoundOutcome)
  | eraseConversation (nonce : String)
  | createTransfer (id ciphertext : String) (ttl : Time)
  | claimTransfer (id : String)

/-- A request with its token and what it reads off the clock. -/
structure AccountCall where
  now : Time
  token : Token
  request : AccountRequest

/-- Who spends a challenge. -/
inductive Claimant
  | login (admitted : Bool) (req : LoginRequest)
  | deletion (caller : User) (mode : Mode) (req : EraseRequest) (outcome : RoundOutcome)
  | erase (caller : User) (nonce : String)

def Claimant.address : Claimant → Address
  | .login _ req => lower req.address
  | .deletion caller _ _ _ => caller.address
  | .erase caller _ => caller.address

def Claimant.nonce : Claimant → String
  | .login _ req => req.nonce
  | .deletion _ _ req _ => req.nonce
  | .erase _ nonce => nonce

/-- Where a transaction is. From the first `DELETE`, `INSERT` or `UPDATE` on, a point carries the
rows that were taken. -/
inductive AccountPoint
  | sweepNonces (now : Time) (n : Nonce)
  | insertNonce (swept : List String) (n : Nonce)
  | nonceInserted (swept : List String) (n : Nonce)
  | authenticate (now : Time) (token : Token) (request : AccountRequest)
  | claim (now : Time) (by' : Claimant)
  | claimed (now : Time) (by' : Claimant) (won : Option Nonce)
  | verifyLogin (now : Time) (admitted : Bool) (req : LoginRequest)
  | readIdentity (now : Time) (admitted : Bool) (req : LoginRequest)
  | nameIdentity (now : Time) (admitted : Bool) (req : LoginRequest) (loaded : Option User)
  | insertIdentity (admitted : Bool) (row : User)
  | identityInserted (row : User)
  | updateIdentity (admitted : Bool) (a : Address) (upd : UserUpdate)
  | identityUpdated (a : Address) (upd : UserUpdate)
  | refreshIdentity (a : Address)
  | mint (token : Token)
  | minted (token : Token)
  | logOut (loaded : User)
  | loggedOut (a : Address) (version : ℕ)
  | lockAccount (now : Time) (caller : User) (mode : Mode) (req : EraseRequest)
      (outcome : RoundOutcome)
  | roundDone (locked : User)
  | deleteNonces (now : Time) (locked : User) (mode : Mode)
  | stripAccount (now : Time) (locked : User) (mode : Mode) (swept : List String)
  | accountStripped (now : Time) (locked : User) (mode : Mode) (swept : List String)
  | sweepTransfers (now : Time) (t : KeyTransfer)
  | insertTransfer (swept : List String) (t : KeyTransfer)
  | transferInserted (swept : List String) (t : KeyTransfer)
  | readTransfer (now : Time) (id : String)
  | takeTransfer (now : Time) (candidate : KeyTransfer)
  | transferTaken (now : Time) (candidate : KeyTransfer) (won : Bool)
  | dropTransfer (id : String)
  | transferDropped (ids : List String)
  | ended

namespace AccountPoint

/-- What the transaction has changed at a point. -/
def log : AccountPoint → List AccountChange
  | .insertNonce swept _ => [.deleteNonces swept]
  | .nonceInserted swept n => [.deleteNonces swept, .insertNonce n]
  | .claimed now by' (some n) => [.claimNonce n by'.address now]
  | .identityInserted row => [.insertUser row]
  | .identityUpdated a upd => [.updateUser a upd]
  | .minted token => [.mint token]
  | .loggedOut a version => [.logOut a version]
  | .stripAccount _ _ _ swept => [.deleteNonces swept]
  | .accountStripped now u mode swept =>
    [.deleteNonces swept, .updateUser u.address (.between u (stripIdentity mode now u))]
  | .insertTransfer swept _ => [.deleteTransfers swept]
  | .transferInserted swept t => [.deleteTransfers swept, .insertTransfer t]
  | .transferTaken now t true => [.claimTransfer t now]
  | .transferDropped ids => [.deleteTransfers ids]
  | _ => []

/-- The rows that it holds: those of its changes, and in a deletion the row of the account. -/
def locks : AccountPoint → List AccountRow
  | .roundDone u | .deleteNonces _ u _ => [.user u.address]
  | .stripAccount now u mode swept =>
    .user u.address :: (log (.stripAccount now u mode swept)).flatMap AccountChange.rows
  | p => p.log.flatMap AccountChange.rows

end AccountPoint

/-! ## The transactions -/

/-- The way on after a statement that took rows. -/
def took (changes : List AccountChange) (next : AccountPoint) :
    Outcome AccountRow AccountChange AccountPoint :=
  ⟨changes.flatMap AccountChange.rows, changes, next⟩

/-- A statement that raised. -/
def raised : Outcome AccountRow AccountChange AccountPoint := ⟨[], [], .ended⟩

/-- After the `COMMIT` of a claim. -/
def afterClaim (now : Time) : Claimant → AccountPoint
  | .login admitted req => .verifyLogin now admitted req
  | .deletion caller mode req outcome => .lockAccount now caller mode req outcome
  | .erase _ _ => .ended

/-- With the token's user. -/
def afterAuthentication (now : Time) (caller : User) : AccountRequest → AccountPoint
  | .logout => .logOut caller
  | .deleteAccount mode req outcome => .claim now (.deletion caller mode req outcome)
  | .eraseConversation nonce => .claim now (.erase caller nonce)
  | .createTransfer id ciphertext ttl => .sweepTransfers now ⟨id, ciphertext, now + ttl⟩
  | .getNonce _ _ | .login _ _ | .claimTransfer _ => .ended

/-- With the row of the login's address. -/
def afterIdentity (prim : KeyPrimitives) (now : Time) (admitted : Bool) (req : LoginRequest) :
    Option User → AccountPoint
  | none => .nameIdentity now admitted req none
  | some u =>
    if u.deletedAt.isSome then
      if mayRegister u then .nameIdentity now admitted req (some u) else .ended
    else
      match updatedRow prim now req u with
      | .error _ => .ended
      | .ok row =>
        let upd := UserUpdate.between u row
        if upd = .none then .refreshIdentity u.address else .updateIdentity true u.address upd

/-- With the username that it will hold. -/
def afterName (prim : KeyPrimitives) (now : Time) (admitted : Bool) (req : LoginRequest)
    (loaded : Option User) (name : Except Fault String) : AccountPoint :=
  match name with
  | .error _ => .ended
  | .ok username =>
    match loaded with
    | none =>
      match newUserRow prim req (lower req.address) username with
      | .error _ => .ended
      | .ok row => .insertIdentity admitted row
    | some u =>
      match revivedRow prim now req username u with
      | .error _ => .ended
      | .ok row => .updateIdentity admitted u.address (.between u row)

/-- With the row of the account under its lock. -/
def afterLock (prim : KeyPrimitives) (cfg : Config) (now : Time) (mode : Mode) (req : EraseRequest)
    (outcome : RoundOutcome) (locked : User) : AccountPoint :=
  match authorizeDeletion prim.toPrimitives cfg locked mode req with
  | .error _ => .ended
  | .ok _ =>
    match mode, outcome with
    | .leave, _ => if req.redactions.isEmpty then .deleteNonces now locked mode else .ended
    | .erase, .refused => .ended
    | .erase, .redacting => .roundDone locked
    | .erase, .deleted => .deleteNonces now locked mode

namespace AccountPoint

def op (prim : KeyPrimitives) (cfg : Config) :
    AccountPoint → Op Accounts AccountRow AccountChange AccountPoint
  | .sweepNonces now n => .write fun snap cur =>
    let swept := (selected snap.nonces cur.nonces fun n => decide (n.expiresAt ≤ now)).map (·.nonce)
    took [.deleteNonces swept] (.insertNonce swept n)
  | .insertNonce swept n => .write fun _ cur =>
    if cur.nonces.any (·.nonce == n.nonce) then raised
    else took [.insertNonce n] (.nonceInserted swept n)
  | .nonceInserted _ _ => .commit .ended
  | .authenticate now token request => .select fun c =>
    match getCurrentUser c.toDatabase token with
    | .error _ => .ended
    | .ok caller => afterAuthentication now caller request
  | .claim now by' => .write fun snap cur =>
    match selected snap.nonces cur.nonces
        (fun n => n.address == by'.address && n.nonce == by'.nonce && now < n.expiresAt) with
    | [n] => took [.claimNonce n by'.address now] (.claimed now by' (some n))
    | _ => took [] (.claimed now by' none)
  | .claimed now by' won => .commit (if won.isSome then afterClaim now by' else .ended)
  | .verifyLogin now admitted req => .select fun _ =>
    match verifyLoginPayload prim cfg req (lower req.address) with
    | .error _ => .ended
    | .ok _ => .readIdentity now admitted req
  | .readIdentity now admitted req => .select fun c =>
    afterIdentity prim now admitted req (findUser c.toDatabase (lower req.address))
  | .nameIdentity now admitted req loaded => .select fun c =>
    afterName prim now admitted req loaded
      (claimUsername prim c.toDatabase req (lower req.address) (loaded.bind (·.username)))
  | .insertIdentity admitted row => .write fun _ cur =>
    if cur.users.any (·.address == row.address) || !row.checks then raised
    else took [.insertUser row] (if admitted then .identityInserted row else .ended)
  | .identityInserted row => .commit (.refreshIdentity row.address)
  | .updateIdentity admitted a upd => .write fun _ cur =>
    match findUser cur.toDatabase a with
    | none => raised
    | some u =>
      if !(upd.set u).checks then raised
      else took [.updateUser a upd] (if admitted then .identityUpdated a upd else .ended)
  | .identityUpdated a _ => .commit (.refreshIdentity a)
  | .refreshIdentity a => .select fun c =>
    match findUser c.toDatabase a with
    | none => .ended
    | some u => .mint ⟨u.address.text, u.tokenVersion⟩
  | .mint token => .write fun _ _ => took [.mint token] (.minted token)
  | .minted _ => .commit .ended
  | .logOut loaded => .write fun _ cur =>
    match findUser cur.toDatabase loaded.address with
    | none => raised
    | some _ =>
      took [.logOut loaded.address (loaded.tokenVersion + 1)]
        (.loggedOut loaded.address (loaded.tokenVersion + 1))
  | .loggedOut _ _ => .commit .ended
  | .lockAccount now caller mode req outcome => .write fun _ cur =>
    match findUser cur.toDatabase caller.address with
    | none => raised
    | some locked =>
      ⟨[.user locked.address], [], afterLock prim cfg now mode req outcome locked⟩
  | .roundDone _ => .commit .ended
  | .deleteNonces now locked mode => .write fun snap cur =>
    let swept := (selected snap.nonces cur.nonces (·.address == locked.address)).map (·.nonce)
    took [.deleteNonces swept] (.stripAccount now locked mode swept)
  | .stripAccount now locked mode swept => .write fun _ cur =>
    let upd := UserUpdate.between locked (stripIdentity mode now locked)
    match findUser cur.toDatabase locked.address with
    | none => raised
    | some u =>
      if !(upd.set u).checks then raised
      else took [.updateUser locked.address upd] (.accountStripped now locked mode swept)
  | .accountStripped _ _ _ _ => .commit .ended
  | .sweepTransfers now t => .write fun snap cur =>
    let swept := (selected snap.transfers cur.transfers fun t => decide (t.expiresAt ≤ now)).map (·.id)
    took [.deleteTransfers swept] (.insertTransfer swept t)
  | .insertTransfer swept t => .write fun _ cur =>
    if cur.transfers.any (·.id == t.id) then raised
    else took [.insertTransfer t] (.transferInserted swept t)
  | .transferInserted _ _ => .commit .ended
  | .readTransfer now id => .select fun c =>
    match c.transfers.find? (·.id == id) with
    | none => .ended
    | some t => .takeTransfer now t
  | .takeTransfer now t => .write fun snap cur =>
    match selected snap.transfers cur.transfers (fun r => r.id == t.id && now < r.expiresAt) with
    | [_] => took [.claimTransfer t now] (.transferTaken now t true)
    | _ => took [] (.transferTaken now t false)
  | .transferTaken now t won =>
    .commit (if !won && t.expiresAt ≤ now then .dropTransfer t.id else .ended)
  | .dropTransfer id => .write fun snap cur =>
    let ids := (selected snap.transfers cur.transfers (·.id == id)).map (·.id)
    took [.deleteTransfers ids] (.transferDropped ids)
  | .transferDropped _ => .commit .ended
  | .ended => .halt

end AccountPoint

def AccountCall.entry (call : AccountCall) : AccountPoint :=
  match call.request with
  | .getNonce address value =>
    if isValidAddress (lowerText address) then
      .sweepNonces call.now ⟨value, lower address, call.now + 300000⟩
    else .ended
  | .login admitted req => .claim call.now (.login admitted req)
  | .claimTransfer id => .readTransfer call.now id
  | request => .authenticate call.now call.token request

def accounts (prim : KeyPrimitives) (cfg : Config) :
    Machine Accounts AccountRow AccountChange AccountPoint AccountCall where
  apply e c := e.apply c
  entry call := call.entry
  op := AccountPoint.op prim cfg

/-- A login whose payload passes its checks goes on to read its row. -/
theorem op_verifyLogin {prim : KeyPrimitives} {cfg : Config} {now : Time} {admitted : Bool}
    {req : LoginRequest} (h : verifyLoginPayload prim cfg req (lower req.address) = .ok ()) :
    (accounts prim cfg).op (.verifyLogin now admitted req) =
      .select fun _ => .readIdentity now admitted req := by
  change AccountPoint.op prim cfg (.verifyLogin now admitted req) = _
  simp only [AccountPoint.op, h]

/-- A login of an active account that writes nothing. -/
theorem afterIdentity_unchanged {prim : KeyPrimitives} {now : Time} {admitted : Bool}
    {req : LoginRequest} {u : User} (hactive : u.deletedAt = none)
    (h : updatedRow prim now req u = .ok u) :
    afterIdentity prim now admitted req (some u) = .refreshIdentity u.address := by
  simp [afterIdentity, hactive, h, UserUpdate.between_self]

end Kryptolog.Server
