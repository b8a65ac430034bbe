import Kryptolog.Server.Multisig

/-! # Wrapped keys after a rotation

The part of `security/key_rotation.py` that lists and replaces the wrapped keys a caller holds:
live grants, signer rows, and recipient rows of the workflows the caller may read.
-/

namespace Kryptolog.Server
set_option autoImplicit false

open Tables Json Fallible

inductive WrapKind
  | grant
  | signer
  | recipient
  deriving DecidableEq, Repr

/-- A row with a wrapped key, by its table and id. -/
structure StaleWrap where
  kind : WrapKind
  id : ℕ
  encryptedKey : Document

def heldGrants (db : Database) (now : Time) (a : Address) : List StaleWrap :=
  (liveGrantsOf db now a).map fun g => ⟨.grant, g.id, g.encryptedKey⟩

def heldSigners (db : Database) (a : Address) : List StaleWrap :=
  let readable := (readableWorkflows db a).map (·.id)
  (db.signers.where' fun s => s.userAddress == a && readable.contains s.workflowId).filterMap
    fun s => s.encryptedKey.map (⟨.signer, s.id, ·⟩)

def heldRecipients (db : Database) (a : Address) : List StaleWrap :=
  let readable := (readableWorkflows db a).map (·.id)
  (db.recipients.where' fun r => r.userAddress == a && readable.contains r.workflowId).filterMap
    fun r => r.encryptedKey.map (⟨.recipient, r.id, ·⟩)

/-- `_held`: every wrap the address may read, in the order of the tables. -/
def held (db : Database) (now : Time) (a : Address) : List StaleWrap :=
  heldGrants db now a ++ heldSigners db a ++ heldRecipients db a

/-- A page of the wraps that do not name the key `kid`. -/
def stalePage (kid : Option String) : List StaleWrap → ℕ → ℕ → Except Fault (List StaleWrap)
  | [], _, _ => .ok []
  | row :: rows, limit, offset => do
    if (← wrappedKeyId (some row.encryptedKey)) == kid then stalePage kid rows limit offset
    else match offset, limit with
      | skip + 1, _ => stalePage kid rows limit skip
      | 0, more + 2 => do .ok (row :: (← stalePage kid rows (more + 1) 0))
      | 0, _ => .ok [row]

def staleWraps (db : Database) (now : Time) (caller : User) (limit offset : ℕ) :
    Except Fault (List StaleWrap) :=
  stalePage caller.encryptionKeyId (held db now caller.address) limit offset

/-- One replacement: the row of an item gets the item's wrapped key. -/
def replaceWrap (db : Database) (item : StaleWrap) : Database :=
  match item.kind with
  | .grant =>
    { db with
      accessGrants := db.accessGrants.update (·.id == item.id)
        (fun g => { g with encryptedKey := item.encryptedKey }) (fun _ => rfl) }
  | .signer =>
    { db with
      signers := db.signers.update (·.id == item.id)
        (fun s => { s with encryptedKey := some item.encryptedKey }) (fun _ => rfl) }
  | .recipient =>
    { db with
      recipients := db.recipients.update (·.id == item.id)
        (fun r => { r with encryptedKey := some item.encryptedKey }) (fun _ => rfl) }

/-- The checks of `rewrap` on one item. -/
def checkRewrap (db : Database) (now : Time) (caller : User) (item : StaleWrap) :
    Except Fault Unit := do
  refuseIf (!(held db now caller.address).any fun row =>
      row.kind == item.kind && row.id == item.id)
    (.http 404 "Not found")
  refuseIf (!(← isWrappedKeyFor item.encryptedKey caller.encryptionKeyId))
    (.http 400 "A re-wrapped key must be sealed to the identity's current encryption key.")

/-- `rewrap`, behind the check of `_locked_active`: all items or none. -/
def rewrap (db : Database) (now : Time) (caller : User) (items : List StaleWrap) :
    Except Fault Database := do
  refuseIf (!caller.active) (.http 410 "This account has been deleted.")
  items.forM (checkRewrap db now caller)
  .ok (items.foldl replaceWrap db)

end Kryptolog.Server
