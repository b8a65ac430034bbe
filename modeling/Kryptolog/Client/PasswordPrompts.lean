import Kryptolog.Client.VaultEdits

/-! # Password prompts

`requestPassword` and the custody operations of `context/PQCContext.jsx`, over the vault service. One request
for the password is under way at a time, and whoever asks meanwhile waits for its answer. The extension is not
used.

An operation also records what was typed at its own prompt, and the vault that was stored when the service
opened it.
-/

namespace Kryptolog.Client.PasswordPrompts
set_option autoImplicit false

open Script Tasks Runs

inductive Operation
  | signDeletion
  | signConversationErase
  /-- With the key pair that is generated. -/
  | rotateKeyLocally (fresh : KeyPair) (ts : Number)
  | destroyRetiredEncryptionKey (kid : Text)
  | enableBiometrics
  /-- `sign`, `decrypt`, `unwrapSessionKey` and their batches. -/
  | read
  | exportVault
  | signMessage
  | edit (edit : VaultEdit)
  /-- A call of the service that asks for no password here. -/
  | direct (call : VaultCall)

namespace Operation

/-- `forcePrompt`. -/
def forcesPrompt : Operation → Bool
  | signDeletion | signConversationErase | rotateKeyLocally _ _ | destroyRetiredEncryptionKey _
  | enableBiometrics => true
  | _ => false

/-- The prompt is the authorization. -/
def isAuthorized : Operation → Bool
  | signDeletion | signConversationErase | rotateKeyLocally _ _ | destroyRetiredEncryptionKey _ => true
  | _ => false

/-- The operation goes through `withCustody`, which refuses a locked vault. -/
def hasCustody : Operation → Bool
  | signDeletion | signConversationErase | rotateKeyLocally _ _ | read | signMessage
  | edit (.revertEncryptionKeyRotation _ _) => true
  | _ => false

/-- A message is signed silently once the signing key is cached. -/
def asksFor (c : Service) : Operation → Bool
  | signMessage => c.signingKey.isNone
  | _ => true

/-- What the operation calls of the service. -/
def serviceCall (password : Option Text) (newKdf : Kdf) : Operation → VaultCall
  | rotateKeyLocally fresh ts => .edit (.rotateEncryptionKey fresh ts) password newKdf
  | destroyRetiredEncryptionKey kid => .edit (.destroyRetiredEncryptionKey kid) password newKdf
  | edit e => .edit e password newKdf
  | enableBiometrics => .enableBiometrics (password.getD [])
  | signMessage => .signMessage password
  | direct call => call
  | _ => .read password

end Operation

inductive Answer
  | typed (password : Text)
  /-- By biometrics. -/
  | recovered (password : Text)
  | cancelled

/-- A request for the password: who asked, whether the biometric ceremony is under way and not the modal, and
the answer. -/
structure PasswordRequest where
  asker : ℕ
  biometric : Bool
  answer : Option Answer

structure Page where
  service : Service
  requests : List PasswordRequest
  /-- `passwordInFlight`. -/
  inFlight : Option ℕ
  biometricsEnabled : Bool

inductive Point
  | waiting (request : ℕ)
  | answered (password : Option Text)
  | serving (task : VaultTask)
  | refused (message : String)
  /-- Of an event that no operation waits for. -/
  | idle

structure Custody where
  number : ℕ
  operation : Operation
  newKdf : Kdf
  entered : Option Text
  found : Option Sealed
  point : Point

inductive Call
  | operation (op : Operation) (newKdf : Kdf)
  /-- The modal is submitted. -/
  | submit (password : Text)
  | cancel
  /-- The ceremony ends, with the password or without. -/
  | biometrics (password : Option Text)
  | setBiometrics (enabled : Bool)

section prompts

variable (prim : VaultPrimitives)

def requestPassword (c : Page) (n : ℕ) (forcePrompt : Bool) : Page × Point :=
  if !forcePrompt && c.service.cachedKey.isSome then (c, .answered none)
  else
    match c.inFlight with
    | some k => (c, .waiting k)
    | none =>
      ({ c with
          requests := c.requests ++ [⟨n, c.biometricsEnabled && !forcePrompt, none⟩]
          inFlight := some c.requests.length },
        .waiting c.requests.length)

/-- The request that is under way, where `biometric` says how it is asked. -/
def pending (c : Page) (biometric : Bool) : Option (ℕ × PasswordRequest) :=
  c.inFlight.bind fun k => (c.requests[k]?.filter fun r => r.biometric == biometric && r.answer.isNone).map (k, ·)

def settle (c : Page) (biometric : Bool) (answer : Answer) : Page :=
  match pending c biometric with
  | none => c
  | some (k, r) => { c with requests := c.requests.set k { r with answer := some answer }, inFlight := none }

/-- Biometrics fail, and the modal is opened. -/
def fallBack (c : Page) : Page :=
  match pending c true with
  | none => c
  | some (k, r) => { c with requests := c.requests.set k { r with biometric := false } }

/-- An operation begins with its request for the password. -/
def ask (c : Page) (n : ℕ) (op : Operation) : Page × Point :=
  if op.hasCustody && c.service.isLocked then (c, .refused "PQC Provider not ready (Locked or Missing)")
  else if op.asksFor c.service then requestPassword c n op.forcesPrompt
  else (c, .answered none)

def beginOperation (n : ℕ) (c : Page) (op : Operation) (newKdf : Kdf) : Page × Custody :=
  match op with
  | .direct call =>
    let out := (vaultService prim).call n call c.service
    ({ c with service := out.1 }, ⟨n, op, newKdf, none, none, .serving out.2⟩)
  | _ =>
    let out := ask c n op
    (out.1, ⟨n, op, newKdf, none, none, out.2⟩)

def begin (n : ℕ) (call : Call) (c : Page) : Page × Custody :=
  let idle : Custody := ⟨n, .read, [], none, none, .idle⟩
  match call with
  | .operation op newKdf => beginOperation prim n c op newKdf
  | .submit password => (settle c false (.typed password), idle)
  | .cancel => (settle c false .cancelled, idle)
  | .biometrics (some password) => (settle c true (.recovered password), idle)
  | .biometrics none => (fallBack c, idle)
  | .setBiometrics enabled => ({ c with biometricsEnabled := enabled }, idle)

/-- The answer to a request arrives. -/
def Custody.answer (t : Custody) (asker : ℕ) : Answer → Custody
  | .typed password =>
    { t with entered := if asker = t.number then some password else none, point := .answered (some password) }
  | .recovered password => { t with point := .answered (some password) }
  | .cancelled => { t with point := .refused "User cancelled password prompt" }

def resume (t : Custody) (c : Page) : Option (Page × Custody) :=
  match t.point with
  | .waiting k => do
    let r ← c.requests[k]?
    let answer ← r.answer
    some (c, t.answer r.asker answer)
  | .answered password =>
    let out := (vaultService prim).call t.number (t.operation.serviceCall password t.newKdf) c.service
    some ({ c with service := out.1 }, { t with found := c.service.stored, point := .serving out.2 })
  | .serving task =>
    ((vaultService prim).resume task c.service).map fun out =>
      ({ c with service := out.1 }, { t with point := .serving out.2 })
  | _ => none

/-- A page that is loaded again. -/
def Page.reload (c : Page) : Page := { c with service := c.service.reload, inFlight := none }

def custody : Program Page Custody Call where
  call n call c := begin prim n call c
  resume t c := resume prim t c
  restart := Page.reload

end prompts

/-! ## The property and the condition -/

/-- A change is stored, or the service has returned. -/
def passed : VaultPoint → Bool
  | .saved _ _ | .done .read | .done (.edited _) => true
  | _ => false

/-- The operation has gone through. -/
def Custody.wentThrough (t : Custody) : Bool :=
  match t.point with
  | .serving task => passed task.point
  | _ => false

/-- What was typed at the operation's own prompt opens the vault that was stored. -/
def Opened (prim : VaultPrimitives) (entered : Option Text) (found : Option Sealed) : Prop :=
  ∃ password blob, entered = some password ∧ found = some blob ∧ prim.deriveKey password blob.kdf = blob.key

/-- An authorized operation asks while no other request is under way. -/
def CallReady (c : Page) : Call → Prop
  | .operation op _ => op.isAuthorized = true → (op.hasCustody && c.service.isLocked) = false → c.inFlight = none
  | _ => True

/-- No key is cached that opens the stored vault when the password is used. -/
def Ready (c : Page) (t : Custody) : Prop :=
  t.operation.isAuthorized = true → (∃ password, t.point = .answered password) → c.service.isLocked = false →
    ∀ key kdf blob, c.service.cachedKey = some (key, kdf) → c.service.stored = some blob → key ≠ blob.key

/-! ## What is known of an authorized operation -/

variable {prim : VaultPrimitives} {c d : Page}

/-- The request `k` was made by the operation `i`, and is answered at the modal. -/
def AskedBy (c : Page) (i k : ℕ) : Prop :=
  ∃ r, c.requests[k]? = some r ∧ r.asker = i ∧ r.biometric = false ∧ ∀ password, r.answer ≠ some (.recovered password)

def OpeningFact (prim : VaultPrimitives) (entered : Option Text) (found : Option Sealed) : VaultPoint → Prop
  | .opening _ password blob key => password = entered ∧ found = some blob ∧ key ≠ blob.key
  | .derivingKey _ password blob => entered = some password ∧ found = some blob
  | .decrypting _ password blob key =>
    entered = some password ∧ found = some blob ∧ key = prim.deriveKey password blob.kdf
  | .done result => passed (.done result) = true → Opened prim entered found
  | .loaded _ _ _ | .changing _ _ _ _ | .sealing _ _ _ _ | .sealingFresh _ _ _ _ | .rederiving _ _ _ _
  | .saved _ _ | .signing _ => Opened prim entered found
  | _ => False

def PointFact (prim : VaultPrimitives) (c : Page) (i : ℕ) (t : Custody) : Point → Prop
  | .waiting k => AskedBy c i k
  | .answered password => ∃ text, password = some text ∧ t.entered = some text
  | .serving task => OpeningFact prim t.entered t.found task.point
  | _ => True

structure Fact (prim : VaultPrimitives) (c : Page) (i : ℕ) (t : Custody) : Prop where
  number : t.number = i
  authorized : t.operation.isAuthorized = true → PointFact prim c i t t.point

/-! ## Requests -/

/-- Requests that are answered at the modal stay so. -/
def Grows (c d : Page) : Prop := ∀ i k, AskedBy c i k → AskedBy d i k

theorem Grows.of_requests (h : d.requests = c.requests) : Grows c d := by
  intro i k hasked
  rw [AskedBy, h]
  exact hasked

theorem PointFact.grows {i : ℕ} {t : Custody} {p : Point} (h : PointFact prim c i t p) (hgrows : Grows c d) :
    PointFact prim d i t p := by
  cases p with
  | waiting k => exact hgrows i k h
  | _ => exact h

theorem Fact.grows {i : ℕ} {t : Custody} (h : Fact prim c i t) (hgrows : Grows c d) : Fact prim d i t :=
  ⟨h.number, fun hauthorized => (h.authorized hauthorized).grows hgrows⟩

theorem pending_eq_some {biometric : Bool} {k : ℕ} {r : PasswordRequest} (h : pending c biometric = some (k, r)) :
    c.requests[k]? = some r ∧ r.biometric = biometric ∧ r.answer = none := by
  obtain ⟨k', hk, h⟩ := Option.bind_eq_some_iff.mp h
  obtain ⟨r', hr, heq⟩ := Option.map_eq_some_iff.mp h
  cases heq
  obtain ⟨hget, hr⟩ := Option.filter_eq_some_iff.mp hr
  rw [Bool.and_eq_true, beq_iff_eq, Option.isNone_iff_eq_none] at hr
  exact ⟨hget, hr⟩

/-- The request under way changes, and only one that biometrics answer is answered by them. -/
theorem grows_set {k : ℕ} {r r' : PasswordRequest} {inFlight : Option ℕ} (hget : c.requests[k]? = some r)
    (hasker : r'.asker = r.asker)
    (hmodal : r.biometric = false → r'.biometric = false ∧ ∀ password, r'.answer ≠ some (.recovered password)) :
    Grows c { c with requests := c.requests.set k r', inFlight := inFlight } := by
  rintro i j ⟨r₀, hr₀, hi, hbiometric, hanswer⟩
  by_cases hjk : j = k
  · subst hjk
    obtain rfl := Option.some.inj (hget.symm.trans hr₀)
    have hset : (c.requests.set j r')[j]? = some r' := by
      rw [List.getElem?_set_self']
      rw [hget]
      rfl
    exact ⟨r', hset, hasker.trans hi, hmodal hbiometric⟩
  · exact ⟨r₀, (List.getElem?_set_ne (Ne.symm hjk)).trans hr₀, hi, hbiometric, hanswer⟩

theorem settle_grows (c : Page) (biometric : Bool) (answer : Answer)
    (hanswer : biometric = false → ∀ password, answer ≠ .recovered password) :
    Grows c (settle c biometric answer) := by
  unfold settle
  split
  · exact .of_requests rfl
  · next k r hpending =>
    obtain ⟨hget, hbiometric, -⟩ := pending_eq_some hpending
    refine grows_set hget rfl fun hmodal => ⟨hmodal, fun password heq => ?_⟩
    exact hanswer (hbiometric.symm.trans hmodal) password (Option.some.inj heq)

theorem fallBack_grows (c : Page) : Grows c (fallBack c) := by
  unfold fallBack
  split
  · exact .of_requests rfl
  · next k r hpending =>
    obtain ⟨hget, -, hnone⟩ := pending_eq_some hpending
    refine grows_set hget rfl fun _ => ⟨rfl, fun password heq => ?_⟩
    rw [hnone] at heq
    cases heq

theorem requestPassword_grows (c : Page) (n : ℕ) (forcePrompt : Bool) :
    Grows c (requestPassword c n forcePrompt).1 := by
  unfold requestPassword
  split
  · exact .of_requests rfl
  · split
    · exact .of_requests rfl
    · rintro i k ⟨r, hr, hasked⟩
      have hlt : k < c.requests.length := (List.getElem?_eq_some_iff.mp hr).1
      exact ⟨r, (List.getElem?_append_left hlt).trans hr, hasked⟩

/-- A forced request that finds none under way is the asker's own. -/
theorem requestPassword_own (n : ℕ) (hnone : c.inFlight = none) :
    ∃ k, (requestPassword c n true).2 = .waiting k ∧ AskedBy (requestPassword c n true).1 n k := by
  have hown : requestPassword c n true =
      ({ c with
          requests := c.requests ++ [⟨n, false, none⟩]
          inFlight := some c.requests.length },
        .waiting c.requests.length) := by
    have hmodal : (c.biometricsEnabled && !true) = false := Bool.and_false _
    unfold requestPassword
    rw [hnone, hmodal]
    rfl
  rw [hown]
  exact ⟨_, rfl, ⟨n, false, none⟩, List.getElem?_concat_length, rfl, rfl, fun _ h => by cases h⟩

/-! ## The service opens the vault -/

section opening

variable {entered : Option Text} {found : Option Sealed}

theorem derivation_opening {purpose : Purpose} {password : Option Text} {blob : Sealed}
    (hentered : password = entered) (hfound : found = some blob) :
    OpeningFact prim entered found (derivation purpose password blob) := by
  unfold derivation
  split
  · exact fun hpassed => by cases hpassed
  · next secret hgiven =>
    exact ⟨hentered.symm.trans (Option.filter_eq_some_iff.mp hgiven).1, hfound⟩

theorem getFullVault_opening {c : Service} (purpose : Purpose) (password : Option Text)
    (hready : ∀ key kdf blob, c.cachedKey = some (key, kdf) → c.stored = some blob → key ≠ blob.key) :
    OpeningFact prim password c.stored (getFullVault c purpose password) := by
  unfold getFullVault
  split
  · exact fun hpassed => by cases hpassed
  · next blob hstored =>
    split
    · next key kdf hcached => exact ⟨rfl, hstored, hready key kdf blob hcached hstored⟩
    · exact derivation_opening rfl hstored

theorem save_opening {c : Service} {saving : Saving} {v : Vault} {password : Option Text} {newKdf : Kdf}
    (h : Opened prim entered found) : OpeningFact prim entered found (save c saving v password newKdf) := by
  unfold save
  split
  · exact h
  · split
    · exact fun _ => h
    · exact h

theorem withFullVault_opening {caller : Caller} {c : Service} {purpose : Purpose} {password : Option Text}
    {v : Vault} (h : Opened prim entered found) :
    OpeningFact prim entered found (withFullVault prim caller c purpose password v).2 := by
  unfold withFullVault
  split
  · split
    · exact fun _ => h
    · exact fun _ => h
    · split
      · exact fun _ => h
      · split
        · exact h
        · exact save_opening h
  · split
    · exact fun _ => h
    · exact h
  · exact fun _ => h

/-- The vault is opened with the password that was typed. -/
theorem resume_opening {caller : Caller} {c d : Service} {p q : VaultPoint}
    (h : VaultPoint.resume prim caller c p = some (d, q)) (hfact : OpeningFact prim entered found p) :
    OpeningFact prim entered found q := by
  cases p with
  | opening purpose password blob key =>
    obtain ⟨hentered, hfound, hkey⟩ := hfact
    simp only [VaultPoint.resume, if_neg hkey] at h
    cases h
    exact derivation_opening hentered hfound
  | derivingKey purpose password blob =>
    obtain ⟨hentered, hfound⟩ := hfact
    cases h
    exact ⟨hentered, hfound, rfl⟩
  | decrypting purpose password blob key =>
    obtain ⟨hentered, hfound, hkey⟩ := hfact
    simp only [VaultPoint.resume] at h
    split at h
    · next hopens =>
      cases h
      exact ⟨password, blob, hentered, hfound, hkey.symm.trans hopens⟩
    · cases h
      exact fun hpassed => by cases hpassed
  | loaded purpose password vault =>
    have hout : withFullVault prim caller c purpose password vault = (d, q) := Option.some.inj h
    obtain rfl : (withFullVault prim caller c purpose password vault).2 = q := congrArg Prod.snd hout
    exact withFullVault_opening hfact
  | changing e password newKdf vault =>
    cases h
    exact save_opening hfact
  | sealing saving vault key kdf =>
    cases h
    exact hfact
  | sealingFresh saving vault password kdf =>
    cases h
    exact hfact
  | rederiving saving vault password kdf =>
    cases h
    exact hfact
  | saved saving vault =>
    cases saving with
    | edit e =>
      simp only [VaultPoint.resume] at h
      split at h
      · cases h
        exact fun _ => hfact
      · cases h
        exact fun _ => hfact
    | create =>
      cases h
      exact fun _ => hfact
  | signing seed =>
    cases h
    exact fun _ => hfact
  | done result => cases h
  | _ => exact absurd hfact id

theorem begin_opening {c : Service} {op : Operation} {password : Option Text} (newKdf : Kdf)
    (hauthorized : op.isAuthorized = true)
    (hready : c.isLocked = false →
      ∀ key kdf blob, c.cachedKey = some (key, kdf) → c.stored = some blob → key ≠ blob.key) :
    OpeningFact prim password c.stored (VaultCall.begin prim c (op.serviceCall password newKdf)).2 := by
  have hfull (purpose : Purpose) (hopen : ¬ c.isLocked = true) :
      OpeningFact prim password c.stored (getFullVault c purpose password) :=
    getFullVault_opening purpose password (hready (Bool.eq_false_of_not_eq_true hopen))
  cases op with
  | signDeletion | signConversationErase =>
    simp only [Operation.serviceCall, VaultCall.begin]
    split
    · exact fun hpassed => by cases hpassed
    · next hopen => exact hfull _ hopen
  | rotateKeyLocally _ _ | destroyRetiredEncryptionKey _ =>
    simp only [Operation.serviceCall, VaultCall.begin]
    split
    · exact fun hpassed => by cases hpassed
    · next hopen => exact hfull _ hopen
  | _ => cases hauthorized

end opening

/-! ## Runs -/

theorem ask_grows (c : Page) (n : ℕ) (op : Operation) : Grows c (ask c n op).1 := by
  unfold ask
  split
  · exact .of_requests rfl
  · split
    · exact requestPassword_grows c n _
    · exact .of_requests rfl

/-- An authorized operation waits for its own request. -/
theorem ask_own {n : ℕ} {op : Operation} (t : Custody) (hauthorized : op.isAuthorized = true)
    (hready : (op.hasCustody && c.service.isLocked) = false → c.inFlight = none) :
    PointFact prim (ask c n op).1 n t (ask c n op).2 := by
  have hforced : op.forcesPrompt = true ∧ op.asksFor c.service = true := by
    cases op with
    | signDeletion | signConversationErase | rotateKeyLocally _ _ | destroyRetiredEncryptionKey _ =>
      exact ⟨rfl, rfl⟩
    | _ => cases hauthorized
  unfold ask
  split
  · trivial
  · next hopen =>
    obtain ⟨k, hk, hasked⟩ := requestPassword_own n (hready (Bool.eq_false_of_not_eq_true hopen))
    rw [if_pos hforced.2, hforced.1, hk]
    exact hasked

theorem beginOperation_fact (n : ℕ) (op : Operation) (newKdf : Kdf) (hready : CallReady c (.operation op newKdf)) :
    Fact prim (beginOperation prim n c op newKdf).1 n (beginOperation prim n c op newKdf).2 ∧
      Grows c (beginOperation prim n c op newKdf).1 := by
  cases op with
  | direct call => exact ⟨⟨rfl, fun h => by cases h⟩, .of_requests rfl⟩
  | _ => exact ⟨⟨rfl, fun h => ask_own _ h (hready h)⟩, ask_grows c n _⟩

theorem begin_fact (n : ℕ) (call : Call) (hready : CallReady c call) :
    Fact prim (begin prim n call c).1 n (begin prim n call c).2 ∧ Grows c (begin prim n call c).1 := by
  have hidle (d : Page) : Fact prim d n ⟨n, .read, [], none, none, .idle⟩ := ⟨rfl, fun h => by cases h⟩
  cases call with
  | operation op newKdf => exact beginOperation_fact n op newKdf hready
  | submit password => exact ⟨hidle _, settle_grows c false _ fun _ _ h => by cases h⟩
  | cancel => exact ⟨hidle _, settle_grows c false _ fun _ _ h => by cases h⟩
  | biometrics password =>
    cases password with
    | some password => exact ⟨hidle _, settle_grows c true _ fun h => by cases h⟩
    | none => exact ⟨hidle _, fallBack_grows c⟩
  | setBiometrics enabled => exact ⟨hidle _, .of_requests rfl⟩

/-- The answer to an operation's own request is what was typed there. -/
theorem answer_fact {i k : ℕ} {t : Custody} {r : PasswordRequest} {answer : Answer} (hfact : Fact prim c i t)
    (hpoint : t.point = .waiting k) (hr : c.requests[k]? = some r) (hanswer : r.answer = some answer) :
    Fact prim c i (t.answer r.asker answer) := by
  have hasked (hauthorized : t.operation.isAuthorized = true) :
      r.asker = i ∧ ∀ password, answer ≠ .recovered password := by
    have hwaiting := hfact.authorized hauthorized
    rw [hpoint] at hwaiting
    obtain ⟨r', hr', hasker, -, hmodal⟩ := hwaiting
    obtain rfl := Option.some.inj (hr.symm.trans hr')
    exact ⟨hasker, fun password heq => hmodal password (hanswer.trans (congrArg some heq))⟩
  cases answer with
  | typed password =>
    refine ⟨hfact.number, fun hauthorized => ⟨password, rfl, ?_⟩⟩
    exact if_pos ((hasked hauthorized).1.trans hfact.number.symm)
  | recovered password =>
    exact ⟨hfact.number, fun hauthorized => absurd rfl ((hasked hauthorized).2 password)⟩
  | cancelled => exact ⟨hfact.number, fun _ => trivial⟩

theorem resume_fact {i : ℕ} {t u : Custody} (h : resume prim t c = some (d, u)) (hfact : Fact prim c i t)
    (hready : Ready c t) : Fact prim d i u ∧ Grows c d := by
  cases hpoint : t.point with
  | waiting k =>
    simp only [resume, hpoint] at h
    obtain ⟨r, hr, h⟩ := Option.bind_eq_some_iff.mp h
    obtain ⟨answer, hanswer, h⟩ := Option.bind_eq_some_iff.mp h
    cases h
    exact ⟨answer_fact hfact hpoint hr hanswer, .of_requests rfl⟩
  | answered password =>
    simp only [resume, hpoint] at h
    cases h
    refine ⟨⟨hfact.number, fun hauthorized => ?_⟩, .of_requests rfl⟩
    have hentered := hfact.authorized hauthorized
    rw [hpoint] at hentered
    obtain ⟨text, rfl, hentered⟩ := hentered
    have hopening : OpeningFact prim (some text) c.service.stored
        (VaultCall.begin prim c.service (t.operation.serviceCall (some text) t.newKdf)).2 :=
      begin_opening t.newKdf hauthorized (hready hauthorized ⟨_, hpoint⟩)
    rw [← hentered] at hopening
    rw [← hentered]
    exact hopening
  | serving task =>
    simp only [resume, hpoint] at h
    obtain ⟨out, hout, h⟩ := Option.map_eq_some_iff.mp h
    obtain ⟨⟨c', q⟩, hresume, rfl⟩ := Option.map_eq_some_iff.mp hout
    cases h
    refine ⟨⟨hfact.number, fun hauthorized => ?_⟩, .of_requests rfl⟩
    have hopening := hfact.authorized hauthorized
    rw [hpoint] at hopening
    exact resume_opening hresume hopening
  | refused message =>
    simp only [resume, hpoint] at h
    cases h
  | idle =>
    simp only [resume, hpoint] at h
    cases h

theorem custody_rule (prim : VaultPrimitives) :
    Rule (custody prim) (fun _ _ => True) (Fact prim) CallReady Ready where
  call n c call _ hready := by
    obtain ⟨hfact, hgrows⟩ := begin_fact n call hready
    exact ⟨trivial, hfact, fun j t _ ht => ht.grows hgrows⟩
  resume n c i t d u _ _ hfact hready h := by
    obtain ⟨hafter, hgrows⟩ := resume_fact h hfact hready
    exact ⟨trivial, hafter, fun j v _ hv => hv.grows hgrows⟩
  restart _ _ _ := trivial

/-- Where an authorized operation asks alone, and no key is cached that opens the vault when its password is
used, it goes through with the password that was typed at its own prompt. -/
theorem prompt_authorizes (prim : VaultPrimitives) (first : Service) (biometricsEnabled : Bool)
    {actions : List (Action Call)} {s : State Page Custody}
    (hrun : Run (restrict (Prepared CallReady Ready) (ofPartial (custody prim).step))
      (.start ⟨first, [], none, biometricsEnabled⟩) actions s)
    {i : ℕ} {t : Custody} (ht : s.task i = some t) (hauthorized : t.operation.isAuthorized = true)
    (hthrough : t.wentThrough = true) : Opened prim t.entered t.found := by
  have hfact := ((custody_rule prim).run_holds hrun (.start trivial)).tasks i t ht
  have hpoint := hfact.authorized hauthorized
  unfold Custody.wentThrough at hthrough
  split at hthrough
  · next task htask =>
    rw [htask] at hpoint
    cases hp : task.point with
    | done result =>
      rw [hp] at hthrough
      have hdone : OpeningFact prim t.entered t.found task.point := hpoint
      rw [hp] at hdone
      exact hdone hthrough
    | saved saving vault =>
      have hsaved : OpeningFact prim t.entered t.found task.point := hpoint
      rw [hp] at hsaved
      exact hsaved
    | _ =>
      rw [hp] at hthrough
      cases hthrough
  · cases hthrough

/-! ## An account deletion is signed -/

/-- Unlocked, with a page that keeps no derived key. -/
def sampleAsking : Service := { sampleService with cachedKey := none, cacheTTL := 0 }

def deletion : Action Call := .call (.operation .signDeletion [])

/-- The vault is opened with the cached key whatever is typed, and with the answer to the prompt of another
operation. -/
theorem not_prompt_authorizes :
    (∃ s t, Run (ofPartial (custody sampleVaultPrimitives).step) (.start ⟨sampleService, [], none, false⟩)
        (deletion :: .call (.submit (lit "wrong")) :: List.replicate 4 (.resume 0)) s ∧
      s.task 0 = some t ∧ t.operation = .signDeletion ∧ t.wentThrough = true ∧ t.entered = some (lit "wrong") ∧
      ¬ Opened sampleVaultPrimitives t.entered t.found) ∧
    ∃ s t, Run (ofPartial (custody sampleVaultPrimitives).step) (.start ⟨sampleAsking, [], none, false⟩)
        (.call (.operation .read []) :: deletion :: .call (.submit sampleKey) :: List.replicate 5 (.resume 1)) s ∧
      s.task 1 = some t ∧ t.operation = .signDeletion ∧ t.wentThrough = true ∧ t.entered = none ∧
      ¬ Opened sampleVaultPrimitives t.entered t.found := by
  constructor
  · refine ⟨_, _, Run.ofPartial_foldlM _ _ _ _ rfl, rfl, rfl, rfl, rfl, ?_⟩
    rintro ⟨password, blob, hentered, hfound, hopens⟩
    obtain rfl := Option.some.inj hentered
    obtain rfl := Option.some.inj hfound
    revert hopens
    decide
  · refine ⟨_, _, Run.ofPartial_foldlM _ _ _ _ rfl, rfl, rfl, rfl, rfl, ?_⟩
    rintro ⟨password, blob, hentered, -⟩
    cases hentered

/-- `Prepared` for the run of the sample. -/
def asksAlone (s : State Page Custody) : Action Call → Bool
  | .call (.operation _ _) => s.shared.inFlight.isNone
  | .resume _ => s.shared.service.cachedKey.isNone
  | _ => true

theorem prepared_of_asksAlone {s : State Page Custody} {a : Action Call} (h : asksAlone s a = true) :
    Prepared CallReady Ready s a := by
  cases a with
  | call call =>
    cases call with
    | operation op newKdf => exact fun _ _ => Option.isNone_iff_eq_none.mp h
    | _ => trivial
  | resume i =>
    intro t _ _ _ _ key kdf blob hcached
    rw [asksAlone, hcached] at h
    cases h
  | restart => trivial

/-- The password is typed at the prompt of the deletion. -/
theorem prompt_authorizes_sample : ∃ s t,
    Run (restrict (Prepared CallReady Ready) (ofPartial (custody sampleVaultPrimitives).step))
      (.start ⟨sampleAsking, [], none, false⟩)
      (deletion :: .call (.submit sampleKey) :: List.replicate 5 (.resume 0)) s ∧
    s.task 0 = some t ∧ t.wentThrough = true ∧ Opened sampleVaultPrimitives t.entered t.found := by
  have hrun : Run (restrict (Prepared CallReady Ready) (ofPartial (custody sampleVaultPrimitives).step))
      (.start ⟨sampleAsking, [], none, false⟩)
      (deletion :: .call (.submit sampleKey) :: List.replicate 5 (.resume 0)) _ :=
    Run.restrict_foldlM _ (fun _ _ => prepared_of_asksAlone) _ _ _ rfl
  exact ⟨_, _, hrun, rfl, rfl, @prompt_authorizes _ _ _ _ _ hrun 0 _ rfl rfl rfl⟩

end Kryptolog.Client.PasswordPrompts
