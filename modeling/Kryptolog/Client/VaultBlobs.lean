import Kryptolog.Client.CanonicalText
import Kryptolog.Client.RoundTrips

/-! # Vault blobs

`packages/crypto-core/src/vault.js`: a vault under the key that Argon2id makes of a password. The
descriptor of the key stands in the blob and is bound to it. Argon2id, AES-GCM and the numbers of the
engine are parameters, and the random values are arguments.
-/

namespace Kryptolog.Client.VaultBlobs
set_option autoImplicit false

open Script Fallible JsonText CanonicalText Envelopes

/-- What Argon2id is asked for, beside the password. -/
structure Argon2 where
  salt : Bytes
  m : ℕ
  t : ℕ
  p : ℕ
  dkLen : ℕ

structure VaultPackages where
  argon2id : Bytes → Argon2 → Bytes
  /-- AES-GCM of a key, an initialization vector, associated data and a text. -/
  gcmEncrypt : Bytes → Bytes → Bytes → Bytes → Bytes
  gcmDecrypt : Bytes → Bytes → Bytes → Bytes → Option Bytes
  engine : Engine

/-! ## The descriptor -/

/-- `VAULT_KDF_ALG`. -/
def vaultKdfAlg : Text := lit "argon2id"

/-- What `crypto.getRandomValues` fills. -/
structure Salt where
  bytes : Bytes
  length_eq : bytes.length = 16

def newVaultKdf (salt : Salt) : Value :=
  .obj [(lit "alg", .str vaultKdfAlg), (lit "m", .num (.ofNat (46 * 1024))), (lit "t", .num (.ofNat 1)),
    (lit "p", .num (.ofNat 1)), (lit "salt", .str (toB64 salt.bytes))]

/-- `KDF_BOUNDS`. -/
def kdfBounds : List (String × ℕ × ℕ) := [("m", 8 * 1024, 1024 * 1024), ("t", 1, 16), ("p", 1, 4)]

/-- The value of a natural number. -/
def count (value : Option Value) : ℕ :=
  match value with
  | some (.num n) => Number.digitsValue n.spelling
  | _ => 0

/-- An integer between two bounds, the lower of which is positive. -/
def inRange (value : Option Value) (lo hi : ℕ) : Bool :=
  match value with
  | some (.num n) => n.isCount && lo ≤ count value && count value ≤ hi
  | _ => false

/-- A value in a message. -/
def written (value : Option Value) : String :=
  match value with
  | none => "undefined"
  | some v => shown (v.toText.getD [])

def member (kdf : Option Value) (name : String) : Option Value := kdf.bind (·.get name)

def checkKdf (kdf : Option Value) : Except String Bytes := do
  let alg := named (member kdf "alg") "(none)"
  refuseIf (!isText (member kdf "alg") vaultKdfAlg) s!"vault KDF: unsupported algorithm {alg}"
  kdfBounds.forM fun bound => refuseIf (!inRange (member kdf bound.1) bound.2.1 bound.2.2)
    s!"vault KDF: parameter {bound.1}={written (member kdf bound.1)} is out of range"
  let salt ← fromB64 (member kdf "salt")
  refuseIf (salt.length < 16) "vault KDF: salt too short"
  .ok salt

/-- The parameters of a descriptor. -/
def argon2Of (kdf : Option Value) (salt : Bytes) : Argon2 :=
  ⟨salt, count (member kdf "m"), count (member kdf "t"), count (member kdf "p"), 32⟩

section blobs

variable (pkg : VaultPackages)

def deriveVaultKeyBits (password : Text) (kdf : Option Value) : Except String Bytes := do
  let salt ← checkKdf kdf
  .ok (pkg.argon2id password.encode (argon2Of kdf salt))

/-- `deriveKey`, which imports the key. -/
def deriveKey (password : Text) (kdf : Option Value) : Except String Bytes := do
  let bits ← deriveVaultKeyBits pkg password kdf
  importKey bits

/-! ## The blob -/

def assertVaultFormat (blob : Value) : Except String Unit := do
  refuseIf (!isObject blob) "vault: not a vault blob"
  let version := named (blob.get "v") "< 3"
  refuseIf (!isVersion (blob.get "v"))
    ("This vault or backup was created by an older Kryptolog version " ++
      s!"(format {version}) and cannot be opened by this one.")

def vaultKdfOf (blob : Value) : Except String (Option Value) := do
  assertVaultFormat blob
  .ok (blob.get "kdf")

/-- `canonicalJson`, of what may be `undefined`. -/
def canonicalOf (kdf : Option Value) : Text := ofChars (kdf.elim ['n', 'u', 'l', 'l'] canonicalJson)

def vaultAad (kdf : Option Value) : Bytes := Text.encode (lit "Kryptolog vault\nv=5\nkdf=" ++ canonicalOf kdf)

/-- `JSON.stringify`, of a value without integer-like names. -/
def stringify (data : Value) : Text := ofChars (spell data)

/-- `{ v, kdf, iv, data }`. -/
def vaultBlob (kdf : Value) (iv sealed : Bytes) : Value :=
  .obj [(lit "v", .num formatVersion), (lit "kdf", kdf), (lit "iv", .str (toB64 iv)),
    (lit "data", .str (toB64 sealed))]

/-- `seal`. -/
def sealVault (data : Value) (key : Bytes) (kdf : Value) (iv : Iv) : Value :=
  vaultBlob kdf iv.bytes (pkg.gcmEncrypt key iv.bytes (vaultAad (some kdf)) (stringify data).encode)

def encryptVault (data : Value) (password : Text) (salt : Salt) (iv : Iv) : Except String Value := do
  let key ← deriveKey pkg password (some (newVaultKdf salt))
  .ok (sealVault pkg data key (newVaultKdf salt) iv)

def openSealed (blob : Value) (key : Bytes) : Except String Value := do
  let iv ← fromB64 (blob.get "iv")
  let sealed ← fromB64 (blob.get "data")
  let decrypted ← (pkg.gcmDecrypt key iv (vaultAad (blob.get "kdf")) sealed).elim (.error "OperationError") .ok
  (parse pkg.engine (decodeText decrypted)).elim (.error "SyntaxError") .ok

def decryptVault (encryptedVault : Value) (password : Text) : Except String Value := do
  let kdf ← vaultKdfOf encryptedVault
  let key ← deriveKey pkg password kdf
  (openSealed pkg encryptedVault key).mapError fun _ => "Incorrect password or corrupted data"

def encryptVaultWithKey (data : Value) (key : Bytes) (kdf : Value) (iv : Iv) : Except String Value := do
  let _ ← checkKdf (some kdf)
  .ok (sealVault pkg data key kdf iv)

def decryptVaultWithKey (encryptedVault : Value) (key : Bytes) : Except String Value := do
  assertVaultFormat encryptedVault
  (openSealed pkg encryptedVault key).mapError fun _ => "Decryption failed with cached key"

end blobs

/-! ## The password rule -/

/-- `VAULT_PASSWORD_MIN_LENGTH`. -/
def vaultPasswordMinLength : ℕ := 12

/-- `COMMON`. -/
def commonPasswords : List Text :=
  ["passwordpassword", "password1234", "password12345", "password123456", "123456789012", "1234567890123",
    "12345678901234", "qwertyuiopas", "azertyuiopqs", "qwertyqwerty", "azertyazerty", "iloveyouiloveyou",
    "motdepasse123", "motdepassemotdepasse", "administrator", "letmeinletmein"].map lit

/-- The loop of `isSequence`, behind a unit and with the step so far. -/
def continues (previous : ℕ) (step : Option ℤ) : List ℕ → Bool
  | [] => true
  | u :: us =>
    let d : ℤ := u - previous
    if 1 < d.natAbs then false
    else
      match step with
      | none => continues u (some d) us
      | some s => if d = s then continues u step us else false

def isSequence (pw : Text) : Bool :=
  match units pw with
  | [] => true
  | u :: us => continues u none us

/-- `vaultPasswordProblem`, with `toLowerCase`. -/
def vaultPasswordProblem (toLowerCase : Text → Text) (pw : Text) : Option String :=
  if (units pw).length < vaultPasswordMinLength then
    some s!"Use at least {vaultPasswordMinLength} characters — a short phrase of several words is ideal."
  else if pw.dedup.length < 5 then some "Use more varied characters: this password repeats too few of them."
  else if commonPasswords.contains (toLowerCase pw) || isSequence (toLowerCase pw) then
    some "This password is among the first an attacker would try. Choose another."
  else none

theorem continues_iff {u : ℕ} {s : ℤ} (hs : s.natAbs ≤ 1) (us : List ℕ) :
    continues u (some s) us = true ↔ (u :: us).IsChain fun (a b : ℕ) => (b : ℤ) - a = s := by
  induction us generalizing u with
  | nil => simp [continues]
  | cons w us ih =>
    have hstep : continues u (some s) (w :: us) = if 1 < ((w : ℤ) - u).natAbs then false
        else if (w : ℤ) - u = s then continues w (some s) us else false := rfl
    rw [List.isChain_cons_cons, ← ih, hstep]
    split
    · next hfar =>
      refine ⟨fun h => absurd h Bool.false_ne_true, fun h => ?_⟩
      rw [h.1] at hfar
      omega
    · split
      · next hd => exact ⟨fun h => ⟨hd, h⟩, fun h => h.2⟩
      · next hd => exact ⟨fun h => absurd h Bool.false_ne_true, fun h => absurd h.1 hd⟩

/-- The sequences are the texts whose units go up by one, down by one, or stay. -/
theorem isSequence_iff (pw : Text) :
    isSequence pw = true ↔ ∃ d : ℤ, d.natAbs ≤ 1 ∧ (units pw).IsChain fun (a b : ℕ) => (b : ℤ) - a = d := by
  have hzero : (0 : ℤ).natAbs ≤ 1 := by decide
  unfold isSequence
  split
  · next hunits =>
    rw [hunits]
    exact ⟨fun _ => ⟨0, hzero, .nil⟩, fun _ => rfl⟩
  · next u us hunits =>
    rw [hunits]
    cases us with
    | nil => exact ⟨fun _ => ⟨0, hzero, .singleton u⟩, fun _ => rfl⟩
    | cons w us =>
      by_cases hfar : 1 < ((w : ℤ) - u).natAbs
      · have hfalse : continues u none (w :: us) = false := if_pos hfar
        rw [hfalse]
        refine ⟨fun h => absurd h Bool.false_ne_true, fun ⟨d, hd, hchain⟩ => ?_⟩
        rw [(List.isChain_cons_cons.mp hchain).1] at hfar
        omega
      · have hnext : continues u none (w :: us) = continues w (some ((w : ℤ) - u)) us := if_neg hfar
        rw [hnext, continues_iff (Nat.not_lt.mp hfar)]
        constructor
        · exact fun h => ⟨_, Nat.not_lt.mp hfar, List.isChain_cons_cons.mpr ⟨rfl, h⟩⟩
        · rintro ⟨d, -, hchain⟩
          obtain ⟨rfl, hrest⟩ := List.isChain_cons_cons.mp hchain
          exact hrest

/-! ## Members in another order -/

section members

variable {engine : Engine} {a b : Value} {name : String} {t : Text} {n : Number}

theorem lookup_eq_some_iff_mem {fields : List (Text × Value)} (hnames : (fields.map Prod.fst).Nodup) {v : Value} :
    fields.lookup t = some v ↔ (t, v) ∈ fields := by
  induction fields with
  | nil => simp
  | cons f fields ih =>
    obtain ⟨k, w⟩ := f
    rw [List.map_cons, List.nodup_cons] at hnames
    rw [List.lookup_cons, List.mem_cons]
    by_cases hk : t = k
    · subst hk
      have hnot : (t, v) ∉ fields := fun hmem => hnames.1 (List.mem_map.mpr ⟨_, hmem, rfl⟩)
      simp [hnot, eq_comm]
    · have hbeq : (t == k) = false := by simpa using hk
      have hne : ¬ (t, v) = (k, w) := fun heq => hk (congrArg Prod.fst heq)
      simp only [hbeq, ih hnames.2, hne, false_or]

theorem mem_of_forall₂ {fields listed : List (Text × Value)} (hnames : fields.map Prod.fst = listed.map Prod.fst)
    (hvalues : List.Forall₂ Same (fields.map Prod.snd) (listed.map Prod.snd)) {v : Value} (hmem : (t, v) ∈ fields) :
    ∃ w, (t, w) ∈ listed ∧ Same v w := by
  induction fields generalizing listed with
  | nil => cases hmem
  | cons f fields ih =>
    cases listed with
    | nil => cases hnames
    | cons g listed =>
      obtain ⟨hname, hnames⟩ := List.cons.inj hnames
      rw [List.map_cons, List.map_cons, List.forall₂_cons] at hvalues
      rcases List.mem_cons.mp hmem with rfl | hmem
      · exact ⟨g.2, List.mem_cons.mpr (.inl (Prod.ext hname rfl)), hvalues.1⟩
      · obtain ⟨w, hw, hsame⟩ := ih hnames hvalues.2 hmem
        exact ⟨w, List.mem_cons_of_mem _ hw, hsame⟩

/-- The members of an object have their counterparts in an object that lists them in another order. -/
theorem Same.get {fields : List (Text × Value)} (name : String) (hnames : (fields.map Prod.fst).Nodup)
    (h : Same (.obj fields) b) {v : Value} (hget : (Value.obj fields).get name = some v) :
    ∃ w, b.get name = some w ∧ Same v w := by
  cases h with
  | @obj _ listed fields' horder hlisted hvalues =>
    obtain ⟨w, hmem, hsame⟩ := mem_of_forall₂ hlisted hvalues ((lookup_eq_some_iff_mem hnames).mp hget)
    have hnames' : (fields'.map Prod.fst).Nodup := by
      rw [← (horder.map Prod.fst).nodup_iff, ← hlisted]
      exact hnames
    exact ⟨w, (lookup_eq_some_iff_mem hnames').mpr (horder.mem_iff.mp hmem), hsame⟩

theorem exists_fields {v : Value} (hget : a.get name = some v) : ∃ fields, a = .obj fields := by
  cases a with
  | obj fields => exact ⟨fields, rfl⟩
  | _ => cases hget

theorem Same.get_str (ha : IsParsed engine a) (h : Same a b) (hget : a.get name = some (.str t)) :
    b.get name = some (.str t) := by
  obtain ⟨fields, rfl⟩ := exists_fields hget
  cases ha with
  | obj hnames _ _ =>
    obtain ⟨w, hw, hsame⟩ := Same.get _ hnames h hget
    cases hsame
    exact hw

theorem Same.get_num (ha : IsParsed engine a) (h : Same a b) (hget : a.get name = some (.num n)) :
    b.get name = some (.num n) := by
  obtain ⟨fields, rfl⟩ := exists_fields hget
  cases ha with
  | obj hnames _ _ =>
    obtain ⟨w, hw, hsame⟩ := Same.get _ hnames h hget
    cases hsame
    exact hw

end members

/-! ## What the check of a descriptor says -/

section descriptor

variable {engine : Engine} {kdf kdf' : Value} {salt : Bytes}

theorem isText_iff {value : Option Value} {text : Text} : isText value text = true ↔ value = some (.str text) := by
  unfold isText
  split <;> simp_all

theorem inRange_iff {value : Option Value} {lo hi : ℕ} : inRange value lo hi = true ↔
    ∃ n : Number, value = some (.num n) ∧ n.isCount = true ∧ lo ≤ count value ∧ count value ≤ hi := by
  unfold inRange
  split
  · next n => simp [and_assoc]
  · next hnum =>
    refine ⟨fun h => absurd h Bool.false_ne_true, fun ⟨n, hn, _⟩ => absurd hn (hnum n)⟩

/-- A descriptor that passes: its parts are there, and within the bounds. -/
theorem checkKdf_eq_ok {kdf : Option Value} : checkKdf kdf = .ok salt ↔
    member kdf "alg" = some (.str vaultKdfAlg) ∧
      (∀ bound ∈ kdfBounds, inRange (member kdf bound.1) bound.2.1 bound.2.2 = true) ∧
      fromB64 (member kdf "salt") = .ok salt ∧ 16 ≤ salt.length := by
  constructor
  · intro h
    obtain ⟨_, halg, h⟩ := bind_eq_ok.mp h
    obtain ⟨_, hbounds, h⟩ := bind_eq_ok.mp h
    obtain ⟨salt', hsalt, h⟩ := bind_eq_ok.mp h
    obtain ⟨_, hlength, h⟩ := bind_eq_ok.mp h
    cases h
    rw [refuseIf_eq_ok, Bool.not_eq_false'] at halg
    rw [refuseIf_eq_ok, decide_eq_false_iff_not] at hlength
    refine ⟨isText_iff.mp halg, fun bound hbound => ?_, hsalt, Nat.le_of_not_lt hlength⟩
    have hchecked := forM_eq_ok.mp hbounds bound hbound
    rwa [refuseIf_eq_ok, Bool.not_eq_false'] at hchecked
  · rintro ⟨halg, hbounds, hsalt, hlength⟩
    have hloop : (kdfBounds.forM fun bound => refuseIf (!inRange (member kdf bound.1) bound.2.1 bound.2.2)
        s!"vault KDF: parameter {bound.1}={written (member kdf bound.1)} is out of range") = .ok () :=
      forM_eq_ok.mpr fun bound hbound => refuseIf_eq_ok.mpr (by rw [hbounds bound hbound]; rfl)
    have hlong : decide (salt.length < 16) = false := decide_eq_false (Nat.not_lt.mpr hlength)
    rw [checkKdf, isText_iff.mpr halg, hloop, hsalt]
    change (refuseIf (decide (salt.length < 16)) _ >>= fun _ => .ok salt) = _
    rw [hlong]
    rfl

theorem member_same (hkdf : IsParsed engine kdf) (h : Same kdf kdf') {name : String} {lo hi : ℕ}
    (hrange : inRange (member (some kdf) name) lo hi = true) :
    member (some kdf') name = member (some kdf) name := by
  obtain ⟨n, hn, -⟩ := inRange_iff.mp hrange
  rw [hn]
  exact Same.get_num hkdf h hn

/-- The order of its members does not matter to a descriptor that passes. -/
theorem checkKdf_same (hkdf : IsParsed engine kdf) (h : Same kdf kdf') (hcheck : checkKdf (some kdf) = .ok salt) :
    checkKdf (some kdf') = .ok salt ∧ argon2Of (some kdf') salt = argon2Of (some kdf) salt := by
  obtain ⟨halg, hbounds, hsalt, hlength⟩ := checkKdf_eq_ok.mp hcheck
  have hmember : ∀ bound ∈ kdfBounds, member (some kdf') bound.1 = member (some kdf) bound.1 :=
    fun bound hbound => member_same hkdf h (hbounds bound hbound)
  have hencoded := (fromB64_eq_ok.mp hsalt).1
  have hsalt' : member (some kdf') "salt" = member (some kdf) "salt" := by
    rw [hencoded]
    exact Same.get_str hkdf h hencoded
  refine ⟨checkKdf_eq_ok.mpr ⟨Same.get_str hkdf h halg, fun bound hbound => ?_, ?_, hlength⟩, ?_⟩
  · rw [hmember bound hbound]
    exact hbounds bound hbound
  · rw [hsalt']
    exact hsalt
  · have hm := hmember ("m", 8 * 1024, 1024 * 1024) (by simp [kdfBounds])
    have ht := hmember ("t", 1, 16) (by simp [kdfBounds])
    have hp := hmember ("p", 1, 4) (by simp [kdfBounds])
    dsimp only at hm ht hp
    rw [argon2Of, argon2Of, hm, ht, hp]

end descriptor

/-! ## What is sealed opens -/

/-- AES-GCM adds a tag, Argon2id gives as many bytes as it is asked for, and the numbers that the code
writes are read as they are printed. -/
structure VaultPackages.Lawful (pkg : VaultPackages) : Prop where
  tagged : ∀ key iv aad text, (pkg.gcmEncrypt key iv aad text).length = text.length + 16
  derived_length : ∀ password input, (pkg.argon2id password input).length = input.dkLen
  readsNumbers : ∀ n ∈ [1, 5, 46 * 1024], pkg.engine.readNumeral (Number.ofNat n).spelling = some (Number.ofNat n)

/-- AES-GCM opens this text. -/
def VaultPackages.Opens (pkg : VaultPackages) (key : Bytes) (iv : Iv) (aad text : Bytes) : Prop :=
  pkg.gcmDecrypt key iv.bytes aad (pkg.gcmEncrypt key iv.bytes aad text) = some text

section opening

variable {pkg : VaultPackages} {data kdf blob : Value} {key : Bytes} {password : Text} {iv : Iv}

theorem isWellFormed_ofChars (cs : List Char) : Text.isWellFormed (ofChars cs) = true := by
  refine List.all_eq_true.mpr fun p hp => ?_
  obtain ⟨c, -, rfl⟩ := List.mem_map.mp hp
  rfl

theorem shapeAt_mark : shapeAt '\uFEFF' = none := by decide

/-- No value begins with a byte order mark. -/
theorem decodeText_stringify (data : Value) : decodeText (stringify data).encode = stringify data := by
  refine (decodeText_encode (isWellFormed_ofChars _)).mpr ?_
  obtain ⟨c, rest, hspell, hshape⟩ := shape_spell data
  rw [hspell]
  intro hhead
  have hc : c = '\uFEFF' := Point.char.inj (Option.some.inj hhead)
  rw [hc, shapeAt_mark] at hshape
  cases hshape

theorem deriveKey_eq_ok : deriveKey pkg password (some kdf) = .ok key ↔ ∃ salt, checkKdf (some kdf) = .ok salt ∧
    importKey (pkg.argon2id password.encode (argon2Of (some kdf) salt)) = .ok key := by
  constructor
  · intro h
    obtain ⟨bits, hbits, hkey⟩ := bind_eq_ok.mp h
    obtain ⟨salt, hsalt, hbits⟩ := bind_eq_ok.mp hbits
    cases hbits
    exact ⟨salt, hsalt, hkey⟩
  · rintro ⟨salt, hsalt, hkey⟩
    rw [deriveKey, deriveVaultKeyBits, hsalt]
    exact hkey

theorem deriveKey_same {kdf' : Value} (hkdf : IsParsed pkg.engine kdf) (h : Same kdf kdf')
    (hkey : deriveKey pkg password (some kdf) = .ok key) : deriveKey pkg password (some kdf') = .ok key := by
  obtain ⟨salt, hsalt, hkey⟩ := deriveKey_eq_ok.mp hkey
  obtain ⟨hsalt', hargon⟩ := checkKdf_same hkdf h hsalt
  exact deriveKey_eq_ok.mpr ⟨salt, hsalt', by rw [hargon]; exact hkey⟩

/-- The parts of a blob that says what a sealed one says. -/
theorem parts_of_same {iv sealed : Bytes} (h : Same (vaultBlob kdf iv sealed) blob) :
    blob.get "v" = some (.num formatVersion) ∧ (∃ kdf', blob.get "kdf" = some kdf' ∧ Same kdf kdf') ∧
      blob.get "iv" = some (.str (toB64 iv)) ∧ blob.get "data" = some (.str (toB64 sealed)) := by
  have hnames : ([(lit "v", .num formatVersion), (lit "kdf", kdf), (lit "iv", .str (toB64 iv)),
      (lit "data", .str (toB64 sealed))] : List (Text × Value)).map Prod.fst |>.Nodup := by
    change [lit "v", lit "kdf", lit "iv", lit "data"].Nodup
    decide
  obtain ⟨v, hv, hsamev⟩ := Same.get "v" hnames h rfl
  obtain ⟨kdf', hkdf, hsamekdf⟩ := Same.get "kdf" hnames h rfl
  obtain ⟨i, hi, hsamei⟩ := Same.get "iv" hnames h rfl
  obtain ⟨d, hd, hsamed⟩ := Same.get "data" hnames h rfl
  cases hsamev
  cases hsamei
  cases hsamed
  exact ⟨hv, ⟨kdf', hkdf, hsamekdf⟩, hi, hd⟩

theorem isObject_of_get {name : String} {v : Value} (h : blob.get name = some v) : isObject blob = true := by
  obtain ⟨fields, rfl⟩ := exists_fields h
  rfl

theorem assertVaultFormat_eq_ok (h : blob.get "v" = some (.num formatVersion)) : assertVaultFormat blob = .ok () := by
  have hversion : isVersion (blob.get "v") = true := by
    rw [h]
    exact beq_self_eq_true formatVersion
  simp only [assertVaultFormat, isObject_of_get h, hversion]
  rfl

theorem openSealed_of_same (h : pkg.Lawful)
    (hopens : pkg.Opens key iv (vaultAad (some kdf)) (stringify data).encode) (hdata : IsParsed pkg.engine data)
    (hkdf : IsParsed pkg.engine kdf)
    (hsame : Same (sealVault pkg data key kdf iv) blob) : openSealed pkg blob key = .ok data := by
  obtain ⟨-, ⟨kdf', hkdf', hsamekdf⟩, hiv, hsealed⟩ := parts_of_same hsame
  have haad : vaultAad (some kdf') = vaultAad (some kdf) := by
    rw [vaultAad, vaultAad, canonicalOf, canonicalOf, Option.elim_some, Option.elim_some,
      (canonicalJson_eq_iff hkdf).mpr hsamekdf]
  have hne : pkg.gcmEncrypt key iv.bytes (vaultAad (some kdf)) (stringify data).encode ≠ [] :=
    ne_nil_of_length (h.tagged _ _ _ _)
  rw [openSealed, hiv, hsealed, hkdf', haad, fromB64_toB64 iv.ne_nil, fromB64_toB64 hne, ok_bind, ok_bind, hopens]
  change (parse pkg.engine (decodeText (stringify data).encode)).elim _ _ = _
  rw [decodeText_stringify, stringify, parse_spell hdata]
  rfl

theorem isParsed_nat (h : pkg.Lawful) {n : ℕ} (hn : n ∈ [1, 5, 46 * 1024]) : IsParsed pkg.engine (.num (.ofNat n)) :=
  .num (pkg.engine.readNumeral_spelling _ _ (h.readsNumbers n hn)).1 (h.readsNumbers n hn)

theorem isPaired_lit (s : String) : IsPaired (lit s) := isPaired_ofChars s.toList

theorem isParsed_newVaultKdf (h : pkg.Lawful) (salt : Salt) : IsParsed pkg.engine (newVaultKdf salt) := by
  refine .obj (by change [lit "alg", lit "m", lit "t", lit "p", lit "salt"].Nodup; decide) ?_ ?_
  · simp only [List.forall_mem_cons, List.not_mem_nil, false_implies, implies_true, and_true]
    exact ⟨isPaired_lit _, isPaired_lit _, isPaired_lit _, isPaired_lit _, isPaired_lit _⟩
  · simp only [List.forall_mem_cons, List.not_mem_nil, false_implies, implies_true, and_true]
    exact ⟨.str (isPaired_lit _), isParsed_nat h (by decide), isParsed_nat h (by decide), isParsed_nat h (by decide),
      .str (isPaired_ofChars _)⟩

theorem isParsed_vaultBlob (h : pkg.Lawful) (hkdf : IsParsed pkg.engine kdf) (iv sealed : Bytes) :
    IsParsed pkg.engine (vaultBlob kdf iv sealed) := by
  refine .obj (by change [lit "v", lit "kdf", lit "iv", lit "data"].Nodup; decide) ?_ ?_
  · simp only [List.forall_mem_cons, List.not_mem_nil, false_implies, implies_true, and_true]
    exact ⟨isPaired_lit _, isPaired_lit _, isPaired_lit _, isPaired_lit _⟩
  · simp only [List.forall_mem_cons, List.not_mem_nil, false_implies, implies_true, and_true]
    exact ⟨isParsed_nat h (by decide), hkdf, .str (isPaired_ofChars _), .str (isPaired_ofChars _)⟩

/-- The parameters of a new vault pass their own check. -/
theorem checkKdf_newVaultKdf (salt : Salt) : checkKdf (some (newVaultKdf salt)) = .ok salt.bytes := by
  have hm : inRange (some (.num (.ofNat (46 * 1024)))) (8 * 1024) (1024 * 1024) = true := by decide +kernel
  have hone : inRange (some (.num (.ofNat 1))) 1 16 = true := by decide +kernel
  have hone' : inRange (some (.num (.ofNat 1))) 1 4 = true := by decide +kernel
  refine checkKdf_eq_ok.mpr ⟨rfl, ?_, fromB64_toB64 (ne_nil_of_length salt.length_eq), salt.length_eq.ge⟩
  simp only [kdfBounds, List.forall_mem_cons, List.not_mem_nil, false_implies, implies_true, and_true]
  exact ⟨hm, hone, hone'⟩

theorem deriveKey_of_checkKdf (h : pkg.Lawful) (password : Text) {salt : Bytes}
    (hsalt : checkKdf (some kdf) = .ok salt) :
    deriveKey pkg password (some kdf) = .ok (pkg.argon2id password.encode (argon2Of (some kdf) salt)) :=
  deriveKey_eq_ok.mpr ⟨salt, hsalt, importKey_eq_ok (h.derived_length _ _)⟩

/-- `encryptVault` is `encryptVaultWithKey` under the key of a new descriptor. -/
theorem encryptVault_eq (h : pkg.Lawful) (data : Value) (password : Text) (salt : Salt) (iv : Iv) :
    ∃ key, deriveKey pkg password (some (newVaultKdf salt)) = .ok key ∧
      encryptVault pkg data password salt iv = encryptVaultWithKey pkg data key (newVaultKdf salt) iv := by
  have hsalt := checkKdf_newVaultKdf salt
  refine ⟨_, deriveKey_of_checkKdf h password hsalt, ?_⟩
  rw [encryptVault, deriveKey_of_checkKdf h password hsalt, encryptVaultWithKey, hsalt]
  rfl

theorem parse_sealed (h : pkg.Lawful) (hkdf : IsParsed pkg.engine kdf)
    (hblob : encryptVaultWithKey pkg data key kdf iv = .ok blob) : parse pkg.engine (stringify blob) = some blob := by
  obtain ⟨_, -, hblob⟩ := bind_eq_ok.mp hblob
  obtain rfl := Except.ok.inj hblob
  exact parse_spell (isParsed_vaultBlob h hkdf _ _)

theorem decrypt_sealed (h : pkg.Lawful)
    (hopens : pkg.Opens key iv (vaultAad (some kdf)) (stringify data).encode) (hdata : IsParsed pkg.engine data)
    (hkdf : IsParsed pkg.engine kdf) (hkey : deriveKey pkg password (some kdf) = .ok key) {blob' : Value}
    (hblob : encryptVaultWithKey pkg data key kdf iv = .ok blob) (hsame : Same blob blob') :
    decryptVault pkg blob' password = .ok data ∧ decryptVaultWithKey pkg blob' key = .ok data := by
  obtain ⟨_, -, hblob⟩ := bind_eq_ok.mp hblob
  obtain rfl := Except.ok.inj hblob
  have hopen := openSealed_of_same h hopens hdata hkdf hsame
  obtain ⟨hversion, ⟨kdf', hkdf', hsamekdf⟩, -, -⟩ := parts_of_same hsame
  have hformat := assertVaultFormat_eq_ok hversion
  refine ⟨?_, ?_⟩
  · rw [decryptVault, vaultKdfOf, hformat, hkdf']
    change (deriveKey pkg password (some kdf') >>= _) = _
    rw [deriveKey_same hkdf hsamekdf hkey, ok_bind, hopen]
    rfl
  · rw [decryptVaultWithKey, hformat, ok_bind, hopen]
    rfl

/-- A vault that is sealed under the key of a password opens with the password, and with the key, from
any text of the blob and whatever order its members come in. -/
theorem vault_opens (h : pkg.Lawful) (hopens : ∀ key iv aad text, pkg.Opens key iv aad text)
    (hdata : IsParsed pkg.engine data) (password : Text) :
    (∀ salt iv, ∃ key, deriveKey pkg password (some (newVaultKdf salt)) = .ok key ∧
      encryptVault pkg data password salt iv = encryptVaultWithKey pkg data key (newVaultKdf salt) iv) ∧
    ∀ kdf key iv, IsParsed pkg.engine kdf → deriveKey pkg password (some kdf) = .ok key → ∃ blob,
      encryptVaultWithKey pkg data key kdf iv = .ok blob ∧ isEncryptedVaultBlob blob = true ∧
        parse pkg.engine (stringify blob) = some blob ∧ ∀ blob', Same blob blob' →
          decryptVault pkg blob' password = .ok data ∧ decryptVaultWithKey pkg blob' key = .ok data := by
  refine ⟨fun salt iv => encryptVault_eq h data password salt iv, fun kdf key iv hkdf hkey => ?_⟩
  obtain ⟨salt, hsalt, -⟩ := deriveKey_eq_ok.mp hkey
  have hblob : encryptVaultWithKey pkg data key kdf iv = .ok (sealVault pkg data key kdf iv) := by
    rw [encryptVaultWithKey, hsalt, ok_bind]
  exact ⟨_, hblob, rfl, parse_sealed h hkdf hblob, fun blob' hsame =>
    decrypt_sealed h (hopens _ _ _ _) hdata hkdf hkey hblob hsame⟩

end opening

/-! ## What opens was sealed -/

/-- One call of `encryptVaultWithKey`, or what `encryptVault` does. -/
structure Sealing where
  data : Value
  key : Bytes
  kdf : Value
  iv : Iv

def Sealing.blob (pkg : VaultPackages) (s : Sealing) : Except String Value :=
  encryptVaultWithKey pkg s.data s.key s.kdf s.iv

/-- AES-GCM opens what was sealed and nothing else. -/
structure Ideal (pkg : VaultPackages) (sealings : List Sealing) : Prop where
  opens : ∀ key iv aad sealed text, pkg.gcmDecrypt key iv aad sealed = some text →
    sealed = pkg.gcmEncrypt key iv aad text ∧ ∃ s ∈ sealings, key = s.key ∧ iv = s.iv.bytes ∧
      aad = vaultAad (some s.kdf) ∧ text = (stringify s.data).encode
  made : ∀ s ∈ sealings, IsParsed pkg.engine s.data ∧ IsParsed pkg.engine s.kdf ∧ ∃ blob, s.blob pkg = .ok blob

/-- The blob says what a sealing wrote, with the descriptor's members in any order. -/
def Says (blob written : Value) : Prop :=
  blob.get "v" = written.get "v" ∧ blob.get "iv" = written.get "iv" ∧ blob.get "data" = written.get "data" ∧
    ∃ kdf kdf', written.get "kdf" = some kdf ∧ blob.get "kdf" = some kdf' ∧ Same kdf kdf'

/-- What the code lets Argon2id be asked for. -/
structure WithinBounds (input : Argon2) : Prop where
  salt : 16 ≤ input.salt.length
  memory : 8192 ≤ input.m ∧ input.m ≤ 1048576
  passes : 1 ≤ input.t ∧ input.t ≤ 16
  lanes : 1 ≤ input.p ∧ input.p ≤ 4
  derived : input.dkLen = 32

section authenticity

variable {pkg : VaultPackages} {sealings : List Sealing} {blob data : Value} {key salt : Bytes} {password : Text}

theorem exists_obj_of_checkKdf {kdf : Option Value} (h : checkKdf kdf = .ok salt) :
    ∃ fields, kdf = some (.obj fields) := by
  have halg := (checkKdf_eq_ok.mp h).1
  cases kdf with
  | none => cases halg
  | some v =>
    obtain ⟨fields, rfl⟩ := exists_fields halg
    exact ⟨fields, rfl⟩

/-- The associated data says which descriptor it was made of. -/
theorem same_of_vaultAad {kdf : Value} (hkdf : IsParsed pkg.engine kdf) (hcheck : checkKdf (some kdf) = .ok salt)
    {stored : Option Value} (h : vaultAad stored = vaultAad (some kdf)) :
    ∃ kdf', stored = some kdf' ∧ Same kdf kdf' := by
  have hwell (kdf : Option Value) :
      Text.isWellFormed (lit "Kryptolog vault\nv=5\nkdf=" ++ canonicalOf kdf) = true := by
    rw [Text.isWellFormed, List.all_append, Bool.and_eq_true_iff]
    exact ⟨by decide, isWellFormed_ofChars _⟩
  have hcanonical := ofChars_inj (List.append_cancel_left (encode_inj (hwell stored) (hwell (some kdf)) h))
  cases stored with
  | some kdf' => exact ⟨kdf', rfl, (canonicalJson_eq_iff hkdf).mp hcanonical.symm⟩
  | none =>
    have hnull : Same kdf .null := (canonicalJson_eq_iff hkdf).mp hcanonical.symm
    obtain ⟨fields, hobj⟩ := exists_obj_of_checkKdf hcheck
    cases hobj
    cases hnull

theorem elim_error_eq_ok {α : Type} {o : Option α} {e : String} {a : α} :
    o.elim (.error e) .ok = (.ok a : Except String α) ↔ o = some a := by
  cases o <;> simp

theorem mapError_eq_ok {α : Type} {x : Except String α} {f : String → String} {a : α} :
    x.mapError f = .ok a ↔ x = .ok a := by
  cases x <;> simp [Except.mapError]

theorem isVersion_iff {value : Option Value} : isVersion value = true ↔ value = some (.num formatVersion) := by
  unfold isVersion
  split <;> simp_all

theorem openSealed_was_sealed (h : Ideal pkg sealings) (hversion : isVersion (blob.get "v") = true)
    (hopen : openSealed pkg blob key = .ok data) : ∃ s ∈ sealings, ∃ written, s.blob pkg = .ok written ∧
      key = s.key ∧ data = s.data ∧ Says blob written := by
  obtain ⟨iv, hiv, hopen⟩ := bind_eq_ok.mp hopen
  obtain ⟨sealed, hsealed, hopen⟩ := bind_eq_ok.mp hopen
  obtain ⟨text, htext, hopen⟩ := bind_eq_ok.mp hopen
  obtain ⟨hencrypted, s, hs, rfl, rfl, haad, rfl⟩ := h.opens _ _ _ _ _ (elim_error_eq_ok.mp htext)
  obtain ⟨hdata, hkdf, written, hwritten⟩ := h.made s hs
  obtain ⟨salt, hsalt, hsealed'⟩ := bind_eq_ok.mp hwritten
  rw [decodeText_stringify, stringify, parse_spell hdata] at hopen
  obtain ⟨kdf', hstored, hsame⟩ := same_of_vaultAad hkdf hsalt haad
  refine ⟨s, hs, written, hwritten, rfl, (Except.ok.inj hopen).symm, ?_⟩
  rw [← Except.ok.inj hsealed']
  refine ⟨isVersion_iff.mp hversion, (fromB64_eq_ok.mp hiv).1, ?_, s.kdf, kdf', rfl, hstored, hsame⟩
  rw [(fromB64_eq_ok.mp hsealed).1, hencrypted, haad]
  rfl

theorem deriveKey_of_same {kdf kdf' : Value} (hkdf : IsParsed pkg.engine kdf)
    (hcheck : checkKdf (some kdf) = .ok salt) (hsame : Same kdf kdf') :
    deriveKey pkg password (some kdf') = deriveKey pkg password (some kdf) := by
  obtain ⟨hcheck', hargon⟩ := checkKdf_same hkdf hsame hcheck
  rw [deriveKey, deriveKey, deriveVaultKeyBits, deriveVaultKeyBits, hcheck, hcheck', ok_bind, ok_bind, hargon]
  rfl

theorem withinBounds_of_checkKdf {kdf : Option Value} (h : checkKdf kdf = .ok salt) :
    WithinBounds (argon2Of kdf salt) := by
  obtain ⟨-, hbounds, -, hlength⟩ := checkKdf_eq_ok.mp h
  have hrange : ∀ name lo hi, (name, lo, hi) ∈ kdfBounds → lo ≤ count (member kdf name) ∧
      count (member kdf name) ≤ hi := by
    intro name lo hi hmem
    obtain ⟨_, _, _, hlo, hhi⟩ := inRange_iff.mp (hbounds _ hmem)
    exact ⟨hlo, hhi⟩
  exact ⟨hlength, hrange "m" _ _ (by simp [kdfBounds]), hrange "t" _ _ (by simp [kdfBounds]),
    hrange "p" _ _ (by simp [kdfBounds]), rfl⟩

theorem deriveKey_within {argon2id : Bytes → Argon2 → Bytes}
    (h : ∀ bytes input, WithinBounds input → argon2id bytes input = pkg.argon2id bytes input) (kdf : Option Value) :
    deriveKey { pkg with argon2id } password kdf = deriveKey pkg password kdf := by
  unfold deriveKey deriveVaultKeyBits
  cases hcheck : checkKdf kdf with
  | error e => rfl
  | ok salt =>
    rw [ok_bind, ok_bind]
    exact congrArg (Except.ok · >>= importKey) (h _ _ (withinBounds_of_checkKdf hcheck))

theorem isVersion_of_assertVaultFormat (h : assertVaultFormat blob = .ok ()) : isVersion (blob.get "v") = true := by
  obtain ⟨_, -, hversion⟩ := bind_eq_ok.mp h
  rwa [refuseIf_eq_ok, Bool.not_eq_false'] at hversion

theorem decryptVault_was_sealed (h : Ideal pkg sealings) (hopen : decryptVault pkg blob password = .ok data) :
    ∃ s ∈ sealings, ∃ written, s.blob pkg = .ok written ∧ Says blob written ∧ data = s.data ∧
      deriveKey pkg password (some s.kdf) = .ok s.key := by
  obtain ⟨kdf, hkdf, hopen⟩ := bind_eq_ok.mp hopen
  obtain ⟨key, hkey, hopen⟩ := bind_eq_ok.mp hopen
  obtain ⟨_, hformat, hkdf⟩ := bind_eq_ok.mp hkdf
  obtain ⟨s, hs, written, hwritten, rfl, hdata, hsays⟩ :=
    openSealed_was_sealed h (isVersion_of_assertVaultFormat hformat) (mapError_eq_ok.mp hopen)
  refine ⟨s, hs, written, hwritten, hsays, hdata, ?_⟩
  obtain ⟨-, hparsed, -⟩ := h.made s hs
  obtain ⟨salt, hsalt, hsealed⟩ := bind_eq_ok.mp hwritten
  obtain ⟨-, -, -, kdf₀, kdf', hwrittenKdf, hstored, hsame⟩ := hsays
  cases hsealed
  obtain rfl := Option.some.inj hwrittenKdf
  have hkdf' : some kdf' = kdf := hstored.symm.trans (Except.ok.inj hkdf)
  rw [← hkdf'] at hkey
  rw [← deriveKey_of_same hparsed hsalt hsame]
  exact hkey

/-- A blob that opens, with a password or with a key, says what a sealing under that key wrote, and the
data that was sealed comes out. No blob makes Argon2id run outside the bounds. -/
theorem opened_vault_was_sealed (h : Ideal pkg sealings) (blob : Value) :
    (∀ password data, decryptVault pkg blob password = .ok data → ∃ s ∈ sealings, ∃ written,
      s.blob pkg = .ok written ∧ Says blob written ∧ data = s.data ∧
        deriveKey pkg password (some s.kdf) = .ok s.key) ∧
    (∀ key data, decryptVaultWithKey pkg blob key = .ok data → ∃ s ∈ sealings, ∃ written,
      s.blob pkg = .ok written ∧ Says blob written ∧ data = s.data ∧ key = s.key) ∧
    ∀ argon2id, (∀ bytes input, WithinBounds input → argon2id bytes input = pkg.argon2id bytes input) →
      ∀ password, decryptVault { pkg with argon2id } blob password = decryptVault pkg blob password := by
  refine ⟨fun password data hopen => decryptVault_was_sealed h hopen, fun key data hopen => ?_,
    fun argon2id hwithin password => ?_⟩
  · obtain ⟨_, hformat, hopen⟩ := bind_eq_ok.mp hopen
    obtain ⟨s, hs, written, hwritten, hkey, hdata, hsays⟩ :=
      openSealed_was_sealed h (isVersion_of_assertVaultFormat hformat) (mapError_eq_ok.mp hopen)
    exact ⟨s, hs, written, hwritten, hsays, hdata, hkey⟩
  · unfold decryptVault
    cases vaultKdfOf blob with
    | error e => rfl
    | ok kdf =>
      rw [ok_bind, ok_bind, deriveKey_within hwithin]
      rfl

end authenticity

/-! ## A sample -/

def sampleVaultIv : Iv := ⟨List.replicate 12 7, List.length_replicate⟩

def sampleSalt : Salt := ⟨List.replicate 16 9, List.length_replicate⟩

def sampleVaultData : Value := .obj [(lit "accounts", .arr [])]

def samplePassword : Text := lit "correct horse battery"

/-- A password with zeros after it, as the key. -/
def sampleArgon2 (password : Bytes) (input : Argon2) : Bytes :=
  (password ++ List.replicate input.dkLen 0).take input.dkLen

theorem length_sampleArgon2 (password : Bytes) (input : Argon2) :
    (sampleArgon2 password input).length = input.dkLen := by
  rw [sampleArgon2, List.length_take, List.length_append, List.length_replicate]
  omega

def sampleSealing (data : Value) (password : Text) : Sealing where
  data := data
  key := sampleArgon2 password.encode (argon2Of (some (newVaultKdf sampleSalt)) sampleSalt.bytes)
  kdf := newVaultKdf sampleSalt
  iv := sampleVaultIv

def tagged (text : Bytes) : Bytes := text ++ List.replicate 16 0

theorem length_tagged (text : Bytes) : (tagged text).length = text.length + 16 := by
  rw [tagged, List.length_append, List.length_replicate]

/-- A tag after the text; everything with a tag opens. -/
def samplePackages : VaultPackages where
  argon2id := sampleArgon2
  gcmEncrypt _ _ _ text := tagged text
  gcmDecrypt _ _ _ sealed := some (sealed.take (sealed.length - 16))
  engine := sampleEngine

/-- A tag after the text; what opens is what the sealing wrote. -/
def sampleIdeal (s : Sealing) : VaultPackages where
  argon2id := sampleArgon2
  gcmEncrypt _ _ _ text := tagged text
  gcmDecrypt key iv aad sealed :=
    if key = s.key ∧ iv = s.iv.bytes ∧ aad = vaultAad (some s.kdf) ∧ sealed = tagged (stringify s.data).encode then
      some (stringify s.data).encode
    else none
  engine := sampleEngine

theorem readsNumbers_sampleEngine : ∀ n ∈ [1, 5, 46 * 1024],
    sampleEngine.readNumeral (Number.ofNat n).spelling = some (Number.ofNat n) := by
  decide +kernel

theorem lawful_samplePackages : samplePackages.Lawful :=
  ⟨fun _ _ _ text => length_tagged text, length_sampleArgon2, readsNumbers_sampleEngine⟩

theorem lawful_sampleIdeal (s : Sealing) : (sampleIdeal s).Lawful :=
  ⟨fun _ _ _ text => length_tagged text, length_sampleArgon2, readsNumbers_sampleEngine⟩

theorem opens_samplePackages (key : Bytes) (iv : Iv) (aad text : Bytes) : samplePackages.Opens key iv aad text := by
  change some ((tagged text).take ((tagged text).length - 16)) = some text
  rw [length_tagged, Nat.add_sub_cancel, tagged, List.take_left]

theorem opens_sampleIdeal (s : Sealing) :
    (sampleIdeal s).Opens s.key s.iv (vaultAad (some s.kdf)) (stringify s.data).encode :=
  if_pos ⟨rfl, rfl, rfl, rfl⟩

theorem isParsed_sampleVaultData : IsParsed sampleEngine sampleVaultData := by
  refine .obj (List.nodup_singleton _) ?_ ?_
  · exact List.forall_mem_singleton.mpr (isPaired_lit _)
  · refine List.forall_mem_singleton.mpr (.arr ?_)
    exact fun v hv => absurd hv List.not_mem_nil

theorem vault_opens_sample : ∃ blob, encryptVault samplePackages sampleVaultData samplePassword sampleSalt
    sampleVaultIv = .ok blob ∧ decryptVault samplePackages blob samplePassword = .ok sampleVaultData := by
  obtain ⟨hnew, hkeyed⟩ :=
    vault_opens lawful_samplePackages opens_samplePackages isParsed_sampleVaultData samplePassword
  obtain ⟨key, hkey, hseal⟩ := hnew sampleSalt sampleVaultIv
  obtain ⟨blob, hblob, -, hparse, hopens⟩ := hkeyed _ _ sampleVaultIv
    (isParsed_newVaultKdf lawful_samplePackages sampleSalt) hkey
  refine ⟨blob, hseal.trans hblob, (hopens blob ?_).1⟩
  exact (canonicalJson_eq_iff (isParsed_of_parse hparse)).mp rfl

theorem blob_sampleSealing {data : Value} {password : Text} (pkg : VaultPackages) :
    (sampleSealing data password).blob pkg =
      .ok (sealVault pkg data (sampleSealing data password).key (newVaultKdf sampleSalt) sampleVaultIv) := by
  rw [Sealing.blob, encryptVaultWithKey]
  change (checkKdf (some (newVaultKdf sampleSalt)) >>= _) = _
  rw [checkKdf_newVaultKdf]
  rfl

theorem ideal_sampleIdeal {data : Value} (hdata : IsParsed sampleEngine data) (password : Text) :
    Ideal (sampleIdeal (sampleSealing data password)) [sampleSealing data password] where
  opens key iv aad sealed text h := by
    change (if _ then some (stringify data).encode else none) = some text at h
    split at h
    · next hparts =>
      obtain ⟨hkey, hiv, haad, hsealed⟩ := hparts
      obtain rfl := Option.some.inj h
      exact ⟨hsealed, _, List.mem_singleton.mpr rfl, hkey, hiv, haad, rfl⟩
    · cases h
  made := by
    refine List.forall_mem_singleton.mpr ⟨hdata, isParsed_newVaultKdf lawful_samplePackages _, ?_⟩
    exact ⟨_, blob_sampleSealing _⟩

theorem deriveKey_sampleSealing {data : Value} {password : Text} (s : Sealing) :
    deriveKey (sampleIdeal s) password (some (newVaultKdf sampleSalt)) = .ok (sampleSealing data password).key :=
  deriveKey_of_checkKdf (lawful_sampleIdeal s) password (checkKdf_newVaultKdf sampleSalt)

/-- The sealed sample opens, and what opens is the sample. -/
theorem opened_vault_was_sealed_sample : ∃ blob data,
    (sampleSealing sampleVaultData samplePassword).blob (sampleIdeal (sampleSealing sampleVaultData samplePassword)) =
      .ok blob ∧
    decryptVault (sampleIdeal (sampleSealing sampleVaultData samplePassword)) blob samplePassword = .ok data ∧
      data = sampleVaultData := by
  have hkdf := isParsed_newVaultKdf lawful_samplePackages sampleSalt
  have hblob := @blob_sampleSealing sampleVaultData samplePassword
    (sampleIdeal (sampleSealing sampleVaultData samplePassword))
  have hparse := parse_sealed (lawful_sampleIdeal (sampleSealing sampleVaultData samplePassword)) hkdf hblob
  have hopens := opens_sampleIdeal (sampleSealing sampleVaultData samplePassword)
  have hopen := (decrypt_sealed (lawful_sampleIdeal _) hopens isParsed_sampleVaultData hkdf
    (deriveKey_sampleSealing _) hblob
    ((canonicalJson_eq_iff (isParsed_of_parse hparse)).mp rfl)).1
  refine ⟨_, _, hblob, hopen, ?_⟩
  obtain ⟨s, hs, -, -, -, hdata, -⟩ :=
    (opened_vault_was_sealed (ideal_sampleIdeal isParsed_sampleVaultData samplePassword) _).1 _ _ hopen
  obtain rfl := List.mem_singleton.mp hs
  exact hdata

end Kryptolog.Client.VaultBlobs
