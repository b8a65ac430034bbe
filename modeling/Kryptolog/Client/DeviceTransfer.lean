import Mathlib.Data.List.TakeWhile
import Kryptolog.Client.NewVaults
import Kryptolog.Client.VaultBlobs
import Kryptolog.Library.UriComponent

/-! # Keys for another device

The one device seals its vault under a code and shows the code with the id of the blob, as a text and as
a link (`SendKeysModal.jsx`, `generateTransferCode` of `signing.js`). The other one takes the blob that
the relay has for the id and makes a vault of it (`ReceiveKeys.jsx`, `services/transfer.js`,
`services/vaultBackup.js`). What the relay answers is a parameter.
-/

namespace Kryptolog.Client.DeviceTransfer
set_option autoImplicit false

open Script Fallible JsonText CanonicalText Envelopes VaultBlobs

/-! ## The code -/

/-- `_B32`. -/
def b32 : List Char :=
  ['0', '1', '2', '3', '4', '5', '6', '7', '8', '9', 'A', 'B', 'C', 'D', 'E', 'F', 'G', 'H', 'J', 'K', 'M', 'N', 'P',
    'Q', 'R', 'S', 'T', 'V', 'W', 'X', 'Y', 'Z']

/-- `b.toString(2).padStart(8, '0')`. -/
def byteBits (b : UInt8) : List ℕ := [128, 64, 32, 16, 8, 4, 2, 1].map fun w => b.toNat / w % 2

/-- The letter of at most five bits. -/
def symbol (bits : List ℕ) : Char :=
  b32.getD ((bits ++ List.replicate (5 - bits.length) 0).foldl (fun n bit => 2 * n + bit) 0) '0'

/-- The loop over five bits at a time. -/
def symbols : List ℕ → List Char
  | [] => []
  | a :: b :: c :: d :: e :: bits => symbol [a, b, c, d, e] :: symbols bits
  | bits => [symbol bits]

/-- The matches of `/.{1,4}/g`. -/
def groups : List Char → List (List Char)
  | [] => []
  | a :: b :: c :: d :: cs => [a, b, c, d] :: groups cs
  | cs => [cs]

/-- `generateTransferCode`, with its random bytes. -/
def generateTransferCode (bytes : Bytes) : Text :=
  ofChars (['-'].intercalate (groups (symbols (bytes.flatMap byteBits))))

/-! ## The hand-off -/

def packHandoff (id passphrase : Text) : Text := id ++ .char '.' :: passphrase

/-- The white space that `trim` takes off. -/
def isWhite (p : Point) : Bool :=
  p.satisfies fun c => [9, 10, 11, 12, 13, 32, 160, 5760, 8232, 8233, 8239, 8287, 12288, 65279].contains c.toNat ||
    (8192 ≤ c.toNat && c.toNat ≤ 8202)

def trim (s : Text) : Text := ((s.dropWhile isWhite).reverse.dropWhile isWhite).reverse

/-- The id and the passphrase. -/
def unpackHandoff (str : Text) : Option (Text × Text) :=
  match (trim str).idxOf? (.char '.') with
  | none => none
  | some dot =>
    let id := (trim str).take dot
    let passphrase := (trim str).drop (dot + 1)
    if dot < 1 || id.isEmpty || passphrase.isEmpty then none else some (id, passphrase)

/-- The link that the sender shows. -/
def deepLink (origin code : Text) : Option Text :=
  (UriComponent.encode code).map fun component => origin ++ lit "/receive#t=" ++ component

/-- `window.location.hash`. -/
def hashOf (link : Text) : Text := link.dropWhile fun p => p != .char '#'

/-- What `/[#&]t=([^&]+)/` captures. -/
def captured : Text → Option Text
  | [] => none
  | p :: s =>
    if (p == .char '#' || p == .char '&') && (lit "t=").isPrefixOf s &&
        !((s.drop 2).takeWhile fun q => q != .char '&').isEmpty then
      some ((s.drop 2).takeWhile fun q => q != .char '&')
    else captured s

/-- The code that the page of the receiver fills in. -/
def prefill (hash : Text) : Option Text := (captured hash).map fun t => (UriComponent.decode t).getD t

/-! ## The vault -/

section devices

variable (pkg : VaultPackages) (suites : KeySuites) (toLowerCase : Text → Text)

/-- `{ ...fullVault, trustStore }`. -/
def exportedValue (v : Vault) (trustStore : Value) : Value :=
  .obj [(lit "accounts", .arr (v.accounts.map (·.value suites))),
    (lit "activeAccountId", v.activeAccountId.elim .null .str), (lit "trustStore", trustStore)]

def requireStrongPassword (password : Text) : Except String Unit :=
  (vaultPasswordProblem toLowerCase password).elim (.ok ()) .error

/-- `exportEncryptedBlob`, of what `_getFullVault` returns. -/
def exportEncryptedBlob (isLocked : Bool) (opened : Except String Vault) (trustStore : Value)
    (transferPassphrase : Text) (salt : Salt) (iv : Iv) : Except String Text := do
  refuseIf isLocked "Vault locked"
  refuseIf transferPassphrase.isEmpty "Transfer passphrase required"
  requireStrongPassword toLowerCase transferPassphrase
  let fullVault ← opened
  let encrypted ← encryptVault pkg (exportedValue suites fullVault trustStore) transferPassphrase salt iv
  .ok (stringify encrypted)

/-- The service's packages, as they are. A descriptor is given by its JSON text and a key in hexadecimal. -/
def newVaultPrimitives : NewVaultPrimitives where
  parseJson := parse pkg.engine
  decryptVault := VaultBlobs.decryptVault pkg
  suites := suites
  deriveKey password kdf := ((VaultBlobs.deriveKey pkg password (parse pkg.engine kdf)).toOption.map toHex).getD []
  vaultPasswordProblem := vaultPasswordProblem toLowerCase

/-- The vault that `importEncryptedBlob` stores. -/
def importEncryptedBlob (hasVault : Bool) (blobString transferPassphrase newLocalPassword : Text) (now : Number) :
    Except String Vault := do
  refuseIf hasVault "A vault already exists on this device. Import from the Vault Manager while signed in."
  requireStrongPassword toLowerCase newLocalPassword
  let encrypted ← (parse pkg.engine blobString).elim (.error "Invalid transfer data") .ok
  let fullVault ← VaultBlobs.decryptVault pkg encrypted transferPassphrase
  importedVault (newVaultPrimitives pkg suites toLowerCase) (stringify fullVault) now

/-- `handleCode`, on a device without a vault: `claim` is what the relay answers. -/
def handleCode (claim : Text → Except String Text) (code newPass : Text) (now : Number) : Except String Vault := do
  let parsed ← (unpackHandoff code).elim (.error "That doesn't look like a valid transfer code.") .ok
  requireStrongPassword toLowerCase newPass
  let blob ← claim parsed.1
  importEncryptedBlob pkg suites toLowerCase false blob parsed.2 newPass now

end devices

/-! ## Every bit of the code -/

/-- The five bits of a letter. -/
def symbolBits (c : Char) : List ℕ :=
  [16, 8, 4, 2, 1].map fun w => (b32.idxOf c) / w % 2

section code

theorem idxOf_b32 : ∀ n < 32, b32.idxOf (b32.getD n '0') = n := by decide

/-- The number that five bits stand for. -/
theorem symbol_five (a b c d e : ℕ) :
    symbol [a, b, c, d, e] = b32.getD (16 * a + 8 * b + 4 * c + 2 * d + e) '0' := by
  have hvalue : 2 * (2 * (2 * (2 * (2 * 0 + a) + b) + c) + d) + e = 16 * a + 8 * b + 4 * c + 2 * d + e := by omega
  rw [← hvalue]
  rfl

theorem symbolBits_five {a b c d e : ℕ} (ha : a < 2) (hb : b < 2) (hc : c < 2) (hd : d < 2) (he : e < 2) :
    symbolBits (symbol [a, b, c, d, e]) = [a, b, c, d, e] := by
  have hindex : b32.idxOf (symbol [a, b, c, d, e]) = 16 * a + 8 * b + 4 * c + 2 * d + e := by
    rw [symbol_five, idxOf_b32 _ (by omega)]
  simp only [symbolBits, hindex, List.map_cons, List.map_nil, List.cons.injEq, and_true]
  omega

/-- The letters give the bits back, with zeros after them. -/
theorem symbolBits_symbols {bits : List ℕ} (h : ∀ bit ∈ bits, bit < 2) :
    ∃ n, (symbols bits).flatMap symbolBits = bits ++ List.replicate n 0 := by
  have hzero : 0 < 2 := by decide
  match bits, h with
  | [], _ => exact ⟨0, rfl⟩
  | [a], h =>
    simp only [List.forall_mem_cons] at h
    exact ⟨4, symbolBits_five h.1 hzero hzero hzero hzero⟩
  | [a, b], h =>
    simp only [List.forall_mem_cons] at h
    exact ⟨3, symbolBits_five h.1 h.2.1 hzero hzero hzero⟩
  | [a, b, c], h =>
    simp only [List.forall_mem_cons] at h
    exact ⟨2, symbolBits_five h.1 h.2.1 h.2.2.1 hzero hzero⟩
  | [a, b, c, d], h =>
    simp only [List.forall_mem_cons] at h
    exact ⟨1, symbolBits_five h.1 h.2.1 h.2.2.1 h.2.2.2.1 hzero⟩
  | a :: b :: c :: d :: e :: bits, h =>
    simp only [List.forall_mem_cons] at h
    obtain ⟨ha, hb, hc, hd, he, hbits⟩ := h
    obtain ⟨n, hn⟩ := symbolBits_symbols hbits
    refine ⟨n, ?_⟩
    rw [symbols, List.flatMap_cons, symbolBits_five ha hb hc hd he, hn]
    rfl

theorem byteBits_lt {b : UInt8} : ∀ bit ∈ byteBits b, bit < 2 := by
  intro bit hbit
  obtain ⟨w, -, rfl⟩ := List.mem_map.mp hbit
  exact Nat.mod_lt _ (by decide)

theorem half (n m : ℕ) : n / m = 2 * (n / (m * 2)) + n / m % 2 := by
  rw [← Nat.div_div_eq_div_mul]
  omega
theorem eq_bits {n : ℕ} (h : n < 256) : n = 128 * (n / 128 % 2) + 64 * (n / 64 % 2) + 32 * (n / 32 % 2) +
    16 * (n / 16 % 2) + 8 * (n / 8 % 2) + 4 * (n / 4 % 2) + 2 * (n / 2 % 2) + n / 1 % 2 := by
  have htop : n / 128 % 2 = n / 128 := Nat.mod_eq_of_lt (Nat.div_lt_of_lt_mul h)
  have hone : n / 1 = n := Nat.div_one n
  have h1 : n / 1 = 2 * (n / 2) + n / 1 % 2 := half n 1
  have h2 : n / 2 = 2 * (n / 4) + n / 2 % 2 := half n 2
  have h4 : n / 4 = 2 * (n / 8) + n / 4 % 2 := half n 4
  have h8 : n / 8 = 2 * (n / 16) + n / 8 % 2 := half n 8
  have h16 : n / 16 = 2 * (n / 32) + n / 16 % 2 := half n 16
  have h32 : n / 32 = 2 * (n / 64) + n / 32 % 2 := half n 32
  have h64 : n / 64 = 2 * (n / 128) + n / 64 % 2 := half n 64
  generalize n / 128 % 2 = b7, n / 64 % 2 = b6, n / 32 % 2 = b5, n / 16 % 2 = b4, n / 8 % 2 = b3,
    n / 4 % 2 = b2, n / 2 % 2 = b1, n / 1 % 2 = b0 at *
  generalize n / 128 = c7, n / 64 = c6, n / 32 = c5, n / 16 = c4, n / 8 = c3, n / 4 = c2, n / 2 = c1,
    n / 1 = c0 at *
  omega

theorem byteBits_inj {a b : UInt8} (h : byteBits a = byteBits b) : a = b := by
  simp only [byteBits, List.map_cons, List.map_nil, List.cons.injEq, and_true] at h
  obtain ⟨h128, h64, h32, h16, h8, h4, h2, h1⟩ := h
  refine UInt8.toNat_inj.mp ?_
  rw [eq_bits a.toNat_lt, eq_bits b.toNat_lt, h128, h64, h32, h16, h8, h4, h2, h1]

theorem length_flatMap_byteBits (bytes : Bytes) : (bytes.flatMap byteBits).length = 8 * bytes.length := by
  induction bytes with
  | nil => rfl
  | cons b bytes ih =>
    rw [List.flatMap_cons, List.length_append, ih, List.length_cons]
    change 8 + _ = _
    omega

theorem flatMap_byteBits_inj {xs ys : Bytes} (h : xs.flatMap byteBits = ys.flatMap byteBits) : xs = ys := by
  induction xs generalizing ys with
  | nil =>
    cases ys with
    | nil => rfl
    | cons y ys => cases h
  | cons x xs ih =>
    cases ys with
    | nil => cases h
    | cons y ys =>
      rw [List.flatMap_cons, List.flatMap_cons] at h
      obtain ⟨hbyte, hrest⟩ := List.append_inj h rfl
      rw [byteBits_inj hbyte, ih hrest]

theorem flatten_groups (cs : List Char) : (groups cs).flatten = cs := by
  match cs with
  | [] => rfl
  | [_] | [_, _] | [_, _, _] => rfl
  | a :: b :: c :: d :: cs =>
    rw [groups, List.flatten_cons, flatten_groups cs]
    rfl

theorem b32_mem {n : ℕ} : b32.getD n '0' ∈ b32 := by
  rw [List.getD_eq_getElem?_getD]
  cases h : b32[n]? with
  | none => exact List.mem_cons_self
  | some c => exact List.mem_of_getElem? h

theorem symbols_mem (bits : List ℕ) : ∀ c ∈ symbols bits, c ∈ b32 := by
  induction bits using symbols.induct with
  | case1 => exact fun c hc => absurd hc List.not_mem_nil
  | case2 a b c d e bits ih =>
    rw [symbols]
    exact List.forall_mem_cons.mpr ⟨b32_mem, ih⟩
  | case3 bits hne hfive =>
    rw [symbols.eq_3 bits hne hfive]
    exact List.forall_mem_singleton.mpr b32_mem

theorem dash_not_mem : '-' ∉ b32 := by decide

/-- The code without its dashes. -/
theorem filter_intercalate {gs : List (List Char)} (h : ∀ g ∈ gs, '-' ∉ g) :
    (['-'].intercalate gs).filter (fun c => c != '-') = gs.flatten := by
  have hdash : ['-'].filter (fun c => c != '-') = [] := rfl
  have hgroup : ∀ g ∈ gs, g.filter (fun c => c != '-') = g := by
    intro g hg
    refine List.filter_eq_self.mpr fun c hc => ?_
    have hne : c ≠ '-' := fun heq => h g hg (heq ▸ hc)
    simpa using hne
  clear h
  induction gs with
  | nil => rfl
  | cons g gs ih =>
    obtain ⟨hg, hgs⟩ := List.forall_mem_cons.mp hgroup
    cases gs with
    | nil => rw [List.intercalate_singleton, hg, List.flatten_singleton]
    | cons g' gs =>
      rw [List.intercalate_cons_cons, List.filter_append, List.filter_append, hg, ih hgs, hdash, List.append_nil]
      rfl

theorem groups_symbols_dash (bits : List ℕ) : ∀ g ∈ groups (symbols bits), '-' ∉ g := by
  intro g hg hdash
  have hmem : '-' ∈ (groups (symbols bits)).flatten := List.mem_flatten.mpr ⟨g, hg, hdash⟩
  rw [flatten_groups] at hmem
  exact dash_not_mem (symbols_mem bits _ hmem)

/-- Different random bytes make different codes. -/
theorem generateTransferCode_ne {bytes bytes' : Bytes} (hlength : bytes.length = bytes'.length)
    (hne : bytes ≠ bytes') : generateTransferCode bytes ≠ generateTransferCode bytes' := by
  intro h
  have hbits (bytes : Bytes) : ∀ bit ∈ bytes.flatMap byteBits, bit < 2 := by
    intro bit hbit
    obtain ⟨b, -, hmem⟩ := List.mem_flatMap.mp hbit
    exact byteBits_lt bit hmem
  have hcode := congrArg (fun cs => cs.filter fun c => c != '-') (ofChars_inj h)
  simp only [filter_intercalate (groups_symbols_dash _), flatten_groups] at hcode
  obtain ⟨m, hm⟩ := symbolBits_symbols (hbits bytes)
  obtain ⟨n, hn⟩ := symbolBits_symbols (hbits bytes')
  rw [hcode, hn] at hm
  have hlengths : (bytes'.flatMap byteBits).length = (bytes.flatMap byteBits).length := by
    rw [length_flatMap_byteBits, length_flatMap_byteBits, hlength]
  exact hne (flatMap_byteBits_inj (List.append_inj hm hlengths).1).symm

/-- Two draws that differ in the last bit. -/
theorem generateTransferCode_ne_sample :
    generateTransferCode (List.replicate 15 0 ++ [1]) ≠ generateTransferCode (List.replicate 16 0) :=
  generateTransferCode_ne (by decide) (by decide)

end code

/-! ## The hand-off comes through -/

section handoff

variable {id passphrase code origin link before after : Text}

/-- A text with nothing to trim. -/
def IsTight (s : Text) : Prop := (∀ p ∈ s.head?, isWhite p = false) ∧ ∀ p ∈ s.getLast?, isWhite p = false

theorem dropWhile_white {before s : Text} (hbefore : ∀ p ∈ before, isWhite p = true)
    (hs : ∀ p ∈ s.head?, isWhite p = false) : (before ++ s).dropWhile isWhite = s := by
  induction before with
  | nil =>
    cases s with
    | nil => rfl
    | cons p s => rw [List.nil_append, List.dropWhile_cons_of_neg (by simp [hs p rfl])]
  | cons p before ih =>
    obtain ⟨hp, hrest⟩ := List.forall_mem_cons.mp hbefore
    rw [List.cons_append, List.dropWhile_cons_of_pos hp, ih hrest]

/-- White space around a text is taken off. -/
theorem trim_around {s : Text} (hbefore : ∀ p ∈ before, isWhite p = true) (hafter : ∀ p ∈ after, isWhite p = true)
    (hs : IsTight s) (hne : s ≠ []) : trim (before ++ s ++ after) = s := by
  have hhead : ∀ p ∈ (s ++ after).head?, isWhite p = false := by
    intro p hp
    rw [List.head?_append_of_ne_nil s hne] at hp
    exact hs.1 p hp
  have hreverse : ∀ p ∈ s.reverse.head?, isWhite p = false := by
    intro p hp
    rw [List.head?_reverse] at hp
    exact hs.2 p hp
  rw [trim, List.append_assoc, dropWhile_white hbefore hhead, List.reverse_append,
    dropWhile_white (fun p hp => hafter p (List.mem_reverse.mp hp)) hreverse, List.reverse_reverse]

theorem idxOf?_dot (hid : Point.char '.' ∉ id) :
    (id ++ Point.char '.' :: passphrase).idxOf? (.char '.') = some id.length := by
  induction id with
  | nil => rfl
  | cons p id ih =>
    obtain ⟨hp, hrest⟩ := not_or.mp (mt List.mem_cons.mpr hid)
    have hne : (p == Point.char '.') = false := by simpa using Ne.symm hp
    rw [List.cons_append, List.idxOf?_cons, hne, ih hrest]
    rfl

/-- The id and the passphrase come out of what they were packed into. -/
theorem unpackHandoff_packHandoff (hid : Point.char '.' ∉ id) (hne : id ≠ []) (hpass : passphrase ≠ [])
    (htight : IsTight (packHandoff id passphrase)) (hbefore : ∀ p ∈ before, isWhite p = true)
    (hafter : ∀ p ∈ after, isWhite p = true) :
    unpackHandoff (before ++ packHandoff id passphrase ++ after) = some (id, passphrase) := by
  have htrim := trim_around hbefore hafter htight (by simp [packHandoff])
  have htake : (packHandoff id passphrase).take id.length = id := List.take_left
  have hdrop : (packHandoff id passphrase).drop (id.length + 1) = passphrase := by
    have hsplit : packHandoff id passphrase = (id ++ [Point.char '.']) ++ passphrase := by simp [packHandoff]
    rw [hsplit, List.drop_left' (by rw [List.length_append]; rfl)]
  have hpos : ¬ id.length < 1 := by
    have hlength := List.length_pos_iff.mpr hne
    omega
  have hindex : (packHandoff id passphrase).idxOf? (.char '.') = some id.length := idxOf?_dot hid
  simp only [unpackHandoff, htrim, hindex, htake, hdrop, decide_eq_false hpos, List.isEmpty_eq_false_iff.mpr hne,
    List.isEmpty_eq_false_iff.mpr hpass]
  rfl

theorem takeWhile_all {s : Text} (h : Point.char '&' ∉ s) : s.takeWhile (fun q => q != .char '&') = s := by
  refine List.takeWhile_eq_self_iff.mpr fun p hp => ?_
  have hne : p ≠ .char '&' := fun heq => h (heq ▸ hp)
  simpa using hne

/-- The link carries the code. -/
theorem prefill_deepLink (hcode : code ≠ []) (horigin : Point.char '#' ∉ origin)
    (hlink : deepLink origin code = some link) : prefill (hashOf link) = some code := by
  obtain ⟨component, hcomponent, rfl⟩ := Option.map_eq_some_iff.mp hlink
  have hhash : hashOf (origin ++ lit "/receive#t=" ++ component) = .char '#' :: (lit "t=" ++ component) := by
    have hbefore : ∀ p ∈ origin ++ lit "/receive", (p != .char '#') = true := by
      intro p hp
      rcases List.mem_append.mp hp with hmem | hmem
      · have hne : p ≠ .char '#' := fun heq => horigin (heq ▸ hmem)
        simpa using hne
      · have hword : ∀ p ∈ lit "/receive", (p != .char '#') = true := by decide
        exact hword p hmem
    have hsplit : origin ++ lit "/receive#t=" ++ component =
        (origin ++ lit "/receive") ++ .char '#' :: (lit "t=" ++ component) := by
      rw [List.append_assoc, List.append_assoc]
      rfl
    rw [hsplit, hashOf, List.dropWhile_append_of_pos hbefore]
    rfl
  have hchars := UriComponent.consistsOf_encode hcomponent
  have hamp : Point.char '&' ∉ component := by
    intro hmem
    have hsatisfies := List.all_eq_true.mp hchars _ hmem
    exact absurd hsatisfies (by decide)
  have hne : component ≠ [] := by
    rintro rfl
    have hempty := UriComponent.decode_encode hcomponent
    exact hcode (Option.some.inj hempty).symm
  have hcaptured : captured (.char '#' :: (lit "t=" ++ component)) = some component := by
    have hdrop : (lit "t=" ++ component).drop 2 = component := rfl
    have hprefix : (lit "t=").isPrefixOf (lit "t=" ++ component) = true := by simp
    rw [captured, hdrop, takeWhile_all hamp, hprefix, List.isEmpty_eq_false_iff.mpr hne]
    rfl
  rw [prefill, hhash, hcaptured, Option.map_some, UriComponent.decode_encode hcomponent, Option.getD_some]

end handoff

/-! ## What the other device holds -/

section transfer

variable {pkg : VaultPackages} {suites : KeySuites} {toLowerCase : Text → Text} {v w : Vault} {trustStore : Value}
  {now : Number}

/-- A vault that can be handed on: accounts in canonical form, one of which is the active one, and nothing
that JSON does not give back. -/
structure Portable (engine : Engine) (suites : KeySuites) (v : Vault) (trustStore : Value) : Prop where
  canonical : ∀ a ∈ v.accounts, a.Canonical suites
  active : ∃ a ∈ v.accounts, v.activeAccountId = some a.id ∧ a.id ≠ []
  parsed : IsParsed engine (exportedValue suites v trustStore)

theorem mapM_parseAccount {accounts : List Account} (h : ∀ a ∈ accounts, a.Canonical suites) :
    (accounts.map (·.value suites)).mapM (parseAccount suites now) = .ok accounts := by
  rw [mapM_eq_ok, List.forall₂_map_left_iff]
  exact List.forall₂_same.mpr fun a ha => parseAccount_value (h a ha) now

theorem Portable.importedVault (h : Portable pkg.engine suites v trustStore) :
    importedVault (newVaultPrimitives pkg suites toLowerCase) (stringify (exportedValue suites v trustStore)) now =
      .ok v := by
  obtain ⟨a, ha, hactive, hid⟩ := h.active
  have hparse : (newVaultPrimitives pkg suites toLowerCase).parseJson
      (stringify (exportedValue suites v trustStore)) = some (exportedValue suites v trustStore) :=
    parse_spell h.parsed
  have hblob : isEncryptedVaultBlob (exportedValue suites v trustStore) = false := rfl
  have hraw : accountsOf (exportedValue suites v trustStore) = some (v.accounts.map (·.value suites)) := rfl
  have haccounts : (v.accounts.map (·.value suites)).mapM (parseAccount suites now) = .ok v.accounts :=
    mapM_parseAccount h.canonical
  have hget : (exportedValue suites v trustStore).get "activeAccountId" = some (.str a.id) := by
    change some (v.activeAccountId.elim Value.null Value.str) = _
    rw [hactive]
    rfl
  have hheld : v.accounts.any (fun b => b.id == a.id) = true :=
    List.any_eq_true.mpr ⟨a, ha, beq_self_eq_true _⟩
  have himported : importedActive (exportedValue suites v trustStore) v.accounts = v.activeAccountId := by
    simp only [importedActive, hget, hheld, List.isEmpty_eq_false_iff.mpr hid, hactive]
    rfl
  have hne : v.accounts.map (·.value suites) ≠ [] := by
    intro hnil
    rw [List.map_eq_nil_iff.mp hnil] at ha
    cases ha
  unfold Client.importedVault
  simp only [hparse, hblob, hraw]
  cases hcases : v.accounts.map (·.value suites) with
  | nil => exact absurd hcases hne
  | cons first rest =>
    change ((first :: rest).mapM (parseAccount suites now)).map _ = _
    rw [← hcases, haccounts]
    change Except.ok (⟨v.accounts, importedActive (exportedValue suites v trustStore) v.accounts⟩ : Vault) = _
    rw [himported]

theorem requireStrongPassword_eq_ok {password : Text} : requireStrongPassword toLowerCase password = .ok () ↔
    vaultPasswordProblem toLowerCase password = none := by
  unfold requireStrongPassword
  cases vaultPasswordProblem toLowerCase password <;> simp

/-- A sealed vault, as it was exported. -/
theorem exportEncryptedBlob_eq_ok {isLocked : Bool} {opened : Except String Vault} {passphrase blob : Text}
    {salt : Salt} {iv : Iv}
    (h : exportEncryptedBlob pkg suites toLowerCase isLocked opened trustStore passphrase salt iv = .ok blob) :
    ∃ v encrypted, opened = .ok v ∧ passphrase ≠ [] ∧
      encryptVault pkg (exportedValue suites v trustStore) passphrase salt iv = .ok encrypted ∧
        blob = stringify encrypted := by
  obtain ⟨_, -, h⟩ := bind_eq_ok.mp h
  obtain ⟨_, hpass, h⟩ := bind_eq_ok.mp h
  obtain ⟨_, -, h⟩ := bind_eq_ok.mp h
  obtain ⟨v, hv, h⟩ := bind_eq_ok.mp h
  obtain ⟨encrypted, hencrypted, h⟩ := bind_eq_ok.mp h
  rw [refuseIf_eq_ok] at hpass
  exact ⟨v, encrypted, hv, List.isEmpty_eq_false_iff.mp hpass, hencrypted, (Except.ok.inj h).symm⟩

/-- The letters of an id that the relay makes. -/
def isUrlSafe (c : Char) : Bool :=
  (48 ≤ c.toNat && c.toNat ≤ 57) || (65 ≤ c.toNat && c.toNat ≤ 90) || (97 ≤ c.toNat && c.toNat ≤ 122) ||
    c.toNat = 45 || c.toNat = 95

theorem not_white_of_b32 : ∀ c ∈ b32, isWhite (.char c) = false := by
  have hall : (b32.all fun c => !isWhite (.char c)) = true := by decide
  intro c hc
  simpa using List.all_eq_true.mp hall c hc

theorem not_white_of_urlSafe {p : Point} (h : Point.satisfies isUrlSafe p = true) : isWhite p = false := by
  cases p with
  | surrogate n => cases h
  | char c =>
    simp only [Point.satisfies, isUrlSafe, Bool.or_eq_true, Bool.and_eq_true, decide_eq_true_eq] at h
    rw [← Bool.not_eq_true]
    intro hwhite
    simp [isWhite, Point.satisfies] at hwhite
    omega

/-- There is no white space in a code. -/
theorem not_white_of_code {bytes : Bytes} : ∀ p ∈ generateTransferCode bytes, isWhite p = false := by
  intro p hp
  obtain ⟨c, hc, rfl⟩ := List.mem_map.mp hp
  by_cases hdash : c = '-'
  · rw [hdash]
    decide
  · have hmem : c ∈ (['-'].intercalate (groups (symbols (bytes.flatMap byteBits)))).filter fun c => c != '-' :=
      List.mem_filter.mpr ⟨hc, by simpa using hdash⟩
    rw [filter_intercalate (groups_symbols_dash _), flatten_groups] at hmem
    exact not_white_of_b32 c (symbols_mem _ c hmem)

theorem dot_not_mem {id : Text} (hid : id.consistsOf isUrlSafe = true) : Point.char '.' ∉ id :=
  fun hmem => absurd (List.all_eq_true.mp hid _ hmem) (by decide)

theorem isTight_packHandoff {id : Text} {bytes : Bytes} (hid : id.consistsOf isUrlSafe = true) (hne : id ≠ [])
    (hcode : generateTransferCode bytes ≠ []) : IsTight (packHandoff id (generateTransferCode bytes)) := by
  constructor
  · intro p hp
    rw [packHandoff, List.head?_append_of_ne_nil _ hne] at hp
    exact not_white_of_urlSafe (List.all_eq_true.mp hid p (List.mem_of_mem_head? hp))
  · intro p hp
    have hsplit : packHandoff id (generateTransferCode bytes) =
        (id ++ [.char '.']) ++ generateTransferCode bytes := by simp [packHandoff]
    rw [hsplit, List.getLast?_append, List.getLast?_eq_some_getLast hcode, Option.some_or] at hp
    rw [← Option.some.inj hp]
    exact not_white_of_code _ (List.getLast_mem hcode)

theorem importEncryptedBlob_eq {blobString passphrase password : Text} {encrypted data : Value}
    (hstrong : vaultPasswordProblem toLowerCase password = none)
    (hparse : parse pkg.engine blobString = some encrypted)
    (hopen : VaultBlobs.decryptVault pkg encrypted passphrase = .ok data) :
    importEncryptedBlob pkg suites toLowerCase false blobString passphrase password now =
      importedVault (newVaultPrimitives pkg suites toLowerCase) (stringify data) now := by
  have hnone : refuseIf false
      "A vault already exists on this device. Import from the Vault Manager while signed in." = .ok () := rfl
  simp only [importEncryptedBlob, hnone, requireStrongPassword_eq_ok.mpr hstrong, hparse, hopen, Option.elim_some,
    ok_bind]

theorem handleCode_eq (hv : Portable pkg.engine suites v trustStore) {code id passphrase blob newPass : Text}
    {encrypted : Value} {claim : Text → Except String Text} (hcode : unpackHandoff code = some (id, passphrase))
    (hpass : vaultPasswordProblem toLowerCase newPass = none) (hclaim : claim id = .ok blob)
    (hparse : parse pkg.engine blob = some encrypted)
    (hopen : VaultBlobs.decryptVault pkg encrypted passphrase = .ok (exportedValue suites v trustStore)) :
    handleCode pkg suites toLowerCase claim code newPass now = .ok v := by
  rw [handleCode, hcode]
  change (requireStrongPassword toLowerCase newPass >>= _) = _
  rw [requireStrongPassword_eq_ok.mpr hpass, ok_bind, hclaim, ok_bind, importEncryptedBlob_eq hpass hparse hopen]
  exact hv.importedVault

/-- What was exported under a passphrase opens with it. -/
theorem exported_opens (h : pkg.Lawful) {v : Vault} (hv : Portable pkg.engine suites v trustStore) {isLocked : Bool}
    {passphrase blob : Text} {salt : Salt} {iv : Iv}
    (hopens : ∀ key, VaultBlobs.deriveKey pkg passphrase (some (newVaultKdf salt)) = .ok key →
      pkg.Opens key iv (vaultAad (some (newVaultKdf salt))) (stringify (exportedValue suites v trustStore)).encode)
    (hblob : exportEncryptedBlob pkg suites toLowerCase isLocked (.ok v) trustStore passphrase salt iv = .ok blob) :
    passphrase ≠ [] ∧ ∃ encrypted, parse pkg.engine blob = some encrypted ∧
      VaultBlobs.decryptVault pkg encrypted passphrase = .ok (exportedValue suites v trustStore) := by
  obtain ⟨v', encrypted, hv', hpass, hencrypted, rfl⟩ := exportEncryptedBlob_eq_ok hblob
  obtain rfl := Except.ok.inj hv'
  obtain ⟨key, hkey, hsealed⟩ := encryptVault_eq h (exportedValue suites v trustStore) passphrase salt iv
  rw [hsealed] at hencrypted
  have hkdf := isParsed_newVaultKdf h salt
  have hparse := parse_sealed h hkdf hencrypted
  have hsame : Same encrypted encrypted := (canonicalJson_eq_iff (isParsed_of_parse hparse)).mp rfl
  exact ⟨hpass, encrypted, hparse, (decrypt_sealed h (hopens key hkey) hv.parsed hkdf hkey hencrypted hsame).1⟩

/-- From the sender's screen to the receiver's vault: the link and the code carry the id and the
passphrase, with white space around them or not, and the blob that was uploaded makes the vault that was
sealed. -/
theorem transfer_delivers (h : pkg.Lawful) (hopens : ∀ key iv aad text, pkg.Opens key iv aad text)
    {isLocked : Bool} (hv : Portable pkg.engine suites v trustStore) {bytes : Bytes} {salt : Salt} {iv : Iv}
    {blob id origin newPass : Text}
    (hblob : exportEncryptedBlob pkg suites toLowerCase isLocked (.ok v) trustStore (generateTransferCode bytes) salt
      iv = .ok blob)
    (hid : id.consistsOf isUrlSafe = true) (hne : id ≠ []) (horigin : Point.char '#' ∉ origin)
    (hpass : vaultPasswordProblem toLowerCase newPass = none) (claim : Text → Except String Text)
    (hclaim : claim id = .ok blob) (now : Number) :
    ∃ code, (∃ link, deepLink origin (packHandoff id (generateTransferCode bytes)) = some link ∧
      prefill (hashOf link) = some code) ∧ ∀ before after : Text, (∀ p ∈ before, isWhite p = true) →
        (∀ p ∈ after, isWhite p = true) →
          handleCode pkg suites toLowerCase claim (before ++ code ++ after) newPass now = .ok v := by
  obtain ⟨hcode, encrypted, hparse, hopen⟩ := exported_opens h hv (fun key _ => hopens key _ _ _) hblob
  have hwell : (packHandoff id (generateTransferCode bytes)).isWellFormed = true := by
    rw [Text.isWellFormed, packHandoff, List.all_append, List.all_cons, Bool.and_eq_true_iff, Bool.and_eq_true_iff]
    exact ⟨isWellFormed_of_consistsOf hid, rfl, isWellFormed_ofChars _⟩
  obtain ⟨component, hcomponent⟩ := UriComponent.exists_encode hwell
  have hlink : deepLink origin (packHandoff id (generateTransferCode bytes)) =
      some (origin ++ lit "/receive#t=" ++ component) := by
    rw [deepLink, hcomponent, Option.map_some]
  have hpacked : packHandoff id (generateTransferCode bytes) ≠ [] := by simp [packHandoff]
  refine ⟨_, ⟨_, hlink, prefill_deepLink hpacked horigin hlink⟩, fun before after hbefore hafter => ?_⟩
  have hunpack := unpackHandoff_packHandoff (dot_not_mem hid) hne hcode (isTight_packHandoff hid hne hcode) hbefore
    hafter
  exact handleCode_eq hv hunpack hpass hclaim hparse hopen

/-- Whatever the relay answers, the receiver makes no other vault than the one that was sealed under the
passphrase, as far as nothing else was. -/
theorem transfer_only_delivers {sealings : List Sealing} (h : Ideal pkg sealings)
    (hv : Portable pkg.engine suites v trustStore) {code id passphrase newPass : Text}
    (hfresh : ∀ s ∈ sealings, VaultBlobs.deriveKey pkg passphrase (some s.kdf) = .ok s.key →
      s.data = exportedValue suites v trustStore)
    (hcode : unpackHandoff code = some (id, passphrase)) (claim : Text → Except String Text)
    (hw : handleCode pkg suites toLowerCase claim code newPass now = .ok w) : w = v := by
  obtain ⟨parsed, hparsed, hw⟩ := bind_eq_ok.mp hw
  rw [hcode] at hparsed
  obtain rfl := Except.ok.inj hparsed
  obtain ⟨_, -, hw⟩ := bind_eq_ok.mp hw
  obtain ⟨blob, -, hw⟩ := bind_eq_ok.mp hw
  obtain ⟨_, -, hw⟩ := bind_eq_ok.mp hw
  obtain ⟨_, -, hw⟩ := bind_eq_ok.mp hw
  obtain ⟨encrypted, -, hw⟩ := bind_eq_ok.mp hw
  obtain ⟨data, hopen, hw⟩ := bind_eq_ok.mp hw
  obtain ⟨s, hs, -, -, -, rfl, hkey⟩ := decryptVault_was_sealed h hopen
  rw [hfresh s hs hkey, hv.importedVault] at hw
  exact (Except.ok.inj hw).symm

theorem exists_export (h : pkg.Lawful) {passphrase : Text} (hne : passphrase ≠ [])
    (hstrong : vaultPasswordProblem toLowerCase passphrase = none) (salt : Salt) (iv : Iv) :
    ∃ blob, exportEncryptedBlob pkg suites toLowerCase false (.ok v) trustStore passphrase salt iv = .ok blob := by
  obtain ⟨key, -, hsealed⟩ := encryptVault_eq h (exportedValue suites v trustStore) passphrase salt iv
  have hblob : encryptVaultWithKey pkg (exportedValue suites v trustStore) key (newVaultKdf salt) iv =
      .ok (sealVault pkg (exportedValue suites v trustStore) key (newVaultKdf salt) iv) := by
    rw [encryptVaultWithKey, checkKdf_newVaultKdf, ok_bind]
  have hlocked : refuseIf false "Vault locked" = .ok () := rfl
  have hgiven : refuseIf passphrase.isEmpty "Transfer passphrase required" = .ok () := by
    rw [List.isEmpty_eq_false_iff.mpr hne]
    rfl
  simp only [exportEncryptedBlob, hlocked, hgiven, requireStrongPassword_eq_ok.mpr hstrong, hsealed, hblob, ok_bind]
  exact ⟨_, rfl⟩

end transfer

/-! ## A sample -/

section sample

def sampleBytes : Bytes := [1, 35, 69, 103, 137, 171, 205, 239, 16, 50, 84, 118, 152, 186, 220, 254]

def transferred : Vault := ⟨[sampleAccount "key" []], some (lit "identity alice")⟩

theorem canonical_sampleAccount : (sampleAccount "key" []).Canonical sampleSuites where
  identity := ⟨by decide, rfl⟩
  id := rfl
  keys k hk := by
    obtain rfl := List.mem_singleton.mp hk
    exact ⟨by decide, rfl, rfl⟩
  kids := List.nodup_singleton _
  capacity := Nat.zero_le _

theorem isParsed_members {engine : Engine} {fields : List (Text × Value)} (hnames : (fields.map Prod.fst).Nodup)
    (h : ∀ f ∈ fields, IsPaired f.1 ∧ IsParsed engine f.2) : IsParsed engine (.obj fields) :=
  .obj hnames (fun f hf => (h f hf).1) fun f hf => (h f hf).2

theorem isPaired_lits (a b : String) : IsPaired (lit a ++ lit b) := by
  have hchars : lit a ++ lit b = ofChars (a.toList ++ b.toList) := List.map_append.symm
  rw [hchars]
  exact isPaired_ofChars _

theorem isParsed_transferred : IsParsed sampleEngine (exportedValue sampleSuites transferred (.obj [])) := by
  have hzero : IsParsed sampleEngine (.num Number.zero) := .num (by decide) (by decide +kernel)
  have hpair : IsParsed sampleEngine (sampleAccount "key" []).identity.value := by
    refine isParsed_members (by decide) ?_
    simp only [List.forall_mem_cons, List.not_mem_nil, false_implies, implies_true, and_true]
    exact ⟨⟨isPaired_lit _, .str (isPaired_lit _)⟩, isPaired_lit _, .str (isPaired_lits _ _)⟩
  have hkey : IsParsed sampleEngine ((sampleAccount "key" []).encryption.value sampleSuites) := by
    refine isParsed_members (by decide) ?_
    simp only [EncryptionKey.fields, List.forall_mem_cons, List.not_mem_nil, false_implies, implies_true, and_true]
    exact ⟨⟨isPaired_lit _, .str (isPaired_lit _)⟩, ⟨isPaired_lit _, .str (isPaired_lits _ _)⟩,
      ⟨isPaired_lit _, .str (isPaired_lit _)⟩, ⟨isPaired_lit _, .str (isPaired_lits _ _)⟩, isPaired_lit _, hzero⟩
  have haccount : IsParsed sampleEngine ((sampleAccount "key" []).value sampleSuites) := by
    refine isParsed_members (by change [lit "id", lit "name", lit "createdAt", lit "identity", lit "encryption",
      lit "retiredEncryption"].Nodup; decide) ?_
    simp only [List.forall_mem_cons, List.not_mem_nil, false_implies, implies_true, and_true]
    exact ⟨⟨isPaired_lit _, .str (isPaired_lits _ _)⟩, ⟨isPaired_lit _, .str (isPaired_ofChars [])⟩,
      ⟨isPaired_lit _, hzero⟩, ⟨isPaired_lit _, hpair⟩, ⟨isPaired_lit _, hkey⟩, isPaired_lit _,
      .arr fun v hv => absurd hv List.not_mem_nil⟩
  refine isParsed_members (by change [lit "accounts", lit "activeAccountId", lit "trustStore"].Nodup; decide) ?_
  simp only [List.forall_mem_cons, List.not_mem_nil, false_implies, implies_true, and_true]
  exact ⟨⟨isPaired_lit _, .arr (List.forall_mem_singleton.mpr haccount)⟩,
    ⟨isPaired_lit _, .str (isPaired_lit "identity alice")⟩, isPaired_lit _,
    .obj List.nodup_nil (fun f hf => absurd hf List.not_mem_nil) fun f hf => absurd hf List.not_mem_nil⟩

theorem portable_transferred : Portable sampleEngine sampleSuites transferred (.obj []) where
  canonical := List.forall_mem_singleton.mpr canonical_sampleAccount
  active := ⟨_, List.mem_singleton.mpr rfl, by decide, by decide⟩
  parsed := isParsed_transferred

/-- A lower case for the letters of the samples. -/
def sampleLower (s : Text) : Text :=
  s.map fun
    | .char c => .char c.toLower
    | .surrogate n => .surrogate n

theorem strong_sample : vaultPasswordProblem sampleLower (generateTransferCode sampleBytes) = none ∧
    vaultPasswordProblem sampleLower samplePassword = none := by
  decide +kernel

theorem transfer_delivers_sample : ∃ blob code, (∃ link,
    deepLink (lit "https://k.example") (packHandoff (lit "aB3_x-9") (generateTransferCode sampleBytes)) = some link ∧
      prefill (hashOf link) = some code) ∧
    handleCode samplePackages sampleSuites sampleLower (fun _ => .ok blob) (lit " " ++ code ++ lit "\n")
      samplePassword Number.zero = .ok transferred := by
  have hne : generateTransferCode sampleBytes ≠ [] := by decide +kernel
  have hexport : ∃ blob, exportEncryptedBlob samplePackages sampleSuites sampleLower false (.ok transferred) (.obj [])
      (generateTransferCode sampleBytes) sampleSalt sampleVaultIv = .ok blob :=
    exists_export lawful_samplePackages hne strong_sample.1 sampleSalt sampleVaultIv
  have hid : (lit "aB3_x-9").consistsOf isUrlSafe = true := by decide
  have horigin : Point.char '#' ∉ lit "https://k.example" := by decide
  obtain ⟨blob, hblob⟩ := hexport
  obtain ⟨code, hcode, hreceive⟩ := transfer_delivers lawful_samplePackages opens_samplePackages
    portable_transferred hblob hid (by decide) horigin strong_sample.2 (fun _ => .ok blob) rfl Number.zero
  exact ⟨blob, code, hcode, hreceive (lit " ") (lit "\n") (by decide) (by decide)⟩

/-- The sealing of the sample, and the packages that open nothing else. -/
def sampleHandover : Sealing :=
  sampleSealing (exportedValue sampleSuites transferred (.obj [])) (generateTransferCode sampleBytes)

theorem ideal_sampleHandover : Ideal (sampleIdeal sampleHandover) [sampleHandover] :=
  ideal_sampleIdeal isParsed_transferred (generateTransferCode sampleBytes)

/-- The blob of the sample makes a vault, and it is the one that was sealed. -/
theorem transfer_only_delivers_sample : ∃ blob w, handleCode (sampleIdeal sampleHandover) sampleSuites sampleLower
    (fun _ => .ok blob) (packHandoff (lit "aB3_x-9") (generateTransferCode sampleBytes)) samplePassword
      Number.zero = .ok w ∧ w = transferred := by
  have hne : generateTransferCode sampleBytes ≠ [] := by decide +kernel
  have hlawful : (sampleIdeal sampleHandover).Lawful := lawful_sampleIdeal sampleHandover
  have hportable : Portable (sampleIdeal sampleHandover).engine sampleSuites transferred (.obj []) :=
    portable_transferred
  have hkey : VaultBlobs.deriveKey (sampleIdeal sampleHandover) (generateTransferCode sampleBytes)
      (some (newVaultKdf sampleSalt)) = .ok sampleHandover.key := deriveKey_sampleSealing sampleHandover
  have hexport : ∃ blob, exportEncryptedBlob (sampleIdeal sampleHandover) sampleSuites sampleLower false
      (.ok transferred) (.obj []) (generateTransferCode sampleBytes) sampleSalt sampleVaultIv = .ok blob :=
    exists_export hlawful hne strong_sample.1 sampleSalt sampleVaultIv
  obtain ⟨blob, hblob⟩ := hexport
  have hopens : ∀ key, VaultBlobs.deriveKey (sampleIdeal sampleHandover) (generateTransferCode sampleBytes)
      (some (newVaultKdf sampleSalt)) = .ok key → (sampleIdeal sampleHandover).Opens key sampleVaultIv
        (vaultAad (some (newVaultKdf sampleSalt)))
          (stringify (exportedValue sampleSuites transferred (.obj []))).encode := by
    intro key hderived
    obtain rfl := Except.ok.inj (hkey.symm.trans hderived)
    exact opens_sampleIdeal sampleHandover
  obtain ⟨-, encrypted, hparse, hopen⟩ := exported_opens hlawful hportable hopens hblob
  have hunpack : unpackHandoff (packHandoff (lit "aB3_x-9") (generateTransferCode sampleBytes)) =
      some (lit "aB3_x-9", generateTransferCode sampleBytes) := by decide +kernel
  have hmakes : handleCode (sampleIdeal sampleHandover) sampleSuites sampleLower (fun _ => .ok blob)
      (packHandoff (lit "aB3_x-9") (generateTransferCode sampleBytes)) samplePassword Number.zero = .ok transferred :=
    handleCode_eq hportable hunpack strong_sample.2 rfl hparse hopen
  refine ⟨blob, transferred, hmakes, ?_⟩
  refine transfer_only_delivers ideal_sampleHandover hportable ?_ hunpack (fun _ => .ok blob) hmakes
  exact List.forall_mem_singleton.mpr fun _ => rfl

end sample

end Kryptolog.Client.DeviceTransfer
