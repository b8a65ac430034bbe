import Kryptolog.Client.BodyInjectivity
import Kryptolog.Server.UntypedBodies

/-! # The two spellings of a signed body

`auth.py` builds the bodies that `signing.js` builds, in another language. Here a request's JSON
is read by both (`toScript`), and what the Python builder accepts is shown to be accepted by the
JavaScript builder and spelled alike, for the values that the two document (`Documented`).
-/

namespace Kryptolog.Client
set_option autoImplicit false

open Script Fallible
open Json (Str)
open Server (isLowerHexDigit isIdChar isHostChar kemAlg Primitives)
open Server.Untyped (isText text)

/-! ## One JSON text, read by both -/

/-- How JavaScript reads a number that Python reads as the given value: an integer below `2 ^ 53`
is read as it is. -/
structure NumberReader where
  read : Json.Value → Number
  read_int : ∀ n : ℕ, n < 2 ^ 53 → (read (.int n)).spelling = (toString n).toList

def toPoint (n : ℕ) : Point :=
  if h : 55296 ≤ n ∧ n < 57344 then .surrogate ⟨n - 55296, by omega⟩ else .char (Char.ofNat n)

def readStr : Str → Text
  | .uni s => lit s
  | .lone points => points.map toPoint

mutual

/-- The value that JavaScript reads from the text that Python reads as the given value. -/
def toScript (r : NumberReader) : Json.Value → Value
  | .null => .null
  | .bool b => .bool b
  | .int z => .num (r.read (.int z))
  | .float x => .num (r.read (.float x))
  | .str s => .str (readStr s)
  | .arr items => .arr (toScriptItems r items)
  | .obj fields => .obj (toScriptFields r fields)

def toScriptItems (r : NumberReader) : List Json.Value → List Value
  | [] => []
  | v :: vs => toScript r v :: toScriptItems r vs

def toScriptFields (r : NumberReader) : List (Str × Json.Value) → List (Text × Value)
  | [] => []
  | (k, v) :: fs => (readStr k, toScript r v) :: toScriptFields r fs

end

/-- A call of a builder, with the fields of a request. -/
inductive Fields
  | login (nonce origin deployment encryptionKey : Json.Value)
  | attestation (address encryptionKey : Json.Value)
  | rotation (address oldKid newKid ts : Json.Value)
  | accountDeletion (nonce mode : Json.Value) (redactionKeys : List String)
      (origin deployment : Json.Value)
  | conversationErase (nonce kind conversation : Json.Value) (redactionKeys : List String)
      (origin deployment : Json.Value)
  | message (sender conv sid ts seq ct gid keys : Json.Value)

namespace Fields

/-- The text that the server builds. -/
def python (str : Json.Value → String) (prim : Primitives) :
    Fields → Except Server.NonCanonical String
  | login nonce origin deployment encryptionKey =>
    Server.Untyped.loginMessage nonce origin deployment encryptionKey
  | attestation address encryptionKey =>
    Server.Untyped.encryptionKeyAttestationMessage address encryptionKey
  | rotation address oldKid newKid ts => Server.Untyped.keyRotationMessage address oldKid newKid ts
  | accountDeletion nonce mode redactionKeys origin deployment =>
    Server.Untyped.accountDeletionMessage prim nonce mode redactionKeys origin deployment
  | conversationErase nonce kind conversation redactionKeys origin deployment =>
    Server.Untyped.conversationEraseMessage prim nonce kind conversation redactionKeys origin
      deployment
  | message sender conv sid ts seq ct gid keys =>
    Server.Untyped.messageSigningBody str prim sender conv sid ts seq ct gid keys

/-- The text that a client builds. -/
def script (r : NumberReader) (sha384Hex : String → String) : Fields → Except BodyError Text
  | login nonce origin deployment encryptionKey =>
    loginChallengeBody (toScript r nonce) (toScript r origin) (toScript r deployment)
      (toScript r encryptionKey)
  | attestation address encryptionKey =>
    encryptionKeyAttestationBody (toScript r address) (toScript r encryptionKey)
  | rotation address oldKid newKid ts =>
    keyRotationBody (toScript r address) (toScript r oldKid) (toScript r newKid) (toScript r ts)
  | accountDeletion nonce mode redactionKeys origin deployment =>
    accountDeletionBody sha384Hex (toScript r nonce) (toScript r mode)
      ((redactionKeys.map lit).map .str) (toScript r origin) (toScript r deployment)
  | conversationErase nonce kind conversation redactionKeys origin deployment =>
    conversationEraseBody sha384Hex (toScript r nonce) (toScript r kind) (toScript r conversation)
      ((redactionKeys.map lit).map .str) (toScript r origin) (toScript r deployment)
  | message sender conv sid ts seq ct gid keys =>
    messageSigningBody sha384Hex (toScript r sender) (toScript r conv) (toScript r sid)
      (toScript r ct) (toScript r gid) (toScript r keys) (toScript r ts) (toScript r seq)

end Fields

/-! ## What the builders document -/

/-- A text, or no value. -/
def IsTextOrNull (v : Json.Value) : Prop := v = .null ∨ ∃ s, v = .str (.uni s)

/-- A name that is no text has a surrogate that makes it so. -/
def IsName : Str → Prop
  | .uni _ => True
  | .lone points => ∃ n ∈ points, 55296 ≤ n ∧ n < 57344

/-- A ciphertext: a text, an object with two texts, or no value. -/
def IsCiphertext (ct : Json.Value) : Prop :=
  IsTextOrNull ct ∨ ∃ fields iv content, ct = .obj fields ∧ (∀ f ∈ fields, IsName f.1) ∧
    ct.get "iv" = some (.str (.uni iv)) ∧ ct.get "content" = some (.str (.uni content))

/-- A text that does not end in a line break. -/
def NoFinalBreak (v : Json.Value) : Prop := (text v).toList.getLast? ≠ some '\n'

/-- Texts that code points and UTF-16 units put in one order. -/
def SortAlike (keys : List String) : Prop :=
  ∀ a ∈ keys, ∀ b ∈ keys, a ≤ b ↔ Text.le (lit a) (lit b) = true

/-- The values that the two builders document, addresses and key ids without a line break at the
end. -/
def Documented : Fields → Prop
  | .login _ _ _ encryptionKey => IsTextOrNull encryptionKey
  | .attestation address _ => NoFinalBreak address
  | .rotation address oldKid newKid _ =>
    NoFinalBreak address ∧ NoFinalBreak oldKid ∧ NoFinalBreak newKid
  | .accountDeletion _ _ redactionKeys _ _ => SortAlike redactionKeys
  | .conversationErase _ _ conversation redactionKeys _ _ =>
    NoFinalBreak conversation ∧ SortAlike redactionKeys
  | .message sender conv _ _ _ ct gid _ =>
    NoFinalBreak sender ∧ NoFinalBreak conv ∧ IsTextOrNull gid ∧ IsCiphertext ct

/-! ## Texts -/

theorem lit_append (s t : String) : lit (s ++ t) = lit s ++ lit t := by
  simp [lit]

theorem lit_ofList (cs : List Char) : lit (String.ofList cs) = cs.map .char := by
  rw [lit, String.toList_ofList]

theorem consistsOf_lit (p : Char → Bool) (s : String) :
    Text.consistsOf p (lit s) = s.toList.all p := by
  rw [Text.consistsOf, lit, List.all_map]
  rfl

theorem length_lit (s : String) : (lit s).length = s.toList.length := List.length_map _

theorem isHex_lit {s : String} (h : Server.isHex s = true) : isHex (lit s) = true := by
  rw [isHex, consistsOf_lit, lit, List.isEmpty_map]
  exact h

theorem isIdentifierText_lit {s : String} (h : Server.isSignedIdentifierText s = true) :
    isIdentifierText (lit s) = true := by
  rw [isIdentifierText, consistsOf_lit, length_lit]
  exact h

/-- Without a line break at the end, both patterns are the digits and nothing else. -/
theorem isHexOfLength_lit {n : ℕ} {s : String} (hbreak : s.toList.getLast? ≠ some '\n')
    (h : Server.matchHex n s = true) : isHexOfLength n (lit s) = true := by
  rw [Server.matchHex, if_neg hbreak] at h
  rw [isHexOfLength, consistsOf_lit, length_lit]
  exact h

theorem isAddress_lit {s : String} (hbreak : NoFinalBreak (.str (.uni s)))
    (h : Server.isValidAddress s = true) : isHexOfLength 96 (lit s) = true :=
  isHexOfLength_lit hbreak h

theorem isKeyId_lit {s : String} (hbreak : NoFinalBreak (.str (.uni s)))
    (h : Server.isValidKeyId s = true) : isHexOfLength 32 (lit s) = true :=
  isHexOfLength_lit hbreak h

theorem isHostAndPort_map {cs : List Char} (hhost : (cs.takeWhile isHostChar).isEmpty = false)
    (hport : Server.isPort (cs.dropWhile isHostChar) = true) :
    isHostAndPort (cs.map .char) = true := by
  have hmap : ∀ ds : List Char, Server.isPort ds = isPort (ds.map .char) := by
    intro ds
    cases ds with
    | nil => rfl
    | cons c ds => simp [Server.isPort, isPort, Text.consistsOf, List.all_map, Function.comp_def,
        Point.satisfies, beq_eq_decide]
  rw [isHostAndPort, List.takeWhile_map, List.dropWhile_map, List.isEmpty_map]
  have htake : cs.takeWhile (Point.satisfies isHostChar ∘ Point.char) = cs.takeWhile isHostChar := rfl
  have hdrop : cs.dropWhile (Point.satisfies isHostChar ∘ Point.char) = cs.dropWhile isHostChar := rfl
  rw [htake, hdrop, hhost, ← hmap, hport]
  rfl

theorem isOriginText_lit {s : String} (h : Server.isCanonicalOrigin s = true) :
    isOriginText (lit s) = true := by
  rw [Server.isCanonicalOrigin] at h
  split at h
  · next cs hs =>
    simp only [Bool.and_eq_true, Bool.not_eq_true'] at h
    have hlit : lit s = lit "https://" ++ cs.map .char := by
      rw [lit, hs]
      rfl
    rw [isOriginText, hlit]
    exact Bool.or_eq_true_iff.mpr (.inl (Bool.and_eq_true_iff.mpr
      ⟨rfl, isHostAndPort_map h.1 h.2⟩))
  · next cs hs =>
    simp only [Bool.and_eq_true, Bool.not_eq_true'] at h
    have hlit : lit s = lit "http://" ++ cs.map .char := by
      rw [lit, hs]
      rfl
    rw [isOriginText, hlit]
    exact Bool.or_eq_true_iff.mpr (.inr (Bool.and_eq_true_iff.mpr
      ⟨rfl, isHostAndPort_map h.1 h.2⟩))
  · cases h

/-! ## Order and quotation -/

/-- Texts of the basic plane are put in one order by code points and by UTF-16 units. -/
theorem le_lit_iff {a b : String} (ha : ∀ c ∈ a.toList, c.toNat < 65536)
    (hb : ∀ c ∈ b.toList, c.toNat < 65536) : a ≤ b ↔ Text.le (lit a) (lit b) = true := by
  have hunits : ∀ cs : List Char, (∀ c ∈ cs, c.toNat < 65536) →
      (cs.map Point.char).flatMap Point.units = cs.map Char.toNat := by
    intro cs hcs
    induction cs with
    | nil => rfl
    | cons c cs ih =>
      obtain ⟨hc, hcs⟩ := List.forall_mem_cons.mp hcs
      have hone : (Point.char c).units = [c.toNat] := if_pos hc
      rw [List.map_cons, List.flatMap_cons, hone, ih hcs]
      rfl
  have hmono : ∀ x y : Char, x < y → x.toNat < y.toNat := fun _ _ h => h
  rw [Text.le, lit, lit, hunits _ ha, hunits _ hb, Bool.not_eq_true', List.lex_eq_false_iff_ge]
  constructor
  · intro h
    have hle : @LE.le (List Char) List.instLE a.toList b.toList := h
    exact List.map_le hmono hle
  · intro h hlt
    have hlt : @LT.lt (List Char) List.instLT b.toList a.toList := hlt
    exact h (List.map_lt hmono hlt)

theorem sortAlike_of_basic {keys : List String} (h : ∀ k ∈ keys, ∀ c ∈ k.toList, c.toNat < 65536) :
    SortAlike keys := fun a ha b hb => le_lit_iff (h a ha) (h b hb)

theorem escapeChar_eq (c : Char) : Server.escapeChar c = escapeChar c := by
  unfold Server.escapeChar escapeChar
  split
  · rfl
  · rfl
  · rfl
  · rfl
  · rfl
  · next hquote hbackslash hnewline hreturn htab =>
    rw [if_neg hquote, if_neg hbackslash, if_neg hnewline, if_neg hreturn, if_neg htab]
    rfl

theorem quote_lit (s : String) : quote (lit s) = (Server.jsonString s).toList := by
  have hflat : (lit s).flatMap escape = s.toList.flatMap Server.escapeChar := by
    rw [lit, List.flatMap_map]
    exact List.flatMap_congr fun c _ => (escapeChar_eq c).symm
  rw [quote, hflat, Server.jsonString, String.toList_ofList]

/-- The two digests of a list of redactions are one. -/
theorem redactionsDigest_eq (prim : Primitives) {keys : List String} (h : SortAlike keys) :
    lit (Server.redactionsDigest prim keys) = digest prim.sha384Hex
      (.arr (((keys.map lit).insertionSort fun a b => Text.le a b).map .str)) := by
  have hsort : (keys.map lit).insertionSort (fun a b => Text.le a b) =
      (keys.insertionSort (· ≤ ·)).map lit :=
    (List.map_insertionSort (· ≤ ·) (fun a b : Text => Text.le a b = true) lit keys h).symm
  have hitems : canonicalItems (((keys.insertionSort (· ≤ ·)).map lit).map .str) =
      ((keys.insertionSort (· ≤ ·)).map Server.jsonString).map String.toList := by
    rw [canonicalItems_eq, List.map_map, List.map_map, List.map_map]
    exact List.map_congr_left fun k _ => quote_lit k
  have htext : String.ofList (canonicalJson (.arr
      (((keys.map lit).insertionSort fun a b => Text.le a b).map .str))) =
        "[" ++ ",".intercalate ((keys.insertionSort (· ≤ ·)).map Server.jsonString) ++ "]" := by
    rw [hsort, canonicalJson, hitems]
    refine String.toList_inj.mp ?_
    rw [String.toList_ofList, String.toList_append, String.toList_append,
      String.toList_intercalate]
    rfl
  rw [digest, htext, Server.redactionsDigest]

/-! ## Key envelopes -/

section envelope

variable {r : NumberReader}

/-- What Python writes for a value is what JavaScript writes for it. -/
def Agrees (r : NumberReader) (v : Json.Value) : Prop :=
  ∀ t, Server.canonicalJson v = .ok t → canonicalJson (toScript r v) = t.toList

theorem agrees_null : Agrees r .null := by
  intro t h
  obtain rfl := Except.ok.inj h
  rfl

theorem agrees_text (s : String) : Agrees r (.str (.uni s)) := by
  intro t h
  obtain rfl := Except.ok.inj h
  exact quote_lit s

theorem agrees_int {n : ℕ} (hn : n < 2 ^ 53) : Agrees r (.int n) := by
  intro t h
  obtain rfl := Except.ok.inj h
  exact r.read_int n hn

/-- A member of an object, written in both languages. -/
theorem canonicalFields_agree {fields : List (Str × Json.Value)} {parts : List (String × String)}
    (hvalues : ∀ f ∈ fields, Agrees r f.2) (h : Server.canonicalFields fields = .ok parts) :
    canonicalFields (toScriptFields r fields) = parts.map fun p => (lit p.1, p.2.toList) := by
  induction fields generalizing parts with
  | nil =>
    obtain rfl := Except.ok.inj h
    rfl
  | cons f fs ih =>
    obtain ⟨name, v⟩ := f
    obtain ⟨hv, hfs⟩ := List.forall_mem_cons.mp hvalues
    cases name with
    | lone points => cases h
    | uni k =>
      simp only [Server.canonicalFields, bind_eq_ok, Except.ok.injEq] at h
      obtain ⟨t, ht, rest, hrest, rfl⟩ := h
      rw [toScriptFields, canonicalFields, ih hfs hrest, hv t ht]
      rfl

theorem fst_mem_of_canonicalFields {fields : List (Str × Json.Value)} {parts : List (String × String)}
    (h : Server.canonicalFields fields = .ok parts) : ∀ p ∈ parts, ∃ f ∈ fields, f.1 = .uni p.1 := by
  induction fields generalizing parts with
  | nil =>
    obtain rfl := Except.ok.inj h
    exact fun _ hp => by cases hp
  | cons f fs ih =>
    obtain ⟨name, v⟩ := f
    cases name with
    | lone points => cases h
    | uni k =>
      simp only [Server.canonicalFields, bind_eq_ok, Except.ok.injEq] at h
      obtain ⟨t, -, rest, hrest, rfl⟩ := h
      intro p hp
      rcases List.mem_cons.mp hp with rfl | hp
      · exact ⟨_, List.mem_cons_self, rfl⟩
      · obtain ⟨f, hf, hname⟩ := ih hrest p hp
        exact ⟨f, List.mem_cons_of_mem _ hf, hname⟩

/-- Objects whose names are ASCII agree as far as their members do. -/
theorem agrees_obj {fields : List (Str × Json.Value)} (hnames : ∀ f ∈ fields, f.1.isAscii = true)
    (hvalues : ∀ f ∈ fields, Agrees r f.2) : Agrees r (.obj fields) := by
  intro t h
  simp only [Server.canonicalJson, bind_eq_ok, Except.ok.injEq] at h
  obtain ⟨parts, hparts, rfl⟩ := h
  have hbasic : ∀ p ∈ parts, ∀ c ∈ p.1.toList, c.toNat < 65536 := by
    intro p hp c hc
    obtain ⟨f, hf, hname⟩ := fst_mem_of_canonicalFields hparts p hp
    have hascii := hnames f hf
    rw [hname] at hascii
    have := of_decide_eq_true (List.all_eq_true.mp hascii c hc)
    omega
  have hsort : (parts.map fun p => (lit p.1, p.2.toList)).insertionSort
      (fun f g => Text.le f.1 g.1) =
        (parts.insertionSort fun a b => a.1 ≤ b.1).map fun p => (lit p.1, p.2.toList) :=
    (List.map_insertionSort (fun a b : String × String => a.1 ≤ b.1)
      (fun f g : Text × List Char => Text.le f.1 g.1 = true) (fun p => (lit p.1, p.2.toList)) parts
      fun a ha b hb => le_lit_iff (hbasic a ha) (hbasic b hb)).symm
  rw [toScript, canonicalJson, canonicalFields_agree hvalues hparts]
  rw [hsort, List.map_map, String.toList_append, String.toList_append, String.toList_intercalate,
    List.map_map]
  have hfield : (fun f : Text × List Char => quote f.1 ++ ':' :: f.2) ∘
      (fun p : String × String => (lit p.1, p.2.toList)) =
        String.toList ∘ fun p => Server.jsonString p.1 ++ ":" ++ p.2 := by
    funext p
    simp only [Function.comp_apply, quote_lit, String.toList_append, List.append_assoc]
    rfl
  rw [hfield]
  rfl

/-- The envelopes that the server accepts are written alike. -/
theorem agrees_envelope {keys : Json.Value} (h : Server.checkEnvelopeShape keys = .ok ()) : Agrees r keys := by
  refine Server.of_checkEnvelopeShape h agrees_text (fun n hn => agrees_int (by omega)) ?_
  intro fields hnames hvalues
  exact agrees_obj hnames hvalues

end envelope

/-! ## Templates -/

theorem lit_domainSeparate (context body : String) :
    lit (Server.domainSeparate context body) = domainSeparate (lit context) (lit body) := by
  have hheader : lit "Kryptolog Signed Message v1\ncontext=" =
    lit "Kryptolog Signed Message v1" ++ newline :: lit "context=" := by simp [lit, newline]
  have hbreak : lit "\n" = [newline] := rfl
  unfold Server.domainSeparate
  simp only [toString, lit_append, hheader, hbreak, domainSeparate, lines,
    List.intercalate_cons_cons, List.intercalate_singleton, List.append_assoc, List.cons_append,
    List.nil_append]

theorem lit_deployment : lit "\ndeployment=" = newline :: lit "deployment=" := by simp [lit, newline]

theorem lit_nonce : lit "\nnonce=" = newline :: lit "nonce=" := by simp [lit, newline]

theorem lit_redactions : lit "\nredactions=" = newline :: lit "redactions=" := by simp [lit, newline]

theorem lit_ts : lit "\nts=" = newline :: lit "ts=" := by simp [lit, newline]

theorem lit_login (origin deployment nonce alg key : String) :
    lit (s!"Sign in to Kryptolog\norigin={origin}\ndeployment={deployment}" ++
      s!"\nnonce={nonce}\nencryption-key-alg={alg}\nencryption-key={key}") =
    lines [lit "Sign in to Kryptolog", lit "origin=" ++ lit origin,
      lit "deployment=" ++ lit deployment, lit "nonce=" ++ lit nonce,
      lit "encryption-key-alg=" ++ lit alg, lit "encryption-key=" ++ lit key] := by
  have horigin : lit "Sign in to Kryptolog\norigin=" =
    lit "Sign in to Kryptolog" ++ newline :: lit "origin=" := by simp [lit, newline]
  have halg : lit "\nencryption-key-alg=" = newline :: lit "encryption-key-alg=" := by
    simp [lit, newline]
  have hkey : lit "\nencryption-key=" = newline :: lit "encryption-key=" := by simp [lit, newline]
  simp only [toString, lit_append, horigin, lit_deployment, lit_nonce, halg, hkey, lines,
    List.intercalate_cons_cons, List.intercalate_singleton, List.append_assoc, List.cons_append,
    List.nil_append]

theorem lit_attestation (address key : String) :
    lit (s!"address={address}\nencryption-alg={kemAlg}" ++ s!"\nencryption={key}") =
    lines [lit "address=" ++ lit address, lit "encryption-alg=" ++ lit kemAlg,
      lit "encryption=" ++ lit key] := by
  have halg : lit "\nencryption-alg=" = newline :: lit "encryption-alg=" := by simp [lit, newline]
  have hkey : lit "\nencryption=" = newline :: lit "encryption=" := by simp [lit, newline]
  simp only [toString, lit_append, halg, hkey, lines, List.intercalate_cons_cons,
    List.intercalate_singleton, List.append_assoc, List.cons_append, List.nil_append]

theorem lit_rotation (address oldKid newKid : String) (ts : ℤ) :
    lit (s!"address={address}\nold-kid={oldKid}\nnew-kid={newKid}" ++
      s!"\nnew-alg={kemAlg}\nts={ts}") =
    lines [lit "address=" ++ lit address, lit "old-kid=" ++ lit oldKid,
      lit "new-kid=" ++ lit newKid, lit "new-alg=" ++ lit kemAlg,
      lit "ts=" ++ lit (toString ts)] := by
  have hold : lit "\nold-kid=" = newline :: lit "old-kid=" := by simp [lit, newline]
  have hnew : lit "\nnew-kid=" = newline :: lit "new-kid=" := by simp [lit, newline]
  have halg : lit "\nnew-alg=" = newline :: lit "new-alg=" := by simp [lit, newline]
  simp only [toString, lit_append, hold, hnew, halg, lit_ts, lines, List.intercalate_cons_cons,
    List.intercalate_singleton, List.append_assoc, List.cons_append, List.nil_append]

theorem lit_accountDeletion (origin deployment nonce mode redactions : String) :
    lit (s!"origin={origin}\ndeployment={deployment}\nnonce={nonce}" ++
      s!"\nmode={mode}\nredactions={redactions}") =
    lines [lit "origin=" ++ lit origin, lit "deployment=" ++ lit deployment,
      lit "nonce=" ++ lit nonce, lit "mode=" ++ lit mode, lit "redactions=" ++ lit redactions] := by
  have hmode : lit "\nmode=" = newline :: lit "mode=" := by simp [lit, newline]
  simp only [toString, lit_append, lit_deployment, lit_nonce, hmode, lit_redactions, lines,
    List.intercalate_cons_cons, List.intercalate_singleton, List.append_assoc, List.cons_append,
    List.nil_append]

theorem lit_conversationErase (origin deployment nonce kind conversation redactions : String) :
    lit (s!"origin={origin}\ndeployment={deployment}\nnonce={nonce}" ++
      s!"\nconversation={kind}:{conversation}\nredactions={redactions}") =
    lines [lit "origin=" ++ lit origin, lit "deployment=" ++ lit deployment,
      lit "nonce=" ++ lit nonce, lit "conversation=" ++ lit kind ++ .char ':' :: lit conversation,
      lit "redactions=" ++ lit redactions] := by
  have hconversation : lit "\nconversation=" = newline :: lit "conversation=" := by
    simp [lit, newline]
  have hcolon : lit ":" = [.char ':'] := rfl
  simp only [toString, lit_append, lit_deployment, lit_nonce, hconversation, hcolon, lit_redactions,
    lines, List.intercalate_cons_cons, List.intercalate_singleton, List.append_assoc,
    List.cons_append, List.nil_append]

theorem lit_message (sender conv gid sid keysh tail : String) (ts seq : ℤ) {last : Text}
    (hlast : lit tail = newline :: last) :
    lit (s!"from={sender}\nconv={conv}\ngid={gid}\nsid={sid}\nts={ts}\nseq={seq}" ++
      s!"\nkeysh={keysh}" ++ tail) =
    lines [lit "from=" ++ lit sender, lit "conv=" ++ lit conv, lit "gid=" ++ lit gid,
      lit "sid=" ++ lit sid, lit "ts=" ++ lit (toString ts), lit "seq=" ++ lit (toString seq),
      lit "keysh=" ++ lit keysh, last] := by
  have hconv : lit "\nconv=" = newline :: lit "conv=" := by simp [lit, newline]
  have hgid : lit "\ngid=" = newline :: lit "gid=" := by simp [lit, newline]
  have hsid : lit "\nsid=" = newline :: lit "sid=" := by simp [lit, newline]
  have hseq : lit "\nseq=" = newline :: lit "seq=" := by simp [lit, newline]
  have hkeysh : lit "\nkeysh=" = newline :: lit "keysh=" := by simp [lit, newline]
  simp only [toString, lit_append, hconv, hgid, hsid, lit_ts, hseq, hkeysh, hlast, lines,
    List.intercalate_cons_cons, List.intercalate_singleton, List.append_assoc, List.cons_append,
    List.nil_append]

/-! ## What the server accepts -/

section mirror

variable {str : Json.Value → String} {prim : Primitives} (r : NumberReader)

theorem isText_iff {test : String → Bool} {v : Json.Value} :
    isText test v = true ↔ ∃ s, v = .str (.uni s) ∧ test s = true := by
  constructor
  · intro h
    cases v with
    | str s =>
      cases s with
      | uni s => exact ⟨s, rfl, h⟩
      | lone points => cases h
    | _ => cases h
  · rintro ⟨s, rfl, h⟩
    exact h

theorem eqStr_text_iff {s : String} {v : Json.Value} : v.eqStr s = true ↔ v = .str (.uni s) :=
  Json.Value.eqStr_iff

@[simp] theorem toScript_text (s : String) : toScript r (.str (.uni s)) = .str (lit s) := rfl

/-- A position of a body, as both languages read and write it. -/
theorem read_position {v : Json.Value} {t : ℤ} (h : Server.signedInt (some v) = some t) :
    isCount (toScript r v) = true ∧ interpolate (toScript r v) = .ok (lit (toString t)) := by
  cases v with
  | int z =>
    simp only [Server.signedInt] at h
    split at h
    · next hbound =>
      obtain ⟨hpos, hlt⟩ : 0 ≤ z ∧ z < 2 ^ 53 := by simpa using hbound
      obtain rfl : z = t := Option.some.inj h
      obtain ⟨n, rfl⟩ := Int.eq_ofNat_of_zero_le hpos
      have hn : n < 2 ^ 53 := by omega
      have hspelling := r.read_int n hn
      have hdigits : (toString n).toList = Nat.toDigits 10 n := Nat.toList_repr
      constructor
      · have hall : (Nat.toDigits 10 n).all Char.isDigit = true :=
          List.all_eq_true.mpr fun c hc => Nat.isDigit_of_mem_toDigits (by decide) (by decide) hc
        change (_ && _) = true
        rw [hspelling, hdigits, hall, Number.digitsValue, Nat.ofDigitChars_ten_toDigits]
        exact decide_eq_true hn
      · have htext : (r.read (.int n)).text = lit (toString n) := by
          rw [Number.text, hspelling, lit]
        exact congrArg Except.ok htext
    · cases h
  | _ => cases h

theorem need_true (what : String) : need true what = .ok () := rfl

theorem login_mirror {nonce origin deployment key : Json.Value} {t : String}
    (hkey : IsTextOrNull key)
    (h : Server.Untyped.loginMessage nonce origin deployment key = .ok t) :
    loginChallengeBody (toScript r nonce) (toScript r origin) (toScript r deployment)
      (toScript r key) = .ok (lit t) := by
  simp only [Server.Untyped.loginMessage, bind_eq_ok, refuseIf_eq_ok, Bool.not_eq_false',
    Bool.or_eq_false_iff, exists_const, Except.ok.injEq, isText_iff] at h
  obtain ⟨⟨n, rfl, hn⟩, ⟨⟨o, rfl, ho⟩, d, rfl, hd⟩, hk, rfl⟩ := h
  rw [lit_domainSeparate, lit_login]
  simp only [loginChallengeBody, toScript_text, isCanonicalOrigin, isSignedIdentifier, isString,
    isHex_lit hn, isOriginText_lit ho, isIdentifierText_lit hd, need_true, interpolate_str, ok_bind]
  rcases hkey with rfl | ⟨k, rfl⟩
  · rfl
  · by_cases hempty : k = ""
    · rw [hempty]
      rfl
    · have htruthy : (Json.Value.str (.uni k)).truthy = true := bne_iff_ne.mpr hempty
      rw [htruthy, Bool.true_and, Bool.not_eq_false'] at hk
      have hhex := isHex_lit hk
      have hne : (toScript r (.str (.uni k))).truthy = true := (Bool.and_eq_true_iff.mp hhex).1
      rw [htruthy, hne]
      simp only [toScript_text, interpolate_str, ok_bind, hhex, Bool.or_true, need_true, if_true]
      rfl

theorem attestation_mirror {address key : Json.Value} {t : String} (haddress : NoFinalBreak address)
    (h : Server.Untyped.encryptionKeyAttestationMessage address key = .ok t) :
    encryptionKeyAttestationBody (toScript r address) (toScript r key) = .ok (lit t) := by
  simp only [Server.Untyped.encryptionKeyAttestationMessage, bind_eq_ok, refuseIf_eq_ok,
    Bool.not_eq_false', Bool.or_eq_false_iff, exists_const, Except.ok.injEq, isText_iff] at h
  obtain ⟨⟨⟨a, rfl, ha⟩, k, rfl, hk⟩, rfl⟩ := h
  rw [lit_domainSeparate, lit_attestation]
  simp only [encryptionKeyAttestationBody, toScript_text, isAddress, isString,
    isAddress_lit haddress ha, isHex_lit hk, need_true, interpolate_str, ok_bind]
  rfl

theorem rotation_mirror {address oldKid newKid ts : Json.Value} {t : String}
    (haddress : NoFinalBreak address) (hold : NoFinalBreak oldKid) (hnew : NoFinalBreak newKid)
    (h : Server.Untyped.keyRotationMessage address oldKid newKid ts = .ok t) :
    keyRotationBody (toScript r address) (toScript r oldKid) (toScript r newKid) (toScript r ts) =
      .ok (lit t) := by
  simp only [Server.Untyped.keyRotationMessage, bind_eq_ok, refuseIf_eq_ok, Bool.not_eq_false',
    Bool.or_eq_false_iff, Bool.and_eq_true, exists_const, isText_iff] at h
  obtain ⟨⟨a, rfl, ha⟩, ⟨⟨⟨o, rfl, ho⟩, n, rfl, hn⟩, hne⟩, h⟩ := h
  cases hts : Server.signedInt (some ts) with
  | none =>
    rw [hts] at h
    cases h
  | some z =>
    rw [hts] at h
    obtain rfl := Except.ok.inj h
    obtain ⟨hcount, htext⟩ := read_position r hts
    have hlit : lit o ≠ lit n := by
      intro heq
      have hchar : Function.Injective Point.char := fun _ _ hc => Point.char.inj hc
      have hon : o = n := String.toList_inj.mp (List.map_injective_iff.mpr hchar heq)
      exact absurd hne (by simp [hon])
    rw [lit_domainSeparate, lit_rotation]
    simp only [keyRotationBody, toScript_text, isAddress, isEncryptionKeyId, isString,
      isAddress_lit haddress ha, isKeyId_lit hold ho, isKeyId_lit hnew hn, hcount,
      htext, bne_iff_ne.mpr hlit, need_true, interpolate_str, ok_bind]
    rfl

theorem accountDeletion_mirror {nonce mode origin deployment : Json.Value} {keys : List String}
    {t : String} (hkeys : SortAlike keys)
    (h : Server.Untyped.accountDeletionMessage prim nonce mode keys origin deployment = .ok t) :
    accountDeletionBody prim.sha384Hex (toScript r nonce) (toScript r mode)
      ((keys.map lit).map .str) (toScript r origin) (toScript r deployment) = .ok (lit t) := by
  simp only [Server.Untyped.accountDeletionMessage, bind_eq_ok, refuseIf_eq_ok, Bool.not_eq_false',
    Bool.or_eq_false_iff, Bool.or_eq_true, exists_const, Except.ok.injEq, isText_iff,
    eqStr_text_iff] at h
  obtain ⟨⟨⟨n, rfl, hn⟩, hmode⟩, ⟨⟨o, rfl, ho⟩, d, rfl, hd⟩, rfl⟩ := h
  obtain ⟨m, rfl, hm⟩ : ∃ m, mode = .str (.uni m) ∧
      (lit m == lit "leave" || lit m == lit "erase") = true := by
    rcases hmode with rfl | rfl
    · exact ⟨_, rfl, by decide⟩
    · exact ⟨_, rfl, by decide⟩
  rw [lit_domainSeparate, lit_accountDeletion, redactionsDigest_eq prim hkeys]
  simp only [accountDeletionBody, toScript_text, isCanonicalOrigin, isSignedIdentifier, isString,
    isHex_lit hn, hm, isOriginText_lit ho, isIdentifierText_lit hd, sortTexts_str, need_true,
    interpolate_str, ok_bind]
  rfl

theorem conversationErase_mirror {nonce kind conversation origin deployment : Json.Value}
    {keys : List String} {t : String} (hconversation : NoFinalBreak conversation)
    (hkeys : SortAlike keys)
    (h : Server.Untyped.conversationEraseMessage prim nonce kind conversation keys origin
      deployment = .ok t) :
    conversationEraseBody prim.sha384Hex (toScript r nonce) (toScript r kind)
      (toScript r conversation) ((keys.map lit).map .str) (toScript r origin)
      (toScript r deployment) = .ok (lit t) := by
  simp only [Server.Untyped.conversationEraseMessage, bind_eq_ok, refuseIf_eq_ok,
    Bool.not_eq_false', Bool.or_eq_false_iff, Bool.or_eq_true, Bool.and_eq_true, exists_const,
    Except.ok.injEq, isText_iff, eqStr_text_iff] at h
  obtain ⟨⟨n, rfl, hn⟩, hnamed, ⟨⟨o, rfl, ho⟩, d, rfl, hd⟩, rfl⟩ := h
  obtain ⟨k, c, rfl, rfl, hkind⟩ : ∃ k c, kind = .str (.uni k) ∧ conversation = .str (.uni c) ∧
      ((lit k == lit "dm" && isHexOfLength 96 (lit c)) ||
        (lit k == lit "group" && isIdentifierText (lit c))) = true := by
    rcases hnamed with ⟨rfl, c, rfl, hc⟩ | ⟨rfl, c, rfl, hc⟩
    · refine ⟨_, _, rfl, rfl, ?_⟩
      rw [isAddress_lit hconversation hc, beq_self_eq_true]
      rfl
    · refine ⟨_, _, rfl, rfl, ?_⟩
      rw [isIdentifierText_lit hc, beq_self_eq_true, Bool.and_self, Bool.or_true]
  rw [lit_domainSeparate, lit_conversationErase, redactionsDigest_eq prim hkeys]
  simp only [conversationEraseBody, toScript_text, isCanonicalOrigin, isAddress, isSignedIdentifier,
    isString, isHex_lit hn, hkind, isOriginText_lit ho, isIdentifierText_lit hd, sortTexts_str,
    need_true, interpolate_str, ok_bind]
  rfl

theorem lit_inj {s t : String} (h : lit s = lit t) : s = t := by
  have hchar : Function.Injective Point.char := fun _ _ hc => Point.char.inj hc
  exact String.toList_inj.mp (List.map_injective_iff.mpr hchar h)

/-- A name is the text of a literal in one language where it is in the other. -/
theorem readStr_eq_lit {name : String} {k : Str} (hk : IsName k) :
    lit name = readStr k ↔ Str.uni name = k := by
  cases k with
  | uni s =>
    constructor
    · intro h
      rw [lit_inj h]
    · intro h
      rw [Str.uni.inj h]
      rfl
  | lone points =>
    obtain ⟨n, hn, hbounds⟩ := hk
    constructor
    · intro h
      have hpoint : toPoint n ∈ lit name := h ▸ List.mem_map_of_mem hn
      obtain ⟨c, -, hc⟩ := List.mem_map.mp hpoint
      rw [toPoint, dif_pos hbounds] at hc
      cases hc
    · intro h
      cases h

theorem get_toScript (name : String) {fields : List (Str × Json.Value)}
    (hnames : ∀ f ∈ fields, IsName f.1) :
    (toScript r (.obj fields)).get name = ((Json.Value.obj fields).get name).map (toScript r) := by
  change (toScriptFields r fields).lookup (lit name) =
    (fields.lookup (.uni name)).map (toScript r)
  induction fields with
  | nil => rfl
  | cons f fs ih =>
    obtain ⟨k, v⟩ := f
    obtain ⟨hk, hfs⟩ := List.forall_mem_cons.mp hnames
    rw [toScriptFields, List.lookup_cons, List.lookup_cons, ih hfs]
    have hkey : (lit name == readStr k) = (Str.uni name == k) := by
      rw [beq_eq_decide, beq_eq_decide]
      exact decide_eq_decide.mpr (readStr_eq_lit hk)
    rw [hkey]
    cases Str.uni name == k <;> rfl

/-- The last line of a message, as both languages write it. -/
theorem ciphertextLine_mirror {ct : Json.Value} (hct : IsCiphertext ct) : ∃ last,
    lit (Server.Untyped.tail str ct) = newline :: last ∧ ciphertextLine (toScript r ct) = .ok last := by
  have hlabel : lit "\nct=" = newline :: lit "ct=" := by simp [lit, newline]
  rcases hct with (rfl | ⟨s, rfl⟩) | ⟨fields, iv, content, rfl, hnames, hiv, hcontent⟩
  · exact ⟨lit "redacted=1", by simp [Server.Untyped.tail, lit, newline], rfl⟩
  · refine ⟨lit "ct=" ++ lit s, ?_, rfl⟩
    change lit ("\nct=" ++ s) = _
    rw [lit_append, hlabel]
    rfl
  · refine ⟨lit "ct=" ++ (lit iv ++ .char '.' :: lit content), ?_, ?_⟩
    · have htext : Server.Untyped.canonicalCiphertext str (.obj fields) =
          iv ++ "." ++ content := by
        simp only [Server.Untyped.canonicalCiphertext, hiv, hcontent, Option.getD_some,
          Server.Untyped.format]
      have hdot : lit "." = [.char '.'] := rfl
      change lit ("\nct=" ++ Server.Untyped.canonicalCiphertext str (.obj fields)) = _
      rw [htext, lit_append, lit_append, lit_append, hlabel, hdot]
      simp
    · have hgetiv := get_toScript r "iv" hnames
      have hgetcontent := get_toScript r "content" hnames
      rw [hiv] at hgetiv
      rw [hcontent] at hgetcontent
      change (do .ok (lit "ct=" ++ (← canonicalCiphertext (toScript r (.obj fields))))) = _
      have hciphertext : canonicalCiphertext (toScript r (.obj fields)) =
          .ok (lit iv ++ .char '.' :: lit content) := by
        rw [toScript] at hgetiv hgetcontent ⊢
        simp only [canonicalCiphertext, hgetiv, hgetcontent, Option.map_some, Option.getD_some,
          toScript_text, interpolate_str, ok_bind]
      rw [hciphertext]
      rfl

theorem keys_mirror {keys : Json.Value} {k : String}
    (hcheck : Server.Untyped.checkKeys keys = .ok ()) (hk : Server.canonicalJson keys = .ok k) :
    digest prim.sha384Hex (toScript r keys) = lit (prim.sha384Hex k) := by
  have hagrees : Agrees r keys := by
    cases keys with
    | null => exact agrees_null
    | _ => exact agrees_envelope hcheck
  rw [digest, hagrees k hk, String.ofList_toList]

theorem gid_mirror {gid : Json.Value} (hgid : IsTextOrNull gid)
    (hcheck : (gid.truthy && !isText Server.isSignedIdentifierText gid) = false) :
    (isEmptyText (toScript r gid) || isNullish (toScript r gid) ||
      isSignedIdentifier (toScript r gid)) = true ∧
    interpolate (if isNullish (toScript r gid) then .str [] else toScript r gid) =
      .ok (lit (if gid.truthy then text gid else "")) := by
  rcases hgid with rfl | ⟨g, rfl⟩
  · exact ⟨rfl, rfl⟩
  · by_cases hempty : g = ""
    · rw [hempty]
      exact ⟨rfl, rfl⟩
    · have htruthy : (Json.Value.str (.uni g)).truthy = true := bne_iff_ne.mpr hempty
      rw [htruthy, Bool.true_and, Bool.not_eq_false'] at hcheck
      have hidentifier : isSignedIdentifier (toScript r (.str (.uni g))) = true :=
        isIdentifierText_lit hcheck
      rw [hidentifier, Bool.or_true, htruthy]
      exact ⟨rfl, rfl⟩

theorem message_mirror {sender conv sid ts seq ct gid keys : Json.Value} {t : String}
    (hsender : NoFinalBreak sender) (hconv : NoFinalBreak conv) (hgid : IsTextOrNull gid)
    (hct : IsCiphertext ct)
    (h : Server.Untyped.messageSigningBody str prim sender conv sid ts seq ct gid keys = .ok t) :
    messageSigningBody prim.sha384Hex (toScript r sender) (toScript r conv) (toScript r sid)
      (toScript r ct) (toScript r gid) (toScript r keys) (toScript r ts) (toScript r seq) =
        .ok (lit t) := by
  simp only [Server.Untyped.messageSigningBody, bind_eq_ok, refuseIf_eq_ok, Bool.not_eq_false',
    Bool.or_eq_false_iff, Bool.or_eq_true, exists_const, isText_iff] at h
  obtain ⟨_, hcheck, ⟨s, rfl, hs⟩, ⟨⟨a, rfl, ha⟩, hnamed⟩, hgcheck, h⟩ := h
  obtain ⟨c, rfl, hc⟩ : ∃ c, conv = .str (.uni c) ∧
      (isHexOfLength 96 (lit c) || isIdentifierText (lit c)) = true := by
    rcases hnamed with ⟨c, rfl, hc⟩ | ⟨c, rfl, hc⟩
    · exact ⟨c, rfl, by rw [isAddress_lit hconv hc, Bool.true_or]⟩
    · exact ⟨c, rfl, by rw [isIdentifierText_lit hc, Bool.or_true]⟩
  cases hts : Server.signedInt (some ts) with
  | none =>
    rw [hts] at h
    cases h
  | some z =>
    cases hseq : Server.signedInt (some seq) with
    | none =>
      rw [hts, hseq] at h
      cases h
    | some q =>
      rw [hts, hseq] at h
      simp only [bind_eq_ok, Except.ok.injEq] at h
      obtain ⟨k, hk, rfl⟩ := h
      obtain ⟨htcount, httext⟩ := read_position r hts
      obtain ⟨hqcount, hqtext⟩ := read_position r hseq
      obtain ⟨hgtest, hgtext⟩ := gid_mirror r hgid hgcheck
      obtain ⟨last, htail, hlast⟩ : ∃ last, lit (Server.Untyped.tail str ct) = newline :: last ∧
          ciphertextLine (toScript r ct) = .ok last := ciphertextLine_mirror r hct
      rw [lit_domainSeparate, lit_message _ _ _ _ _ _ _ _ htail]
      simp only [messageSigningBody, toScript_text, hgtest, hgtext, htcount, httext, hqcount,
        hqtext, hlast, keys_mirror r hcheck hk, need_true, interpolate_str, ok_bind]
      simp only [isAddress, isSignedIdentifier, isString, isAddress_lit hsender ha, hc,
        isIdentifierText_lit hs, need_true, ok_bind]
      rfl

/-- What the server's builder accepts, of the values that both builders document, the client's
builder accepts and spells alike. -/
theorem script_eq_of_python {c : Fields} {t : String} (hdoc : Documented c)
    (h : c.python str prim = .ok t) : c.script r prim.sha384Hex = .ok (lit t) := by
  cases c with
  | login => exact login_mirror r hdoc h
  | attestation => exact attestation_mirror r hdoc h
  | rotation => exact rotation_mirror r hdoc.1 hdoc.2.1 hdoc.2.2 h
  | accountDeletion => exact accountDeletion_mirror r hdoc h
  | conversationErase => exact conversationErase_mirror r hdoc.1 hdoc.2 h
  | message => exact message_mirror r hdoc.1 hdoc.2.1 hdoc.2.2.1 hdoc.2.2.2 h

end mirror

/-- A number in decimal digits. -/
def decimal (n : ℕ) : Number where
  spelling := (toString n).toList
  starts := by
    have hall : ∀ c ∈ Nat.toDigits 10 n, c.isDigit = true := fun c hc =>
      Nat.isDigit_of_mem_toDigits (by decide) (by decide) hc
    have hdigits : (toString n).toList = Nat.toDigits 10 n := Nat.toList_repr
    rw [hdigits]
    cases hcs : Nat.toDigits 10 n with
    | nil => exact absurd hcs Nat.toDigits_ne_nil
    | cons c cs =>
      have hc : c.isDigit = true := hall c (hcs ▸ List.mem_cons_self)
      simp [startsNumber, hc]
  chars := by
    refine List.all_eq_true.mpr fun c hc => ?_
    have hdigits : (toString n).toList = Nat.toDigits 10 n := Nat.toList_repr
    rw [hdigits] at hc
    simp [isNumberChar, Nat.isDigit_of_mem_toDigits (by decide) (by decide) hc]

def sampleReader : NumberReader where
  read v := match v with
    | .int z => decimal z.toNat
    | _ => decimal 0
  read_int _ _ := rfl

def samplePrimitives : Primitives where
  sha384Hex := sampleSha384
  verifyIdentitySignature _ _ _ := true
  unicodeDigit _ := none

def sampleText (s : String) : Json.Value := .str (.uni s)

/-- `false` is no key to the server, and no text of digits to a client. -/
theorem script_refuses_false : ¬ ∀ (c : Fields) (t : String),
    c.python (fun _ => "") samplePrimitives = .ok t →
      c.script sampleReader samplePrimitives.sha384Hex = .ok (lit t) := by
  intro h
  have hlogin := h (.login (sampleText "0a1b") (sampleText "https://app.example") (sampleText "eu-1")
    (.bool false)) _ rfl
  cases hlogin

def sampleErasure : Fields :=
  .accountDeletion (sampleText "0a1b") (sampleText "erase") ["dm:2", "dm:10"]
    (sampleText "https://app.example") (sampleText "eu-1")

theorem python_sampleErasure :
    ∃ t, sampleErasure.python (fun _ => "") samplePrimitives = .ok t := by
  have hnonce : Server.isHex "0a1b" = true := by decide
  have horigin : Server.isCanonicalOrigin "https://app.example" = true := by decide
  have hdeployment : Server.isSignedIdentifierText "eu-1" = true := by decide
  unfold sampleErasure sampleText
  simp only [Fields.python, Server.Untyped.accountDeletionMessage, Server.Untyped.isText_text,
    Server.Untyped.eqStr_text, hnonce, horigin, hdeployment, beq_self_eq_true, Bool.or_true,
    Bool.not_true, Bool.or_self, refuseIf, Bool.false_eq_true, if_false, ok_bind]
  exact ⟨_, rfl⟩

/-- Both sides build the deletion of an account with two rows to redact. -/
theorem script_eq_of_python_sample :
    ∃ t, sampleErasure.script sampleReader samplePrimitives.sha384Hex = .ok (lit t) := by
  have hbasic : ∀ k ∈ ["dm:2", "dm:10"], ∀ c ∈ k.toList, c.toNat < 65536 := by simp
  have hdoc : Documented sampleErasure := sortAlike_of_basic hbasic
  obtain ⟨t, hpython⟩ := python_sampleErasure
  exact ⟨t, script_eq_of_python sampleReader hdoc hpython⟩

end Kryptolog.Client
