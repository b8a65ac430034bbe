import Kryptolog.Library.ByteText
import Kryptolog.Library.Fallible
import Kryptolog.Library.Script

/-! # The encodings of the clients

`packages/crypto-core/src/encoding.js`: lowercase hexadecimal for names of keys, base64 for what is
sealed or signed, and the bytes of texts. Each decoder refuses what its encoder does not write,
but `DEC` leaves out a byte order mark.
-/

namespace Kryptolog.Client
set_option autoImplicit false

open Script Fallible

theorem isWellFormed_of_consistsOf {p : Char → Bool} {s : Text} (h : s.consistsOf p = true) :
    s.isWellFormed = true := by
  refine List.all_eq_true.mpr fun c hc => ?_
  have hpoint := List.all_eq_true.mp h c hc
  cases c with
  | char c => rfl
  | surrogate n => cases hpoint

/-! ## Hexadecimal -/

def toHex (arr : Bytes) : Text := ofChars (Hex.encode arr)

/-- `_HEX_ONLY`. -/
def isHexOnly (s : Text) : Bool := !s.isEmpty && s.consistsOf fun c => (Hex.value c).isSome

def fromHex (hex : Text) : Except String Bytes :=
  if hex.length == 0 || hex.length % 2 != 0 || !isHexOnly hex then
    .error "fromHex: expected a non-empty, even-length hex string"
  else ((chars hex).bind Hex.decode).elim (.error "fromHex: expected a non-empty, even-length hex string") .ok

theorem isSome_value_digit : ∀ n < 16, (Hex.value (Hex.digit n)).isSome = true := by decide

theorem isHexOnly_toHex {arr : Bytes} (h : arr ≠ []) : isHexOnly (toHex arr) = true := by
  have hall : (toHex arr).consistsOf (fun c => (Hex.value c).isSome) = true := by
    rw [Text.consistsOf, toHex, ofChars, List.all_map, List.all_eq_true]
    intro c hc
    obtain ⟨n, hn, rfl⟩ := Hex.exists_digit (Hex.isLowercase_encode hc)
    exact isSome_value_digit n hn
  have hne : (toHex arr).isEmpty = false := by
    cases arr with
    | nil => exact absurd rfl h
    | cons b arr => rfl
  rw [isHexOnly, hall, hne]
  rfl

theorem length_toHex (arr : Bytes) : (toHex arr).length = 2 * arr.length := by
  rw [toHex, ofChars, List.length_map, Hex.length_encode]

/-- What is written in hexadecimal is read back. -/
theorem fromHex_toHex {arr : Bytes} (h : arr ≠ []) : fromHex (toHex arr) = .ok arr := by
  have hpos : 0 < arr.length := List.length_pos_iff.mpr h
  have hlength : (toHex arr).length ≠ 0 := by
    rw [length_toHex]
    omega
  have heven : (toHex arr).length % 2 = 0 := by
    rw [length_toHex]
    omega
  have hchars : chars (toHex arr) = some (Hex.encode arr) := chars_eq_some.mpr rfl
  have hzero : ((toHex arr).length == 0) = false := by simpa using hlength
  rw [fromHex, isHexOnly_toHex h, heven, hchars, hzero, Option.bind_some, Hex.decode_encode]
  rfl

/-! ## Base64 -/

def toB64 (arr : Bytes) : Text := ofChars (Base64.encode arr)

/-- `_B64_ONLY`. -/
def isB64Only (s : List Char) : Bool :=
  let padding := s.dropWhile fun c => (Base64.sextet c).isSome
  padding.length ≤ 2 && padding.all (· == '=')

/-- How many characters of the text are padding. -/
def padOf (b64 : List Char) : ℕ :=
  if ['=', '='].isSuffixOf b64 then 2 else if ['='].isSuffixOf b64 then 1 else 0

/-- The unused bits of the last letter are zero. -/
def trailingBitsClear (b64 : List Char) : Bool :=
  let pad := padOf b64
  let last := (b64[b64.length - pad - 1]?.bind Base64.sextet).getD 0
  pad == 0 || last % (if pad = 2 then 16 else 4) == 0

/-- `fromB64`. What `atob` takes beyond padded base64, white space and a missing padding, is refused
before it is called. -/
def fromB64 (b64 : Option Value) : Except String Bytes :=
  match b64 with
  | some (.str text) =>
    match chars text with
    | none => .error "fromB64: expected a non-empty, padded, canonical base64 string"
    | some cs =>
      if cs.isEmpty || cs.length % 4 != 0 || !isB64Only cs then
        .error "fromB64: expected a non-empty, padded, canonical base64 string"
      else if !trailingBitsClear cs then
        .error "fromB64: non-canonical base64 (unused trailing bits are set)"
      else (Base64.decode cs).elim (.error "InvalidCharacterError") .ok
  | _ => .error "fromB64: expected a non-empty, padded, canonical base64 string"

theorem isSuffixOf_append {l s t : List Char} (h : l.length ≤ t.length) :
    l.isSuffixOf (s ++ t) = l.isSuffixOf t := by
  rw [Bool.eq_iff_iff, List.isSuffixOf_iff_suffix, List.isSuffixOf_iff_suffix]
  exact ⟨fun hl => List.suffix_of_suffix_length_le hl (List.suffix_append s t) h,
    fun hl => hl.trans (List.suffix_append s t)⟩

theorem padOf_le (s : List Char) : padOf s ≤ 2 := by
  unfold padOf
  split
  · exact Nat.le_refl 2
  · split <;> omega

/-- What stands before the last group does not count. -/
theorem trailingBitsClear_cons {a b c d : Char} {rest : List Char} (h : 4 ≤ rest.length) :
    trailingBitsClear (a :: b :: c :: d :: rest) = trailingBitsClear rest := by
  have hpad : padOf ([a, b, c, d] ++ rest) = padOf rest := by
    have htwo : ['=', '='].isSuffixOf ([a, b, c, d] ++ rest) = ['=', '='].isSuffixOf rest :=
      isSuffixOf_append (Nat.le_trans (by decide) h)
    have hone : ['='].isSuffixOf ([a, b, c, d] ++ rest) = ['='].isSuffixOf rest :=
      isSuffixOf_append (Nat.le_trans (by decide) h)
    rw [padOf, htwo, hone]
    rfl
  have hle := padOf_le rest
  have hindex : ([a, b, c, d] ++ rest).length - padOf rest - 1 = (rest.length - padOf rest - 1) + 4 := by
    rw [List.length_append]
    simp only [List.length_cons, List.length_nil]
    omega
  change trailingBitsClear ([a, b, c, d] ++ rest) = _
  rw [trailingBitsClear, hpad, hindex]
  rfl

theorem trailingBitsClear_last {a b c d : Char} {bytes : Bytes}
    (h : Base64.lastQuantum a b c d = some bytes) :
    trailingBitsClear [a, b, c, d] = Base64.canonical [a, b, c, d] := by
  unfold Base64.lastQuantum at h
  split at h
  · next hd =>
    subst hd
    split at h
    · next hc =>
      subst hc
      obtain ⟨x, -, h⟩ := Option.bind_eq_some_iff.mp h
      obtain ⟨y, hy, -⟩ := Option.bind_eq_some_iff.mp h
      have hpad : padOf [a, b, '=', '='] = 2 := rfl
      simp [trailingBitsClear, hpad, Base64.canonical, hy]
    · next hc =>
      obtain ⟨x, -, h⟩ := Option.bind_eq_some_iff.mp h
      obtain ⟨y, -, h⟩ := Option.bind_eq_some_iff.mp h
      obtain ⟨z, hz, -⟩ := Option.bind_eq_some_iff.mp h
      have hpad : padOf [a, b, c, '='] = 1 := by
        simp [padOf, List.isSuffixOf, List.isPrefixOf, Ne.symm hc]
      simp [trailingBitsClear, hpad, Base64.canonical, hc, hz]
  · next hd =>
    have hpad : padOf [a, b, c, d] = 0 := by
      simp [padOf, List.isSuffixOf, List.isPrefixOf, Ne.symm hd]
    simp [trailingBitsClear, hpad, Base64.canonical, hd]

theorem length_of_decode {s : List Char} {bytes : Bytes} (h : Base64.decode s = some bytes) :
    s.length % 4 = 0 := by
  induction s using Base64.decode.induct generalizing bytes with
  | case1 => rfl
  | case2 a b c d => simp
  | case3 a b c d rest hrest ih =>
    rw [Base64.decode_cons hrest] at h
    obtain ⟨first, -, h⟩ := Option.bind_eq_some_iff.mp h
    obtain ⟨later, hlater, -⟩ := Option.bind_eq_some_iff.mp h
    have hlength := ih hlater
    simp only [List.length_cons]
    omega
  | case4 s hnil hfour hmore =>
    rw [Base64.decode] at h
    · cases h
    all_goals assumption

theorem trailingBitsClear_eq {s : List Char} {bytes : Bytes} (h : Base64.decode s = some bytes) (hs : s ≠ []) :
    trailingBitsClear s = Base64.canonical s := by
  induction s using Base64.decode.induct generalizing bytes with
  | case1 => exact absurd rfl hs
  | case2 a b c d => exact trailingBitsClear_last h
  | case3 a b c d rest hrest ih =>
    rw [Base64.decode_cons hrest] at h
    obtain ⟨first, -, h⟩ := Option.bind_eq_some_iff.mp h
    obtain ⟨later, hlater, -⟩ := Option.bind_eq_some_iff.mp h
    have hlength := length_of_decode hlater
    have hpos := List.length_pos_iff.mpr hrest
    rw [trailingBitsClear_cons (by omega), Base64.canonical_cons hrest, ih hlater hrest]
  | case4 s hnil hfour hmore =>
    rw [Base64.decode] at h
    · cases h
    all_goals assumption

theorem isSome_sextet_letter : ∀ n < 64, (Base64.sextet (Base64.letter n)).isSome = true := by decide

/-- After letters, the pattern looks at what follows them. -/
theorem isB64Only_letter {n : ℕ} (hn : n < 64) (rest : List Char) :
    isB64Only (Base64.letter n :: rest) = isB64Only rest := by
  have hdrop : (Base64.letter n :: rest).dropWhile (fun c => (Base64.sextet c).isSome) =
      rest.dropWhile fun c => (Base64.sextet c).isSome := by
    rw [List.dropWhile_cons, if_pos (isSome_sextet_letter n hn)]
  rw [isB64Only, hdrop]
  rfl

theorem isB64Only_encode (bytes : Bytes) : isB64Only (Base64.encode bytes) = true := by
  induction bytes using Base64.encode.induct with
  | case1 => rfl
  | case2 a =>
    have ha := a.toNat_lt
    rw [Base64.encode, isB64Only_letter (by omega), isB64Only_letter (by omega)]
    rfl
  | case3 a b =>
    have ha := a.toNat_lt
    have hb := b.toNat_lt
    rw [Base64.encode, isB64Only_letter (by omega), isB64Only_letter (by omega), isB64Only_letter (by omega)]
    rfl
  | case4 a b c rest ih =>
    have ha := a.toNat_lt
    have hb := b.toNat_lt
    have hc := c.toNat_lt
    rw [Base64.encode, isB64Only_letter (by omega), isB64Only_letter (by omega), isB64Only_letter (by omega),
      isB64Only_letter (by omega), ih]

/-- Base64 is read in the one spelling that is written, and nothing reads as no bytes. -/
theorem fromB64_eq_ok {b64 : Option Value} {bytes : Bytes} :
    fromB64 b64 = .ok bytes ↔ b64 = some (.str (toB64 bytes)) ∧ bytes ≠ [] := by
  constructor
  · intro h
    unfold fromB64 at h
    split at h
    · next text =>
      split at h
      · cases h
      · next cs hchars =>
        split at h
        · cases h
        · next hshape =>
          split at h
          · cases h
          · next hclear =>
            have hdecode : Base64.decode cs = some bytes := by
              cases hcs : Base64.decode cs with
              | none =>
                rw [hcs] at h
                cases h
              | some decoded =>
                rw [hcs] at h
                exact congrArg some (Except.ok.inj h)
            have hne : cs ≠ [] := by
              rintro rfl
              exact hshape rfl
            have hcanonical : Base64.canonical cs = true := by
              rw [← trailingBitsClear_eq hdecode hne]
              simpa using hclear
            have hcs := Base64.decode_eq_some_and_canonical.mp ⟨hdecode, hcanonical⟩
            refine ⟨by rw [chars_eq_some.mp hchars, hcs, toB64], ?_⟩
            rintro rfl
            exact hne hcs
    · cases h
  · rintro ⟨rfl, hbytes⟩
    have hchars : chars (toB64 bytes) = some (Base64.encode bytes) := chars_eq_some.mpr rfl
    have hdecode := Base64.decode_encode bytes
    have hne := Base64.encode_ne_nil hbytes
    have hempty : (Base64.encode bytes).isEmpty = false := by simpa using hne
    have hclear : trailingBitsClear (Base64.encode bytes) = true := by
      rw [trailingBitsClear_eq hdecode hne]
      exact Base64.canonical_encode bytes
    simp only [fromB64, hchars, hempty, length_of_decode hdecode, isB64Only_encode, hclear, hdecode]
    rfl

theorem fromB64_toB64 {bytes : Bytes} (h : bytes ≠ []) : fromB64 (some (.str (toB64 bytes))) = .ok bytes :=
  fromB64_eq_ok.mpr ⟨rfl, h⟩

theorem toB64_inj {xs ys : Bytes} (h : toB64 xs = toB64 ys) : xs = ys :=
  Base64.encode_inj (List.map_injective_iff.mpr (fun _ _ hc => Point.char.inj hc) h)

/-! ## Texts -/

/-- `DEC.decode`. -/
def decodeText (bytes : Bytes) : Text := ofChars (Utf8.decode bytes)

/-- The texts that come back from their bytes are those without a byte order mark at their beginning. -/
theorem decodeText_encode {s : Text} (h : s.isWellFormed = true) :
    decodeText s.encode = s ↔ s.head? ≠ some (.char '\uFEFF') := by
  obtain ⟨cs, rfl⟩ := exists_chars h
  have hbytes : Text.encode (cs.map .char) = Utf8.encode cs := flatMap_bytes_map_char cs
  have hhead : (cs.map Point.char).head? = some (.char '\uFEFF') ↔ cs.head? = some '\uFEFF' := by
    cases cs <;> simp
  rw [decodeText, hbytes, Ne, hhead, ← Ne, ← Utf8.decode_encode_eq_iff]
  exact (List.map_injective_iff.mpr fun _ _ hc => Point.char.inj hc).eq_iff

end Kryptolog.Client
