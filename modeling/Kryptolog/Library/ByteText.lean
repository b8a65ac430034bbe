import Mathlib.Data.List.Basic
import Mathlib.Data.Option.Basic

/-! # Bytes as text

Hexadecimal, base64 with padding, and the UTF-8 decoder of the Encoding standard. Nothing here
mentions this repository.
-/

set_option autoImplicit false

/-! ## Hexadecimal -/

namespace Kryptolog.Hex

def digits : List Char := ['0', '1', '2', '3', '4', '5', '6', '7', '8', '9', 'a', 'b', 'c', 'd', 'e', 'f']

def digit (n : ℕ) : Char := digits.getD n '0'

/-- The value of a digit, of either case. -/
def value (c : Char) : Option ℕ := digits.idxOf? c.toLower

def isLowercase (c : Char) : Bool := digits.contains c

/-- Two lowercase digits for each byte. -/
def encode (bytes : List UInt8) : List Char :=
  bytes.flatMap fun b => [digit (b.toNat / 16), digit (b.toNat % 16)]

def decode : List Char → Option (List UInt8)
  | [] => some []
  | [_] => none
  | a :: b :: rest => do
    let high ← value a
    let low ← value b
    let bytes ← decode rest
    some (UInt8.ofNat (16 * high + low) :: bytes)

theorem value_digit : ∀ n < 16, value (digit n) = some n := by decide

theorem decode_encode (bytes : List UInt8) : decode (encode bytes) = some bytes := by
  induction bytes with
  | nil => rfl
  | cons b bytes ih =>
    have hb := b.toNat_lt
    have hhigh := value_digit (b.toNat / 16) (by omega)
    have hlow := value_digit (b.toNat % 16) (by omega)
    have hbyte : 16 * (b.toNat / 16) + b.toNat % 16 = b.toNat := Nat.div_add_mod _ _
    change decode (digit (b.toNat / 16) :: digit (b.toNat % 16) :: encode bytes) = _
    simp only [decode, hhigh, hlow, ih, Option.bind_eq_bind, Option.bind_some, hbyte, UInt8.ofNat_toNat]

theorem isLowercase_digit : ∀ n < 16, isLowercase (digit n) = true := by decide

theorem isLowercase_encode {bytes : List UInt8} {c : Char} (h : c ∈ encode bytes) : isLowercase c = true := by
  obtain ⟨b, -, hc⟩ := List.mem_flatMap.mp h
  have hb := b.toNat_lt
  rcases List.mem_pair.mp hc with rfl | rfl
  · exact isLowercase_digit _ (by omega)
  · exact isLowercase_digit _ (by omega)

theorem length_encode (bytes : List UInt8) : (encode bytes).length = 2 * bytes.length := by
  induction bytes with
  | nil => rfl
  | cons b bytes ih =>
    change (encode bytes).length + 2 = _
    rw [ih, List.length_cons]
    omega

theorem exists_digit {c : Char} (h : isLowercase c = true) : ∃ n < 16, digit n = c := by
  obtain ⟨n, hn, hc⟩ := List.mem_iff_getElem.mp (List.contains_iff_mem.mp h)
  refine ⟨n, hn, ?_⟩
  rw [digit, List.getD_eq_getElem?_getD, List.getElem?_eq_getElem hn, hc, Option.getD_some]

/-- Lowercase digits, in pairs, are what is written for some bytes. -/
theorem exists_encode {cs : List Char} {n : ℕ} (h : ∀ c ∈ cs, isLowercase c = true)
    (hlength : cs.length = 2 * n) : ∃ bytes, cs = encode bytes ∧ bytes.length = n := by
  induction n generalizing cs with
  | zero =>
    obtain rfl := List.length_eq_zero_iff.mp hlength
    exact ⟨[], rfl, rfl⟩
  | succ n ih =>
    match cs, h, hlength with
    | a :: b :: cs, h, hlength =>
      obtain ⟨ha, htail⟩ := List.forall_mem_cons.mp h
      obtain ⟨hb, hcs⟩ := List.forall_mem_cons.mp htail
      obtain ⟨x, hx, rfl⟩ := exists_digit ha
      obtain ⟨y, hy, rfl⟩ := exists_digit hb
      have hrest : cs.length = 2 * n := by
        simp only [List.length_cons] at hlength
        omega
      obtain ⟨bytes, rfl, hbytes⟩ := ih hcs hrest
      have hbyte : (UInt8.ofNat (16 * x + y)).toNat = 16 * x + y := by
        rw [UInt8.toNat_ofNat']
        exact Nat.mod_eq_of_lt (by omega)
      have hhigh : (16 * x + y) / 16 = x := by omega
      have hlow : (16 * x + y) % 16 = y := by omega
      refine ⟨UInt8.ofNat (16 * x + y) :: bytes, ?_, congrArg Nat.succ hbytes⟩
      change _ = digit ((UInt8.ofNat (16 * x + y)).toNat / 16) ::
        digit ((UInt8.ofNat (16 * x + y)).toNat % 16) :: encode bytes
      rw [hbyte, hhigh, hlow]

end Kryptolog.Hex

/-! ## Base64 -/

namespace Kryptolog.Base64

def alphabet : List Char :=
  ['A', 'B', 'C', 'D', 'E', 'F', 'G', 'H', 'I', 'J', 'K', 'L', 'M', 'N', 'O', 'P', 'Q', 'R', 'S', 'T', 'U',
    'V', 'W', 'X', 'Y', 'Z', 'a', 'b', 'c', 'd', 'e', 'f', 'g', 'h', 'i', 'j', 'k', 'l', 'm', 'n', 'o', 'p',
    'q', 'r', 's', 't', 'u', 'v', 'w', 'x', 'y', 'z', '0', '1', '2', '3', '4', '5', '6', '7', '8', '9', '+',
    '/']

def letter (n : ℕ) : Char := alphabet.getD n 'A'

/-- The six bits of a letter. -/
def sextet (c : Char) : Option ℕ := alphabet.idxOf? c

def encode : List UInt8 → List Char
  | [] => []
  | [a] => [letter (a.toNat / 4), letter (a.toNat % 4 * 16), '=', '=']
  | [a, b] =>
    [letter (a.toNat / 4), letter (a.toNat % 4 * 16 + b.toNat / 16), letter (b.toNat % 16 * 4), '=']
  | a :: b :: c :: rest =>
    letter (a.toNat / 4) :: letter (a.toNat % 4 * 16 + b.toNat / 16) ::
      letter (b.toNat % 16 * 4 + c.toNat / 64) :: letter (c.toNat % 64) :: encode rest

/-- The bytes of four letters. -/
def quantum (a b c d : Char) : Option (List UInt8) := do
  let x ← sextet a
  let y ← sextet b
  let z ← sextet c
  let w ← sextet d
  some [UInt8.ofNat (x * 4 + y / 16), UInt8.ofNat (y % 16 * 16 + z / 4), UInt8.ofNat (z % 4 * 64 + w)]

/-- The bytes of the last four characters, where the padding stands. The bits that the padding
leaves over are dropped. -/
def lastQuantum (a b c d : Char) : Option (List UInt8) :=
  if d = '=' then
    if c = '=' then do
      let x ← sextet a
      let y ← sextet b
      some [UInt8.ofNat (x * 4 + y / 16)]
    else do
      let x ← sextet a
      let y ← sextet b
      let z ← sextet c
      some [UInt8.ofNat (x * 4 + y / 16), UInt8.ofNat (y % 16 * 16 + z / 4)]
  else quantum a b c d

/-- Padded base64, without white space. -/
def decode : List Char → Option (List UInt8)
  | [] => some []
  | [a, b, c, d] => lastQuantum a b c d
  | a :: b :: c :: d :: rest => do
    let first ← quantum a b c d
    let bytes ← decode rest
    some (first ++ bytes)
  | _ => none

theorem sextet_letter : ∀ n < 64, sextet (letter n) = some n := by decide

theorem letter_ne_pad : ∀ n < 64, letter n ≠ '=' := by decide

theorem sextet_eq_some {c : Char} {n : ℕ} (h : sextet c = some n) : n < 64 ∧ letter n = c := by
  obtain ⟨hn, hc, -⟩ := List.idxOf?_eq_some_iff.mp h
  refine ⟨hn, ?_⟩
  rw [letter, List.getD_eq_getElem?_getD, List.getElem?_eq_getElem hn, hc]
  rfl

theorem decode_cons {a b c d : Char} {rest : List Char} (h : rest ≠ []) :
    decode (a :: b :: c :: d :: rest) =
      (quantum a b c d).bind fun first => (decode rest).bind fun bytes => some (first ++ bytes) := by
  cases rest with
  | nil => exact absurd rfl h
  | cons e rest => rfl

theorem encode_ne_nil {bytes : List UInt8} (h : bytes ≠ []) : encode bytes ≠ [] := by
  intro hnil
  unfold encode at hnil
  split at hnil
  · exact h rfl
  all_goals cases hnil

/-- Three bytes are what their four letters say. -/
theorem quantum_letters (a b c : UInt8) :
    quantum (letter (a.toNat / 4)) (letter (a.toNat % 4 * 16 + b.toNat / 16))
      (letter (b.toNat % 16 * 4 + c.toNat / 64)) (letter (c.toNat % 64)) = some [a, b, c] := by
  have ha := a.toNat_lt
  have hb := b.toNat_lt
  have hc := c.toNat_lt
  have hx := sextet_letter (a.toNat / 4) (by omega)
  have hy := sextet_letter (a.toNat % 4 * 16 + b.toNat / 16) (by omega)
  have hz := sextet_letter (b.toNat % 16 * 4 + c.toNat / 64) (by omega)
  have hw := sextet_letter (c.toNat % 64) (by omega)
  have hfirst : a.toNat / 4 * 4 + (a.toNat % 4 * 16 + b.toNat / 16) / 16 = a.toNat := by omega
  have hsecond : (a.toNat % 4 * 16 + b.toNat / 16) % 16 * 16 + (b.toNat % 16 * 4 + c.toNat / 64) / 4 =
      b.toNat := by omega
  have hthird : (b.toNat % 16 * 4 + c.toNat / 64) % 4 * 64 + c.toNat % 64 = c.toNat := by omega
  simp only [quantum, hx, hy, hz, hw, Option.bind_eq_bind, Option.bind_some, hfirst, hsecond, hthird,
    UInt8.ofNat_toNat]

theorem decode_encode (bytes : List UInt8) : decode (encode bytes) = some bytes := by
  induction bytes using encode.induct with
  | case1 => rfl
  | case2 a =>
    have ha := a.toNat_lt
    have hx := sextet_letter (a.toNat / 4) (by omega)
    have hy := sextet_letter (a.toNat % 4 * 16) (by omega)
    have hfirst : a.toNat / 4 * 4 + a.toNat % 4 * 16 / 16 = a.toNat := by omega
    simp only [encode, decode, lastQuantum, if_true, hx, hy, Option.bind_eq_bind, Option.bind_some, hfirst,
      UInt8.ofNat_toNat]
  | case3 a b =>
    have ha := a.toNat_lt
    have hb := b.toNat_lt
    have hx := sextet_letter (a.toNat / 4) (by omega)
    have hy := sextet_letter (a.toNat % 4 * 16 + b.toNat / 16) (by omega)
    have hz := sextet_letter (b.toNat % 16 * 4) (by omega)
    have hne := letter_ne_pad (b.toNat % 16 * 4) (by omega)
    have hfirst : a.toNat / 4 * 4 + (a.toNat % 4 * 16 + b.toNat / 16) / 16 = a.toNat := by omega
    have hsecond : (a.toNat % 4 * 16 + b.toNat / 16) % 16 * 16 + b.toNat % 16 * 4 / 4 = b.toNat := by omega
    simp only [encode, decode, lastQuantum, if_true, if_neg hne, hx, hy, hz, Option.bind_eq_bind,
      Option.bind_some, hfirst, hsecond, UInt8.ofNat_toNat]
  | case4 a b c rest ih =>
    rw [encode]
    by_cases hrest : rest = []
    · subst hrest
      have hc := c.toNat_lt
      rw [encode, decode, lastQuantum, if_neg (letter_ne_pad (c.toNat % 64) (by omega))]
      exact quantum_letters a b c
    · rw [decode_cons (encode_ne_nil hrest), quantum_letters, ih]
      rfl

theorem encode_inj {xs ys : List UInt8} (h : encode xs = encode ys) : xs = ys := by
  have hx := decode_encode xs
  rw [h, decode_encode] at hx
  exact (Option.some.inj hx).symm

/-! ### Texts with one spelling -/

/-- Are the bits that the padding leaves over zero? -/
def canonical : List Char → Bool
  | [_, b, c, d] =>
    if d = '=' then
      if c = '=' then (sextet b).any fun y => y % 16 == 0 else (sextet c).any fun z => z % 4 == 0
    else true
  | _ :: _ :: _ :: _ :: rest => canonical rest
  | _ => true

theorem canonical_cons {a b c d : Char} {rest : List Char} (h : rest ≠ []) :
    canonical (a :: b :: c :: d :: rest) = canonical rest := by
  cases rest with
  | nil => exact absurd rfl h
  | cons e rest => rfl

theorem toNat_byte {n : ℕ} (h : n < 256) : (UInt8.ofNat n).toNat = n := by
  rw [UInt8.toNat_ofNat']
  exact Nat.mod_eq_of_lt h

theorem encode_quantum {a b c d : Char} {bytes rest : List UInt8} (h : quantum a b c d = some bytes) :
    encode (bytes ++ rest) = a :: b :: c :: d :: encode rest := by
  simp only [quantum, Option.bind_eq_bind, Option.bind_eq_some_iff] at h
  obtain ⟨x, hx, y, hy, z, hz, w, hw, hbytes⟩ := h
  obtain ⟨hx, rfl⟩ := sextet_eq_some hx
  obtain ⟨hy, rfl⟩ := sextet_eq_some hy
  obtain ⟨hz, rfl⟩ := sextet_eq_some hz
  obtain ⟨hw, rfl⟩ := sextet_eq_some hw
  cases hbytes
  have hfirst : (x * 4 + y / 16) / 4 = x := by omega
  have hsecond : (x * 4 + y / 16) % 4 * 16 + (y % 16 * 16 + z / 4) / 16 = y := by omega
  have hthird : (y % 16 * 16 + z / 4) % 16 * 4 + (z % 4 * 64 + w) / 64 = z := by omega
  have hfourth : (z % 4 * 64 + w) % 64 = w := by omega
  simp only [List.cons_append, List.nil_append, encode, toNat_byte (show x * 4 + y / 16 < 256 by omega),
    toNat_byte (show y % 16 * 16 + z / 4 < 256 by omega), toNat_byte (show z % 4 * 64 + w < 256 by omega),
    hfirst, hsecond, hthird, hfourth]

theorem encode_lastQuantum {a b c d : Char} {bytes : List UInt8} (h : lastQuantum a b c d = some bytes)
    (hcanonical : canonical [a, b, c, d] = true) : encode bytes = [a, b, c, d] := by
  unfold lastQuantum at h
  unfold canonical at hcanonical
  split at h
  · next hd =>
    rw [if_pos hd] at hcanonical
    split at h
    · next hc =>
      rw [if_pos hc] at hcanonical
      simp only [Option.bind_eq_bind, Option.bind_eq_some_iff] at h
      obtain ⟨x, hx, y, hy, hbytes⟩ := h
      rw [hy, Option.any_some, beq_iff_eq] at hcanonical
      obtain ⟨hx, rfl⟩ := sextet_eq_some hx
      obtain ⟨hy, rfl⟩ := sextet_eq_some hy
      cases hbytes
      have hfirst : (x * 4 + y / 16) / 4 = x := by omega
      have hsecond : (x * 4 + y / 16) % 4 * 16 = y := by omega
      rw [encode, toNat_byte (by omega), hfirst, hsecond, hc, hd]
    · next hc =>
      rw [if_neg hc] at hcanonical
      simp only [Option.bind_eq_bind, Option.bind_eq_some_iff] at h
      obtain ⟨x, hx, y, hy, z, hz, hbytes⟩ := h
      rw [hz, Option.any_some, beq_iff_eq] at hcanonical
      obtain ⟨hx, rfl⟩ := sextet_eq_some hx
      obtain ⟨hy, rfl⟩ := sextet_eq_some hy
      obtain ⟨hz, rfl⟩ := sextet_eq_some hz
      cases hbytes
      have hfirst : (x * 4 + y / 16) / 4 = x := by omega
      have hsecond : (x * 4 + y / 16) % 4 * 16 + (y % 16 * 16 + z / 4) / 16 = y := by omega
      have hthird : (y % 16 * 16 + z / 4) % 16 * 4 = z := by omega
      rw [encode, toNat_byte (by omega), toNat_byte (by omega), hfirst, hsecond, hthird, hd]
  · have hencode := @encode_quantum a b c d bytes [] h
    rwa [List.append_nil] at hencode

theorem encode_of_decode {s : List Char} {bytes : List UInt8} (h : decode s = some bytes)
    (hcanonical : canonical s = true) : encode bytes = s := by
  induction s using decode.induct generalizing bytes with
  | case1 =>
    cases h
    rfl
  | case2 a b c d => exact encode_lastQuantum h hcanonical
  | case3 a b c d rest hrest ih =>
    rw [decode_cons hrest] at h
    obtain ⟨first, hfirst, h⟩ := Option.bind_eq_some_iff.mp h
    obtain ⟨later, hlater, hbytes⟩ := Option.bind_eq_some_iff.mp h
    cases hbytes
    rw [encode_quantum hfirst, ih hlater (canonical_cons hrest ▸ hcanonical)]
  | case4 s hnil hfour hmore =>
    rw [decode] at h
    · cases h
    all_goals assumption

theorem canonical_encode (bytes : List UInt8) : canonical (encode bytes) = true := by
  induction bytes using encode.induct with
  | case1 => rfl
  | case2 a =>
    have ha := a.toNat_lt
    have hy := sextet_letter (a.toNat % 4 * 16) (by omega)
    have hzero : a.toNat % 4 * 16 % 16 = 0 := by omega
    simp [encode, canonical, hy, hzero]
  | case3 a b =>
    have hb := b.toNat_lt
    have hz := sextet_letter (b.toNat % 16 * 4) (by omega)
    have hne := letter_ne_pad (b.toNat % 16 * 4) (by omega)
    have hzero : b.toNat % 16 * 4 % 4 = 0 := by omega
    simp [encode, canonical, hne, hz, hzero]
  | case4 a b c rest ih =>
    rw [encode]
    by_cases hrest : rest = []
    · subst hrest
      have hc := c.toNat_lt
      rw [encode, canonical, if_neg (letter_ne_pad (c.toNat % 64) (by omega))]
    · rw [canonical_cons (encode_ne_nil hrest)]
      exact ih

/-- The texts that say their bytes in the one way that the encoder has. -/
theorem decode_eq_some_and_canonical {s : List Char} {bytes : List UInt8} :
    decode s = some bytes ∧ canonical s = true ↔ s = encode bytes := by
  constructor
  · rintro ⟨hdecode, hcanonical⟩
    exact (encode_of_decode hdecode hcanonical).symm
  · rintro rfl
    exact ⟨decode_encode bytes, canonical_encode bytes⟩

end Kryptolog.Base64

/-! ## UTF-8 -/

namespace Kryptolog.Utf8

/-- The two bytes begin a sequence of three or four. -/
def beginsLonger (a b : ℕ) : Bool :=
  let lower := if a = 0xE0 then 0xA0 else if a = 0xF0 then 0x90 else 0x80
  let upper := if a = 0xED then 0x9F else if a = 0xF4 then 0x8F else 0xBF
  0xE0 ≤ a && a ≤ 0xF4 && lower ≤ b && b ≤ upper

/-- How many bytes one replacement character stands for: as many as begin some sequence. -/
def brokenLength : List ℕ → ℕ
  | a :: b :: c :: _ =>
    if beginsLonger a b then if 0xF0 ≤ a && 0x80 ≤ c && c ≤ 0xBF then 3 else 2 else 1
  | [a, b] => if beginsLonger a b then 2 else 1
  | _ => 1

/-- The decoder of the Encoding standard, with bytes to skip first. -/
def decodeFrom : ℕ → List UInt8 → List Char
  | _, [] => []
  | skip + 1, _ :: bytes => decodeFrom skip bytes
  | 0, b :: bytes =>
    match (b :: bytes).toByteArray.utf8DecodeChar? 0 with
    | some c => c :: decodeFrom (c.utf8Size - 1) bytes
    | none => '\uFFFD' :: decodeFrom (brokenLength ((b :: bytes).map UInt8.toNat) - 1) bytes

/-- `new TextDecoder().decode(bytes)`: a byte order mark at the beginning is left out. -/
def decode (bytes : List UInt8) : List Char :=
  match decodeFrom 0 bytes with
  | '\uFEFF' :: cs => cs
  | cs => cs

def encode (cs : List Char) : List UInt8 := cs.flatMap String.utf8EncodeChar

theorem decodeFrom_append (skipped rest : List UInt8) :
    decodeFrom skipped.length (skipped ++ rest) = decodeFrom 0 rest := by
  induction skipped with
  | nil => rfl
  | cons b skipped ih => exact ih

theorem decodeFrom_encode (cs : List Char) : decodeFrom 0 (encode cs) = cs := by
  induction cs with
  | nil => rfl
  | cons c cs ih =>
    have hdecode : (encode (c :: cs)).toByteArray.utf8DecodeChar? 0 = some c := by
      rw [encode, List.flatMap_cons, List.toByteArray_append]
      exact ByteArray.utf8DecodeChar?_utf8EncodeChar_append
    have hlength := String.length_utf8EncodeChar c
    rw [encode, List.flatMap_cons] at hdecode ⊢
    cases hbytes : String.utf8EncodeChar c with
    | nil =>
      rw [hbytes] at hlength
      exact absurd hlength (Nat.ne_of_lt c.utf8Size_pos)
    | cons b bytes =>
      rw [hbytes] at hdecode hlength
      rw [List.cons_append] at hdecode ⊢
      have hskip : c.utf8Size - 1 = bytes.length := by
        rw [← hlength]
        rfl
      simp only [decodeFrom, hdecode, hskip]
      rw [decodeFrom_append]
      exact congrArg (List.cons c) ih

/-- What a decoder makes of encoded text. -/
theorem decode_encode (cs : List Char) :
    decode (encode cs) = if cs.head? = some '\uFEFF' then cs.tail else cs := by
  rw [decode, decodeFrom_encode]
  split
  · rfl
  · next h =>
    cases cs with
    | nil => rfl
    | cons c cs => rw [if_neg fun hc => h cs (by rw [Option.some.inj hc])]

/-- The texts that come back are those without a byte order mark at their beginning. -/
theorem decode_encode_eq_iff (cs : List Char) : decode (encode cs) = cs ↔ cs.head? ≠ some '\uFEFF' := by
  rw [decode_encode]
  split
  · next h =>
    refine iff_of_false (fun heq => ?_) (fun hne => hne h)
    cases cs with
    | nil => cases h
    | cons c cs => exact absurd (congrArg List.length heq) (Nat.ne_of_lt (Nat.lt_succ_self _))
  · next h => exact iff_of_true rfl h

end Kryptolog.Utf8
