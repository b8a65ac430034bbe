import Mathlib.Data.List.Sort
import Mathlib.Order.Lex
import Mathlib.Data.Char
import Mathlib.Algebra.Ring.Nat
import Kryptolog.Library.Delimited

/-! # Values of ECMAScript

What `JSON.parse` returns, with the conversions of the language: `String(value)`, truth values,
the quotation of `JSON.stringify`, the order of `Array.prototype.sort`, and the bytes of
`TextEncoder`. Nothing here mentions this repository.

A string is a sequence of UTF-16 units, and is given here by its code points: the surrogates
that have no partner are code points of their own.
-/

namespace Kryptolog.Script
set_option autoImplicit false

open Delimited

/-! ## Strings -/

/-- A code point of a string: a character, or `U+D800 + n`, a surrogate without its partner. -/
inductive Point
  | char (c : Char)
  | surrogate (n : Fin 2048)
  deriving DecidableEq, Repr

abbrev Text := List Point

abbrev Bytes := List UInt8

/-- A string literal of the source. -/
def lit (s : String) : Text := s.toList.map .char

namespace Point

def isSurrogate : Point → Bool
  | surrogate _ => true
  | char _ => false

/-- A character that passes a test. -/
def satisfies (p : Char → Bool) : Point → Bool
  | char c => p c
  | surrogate _ => false

/-- The UTF-16 units. -/
def units : Point → List ℕ
  | char c =>
    if c.toNat < 65536 then [c.toNat]
    else [55296 + (c.toNat - 65536) / 1024, 56320 + (c.toNat - 65536) % 1024]
  | surrogate n => [55296 + n.val]

/-- The bytes that `TextEncoder` writes: a lone surrogate is replaced by `U+FFFD`. -/
def bytes : Point → List UInt8
  | char c => String.utf8EncodeChar c
  | surrogate _ => [239, 191, 189]

end Point

namespace Text

/-- The order of strings: by UTF-16 units. -/
def le (s t : Text) : Bool := !(t.flatMap Point.units).lex (s.flatMap Point.units)

/-- `new TextEncoder().encode(text)`. -/
def encode (s : Text) : List UInt8 := s.flatMap Point.bytes

/-- Every code point is a character that passes a test. -/
def consistsOf (p : Char → Bool) (s : Text) : Bool := s.all (Point.satisfies p)

/-- No surrogate stands alone. -/
def isWellFormed (s : Text) : Bool := s.all fun p => !p.isSurrogate

end Text

/-! ## Numbers -/

def isNumberChar (c : Char) : Bool := c.isDigit || c == '-' || c == '+' || c == '.' || c == 'e'

def startsNumber (c : Char) : Bool := c.isDigit || c == '-'

/-- A finite number, by the text that `Number::toString` spells it with: two numbers that are
spelled alike are equal. -/
structure Number where
  spelling : List Char
  starts : spelling.head?.any startsNumber = true
  chars : spelling.all isNumberChar = true
  deriving DecidableEq

namespace Number

/-- The value of a spelling in decimal digits. -/
def digitsValue (ds : List Char) : ℕ := Nat.ofDigitChars 10 ds 0

/-- `Number.isSafeInteger(n) && n >= 0`. -/
def isCount (n : Number) : Bool := n.spelling.all Char.isDigit && digitsValue n.spelling < 2 ^ 53

/-- `Number.isSafeInteger(n)`. -/
def isSafeInteger (n : Number) : Bool :=
  let digits := if n.spelling.head? = some '-' then n.spelling.tail else n.spelling
  digits.all Char.isDigit && digitsValue digits < 2 ^ 53

def isZero (n : Number) : Bool := n.spelling == ['0']

def text (n : Number) : Text := n.spelling.map .char

/-- A natural number, in decimal digits. -/
def ofNat (n : ℕ) : Number where
  spelling := Nat.toDigits 10 n
  starts := by
    cases h : Nat.toDigits 10 n with
    | nil => exact absurd h Nat.toDigits_ne_nil
    | cons c cs =>
      have hc : c.isDigit = true := Nat.isDigit_of_mem_toDigits (by decide) (by decide) (h ▸ List.mem_cons_self)
      simp [startsNumber, hc]
  chars := by
    refine List.all_eq_true.mpr fun c hc => ?_
    have hc : c.isDigit = true := Nat.isDigit_of_mem_toDigits (by decide) (by decide) hc
    simp [isNumberChar, hc]

theorem digitsValue_ofNat (n : ℕ) : digitsValue (ofNat n).spelling = n := Nat.ofDigitChars_ten_toDigits

end Number

/-! ## Values -/

inductive Value
  | null
  | bool (b : Bool)
  | num (n : Number)
  | str (s : Text)
  | arr (items : List Value)
  | obj (fields : List (Text × Value))

namespace Value

/-- A property holds of every value when it passes from the parts of a value to the value. -/
theorem induct {P : Value → Prop} (null : P .null) (bool : ∀ b, P (.bool b)) (num : ∀ n, P (.num n))
    (str : ∀ s, P (.str s)) (arr : ∀ items, (∀ v ∈ items, P v) → P (.arr items))
    (obj : ∀ fields : List (Text × Value), (∀ f ∈ fields, P f.2) → P (.obj fields)) :
    ∀ v, P v
  | .null => null
  | .bool b => bool b
  | .num n => num n
  | .str s => str s
  | .arr items => arr items (inductItems null bool num str arr obj items)
  | .obj fields => obj fields (inductFields null bool num str arr obj fields)
where
  inductItems {P : Value → Prop} (null : P .null) (bool : ∀ b, P (.bool b))
      (num : ∀ n, P (.num n)) (str : ∀ s, P (.str s))
      (arr : ∀ items, (∀ v ∈ items, P v) → P (.arr items))
      (obj : ∀ fields : List (Text × Value), (∀ f ∈ fields, P f.2) → P (.obj fields)) :
      ∀ items : List Value, ∀ v ∈ items, P v
    | [] => fun _ h => absurd h List.not_mem_nil
    | v :: vs => List.forall_mem_cons.mpr
        ⟨induct null bool num str arr obj v, inductItems null bool num str arr obj vs⟩
  inductFields {P : Value → Prop} (null : P .null) (bool : ∀ b, P (.bool b))
      (num : ∀ n, P (.num n)) (str : ∀ s, P (.str s))
      (arr : ∀ items, (∀ v ∈ items, P v) → P (.arr items))
      (obj : ∀ fields : List (Text × Value), (∀ f ∈ fields, P f.2) → P (.obj fields)) :
      ∀ fields : List (Text × Value), ∀ f ∈ fields, P f.2
    | [] => fun _ h => absurd h List.not_mem_nil
    | (_, v) :: fs => List.forall_mem_cons.mpr
        ⟨induct null bool num str arr obj v, inductFields null bool num str arr obj fs⟩

/-- The value as a condition. -/
def truthy : Value → Bool
  | null => false
  | bool b => b
  | num n => !n.isZero
  | str s => !s.isEmpty
  | arr _ | obj _ => true

mutual

/-- `String(value)`. It throws for an object with a member `toString`, which hides the method. -/
def toText : Value → Option Text
  | .null => some (lit "null")
  | .bool b => some (lit (if b then "true" else "false"))
  | .num n => some n.text
  | .str s => some s
  | .arr items => do some ([.char ','].intercalate (← itemTexts items))
  | .obj fields => if fields.any (·.1 == lit "toString") then none else some (lit "[object Object]")

/-- The parts that `Array.prototype.join` puts together: nothing stands for `null`. -/
def itemTexts : List Value → Option (List Text)
  | [] => some []
  | .null :: vs => do some ([] :: (← itemTexts vs))
  | v :: vs => do some ((← toText v) :: (← itemTexts vs))

end

/-- The member of an object, and no member of another value. -/
def get (name : String) : Value → Option Value
  | obj fields => fields.lookup (lit name)
  | _ => none

end Value

/-! ## Quotation -/

def hexDigit (n : ℕ) : Char := if n < 10 then Char.ofNat (48 + n) else Char.ofNat (87 + n)

def hexValue (c : Char) : ℕ := if c.isDigit then c.toNat - 48 else c.toNat - 87

theorem hexValue_hexDigit : ∀ n < 16, hexValue (hexDigit n) = n := by decide

/-- What `JSON.stringify` writes for a character of a string. -/
def escapeChar (c : Char) : List Char :=
  if c = '"' then ['\\', '"']
  else if c = '\\' then ['\\', '\\']
  else if c = '\n' then ['\\', 'n']
  else if c = '\r' then ['\\', 'r']
  else if c = '\t' then ['\\', 't']
  else if c.toNat = 8 then ['\\', 'b']
  else if c.toNat = 12 then ['\\', 'f']
  else if c.toNat < 32 then
    ['\\', 'u', '0', '0', hexDigit (c.toNat / 16), hexDigit (c.toNat % 16)]
  else [c]

def escape : Point → List Char
  | .char c => escapeChar c
  | .surrogate n =>
    ['\\', 'u', 'd', hexDigit (8 + n.val / 256), hexDigit (n.val / 16 % 16), hexDigit (n.val % 16)]

/-- `JSON.stringify(text)`. -/
def quote (s : Text) : List Char := '"' :: s.flatMap escape ++ ['"']

/-- The code point of an escape with four digits. -/
def ofHex (a b c d : Char) : Point :=
  if a = '0' then .char (Char.ofNat (16 * hexValue c + hexValue d))
  else .surrogate (Fin.ofNat 2048 (256 * (hexValue b - 8) + 16 * hexValue c + hexValue d))

/-- The code point that a quoted text begins with, and the rest of the text. -/
def unescape : List Char → Option (Point × List Char)
  | '\\' :: 'u' :: a :: b :: c :: d :: rest => some (ofHex a b c d, rest)
  | '\\' :: 'n' :: rest => some (.char '\n', rest)
  | '\\' :: 'r' :: rest => some (.char '\r', rest)
  | '\\' :: 't' :: rest => some (.char '\t', rest)
  | '\\' :: 'b' :: rest => some (.char (Char.ofNat 8), rest)
  | '\\' :: 'f' :: rest => some (.char (Char.ofNat 12), rest)
  | '\\' :: c :: rest => some (.char c, rest)
  | c :: rest => some (.char c, rest)
  | [] => none

theorem ofHex_control {n : ℕ} (h : n < 32) :
    ofHex '0' '0' (hexDigit (n / 16)) (hexDigit (n % 16)) = .char (Char.ofNat n) := by
  rw [ofHex, if_pos rfl, hexValue_hexDigit _ (by omega), hexValue_hexDigit _ (by omega)]
  congr 2
  omega

theorem ofHex_surrogate (n : Fin 2048) :
    ofHex 'd' (hexDigit (8 + n.val / 256)) (hexDigit (n.val / 16 % 16)) (hexDigit (n.val % 16)) =
      .surrogate n := by
  have hn := n.isLt
  rw [ofHex, if_neg (by decide), hexValue_hexDigit _ (by omega), hexValue_hexDigit _ (by omega),
    hexValue_hexDigit _ (by omega)]
  refine congrArg Point.surrogate (Fin.ext ?_)
  change (256 * (8 + n.val / 256 - 8) + 16 * (n.val / 16 % 16) + n.val % 16) % 2048 = n.val
  omega

theorem unescape_escape (p : Point) (rest : List Char) :
    unescape (escape p ++ rest) = some (p, rest) := by
  cases p with
  | surrogate n =>
    have hn := ofHex_surrogate n
    rw [escape]
    simp only [List.cons_append, List.nil_append, unescape, hn]
  | char c =>
    change unescape (escapeChar c ++ rest) = some (.char c, rest)
    unfold escapeChar
    split
    · next h => rw [h]; rfl
    split
    · next h => rw [h]; rfl
    split
    · next h => rw [h]; rfl
    split
    · next h => rw [h]; rfl
    split
    · next h => rw [h]; rfl
    split
    · next h =>
      have hc : Char.ofNat 8 = c := by rw [← h, Char.ofNat_toNat]
      simp only [List.cons_append, List.nil_append, unescape, hc]
    split
    · next h =>
      have hc : Char.ofNat 12 = c := by rw [← h, Char.ofNat_toNat]
      simp only [List.cons_append, List.nil_append, unescape, hc]
    split
    · next h =>
      have hc := ofHex_control h
      simp only [List.cons_append, List.nil_append, unescape, hc, Char.ofNat_toNat]
    · next hbackslash _ _ _ _ _ _ =>
      rw [List.singleton_append, unescape.eq_def]
      split <;> simp_all

theorem escape_append_inj {p q : Point} {xs ys : List Char} (h : escape p ++ xs = escape q ++ ys) :
    p = q ∧ xs = ys := by
  have hp := unescape_escape p xs
  rw [h, unescape_escape] at hp
  exact ⟨(Prod.mk.inj (Option.some.inj hp)).1.symm, (Prod.mk.inj (Option.some.inj hp)).2.symm⟩

/-- A quotation mark inside a string is escaped. -/
theorem escape_ne_quote (p : Point) (xs ys : List Char) : escape p ++ xs ≠ '"' :: ys := by
  intro h
  have hp := unescape_escape p xs
  rw [h] at hp
  obtain ⟨rfl, -⟩ := Prod.mk.inj (Option.some.inj hp)
  cases h

/-- A quoted text tells where it ends. -/
theorem quote_append_inj {s t : Text} {xs ys : List Char} (h : quote s ++ xs = quote t ++ ys) :
    s = t ∧ xs = ys := by
  have hbody : s.flatMap escape ++ '"' :: xs = t.flatMap escape ++ '"' :: ys := by
    simpa [quote] using h
  clear h
  induction s generalizing t with
  | nil =>
    cases t with
    | nil => exact ⟨rfl, (List.cons.inj hbody).2⟩
    | cons q t =>
      rw [List.flatMap_cons, List.append_assoc] at hbody
      exact absurd hbody.symm (escape_ne_quote q _ _)
  | cons p s ih =>
    cases t with
    | nil =>
      rw [List.flatMap_cons, List.append_assoc] at hbody
      exact absurd hbody (escape_ne_quote p _ _)
    | cons q t =>
      rw [List.flatMap_cons, List.flatMap_cons, List.append_assoc, List.append_assoc] at hbody
      obtain ⟨rfl, hrest⟩ := escape_append_inj hbody
      obtain ⟨rfl, hend⟩ := ih hrest
      exact ⟨rfl, hend⟩

/-! ## Bytes -/

theorem flatMap_bytes_map_char (cs : List Char) :
    (cs.map Point.char).flatMap Point.bytes = cs.flatMap String.utf8EncodeChar := by
  induction cs with
  | nil => rfl
  | cons c cs ih =>
    rw [List.map_cons, List.flatMap_cons, List.flatMap_cons, ih]
    rfl

theorem exists_chars {s : Text} (h : s.isWellFormed = true) : ∃ cs : List Char, s = cs.map .char := by
  induction s with
  | nil => exact ⟨[], rfl⟩
  | cons p s ih =>
    obtain ⟨hp, hs⟩ := Bool.and_eq_true_iff.mp (List.all_cons.symm.trans h)
    obtain ⟨cs, rfl⟩ := ih hs
    cases p with
    | char c => exact ⟨c :: cs, rfl⟩
    | surrogate n => cases hp

/-- Strings without lone surrogates have different bytes. -/
theorem encode_inj {s t : Text} (hs : s.isWellFormed = true) (ht : t.isWellFormed = true)
    (h : s.encode = t.encode) : s = t := by
  obtain ⟨cs, rfl⟩ := exists_chars hs
  obtain ⟨ds, rfl⟩ := exists_chars ht
  rw [Text.encode, Text.encode, flatMap_bytes_map_char, flatMap_bytes_map_char] at h
  have hbytes : (String.ofList cs).toByteArray = (String.ofList ds).toByteArray := by
    rw [String.toByteArray_ofList, String.toByteArray_ofList, List.utf8Encode, List.utf8Encode, h]
  rw [String.ofList_injective (String.toByteArray_inj.mp hbytes)]

/-! ## Characters -/

def ofChars (cs : List Char) : Text := cs.map .char

/-- The characters of a text in which no surrogate stands alone. -/
def chars : Text → Option (List Char)
  | [] => some []
  | .char c :: rest => (chars rest).map (c :: ·)
  | .surrogate _ :: _ => none

theorem chars_eq_some {s : Text} {cs : List Char} : chars s = some cs ↔ s = ofChars cs := by
  induction s generalizing cs with
  | nil =>
    cases cs with
    | nil => exact iff_of_true rfl rfl
    | cons c cs => simp [chars, ofChars]
  | cons p s ih =>
    cases p with
    | char c =>
      rw [chars, Option.map_eq_some_iff]
      constructor
      · rintro ⟨ds, hds, rfl⟩
        rw [ih.mp hds]
        rfl
      · intro h
        cases cs with
        | nil => cases h
        | cons d ds =>
          obtain ⟨hc, hs⟩ := List.cons.inj h
          cases hc
          exact ⟨ds, ih.mpr hs, rfl⟩
    | surrogate n =>
      rw [chars]
      cases cs <;> simp [ofChars]

end Kryptolog.Script
