import Kryptolog.Library.ByteText
import Kryptolog.Library.Script

/-! # Components of a URI

`encodeURIComponent` and `decodeURIComponent` of ECMAScript. Encoding fails for a lone surrogate, and
decoding for an escape that is cut off or whose bytes are no UTF-8. Nothing here mentions this
repository.
-/

namespace Kryptolog.UriComponent
set_option autoImplicit false

open Script

def apostrophe : Char := Char.ofNat 39

/-- The characters that `encodeURIComponent` leaves as they are. -/
def isUnescaped (c : Char) : Bool :=
  c.isAlphanum || ['-', '_', '.', '!', '~', '*', apostrophe, '(', ')'].contains c

def hexDigits : List Char := ['0', '1', '2', '3', '4', '5', '6', '7', '8', '9', 'A', 'B', 'C', 'D', 'E', 'F']

def escapeByte (b : UInt8) : Text :=
  [.char '%', .char (hexDigits.getD (b.toNat / 16) '0'), .char (hexDigits.getD (b.toNat % 16) '0')]

def encodePoint : Point → Option Text
  | .char c => some (if isUnescaped c then [.char c] else (String.utf8EncodeChar c).flatMap escapeByte)
  | .surrogate _ => none

/-- `encodeURIComponent`, where it does not throw. -/
def encode : Text → Option Text
  | [] => some []
  | p :: s => do
    let first ← encodePoint p
    let rest ← encode s
    some (first ++ rest)

/-- The value of a hexadecimal digit, of either case. -/
def hexDigitOf (c : Char) : Option ℕ := hexDigits.idxOf? c.toUpper

/-- The byte of an escape, and what follows it. -/
def readByte : Text → Option (UInt8 × Text)
  | .char '%' :: .char a :: .char b :: rest => do
    let high ← hexDigitOf a
    let low ← hexDigitOf b
    some (UInt8.ofNat (16 * high + low), rest)
  | _ => none

def readBytes : ℕ → Text → Option (Bytes × Text)
  | 0, s => some ([], s)
  | n + 1, s => do
    let (b, s) ← readByte s
    let (bs, s) ← readBytes n s
    some (b :: bs, s)

/-- How many bytes a character has that begins with this one. -/
def sequenceLength (b : UInt8) : ℕ :=
  if b.toNat < 128 then 1
  else if b.toNat < 192 then 0
  else if b.toNat < 224 then 2
  else if b.toNat < 240 then 3
  else if b.toNat < 248 then 4
  else 0

/-- The character of some bytes, where they are its encoding. -/
def charOf (bytes : Bytes) : Option Char :=
  match Utf8.decodeFrom 0 bytes with
  | [c] => if String.utf8EncodeChar c = bytes then some c else none
  | _ => none

def readChar (s : Text) : Option (Char × Text) := do
  let (b, rest) ← readByte s
  if sequenceLength b = 0 then none
  else do
    let (bs, rest) ← readBytes (sequenceLength b - 1) rest
    let c ← charOf (b :: bs)
    some (c, rest)

def decodeFrom : ℕ → Text → Option Text
  | _, [] => some []
  | 0, _ :: _ => none
  | n + 1, p :: s =>
    if p = .char '%' then do
      let (c, rest) ← readChar (p :: s)
      let decoded ← decodeFrom n rest
      some (.char c :: decoded)
    else do
      let decoded ← decodeFrom n s
      some (p :: decoded)

/-- `decodeURIComponent`, where it does not throw. -/
def decode (s : Text) : Option Text := decodeFrom s.length s

/-! ## What is encoded is decoded -/

section roundTrip

variable {c : Char} {p : Point} {s t rest : Text} {bytes : Bytes} {n : ℕ}

theorem hexDigitOf_digit : ∀ n < 16, hexDigitOf (hexDigits.getD n '0') = some n := by decide

theorem readByte_escapeByte (b : UInt8) (rest : Text) : readByte (escapeByte b ++ rest) = some (b, rest) := by
  have hb := b.toNat_lt
  have hbyte : 16 * (b.toNat / 16) + b.toNat % 16 = b.toNat := Nat.div_add_mod _ _
  change readByte (.char '%' :: .char (hexDigits.getD (b.toNat / 16) '0') ::
    .char (hexDigits.getD (b.toNat % 16) '0') :: rest) = _
  simp only [readByte, hexDigitOf_digit _ (by omega : b.toNat / 16 < 16),
    hexDigitOf_digit _ (by omega : b.toNat % 16 < 16), Option.bind_eq_bind, Option.bind_some, hbyte,
    UInt8.ofNat_toNat]

theorem readBytes_escapes (bytes : Bytes) (rest : Text) :
    readBytes bytes.length (bytes.flatMap escapeByte ++ rest) = some (bytes, rest) := by
  induction bytes with
  | nil => rfl
  | cons b bytes ih =>
    rw [List.flatMap_cons, List.append_assoc, List.length_cons, readBytes, readByte_escapeByte]
    simp only [Option.bind_eq_bind, Option.bind_some, ih]

/-- The first byte of a character tells how many it has. -/
theorem sequenceLength_head (c : Char) :
    ∃ b bs, String.utf8EncodeChar c = b :: bs ∧ sequenceLength b = bs.length + 1 := by
  unfold String.utf8EncodeChar
  dsimp only
  split
  · next h =>
    refine ⟨_, _, rfl, ?_⟩
    have hb : c.val.toNat % 256 < 128 := by omega
    simp only [sequenceLength, UInt8.toNat_ofNat', List.length_nil]
    rw [if_pos hb]
  split
  · refine ⟨_, _, rfl, ?_⟩
    simp only [sequenceLength, UInt8.toNat_ofNat', List.length_cons, List.length_nil]
    rw [if_neg (by omega), if_neg (by omega), if_pos (by omega)]
  split
  · refine ⟨_, _, rfl, ?_⟩
    simp only [sequenceLength, UInt8.toNat_ofNat', List.length_cons, List.length_nil]
    rw [if_neg (by omega), if_neg (by omega), if_neg (by omega), if_pos (by omega)]
  · refine ⟨_, _, rfl, ?_⟩
    simp only [sequenceLength, UInt8.toNat_ofNat', List.length_cons, List.length_nil]
    rw [if_neg (by omega), if_neg (by omega), if_neg (by omega), if_neg (by omega), if_pos (by omega)]

theorem charOf_utf8EncodeChar (c : Char) : charOf (String.utf8EncodeChar c) = some c := by
  have hdecode : Utf8.decodeFrom 0 (String.utf8EncodeChar c) = [c] := by
    have hlist := Utf8.decodeFrom_encode [c]
    rwa [Utf8.encode, List.flatMap_singleton] at hlist
  rw [charOf, hdecode]
  exact if_pos rfl

theorem readChar_escapes (c : Char) (rest : Text) :
    readChar ((String.utf8EncodeChar c).flatMap escapeByte ++ rest) = some (c, rest) := by
  obtain ⟨b, bs, hbytes, hlength⟩ := sequenceLength_head c
  have hchar := charOf_utf8EncodeChar c
  rw [hbytes] at hchar ⊢
  have hsize : sequenceLength b - 1 = bs.length := by omega
  have hpos : ¬ sequenceLength b = 0 := by omega
  rw [readChar, List.flatMap_cons, List.append_assoc, readByte_escapeByte]
  simp only [Option.bind_eq_bind, Option.bind_some, if_neg hpos, hsize, readBytes_escapes, hchar]

theorem escapes_head (c : Char) : ∃ s, (String.utf8EncodeChar c).flatMap escapeByte = .char '%' :: s := by
  obtain ⟨b, bs, hbytes, -⟩ := sequenceLength_head c
  rw [hbytes]
  exact ⟨_, rfl⟩

theorem decodeFrom_encode (h : encode s = some t) (hn : t.length ≤ n) : decodeFrom n t = some s := by
  induction s generalizing t n with
  | nil =>
    obtain rfl := Option.some.inj h
    rw [decodeFrom]
  | cons p s ih =>
    obtain ⟨first, hfirst, h⟩ := Option.bind_eq_some_iff.mp h
    obtain ⟨rest, hrest, h⟩ := Option.bind_eq_some_iff.mp h
    obtain rfl := Option.some.inj h
    cases p with
    | surrogate n => cases hfirst
    | char c =>
      have hfirst := Option.some.inj hfirst
      by_cases hc : isUnescaped c = true
      · rw [if_pos hc] at hfirst
        subst hfirst
        have hne : ¬ Point.char c = .char '%' := by
          rintro heq
          rw [Point.char.inj heq] at hc
          exact absurd hc (by decide)
        cases n with
        | zero => cases hn
        | succ n =>
          rw [List.singleton_append, decodeFrom, if_neg hne, ih hrest (Nat.le_of_succ_le_succ hn)]
          rfl
      · rw [if_neg hc] at hfirst
        subst hfirst
        obtain ⟨tail, htail⟩ := escapes_head c
        have hread := readChar_escapes c rest
        rw [htail, List.cons_append] at hread hn ⊢
        cases n with
        | zero => cases hn
        | succ n =>
          have hlength : rest.length ≤ n := by
            rw [List.length_cons, List.length_append] at hn
            omega
          rw [decodeFrom, if_pos rfl, hread]
          simp only [Option.bind_eq_bind, Option.bind_some, ih hrest hlength]

theorem decode_encode (h : encode s = some t) : decode t = some s := decodeFrom_encode h le_rfl

/-- Every string without a lone surrogate is encoded. -/
theorem exists_encode (h : s.isWellFormed = true) : ∃ t, encode s = some t := by
  induction s with
  | nil => exact ⟨[], rfl⟩
  | cons p s ih =>
    obtain ⟨hp, hs⟩ := Bool.and_eq_true_iff.mp h
    obtain ⟨rest, hrest⟩ := ih hs
    cases p with
    | surrogate n => cases hp
    | char c =>
      obtain ⟨first, hfirst⟩ : ∃ first, encodePoint (.char c) = some first := ⟨_, rfl⟩
      refine ⟨first ++ rest, ?_⟩
      rw [encode, hfirst, hrest]
      rfl

/-- What stands in an encoded component. -/
def isComponentChar (c : Char) : Bool := isUnescaped c || c = '%'

theorem isComponentChar_digit : ∀ n < 16, isComponentChar (hexDigits.getD n '0') = true := by decide

theorem consistsOf_escapeByte (b : UInt8) : Text.consistsOf isComponentChar (escapeByte b) = true := by
  have hb := b.toNat_lt
  simp only [escapeByte, Text.consistsOf, List.all_cons, List.all_nil, Point.satisfies,
    isComponentChar_digit _ (by omega : b.toNat / 16 < 16), isComponentChar_digit _ (by omega : b.toNat % 16 < 16)]
  decide

theorem consistsOf_encode (h : encode s = some t) : t.consistsOf isComponentChar = true := by
  induction s generalizing t with
  | nil =>
    obtain rfl := Option.some.inj h
    rfl
  | cons p s ih =>
    obtain ⟨first, hfirst, h⟩ := Option.bind_eq_some_iff.mp h
    obtain ⟨rest, hrest, h⟩ := Option.bind_eq_some_iff.mp h
    obtain rfl := Option.some.inj h
    rw [Text.consistsOf, List.all_append, Bool.and_eq_true_iff]
    refine ⟨?_, ih hrest⟩
    cases p with
    | surrogate n => cases hfirst
    | char c =>
      rw [← Option.some.inj hfirst]
      split
      · next hc => simp [Point.satisfies, isComponentChar, hc]
      · refine List.all_eq_true.mpr fun q hq => ?_
        obtain ⟨b, -, hmem⟩ := List.mem_flatMap.mp hq
        exact List.all_eq_true.mp (consistsOf_escapeByte b) q hmem

end roundTrip

end Kryptolog.UriComponent
