import Mathlib.Data.List.Dedup
import Mathlib.Data.List.TakeWhile
import Kryptolog.Server.SignedBodies

/-! # The shape checks on wrapped keys

`security/crypto_validation.py`: canonical base64, and the two questions the server can ask of
a wrapped key it cannot open. `isWrappedKeyFor` asks whether it is a current envelope sealed to
a given key id, `wrappedKeyId` which key id it names. Both parse the text, and text that nests
too deep for the scanner raises an exception that neither catches.
-/

namespace Kryptolog.Server
set_option autoImplicit false

open Json

/-! ## Base64 -/

/-- The six bits of a base64 character. -/
def base64Digit (c : Char) : Option ℕ :=
  if c.isUpper then some (c.toNat - 65)
  else if c.isLower then some (c.toNat - 71)
  else if c.isDigit then some (c.toNat + 4)
  else if c == '+' then some 62
  else if c == '/' then some 63
  else none

/-- Are the trailing bits that the padding leaves unused zero? -/
def trailingBitsZero (body : List Char) (padding : ℕ) : Bool :=
  match body.getLast?.bind base64Digit, padding with
  | some d, 1 => d % 4 == 0
  | some d, 2 => d % 16 == 0
  | some _, 0 => true
  | _, _ => false

/-- `is_b64`: non-empty, padded, canonical standard base64. -/
def isB64 (s : String) : Bool :=
  let cs := s.toList
  let body := cs.takeWhile fun c => (base64Digit c).isSome
  let padding := cs.dropWhile fun c => (base64Digit c).isSome
  !body.isEmpty && cs.length % 4 == 0 && padding.all (· == '=') && padding.length ≤ 2 &&
    trailingBitsZero body padding.length

/-- The number of bytes that canonical base64 decodes to. -/
def b64Length (s : String) : ℕ :=
  (s.toList.takeWhile fun c => (base64Digit c).isSome).length * 3 / 4

/-- The bytes of a field that is canonical base64, by their number. -/
def b64Field : Option Value → Option ℕ
  | some (.str (.uni s)) => if isB64 s then some (b64Length s) else none
  | _ => none

/-- A text of base64 digits that needs no padding. -/
theorem b64Field_digits {cs : List Char} (hne : cs ≠ []) (hlen : cs.length % 4 = 0)
    (hdigits : ∀ c ∈ cs, (base64Digit c).isSome = true) :
    b64Field (some (.str (.uni (String.ofList cs)))) = some (cs.length * 3 / 4) := by
  have htake : cs.takeWhile (fun c => (base64Digit c).isSome) = cs :=
    List.takeWhile_eq_self_iff.mpr hdigits
  have hdrop : cs.dropWhile (fun c => (base64Digit c).isSome) = [] :=
    List.dropWhile_eq_nil_iff.mpr hdigits
  have hlast : trailingBitsZero cs 0 = true := by
    obtain ⟨d, hd⟩ := Option.isSome_iff_exists.mp (hdigits _ (List.getLast_mem hne))
    unfold trailingBitsZero
    rw [List.getLast?_eq_some_getLast hne, Option.bind_some, hd]
    rfl
  have hb64 : isB64 (String.ofList cs) = true := by
    simp [isB64, String.toList_ofList, htake, hdrop, hlast, hlen, hne]
  rw [b64Field, if_pos hb64, b64Length, String.toList_ofList, htake]

/-! ## Wrapped keys -/

def kemEnvelopeAlg : String := kemAlg ++ "-A256GCM"

def formatVersion : ℤ := 5

def kemEnvelopeFields : List Str := [.uni "v", .uni "alg", .uni "kid", .uni "kem", .uni "iv"]

def isWrappedKeyFor (value : Document) (kid : Option String) : Except Fault Bool :=
  match kid with
  | none => .ok false
  | some kid =>
    if !isValidKeyId kid then .ok false
    else match value.loads with
      | .error .valueError => .ok false
      | .error .recursionError => .error (.unhandled "RecursionError")
      | .ok wrap =>
        let names := wrap.fields.map (·.1)
        let extra := (names.filter fun n => !kemEnvelopeFields.contains n).dedup
        let sealed (field : String) (ok : ℕ → Bool) : Bool := (b64Field (wrap.get field)).any ok
        let envelope : Bool :=
          kemEnvelopeFields.all names.contains &&
            (wrap.get "v").any (·.eqInt formatVersion) &&
            (wrap.get "alg").any (·.eqStr kemEnvelopeAlg) &&
            (wrap.get "kid").any (·.eqStr kid) &&
            sealed "kem" (· == 97 + 1088) && sealed "iv" (· == 12)
        -- a session key is 32 bytes and a tag; a content key is any text and a tag
        if extra = [.uni "encKey"] then .ok (envelope && sealed "encKey" (· == 32 + 16))
        else if extra = [.uni "content"] then .ok (envelope && sealed "content" (16 < ·))
        else .ok false

def wrappedKeyId (value : Option Document) : Except Fault (Option String) :=
  match value.map Document.loads with
  | none | some (.error .valueError) => .ok none
  | some (.error .recursionError) => .error (.unhandled "RecursionError")
  | some (.ok wrap) =>
    match wrap.get "kid" with
    | some (.str (.uni kid)) => .ok (if isValidKeyId kid then some kid else none)
    | _ => .ok none

/-- A text that the check accepts is JSON, so it is not empty. -/
theorem truthy_of_isWrappedKeyFor {value : Document} {kid : Option String}
    (h : isWrappedKeyFor value kid = .ok true) : value.truthy = true := by
  cases value with
  | json v => rfl
  | tooDeep raw => rfl
  | notJson raw =>
    unfold isWrappedKeyFor at h
    split at h
    · cases h
    · split at h <;> cases h

end Kryptolog.Server
