import Mathlib.Data.Nat.Digits.Defs
import Mathlib.Algebra.Ring.Nat

/-! # The DER of a pair of numbers

A sequence of two integers, which must not be negative, in the distinguished encoding, for contents
whose length is below 128 and so is said in one byte. Nothing here mentions this repository.
-/

namespace Kryptolog.Der
set_option autoImplicit false

/-- The bytes of a number, the highest first. -/
def magnitude (n : ℕ) : List UInt8 := ((Nat.digits 256 n).map UInt8.ofNat).reverse

/-- The contents of an integer: as few bytes as leave its sign positive. -/
def integer (n : ℕ) : List UInt8 :=
  match magnitude n with
  | [] => [0]
  | b :: bytes => if 128 ≤ b.toNat then 0 :: b :: bytes else b :: bytes

/-- A tag, the length of the contents, and the contents. -/
def element (tag : UInt8) (contents : List UInt8) : List UInt8 :=
  tag :: UInt8.ofNat contents.length :: contents

/-- `SEQUENCE { INTEGER, INTEGER }`. -/
def pair (r s : ℕ) : List UInt8 := element 0x30 (element 0x02 (integer r) ++ element 0x02 (integer s))

/-! ## Decoding -/

def value (bytes : List UInt8) : ℕ := bytes.foldl (fun n b => 256 * n + b.toNat) 0

/-- The contents of the element that the bytes begin with, and what follows it. -/
def readElement (tag : UInt8) : List UInt8 → Option (List UInt8 × List UInt8)
  | t :: l :: rest =>
    if t = tag ∧ l.toNat < 128 ∧ l.toNat ≤ rest.length then some (rest.take l.toNat, rest.drop l.toNat)
    else none
  | _ => none

/-- The pair that bytes say, where they say it as `pair` does. -/
def readPair (der : List UInt8) : Option (ℕ × ℕ) := do
  let (body, _) ← readElement 0x30 der
  let (r, rest) ← readElement 0x02 body
  let (s, _) ← readElement 0x02 rest
  if pair (value r) (value s) = der then some (value r, value s) else none

theorem value_reverse (ds : List ℕ) (h : ∀ d ∈ ds, d < 256) :
    value (ds.map UInt8.ofNat).reverse = Nat.ofDigits 256 ds := by
  rw [value, List.foldl_reverse]
  induction ds with
  | nil => rfl
  | cons d ds ih =>
    obtain ⟨hd, hds⟩ := List.forall_mem_cons.mp h
    have hbyte : (UInt8.ofNat d).toNat = d := by
      rw [UInt8.toNat_ofNat']
      exact Nat.mod_eq_of_lt hd
    rw [List.map_cons, List.foldr_cons, ih hds, hbyte, Nat.ofDigits_cons]
    exact Nat.add_comm _ _

theorem value_magnitude (n : ℕ) : value (magnitude n) = n := by
  rw [magnitude, value_reverse _ fun d hd => Nat.digits_lt_base (by decide) hd, Nat.ofDigits_digits]

/-- An integer is read as the number that it was written for. -/
theorem value_integer (n : ℕ) : value (integer n) = n := by
  have hvalue := value_magnitude n
  unfold integer
  split
  · next hnil =>
    rw [hnil] at hvalue
    exact hvalue
  · next b bytes hbytes =>
    rw [hbytes] at hvalue
    split
    · exact hvalue
    · exact hvalue

theorem readElement_element {contents : List UInt8} (tag : UInt8) (h : contents.length < 128)
    (rest : List UInt8) : readElement tag (element tag contents ++ rest) = some (contents, rest) := by
  have hlength : (UInt8.ofNat contents.length).toNat = contents.length := by
    rw [UInt8.toNat_ofNat']
    exact Nat.mod_eq_of_lt (by omega)
  have hle : contents.length ≤ (contents ++ rest).length := by
    rw [List.length_append]
    exact Nat.le_add_right _ _
  rw [element, List.cons_append, List.cons_append, readElement, hlength, if_pos ⟨rfl, h, hle⟩, List.take_left,
    List.drop_left]

/-- Bytes are read as a pair if they are what is written for it. -/
theorem readPair_eq_some {der : List UInt8} (h : der.length ≤ 129) {r s : ℕ} :
    readPair der = some (r, s) ↔ der = pair r s := by
  constructor
  · intro hread
    simp only [readPair, Option.bind_eq_bind, Option.bind_eq_some_iff] at hread
    obtain ⟨_, -, _, -, _, -, hread⟩ := hread
    split at hread
    · next hpair =>
      cases hread
      exact hpair.symm
    · cases hread
  · rintro rfl
    have hbody : (element 0x02 (integer r) ++ element 0x02 (integer s)).length < 128 := by
      simp only [pair, element, List.length_append, List.length_cons] at h ⊢
      omega
    have hr : (integer r).length < 128 ∧ (integer s).length < 128 := by
      simp only [element, List.length_append, List.length_cons] at hbody
      omega
    have hsequence := readElement_element 0x30 hbody []
    have hfirst := readElement_element 0x02 hr.1 (element 0x02 (integer s))
    have hsecond := readElement_element 0x02 hr.2 []
    rw [List.append_nil] at hsequence hsecond
    have hwhole : readElement 0x30 (pair r s) = some (element 0x02 (integer r) ++ element 0x02 (integer s), []) :=
      hsequence
    simp only [readPair, hwhole, hfirst, hsecond, Option.bind_eq_bind, Option.bind_some, value_integer, if_true]

example : pair 1 128 = [0x30, 7, 2, 1, 1, 2, 2, 0, 128] := by decide

end Kryptolog.Der
