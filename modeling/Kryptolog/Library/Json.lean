import Mathlib.Data.Rat.Defs

/-! # JSON as Python reads it

The values that Python's `json.loads` returns, with the tests the language puts to them, and
the texts they are read from.

* `Str`: a Python string. JSON escapes can spell a lone surrogate, which no Lean `String` holds,
  so such strings are a case of their own.
* `Value`: what `json.loads` returns. Numbers keep Python's distinction of `int` and `float`.
* `Document`: a text, by what `json.loads` makes of it: a value, a `ValueError` (the text is no
  JSON), or a `RecursionError` (the text nests too deep for the scanner). Reading is then a
  definition, and `dumps` writes a text that is read back to the same value.
-/

namespace Kryptolog.Json
set_option autoImplicit false

/-- A Python string: Unicode text, or code points among which is a lone surrogate. -/
inductive Str
  | uni (s : String)
  | lone (points : List ℕ)
  deriving DecidableEq, Repr

namespace Str

/-- `str.isascii`. -/
def isAscii : Str → Bool
  | uni s => s.toList.all fun c => c.toNat < 128
  | lone _ => false

def truthy : Str → Bool
  | uni s => s != ""
  | lone _ => true

end Str

/-- A Python `float`. -/
inductive Float64
  | finite (q : ℚ)
  | posInf
  | negInf
  | nan
  deriving DecidableEq, Repr

inductive Value
  | null
  | bool (b : Bool)
  | int (z : ℤ)
  | float (x : Float64)
  | str (s : Str)
  | arr (items : List Value)
  | obj (fields : List (Str × Value))
  deriving BEq

namespace Value

/-- Python's truth value. -/
def truthy : Value → Bool
  | null => false
  | bool b => b
  | int z => z != 0
  | float (.finite q) => q != 0
  | float _ => true
  | str s => s.truthy
  | arr items => !items.isEmpty
  | obj fields => !fields.isEmpty

/-- `value == n` for an integer `n`: a float may equal it, and so may a Boolean. -/
def eqInt (n : ℤ) : Value → Bool
  | int z => z == n
  | float (.finite q) => q == n
  | bool b => (if b then 1 else 0) == n
  | _ => false

/-- `value == s` for a string `s`. -/
def eqStr (s : String) : Value → Bool
  | str t => t == .uni s
  | _ => false

/-- The entries of a `dict`. -/
def fields : Value → List (Str × Value)
  | obj fs => fs
  | _ => []

/-- `payload.get(name)`. -/
def get (name : String) (v : Value) : Option Value := v.fields.lookup (.uni name)

theorem eqStr_iff {s : String} {v : Value} : v.eqStr s = true ↔ v = str (.uni s) := by
  cases v <;> simp [eqStr]

end Value

/-- The truth value of what `dict.get` returned: an absent field reads as `None`. -/
def present (v : Option Value) : Bool := v.any Value.truthy

/-- `v is None` for what `dict.get` returned. -/
def isNone : Option Value → Bool
  | none | some .null => true
  | _ => false

/-- A stored text, by what `json.loads` makes of it. -/
inductive Document
  | json (v : Value)
  | notJson (raw : String)
  | tooDeep (raw : String)
  deriving BEq

inductive LoadError
  | valueError
  | recursionError
  deriving DecidableEq, Repr

namespace Document

/-- `json.loads`. -/
def loads : Document → Except LoadError Value
  | json v => .ok v
  | notJson _ => .error .valueError
  | tooDeep _ => .error .recursionError

/-- The truth value of the text: only the empty text is false, and it is no JSON. -/
def truthy : Document → Bool
  | notJson raw => raw != ""
  | _ => true

@[simp] theorem loads_json (v : Value) : (json v).loads = .ok v := rfl

theorem loads_eq_ok {d : Document} {v : Value} : d.loads = .ok v ↔ d = json v := by
  cases d <;> simp [loads]

theorem truthy_of_loads {d : Document} {v : Value} (h : d.loads = .ok v) : d.truthy = true := by
  rw [loads_eq_ok.mp h]
  rfl

end Document

/-- `json.dumps`. -/
def dumps (v : Value) : Document := .json v

@[simp] theorem loads_dumps (v : Value) : (dumps v).loads = .ok v := rfl

end Kryptolog.Json
