import Mathlib.Data.List.Basic

/-! # Conditions over columns that may be NULL

The three-valued conditions of SQL. A comparison with NULL is neither true nor false, and a `WHERE`
takes the rows of which its condition is true. The lemmas read a condition built from comparisons as
a test of a row.
-/

namespace Kryptolog.Ternary
set_option autoImplicit false

/-- What a condition says of a row; `none` is unknown. -/
abbrev Condition := Option Bool

/-- A `WHERE` takes the row. -/
def holds (c : Condition) : Bool := c == some true

/-- `column = value`. -/
def eq {α : Type} [DecidableEq α] (column : Option α) (value : α) : Condition :=
  column.map fun x => decide (x = value)

/-- A comparison of a column with a value. -/
def test {α : Type} (p : α → Bool) (column : Option α) : Condition := column.map p

def isNull {α : Type} (column : Option α) : Condition := some column.isNone

def isNotNull {α : Type} (column : Option α) : Condition := some column.isSome

def or : Condition → Condition → Condition
  | some true, _ => some true
  | _, some true => some true
  | some false, some false => some false
  | _, _ => none

def and : Condition → Condition → Condition
  | some false, _ => some false
  | _, some false => some false
  | some true, some true => some true
  | _, _ => none

/-- `column = other`, where both may be NULL. -/
def eqColumn {α : Type} [DecidableEq α] (column : Option α) : Option α → Condition
  | some value => eq column value
  | none => none

/-- `column IN (SELECT …)`: one of the selected values equals the column. -/
def isIn {α : Type} [DecidableEq α] (column : Option α) (selected : List (Option α)) : Condition :=
  selected.foldr (fun value rest => or (eqColumn column value) rest) (some false)

section

variable {α : Type}

@[simp] theorem holds_or (c d : Condition) : holds (or c d) = (holds c || holds d) := by
  rcases c with _ | _ | _ <;> rcases d with _ | _ | _ <;> rfl

@[simp] theorem holds_and (c d : Condition) : holds (and c d) = (holds c && holds d) := by
  rcases c with _ | _ | _ <;> rcases d with _ | _ | _ <;> rfl

@[simp] theorem holds_isNull (column : Option α) : holds (isNull column) = column.isNone := by
  cases column <;> rfl

@[simp] theorem holds_isNotNull (column : Option α) : holds (isNotNull column) = column.isSome := by
  cases column <;> rfl

@[simp] theorem holds_test (p : α → Bool) (column : Option α) :
    holds (test p column) = column.any p := by
  cases column with
  | none => rfl
  | some x => cases h : p x <;> simp [holds, test, h]

variable [DecidableEq α]

theorem holds_eq {column : Option α} {value : α} :
    holds (eq column value) = true ↔ column = some value := by
  cases column with
  | none => simp [holds, eq]
  | some x => simp [holds, eq]

theorem holds_eqColumn {column other : Option α} :
    holds (eqColumn column other) = true ↔ ∃ x, column = some x ∧ other = some x := by
  cases other with
  | none => simp [eqColumn, holds]
  | some value =>
    rw [eqColumn, holds_eq]
    constructor
    · intro h
      exact ⟨value, h, rfl⟩
    · rintro ⟨x, hx, hvalue⟩
      rw [hx, hvalue]

/-- NULLs among the selected values neither help nor hurt. -/
theorem holds_isIn {column : Option α} {selected : List (Option α)} :
    holds (isIn column selected) = true ↔ ∃ x, column = some x ∧ some x ∈ selected := by
  induction selected with
  | nil => simp [isIn, holds]
  | cons value rest ih =>
    have hcons : isIn column (value :: rest) = or (eqColumn column value) (isIn column rest) := rfl
    rw [hcons, holds_or, Bool.or_eq_true, holds_eqColumn, ih]
    constructor
    · rintro (⟨x, hx, hvalue⟩ | ⟨x, hx, hmem⟩)
      · exact ⟨x, hx, hvalue ▸ List.mem_cons_self⟩
      · exact ⟨x, hx, List.mem_cons_of_mem _ hmem⟩
    · rintro ⟨x, hx, hmem⟩
      rcases List.mem_cons.mp hmem with hvalue | hmem
      · exact .inl ⟨x, hx, hvalue.symm⟩
      · exact .inr ⟨x, hx, hmem⟩

end

end Kryptolog.Ternary
