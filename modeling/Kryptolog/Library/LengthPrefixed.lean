import Mathlib.Data.List.Basic

/-! # Length-prefixed strings

Each part behind a head that says how long the part is. Where the heads have one width and tell the
lengths apart, the string says what its parts were. Nothing here mentions this repository.
-/

namespace Kryptolog.LengthPrefixed
set_option autoImplicit false

variable {α : Type}

def prefixed (head : ℕ → List α) (parts : List (List α)) : List α :=
  parts.flatMap fun part => head part.length ++ part

/-- The heads have one width, and no two lengths under the bound have the same head. -/
structure Heads (head : ℕ → List α) (bound : ℕ) : Prop where
  width : ∃ w, ∀ n, (head n).length = w + 1
  injective : ∀ m < bound, ∀ n < bound, head m = head n → m = n

variable {head : ℕ → List α} {bound : ℕ} {parts parts' : List (List α)}

theorem Heads.ne_nil (h : Heads head bound) (n : ℕ) : head n ≠ [] := by
  obtain ⟨w, hw⟩ := h.width
  intro hnil
  have hlength := hw n
  rw [hnil, List.length_nil] at hlength
  omega

theorem prefixed_cons (part : List α) (parts : List (List α)) :
    prefixed head (part :: parts) = head part.length ++ (part ++ prefixed head parts) := by
  rw [prefixed, List.flatMap_cons, List.append_assoc]
  rfl

theorem prefixed_cons_ne_nil (h : Heads head bound) (part : List α) (parts : List (List α)) :
    prefixed head (part :: parts) ≠ [] := by
  rw [prefixed_cons]
  intro hnil
  exact h.ne_nil _ (List.append_eq_nil_iff.mp hnil).1

theorem prefixed_inj (h : Heads head bound) (hparts : ∀ part ∈ parts, part.length < bound)
    (hparts' : ∀ part ∈ parts', part.length < bound) (heq : prefixed head parts = prefixed head parts') :
    parts = parts' := by
  induction parts generalizing parts' with
  | nil =>
    cases parts' with
    | nil => rfl
    | cons part' parts' => exact absurd heq.symm (prefixed_cons_ne_nil h part' parts')
  | cons part parts ih =>
    cases parts' with
    | nil => exact absurd heq (prefixed_cons_ne_nil h part parts)
    | cons part' parts' =>
      rw [prefixed_cons, prefixed_cons] at heq
      obtain ⟨w, hw⟩ := h.width
      obtain ⟨hhead, hrest⟩ := List.append_inj heq ((hw _).trans (hw _).symm)
      have hlength : part.length = part'.length :=
        h.injective _ (hparts part List.mem_cons_self) _ (hparts' part' List.mem_cons_self) hhead
      obtain ⟨hpart, htail⟩ := List.append_inj hrest hlength
      have htails := ih (fun q hq => hparts q (List.mem_cons_of_mem _ hq))
        (fun q hq => hparts' q (List.mem_cons_of_mem _ hq)) htail
      rw [hpart, htails]

end Kryptolog.LengthPrefixed
