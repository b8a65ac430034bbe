import Mathlib.Data.List.Basic

/-! # Chains of links

A link leads from one key to another. A chain is a list of links, each of which starts at the key where the one
before it ended.
-/

namespace Kryptolog.Links
set_option autoImplicit false

variable {κ ρ : Type} {link link' : κ → ρ → κ → Prop} {a b c : κ} {xs ys : List ρ} {r : ρ}

/-- The links lead from one key to the other. -/
inductive Leads (link : κ → ρ → κ → Prop) : κ → List ρ → κ → Prop
  | nil (a : κ) : Leads link a [] a
  | cons {a b c : κ} {r : ρ} {xs : List ρ} (first : link a r b) (rest : Leads link b xs c) : Leads link a (r :: xs) c

theorem Leads.append (h : Leads link a xs b) (h' : Leads link b ys c) : Leads link a (xs ++ ys) c := by
  induction h with
  | nil a => exact h'
  | cons first _ ih => exact .cons first (ih h')

/-- A chain through a link, cut before it. -/
theorem Leads.split (h : Leads link a (xs ++ r :: ys) c) :
    ∃ k k', Leads link a xs k ∧ link k r k' ∧ Leads link k' ys c := by
  induction xs generalizing a with
  | nil =>
    cases h with
    | cons first rest => exact ⟨a, _, .nil a, first, rest⟩
  | cons x xs ih =>
    cases h with
    | cons first rest =>
      obtain ⟨k, k', hbefore, hlink, hafter⟩ := ih rest
      exact ⟨k, k', .cons first hbefore, hlink, hafter⟩

theorem Leads.forall (h : Leads link a xs c) {P : ρ → Prop} (hP : ∀ k r k', link k r k' → P r) : ∀ r ∈ xs, P r := by
  induction h with
  | nil a => simp
  | cons first _ ih => exact List.forall_mem_cons.mpr ⟨hP _ _ _ first, ih⟩

/-- A chain of one kind of links is one of the other. -/
theorem Leads.mono (h : Leads link a xs c) (hlink : ∀ k r k', link k r k' → link' k r k') : Leads link' a xs c := by
  induction h with
  | nil a => exact .nil a
  | cons first _ ih => exact .cons (hlink _ _ _ first) ih

/-- A chain of one kind of links, replaced link by link. -/
theorem Leads.exists_of_imp (h : Leads link a xs c) (hlink : ∀ k r k', link k r k' → ∃ r', link' k r' k') :
    ∃ ys, Leads link' a ys c := by
  induction h with
  | nil a => exact ⟨[], .nil a⟩
  | cons first _ ih =>
    obtain ⟨ys, hys⟩ := ih
    obtain ⟨r', hr'⟩ := hlink _ _ _ first
    exact ⟨r' :: ys, .cons hr' hys⟩

/-- No chain from the one key to the other has fewer links. -/
structure Shortest (link : κ → ρ → κ → Prop) (a : κ) (xs : List ρ) (c : κ) : Prop where
  leads : Leads link a xs c
  least : ∀ ys, Leads link a ys c → xs.length ≤ ys.length

theorem exists_shortest (h : Leads link a xs c) : ∃ ys, Shortest link a ys c := by
  induction hn : xs.length using Nat.strongRecOn generalizing xs with
  | ind n ih =>
    by_cases hleast : ∀ ys, Leads link a ys c → xs.length ≤ ys.length
    · exact ⟨xs, h, hleast⟩
    · simp only [not_forall, Nat.not_le] at hleast
      obtain ⟨ys, hys, hlt⟩ := hleast
      exact ih ys.length (hn ▸ hlt) hys rfl

/-- A shortest chain comes to no key twice: not to its end before the end, and not back to a key it was at. -/
theorem Shortest.ne_end {k : κ} (h : Shortest link a (xs ++ r :: ys) c) (hbefore : Leads link a xs k) : k ≠ c := by
  rintro rfl
  have hlength := h.least xs hbefore
  rw [List.length_append, List.length_cons] at hlength
  omega

theorem Shortest.ne_before {zs : List ρ} {k k₁ : κ} {r₁ : ρ} (h : Shortest link a (xs ++ r₁ :: ys ++ zs) c)
    (hfirst : Leads link a xs k₁) (hrest : Leads link k zs c) : k ≠ k₁ := by
  rintro rfl
  have hlength := h.least (xs ++ zs) (hfirst.append hrest)
  simp only [List.length_append, List.length_cons] at hlength
  omega

end Kryptolog.Links
