import Mathlib.Data.List.Nodup

/-! # A list with a pointer to one of its entries

Every entry has an id. The pointer names an entry, and is absent only where there is none. Nothing
here mentions this repository.
-/

namespace Kryptolog.Pointed
set_option autoImplicit false

variable {α ι : Type} {idOf : α → ι} {items new : List α} {pointer : Option ι} {id : ι}

structure WellFormed (idOf : α → ι) (items : List α) (pointer : Option ι) : Prop where
  distinct : (items.map idOf).Nodup
  held : ∀ id, pointer = some id → id ∈ items.map idOf
  absent : pointer = none → items = []

theorem wellFormed_some :
    WellFormed idOf items (some id) ↔ (items.map idOf).Nodup ∧ id ∈ items.map idOf := by
  constructor
  · intro h
    exact ⟨h.distinct, h.held id rfl⟩
  · rintro ⟨hdistinct, hheld⟩
    refine ⟨hdistinct, fun other hother => ?_, fun hnone => by cases hnone⟩
    obtain rfl := Option.some.inj hother
    exact hheld

theorem wellFormed_none : WellFormed idOf items none ↔ items = [] := by
  constructor
  · intro h
    exact h.absent rfl
  · rintro rfl
    exact ⟨List.nodup_nil, fun _ h => (by cases h), fun _ => rfl⟩

/-- A pointer at the first entry. -/
theorem wellFormed_head (h : (items.map idOf).Nodup) : WellFormed idOf items (items.head?.map idOf) := by
  cases items with
  | nil => exact wellFormed_none.mpr rfl
  | cons a items => exact wellFormed_some.mpr ⟨h, List.mem_cons_self⟩

theorem WellFormed.of_ids {items' : List α} (h : WellFormed idOf items pointer)
    (hids : items'.map idOf = items.map idOf) : WellFormed idOf items' pointer where
  distinct := by
    rw [hids]
    exact h.distinct
  held := by
    rw [hids]
    exact h.held
  absent hnone := by
    have hnil := h.absent hnone
    rw [hnil] at hids
    exact List.map_eq_nil_iff.mp hids

/-- What is added is new, and something was pointed at. -/
theorem WellFormed.append_iff (h : WellFormed idOf items pointer) :
    WellFormed idOf (items ++ new) pointer ↔
      (new.map idOf).Nodup ∧ (∀ a ∈ new, idOf a ∉ items.map idOf) ∧ (items = [] → new = []) := by
  have hdistinct : ((items ++ new).map idOf).Nodup ↔
      (new.map idOf).Nodup ∧ ∀ a ∈ new, idOf a ∉ items.map idOf := by
    rw [List.map_append, List.nodup_append']
    constructor
    · rintro ⟨-, hnew, hdisjoint⟩
      exact ⟨hnew, fun a ha hid => hdisjoint hid (List.mem_map_of_mem ha)⟩
    · rintro ⟨hnew, hfresh⟩
      refine ⟨h.distinct, hnew, fun id hid hidnew => ?_⟩
      obtain ⟨a, ha, rfl⟩ := List.mem_map.mp hidnew
      exact hfresh a ha hid
  cases pointer with
  | none =>
    obtain rfl := h.absent rfl
    rw [wellFormed_none]
    constructor
    · intro hnil
      obtain rfl : new = [] := hnil
      exact ⟨List.nodup_nil, fun a ha => (by cases ha), fun _ => rfl⟩
    · rintro ⟨-, -, hnone⟩
      exact hnone rfl
  | some id =>
    have hheld := h.held id rfl
    have hne : items ≠ [] := by
      rintro rfl
      cases hheld
    rw [wellFormed_some, hdistinct, List.map_append]
    constructor
    · rintro ⟨⟨hnew, hfresh⟩, -⟩
      exact ⟨hnew, hfresh, fun hnil => absurd hnil hne⟩
    · rintro ⟨hnew, hfresh, -⟩
      exact ⟨⟨hnew, hfresh⟩, List.mem_append_left _ hheld⟩

/-- One entry is added, and the pointer names it or one that was there. -/
theorem push_iff {a : α} (h : (items.map idOf).Nodup) (hid : id ∈ items.map idOf ∨ id = idOf a) :
    WellFormed idOf (items ++ [a]) (some id) ↔ idOf a ∉ items.map idOf := by
  have hmem : id ∈ (items ++ [a]).map idOf := by
    rw [List.map_append, List.mem_append, List.map_singleton, List.mem_singleton]
    exact hid
  rw [wellFormed_some, and_iff_left hmem, List.map_append, List.map_singleton, List.nodup_append']
  constructor
  · rintro ⟨-, -, hdisjoint⟩ hold
    exact hdisjoint hold List.mem_cons_self
  · intro hfresh
    refine ⟨h, List.nodup_singleton _, fun other hother hnew => ?_⟩
    rw [List.mem_singleton.mp hnew] at hother
    exact hfresh hother

/-- Entries go, but not the one that is pointed at. -/
theorem WellFormed.sublist {items' : List α} (h : WellFormed idOf items pointer) (hsub : items'.Sublist items)
    (hkept : ∀ a ∈ items, pointer = some (idOf a) → a ∈ items') : WellFormed idOf items' pointer where
  distinct := h.distinct.sublist (hsub.map idOf)
  held id hid := by
    obtain ⟨a, ha, rfl⟩ := List.mem_map.mp (h.held id hid)
    exact List.mem_map_of_mem (hkept a ha hid)
  absent hnone := by
    rw [h.absent hnone] at hsub
    exact List.sublist_nil.mp hsub

end Kryptolog.Pointed
