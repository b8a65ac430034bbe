import Mathlib.Data.List.Basic

/-! # Delimited texts

When a text determines the parts that it was put together from: parts separated by a symbol that
none of them holds, and parts of a code that tells by itself where it ends. The symbols are of
any type. Nothing here mentions this repository.
-/

namespace Kryptolog.Delimited
set_option autoImplicit false

variable {α β : Type}

/-- What stands before the first occurrence of a symbol. -/
theorem append_cons_inj {a : α} {xs ys r s : List α} (hx : a ∉ xs) (hy : a ∉ ys)
    (h : xs ++ a :: r = ys ++ a :: s) : xs = ys ∧ r = s := by
  induction xs generalizing ys with
  | nil =>
    cases ys with
    | nil => exact ⟨rfl, (List.cons.inj h).2⟩
    | cons y ys => exact absurd (List.mem_cons.mpr (.inl (List.cons.inj h).1)) hy
  | cons x xs ih =>
    cases ys with
    | nil => exact absurd (List.mem_cons.mpr (.inl (List.cons.inj h).1.symm)) hx
    | cons y ys =>
      obtain ⟨rfl, htail⟩ := List.cons.inj h
      obtain ⟨rfl, hrest⟩ := ih (fun hmem => hx (List.mem_cons_of_mem _ hmem))
        (fun hmem => hy (List.mem_cons_of_mem _ hmem)) htail
      exact ⟨rfl, hrest⟩

/-- What stands before and after the last occurrence of a symbol. -/
theorem append_cons_inj_last {a : α} {xs ys r s : List α} (hr : a ∉ r) (hs : a ∉ s)
    (h : xs ++ a :: r = ys ++ a :: s) : xs = ys ∧ r = s := by
  have hreverse := congrArg List.reverse h
  simp only [List.reverse_append, List.reverse_cons, List.append_assoc, List.singleton_append] at hreverse
  obtain ⟨hrest, hfirst⟩ := append_cons_inj (mt List.mem_reverse.mp hr) (mt List.mem_reverse.mp hs) hreverse
  exact ⟨List.reverse_injective hfirst, List.reverse_injective hrest⟩

/-- The run of symbols of one kind that a text begins with. -/
theorem append_of_all_inj {p : α → Prop} {xs ys r s : List α} (hx : ∀ a ∈ xs, p a)
    (hy : ∀ a ∈ ys, p a) (hr : ∀ a ∈ r.head?, ¬ p a) (hs : ∀ a ∈ s.head?, ¬ p a)
    (h : xs ++ r = ys ++ s) : xs = ys ∧ r = s := by
  induction xs generalizing ys with
  | nil =>
    cases ys with
    | nil => exact ⟨rfl, h⟩
    | cons y ys =>
      have hhead : r.head? = some y := congrArg List.head? h
      exact absurd (hy y List.mem_cons_self) (hr y hhead)
  | cons x xs ih =>
    cases ys with
    | nil =>
      have hhead : s.head? = some x := (congrArg List.head? h).symm
      exact absurd (hx x List.mem_cons_self) (hs x hhead)
    | cons y ys =>
      obtain ⟨rfl, htail⟩ := List.cons.inj h
      obtain ⟨rfl, hrest⟩ := ih (fun a ha => hx a (List.mem_cons_of_mem _ ha))
        (fun a ha => hy a (List.mem_cons_of_mem _ ha)) htail
      exact ⟨rfl, hrest⟩

/-- The parts of a separated text. -/
theorem intercalate_inj [BEq α] [LawfulBEq α] {a : α} {xs ys : List (List α)} (hxne : xs ≠ [])
    (hyne : ys ≠ []) (hx : ∀ x ∈ xs, a ∉ x) (hy : ∀ y ∈ ys, a ∉ y)
    (h : [a].intercalate xs = [a].intercalate ys) : xs = ys := by
  rw [← List.splitOn_intercalate a hx hxne, h, List.splitOn_intercalate a hy hyne]

theorem intercalate_eq_nil {a : α} {xs : List (List α)} (hx : ∀ x ∈ xs, x ≠ []) (h : [a].intercalate xs = []) :
    xs = [] := by
  cases xs with
  | nil => rfl
  | cons x xs =>
    refine absurd ?_ (hx x List.mem_cons_self)
    cases xs with
    | nil => rwa [List.intercalate_singleton] at h
    | cons y ys =>
      rw [List.intercalate_cons_cons] at h
      exact (List.append_eq_nil_iff.mp (List.append_eq_nil_iff.mp h).1).1

/-- The parts of a separated text, none of them empty. -/
theorem intercalate_inj_of_ne_nil [BEq α] [LawfulBEq α] {a : α} {xs ys : List (List α)}
    (hx : ∀ x ∈ xs, x ≠ [] ∧ a ∉ x) (hy : ∀ y ∈ ys, y ≠ [] ∧ a ∉ y)
    (h : [a].intercalate xs = [a].intercalate ys) : xs = ys := by
  by_cases hxs : xs = []
  · subst hxs
    exact (intercalate_eq_nil (fun y hmem => (hy y hmem).1) h.symm).symm
  · have hys : ys ≠ [] := by
      rintro rfl
      exact hxs (intercalate_eq_nil (fun x hmem => (hx x hmem).1) h)
    exact intercalate_inj hxs hys (fun x hmem => (hx x hmem).2) (fun y hmem => (hy y hmem).2) h

/-! ## Codes that tell where they end -/

/-- The code `f` of `a` ends where it ends, whatever follows it, as far as what follows a code
begins in a way that `Ends` allows. -/
def SelfDelimiting (f : β → List α) (Ends : List α → Prop) (a : β) : Prop :=
  ∀ b xs ys, Ends xs → Ends ys → f a ++ xs = f b ++ ys → a = b ∧ xs = ys

variable {f : β → List α} {Ends : List α → Prop} {sep close : α}

theorem intercalate_map_cons (b : β) (bs : List β) :
    [sep].intercalate ((b :: bs).map f) = f b ++ bs.flatMap fun c => sep :: f c := by
  induction bs generalizing b with
  | nil => rw [List.map_singleton, List.intercalate_singleton, List.flatMap_nil, List.append_nil]
  | cons c bs ih =>
    rw [List.map_cons, List.map_cons, List.intercalate_cons_cons, ← List.map_cons, ih,
      List.flatMap_cons, List.append_assoc]
    rfl

theorem ends_flatMap (hsep : ∀ xs, Ends (sep :: xs)) (hclose : ∀ xs, Ends (close :: xs))
    (cs : List β) (zs : List α) : Ends ((cs.flatMap fun c => sep :: f c) ++ close :: zs) := by
  cases cs with
  | nil => exact hclose zs
  | cons c cs => exact hsep _

/-- The codes after the first one, up to the symbol that closes the list. -/
theorem flatMap_close_inj (hsep : ∀ xs, Ends (sep :: xs)) (hclose : ∀ xs, Ends (close :: xs))
    (hne : sep ≠ close) {as bs : List β} {xs ys : List α} (h : ∀ a ∈ as, SelfDelimiting f Ends a)
    (heq : (as.flatMap fun c => sep :: f c) ++ close :: xs =
      (bs.flatMap fun c => sep :: f c) ++ close :: ys) : as = bs ∧ xs = ys := by
  induction as generalizing bs with
  | nil =>
    cases bs with
    | nil => exact ⟨rfl, (List.cons.inj heq).2⟩
    | cons b bs => exact absurd (List.cons.inj heq).1.symm hne
  | cons a as ih =>
    cases bs with
    | nil => exact absurd (List.cons.inj heq).1 hne
    | cons b bs =>
      rw [List.flatMap_cons, List.flatMap_cons, List.append_assoc, List.append_assoc] at heq
      obtain ⟨rfl, hrest⟩ := h a List.mem_cons_self b _ _ (ends_flatMap hsep hclose as xs)
        (ends_flatMap hsep hclose bs ys) (List.cons.inj heq).2
      obtain ⟨rfl, hend⟩ := ih (fun c hc => h c (List.mem_cons_of_mem _ hc)) hrest
      exact ⟨rfl, hend⟩

/-- A list of codes, separated by one symbol and closed by another. -/
theorem intercalate_close_inj (hsep : ∀ xs, Ends (sep :: xs)) (hclose : ∀ xs, Ends (close :: xs))
    (hne : sep ≠ close) (hopen : ∀ b xs rest, f b ++ xs ≠ close :: rest) {as bs : List β}
    {xs ys : List α} (h : ∀ a ∈ as, SelfDelimiting f Ends a)
    (heq : [sep].intercalate (as.map f) ++ close :: xs =
      [sep].intercalate (bs.map f) ++ close :: ys) : as = bs ∧ xs = ys := by
  cases as with
  | nil =>
    cases bs with
    | nil => exact ⟨rfl, (List.cons.inj heq).2⟩
    | cons b bs =>
      rw [intercalate_map_cons, List.append_assoc] at heq
      exact absurd heq.symm (hopen b _ _)
  | cons a as =>
    cases bs with
    | nil =>
      rw [intercalate_map_cons, List.append_assoc] at heq
      exact absurd heq (hopen a _ _)
    | cons b bs =>
      rw [intercalate_map_cons, intercalate_map_cons, List.append_assoc, List.append_assoc] at heq
      obtain ⟨rfl, hrest⟩ := h a List.mem_cons_self b _ _ (ends_flatMap hsep hclose as xs)
        (ends_flatMap hsep hclose bs ys) heq
      obtain ⟨rfl, hend⟩ := flatMap_close_inj hsep hclose hne
        (fun c hc => h c (List.mem_cons_of_mem _ hc)) hrest
      exact ⟨rfl, hend⟩

end Kryptolog.Delimited
