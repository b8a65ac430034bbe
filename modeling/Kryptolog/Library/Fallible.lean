import Mathlib.Data.List.Forall2

/-! # Fallible computations

A check that may fail, and rules for reading a successful computation in `Except` backwards:
what each of its parts returned. Nothing here mentions this repository.
-/

namespace Kryptolog.Fallible
set_option autoImplicit false

variable {ε α β : Type}

theorem bind_eq_ok {x : Except ε α} {f : α → Except ε β} {b : β} :
    (x >>= f) = .ok b ↔ ∃ a, x = .ok a ∧ f a = .ok b := by
  cases x with
  | error e => simp [bind, Except.bind]
  | ok a => simp [bind, Except.bind]

theorem bind_eq_error {x : Except ε α} {f : α → Except ε β} {e : ε} :
    (x >>= f) = .error e ↔ x = .error e ∨ ∃ a, x = .ok a ∧ f a = .error e := by
  cases x <;> simp [bind, Except.bind]

theorem ok_bind (a : α) (f : α → Except ε β) : (Except.ok a >>= f) = f a := rfl

/-- A check: it fails with `e` under the condition `c` and does nothing else. -/
def refuseIf (c : Bool) (e : ε) : Except ε Unit := if c then .error e else .ok ()

theorem refuseIf_eq_ok {c : Bool} {e : ε} {u : Unit} : refuseIf c e = .ok u ↔ c = false := by
  cases c <;> simp [refuseIf]

theorem require_eq_ok {c : Prop} [Decidable c] {e : ε} {u : Unit} :
    (if c then .ok () else .error e) = (.ok u : Except ε Unit) ↔ c := by
  by_cases hc : c <;> simp [hc]

theorem map_eq_ok {x : Except ε α} {f : α → β} {b : β} :
    x.map f = .ok b ↔ ∃ a, x = .ok a ∧ f a = b := by
  cases x with
  | error e => simp [Except.map]
  | ok a => simp [Except.map]

/-- A loop of checks passes when every check does. -/
theorem forM_eq_ok {f : α → Except ε Unit} {xs : List α} :
    xs.forM f = .ok () ↔ ∀ x ∈ xs, f x = .ok () := by
  rw [List.forM_eq_forM]
  induction xs with
  | nil => simp [pure, Except.pure]
  | cons x xs ih =>
    rw [List.forM_cons, bind_eq_ok]
    constructor
    · rintro ⟨u, hx, hxs⟩
      exact List.forall_mem_cons.mpr ⟨hx, ih.mp hxs⟩
    · intro h
      exact ⟨(), h x List.mem_cons_self, ih.mpr fun y hy => h y (List.mem_cons_of_mem _ hy)⟩

/-- A loop that collects results returns one for each item, in order. -/
theorem mapM_eq_ok {f : α → Except ε β} {xs : List α} {ys : List β} :
    xs.mapM f = .ok ys ↔ List.Forall₂ (fun x y => f x = .ok y) xs ys := by
  induction xs generalizing ys with
  | nil => simp [pure, Except.pure, eq_comm]
  | cons x xs ih =>
    rw [List.mapM_cons, bind_eq_ok]
    constructor
    · rintro ⟨y, hy, h⟩
      obtain ⟨ys', hys', h⟩ := bind_eq_ok.mp h
      obtain rfl : y :: ys' = ys := by simpa [pure, Except.pure] using h
      exact .cons hy (ih.mp hys')
    · intro h
      cases h with
      | cons hy hys => exact ⟨_, hy, bind_eq_ok.mpr ⟨_, ih.mpr hys, rfl⟩⟩

/-- The results of a loop. -/
theorem mem_mapM {f : α → Except ε β} {xs : List α} {ys : List β} (h : xs.mapM f = .ok ys) {y : β} :
    y ∈ ys ↔ ∃ x ∈ xs, f x = .ok y := by
  have hall := mapM_eq_ok.mp h
  clear h
  induction hall with
  | nil => simp
  | cons hy _ ih => simp [ih, hy, eq_comm]

theorem mapM_isOk {f : α → Except ε β} {xs : List α} :
    (∃ ys, xs.mapM f = .ok ys) ↔ ∀ x ∈ xs, ∃ y, f x = .ok y := by
  induction xs with
  | nil => simp [pure, Except.pure]
  | cons x xs ih =>
    rw [List.forall_mem_cons, ← ih]
    constructor
    · rintro ⟨ys, h⟩
      cases mapM_eq_ok.mp h with
      | cons hy hrest => exact ⟨⟨_, hy⟩, _, mapM_eq_ok.mpr hrest⟩
    · rintro ⟨⟨y, hy⟩, ys, hys⟩
      exact ⟨y :: ys, mapM_eq_ok.mpr (.cons hy (mapM_eq_ok.mp hys))⟩

/-- A loop fails with the failure of its first item that fails. -/
theorem mapM_eq_error {f : α → Except ε β} {xs : List α} {e : ε} :
    xs.mapM f = .error e ↔
      ∃ pre x post, xs = pre ++ x :: post ∧ (∀ y ∈ pre, ∃ b, f y = .ok b) ∧ f x = .error e := by
  induction xs with
  | nil => simp [pure, Except.pure]
  | cons x xs ih =>
    rw [List.mapM_cons]
    constructor
    · intro h
      cases hx : f x with
      | error e' =>
        rw [hx] at h
        obtain rfl : e' = e := Except.error.inj h
        exact ⟨[], x, xs, rfl, (fun _ h => by cases h), hx⟩
      | ok b =>
        rw [hx, ok_bind] at h
        cases hxs : xs.mapM f with
        | error e' =>
          rw [hxs] at h
          obtain rfl : e' = e := Except.error.inj h
          obtain ⟨pre, y, post, rfl, hpre, hy⟩ := ih.mp hxs
          exact ⟨x :: pre, y, post, rfl, List.forall_mem_cons.mpr ⟨⟨b, hx⟩, hpre⟩, hy⟩
        | ok ys =>
          rw [hxs] at h
          cases h
    · rintro ⟨pre, y, post, hsplit, hpre, hy⟩
      cases pre with
      | nil =>
        obtain ⟨rfl, rfl⟩ := List.cons.inj hsplit
        rw [hy]
        rfl
      | cons z pre =>
        obtain ⟨rfl, rfl⟩ := List.cons.inj hsplit
        obtain ⟨⟨b, hb⟩, hpre⟩ := List.forall_mem_cons.mp hpre
        rw [hb, ok_bind, ih.mpr ⟨pre, y, post, rfl, hpre, hy⟩]
        rfl

/-- A loop over a state passes when every step can be taken. -/
theorem foldlM_isOk {σ : Type} {f : σ → α → Except ε σ} {xs : List α}
    (h : ∀ s, ∀ x ∈ xs, ∃ s', f s x = .ok s') (s : σ) : ∃ s', xs.foldlM f s = .ok s' := by
  induction xs generalizing s with
  | nil => exact ⟨s, rfl⟩
  | cons x xs ih =>
    obtain ⟨s', hs'⟩ := h s x List.mem_cons_self
    obtain ⟨t, ht⟩ := ih (fun s y hy => h s y (List.mem_cons_of_mem _ hy)) s'
    exact ⟨t, bind_eq_ok.mpr ⟨s', hs', ht⟩⟩

theorem mapM_eq_some {f : α → Option β} {xs : List α} {ys : List β} :
    xs.mapM f = some ys ↔ List.Forall₂ (fun x y => f x = some y) xs ys := by
  induction xs generalizing ys with
  | nil => simp [eq_comm]
  | cons x xs ih =>
    rw [List.mapM_cons, Option.bind_eq_bind, Option.bind_eq_some_iff]
    constructor
    · rintro ⟨y, hy, h⟩
      obtain ⟨ys', hys', h⟩ := Option.bind_eq_some_iff.mp h
      obtain rfl : y :: ys' = ys := by simpa using h
      exact .cons hy (ih.mp hys')
    · intro h
      cases h with
      | cons hy hys => exact ⟨_, hy, Option.bind_eq_some_iff.mpr ⟨_, ih.mpr hys, rfl⟩⟩

theorem mapM_eq_none {f : α → Option β} {xs : List α} : xs.mapM f = none ↔ ∃ x ∈ xs, f x = none := by
  induction xs with
  | nil => simp
  | cons x xs ih =>
    rw [List.mapM_cons, List.exists_mem_cons_iff, ← ih]
    cases hx : f x with
    | none => simp
    | some y => cases hxs : xs.mapM f <;> simp

/-- Every result of a loop has a property when every item has such a result. -/
theorem exists_mapM_forall {f : α → Option β} {P : β → Prop} {xs : List α} :
    (∃ ys, xs.mapM f = some ys ∧ ∀ y ∈ ys, P y) ↔ ∀ x ∈ xs, ∃ y, f x = some y ∧ P y := by
  induction xs with
  | nil => simp
  | cons x xs ih =>
    rw [List.forall_mem_cons, ← ih]
    constructor
    · rintro ⟨ys, hys, hall⟩
      cases mapM_eq_some.mp hys with
      | cons hy hrest =>
        obtain ⟨hP, hPs⟩ := List.forall_mem_cons.mp hall
        exact ⟨⟨_, hy, hP⟩, _, mapM_eq_some.mpr hrest, hPs⟩
    · rintro ⟨⟨y, hy, hP⟩, ys, hys, hPs⟩
      exact ⟨y :: ys, mapM_eq_some.mpr (.cons hy (mapM_eq_some.mp hys)), List.forall_mem_cons.mpr ⟨hP, hPs⟩⟩

end Kryptolog.Fallible
