import Mathlib.Logic.Relation

/-! # Runs of a labelled step relation

Generic machinery for systems that take one labelled step after another. Nothing here
mentions this repository.

* `Run step s as t`: the steps `as`, taken in order, lead from `s` to `t`.
* `restrict C step`: the steps of `step` that meet the condition `C` before they are taken.
  A run "whose steps all meet `C`" is a run of the restricted relation.
* `Run.invariant` and `Run.preserves`: what every step keeps, every run keeps.
-/

namespace Kryptolog.Runs
set_option autoImplicit false

variable {σ α : Type*}

/-- `Run step s as t`: taking the steps `as` one after the other leads from `s` to `t`. -/
inductive Run (step : σ → α → σ → Prop) : σ → List α → σ → Prop
  | nil (s : σ) : Run step s [] s
  | cons {s t u : σ} {a : α} {as : List α} :
      step s a t → Run step t as u → Run step s (a :: as) u

/-- The steps of `step` taken where `C` holds. -/
def restrict (C : σ → α → Prop) (step : σ → α → σ → Prop) : σ → α → σ → Prop :=
  fun s a t => C s a ∧ step s a t

/-- The step relation of a total step function. -/
def ofFun (f : σ → α → σ) : σ → α → σ → Prop := fun s a t => f s a = t

/-- The step relation of a partial step function. -/
def ofPartial (f : σ → α → Option σ) : σ → α → σ → Prop := fun s a t => f s a = some t

/-- The state after actions, where every one of them can be taken. -/
def after (f : σ → α → Option σ) (as : List α) (s : σ) : σ := (as.foldlM f s).getD s

/-- A reflexive, transitive relation that every step of a loop respects relates the two ends of
the loop. -/
theorem foldl_rel {R : σ → σ → Prop} (hrefl : ∀ s, R s s) (htrans : ∀ s t u, R s t → R t u → R s u)
    {f : σ → α → σ} (hf : ∀ s a, R s (f s a)) (as : List α) (s : σ) : R s (as.foldl f s) := by
  induction as generalizing s with
  | nil => exact hrefl s
  | cons a as ih => exact htrans _ _ _ (hf s a) (ih (f s a))

namespace Run

variable {step step' : σ → α → σ → Prop} {s t u : σ} {a : α} {as bs : List α}

theorem single (h : step s a t) : Run step s [a] t := .cons h (.nil t)

theorem append (h : Run step s as t) (h' : Run step t bs u) : Run step s (as ++ bs) u := by
  induction h with
  | nil => exact h'
  | cons hstep _ ih => exact .cons hstep (ih h')

theorem mono (hle : ∀ s a t, step s a t → step' s a t) (h : Run step s as t) :
    Run step' s as t := by
  induction h with
  | nil s => exact .nil s
  | cons hstep _ ih => exact .cons (hle _ _ _ hstep) ih

theorem of_restrict {C : σ → α → Prop} (h : Run (restrict C step) s as t) : Run step s as t :=
  h.mono fun _ _ _ hs => hs.2

/-- Every step of a run is taken with one of its labels. -/
theorem restrict_mem (h : Run step s as t) : Run (restrict (fun _ a => a ∈ as) step) s as t := by
  induction h with
  | nil s => exact .nil s
  | cons hstep _ ih =>
    refine .cons ⟨List.mem_cons_self, hstep⟩ (ih.mono ?_)
    exact fun _ _ _ hs => ⟨List.mem_cons_of_mem _ hs.1, hs.2⟩

/-- What holds at the end of a run and not at its start came with one of its steps. -/
theorem appears {P : σ → Prop} (h : Run step s as t) (ht : P t) :
    P s ∨ ∃ before a after p q, as = before ++ a :: after ∧ Run step s before p ∧
      step p a q ∧ Run step q after t ∧ ¬ P p ∧ P q := by
  induction h with
  | nil => exact .inl ht
  | @cons s q t a as hstep hrun ih =>
    rcases ih ht with hq | ⟨before, b, after, p, q', rfl, hbefore, hb, hafter, hp, hq'⟩
    · by_cases hs : P s
      · exact .inl hs
      · exact .inr ⟨[], a, as, s, q, rfl, .nil s, hstep, hrun, hs, hq⟩
    · exact .inr ⟨a :: before, b, after, p, q', rfl, .cons hstep hbefore, hb, hafter, hp, hq'⟩

/-- An invariant kept by every step holds at the end of every run. -/
theorem invariant {I : σ → Prop} (hstep : ∀ s a t, I s → step s a t → I t)
    (h : Run step s as t) (hs : I s) : I t := by
  induction h with
  | nil => exact hs
  | cons hst _ ih => exact ih (hstep _ _ _ hs hst)

/-- A reflexive, transitive relation that every step taken in the invariant respects relates
the two ends of every run. -/
theorem preserves {I : σ → Prop} {R : σ → σ → Prop} (hrefl : ∀ s, R s s)
    (htrans : ∀ s t u, R s t → R t u → R s u)
    (hI : ∀ s a t, I s → step s a t → I t) (hR : ∀ s a t, I s → step s a t → R s t)
    (h : Run step s as t) (hs : I s) : R s t := by
  induction h with
  | nil s => exact hrefl s
  | cons hst _ ih => exact htrans _ _ _ (hR _ _ _ hs hst) (ih (hI _ _ _ hs hst))

/-- A relation that every step keeps, against the steps that `view` leaves of the labels, relates a run to
the run of what its labels leave. -/
theorem rel_view {f : σ → α → σ} {C : σ → α → Prop} {R : σ → σ → Prop} {view : α → Option α}
    (hstep : ∀ s t a, R s t → C s a → R (f s a) ((view a).elim t (f t)))
    (h : Run (restrict C (ofFun f)) s as u) (hst : R s t) :
    R u ((as.filterMap view).foldl f t) := by
  induction h generalizing t with
  | nil => exact hst
  | @cons s s' u a as hs _ ih =>
    obtain ⟨hclean, rfl⟩ := hs
    have hnext := ih (hstep s t a hst hclean)
    cases hview : view a with
    | none =>
      rw [List.filterMap_cons_none hview]
      rwa [hview] at hnext
    | some b =>
      rw [List.filterMap_cons_some hview, List.foldl_cons]
      rwa [hview] at hnext

/-- The run of a total step function, computed. -/
theorem ofFun_foldl (f : σ → α → σ) (as : List α) (s : σ) :
    Run (ofFun f) s as (as.foldl f s) := by
  induction as generalizing s with
  | nil => exact .nil s
  | cons a as ih => exact .cons rfl (ih (f s a))

/-- The run of a partial step function, computed. -/
theorem ofPartial_foldlM (f : σ → α → Option σ) (as : List α) (s t : σ)
    (h : as.foldlM f s = some t) : Run (ofPartial f) s as t := by
  induction as generalizing s with
  | nil =>
    have hst : s = t := by simpa using h
    exact hst ▸ .nil s
  | cons a as ih =>
    rw [List.foldlM_cons, Option.bind_eq_bind, Option.bind_eq_some_iff] at h
    obtain ⟨s', hs', hrest⟩ := h
    exact .cons hs' (ih s' hrest)

/-- The run of a partial step function whose steps pass a test, computed. -/
theorem restrict_foldlM (f : σ → α → Option σ) {g : σ → α → Bool} {C : σ → α → Prop}
    (hg : ∀ s a, g s a = true → C s a) (as : List α) (s t : σ)
    (h : as.foldlM (fun s a => if g s a then f s a else none) s = some t) :
    Run (restrict C (ofPartial f)) s as t := by
  refine (ofPartial_foldlM _ as s t h).mono fun s a t hst => ?_
  have hst' : (if g s a then f s a else none) = some t := hst
  split at hst'
  · next hpass => exact ⟨hg s a hpass, hst'⟩
  · cases hst'

theorem ofPartial_after {f : σ → α → Option σ} {as : List α} {s : σ} (h : (as.foldlM f s).isSome = true) :
    Run (ofPartial f) s as (after f as s) := by
  obtain ⟨t, ht⟩ := Option.isSome_iff_exists.mp h
  rw [after, ht]
  exact ofPartial_foldlM f as s t ht

theorem restrict_after {f : σ → α → Option σ} {g : σ → α → Bool} {C : σ → α → Prop}
    (hg : ∀ s a, g s a = true → C s a) {as : List α} {s : σ}
    (h : (as.foldlM (fun s a => if g s a then f s a else none) s).isSome = true) :
    Run (restrict C (ofPartial f)) s as (after (fun s a => if g s a then f s a else none) as s) := by
  obtain ⟨t, ht⟩ := Option.isSome_iff_exists.mp h
  rw [after, ht]
  exact restrict_foldlM f hg as s t ht

end Run

end Kryptolog.Runs
