import Kryptolog.Library.Tasks

/-! # Two runs in lockstep

Two states of one program, and the same actions from both. Where each turn of the one has its turn of
the other, and what is related before is related after it, every run from the one has its run from the
other. Nothing here mentions this repository.
-/

namespace Kryptolog.Tasks
set_option autoImplicit false

open Runs

variable {σ P ρ : Type}

namespace State

theorem task_push_new (c : σ) (tasks : List (Option P)) (q : P) :
    State.task ⟨c, tasks ++ [some q]⟩ tasks.length = some q := by
  simp [State.task]

theorem task_push_old {c d : σ} {tasks : List (Option P)} {p q : P} {i : ℕ}
    (h : State.task ⟨d, tasks⟩ i = some p) : State.task ⟨c, tasks ++ [some q]⟩ i = some p := by
  have hlt := lt_of_task h
  unfold State.task at h ⊢
  rw [List.getElem?_append_left hlt]
  exact h

theorem task_set_here {c : σ} {tasks : List (Option P)} {q : P} {i : ℕ} (h : i < tasks.length) :
    State.task ⟨c, tasks.set i (some q)⟩ i = some q := by
  simp [State.task, h]

theorem task_set_elsewhere {c d : σ} {tasks : List (Option P)} {p q : P} {i j : ℕ} (hne : j ≠ i)
    (h : State.task ⟨d, tasks⟩ j = some p) : State.task ⟨c, tasks.set i (some q)⟩ j = some p := by
  unfold State.task at h ⊢
  rw [List.getElem?_set_ne fun heq => hne heq.symm]
  exact h

end State

/-- What the allowed calls and the turns of the first state do, those of the second do as well. -/
structure Lockstep (M : Program σ P ρ) (R : σ → σ → Prop) (Q : P → P → Prop) (Allowed : ρ → Prop) : Prop where
  call : ∀ n r c d, Allowed r → R c d →
    R (M.call n r c).1 (M.call n r d).1 ∧ Q (M.call n r c).2 (M.call n r d).2
  resume : ∀ c d p q c' p', R c d → Q p q → M.resume p c = some (c', p') →
    ∃ d' q', M.resume q d = some (d', q') ∧ R c' d' ∧ Q p' q'
  restart : ∀ c d, R c d → R (M.restart c) (M.restart d)

/-- The shared states are related, and so is each task of the first with its task of the second. -/
structure Related (R : σ → σ → Prop) (Q : P → P → Prop) (s t : State σ P) : Prop where
  shared : R s.shared t.shared
  length : s.tasks.length = t.tasks.length
  tasks : ∀ i p, s.task i = some p → ∃ q, t.task i = some q ∧ Q p q

section lockstep

variable {M : Program σ P ρ} {R : σ → σ → Prop} {Q : P → P → Prop} {Allowed : ρ → Prop}
  {s s' t : State σ P} {a : Action ρ}

theorem Related.start {c d : σ} (h : R c d) : Related R Q (State.start c : State σ P) (.start d) where
  shared := h
  length := rfl
  tasks i p hp := by simp at hp

theorem Lockstep.step (L : Lockstep M R Q Allowed) (h : Related R Q s t)
    (ha : Prepared (fun _ r => Allowed r) (fun _ _ => True) s a) (hstep : M.step s a = some s') :
    ∃ t', M.step t a = some t' ∧ Related R Q s' t' := by
  cases a with
  | call r =>
    obtain rfl := Option.some.inj hstep
    obtain ⟨hshared, hpoint⟩ := L.call s.tasks.length r _ _ ha h.shared
    refine ⟨_, rfl, ?_⟩
    rw [← h.length]
    refine ⟨hshared, by simp [h.length], fun i p hp => ?_⟩
    rcases State.task_push hp with ⟨rfl, rfl⟩ | ⟨-, hp⟩
    · refine ⟨_, ?_, hpoint⟩
      rw [h.length]
      exact State.task_push_new ..
    · obtain ⟨q, hq, hrel⟩ := h.tasks i p hp
      exact ⟨q, State.task_push_old hq, hrel⟩
  | resume i =>
    obtain ⟨p, c', p', hp, hout, rfl⟩ := Program.step_resume hstep
    obtain ⟨q, hq, hrel⟩ := h.tasks i p hp
    obtain ⟨d', q', hout', hshared, hpoint⟩ := L.resume _ _ p q c' p' h.shared hrel hout
    refine ⟨⟨d', t.tasks.set i (some q')⟩, ?_, hshared, by simp [h.length], fun j r hr => ?_⟩
    · simp only [Program.step, hq, hout', Option.bind_eq_bind, Option.bind_some]
    · rcases State.task_set hr with ⟨rfl, rfl⟩ | ⟨hne, hr⟩
      · exact ⟨q', State.task_set_here (State.lt_of_task hq), hpoint⟩
      · obtain ⟨u, hu, hrel'⟩ := h.tasks j r hr
        exact ⟨u, State.task_set_elsewhere hne hu, hrel'⟩
  | restart =>
    obtain rfl := Option.some.inj hstep
    refine ⟨_, rfl, L.restart _ _ h.shared, by simp [h.length], fun i p hp => ?_⟩
    -- no task is left
    rw [State.task, Option.join_eq_some_iff, List.getElem?_map] at hp
    obtain ⟨-, -, hnone⟩ := Option.map_eq_some_iff.mp hp
    cases hnone

theorem Lockstep.run (L : Lockstep M R Q Allowed) {as : List (Action ρ)} (h : Related R Q s t)
    (hrun : Run (restrict (Prepared (fun _ r => Allowed r) fun _ _ => True) (ofPartial M.step)) s as s') :
    ∃ t', Run (ofPartial M.step) t as t' ∧ Related R Q s' t' := by
  induction hrun generalizing t with
  | nil => exact ⟨t, .nil t, h⟩
  | cons hstep _ ih =>
    obtain ⟨t₁, hstep₁, h₁⟩ := L.step h hstep.1 hstep.2
    obtain ⟨t', hrun', h'⟩ := ih h₁
    exact ⟨t', .cons hstep₁ hrun', h'⟩

end lockstep

end Kryptolog.Tasks
