import Kryptolog.Library.Runs
import Mathlib.Data.Nat.Notation
import Mathlib.Data.List.Basic
import Mathlib.Logic.Relation

/-! # Tasks that take turns

A program on an event loop: its tasks share a state, and one gives way to another at its await
points only. A call runs to its first await, and each resumption runs to the next one. A restart
drops the tasks and what the program kept in memory.

`Rule` is the rule for facts of the shared state and of each task: what a task does on its turn
keeps its own facts and those of the others. `Leads` is a task that nothing interrupts. Nothing here
mentions this repository.
-/

namespace Kryptolog.Tasks
set_option autoImplicit false

open Runs

/-- The calls are numbered in the order in which they come. A point with no resumption is one
where its task has ended. -/
structure Program (σ P ρ : Type) where
  call : ℕ → ρ → σ → σ × P
  resume : P → σ → Option (σ × P)
  restart : σ → σ

structure State (σ P : Type) where
  shared : σ
  tasks : List (Option P)

inductive Action (ρ : Type)
  | call (r : ρ)
  | resume (i : ℕ)
  | restart

variable {σ P ρ : Type}

namespace State

def start (c : σ) : State σ P := ⟨c, []⟩

def task (s : State σ P) (i : ℕ) : Option P := s.tasks[i]?.join

@[simp] theorem task_start (c : σ) (i : ℕ) : (start c : State σ P).task i = none := by
  simp [start, task]

theorem lt_of_task {s : State σ P} {i : ℕ} {p : P} (h : s.task i = some p) : i < s.tasks.length := by
  by_contra hlen
  rw [task, List.getElem?_eq_none (by omega)] at h
  cases h

theorem task_push {c : σ} {tasks : List (Option P)} {p q : P} {i : ℕ}
    (h : State.task ⟨c, tasks ++ [some q]⟩ i = some p) :
    (i = tasks.length ∧ p = q) ∨ (i < tasks.length ∧ tasks[i]?.join = some p) := by
  unfold task at h
  rw [List.getElem?_append] at h
  split at h
  · next hlt => exact .inr ⟨hlt, h⟩
  · rw [List.getElem?_singleton] at h
    split at h
    · next hge hzero =>
      refine .inl ⟨by omega, ?_⟩
      simpa using h.symm
    · cases h

theorem task_set {c : σ} {tasks : List (Option P)} {p q : P} {i j : ℕ}
    (h : State.task ⟨c, tasks.set i (some q)⟩ j = some p) :
    (j = i ∧ p = q) ∨ (j ≠ i ∧ tasks[j]?.join = some p) := by
  unfold task at h
  rw [List.getElem?_set] at h
  by_cases hij : i = j
  · rw [if_pos hij] at h
    split at h
    · exact .inl ⟨hij.symm, by simpa using h.symm⟩
    · cases h
  · rw [if_neg hij] at h
    exact .inr ⟨fun e => hij e.symm, h⟩

end State

namespace Program

variable (M : Program σ P ρ)

def step (s : State σ P) : Action ρ → Option (State σ P)
  | .call r =>
    let out := M.call s.tasks.length r s.shared
    some ⟨out.1, s.tasks ++ [some out.2]⟩
  | .resume i => do
    let p ← s.task i
    let out ← M.resume p s.shared
    some ⟨out.1, s.tasks.set i (some out.2)⟩
  | .restart => some ⟨M.restart s.shared, s.tasks.map fun _ => none⟩

variable {M} {s s' : State σ P}

theorem step_resume {i : ℕ} (h : M.step s (.resume i) = some s') :
    ∃ p d q, s.task i = some p ∧ M.resume p s.shared = some (d, q) ∧
      s' = ⟨d, s.tasks.set i (some q)⟩ := by
  obtain ⟨p, hp, h⟩ := Option.bind_eq_some_iff.mp h
  obtain ⟨⟨d, q⟩, hout, h⟩ := Option.bind_eq_some_iff.mp h
  exact ⟨p, d, q, hp, hout, (Option.some.inj h).symm⟩

end Program

/-- The calls and the turns are taken where `CallReady` and `Ready` hold. -/
def Prepared (CallReady : σ → ρ → Prop) (Ready : σ → P → Prop) (s : State σ P) : Action ρ → Prop
  | .call r => CallReady s.shared r
  | .resume i => ∀ p, s.task i = some p → Ready s.shared p
  | .restart => True

/-- Facts `Inv` of the shared state, which may speak of the number of calls, and facts of the tasks
by their number and their point. -/
structure Rule (M : Program σ P ρ) (Inv : ℕ → σ → Prop) (Fact : σ → ℕ → P → Prop)
    (CallReady : σ → ρ → Prop) (Ready : σ → P → Prop) : Prop where
  call : ∀ n c r, Inv n c → CallReady c r → Inv (n + 1) (M.call n r c).1 ∧
    Fact (M.call n r c).1 n (M.call n r c).2 ∧
    ∀ j q, j < n → Fact c j q → Fact (M.call n r c).1 j q
  resume : ∀ n c i p d q, Inv n c → i < n → Fact c i p → Ready c p → M.resume p c = some (d, q) →
    Inv n d ∧ Fact d i q ∧ ∀ j r, j ≠ i → Fact c j r → Fact d j r
  restart : ∀ n c, Inv n c → Inv n (M.restart c)

/-- The invariant of a rule. -/
structure Holds (Inv : ℕ → σ → Prop) (Fact : σ → ℕ → P → Prop) (s : State σ P) : Prop where
  shared : Inv s.tasks.length s.shared
  tasks : ∀ i p, s.task i = some p → Fact s.shared i p

section rule

variable {M : Program σ P ρ} {Inv : ℕ → σ → Prop} {Fact : σ → ℕ → P → Prop}
  {CallReady : σ → ρ → Prop} {Ready : σ → P → Prop} {s s' : State σ P} {a : Action ρ}

theorem Holds.start {c : σ} (h : Inv 0 c) : Holds Inv Fact (State.start c : State σ P) where
  shared := h
  tasks i p hp := by simp at hp

theorem Rule.step_holds (R : Rule M Inv Fact CallReady Ready) (h : Holds Inv Fact s)
    (hstep : M.step s a = some s') (hready : Prepared CallReady Ready s a) : Holds Inv Fact s' := by
  cases a with
  | call r =>
    obtain rfl := Option.some.inj hstep
    obtain ⟨hinv, hfact, hothers⟩ := R.call _ _ r h.shared hready
    refine ⟨?_, fun i p hp => ?_⟩
    · rw [List.length_append, List.length_singleton]
      exact hinv
    · rcases State.task_push hp with ⟨rfl, rfl⟩ | ⟨hlt, hp⟩
      · exact hfact
      · exact hothers i p hlt (h.tasks i p hp)
  | resume i =>
    obtain ⟨p, d, q, hp, hout, rfl⟩ := Program.step_resume hstep
    obtain ⟨hinv, hfact, hothers⟩ := R.resume _ _ i p d q h.shared (State.lt_of_task hp)
      (h.tasks i p hp) (hready p hp) hout
    refine ⟨?_, fun j r hr => ?_⟩
    · rw [List.length_set]
      exact hinv
    · rcases State.task_set hr with ⟨rfl, rfl⟩ | ⟨hji, hr⟩
      · exact hfact
      · exact hothers j r hji (h.tasks j r hr)
  | restart =>
    obtain rfl := Option.some.inj hstep
    refine ⟨?_, fun i p hp => ?_⟩
    · rw [List.length_map]
      exact R.restart _ _ h.shared
    · unfold State.task at hp
      rw [List.getElem?_map] at hp
      cases hget : s.tasks[i]? with
      | none =>
        rw [hget] at hp
        cases hp
      | some p =>
        rw [hget] at hp
        cases hp

theorem Rule.run_holds (R : Rule M Inv Fact CallReady Ready) {as : List (Action ρ)}
    (h : Run (restrict (Prepared CallReady Ready) (ofPartial M.step)) s as s')
    (hs : Holds Inv Fact s) : Holds Inv Fact s' :=
  h.invariant (fun _ _ _ hI hst => R.step_holds hI hst.2 hst.1) hs

end rule

/-! ## One task alone -/

/-- A task goes from one await to the next, with nothing in between. -/
def Leads (resume : σ → P → Option (σ × P)) : σ × P → σ × P → Prop :=
  Relation.ReflTransGen fun s t => resume s.1 s.2 = some t

section alone

variable {go : σ → P → Option (σ × P)} {c e : σ} {p q : P} {out : σ × P}

theorem Leads.ended (h : Leads go (c, p) (e, q)) (hp : go c p = none) : e = c ∧ q = p := by
  rcases h.cases_head with heq | ⟨out, hout, -⟩
  · obtain ⟨rfl, rfl⟩ := Prod.mk.inj heq
    exact ⟨rfl, rfl⟩
  · cases hp.symm.trans hout

/-- There is one way to go on. -/
theorem Leads.resume (h : Leads go (c, p) (e, q)) (hout : go c p = some out) (hq : go e q = none) :
    Leads go out (e, q) := by
  rcases h.cases_head with heq | ⟨out', hout', hrest⟩
  · obtain ⟨rfl, rfl⟩ := Prod.mk.inj heq
    cases hq.symm.trans hout
  · obtain rfl := Option.some.inj (hout.symm.trans hout')
    exact hrest

end alone

end Kryptolog.Tasks
