import Kryptolog.Library.Tasks

/-! # Programs that remember their calls

A program with the list of the calls that it was given beside what its tasks share. It does what the
program does, and the call of a number is found in the list under it: a rule for the program with its
history speaks of what was asked, and by whom, long after the task that was asked has gone on. Nothing
here mentions this repository.
-/

namespace Kryptolog.Tasks
set_option autoImplicit false

open Runs

variable {σ P ρ : Type}

def Action.asked : Action ρ → List ρ
  | call r => [r]
  | _ => []

/-- The calls of a run, in order. -/
def calls (as : List (Action ρ)) : List ρ := as.flatMap Action.asked

def Program.remembering (M : Program σ P ρ) : Program (σ × List ρ) P ρ where
  call n r s := (((M.call n r s.1).1, s.2 ++ [r]), (M.call n r s.1).2)
  resume p s := (M.resume p s.1).map fun out => ((out.1, s.2), out.2)
  restart s := (M.restart s.1, s.2)

def State.remembering (s : State σ P) (log : List ρ) : State (σ × List ρ) P := ⟨(s.shared, log), s.tasks⟩

variable {M : Program σ P ρ} {s t : State σ P}

theorem step_remembering {a : Action ρ} (h : M.step s a = some t) (log : List ρ) :
    M.remembering.step (s.remembering log) a = some (t.remembering (log ++ a.asked)) := by
  cases a with
  | call r =>
    obtain rfl := Option.some.inj h
    rfl
  | resume i =>
    obtain ⟨p, d, q, hp, hout, rfl⟩ := Program.step_resume h
    have htask : State.task ⟨(s.shared, log), s.tasks⟩ i = some p := hp
    simp only [Program.step, Program.remembering, State.remembering, htask, Option.bind_eq_bind, Option.bind_some,
      hout, Option.map_some, Action.asked, List.append_nil]
  | restart =>
    obtain rfl := Option.some.inj h
    simp only [Program.step, Program.remembering, State.remembering, Action.asked, List.append_nil]

theorem run_remembering {as : List (Action ρ)} (h : Run (ofPartial M.step) s as t) (log : List ρ) :
    Run (ofPartial M.remembering.step) (s.remembering log) as (t.remembering (log ++ calls as)) := by
  induction h generalizing log with
  | nil s =>
    rw [calls, List.flatMap_nil, List.append_nil]
    exact .nil _
  | @cons s u t a as hstep _ ih =>
    rw [calls, List.flatMap_cons, ← List.append_assoc]
    exact .cons (step_remembering hstep log) (ih _)

/-- What a rule of the program with its history says of a run of the program. -/
theorem Rule.run_asked {Inv : ℕ → σ × List ρ → Prop} {Fact : σ × List ρ → ℕ → P → Prop}
    (R : Rule M.remembering Inv Fact (fun _ _ => True) fun _ _ => True) {c : σ} (hc : Inv 0 (c, []))
    {as : List (Action ρ)} (h : Run (ofPartial M.step) (.start c) as s) :
    Holds Inv Fact (s.remembering (calls as)) := by
  have hrun := run_remembering h []
  rw [List.nil_append] at hrun
  refine R.run_holds (hrun.mono fun s a t hst => ⟨?_, hst⟩) (.start hc)
  cases a with
  | call r => trivial
  | resume i => exact fun _ _ => trivial
  | restart => trivial

end Kryptolog.Tasks
